import Midi2.Adt.Fifo
import Midi2.Ump.Dispatcher

/-!
# Translators (`translator.hpp`)

A translator is a configuration of the dispatcher whose context has an output, a ring buffer
of four words, next to the state of the translation. Its functions only ever push messages
to the output. They are written here for any `Sink`, so that one definition is both the code,
with the ring buffer as its sink, and the specification, with a list of messages.

`Translator.run_words` relates the two: if the output is drained after each word that goes
in, then what comes out are the words of the messages, and nothing is lost to a buffer that
is full.
-/

namespace Midi2.Ump

open Adt

/-! ## Sinks -/

/-- Where the messages of a translator go. -/
class Sink (ω : Type) where
  push : ω → Message → ω

/-- `context::push`: each word of the message goes to `output`. -/
instance : Sink (Fifo Word 2) where
  push output value := value.words.foldl (fun f w => (f.pushBack w).2) output

instance : Sink (List Message) where
  push output value := output ++ [value]

/-- A relation between the contents of two sinks that pushing a message keeps. -/
structure Sink.Sim {ω ω' : Type} [Sink ω] [Sink ω'] (R : ω → ω' → Prop) : Prop where
  push : ∀ {a b} (m : Message), R a b → R (Sink.push a m) (Sink.push b m)

/-- The words of some messages, one after the other. -/
def wordsOf (ms : List Message) : List Word :=
  ms.flatMap Message.words

/-- The buffer has the words of the messages, if there is room for so many. -/
def Fits (f : Fifo Word 2) (ms : List Message) : Prop :=
  (wordsOf ms).length ≤ 4 → f.Holds (wordsOf ms)

theorem holds_foldl_pushBack {f : Fifo Word 2} {xs : List Word} (ws : List Word)
    (h : f.Holds xs) (hlen : (xs ++ ws).length ≤ 4) :
    (ws.foldl (fun f w => (f.pushBack w).2) f).Holds (xs ++ ws) := by
  rw [List.length_append] at hlen
  have hall := h.foldl_pushBack ws
  rwa [List.take_of_length_le (by omega)] at hall

theorem fits_sim : Sink.Sim Fits where
  push {f ms} m h := by
    intro hlen
    have hwords : wordsOf (Sink.push ms m) = wordsOf ms ++ m.words := by
      simp [wordsOf, Sink.push]
    rw [hwords] at hlen ⊢
    refine holds_foldl_pushBack _ (h ?_) hlen
    rw [List.length_append] at hlen
    omega

/-! ## Contexts -/

/-- The context of a translator: its output, and what else it keeps. -/
structure Context (τ ω : Type) where
  state : τ
  output : ω

namespace Context

variable {τ ω ω' : Type}

/-- A change of what is kept next to the output. -/
def update (ctxt : Context τ ω) (f : τ → τ) : Context τ ω :=
  { ctxt with state := f ctxt.state }

/-- Contexts that differ in nothing but the kind of their sinks. -/
structure Rel (R : ω → ω' → Prop) (a : Context τ ω) (b : Context τ ω') : Prop where
  state : a.state = b.state
  output : R a.output b.output

theorem Rel.update {R : ω → ω' → Prop} {a : Context τ ω} {b : Context τ ω'} (h : Rel R a b)
    (f : τ → τ) : Rel R (a.update f) (b.update f) :=
  ⟨congrArg f h.state, h.output⟩

variable [Sink ω] [Sink ω']

def push (ctxt : Context τ ω) (value : Message) : Context τ ω :=
  { ctxt with output := Sink.push ctxt.output value }

@[simp] theorem output_push (ctxt : Context τ (List Message)) (m : Message) :
    (ctxt.push m).output = ctxt.output ++ [m] := rfl

theorem Rel.push {R : ω → ω' → Prop} (hR : Sink.Sim R) {a : Context τ ω} {b : Context τ ω'}
    (h : Rel R a b) (m : Message) : Rel R (a.push m) (b.push m) :=
  ⟨h.state, hR.push m h.output⟩

end Context

/-! ## Translators -/

/-- The functions of a translator's configuration. They treat all sinks alike, and for each
packet they push whole messages, of four words in total at most. -/
structure Translator (τ : Type) where
  call : ∀ {ω : Type} [Sink ω], Call → Context τ ω → Context τ ω
  uniform : ∀ {ω ω' : Type} [Sink ω] [Sink ω'] {R : ω → ω' → Prop} (_ : Sink.Sim R) (c : Call)
    {a : Context τ ω} {b : Context τ ω'}, a.Rel R b → (call c a).Rel R (call c b)
  fits : ∀ (p : Packet) (s : τ),
    (wordsOf (call p.message.call (⟨s, []⟩ : Context τ (List Message))).output).length ≤ 4
  whole : ∀ (p : Packet) (s : τ),
    ∀ m ∈ (call p.message.call (⟨s, []⟩ : Context τ (List Message))).output, m.Whole

namespace Translator

variable {τ : Type} (t : Translator τ)

/-- What a translator does for a packet: its new state, and the messages it pushes. -/
def messages (s : τ) (p : Packet) : Context τ (List Message) :=
  t.call p.message.call ⟨s, []⟩

/-- The translation, packet by packet. -/
def translation : Machine Packet Packet τ where
  step s p :=
    ((t.messages s p).state,
      (t.messages s p).output.attach.map fun m => ⟨m.1, t.whole p s m.1 m.2⟩)

theorem step_of_output {s : τ} {p : Packet} {m : Message} (h : (t.messages s p).output = [m])
    (hm : m.Whole) : t.translation.step s p = ((t.messages s p).state, [⟨m, hm⟩]) := by
  have hattach : ∀ (ms : List Message) (hms : ∀ m ∈ ms, m.Whole), ms = [m] →
      ms.attach.map (fun x => (⟨x.1, hms x.1 x.2⟩ : Packet)) = [⟨m, hm⟩] := by
    rintro _ _ rfl
    rfl
  exact Prod.ext rfl (hattach _ (t.whole p s) h)

/-- Between packets the output is empty. -/
def Drained (c : Context τ (Fifo Word 2)) (s : τ) : Prop :=
  c.state = s ∧ c.output.Holds []

/-- `while (!empty()) pop();`. The output has no more than four words. -/
def drain (c : Context τ (Fifo Word 2)) : Context τ (Fifo Word 2) × List Word :=
  ({ c with output := (c.output.drain 4).2 }, (c.output.drain 4).1)

/-- A packet: the words of its messages come out, and the output is empty again. -/
theorem drain_call {c : Context τ (Fifo Word 2)} {s : τ} (h : Drained c s) (p : Packet) :
    Drained (drain (t.call p.message.call c)).1 (t.messages s p).state ∧
    (drain (t.call p.message.call c)).2 = wordsOf (t.messages s p).output := by
  have hrel : c.Rel Fits (⟨s, []⟩ : Context τ (List Message)) := ⟨h.1, fun _ => h.2⟩
  obtain ⟨hstate, houtput⟩ := t.uniform fits_sim p.message.call hrel
  have hholds := houtput (t.fits p s)
  obtain ⟨hwords, hempty⟩ := hholds.drain hholds.length_le
  exact ⟨⟨hstate, hempty⟩, hwords⟩

/-- A translator as a client of the dispatcher. -/
def client : Client Word (Context τ (Fifo Word 2)) where
  call := t.call
  flush := drain
  Idle c := c.output.Holds []
  flush_idle h := by
    have hempty := h.empty_iff.2 rfl
    rw [drain, Fifo.drain, if_pos hempty]
  idle_call p {c} h := (t.drain_call (s := c.state) ⟨rfl, h⟩ p).1.2

theorem words_step (s : τ) (p : Packet) :
    (t.translation.step s p).2.flatMap Packet.words = wordsOf (t.messages s p).output := by
  have hattach := List.attach_map_subtype_val (t.messages s p).output
  calc (t.translation.step s p).2.flatMap Packet.words
      = ((t.messages s p).output.attach.map Subtype.val).flatMap Message.words := by
        simp only [translation, List.flatMap_map, Packet.words]
    _ = wordsOf (t.messages s p).output := by rw [hattach, wordsOf]

theorem refines : t.client.perPacket.Refines t.translation (fun p => [p]) Packet.words Drained where
  state p h := by
    rw [Machine.run_singleton]
    exact (t.drain_call h p).1
  output {c s} p h := by
    rw [Machine.run_singleton, words_step]
    exact (t.drain_call h p).2

/-- `push(word)` for each of the words, with the output drained after each: the context at
the end, and what came out. -/
def run (init : τ) (words : List Word) : Context τ (Fifo Word 2) × List Word :=
  let r := t.client.perWord.run ({}, ⟨init, {}⟩) words
  (r.1.2, r.2)

/-- Whole messages go in, and the words of whole messages come out. -/
theorem run_words (init : τ) (ps : List Packet) :
    (t.run init (ps.flatMap Packet.words)).1.state = (t.translation.run init ps).1 ∧
    (t.run init (ps.flatMap Packet.words)).2 =
      (t.translation.run init ps).2.flatMap Packet.words := by
  have hidle : t.client.Idle (⟨init, {}⟩ : Context τ (Fifo Word 2)) := Fifo.holds_nil
  obtain ⟨hstate, houtput⟩ := t.refines.run ps (⟨rfl, Fifo.holds_nil⟩ : Drained ⟨init, {}⟩ init)
  obtain ⟨hcontext, hwords⟩ := t.client.run_words hidle ps
  rw [List.flatMap_singleton'] at hstate houtput
  exact ⟨by rw [run, hcontext]; exact hstate.1, by rw [run, hwords, houtput]⟩

end Translator

end Midi2.Ump
