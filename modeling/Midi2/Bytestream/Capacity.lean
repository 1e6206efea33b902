import Midi2.Bytestream.Reset
import Midi2.Bytestream.ToUmp
import Midi2.Bytestream.Usbm1ToBytestream

/-!
# Room in the output

No translator looks at what `push_back` of its output returns. With a `Watched` buffer in the
place of the output this is recorded, so that one can say of a `push` that it has `Kept`
everything: no `push_back` has failed, and what was written can be popped.
`translators_keepAll` says so of all five translators, in every state that can be reached, if the
output is empty. It is a matter of sizes: four words are enough for what one word or byte makes
a translator send, eight bytes for a system exclusive message of six with its start and its
end, and four for a USB-MIDI packet.
-/

namespace Midi2.Bytestream

open Adt Ump
open Adt.Fifo (Output)

/-! ## A buffer that is watched -/

/-- A ring buffer, and for each `push_back` the value and what was returned. -/
structure Watched (α : Type) (k : Nat) where
  fifo : Fifo α k
  record : List (α × Bool) := []

namespace Watched

variable {α : Type} {k : Nat}

instance : Output (Watched α k) α where
  pushBack w value := ⟨(w.fifo.pushBack value).2, w.record ++ [(value, (w.fifo.pushBack value).1)]⟩

instance : Sink (Watched Word 2) where
  push output value := value.words.foldl Output.pushBack output

/-- The context with a watched output. -/
def watch {τ : Type} (ctxt : Context τ (Fifo α k)) : Context τ (Watched α k) :=
  ⟨ctxt.state, ⟨ctxt.output, []⟩⟩

@[simp] theorem watch_state {τ : Type} (ctxt : Context τ (Fifo α k)) :
    (watch ctxt).state = ctxt.state := rfl

/-- The buffer `f` has been pushed to like the watched one, every `push_back` has returned true,
and the values that were pushed can be popped. -/
structure Kept (w : Watched α k) (f : Fifo α k) : Prop where
  erase : w.fifo = f
  succeeded : ∀ x ∈ w.record, x.2 = true
  popped : (f.drain (2 ^ k)).1 = w.record.map Prod.fst

/-- So far there was room for the values `vs`. -/
structure Roomy (w : Watched α k) (vs : List α) : Prop where
  holds : w.fifo.Holds vs
  record : w.record = vs.map (·, true)

theorem Roomy.kept {w : Watched α k} {vs : List α} (h : Roomy w vs) {f : Fifo α k}
    (herase : w.fifo = f) : Kept w f where
  erase := herase
  succeeded x hx := by
    rw [h.record] at hx
    obtain ⟨v, -, rfl⟩ := List.mem_map.1 hx
    rfl
  popped := by
    rw [← herase, (h.holds.drain h.holds.length_le).1, h.record, List.map_map]
    exact (List.map_id vs).symm

theorem Roomy.pushBack {w : Watched α k} {vs : List α} (h : Roomy w vs) {v : α}
    (hroom : (vs ++ [v]).length ≤ 2 ^ k) : Roomy (Output.pushBack w v) (vs ++ [v]) := by
  rw [List.length_append] at hroom
  obtain ⟨hreturned, hholds⟩ := h.holds.pushBack hroom v
  refine ⟨hholds, ?_⟩
  show w.record ++ [(v, (w.fifo.pushBack v).1)] = _
  rw [h.record, hreturned, List.map_append]
  rfl

theorem Roomy.foldl_pushBack {w : Watched α k} {vs : List α} (h : Roomy w vs) {vs' : List α}
    (hroom : (vs ++ vs').length ≤ 2 ^ k) :
    Roomy (vs'.foldl Output.pushBack w) (vs ++ vs') := by
  induction vs' generalizing w vs with
  | nil => rwa [List.append_nil]
  | cons v vs' ih =>
      rw [List.append_cons] at hroom ⊢
      refine ih (h.pushBack ?_) hroom
      rw [List.length_append] at hroom
      omega

theorem fifo_foldl_pushBack (w : Watched α k) (vs : List α) :
    (vs.foldl Output.pushBack w).fifo = vs.foldl Output.pushBack w.fifo := by
  induction vs generalizing w with
  | nil => rfl
  | cons v vs ih => exact ih _

/-- Messages that go to a watched buffer go to the same buffer. -/
theorem erase_sim : Sink.Sim fun (w : Watched Word 2) (f : Fifo Word 2) => w.fifo = f where
  push m h := by
    subst h
    exact fifo_foldl_pushBack _ m.words

/-- Messages for which there is room. -/
theorem roomy_sim : Sink.Sim fun (w : Watched Word 2) (ms : List Message) =>
    (wordsOf ms).length ≤ 4 → Roomy w (wordsOf ms) where
  push {w ms} m h := by
    intro hlen
    have hwords : wordsOf (Sink.push ms m) = wordsOf ms ++ m.words := by
      simp [wordsOf, Sink.push]
    rw [hwords] at hlen ⊢
    refine (h ?_).foldl_pushBack hlen
    rw [List.length_append] at hlen
    omega

theorem roomy_nil {f : Fifo α k} (h : f.Holds []) : Roomy ⟨f, []⟩ [] :=
  ⟨h, rfl⟩

end Watched

open Watched

/-! ## `to_ump` -/

namespace ToUmp

/-- What can be done with the translator. -/
inductive Use where
  | push (b : Byte)
  | pop
  | reset
  | setGroup (group : Nat)

/-- `set_group(group)`. -/
def setGroup (group : Nat) (ctxt : Context State (Fifo Word 2)) : Context State (Fifo Word 2) :=
  (reset ctxt).update fun s => { s with group := byte group }

/-- The precondition of `pop()` is that there is something to pop. -/
def use (ctxt : Context State (Fifo Word 2)) (u : Use) : Context State (Fifo Word 2) :=
  match u with
  | .push b => push ctxt b
  | .pop => if ctxt.output.empty then ctxt else { ctxt with output := ctxt.output.popFront.2 }
  | .reset => reset ctxt
  | .setGroup group => setGroup group ctxt

/-- The translator after it was used. -/
def session (init : State) (us : List Use) : Context State (Fifo Word 2) :=
  us.foldl use ⟨init, {}⟩

theorem exists_holds_push {ctxt : Context State (Fifo Word 2)} (h : ∃ ws, ctxt.output.Holds ws)
    (b : Byte) : ∃ ws, (push ctxt b).output.Holds ws := by
  have hrel : ctxt.Rel (fun f (_ : List Message) => ∃ ws, f.Holds ws) ⟨ctxt.state, []⟩ := ⟨rfl, h⟩
  exact (push_rel Translator.holds_sim hrel b).output

theorem exists_holds_session (init : State) (us : List Use) :
    ∃ ws, (session init us).output.Holds ws := by
  induction us using List.reverseRecOn with
  | nil => exact ⟨[], Fifo.holds_nil⟩
  | append_singleton us u ih =>
      rw [session, List.foldl_concat]
      cases u with
      | push b => exact exists_holds_push ih b
      | pop =>
          obtain ⟨ws, hws⟩ := ih
          simp only [use]
          rw [apply_ite Context.output]
          exact hws.exists_popFront
      | reset | setGroup g =>
          obtain ⟨ws, hws⟩ := ih
          exact ⟨[], hws.clear⟩

/-- `push` keeps everything, if the output is empty. -/
def KeepsAll (init : State) : Prop :=
  ∀ us, (session init us).output.empty = true → ∀ b,
    Kept (push (watch (session init us)) b).output (push (session init us) b).output

theorem keepsAll (init : State) : KeepsAll init := by
  intro us hempty b
  obtain ⟨ws, hws⟩ := exists_holds_session init us
  obtain rfl := hws.empty_iff.1 hempty
  have herase : (watch (session init us)).Rel (fun w f => w.fifo = f) (session init us) :=
    ⟨rfl, rfl⟩
  have hroomy : (watch (session init us)).Rel
      (fun w (ms : List Message) => (wordsOf ms).length ≤ 4 → Roomy w (wordsOf ms))
      ⟨(session init us).state, []⟩ := ⟨rfl, fun _ => roomy_nil hws⟩
  exact ((push_rel roomy_sim hroomy b).output (decoder_fits _ b)).kept
    (push_rel erase_sim herase b).output

end ToUmp

/-! ## Translators of UMP -/

section Client

variable {α κ τ : Type} {k : Nat}

/-- `reset()`, next to what else can be done with a context. -/
def orReset {σ : Type} (other : κ → σ → σ) (reset : σ → σ) : Option κ → σ → σ
  | none => reset
  | some u => other u

/-- After any words and any other use, if the output is empty then a word keeps everything:
`callTo` is the configuration with a watched output. -/
def KeepsAll (c : Client α (Context τ (Fifo α k)))
    (callTo : Call → Context τ (Watched α k) → Context τ (Watched α k))
    (other : κ → Context τ (Fifo α k) → Context τ (Fifo α k)) (init : τ) : Prop :=
  ∀ xs, let s := c.session other ({}, ⟨init, {}⟩) xs
    s.2.output.empty = true → ∀ ump,
      Kept ((s.1.dispatch ump).2.elim (watch s.2) (callTo · (watch s.2))).output
        (c.use other s (.inl ump)).2.output

/-- It is enough that each packet finds room. -/
theorem keepsAll_of_packet {c : Client α (Context τ (Fifo α k))}
    {callTo : Call → Context τ (Watched α k) → Context τ (Watched α k)}
    {other : κ → Context τ (Fifo α k) → Context τ (Fifo α k)}
    (hcall : ∀ call ctxt, (∃ vs, ctxt.output.Holds vs) → ∃ vs, (c.call call ctxt).output.Holds vs)
    (hother : ∀ u ctxt, (∃ vs, ctxt.output.Holds vs) → ∃ vs, (other u ctxt).output.Holds vs)
    (hpacket : ∀ (p : Packet) ctxt, ctxt.output.Holds [] →
      Kept (callTo p.message.call (watch ctxt)).output (c.call p.message.call ctxt).output)
    (init : τ) : KeepsAll c callTo other init := by
  intro xs s hempty ump
  let Inv (ctxt : Context τ (Fifo α k)) : Prop := ∃ vs, ctxt.output.Holds vs
  obtain ⟨vs, hvs⟩ := @Client.session_context _ _ _ c other Inv hcall hother
    ({}, ⟨init, {}⟩) ⟨[], Fifo.holds_nil⟩ xs
  obtain rfl := hvs.empty_iff.1 hempty
  have hpart : Partial s.1.read := by
    rw [show s.1 = UmpDispatcher.feed {} (Client.pushed xs) from Client.session_dispatcher _ xs]
    exact UmpDispatcher.partial_feed _
  show Kept ((s.1.dispatch ump).2.elim (watch s.2) (callTo · (watch s.2))).output
    ((s.1.dispatch ump).2.elim s.2 (c.call · s.2)).output
  rcases UmpDispatcher.dispatch_cases hpart ump with ⟨hwhole, -, hsome⟩ | ⟨-, -, hnone⟩
  · rw [hsome]
    exact hpacket ⟨_, hwhole⟩ s.2 hvs
  · rw [hnone]
    exact (roomy_nil hvs).kept rfl

end Client

/-- A translator and its reset. -/
theorem keepsAll_translator {τ : Type} (t : Translator τ)
    {reset : Context τ (Fifo Word 2) → Context τ (Fifo Word 2)}
    (hreset : ∀ ctxt, (reset ctxt).output = ctxt.output.clear) (init : τ) :
    KeepsAll t.client t.call (orReset Translator.pop reset) init := by
  refine keepsAll_of_packet (fun call ctxt h => t.exists_holds_call h call) ?_ ?_ init
  · rintro (_ | u) ctxt h
    · obtain ⟨vs, hvs⟩ := h
      refine ⟨[], ?_⟩
      show (reset ctxt).output.Holds []
      rw [hreset]
      exact hvs.clear
    · exact Translator.exists_holds_pop h u
  · intro p ctxt hctxt
    have herase : (watch ctxt).Rel (fun w f => w.fifo = f) ctxt := ⟨rfl, rfl⟩
    have hroomy : (watch ctxt).Rel
        (fun w (ms : List Message) => (wordsOf ms).length ≤ 4 → Roomy w (wordsOf ms))
        ⟨ctxt.state, []⟩ := ⟨rfl, fun _ => roomy_nil hctxt⟩
    exact ((t.uniform roomy_sim _ hroomy).output (t.fits p ctxt.state)).kept
      (t.uniform erase_sim _ herase).output

/-! ## `to_bytestream` -/

namespace ToBytestream

/-- `to_bytestream_config` with any output: the functions give their bytes to `push_back`. -/
def callTo {ω : Type} [Output ω Byte] (c : Call) (ctxt : Context State ω) : Context State ω :=
  (tokens ctxt.state c).foldl pushBackTo ctxt

/-- With its own output this is the code. -/
theorem callTo_eq_call (c : Call) (ctxt : ContextType) : callTo c ctxt = call c ctxt :=
  (call_eq c ctxt).symm

theorem keepsAll (init : State) : KeepsAll client callTo (orReset use reset) init := by
  refine keepsAll_of_packet (fun c ctxt h => exists_holds_call h c) ?_ ?_ init
  · rintro (_ | u) ctxt h
    · obtain ⟨vs, hvs⟩ := h
      exact ⟨[], hvs.clear⟩
    · exact exists_holds_use h u
  · intro p ctxt hctxt
    have hlen := (alphabet.elide_sublist ctxt.state.status
      (tokens ctxt.state p.message.call)).length_le
    have htokens := tokens_length_le ctxt.state p.message.call
    show Kept _ (call p.message.call ctxt).output
    rw [← callTo_eq_call, callTo, callTo, foldl_pushBackTo, foldl_pushBackTo]
    refine ((roomy_nil hctxt).foldl_pushBack ?_).kept (fifo_foldl_pushBack _ _)
    exact Nat.le_trans hlen htokens

end ToBytestream

/-! ## `usbm1_to_bytestream` -/

namespace Usbm1ToBytestream

/-- What can be done with the translator. -/
inductive Use where
  | push (usbm1 : Word)
  | pop
  | reset
  | setCable (cable : Byte)

/-- The precondition of `pop()` is that there is something to pop. -/
def use (ctxt : ContextType) (u : Use) : ContextType :=
  match u with
  | .push usbm1 => push ctxt usbm1
  | .pop => if ctxt.output.empty then ctxt else { ctxt with output := ctxt.output.popFront.2 }
  | .reset => reset ctxt
  | .setCable cable => setCable cable ctxt

/-- The translator after it was used. -/
def session (init : State) (us : List Use) : ContextType :=
  us.foldl use ⟨init, {}⟩

theorem exists_holds_session (init : State) (us : List Use) :
    ∃ bs, (session init us).output.Holds bs := by
  induction us using List.reverseRecOn with
  | nil => exact ⟨[], Fifo.holds_nil⟩
  | append_singleton us u ih =>
      obtain ⟨bs, hbs⟩ := ih
      rw [session, List.foldl_concat]
      cases u with
      | push usbm1 =>
          simp only [use]
          rw [push_eq]
          split
          case isTrue => exact ⟨_, hbs.foldl_pushBack _⟩
          case isFalse => exact ⟨bs, hbs⟩
      | pop =>
          simp only [use]
          rw [apply_ite Context.output]
          exact hbs.exists_popFront
      | reset | setCable => exact ⟨[], hbs.clear⟩

/-- `push` keeps everything, if the output is empty. -/
def KeepsAll (init : State) : Prop :=
  ∀ us, (session init us).output.empty = true → ∀ usbm1,
    Kept (push (watch (session init us)) usbm1).output (push (session init us) usbm1).output

theorem keepsAll (init : State) : KeepsAll init := by
  intro us hempty usbm1
  obtain ⟨bs, hbs⟩ := exists_holds_session init us
  obtain rfl := hbs.empty_iff.1 hempty
  have hlen := bytesOf_length_le usbm1
  rw [push_eq, push_eq, watch_state]
  by_cases hcable : cable usbm1 = (session init us).state.cable
  · rw [if_pos hcable, if_pos hcable]
    refine ((roomy_nil hbs).foldl_pushBack ?_).kept (fifo_foldl_pushBack _ _)
    exact Nat.le_succ_of_le hlen
  · rw [if_neg hcable, if_neg hcable]
    exact (roomy_nil hbs).kept rfl

end Usbm1ToBytestream

/-! ## All translators -/

/-- Whatever has been done with a translator, if its output is empty then the next byte or word
that is pushed makes no `push_back` fail, and all that is written can be popped. -/
theorem translators_keepAll (group : Nat) (cable : Byte) :
    ToUmp.KeepsAll (.create group) ∧
    KeepsAll ToBytestream.client ToBytestream.callTo (orReset ToBytestream.use ToBytestream.reset)
      {} ∧
    KeepsAll ToMidi1.translator.client ToMidi1.translator.call
      (orReset Translator.pop ToMidi1.reset) {} ∧
    KeepsAll ToMidi2.translator.client ToMidi2.translator.call
      (orReset Translator.pop ToMidi2.reset) (.create group) ∧
    Usbm1ToBytestream.KeepsAll ⟨cable⟩ :=
  ⟨ToUmp.keepsAll _, ToBytestream.keepsAll _, keepsAll_translator _ (fun _ => rfl) _,
    keepsAll_translator _ (fun _ => rfl) _, Usbm1ToBytestream.keepsAll _⟩

end Midi2.Bytestream
