import Midi2.Bytestream.ToBytestream
import Midi2.Ump.Reset

/-!
# Resetting `to_bytestream`

`reset()` puts back the group filter and the running status and clears the output. The words of
a message that is not complete stay in the dispatcher, as they do in `to_midi1`, so that for
both translators a reset is complete exactly between messages (`reset_drops`).
-/

namespace Midi2.Bytestream.ToBytestream

open Adt Ump

/-- What can be done with the translator between two words. -/
inductive Use where
  | pop
  | groupFilter (groupBitmap : BitVec 16)

/-- The precondition of `pop()` is that there is something to pop. -/
def use (u : Use) (ctxt : ContextType) : ContextType :=
  match u with
  | .pop => if ctxt.output.empty then ctxt else { ctxt with output := ctxt.output.popFront.2 }
  | .groupFilter groupBitmap => groupFilter groupBitmap ctxt

/-- What comes out for `words`, popped after each, of a translator that has been used for `xs`
and then reset. -/
def afterReset (xs : List (Word ⊕ Use)) (words : List Word) : List Byte :=
  let s := client.session use ({}, ⟨{}, {}⟩) xs
  (client.perWord.run (s.1, reset s.2) words).2

theorem exists_holds_call {ctxt : ContextType} (h : ∃ xs, ctxt.output.Holds xs) (c : Call) :
    ∃ xs, (call c ctxt).output.Holds xs := by
  obtain ⟨xs, hxs⟩ := h
  rw [call_eq, show pushAll ctxt _ = _ from foldl_pushBackTo ctxt _]
  exact ⟨_, hxs.foldl_pushBack _⟩

theorem exists_holds_use {ctxt : ContextType} (h : ∃ xs, ctxt.output.Holds xs) (u : Use) :
    ∃ xs, (use u ctxt).output.Holds xs := by
  cases u with
  | pop =>
      obtain ⟨xs, hxs⟩ := h
      simp only [use]
      rw [apply_ite Context.output]
      exact hxs.exists_popFront
  | groupFilter bitmap => exact h

/-- A reset leaves the context as it is after construction. -/
theorem drained_reset (xs : List (Word ⊕ Use)) :
    Drained (reset (client.session use ({}, ⟨{}, {}⟩) xs).2) {} := by
  let Inv (ctxt : ContextType) : Prop := ∃ ys, ctxt.output.Holds ys
  obtain ⟨ys, hys⟩ := @Client.session_context _ _ _ client use Inv
    (fun c ctxt h => exists_holds_call h c) (fun u ctxt h => exists_holds_use h u) ({}, ⟨{}, {}⟩)
    ⟨[], Fifo.holds_nil⟩ xs
  exact ⟨rfl, hys.clear⟩

theorem bisim : client.Bisim fun a b => ∃ state, Drained a state ∧ Drained b state where
  idle := by
    rintro a b ⟨state, ha, hb⟩
    exact ⟨ha.2, hb.2⟩
  output := by
    rintro p a b ⟨state, ha, hb⟩
    exact (drain_call ha p).2.trans (drain_call hb p).2.symm
  state := by
    rintro p a b ⟨state, ha, hb⟩
    exact ⟨_, (drain_call ha p).1, (drain_call hb p).1⟩

/-- What is sent first for a message of more than one word is the start of a system exclusive
message, if there was none before. -/
theorem step_of_words {p : Packet} (hp : 1 < p.words.length) :
    ∀ b, (encoder.step {} p).2.head? = some b → b = Data64.sysexStart := by
  have hsize : 1 < p.message.type.size := by
    rw [← show p.words.length = p.message.type.size from p.whole]
    exact hp
  have htype (mt : MessageType) (hmt : mt.size = 1) : p.message.call.callback.type? ≠ some mt := by
    intro h
    rw [Message.type_of_call h, hmt] at hsize
    exact absurd hsize (Nat.lt_irrefl 1)
  have hnil : ∀ b : Byte, ([] : List Byte).head? = some b → b = Data64.sysexStart :=
    fun b h => by cases h
  have hsystem := htype .system rfl
  have hm1cvm := htype .m1cvm rfl
  show ∀ b, (alphabet.elide.run none (tokens {} p.message.call)).2.head? = some b → _
  generalize p.message.call = c at hsystem hm1cvm
  obtain ⟨callback, m⟩ := c
  simp only [tokens]
  split
  case isTrue => exact hnil
  case isFalse =>
    cases callback with
    | system s => exact absurd rfl hsystem
    | m1cvm s => exact absurd rfl hm1cvm
    | data64 s =>
        have hstart (bs : List Byte) : ∀ b,
            (alphabet.elide.run none (Data64.sysexStart :: bs)).2.head? = some b →
              b = Data64.sysexStart := by
          intro b h
          exact (Option.some.inj h).symm
        cases s with
        | sysex7In1 =>
            simp only [sysexTokens]
            split
            case isTrue => exact hstart _
            case isFalse => exact hnil
        | sysex7Start => exact hstart _
        | sysex7Continue => exact hnil
        | sysex7End => exact hnil
    | _ => exact hnil

/-- A timing clock is sent, unless it is taken for the rest of a message. -/
theorem step_timingClock {d : UmpDispatcher} (hpart : Partial d.read) (hread : d.read ≠ [])
    {ctxt : ContextType} (hctxt : Drained ctxt {}) :
    (client.perWord.step (d, ctxt) ToMidi1.timingClock).2 ≠ [Status.timingClock.toByte] := by
  refine client.step_ne hpart hctxt.2 (List.cons_ne_nil _ _) fun hwhole hsent => ?_
  have hout := (drain_call hctxt ⟨_, hwhole⟩).2
  have hwords : 1 < (⟨⟨d.read ++ [ToMidi1.timingClock]⟩, hwhole⟩ : Packet).words.length := by
    have hpos := List.length_pos_of_ne_nil hread
    show 1 < (d.read ++ [ToMidi1.timingClock]).length
    rw [List.length_append, List.length_singleton]
    omega
  have hbytes : (encoder.step {} ⟨_, hwhole⟩).2 = [Status.timingClock.toByte] :=
    hout.symm.trans hsent
  have hhead := step_of_words hwords Status.timingClock.toByte
  rw [hbytes] at hhead
  exact absurd (hhead rfl) (by decide)

theorem afterReset_iff (xs : List (Word ⊕ Use)) :
    (∀ ws, afterReset xs ws = (run {} ws).2) ↔
      ∃ ps : List Packet, Client.pushed xs = ps.flatMap Packet.words := by
  have hfresh : (client.perWord.step ({}, ⟨{}, {}⟩) ToMidi1.timingClock).2 =
      [Status.timingClock.toByte] := by decide +kernel
  refine bisim.reset_iff ⟨{}, drained_reset xs, rfl, Fifo.holds_nil⟩ ToMidi1.timingClock ?_ xs
  intro d hpart hread
  rw [hfresh]
  exact step_timingClock hpart hread (drained_reset xs)

/-! ## Both translators -/

/-- `to_bytestream` and `to_midi1` drop everything at a reset if and only if it is not within a
message. -/
theorem reset_drops (xs : List (Word ⊕ Use)) (ys : List (Word ⊕ Unit)) :
    ((∀ ws, afterReset xs ws = (run {} ws).2) ↔
      ∃ ps : List Packet, Client.pushed xs = ps.flatMap Packet.words) ∧
    ((∀ ws, ToMidi1.translator.afterReset ToMidi1.reset {} ys ws =
        (ToMidi1.translator.run {} ws).2) ↔
      ∃ ps : List Packet, Client.pushed ys = ps.flatMap Packet.words) :=
  ⟨afterReset_iff xs, ToMidi1.afterReset_iff ys⟩

/-- The first word of a note on of MIDI 2.0, a reset, and a note on of MIDI 1.0. -/
theorem reset_within_message :
    (¬∀ xs ws, afterReset xs ws = (run {} ws).2) ∧
    ¬∀ ys ws, ToMidi1.translator.afterReset ToMidi1.reset {} ys ws =
      (ToMidi1.translator.run {} ws).2 := by
  constructor
  · intro h
    have hsame := h [.inl 0x40903C00] [0x20903C40]
    revert hsame
    decide +kernel
  · intro h
    have hsame := h [.inl 0x40903C00] [0x20903C40]
    revert hsame
    decide +kernel

end Midi2.Bytestream.ToBytestream
