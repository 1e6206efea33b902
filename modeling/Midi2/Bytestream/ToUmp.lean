import Midi2.Bytestream.Types
import Midi2.Ump.Translator

/-!
# From a byte stream to UMP (`bytestream/bytestream_to_ump.hpp`, `bytestream_to_ump.cpp`)

`to_ump` reads a byte at a time. It keeps the last status byte and the first of two data bytes,
and it gathers the bytes of a system exclusive message until there are six of them. A message
is sent with its last byte; only of a system exclusive message is it not known which byte is
the last, so that a part of it is sent when the byte after it comes.

As in `Ump.Translator` the code is written for any sink: with the ring buffer it is the source's,
and with a list of messages it is `decoder`, which says what is sent for each byte.
-/

namespace Midi2.Bytestream.ToUmp

open Adt Ump

/-! ## The context -/

/-- `sysex7::status`. -/
inductive Sysex7.Status where
  | none
  | start
  | cont
  deriving DecidableEq, Repr

/-- `sysex7`: the bytes of the current message, `pos` of them. -/
structure Sysex7 where
  state : Sysex7.Status := .none
  pos : Nat := 0
  bytes : Nat → Byte := fun _ => 0

/-- `sysex7::reset()`. -/
def Sysex7.reset (_ : Sysex7) : Sysex7 where
  state := .none
  pos := 0
  bytes _ := 0

/-- The value of `d1` when there is no data byte. -/
def unknown : Byte := 0xFF

/-- The members of `to_ump`, without its output. -/
structure State where
  group : Byte := 0
  d0 : Byte := 0
  d1 : Byte := unknown
  sysex7 : Sysex7 := {}

/-- The constructor. -/
def State.create (group : Nat) : State where
  group := byte group

variable {ω : Type}

/-- An assignment to `sysex7_`. -/
def setSysex7 (ctxt : Context State ω) (sysex7 : Sysex7) : Context State ω :=
  ctxt.update fun s => { s with sysex7 }

theorem setSysex7_rel {ω' : Type} {R : ω → ω' → Prop} {a : Context State ω} {c : Context State ω'}
    (h : a.Rel R c) {sysex7 sysex7' : Sysex7} (heq : sysex7 = sysex7') :
    (setSysex7 a sysex7).Rel R (setSysex7 c sysex7') := by
  subst heq
  exact h.update _

variable [Sink ω]

/-! ## Pushing a byte -/

/-- `is_one_byte_message(b)`. -/
def isOneByteMessage (b : Byte) : Bool :=
  let topNibble := b &&& 0xF0
  topNibble == Status.programChange.toByte || topNibble == Status.channelPressure.toByte ||
    b == Status.timingCode.toByte || b == Status.songSelect.toByte

/-- The word that `convert` makes of three bytes. -/
def convertWord (group b0 b1 b2 : Byte) : Word :=
  let mt : MessageType := if b0 ≥ Status.sysexStart.toByte then .system else .m1cvm
  (BitVec.ofNat 32 mt.toNat <<< 28) ||| (group.setWidth 32 <<< 24) ||| (b0.setWidth 32 <<< 16) |||
    (b1.setWidth 32 <<< 8) ||| b2.setWidth 32

/-- `convert(b0, b1, b2)`. -/
def convert (ctxt : Context State ω) (b0 b1 b2 : Byte) : Context State ω :=
  ctxt.push ⟨[convertWord ctxt.state.group b0 b1 b2]⟩

/-- The message that `push_sysex7<T>` makes. -/
def sysex7Message (t : Mt.Data64) (group : Byte) (sysex7 : Sysex7) : Message :=
  (Data64.init t)
    |>.set .group group.toNat
    |>.set Data64.numberOfBytes sysex7.pos
    |>.set Data64.data0 (sysex7.bytes 0).toNat
    |>.set Data64.data1 (sysex7.bytes 1).toNat
    |>.set Data64.data2 (sysex7.bytes 2).toNat
    |>.set Data64.data3 (sysex7.bytes 3).toNat
    |>.set Data64.data4 (sysex7.bytes 4).toNat
    |>.set Data64.data5 (sysex7.bytes 5).toNat

/-- `push_sysex7<T>()`. -/
def pushSysex7 (t : Mt.Data64) (ctxt : Context State ω) : Context State ω :=
  let ctxt := ctxt.push (sysex7Message t ctxt.state.group ctxt.state.sysex7)
  setSysex7 ctxt ctxt.state.sysex7.reset

/-- `sysex_data_byte(b)`. -/
def sysexDataByte (ctxt : Context State ω) (b : Byte) : Context State ω :=
  let ctxt :=
    if ctxt.state.sysex7.pos % 6 = 0 ∧ ctxt.state.sysex7.pos ≠ 0 then
      let ctxt :=
        match ctxt.state.sysex7.state with
        | .start => pushSysex7 .sysex7Start ctxt
        | .cont => pushSysex7 .sysex7Continue ctxt
        | .none => ctxt
      setSysex7 ctxt { ctxt.state.sysex7.reset with state := .cont, pos := 0 }
    else
      ctxt
  let sysex7 := ctxt.state.sysex7
  setSysex7 ctxt { sysex7 with
    bytes := Function.update sysex7.bytes sysex7.pos b
    pos := sysex7.pos + 1 }

/-- A status byte that is not a system real time message. -/
def pushStatus (ctxt : Context State ω) (b : Byte) : Context State ω :=
  let ctxt := ctxt.update fun s => { s with d0 := b, d1 := unknown }
  -- Any such byte ends a system exclusive message.
  let ctxt :=
    match ctxt.state.sysex7.state with
    | .start => pushSysex7 .sysex7In1 ctxt
    | .cont => pushSysex7 .sysex7End ctxt
    | .none => ctxt
  if b == Status.tuneRequest.toByte then
    convert ctxt b 0 0
  else if b == Status.sysexStart.toByte then
    setSysex7 ctxt { ctxt.state.sysex7 with state := .start, pos := 0 }
  else
    ctxt

/-- A data byte. -/
def pushData (ctxt : Context State ω) (b : Byte) : Context State ω :=
  let s := ctxt.state
  if s.sysex7.state = .start ∨ s.sysex7.state = .cont then
    sysexDataByte ctxt b
  else if s.d1 ≠ unknown then
    (convert ctxt s.d0 s.d1 b).update fun s => { s with d1 := unknown }
  else if s.d0 ≠ 0 then
    if isOneByteMessage s.d0 then
      convert ctxt s.d0 b 0
    else if s.d0 < Status.sysexStart.toByte || s.d0 == Status.spp.toByte then
      ctxt.update fun s => { s with d1 := b }
    else
      ctxt
  else
    ctxt

/-- `push(b)`. -/
def push (ctxt : Context State ω) (b : Byte) : Context State ω :=
  if isStatusByte b then
    if isSystemRealTimeMessage b then convert ctxt b 0 0 else pushStatus ctxt b
  else
    pushData ctxt b

/-- `reset()`. -/
def reset (ctxt : Context State (Fifo Word 2)) : Context State (Fifo Word 2) where
  state := { group := 0, d0 := 0, d1 := unknown, sysex7 := ctxt.state.sysex7.reset }
  output := ctxt.output.clear

/-! ## The translator -/

section Uniform

variable {ω' : Type} [Sink ω'] {R : ω → ω' → Prop} {a : Context State ω} {c : Context State ω'}

theorem convert_rel (hR : Sink.Sim R) (h : a.Rel R c) (b0 b1 b2 : Byte) :
    (convert a b0 b1 b2).Rel R (convert c b0 b1 b2) := by
  unfold convert
  rw [h.state]
  exact h.push hR _

theorem pushSysex7_rel (hR : Sink.Sim R) (h : a.Rel R c) (t : Mt.Data64) :
    (pushSysex7 t a).Rel R (pushSysex7 t c) := by
  unfold pushSysex7
  rw [h.state]
  refine setSysex7_rel (h.push hR _) ?_
  show (a.state).sysex7.reset = (c.state).sysex7.reset
  rw [h.state]

theorem sysexDataByte_rel (hR : Sink.Sim R) (h : a.Rel R c) (b : Byte) :
    (sysexDataByte a b).Rel R (sysexDataByte c b) := by
  have hlast {a : Context State ω} {c : Context State ω'} (h : a.Rel R c) :
      (setSysex7 a { a.state.sysex7 with
        bytes := Function.update a.state.sysex7.bytes a.state.sysex7.pos b
        pos := a.state.sysex7.pos + 1 }).Rel R
      (setSysex7 c { c.state.sysex7 with
        bytes := Function.update c.state.sysex7.bytes c.state.sysex7.pos b
        pos := c.state.sysex7.pos + 1 }) :=
    setSysex7_rel h (by rw [h.state])
  have hfull {a : Context State ω} {c : Context State ω'} (h : a.Rel R c) :
      (setSysex7 a { a.state.sysex7.reset with state := .cont, pos := 0 }).Rel R
        (setSysex7 c { c.state.sysex7.reset with state := .cont, pos := 0 }) :=
    setSysex7_rel h rfl
  unfold sysexDataByte
  rw [h.state]
  refine hlast ?_
  split
  case isFalse => exact h
  case isTrue =>
    cases c.state.sysex7.state with
    | start => exact hfull (pushSysex7_rel hR h _)
    | cont => exact hfull (pushSysex7_rel hR h _)
    | none => exact hfull h

theorem pushStatus_rel (hR : Sink.Sim R) (h : a.Rel R c) (b : Byte) :
    (pushStatus a b).Rel R (pushStatus c b) := by
  have hlast {a : Context State ω} {c : Context State ω'} (h : a.Rel R c) :
      (if b == Status.tuneRequest.toByte then convert a b 0 0
        else if b == Status.sysexStart.toByte then
          setSysex7 a { a.state.sysex7 with state := .start, pos := 0 }
        else a).Rel R
      (if b == Status.tuneRequest.toByte then convert c b 0 0
        else if b == Status.sysexStart.toByte then
          setSysex7 c { c.state.sysex7 with state := .start, pos := 0 }
        else c) := by
    split
    case isTrue => exact convert_rel hR h b 0 0
    case isFalse =>
      split
      case isTrue => exact setSysex7_rel h (by rw [h.state])
      case isFalse => exact h
  have hupdate := h.update fun s => { s with d0 := b, d1 := unknown }
  have hstate : (a.update fun s => { s with d0 := b, d1 := unknown }).state.sysex7.state =
      c.state.sysex7.state := by
    rw [hupdate.state]
    rfl
  unfold pushStatus
  refine hlast ?_
  rw [hstate]
  show Context.Rel R _ (match c.state.sysex7.state with
    | .start => _
    | .cont => _
    | .none => _)
  cases c.state.sysex7.state with
  | start => exact pushSysex7_rel hR hupdate _
  | cont => exact pushSysex7_rel hR hupdate _
  | none => exact hupdate

theorem pushData_rel (hR : Sink.Sim R) (h : a.Rel R c) (b : Byte) :
    (pushData a b).Rel R (pushData c b) := by
  simp only [pushData, h.state]
  split
  case isTrue => exact sysexDataByte_rel hR h b
  case isFalse =>
    split
    case isTrue => exact (convert_rel hR h _ _ _).update _
    case isFalse =>
      split
      case isTrue =>
        split
        case isTrue => exact convert_rel hR h _ _ _
        case isFalse =>
          split
          case isTrue => exact h.update _
          case isFalse => exact h
      case isFalse => exact h

theorem push_rel (hR : Sink.Sim R) (h : a.Rel R c) (b : Byte) : (push a b).Rel R (push c b) := by
  unfold push
  split
  case isTrue =>
    split
    case isTrue => exact convert_rel hR h b 0 0
    case isFalse => exact pushStatus_rel hR h b
  case isFalse => exact pushData_rel hR h b

end Uniform

/-- What is sent for a byte, and the state after it. -/
def decoder : Machine Byte Message State where
  step s b :=
    let ctxt := push (⟨s, []⟩ : Context State (List Message)) b
    (ctxt.state, ctxt.output)

/-- The number of words that are in the output. -/
def sent (ctxt : Context State (List Message)) : Nat :=
  (wordsOf ctxt.output).length

theorem sent_pushSysex7 (t : Mt.Data64) (ctxt : Context State (List Message)) :
    sent (pushSysex7 t ctxt) = sent ctxt + 2 := by
  show (wordsOf (ctxt.output ++ [sysex7Message t _ _])).length = _
  rw [wordsOf, List.flatMap_append, List.length_append, List.flatMap_singleton]
  simp only [sysex7Message, Message.length_set]
  rfl

theorem sent_convert (ctxt : Context State (List Message)) (b0 b1 b2 : Byte) :
    sent (convert ctxt b0 b1 b2) = sent ctxt + 1 := by
  show (wordsOf (ctxt.output ++ [_])).length = _
  rw [wordsOf, List.flatMap_append, List.length_append, List.flatMap_singleton]
  rfl

theorem sent_sysexDataByte (ctxt : Context State (List Message)) (b : Byte) :
    sent (sysexDataByte ctxt b) ≤ sent ctxt + 2 := by
  have hset (ctxt : Context State (List Message)) (sysex7 : Sysex7) :
      sent (setSysex7 ctxt sysex7) = sent ctxt := rfl
  simp only [sysexDataByte, hset]
  split
  case isTrue =>
    rw [hset]
    cases ctxt.state.sysex7.state with
    | start => exact Nat.le_of_eq (sent_pushSysex7 _ _)
    | cont => exact Nat.le_of_eq (sent_pushSysex7 _ _)
    | none => exact Nat.le_add_right _ 2
  case isFalse => exact Nat.le_add_right _ 2

theorem sent_pushStatus (ctxt : Context State (List Message)) (b : Byte) :
    sent (pushStatus ctxt b) ≤ sent ctxt + 3 := by
  have hlast (ctxt' : Context State (List Message)) (h : sent ctxt' ≤ sent ctxt + 2) :
      sent (if b == Status.tuneRequest.toByte then convert ctxt' b 0 0
        else if b == Status.sysexStart.toByte then
          setSysex7 ctxt' { ctxt'.state.sysex7 with state := .start, pos := 0 }
        else ctxt') ≤ sent ctxt + 3 := by
    split
    case isTrue =>
      rw [sent_convert]
      omega
    case isFalse =>
      split
      case isTrue => exact Nat.le_succ_of_le h
      case isFalse => exact Nat.le_succ_of_le h
  unfold pushStatus
  refine hlast _ ?_
  show sent (match ctxt.state.sysex7.state with
    | .start => _
    | .cont => _
    | .none => _) ≤ _
  cases ctxt.state.sysex7.state with
  | start => exact Nat.le_of_eq (sent_pushSysex7 _ _)
  | cont => exact Nat.le_of_eq (sent_pushSysex7 _ _)
  | none => exact Nat.le_add_right _ 2

theorem sent_pushData (ctxt : Context State (List Message)) (b : Byte) :
    sent (pushData ctxt b) ≤ sent ctxt + 2 := by
  have hupdate (ctxt : Context State (List Message)) (f : State → State) :
      sent (ctxt.update f) = sent ctxt := rfl
  simp only [pushData]
  split
  case isTrue => exact sent_sysexDataByte ctxt b
  case isFalse =>
    split
    case isTrue =>
      rw [hupdate, sent_convert]
      omega
    case isFalse =>
      split
      case isTrue =>
        split
        case isTrue =>
          rw [sent_convert]
          omega
        case isFalse => split <;> exact Nat.le_add_right _ 2
      case isFalse => exact Nat.le_add_right _ 2

/-- No byte makes more words than there is room for. -/
theorem decoder_fits (s : State) (b : Byte) : (wordsOf (decoder.step s b).2).length ≤ 4 := by
  show sent (push ⟨s, []⟩ b) ≤ 4
  have hstatus := sent_pushStatus ⟨s, []⟩ b
  have hdata := sent_pushData ⟨s, []⟩ b
  have hzero : sent ⟨s, []⟩ = 0 := rfl
  unfold push
  split
  case isTrue =>
    split
    case isTrue =>
      rw [sent_convert, hzero]
      decide
    case isFalse => omega
  case isFalse => omega

/-- Between two bytes the output is empty. -/
def Drained (c : Context State (Fifo Word 2)) (s : State) : Prop :=
  c.state = s ∧ c.output.Holds []

/-- The code: `push(b)`, and then `pop()` as long as there is a word. -/
def perByte : Machine Byte Word (Context State (Fifo Word 2)) where
  step c b :=
    let c := push c b
    ({ c with output := (c.output.drain 4).2 }, (c.output.drain 4).1)

/-- The words of the messages come out, and the output is empty again. -/
theorem perByte_step {c : Context State (Fifo Word 2)} {s : State} (h : Drained c s) (b : Byte) :
    Drained (perByte.step c b).1 (decoder.step s b).1 ∧
    (perByte.step c b).2 = wordsOf (decoder.step s b).2 := by
  have hrel : c.Rel Fits (⟨s, []⟩ : Context State (List Message)) := ⟨h.1, fun _ => h.2⟩
  obtain ⟨hstate, houtput⟩ := push_rel fits_sim hrel b
  have hholds := houtput (decoder_fits s b)
  obtain ⟨hwords, hempty⟩ := hholds.drain hholds.length_le
  exact ⟨⟨hstate, hempty⟩, hwords⟩

theorem refines : perByte.Refines decoder (fun b => [b]) Message.words Drained where
  state b h := by
    rw [Machine.run_singleton]
    exact (perByte_step h b).1
  output b h := by
    rw [Machine.run_singleton]
    exact (perByte_step h b).2

/-- `push(b)` for each of the bytes, with the output drained after each: what came out. -/
def run (init : State) (bytes : List Byte) : List Word :=
  (perByte.run ⟨init, {}⟩ bytes).2

/-- What comes out are the words of messages. -/
theorem run_eq (init : State) (bytes : List Byte) :
    run init bytes = wordsOf (decoder.run init bytes).2 := by
  have houtput := (refines.run bytes (⟨rfl, Fifo.holds_nil⟩ : Drained ⟨init, {}⟩ init)).2
  rw [List.flatMap_singleton'] at houtput
  exact houtput

end Midi2.Bytestream.ToUmp
