import Midi2.Bytestream.RoundTrip
import Midi2.Lib.Chunks

/-!
# What `to_ump` makes of a byte stream

Outside of system exclusive messages `to_ump` is the receiver of `Elision`, and inside of one it
is the sender of `Chunks`: the bytes of the message are its payload, and any status that is not
a real time one is its end. `reader` puts the two together. It knows nothing of the bytes and
positions that the code keeps, and `decoder_refines` says that the code does what it does,
whatever the bytes are.
-/

namespace Midi2.Bytestream

open Adt Ump Chunks

/-! ## The reader -/

/-- A message of a fixed size, or a part of a system exclusive message. -/
inductive Item where
  | block (m : Block)
  | sysex (c : Chunk Byte)

/-- Where the reader is: outside or inside of a system exclusive message. -/
inductive Reading where
  | message (o : Elision.Open Byte)
  | sysex (s : Chunks.State Byte)

/-- A byte outside of system exclusive messages. -/
def readMessage (o : Elision.Open Byte) (b : Byte) : Reading × List Item :=
  if b = Status.sysexStart.toByte then (.sysex {}, [])
  else (.message (alphabet.restore.step o b).1, (alphabet.restore.step o b).2.map .block)

def reader : Machine Byte Item Reading where
  step r b :=
    match r with
    | .message o => readMessage o b
    | .sysex s =>
        if isSystemRealTimeMessage b then (.sysex s, [.block ⟨b, []⟩])
        else if isStatusByte b then
          ((readMessage {} b).1, .sysex s.close :: (readMessage {} b).2)
        else (.sysex ((cutter 6).step s b).1, ((cutter 6).step s b).2.map .sysex)

/-! ## Messages of UMP -/

def dataStatus : Label → Mt.Data64
  | .single => .sysex7In1
  | .first => .sysex7Start
  | .middle => .sysex7Continue
  | .last => .sysex7End

/-- The bytes that have been gathered. -/
def gathered (data : List Byte) (i : Nat) : Byte :=
  data.getD i 0

/-- The message that is sent for a part of a system exclusive message. -/
def sysexMessage (g : Nat) (c : Chunk Byte) : Message :=
  ToUmp.sysex7Message (dataStatus c.label) (byte g)
    { pos := c.data.length, bytes := gathered c.data }

def Item.message (g : Nat) : Item → Message
  | block m => ⟨[blockWord g m]⟩
  | sysex c => sysexMessage g c

/-! ## The code is a reader -/

/-- What `to_ump` keeps of a system exclusive message. -/
def sysex7Of (s : Chunks.State Byte) : ToUmp.Sysex7 where
  state := if s.fresh then .start else .cont
  pos := s.data.length
  bytes := gathered s.data

/-- The state of `to_ump` in a system exclusive message. -/
def sysexState (g : Nat) (s : Chunks.State Byte) : ToUmp.State where
  group := byte g
  d0 := Status.sysexStart.toByte
  d1 := ToUmp.unknown
  sysex7 := sysex7Of s

/-- The state of `to_ump` is that of the reader. -/
inductive Follows (g : Nat) (s : ToUmp.State) : Reading → Prop where
  | message {o : Elision.Open Byte} : Reads g s o → s.sysex7 = {} → Follows g s (.message o)
  | sysex {c : Chunks.State Byte} : c.Sized 6 → s = sysexState g c → Follows g s (.sysex c)

/-- The translator and the reader have done the same. -/
def Together (g : Nat) (ctxt : Context ToUmp.State (List Message)) (r : Reading × List Item) :
    Prop :=
  ctxt.output = r.2.map (Item.message g) ∧ Follows g ctxt.state r.1

section Steps

variable {g : Nat} {s : ToUmp.State} {o : Elision.Open Byte} {c : Chunks.State Byte}

/-- Without F0 nothing is gathered. -/
theorem sysex7_push (hsysex : s.sysex7.state = .none) {b : Byte}
    (hb : b ≠ Status.sysexStart.toByte) :
    (ToUmp.push (⟨s, []⟩ : Context ToUmp.State (List Message)) b).state.sysex7 = s.sysex7 := by
  unfold ToUmp.push
  split
  case isTrue =>
    split
    case isTrue => rfl
    case isFalse =>
      rw [pushStatus_none hsysex hb]
      split <;> rfl
  case isFalse =>
    rw [pushData_none hsysex]
    split
    case isTrue => rfl
    case isFalse =>
      split
      case isTrue =>
        split
        case isTrue => rfl
        case isFalse => split <;> rfl
      case isFalse => rfl

/-- The first byte of a system exclusive message. -/
theorem push_sysexStart (hgroup : s.group = byte g) (hsysex : s.sysex7 = {}) :
    ToUmp.push (⟨s, []⟩ : Context ToUmp.State (List Message)) Status.sysexStart.toByte =
      ⟨sysexState g {}, []⟩ := by
  obtain ⟨group, d0, d1, sysex7⟩ := s
  obtain rfl : group = byte g := hgroup
  obtain rfl : sysex7 = {} := hsysex
  rfl

theorem together_message (h : Reads g s o) (hsysex : s.sysex7 = {}) (b : Byte) :
    Together g (ToUmp.push ⟨s, []⟩ b) (readMessage o b) := by
  unfold readMessage
  by_cases hb : b = Status.sysexStart.toByte
  · rw [if_pos hb, hb, push_sysexStart h.group hsysex]
    exact ⟨rfl, .sysex sized_nil rfl⟩
  · rw [if_neg hb]
    obtain ⟨hout, hreads⟩ := agrees_push h hb
    refine ⟨?_, .message hreads ?_⟩
    · rw [hout, List.map_map]
      rfl
    · rw [sysex7_push h.sysex7 hb, hsysex]

/-- The end of a system exclusive message. -/
theorem pushStatus_sysexState (c : Chunks.State Byte) (b : Byte) :
    ToUmp.pushStatus (⟨sysexState g c, []⟩ : Context ToUmp.State (List Message)) b =
      ⟨(ToUmp.pushStatus (⟨.create g, []⟩ : Context ToUmp.State (List Message)) b).state,
        sysexMessage g c.close ::
          (ToUmp.pushStatus (⟨.create g, []⟩ : Context ToUmp.State (List Message)) b).output⟩ := by
  obtain ⟨fresh, data⟩ := c
  simp only [ToUmp.pushStatus]
  cases b == Status.tuneRequest.toByte with
  | true => cases fresh <;> rfl
  | false =>
      cases b == Status.sysexStart.toByte with
      | true => cases fresh <;> rfl
      | false => cases fresh <;> rfl

theorem gathered_concat (data : List Byte) (b : Byte) :
    Function.update (gathered data) data.length b = gathered (data ++ [b]) := by
  funext i
  rcases Nat.lt_trichotomy i data.length with hlt | rfl | hgt
  · rw [Function.update_of_ne (Nat.ne_of_lt hlt), gathered, gathered,
      List.getD_append _ _ _ _ hlt]
  · rw [Function.update_self, gathered, List.getD_append_right _ _ _ _ (Nat.le_refl _),
      Nat.sub_self]
    rfl
  · rw [Function.update_of_ne (Nat.ne_of_gt hgt), gathered, gathered,
      List.getD_eq_default _ _ (Nat.le_of_lt hgt), List.getD_eq_default]
    rw [List.length_append, List.length_singleton]
    exact hgt

/-- A byte of a system exclusive message. -/
theorem sysexDataByte_sysexState (hc : c.Sized 6) (b : Byte) :
    ToUmp.sysexDataByte (⟨sysexState g c, []⟩ : Context ToUmp.State (List Message)) b =
      ⟨sysexState g ((cutter 6).step c b).1,
        ((cutter 6).step c b).2.map (sysexMessage g)⟩ := by
  have hle := hc.length_le
  -- What is left to compare is the array.
  have hctxt {bytes bytes' : Nat → Byte} (h : bytes = bytes')
      (sysex7 : (Nat → Byte) → ToUmp.Sysex7) (out : List Message) :
      (⟨{ sysexState g c with sysex7 := sysex7 bytes }, out⟩ :
        Context ToUmp.State (List Message)) =
      ⟨{ sysexState g c with sysex7 := sysex7 bytes' }, out⟩ := by
    rw [h]
  by_cases hfull : c.data.length = 6
  · have hpos : (sysexState g c).sysex7.pos % 6 = 0 ∧ (sysexState g c).sysex7.pos ≠ 0 := by
      show c.data.length % 6 = 0 ∧ c.data.length ≠ 0
      omega
    rw [cutter_full hfull]
    unfold ToUmp.sysexDataByte
    rw [if_pos hpos]
    obtain ⟨_ | _, data⟩ := c
    · exact hctxt (gathered_concat [] b) (fun bytes => { state := .cont, pos := 1, bytes }) _
    · exact hctxt (gathered_concat [] b) (fun bytes => { state := .cont, pos := 1, bytes }) _
  · have hpos : ¬((sysexState g c).sysex7.pos % 6 = 0 ∧ (sysexState g c).sysex7.pos ≠ 0) := by
      show ¬(c.data.length % 6 = 0 ∧ c.data.length ≠ 0)
      omega
    rw [cutter_room hfull]
    unfold ToUmp.sysexDataByte
    rw [if_neg hpos]
    have hlen : c.data.length + 1 = (c.data ++ [b]).length := by
      rw [List.length_append, List.length_singleton]
    refine (hctxt (gathered_concat c.data b) (fun bytes => { sysex7Of c with
      pos := c.data.length + 1, bytes }) _).trans ?_
    rw [hlen]
    rfl

theorem together_sysex (hc : c.Sized 6) (b : Byte) :
    Together g (ToUmp.push ⟨sysexState g c, []⟩ b) (reader.step (.sysex c) b) := by
  have hstep : reader.step (.sysex c) b =
      if isSystemRealTimeMessage b then (.sysex c, [.block ⟨b, []⟩])
      else if isStatusByte b then
        ((readMessage {} b).1, .sysex c.close :: (readMessage {} b).2)
      else (.sysex ((cutter 6).step c b).1, ((cutter 6).step c b).2.map .sysex) := rfl
  rw [hstep]
  cases hst : isStatusByte b with
  | true =>
      cases hrt : isSystemRealTimeMessage b with
      | true =>
          have hpush (s : ToUmp.State) : ToUmp.push (⟨s, []⟩ : Context _ (List Message)) b =
              ToUmp.convert ⟨s, []⟩ b 0 0 := by
            rw [ToUmp.push, hst, hrt]
            rfl
          rw [hpush, convert_eq (s := sysexState g c) rfl]
          exact ⟨rfl, .sysex hc rfl⟩
      | false =>
          have hpush (s : ToUmp.State) : ToUmp.push (⟨s, []⟩ : Context _ (List Message)) b =
              ToUmp.pushStatus ⟨s, []⟩ b := by
            rw [ToUmp.push, hst, hrt]
            rfl
          obtain ⟨hout, hfollows⟩ := together_message (reads_create g) rfl b
          rw [hpush] at hout hfollows
          rw [hpush, pushStatus_sysexState]
          exact ⟨congrArg _ hout, hfollows⟩
  | false =>
      have hrt : isSystemRealTimeMessage b = false := alphabet.not_passing_of_data hst
      have hopen : (sysexState g c).sysex7.state = .start ∨
          (sysexState g c).sysex7.state = .cont := by
        obtain ⟨_ | _, data⟩ := c
        · exact Or.inr rfl
        · exact Or.inl rfl
      have hpush : ToUmp.push (⟨sysexState g c, []⟩ : Context _ (List Message)) b =
          ToUmp.sysexDataByte ⟨sysexState g c, []⟩ b := by
        rw [ToUmp.push, hst, if_neg Bool.false_ne_true, ToUmp.pushData, if_pos hopen]
      rw [hpush, sysexDataByte_sysexState hc, hrt, if_neg Bool.false_ne_true,
        if_neg Bool.false_ne_true]
      refine ⟨?_, .sysex (hc.step (by decide) b).1 rfl⟩
      rw [List.map_map]
      rfl

theorem together_push {r : Reading} (h : Follows g s r) (b : Byte) :
    Together g (ToUmp.push ⟨s, []⟩ b) (reader.step r b) := by
  cases h with
  | message hreads hsysex => exact together_message hreads hsysex b
  | sysex hc hs =>
      subst hs
      exact together_sysex hc b

end Steps

/-- `to_ump` is a reader. -/
theorem decoder_refines (g : Nat) :
    ToUmp.decoder.Refines reader (fun b => [b]) (fun i => [i.message g]) (Follows g) where
  state b h := by
    rw [Machine.run_singleton]
    exact (together_push h b).2
  output b h := by
    rw [Machine.run_singleton, ← List.map_eq_flatMap]
    exact (together_push h b).1

/-- What the reader makes of a byte stream. -/
def itemsOf (bytes : List Byte) : List Item :=
  (reader.run (.message {}) bytes).2

/-- For any bytes, what comes out of `to_ump` are the messages of the reader. -/
theorem toUmp_items (g : Nat) (bytes : List Byte) :
    ToUmp.run (.create g) bytes = wordsOf ((itemsOf bytes).map (Item.message g)) := by
  have hfollows : Follows g (.create g) (.message {}) := .message (reads_create g) rfl
  have houtput := ((decoder_refines g).run bytes hfollows).2
  rw [List.flatMap_singleton', ← List.map_eq_flatMap] at houtput
  rw [ToUmp.run_eq, houtput]
  rfl

end Midi2.Bytestream
