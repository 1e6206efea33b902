import Midi2.Bytestream.SysexPayload
import Midi2.Bytestream.Writer

/-!
# Round trips with system exclusive messages

A byte stream may be made of whole channel voice messages and whole system exclusive messages,
with real time messages between them (`Renders`). A channel voice message may come without its
status. What `to_ump` makes of such a stream is known from what the stream is made of
(`items_renders`), and it is the same again after it has gone through `to_bytestream`
(`toUmp_roundTrip`): the parts of a system exclusive message are joined and cut again at the
same places.
-/

namespace Midi2.Bytestream

open Adt Ump Chunks

open ToBytestream.Data64 (sysexStart sysexStop)

/-! ## The streams -/

/-- A whole message of a byte stream. -/
inductive Element where
  | voice (m : Block)
  | sysex (payload : List Byte)
  | realTime (b : Byte)

def Element.Valid : Element → Prop
  | voice m => alphabet.Formed m ∧ m.header < Status.sysexStart.toByte
  | sysex payload => (∀ b ∈ payload, isStatusByte b = false) ∧ payload ≠ []
  | realTime b => isSystemRealTimeMessage b = true

instance : (e : Element) → Decidable e.Valid
  | .voice _ => inferInstanceAs (Decidable (_ ∧ _))
  | .sysex _ => inferInstanceAs (Decidable (_ ∧ _))
  | .realTime _ => inferInstanceAs (Decidable (_ = _))

/-- The bytes are those of the messages, after a channel voice message with the status `r`, if
there is one. A channel voice message with the same status may then be without it. -/
inductive Renders : Option Byte → List Element → List Byte → Prop where
  | nil (r) : Renders r [] []
  | realTime {r b es bytes} : (Element.realTime b).Valid → Renders r es bytes →
      Renders r (.realTime b :: es) (b :: bytes)
  | voice {r m es bytes} : (Element.voice m).Valid → Renders (some m.header) es bytes →
      Renders r (.voice m :: es) (m.tokens ++ bytes)
  | running {m es bytes} : (Element.voice m).Valid → Renders (some m.header) es bytes →
      Renders (some m.header) (.voice m :: es) (m.data ++ bytes)
  | sysex {r p es bytes} : (Element.sysex p).Valid → Renders none es bytes →
      Renders r (.sysex p :: es) (sysexStart :: (p ++ [sysexStop]) ++ bytes)

/-- What the reader makes of a message. -/
def Element.items : Element → List Item
  | voice m => [.block m]
  | sysex payload => (chunks 6 payload).map .sysex
  | realTime b => [.block ⟨b, []⟩]

theorem Renders.valid {r : Option Byte} {es : List Element} {bytes : List Byte}
    (h : Renders r es bytes) : ∀ e ∈ es, e.Valid := by
  induction h with
  | nil r => exact List.forall_mem_nil _
  | realTime hb _ ih => exact List.forall_mem_cons.2 ⟨hb, ih⟩
  | voice hm _ ih => exact List.forall_mem_cons.2 ⟨hm, ih⟩
  | running hm _ ih => exact List.forall_mem_cons.2 ⟨hm, ih⟩
  | sysex hp _ ih => exact List.forall_mem_cons.2 ⟨hp, ih⟩

/-! ## Reading the messages -/

theorem step_message (o : Elision.Open Byte) {b : Byte} (hb : b ≠ Status.sysexStart.toByte) :
    reader.step (.message o) b =
      (.message (alphabet.restore.step o b).1, (alphabet.restore.step o b).2.map .block) :=
  if_neg hb

/-- Without F0 the reader is the receiver that puts the statuses back. -/
theorem run_message {bytes : List Byte} (h : ∀ b ∈ bytes, b ≠ Status.sysexStart.toByte)
    (o : Elision.Open Byte) :
    reader.run (.message o) bytes =
      (.message (alphabet.restore.run o bytes).1,
        (alphabet.restore.run o bytes).2.map .block) := by
  induction bytes generalizing o with
  | nil => rfl
  | cons b bytes ih =>
      obtain ⟨hb, hbytes⟩ := List.forall_mem_cons.1 h
      rw [Machine.run_cons, step_message o hb, ih hbytes, Machine.run_cons, List.map_append]

theorem items_of_chunks {is : List Item} {cs : List (Chunk Byte)}
    (hchunks : is.filterMap Item.chunk? = cs) (hblocks : is.filterMap Item.block? = []) :
    is = cs.map .sysex := by
  induction is generalizing cs with
  | nil =>
      subst hchunks
      rfl
  | cons i is ih =>
      cases i with
      | block m => cases hblocks
      | sysex c =>
          subst hchunks
          exact congrArg _ (ih rfl hblocks)

/-- A system exclusive message is cut. -/
theorem read_sysex (o : Elision.Open Byte) {payload : List Byte}
    (hdata : ∀ b ∈ payload, isStatusByte b = false) :
    reader.run (.message o) (sysexStart :: (payload ++ [sysexStop])) =
      (.message ⟨some sysexStop, []⟩, (chunks 6 payload).map .sysex) := by
  obtain ⟨out, hrun, hchunks, hblocks⟩ := @run_sysex o payload (fun b hb => Or.inl (hdata b hb))
    sysexStop rfl rfl
  have hall : dataOf payload = payload :=
    List.filter_eq_self.2 fun b hb => by rw [hdata b hb]; rfl
  have hnone : payload.filter isSystemRealTimeMessage = [] := by
    refine List.filter_eq_nil_iff.2 fun b hb => ?_
    have hrt : isSystemRealTimeMessage b = false := alphabet.not_passing_of_data (hdata b hb)
    rw [hrt]
    exact Bool.false_ne_true
  rw [hall] at hchunks
  rw [hnone] at hblocks
  rw [items_of_chunks hchunks hblocks, readMessage_status rfl rfl] at hrun
  refine hrun.trans ?_
  rw [if_neg (by decide), List.append_nil]
  rfl

section Voice

variable {m : Block}

/-- A channel voice message has data, and its status is not a real time one. -/
theorem Element.Valid.header (h : (Element.voice m).Valid) :
    alphabet.arity m.header ≠ some 0 ∧ alphabet.passing m.header = false := by
  have hrt : isSystemRealTimeMessage m.header = false := by
    refine eq_false_of_ne_true fun hrt => ?_
    exact absurd (system_of_realTime hrt) (BitVec.not_le.2 h.2)
  refine ⟨fun hzero => ?_, hrt⟩
  exact absurd h.2 (by rw [(arity_eq_zero_iff hrt).1 hzero]; decide)

theorem Element.Valid.data_ne_nil (h : (Element.voice m).Valid) : m.data ≠ [] := by
  intro hnil
  have harity := h.1.arity
  rw [hnil] at harity
  exact h.header.1 harity

theorem data_ne_sysexStart {data : List Byte} (hdata : ∀ b ∈ data, isStatusByte b = false) :
    ∀ b ∈ data, b ≠ Status.sysexStart.toByte := by
  rintro b hb rfl
  cases hdata _ hb

/-- The data of a message are enough after the same status. -/
theorem read_running (h : (Element.voice m).Valid) :
    reader.run (.message ⟨some m.header, []⟩) m.data =
      (.message ⟨some m.header, []⟩, [.block m]) := by
  have hrestore := @Elision.Alphabet.restore_data _ alphabet m.header m.data h.1.data _ h.1.arity
    [] rfl h.data_ne_nil
  rw [run_message (data_ne_sysexStart h.1.data), hrestore]
  rfl

theorem read_voice (o : Elision.Open Byte) (h : (Element.voice m).Valid) :
    reader.run (.message o) m.tokens = (.message ⟨some m.header, []⟩, [.block m]) := by
  have hne : m.header ≠ Status.sysexStart.toByte := by
    intro heq
    exact absurd h.2 (by rw [heq]; decide)
  have hstep := Elision.Alphabet.restore_header h.1.header h.header.2 o
  rw [if_neg h.header.1] at hstep
  rw [Elision.Block.tokens, Machine.run_cons, step_message o hne, hstep]
  exact (Prod.ext_iff.2 ⟨rfl, rfl⟩).trans (read_running h)

end Voice

theorem read_realTime (o : Elision.Open Byte) {b : Byte} (hb : isSystemRealTimeMessage b = true) :
    reader.step (.message o) b = (.message o, [.block ⟨b, []⟩]) := by
  have hne : b ≠ Status.sysexStart.toByte := by
    rintro rfl
    cases hb
  have hstep : alphabet.restore.step o b = (o, [⟨b, []⟩]) := if_pos hb
  rw [step_message o hne, hstep]
  rfl

/-- What the reader makes of such a stream. -/
theorem items_renders {r : Option Byte} {es : List Element} {bytes : List Byte}
    (h : Renders r es bytes) {header : Option Byte} (hr : ∀ b, r = some b → header = some b) :
    (reader.run (.message ⟨header, []⟩) bytes).2 = es.flatMap Element.items := by
  induction h generalizing header with
  | nil r => rfl
  | realTime hb _ ih =>
      rw [Machine.run_cons, read_realTime _ hb, ih hr]
      rfl
  | voice hm _ ih =>
      rw [Machine.run_append, read_voice _ hm, ih fun b hb => hb]
      rfl
  | @running m es bytes hm _ ih =>
      obtain rfl := hr m.header rfl
      rw [Machine.run_append, read_running hm, ih fun b hb => hb]
      rfl
  | sysex hp _ ih =>
      rw [Machine.run_append, read_sysex _ hp.1, ih fun b hb => by cases hb]
      rfl

/-! ## Writing and reading again -/

/-- The writer keeps the last status, and the reader has the same one. -/
theorem read_write {e : Element} (he : e.Valid) {status : Option Byte}
    (hstatus : status ≠ some sysexStart) :
    reader.run (.message ⟨status, []⟩) (writer.run status e.items).2 =
        (.message ⟨(writer.run status e.items).1, []⟩, e.items) ∧
      (writer.run status e.items).1 ≠ some sysexStart := by
  cases e with
  | voice m =>
      have hwrite : writer.step status (.block m) = (some m.header,
          if status = some m.header then m.data else m.tokens) := by
        refine (Elision.Alphabet.encode_step he.1 status).trans ?_
        rw [he.header.2]
        rfl
      rw [Element.items, Machine.run_singleton, hwrite]
      constructor
      · split
        case isTrue hsame =>
          subst hsame
          exact read_running he
        case isFalse => exact read_voice _ he
      · intro heq
        exact absurd he.2 (by rw [Option.some.inj heq]; decide)
  | sysex payload =>
      rw [Element.items, write_chunks he.1 he.2 hstatus]
      refine ⟨read_sysex _ he.1, ?_⟩
      show some sysexStop ≠ some sysexStart
      decide
  | realTime b =>
      have hwrite : writer.step status (.block ⟨b, []⟩) = (status, [b]) :=
        (Elision.Alphabet.encode_step (alphabet.formed_passing he) status).trans (if_pos he)
      rw [Element.items, Machine.run_singleton, hwrite, Machine.run_singleton]
      exact ⟨read_realTime _ he, hstatus⟩

theorem read_write_all {es : List Element} (hes : ∀ e ∈ es, e.Valid) {status : Option Byte}
    (hstatus : status ≠ some sysexStart) :
    (reader.run (.message ⟨status, []⟩) (writer.run status (es.flatMap Element.items)).2).2 =
      es.flatMap Element.items := by
  induction es generalizing status with
  | nil => rfl
  | cons e es ih =>
      obtain ⟨he, htail⟩ := List.forall_mem_cons.1 hes
      obtain ⟨hread, hnext⟩ := read_write he hstatus
      rw [List.flatMap_cons, Machine.run_append, Machine.run_append, hread, ih htail hnext]

/-! ## The two translators -/

/-- What `to_bytestream` makes of what `to_ump` has made of any bytes. -/
theorem toBytestream_items {g : Nat} (hg : g < 2 ^ 4) (bytes : List Byte) :
    (ToBytestream.run {} (ToUmp.run (.create g) bytes)).2 =
      (writer.run none (itemsOf bytes)).2 := by
  obtain ⟨hparses, hpacks⟩ := packs_toUmp hg bytes
  have hwords := words_packetsOf (ToUmp.run (.create g) bytes)
  rw [(parses_iff _).1 hparses, List.append_nil] at hwords
  rw [← encoder_writer hg hpacks (ToBytestream.filterMessage_default hg),
    ← (ToBytestream.run_words {} _).2, hwords]

theorem itemsOf_renders {es : List Element} {bytes : List Byte} (h : Renders none es bytes) :
    itemsOf bytes = es.flatMap Element.items :=
  items_renders h fun _ hb => hb

/-- The packets that `to_ump` sends are the messages that the stream is made of. -/
theorem packs_renders {g : Nat} (hg : g < 2 ^ 4) {es : List Element} {bytes : List Byte}
    (h : Renders none es bytes) :
    List.Forall₂ (Packs g) (packetsOf (ToUmp.run (.create g) bytes))
      (es.flatMap Element.items) := by
  rw [← itemsOf_renders h]
  exact (packs_toUmp hg bytes).2

/-- Nothing changes when a stream of whole messages goes through both translators and through
`to_ump` again. -/
theorem toUmp_roundTrip {g : Nat} (hg : g < 2 ^ 4) {es : List Element} {bytes : List Byte}
    (h : Renders none es bytes) :
    ToUmp.run (.create g) (ToBytestream.run {} (ToUmp.run (.create g) bytes)).2 =
      ToUmp.run (.create g) bytes := by
  have hagain : itemsOf (writer.run none (es.flatMap Element.items)).2 =
      es.flatMap Element.items :=
    read_write_all h.valid (Option.some_ne_none _).symm
  rw [toBytestream_items hg, toUmp_items, toUmp_items, itemsOf_renders h, hagain]

/-- Two notes with one status, a timing clock between them, a system exclusive message of seven
bytes and the same status once more. -/
theorem toUmp_roundTrip_mixed :
    ToUmp.run (.create 2) (ToBytestream.run {} (ToUmp.run (.create 2)
      [0x91, 0x3C, 0x40, 0xF8, 0x3E, 0x41, 0xF0, 0x01, 0x02, 0x03, 0x04, 0x05, 0x06, 0x07, 0xF7,
        0x91, 0x3C, 0x00])).2 =
    ToUmp.run (.create 2)
      [0x91, 0x3C, 0x40, 0xF8, 0x3E, 0x41, 0xF0, 0x01, 0x02, 0x03, 0x04, 0x05, 0x06, 0x07, 0xF7,
        0x91, 0x3C, 0x00] := by
  refine toUmp_roundTrip (by decide) (.voice (m := ⟨0x91, [0x3C, 0x40]⟩) (by decide)
    (.realTime (by decide) (.running (m := ⟨0x91, [0x3E, 0x41]⟩) (by decide)
      (.sysex (p := [0x01, 0x02, 0x03, 0x04, 0x05, 0x06, 0x07]) (by decide)
        (.voice (m := ⟨0x91, [0x3C, 0x00]⟩) (by decide) (.nil _))))))

end Midi2.Bytestream
