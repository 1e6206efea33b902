import Midi2.Bytestream.Grammar

/-!
# The payload of a system exclusive message

Between F0 and the next status that is not a real time one, the data bytes are the payload of a
system exclusive message and real time messages are not part of it. `to_ump` sends the payload
in packets of six bytes and the real time messages in between (`Extracts`), and the last packet
before anything that the terminating status sends itself (`sysex_extracted`).
-/

namespace Midi2.Bytestream

open Adt Ump Chunks

/-! ## The specification -/

/-- The bytes of a system exclusive message that are data. -/
def dataOf (bytes : List Byte) : List Byte :=
  bytes.filter fun b => !isStatusByte b

/-- A system message without data: type, group and status. -/
def systemWord (g : Nat) (status : Byte) : Word :=
  BitVec.ofNat 32 (MessageType.system.toNat * 2 ^ 28 + g * 2 ^ 24 + status.toNat * 2 ^ 16)

/-- The packets have the data of the bytes as their payload, in as few packets as possible, and
each real time byte is a message. -/
structure Extracts (g : Nat) (bytes : List Byte) (ps : List Packet) : Prop where
  payload : ps.flatMap ToBytestream.payload = dataOf bytes
  count : (ps.filterMap ToBytestream.sysex7?).length = max 1 (((dataOf bytes).length + 5) / 6)
  statuses : ps.filterMap ToBytestream.sysex7? =
    if (dataOf bytes).length ≤ 6 then [.sysex7In1]
    else .sysex7Start :: (List.replicate (((dataOf bytes).length + 5) / 6 - 2) .sysex7Continue ++
      [.sysex7End])
  realTime : (ps.filter fun p => (ToBytestream.sysex7? p).isNone).map Packet.words =
    (bytes.filter isSystemRealTimeMessage).map fun b => [systemWord g b]

/-- What a status sends that is not a real time message: a tune request is all of a message. -/
def ownMessages (g : Nat) (t : Byte) : List (List Word) :=
  if t = Status.tuneRequest.toByte then [[systemWord g t]] else []

/-! ## The reader -/

def Item.chunk? : Item → Option (Chunk Byte)
  | block _ => none
  | sysex c => some c

def Item.block? : Item → Option Block
  | block m => some m
  | sysex _ => none

theorem chunk_sysex (cs : List (Chunk Byte)) : (cs.map Item.sysex).filterMap Item.chunk? = cs := by
  rw [List.filterMap_map]
  exact List.filterMap_some

theorem block_sysex (cs : List (Chunk Byte)) : (cs.map Item.sysex).filterMap Item.block? = [] := by
  rw [List.filterMap_map, List.filterMap_eq_nil_iff]
  exact fun _ _ => rfl

/-- Data, or real time messages. -/
def Within (b : Byte) : Prop :=
  isStatusByte b = false ∨ isSystemRealTimeMessage b = true

instance (b : Byte) : Decidable (Within b) :=
  inferInstanceAs (Decidable (_ ∨ _))

/-- In a system exclusive message the data are cut, and the others are passed on. -/
theorem run_within {bytes : List Byte} (h : ∀ b ∈ bytes, Within b) (s : Chunks.State Byte) :
    (reader.run (.sysex s) bytes).1 = .sysex ((cutter 6).run s (dataOf bytes)).1 ∧
    (reader.run (.sysex s) bytes).2.filterMap Item.chunk? =
      ((cutter 6).run s (dataOf bytes)).2 ∧
    (reader.run (.sysex s) bytes).2.filterMap Item.block? =
      (bytes.filter isSystemRealTimeMessage).map fun b => ⟨b, []⟩ := by
  induction bytes generalizing s with
  | nil => exact ⟨rfl, rfl, rfl⟩
  | cons b bytes ih =>
      obtain ⟨hb, hbytes⟩ := List.forall_mem_cons.1 h
      rw [Machine.run_cons]
      cases hrt : isSystemRealTimeMessage b with
      | true =>
          have hst : isStatusByte b = true := alphabet.header_of_passing hrt
          have hstep : reader.step (.sysex s) b = (.sysex s, [.block ⟨b, []⟩]) := by
            simp only [reader, hrt, if_true]
          have hdata : dataOf (b :: bytes) = dataOf bytes := by
            rw [dataOf, List.filter_cons_of_neg (by rw [hst]; decide)]
            rfl
          obtain ⟨hstate, hchunks, hblocks⟩ := ih hbytes s
          rw [hstep, hdata, List.filter_cons_of_pos hrt, List.filterMap_append,
            List.filterMap_append, hchunks, hblocks]
          exact ⟨hstate, rfl, rfl⟩
      | false =>
          have hst : isStatusByte b = false := hb.resolve_right (by rw [hrt]; decide)
          have hstep : reader.step (.sysex s) b =
              (.sysex ((cutter 6).step s b).1, ((cutter 6).step s b).2.map .sysex) := by
            simp only [reader, hrt, hst, Bool.false_eq_true, if_false]
          have hdata : dataOf (b :: bytes) = b :: dataOf bytes := by
            rw [dataOf, List.filter_cons_of_pos (by rw [hst]; rfl)]
            rfl
          obtain ⟨hstate, hchunks, hblocks⟩ := ih hbytes ((cutter 6).step s b).1
          rw [hstep, hdata, List.filter_cons_of_neg (by rw [hrt]; decide), Machine.run_cons,
            List.filterMap_append, List.filterMap_append, chunk_sysex, block_sysex, hchunks,
            hblocks]
          exact ⟨hstate, rfl, rfl⟩

/-- A status that is not a real time one puts out at most itself. -/
theorem readMessage_status {t : Byte} (ht : isStatusByte t = true)
    (hrt : isSystemRealTimeMessage t = false) :
    (readMessage {} t).2 =
      if t = Status.tuneRequest.toByte then [.block ⟨t, []⟩] else [] := by
  have hzero := arity_eq_zero_iff hrt
  unfold readMessage
  split
  case isTrue hstart =>
    subst hstart
    rfl
  case isFalse =>
    rw [Elision.Alphabet.restore_header ht hrt]
    by_cases htune : t = Status.tuneRequest.toByte
    · rw [if_pos htune, if_pos (hzero.2 htune)]
      rfl
    · rw [if_neg htune, if_neg fun h => htune (hzero.1 h)]
      rfl

/-- Any status that is not a real time one is the end of a system exclusive message. -/
theorem step_close (s : Chunks.State Byte) {t : Byte} (ht : isStatusByte t = true)
    (hrt : isSystemRealTimeMessage t = false) :
    reader.step (.sysex s) t =
      ((readMessage {} t).1, .sysex s.close :: (readMessage {} t).2) := by
  simp only [reader, hrt, ht, Bool.false_eq_true, if_false, if_true]

/-- A whole system exclusive message puts out its chunks and the messages in between, and then
what its end puts out. -/
theorem run_sysex (o : Elision.Open Byte) {bytes : List Byte} (h : ∀ b ∈ bytes, Within b)
    {t : Byte} (ht : isStatusByte t = true) (hrt : isSystemRealTimeMessage t = false) :
    ∃ out, reader.run (.message o) (Status.sysexStart.toByte :: (bytes ++ [t])) =
        ((readMessage {} t).1, out ++ (readMessage {} t).2) ∧
      out.filterMap Item.chunk? = chunks 6 (dataOf bytes) ∧
      out.filterMap Item.block? =
        (bytes.filter isSystemRealTimeMessage).map fun b => ⟨b, []⟩ := by
  obtain ⟨hstate, hchunks, hblocks⟩ := run_within h {}
  have hstart : reader.step (.message o) Status.sysexStart.toByte = (.sysex {}, []) := rfl
  have hrun : reader.run (.message o) (Status.sysexStart.toByte :: (bytes ++ [t])) =
      ((readMessage {} t).1, (reader.run (.sysex {}) bytes).2 ++
        [Item.sysex ((cutter 6).run {} (dataOf bytes)).1.close] ++ (readMessage {} t).2) := by
    rw [Machine.run_cons, hstart, Machine.run_append, Machine.run_singleton, hstate,
      step_close _ ht hrt, List.nil_append, List.append_assoc, List.singleton_append]
  refine ⟨_, hrun, ?_, ?_⟩
  · rw [List.filterMap_append, hchunks]
    rfl
  · rw [List.filterMap_append, hblocks]
    exact List.append_nil _

/-! ## Packets -/

theorem label_chunk (is : List Item) :
    is.filterMap Item.label? = (is.filterMap Item.chunk?).map Chunk.label := by
  have hlabel : Item.label? = fun i => (Item.chunk? i).map Chunk.label := by
    funext i
    cases i with
    | block m => rfl
    | sysex c => rfl
  rw [List.map_filterMap, hlabel]

section Packs

variable {g : Nat} {ps : List Packet} {is : List Item}

theorem payload_packs (hg : g < 2 ^ 4) (h : List.Forall₂ (Packs g) ps is) :
    ps.flatMap ToBytestream.payload = (is.filterMap Item.chunk?).flatMap Chunk.data := by
  induction h with
  | nil => rfl
  | @cons p i ps is hp _ ih =>
      rw [List.flatMap_cons, ih]
      cases i with
      | block m =>
          rw [ToBytestream.payload, (hp.block hg).1]
          rfl
      | sysex c =>
          rw [hp.payload hg]
          rfl

theorem words_packs (hg : g < 2 ^ 4) (h : List.Forall₂ (Packs g) ps is) :
    (ps.filter fun p => (ToBytestream.sysex7? p).isNone).map Packet.words =
      (is.filterMap Item.block?).map fun m => [blockWord g m] := by
  induction h with
  | nil => rfl
  | @cons p i ps is hp _ ih =>
      cases i with
      | block m =>
          rw [List.filter_cons_of_pos (by rw [(hp.block hg).1]; rfl), List.map_cons, ih,
            (hp.carries hg).words]
          rfl
      | sysex c =>
          rw [List.filter_cons_of_neg (by rw [hp.sysex7]; exact Bool.false_ne_true), ih]
          rfl

theorem system_of_realTime {b : Byte} (h : isSystemRealTimeMessage b = true) :
    Status.sysexStart.toByte ≤ b := by
  revert b
  decide

/-- `convert` makes this message. -/
theorem blockWord_system (hg : g < 2 ^ 4) {b : Byte} (hb : Status.sysexStart.toByte ≤ b) :
    blockWord g ⟨b, []⟩ = systemWord g b := by
  have hlt := b.isLt
  have hword := toNat_blockWord hg ⟨b, []⟩
  rw [if_pos hb] at hword
  have hzero : (([] : List Byte).getD 0 0).toNat = 0 ∧ (([] : List Byte).getD 1 0).toNat = 0 :=
    ⟨rfl, rfl⟩
  have hmt : MessageType.system.toNat = 1 := rfl
  simp only [hzero] at hword
  refine BitVec.eq_of_toNat_eq ?_
  rw [hword, systemWord, BitVec.toNat_ofNat, hmt, Nat.mod_eq_of_lt (by omega)]
  omega

theorem extracts_packs (hg : g < 2 ^ 4) (h : List.Forall₂ (Packs g) ps is) {bytes : List Byte}
    (hchunks : is.filterMap Item.chunk? = chunks 6 (dataOf bytes))
    (hblocks : is.filterMap Item.block? =
      (bytes.filter isSystemRealTimeMessage).map fun b => ⟨b, []⟩) :
    Extracts g bytes ps := by
  have hstatuses : ps.filterMap ToBytestream.sysex7? =
      ((chunks 6 (dataOf bytes)).map Chunk.label).map dataStatus := by
    rw [sysex7_packs hg h, label_chunk, hchunks]
  have hlength := length_chunks (n := 6) (by decide) (dataOf bytes)
  rw [Nat.add_sub_assoc (by decide)] at hlength
  constructor
  case payload => rw [payload_packs hg h, hchunks, data_chunks (by decide)]
  case count => rw [hstatuses, List.length_map, List.length_map, hlength]
  case statuses =>
    rw [hstatuses, labels_chunks (by decide), hlength]
    split
    case isTrue => rfl
    case isFalse hlong =>
      have hmax : max 1 (((dataOf bytes).length + (6 - 1)) / 6) =
          ((dataOf bytes).length + 5) / 6 := by
        omega
      rw [hmax, List.map_cons, List.map_append, List.map_replicate]
      rfl
  case realTime =>
    rw [words_packs hg h, hblocks, List.map_map]
    refine List.map_congr_left fun b hb => ?_
    show [blockWord g ⟨b, []⟩] = [systemWord g b]
    rw [blockWord_system hg (system_of_realTime (List.mem_filter.1 hb).2)]

end Packs

/-- A system exclusive message with real time messages in it, up to any status that ends it: its
payload comes out in packets, before anything that the status sends itself. -/
theorem sysex_extracted {g : Nat} (hg : g < 2 ^ 4) {bytes : List Byte}
    (hbytes : ∀ b ∈ bytes, Within b) {t : Byte} (ht : isStatusByte t = true)
    (hrt : isSystemRealTimeMessage t = false) :
    Parses (ToUmp.run (.create g) (Status.sysexStart.toByte :: (bytes ++ [t]))) ∧
    ∃ ps own, packetsOf (ToUmp.run (.create g) (Status.sysexStart.toByte :: (bytes ++ [t]))) =
        ps ++ own ∧
      own.map Packet.words = ownMessages g t ∧ Extracts g bytes ps := by
  obtain ⟨hparses, hpacks⟩ := packs_toUmp hg (Status.sysexStart.toByte :: (bytes ++ [t]))
  obtain ⟨out, hrun, hchunks, hblocks⟩ := run_sysex {} hbytes ht hrt
  rw [itemsOf, hrun] at hpacks
  have hps := List.forall₂_take_append _ _ _ hpacks
  have hown := List.forall₂_drop_append _ _ _ hpacks
  refine ⟨hparses, _, _, (List.take_append_drop out.length _).symm, ?_,
    extracts_packs hg hps hchunks hblocks⟩
  rw [readMessage_status ht hrt] at hown
  unfold ownMessages
  split at hown
  case isTrue htune =>
    obtain ⟨p, ps, hp, hnil, hown⟩ := List.forall₂_cons_right_iff.1 hown
    rw [List.forall₂_nil_right_iff.1 hnil] at hown
    rw [hown, if_pos htune, List.map_singleton, (hp.carries hg).words, blockWord_system hg]
    rw [htune]
    decide
  case isFalse htune =>
    rw [List.forall₂_nil_right_iff.1 hown, if_neg htune, List.map_nil]

/-- Twelve bytes with real time messages where the first packet ends and before the end, and a
tune request as the end. -/
theorem sysex_extracted_tuneRequest :
    Parses (ToUmp.run (.create 3) (Status.sysexStart.toByte ::
      ([0x01, 0x02, 0x03, 0x04, 0x05, 0x06, 0xF8, 0x07, 0x08, 0x09, 0x0A, 0x0B, 0x0C, 0xFE] ++
        [0xF6]))) ∧
    ∃ ps own, packetsOf (ToUmp.run (.create 3) (Status.sysexStart.toByte ::
        ([0x01, 0x02, 0x03, 0x04, 0x05, 0x06, 0xF8, 0x07, 0x08, 0x09, 0x0A, 0x0B, 0x0C, 0xFE] ++
          [0xF6]))) = ps ++ own ∧
      own.map Packet.words = ownMessages 3 0xF6 ∧
      Extracts 3 [0x01, 0x02, 0x03, 0x04, 0x05, 0x06, 0xF8, 0x07, 0x08, 0x09, 0x0A, 0x0B, 0x0C,
        0xFE] ps :=
  sysex_extracted (by decide) (by decide) (by decide) (by decide)

end Midi2.Bytestream
