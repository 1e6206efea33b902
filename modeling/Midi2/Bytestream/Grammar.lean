import Midi2.Bytestream.Items

/-!
# Well-formed UMP from any bytes

The bytes that `to_ump` gets may be no MIDI at all: data without a status, F7 without F0, F0
after F0, a status in the middle of a system exclusive message, a status that is not defined.
What comes out is well formed all the same (`toUmp_wellFormed`): whole messages with the bits
that they need, and packets of system exclusive messages that follow the grammar of their
labels, with real time messages at most in between.
-/

namespace Midi2.Bytestream

open Adt Ump Chunks

/-! ## The specification -/

/-- The bytes of a word, the lowest one first. -/
def wordByte (w : Word) (i : Nat) : Byte :=
  byte (w.toNat / 2 ^ (8 * i))

/-- The data bytes of a packet: in the first word they are below the status. -/
def dataBytes (p : Packet) : List Byte :=
  match p.words with
  | [] => []
  | w :: ws => [wordByte w 1, wordByte w 0] ++ ws.flatMap fun w => [3, 2, 1, 0].map (wordByte w)

/-- A packet of type 1, 2 or 3 with a status that is defined, of the group, with data of seven
bits. -/
structure Proper (g : Nat) (p : Packet) : Prop where
  type : p.message.type = .system ∨ p.message.type = .m1cvm ∨ p.message.type = .data64
  known : p.message.Known
  group : p.message.get .group = g
  data : ∀ b ∈ dataBytes p, isStatusByte b = false

/-- The number of bytes of a system exclusive packet. -/
structure SizeFits (s : Mt.Data64) (n : Nat) : Prop where
  le : n ≤ 6
  full : s = .sysex7Start ∨ s = .sysex7Continue → n = 6
  pos : s = .sysex7End → 1 ≤ n

/-- A system exclusive message has begun and has not ended. -/
def Inside (pre : List Packet) : Prop :=
  ∃ s, (pre.filterMap ToBytestream.sysex7?).getLast? = some s ∧
    (s = .sysex7Start ∨ s = .sysex7Continue)

structure WellFormedUmp (g : Nat) (ws : List Word) : Prop where
  parses : Parses ws
  proper : ∀ p ∈ packetsOf ws, Proper g p
  size : ∀ p ∈ packetsOf ws, ∀ s, ToBytestream.sysex7? p = some s →
    SizeFits s (p.message.get Data64.numberOfBytes)
  /-- Whole system exclusive messages, and the last one may not be finished. -/
  grammar : ∃ whole rest,
    (packetsOf ws).filterMap ToBytestream.sysex7? = whole ++ rest ∧
    ToBytestream.WellFormed whole ∧
    (rest = [] ∨ ∃ n, rest = .sysex7Start :: List.replicate n .sysex7Continue)
  /-- Other messages in between are real time ones. -/
  between : Machine.AtEachStep (fun pre p => Inside pre →
    (ToBytestream.sysex7? p).isSome ∨ realTime p = true) (packetsOf ws)

/-! ## Labels -/

def Item.label? : Item → Option Label
  | block _ => none
  | sysex c => some c.label

/-- The labels that have been sent when the reader is there. -/
def Reading.Phase : Reading → List Label → Prop
  | message _, ls => Complete ls
  | sysex s, ls => s.Phase ls

theorem label_blocks (ms : List Block) : (ms.map Item.block).filterMap Item.label? = [] := by
  rw [List.filterMap_map, List.filterMap_eq_nil_iff]
  exact fun _ _ => rfl

theorem label_sysex (cs : List (Chunk Byte)) :
    (cs.map Item.sysex).filterMap Item.label? = cs.map Chunk.label := by
  rw [List.filterMap_map, ← List.filterMap_eq_map]
  rfl

/-- Outside, only messages of a fixed size are put out. -/
theorem readMessage_blocks (o : Elision.Open Byte) (b : Byte) :
    ∃ ms : List Block, (readMessage o b).2 = ms.map Item.block ∧
      ∀ ls, Complete ls → (readMessage o b).1.Phase ls := by
  unfold readMessage
  split
  case isTrue => exact ⟨[], rfl, fun _ h => h⟩
  case isFalse => exact ⟨_, rfl, fun _ h => h⟩

/-- A byte: the labels stay in order, and messages inside are real time ones. -/
theorem phase_step {r : Reading} {ls : List Label} (h : r.Phase ls) (b : Byte) :
    (reader.step r b).1.Phase (ls ++ (reader.step r b).2.filterMap Item.label?) := by
  cases r with
  | message o =>
      obtain ⟨ms, hout, hphase⟩ := readMessage_blocks o b
      show (readMessage o b).1.Phase (ls ++ (readMessage o b).2.filterMap Item.label?)
      rw [hout, label_blocks, List.append_nil]
      exact hphase ls h
  | sysex s =>
      simp only [reader]
      split
      case isTrue =>
        rw [List.filterMap_cons_none rfl, List.filterMap_nil, List.append_nil]
        exact h
      case isFalse =>
        split
        case isTrue =>
          obtain ⟨ms, hout, hphase⟩ := readMessage_blocks {} b
          have hlabels : (Item.sysex s.close :: (readMessage {} b).2).filterMap Item.label? =
              [s.close.label] := by
            rw [List.filterMap_cons, hout, label_blocks]
            rfl
          rw [hlabels]
          exact hphase _ (State.Phase.close h)
        case isFalse =>
          rw [label_sysex]
          exact State.Phase.step h b

theorem phase_run {r : Reading} {ls : List Label} (h : r.Phase ls) (bytes : List Byte) :
    (reader.run r bytes).1.Phase (ls ++ (reader.run r bytes).2.filterMap Item.label?) := by
  induction bytes generalizing r ls with
  | nil =>
      rw [Machine.run_nil, List.filterMap_nil, List.append_nil]
      exact h
  | cons b bytes ih =>
      rw [Machine.run_cons, List.filterMap_append, ← List.append_assoc]
      exact ih (phase_step h b)

/-- At any time the labels are those of whole messages, and of one that is not finished. -/
theorem labels_items (bytes : List Byte) :
    Complete ((itemsOf bytes).filterMap Item.label?) ∨
      Begun ((itemsOf bytes).filterMap Item.label?) := by
  have hphase := @phase_run (.message {}) [] Complete.nil bytes
  rw [List.nil_append] at hphase
  unfold itemsOf
  generalize (reader.run (.message {}) bytes).1 = r at hphase
  cases r with
  | message o => exact Or.inl hphase
  | sysex s =>
      obtain ⟨_ | _, data⟩ := s
      · exact Or.inr hphase
      · exact Or.inl hphase

/-- More chunks of a payload are due. -/
def Due (ls : List Label) : Prop :=
  ∃ l, ls.getLast? = some l ∧ (l = .first ∨ l = .middle)

theorem not_due {ls : List Label} (h : Complete ls) : ¬Due ls := by
  rintro ⟨l, hl, rfl | rfl⟩
  · rcases h.getLast hl with heq | heq <;> cases heq
  · rcases h.getLast hl with heq | heq <;> cases heq

/-- What may be put out in a system exclusive message. -/
def Item.MayInterrupt : Item → Prop
  | block m => isSystemRealTimeMessage m.header = true
  | sysex _ => True

/-- After whole messages anything may come. -/
theorem between_blocks {ls : List Label} (h : Complete ls) (ms : List Block) :
    Machine.AtEachStep (fun out i => Due (ls ++ out.filterMap Item.label?) → i.MayInterrupt)
      (ms.map Item.block) := by
  intro pre i hpre hdue
  obtain ⟨ms', -, hms'⟩ := List.prefix_map_iff.1 hpre
  have hlabels := label_blocks ms'
  rw [← hms', List.filterMap_append] at hlabels
  rw [(List.append_eq_nil_iff.1 hlabels).1, List.append_nil] at hdue
  exact absurd hdue (not_due h)

theorem between_step {r : Reading} {ls : List Label} (h : r.Phase ls) (b : Byte) :
    Machine.AtEachStep (fun out i => Due (ls ++ out.filterMap Item.label?) → i.MayInterrupt)
      (reader.step r b).2 := by
  cases r with
  | message o =>
      obtain ⟨ms, hout, -⟩ := readMessage_blocks o b
      show Machine.AtEachStep _ (readMessage o b).2
      rw [hout]
      exact between_blocks h ms
  | sysex s =>
      simp only [reader]
      split
      case isTrue hrt => exact Machine.atEachStep_cons.2 ⟨fun _ => hrt, Machine.atEachStep_nil _⟩
      case isFalse =>
        split
        case isTrue =>
          obtain ⟨ms, hout, -⟩ := readMessage_blocks {} b
          have hrest := between_blocks (State.Phase.close h) ms
          rw [hout, Machine.atEachStep_cons]
          refine ⟨fun _ => trivial, ?_⟩
          simp only [List.append_assoc] at hrest
          exact hrest
        case isFalse =>
          intro pre i hpre _
          have hmem : i ∈ ((cutter 6).step s b).2.map Item.sysex :=
            hpre.subset (List.mem_append_right _ (List.mem_singleton.2 rfl))
          obtain ⟨c, -, rfl⟩ := List.mem_map.1 hmem
          trivial

theorem between_items (bytes : List Byte) :
    Machine.AtEachStep (fun out i => Due (out.filterMap Item.label?) → i.MayInterrupt)
      (itemsOf bytes) := by
  rw [itemsOf, Machine.atEachStep_run]
  intro pre b _
  have hphase := @phase_run (.message {}) [] Complete.nil pre
  have hstep := between_step hphase b
  simp only [List.nil_append] at hstep
  simp only [List.filterMap_append]
  exact hstep

/-! ## Packets -/

theorem wellFormed_map {ls : List Label} (h : Complete ls) :
    ToBytestream.WellFormed (ls.map dataStatus) := by
  induction h with
  | nil => exact .nil
  | single _ ih => exact ih.single
  | multiple k _ ih =>
      rw [List.map_cons, List.map_append, List.map_replicate]
      exact ih.multiple k

section Packs

variable {g : Nat} {ps : List Packet} {is : List Item}

theorem sysex7_packs (hg : g < 2 ^ 4) (h : List.Forall₂ (Packs g) ps is) :
    ps.filterMap ToBytestream.sysex7? = (is.filterMap Item.label?).map dataStatus := by
  induction h with
  | nil => rfl
  | @cons p i ps is hp _ ih =>
      cases i with
      | block m => rw [List.filterMap_cons_none (hp.block hg).1, ih]; rfl
      | sysex c => rw [List.filterMap_cons_some hp.sysex7, ih]; rfl

theorem exists_packs (h : List.Forall₂ (Packs g) ps is) : ∀ p ∈ ps, ∃ i, Packs g p i := by
  induction h with
  | nil => exact List.forall_mem_nil _
  | cons hp _ ih => exact List.forall_mem_cons.2 ⟨⟨_, hp⟩, ih⟩

theorem due_of_inside (hg : g < 2 ^ 4) (h : List.Forall₂ (Packs g) ps is) (hinside : Inside ps) :
    Due (is.filterMap Item.label?) := by
  obtain ⟨s, hlast, hs⟩ := hinside
  rw [sysex7_packs hg h, List.getLast?_map] at hlast
  obtain ⟨l, hl, rfl⟩ := Option.map_eq_some_iff.1 hlast
  refine ⟨l, hl, ?_⟩
  cases l with
  | first => exact Or.inl rfl
  | middle => exact Or.inr rfl
  | single | last => rcases hs with hs | hs <;> cases hs

end Packs

/-- The bit above a data byte is its status bit. -/
theorem wordByte_data {w : Word} {i : Nat} (h : w.toNat / 2 ^ (8 * i + 7) % 2 = 0) :
    isStatusByte (wordByte w i) = false := by
  rw [status_byte_iff, wordByte, byte, BitVec.toNat_ofNat]
  rw [Nat.pow_add, ← Nat.div_div_eq_div_mul] at h
  omega

theorem data_blockWord_bytes {g : Nat} (hg : g < 2 ^ 4) {m : Block} (hm : alphabet.Formed m) :
    isStatusByte (wordByte (blockWord g m) 1) = false ∧
      isStatusByte (wordByte (blockWord g m) 0) = false := by
  have hword := toNat_blockWord hg m
  have h0 := gathered_lt hm.data 0
  have h1 := gathered_lt hm.data 1
  rw [gathered] at h0 h1
  constructor
  · refine wordByte_data ?_
    rw [hword]
    omega
  · refine wordByte_data ?_
    rw [hword]
    omega

theorem Packs.data {g : Nat} (hg : g < 2 ^ 4) {p : Packet} {i : Item} (h : Packs g p i) :
    ∀ b ∈ dataBytes p, isStatusByte b = false := by
  cases i with
  | block m =>
      obtain ⟨h1, h0⟩ := data_blockWord_bytes hg h.formed
      rw [dataBytes, (h.carries hg).words]
      exact List.forall_mem_cons.2 ⟨h1, List.forall_mem_singleton.2 h0⟩
  | sysex c =>
      have hkind := kind_sysexMessage g c
      have hreserved := reserved_sysexMessage g c
      obtain ⟨w0, w1, hwords⟩ := List.length_eq_two.1 hkind.length
      have hp : p.words = [w0, w1] := (congrArg Message.words h.message).trans hwords
      have hzero : ∀ f ∈ Data64.reserved,
          ([w0, w1].getD f.word 0).toNat / 2 ^ f.range.index % 2 ^ f.range.bits = 0 := by
        intro f hf
        have hget := hreserved f hf
        rwa [Message.get, hwords, get_eq_div_mod] at hget
      simp only [Data64.reserved, List.forall_mem_cons] at hzero
      obtain ⟨h0, h1, h2, h3, h4, h5, -⟩ := hzero
      rw [dataBytes, hp]
      exact List.forall_mem_cons.2 ⟨wordByte_data h0, List.forall_mem_cons.2 ⟨wordByte_data h1,
        List.forall_mem_cons.2 ⟨wordByte_data h2, List.forall_mem_cons.2 ⟨wordByte_data h3,
        List.forall_mem_cons.2 ⟨wordByte_data h4, List.forall_mem_singleton.2
          (wordByte_data h5)⟩⟩⟩⟩⟩

theorem sizeFits_sized {c : Chunk Byte} (h : c.Sized 6) :
    SizeFits (dataStatus c.label) c.data.length where
  le := h.length_le
  full hs := by
    refine h.full ?_
    cases hl : c.label with
    | first => exact Or.inl rfl
    | middle => exact Or.inr rfl
    | single | last =>
        rw [hl] at hs
        rcases hs with hs | hs <;> cases hs
  pos hs := by
    refine List.length_pos_of_ne_nil (h.ne_nil ?_)
    cases hl : c.label with
    | last => rfl
    | single | first | middle =>
        rw [hl] at hs
        cases hs

theorem Packs.sizeFits {g : Nat} (hg : g < 2 ^ 4) {p : Packet} {i : Item} (h : Packs g p i)
    (s : Mt.Data64) (hs : ToBytestream.sysex7? p = some s) :
    SizeFits s (p.message.get Data64.numberOfBytes) := by
  cases i with
  | block m =>
      rw [(h.block hg).1] at hs
      cases hs
  | sysex c =>
      obtain rfl := Option.some.inj (h.sysex7.symm.trans hs)
      have hnumber := numberOfBytes_sysexMessage hg h.formed
      rw [h.message, Item.message, hnumber]
      exact sizeFits_sized h.formed.1

/-- Whatever bytes it gets, a `to_ump` with this group sends well-formed UMP. -/
theorem toUmp_wellFormed {g : Nat} (hg : g < 2 ^ 4) (bytes : List Byte) :
    WellFormedUmp g (ToUmp.run (.create g) bytes) := by
  obtain ⟨hparses, hpacks⟩ := packs_toUmp hg bytes
  have heach := exists_packs hpacks
  constructor
  case parses => exact hparses
  case proper =>
    intro p hp
    obtain ⟨i, hi⟩ := heach p hp
    exact ⟨hi.type hg, hi.known hg, hi.group hg, hi.data hg⟩
  case size =>
    intro p hp
    obtain ⟨i, hi⟩ := heach p hp
    exact hi.sizeFits hg
  case grammar =>
    rw [sysex7_packs hg hpacks]
    rcases labels_items bytes with hcomplete | ⟨done, k, hdone, hlabels⟩
    · exact ⟨_, [], (List.append_nil _).symm, wellFormed_map hcomplete, Or.inl rfl⟩
    · refine ⟨done.map dataStatus, _, ?_, wellFormed_map hdone, Or.inr ⟨k, rfl⟩⟩
      rw [hlabels, List.map_append, List.map_cons, List.map_replicate]
      rfl
  case between =>
    refine Machine.AtEachStep.of_forall₂ hpacks ?_ (between_items bytes)
    intro pre pre' p i hpre hp hitem hinside
    have hinterrupt := hitem (due_of_inside hg hpre hinside)
    cases i with
    | block m => exact Or.inr ((hp.block hg).2.trans hinterrupt)
    | sysex c =>
        rw [hp.sysex7]
        exact Or.inl rfl

/-- Data, F7 without F0, and a status that is not defined in a system exclusive message. -/
theorem toUmp_wellFormed_malformed : WellFormedUmp 5 (ToUmp.run (.create 5)
    [0x3C, 0xF7, 0xF0, 0x01, 0x02, 0x03, 0x04, 0x05, 0x06, 0x07, 0xF8, 0xF0, 0xFD, 0x90]) :=
  toUmp_wellFormed (by decide) _

end Midi2.Bytestream
