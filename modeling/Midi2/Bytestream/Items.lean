import Midi2.Bytestream.Reader
import Midi2.Bytestream.SystemExclusive
import Midi2.Ump.Framing

/-!
# The packets that `to_ump` sends

Whatever a `reader` puts out is a whole message, or data bytes that fit in a packet
(`formed_reader`). So what comes out of `to_ump` is a stream of packets, one for each of its
items (`packs_toUmp`), and the fields of a packet read back what the item is.
-/

namespace Midi2.Bytestream

open Adt Ump Chunks

/-! ## Items that can be sent -/

/-- A whole message, or data bytes with a label that fits. -/
def Item.Formed : Item → Prop
  | block m => alphabet.Formed m
  | sysex c => c.Sized 6 ∧ ∀ b ∈ c.data, isStatusByte b = false

def Reading.Formed : Reading → Prop
  | message o => alphabet.FormedOpen o
  | sysex s => s.Sized 6 ∧ ∀ b ∈ s.data, isStatusByte b = false

theorem formed_readMessage {o : Elision.Open Byte} (ho : alphabet.FormedOpen o) (b : Byte) :
    (readMessage o b).1.Formed ∧ ∀ i ∈ (readMessage o b).2, i.Formed := by
  unfold readMessage
  split
  case isTrue => exact ⟨⟨sized_nil, List.forall_mem_nil _⟩, List.forall_mem_nil _⟩
  case isFalse =>
    obtain ⟨hopen, hout⟩ := Elision.Alphabet.formed_restore_step ho b
    exact ⟨hopen, List.forall_mem_map.2 hout⟩

/-- Data bytes are sent as they are. -/
theorem data_cutter {s : Chunks.State Byte} (hs : ∀ b ∈ s.data, isStatusByte b = false) {b : Byte}
    (hb : isStatusByte b = false) :
    (∀ b' ∈ ((cutter 6).step s b).1.data, isStatusByte b' = false) ∧
      ∀ c ∈ ((cutter 6).step s b).2, ∀ b' ∈ c.data, isStatusByte b' = false := by
  by_cases hfull : s.data.length = 6
  · rw [cutter_full hfull]
    exact ⟨List.forall_mem_singleton.2 hb, List.forall_mem_singleton.2 hs⟩
  · rw [cutter_room hfull]
    exact ⟨List.forall_mem_append.2 ⟨hs, List.forall_mem_singleton.2 hb⟩, List.forall_mem_nil _⟩

theorem formed_reader_step {r : Reading} (hr : r.Formed) (b : Byte) :
    (reader.step r b).1.Formed ∧ ∀ i ∈ (reader.step r b).2, i.Formed := by
  cases r with
  | message o => exact formed_readMessage hr b
  | sysex s =>
      obtain ⟨hsized, hdata⟩ := hr
      simp only [reader]
      split
      case isTrue hrt =>
        exact ⟨⟨hsized, hdata⟩, List.forall_mem_singleton.2 (alphabet.formed_passing hrt)⟩
      case isFalse =>
        split
        case isTrue =>
          obtain ⟨hnext, hout⟩ := formed_readMessage Elision.Alphabet.formed_nil b
          exact ⟨hnext, List.forall_mem_cons.2 ⟨⟨hsized.close, hdata⟩, hout⟩⟩
        case isFalse hb =>
          obtain ⟨hnext, hout⟩ := hsized.step (by decide) b
          obtain ⟨hdata', hsent⟩ := data_cutter hdata (eq_false_of_ne_true hb)
          refine ⟨⟨hnext, hdata'⟩, List.forall_mem_map.2 fun c hc => ?_⟩
          exact ⟨hout c hc, hsent c hc⟩

theorem formed_reader {r : Reading} (hr : r.Formed) (bytes : List Byte) :
    ∀ i ∈ (reader.run r bytes).2, i.Formed := by
  induction bytes generalizing r with
  | nil => exact List.forall_mem_nil _
  | cons b bytes ih =>
      obtain ⟨hnext, hout⟩ := formed_reader_step hr b
      exact List.forall_mem_append.2 ⟨hout, ih hnext⟩

/-! ## System exclusive messages -/

section Sysex

variable {g : Nat} {c : Chunk Byte}

/-- The setters that make a system exclusive message. -/
def sysexFields (g : Nat) (c : Chunk Byte) : List (Field × Nat) :=
  [(.group, (byte g).toNat), (Data64.numberOfBytes, c.data.length),
    (Data64.data0, (gathered c.data 0).toNat), (Data64.data1, (gathered c.data 1).toNat),
    (Data64.data2, (gathered c.data 2).toNat), (Data64.data3, (gathered c.data 3).toNat),
    (Data64.data4, (gathered c.data 4).toNat), (Data64.data5, (gathered c.data 5).toNat)]

theorem sysexMessage_eq (g : Nat) (c : Chunk Byte) :
    sysexMessage g c = (Data64.init (dataStatus c.label)).sets (sysexFields g c) :=
  rfl

theorem kind_init (s : Mt.Data64) : (Data64.init s).Kind 2 .data64 s.toNat :=
  Message.Kind.init (by decide) (by cases s <;> decide)

theorem kind_sysexMessage (g : Nat) (c : Chunk Byte) :
    (sysexMessage g c).Kind 2 .data64 (dataStatus c.label).toNat := by
  rw [sysexMessage_eq]
  exact (kind_init _).sets [.group, Data64.numberOfBytes, Data64.data0, Data64.data1, Data64.data2,
    Data64.data3, Data64.data4, Data64.data5]

theorem call_sysexMessage (g : Nat) (c : Chunk Byte) :
    (sysexMessage g c).call = ⟨.data64 (dataStatus c.label), sysexMessage g c⟩ := by
  have hkind := kind_sysexMessage g c
  rw [Message.call, hkind.type, UmpDispatcher.callOf, UmpDispatcher.data64Message, hkind.status,
    Mt.Data64.ofNat_toNat, Call.switch]

theorem gathered_lt {data : List Byte} (hdata : ∀ b ∈ data, isStatusByte b = false) (i : Nat) :
    (gathered data i).toNat < 2 ^ 7 := by
  rw [gathered, List.getD_eq_getElem?_getD]
  cases hb : data[i]? with
  | none => exact Nat.two_pow_pos 7
  | some b => exact (status_byte_iff b).1 (hdata b (List.mem_of_getElem? hb))

/-- The fields read back what was set. -/
theorem get_sysexMessage (hg : g < 2 ^ 4) (hc : (Item.sysex c).Formed) :
    ∀ x ∈ sysexFields g c, (sysexMessage g c).get x.1 = x.2 := by
  obtain ⟨hsized, hdata⟩ := hc
  have hlen := hsized.length_le
  rw [sysexMessage_eq]
  refine (kind_init _).get_sets [.group, Data64.numberOfBytes, Data64.data0, Data64.data1,
    Data64.data2, Data64.data3, Data64.data4, Data64.data5] ?_
  simp only [sysexFields, List.forall_mem_cons]
  refine ⟨?_, ?_, gathered_lt hdata 0, gathered_lt hdata 1, gathered_lt hdata 2,
    gathered_lt hdata 3, gathered_lt hdata 4, gathered_lt hdata 5, List.forall_mem_nil _⟩
  · rw [toNat_byte (by omega)]
    exact hg
  · show c.data.length < 2 ^ 4
    omega

/-- The bits above the data bytes are zero. -/
theorem reserved_sysexMessage (g : Nat) (c : Chunk Byte) :
    ∀ f ∈ Data64.reserved, (sysexMessage g c).get f = 0 := by
  have hdisjoint : ∀ f ∈ Data64.reserved, ∀ f' ∈ [Field.group, Data64.numberOfBytes, Data64.data0,
      Data64.data1, Data64.data2, Data64.data3, Data64.data4, Data64.data5], f'.Disjoint f := by
    decide
  have hinit : ∀ t, ∀ f ∈ Data64.reserved, (Data64.init t).get f = 0 := by
    intro t
    cases t <;> decide
  intro f hf
  rw [sysexMessage_eq, Message.get_sets_of_disjoint _ fun x hx => ?_, hinit _ f hf]
  exact hdisjoint f hf x.1 (List.mem_map_of_mem (f := Prod.fst) hx)

theorem group_sysexMessage (hg : g < 2 ^ 4) (hc : (Item.sysex c).Formed) :
    (sysexMessage g c).get .group = g := by
  have hget := get_sysexMessage hg hc (.group, (byte g).toNat) List.mem_cons_self
  rw [hget, toNat_byte (by omega)]

theorem numberOfBytes_sysexMessage (hg : g < 2 ^ 4) (hc : (Item.sysex c).Formed) :
    (sysexMessage g c).get Data64.numberOfBytes = c.data.length :=
  get_sysexMessage hg hc (_, _) (List.mem_cons_of_mem _ List.mem_cons_self)

/-- Six bytes are enough for the array. -/
theorem take_gathered {data : List Byte} (h : data.length ≤ 6) :
    (([0, 1, 2, 3, 4, 5] : List Nat).take data.length).map (gathered data) = data := by
  rcases data with _ | ⟨b0, _ | ⟨b1, _ | ⟨b2, _ | ⟨b3, _ | ⟨b4, _ | ⟨b5, _ | ⟨b6, data⟩⟩⟩⟩⟩⟩⟩
  case cons.cons.cons.cons.cons.cons.cons =>
    simp only [List.length_cons] at h
    omega
  all_goals rfl

/-- `to_bytestream` reads the payload. -/
theorem sysexBytes_sysexMessage (hg : g < 2 ^ 4) (hc : (Item.sysex c).Formed) :
    ToBytestream.sysexBytes (sysexMessage g c) = c.data := by
  have hget := get_sysexMessage hg hc
  simp only [sysexFields, List.forall_mem_cons] at hget
  obtain ⟨-, hnumber, h0, h1, h2, h3, h4, h5, -⟩ := hget
  rw [ToBytestream.sysexBytes, hnumber, List.map_take]
  simp only [List.map_cons, List.map_nil, h0, h1, h2, h3, h4, h5, byte_toNat]
  have htake := take_gathered hc.1.length_le
  rw [List.map_take] at htake
  exact htake

end Sysex

/-! ## Packets -/

/-- The packet is the message of the item. -/
structure Packs (g : Nat) (p : Packet) (i : Item) : Prop where
  formed : i.Formed
  message : p.message = i.message g

theorem whole_item {g : Nat} (hg : g < 2 ^ 4) {i : Item} (hi : i.Formed) : (i.message g).Whole := by
  cases i with
  | block m => exact whole_blockWord hg hi
  | sysex c => exact @Message.Kind.whole _ .data64 _ (kind_sysexMessage g c)

/-- The packets that come out of `to_ump` are the items of the reader. -/
theorem packs_toUmp {g : Nat} (hg : g < 2 ^ 4) (bytes : List Byte) :
    Parses (ToUmp.run (.create g) bytes) ∧
    List.Forall₂ (Packs g) (packetsOf (ToUmp.run (.create g) bytes)) (itemsOf bytes) := by
  have hformed : ∀ i ∈ itemsOf bytes, i.Formed :=
    formed_reader (r := .message {}) Elision.Alphabet.formed_nil bytes
  have hwhole : ∀ m ∈ (itemsOf bytes).map (Item.message g), m.Whole :=
    List.forall_mem_map.2 fun i hi => whole_item hg (hformed i hi)
  obtain ⟨hframes, hrest⟩ := framesOf_wordsOf hwhole partial_nil
  rw [List.append_nil, ← toUmp_items] at hframes hrest
  refine ⟨(parses_iff _).2 hrest, ?_⟩
  rw [← message_packetsOf] at hframes
  have hmessages : List.Forall₂ Eq
      ((packetsOf (ToUmp.run (.create g) bytes)).map Packet.message)
      ((itemsOf bytes).map (Item.message g)) := by
    rw [List.forall₂_eq_eq_eq]
    exact hframes
  rw [List.forall₂_map_left_iff, List.forall₂_map_right_iff] at hmessages
  have hboth := (List.forall₂_and_left _ _).2 ⟨hformed, hmessages.flip⟩
  exact hboth.flip.imp fun p i h => ⟨h.1, h.2⟩

section Packs

variable {g : Nat} {p : Packet}

theorem Packs.type {i : Item} (h : Packs g p i) (hg : g < 2 ^ 4) :
    p.message.type = .system ∨ p.message.type = .m1cvm ∨ p.message.type = .data64 := by
  obtain ⟨hi, hp⟩ := h
  rw [hp]
  cases i with
  | block m =>
      rcases (call_blockWord hg hi).2 with ⟨-, s, hcall, -⟩ | ⟨-, s, hcall, -⟩
      · exact Or.inl (Message.type_of_call (by rw [Item.message, hcall]; rfl))
      · exact Or.inr (Or.inl (Message.type_of_call (by rw [Item.message, hcall]; rfl)))
  | sysex c => exact Or.inr (Or.inr (kind_sysexMessage g c).type)

theorem Packs.group {i : Item} (h : Packs g p i) (hg : g < 2 ^ 4) :
    p.message.get .group = g := by
  obtain ⟨hi, hp⟩ := h
  rw [hp]
  cases i with
  | block m => exact (call_blockWord hg hi).1
  | sysex c => exact group_sysexMessage hg hi

theorem Packs.known {i : Item} (h : Packs g p i) (hg : g < 2 ^ 4) : p.message.Known := by
  obtain ⟨hi, hp⟩ := h
  by_contra hunknown
  rw [← Message.unknown_iff, hp] at hunknown
  cases i with
  | block m =>
      rcases (call_blockWord hg hi).2 with ⟨-, s, hcall, -⟩ | ⟨-, s, hcall, -⟩
      · rw [Item.message, hcall] at hunknown
        cases hunknown
      · rw [Item.message, hcall] at hunknown
        cases hunknown
  | sysex c =>
      rw [Item.message, call_sysexMessage] at hunknown
      cases hunknown

/-- The messages of a fixed size are those of the byte stream. -/
theorem Packs.carries {m : Block} (h : Packs g p (.block m)) (hg : g < 2 ^ 4) : Carries g p m := by
  have hp : p = ⟨⟨[blockWord g m]⟩, whole_blockWord hg h.formed⟩ :=
    Packet.ext_words (congrArg Message.words h.message)
  rw [hp]
  exact carries_blockWord hg h.formed

theorem Packs.block {m : Block} (h : Packs g p (.block m)) (hg : g < 2 ^ 4) :
    ToBytestream.sysex7? p = none ∧ realTime p = isSystemRealTimeMessage m.header := by
  rw [ToBytestream.sysex7?, realTime, h.message]
  rcases (call_blockWord hg h.formed).2 with ⟨-, s, hcall, hm⟩ | ⟨-, s, hcall, hm⟩
  · rw [Item.message, hcall]
    refine ⟨rfl, ?_⟩
    conv_rhs => rw [← hm]
    rfl
  · rw [Item.message, hcall]
    refine ⟨rfl, ?_⟩
    conv_rhs => rw [← hm]
    exact (channelBlock_header s _).2.2.1.symm

theorem Packs.sysex7 {c : Chunk Byte} (h : Packs g p (.sysex c)) :
    ToBytestream.sysex7? p = some (dataStatus c.label) := by
  rw [ToBytestream.sysex7?, h.message, Item.message, call_sysexMessage]

theorem Packs.payload {c : Chunk Byte} (h : Packs g p (.sysex c)) (hg : g < 2 ^ 4) :
    ToBytestream.payload p = c.data := by
  rw [ToBytestream.payload, h.sysex7, h.message]
  exact sysexBytes_sysexMessage hg h.formed

end Packs

end Midi2.Bytestream
