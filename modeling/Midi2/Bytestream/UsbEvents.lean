import Midi2.Bytestream.Repacking
import Midi2.Bytestream.Usbm1ToBytestream

/-!
# From USB MIDI 1.0 to UMP

A sender of USB MIDI puts each message in an event packet of its own, with the code index number
of its status, and the bytes of a system exclusive message in packets of three, the last one of
one to three. The packets of sixteen cables come in any order. What `usbm1_to_bytestream` makes
of those of its cable are the bytes of the messages, and what `to_ump` makes of these are the
messages again (`delivered_usb`).
-/

namespace Midi2.Bytestream

open Adt Ump Chunks

open ToBytestream.Data64 (sysexStart sysexStop)
open Usbm1ToBytestream (cable getCin midiXSize bytesOf perWord)

/-! ## The sender -/

/-- The code index number for a packet with a whole message. -/
def cinOf (status : Byte) : Nat :=
  if status < Status.sysexStart.toByte then status.toNat / 16
  else if isSystemRealTimeMessage status then 0xF
  else if status = Status.tuneRequest.toByte then 0x5
  else if status = Status.spp.toByte then 0x3
  else 0x2

/-- An event packet; unused bytes are zero. -/
def eventWord (c cin : Nat) (bs : List Byte) : Word :=
  BitVec.ofNat 32 (c * 2 ^ 28 + cin * 2 ^ 24 + (bs.getD 0 0).toNat * 2 ^ 16 +
    (bs.getD 1 0).toNat * 2 ^ 8 + (bs.getD 2 0).toNat)

/-- The packets for the bytes of a system exclusive message. A real time message may have a
packet of its own between them. -/
inductive Pieces (c : Nat) : List Byte → List Word → Prop where
  | part {bs bytes ws} : bs.length = 3 → Pieces c bytes ws →
      Pieces c (bs ++ bytes) (eventWord c 0x4 bs :: ws)
  | realTime {b bytes ws} : isSystemRealTimeMessage b = true → Pieces c bytes ws →
      Pieces c ([b] ++ bytes) (eventWord c 0xF [b] :: ws)
  | last {bs} : bs ≠ [] → bs.length ≤ 3 → Pieces c bs [eventWord c (4 + bs.length) bs]

def Part.tokens : Part → List Byte
  | block m => m.tokens
  | sysex inside => sysexStart :: (inside ++ [sysexStop])

/-- The packets that are sent for a message. -/
inductive Events (c : Nat) : Part → List Word → Prop where
  | block {m} : alphabet.Formed m → Events c (.block m) [eventWord c (cinOf m.header) m.tokens]
  | sysex {inside ws} : (∀ b ∈ inside, Within b) → Pieces c (Part.sysex inside).tokens ws →
      Events c (.sysex inside) ws

/-! ## Event packets -/

theorem toNat_eventWord {c cin : Nat} (hc : c < 2 ^ 4) (hcin : cin < 2 ^ 4) (bs : List Byte) :
    (eventWord c cin bs).toNat = c * 2 ^ 28 + cin * 2 ^ 24 + (bs.getD 0 0).toNat * 2 ^ 16 +
      (bs.getD 1 0).toNat * 2 ^ 8 + (bs.getD 2 0).toNat := by
  have h0 := (bs.getD 0 0).isLt
  have h1 := (bs.getD 1 0).isLt
  have h2 := (bs.getD 2 0).isLt
  rw [eventWord, BitVec.toNat_ofNat]
  exact Nat.mod_eq_of_lt (by omega)

theorem toNat_shift_and (w : Word) (i : Nat) {mask : Word} {n : Nat}
    (hmask : mask.toNat = 2 ^ n - 1) : ((w >>> i) &&& mask).toNat = w.toNat / 2 ^ i % 2 ^ n := by
  rw [BitVec.toNat_and, BitVec.toNat_ushiftRight, hmask, Nat.and_two_pow_sub_one_eq_mod,
    Nat.shiftRight_eq_div_pow]

theorem take_getD {bs : List Byte} (hlen : bs.length ≤ 3) :
    [bs.getD 0 0, bs.getD 1 0, bs.getD 2 0].take bs.length = bs := by
  match bs, hlen with
  | [], _ | [_], _ | [_, _], _ | [_, _, _], _ => rfl

section EventWord

variable {c cin : Nat}

theorem getCin_eventWord (hc : c < 2 ^ 4) (hcin : cin < 2 ^ 4) (bs : List Byte) :
    getCin (eventWord c cin bs) = cin := by
  have hword := toNat_eventWord hc hcin bs
  have h0 := (bs.getD 0 0).isLt
  have h1 := (bs.getD 1 0).isLt
  have h2 := (bs.getD 2 0).isLt
  rw [getCin, @toNat_shift_and _ 24 _ 4 rfl, hword]
  omega

/-- The bytes of a packet that are used are those that were put in it. -/
theorem bytesOf_eventWord (hc : c < 2 ^ 4) (hcin : cin < 2 ^ 4) {bs : List Byte}
    (hsize : midiXSize cin = bs.length) (hlen : bs.length ≤ 3) :
    bytesOf (eventWord c cin bs) = bs := by
  have hword := toNat_eventWord hc hcin bs
  have h0 := (bs.getD 0 0).isLt
  have h1 := (bs.getD 1 0).isLt
  have h2 := (bs.getD 2 0).isLt
  have hbyte (i : Nat) {b : Byte} (hb : (eventWord c cin bs).toNat / 2 ^ i % 2 ^ 8 = b.toNat) :
      ((eventWord c cin bs >>> i) &&& 0xFF).setWidth 8 = b := by
    refine BitVec.eq_of_toNat_eq ?_
    rw [BitVec.toNat_setWidth, @toNat_shift_and _ i _ 8 rfl, hb]
    exact Nat.mod_eq_of_lt b.isLt
  have hbyte0 : ((eventWord c cin bs >>> 16) &&& 0xFF).setWidth 8 = bs.getD 0 0 :=
    hbyte 16 (by omega)
  have hbyte1 : ((eventWord c cin bs >>> 8) &&& 0xFF).setWidth 8 = bs.getD 1 0 :=
    hbyte 8 (by omega)
  have hbyte2 : (eventWord c cin bs &&& 0xFF).setWidth 8 = bs.getD 2 0 := by
    rw [← BitVec.ushiftRight_zero (eventWord c cin bs)]
    exact hbyte 0 (by omega)
  rw [bytesOf, getCin_eventWord hc hcin, hsize, List.map_take, List.map_cons, List.map_cons,
    List.map_singleton, hbyte0, hbyte1, hbyte2, take_getD hlen]

end EventWord

/-- The packet of a message has room for all of it, and its code index number says so. -/
theorem cinOf_arity {h : Byte} {n : Nat} (harity : arity h = some n) :
    cinOf h < 2 ^ 4 ∧ midiXSize (cinOf h) = n + 1 ∧ n + 1 ≤ 3 := by
  have hall : ∀ h : Byte, (arity h).all fun n =>
      cinOf h < 2 ^ 4 && midiXSize (cinOf h) == n + 1 && n + 1 ≤ 3 := by
    decide
  have hthis := hall h
  rw [harity] at hthis
  simpa [and_assoc] using hthis

/-! ## The bytes of a cable -/

/-- A packet that is used has the number of the cable, and a code index number that is not
reserved. -/
def heard (c : Nat) (w : Word) : Bool :=
  cable w = BitVec.ofNat 8 c && midiXSize (getCin w) != 0

theorem flatMap_heard (c : Nat) (words : List Word) :
    words.flatMap (fun w => if cable w = BitVec.ofNat 8 c then bytesOf w else []) =
      (words.filter (heard c)).flatMap bytesOf := by
  induction words with
  | nil => rfl
  | cons w words ih =>
      rw [List.flatMap_cons, ih]
      cases hheard : heard c w with
      | true =>
          rw [List.filter_cons_of_pos hheard, List.flatMap_cons,
            if_pos (of_decide_eq_true (Bool.and_eq_true_iff.1 hheard).1)]
      | false =>
          have hnone : (if cable w = BitVec.ofNat 8 c then bytesOf w else []) = [] := by
            split
            case isTrue hcable =>
              have hzero : midiXSize (getCin w) = 0 := by
                simpa [heard, hcable] using hheard
              rw [bytesOf, hzero]
              rfl
            case isFalse => rfl
          rw [List.filter_cons_of_neg (by rw [hheard]; decide), hnone, List.nil_append]

theorem bytes_pieces {c : Nat} (hc : c < 2 ^ 4) {bytes : List Byte} {ws : List Word}
    (h : Pieces c bytes ws) : ws.flatMap bytesOf = bytes := by
  induction h with
  | @part bs bytes ws hlen _ ih =>
      rw [List.flatMap_cons, ih, bytesOf_eventWord hc (by decide) (by rw [hlen]; decide) hlen.le]
  | @realTime b bytes ws hrt _ ih =>
      rw [List.flatMap_cons, ih,
        @bytesOf_eventWord c 0xF hc (by decide) [b] rfl (Nat.le_add_left 1 2)]
  | @last bs hne hlen =>
      have hpos := List.length_pos_iff.2 hne
      have hsize : ∀ n < 3, midiXSize (4 + (n + 1)) = n + 1 := by decide
      have hthis := hsize (bs.length - 1) (by omega)
      rw [Nat.sub_add_cancel hpos] at hthis
      rw [List.flatMap_singleton, bytesOf_eventWord hc (by omega) hthis hlen]

theorem bytes_events {c : Nat} (hc : c < 2 ^ 4) {part : Part} {ws : List Word}
    (h : Events c part ws) : ws.flatMap bytesOf = part.tokens := by
  cases h with
  | @block m hm =>
      obtain ⟨hcin, hsize, hlen⟩ := cinOf_arity hm.arity
      rw [List.flatMap_singleton]
      exact bytesOf_eventWord hc hcin hsize hlen
  | sysex _ hpieces => exact bytes_pieces hc hpieces

theorem bytes_parts {c : Nat} (hc : c < 2 ^ 4) {parts : List Part} {wss : List (List Word)}
    (h : List.Forall₂ (Events c) parts wss) :
    wss.flatten.flatMap bytesOf = parts.flatMap Part.tokens := by
  induction h with
  | nil => rfl
  | cons hpart _ ih =>
      rw [List.flatten_cons, List.flatMap_append, List.flatMap_cons, bytes_events hc hpart, ih]

/-! ## Reading -/

theorem read_tokens {c : Nat} {part : Part} {ws : List Word} (h : Events c part ws)
    (o : Elision.Open Byte) :
    ∃ o' is, reader.run (.message o) part.tokens = (.message o', is) ∧ Repacked part is := by
  cases h with
  | @block m hm =>
      have hne : ∀ b ∈ m.tokens, b ≠ Status.sysexStart.toByte := by
        refine List.forall_mem_cons.2 ⟨?_, data_ne_sysexStart hm.data⟩
        intro heq
        have harity := hm.arity
        rw [heq] at harity
        cases harity
      refine ⟨_, _, run_message hne o, ?_⟩
      rw [Elision.Alphabet.restore_tokens hm]
      exact .block
  | @sysex inside ws hinside =>
      obtain ⟨out, hrun, hchunks, hblocks⟩ := @run_sysex o inside hinside sysexStop rfl rfl
      have hnext : readMessage {} sysexStop = (.message ⟨some sysexStop, []⟩, []) := rfl
      rw [hnext, List.append_nil] at hrun
      exact ⟨_, out, hrun, .sysex hchunks hblocks⟩

theorem read_all {c : Nat} {parts : List Part} {wss : List (List Word)}
    (h : List.Forall₂ (Events c) parts wss) (o : Elision.Open Byte) :
    ∃ iss, (reader.run (.message o) (parts.flatMap Part.tokens)).2 = iss.flatten ∧
      List.Forall₂ Repacked parts iss := by
  induction h generalizing o with
  | nil => exact ⟨[], rfl, .nil⟩
  | cons hpart _ ih =>
      obtain ⟨o', is, hread, hrepacked⟩ := read_tokens hpart o
      obtain ⟨iss, hrest, hall⟩ := ih o'
      refine ⟨is :: iss, ?_, .cons hrepacked hall⟩
      rw [List.flatMap_cons, Machine.run_append, hread, hrest, List.flatten_cons]

/-- However the packets of other cables, and packets with a reserved code index number, are
between them: the messages of a cable come out of `usbm1_to_bytestream` as their bytes, and out of
`to_ump` as messages, each system exclusive message in as few packets as possible. -/
theorem delivered_usb {g c : Nat} (hg : g < 2 ^ 4) (hc : c < 2 ^ 4) {words : List Word}
    {parts : List Part} {wss : List (List Word)} (hwords : words.filter (heard c) = wss.flatten)
    (hparts : List.Forall₂ (Events c) parts wss) :
    let bytes := (perWord.run ⟨⟨BitVec.ofNat 8 c⟩, {}⟩ words).2
    bytes = parts.flatMap Part.tokens ∧
    Parses (ToUmp.run (.create g) bytes) ∧
    ∃ pss, packetsOf (ToUmp.run (.create g) bytes) = pss.flatten ∧
      List.Forall₂ (Delivered g) parts pss := by
  have hbytes : (perWord.run ⟨⟨BitVec.ofNat 8 c⟩, {}⟩ words).2 = parts.flatMap Part.tokens := by
    rw [Usbm1ToBytestream.run_perWord, flatMap_heard, hwords, bytes_parts hc hparts]
  rw [hbytes]
  obtain ⟨hparses, hpacks⟩ := packs_toUmp hg (parts.flatMap Part.tokens)
  obtain ⟨iss, hread, hrepacked⟩ := read_all hparts {}
  rw [show itemsOf (parts.flatMap Part.tokens) = iss.flatten from hread] at hpacks
  obtain ⟨pss, hpss, hall⟩ := forall₂_flatten hpacks
  exact ⟨rfl, hparses, pss, hpss, delivered_parts hg hrepacked hall⟩

/-- On cable one a note and a system exclusive message with a timing clock in it, between them a
note of another cable and a packet with a reserved code index number. -/
theorem delivered_usb_two :
    let words : List Word :=
      [0x19903C40, 0x08803C40, 0x14F00102, 0x1FF80000, 0x10000000, 0x1603F700]
    let parts : List Part := [.block ⟨0x90, [0x3C, 0x40]⟩, .sysex [0x01, 0x02, 0xF8, 0x03]]
    let bytes := (perWord.run ⟨⟨BitVec.ofNat 8 1⟩, {}⟩ words).2
    bytes = parts.flatMap Part.tokens ∧
    Parses (ToUmp.run (.create 2) bytes) ∧
    ∃ pss, packetsOf (ToUmp.run (.create 2) bytes) = pss.flatten ∧
      List.Forall₂ (Delivered 2) parts pss := by
  intro words parts
  have hsysex : Events 1 (.sysex [0x01, 0x02, 0xF8, 0x03]) [0x14F00102, 0x1FF80000, 0x1603F700] :=
    .sysex (by decide) (@Pieces.part 1 [0xF0, 0x01, 0x02] _ _ rfl
      (@Pieces.realTime 1 0xF8 _ _ rfl (@Pieces.last 1 [0x03, 0xF7] (by decide) (by decide))))
  exact @delivered_usb 2 1 (by decide) (by decide) words parts
    [[0x19903C40], [0x14F00102, 0x1FF80000, 0x1603F700]] (by decide)
    (.cons (.block (by decide)) (.cons hsysex .nil))

end Midi2.Bytestream
