import Midi2.Ci.Le7
import Midi2.Lib.Machine
import Mathlib.Logic.Function.Basic

/-!
# Eight bits in seven (`mcoded7.hpp`)

`mcoded7` sends bytes as bytes with a clear top bit. The top bits of seven bytes are gathered in
one byte that goes before them. At the end of the data there may be a shorter group, which is sent
by `flush` in the same form (`group`).

The encoder keeps what it has of a group in a buffer, and counts up to seven (`Encoder.Holds`).
The decoder counts down, in three bits: after the last byte of a full group its position is
that of the byte with the top bits again. So it takes the groups apart one after the other
(`decode_group`), and gets back what was encoded (`decode_encode`). Bytes that were not encoded
may have their top bit set. The decoder detects this in the bytes of data, but not in those that
go before them (`detectsBad_iff`).
-/

namespace Midi2.Mcoded7

/-- The top bit of a byte. -/
def msb : Byte := 0x80

/-! ## The encoder -/

/-- `class encoder`: the number of bytes of the current group, and the buffer. -/
structure Encoder where
  pos : Nat := 0
  buffer : Nat → Byte := fun _ => 0

/-- `reset()`. -/
def Encoder.reset (e : Encoder) : Encoder where
  pos := 0
  buffer := Function.update e.buffer 0 0

/-- `flush(out)`: the bytes of the current group, if there are any. -/
def Encoder.flush (e : Encoder) : Encoder × List Byte :=
  if e.pos > 0 then (e.reset, (List.range (e.pos + 1)).map e.buffer) else (e, [])

/-- `parse_byte(value, out)`. -/
def encoder : Machine Byte Byte Encoder where
  step e value :=
    let pos := e.pos + 1
    -- The top bit goes to the first byte of the buffer, and the others to the next one.
    let buffer := Function.update e.buffer 0 (e.buffer 0 ||| (value &&& msb) >>> pos)
    let e : Encoder := ⟨pos, Function.update buffer pos (value &&& ~~~msb)⟩
    if pos ≥ 8 - 1 then e.flush else (e, [])

/-- All that is written for a sequence of bytes. -/
def encode (bytes : List Byte) : List Byte :=
  let (e, out) := encoder.run {} bytes
  out ++ e.flush.2

/-! ## The decoder -/

/-- `class decoder`: the top bits of the current group, the position in it, and whether bad
input was detected. -/
structure Decoder where
  msbs : Byte := 0
  pos : BitVec 3 := 7
  bad : BitVec 1 := 0

/-- `good()`. -/
def Decoder.good (d : Decoder) : Bool :=
  d.bad = 0

/-- `parse_byte(value, out)`. -/
def decoder : Machine Byte Byte Decoder where
  step d value :=
    if d.pos = 7 then
      ({ d with msbs := value, pos := d.pos - 1 }, [])
    else
      ({ d with bad := d.bad ||| (value >>> 7).setWidth 1, pos := d.pos - 1 },
        [value ||| ((d.msbs >>> d.pos.toNat) &&& 1) <<< 7])

/-! ## Groups -/

/-- The top bits of a group, from position `k` on. -/
def signsFrom (k : Nat) : List Byte → Byte
  | [] => 0
  | b :: bs => (b &&& msb) >>> (k + 1) ||| signsFrom (k + 1) bs

/-- What is sent for a group of at most seven bytes. -/
def group (bytes : List Byte) : List Byte :=
  signsFrom 0 bytes :: bytes.map fun b => b &&& ~~~msb

theorem signsFrom_append (k : Nat) (bs bs' : List Byte) :
    signsFrom k (bs ++ bs') = signsFrom k bs ||| signsFrom (k + bs.length) bs' := by
  induction bs generalizing k with
  | nil => exact BitVec.zero_or.symm
  | cons b bs ih =>
      rw [List.cons_append, signsFrom, signsFrom, ih, List.length_cons, BitVec.or_assoc,
        Nat.add_assoc, Nat.add_comm 1]

theorem getLsbD_msb (i : Nat) : msb.getLsbD i = decide (i = 7) := by
  rcases Nat.lt_or_ge i 8 with hlt | hge
  · have hall : ∀ i < 8, msb.getLsbD i = decide (i = 7) := by decide
    exact hall i hlt
  · rw [BitVec.getLsbD_of_ge _ _ hge, decide_eq_false (by omega)]

/-- The sign bits of a group are in the order of its bytes, from bit 6 down. -/
theorem getLsbD_signsFrom (k : Nat) (bs : List Byte) (i : Nat) :
    (signsFrom k bs).getLsbD i =
      (decide (k + i ≤ 6) && (bs.getD (6 - (k + i)) 0).getLsbD 7) := by
  induction bs generalizing k with
  | nil => simp [signsFrom]
  | cons b bs ih =>
      rw [signsFrom, BitVec.getLsbD_or, BitVec.getLsbD_ushiftRight, BitVec.getLsbD_and,
        getLsbD_msb, ih]
      rcases Nat.lt_trichotomy (k + i) 6 with hlt | heq | hgt
      · have hnext : 6 - (k + i) = 6 - (k + 1 + i) + 1 := by omega
        rw [decide_eq_false (by omega : ¬k + 1 + i = 7), Bool.and_false, Bool.false_or, hnext,
          List.getD_cons_succ, decide_eq_true (by omega), decide_eq_true (by omega)]
      · rw [show k + 1 + i = 7 by omega, heq]
        simp
      · rw [decide_eq_false (by omega : ¬k + 1 + i = 7),
          decide_eq_false (by omega : ¬k + 1 + i ≤ 6), decide_eq_false (by omega : ¬k + i ≤ 6)]
        simp

theorem length_group (bytes : List Byte) : (group bytes).length = bytes.length + 1 := by
  rw [group, List.length_cons, List.length_map]

/-- All bytes of a group have a clear top bit. -/
theorem lt_of_mem_group {bytes : List Byte} {b : Byte} (h : b ∈ group bytes) : b < 0x80 := by
  have hclear : ∀ {b : Byte}, b.getLsbD 7 = false → b < 0x80 := by
    intro b
    revert b
    decide
  rcases List.mem_cons.1 h with rfl | hmem
  · refine hclear ?_
    rw [getLsbD_signsFrom]
    rfl
  · obtain ⟨c, -, rfl⟩ := List.mem_map.1 hmem
    refine hclear ?_
    rw [BitVec.getLsbD_and, BitVec.getLsbD_not, getLsbD_msb]
    simp

/-! ## What the encoder writes -/

/-- The encoder has the bytes `g` of a group. -/
structure Encoder.Holds (e : Encoder) (g : List Byte) : Prop where
  pos : e.pos = g.length
  signs : e.buffer 0 = signsFrom 0 g
  data : ∀ i b, g[i]? = some b → e.buffer (i + 1) = b &&& ~~~msb

namespace Encoder.Holds

variable {e : Encoder} {g : List Byte}

theorem reset (e : Encoder) : e.reset.Holds [] where
  pos := rfl
  signs := Function.update_self 0 0 e.buffer
  data i b h := by cases h

theorem flush (h : e.Holds g) :
    e.flush.2 = if g = [] then [] else group g := by
  unfold Encoder.flush
  rw [h.pos]
  cases g with
  | nil => rfl
  | cons b g =>
      have hpos : (b :: g).length > 0 := Nat.succ_pos g.length
      rw [if_pos hpos, if_neg (List.cons_ne_nil b g), group,
        List.range_succ_eq_map, List.map_cons, List.map_map, h.signs]
      refine congrArg (List.cons _) (List.ext_getElem (by simp) fun i hi hi' => ?_)
      rw [List.length_map] at hi'
      rw [List.getElem_map, List.getElem_map, List.getElem_range]
      exact h.data i _ (List.getElem?_eq_getElem hi')

/-- The buffer after one more byte. -/
theorem push (h : e.Holds g) (b : Byte) :
    Holds ⟨e.pos + 1, Function.update
      (Function.update e.buffer 0 (e.buffer 0 ||| (b &&& msb) >>> (e.pos + 1)))
      (e.pos + 1) (b &&& ~~~msb)⟩ (g ++ [b]) where
  pos := by rw [h.pos, List.length_append, List.length_singleton]
  signs := by
    have hne : 0 ≠ e.pos + 1 := Nat.zero_ne_add_one e.pos
    simp only [Function.update_of_ne hne, Function.update_self]
    rw [h.signs, h.pos, signsFrom_append, Nat.zero_add, signsFrom, signsFrom]
    exact congrArg _ BitVec.or_zero.symm
  data i c hc := by
    show Function.update (Function.update e.buffer 0 _) (e.pos + 1) _ (i + 1) = _
    rw [h.pos]
    rcases Nat.lt_or_ge i g.length with hlt | hge
    · rw [List.getElem?_append_left hlt] at hc
      rw [Function.update_of_ne (by omega), Function.update_of_ne (Nat.succ_ne_zero i)]
      exact h.data i c hc
    · have hi : i = g.length := by
        have := (List.getElem?_eq_some_iff.1 hc).1
        rw [List.length_append, List.length_singleton] at this
        omega
      rw [hi, List.getElem?_concat_length] at hc
      rw [hi, Function.update_self, Option.some.inj hc]

/-- One byte: a group that is full is written. -/
theorem step (h : e.Holds g) (b : Byte) :
    (g.length < 6 → (encoder.step e b).1.Holds (g ++ [b]) ∧ (encoder.step e b).2 = []) ∧
    (g.length = 6 → (encoder.step e b).1.Holds [] ∧ (encoder.step e b).2 = group (g ++ [b])) := by
  have hpush := h.push b
  constructor
  · intro hlt
    have hpos : ¬e.pos + 1 ≥ 8 - 1 := by rw [h.pos]; omega
    simp only [encoder, if_neg hpos]
    exact ⟨hpush, trivial⟩
  · intro hlen
    have hpos : e.pos + 1 ≥ 8 - 1 := by rw [h.pos]; omega
    have hne : g ++ [b] ≠ [] := List.append_ne_nil_of_right_ne_nil g (List.cons_ne_nil b [])
    have hflush := hpush.flush
    rw [if_neg hne] at hflush
    simp only [encoder, if_pos hpos]
    refine ⟨?_, hflush⟩
    rw [Encoder.flush, if_pos (Nat.succ_pos e.pos)]
    exact reset _

end Encoder.Holds

/-- The bytes are in full groups, which have been written, and in one that has been begun. -/
structure Grouped (bytes : List Byte) (e : Encoder) (out : List Byte) (gs : List (List Byte))
    (g : List Byte) : Prop where
  full : ∀ g ∈ gs, g.length = 7
  begun : g.length < 7
  bytes_eq : bytes = gs.flatten ++ g
  out_eq : out = gs.flatMap group
  holds : e.Holds g

theorem grouped_run (bytes : List Byte) :
    ∃ gs g, Grouped bytes (encoder.run {} bytes).1 (encoder.run {} bytes).2 gs g := by
  induction bytes using List.reverseRecOn with
  | nil =>
      exact ⟨[], [], fun _ hg => absurd hg List.not_mem_nil, by decide, rfl, rfl,
        ⟨rfl, rfl, fun _ _ h => by cases h⟩⟩
  | append_singleton bytes b ih =>
      obtain ⟨gs, g, hfull, hbegun, hbytes, hout, hholds⟩ := ih
      rw [Machine.run_append, Machine.run_singleton, hout]
      rcases Nat.lt_or_eq_of_le (Nat.le_of_lt_succ hbegun) with hlt | hlen
      · obtain ⟨hnext, hnone⟩ := (hholds.step b).1 hlt
        refine ⟨gs, g ++ [b], hfull, ?_, ?_, by rw [hnone, List.append_nil], hnext⟩
        · rw [List.length_append, List.length_singleton]
          omega
        · rw [hbytes, List.append_assoc]
      · obtain ⟨hnext, hgroup⟩ := (hholds.step b).2 hlen
        refine ⟨gs ++ [g ++ [b]], [], ?_, by decide, ?_, ?_, hnext⟩
        · intro g' hg'
          rcases List.mem_append.1 hg' with hmem | hmem
          · exact hfull g' hmem
          · rw [List.mem_singleton.1 hmem, List.length_append, List.length_singleton, hlen]
        · rw [hbytes, List.flatten_concat, List.append_nil, List.append_assoc]
        · rw [hgroup, List.flatMap_append, List.flatMap_singleton]

/-- What is written are groups of seven, and perhaps a shorter one at the end. -/
theorem encode_eq (bytes : List Byte) :
    ∃ (gs : List (List Byte)) (g : List Byte), (∀ g ∈ gs, g.length = 7) ∧ g.length < 7 ∧
      bytes = gs.flatten ++ g ∧
      encode bytes = gs.flatMap group ++ if g = [] then [] else group g := by
  obtain ⟨gs, g, hfull, hbegun, hbytes, hout, hholds⟩ := grouped_run bytes
  refine ⟨gs, g, hfull, hbegun, hbytes, ?_⟩
  rw [encode, ← hout, ← hholds.flush]

/-! ## What the decoder makes of it -/

/-- The decoder has read the top bits of a group, and `k` bytes after them. -/
def Decoder.within (msbs : Byte) (k : Nat) : Decoder :=
  ⟨msbs, 6 - BitVec.ofNat 3 k, 0⟩

/-- The bytes after the top bits get theirs back. -/
theorem step_within {msbs b : Byte} {k : Nat} (hk : k < 7)
    (hb : msbs.getLsbD (6 - k) = b.getLsbD 7) :
    decoder.step (.within msbs k) (b &&& ~~~msb) = (.within msbs (k + 1), [b]) := by
  have hpos : ∀ k < 7, 6 - BitVec.ofNat 3 k ≠ 7 ∧ (6 - BitVec.ofNat 3 k).toNat = 6 - k ∧
      6 - BitVec.ofNat 3 k - 1 = 6 - BitVec.ofNat 3 (k + 1) := by decide
  have hbits : ∀ b : Byte, ((b &&& ~~~msb) >>> 7).setWidth 1 = (0 : BitVec 1) ∧
      (b &&& ~~~msb ||| (BitVec.ofBool (b.getLsbD 7)).setWidth 8 <<< 7) = b := by decide
  obtain ⟨hdata, hnat, hdown⟩ := hpos k hk
  obtain ⟨hclear, hjoin⟩ := hbits b
  have hone : (msbs >>> (6 - k)) &&& 1 = (BitVec.ofBool (b.getLsbD 7)).setWidth 8 := by
    rw [← hb, show (1 : Byte) = 1#8 from rfl, BitVec.and_one_eq_setWidth_ofBool_getLsbD,
      BitVec.getLsbD_ushiftRight, Nat.add_zero]
  simp only [decoder, Decoder.within, if_neg hdata, hnat, hdown, hclear, hone, hjoin]
  rfl

theorem run_within {msbs : Byte} {bs : List Byte} {k : Nat} (hlen : k + bs.length ≤ 7)
    (hbs : ∀ i b, bs[i]? = some b → msbs.getLsbD (6 - (k + i)) = b.getLsbD 7) :
    decoder.run (.within msbs k) (bs.map fun b => b &&& ~~~msb) =
      (.within msbs (k + bs.length), bs) := by
  induction bs generalizing k with
  | nil => rfl
  | cons b bs ih =>
      rw [List.length_cons] at hlen
      have hrest : ∀ i c, bs[i]? = some c → msbs.getLsbD (6 - (k + 1 + i)) = c.getLsbD 7 := by
        intro i c hc
        rw [Nat.add_assoc, Nat.add_comm 1]
        exact hbs (i + 1) c hc
      have hb : msbs.getLsbD (6 - k) = b.getLsbD 7 := hbs 0 b rfl
      rw [List.map_cons, Machine.run_cons, step_within (by omega) hb,
        ih (by omega) hrest, List.length_cons, Nat.add_assoc, Nat.add_comm 1]
      rfl

/-- Before a group, whatever the top bits of the last one were. -/
theorem decode_group {g : List Byte} (hlen : g.length ≤ 7) (msbs : Byte) :
    decoder.run ⟨msbs, 7, 0⟩ (group g) = (.within (signsFrom 0 g) g.length, g) := by
  have hsigns : ∀ i b, g[i]? = some b →
      (signsFrom 0 g).getLsbD (6 - (0 + i)) = b.getLsbD 7 := by
    intro i b hb
    have hi := (List.getElem?_eq_some_iff.1 hb).1
    rw [getLsbD_signsFrom, decide_eq_true (by omega), Bool.true_and,
      show 6 - (0 + (6 - (0 + i))) = i by omega, List.getD_eq_getElem?_getD, hb, Option.getD_some]
  have hfirst : decoder.step ⟨msbs, 7, 0⟩ (signsFrom 0 g) = (.within (signsFrom 0 g) 0, []) := rfl
  rw [group, Machine.run_cons, hfirst, run_within (by omega) hsigns, Nat.zero_add]
  rfl

/-- After a full group the decoder is before a group again. -/
theorem decode_groups {gs : List (List Byte)} (hgs : ∀ g ∈ gs, g.length = 7) (msbs : Byte) :
    ∃ msbs', decoder.run ⟨msbs, 7, 0⟩ (gs.flatMap group) = (⟨msbs', 7, 0⟩, gs.flatten) := by
  induction gs generalizing msbs with
  | nil => exact ⟨msbs, rfl⟩
  | cons g gs ih =>
      have hlen := hgs g List.mem_cons_self
      have hfull : Decoder.within (signsFrom 0 g) 7 = ⟨signsFrom 0 g, 7, 0⟩ := rfl
      obtain ⟨msbs', hrun⟩ := ih (fun g hg => hgs g (List.mem_cons_of_mem _ hg)) (signsFrom 0 g)
      refine ⟨msbs', ?_⟩
      rw [List.flatMap_cons, Machine.run_append, decode_group (Nat.le_of_eq hlen), hlen, hfull,
        hrun, List.flatten_cons]

/-! ## There and back -/

/-- Eight bytes are written for each seven. -/
theorem length_flatMap_group {gs : List (List Byte)} (hgs : ∀ g ∈ gs, g.length = 7) :
    (gs.flatMap group).length = 8 * gs.length ∧ gs.flatten.length = 7 * gs.length := by
  induction gs with
  | nil => exact ⟨rfl, rfl⟩
  | cons g gs ih =>
      obtain ⟨hout, hin⟩ := ih fun g hg => hgs g (List.mem_cons_of_mem _ hg)
      have hlen := hgs g List.mem_cons_self
      rw [List.flatMap_cons, List.flatten_cons, List.length_append, List.length_append,
        length_group, hout, hin, hlen, List.length_cons]
      omega

/-- What the encoder writes is seven bits wide, it has one byte more for each seven bytes that
are begun, and a decoder has nothing against it and gives the bytes back. -/
theorem decode_encode (bytes : List Byte) :
    (∀ b ∈ encode bytes, b < 0x80) ∧
    (encode bytes).length = bytes.length + (bytes.length + 6) / 7 ∧
    (decoder.run {} (encode bytes)).2 = bytes ∧
    (decoder.run {} (encode bytes)).1.good = true := by
  obtain ⟨gs, g, hfull, hbegun, rfl, henc⟩ := encode_eq bytes
  obtain ⟨hout, hin⟩ := length_flatMap_group hfull
  obtain ⟨msbs, hgroups⟩ := decode_groups hfull 0
  have hfresh : ({} : Decoder) = ⟨0, 7, 0⟩ := rfl
  rw [henc, hfresh, Machine.run_append, hgroups, List.length_append, List.length_append, hout, hin]
  cases hg : g with
  | nil =>
      rw [if_pos rfl, List.append_nil]
      refine ⟨?_, by rw [List.length_nil]; omega, rfl, rfl⟩
      intro b hb
      obtain ⟨g, -, hmem⟩ := List.mem_flatMap.1 hb
      exact lt_of_mem_group hmem
  | cons b bs =>
      have hlen : g.length = bs.length + 1 := by rw [hg, List.length_cons]
      rw [if_neg (List.cons_ne_nil b bs), ← hg, decode_group (Nat.le_of_lt hbegun), length_group]
      refine ⟨?_, by omega, rfl, rfl⟩
      intro b hb
      rcases List.mem_append.1 hb with hmem | hmem
      · obtain ⟨g, -, hmem⟩ := List.mem_flatMap.1 hmem
        exact lt_of_mem_group hmem
      · exact lt_of_mem_group hmem

/-! ## Bad bytes -/

/-- No byte that opens a group has its top bit set. -/
def SignsClear (bytes : List Byte) : Prop :=
  ∀ i b, bytes[i]? = some b → i % 8 = 0 → b < 0x80

/-- No byte after the first one of its group has its top bit set. -/
def DataClear (bytes : List Byte) : Prop :=
  ∀ i b, bytes[i]? = some b → i % 8 ≠ 0 → b < 0x80

/-- The decoder finds the bytes good if and only if all of them have a clear top bit. -/
def DetectsBad (bytes : List Byte) : Prop :=
  (decoder.run {} bytes).1.good = true ↔ ∀ b ∈ bytes, b < 0x80

theorem forall_clear_iff (bytes : List Byte) :
    (∀ b ∈ bytes, b < 0x80) ↔ SignsClear bytes ∧ DataClear bytes := by
  constructor
  · intro h
    exact ⟨fun _ b hb _ => h b (List.mem_of_getElem? hb),
      fun _ b hb _ => h b (List.mem_of_getElem? hb)⟩
  · rintro ⟨hsigns, hdata⟩ b hmem
    obtain ⟨i, hb⟩ := List.mem_iff_getElem?.1 hmem
    rcases Nat.eq_zero_or_pos (i % 8) with hzero | hpos
    · exact hsigns i b hb hzero
    · exact hdata i b hb (Nat.ne_of_gt hpos)

/-- Whether the last byte matters depends on its place in the group. -/
theorem dataClear_concat (bytes : List Byte) (b : Byte) :
    DataClear (bytes ++ [b]) ↔ DataClear bytes ∧ (bytes.length % 8 ≠ 0 → b < 0x80) := by
  constructor
  · intro h
    refine ⟨fun i c hc => h i c ?_, h _ b List.getElem?_concat_length⟩
    rw [List.getElem?_append_left (List.getElem?_eq_some_iff.1 hc).1, hc]
  · rintro ⟨hbefore, hlast⟩ i c hc
    rcases Nat.lt_or_ge i bytes.length with hlt | hge
    · rw [List.getElem?_append_left hlt] at hc
      exact hbefore i c hc
    · have hi := (List.getElem?_eq_some_iff.1 hc).1
      rw [List.length_append, List.length_singleton] at hi
      obtain rfl : i = bytes.length := by omega
      rw [List.getElem?_concat_length] at hc
      exact Option.some.inj hc ▸ hlast

theorem step_opens {d : Decoder} (h : d.pos = 7) (b : Byte) :
    (decoder.step d b).1 = ⟨b, d.pos - 1, d.bad⟩ := by
  simp only [decoder, if_pos h]

theorem step_data {d : Decoder} (h : d.pos ≠ 7) (b : Byte) :
    (decoder.step d b).1 = ⟨d.msbs, d.pos - 1, d.bad ||| (b >>> 7).setWidth 1⟩ := by
  simp only [decoder, if_neg h]

/-- The position counts down with the bytes, in three bits, and bad input has been detected
if one of the bytes of data was bad. -/
theorem run_position (bytes : List Byte) :
    (decoder.run {} bytes).1.pos = 7 - BitVec.ofNat 3 bytes.length ∧
    ((decoder.run {} bytes).1.bad = 0 ↔ DataClear bytes) := by
  have hcount : ∀ n, BitVec.ofNat 3 n = BitVec.ofNat 3 (n % 8) := fun n => by
    rw [show 8 = 2 ^ 3 from rfl, ← BitVec.toNat_ofNat, BitVec.ofNat_toNat, BitVec.setWidth_eq]
  have hopens : ∀ n < 8, 7 - BitVec.ofNat 3 n = 7 ↔ n = 0 := by decide
  have hbits : ∀ b : Byte, (b >>> 7).setWidth 1 = (0 : BitVec 1) ↔ b < 0x80 := by decide
  have hor : ∀ x y : BitVec 1, x ||| y = 0 ↔ x = 0 ∧ y = 0 := by decide
  induction bytes using List.reverseRecOn with
  | nil => exact ⟨rfl, iff_of_true rfl fun i b hb => by cases hb⟩
  | append_singleton bytes b ih =>
      obtain ⟨hpos, hbad⟩ := ih
      have hfirst := hopens (bytes.length % 8) (Nat.mod_lt _ (by decide))
      rw [← hcount, ← hpos] at hfirst
      have hdown : (decoder.run {} bytes).1.pos - 1 =
          7 - BitVec.ofNat 3 (bytes ++ [b]).length := by
        rw [hpos, List.length_append, List.length_singleton, BitVec.ofNat_add]
        exact BitVec.sub_sub _ _ _
      rw [Machine.run_append, Machine.run_singleton, dataClear_concat]
      by_cases hsigns : (decoder.run {} bytes).1.pos = 7
      · have hstart := hfirst.1 hsigns
        rw [step_opens hsigns]
        exact ⟨hdown, hbad.trans (iff_self_and.2 fun _ h => absurd hstart h)⟩
      · have hinner := mt hfirst.2 hsigns
        rw [step_data hsigns]
        refine ⟨hdown, ?_⟩
        rw [hor, hbits]
        exact and_congr hbad ⟨fun h _ => h, fun h => h hinner⟩

/-- The decoder does not look at the top bits of the bytes that open a group. So it detects
all bad bytes unless these are the only ones. -/
theorem detectsBad_iff (bytes : List Byte) :
    DetectsBad bytes ↔ SignsClear bytes ∨ ¬DataClear bytes := by
  have hgood : (decoder.run {} bytes).1.good = true ↔ DataClear bytes := by
    rw [Decoder.good, decide_eq_true_eq]
    exact (run_position bytes).2
  rw [DetectsBad, hgood, forall_clear_iff]
  constructor
  · intro h
    rcases Classical.em (DataClear bytes) with hdata | hbad
    · exact Or.inl (h.1 hdata).1
    · exact Or.inr hbad
  · rintro (hsigns | hbad)
    · exact ⟨fun hdata => ⟨hsigns, hdata⟩, And.right⟩
    · exact iff_of_false hbad fun h => hbad h.2

/-- A byte that opens a group, with its top bit set. -/
theorem not_detectsBad : (decoder.run {} [0x80]).1.good = true ∧ ¬DetectsBad [0x80] := by
  have hgood : (decoder.run {} [0x80]).1.good = true := by decide
  refine ⟨hgood, fun h => ?_⟩
  exact absurd (h.1 hgood 0x80 List.mem_cons_self) (by decide)

end Midi2.Mcoded7
