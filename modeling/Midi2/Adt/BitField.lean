import Mathlib.Data.Nat.Bitwise
import Mathlib.Order.Defs.LinearOrder

/-!
# Bit-fields (`adt/bitfield.hpp`)

A `bit_field<T>` is a machine word that is read and written one range of bits at a time.
The word is a `BitVec w`; the values that go in and come out are `uinteger_t<Bits>` in the
source, which can be wider than the range, so they are natural numbers here and the
masking is explicit. `testBit_get` and `getLsbD_set` say bit by bit what the two accessors
do; the laws of reading after writing follow from them.
-/

namespace Midi2.Adt

/-- `bit_range<Index, Bits>`: the first bit of a range and its number of bits. -/
structure BitRange where
  index : Nat
  bits : Nat
  bits_pos : 0 < bits := by decide
  le_64 : index + bits ≤ 64 := by decide

/-- A range of one bit, given by its number in a word of 64 bits. -/
def BitRange.bit (i : BitVec 6) : BitRange where
  index := i.toNat
  bits := 1
  bits_pos := Nat.one_pos
  le_64 := i.isLt

/-- `max_value<T, Bits>()`: the largest value of `bits` bits, in a word of `w` bits. -/
def maxValue (w bits : Nat) : BitVec w :=
  BitVec.ofNat w (2 ^ bits - 1)

/-- A word whose bits are grouped in ranges. -/
abbrev BitField (w : Nat) := BitVec w

variable {w : Nat}

/-- `bit_field::get<BitRange>()`. -/
def BitField.get (f : BitField w) (r : BitRange) : Nat :=
  ((f >>> r.index) &&& maxValue w r.bits).toNat

/-- `bit_field::set<BitRange>(v)`, as compiled without the range assertion. -/
def BitField.set (f : BitField w) (r : BitRange) (v : Nat) : BitField w :=
  (f &&& ~~~(maxValue w r.bits <<< r.index)) |||
    ((BitVec.ofNat w v &&& maxValue w r.bits) <<< r.index)

/-- Two ranges without a common bit. -/
def BitRange.Disjoint (r r' : BitRange) : Prop :=
  r.index + r.bits ≤ r'.index ∨ r'.index + r'.bits ≤ r.index

instance (r r' : BitRange) : Decidable (r.Disjoint r') :=
  inferInstanceAs (Decidable (_ ∨ _))

theorem getLsbD_maxValue (bits i : Nat) :
    (maxValue w bits).getLsbD i = (decide (i < w) && decide (i < bits)) := by
  rw [maxValue, BitVec.getLsbD_ofNat, Nat.testBit_two_pow_sub_one]

/-- Reading a range reads its bits, and nothing above them. -/
theorem testBit_get (f : BitField w) (r : BitRange) (i : Nat) :
    (f.get r).testBit i = (decide (i < r.bits) && f.getLsbD (r.index + i)) := by
  rw [BitField.get, ← BitVec.getLsbD, BitVec.getLsbD_and, BitVec.getLsbD_ushiftRight,
    getLsbD_maxValue]
  by_cases hi : i < w
  · simp [hi, Bool.and_comm]
  · simp [BitVec.getLsbD_of_ge f (r.index + i) (by omega)]

/-- Writing a range replaces its bits and keeps every other. -/
theorem getLsbD_set (f : BitField w) (r : BitRange) (v i : Nat) (hi : i < w) :
    (f.set r v).getLsbD i =
      if r.index ≤ i ∧ i < r.index + r.bits then v.testBit (i - r.index) else f.getLsbD i := by
  simp only [BitField.set, BitVec.getLsbD_or, BitVec.getLsbD_and, BitVec.getLsbD_not,
    BitVec.getLsbD_shiftLeft, getLsbD_maxValue, BitVec.getLsbD_ofNat, hi, decide_true,
    Bool.true_and]
  by_cases hlo : i < r.index
  · have hno : ¬(r.index ≤ i ∧ i < r.index + r.bits) := by omega
    simp [hlo, hno]
  · have hsub : i - r.index < w := by omega
    by_cases hin : i - r.index < r.bits
    · have hyes : r.index ≤ i ∧ i < r.index + r.bits := by omega
      simp [hlo, hsub, hin, hyes]
    · have hno : ¬(r.index ≤ i ∧ i < r.index + r.bits) := by omega
      simp [hsub, hin, hno]

theorem get_lt (f : BitField w) (r : BitRange) : f.get r < 2 ^ r.bits :=
  Nat.lt_pow_two_of_testBit _ fun i hi => by
    rw [testBit_get, decide_eq_false (Nat.not_lt.2 hi), Bool.false_and]

/-- Reading a range, in arithmetic. -/
theorem get_eq_div_mod (f : BitField w) (r : BitRange) :
    f.get r = f.toNat / 2 ^ r.index % 2 ^ r.bits := by
  refine Nat.eq_of_testBit_eq fun i => ?_
  rw [testBit_get, Nat.testBit_mod_two_pow, Nat.testBit_div_two_pow, BitVec.getLsbD, Nat.add_comm]

/-- A range reads back the value that was last written to it. -/
@[simp] theorem get_set_self (f : BitField w) (r : BitRange) {v : Nat}
    (hw : r.index + r.bits ≤ w) (hv : v < 2 ^ r.bits) : (f.set r v).get r = v := by
  refine Nat.eq_of_testBit_eq fun i => ?_
  rw [testBit_get]
  by_cases hi : i < r.bits
  · rw [getLsbD_set f r v _ (by omega), if_pos (by omega)]
    simp [hi]
  · have hle : v < 2 ^ i := lt_of_lt_of_le hv (Nat.pow_le_pow_right (by decide) (by omega))
    simp [hi, Nat.testBit_lt_two_pow hle]

/-- Writing a range leaves the value of a disjoint one alone. -/
@[simp] theorem get_set_of_disjoint (f : BitField w) {r r' : BitRange} (v : Nat)
    (h : r.Disjoint r') : (f.set r v).get r' = f.get r' := by
  refine Nat.eq_of_testBit_eq fun i => ?_
  rw [testBit_get, testBit_get]
  by_cases hi : i < r'.bits
  · by_cases hw : r'.index + i < w
    · have hout : ¬(r.index ≤ r'.index + i ∧ r'.index + i < r.index + r.bits) := by
        rcases h with h | h <;> omega
      rw [getLsbD_set f r v _ hw, if_neg hout]
    · rw [BitVec.getLsbD_of_ge _ _ (by omega), BitVec.getLsbD_of_ge _ _ (by omega)]
  · simp [hi]

/-! ## All the bits of a word -/

/-- The range has the bit `i`. -/
def BitRange.Covers (r : BitRange) (i : Nat) : Prop :=
  r.index ≤ i ∧ i < r.index + r.bits

instance (r : BitRange) (i : Nat) : Decidable (r.Covers i) :=
  inferInstanceAs (Decidable (_ ∧ _))

/-- A range that reads zero has no bit. -/
theorem getLsbD_of_get_eq_zero {f : BitField w} {r : BitRange} (h : f.get r = 0) {i : Nat}
    (hi : r.Covers i) : f.getLsbD i = false := by
  obtain ⟨hlo, hup⟩ := hi
  have htest := testBit_get f r (i - r.index)
  rw [h, Nat.zero_testBit, decide_eq_true (by omega), Bool.true_and,
    Nat.add_sub_cancel' hlo] at htest
  exact htest.symm

/-- Copying some ranges copies their bits. -/
theorem getLsbD_copy (f g : BitField w) (rs : List BitRange) {i : Nat} (hi : i < w) :
    (rs.foldl (fun g r => g.set r (f.get r)) g).getLsbD i =
      if ∃ r ∈ rs, r.Covers i then f.getLsbD i else g.getLsbD i := by
  induction rs generalizing g with
  | nil => simp
  | cons r rs ih =>
      rw [List.foldl_cons, ih, getLsbD_set _ _ _ _ hi]
      by_cases hrs : ∃ r ∈ rs, r.Covers i
      · obtain ⟨r', hr', hi'⟩ := hrs
        rw [if_pos ⟨r', hr', hi'⟩, if_pos ⟨r', List.mem_cons_of_mem r hr', hi'⟩]
      · rw [if_neg hrs]
        by_cases hr : r.Covers i
        · obtain ⟨hlo, hup⟩ := hr
          rw [if_pos ⟨hlo, hup⟩, if_pos ⟨r, List.mem_cons_self, hlo, hup⟩, testBit_get,
            decide_eq_true (by omega), Bool.true_and, Nat.add_sub_cancel' hlo]
        · have hout : ¬(r.index ≤ i ∧ i < r.index + r.bits) := hr
          rw [if_neg hout, if_neg]
          rintro ⟨r', hr', hi'⟩
          rcases List.mem_cons.1 hr' with rfl | hr'
          · exact hr hi'
          · exact hrs ⟨r', hr', hi'⟩

/-- A word is the copy of some of its ranges if the others are zero. -/
theorem copy_eq {f : BitField w} {rs reserved : List BitRange}
    (hcover : ∀ i < w, ∃ r ∈ rs ++ reserved, r.Covers i) (hzero : ∀ r ∈ reserved, f.get r = 0) :
    rs.foldl (fun g r => g.set r (f.get r)) 0 = f := by
  refine BitVec.eq_of_getLsbD_eq fun i hi => ?_
  rw [getLsbD_copy f 0 rs hi]
  split
  case isTrue => rfl
  case isFalse hrs =>
    obtain ⟨r, hr, hi'⟩ := hcover i hi
    rcases List.mem_append.1 hr with hr | hr
    · exact absurd ⟨r, hr, hi'⟩ hrs
    · rw [getLsbD_of_get_eq_zero (hzero r hr) hi']
      exact BitVec.getLsbD_zero

end Midi2.Adt
