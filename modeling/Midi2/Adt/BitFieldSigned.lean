import Midi2.Adt.BitField
import Midi2.Adt.UInteger

/-!
# Signed bit-fields, and promotion (`adt/bitfield.hpp`)

In the source, masks and shifts are computed in the type that the words are promoted to, which is
wider than they are if they have 8 or 16 bits. The accessors of bit-fields do not depend on
this (`maxValue_eq`, `get_eq_promoted`, `set_eq_promoted`).

A field can also have a signed value. It is written as its lowest bits are (`setSigned_eq`), and
read by an extension of the sign that flips the highest bit of the field and subtracts it again.
So what is read is the two's complement value of the field (`getSigned_eq`), and any value
that has one is read back (`laws`).
-/

namespace Midi2.Adt

variable {w : Nat}

/-! ## Promotion -/

/-- A word as an operand. -/
def promote (x : BitVec w) : BitVec (promoted w) :=
  x.setWidth (promoted w)

theorem getLsbD_promote (x : BitVec w) (i : Nat) : (promote x).getLsbD i = x.getLsbD i := by
  rw [promote, BitVec.getLsbD_setWidth]
  rcases Nat.lt_or_ge i (promoted w) with hlt | hge
  · rw [decide_eq_true hlt, Bool.true_and]
  · rw [BitVec.getLsbD_of_ge x i (Nat.le_trans (le_promoted w) hge), Bool.and_false]

theorem one_shiftLeft (p k : Nat) : (1 : BitVec p) <<< k = BitVec.ofNat p (2 ^ k) := by
  refine BitVec.eq_of_toNat_eq ?_
  rw [show (1 : BitVec p) = BitVec.ofNat p 1 from rfl, BitVec.toNat_shiftLeft, BitVec.toNat_ofNat,
    BitVec.toNat_ofNat, Nat.shiftLeft_eq, Nat.mod_mul_mod, Nat.one_mul]

/-- The cases of `max_value<T, Bits>()`. -/
theorem maxValue_eq {bits : Nat} (h : bits ≤ w) :
    maxValue w bits =
      if bits = 0 then 0
      else if bits = 8 then BitVec.ofNat w 0xFF
      else if bits = 16 then BitVec.ofNat w 0xFFFF
      else if bits = 32 then BitVec.ofNat w 0xFFFFFFFF
      else if bits = 64 then BitVec.ofNat w 0xFFFFFFFFFFFFFFFF
      else ((1 : BitVec (promoted w)) <<< bits - 1).setWidth w := by
  have hshift : ((1 : BitVec (promoted w)) <<< bits - 1).setWidth w = maxValue w bits := by
    rw [one_shiftLeft, ← Nat.sub_add_cancel (Nat.two_pow_pos bits), BitVec.ofNat_add]
    exact (congrArg _ (BitVec.add_sub_cancel _ _)).trans
      (BitVec.setWidth_ofNat_of_le (le_promoted w) _)
  rw [hshift]
  repeat' split
  all_goals first | rfl | (subst_vars; rfl)

theorem get_eq_promoted (f : BitField w) (r : BitRange) :
    f.get r = ((promote f >>> r.index) &&& promote (maxValue w r.bits)).toNat := by
  refine Nat.eq_of_testBit_eq fun i => ?_
  rw [BitField.get, ← BitVec.getLsbD, ← BitVec.getLsbD, BitVec.getLsbD_and, BitVec.getLsbD_and,
    BitVec.getLsbD_ushiftRight, BitVec.getLsbD_ushiftRight, getLsbD_promote, getLsbD_promote]

theorem set_eq_promoted (f : BitField w) (r : BitRange) (v : Nat) :
    f.set r v =
      (promote f &&& ~~~(promote (maxValue w r.bits) <<< r.index)).setWidth w |||
        (promote (BitVec.ofNat w v &&& maxValue w r.bits) <<< r.index).setWidth w := by
  refine BitVec.eq_of_getLsbD_eq fun i hi => ?_
  have hi' : i < promoted w := Nat.lt_of_lt_of_le hi (le_promoted w)
  simp only [BitField.set, BitVec.getLsbD_or, BitVec.getLsbD_and, BitVec.getLsbD_not,
    BitVec.getLsbD_shiftLeft, BitVec.getLsbD_setWidth, getLsbD_promote, hi, hi', decide_true,
    Bool.true_and]

/-! ## Signed values -/

/-- `bit_field::set_signed<BitRange>(v)`, as compiled without the range assertion. -/
def BitField.setSigned (f : BitField w) (r : BitRange) (v : Int) : BitField w :=
  (promote f &&& ~~~(promote (maxValue w r.bits) <<< r.index)).setWidth w |||
    (promote (BitVec.ofInt w v &&& maxValue w r.bits) <<< r.index).setWidth w

/-- `bit_field::get_signed<BitRange>()`. The result has the type that `make_signed_t` makes of
`uinteger_t<Bits>`. -/
def BitField.getSigned (f : BitField w) (r : BitRange) : Int :=
  let m := (1 : BitVec (promoted w)) <<< (r.bits - 1)
  let u := BitVec.ofNat (promoted w) (f.get r)
  (((u ^^^ m) - m).setWidth (uinteger r.bits)).toInt

theorem setSigned_eq (f : BitField w) (r : BitRange) (v : Int) :
    f.setSigned r v = f.set r (BitVec.ofInt w v).toNat := by
  rw [set_eq_promoted, BitVec.ofNat_toNat, BitVec.setWidth_eq, BitField.setSigned]

/-- Whatever is written to a range, its lowest bits are read. -/
theorem get_set (f : BitField w) (r : BitRange) (v : Nat) (hw : r.index + r.bits ≤ w) :
    (f.set r v).get r = v % 2 ^ r.bits := by
  refine Nat.eq_of_testBit_eq fun i => ?_
  rw [testBit_get, Nat.testBit_mod_two_pow]
  by_cases hi : i < r.bits
  · rw [getLsbD_set f r v _ (by omega), if_pos (by omega), Nat.add_sub_cancel_left]
  · rw [decide_eq_false hi, Bool.false_and, Bool.false_and]

/-- Flipping the highest bit. -/
theorem xor_two_pow {n k : Nat} (h : n < 2 ^ (k + 1)) :
    n ^^^ 2 ^ k = if n < 2 ^ k then n + 2 ^ k else n - 2 ^ k := by
  have hpos := Nat.two_pow_pos k
  have hdiv : (n ^^^ 2 ^ k) / 2 ^ k = n / 2 ^ k ^^^ 1 := by
    rw [Nat.xor_div_two_pow, Nat.div_self hpos]
  have hmod : (n ^^^ 2 ^ k) % 2 ^ k = n % 2 ^ k := by
    rw [Nat.xor_mod_two_pow, Nat.mod_self, Nat.xor_zero]
  have hsplit := Nat.div_add_mod (n ^^^ 2 ^ k) (2 ^ k)
  rw [Nat.pow_succ] at h
  rw [hdiv, hmod] at hsplit
  split
  case isTrue hlt =>
    rw [Nat.div_eq_of_lt hlt, Nat.mod_eq_of_lt hlt, Nat.zero_xor, Nat.mul_one] at hsplit
    omega
  case isFalse hge =>
    have hone : n / 2 ^ k = 1 := Nat.div_eq_of_lt_le (by omega) (by omega)
    have hrest : n % 2 ^ k = n - 2 ^ k := by
      rw [Nat.mod_eq_sub_mod (Nat.not_lt.1 hge), Nat.mod_eq_of_lt (by omega)]
    rw [hone, hrest, Nat.xor_self, Nat.mul_zero, Nat.zero_add] at hsplit
    exact hsplit.symm

/-- The value that `n` stands for, as a two's complement of `k + 1` bits. -/
def signed (k n : Nat) : Int :=
  if n < 2 ^ k then n else n - 2 ^ (k + 1)

/-- The sign is extended to the width of the type. -/
theorem xor_sub {p k n : Nat} (h : n < 2 ^ (k + 1)) :
    (BitVec.ofNat p n ^^^ BitVec.ofNat p (2 ^ k)) - BitVec.ofNat p (2 ^ k) =
      BitVec.ofInt p (signed k n) := by
  have hsum : ((n ^^^ 2 ^ k : Nat) : Int) = signed k n + (2 ^ k : Nat) := by
    rw [xor_two_pow h, signed]
    split
    case isTrue => exact Int.natCast_add n (2 ^ k)
    case isFalse hge =>
      rw [Int.natCast_sub (Nat.not_lt.1 hge), Int.pow_succ]
      push_cast
      omega
  rw [BitVec.sub_eq_iff_eq_add, ← BitVec.ofNat_xor, ← BitVec.ofInt_natCast, ← BitVec.ofInt_natCast,
    ← BitVec.ofInt_add]
  exact congrArg (BitVec.ofInt p) hsum

/-- A narrower type has room for a value of as many bits. -/
theorem toInt_setWidth_ofInt {p c : Nat} {v : Int} (hle : c ≤ p) (hlo : -2 ^ c ≤ v * 2)
    (hhi : v * 2 < 2 ^ c) : ((BitVec.ofInt p v).setWidth c).toInt = v := by
  have hdvd : ((2 ^ c : Nat) : Int) ∣ ((2 ^ p : Nat) : Int) :=
    Int.natCast_dvd_natCast.2 (Nat.pow_dvd_pow 2 hle)
  have hnonneg : 0 ≤ v % ((2 ^ p : Nat) : Int) :=
    Int.emod_nonneg v (Int.natCast_ne_zero.2 (Nat.ne_of_gt (Nat.two_pow_pos p)))
  rw [BitVec.toInt_setWidth, BitVec.toNat_ofInt, Int.toNat_of_nonneg hnonneg, ← Int.emod_bmod,
    Int.emod_emod_of_dvd v hdvd, Int.emod_bmod]
  refine Int.bmod_eq_of_le_mul_two ?_ ?_
  · push_cast
    exact hlo
  · push_cast
    exact hhi

theorem signed_bounds {k n : Nat} (h : n < 2 ^ (k + 1)) :
    -2 ^ k ≤ signed k n ∧ signed k n < 2 ^ k := by
  have hcast : (2 : Int) ^ k = (2 ^ k : Nat) := by push_cast; rfl
  rw [signed, Int.pow_succ, hcast]
  rw [Nat.pow_succ] at h
  split
  case isTrue => omega
  case isFalse => omega

section Word

variable (hw : w = 8 ∨ w = 16 ∨ w = 32 ∨ w = 64) (f : BitField w) {r : BitRange}
  (hr : r.index + r.bits ≤ w)

include hw hr

theorem getSigned_eq_signed : f.getSigned r = signed (r.bits - 1) (f.get r) := by
  have hbits : r.bits - 1 + 1 = r.bits := Nat.sub_add_cancel r.bits_pos
  have hget : f.get r < 2 ^ (r.bits - 1 + 1) := by
    rw [hbits]
    exact get_lt f r
  obtain ⟨hlo, hhi⟩ := signed_bounds hget
  have hpow : (2 : Int) ^ (r.bits - 1) * 2 ≤ 2 ^ uinteger r.bits := by
    have hle := le_uinteger (Nat.le_trans (Nat.le_add_left _ _) r.le_64)
    have hnat : 2 ^ (r.bits - 1) * 2 ≤ 2 ^ uinteger r.bits := by
      rw [Nat.two_pow_pred_mul_two r.bits_pos]
      exact Nat.pow_le_pow_right Nat.two_pos hle
    exact_mod_cast hnat
  have hwidth : uinteger r.bits ≤ promoted w :=
    Nat.le_trans (uinteger_le hw (by omega)) (le_promoted w)
  simp only [BitField.getSigned, one_shiftLeft, xor_sub hget]
  exact toInt_setWidth_ofInt hwidth (by omega) (by omega)

/-- What is read is the two's complement value of the bits of the range. -/
theorem getSigned_eq : f.getSigned r = (f.extractLsb' r.index r.bits).toInt := by
  have hbits : 2 ^ (r.bits - 1) * 2 = 2 ^ r.bits := Nat.two_pow_pred_mul_two r.bits_pos
  rw [getSigned_eq_signed hw f hr, signed, Nat.sub_add_cancel r.bits_pos,
    BitVec.toInt_eq_toNat_cond, BitVec.extractLsb'_toNat, Nat.shiftRight_eq_div_pow,
    ← get_eq_div_mod, ← hbits]
  by_cases hlt : f.get r < 2 ^ (r.bits - 1)
  · rw [if_pos hlt, if_pos (by omega)]
  · rw [if_neg hlt, if_neg (by omega), hbits]
    push_cast
    rfl

theorem getSigned_setSigned {v : Int} (hlo : -2 ^ (r.bits - 1) ≤ v) (hhi : v < 2 ^ (r.bits - 1)) :
    (f.setSigned r v).getSigned r = v := by
  have hcast : (2 : Int) ^ (r.bits - 1) = (2 ^ (r.bits - 1) : Nat) := by push_cast; rfl
  have hbits : 2 ^ (r.bits - 1) * 2 = 2 ^ r.bits := Nat.two_pow_pred_mul_two r.bits_pos
  have hdvd : ((2 ^ r.bits : Nat) : Int) ∣ ((2 ^ w : Nat) : Int) :=
    Int.natCast_dvd_natCast.2 (Nat.pow_dvd_pow 2 (by omega))
  have hnonneg : 0 ≤ v % ((2 ^ w : Nat) : Int) :=
    Int.emod_nonneg v (Int.natCast_ne_zero.2 (Nat.ne_of_gt (Nat.two_pow_pos w)))
  -- What is in the range then is `v` modulo `2 ^ bits`.
  have hget : (((f.setSigned r v).get r : Nat) : Int) = v % ((2 ^ r.bits : Nat) : Int) := by
    rw [setSigned_eq, get_set f r _ hr, BitVec.toNat_ofInt, Int.natCast_emod,
      Int.toNat_of_nonneg hnonneg, Int.emod_emod_of_dvd v hdvd]
  rw [getSigned_eq_signed hw _ hr, signed, Nat.sub_add_cancel r.bits_pos]
  rw [hcast] at hlo hhi
  rcases Int.lt_or_le v 0 with hneg | hpos
  · rw [← Int.add_emod_right, Int.emod_eq_of_lt (by omega) (by omega)] at hget
    rw [if_neg (by omega), hget]
    push_cast
    omega
  · rw [Int.emod_eq_of_lt hpos (by omega)] at hget
    rw [if_pos (by omega), hget]

end Word

/-- The laws of bit-fields, for a range of a word. -/
structure BitField.Laws (f : BitField w) (r : BitRange) : Prop where
  /-- A value is read back, and no bit outside the range has changed. -/
  get_set : ∀ v < 2 ^ r.bits, (f.set r v).get r = v
  set_outside : ∀ v, ∀ i < w, ¬r.Covers i → (f.set r v).getLsbD i = f.getLsbD i
  /-- So all other ranges read as before. -/
  get_set_other : ∀ v r', r.Disjoint r' → (f.set r v).get r' = f.get r'
  /-- So it is for signed values. -/
  getSigned_setSigned : ∀ v : Int, -2 ^ (r.bits - 1) ≤ v → v < 2 ^ (r.bits - 1) →
    (f.setSigned r v).getSigned r = v
  setSigned_outside : ∀ v, ∀ i < w, ¬r.Covers i → (f.setSigned r v).getLsbD i = f.getLsbD i
  get_setSigned_other : ∀ v r', r.Disjoint r' → (f.setSigned r v).get r' = f.get r'
  /-- The signed value is that of the bits. -/
  getSigned : f.getSigned r = (f.extractLsb' r.index r.bits).toInt

theorem BitField.laws (hw : w = 8 ∨ w = 16 ∨ w = 32 ∨ w = 64) (f : BitField w) {r : BitRange}
    (hr : r.index + r.bits ≤ w) : f.Laws r where
  get_set v hv := get_set_self f r hr hv
  set_outside v i hi hout := (getLsbD_set f r v i hi).trans (if_neg hout)
  get_set_other v _ hdisjoint := get_set_of_disjoint f v hdisjoint
  getSigned_setSigned v hlo hhi := Adt.getSigned_setSigned hw f hr hlo hhi
  setSigned_outside v i hi hout := by
    rw [setSigned_eq]
    exact (getLsbD_set f r _ i hi).trans (if_neg hout)
  get_setSigned_other v _ hdisjoint := by rw [setSigned_eq, get_set_of_disjoint f _ hdisjoint]
  getSigned := getSigned_eq hw f hr

/-- A whole byte of a word of 16 bits, and a range that is all of a word of 64 bits. -/
theorem BitField.laws_limits :
    BitField.Laws (w := 16) 0x80FF ⟨0, 8, by decide, by decide⟩ ∧
    BitField.Laws (w := 64) 0x80FF ⟨0, 64, by decide, by decide⟩ :=
  ⟨BitField.laws (Or.inr (Or.inl rfl)) _ (by decide),
    BitField.laws (Or.inr (Or.inr (Or.inr rfl))) _ (by decide)⟩

/-! ## Ranges known at run time -/

/-- `get(index, bits)`. The mask has 32 bits, so that `1U << bits` is not defined for more. -/
def BitField.getAt (f : BitField w) (index bits : Nat) : Option (BitVec w) :=
  if index < promoted w ∧ bits < 32 then
    some (((promote f >>> index) &&&
      ((1 : BitVec 32) <<< bits - 1).setWidth (promoted w)).setWidth w)
  else
    none

/-- It does what `get<BitRange>()` does, if it is defined. -/
theorem getAt_eq (f : BitField w) {r : BitRange} (hr : r.index + r.bits ≤ w) :
    f.getAt r.index r.bits = if r.bits < 32 then some (BitVec.ofNat w (f.get r)) else none := by
  have hpos := r.bits_pos
  have hindex : r.index < promoted w := Nat.lt_of_lt_of_le (by omega) (le_promoted w)
  have hmask : ∀ i, ((1 : BitVec 32) <<< r.bits - 1).getLsbD i =
      (decide (i < 32) && decide (i < r.bits)) := by
    intro i
    rw [one_shiftLeft, ← Nat.sub_add_cancel (Nat.two_pow_pos r.bits), BitVec.ofNat_add]
    exact (congrArg (fun x => BitVec.getLsbD x i) (BitVec.add_sub_cancel _ _)).trans
      (getLsbD_maxValue r.bits i)
  rw [BitField.getAt]
  by_cases hbits : r.bits < 32
  · rw [if_pos ⟨hindex, hbits⟩, if_pos hbits]
    refine congrArg some (BitVec.eq_of_getLsbD_eq fun i hi => ?_)
    have hi' : i < promoted w := Nat.lt_of_lt_of_le hi (le_promoted w)
    rw [BitVec.getLsbD_ofNat, testBit_get, BitVec.getLsbD_setWidth, BitVec.getLsbD_and,
      BitVec.getLsbD_ushiftRight, getLsbD_promote, BitVec.getLsbD_setWidth, hmask,
      decide_eq_true hi, decide_eq_true hi']
    rcases Nat.lt_or_ge i r.bits with hlt | hge
    · rw [decide_eq_true hlt, decide_eq_true (Nat.lt_trans hlt hbits)]
      simp
    · rw [decide_eq_false (Nat.not_lt.2 hge)]
      simp
  · rw [if_neg fun h => hbits h.2, if_neg hbits]

end Midi2.Adt
