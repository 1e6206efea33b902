import Midi2.Ump.Utils

/-!
# Scaling up (`ump/ump_utils.hpp`)

What is to be expected of a Min-Center-Max scaling is `MinCenterMax`: it is strictly monotone, and
the minimum, the centre and the maximum are mapped to those of the other resolution.

Up to the centre `mcm_scale` is a shift. Above it, its loop repeats the bits below the highest
one, further and further down, and there are three things to be said about it. It comes to an end
without overflow (`fills_fillLower`). It does not touch the bits of the value itself, so that
scaling is monotone across the centre, where the loop takes over. And for the maximum it
fills all the bits that there are (`fillLower_ones`).
-/

namespace Midi2.Ump

/-! ## The loop -/

/-- A run of the loop of `mcm_scale` to its end, from `bitShifted` and `repeatValue` to a result.
The values that are assigned fit into `w` bits. -/
inductive Fills (w repeatBits : Nat) : Nat → Nat → Nat → Prop
  | stop (bitShifted : Nat) : Fills w repeatBits bitShifted 0 bitShifted
  | round {bitShifted repeatValue result : Nat} :
      repeatValue ≠ 0 → repeatValue < 2 ^ w → bitShifted ||| repeatValue < 2 ^ w →
      Fills w repeatBits (bitShifted ||| repeatValue) (repeatValue >>> repeatBits) result →
      Fills w repeatBits bitShifted repeatValue result

/-- As many rounds as the value has bits are enough. -/
theorem fills_fillLower {w repeatBits n bitShifted repeatValue : Nat} (hr : 0 < repeatBits)
    (hn : repeatValue < 2 ^ n) (hb : bitShifted < 2 ^ w) (hv : repeatValue < 2 ^ w) :
    Fills w repeatBits bitShifted repeatValue
      (fillLower repeatBits n bitShifted repeatValue) := by
  induction n generalizing bitShifted repeatValue with
  | zero =>
      obtain rfl : repeatValue = 0 := Nat.lt_one_iff.1 hn
      exact .stop bitShifted
  | succ n ih =>
      rw [fillLower]
      split
      case isTrue hzero =>
        rw [hzero]
        exact .stop bitShifted
      case isFalse hne =>
        have hor : bitShifted ||| repeatValue < 2 ^ w := Nat.or_lt_two_pow hb hv
        have hle : repeatValue >>> repeatBits ≤ repeatValue / 2 := by
          rw [Nat.shiftRight_eq_div_pow]
          refine Nat.div_le_div_left ?_ Nat.two_pos
          exact Nat.pow_le_pow_right Nat.two_pos hr
        rw [Nat.pow_succ] at hn
        exact .round hne hv hor (ih (by omega) hor (by omega))

/-- The bits from `j` up to `k`. -/
theorem testBit_ones {j k : Nat} (h : j ≤ k) (i : Nat) :
    (2 ^ k - 2 ^ j).testBit i = (decide (j ≤ i) && decide (i < k)) := by
  have hshift : 2 ^ k - 2 ^ j = 2 ^ j * (2 ^ (k - j) - 1) := by
    rw [Nat.mul_sub, Nat.mul_one, ← Nat.pow_add, Nat.add_sub_cancel' h]
  rw [hshift, Nat.testBit_two_pow_mul, Nat.testBit_two_pow_sub_one]
  refine Bool.eq_iff_iff.2 ?_
  simp only [Bool.and_eq_true, decide_eq_true_eq]
  omega

theorem ones_or {j k d : Nat} (hjk : j ≤ k) (hkd : k ≤ d) :
    2 ^ d - 2 ^ k ||| (2 ^ k - 2 ^ j) = 2 ^ d - 2 ^ j := by
  refine Nat.eq_of_testBit_eq fun i => Bool.eq_iff_iff.2 ?_
  rw [Nat.testBit_or, testBit_ones hkd, testBit_ones hjk, testBit_ones (Nat.le_trans hjk hkd)]
  simp only [Bool.or_eq_true, Bool.and_eq_true, decide_eq_true_eq]
  omega

theorem ones_shiftRight (k r : Nat) :
    (2 ^ k - 2 ^ (k - r)) >>> r = 2 ^ (k - r) - 2 ^ (k - r - r) := by
  refine Nat.eq_of_testBit_eq fun i => Bool.eq_iff_iff.2 ?_
  rw [Nat.testBit_shiftRight, testBit_ones (Nat.sub_le k r), testBit_ones (Nat.sub_le (k - r) r)]
  simp only [Bool.and_eq_true, decide_eq_true_eq]
  omega

/-- If all bits from `k` on are set, and the `r` bits below them are those to be repeated, then
all bits are set in the end. -/
theorem fillLower_ones {r n k d : Nat} (hr : 0 < r) (hkn : k ≤ n) (hkd : k ≤ d) :
    fillLower r n (2 ^ d - 2 ^ k) (2 ^ k - 2 ^ (k - r)) = 2 ^ d - 1 := by
  induction n generalizing k with
  | zero =>
      obtain rfl : k = 0 := Nat.le_zero.1 hkn
      rfl
  | succ n ih =>
      rw [fillLower]
      split
      case isTrue hzero =>
        have hk : k = 0 := by
          by_contra hk
          have hlt : 2 ^ (k - r) < 2 ^ k := Nat.pow_lt_pow_right Nat.one_lt_two (by omega)
          omega
        rw [hk, Nat.pow_zero]
      case isFalse =>
        rw [ones_or (Nat.sub_le k r) hkd, ones_shiftRight, ih (by omega) (by omega)]

/-! ## The values -/

/-- A mapping between values of `s` and `d` bits that keeps minimum, centre and maximum. -/
structure MinCenterMax (s d : Nat) (scale : Nat → Nat) : Prop where
  lt : ∀ v < 2 ^ s, scale v < 2 ^ d
  strictMono : ∀ v v', v < v' → v' < 2 ^ s → scale v < scale v'
  min : scale 0 = 0
  center : scale (2 ^ (s - 1)) = 2 ^ (d - 1)
  max : scale (2 ^ s - 1) = 2 ^ d - 1

/-- If there is a loop in the scaling of `v`, then it comes to an end in 32 bits, with the
result. -/
def LoopEnds (s d v : Nat) : Prop :=
  2 ^ (s - 1) < v →
    Fills 32 (s - 1) (v * 2 ^ (d - s)) (firstFill s d v) (mcmScale s d v)

theorem loopEnds {s d v : Nat} (hs : 2 ≤ s) (hsd : s < d) (hd : d ≤ 32) (hv : v < 2 ^ s) :
    LoopEnds s d v := by
  intro hcenter
  have hle : ∀ {k}, k ≤ 32 → 2 ^ k ≤ 2 ^ 32 := fun h => Nat.pow_le_pow_right Nat.two_pos h
  have hfill := firstFill_lt s d v
  have hshift : v * 2 ^ (d - s) < 2 ^ d := by
    calc v * 2 ^ (d - s) < 2 ^ s * 2 ^ (d - s) :=
          Nat.mul_lt_mul_of_pos_right hv (Nat.two_pow_pos _)
      _ = 2 ^ d := by rw [← Nat.pow_add, Nat.add_sub_cancel' (Nat.le_of_lt hsd)]
  rw [mcmScale_above hsd hv hcenter]
  refine fills_fillLower (by omega) ?_ (Nat.lt_of_lt_of_le hshift (hle hd)) ?_
  · exact Nat.lt_of_lt_of_le hfill (Nat.pow_le_pow_right Nat.two_pos (Nat.sub_le d s))
  · exact Nat.lt_of_lt_of_le hfill (hle (by omega))

theorem mcmScale_lt_mcmScale {s d v v' : Nat} (h : s ≤ d) (hv : v < v') (hv' : v' < 2 ^ s) :
    mcmScale s d v < mcmScale s d v' := by
  by_contra hge
  have hdiv := Nat.div_le_div_right (Nat.not_lt.1 hge) (c := 2 ^ (d - s))
  rw [mcmScale_up_div h hv', mcmScale_up_div h (Nat.lt_trans hv hv')] at hdiv
  omega

/-- For the maximum, the bits to be repeated are all set. -/
theorem firstFill_max {s d : Nat} (hs : 2 ≤ s) :
    firstFill s d (2 ^ s - 1) = 2 ^ (d - s) - 2 ^ (d - s - (s - 1)) := by
  have hmask : (2 ^ s - 1) &&& (1 <<< (s - 1) - 1) = 2 ^ (s - 1) - 1 := by
    have hpow := Nat.two_pow_pred_mul_two (show 0 < s by omega)
    have hpos := Nat.two_pow_pos (s - 1)
    rw [Nat.shiftLeft_eq, Nat.one_mul, Nat.and_two_pow_sub_one_eq_mod,
      show 2 ^ s - 1 = 2 ^ (s - 1) - 1 + 2 ^ (s - 1) by omega, Nat.add_mod_right,
      Nat.mod_eq_of_lt (by omega)]
  refine Nat.eq_of_testBit_eq fun i => Bool.eq_iff_iff.2 ?_
  rw [testBit_ones (Nat.sub_le (d - s) (s - 1))]
  simp only [firstFill, hmask]
  split
  case isTrue =>
    rw [Nat.testBit_shiftLeft, Nat.testBit_two_pow_sub_one]
    simp only [Bool.and_eq_true, decide_eq_true_eq]
    omega
  case isFalse =>
    rw [Nat.testBit_shiftRight, Nat.testBit_two_pow_sub_one]
    simp only [Bool.and_eq_true, decide_eq_true_eq]
    omega

theorem mcmScale_max {s d : Nat} (hs : 2 ≤ s) (hsd : s < d) :
    mcmScale s d (2 ^ s - 1) = 2 ^ d - 1 := by
  have hpos := Nat.two_pow_pos s
  have hcenter : 2 ^ (s - 1) < 2 ^ s - 1 := by
    have hhalf : 2 ^ 1 ≤ 2 ^ (s - 1) := Nat.pow_le_pow_right Nat.two_pos (by omega)
    have hpow := Nat.two_pow_pred_mul_two (show 0 < s by omega)
    omega
  have hshift : (2 ^ s - 1) * 2 ^ (d - s) = 2 ^ d - 2 ^ (d - s) := by
    rw [Nat.sub_mul, Nat.one_mul, ← Nat.pow_add, Nat.add_sub_cancel' (Nat.le_of_lt hsd)]
  rw [mcmScale_above hsd (Nat.sub_lt hpos Nat.one_pos) hcenter, firstFill_max hs, hshift]
  exact fillLower_ones (by omega) (Nat.sub_le d s) (Nat.sub_le d s)

/-- Scaling up is a Min-Center-Max scaling. It comes to an end, and can be undone. -/
theorem mcmScale_minCenterMax {s d : Nat} (hs : 2 ≤ s) (hsd : s < d) (hd : d ≤ 32) :
    MinCenterMax s d (mcmScale s d) ∧
    ∀ v < 2 ^ s, LoopEnds s d v ∧ mcmScale d s (mcmScale s d v) = v := by
  have hle := Nat.le_of_lt hsd
  refine ⟨?_, fun v hv => ⟨loopEnds hs hsd hd hv, mcmScale_down_up hle hv⟩⟩
  exact {
    lt := fun v hv => mcmScale_up_lt hle hv
    strictMono := fun v v' hv hv' => mcmScale_lt_mcmScale hle hv hv'
    min := by rw [mcmScale_below hsd (Nat.two_pow_pos s) (Nat.zero_le _), Nat.zero_mul]
    center := by
      have hlt : 2 ^ (s - 1) < 2 ^ s := Nat.pow_lt_pow_right Nat.one_lt_two (by omega)
      rw [mcmScale_below hsd hlt (Nat.le_refl _), ← Nat.pow_add,
        show s - 1 + (d - s) = d - 1 by omega]
    max := mcmScale_max hs hsd }

/-- Controller values. -/
theorem mcmScale_minCenterMax_7_16 :
    MinCenterMax 7 16 (mcmScale 7 16) ∧
    ∀ v < 2 ^ 7, LoopEnds 7 16 v ∧ mcmScale 16 7 (mcmScale 7 16 v) = v :=
  mcmScale_minCenterMax (by decide) (by decide) (by decide)

end Midi2.Ump
