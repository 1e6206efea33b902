import Midi2.Ump.Scale

/-!
# Several resolutions (`ump/ump_utils.hpp`)

A controller may be scaled more than once on its way: from 7 bits to 32 in one device, to 16 in the
next. Which of the resolutions on the way are visible in the end?

Above the centre `mcm_scale` is not arithmetic but a pattern of bits, so it is described bit by bit
(`testBit_mcmScale`): a bit of the result is one of the value, or it is a copy of a bit below the
highest one, a whole number of repetitions further down. The description does not depend on how many
bits there are below, only on where the value's highest bit is; therefore cutting off lower bits
again gives what scaling to fewer bits gives (`mcmScale_through`).
-/

namespace Midi2.Ump

/-- Bit `i` is set by the loop: it is a copy of a bit `l` of `value`, `k + 1` repetitions below the
place where the value's own bits are. -/
def Repeats (sourceBits destBits value i : Nat) : Prop :=
  ∃ k l, l < sourceBits - 1 ∧ value.testBit l = true ∧
    i + (k + 1) * (sourceBits - 1) = l + (destBits - sourceBits)

/-! ## The loop, bit by bit -/

theorem testBit_fillLower (r n bitShifted repeatValue i : Nat) :
    (fillLower r n bitShifted repeatValue).testBit i = true ↔
      bitShifted.testBit i = true ∨ ∃ k < n, repeatValue.testBit (i + k * r) = true := by
  induction n generalizing bitShifted repeatValue with
  | zero =>
      constructor
      · intro h
        exact Or.inl h
      · rintro (h | ⟨k, hk, -⟩)
        · exact h
        · exact absurd hk (Nat.not_lt_zero k)
  | succ n ih =>
      rw [fillLower]
      split
      case isTrue hzero =>
        -- the loop has come to an end: there is nothing left to be repeated
        rw [hzero]
        constructor
        · intro h
          exact Or.inl h
        · rintro (h | ⟨k, -, hk⟩)
          · exact h
          · rw [Nat.zero_testBit] at hk
            cases hk
      case isFalse =>
        rw [ih, Nat.testBit_or, Bool.or_eq_true]
        constructor
        · rintro ((h | h) | ⟨k, hk, hbit⟩)
          · exact Or.inl h
          · refine Or.inr ⟨0, Nat.succ_pos n, ?_⟩
            rw [Nat.zero_mul, Nat.add_zero]
            exact h
          · refine Or.inr ⟨k + 1, Nat.succ_lt_succ hk, ?_⟩
            rw [Nat.testBit_shiftRight] at hbit
            rw [Nat.succ_mul, ← Nat.add_assoc, Nat.add_comm (i + k * r) r]
            exact hbit
        · rintro (h | ⟨k, hk, hbit⟩)
          · exact Or.inl (Or.inl h)
          · cases k with
            | zero =>
                rw [Nat.zero_mul, Nat.add_zero] at hbit
                exact Or.inl (Or.inr hbit)
            | succ k =>
                refine Or.inr ⟨k, Nat.lt_of_succ_lt_succ hk, ?_⟩
                rw [Nat.succ_mul, ← Nat.add_assoc, Nat.add_comm (i + k * r) r] at hbit
                rw [Nat.testBit_shiftRight]
                exact hbit

/-- Whichever way the first repetition is shifted, it ends where the value's own bits begin. -/
theorem testBit_firstFill (s d v j : Nat) :
    (firstFill s d v).testBit j = true ↔
      ∃ l < s - 1, v.testBit l = true ∧ j + (s - 1) = l + (d - s) := by
  have hmask : ∀ l, (v &&& (1 <<< (s - 1) - 1)).testBit l = true ↔
      l < s - 1 ∧ v.testBit l = true := by
    intro l
    rw [Nat.testBit_and, Nat.shiftLeft_eq, Nat.one_mul, Nat.testBit_two_pow_sub_one,
      Bool.and_eq_true, decide_eq_true_eq, and_comm]
  simp only [firstFill]
  split
  case isTrue hlt =>
    rw [Nat.testBit_shiftLeft, Bool.and_eq_true, decide_eq_true_eq, hmask]
    constructor
    · rintro ⟨hle, hl, hbit⟩
      exact ⟨j - (d - s - (s - 1)), hl, hbit, by omega⟩
    · rintro ⟨l, hl, hbit, heq⟩
      obtain rfl : l = j - (d - s - (s - 1)) := by omega
      exact ⟨by omega, hl, hbit⟩
  case isFalse hge =>
    rw [Nat.testBit_shiftRight, hmask]
    constructor
    · rintro ⟨hl, hbit⟩
      exact ⟨s - 1 - (d - s) + j, hl, hbit, by omega⟩
    · rintro ⟨l, hl, hbit, heq⟩
      obtain rfl : l = s - 1 - (d - s) + j := by omega
      exact ⟨hl, hbit⟩

/-- Above the centre, a bit of the result is one of the value's own, or a repeated one. -/
theorem testBit_mcmScale {s d v : Nat} (hsd : s < d) (hv : v < 2 ^ s)
    (hcenter : 2 ^ (s - 1) < v) (i : Nat) :
    (mcmScale s d v).testBit i = true ↔
      (d - s ≤ i ∧ v.testBit (i - (d - s)) = true) ∨ Repeats s d v i := by
  have hfill : firstFill s d v < 2 ^ d :=
    Nat.lt_of_lt_of_le (firstFill_lt s d v)
      (Nat.pow_le_pow_right Nat.two_pos (Nat.sub_le d s))
  rw [mcmScale_above hsd hv hcenter, testBit_fillLower, Nat.testBit_mul_two_pow,
    Bool.and_eq_true, decide_eq_true_eq]
  refine or_congr Iff.rfl ⟨?_, ?_⟩
  · rintro ⟨k, -, hbit⟩
    obtain ⟨l, hl, hset, heq⟩ := (testBit_firstFill s d v _).1 hbit
    refine ⟨k, l, hl, hset, ?_⟩
    rw [Nat.succ_mul, ← Nat.add_assoc]
    exact heq
  · rintro ⟨k, l, hl, hset, heq⟩
    rw [Nat.succ_mul, ← Nat.add_assoc] at heq
    have hbit := (testBit_firstFill s d v (i + k * (s - 1))).2 ⟨l, hl, hset, heq⟩
    refine ⟨k, ?_, hbit⟩
    -- a set bit is below the number of rounds, and so is the number of repetitions before it
    have hlt : i + k * (s - 1) < d :=
      (Nat.pow_lt_pow_iff_right Nat.one_lt_two).1
        (Nat.lt_of_le_of_lt (Nat.ge_two_pow_of_testBit hbit) hfill)
    have hmul : k ≤ k * (s - 1) := Nat.le_mul_of_pos_right k (by omega)
    omega

/-! ## Resolutions on the way -/

/-- The repetitions are counted from above: with `d - e` bits fewer below, all are that much
lower. -/
theorem repeats_iff {s d e v : Nat} (hse : s ≤ e) (hed : e ≤ d) (i : Nat) :
    Repeats s d v (d - e + i) ↔ Repeats s e v i := by
  unfold Repeats
  constructor
  · rintro ⟨k, l, hl, hbit, heq⟩
    exact ⟨k, l, hl, hbit, by omega⟩
  · rintro ⟨k, l, hl, hbit, heq⟩
    exact ⟨k, l, hl, hbit, by omega⟩

/-- Scaling up and then down, but not as far as to the original resolution, is scaling up less. -/
theorem mcmScale_up_down {s d e v : Nat} (hse : s < e) (hed : e ≤ d)
    (hv : v < 2 ^ s) : mcmScale s d v / 2 ^ (d - e) = mcmScale s e v := by
  have hsd : s < d := Nat.lt_of_lt_of_le hse hed
  rcases Nat.lt_or_ge (2 ^ (s - 1)) v with hcenter | hcenter
  · refine Nat.eq_of_testBit_eq fun i => Bool.eq_iff_iff.2 ?_
    rw [Nat.testBit_div_two_pow, testBit_mcmScale hsd hv hcenter,
      testBit_mcmScale hse hv hcenter, Nat.add_comm i, repeats_iff (Nat.le_of_lt hse) hed]
    refine or_congr ⟨?_, ?_⟩ Iff.rfl
    · rintro ⟨hle, hbit⟩
      rw [show d - e + i - (d - s) = i - (e - s) by omega] at hbit
      exact ⟨by omega, hbit⟩
    · rintro ⟨hle, hbit⟩
      rw [show i - (e - s) = d - e + i - (d - s) by omega] at hbit
      exact ⟨by omega, hbit⟩
  · have hexp : d - s = e - s + (d - e) := by omega
    rw [mcmScale_below hsd hv hcenter, mcmScale_below hse hv hcenter, hexp, Nat.pow_add,
      ← Nat.mul_assoc, Nat.mul_div_cancel _ (Nat.two_pow_pos _)]

/-- A resolution on the way makes no difference if it is at least as fine as the final one. -/
theorem mcmScale_through {s d e v : Nat} (hed : e ≤ d) (hv : v < 2 ^ s) :
    mcmScale d e (mcmScale s d v) = mcmScale s e v := by
  rw [mcmScale_down hed]
  rcases Nat.lt_or_ge s e with hse | hes
  · exact mcmScale_up_down hse hed hv
  · rw [mcmScale_down hes]
    rcases Nat.le_total d s with hds | hsd
    · have hexp : s - e = s - d + (d - e) := by omega
      rw [mcmScale_down hds, Nat.div_div_eq_div_mul, ← Nat.pow_add, ← hexp]
    · have hexp : d - e = d - s + (s - e) := by omega
      rw [hexp, Nat.pow_add, ← Nat.div_div_eq_div_mul, mcmScale_up_div hsd hv]

/-- The largest 7 bit value but one, by way of 32 bits, to 16. -/
theorem mcmScale_through_7_32_16 :
    mcmScale 32 16 (mcmScale 7 32 126) = mcmScale 7 16 126 ∧ mcmScale 7 16 126 = 0xFDF7 :=
  ⟨mcmScale_through (by omega) (by omega), by decide⟩

end Midi2.Ump
