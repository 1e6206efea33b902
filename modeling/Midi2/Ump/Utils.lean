import Mathlib.Data.Nat.Bitwise

/-!
# Scaling and control numbers (`ump/ump_utils.hpp`, `utils.hpp`)

`mcm_scale` is the Min-Center-Max scaling between values of different resolution. Down, it
is a shift; up, values to the centre are shifted and values above it are filled from below
with a repetition of their bits, so that the maximum goes to the maximum.
-/

namespace Midi2.Ump

/-- `enum class control`. -/
inductive Control where
  | bankSelect
  | bankSelectLsb
  | dataEntryMsb
  | dataEntryLsb
  | rpnLsb
  | rpnMsb
  | nrpnLsb
  | nrpnMsb
  | resetAllControllers
  deriving DecidableEq, Repr

def Control.toNat : Control → Nat
  | bankSelect => 0x00
  | bankSelectLsb => 0x20
  | dataEntryMsb => 0x06
  | dataEntryLsb => 0x26
  | rpnLsb => 0x64
  | rpnMsb => 0x65
  | nrpnLsb => 0x62
  | nrpnMsb => 0x63
  | resetAllControllers => 0x79

/-- The enumerator of a controller number, if it has one: the cases of a `switch` over
`static_cast<control>(controller)`. -/
def Control.ofNat? : Nat → Option Control
  | 0x00 => some bankSelect
  | 0x20 => some bankSelectLsb
  | 0x06 => some dataEntryMsb
  | 0x26 => some dataEntryLsb
  | 0x64 => some rpnLsb
  | 0x65 => some rpnMsb
  | 0x62 => some nrpnLsb
  | 0x63 => some nrpnMsb
  | 0x79 => some resetAllControllers
  | _ => none

@[simp] theorem Control.ofNat_toNat (c : Control) : ofNat? c.toNat = some c := by
  cases c <;> rfl

theorem Control.toNat_lt (c : Control) : c.toNat < 2 ^ 7 := by
  cases c <;> decide

/-- The low seven bits of `v`. -/
def lo7 (v : Nat) : Nat :=
  v &&& 0x7F

/-- The seven bits of `v` above the lowest seven. -/
def hi7 (v : Nat) : Nat :=
  (v >>> 7) &&& 0x7F

theorem lo7_lt (v : Nat) : lo7 v < 2 ^ 7 :=
  Nat.and_lt_two_pow v (by decide)

theorem hi7_lt (v : Nat) : hi7 v < 2 ^ 7 :=
  Nat.and_lt_two_pow _ (by decide)

/-- A value of fourteen bits is made of its two halves. -/
theorem hi7_lo7 {v : Nat} (h : v < 2 ^ 14) : hi7 v * 2 ^ 7 + lo7 v = v := by
  have hmask : (0x7F : Nat) = 2 ^ 7 - 1 := rfl
  rw [hi7, lo7, hmask, Nat.and_two_pow_sub_one_eq_mod, Nat.and_two_pow_sub_one_eq_mod,
    Nat.shiftRight_eq_div_pow]
  omega

/-- Two halves of seven bits. -/
theorem shiftLeft_or {a b : Nat} (hb : b < 2 ^ 7) : (a <<< 7) ||| b = a * 2 ^ 7 + b := by
  rw [← Nat.shiftLeft_add_eq_or_of_lt hb, Nat.shiftLeft_eq]

theorem shiftLeft_or_lt {a b : Nat} (ha : a < 2 ^ 7) (hb : b < 2 ^ 7) :
    (a <<< 7) ||| b < 2 ^ 14 := by
  rw [shiftLeft_or hb]
  omega

theorem lo7_shiftLeft_or {a b : Nat} (hb : b < 2 ^ 7) : lo7 ((a <<< 7) ||| b) = b := by
  have hmask : (0x7F : Nat) = 2 ^ 7 - 1 := rfl
  rw [lo7, shiftLeft_or hb, hmask, Nat.and_two_pow_sub_one_eq_mod]
  omega

theorem hi7_shiftLeft_or {a b : Nat} (ha : a < 2 ^ 7) (hb : b < 2 ^ 7) :
    hi7 ((a <<< 7) ||| b) = a := by
  have hmask : (0x7F : Nat) = 2 ^ 7 - 1 := rfl
  rw [hi7, shiftLeft_or hb, hmask, Nat.and_two_pow_sub_one_eq_mod, Nat.shiftRight_eq_div_pow]
  omega

/-- The loop of `mcm_scale`: fills the lower bits of `bitShifted` with `repeatValue`, shifted
further down each time, until nothing of it is left. -/
def fillLower (repeatBits : Nat) : Nat → Nat → Nat → Nat
  | 0, bitShifted, _ => bitShifted
  | n + 1, bitShifted, repeatValue =>
      if repeatValue = 0 then
        bitShifted
      else
        fillLower repeatBits n (bitShifted ||| repeatValue) (repeatValue >>> repeatBits)

/-- `mcm_scale<SourceBits, DestBits>(value)`. The shifts of the loop remove at least one bit
each, so `destBits` rounds are enough. -/
def mcmScale (sourceBits destBits value : Nat) : Nat :=
  if destBits ≤ sourceBits then
    value >>> (sourceBits - destBits)
  else if value = 0 then
    0
  else
    let scaleBits := destBits - sourceBits
    let center := 1 <<< (sourceBits - 1)
    let bitShifted := (value <<< scaleBits) % 2 ^ destBits
    if value ≤ center then
      bitShifted
    else
      let repeatBits := sourceBits - 1
      let repeatValue := value &&& (1 <<< repeatBits - 1)
      let repeatValue :=
        if repeatBits < scaleBits then repeatValue <<< (scaleBits - repeatBits)
        else repeatValue >>> (repeatBits - scaleBits)
      fillLower repeatBits destBits bitShifted repeatValue

/-- Downwards, scaling keeps the upper bits. -/
theorem mcmScale_down {s d v : Nat} (h : d ≤ s) : mcmScale s d v = v / 2 ^ (s - d) := by
  rw [mcmScale, if_pos h, Nat.shiftRight_eq_div_pow]

theorem mcmScale_down_lt {s d v : Nat} (h : d ≤ s) (hv : v < 2 ^ s) : mcmScale s d v < 2 ^ d := by
  rw [mcmScale_down h, Nat.div_lt_iff_lt_mul (Nat.two_pow_pos _), ← Nat.pow_add,
    Nat.add_sub_cancel' h]
  exact hv

/-- The loop does not reach the bits above `k` if its first fill is below them. -/
theorem fillLower_div (repeatBits k n bitShifted : Nat) {repeatValue : Nat}
    (h : repeatValue < 2 ^ k) :
    fillLower repeatBits n bitShifted repeatValue / 2 ^ k = bitShifted / 2 ^ k := by
  induction n generalizing bitShifted repeatValue with
  | zero => rfl
  | succ n ih =>
      have hnext : repeatValue >>> repeatBits < 2 ^ k := by
        rw [Nat.shiftRight_eq_div_pow]
        exact Nat.lt_of_le_of_lt (Nat.div_le_self _ _) h
      rw [fillLower]
      split
      case isTrue => rfl
      case isFalse =>
        rw [ih (bitShifted ||| repeatValue) hnext, Nat.or_div_two_pow, Nat.div_eq_of_lt h,
          Nat.or_zero]

/-- What the loop of `mcm_scale` begins with: the bits of the value below its highest one, moved
to just below those of the shifted value. -/
def firstFill (sourceBits destBits value : Nat) : Nat :=
  let scaleBits := destBits - sourceBits
  let repeatBits := sourceBits - 1
  let repeatValue := value &&& (1 <<< repeatBits - 1)
  if repeatBits < scaleBits then repeatValue <<< (scaleBits - repeatBits)
  else repeatValue >>> (repeatBits - scaleBits)

theorem firstFill_lt (s d v : Nat) : firstFill s d v < 2 ^ (d - s) := by
  have hmask : v &&& (1 <<< (s - 1) - 1) < 2 ^ (s - 1) := by
    rw [Nat.shiftLeft_eq, Nat.one_mul]
    exact Nat.and_lt_two_pow v (Nat.sub_lt (Nat.two_pow_pos _) Nat.one_pos)
  simp only [firstFill]
  split
  case isTrue hlt =>
    have hexp : s - 1 + (d - s - (s - 1)) = d - s := by omega
    calc (v &&& (1 <<< (s - 1) - 1)) <<< (d - s - (s - 1))
        = (v &&& (1 <<< (s - 1) - 1)) * 2 ^ (d - s - (s - 1)) := Nat.shiftLeft_eq _ _
      _ < 2 ^ (s - 1) * 2 ^ (d - s - (s - 1)) :=
          Nat.mul_lt_mul_of_pos_right hmask (Nat.two_pow_pos _)
      _ = 2 ^ (d - s) := by rw [← Nat.pow_add, hexp]
  case isFalse hge =>
    have hexp : d - s + (s - 1 - (d - s)) = s - 1 := by omega
    rw [Nat.shiftRight_eq_div_pow, Nat.div_lt_iff_lt_mul (Nat.two_pow_pos _), ← Nat.pow_add, hexp]
    exact hmask

/-- The simple bit shift loses nothing of the value. -/
theorem shiftLeft_mod {s d v : Nat} (h : s ≤ d) (hv : v < 2 ^ s) :
    (v <<< (d - s)) % 2 ^ d = v * 2 ^ (d - s) := by
  have hpow : 2 ^ d = 2 ^ s * 2 ^ (d - s) := by rw [← Nat.pow_add, Nat.add_sub_cancel' h]
  rw [Nat.shiftLeft_eq, hpow, Nat.mul_mod_mul_right, Nat.mod_eq_of_lt hv]

/-- Upwards, to the centre. -/
theorem mcmScale_below {s d v : Nat} (h : s < d) (hv : v < 2 ^ s) (hcenter : v ≤ 2 ^ (s - 1)) :
    mcmScale s d v = v * 2 ^ (d - s) := by
  have hshift := shiftLeft_mod (Nat.le_of_lt h) hv
  rw [← Nat.one_mul (2 ^ (s - 1)), ← Nat.shiftLeft_eq] at hcenter
  rw [mcmScale, if_neg (Nat.not_le.2 h)]
  split
  case isTrue hzero => rw [hzero, Nat.zero_mul]
  case isFalse => exact (if_pos hcenter).trans hshift

/-- Upwards, above the centre. -/
theorem mcmScale_above {s d v : Nat} (h : s < d) (hv : v < 2 ^ s) (hcenter : 2 ^ (s - 1) < v) :
    mcmScale s d v = fillLower (s - 1) d (v * 2 ^ (d - s)) (firstFill s d v) := by
  have hshift := shiftLeft_mod (Nat.le_of_lt h) hv
  have hcenter' : ¬v ≤ 1 <<< (s - 1) := by
    rw [Nat.shiftLeft_eq, Nat.one_mul]
    exact Nat.not_le.2 hcenter
  rw [mcmScale, if_neg (Nat.not_le.2 h), if_neg (Nat.ne_of_gt (Nat.zero_lt_of_lt hcenter))]
  exact (if_neg hcenter').trans (by rw [hshift, firstFill])

/-- Upwards, scaling keeps the value in the upper bits. -/
theorem mcmScale_up_div {s d v : Nat} (h : s ≤ d) (hv : v < 2 ^ s) :
    mcmScale s d v / 2 ^ (d - s) = v := by
  have hpos := Nat.two_pow_pos (d - s)
  rcases Nat.eq_or_lt_of_le h with rfl | hlt
  · rw [mcmScale_down (Nat.le_refl s), Nat.sub_self, Nat.pow_zero, Nat.div_one, Nat.div_one]
  · rcases Nat.lt_or_ge (2 ^ (s - 1)) v with hcenter | hcenter
    · rw [mcmScale_above hlt hv hcenter, fillLower_div _ _ _ _ (firstFill_lt s d v),
        Nat.mul_div_cancel _ hpos]
    · rw [mcmScale_below hlt hv hcenter, Nat.mul_div_cancel _ hpos]

theorem mcmScale_up_lt {s d v : Nat} (h : s ≤ d) (hv : v < 2 ^ s) : mcmScale s d v < 2 ^ d := by
  have hdiv := mcmScale_up_div h hv
  have hpow : 2 ^ d = 2 ^ s * 2 ^ (d - s) := by rw [← Nat.pow_add, Nat.add_sub_cancel' h]
  rw [hpow, ← Nat.div_lt_iff_lt_mul (Nat.two_pow_pos _), hdiv]
  exact hv

/-- Scaling up and down again changes nothing. -/
theorem mcmScale_down_up {s d v : Nat} (h : s ≤ d) (hv : v < 2 ^ s) :
    mcmScale d s (mcmScale s d v) = v := by
  rw [mcmScale_down h, mcmScale_up_div h hv]

end Midi2.Ump
