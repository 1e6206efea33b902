import Mathlib.Data.List.Basic

/-!
# Vector comparisons (ARM NEON)

A vector register is a list of lanes of `n` bits, with lane 0 in the lowest bits. To find a
value among others, code compares it with all of them at once, makes one word of the lanes of
the result, and counts the zeros below its lowest bit. `ctz_packMask` says what this number
is: the number of the first lane that matches, times the width of a lane.
-/

namespace Neon

variable {n : Nat}

/-- A vector register. -/
abbrev Vec (n : Nat) := List (BitVec n)

/-- `vdup_n`: all lanes are set to one value. -/
def vdup (lanes : Nat) (x : BitVec n) : Vec n :=
  List.replicate lanes x

/-- `vceq`: a lane is all ones where the two are equal, else zero. -/
def vceq (a b : Vec n) : Vec n :=
  List.zipWith (fun x y => if x = y then BitVec.allOnes n else 0) a b

/-- `vmovn`: the lower half, of `m` bits, of each lane. -/
def vmovn (m : Nat) (a : Vec n) : Vec m :=
  a.map (BitVec.setWidth m)

/-- `vget_lane_u64(vreinterpret_u64(a), 0)`: the lanes as one word. -/
def vgetLane (a : Vec n) : BitVec 64 :=
  a.foldr (fun lane word => lane.setWidth 64 ||| word <<< n) 0

/-- The result of a comparison: all ones or zero, lane by lane. -/
def mask (n : Nat) (equal : List Bool) : Vec n :=
  equal.map fun b => if b then BitVec.allOnes n else 0

theorem vceq_vdup (x : BitVec n) (b : Vec n) :
    vceq (vdup b.length x) b = mask n (b.map fun y => decide (x = y)) := by
  induction b with
  | nil => rfl
  | cons y b ih =>
      have hcons : vceq (vdup (y :: b).length x) (y :: b) =
          (if x = y then BitVec.allOnes n else 0) :: vceq (vdup b.length x) b := rfl
      rw [hcons, ih, List.map_cons, mask, mask, List.map_cons]
      simp only [decide_eq_true_eq]

theorem vmovn_mask {m : Nat} (hm : m ≤ n) (equal : List Bool) :
    vmovn m (mask n equal) = mask m equal := by
  rw [vmovn, mask, mask, List.map_map]
  refine List.map_congr_left fun b _ => ?_
  cases b with
  | false => simp
  | true =>
      refine BitVec.eq_of_getLsbD_eq fun i hi => ?_
      simp [hi, Nat.lt_of_lt_of_le hi hm]

/-- The bits of the word are those of the lanes, one lane after the other. -/
theorem getLsbD_packMask (hn : 0 < n) (equal : List Bool) {i : Nat} (hi : i < 64) :
    (vgetLane (mask n equal)).getLsbD i = equal.getD (i / n) false := by
  induction equal generalizing i with
  | nil => simp [mask, vgetLane]
  | cons b equal ih =>
      have hcons : vgetLane (mask n (b :: equal)) =
          (if b then BitVec.allOnes n else 0).setWidth 64 ||| vgetLane (mask n equal) <<< n := rfl
      rw [hcons, BitVec.getLsbD_or, BitVec.getLsbD_setWidth, BitVec.getLsbD_shiftLeft]
      rcases Nat.lt_or_ge i n with hlt | hge
      · rw [Nat.div_eq_of_lt hlt]
        cases b with
        | false => simp [hlt]
        | true => simp [hlt, hi]
      · have hdiv : i / n = (i - n) / n + 1 := by rw [Nat.div_eq_sub_div hn hge]
        rw [ih (by omega), hdiv]
        cases b with
        | false => simp [hi, Nat.not_lt.2 hge]
        | true => simp [hi, Nat.not_lt.2 hge]

/-- The lowest bit that is set. -/
theorem ctz_eq {w k : Nat} {x : BitVec w} (hk : x.getLsbD k = true)
    (hlow : ∀ j < k, x.getLsbD j = false) : x.ctz.toNat = k := by
  have hne : x ≠ 0#w := by
    rintro rfl
    simp at hk
  have htrue := BitVec.getLsbD_true_ctz_of_ne_zero hne
  rcases Nat.lt_trichotomy x.ctz.toNat k with hlt | heq | hgt
  · rw [hlow _ hlt] at htrue
    cases htrue
  · exact heq
  · rw [BitVec.getLsbD_false_of_lt_ctz hgt] at hk
    cases hk

/-- The position of the first match, in bits. -/
theorem ctz_packMask (hn : 0 < n) {equal : List Bool} (hlen : n * equal.length ≤ 64)
    (hfound : equal.findIdx id < equal.length) :
    (vgetLane (mask n equal)).ctz.toNat = n * equal.findIdx id := by
  have hbit : n * equal.findIdx id < 64 :=
    Nat.lt_of_lt_of_le (Nat.mul_lt_mul_of_pos_left hfound hn) hlen
  refine ctz_eq ?_ fun j hj => ?_
  · rw [getLsbD_packMask hn equal hbit, Nat.mul_div_cancel_left _ hn,
      List.getD_eq_getElem?_getD, List.getElem?_eq_getElem hfound]
    exact @List.findIdx_getElem _ id equal hfound
  · have hlane : j / n < equal.findIdx id := Nat.div_lt_of_lt_mul hj
    rw [getLsbD_packMask hn equal (Nat.lt_trans hj hbit),
      List.getD_eq_getElem?_getD, List.getElem?_eq_getElem (Nat.lt_trans hlane hfound)]
    exact List.not_of_lt_findIdx hlane

/-- Without a match the word is zero. -/
theorem packMask_eq_zero (hn : 0 < n) {equal : List Bool}
    (hnone : ¬equal.findIdx id < equal.length) : vgetLane (mask n equal) = 0 := by
  have hall : ∀ b ∈ equal, b = false := by
    have hlen := List.findIdx_eq_length.1
      (Nat.le_antisymm (List.findIdx_le_length) (Nat.not_lt.1 hnone))
    exact fun b hb => hlen b hb
  refine BitVec.eq_of_getLsbD_eq fun i hi => ?_
  rw [getLsbD_packMask hn equal hi, List.getD_eq_getElem?_getD]
  cases hget : equal[i / n]? with
  | none => simp
  | some b => simp [hall b (List.mem_of_getElem? hget)]

end Neon
