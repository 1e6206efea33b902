import Mathlib.Order.Lattice

/-!
# Unsigned integers (`adt/uinteger.hpp`)

`uinteger_t<N>` is the smallest unsigned type that has at least `N` bits. A value of a type that
is narrower than `int` is converted to `int` before anything is done with it. An `int` has 32 bits
here, and so has an `unsigned` one.
-/

namespace Midi2.Adt

/-- `uinteger<n>`: the number of bits of the smallest type with at least `n` of them. -/
def uinteger (n : Nat) : Nat :=
  if n ≤ 8 then 8 else if n ≤ 16 then 16 else if n ≤ 32 then 32 else 64

theorem le_uinteger {n : Nat} (h : n ≤ 64) : n ≤ uinteger n := by
  unfold uinteger
  split
  case isTrue h8 => exact h8
  case isFalse =>
    split
    case isTrue h16 => exact h16
    case isFalse =>
      split
      case isTrue h32 => exact h32
      case isFalse => exact h

/-- Fewer bits than a type has fit into it. -/
theorem uinteger_le {n w : Nat} (hw : w = 8 ∨ w = 16 ∨ w = 32 ∨ w = 64) (h : n ≤ w) :
    uinteger n ≤ w := by
  unfold uinteger
  split
  case isTrue => omega
  case isFalse =>
    split
    case isTrue => omega
    case isFalse =>
      split
      case isTrue => omega
      case isFalse => omega

/-- The number of bits of the type that a value of `w` bits is promoted to. -/
def promoted (w : Nat) : Nat :=
  max w 32

theorem le_promoted (w : Nat) : w ≤ promoted w :=
  Nat.le_max_left w 32

end Midi2.Adt
