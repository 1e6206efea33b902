import Mathlib.Data.Fin.VecNotation
import Mathlib.Data.Fintype.Basic
import Mathlib.Tactic.IntervalCases
import Midi2.Lib.Layout

/-!
# Seven-bit little-endian numbers (`ci::details`)

MIDI-CI travels inside system exclusive messages, so every byte on the wire has a clear
top bit and wider numbers are split into groups of seven bits, least significant first.
`b7`, `b14` and `b28` are the unsigned integers of those widths; the source overloads
`from_le7` and `to_le7` over them and over arrays of `b7`. Here the overload set is the
class `Le7`, whose law is the only fact the rest of the development needs: reading what was
written gives the number back.
-/

namespace Midi2

/-- `std::byte`. -/
abbrev Byte := BitVec 8

namespace Ci

/-- A seven bit unsigned integer, `details::bn<7>`. -/
abbrev B7 := BitVec 7

/-- A fourteen bit unsigned integer, `details::bn<14>`. -/
abbrev B14 := BitVec 14

/-- A twenty eight bit unsigned integer, `details::bn<28>`. -/
abbrev B28 := BitVec 28

/-- `byte_array<Size>`. -/
abbrev ByteArray (n : Nat) := Fin n → Byte

/-- `b7_array<Size>`. -/
abbrev B7Array (n : Nat) := Fin n → B7

/-- `b7{to_underlying(v)}`, for a byte whose top bit is clear (the constructor asserts that
the value is in range). -/
def B7.ofByte (v : Byte) : B7 := v.setWidth 7

/-- `static_cast<std::byte>(v.get())`. -/
def B7.toByte (v : B7) : Byte := v.setWidth 8

@[simp] theorem B7.ofByte_toByte (v : B7) : B7.ofByte (B7.toByte v) = v :=
  BitVec.setWidth_setWidth_of_le v (by decide)

/-- `details::mask7b`. -/
def mask7b : Byte := 0x7F#8

/-- The overloads of `details::from_le7` and `details::to_le7`. -/
class Le7 (α : Type) (β : Type) where
  fromLe7 : β → α
  toLe7 : α → β
  fromLe7_toLe7 : ∀ v, fromLe7 (toLe7 v) = v

export Le7 (fromLe7 toLe7)

attribute [simp] Le7.fromLe7_toLe7

theorem and_mask7b (b : Byte) : b &&& mask7b = (b.setWidth 7).setWidth 8 := by
  revert b; decide

theorem getLsbD_and_mask7b (b : Byte) (i : Nat) :
    (b &&& mask7b).getLsbD i = (decide (i < 7) && b.getLsbD i) := by
  rw [and_mask7b, BitVec.getLsbD_setWidth, BitVec.getLsbD_setWidth]
  by_cases hi : i < 7
  · simp [hi, Nat.lt_succ_of_lt hi]
  · simp [hi]

/-- `from_le7(byte_array<4> const&)`, computed in a `std::uint32_t`. -/
def fromLe7Quad (v : ByteArray 4) : B28 :=
  (((v 0 &&& mask7b).setWidth 32 <<< (7 * 0)) |||
    ((v 1 &&& mask7b).setWidth 32 <<< (7 * 1)) |||
    ((v 2 &&& mask7b).setWidth 32 <<< (7 * 2)) |||
    ((v 3 &&& mask7b).setWidth 32 <<< (7 * 3))).setWidth 28

/-- `to_le7(b28)`. -/
def toLe7Quad (v28 : B28) : ByteArray 4 :=
  let v := v28.setWidth 32
  ![(v >>> (7 * 0)).setWidth 8 &&& mask7b, (v >>> (7 * 1)).setWidth 8 &&& mask7b,
    (v >>> (7 * 2)).setWidth 8 &&& mask7b, (v >>> (7 * 3)).setWidth 8 &&& mask7b]

theorem fromLe7Quad_toLe7Quad (v : B28) : fromLe7Quad (toLe7Quad v) = v := by
  apply BitVec.eq_of_getLsbD_eq
  intro i hi
  simp only [fromLe7Quad, toLe7Quad, Matrix.cons_val, BitVec.getLsbD_setWidth,
    BitVec.getLsbD_or, BitVec.getLsbD_shiftLeft, getLsbD_and_mask7b,
    BitVec.getLsbD_ushiftRight]
  interval_cases i <;> simp

/-- `from_le7(byte_array<2> const&)`, computed in a `std::uint16_t`. -/
def fromLe7Pair (v : ByteArray 2) : B14 :=
  (((v 0 &&& mask7b).setWidth 16 <<< (7 * 0)) |||
    ((v 1 &&& mask7b).setWidth 16 <<< (7 * 1))).setWidth 14

/-- `to_le7(b14)`. -/
def toLe7Pair (v14 : B14) : ByteArray 2 :=
  let v := v14.setWidth 16
  ![(v >>> (7 * 0)).setWidth 8 &&& mask7b, (v >>> (7 * 1)).setWidth 8 &&& mask7b]

theorem fromLe7Pair_toLe7Pair (v : B14) : fromLe7Pair (toLe7Pair v) = v := by
  apply BitVec.eq_of_getLsbD_eq
  intro i hi
  simp only [fromLe7Pair, toLe7Pair, Matrix.cons_val, BitVec.getLsbD_setWidth,
    BitVec.getLsbD_or, BitVec.getLsbD_shiftLeft, getLsbD_and_mask7b,
    BitVec.getLsbD_ushiftRight]
  interval_cases i <;> simp

instance : Le7 B28 (ByteArray 4) := ⟨fromLe7Quad, toLe7Quad, fromLe7Quad_toLe7Quad⟩

instance : Le7 B14 (ByteArray 2) := ⟨fromLe7Pair, toLe7Pair, fromLe7Pair_toLe7Pair⟩

instance : Le7 B7 Byte := ⟨B7.ofByte, B7.toByte, B7.ofByte_toByte⟩

@[simp] theorem fromLe7_byte (v : Byte) : (fromLe7 v : B7) = B7.ofByte v := rfl

@[simp] theorem toLe7_b7 (v : B7) : (toLe7 v : Byte) = B7.toByte v := rfl

/-- The array overloads, which are also `from_byte_array` and `to_byte_array`. -/
instance {n : Nat} : Le7 (B7Array n) (ByteArray n) where
  fromLe7 v i := fromLe7 (v i)
  toLe7 v i := toLe7 (v i)
  fromLe7_toLe7 v := funext fun i => Le7.fromLe7_toLe7 (v i)

/-! ## Bytes and seven-bit values as cells -/

instance : Layout Byte Byte := Layout.cell

@[simp] theorem size_byte : Layout.size Byte = 1 := rfl

/-- `sizeof(b7)` is one and its underlying type a byte, which is what the `bit_cast`s of
the buffer to `b7 const*` rely on. -/
instance : Layout Byte B7 := Layout.via B7.toByte B7.ofByte B7.ofByte_toByte

@[simp] theorem size_b7 : Layout.size B7 = 1 := rfl

end Ci
end Midi2
