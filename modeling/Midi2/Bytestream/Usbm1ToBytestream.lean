import Midi2.Bytestream.Types
import Midi2.Ump.Translator

/-!
# From USB MIDI 1.0 to a byte stream (`bytestream/usbm1_to_bytestream.hpp`)

`usbm1_to_bytestream` takes USB-MIDI event packets of four bytes. The first byte has the number
of a virtual cable and a code index number, which says how many of the other three are used.
The packets of one cable are translated, by writing out these bytes, and those of other cables
are ignored.

Where the bytes go is left open, as for messages it is with a `Sink`.
-/

namespace Midi2.Bytestream.Usbm1ToBytestream

open Adt Ump
open Adt.Fifo (Output)

/-! ## The size of a message -/

/-- `details::pack_to_32_bits(first, rest...)`. -/
def packTo32Bits (first : BitVec 32) : List (BitVec 32) → BitVec 32
  | [] => first
  | second :: rest => first ||| (packTo32Bits second rest <<< 2)

/-- `details::extract_from_32_bits(packed, index)`. -/
def extractFrom32Bits (packed : BitVec 32) (index : Nat) : Nat :=
  ((packed >>> (index <<< 1)) &&& 0b11).toNat

/-- `midi_x_size(cin)`: the number of bytes, for each code index number. -/
def midiXSize (cin : Nat) : Nat :=
  extractFrom32Bits (packTo32Bits 0 [0, 2, 3, 3, 1, 2, 3, 3, 3, 3, 3, 2, 2, 3, 1]) cin

/-- `cable(p)`. -/
def cable (p : Word) : Byte :=
  ((p >>> 28) &&& 0x0F).setWidth 8

/-- `get_cin(p)`. -/
def getCin (p : Word) : Nat :=
  ((p >>> 24) &&& 0x0F).toNat

/-! ## The translator -/

/-- The members of `usbm1_to_bytestream`, without its output. -/
structure State where
  cable : Byte := 0
  deriving DecidableEq

section Push

variable {ω : Type} [Output ω Byte]

/-- `push(usbm1)`. -/
def push (ctxt : Context State ω) (usbm1 : Word) : Context State ω :=
  if cable usbm1 ≠ ctxt.state.cable then ctxt
  else
    let bytes := midiXSize (getCin usbm1)
    let write (n : Nat) (b : Word) (ctxt : Context State ω) : Context State ω :=
      if bytes > n then { ctxt with output := Output.pushBack ctxt.output (b.setWidth 8) } else ctxt
    ctxt
      |> write 0 ((usbm1 >>> 16) &&& 0xFF)
      |> write 1 ((usbm1 >>> 8) &&& 0xFF)
      |> write 2 (usbm1 &&& 0xFF)

/-- The bytes of a packet that are used. -/
def bytesOf (usbm1 : Word) : List Byte :=
  ([(usbm1 >>> 16) &&& 0xFF, (usbm1 >>> 8) &&& 0xFF, usbm1 &&& 0xFF].take
    (midiXSize (getCin usbm1))).map (BitVec.setWidth 8)

theorem push_eq (ctxt : Context State ω) (usbm1 : Word) :
    push ctxt usbm1 =
      if cable usbm1 = ctxt.state.cable then
        { ctxt with output := (bytesOf usbm1).foldl Output.pushBack ctxt.output }
      else ctxt := by
  by_cases hcable : cable usbm1 = ctxt.state.cable
  · rw [push, if_neg (not_not.2 hcable), if_pos hcable, bytesOf]
    rcases midiXSize (getCin usbm1) with _ | _ | _ | n <;> simp
  · rw [push, if_pos hcable, if_neg hcable]

end Push

abbrev ContextType := Context State (Fifo Byte 2)

/-- `reset()`. -/
def reset (ctxt : ContextType) : ContextType where
  state := { cable := 0 }
  output := ctxt.output.clear

/-- `set_cable(cable)`. -/
def setCable (cable : Byte) (ctxt : ContextType) : ContextType :=
  (reset ctxt).update fun state => { state with cable }

theorem bytesOf_length_le (usbm1 : Word) : (bytesOf usbm1).length ≤ 3 := by
  rw [bytesOf, List.length_map]
  exact List.length_take_le' _ _

/-! ## What is written -/

/-- The code: `push(usbm1)`, and then `pop()` as long as there is a byte. -/
def perWord : Machine Word Byte ContextType where
  step c usbm1 :=
    let c := push c usbm1
    ({ c with output := (c.output.drain 4).2 }, (c.output.drain 4).1)

/-- The packets of the cable are written, one after the other. -/
theorem run_perWord (state : State) (words : List Word) :
    (perWord.run ⟨state, {}⟩ words).2 =
      words.flatMap fun w => if cable w = state.cable then bytesOf w else [] := by
  let Inv (c : ContextType) : Prop := c.state = state ∧ c.output.Holds []
  refine (@Machine.run_eq_flatMap _ _ _ perWord Inv words _ (fun w _ c hc => ?_) ⟨state, {}⟩
    ⟨rfl, Fifo.holds_nil⟩).2
  obtain ⟨hstate, hholds⟩ := hc
  have hall := hholds.foldl_pushBack (bytesOf w)
  rw [List.nil_append, List.take_of_length_le (by have := bytesOf_length_le w; simp; omega)] at hall
  simp only [perWord, push_eq, hstate]
  split
  case isTrue =>
    obtain ⟨hbytes, hempty⟩ := hall.drain hall.length_le
    exact ⟨⟨rfl, hempty⟩, hbytes⟩
  case isFalse =>
    obtain ⟨hbytes, hempty⟩ := hholds.drain (Nat.zero_le 4)
    exact ⟨⟨hstate, hempty⟩, hbytes⟩

end Midi2.Bytestream.Usbm1ToBytestream
