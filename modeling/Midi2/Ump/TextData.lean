import Midi2.Ump.AsArray

/-!
# Text from a view (`ump/ump_types.hpp`, `flex_data::text_common`)

A text message has twelve characters, and zeros where the text has ended. `data` takes them from
a view, and there are two overloads for it. The one for ranges takes the characters that there
are (`dataElements`). The one for a view makes a range of it that is cut off after twelve
characters, but has one character more, and if there is room for that one too, it is read and put
into the message although it is not in the view (`read_dataView`, `get_dataView`).

Which of the two is called depends on what the view is as an argument: overload resolution takes
the second one for `const` lvalues only (`forwarded_betterThan_iff`). Then only a view of at least
twelve characters leaves no room for the character behind it (`staysInside_iff`).
-/

namespace Midi2.Ump

/-- `class text_common`: four words. -/
structure TextCommon extends Message where
  length_words : words.length = 4

namespace TextCommon

/-- The cases of `data(index, v)`. -/
def dataFields : List Field :=
  [data0, data1, data2, data3, data4, data5, data6, data7, data8, data9, data10, data11]

theorem dataFields_disjoint : dataFields.Pairwise Field.Disjoint := by
  decide

def asArray : AsArray :=
  ⟨dataFields, dataFields_disjoint⟩

theorem fit : asArray.Fit 4 8 where
  word := by decide
  bits := by decide

/-- The fields that are not text. They are the first word. -/
def otherFields : List Field :=
  [.mt, .group, form, address, .channel, .flexStatusBank, .flexStatus]

theorem disjoint_otherFields : ∀ g ∈ otherFields, ∀ f ∈ asArray.fields, f.Disjoint g := by
  decide

/-- `std::u8string_view`: the address of the first character, and the size. -/
structure View where
  start : Nat
  size : Nat

/-- An argument is an lvalue, such as a variable, or an rvalue, such as the result of a call. -/
inductive ValueCategory where
  | lvalue
  | rvalue
  deriving DecidableEq

/-- A `std::u8string_view` as the argument of a call. -/
structure Argument where
  category : ValueCategory
  isConst : Bool
  view : View

/-- How a parameter binds an argument: with an rvalue reference or an lvalue reference, and
whether to a `const` that the argument is not. -/
structure Binding where
  rvalueReference : Bool
  addsConst : Bool

/-- The overload resolution between two bindings of the same argument. -/
def Binding.betterThan (b b' : Binding) : Bool :=
  if b.rvalueReference = b'.rvalueReference then !b.addsConst && b'.addsConst
  else b.rvalueReference

/-- The parameter `Range&&` of a template: it binds whatever the argument is. -/
def Argument.forwarded (a : Argument) : Binding where
  rvalueReference := a.category = .rvalue
  addsConst := false

/-- The parameter `std::u8string_view const&`. -/
def Argument.toConstReference (a : Argument) : Binding where
  rvalueReference := false
  addsConst := !a.isConst

/-- `data(I first, S last)`, for a range of addresses. -/
def dataRange (mem : Nat → BitVec 8) (m : Message) (range : List Nat) : AsArray.Filling Nat :=
  let s := asArray.helper (fun p => (mem p).toNat) m range
  { s with message := asArray.fill s.message s.index }

/-- `data(Range&& range, Proj proj = {})`, for the range of the characters of a view. Its loop is
that of `data(I first, S last)`, and it fills up with zeros in the same way. -/
def dataElements (mem : Nat → BitVec 8) (m : Message) (str : View) : AsArray.Filling Nat :=
  dataRange mem m (List.range' str.start str.size)

/-- `data(std::u8string_view const& str)`. -/
def dataView (mem : Nat → BitVec 8) (m : Message) (str : View) : AsArray.Filling Nat :=
  dataRange mem m (List.range' str.start (min asArray.maxSize str.size + 1))

/-- A call of `data` with a view. If neither overload binds it better than the other one, then the
one that is not a template is called. -/
def data (mem : Nat → BitVec 8) (m : Message) (str : Argument) : AsArray.Filling Nat :=
  if str.forwarded.betterThan str.toConstReference then dataElements mem m str.view
  else dataView mem m str.view

/-! ## What `data` does -/

variable (mem : Nat → BitVec 8) (m : TextCommon) (range : List Nat) (str : View)

theorem filled : asArray.Filled (fun p => (mem p).toNat) m.toMessage range
    (asArray.helper (fun p => (mem p).toNat) m.toMessage range) :=
  AsArray.helper_filled fit (fun p => (mem p).isLt) m.length_words range

theorem read_dataRange : (dataRange mem m.toMessage range).read = range.take 12 :=
  (filled mem m range).read

/-- The characters of the range, and zeros for those that are missing. -/
theorem get_dataRange {i : Nat} {f : Field} (hf : asArray.fields[i]? = some f) :
    (dataRange mem m.toMessage range).message.get f =
      (range[i]?.map fun p => (mem p).toNat).getD 0 := by
  have h := filled mem m range
  have hi : i < 12 := (List.getElem?_eq_some_iff.1 hf).1
  have hmax : asArray.maxSize = 12 := rfl
  refine (AsArray.get_fill fit (h.length.trans m.length_words) _ hf).trans ?_
  rw [h.index, h.get hf, hmax]
  rcases Nat.lt_or_ge i range.length with hlt | hge
  · rw [if_neg (by omega), List.getElem?_eq_getElem hlt]
    rfl
  · rw [if_pos (by omega), List.getElem?_eq_none hge]
    rfl

theorem get_dataRange_of_other {g : Field} (hg : g ∈ otherFields) :
    (dataRange mem m.toMessage range).message.get g = m.get g := by
  have hdisjoint := disjoint_otherFields g hg
  exact (AsArray.get_fill_of_disjoint hdisjoint _ _).trans
    ((filled mem m range).frame g hdisjoint)

theorem read_dataElements : (dataElements mem m.toMessage str).read =
    List.range' str.start (min 12 str.size) := by
  rw [dataElements, read_dataRange]
  rcases Nat.le_total str.size 12 with hle | hge
  · rw [Nat.min_eq_right hle, List.take_range'_of_length_le hle]
  · rw [Nat.min_eq_left hge, List.take_range'_of_length_ge hge]

theorem get_dataElements {i : Nat} {f : Field} (hf : asArray.fields[i]? = some f) :
    (dataElements mem m.toMessage str).message.get f =
      if i < str.size then (mem (str.start + i)).toNat else 0 := by
  rw [dataElements, get_dataRange mem m _ hf]
  by_cases hlt : i < str.size
  · rw [if_pos hlt, List.getElem?_range' hlt, Nat.one_mul]
    rfl
  · rw [if_neg hlt, List.getElem?_eq_none (by rw [List.length_range']; omega)]
    rfl

/-- What is read of a view: one character more than it has, up to twelve. -/
theorem read_dataView : (dataView mem m.toMessage str).read =
    List.range' str.start (min 12 (str.size + 1)) := by
  have hmax : asArray.maxSize = 12 := rfl
  rw [dataView, read_dataRange, hmax]
  rcases Nat.lt_or_ge str.size 12 with hlt | hge
  · rw [Nat.min_eq_right (Nat.le_of_lt hlt), Nat.min_eq_right hlt,
      List.take_range'_of_length_le hlt]
  · rw [Nat.min_eq_left hge, Nat.min_eq_left (Nat.le_succ_of_le hge),
      List.take_range'_of_length_ge (by decide)]

theorem get_dataView {i : Nat} {f : Field} (hf : asArray.fields[i]? = some f) :
    (dataView mem m.toMessage str).message.get f =
      if i ≤ str.size then (mem (str.start + i)).toNat else 0 := by
  have hi : i < 12 := (List.getElem?_eq_some_iff.1 hf).1
  have hmax : asArray.maxSize = 12 := rfl
  rw [dataView, get_dataRange mem m _ hf, hmax]
  by_cases hle : i ≤ str.size
  · rw [if_pos hle, List.getElem?_range' (by omega), Nat.one_mul]
    rfl
  · rw [if_neg hle, List.getElem?_eq_none (by rw [List.length_range']; omega)]
    rfl

/-- The overload for ranges is preferred, unless the view is a `const` lvalue. -/
theorem forwarded_betterThan_iff (arg : Argument) :
    arg.forwarded.betterThan arg.toConstReference = true ↔
      ¬(arg.category = .lvalue ∧ arg.isConst = true) := by
  obtain ⟨category, isConst, view⟩ := arg
  cases category with
  | lvalue =>
      cases isConst with
      | false => exact iff_of_true rfl fun h => Bool.false_ne_true h.2
      | true => exact iff_of_false Bool.false_ne_true fun h => h ⟨rfl, rfl⟩
  | rvalue => exact iff_of_true rfl fun h => ValueCategory.noConfusion h.1

/-- Neither overload changes another field. -/
theorem get_data_of_other (arg : Argument) {g : Field} (hg : g ∈ otherFields) :
    (data mem m.toMessage arg).message.get g = m.get g := by
  unfold data
  split
  · exact get_dataRange_of_other mem m _ hg
  · exact get_dataRange_of_other mem m _ hg

/-! ## What it should do -/

/-- The message has the text of the view, for which only that was read, and is otherwise as it
was. -/
structure StaysInside (arg : Argument) : Prop where
  text : ∀ {i : Nat} {f : Field}, asArray.fields[i]? = some f →
    (data mem m.toMessage arg).message.get f =
      if i < arg.view.size then (mem (arg.view.start + i)).toNat else 0
  inside : ∀ p ∈ (data mem m.toMessage arg).read,
    arg.view.start ≤ p ∧ p < arg.view.start + arg.view.size
  frame : ∀ g ∈ otherFields, (data mem m.toMessage arg).message.get g = m.get g

/-- It does so whenever the view is not a `const` lvalue, and else if it is long enough. -/
theorem staysInside_iff (arg : Argument) : StaysInside mem m arg ↔
    ¬(arg.category = .lvalue ∧ arg.isConst = true) ∨ 12 ≤ arg.view.size := by
  rw [← forwarded_betterThan_iff arg]
  constructor
  · intro h
    rw [or_iff_not_imp_left]
    intro hview
    by_contra hshort
    have hread : arg.view.start + arg.view.size ∈ (data mem m.toMessage arg).read := by
      rw [data, if_neg hview, read_dataView, List.mem_range'_1]
      omega
    exact Nat.lt_irrefl _ (h.inside _ hread).2
  · intro h
    by_cases hrange : arg.forwarded.betterThan arg.toConstReference = true
    · have hdata : data mem m.toMessage arg = dataElements mem m.toMessage arg.view :=
        if_pos hrange
      refine ⟨fun {i f} hf => ?_, fun p hp => ?_, fun g hg => get_data_of_other mem m arg hg⟩
      · rw [hdata, get_dataElements mem m arg.view hf]
      · rw [hdata, read_dataElements, List.mem_range'_1] at hp
        omega
    · have hlong : 12 ≤ arg.view.size := h.resolve_left hrange
      have hdata : data mem m.toMessage arg = dataView mem m.toMessage arg.view := if_neg hrange
      refine ⟨fun {i f} hf => ?_, fun p hp => ?_, fun g hg => get_data_of_other mem m arg hg⟩
      · have hi : i < 12 := (List.getElem?_eq_some_iff.1 hf).1
        rw [hdata, get_dataView mem m arg.view hf, if_pos (by omega), if_pos (by omega)]
      · rw [hdata, read_dataView, List.mem_range'_1] at hp
        omega

/-- The view of `ab` in `abc`, in a variable that is `const`: all of `abc` becomes the text. -/
theorem not_staysInside : ¬StaysInside (fun p => .ofNat 8 (0x61 + p)) ⟨⟨[0xD0100000, 0, 0, 0]⟩, rfl⟩
    ⟨.lvalue, true, ⟨0, 2⟩⟩ := by
  intro h
  have htext := @StaysInside.text _ _ _ h 2 data2 rfl
  revert htext
  decide

end TextCommon

end Midi2.Ump
