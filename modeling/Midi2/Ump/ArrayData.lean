import Midi2.Ump.TextData

/-!
# The values of a message (`ump/ump_types.hpp`, `sysex7`, `sysex8` and `text_common`)

Three kinds of message give access to their data as to an array: they can be iterated from
`begin()` to `end()`, and `data(first, last)` replaces what they have. System exclusive messages
have their number of values in a field (`Counted`). A text has no such field, and ends before
its first zero.

`arrayData_holds` says that the values of a message are those that `data` was given, as far as
there is room for them, and that nothing else of the message has changed. Of its old data a
system exclusive message keeps what is after the new, where its number of values hides it. A text
keeps none of it (`elements_setData`), or it would follow a text without a zero.
-/

namespace Midi2.Ump

namespace AsArray

/-- The values from `begin()` to `end()`. An iterator has the number of its value, and `end()`
has `size`. -/
def elements (a : AsArray) (m : Message) (size : Nat) : List Nat :=
  (List.range size).map (a.data m)

theorem length_elements (a : AsArray) (m : Message) (size : Nat) :
    (a.elements m size).length = size := by
  rw [elements, List.length_map, List.length_range]

theorem data_eq_get {a : AsArray} {index : Nat} {f : Field} (hf : a.fields[index]? = some f)
    (m : Message) : a.data m index = m.get f := by
  rw [data, hf]

/-- The message `m'`, of the size that it says it has, has the values, and its other fields are
those of `m`. -/
structure Holds (a : AsArray) (size : Message → Nat) (others : List Field) (m m' : Message)
    (values : List Nat) : Prop where
  elements : a.elements m' (size m') = values
  size : size m' = values.length
  frame : ∀ g ∈ others, m'.get g = m.get g

end AsArray

/-! ## Messages with a number of values -/

/-- The fields of a message with data and their number. -/
structure Counted extends AsArray where
  numberOfBytes : Field
  others : List Field
  disjoint_numberOfBytes : ∀ f ∈ fields, f.Disjoint numberOfBytes
  disjoint_others : ∀ g ∈ others, numberOfBytes.Disjoint g ∧ ∀ f ∈ fields, f.Disjoint g
  maxSize_lt : fields.length < 2 ^ numberOfBytes.range.bits

namespace Counted

variable {w : Nat}

/-- `size()`. -/
def size (c : Counted) (m : Message) : Nat :=
  m.get c.numberOfBytes

/-- `data(I first, S last)`. -/
def setData (c : Counted) (m : Message) (range : List (BitVec w)) : Message :=
  let s := c.helper BitVec.toNat m range
  s.message.set c.numberOfBytes s.index

variable (c : Counted) {words : Nat}

theorem setData_holds (hfit : c.Fit words w) (hword : c.numberOfBytes.word < words)
    {m : Message} (hm : m.words.length = words) (range : List (BitVec w)) :
    c.Holds c.size c.others m (c.setData m range)
      ((range.take c.maxSize).map BitVec.toNat) := by
  have h := AsArray.helper_filled hfit (fun v : BitVec w => v.isLt) hm range
  have hsize : c.size (c.setData m range) = min range.length c.maxSize := by
    refine (Message.get_set_self _ _ ?_ ?_).trans h.index
    · rw [h.length, hm]
      exact hword
    · rw [h.index]
      exact Nat.lt_of_le_of_lt (Nat.min_le_right ..) c.maxSize_lt
  have hlength : ((range.take c.maxSize).map BitVec.toNat).length =
      min range.length c.maxSize := by
    rw [List.length_map, List.length_take, Nat.min_comm]
  refine ⟨?_, hsize.trans hlength.symm, ?_⟩
  · refine List.ext_getElem ?_ ?_
    · rw [AsArray.length_elements, hsize, hlength]
    · intro i hi hi'
      rw [hlength] at hi'
      have hmax : i < c.fields.length := Nat.lt_of_lt_of_le hi' (Nat.min_le_right ..)
      have hlen : i < range.length := Nat.lt_of_lt_of_le hi' (Nat.min_le_left ..)
      have hf : c.fields[i]? = some c.fields[i] := List.getElem?_eq_getElem hmax
      have hdisjoint := c.disjoint_numberOfBytes _ (List.getElem_mem hmax)
      simp only [AsArray.elements, List.getElem_map, List.getElem_range, List.getElem_take]
      rw [AsArray.data_eq_get hf, setData, Message.get_set_of_disjoint _ _ hdisjoint.symm,
        h.get hf, List.getElem?_eq_getElem hlen]
      rfl
  · intro g hg
    obtain ⟨hcount, hfields⟩ := c.disjoint_others g hg
    exact (Message.get_set_of_disjoint _ _ hcount).trans (h.frame g hfields)

end Counted

/-- `class sysex7`: two words. -/
structure Sysex7 extends Message where
  length_words : words.length = 2

namespace Data64

/-- The cases of `data(index, v)`. -/
def dataFields : List Field :=
  [data0, data1, data2, data3, data4, data5]

theorem dataFields_disjoint : dataFields.Pairwise Field.Disjoint := by
  decide

theorem numberOfBytes_disjoint : ∀ f ∈ dataFields, f.Disjoint numberOfBytes := by
  decide

/-- The fields that are neither data nor its number. -/
def otherFields : List Field :=
  [.mt, .group, .status] ++ reserved

theorem disjoint_otherFields :
    ∀ g ∈ otherFields, numberOfBytes.Disjoint g ∧ ∀ f ∈ dataFields, f.Disjoint g := by
  decide

def counted : Counted :=
  ⟨⟨dataFields, dataFields_disjoint⟩, numberOfBytes, otherFields, numberOfBytes_disjoint,
    disjoint_otherFields, by decide⟩

theorem fit : counted.Fit 2 7 where
  word := by decide
  bits := by decide

end Data64

/-- `class sysex8`: four words. -/
structure Sysex8 extends Message where
  length_words : words.length = 4

namespace Data128

/-- The cases of `data(index, v)`. -/
def dataFields : List Field :=
  [data0, data1, data2, data3, data4, data5, data6, data7, data8, data9, data10, data11, data12]

theorem dataFields_disjoint : dataFields.Pairwise Field.Disjoint := by
  decide

theorem numberOfBytes_disjoint : ∀ f ∈ dataFields, f.Disjoint numberOfBytes := by
  decide

/-- The fields that are neither data nor its number. -/
def otherFields : List Field :=
  [.mt, .group, .status, streamId]

theorem disjoint_otherFields :
    ∀ g ∈ otherFields, numberOfBytes.Disjoint g ∧ ∀ f ∈ dataFields, f.Disjoint g := by
  decide

def counted : Counted :=
  ⟨⟨dataFields, dataFields_disjoint⟩, numberOfBytes, otherFields, numberOfBytes_disjoint,
    disjoint_otherFields, by decide⟩

theorem fit : counted.Fit 4 8 where
  word := by decide
  bits := by decide

end Data128

/-! ## Text -/

namespace TextCommon

/-- The loop of `number_of_bytes()`, with `left` characters to go. -/
def numberOfBytesFrom (m : Message) (index : Nat) : Nat → Nat
  | 0 => index
  | left + 1 =>
      if asArray.data m index = 0 then index else numberOfBytesFrom m (index + 1) left

/-- `number_of_bytes()`, which is also `size()`. -/
def numberOfBytes (m : Message) : Nat :=
  numberOfBytesFrom m 0 asArray.maxSize

/-- `data(I first, S last)`, of which the iterators have the numbers of the values. -/
def setData (m : Message) (range : List (BitVec 8)) : Message :=
  (dataRange (fun i => range.getD i 0) m (List.range range.length)).message

theorem numberOfBytesFrom_eq (m : Message) (index left : Nat) :
    numberOfBytesFrom m index left = index +
      (((List.range' index left).map (asArray.data m)).takeWhile (· ≠ 0)).length := by
  induction left generalizing index with
  | zero => rfl
  | succ left ih =>
      rw [numberOfBytesFrom, List.range'_succ, List.map_cons]
      by_cases hzero : asArray.data m index = 0
      · rw [if_pos hzero, List.takeWhile_cons_of_neg (by simp only [hzero]; decide)]
        rfl
      · rw [if_neg hzero, ih, List.takeWhile_cons_of_pos (by simpa using hzero),
          List.length_cons]
        omega

/-- The values are the characters before the first zero. -/
theorem elements_numberOfBytes (m : Message) :
    asArray.elements m (numberOfBytes m) =
      (asArray.elements m asArray.maxSize).takeWhile (· ≠ 0) := by
  have hsize : numberOfBytes m =
      ((asArray.elements m asArray.maxSize).takeWhile (· ≠ 0)).length := by
    rw [numberOfBytes, numberOfBytesFrom_eq, Nat.zero_add, AsArray.elements,
      List.range_eq_range']
  have hle : numberOfBytes m ≤ asArray.maxSize := by
    refine hsize ▸ (List.takeWhile_sublist _).length_le.trans_eq ?_
    exact AsArray.length_elements ..
  have htake := List.prefix_iff_eq_take.1
    (List.takeWhile_prefix (l := asArray.elements m asArray.maxSize) (· ≠ 0))
  rw [htake, ← hsize, AsArray.elements, AsArray.elements, ← List.map_take, List.take_range,
    Nat.min_eq_left hle]

theorem data_setData (m : TextCommon) (range : List (BitVec 8)) {i : Nat}
    (hi : i < asArray.maxSize) :
    asArray.data (setData m.toMessage range) i = (range[i]?.map BitVec.toNat).getD 0 := by
  have hf : asArray.fields[i]? = some asArray.fields[i] := List.getElem?_eq_getElem hi
  rw [AsArray.data_eq_get hf, setData, get_dataRange _ m _ hf]
  rcases Nat.lt_or_ge i range.length with hlt | hge
  · rw [List.getElem?_range hlt, List.getElem?_eq_getElem hlt]
    simp only [Option.map_some, Option.getD_some, List.getD_eq_getElem _ _ hlt]
  · rw [List.getElem?_eq_none (by rwa [List.length_range]), List.getElem?_eq_none hge]
    rfl

/-- After the characters that were given, there are zeros. -/
theorem elements_setData (m : TextCommon) (range : List (BitVec 8)) :
    asArray.elements (setData m.toMessage range) asArray.maxSize =
      (range.take 12).map BitVec.toNat ++ List.replicate (12 - range.length) 0 := by
  have hmax : asArray.maxSize = 12 := rfl
  refine List.ext_getElem? fun i => ?_
  rcases Nat.lt_or_ge i 12 with hi | hi
  · rw [AsArray.elements, hmax, List.getElem?_map, List.getElem?_range hi, Option.map_some,
      data_setData m range hi]
    rcases Nat.lt_or_ge i range.length with hlt | hge
    · rw [List.getElem?_append_left, List.getElem?_map, List.getElem?_take_of_lt hi,
        List.getElem?_eq_getElem hlt]
      · rfl
      · rw [List.length_map, List.length_take]
        omega
    · rw [List.getElem?_append_right, List.getElem?_replicate, if_pos,
        List.getElem?_eq_none hge]
      · rfl
      all_goals
        rw [List.length_map, List.length_take]
        omega
  · rw [List.getElem?_eq_none, List.getElem?_eq_none]
    · rw [List.length_append, List.length_map, List.length_take, List.length_replicate]
      omega
    · rw [AsArray.length_elements, hmax]
      exact hi

theorem setData_holds (m : TextCommon) (range : List (BitVec 8)) :
    asArray.Holds numberOfBytes otherFields m.toMessage (setData m.toMessage range)
      (((range.take 12).map BitVec.toNat).takeWhile (· ≠ 0)) := by
  have helements : asArray.elements (setData m.toMessage range)
      (numberOfBytes (setData m.toMessage range)) =
        ((range.take 12).map BitVec.toNat).takeWhile (· ≠ 0) := by
    rw [elements_numberOfBytes, elements_setData, List.takeWhile_append]
    split
    · rename_i hall
      rw [List.takeWhile_replicate, if_neg (by decide), List.append_nil]
      exact ((List.takeWhile_sublist _).eq_of_length hall).symm
    · rfl
  refine ⟨helements, ?_, fun g hg => get_dataRange_of_other _ m _ hg⟩
  rw [← helements, AsArray.length_elements]

end TextCommon

/-- What is set is what is then there, as much as has a place. -/
theorem arrayData_holds :
    (∀ (m : Sysex7) (range : List (BitVec 7)),
      Data64.counted.Holds Data64.counted.size Data64.otherFields m.toMessage
        (Data64.counted.setData m.toMessage range) ((range.take 6).map BitVec.toNat)) ∧
    (∀ (m : Sysex8) (range : List (BitVec 8)),
      Data128.counted.Holds Data128.counted.size Data128.otherFields m.toMessage
        (Data128.counted.setData m.toMessage range) ((range.take 13).map BitVec.toNat)) ∧
    ∀ (m : TextCommon) (range : List (BitVec 8)),
      TextCommon.asArray.Holds TextCommon.numberOfBytes TextCommon.otherFields m.toMessage
        (TextCommon.setData m.toMessage range)
        (((range.take 12).map BitVec.toNat).takeWhile (· ≠ 0)) :=
  ⟨fun m range => Data64.counted.setData_holds Data64.fit (by decide) m.length_words range,
    fun m range => Data128.counted.setData_holds Data128.fit (by decide) m.length_words range,
    fun m range => TextCommon.setData_holds m range⟩

end Midi2.Ump
