import Mathlib.Data.List.Induction
import Midi2.Ump.Types

/-!
# Messages as arrays (`ump/ump_as_array.hpp`)

Some messages have many fields of data, and give access to them by a number. Values are put
into them from the first one on by `data_helper`, which leaves out those for which there is no
field. It is given references to the values: of a reference that it leaves out, it does not read
the value, so the references that are read are part of the result (`Filling`).

`data_filling` says what all the fields are afterwards, and `get_fill` does so for the fields
that are then set to zero.
-/

namespace Midi2.Ump

/-- The fields that a message has as an array. -/
structure AsArray where
  fields : List Field
  disjoint : fields.Pairwise Field.Disjoint

namespace AsArray

/-- `max_size()`. -/
def maxSize (a : AsArray) : Nat :=
  a.fields.length

/-- `data(index, v)`, as compiled without the assertion that there is such a field. -/
def setData (a : AsArray) (m : Message) (index v : Nat) : Message :=
  match a.fields[index]? with
  | none => m
  | some f => m.set f v

/-- `data(index)`, as compiled without the assertion that there is such a field. -/
def data (a : AsArray) (m : Message) (index : Nat) : Nat :=
  match a.fields[index]? with
  | none => 0
  | some f => m.get f

variable {ρ : Type}

/-- A message to which values are being given: their number, and what was read. -/
structure Filling (ρ : Type) where
  message : Message
  index : Nat := 0
  read : List ρ := []

/-- The body of the loop of `data_helper`, for the value that `v` refers to. -/
def put (a : AsArray) (value : ρ → Nat) (s : Filling ρ) (v : ρ) : Filling ρ :=
  if s.index < a.maxSize then
    ⟨a.setData s.message s.index (value v), s.index + 1, s.read ++ [v]⟩
  else
    s

/-- `data_helper<Message, Bits>::data(message, first, last)`. -/
def helper (a : AsArray) (value : ρ → Nat) (message : Message) (range : List ρ) : Filling ρ :=
  range.foldl (a.put value) { message }

/-- `std::fill(begin + index, begin + max_size(), 0)`. -/
def fill (a : AsArray) (m : Message) (index : Nat) : Message :=
  (List.range' index (a.maxSize - index)).foldl (fun m i => a.setData m i 0) m

/-! ## One field -/

/-- The fields are all in the first `words` words, and have `bits` bits. -/
structure Fit (a : AsArray) (words bits : Nat) : Prop where
  word : ∀ f ∈ a.fields, f.word < words
  bits : ∀ f ∈ a.fields, f.range.bits = bits

variable {a : AsArray} {words bits : Nat}

@[simp] theorem length_setData (a : AsArray) (m : Message) (i v : Nat) :
    (a.setData m i v).words.length = m.words.length := by
  unfold setData
  cases a.fields[i]? with
  | none => rfl
  | some f => exact Message.length_set m f v

/-- What is not a field of the array is not touched. -/
theorem get_setData_of_disjoint {g : Field} (hg : ∀ f ∈ a.fields, f.Disjoint g) (m : Message)
    (i v : Nat) : (a.setData m i v).get g = m.get g := by
  unfold setData
  cases hf : a.fields[i]? with
  | none => rfl
  | some f => exact Message.get_set_of_disjoint m v (hg f (List.mem_of_getElem? hf))

theorem get_setData (hfit : a.Fit words bits) {m : Message} (hm : m.words.length = words)
    {i j v : Nat} (hv : v < 2 ^ bits) {f : Field} (hf : a.fields[j]? = some f) :
    (a.setData m i v).get f = if i = j then v else m.get f := by
  have hmem := List.mem_of_getElem? hf
  by_cases hij : i = j
  · rw [if_pos hij, setData, hij, hf]
    exact Message.get_set_self m f (hm ▸ hfit.word f hmem) (hfit.bits f hmem ▸ hv)
  · rw [if_neg hij, setData]
    cases hg : a.fields[i]? with
    | none => rfl
    | some g =>
        refine Message.get_set_of_disjoint m v ?_
        obtain ⟨hi, rfl⟩ := List.getElem?_eq_some_iff.1 hg
        obtain ⟨hj, rfl⟩ := List.getElem?_eq_some_iff.1 hf
        have hall := List.pairwise_iff_getElem.1 a.disjoint
        rcases Nat.lt_or_gt_of_ne hij with hlt | hgt
        · exact hall i j hi hj hlt
        · exact (hall j i hj hi hgt).symm

/-! ## All of them -/

/-- Values have been given to fields of the message `m`: to as many as there are, and all
others are as they were. -/
structure Filled (a : AsArray) (value : ρ → Nat) (m : Message) (range : List ρ) (s : Filling ρ) :
    Prop where
  length : s.message.words.length = m.words.length
  index : s.index = min range.length a.maxSize
  read : s.read = range.take a.maxSize
  get : ∀ {j : Nat} {f : Field}, a.fields[j]? = some f →
    s.message.get f = (range[j]?.map value).getD (m.get f)
  frame : ∀ g, (∀ f ∈ a.fields, f.Disjoint g) → s.message.get g = m.get g

theorem Filled.put {value : ρ → Nat} (hfit : a.Fit words bits) (hvalue : ∀ v, value v < 2 ^ bits)
    {m : Message} (hm : m.words.length = words) {range : List ρ} {s : Filling ρ}
    (h : Filled a value m range s) (v : ρ) :
    Filled a value m (range ++ [v]) (a.put value s v) := by
  unfold AsArray.put
  by_cases hroom : s.index < a.maxSize
  · have hlen : range.length < a.maxSize := by
      have := h.index
      omega
    have hindex : s.index = range.length := by
      rw [h.index, Nat.min_eq_left (Nat.le_of_lt hlen)]
    rw [if_pos hroom]
    refine ⟨(length_setData ..).trans h.length, ?_, ?_, ?_, ?_⟩
    · rw [List.length_append, List.length_singleton, Nat.min_eq_left hlen, hindex]
    · rw [h.read, List.take_of_length_le (Nat.le_of_lt hlen), List.take_of_length_le]
      rwa [List.length_append, List.length_singleton]
    · intro j f hf
      rw [get_setData hfit (h.length.trans hm) (hvalue v) hf, hindex]
      by_cases hj : range.length = j
      · rw [if_pos hj, ← hj, List.getElem?_concat_length]
        rfl
      · rw [if_neg hj, h.get hf]
        rcases Nat.lt_or_gt_of_ne hj with hlt | hgt
        · rw [List.getElem?_eq_none (Nat.le_of_lt hlt), List.getElem?_eq_none]
          rw [List.length_append, List.length_singleton]
          exact hlt
        · rw [List.getElem?_append_left hgt]
    · intro g hg
      exact (get_setData_of_disjoint hg ..).trans (h.frame g hg)
  · have hlen : a.maxSize ≤ range.length := by
      have := h.index
      omega
    rw [if_neg hroom]
    refine ⟨h.length, ?_, ?_, ?_, h.frame⟩
    · rw [h.index, List.length_append, Nat.min_eq_right hlen,
        Nat.min_eq_right (Nat.le_trans hlen (Nat.le_add_right _ _))]
    · rw [h.read, List.take_append_of_le_length hlen]
    · intro j f hf
      have hj : j < range.length := Nat.lt_of_lt_of_le (List.getElem?_eq_some_iff.1 hf).1 hlen
      rw [h.get hf, List.getElem?_append_left hj]

theorem helper_filled {value : ρ → Nat} (hfit : a.Fit words bits)
    (hvalue : ∀ v, value v < 2 ^ bits) {m : Message} (hm : m.words.length = words)
    (range : List ρ) : Filled a value m range (a.helper value m range) := by
  induction range using List.reverseRecOn with
  | nil => exact ⟨rfl, (Nat.zero_min _).symm, List.take_nil.symm, fun _ => rfl, fun _ _ => rfl⟩
  | append_singleton range v ih =>
      rw [helper, List.foldl_append]
      exact ih.put hfit hvalue hm v

/-- Fields that are set to zero, one after the other. -/
theorem get_foldl_zero (hfit : a.Fit words bits) {m : Message} (hm : m.words.length = words)
    (is : List Nat) {j : Nat} {f : Field} (hf : a.fields[j]? = some f) :
    (is.foldl (fun m i => a.setData m i 0) m).get f = if j ∈ is then 0 else m.get f := by
  induction is generalizing m with
  | nil => rfl
  | cons i is ih =>
      rw [List.foldl_cons, ih ((length_setData ..).trans hm),
        get_setData hfit hm (Nat.two_pow_pos bits) hf]
      by_cases hj : j ∈ is
      · rw [if_pos hj, if_pos (List.mem_cons_of_mem i hj)]
      · rw [if_neg hj]
        by_cases hij : i = j
        · rw [if_pos hij, if_pos (hij ▸ List.mem_cons_self)]
        · rw [if_neg hij, if_neg]
          intro hmem
          exact (List.mem_cons.1 hmem).elim (fun h => hij h.symm) hj

theorem get_fill (hfit : a.Fit words bits) {m : Message} (hm : m.words.length = words)
    (index : Nat) {j : Nat} {f : Field} (hf : a.fields[j]? = some f) :
    (a.fill m index).get f = if index ≤ j then 0 else m.get f := by
  have hj : j < a.maxSize := (List.getElem?_eq_some_iff.1 hf).1
  have hmem : j ∈ List.range' index (a.maxSize - index) ↔ index ≤ j := by
    rw [List.mem_range'_1]
    omega
  rw [fill, get_foldl_zero hfit hm _ hf]
  simp only [hmem]

theorem get_fill_of_disjoint {g : Field} (hg : ∀ f ∈ a.fields, f.Disjoint g) (m : Message)
    (index : Nat) : (a.fill m index).get g = m.get g := by
  unfold fill
  generalize List.range' index (a.maxSize - index) = is
  induction is generalizing m with
  | nil => rfl
  | cons i is ih => rw [List.foldl_cons, ih, get_setData_of_disjoint hg]

end AsArray

end Midi2.Ump
