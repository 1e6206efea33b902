import Mathlib.Data.Nat.ModEq
import Mathlib.Logic.Function.Basic

/-!
# The ring buffer (`adt/fifo.hpp`)

A `fifo<ElementType, Elements>` keeps its elements in an array of `2 ^ k` slots and uses two
indices of `k + 1` bits, of which the top one tells a full buffer from an empty one. A slot
is raw storage: `none` stands for a slot without a live element.

`Holds f xs` says that the buffer contains the queue `xs`. Appending and removing are the
operations of a queue (`Holds.pushBack`, `Holds.popFront`), however often the indices have
wrapped around.
-/

namespace Midi2.Adt

/-- `fifo<ElementType, Elements>` for `2 ^ k` elements. -/
structure Fifo (α : Type) (k : Nat) where
  slots : Nat → Option α := fun _ => none
  writeIndex : Nat := 0
  readIndex : Nat := 0

namespace Fifo

variable {α : Type} {k : Nat}

/-- `wrapped()`: the two indices differ above the mask. -/
def wrapped (f : Fifo α k) : Bool :=
  f.writeIndex / 2 ^ k ≠ f.readIndex / 2 ^ k

/-- `empty()`. -/
def empty (f : Fifo α k) : Bool :=
  f.writeIndex = f.readIndex

/-- `full()`. -/
def full (f : Fifo α k) : Bool :=
  f.writeIndex % 2 ^ k = f.readIndex % 2 ^ k && f.wrapped

/-- `size()`. -/
def size (f : Fifo α k) : Nat :=
  f.writeIndex % 2 ^ k + (if f.wrapped then 2 ^ k else 0) - f.readIndex % 2 ^ k

/-- `push_back(value)`: false when the container is full. -/
def pushBack (f : Fifo α k) (value : α) : Bool × Fifo α k :=
  if f.full then
    (false, f)
  else
    (true, { f with
      slots := Function.update f.slots (f.writeIndex % 2 ^ k) (some value)
      writeIndex := (f.writeIndex + 1) % 2 ^ (k + 1) })

/-- `emplace_back(args...)`: false when the container is full, else an element is constructed in
place. -/
def emplaceBack {ι : Type} (f : Fifo α k) (construct : ι → α) (args : ι) : Bool × Fifo α k :=
  if f.full then
    (false, f)
  else
    (true, { f with
      slots := Function.update f.slots (f.writeIndex % 2 ^ k) (some (construct args))
      writeIndex := (f.writeIndex + 1) % 2 ^ (k + 1) })

/-- `pop_front()`: the element is moved out of its slot and destroyed. -/
def popFront (f : Fifo α k) : Option α × Fifo α k :=
  (f.slots (f.readIndex % 2 ^ k), { f with
    slots := Function.update f.slots (f.readIndex % 2 ^ k) none
    readIndex := (f.readIndex + 1) % 2 ^ (k + 1) })

/-- `while (!empty()) pop_front();` for at most `n` elements, and what was popped. -/
def drain : Nat → Fifo α k → List α × Fifo α k
  | 0, f => ([], f)
  | n + 1, f =>
      if f.empty then
        ([], f)
      else
        let (value, f) := f.popFront
        let (values, f) := drain n f
        (value.toList ++ values, f)

/-- The loop of `clear()`, for at most `n` rounds. What it moves is the write index. -/
def clearFrom : Nat → Fifo α k → Fifo α k
  | 0, f => f
  | n + 1, f =>
      if f.readIndex = f.writeIndex then
        f
      else
        clearFrom n { f with
          slots := Function.update f.slots (f.readIndex % 2 ^ k) none
          writeIndex := (f.writeIndex + 1) % 2 ^ (k + 1) }

/-- `clear()`. An index has `2 ^ (k + 1)` values, so that many rounds are enough. -/
def clear (f : Fifo α k) : Fifo α k :=
  clearFrom (2 ^ (k + 1)) f

/-- The loop of the copy constructor, for at most `n` rounds. -/
def copyFrom (other : Fifo α k) : Nat → Fifo α k → Fifo α k
  | 0, f => f
  | n + 1, f =>
      if f.writeIndex = other.writeIndex then
        f
      else
        let wi := f.writeIndex % 2 ^ k
        copyFrom other n { f with
          slots := Function.update f.slots wi (other.slots wi)
          writeIndex := (f.writeIndex + 1) % 2 ^ (k + 1) }

/-- `fifo(other)`: an element is constructed for each of `other`, in the same slot. -/
def copy (other : Fifo α k) : Fifo α k :=
  copyFrom other (2 ^ (k + 1)) { writeIndex := other.readIndex, readIndex := other.readIndex }

/-- What has a `push_back`, of which the result is not looked at. -/
class Output (ω : Type) (β : outParam Type) where
  pushBack : ω → β → ω

instance : Output (Fifo α k) α where
  pushBack output value := (output.pushBack value).2

/-! ## The queue in the buffer -/

/-- The buffer contains the elements `xs`, the oldest first. -/
structure Holds (f : Fifo α k) (xs : List α) : Prop where
  read_lt : f.readIndex < 2 ^ (k + 1)
  write_eq : f.writeIndex = (f.readIndex + xs.length) % 2 ^ (k + 1)
  length_le : xs.length ≤ 2 ^ k
  slot : ∀ (i : Nat) (x : α), xs[i]? = some x → f.slots ((f.readIndex + i) % 2 ^ k) = some x

variable {f : Fifo α k} {xs ys : List α}

theorem holds_nil : Holds ({} : Fifo α k) [] where
  read_lt := Nat.two_pow_pos _
  write_eq := (Nat.zero_mod _).symm
  length_le := Nat.zero_le _
  slot _ _ h := by cases h

/-- An index below twice the capacity, taken apart into wrap bit and position. -/
theorem index_cases {n x : Nat} (h : x < 2 * n) :
    (x < n ∧ x % n = x ∧ x / n = 0) ∨ (n ≤ x ∧ x % n = x - n ∧ x / n = 1) := by
  rcases Nat.lt_or_ge x n with hlt | hge
  · exact Or.inl ⟨hlt, Nat.mod_eq_of_lt hlt, Nat.div_eq_of_lt hlt⟩
  · have hsub : x - n < n := by omega
    refine Or.inr ⟨hge, ?_, ?_⟩
    · rw [Nat.mod_eq_sub_mod hge, Nat.mod_eq_of_lt hsub]
    · rw [Nat.div_eq_sub_div (by omega) hge, Nat.div_eq_of_lt hsub]

/-- The distance between the indices, in a buffer that is not over-full. -/
theorem Holds.indices (h : Holds f xs) :
    f.writeIndex < 2 * 2 ^ k ∧ f.readIndex < 2 * 2 ^ k ∧
    (f.writeIndex = f.readIndex + xs.length ∨
      f.writeIndex + 2 * 2 ^ k = f.readIndex + xs.length) := by
  have hpow : 2 ^ (k + 1) = 2 * 2 ^ k := Nat.pow_succ'
  have hread := h.read_lt
  have hwrite := h.write_eq
  have hlen := h.length_le
  rw [hpow] at hread hwrite
  rcases index_cases (show f.readIndex + xs.length < 2 * (2 * 2 ^ k) by omega) with
    ⟨hlt, hmod, -⟩ | ⟨hge, hmod, -⟩ <;> omega

theorem Holds.empty_iff (h : Holds f xs) : f.empty = true ↔ xs = [] := by
  obtain ⟨hw, hr, hdist⟩ := h.indices
  have hlen := h.length_le
  have hpos := Nat.two_pow_pos k
  rw [empty, decide_eq_true_eq, ← List.length_eq_zero_iff]
  omega

theorem Holds.full_iff (h : Holds f xs) : f.full = true ↔ xs.length = 2 ^ k := by
  obtain ⟨hw, hr, hdist⟩ := h.indices
  have hlen := h.length_le
  have hpos := Nat.two_pow_pos k
  simp only [full, wrapped, Bool.and_eq_true, decide_eq_true_eq, ne_eq]
  rcases index_cases hw with ⟨_, hwm, hwd⟩ | ⟨_, hwm, hwd⟩ <;>
    rcases index_cases hr with ⟨_, hrm, hrd⟩ | ⟨_, hrm, hrd⟩ <;>
    rw [hwm, hwd, hrm, hrd] <;> omega

/-- Positions of different elements are different slots. -/
theorem slot_ne {r i j n : Nat} (hi : i < n) (hj : j < n) (hne : i ≠ j) :
    (r + i) % n ≠ (r + j) % n := by
  intro h
  have hmod : i ≡ j [MOD n] := Nat.ModEq.add_left_cancel' r h
  exact hne (by rwa [Nat.ModEq, Nat.mod_eq_of_lt hi, Nat.mod_eq_of_lt hj] at hmod)

theorem mod_two_pow_succ (a k : Nat) : a % 2 ^ (k + 1) % 2 ^ k = a % 2 ^ k :=
  Nat.mod_mod_of_dvd a (pow_dvd_pow 2 (Nat.le_succ k))

/-- `push_back` on a buffer with room appends to the queue. -/
theorem Holds.pushBack (h : Holds f xs) (hroom : xs.length < 2 ^ k) (x : α) :
    (f.pushBack x).1 = true ∧ Holds (f.pushBack x).2 (xs ++ [x]) := by
  have hfull : ¬f.full = true := fun hf => by have := h.full_iff.1 hf; omega
  have hslot : f.writeIndex % 2 ^ k = (f.readIndex + xs.length) % 2 ^ k := by
    rw [h.write_eq, mod_two_pow_succ]
  rw [Fifo.pushBack, if_neg hfull]
  refine ⟨rfl, h.read_lt, ?_, ?_, ?_⟩
  · rw [List.length_append, List.length_singleton, ← Nat.add_assoc, h.write_eq, Nat.mod_add_mod]
  · rw [List.length_append, List.length_singleton]
    omega
  · intro i y hy
    simp only [hslot]
    rcases Nat.lt_or_ge i xs.length with hlt | hge
    · rw [List.getElem?_append_left hlt] at hy
      rw [Function.update_of_ne (slot_ne (by omega) hroom (by omega))]
      exact h.slot i y hy
    · rw [List.getElem?_append_right hge] at hy
      have hi : i = xs.length := by
        have := (List.getElem?_eq_some_iff.1 hy).1
        rw [List.length_singleton] at this
        omega
      rw [hi, Function.update_self]
      rw [hi, Nat.sub_self] at hy
      exact hy

/-- `push_back` on a full buffer fails and changes nothing. -/
theorem Holds.pushBack_full (h : Holds f xs) (hfull : xs.length = 2 ^ k) (x : α) :
    f.pushBack x = (false, f) := by
  rw [Fifo.pushBack, if_pos (h.full_iff.2 hfull)]

/-- `pop_front` takes the oldest element. -/
theorem Holds.popFront {x : α} (h : Holds f (x :: xs)) :
    f.popFront.1 = some x ∧ Holds f.popFront.2 xs := by
  have hlen := h.length_le
  rw [List.length_cons] at hlen
  refine ⟨h.slot 0 x rfl, Nat.mod_lt _ (Nat.two_pow_pos _), ?_, by omega, ?_⟩
  · simp only [Fifo.popFront, h.write_eq, List.length_cons, Nat.mod_add_mod]
    congr 1
    omega
  · intro i y hy
    have hi : i < xs.length := (List.getElem?_eq_some_iff.1 hy).1
    have hnext : ((f.readIndex + 1) % 2 ^ (k + 1) + i) % 2 ^ k =
        (f.readIndex + (i + 1)) % 2 ^ k := by
      rw [Nat.add_mod, mod_two_pow_succ, ← Nat.add_mod]
      congr 1
      omega
    have hne : (f.readIndex + (i + 1)) % 2 ^ k ≠ f.readIndex % 2 ^ k :=
      @slot_ne f.readIndex (i + 1) 0 (2 ^ k) (by omega) (by omega) (by omega)
    simp only [Fifo.popFront, hnext]
    rw [Function.update_of_ne hne]
    exact h.slot (i + 1) y hy

/-- Draining takes everything, in order. -/
theorem Holds.drain {n : Nat} : ∀ {f : Fifo α k} {xs : List α}, Holds f xs → xs.length ≤ n →
    (f.drain n).1 = xs ∧ Holds (f.drain n).2 [] := by
  induction n with
  | zero =>
      intro f xs h hlen
      obtain rfl := List.length_eq_zero_iff.1 (Nat.le_zero.1 hlen)
      exact ⟨rfl, h⟩
  | succ n ih =>
      intro f xs h hlen
      cases xs with
      | nil =>
          rw [Fifo.drain, if_pos (h.empty_iff.2 rfl)]
          exact ⟨rfl, h⟩
      | cons x xs =>
          have hne : ¬f.empty = true := fun he => by cases h.empty_iff.1 he
          obtain ⟨hfront, hrest⟩ := h.popFront
          obtain ⟨hvalues, hend⟩ := ih hrest (Nat.le_of_succ_le_succ hlen)
          rw [Fifo.drain, if_neg hne]
          exact ⟨by simp [hfront, hvalues], hend⟩

/-- The write index of `clear` goes round until it meets the read index. -/
theorem clearFrom_indices {n : Nat} (f : Fifo α k) (hread : f.readIndex < 2 ^ (k + 1))
    (hwrite : f.writeIndex < 2 ^ (k + 1))
    (hn : f.writeIndex ≤ f.readIndex ∧ f.readIndex ≤ f.writeIndex + n ∨
      f.readIndex < f.writeIndex ∧ f.readIndex + 2 ^ (k + 1) ≤ f.writeIndex + n) :
    (clearFrom n f).readIndex = f.readIndex ∧ (clearFrom n f).writeIndex = f.readIndex := by
  induction n generalizing f with
  | zero =>
      refine ⟨rfl, ?_⟩
      show f.writeIndex = f.readIndex
      omega
  | succ n ih =>
      unfold clearFrom
      split
      case isTrue heq => exact ⟨rfl, heq.symm⟩
      case isFalse hne =>
        refine ih _ hread (Nat.mod_lt _ (Nat.two_pow_pos _)) ?_
        rcases Nat.lt_or_ge (f.writeIndex + 1) (2 ^ (k + 1)) with hlt | hge
        · simp only [Nat.mod_eq_of_lt hlt]
          omega
        · have hlast : f.writeIndex + 1 = 2 ^ (k + 1) := by omega
          simp only [hlast, Nat.mod_self]
          omega

theorem Holds.clear (h : Holds f xs) : Holds f.clear [] := by
  have hpow : 2 ^ (k + 1) = 2 * 2 ^ k := Nat.pow_succ'
  obtain ⟨hw, hr, -⟩ := h.indices
  rw [← hpow] at hw hr
  obtain ⟨hread, hwrite⟩ := @clearFrom_indices α k (2 ^ (k + 1)) f hr hw (by omega)
  refine ⟨?_, ?_, Nat.zero_le _, fun i x hx => by cases hx⟩
  · rw [Fifo.clear, hread]
    exact hr
  · rw [Fifo.clear, hwrite, hread, List.length_nil, Nat.add_zero, Nat.mod_eq_of_lt hr]

/-- `size()`. -/
theorem Holds.size_eq (h : Holds f xs) : f.size = xs.length := by
  obtain ⟨hw, hr, hdist⟩ := h.indices
  have hlen := h.length_le
  have hpos := Nat.two_pow_pos k
  rw [Fifo.size, wrapped]
  rcases index_cases hw with ⟨_, hwm, hwd⟩ | ⟨_, hwm, hwd⟩ <;>
    rcases index_cases hr with ⟨_, hrm, hrd⟩ | ⟨_, hrm, hrd⟩ <;>
    rw [hwm, hwd, hrm, hrd] <;> simp <;> omega

/-- The loop of the copy constructor copies what is left of the other queue. -/
theorem Holds.copyFrom {other : Fifo α k} (h : Holds other (xs ++ ys)) (hf : Holds f xs)
    (hread : f.readIndex = other.readIndex) {n : Nat} (hn : ys.length ≤ n) :
    Holds (copyFrom other n f) (xs ++ ys) := by
  have hlen := h.length_le
  rw [List.length_append] at hlen
  induction n generalizing f xs ys with
  | zero =>
      obtain rfl := List.length_eq_zero_iff.1 (Nat.le_zero.1 hn)
      rwa [List.append_nil]
  | succ n ih =>
      have hpow : 2 ^ (k + 1) = 2 * 2 ^ k := Nat.pow_succ'
      unfold Fifo.copyFrom
      rw [hf.write_eq, h.write_eq, hread, List.length_append]
      cases ys with
      | nil =>
          have hend : (other.readIndex + xs.length) % 2 ^ (k + 1) =
              (other.readIndex + (xs.length + ([] : List α).length)) % 2 ^ (k + 1) := rfl
          rw [if_pos hend, List.append_nil]
          exact hf
      | cons y ys =>
          rw [List.length_cons] at hlen hn ⊢
          have hne : (other.readIndex + xs.length) % 2 ^ (k + 1) ≠
              (other.readIndex + (xs.length + (ys.length + 1))) % 2 ^ (k + 1) :=
            slot_ne (by omega) (by omega) (by omega)
          -- One round is a `push_back` of the next element.
          have hnext := (hf.pushBack (by omega) y).2
          have hfull : ¬f.full = true := fun hfull => by have := hf.full_iff.1 hfull; omega
          have hslot : other.slots ((other.readIndex + xs.length) % 2 ^ (k + 1) % 2 ^ k) =
              some y := by
            rw [mod_two_pow_succ]
            exact h.slot xs.length y (by simp)
          rw [Fifo.pushBack, if_neg hfull, hf.write_eq, hread] at hnext
          rw [if_neg hne]
          simp only [hslot]
          rw [List.append_cons] at h ⊢
          exact ih h hnext rfl (by omega) (by simp; omega)

/-- A copy contains the same queue. -/
theorem Holds.copy (h : Holds f xs) : Holds f.copy xs := by
  have hempty : Holds ({ writeIndex := f.readIndex, readIndex := f.readIndex } : Fifo α k) [] :=
    ⟨h.read_lt, (Nat.mod_eq_of_lt h.read_lt).symm, Nat.zero_le _, fun _ _ hx => by cases hx⟩
  have hpow : 2 ^ (k + 1) = 2 * 2 ^ k := Nat.pow_succ'
  have hlen := h.length_le
  exact @Holds.copyFrom α k _ [] xs f h hempty rfl (2 ^ (k + 1)) (by omega)

/-- `push_back` of several elements, the results not looked at: as many are appended as there
is room for. -/
theorem Holds.foldl_pushBack (h : Holds f xs) (ys : List α) :
    Holds (ys.foldl Output.pushBack f) (xs ++ ys.take (2 ^ k - xs.length)) := by
  induction ys generalizing f xs with
  | nil => rwa [List.take_nil, List.append_nil]
  | cons y ys ih =>
      rw [List.foldl_cons]
      rcases Nat.lt_or_ge xs.length (2 ^ k) with hroom | hfull
      · have hrest := ih (h.pushBack hroom y).2
        have hone : 2 ^ k - xs.length = (2 ^ k - (xs ++ [y]).length) + 1 := by
          rw [List.length_append, List.length_singleton]
          omega
        rw [hone, List.take_succ_cons, List.append_cons]
        exact hrest
      · have hlen : xs.length = 2 ^ k := Nat.le_antisymm h.length_le hfull
        have hnone := ih h
        rw [show Output.pushBack f y = f from congrArg Prod.snd (h.pushBack_full hlen y)]
        rw [hlen, Nat.sub_self, List.take_zero] at hnone ⊢
        exact hnone

/-- A buffer that is popped unless it is empty holds some queue. -/
theorem Holds.exists_popFront (h : Holds f xs) :
    ∃ ys, Holds (if f.empty then f else f.popFront.2) ys := by
  cases xs with
  | nil =>
      rw [if_pos (h.empty_iff.2 rfl)]
      exact ⟨[], h⟩
  | cons x xs =>
      rw [if_neg fun hempty => by cases h.empty_iff.1 hempty]
      exact ⟨xs, h.popFront.2⟩

end Fifo

end Midi2.Adt
