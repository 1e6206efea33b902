import Mathlib.Data.List.Basic
import Mathlib.Data.List.Induction

/-!
# Framing

In a stream of frames the first item of a frame says how many items it has, and that is all
that tells where the next one starts. `frames` cuts the complete frames off a sequence, one
after the other, and `rest` is what is left of it, a part of one more frame. Both are defined
from the front, as a reader of the whole sequence would do it. `concat_of_isFrame` and
`concat_of_isPart` say what one more item changes, which is what a receiver sees that is
handed the items one at a time.
-/

universe u

namespace Framing

variable {α : Type u} (size : α → Nat)

/-- The complete frames at the front of a sequence. -/
def frames : List α → List (List α)
  | [] => []
  | a :: as =>
      if size a ≤ as.length + 1 then
        (a :: as.take (size a - 1)) :: frames (as.drop (size a - 1))
      else
        []
  termination_by as => as.length

/-- What is left when the complete frames have been cut off. -/
def rest : List α → List α
  | [] => []
  | a :: as => if size a ≤ as.length + 1 then rest (as.drop (size a - 1)) else a :: as
  termination_by as => as.length

/-- As many items as the first of them says. -/
def IsFrame (as : List α) : Prop :=
  ∃ a ∈ as.head?, as.length = size a

/-- Some items of a frame, but not all of them. -/
def IsPart (as : List α) : Prop :=
  ∀ a ∈ as.head?, as.length < size a

@[simp] theorem frames_nil : frames size [] = [] := by
  rw [frames]

@[simp] theorem rest_nil : rest size [] = [] := by
  rw [rest]

theorem isPart_nil : IsPart size ([] : List α) := by
  intro a ha
  cases ha

variable {size}

theorem frames_cons {a : α} {as : List α} (h : size a ≤ as.length + 1) :
    frames size (a :: as) = (a :: as.take (size a - 1)) :: frames size (as.drop (size a - 1)) := by
  rw [frames, if_pos h]

theorem rest_cons {a : α} {as : List α} (h : size a ≤ as.length + 1) :
    rest size (a :: as) = rest size (as.drop (size a - 1)) := by
  rw [rest, if_pos h]

theorem frames_of_isPart {as : List α} (h : IsPart size as) : frames size as = [] := by
  cases as with
  | nil => exact frames_nil size
  | cons a as =>
      have hlt : as.length + 1 < size a := h a rfl
      rw [frames, if_neg (Nat.not_le.2 hlt)]

theorem rest_of_isPart {as : List α} (h : IsPart size as) : rest size as = as := by
  cases as with
  | nil => exact rest_nil size
  | cons a as =>
      have hlt : as.length + 1 < size a := h a rfl
      rw [rest, if_neg (Nat.not_le.2 hlt)]

theorem isPart_of_lt {a : α} {as : List α} (h : ¬size a ≤ as.length + 1) :
    IsPart size (a :: as) := by
  intro b hb
  obtain rfl : a = b := Option.some.inj hb
  exact Nat.not_le.1 h

/-- The first frame of a sequence is cut off, whatever follows. -/
theorem frames_append_of_isFrame {f : List α} (h : IsFrame size f) (as : List α) :
    frames size (f ++ as) = f :: frames size as ∧ rest size (f ++ as) = rest size as := by
  obtain ⟨a, ha, hlen⟩ := h
  cases f with
  | nil => cases ha
  | cons b f =>
      obtain rfl : b = a := Option.some.inj ha
      rw [List.length_cons] at hlen
      have hle : size b ≤ (f ++ as).length + 1 := by
        rw [List.length_append]
        omega
      have hcut : size b - 1 = f.length := by omega
      rw [List.cons_append, frames_cons hle, rest_cons hle, hcut, List.take_left, List.drop_left]
      exact ⟨rfl, rfl⟩

/-- More items only extend what is left. -/
theorem frames_append (as bs : List α) :
    frames size (as ++ bs) = frames size as ++ frames size (rest size as ++ bs) ∧
      rest size (as ++ bs) = rest size (rest size as ++ bs) := by
  induction as using frames.induct size with
  | case1 => simp only [frames_nil, rest_nil, List.nil_append, and_self]
  | case2 a as hle ih =>
      have hcut : size a - 1 ≤ as.length := by omega
      have hle' : size a ≤ (as ++ bs).length + 1 := by
        rw [List.length_append]
        omega
      obtain ⟨hframes, hrest⟩ := ih
      rw [List.cons_append, frames_cons hle', rest_cons hle', frames_cons hle, rest_cons hle,
        List.take_append_of_le_length hcut, List.drop_append_of_le_length hcut, hframes, hrest]
      exact ⟨rfl, rfl⟩
  | case3 a as hlt =>
      have hpart := isPart_of_lt hlt
      rw [frames_of_isPart hpart, rest_of_isPart hpart]
      exact ⟨rfl, rfl⟩

theorem isPart_rest (as : List α) : IsPart size (rest size as) := by
  induction as using frames.induct size with
  | case1 =>
      rw [rest_nil]
      exact isPart_nil size
  | case2 a as hle ih =>
      rw [rest_cons hle]
      exact ih
  | case3 a as hlt =>
      rw [rest_of_isPart (isPart_of_lt hlt)]
      exact isPart_of_lt hlt

theorem isFrame_of_mem (hpos : ∀ a, 0 < size a) {as f : List α} (h : f ∈ frames size as) :
    IsFrame size f := by
  induction as using frames.induct size with
  | case1 =>
      rw [frames_nil] at h
      cases h
  | case2 a as hle ih =>
      rw [frames_cons hle] at h
      rcases List.mem_cons.1 h with rfl | h
      · refine ⟨a, rfl, ?_⟩
        have := hpos a
        rw [List.length_cons, List.length_take]
        omega
      · exact ih h
  | case3 a as hlt =>
      rw [frames_of_isPart (isPart_of_lt hlt)] at h
      cases h

/-- Nothing is lost: the frames and what is left are the sequence. -/
theorem flatten_frames (as : List α) : (frames size as).flatten ++ rest size as = as := by
  induction as using frames.induct size with
  | case1 => rw [frames_nil, rest_nil]; rfl
  | case2 a as hle ih =>
      rw [frames_cons hle, rest_cons hle, List.flatten_cons, List.append_assoc, ih,
        List.cons_append, List.take_append_drop]
  | case3 a as hlt =>
      rw [frames_of_isPart (isPart_of_lt hlt), rest_of_isPart (isPart_of_lt hlt)]
      rfl

/-- There is no other way to cut a sequence into frames and a part of one. -/
theorem frames_flatten {fs : List (List α)} (hfs : ∀ f ∈ fs, IsFrame size f) {part : List α}
    (hpart : IsPart size part) :
    frames size (fs.flatten ++ part) = fs ∧ rest size (fs.flatten ++ part) = part := by
  induction fs with
  | nil => exact ⟨frames_of_isPart hpart, rest_of_isPart hpart⟩
  | cons f fs ih =>
      obtain ⟨hf, hfs⟩ := List.forall_mem_cons.1 hfs
      obtain ⟨hframes, hrest⟩ := ih hfs
      obtain ⟨hcut, hleft⟩ := frames_append_of_isFrame hf (fs.flatten ++ part)
      rw [List.flatten_cons, List.append_assoc, hcut, hleft, hframes, hrest]
      exact ⟨rfl, rfl⟩

/-! ## One more item -/

/-- An item that completes a frame. -/
theorem concat_of_isFrame {as : List α} {a : α} (h : IsFrame size (rest size as ++ [a])) :
    frames size (as ++ [a]) = frames size as ++ [rest size as ++ [a]] ∧
      rest size (as ++ [a]) = [] := by
  obtain ⟨hframes, hrest⟩ := @frames_append α size as [a]
  obtain ⟨hcut, hleft⟩ := frames_append_of_isFrame h []
  rw [List.append_nil, frames_nil] at hcut
  rw [List.append_nil, rest_nil] at hleft
  rw [hframes, hrest, hcut, hleft]
  exact ⟨rfl, rfl⟩

/-- An item that does not. -/
theorem concat_of_isPart {as : List α} {a : α} (h : IsPart size (rest size as ++ [a])) :
    frames size (as ++ [a]) = frames size as ∧ rest size (as ++ [a]) = rest size as ++ [a] := by
  obtain ⟨hframes, hrest⟩ := @frames_append α size as [a]
  rw [hframes, hrest, frames_of_isPart h, rest_of_isPart h, List.append_nil]
  exact ⟨rfl, rfl⟩

end Framing
