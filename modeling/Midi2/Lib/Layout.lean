import Mathlib.Data.List.OfFn
import Mathlib.Logic.Function.Basic

/-!
# Memory layouts

A memory is a function from addresses to cells. A type has a *layout* when its values are
written as a fixed number of cells and read back from them; `Layout.view` is what a C++
`reinterpret_cast` of a trivially copyable, byte-aligned structure does. Structures get
their layout from the tuple of their members (`Layout.via`), so offsets and sizes are
computed, never restated, and `cast_of_holds` is the only fact a reader of memory needs:
where the cells of a value lie, the value is read.

Nothing here knows about a particular program. `Holds` says which cells a stretch of
memory carries, `blit` is the memory after cells arrive one by one, and `viewList` is the
view of a contiguous array whose length is only known at run time.
-/

universe u v

namespace Layout

variable {β : Type u}

/-- The cells of `mem` from address `off` on are exactly `bs`. -/
def Holds (mem : Nat → β) : Nat → List β → Prop
  | _, [] => True
  | off, b :: bs => mem off = b ∧ Holds mem (off + 1) bs

@[simp] theorem holds_nil {mem : Nat → β} {off : Nat} : Holds mem off [] := trivial

@[simp] theorem holds_cons {mem : Nat → β} {off : Nat} {b : β} {bs : List β} :
    Holds mem off (b :: bs) ↔ mem off = b ∧ Holds mem (off + 1) bs := Iff.rfl

theorem holds_append {mem : Nat → β} :
    ∀ {bs cs : List β} {off : Nat},
      Holds mem off (bs ++ cs) ↔ Holds mem off bs ∧ Holds mem (off + bs.length) cs
  | [], _, _ => by simp
  | b :: bs, cs, off => by
      rw [List.cons_append, holds_cons, holds_cons, holds_append, and_assoc,
        List.length_cons, Nat.add_assoc, Nat.add_comm 1]

theorem Holds.getD {mem : Nat → β} (b : β) :
    ∀ {bs : List β} {off i : Nat}, Holds mem off bs → i < bs.length →
      mem (off + i) = bs.getD i b
  | [], _, _, _, hi => absurd hi (Nat.not_lt_zero _)
  | _ :: _, _, 0, ⟨hb, _⟩, _ => hb
  | _ :: bs, off, i + 1, ⟨_, hbs⟩, hi => by
      rw [List.getD_cons_succ, ← hbs.getD b (Nat.lt_of_succ_lt_succ hi), Nat.add_assoc,
        Nat.add_comm 1]

theorem holds_of_getD {mem : Nat → β} (b : β) :
    ∀ {bs : List β} {off : Nat}, (∀ i < bs.length, mem (off + i) = bs.getD i b) →
      Holds mem off bs
  | [], _, _ => trivial
  | c :: bs, off, h => by
      refine ⟨h 0 (Nat.succ_pos _), holds_of_getD b fun i hi => ?_⟩
      have hi' := h (i + 1) (Nat.succ_lt_succ hi)
      rwa [List.getD_cons_succ, Nat.add_comm i, ← Nat.add_assoc] at hi'

/-- `Holds` only looks at the cells it covers. -/
theorem Holds.congr {mem mem' : Nat → β} :
    ∀ {bs : List β} {off : Nat}, Holds mem off bs →
      (∀ i, off ≤ i → i < off + bs.length → mem' i = mem i) → Holds mem' off bs
  | [], _, _, _ => trivial
  | b :: bs, off, ⟨hb, hbs⟩, hsame => by
      simp only [List.length_cons] at hsame
      refine ⟨(hsame off (Nat.le_refl _) (by omega)).trans hb, hbs.congr fun i hi hlt => ?_⟩
      exact hsame i (by omega) (by omega)

theorem Holds.shift {mem : Nat → β} {off : Nat} :
    ∀ {bs : List β} {k : Nat}, Holds mem (off + k) bs → Holds (fun i => mem (off + i)) k bs
  | [], _, _ => trivial
  | _ :: bs, k, ⟨hb, hbs⟩ => ⟨hb, @Holds.shift _ _ bs (k + 1) hbs⟩

/-- The memory after the cells `bs` have been stored one after the other from `off` on. -/
def blit (mem : Nat → β) : Nat → List β → Nat → β
  | _, [] => mem
  | off, b :: bs => blit (Function.update mem off b) (off + 1) bs

@[simp] theorem blit_nil (mem : Nat → β) (off : Nat) : blit mem off [] = mem := rfl

@[simp] theorem blit_cons (mem : Nat → β) (off : Nat) (b : β) (bs : List β) :
    blit mem off (b :: bs) = blit (Function.update mem off b) (off + 1) bs := rfl

theorem blit_append : ∀ (mem : Nat → β) (off : Nat) (bs cs : List β),
    blit mem off (bs ++ cs) = blit (blit mem off bs) (off + bs.length) cs
  | _, _, [], _ => rfl
  | mem, off, b :: bs, cs => by
      rw [List.cons_append, blit_cons, blit_cons, blit_append, List.length_cons,
        Nat.add_assoc, Nat.add_comm 1]

/-- Cells below the stretch that is written keep their content. -/
theorem blit_of_lt : ∀ {bs : List β} {mem : Nat → β} {off i : Nat},
    i < off → blit mem off bs i = mem i
  | [], _, _, _, _ => rfl
  | b :: bs, mem, off, i, hi => by
      rw [blit_cons, blit_of_lt (Nat.lt_succ_of_lt hi), Function.update_of_ne (Nat.ne_of_lt hi)]

/-- Cells above the stretch that is written keep their content. -/
theorem blit_of_ge : ∀ {bs : List β} {mem : Nat → β} {off i : Nat},
    off + bs.length ≤ i → blit mem off bs i = mem i
  | [], _, _, _, _ => rfl
  | b :: bs, mem, off, i, hi => by
      rw [List.length_cons] at hi
      rw [blit_cons, blit_of_ge (by omega), Function.update_of_ne (by omega)]

theorem holds_blit : ∀ {bs : List β} {mem : Nat → β} {off : Nat}, Holds (blit mem off bs) off bs
  | [], _, _ => trivial
  | b :: bs, mem, off => by
      rw [blit_cons]
      refine ⟨?_, holds_blit⟩
      rw [blit_of_lt (Nat.lt_succ_self off), Function.update_self]

/-- What memory held below `off` it still holds after cells were stored from `off` on. -/
theorem Holds.blit {mem : Nat → β} {bs cs : List β} {a off : Nat} (h : Holds mem a bs)
    (hoff : a + bs.length ≤ off) : Holds (blit mem off cs) a bs :=
  h.congr fun _ _ hi => blit_of_lt (by omega)

/-- Storing `cs` right behind `bs` makes memory hold both. -/
theorem Holds.append_blit {mem : Nat → β} {bs cs : List β} {a : Nat} (h : Holds mem a bs) :
    Holds (Layout.blit mem (a + bs.length) cs) a (bs ++ cs) :=
  holds_append.2 ⟨h.blit (Nat.le_refl _), holds_blit⟩

end Layout

/-- Values of `α` occupy `size` cells of type `β`: `bytes` writes them, `view` reads the
value whose first cell is at address zero. -/
class Layout (β : outParam (Type u)) (α : Type v) where
  size : Nat
  bytes : α → List β
  view : (Nat → β) → α
  length_bytes : ∀ a, (bytes a).length = size
  view_congr : ∀ {mem mem' : Nat → β}, (∀ i < size, mem i = mem' i) → view mem = view mem'
  view_of_holds : ∀ {mem : Nat → β} {a : α}, Layout.Holds mem 0 (bytes a) → view mem = a

namespace Layout

variable {β : Type u} {α : Type v}

attribute [simp] length_bytes

/-- The value of type `α` whose first cell is at address `off`. -/
def cast (α : Type v) [Layout β α] (mem : Nat → β) (off : Nat) : α :=
  view fun i => mem (off + i)

theorem cast_of_holds [Layout β α] {mem : Nat → β} {off : Nat} {a : α}
    (h : Holds mem off (bytes a)) : cast α mem off = a :=
  view_of_holds (Holds.shift (k := 0) h)

/-- A value only depends on the cells it occupies. -/
theorem cast_congr [Layout β α] {mem mem' : Nat → β} {off : Nat}
    (h : ∀ i, off ≤ i → i < off + size α → mem i = mem' i) :
    cast α mem off = cast α mem' off :=
  view_congr fun i hi => h (off + i) (by omega) (by omega)

/-- A value is not touched by what is stored behind it. -/
theorem cast_blit [Layout β α] {mem : Nat → β} {off p : Nat} {bs : List β}
    (h : off + size α ≤ p) : cast α (blit mem p bs) off = cast α mem off :=
  cast_congr fun _ _ hi => blit_of_lt (by omega)

/-- A single cell. -/
@[reducible] def cell : Layout β β where
  size := 1
  bytes b := [b]
  view mem := mem 0
  length_bytes _ := rfl
  view_congr h := h 0 (Nat.lt_succ_self 0)
  view_of_holds h := h.1

/-- Two members one after the other, without padding. -/
instance prod {γ : Type v} [Layout β α] [Layout β γ] : Layout β (α × γ) where
  size := size α + size γ
  bytes p := bytes p.1 ++ bytes p.2
  view mem := (cast α mem 0, cast γ mem (size α))
  length_bytes p := by simp
  view_congr {mem mem'} h := by
    have h₁ : cast α mem 0 = cast α mem' 0 := cast_congr fun i _ hi => h i (by omega)
    have h₂ : cast γ mem (size α) = cast γ mem' (size α) := cast_congr fun i _ hi => h i hi
    rw [h₁, h₂]
  view_of_holds {mem p} h := by
    obtain ⟨h₁, h₂⟩ := holds_append.1 h
    rw [length_bytes, Nat.zero_add] at h₂
    rw [cast_of_holds h₁, cast_of_holds h₂]

/-- A structure laid out like the tuple of its members. -/
@[reducible] def via {γ : Type v} [Layout β γ] (members : α → γ) (build : γ → α)
    (h : ∀ a, build (members a) = a) : Layout β α where
  size := size γ
  bytes a := bytes (members a)
  view mem := build (view mem)
  length_bytes a := length_bytes (members a)
  view_congr h := by rw [view_congr h]
  view_of_holds {mem a} hm := by rw [view_of_holds hm, h]

/-! ## Arrays -/

/-- The cells of a contiguous array. -/
def bytesList [Layout β α] (as : List α) : List β :=
  as.flatMap bytes

/-- The array of `n` values whose first element is at address `off`. -/
def viewList (α : Type v) [Layout β α] (mem : Nat → β) (off : Nat) : Nat → List α
  | 0 => []
  | n + 1 => cast α mem off :: viewList α mem (off + size α) n

@[simp] theorem bytesList_nil [Layout β α] : bytesList ([] : List α) = [] := rfl

@[simp] theorem bytesList_cons [Layout β α] (a : α) (as : List α) :
    bytesList (a :: as) = bytes a ++ bytesList as := rfl

@[simp] theorem length_bytesList [Layout β α] :
    ∀ as : List α, (bytesList as).length = size α * as.length
  | [] => by simp
  | a :: as => by
      rw [bytesList_cons, List.length_append, length_bytes, length_bytesList as,
        List.length_cons, Nat.mul_succ, Nat.add_comm]

theorem viewList_of_holds [Layout β α] {mem : Nat → β} :
    ∀ {as : List α} {off : Nat}, Holds mem off (bytesList as) →
      viewList α mem off as.length = as
  | [], _, _ => rfl
  | a :: as, off, h => by
      obtain ⟨ha, has⟩ := holds_append.1 h
      rw [length_bytes] at has
      rw [List.length_cons, viewList, cast_of_holds ha, viewList_of_holds has]

theorem holds_bytesList_ofFn [Layout β α] {mem : Nat → β} :
    ∀ {n : Nat} {f : Fin n → α} {off : Nat}, Holds mem off (bytesList (List.ofFn f)) →
      ∀ i : Fin n, Holds mem (off + i * size α) (bytes (f i))
  | 0, _, _, _, i => i.elim0
  | n + 1, f, off, h, i => by
      rw [List.ofFn_succ, bytesList_cons, holds_append, length_bytes] at h
      cases i using Fin.cases with
      | zero => simpa using h.1
      | succ i =>
          have hi := holds_bytesList_ofFn h.2 i
          rwa [Nat.add_assoc, Nat.add_comm (size α), ← Nat.succ_mul] at hi

/-- An array of fixed length, as a member of a structure. -/
instance array {n : Nat} [Layout β α] : Layout β (Fin n → α) where
  size := size α * n
  bytes f := bytesList (List.ofFn f)
  view mem i := cast α mem (i * size α)
  length_bytes f := by simp
  view_congr {mem mem'} h := by
    funext i
    refine cast_congr fun j _ hj => h j (lt_of_lt_of_le hj ?_)
    rw [← Nat.succ_mul, Nat.mul_comm]
    exact Nat.mul_le_mul_left _ i.isLt
  view_of_holds {mem f} h := by
    funext i
    have hi := holds_bytesList_ofFn h i
    rw [Nat.zero_add] at hi
    exact cast_of_holds hi

@[simp] theorem size_array {n : Nat} [Layout β α] : size (Fin n → α) = size α * n := rfl

end Layout
