import Mathlib.Logic.Function.Basic
import Midi2.Lib.Machine

/-!
# Raw storage

A slot of raw storage has an object or none. Objects are constructed where there is none; only
where there is one can it be used, assigned to or destroyed. `applyAll` is what a sequence of such
touches does to the storage, and there is no result if one of them is not allowed.

If a sequence of touches leaves empty storage empty, then each slot has seen objects one after the
other, each constructed, used and destroyed (`lives_of_applyAll`).
-/

universe u v w

/-- What is done to a slot. -/
inductive Touch (κ : Type u) (α : Type v)
  | construct (slot : κ) (x : α)
  | use (slot : κ)
  | assign (slot : κ) (x : α)
  | destroy (slot : κ)

namespace Touch

variable {κ : Type u} {α : Type v} {ι : Type w}

def slot : Touch κ α → κ
  | construct slot _ | use slot | assign slot _ | destroy slot => slot

/-- The same, for a part of some larger storage. -/
def within (i : ι) : Touch κ α → Touch (ι × κ) α
  | construct slot x => construct (i, slot) x
  | use slot => use (i, slot)
  | assign slot x => assign (i, slot) x
  | destroy slot => destroy (i, slot)

/-- Whether there has to be an object in the slot. -/
def onObject : Touch κ α → Bool
  | construct .. => false
  | use _ | assign .. | destroy _ => true

/-- What is in the slot afterwards. -/
def after (x : Option α) : Touch κ α → Option α
  | construct _ y | assign _ y => some y
  | use _ => x
  | destroy _ => none

@[simp] theorem slot_within (i : ι) (t : Touch κ α) : (t.within i).slot = (i, t.slot) := by
  cases t <;> rfl

@[simp] theorem onObject_within (i : ι) (t : Touch κ α) : (t.within i).onObject = t.onObject := by
  cases t <;> rfl

@[simp] theorem after_within (i : ι) (t : Touch κ α) (x : Option α) :
    (t.within i).after x = t.after x := by
  cases t <;> rfl

variable [DecidableEq κ] [DecidableEq ι]

def apply (h : κ → Option α) (t : Touch κ α) : Option (κ → Option α) :=
  if (h t.slot).isSome = t.onObject then some (Function.update h t.slot (t.after (h t.slot)))
  else none

theorem apply_eq_some {h h' : κ → Option α} {t : Touch κ α} : apply h t = some h' ↔
    (h t.slot).isSome = t.onObject ∧ Function.update h t.slot (t.after (h t.slot)) = h' := by
  rw [apply]
  split
  case isTrue hobject => rw [Option.some_inj, and_iff_right hobject]
  case isFalse hobject => exact iff_of_false (fun hnone => by cases hnone) fun h => hobject h.1

/-- One touch after the other. -/
def applyAll (h : κ → Option α) (ts : List (Touch κ α)) : Option (κ → Option α) :=
  ts.foldlM apply h

@[simp] theorem applyAll_nil (h : κ → Option α) : applyAll h [] = some h := rfl

theorem applyAll_cons (h : κ → Option α) (t : Touch κ α) (ts : List (Touch κ α)) :
    applyAll h (t :: ts) = (apply h t).bind fun h => applyAll h ts :=
  List.foldlM_cons

@[simp] theorem applyAll_singleton (h : κ → Option α) (t : Touch κ α) :
    applyAll h [t] = apply h t := by
  rw [applyAll_cons]
  exact Option.bind_fun_some _

theorem apply_use {h : κ → Option α} {slot : κ} (hslot : (h slot).isSome = true) :
    apply h (.use slot) = some h :=
  apply_eq_some.2 ⟨hslot, Function.update_eq_self slot h⟩

theorem applyAll_append (h : κ → Option α) (ts ts' : List (Touch κ α)) :
    applyAll h (ts ++ ts') = (applyAll h ts).bind fun h => applyAll h ts' :=
  List.foldlM_append

theorem applyAll_append_of_eq {h h' : κ → Option α} {ts : List (Touch κ α)}
    (hts : applyAll h ts = some h') (ts' : List (Touch κ α)) :
    applyAll h (ts ++ ts') = applyAll h' ts' := by
  rw [applyAll_append, hts, Option.bind_some]

/-! ## Storage of several parts -/

/-- Storage that has a part for each index. -/
def parts (h : ι → κ → Option α) (slot : ι × κ) : Option α :=
  h slot.1 slot.2

theorem update_parts (h : ι → κ → Option α) (i : ι) (slot : κ) (x : Option α) :
    Function.update (parts h) (i, slot) x =
      parts (Function.update h i (Function.update (h i) slot x)) := by
  funext ⟨j, slot'⟩
  by_cases hj : j = i
  · subst hj
    by_cases hslot : slot' = slot
    · subst hslot
      rw [Function.update_self, parts, Function.update_self, Function.update_self]
    · rw [Function.update_of_ne fun heq => hslot (congrArg Prod.snd heq), parts, parts,
        Function.update_self, Function.update_of_ne hslot]
  · rw [Function.update_of_ne fun heq => hj (congrArg Prod.fst heq), parts, parts,
      Function.update_of_ne hj]

theorem apply_within {h : ι → κ → Option α} {i : ι} {t : Touch κ α} {part : κ → Option α}
    (ht : apply (h i) t = some part) :
    apply (parts h) (t.within i) = some (parts (Function.update h i part)) := by
  obtain ⟨hobject, rfl⟩ := apply_eq_some.1 ht
  rw [apply_eq_some, slot_within, onObject_within, after_within]
  exact ⟨hobject, update_parts h i t.slot _⟩

/-- Touches of one part change that part. -/
theorem applyAll_within (i : ι) {part : κ → Option α} {ts : List (Touch κ α)}
    (h : ι → κ → Option α) (hts : applyAll (h i) ts = some part) :
    applyAll (parts h) (ts.map (within i)) = some (parts (Function.update h i part)) := by
  induction ts generalizing h with
  | nil =>
      obtain rfl := Option.some.inj hts
      rw [Function.update_eq_self]
      rfl
  | cons t ts ih =>
      rw [applyAll_cons] at hts
      obtain ⟨part', ht, hrest⟩ := Option.bind_eq_some_iff.1 hts
      have hupdated : applyAll (Function.update h i part' i) ts = some part := by
        rwa [Function.update_self]
      rw [List.map_cons, applyAll_cons, apply_within ht, Option.bind_some, ih _ hupdated,
        Function.update_idem]

/-- Touches of the first `n` parts, one part after the other. -/
theorem applyAll_range {h part : Nat → κ → Option α} {ts : Nat → List (Touch κ α)} {n : Nat}
    (hts : ∀ i < n, applyAll (h i) (ts i) = some (part i)) :
    applyAll (parts h) ((List.range n).flatMap fun i => (ts i).map (within i)) =
      some (parts fun i => if i < n then part i else h i) := by
  induction n with
  | zero => rfl
  | succ n ih =>
      have hpart : applyAll (if n < n then part n else h n) (ts n) = some (part n) := by
        rw [if_neg (Nat.lt_irrefl n)]
        exact hts n n.lt_succ_self
      have hlast := @applyAll_within κ α Nat _ _ n (part n) (ts n)
        (fun i => if i < n then part i else h i) hpart
      rw [List.range_succ, List.flatMap_append, List.flatMap_singleton,
        applyAll_append_of_eq (ih fun i hi => hts i (Nat.lt_succ_of_lt hi)), hlast]
      refine congrArg (fun h => some (parts h)) (funext fun i => ?_)
      rw [Function.update_apply]
      split
      case isTrue hi => rw [hi, if_pos n.lt_succ_self]
      case isFalse hi =>
        have hiff : i < n ↔ i < n + 1 :=
          ⟨Nat.lt_succ_of_lt, fun hlt => Nat.lt_of_le_of_ne (Nat.le_of_lt_succ hlt) hi⟩
        exact if_congr hiff rfl rfl

/-! ## Lives -/

/-- What happens to a slot until it is left empty, where there is an object now or not. -/
inductive Lives (slot : κ) : Bool → List (Touch κ α) → Prop
  | nil : Lives slot false []
  | construct {ts : List (Touch κ α)} (x : α) (h : Lives slot true ts) :
      Lives slot false (.construct slot x :: ts)
  | use {ts : List (Touch κ α)} (h : Lives slot true ts) : Lives slot true (.use slot :: ts)
  | assign {ts : List (Touch κ α)} (x : α) (h : Lives slot true ts) :
      Lives slot true (.assign slot x :: ts)
  | destroy {ts : List (Touch κ α)} (h : Lives slot false ts) :
      Lives slot true (.destroy slot :: ts)

theorem lives_of_applyAll {h h' : κ → Option α} {ts : List (Touch κ α)}
    (hts : applyAll h ts = some h') {slot : κ} (hslot : h' slot = none) :
    Lives slot (h slot).isSome (ts.filter fun t => t.slot = slot) := by
  induction ts generalizing h with
  | nil =>
      obtain rfl := Option.some.inj hts
      rw [hslot]
      exact .nil
  | cons t ts ih =>
      rw [applyAll_cons] at hts
      obtain ⟨h₁, ht, hrest⟩ := Option.bind_eq_some_iff.1 hts
      have hlives := ih hrest
      obtain ⟨hobject, rfl⟩ := apply_eq_some.1 ht
      by_cases heq : t.slot = slot
      · have hfilter : (t :: ts).filter (fun t => t.slot = slot) =
            t :: ts.filter fun t => t.slot = slot :=
          List.filter_cons_of_pos (decide_eq_true heq)
        rw [hfilter]
        subst heq
        rw [Function.update_self] at hlives
        rw [hobject]
        cases t with
        | construct slot x => exact .construct x hlives
        | assign slot x => exact .assign x hlives
        | destroy slot => exact .destroy hlives
        | use slot =>
            have hlive : (h slot).isSome = true := hobject
            rw [after, Touch.slot, hlive] at hlives
            exact .use hlives
      · rw [List.filter_cons_of_neg (by simpa using heq)]
        rwa [Function.update_of_ne (Ne.symm heq)] at hlives

end Touch
