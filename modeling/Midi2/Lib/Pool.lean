import Mathlib.Data.List.Forall2
import Midi2.Lib.Machine

/-!
# Pools of machines

A program may have several objects of one type, of which new ones are made as copies of
others. If each is a machine, then so is the pool of them, in which an input is for the object
of some number. One kind of object does what another one does if it does so step by step and
if copies of related objects are related (`pool_simulates`).
-/

universe u

namespace Machine

variable {α β σ τ : Type u}

/-- The inputs of a pool. -/
inductive PoolInput (α : Type u)
  /-- An input for the object of number `i`. -/
  | act (i : Nat) (a : α)
  /-- A new object is made from that of number `i`. -/
  | copy (i : Nat)
  deriving DecidableEq

/-- The objects that there are, by number. An input for a number without an object does
nothing. -/
def pool (m : Machine α β σ) (copy : σ → σ) : Machine (PoolInput α) β (List σ) where
  step ss
    | .act i a =>
        match ss[i]? with
        | some s => (ss.set i (m.step s a).1, (m.step s a).2)
        | none => (ss, [])
    | .copy i =>
        match ss[i]? with
        | some s => (ss ++ [copy s], [])
        | none => (ss, [])

/-- An input that is allowed for the object that it is for. -/
def PoolAllowed (Allowed : σ → α → Prop) (ss : List σ) : PoolInput α → Prop
  | .act i a => ∀ s ∈ ss[i]?, Allowed s a
  | .copy _ => True

instance (Allowed : σ → α → Prop) [∀ s a, Decidable (Allowed s a)] (ss : List σ)
    (x : PoolInput α) : Decidable (PoolAllowed Allowed ss x) :=
  match x with
  | .act i a => inferInstanceAs (Decidable (∀ s ∈ ss[i]?, Allowed s a))
  | .copy _ => inferInstanceAs (Decidable True)

theorem forall₂_getElem? {R : σ → τ → Prop} {ss : List σ} {ts : List τ}
    (h : List.Forall₂ R ss ts) (i : Nat) :
    (ss[i]? = none ∧ ts[i]? = none) ∨ ∃ s t, ss[i]? = some s ∧ ts[i]? = some t ∧ R s t := by
  induction h generalizing i with
  | nil => exact Or.inl ⟨rfl, rfl⟩
  | @cons s t ss ts hst _ ih =>
      cases i with
      | zero => exact Or.inr ⟨s, t, rfl, rfl, hst⟩
      | succ i => exact ih i

theorem forall₂_set {R : σ → τ → Prop} {ss : List σ} {ts : List τ} (h : List.Forall₂ R ss ts)
    (i : Nat) {s : σ} {t : τ} (hst : R s t) : List.Forall₂ R (ss.set i s) (ts.set i t) := by
  induction h generalizing i with
  | nil => exact .nil
  | cons hhead htail ih =>
      cases i with
      | zero => exact .cons hst htail
      | succ i => exact .cons hhead (ih i)

/-- What holds of single objects holds of pools. -/
theorem pool_simulates {m : Machine α β σ} {n : Machine α β τ} {copy : σ → σ} {copy' : τ → τ}
    {R : σ → τ → Prop} {Allowed : σ → α → Prop}
    (hstep : ∀ {s t a}, R s t → Allowed s a →
      R (m.step s a).1 (n.step t a).1 ∧ (m.step s a).2 = (n.step t a).2)
    (hcopy : ∀ {s t}, R s t → R (copy s) (copy' t)) {ss : List σ} {ts : List τ}
    {x : PoolInput α} (hR : List.Forall₂ R ss ts) (hx : PoolAllowed Allowed ss x) :
    List.Forall₂ R ((m.pool copy).step ss x).1 ((n.pool copy').step ts x).1 ∧
    ((m.pool copy).step ss x).2 = ((n.pool copy').step ts x).2 := by
  cases x with
  | act i a =>
      rcases forall₂_getElem? hR i with ⟨hs, ht⟩ | ⟨s, t, hs, ht, hst⟩
      · simp only [pool, hs, ht]
        exact ⟨hR, trivial⟩
      · obtain ⟨hstate, hout⟩ := hstep hst (hx s hs)
        simp only [pool, hs, ht]
        exact ⟨forall₂_set hR i hstate, hout⟩
  | copy i =>
      rcases forall₂_getElem? hR i with ⟨hs, ht⟩ | ⟨s, t, hs, ht, hst⟩
      · simp only [pool, hs, ht]
        exact ⟨hR, trivial⟩
      · simp only [pool, hs, ht]
        exact ⟨List.rel_append hR (.cons (hcopy hst) .nil), trivial⟩

end Machine
