import Midi2.Lib.Machine

/-!
# Sessions

A machine that can be restarted, in one or several ways, is used for a session: inputs and
restarts, in any order. The restarts cut a session into `segments`. If nothing that a restart
leaves behind shows later on (`Forgets`), then the outputs of a session are those of its segments,
each as it comes out of a machine that is new (`Forgets.run_segments`).
-/

universe u

namespace Machine

variable {α β κ σ : Type u}

/-- Inputs, and restarts of the kinds `κ`, which put out nothing. -/
def restartable (m : Machine α β σ) (restart : κ → σ → σ) : Machine (α ⊕ κ) β σ where
  step s
    | .inl a => m.step s a
    | .inr k => (restart k s, [])

/-- The inputs before the first restart, and each restart with the inputs after it. -/
def segments : List (α ⊕ κ) → List α × List (κ × List α)
  | [] => ([], [])
  | .inl a :: xs => (a :: (segments xs).1, (segments xs).2)
  | .inr k :: xs => ([], (k, (segments xs).1) :: (segments xs).2)

theorem mem_of_mem_segments {xs : List (α ⊕ κ)} {x : κ × List α} (h : x ∈ (segments xs).2) :
    Sum.inr x.1 ∈ xs := by
  induction xs with
  | nil => exact absurd h List.not_mem_nil
  | cons y xs ih =>
      cases y with
      | inl a => exact List.mem_cons_of_mem _ (ih h)
      | inr k =>
          rcases List.mem_cons.1 h with rfl | h
          · exact List.mem_cons_self
          · exact List.mem_cons_of_mem _ (ih h)

/-- In the states `Inv` that can be reached, a restart is followed by the same outputs as in a
new state, `fresh`. -/
structure Forgets (m : Machine α β σ) (restart : κ → σ → σ) (fresh : κ → σ) (Inv : σ → Prop) :
    Prop where
  step : ∀ {s} a, Inv s → Inv (m.step s a).1
  restarted : ∀ k {s}, Inv s → Inv (restart k s)
  same : ∀ k {s}, Inv s → ∀ as, (m.run (restart k s) as).2 = (m.run (fresh k) as).2

/-- The outputs of a session are those of its segments. -/
theorem Forgets.run_segments {m : Machine α β σ} {restart : κ → σ → σ} {fresh : κ → σ}
    {Inv : σ → Prop} (h : m.Forgets restart fresh Inv) {s : σ} (hs : Inv s)
    (xs : List (α ⊕ κ)) :
    ((m.restartable restart).run s xs).2 =
      (m.run s (segments xs).1).2 ++
        (segments xs).2.flatMap fun x => (m.run (fresh x.1) x.2).2 := by
  induction xs generalizing s with
  | nil => rfl
  | cons x xs ih =>
      rw [run_cons]
      cases x with
      | inl a =>
          have hrest := ih (h.step a hs)
          show (m.step s a).2 ++ ((m.restartable restart).run (m.step s a).1 xs).2 = _
          rw [hrest, ← List.append_assoc]
          rfl
      | inr k =>
          have hrest := ih (h.restarted k hs)
          show ((m.restartable restart).run (restart k s) xs).2 = _
          rw [hrest, h.same k hs, segments, List.flatMap_cons]
          rfl

end Machine
