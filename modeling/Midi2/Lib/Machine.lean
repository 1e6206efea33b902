import Mathlib.Data.List.Basic
import Mathlib.Data.List.Induction

/-!
# Transducers and refinement by blocks

A `Machine` reads one input at a time, changes its state and puts out a list, possibly
empty, of outputs. A protocol that is framed has two views of such a machine: as the code
runs it, input by input, and as its specification reads, message by message. `Refines` says
that the first does in each block of inputs what the second does in one step; `Refines.run`
carries that over to runs, together with the relation between the two states. `andThen` feeds
the outputs of one machine to another.

`Unwinds` is the condition under which the inputs of one party have no effect on the outputs
of another. `AtEachStep` speaks of the steps of a run, each with the inputs before it, and
`Since` of what has been the case since a certain one of them. Of two observers, one of the
outputs and one of the inputs, `agree_iff` says when they never disagree. A machine that
`Projects` has a normal form: what it has put out it does not change again. One that `Lags` has
a normal form unless its second pass falls behind for good.
-/

universe u

/-- A transducer: inputs `α`, outputs `β`, states `σ`. -/
structure Machine (α β σ : Type u) where
  step : σ → α → σ × List β

namespace Machine

variable {α β σ : Type u}

/-- The state after a sequence of inputs, and everything that has been put out. -/
def run (m : Machine α β σ) : σ → List α → σ × List β
  | s, [] => (s, [])
  | s, a :: as => ((m.run (m.step s a).1 as).1, (m.step s a).2 ++ (m.run (m.step s a).1 as).2)

@[simp] theorem run_nil (m : Machine α β σ) (s : σ) : m.run s [] = (s, []) := rfl

theorem run_cons (m : Machine α β σ) (s : σ) (a : α) (as : List α) :
    m.run s (a :: as) =
      ((m.run (m.step s a).1 as).1, (m.step s a).2 ++ (m.run (m.step s a).1 as).2) := rfl

@[simp] theorem run_singleton (m : Machine α β σ) (s : σ) (a : α) :
    m.run s [a] = m.step s a := by
  rw [run_cons, run_nil, List.append_nil]

theorem run_append (m : Machine α β σ) (s : σ) (as bs : List α) :
    m.run s (as ++ bs) =
      ((m.run (m.run s as).1 bs).1, (m.run s as).2 ++ (m.run (m.run s as).1 bs).2) := by
  induction as generalizing s with
  | nil => rfl
  | cons a as ih => rw [List.cons_append, run_cons, ih, run_cons, List.append_assoc]

/-- One step of `n` is a block of steps of `m`: inputs are encoded by `enc`, outputs by
`dec`, and `R` relates the states in between. -/
structure Refines {γ δ τ : Type u} (m : Machine α β σ) (n : Machine γ δ τ) (enc : γ → List α)
    (dec : δ → List β) (R : σ → τ → Prop) : Prop where
  state : ∀ {s t} c, R s t → R (m.run s (enc c)).1 (n.step t c).1
  output : ∀ {s t} c, R s t → (m.run s (enc c)).2 = (n.step t c).2.flatMap dec

variable {γ δ τ : Type u}

/-- A machine that refines another step by step refines it in every run. -/
theorem Refines.run {m : Machine α β σ} {n : Machine γ δ τ} {enc : γ → List α}
    {dec : δ → List β} {R : σ → τ → Prop} (h : m.Refines n enc dec R) {s : σ} {t : τ}
    (cs : List γ) (hR : R s t) :
    R (m.run s (cs.flatMap enc)).1 (n.run t cs).1 ∧
    (m.run s (cs.flatMap enc)).2 = (n.run t cs).2.flatMap dec := by
  induction cs generalizing s t with
  | nil => exact ⟨hR, rfl⟩
  | cons c cs ih =>
      obtain ⟨hstate, houtput⟩ := ih (h.state c hR)
      rw [List.flatMap_cons, run_append, run_cons, List.flatMap_append]
      exact ⟨hstate, congrArg₂ (· ++ ·) (h.output c hR) houtput⟩

/-- Machines that do the same with inputs that are related do the same with sequences of them. -/
theorem run_forall₂ {m : Machine α β σ} {n : Machine γ β τ} {A : α → γ → Prop} {R : σ → τ → Prop}
    (hstep : ∀ {s t a c}, R s t → A a c →
      R (m.step s a).1 (n.step t c).1 ∧ (m.step s a).2 = (n.step t c).2)
    {as : List α} {cs : List γ} (h : List.Forall₂ A as cs) {s : σ} {t : τ} (hR : R s t) :
    R (m.run s as).1 (n.run t cs).1 ∧ (m.run s as).2 = (n.run t cs).2 := by
  induction h generalizing s t with
  | nil => exact ⟨hR, rfl⟩
  | cons hac _ ih =>
      obtain ⟨hstate, hout⟩ := hstep hR hac
      obtain ⟨hstate', hout'⟩ := ih hstate
      rw [run_cons, run_cons]
      exact ⟨hstate', congrArg₂ (· ++ ·) hout hout'⟩

/-! ## Blocks -/

/-- The machine that reads a block of inputs at a time. -/
def blocks (m : Machine α β σ) (enc : γ → List α) : Machine γ β σ where
  step s c := m.run s (enc c)

theorem run_blocks (m : Machine α β σ) (enc : γ → List α) (s : σ) (cs : List γ) :
    (m.blocks enc).run s cs = m.run s (cs.flatMap enc) := by
  induction cs generalizing s with
  | nil => rfl
  | cons c cs ih =>
      rw [run_cons, ih, List.flatMap_cons, run_append]
      rfl

/-! ## Composition -/

/-- The outputs of `m` are the inputs of `n`. -/
def andThen (m : Machine α β σ) (n : Machine β γ τ) : Machine α γ (σ × τ) where
  step s a := (((m.step s.1 a).1, (n.run s.2 (m.step s.1 a).2).1), (n.run s.2 (m.step s.1 a).2).2)

theorem run_andThen (m : Machine α β σ) (n : Machine β γ τ) (s : σ) (t : τ) (as : List α) :
    (m.andThen n).run (s, t) as =
      (((m.run s as).1, (n.run t (m.run s as).2).1), (n.run t (m.run s as).2).2) := by
  induction as generalizing s t with
  | nil => rfl
  | cons a as ih =>
      have hstep : (m.andThen n).step (s, t) a =
          (((m.step s a).1, (n.run t (m.step s a).2).1), (n.run t (m.step s a).2).2) := rfl
      rw [run_cons, run_cons, run_append, hstep, ih]

/-- If each step keeps an invariant and has the output that `f` says, then so does a run. -/
theorem run_eq_flatMap {m : Machine α β σ} {Inv : σ → Prop} {as : List α} {f : α → List β}
    (hstep : ∀ a ∈ as, ∀ s, Inv s → Inv (m.step s a).1 ∧ (m.step s a).2 = f a) {s : σ}
    (hs : Inv s) : Inv (m.run s as).1 ∧ (m.run s as).2 = as.flatMap f := by
  induction as generalizing s with
  | nil => exact ⟨hs, rfl⟩
  | cons a as ih =>
      obtain ⟨hinv, hout⟩ := hstep a List.mem_cons_self s hs
      obtain ⟨hinv', hout'⟩ := ih (fun b hb => hstep b (List.mem_cons_of_mem a hb)) hinv
      rw [run_cons, List.flatMap_cons]
      exact ⟨hinv', congrArg₂ (· ++ ·) hout hout'⟩

/-- If each step has the outputs of a kind that `f` says, then so does a run. -/
theorem filter_run {m : Machine α β σ} {P : β → Bool} {f : α → List β}
    (hstep : ∀ s a, (m.step s a).2.filter P = f a) (s : σ) (as : List α) :
    (m.run s as).2.filter P = as.flatMap f := by
  induction as generalizing s with
  | nil => rfl
  | cons a as ih => rw [run_cons, List.filter_append, hstep, ih, List.flatMap_cons]

/-- If it depends on the input alone whether all outputs of a step have a property, then it
does so for the outputs of a run. -/
theorem forall_output_iff {m : Machine α β σ} {P : β → Prop} {Good : α → Prop}
    (hstep : ∀ s a, (∀ b ∈ (m.step s a).2, P b) ↔ Good a) (s : σ) (as : List α) :
    (∀ b ∈ (m.run s as).2, P b) ↔ ∀ a ∈ as, Good a := by
  induction as generalizing s with
  | nil => exact iff_of_true (List.forall_mem_nil _) (List.forall_mem_nil _)
  | cons a as ih => rw [run_cons, List.forall_mem_append, List.forall_mem_cons, hstep, ih]

/-- Inputs that a machine ignores can be left out. -/
theorem run_filter {m : Machine α β σ} {P : α → Prop} [DecidablePred P]
    (hstep : ∀ s a, ¬P a → m.step s a = (s, [])) (s : σ) (as : List α) :
    m.run s (as.filter fun a => P a) = m.run s as := by
  induction as generalizing s with
  | nil => rfl
  | cons a as ih =>
      by_cases ha : P a
      · have hkeep : (a :: as).filter (fun a => P a) = a :: as.filter fun a => P a :=
          List.filter_cons_of_pos (decide_eq_true ha)
        rw [hkeep, run_cons, run_cons, ih]
      · have hdrop : (a :: as).filter (fun a => P a) = as.filter fun a => P a :=
          List.filter_cons_of_neg fun h => ha (of_decide_eq_true h)
        rw [hdrop, run_cons, hstep s a ha, ih, List.nil_append]

/-! ## Noninterference -/

/-- The inputs `A` are those that belong to the outputs `B`. States that are related make the
same of an input in `A`, and an input not in `A` has no effect on what the relation sees. -/
structure Unwinds (m : Machine α β σ) (A : α → Prop) (B : β → Prop) (E : σ → σ → Prop) : Prop where
  output : ∀ {s s'} a, E s s' → A a → (m.step s a).2 = (m.step s' a).2
  visible : ∀ s a, A a → ∀ b ∈ (m.step s a).2, B b
  state : ∀ {s s'} a, E s s' → A a → E (m.step s a).1 (m.step s' a).1
  hidden : ∀ s a, ¬A a → ∀ b ∈ (m.step s a).2, ¬B b
  silent : ∀ {s s'} a, E s s' → ¬A a → E (m.step s a).1 s'

/-- What a run puts out for `B` is what comes of its inputs in `A`. -/
theorem Unwinds.run {m : Machine α β σ} {A : α → Prop} {B : β → Prop} {E : σ → σ → Prop}
    [DecidablePred A] [DecidablePred B] (h : m.Unwinds A B E) {s s' : σ} (hE : E s s')
    (as : List α) :
    (m.run s as).2.filter (fun b => B b) = (m.run s' (as.filter fun a => A a)).2 := by
  induction as generalizing s s' with
  | nil => rfl
  | cons a as ih =>
      rw [run_cons, List.filter_append]
      by_cases ha : A a
      · have hkeep : (a :: as).filter (fun a => A a) = a :: as.filter fun a => A a :=
          List.filter_cons_of_pos (decide_eq_true ha)
        have hall : (m.step s a).2.filter (fun b => B b) = (m.step s a).2 :=
          List.filter_eq_self.2 fun b hb => decide_eq_true (h.visible s a ha b hb)
        rw [hkeep, run_cons, hall, ih (h.state a hE ha), h.output a hE ha]
      · have hdrop : (a :: as).filter (fun a => A a) = as.filter fun a => A a :=
          List.filter_cons_of_neg fun h => ha (of_decide_eq_true h)
        have hnone : (m.step s a).2.filter (fun b => B b) = [] :=
          List.filter_eq_nil_iff.2 fun b hb => by simp [h.hidden s a ha b hb]
        rw [hdrop, hnone, List.nil_append, ih (h.silent a hE ha)]

/-! ## The steps of a run -/

/-- Each input of a sequence has the property, which may depend on the inputs before it. -/
def AtEachStep (P : List α → α → Prop) (as : List α) : Prop :=
  ∀ pre a, pre ++ [a] <+: as → P pre a

theorem atEachStep_nil (P : List α → α → Prop) : AtEachStep P [] := by
  intro pre a h
  have := h.length_le
  simp at this

theorem atEachStep_cons {P : List α → α → Prop} {a : α} {as : List α} :
    AtEachStep P (a :: as) ↔ P [] a ∧ AtEachStep (fun pre => P (a :: pre)) as := by
  constructor
  · intro h
    refine ⟨h [] a ((List.prefix_cons_inj a).2 List.nil_prefix), ?_⟩
    intro pre b hpre
    exact h (a :: pre) b ((List.prefix_cons_inj a).2 hpre)
  · rintro ⟨hhead, htail⟩ pre b hpre
    cases pre with
    | nil =>
        obtain rfl : b = a := (List.cons_prefix_cons.1 hpre).1
        exact hhead
    | cons c pre =>
        obtain ⟨rfl, hpre'⟩ := List.cons_prefix_cons.1 hpre
        exact htail pre b hpre'

instance decidableAtEachStep (P : List α → α → Prop) [∀ pre a, Decidable (P pre a)] :
    (as : List α) → Decidable (AtEachStep P as)
  | [] => isTrue (atEachStep_nil P)
  | a :: as =>
      have := decidableAtEachStep (fun pre => P (a :: pre)) as
      decidable_of_iff (P [] a ∧ AtEachStep (fun pre => P (a :: pre)) as) atEachStep_cons.symm

theorem atEachStep_congr {P Q : List α → α → Prop} {as : List α}
    (h : ∀ pre, ∀ a ∈ as, P pre a ↔ Q pre a) : AtEachStep P as ↔ AtEachStep Q as := by
  have hmem : ∀ {pre a}, pre ++ [a] <+: as → a ∈ as := fun hpre =>
    hpre.subset (List.mem_append_right _ (List.mem_singleton.2 rfl))
  constructor
  · intro hP pre a hpre
    exact (h pre a (hmem hpre)).1 (hP pre a hpre)
  · intro hQ pre a hpre
    exact (h pre a (hmem hpre)).2 (hQ pre a hpre)

theorem atEachStep_concat {P : List α → α → Prop} {as : List α} {a : α} :
    AtEachStep P (as ++ [a]) ↔ AtEachStep P as ∧ P as a := by
  constructor
  · intro h
    refine ⟨fun pre b hpre => h pre b (hpre.trans (List.prefix_append as [a])), ?_⟩
    exact h as a (List.prefix_refl _)
  · rintro ⟨hbefore, hlast⟩ pre b hpre
    rcases List.prefix_concat_iff.1 hpre with heq | hpre
    · obtain ⟨rfl, hb⟩ := List.append_inj' heq rfl
      obtain rfl : b = a := List.head_eq_of_cons_eq hb
      exact hlast
    · exact hbefore pre b hpre

theorem atEachStep_append {P : List α → α → Prop} {as bs : List α} :
    AtEachStep P (as ++ bs) ↔ AtEachStep P as ∧ AtEachStep (fun pre => P (as ++ pre)) bs := by
  induction bs using List.reverseRecOn with
  | nil =>
      rw [List.append_nil]
      exact (and_iff_left (atEachStep_nil _)).symm
  | append_singleton bs b ih =>
      rw [← List.append_assoc, atEachStep_concat, ih, atEachStep_concat, and_assoc]

/-- Two sequences of which each input goes with one of the other have the same steps. -/
theorem AtEachStep.of_forall₂ {γ : Type u} {R : α → γ → Prop} {as : List α} {cs : List γ}
    (h : List.Forall₂ R as cs) {P : List α → α → Prop} {Q : List γ → γ → Prop}
    (himp : ∀ {pre pre' a c}, List.Forall₂ R pre pre' → R a c → Q pre' c → P pre a)
    (hQ : AtEachStep Q cs) : AtEachStep P as := by
  induction h generalizing P Q with
  | nil => exact atEachStep_nil P
  | cons hac _ ih =>
      rw [atEachStep_cons] at hQ ⊢
      refine ⟨himp .nil hac hQ.1, ih (fun hpre hbd => ?_) hQ.2⟩
      exact himp (.cons hac hpre) hbd

/-- What holds of every prefix is what every step keeps. -/
theorem forall_prefix_iff {P : List α → Prop} {Q : List α → α → Prop} (hnil : P [])
    (hstep : ∀ pre a, P pre → (P (pre ++ [a]) ↔ Q pre a)) (as : List α) :
    (∀ pre, pre <+: as → P pre) ↔ AtEachStep Q as := by
  induction as using List.reverseRecOn with
  | nil =>
      refine iff_of_true (fun pre hpre => ?_) (atEachStep_nil Q)
      rw [List.prefix_nil.1 hpre]
      exact hnil
  | append_singleton as a ih =>
      rw [atEachStep_concat, ← ih]
      constructor
      · intro h
        have has := h as (List.prefix_append as [a])
        refine ⟨fun pre hpre => h pre (hpre.trans (List.prefix_append as [a])), ?_⟩
        exact (hstep as a has).1 (h _ (List.prefix_refl _))
      · rintro ⟨hbefore, hlast⟩ pre hpre
        rcases List.prefix_concat_iff.1 hpre with rfl | hpre
        · exact (hstep as a (hbefore as (List.prefix_refl as))).2 hlast
        · exact hbefore pre hpre

/-- Machines that do the same in every step that is allowed do the same in every run that has
only such steps. -/
theorem run_simulates {m : Machine α β σ} {n : Machine α β τ} {R : σ → τ → Prop}
    {Allowed : σ → α → Prop}
    (hstep : ∀ {s t a}, R s t → Allowed s a →
      R (m.step s a).1 (n.step t a).1 ∧ (m.step s a).2 = (n.step t a).2)
    {s : σ} {t : τ} (hR : R s t) {as : List α}
    (h : AtEachStep (fun pre a => Allowed (m.run s pre).1 a) as) :
    R (m.run s as).1 (n.run t as).1 ∧ (m.run s as).2 = (n.run t as).2 := by
  induction as using List.reverseRecOn with
  | nil => exact ⟨hR, rfl⟩
  | append_singleton as a ih =>
      obtain ⟨hbefore, hlast⟩ := atEachStep_concat.1 h
      obtain ⟨hstate, hout⟩ := ih hbefore
      obtain ⟨hstate', hout'⟩ := hstep hstate hlast
      rw [run_append, run_append, run_singleton, run_singleton]
      exact ⟨hstate', congrArg₂ (· ++ ·) hout hout'⟩

/-- What a step that is allowed keeps of a state and of what has been put out so far holds at
the end of a run that has only such steps. -/
theorem run_invariant {m : Machine α β σ} {Inv : σ → List β → Prop} {Allowed : σ → α → Prop}
    (hstep : ∀ {s out a}, Inv s out → Allowed s a → Inv (m.step s a).1 (out ++ (m.step s a).2))
    {s : σ} (hs : Inv s []) {as : List α}
    (h : AtEachStep (fun pre a => Allowed (m.run s pre).1 a) as) :
    Inv (m.run s as).1 (m.run s as).2 := by
  induction as using List.reverseRecOn with
  | nil => exact hs
  | append_singleton as a ih =>
      obtain ⟨hbefore, hlast⟩ := atEachStep_concat.1 h
      rw [run_append, run_singleton]
      exact hstep (ih hbefore) hlast

/-- The outputs of a run, one after the other, are those of its steps. -/
theorem atEachStep_run (m : Machine α β σ) (P : List β → β → Prop) (s : σ) (as : List α) :
    AtEachStep P (m.run s as).2 ↔
      AtEachStep (fun pre a => AtEachStep (fun out => P ((m.run s pre).2 ++ out))
        (m.step (m.run s pre).1 a).2) as := by
  induction as using List.reverseRecOn with
  | nil => exact iff_of_true (atEachStep_nil _) (atEachStep_nil _)
  | append_singleton as a ih =>
      rw [atEachStep_concat, run_append, run_singleton, atEachStep_append, ih]

/-- Some input has the property `Q`, and all inputs after it have the property `P`. -/
def Since (P Q : List α → α → Prop) (as : List α) : Prop :=
  ∃ pre a post, as = pre ++ a :: post ∧ Q pre a ∧
    AtEachStep (fun between => P (pre ++ a :: between)) post

theorem not_since_nil (P Q : List α → α → Prop) : ¬Since P Q [] := by
  rintro ⟨pre, a, post, heq, -, -⟩
  exact List.append_ne_nil_of_right_ne_nil pre (List.cons_ne_nil a post) heq.symm

theorem since_concat {P Q : List α → α → Prop} {as : List α} {a : α} :
    Since P Q (as ++ [a]) ↔ Q as a ∨ P as a ∧ Since P Q as := by
  constructor
  · rintro ⟨pre, b, post, heq, hQ, hP⟩
    rcases List.eq_nil_or_concat post with rfl | ⟨post, c, rfl⟩
    · obtain ⟨rfl, hb⟩ := List.append_inj' heq rfl
      obtain rfl : a = b := List.head_eq_of_cons_eq hb
      exact Or.inl hQ
    · rw [List.concat_eq_append] at heq hP
      rw [← List.cons_append, ← List.append_assoc] at heq
      obtain ⟨rfl, hc⟩ := List.append_inj' heq rfl
      obtain rfl : a = c := List.head_eq_of_cons_eq hc
      obtain ⟨hpost, hlast⟩ := atEachStep_concat.1 hP
      exact Or.inr ⟨hlast, pre, b, post, rfl, hQ, hpost⟩
  · rintro (hQ | ⟨hP, pre, b, post, rfl, hQ, hpost⟩)
    · exact ⟨as, a, [], rfl, hQ, atEachStep_nil _⟩
    · refine ⟨pre, b, post ++ [a], ?_, hQ, atEachStep_concat.2 ⟨hpost, hP⟩⟩
      rw [List.append_assoc, List.cons_append]

/-- An observer `f` of the outputs and an observer `g` of the inputs agree throughout a run
if and only if every input is one on which a step makes them agree. -/
theorem agree_iff {θ : Type u} (m : Machine α β σ) {f : θ → β → θ} {g : θ → α → θ}
    {Good : α → Prop} {as : List α}
    (hstep : ∀ a ∈ as, ∀ s t, (m.step s a).2.foldl f t = g t a ↔ Good a) (s : σ) (t : θ) :
    (∀ pre, pre <+: as → (m.run s pre).2.foldl f t = pre.foldl g t) ↔ ∀ a ∈ as, Good a := by
  induction as generalizing s t with
  | nil =>
      refine ⟨fun _ a ha => absurd ha List.not_mem_nil, fun _ pre hpre => ?_⟩
      rw [List.prefix_nil.1 hpre]
      rfl
  | cons a as ih =>
      have hhead := hstep a List.mem_cons_self s t
      have htail := ih (fun b hb => hstep b (List.mem_cons_of_mem a hb)) (m.step s a).1 (g t a)
      -- Once they agree on the first step, they have the same view of the rest.
      have hrun : ∀ pre, (m.step s a).2.foldl f t = g t a →
          (m.run s (a :: pre)).2.foldl f t =
            (m.run (m.step s a).1 pre).2.foldl f (g t a) := by
        intro pre h
        rw [run_cons, List.foldl_append, h]
      constructor
      · intro h
        have hfirst : (m.step s a).2.foldl f t = g t a := by
          have := h [a] ((List.prefix_cons_inj a).2 List.nil_prefix)
          rwa [run_singleton] at this
        refine List.forall_mem_cons.2 ⟨hhead.1 hfirst, htail.1 ?_⟩
        intro pre hpre
        rw [← hrun pre hfirst]
        exact h (a :: pre) ((List.prefix_cons_inj a).2 hpre)
      · intro h pre hpre
        obtain ⟨hgood, hrest⟩ := List.forall_mem_cons.1 h
        cases pre with
        | nil => rfl
        | cons b pre =>
            obtain ⟨rfl, hpre'⟩ := List.cons_prefix_cons.1 hpre
            rw [hrun pre (hhead.2 hgood)]
            exact htail.2 hrest pre hpre'

/-! ## Normal forms -/

/-- A machine that only puts out what it would pass on unchanged, in any state. -/
structure Projects (m : Machine α α σ) (Keep : α → Prop) : Prop where
  keep : ∀ s {a}, Keep a → m.step s a = (s, [a])
  sends : ∀ s a, ∀ b ∈ (m.step s a).2, Keep b

namespace Projects

variable {m : Machine α α σ} {Keep : α → Prop}

theorem run_keep (h : m.Projects Keep) (s : σ) {as : List α} (has : ∀ a ∈ as, Keep a) :
    m.run s as = (s, as) := by
  induction as with
  | nil => rfl
  | cons a as ih =>
      obtain ⟨ha, has⟩ := List.forall_mem_cons.1 has
      rw [run_cons, h.keep s ha, ih has]
      rfl

theorem keep_run (h : m.Projects Keep) (s : σ) (as : List α) : ∀ b ∈ (m.run s as).2, Keep b := by
  induction as generalizing s with
  | nil => exact List.forall_mem_nil _
  | cons a as ih =>
      rw [run_cons]
      exact List.forall_mem_append.2 ⟨h.sends s a, ih _⟩

/-- What has come out of a run is left alone by another. -/
theorem run_run (h : m.Projects Keep) (s s' : σ) (as : List α) :
    m.run s' (m.run s as).2 = (s', (m.run s as).2) :=
  h.run_keep s' (h.keep_run s as)

end Projects

/-! ## A second pass -/

/-- What a machine makes of its own outputs, with `R` between the states of the two passes. The
second pass lags behind the first by some outputs, `pending`, and it catches up unless a step is
not `Good`: then it puts out something before what is pending. -/
structure Lags (m : Machine α α σ) (R : σ → σ → List α → Prop) (Good : σ → α → Prop) : Prop where
  step : ∀ {s t pending a}, R s t pending → Good s a → ∃ pending',
    R (m.step s a).1 (m.run t (m.step s a).2).1 pending' ∧
      pending ++ (m.step s a).2 = (m.run t (m.step s a).2).2 ++ pending'
  stuck : ∀ {s t pending a}, R s t pending → ¬Good s a → ∃ b rest b' rest',
    pending = b :: rest ∧ (m.run t (m.step s a).2).2 = b' :: rest' ∧ b ≠ b'

/-- The second pass changes nothing if and only if all steps are good and nothing is pending at
the end. -/
theorem Lags.run_run_eq_iff {m : Machine α α σ} {R : σ → σ → List α → Prop}
    {Good : σ → α → Prop} (h : m.Lags R Good) {Done : σ → Prop}
    (hdone : ∀ {s t pending}, R s t pending → (pending = [] ↔ Done s)) {s t : σ}
    {pending : List α} (hR : R s t pending) (as : List α) :
    (m.run t (m.run s as).2).2 = pending ++ (m.run s as).2 ↔
      AtEachStep (fun pre a => Good (m.run s pre).1 a) as ∧ Done (m.run s as).1 := by
  induction as generalizing s t pending with
  | nil =>
      rw [run_nil, run_nil, List.append_nil, ← hdone hR, eq_comm]
      exact (and_iff_right (atEachStep_nil _)).symm
  | cons a as ih =>
      rw [run_cons, run_append, atEachStep_cons]
      by_cases ha : Good s a
      · obtain ⟨pending', hR', heq⟩ := h.step hR ha
        have hrest := ih hR'
        rw [← List.append_assoc, heq, List.append_assoc, List.append_cancel_left_eq, hrest]
        exact and_congr_left' (and_iff_right ha).symm
      · obtain ⟨b, rest, b', rest', hpending, hout, hne⟩ := h.stuck hR ha
        rw [hpending, hout]
        refine iff_of_false (fun heq => ?_) fun hgood => ha hgood.1.1
        exact hne (List.head_eq_of_cons_eq heq).symm

end Machine
