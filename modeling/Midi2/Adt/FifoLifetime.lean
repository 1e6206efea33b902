import Midi2.Adt.FifoQueue

/-!
# The lifetimes of the elements of a fifo (`adt/fifo.hpp`)

The slots of a `fifo` are raw storage. An element begins its life there with `construct_at` and
ends it with `destroy_at`; `lifetime` is the fifo with these calls as its output. They should
come in pairs for each slot (`Lifetimes`).

They do for `push_back`, `emplace_back` and `pop_front`. The loop of `clear`, however, moves the
write index towards the read index, and not the other way round, and destroys the element at the
read index in each of its rounds (`clearEvents_eq`). If there are elements, the oldest one is
destroyed at least twice, and the others never. So the lifetimes are right if and only if `clear`
and the destructor find the fifo empty (`lifetimes_iff`).
-/

namespace Midi2.Adt.Fifo

open Machine (AtEachStep)

/-- A call of `construct_at` or `destroy_at`. -/
inductive Event
  | construct (slot : Nat)
  | destroy (slot : Nat)
  deriving DecidableEq

def Event.slot : Event → Nat
  | construct slot => slot
  | destroy slot => slot

/-- The calls for one slot: an element is constructed and then destroyed, once, and so on. -/
inductive Lifetimes (slot : Nat) : List Event → Prop
  | nil : Lifetimes slot []
  | cons {events : List Event} (h : Lifetimes slot events) :
      Lifetimes slot (.construct slot :: .destroy slot :: events)

variable {α ι : Type} {k : Nat}

/-- The calls in the loop of `clear()`, for at most `n` rounds. -/
def clearEvents : Nat → Fifo α k → List Event
  | 0, _ => []
  | n + 1, f =>
      if f.readIndex = f.writeIndex then
        []
      else
        .destroy (f.readIndex % 2 ^ k) :: clearEvents n { f with
          slots := Function.update f.slots (f.readIndex % 2 ^ k) none
          writeIndex := (f.writeIndex + 1) % 2 ^ (k + 1) }

/-- The calls of an operation. -/
def events (f : Fifo α k) : Op α ι → List Event
  | .pushBack _ | .emplaceBack _ => if f.full then [] else [.construct (f.writeIndex % 2 ^ k)]
  | .popFront => [.destroy (f.readIndex % 2 ^ k)]
  | .clear => clearEvents (2 ^ (k + 1)) f

/-- A `fifo` and what it constructs and destroys. -/
def lifetime (construct : ι → α) : Machine (Op α ι) Event (Fifo α k) where
  step f op := (((machine construct).step f op).1, f.events op)

/-- The operations on a fifo up to its end: the destructor calls `clear()`. -/
def life (ops : List (Op α ι)) : List (Op α ι) :=
  ops ++ [.clear]

/-- The calls for one of the slots. -/
def atSlot (slot : Nat) (out : List Event) : List Event :=
  out.filter fun e => e.slot = slot

/-! ## Paired calls -/

theorem Lifetimes.append {slot : Nat} {es es' : List Event} (h : Lifetimes slot es)
    (h' : Lifetimes slot es') : Lifetimes slot (es ++ es') := by
  induction h with
  | nil => exact h'
  | cons _ ih => exact .cons ih

/-- An element is not destroyed twice. -/
theorem Lifetimes.not_twice {slot : Nat} {es es' : List Event} :
    ¬Lifetimes slot (es ++ .destroy slot :: .destroy slot :: es') := by
  intro h
  generalize hall : es ++ .destroy slot :: .destroy slot :: es' = all at h
  induction h generalizing es with
  | nil => exact List.append_ne_nil_of_right_ne_nil es (List.cons_ne_nil _ _) hall
  | cons hrest ih =>
      rcases es with _ | ⟨e, _ | ⟨e', es⟩⟩
      · cases hall
      · cases hall
        cases hrest
      · exact ih (List.cons_eq_cons.1 (List.cons_eq_cons.1 hall).2).2

theorem atSlot_append (slot : Nat) (out out' : List Event) :
    atSlot slot (out ++ out') = atSlot slot out ++ atSlot slot out' :=
  List.filter_append out out'

theorem atSlot_of_eq {slot : Nat} (e : Event) (h : e.slot = slot) : atSlot slot [e] = [e] :=
  List.filter_cons_of_pos (decide_eq_true h)

theorem atSlot_of_ne {slot : Nat} (e : Event) (h : e.slot ≠ slot) : atSlot slot [e] = [] :=
  List.filter_cons_of_neg (by simpa using h)

theorem not_lifetimes_of_replicate {slot n : Nat} (out out' : List Event) :
    ¬Lifetimes slot (atSlot slot (out ++ (List.replicate (n + 2) (.destroy slot) ++ out'))) := by
  have hall : atSlot slot (List.replicate (n + 2) (.destroy slot)) =
      List.replicate (n + 2) (.destroy slot) :=
    List.filter_replicate_of_pos (decide_eq_true rfl)
  rw [atSlot_append, atSlot_append, hall]
  exact Lifetimes.not_twice

/-! ## The calls of an operation -/

/-- A fifo that contains a queue and nothing else. -/
structure Exactly (f : Fifo α k) (xs : List α) : Prop where
  holds : Holds f xs
  dead : ∀ slot, (∀ i < xs.length, (f.readIndex + i) % 2 ^ k ≠ slot) → f.slots slot = none

theorem exactly_nil : Exactly ({} : Fifo α k) [] :=
  ⟨holds_nil, fun _ _ => rfl⟩

variable {f : Fifo α k} {xs : List α}

theorem Exactly.pushBack (h : Exactly f xs) (hroom : xs.length < 2 ^ k) (x : α) :
    Exactly (f.pushBack x).2 (xs ++ [x]) ∧ f.slots (f.writeIndex % 2 ^ k) = none := by
  have hslot : f.writeIndex % 2 ^ k = (f.readIndex + xs.length) % 2 ^ k := by
    rw [h.holds.write_eq, mod_two_pow_succ]
  have hfull : ¬f.full = true := fun hf => by have := h.holds.full_iff.1 hf; omega
  refine ⟨⟨(h.holds.pushBack hroom x).2, fun slot hdead => ?_⟩, h.dead _ fun i hi => ?_⟩
  · rw [Fifo.pushBack, if_neg hfull] at hdead ⊢
    rw [List.length_append, List.length_singleton] at hdead
    have hne : slot ≠ f.writeIndex % 2 ^ k := by
      rw [hslot]
      exact (hdead xs.length (Nat.lt_succ_self _)).symm
    simp only [Function.update_of_ne hne]
    exact h.dead slot fun i hi => hdead i (by omega)
  · rw [hslot]
    exact slot_ne (by omega) hroom (by omega)

theorem Exactly.popFront {x : α} (h : Exactly f (x :: xs)) : Exactly f.popFront.2 xs := by
  refine ⟨h.holds.popFront.2, fun slot hdead => ?_⟩
  simp only [Fifo.popFront] at hdead ⊢
  by_cases hslot : slot = f.readIndex % 2 ^ k
  · rw [hslot, Function.update_self]
  · rw [Function.update_of_ne hslot]
    refine h.dead slot fun i hi => ?_
    cases i with
    | zero => exact fun heq => hslot heq.symm
    | succ i =>
        have hnext := hdead i (Nat.lt_of_succ_lt_succ hi)
        rw [Nat.add_mod, mod_two_pow_succ, ← Nat.add_mod] at hnext
        rwa [Nat.add_comm i 1, ← Nat.add_assoc]

/-- `clear` of an empty fifo does nothing. -/
theorem clear_of_empty (hempty : f.empty = true) :
    f.clear = f ∧ clearEvents (2 ^ (k + 1)) f = [] := by
  have heq : f.readIndex = f.writeIndex := (of_decide_eq_true hempty).symm
  obtain ⟨n, hn⟩ : ∃ n, 2 ^ (k + 1) = n + 1 :=
    ⟨2 ^ (k + 1) - 1, (Nat.sub_add_cancel (Nat.two_pow_pos _)).symm⟩
  rw [clear, hn]
  exact ⟨if_pos heq, if_pos heq⟩

/-- In every round the loop of `clear` destroys the element at the read index, until the write
index has come round to it. -/
theorem clearEvents_eq {n d : Nat} (hread : f.readIndex < 2 ^ (k + 1))
    (hwrite : f.writeIndex < 2 ^ (k + 1))
    (hd : (f.writeIndex + d) % 2 ^ (k + 1) = f.readIndex) (hlt : d < 2 ^ (k + 1)) (hn : d ≤ n) :
    clearEvents n f = List.replicate d (.destroy (f.readIndex % 2 ^ k)) := by
  induction d generalizing f n with
  | zero =>
      rw [Nat.add_zero, Nat.mod_eq_of_lt hwrite] at hd
      cases n with
      | zero => rfl
      | succ n => exact if_pos hd.symm
  | succ d ih =>
      obtain ⟨n, rfl⟩ : ∃ m, n = m + 1 := ⟨n - 1, by omega⟩
      have hne : f.readIndex ≠ f.writeIndex := by
        rw [← hd]
        intro heq
        rcases index_cases (show f.writeIndex + (d + 1) < 2 * 2 ^ (k + 1) by omega) with
          ⟨_, hmod, _⟩ | ⟨_, hmod, _⟩ <;> omega
      rw [clearEvents, if_neg hne, List.replicate_succ]
      refine congrArg (List.cons _) (ih hread (Nat.mod_lt _ (Nat.two_pow_pos _)) ?_
        (by omega) (by omega))
      show ((f.writeIndex + 1) % 2 ^ (k + 1) + d) % 2 ^ (k + 1) = f.readIndex
      rw [Nat.mod_add_mod, Nat.add_assoc, Nat.add_comm 1 d]
      exact hd

/-- The oldest element of a fifo that is not empty is destroyed more than once by `clear`. -/
theorem Holds.clearEvents_twice (h : Holds f xs) (hk : 1 ≤ k) (hne : xs ≠ []) :
    ∃ n, clearEvents (2 ^ (k + 1)) f =
      List.replicate (n + 2) (.destroy (f.readIndex % 2 ^ k)) := by
  have hpow : 2 ^ (k + 1) = 2 * 2 ^ k := Nat.pow_succ'
  have htwo : 2 ^ 1 ≤ 2 ^ k := Nat.pow_le_pow_right (by decide) hk
  have hpos := List.length_pos_iff.2 hne
  have hlen := h.length_le
  obtain ⟨hw, hr, hdist⟩ := h.indices
  refine ⟨2 ^ (k + 1) - xs.length - 2, ?_⟩
  rw [show 2 ^ (k + 1) - xs.length - 2 + 2 = 2 ^ (k + 1) - xs.length by omega]
  refine clearEvents_eq h.read_lt (by omega) ?_ (by omega) (by omega)
  rcases index_cases (show f.writeIndex + (2 ^ (k + 1) - xs.length) < 2 * 2 ^ (k + 1) by omega)
    with ⟨_, hmod, _⟩ | ⟨_, hmod, _⟩ <;> omega

/-! ## Runs -/

/-- So far all is well: if the elements that live now are destroyed, then the calls are paired. -/
structure Tracked (f : Fifo α k) (out : List Event) : Prop where
  queue : ∃ xs, Exactly f xs
  slots : ∀ slot, Lifetimes slot (atSlot slot out ++
    if (f.slots slot).isSome then [.destroy slot] else [])

theorem tracked_nil : Tracked ({} : Fifo α k) [] :=
  ⟨⟨[], exactly_nil⟩, fun _ => .nil⟩

theorem Tracked.pushBack {out : List Event} (h : Tracked f out) (x : α) :
    Tracked (f.pushBack x).2
      (out ++ if f.full then [] else [.construct (f.writeIndex % 2 ^ k)]) := by
  obtain ⟨⟨xs, hxs⟩, hslots⟩ := h
  by_cases hfull : f.full = true
  · rw [if_pos hfull, List.append_nil, hxs.holds.pushBack_full (hxs.holds.full_iff.1 hfull)]
    exact ⟨⟨xs, hxs⟩, hslots⟩
  · have hroom : xs.length < 2 ^ k :=
      Nat.lt_of_le_of_ne hxs.holds.length_le fun heq => hfull (hxs.holds.full_iff.2 heq)
    obtain ⟨hnext, hnone⟩ := hxs.pushBack hroom x
    rw [if_neg hfull]
    refine ⟨⟨xs ++ [x], hnext⟩, fun slot => ?_⟩
    have hbefore := hslots slot
    rw [atSlot_append, Fifo.pushBack, if_neg hfull]
    by_cases hslot : f.writeIndex % 2 ^ k = slot
    · subst hslot
      rw [hnone, Option.isSome_none, if_neg Bool.false_ne_true, List.append_nil] at hbefore
      have hself : atSlot (f.writeIndex % 2 ^ k) [.construct (f.writeIndex % 2 ^ k)] =
          [.construct (f.writeIndex % 2 ^ k)] := atSlot_of_eq _ rfl
      rw [hself]
      simp only [Function.update_self, Option.isSome_some, if_pos, List.append_assoc]
      exact hbefore.append (.cons .nil)
    · rw [atSlot_of_ne (.construct _) hslot, List.append_nil]
      simp only [Function.update_of_ne (Ne.symm hslot)]
      exact hbefore

theorem Tracked.popFront {out : List Event} (h : Tracked f out) (hne : f.empty = false) :
    Tracked f.popFront.2 (out ++ [.destroy (f.readIndex % 2 ^ k)]) := by
  obtain ⟨⟨xs, hxs⟩, hslots⟩ := h
  cases xs with
  | nil => exact absurd (hxs.holds.empty_iff.2 rfl) (by rw [hne]; exact Bool.false_ne_true)
  | cons x xs =>
      refine ⟨⟨xs, hxs.popFront⟩, fun slot => ?_⟩
      have hbefore := hslots slot
      rw [atSlot_append]
      by_cases hslot : f.readIndex % 2 ^ k = slot
      · subst hslot
        have hsome : f.slots (f.readIndex % 2 ^ k) = some x := hxs.holds.slot 0 x rfl
        have hself : atSlot (f.readIndex % 2 ^ k) [.destroy (f.readIndex % 2 ^ k)] =
            [.destroy (f.readIndex % 2 ^ k)] := atSlot_of_eq _ rfl
        rw [hsome] at hbefore
        rw [hself]
        simpa [Fifo.popFront] using hbefore
      · rw [atSlot_of_ne (.destroy _) hslot, List.append_nil]
        simp only [Fifo.popFront, Function.update_of_ne (Ne.symm hslot)]
        exact hbefore

theorem Tracked.step {out : List Event} (construct : ι → α) {op : Op α ι} (h : Tracked f out)
    (hop : Allowed f op ∧ (op = .clear → f.empty = true)) :
    Tracked ((lifetime construct).step f op).1 (out ++ ((lifetime construct).step f op).2) := by
  obtain ⟨hpop, hclear⟩ := hop
  cases op with
  | pushBack value => exact h.pushBack value
  | emplaceBack args => exact h.pushBack (construct args)
  | popFront => exact h.popFront (hpop rfl)
  | clear =>
      obtain ⟨hsame, hnone⟩ := clear_of_empty (hclear rfl)
      show Tracked f.clear (out ++ clearEvents (2 ^ (k + 1)) f)
      rw [hsame, hnone, List.append_nil]
      exact h

/-- When the fifo is empty, everything that was constructed has been destroyed. -/
theorem Tracked.lifetimes {out : List Event} (h : Tracked f out) (hempty : f.empty = true)
    (slot : Nat) : Lifetimes slot (atSlot slot out) := by
  obtain ⟨⟨xs, hxs⟩, hslots⟩ := h
  obtain rfl := hxs.holds.empty_iff.1 hempty
  have hslot := hslots slot
  rw [hxs.dead slot fun i hi => absurd hi (Nat.not_lt_zero i)] at hslot
  simpa using hslot

/-- Whatever is done to it, a fifo contains some queue. -/
theorem exists_holds (construct : ι → α) {ops : List (Op α ι)}
    (h : AtEachStep (fun pre op =>
      Allowed ((lifetime construct).run ({} : Fifo α k) pre).1 op) ops) :
    ∃ xs, Holds ((lifetime construct).run ({} : Fifo α k) ops).1 xs := by
  refine @Machine.run_invariant _ _ _ (lifetime construct) (fun f _ => ∃ xs, Holds f xs) Allowed
    ?_ {} ⟨[], holds_nil⟩ ops h
  rintro f _ op ⟨xs, hxs⟩ hop
  exact ⟨_, (hxs.step construct hop).1⟩

/-- Every element of a fifo is destroyed once, and only elements are destroyed, if and only if
`clear` and the destructor find the fifo empty. -/
theorem lifetimes_iff (construct : ι → α) (ops : List (Op α ι)) (hk : 1 ≤ k)
    (h : AtEachStep (fun pre op =>
      Allowed ((lifetime construct).run ({} : Fifo α k) pre).1 op) ops) :
    (∀ slot, Lifetimes slot
      (atSlot slot ((lifetime construct).run ({} : Fifo α k) (life ops)).2)) ↔
      AtEachStep (fun pre op => op = .clear →
        ((lifetime construct).run ({} : Fifo α k) pre).1.empty = true) (life ops) := by
  have hallowed : AtEachStep (fun pre op =>
      Allowed ((lifetime construct).run ({} : Fifo α k) pre).1 op) (life ops) :=
    Machine.atEachStep_concat.2 ⟨h, fun hop => by cases hop⟩
  constructor
  · rintro hlife pre op ⟨post, hpost⟩ rfl
    have hpre : AtEachStep (fun pre op =>
        Allowed ((lifetime construct).run ({} : Fifo α k) pre).1 op) pre := by
      rw [← hpost, List.append_assoc, Machine.atEachStep_append] at hallowed
      exact hallowed.1
    obtain ⟨xs, hxs⟩ := exists_holds construct hpre
    refine hxs.empty_iff.2 (not_not.1 fun hne => ?_)
    obtain ⟨n, hn⟩ := hxs.clearEvents_twice hk hne
    have hslot := hlife (((lifetime construct).run ({} : Fifo α k) pre).1.readIndex % 2 ^ k)
    rw [← hpost, List.append_assoc, Machine.run_append, List.singleton_append,
      Machine.run_cons] at hslot
    simp only [lifetime, events] at hslot hn
    rw [hn] at hslot
    exact not_lifetimes_of_replicate _ _ hslot
  · intro hclear slot
    have hsteps : AtEachStep (fun pre op =>
        Allowed ((lifetime construct).run ({} : Fifo α k) pre).1 op ∧
        (op = .clear → ((lifetime construct).run ({} : Fifo α k) pre).1.empty = true))
        (life ops) := fun pre op hpre => ⟨hallowed pre op hpre, hclear pre op hpre⟩
    have hend : ((lifetime construct).run ({} : Fifo α k) (life ops)).1.empty = true := by
      have hempty := (Machine.atEachStep_concat.1 hclear).2 rfl
      rw [life, Machine.run_append, Machine.run_singleton]
      show (Fifo.clear _).empty = true
      rw [(clear_of_empty hempty).1]
      exact hempty
    exact (Machine.run_invariant (Tracked.step construct) tracked_nil hsteps).lifetimes hend slot

/-- An element that has been popped when `clear` is called, and one when the fifo ends. -/
theorem lifetimes_iff_pop : Lifetimes 1 (atSlot 1 ((lifetime id).run ({} : Fifo Nat 1)
    (life [.pushBack 5, .popFront, .clear, .emplaceBack 6, .popFront])).2) :=
  (lifetimes_iff id [.pushBack 5, .popFront, .clear, .emplaceBack 6, .popFront] (by decide)
    (by decide)).2 (by decide) 1

/-- The destructor of a fifo with two elements destroys the first one twice, and not the
second. -/
theorem lifetimes_destructor :
    ((lifetime id).run ({} : Fifo Nat 1) (life [.pushBack 5, .pushBack 6])).2 =
      [.construct 0, .construct 1, .destroy 0, .destroy 0] ∧
    (¬∀ slot, Lifetimes slot (atSlot slot
      ((lifetime id).run ({} : Fifo Nat 1) (life [.pushBack 5, .pushBack 6])).2)) ∧
    AtEachStep (fun pre op => Allowed ((lifetime id).run ({} : Fifo Nat 1) pre).1 op)
      [.pushBack 5, .pushBack 6] := by
  have hout : ((lifetime id).run ({} : Fifo Nat 1) (life [.pushBack 5, .pushBack 6])).2 =
      [.construct 0, .construct 1, .destroy 0, .destroy 0] := by decide
  refine ⟨hout, fun hall => ?_, by decide⟩
  have hsecond := hall 1
  rw [hout] at hsecond
  cases hsecond

end Midi2.Adt.Fifo
