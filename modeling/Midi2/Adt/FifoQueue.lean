import Midi2.Adt.Fifo
import Midi2.Lib.Pool

/-!
# A fifo is a bounded queue (`adt/fifo.hpp`)

What a client of `fifo` may rely on is a queue with room for so many elements. `queue` is
that queue, and `machine` is the class as it is written, with its two wrapping indices.
`Agrees` says that a fifo looks, from the outside, like some queue. A program that makes and
copies any number of fifos and uses them in any order gets the results that the queues have,
and in the end its fifos agree with them (`refines_queue`). It is up to the program not to
call `pop_front` on an empty fifo, as the assertion there says.
-/

namespace Midi2.Adt.Fifo

open Machine (PoolInput PoolAllowed AtEachStep)

variable {α ι : Type} {k : Nat}

/-- The operations on one fifo. The arguments of `emplace_back` are an `ι`. -/
inductive Op (α ι : Type)
  | pushBack (value : α)
  | emplaceBack (args : ι)
  | popFront
  | clear
  deriving DecidableEq

/-- What they return. -/
inductive Result (α : Type)
  | pushed (ok : Bool)
  | popped (value : Option α)
  deriving DecidableEq

/-- A `fifo`. -/
def machine (construct : ι → α) : Machine (Op α ι) (Result α) (Fifo α k) where
  step f
    | .pushBack value => ((f.pushBack value).2, [.pushed (f.pushBack value).1])
    | .emplaceBack args =>
        ((f.emplaceBack construct args).2, [.pushed (f.emplaceBack construct args).1])
    | .popFront => (f.popFront.2, [.popped f.popFront.1])
    | .clear => (f.clear, [])

/-- Appending to a queue that may be full. -/
def append (capacity : Nat) (xs : List α) (x : α) : List α × List (Result α) :=
  if xs.length = capacity then (xs, [.pushed false]) else (xs ++ [x], [.pushed true])

/-- A queue of at most `capacity` elements, the oldest first. -/
def queue (capacity : Nat) (construct : ι → α) : Machine (Op α ι) (Result α) (List α) where
  step xs
    | .pushBack value => append capacity xs value
    | .emplaceBack args => append capacity xs (construct args)
    | .popFront => (xs.tail, [.popped xs.head?])
    | .clear => ([], [])

/-- The assertion of `pop_front`. -/
def Allowed (f : Fifo α k) (op : Op α ι) : Prop :=
  op = .popFront → f.empty = false

instance [DecidableEq α] [DecidableEq ι] (f : Fifo α k) (op : Op α ι) : Decidable (Allowed f op) :=
  inferInstanceAs (Decidable (_ → _))

/-- The elements that calls of `pop_front` would return. -/
def contents (f : Fifo α k) : List α :=
  (f.drain (2 ^ k)).1

/-- What can be seen of a fifo is what can be seen of the queue. -/
structure Agrees (f : Fifo α k) (xs : List α) : Prop where
  size : f.size = xs.length
  empty : f.empty = true ↔ xs = []
  full : f.full = true ↔ xs.length = 2 ^ k
  contents : f.contents = xs
  bounded : xs.length ≤ 2 ^ k

theorem Holds.agrees {f : Fifo α k} {xs : List α} (h : Holds f xs) : Agrees f xs where
  size := h.size_eq
  empty := h.empty_iff
  full := h.full_iff
  contents := (h.drain h.length_le).1
  bounded := h.length_le

theorem Holds.append {f : Fifo α k} {xs : List α} (h : Holds f xs) (x : α) :
    Holds (f.pushBack x).2 (append (2 ^ k) xs x).1 ∧
    [Result.pushed (f.pushBack x).1] = (Fifo.append (2 ^ k) xs x).2 := by
  unfold Fifo.append
  split
  case isTrue hfull =>
    rw [h.pushBack_full hfull]
    exact ⟨h, rfl⟩
  case isFalse hroom =>
    obtain ⟨hok, hholds⟩ := h.pushBack (Nat.lt_of_le_of_ne h.length_le hroom) x
    rw [hok]
    exact ⟨hholds, rfl⟩

/-- An operation does to the fifo what it does to the queue. -/
theorem Holds.step {f : Fifo α k} {xs : List α} (construct : ι → α) {op : Op α ι}
    (h : Holds f xs) (hop : Allowed f op) :
    Holds ((machine construct).step f op).1 ((queue (2 ^ k) construct).step xs op).1 ∧
    ((machine construct).step f op).2 = ((queue (2 ^ k) construct).step xs op).2 := by
  cases op with
  | pushBack value => exact h.append value
  | emplaceBack args => exact h.append (construct args)
  | popFront =>
      cases xs with
      | nil => exact absurd (hop rfl) (by rw [h.empty_iff.2 rfl]; exact Bool.noConfusion)
      | cons x xs =>
          obtain ⟨hfront, hrest⟩ := h.popFront
          exact ⟨hrest, congrArg (fun value => [Result.popped value]) hfront⟩
  | clear => exact ⟨h.clear, rfl⟩

/-- The fifos of a program, of which the first one is constructed empty. -/
def fifos (k : Nat) (construct : ι → α) :
    Machine (PoolInput (Op α ι)) (Result α) (List (Fifo α k)) :=
  (machine construct).pool copy

/-- The queues that they stand for: a copy is the same queue. -/
def queues (capacity : Nat) (construct : ι → α) :
    Machine (PoolInput (Op α ι)) (Result α) (List (List α)) :=
  (queue capacity construct).pool id

/-- In every run the fifos return what the queues return, and agree with them. -/
theorem refines_queue (construct : ι → α) (ops : List (PoolInput (Op α ι)))
    (h : AtEachStep (fun pre op => PoolAllowed Allowed ((fifos k construct).run [{}] pre).1 op)
      ops) :
    ((fifos k construct).run [{}] ops).2 = ((queues (2 ^ k) construct).run [[]] ops).2 ∧
    List.Forall₂ Agrees ((fifos k construct).run [{}] ops).1
      ((queues (2 ^ k) construct).run [[]] ops).1 := by
  obtain ⟨hholds, hout⟩ := Machine.run_simulates
    (fun hR hx => Machine.pool_simulates (fun h hop => Holds.step construct h hop) Holds.copy hR hx)
    (List.Forall₂.cons holds_nil List.Forall₂.nil) h
  exact ⟨hout, hholds.imp fun _ _ => Holds.agrees⟩

/-- Two elements fit into a fifo for two: the third is refused, and the copy has both. -/
theorem refines_queue_two :
    ((fifos 1 id).run [{}] [.act 0 (.pushBack 5), .act 0 (.emplaceBack 6), .act 0 (.pushBack 7),
      .copy 0, .act 0 .clear, .act 1 .popFront, .act 1 (.pushBack 8), .act 1 .popFront]).2 =
      [.pushed true, .pushed true, .pushed false, .popped (some 5), .pushed true,
        .popped (some 6)] :=
  (refines_queue id _ (by decide)).1.trans (by decide)

end Midi2.Adt.Fifo
