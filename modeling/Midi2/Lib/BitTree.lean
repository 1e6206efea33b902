import Mathlib.Logic.Function.Basic
import Mathlib.Tactic.Ring

/-!
# Binary trees of bits in an array

A complete binary tree with `2 ^ d` leaves has its inner nodes in an array, in the usual way:
the children of node `i` are nodes `2 * i + 1` and `2 * i + 2`. The leaves come after the inner
nodes, and are numbered from left to right. `Subtree d n node start` says where a subtree of
height `n` is and with which leaf it begins.

With a bit for each inner node, a `path` leads from the root to a leaf: to the right where the
bit is set. The bits can be turned away from a leaf: those on the way to it are set so that at
each node the path would go to the other half (`turnAway`). Of the bits on the way to another
leaf, at most one is turned `toward` that leaf by this, the one where the two ways part. So it
takes as many turns as the tree is high until the path leads to a leaf again.

If the bits are turned away from each leaf that is used, they tell of every subtree which half of
it was not used last (`Tells.turnAway`), and the path goes to this half at each node. If some of
the leaves are full, it `Detours` where it enters a half that is full although the other half is
not. Without a detour it ends at a leaf that is not full, if there is one (`not_detours_iff`).
-/

namespace BitTree

/-- The number of a child. -/
def child (node : Nat) (bit : Bool) : Nat :=
  2 * node + 1 + bit.toNat

/-- Where the half begins that a bit stands for, in a subtree of height `n + 1`. -/
def half (n start : Nat) (bit : Bool) : Nat :=
  start + bit.toNat * 2 ^ n

theorem half_le (n start : Nat) (bit : Bool) :
    start ≤ half n start bit ∧ half n start bit + 2 ^ n ≤ start + 2 ^ (n + 1) := by
  rw [half, Nat.pow_succ]
  cases bit with
  | false => rw [Bool.toNat_false]; omega
  | true => rw [Bool.toNat_true]; omega

/-- In a tree of height `d`, the subtree at `node` has height `n`, and its first leaf is
`start`. -/
structure Subtree (d n node start : Nat) : Prop where
  node_eq : (node + 1) * 2 ^ n = 2 ^ d + start
  start_le : start + 2 ^ n ≤ 2 ^ d

theorem Subtree.root (d : Nat) : Subtree d d 0 0 where
  node_eq := by rw [Nat.zero_add, Nat.one_mul, Nat.add_zero]
  start_le := by rw [Nat.zero_add]

theorem Subtree.child {d n node start : Nat} (h : Subtree d (n + 1) node start) (bit : Bool) :
    Subtree d n (child node bit) (half n start bit) where
  node_eq := by
    rw [BitTree.child, half, ← Nat.add_assoc, ← h.node_eq]
    ring
  start_le := Nat.le_trans (half_le n start bit).2 h.start_le

/-- A subtree of some height is at an inner node. -/
theorem Subtree.inner {d n node start : Nat} (h : Subtree d (n + 1) node start) :
    node < 2 ^ d - 1 := by
  obtain ⟨hnode, hstart⟩ := h
  rw [Nat.pow_succ] at hnode hstart
  have hpos := Nat.two_pow_pos n
  have htwo : (node + 1) * (1 * 2) ≤ (node + 1) * (2 ^ n * 2) :=
    Nat.mul_le_mul_left _ (Nat.mul_le_mul_right 2 hpos)
  omega

/-- A subtree of height zero is a leaf. -/
theorem Subtree.leaf {d node start : Nat} (h : Subtree d 0 node start) :
    node = 2 ^ d - 1 + start := by
  have hnode := h.node_eq
  have hpos := Nat.two_pow_pos d
  rw [Nat.pow_zero, Nat.mul_one] at hnode
  omega

/-- The leaf at the end of the path from a node. -/
def path (bits : Nat → Bool) : Nat → Nat → Nat → Nat
  | 0, _, start => start
  | n + 1, node, start => path bits n (child node (bits node)) (half n start (bits node))

theorem path_mem (bits : Nat → Bool) (n node start : Nat) :
    start ≤ path bits n node start ∧ path bits n node start < start + 2 ^ n := by
  induction n generalizing node start with
  | zero => exact ⟨Nat.le_refl _, Nat.lt_succ_self _⟩
  | succ n ih =>
      obtain ⟨hle, hlt⟩ := ih (child node (bits node)) (half n start (bits node))
      obtain ⟨hfirst, hlast⟩ := half_le n start (bits node)
      exact ⟨Nat.le_trans hfirst hle, Nat.lt_of_lt_of_le hlt hlast⟩

/-! ## Full subtrees -/

/-- The leaves of a subtree are all full. -/
def Full (full : Nat → Bool) (n start : Nat) : Prop :=
  ∀ leaf, start ≤ leaf → leaf < start + 2 ^ n → full leaf = true

/-- Both halves are full if the whole is. -/
theorem full_succ {full : Nat → Bool} {n start : Nat} (bit : Bool) :
    Full full (n + 1) start ↔ Full full n (half n start bit) ∧ Full full n (half n start !bit) := by
  have hsplit : Full full (n + 1) start ↔
      Full full n (half n start false) ∧ Full full n (half n start true) := by
    simp only [Full, half, Bool.toNat_false, Bool.toNat_true, Nat.pow_succ]
    constructor
    · intro h
      exact ⟨fun leaf hle hlt => h leaf (by omega) (by omega),
        fun leaf hle hlt => h leaf (by omega) (by omega)⟩
    · rintro ⟨hleft, hright⟩ leaf hle hlt
      rcases Nat.lt_or_ge leaf (start + 2 ^ n) with hlow | hhigh
      · exact hleft leaf (by omega) (by omega)
      · exact hright leaf (by omega) (by omega)
  cases bit with
  | false => exact hsplit
  | true => exact hsplit.trans and_comm

/-- The leaf that one comes to by going, in each subtree, to the half that `turn` says. -/
def descend (turn : Nat → Nat → Bool) : Nat → Nat → Nat
  | 0, start => start
  | n + 1, start => descend turn n (half n start (turn n start))

theorem Full.descend {full : Nat → Bool} {n start : Nat} (h : Full full n start)
    (turn : Nat → Nat → Bool) : full (descend turn n start) = true := by
  induction n generalizing start with
  | zero => exact h start (Nat.le_refl start) (Nat.lt_succ_self start)
  | succ n ih => exact ih ((full_succ (turn n start)).1 h).1

/-- Somewhere on the way down one goes to a full half, and the other half is not full. -/
def Detours (full : Nat → Bool) (turn : Nat → Nat → Bool) : Nat → Nat → Prop
  | 0, _ => False
  | n + 1, start =>
      (Full full n (half n start (turn n start)) ∧ ¬Full full n (half n start !turn n start)) ∨
      Detours full turn n (half n start (turn n start))

/-- A way down without a detour ends at a leaf that is not full, unless all leaves are full. -/
theorem not_detours_iff (full : Nat → Bool) (turn : Nat → Nat → Bool) (n start : Nat) :
    ¬Detours full turn n start ↔ full (descend turn n start) = false ∨ Full full n start := by
  induction n generalizing start with
  | zero =>
      refine iff_of_true id ?_
      cases hfull : full (descend turn 0 start) with
      | false => exact Or.inl rfl
      | true =>
          refine Or.inr fun leaf hle hlt => ?_
          rw [show leaf = start by rw [Nat.pow_zero] at hlt; omega]
          exact hfull
  | succ n ih =>
      have hchild := ih (half n start (turn n start))
      rw [Detours, not_or, hchild, full_succ (turn n start), descend]
      constructor
      · rintro ⟨hhere, hfree | hfull⟩
        · exact Or.inl hfree
        · exact Or.inr ⟨hfull, not_not.1 fun hother => hhere ⟨hfull, hother⟩⟩
      · rintro (hfree | ⟨hfull, hother⟩)
        · refine ⟨fun hhere => ?_, Or.inl hfree⟩
          rw [hhere.1.descend turn] at hfree
          cases hfree
        · exact ⟨fun hhere => hhere.2 hother, Or.inr hfull⟩

/-! ## Nodes of a subtree -/

/-- The node `k` is in the subtree at `node`: it is led to by taking parents. -/
def Below (node k : Nat) : Prop :=
  ∃ i, (k + 1) / 2 ^ i = node + 1

theorem below_self (node : Nat) : Below node node :=
  ⟨0, by rw [Nat.pow_zero, Nat.div_one]⟩

theorem Below.of_child {node k : Nat} {bit : Bool} (h : Below (child node bit) k) :
    Below node k := by
  obtain ⟨i, hi⟩ := h
  have hbit := bit.toNat_lt
  refine ⟨i + 1, ?_⟩
  rw [Nat.pow_succ, ← Nat.div_div_eq_div_mul, hi, child]
  omega

/-- A node is not below its children. -/
theorem not_below_child (node : Nat) (bit : Bool) : ¬Below (child node bit) node := by
  rintro ⟨i, hi⟩
  have hle := Nat.div_le_self (node + 1) (2 ^ i)
  rw [hi, child] at hle
  omega

/-- What is below one child is not below the other. -/
theorem Below.child_inj {node k : Nat} {bit bit' : Bool} (h : Below (child node bit) k)
    (h' : Below (child node bit') k) : bit = bit' := by
  -- At a different height, the subtree would be smaller by half.
  have hdown : ∀ {bit bit' i j}, i < j → (k + 1) / 2 ^ i = BitTree.child node bit + 1 →
      (k + 1) / 2 ^ j ≠ BitTree.child node bit' + 1 := by
    intro bit bit' i j hlt hi hj
    have hbit := bit.toNat_lt
    have hle : (k + 1) / 2 ^ j ≤ (k + 1) / 2 ^ (i + 1) :=
      Nat.div_le_div_left (Nat.pow_le_pow_right Nat.two_pos hlt) (Nat.two_pow_pos _)
    rw [Nat.pow_succ, ← Nat.div_div_eq_div_mul, hi, hj, BitTree.child, BitTree.child] at hle
    omega
  obtain ⟨i, hi⟩ := h
  obtain ⟨j, hj⟩ := h'
  rcases Nat.lt_trichotomy i j with hlt | rfl | hgt
  · exact absurd hj (hdown hlt hi)
  · rw [hi, BitTree.child, BitTree.child] at hj
    cases bit with
    | false => cases bit' with
      | false => rfl
      | true => rw [Bool.toNat_false, Bool.toNat_true] at hj; omega
    | true => cases bit' with
      | false => rw [Bool.toNat_false, Bool.toNat_true] at hj; omega
      | true => rfl
  · exact absurd hi (hdown hgt hj)

/-! ## Turning the bits away from a leaf -/

/-- The half that a leaf is in, of a subtree of height `n + 1`. -/
def side (n start leaf : Nat) : Bool :=
  decide (start + 2 ^ n ≤ leaf)

theorem side_eq {n start leaf : Nat} {bit : Bool} (hle : half n start bit ≤ leaf)
    (hlt : leaf < half n start bit + 2 ^ n) : side n start leaf = bit := by
  rw [half] at hle hlt
  cases bit with
  | false =>
      rw [Bool.toNat_false, Nat.zero_mul] at hlt
      exact decide_eq_false (by omega)
  | true =>
      rw [Bool.toNat_true, Nat.one_mul] at hle
      exact decide_eq_true hle

/-- The bits on the way to the leaf are turned to the half that it is not in. -/
def turnAway (leaf : Nat) : Nat → Nat → Nat → (Nat → Bool) → Nat → Bool
  | 0, _, _, bits => bits
  | n + 1, node, start, bits =>
      turnAway leaf n (child node (side n start leaf)) (half n start (side n start leaf))
        (Function.update bits node !side n start leaf)

/-- How many bits on the way to the leaf are turned to the half that it is in. -/
def toward (bits : Nat → Bool) (leaf : Nat) : Nat → Nat → Nat → Nat
  | 0, _, _ => 0
  | n + 1, node, start =>
      (bits node == side n start leaf).toNat +
        toward bits leaf n (child node (side n start leaf)) (half n start (side n start leaf))

/-- The path leads to a leaf only if all bits on the way are turned to it. -/
theorem toward_path (bits : Nat → Bool) (n node start : Nat) :
    toward bits (path bits n node start) n node start = n := by
  induction n generalizing node start with
  | zero => rfl
  | succ n ih =>
      obtain ⟨hle, hlt⟩ := path_mem bits n (child node (bits node)) (half n start (bits node))
      have hside := side_eq hle hlt
      rw [path, toward, hside, ih, beq_self_eq_true, Bool.toNat_true, Nat.add_comm]

theorem toward_congr {bits bits' : Nat → Bool} (leaf : Nat) {n node start : Nat}
    (h : ∀ k, Below node k → bits k = bits' k) :
    toward bits leaf n node start = toward bits' leaf n node start := by
  induction n generalizing node start with
  | zero => rfl
  | succ n ih =>
      rw [toward, toward, h node (below_self node), ih fun k hk => h k hk.of_child]

/-- Nodes that are not in the subtree keep their bits. -/
theorem turnAway_of_not_below (leaf : Nat) {n node start k : Nat} (bits : Nat → Bool)
    (h : ¬Below node k) : turnAway leaf n node start bits k = bits k := by
  induction n generalizing node start bits with
  | zero => rfl
  | succ n ih =>
      have hne : k ≠ node := fun heq => h (heq ▸ below_self node)
      rw [turnAway, ih _ fun hk => h hk.of_child, Function.update_of_ne hne]

/-- The bit of the node itself, and those on the way to a leaf below it. -/
theorem turnAway_node (leaf n node start : Nat) (bits : Nat → Bool) :
    turnAway leaf (n + 1) node start bits node = !side n start leaf := by
  rw [turnAway, turnAway_of_not_below leaf _ (not_below_child node _), Function.update_self]

theorem toward_turnAway_self (leaf n node start : Nat) (bits : Nat → Bool) :
    toward (turnAway leaf n node start bits) leaf n node start = 0 := by
  induction n generalizing node start bits with
  | zero => rfl
  | succ n ih =>
      rw [toward, turnAway_node, turnAway, ih, Bool.not_beq_self]
      rfl

/-- At most one bit on the way to a leaf is turned to it. -/
theorem toward_turnAway_le (leaf leaf' n node start : Nat) (bits : Nat → Bool) :
    toward (turnAway leaf' n node start bits) leaf n node start ≤
      toward bits leaf n node start + 1 := by
  induction n generalizing node start bits with
  | zero => exact Nat.zero_le _
  | succ n ih =>
      have hupdate : ∀ k, Below (child node (side n start leaf)) k →
          Function.update bits node (!side n start leaf') k = bits k := fun k hk =>
        Function.update_of_ne (fun heq => not_below_child node _ (heq ▸ hk)) _ _
      rw [toward, turnAway_node, turnAway, toward]
      by_cases hside : side n start leaf' = side n start leaf
      · -- Here the ways to the two leaves are the same.
        have hrest := ih (child node (side n start leaf)) (half n start (side n start leaf))
          (Function.update bits node !side n start leaf')
        rw [toward_congr leaf hupdate] at hrest
        rw [hside, Bool.not_beq_self, Bool.toNat_false]
        rw [hside] at hrest
        omega
      · -- Here they part, and the other subtree is not touched.
        have hrest : ∀ k, Below (child node (side n start leaf)) k →
            turnAway leaf' n (child node (side n start leaf'))
              (half n start (side n start leaf'))
              (Function.update bits node !side n start leaf') k = bits k := fun k hk => by
          rw [turnAway_of_not_below leaf' _ fun hk' => hside (hk'.child_inj hk), hupdate k hk]
        have hbit := Bool.toNat_le ((!side n start leaf') == side n start leaf)
        rw [toward_congr leaf hrest]
        omega

/-! ## What the bits tell of the uses -/

/-- The half that was not used last, of the subtree of height `n + 1` that begins with the leaf
`start`, or the first half if none of its leaves was used. -/
def olderHalf (uses : List Nat) (n start : Nat) : Bool :=
  match (uses.filter fun leaf => start ≤ leaf ∧ leaf < start + 2 ^ (n + 1)).getLast? with
  | some leaf => !side n start leaf
  | none => false

theorem olderHalf_concat (uses : List Nat) (leaf n start : Nat) :
    olderHalf (uses ++ [leaf]) n start =
      if start ≤ leaf ∧ leaf < start + 2 ^ (n + 1) then !side n start leaf
      else olderHalf uses n start := by
  unfold olderHalf
  rw [List.filter_append, List.filter_cons, List.filter_nil]
  simp only [decide_eq_true_eq]
  by_cases hmem : start ≤ leaf ∧ leaf < start + 2 ^ (n + 1)
  · rw [if_pos hmem, if_pos hmem, List.getLast?_concat]
  · rw [if_neg hmem, if_neg hmem, List.append_nil]

/-- The bits of a subtree are what `turn` says of its nodes. -/
def Tells (bits : Nat → Bool) (turn : Nat → Nat → Bool) : Nat → Nat → Nat → Prop
  | 0, _, _ => True
  | n + 1, node, start =>
      bits node = turn n start ∧ ∀ bit, Tells bits turn n (child node bit) (half n start bit)

theorem Tells.path_eq {bits : Nat → Bool} {turn : Nat → Nat → Bool} {n node start : Nat}
    (h : Tells bits turn n node start) : path bits n node start = descend turn n start := by
  induction n generalizing node start with
  | zero => rfl
  | succ n ih =>
      obtain ⟨hbit, hrest⟩ := h
      rw [path, descend, ← hbit]
      exact ih (hrest (bits node))

theorem Tells.congr {bits bits' : Nat → Bool} {turn : Nat → Nat → Bool} {n node start : Nat}
    (h : Tells bits turn n node start) (hbits : ∀ k, Below node k → bits' k = bits k) :
    Tells bits' turn n node start := by
  induction n generalizing node start with
  | zero => trivial
  | succ n ih =>
      obtain ⟨hbit, hrest⟩ := h
      refine ⟨(hbits node (below_self node)).trans hbit, fun bit => ?_⟩
      exact ih (hrest bit) fun k hk => hbits k hk.of_child

/-- Before the first use no bit is set. -/
theorem tells_nil (n node start : Nat) : Tells (fun _ => false) (olderHalf []) n node start := by
  induction n generalizing node start with
  | zero => trivial
  | succ n ih => exact ⟨rfl, fun bit => ih (child node bit) (half n start bit)⟩

/-- The use of a leaf that is elsewhere changes nothing. -/
theorem Tells.concat_of_not_mem {bits : Nat → Bool} {uses : List Nat} {leaf n node start : Nat}
    (h : Tells bits (olderHalf uses) n node start) (hout : ¬(start ≤ leaf ∧ leaf < start + 2 ^ n)) :
    Tells bits (olderHalf (uses ++ [leaf])) n node start := by
  induction n generalizing node start with
  | zero => trivial
  | succ n ih =>
      obtain ⟨hbit, hrest⟩ := h
      refine ⟨by rw [olderHalf_concat, if_neg hout, hbit], fun bit => ?_⟩
      refine ih (hrest bit) fun hmem => hout ?_
      obtain ⟨hfirst, hlast⟩ := half_le n start bit
      exact ⟨Nat.le_trans hfirst hmem.1, Nat.lt_of_lt_of_le hmem.2 hlast⟩

/-- A leaf is in the half on its side. -/
theorem mem_half_side {leaf n start : Nat} (h : start ≤ leaf ∧ leaf < start + 2 ^ (n + 1)) :
    half n start (side n start leaf) ≤ leaf ∧
      leaf < half n start (side n start leaf) + 2 ^ n := by
  rw [Nat.pow_succ] at h
  unfold half side
  rcases Nat.lt_or_ge leaf (start + 2 ^ n) with hlt | hge
  · rw [decide_eq_false (Nat.not_le.2 hlt), Bool.toNat_false]
    omega
  · rw [decide_eq_true hge, Bool.toNat_true]
    omega

/-- If the bits are turned away from the leaf that is used, they tell of this use as well. -/
theorem Tells.turnAway {bits : Nat → Bool} {uses : List Nat} {leaf n node start : Nat}
    (h : Tells bits (olderHalf uses) n node start)
    (hmem : start ≤ leaf ∧ leaf < start + 2 ^ n) :
    Tells (turnAway leaf n node start bits) (olderHalf (uses ++ [leaf])) n node start := by
  induction n generalizing node start bits with
  | zero => trivial
  | succ n ih =>
      obtain ⟨-, hrest⟩ := h
      have hupdate : ∀ bit k, Below (child node bit) k →
          Function.update bits node (!side n start leaf) k = bits k := by
        intro bit k hk
        refine Function.update_of_ne ?_ _ _
        rintro rfl
        exact not_below_child _ bit hk
      refine ⟨by rw [turnAway_node, olderHalf_concat, if_pos hmem], fun bit => ?_⟩
      by_cases hside : bit = side n start leaf
      · -- The leaf is in this half.
        subst hside
        exact ih ((hrest _).congr (hupdate _)) (mem_half_side hmem)
      · -- It is in the other one, and the bits of this one are not touched.
        refine ((hrest bit).concat_of_not_mem fun hin => hside (side_eq hin.1 hin.2).symm).congr
          fun k hk => ?_
        rw [BitTree.turnAway, turnAway_of_not_below leaf _ fun hk' => hside (hk.child_inj hk'),
          hupdate bit k hk]

end BitTree
