import Midi2.Adt.PlruSound
import Midi2.Lib.BitTree

/-!
# What the replacement tree remembers (`adt/plru_cache.hpp`)

`touch` turns the bits of the tree away from a way, and `oldest` is at the end of the path along
them (`Tree.bits_touch`, `Tree.oldest_eq`). So at each node the tree tells which half of the ways
below it was not used last, and no more than that.

What is in a set is then a matter of the keys that it was accessed with. `Usage` has the order in
which its ways were used, and which key each of them was used for: a key uses the way that it
has, or else the way that one comes to by taking at each node the half that was not used last.
`describes_run` says that this is what the cache does.
-/

namespace Midi2.Adt

open BitTree

namespace Tree

/-- The loop of `oldest` goes along the path. -/
theorem oldestFrom_eq {d n node start fuel : Nat} (bits : Nat → Bool) (h : Subtree d n node start)
    (hfuel : n ≤ fuel) :
    oldestFrom (2 ^ d) bits fuel node = 2 ^ d - 1 + path bits n node start := by
  induction n generalizing node start fuel with
  | zero =>
      have hleaf := h.leaf
      rw [path, ← hleaf]
      cases fuel with
      | zero => rfl
      | succ fuel => exact if_neg (by omega)
  | succ n ih =>
      cases fuel with
      | zero => cases hfuel
      | succ fuel =>
          rw [oldestFrom, if_pos h.inner, path]
          exact ih (h.child (bits node)) (Nat.le_of_succ_le_succ hfuel)

theorem oldest_eq (t : Tree) (d : Nat) : t.oldest (2 ^ d) = path t.bits d 0 0 := by
  rw [oldest, oldestFrom_eq t.bits (Subtree.root d) (Nat.le_of_lt Nat.lt_two_pow_self),
    Nat.add_sub_cancel_left]

/-- The loop of `touch` turns the bits away from the way. -/
theorem touchFrom_eq {d n node start fuel : Nat} (way : Nat) (bits : Nat → Bool)
    (h : Subtree d n node start) (hfuel : n ≤ fuel) :
    touchFrom (2 ^ d) way fuel node start (start + 2 ^ n) bits =
      turnAway way n node start bits := by
  induction n generalizing node start fuel bits with
  | zero =>
      have hleaf := h.leaf
      cases fuel with
      | zero => rfl
      | succ fuel => exact if_neg (by omega)
  | succ n ih =>
      cases fuel with
      | zero => cases hfuel
      | succ fuel =>
          have hmid : start + (start + 2 ^ (n + 1) - start) / 2 = start + 2 ^ n := by
            rw [Nat.add_sub_cancel_left, Nat.pow_succ, Nat.mul_div_cancel _ Nat.two_pos]
          have hchild := ih (Function.update bits node !side n start way)
            (h.child (side n start way)) (Nat.le_of_succ_le_succ hfuel)
          rw [touchFrom, if_pos h.inner, turnAway, ← hchild]
          simp only [hmid, child, half, side]
          rcases Nat.lt_or_ge way (start + 2 ^ n) with hlt | hge
          · rw [decide_eq_true hlt, decide_eq_false (Nat.not_le.2 hlt)]
            simp
          · rw [decide_eq_false (Nat.not_lt.2 hge), decide_eq_true hge]
            simp [Nat.pow_succ, Nat.mul_two, Nat.add_assoc]

theorem bits_touch (t : Tree) (d way : Nat) :
    (t.touch (2 ^ d) way).bits = turnAway way d 0 0 t.bits := by
  have hfrom := touchFrom_eq way t.bits (Subtree.root d) (Nat.le_of_lt Nat.lt_two_pow_self)
  rw [Nat.zero_add] at hfrom
  exact hfrom

end Tree

/-- The loop of `find` looks for the first way with the tag. -/
theorem matchFrom_eq_find (tag : Nat) (keys : Nat → Nat) (n index : Nat) :
    matchFrom tag keys n index =
      ((List.range' index n).find? fun way => keys way = tag).getD (index + n) := by
  induction n generalizing index with
  | zero => rfl
  | succ n ih =>
      rw [matchFrom, List.range'_succ]
      split
      case isTrue htag =>
        rw [List.find?_cons, decide_eq_true htag]
        rfl
      case isFalse hne =>
        rw [List.find?_cons, decide_eq_false hne, ih, Nat.add_assoc, Nat.add_comm 1]

/-- The entry of a way is in use. -/
def CacheSet.used {α : Type} (c : CacheSet α) (way : Nat) : Bool :=
  validTag (c.keys way)

/-! ## The uses of the ways of a set -/

/-- The ways of a set in the order in which they were used, and the key that each was last used
for. -/
structure Usage where
  order : List Nat := []
  keyAt : Nat → Option Nat := fun _ => none

namespace Usage

variable {s d i : Nat}

/-- The way that a key uses: the one that it has, or else the one that is found by taking at each
node the half that was not used last. -/
def wayOf (u : Usage) (d key : Nat) : Nat :=
  ((List.range (2 ^ d)).find? fun way => u.keyAt way = some key).getD
    (descend (olderHalf u.order) d 0)

/-- A key uses a way. -/
def use (u : Usage) (d key : Nat) : Usage where
  order := u.order ++ [u.wayOf d key]
  keyAt := Function.update u.keyAt (u.wayOf d key) (some key)

@[simp] theorem order_use (u : Usage) (d key : Nat) :
    (u.use d key).order = u.order ++ [u.wayOf d key] := rfl

theorem keyAt_use (u : Usage) (d key way : Nat) :
    (u.use d key).keyAt way = if way = u.wayOf d key then some key else u.keyAt way :=
  Function.update_apply ..

/-- How the ways of set `i` are used by accesses with these keys. -/
def ofKeys (s d i : Nat) (keys : List Nat) : Usage :=
  (keys.filter fun key => PlruCache.set (s + 1) key = i).foldl (fun u key => u.use d key) {}

/-- The key has a way. -/
def Holds (u : Usage) (d key : Nat) : Prop :=
  ∃ way < 2 ^ d, u.keyAt way = some key

theorem wayOf_of_not_holds {u : Usage} {key : Nat} (h : ¬u.Holds d key) :
    u.wayOf d key = descend (olderHalf u.order) d 0 := by
  have hnone : (List.range (2 ^ d)).find? (fun way => u.keyAt way = some key) = none :=
    List.find?_eq_none.2 fun way hway hkey =>
      h ⟨way, List.mem_range.1 hway, of_decide_eq_true hkey⟩
  rw [wayOf, hnone, Option.getD_none]

theorem ofKeys_concat (s d i : Nat) (keys : List Nat) (key : Nat) :
    ofKeys s d i (keys ++ [key]) =
      if PlruCache.set (s + 1) key = i then (ofKeys s d i keys).use d key
      else ofKeys s d i keys := by
  unfold ofKeys
  rw [List.filter_append, List.filter_singleton, List.foldl_append]
  by_cases hset : PlruCache.set (s + 1) key = i
  · simp only [if_pos hset, decide_eq_true hset, cond_true, List.foldl_cons, List.foldl_nil]
  · simp only [if_neg hset, decide_eq_false hset, cond_false, List.foldl_nil]

/-! ## The cache does the same -/

variable {α : Type}

/-- The ways of set `i` were used in this way, and its tree tells of these uses. -/
structure Describes (u : Usage) (s d i : Nat) (c : CacheSet α) : Prop where
  tag : ∀ way, c.keys way = ((u.keyAt way).map (taggedKey (s + 1))).getD 0
  set : ∀ way key, u.keyAt way = some key → PlruCache.set (s + 1) key = i
  order : ∀ way, (u.keyAt way).isSome = true ↔ way ∈ u.order
  bits : Tells c.plru.bits (olderHalf u.order) d 0 0

theorem describes_nil (s d i : Nat) : Describes {} s d i ({} : CacheSet α) where
  tag _ := rfl
  set _ _ h := absurd h (Option.some_ne_none _).symm
  order _ := iff_of_false Bool.false_ne_true List.not_mem_nil
  bits := tells_nil d 0 0

variable {u : Usage} {c : CacheSet α} {key : Nat}

theorem Describes.tag_iff (h : u.Describes s d i c) (hset : PlruCache.set (s + 1) key = i)
    (way : Nat) : c.keys way = taggedKey (s + 1) key ↔ u.keyAt way = some key := by
  rw [h.tag]
  cases hkey : u.keyAt way with
  | none =>
      refine iff_of_false (fun heq => ?_) (Option.some_ne_none key).symm
      have hvalid := validTag_taggedKey (s + 1) key
      rw [← heq] at hvalid
      exact not_validTag_zero hvalid
  | some key' =>
      constructor
      · intro heq
        by_contra hne
        have hset' := (h.set way key' hkey).trans hset.symm
        exact tag_ne (fun hsame => hne (congrArg some hsame)) hset' heq
      · intro heq
        rw [Option.some.inj heq]
        rfl

/-- The ways in use are those that have been used. -/
theorem Describes.used_eq (h : u.Describes s d i c) :
    c.used = fun way => decide (way ∈ u.order) := by
  funext way
  rw [Bool.eq_iff_iff, decide_eq_true_eq, CacheSet.used, h.tag, ← h.order]
  cases u.keyAt way with
  | none => exact iff_of_false not_validTag_zero Bool.false_ne_true
  | some key => exact iff_of_true (validTag_taggedKey (s + 1) key) rfl

theorem Describes.holds_iff (h : u.Describes s d i c) (hset : PlruCache.set (s + 1) key = i) :
    u.Holds d key ↔ c.findMatching (2 ^ d) (taggedKey (s + 1) key) < 2 ^ d := by
  rw [CacheSet.findMatching_lt_iff, Holds]
  exact exists_congr fun way => and_congr_right fun _ => (h.tag_iff hset way).symm

/-- The way that an access uses. -/
theorem Describes.target_eq (h : u.Describes s d i c) (hset : PlruCache.set (s + 1) key = i) :
    c.target (2 ^ d) (taggedKey (s + 1) key) = u.wayOf d key := by
  have hfind : c.findMatching (2 ^ d) (taggedKey (s + 1) key) =
      ((List.range (2 ^ d)).find? fun way => u.keyAt way = some key).getD (2 ^ d) := by
    rw [CacheSet.findMatching, matchFrom_eq_find, ← List.range_eq_range', Nat.zero_add]
    simp only [h.tag_iff hset]
  rw [CacheSet.target, hfind, wayOf]
  cases hway : (List.range (2 ^ d)).find? fun way => u.keyAt way = some key with
  | none =>
      rw [Option.getD_none, Option.getD_none, if_neg (Nat.lt_irrefl _), Tree.oldest_eq,
        h.bits.path_eq]
  | some way =>
      have hlt : way < 2 ^ d := List.mem_range.1 (List.mem_of_find?_eq_some hway)
      rw [Option.getD_some, Option.getD_some, if_pos hlt]

theorem Describes.put (h : u.Describes s d i c) (hset : PlruCache.set (s + 1) key = i) (v : α) :
    (u.use d key).Describes s d i (c.put (2 ^ d) (c.target (2 ^ d) (taggedKey (s + 1) key))
      (taggedKey (s + 1) key) v) := by
  have hlt := c.target_lt (Nat.two_pow_pos d) (taggedKey (s + 1) key)
  rw [h.target_eq hset] at hlt ⊢
  constructor
  · intro way
    by_cases hway : way = u.wayOf d key
    · rw [hway, CacheSet.keys_put_self, keyAt_use, if_pos rfl]
      rfl
    · rw [CacheSet.keys_put_of_ne c _ _ v hway, h.tag, keyAt_use, if_neg hway]
  · intro way key' hkey
    rw [keyAt_use] at hkey
    split at hkey
    case isTrue => rw [← Option.some.inj hkey, hset]
    case isFalse => exact h.set way key' hkey
  · intro way
    rw [keyAt_use, order_use, List.mem_append, List.mem_singleton]
    split
    case isTrue hway => exact iff_of_true rfl (Or.inr hway)
    case isFalse hway => rw [h.order, or_iff_left hway]
  · rw [CacheSet.put, Tree.bits_touch]
    exact h.bits.turnAway ⟨Nat.zero_le _, by rwa [Nat.zero_add]⟩

end Usage

namespace Trace

variable {α σ : Type} {s d : Nat}

/-- What is in a set after a run follows from the keys of the accesses. -/
theorem describes_run (s d i : Nat) (state : σ) (accesses : List (Access α σ)) :
    (Usage.ofKeys s d i (accesses.map Access.key)).Describes s d i
      ((machine.run ({ state } : Trace α σ (s + 1) (2 ^ d)) accesses).1.cache.sets i) := by
  induction accesses using List.reverseRecOn with
  | nil => exact Usage.describes_nil s d i
  | append_singleton accesses a ih =>
      obtain ⟨v, hcache⟩ := cache_step
        (machine.run ({ state } : Trace α σ (s + 1) (2 ^ d)) accesses).1 a
      rw [List.map_append, List.map_singleton, Usage.ofKeys_concat, Machine.run_append,
        Machine.run_singleton, hcache]
      split
      case isTrue hset =>
        have hput := ih.put hset v
        rw [← hset] at hput ⊢
        rwa [PlruCache.sets_put_self]
      case isFalse hset =>
        rw [PlruCache.sets_put_of_ne _ v (Ne.symm hset)]
        exact ih

/-- Keys 0, 2 and 4 of set 0, with hits on key 0 in between. -/
example : (Usage.ofKeys 0 2 0 [0, 2, 0, 4, 0]).order = [0, 2, 0, 3, 0] := by
  decide

end Trace

end Midi2.Adt
