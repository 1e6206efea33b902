import Midi2.Adt.PlruUsage

/-!
# What the cache keeps (`adt/plru_cache.hpp`)

The replacement tree knows that an entry is older than another one only in part. What it does
know is this: the entry that was used last is not the oldest one for as many uses as the tree is
high, because each of them turns at most one of its bits to that entry (`toward_foldl_touch`).
Every access to a set is one use of its tree. So a key remains in the cache during as many
accesses to its set after its own (`recency`).
-/

namespace Midi2.Adt

open BitTree

namespace Tree

/-- How many of the bits that lead to a way are turned to it. -/
def toward (t : Tree) (d way : Nat) : Nat :=
  BitTree.toward t.bits way d 0 0

theorem toward_touch_self (t : Tree) (d way : Nat) : (t.touch (2 ^ d) way).toward d way = 0 := by
  rw [toward, bits_touch, toward_turnAway_self]

theorem toward_touch_le (t : Tree) (d way way' : Nat) :
    (t.touch (2 ^ d) way').toward d way ≤ t.toward d way + 1 := by
  rw [toward, bits_touch]
  exact toward_turnAway_le way way' d 0 0 t.bits

theorem toward_foldl_touch (t : Tree) (d way : Nat) (touches : List Nat) :
    (touches.foldl (fun t w => t.touch (2 ^ d) w) t).toward d way ≤
      t.toward d way + touches.length := by
  induction touches generalizing t with
  | nil => exact Nat.le_refl _
  | cons w touches ih =>
      have hstep := toward_touch_le t d way w
      have hrest := ih (t.touch (2 ^ d) w)
      rw [List.foldl_cons, List.length_cons]
      omega

/-- The oldest way is one that all bits are turned to. -/
theorem oldest_ne {t : Tree} {d way : Nat} (h : t.toward d way < d) : t.oldest (2 ^ d) ≠ way := by
  intro heq
  rw [toward, ← heq, oldest_eq, toward_path] at h
  exact Nat.lt_irrefl d h

end Tree

namespace CacheSet

variable {α : Type} {d way tag n : Nat}

/-- The way has the tag, and at most `n` of the bits that lead to it are turned to it. -/
structure Keeps (c : CacheSet α) (d way tag n : Nat) : Prop where
  key : c.keys way = tag
  toward : c.plru.toward d way ≤ n

theorem keeps_put (c : CacheSet α) (d way tag : Nat) (v : α) :
    (c.put (2 ^ d) way tag v).Keeps d way tag 0 where
  key := keys_put_self c (2 ^ d) tag v way
  toward := Nat.le_of_eq (Tree.toward_touch_self c.plru d way)

/-- Whatever is accessed, if it is not in the set then another way is reused for it. -/
theorem Keeps.put {c : CacheSet α} (h : c.Keeps d way tag n) (hn : n < d) (tag' : Nat) (v : α) :
    (c.put (2 ^ d) (c.target (2 ^ d) tag') tag' v).Keeps d way tag (n + 1) := by
  refine ⟨?_, Nat.le_trans (Tree.toward_touch_le c.plru d way _) (Nat.succ_le_succ h.toward)⟩
  by_cases htarget : way = c.target (2 ^ d) tag'
  · have hkey : c.keys way = tag' := by
      rw [target] at htarget
      split at htarget
      case isTrue hlt =>
        rw [htarget]
        exact keys_findMatching hlt
      case isFalse =>
        exact absurd htarget.symm (Tree.oldest_ne (Nat.lt_of_le_of_lt h.toward hn))
    rw [htarget, keys_put_self, ← hkey, h.key]
  · rw [keys_put_of_ne c (2 ^ d) tag' v htarget, h.key]

end CacheSet

namespace Trace

variable {α σ : Type} {s d : Nat}

/-- The access is to set `i`. -/
def isTo (s i : Nat) (a : Access α σ) : Bool :=
  PlruCache.set (s + 1) a.key = i

/-- Each access to the set turns one more bit to the way, and those to other sets none. -/
theorem keeps_run {t : Trace α σ (s + 1) (2 ^ d)} {i way tag n : Nat}
    (h : (t.cache.sets i).Keeps d way tag n) {accesses : List (Access α σ)}
    (hn : n + accesses.countP (isTo s i) ≤ d) :
    ((machine.run t accesses).1.cache.sets i).keys way = tag := by
  induction accesses generalizing t n with
  | nil => exact h.key
  | cons a accesses ih =>
      obtain ⟨v, hcache⟩ := cache_step t a
      rw [Machine.run_cons]
      cases hto : isTo s i a with
      | true =>
          have hset : PlruCache.set (s + 1) a.key = i := of_decide_eq_true hto
          rw [List.countP_cons_of_pos hto] at hn
          have hput := h.put (by omega) (taggedKey (s + 1) a.key) v
          refine @ih _ (n + 1) ?_ (by omega)
          rw [hcache, ← hset, PlruCache.sets_put_self, hset]
          exact hput
      | false =>
          have hset : i ≠ PlruCache.set (s + 1) a.key := Ne.symm (of_decide_eq_false hto)
          rw [List.countP_cons_of_neg (Bool.eq_false_iff.1 hto)] at hn
          refine ih ?_ hn
          rw [hcache, PlruCache.sets_put_of_ne t.cache v hset]
          exact h

/-- A key that has just been accessed, whatever the cache is, remains in it during `d` accesses
to its set. -/
theorem contains_run (t : Trace α σ (s + 1) (2 ^ d)) (a : Access α σ)
    {accesses : List (Access α σ)}
    (h : accesses.countP (isTo s (PlruCache.set (s + 1) a.key)) ≤ d) :
    (machine.run (machine.step t a).1 accesses).1.cache.contains a.key = true := by
  obtain ⟨v, hcache⟩ := cache_step t a
  have hkeeps : ((machine.step t a).1.cache.sets (PlruCache.set (s + 1) a.key)).Keeps d
      ((t.cache.sets (PlruCache.set (s + 1) a.key)).target (2 ^ d) (taggedKey (s + 1) a.key))
      (taggedKey (s + 1) a.key) 0 := by
    rw [hcache, PlruCache.sets_put_self]
    exact CacheSet.keeps_put _ d _ _ v
  rw [PlruCache.contains_iff, CacheSet.findMatching_lt_iff]
  refine ⟨_, (t.cache.sets _).target_lt (Nat.two_pow_pos d) _, keeps_run hkeeps ?_⟩
  rwa [Nat.zero_add]

/-- A way that was touched is not the oldest one during fewer than `d` touches after that, and a
key that was accessed remains in the cache during at most `d` accesses to its set. The cache has at
least two sets, `s + 1` bits of a key being the set number, since for a single set the shift that
makes a tag is not defined. -/
theorem recency (s d : Nat) :
    (∀ (tree : Tree) (way : Nat) (touches : List Nat), touches.length < d →
      (touches.foldl (fun t w => t.touch (2 ^ d) w) (tree.touch (2 ^ d) way)).oldest (2 ^ d) ≠
        way) ∧
    ∀ (t : Trace α σ (s + 1) (2 ^ d)) (a : Access α σ) (accesses : List (Access α σ)),
      accesses.countP (isTo s (PlruCache.set (s + 1) a.key)) ≤ d →
      (machine.run (machine.step t a).1 accesses).1.cache.contains a.key = true := by
  refine ⟨fun tree way touches hlen => Tree.oldest_ne ?_, fun t a accesses => contains_run t a⟩
  have htoward := Tree.toward_foldl_touch (tree.touch (2 ^ d) way) d way touches
  rw [Tree.toward_touch_self, Nat.zero_add] at htoward
  exact Nat.lt_of_le_of_lt htoward hlen

/-- Four ways, for which one further touch and two further accesses are harmless. -/
theorem recency_fourWays :
    ([3].foldl (fun t w => t.touch (2 ^ 2) w) (({} : Tree).touch (2 ^ 2) 1)).oldest (2 ^ 2) ≠ 1 ∧
    (machine.run (machine.step ({ state := () } : Trace Nat Unit 1 (2 ^ 2)) (plainAccess 6)).1
      ([1, 8, 3, 4].map plainAccess)).1.cache.contains 6 = true :=
  ⟨(@recency Nat Unit 0 2).1 {} 1 [3] (by decide),
    (recency 0 2).2 { state := () } (plainAccess 6) ([1, 8, 3, 4].map plainAccess) (by decide)⟩

end Trace

end Midi2.Adt
