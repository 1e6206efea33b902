import Midi2.Adt.PlruUsage

/-!
# What the cache evicts (`adt/plru_cache.hpp`)

According to the documentation of `access`, a value is evicted when the cache is fully occupied.
But the way that is reused is found by the replacement tree, which remembers what was used last
and not what is in use. Hits turn it away from ways, and may turn it towards a half of the set
that is full while there is room in the other half.

When this is so follows from the order in which the ways of the set were used, and so from the keys
of all accesses up to then (`NoDetour`). Exactly then something is evicted from a set that is not
full (`evictsOnlyFromFull_iff`).

There are at least two sets, of which the number is made by `s + 1` bits of a key. For a single one
`tagged_key` would shift the key by `SetBits - 1`, which is not defined when `SetBits` is zero.
-/

namespace Midi2.Adt

open BitTree

namespace Trace

variable {α σ : Type} {s d : Nat}

/-- If a key is not in the cache and its set is not full, then the access, which leads from `t`
to `t'`, fills a way that is not in use, and all keys in the cache remain. -/
def EvictsOnlyFromFull (t : Trace α σ (s + 1) (2 ^ d)) (a : Access α σ)
    (t' : Trace α σ (s + 1) (2 ^ d)) : Prop :=
  t.cache.contains a.key = false →
  ¬Full (t.cache.sets (PlruCache.set (s + 1) a.key)).used d 0 →
  (∃ way < 2 ^ d, (t.cache.sets (PlruCache.set (s + 1) a.key)).used way = false ∧
    (t'.cache.sets (PlruCache.set (s + 1) a.key)).used way = true) ∧
  ∀ key, t.cache.contains key = true → t'.cache.contains key = true

/-- The accesses so far had these keys. If the key has no way, then one that takes, at each node of
the tree of its set, the half that was not used last does not come to a half of which all ways have
been used while the other half has a way that has not. -/
def NoDetour (s d : Nat) (keys : List Nat) (key : Nat) : Prop :=
  let u := Usage.ofKeys s d (PlruCache.set (s + 1) key) keys
  ¬u.Holds d key → ¬Detours (fun way => way ∈ u.order) (olderHalf u.order) d 0

/-- A key whose entry is reused is no longer in the cache. -/
theorem Core.evicted {t : Trace α σ (s + 1) (2 ^ d)} (h : t.Core) {key : Nat} (v : α)
    (hout : t.cache.contains key = false)
    (hused : (t.cache.sets (PlruCache.set (s + 1) key)).used
      ((t.cache.sets (PlruCache.set (s + 1) key)).target (2 ^ d) (taggedKey (s + 1) key)) =
        true) :
    ∃ key', t.cache.contains key' = true ∧ (t.cache.put key v).contains key' ≠ true := by
  have hset := PlruCache.set_lt (s + 1) key
  have hway := (t.cache.sets (PlruCache.set (s + 1) key)).target_lt (Nat.two_pow_pos d)
    (taggedKey (s + 1) key)
  -- The key of the entry that is reused is found there.
  obtain ⟨key', hset', htag'⟩ : ∃ key', PlruCache.set (s + 1) key' = PlruCache.set (s + 1) key ∧
      taggedKey (s + 1) key' = (t.cache.sets (PlruCache.set (s + 1) key)).keys
        ((t.cache.sets (PlruCache.set (s + 1) key)).target (2 ^ d) (taggedKey (s + 1) key)) :=
    ⟨_, (keyOf_iff hset hused).2 rfl⟩
  have hfound := (h.distinct (PlruCache.set (s + 1) key)).findMatching_eq hused hway rfl
  have hin : t.cache.contains key' = true := by
    rw [PlruCache.contains_iff, hset', htag', hfound]
    exact hway
  refine ⟨key', hin, fun hremains => ?_⟩
  -- If it were still there, it would share its slot with the new key.
  have hne : key' ≠ key := by
    rintro rfl
    rw [hout] at hin
    cases hin
  obtain ⟨hself, -, hslot⟩ := h.distinct.put_self (Nat.two_pow_pos d) key v
  obtain ⟨-, -, hslot'⟩ := h.distinct.put_other v hne hremains
  refine hne (PlruCache.slot_inj hremains hself (hslot'.trans (Eq.trans ?_ hslot.symm)))
  rw [PlruCache.slot, hset', htag', hfound, PlruCache.targetSlot]

/-- The way that is reused was not in use, or the set was full. -/
theorem Core.evictionFromFull_iff {t : Trace α σ (s + 1) (2 ^ d)} (h : t.Core)
    (a : Access α σ) : EvictsOnlyFromFull t a (machine.step t a).1 ↔
      (t.cache.contains a.key = false →
        (t.cache.sets (PlruCache.set (s + 1) a.key)).used
          ((t.cache.sets (PlruCache.set (s + 1) a.key)).target (2 ^ d)
            (taggedKey (s + 1) a.key)) = false ∨
        Full (t.cache.sets (PlruCache.set (s + 1) a.key)).used d 0) := by
  unfold EvictsOnlyFromFull
  refine imp_congr_right fun hout => ?_
  obtain ⟨v, hcache⟩ := cache_step t a
  have hway := (t.cache.sets (PlruCache.set (s + 1) a.key)).target_lt (Nat.two_pow_pos d)
    (taggedKey (s + 1) a.key)
  rw [hcache]
  constructor
  · intro hevicts
    rcases Classical.em (Full (t.cache.sets (PlruCache.set (s + 1) a.key)).used d 0) with
      hfull | hroom
    · exact Or.inr hfull
    · refine Or.inl (Bool.eq_false_iff.2 fun hused => ?_)
      obtain ⟨key, hin, hlost⟩ := h.evicted v hout hused
      exact hlost ((hevicts hroom).2 key hin)
  · rintro (hfree | hfull) hroom
    · refine ⟨⟨_, hway, hfree, ?_⟩, fun key hin => ?_⟩
      · rw [PlruCache.sets_put_self, CacheSet.used, CacheSet.keys_put_self]
        exact validTag_taggedKey (s + 1) a.key
      · by_contra hlost
        have htag := (PlruCache.put_lost hin hlost).2
        rw [CacheSet.used, htag, validTag_taggedKey] at hfree
        cases hfree
    · exact absurd hfull hroom

/-- The tree goes the way of the half that was not used last. -/
theorem noDetour_iff (s d : Nat) (state : σ) (pre : List (Access α σ)) (key : Nat)
    {t : Trace α σ (s + 1) (2 ^ d)} (ht : (machine.run { state } pre).1 = t) :
    NoDetour s d (pre.map Access.key) key ↔
      (t.cache.contains key = false →
        (t.cache.sets (PlruCache.set (s + 1) key)).used
          ((t.cache.sets (PlruCache.set (s + 1) key)).target (2 ^ d) (taggedKey (s + 1) key)) =
            false ∨
        Full (t.cache.sets (PlruCache.set (s + 1) key)).used d 0) := by
  have hdescribes := describes_run s d (PlruCache.set (s + 1) key) state pre
  rw [ht] at hdescribes
  have hout : ¬(Usage.ofKeys s d (PlruCache.set (s + 1) key) (pre.map Access.key)).Holds d key ↔
      t.cache.contains key = false := by
    rw [hdescribes.holds_iff rfl, ← PlruCache.contains_iff, Bool.not_eq_true]
  rw [← hout]
  refine imp_congr_right fun hnone => ?_
  rw [not_detours_iff, hdescribes.target_eq rfl, Usage.wayOf_of_not_holds hnone,
    hdescribes.used_eq]

/-- Throughout a run, a cache of two sets or more evicts only from full sets if and only if the
order in which the ways of a set were used never leads to a full half of it with room in the other
half. -/
theorem evictsOnlyFromFull_iff (s d : Nat) (state : σ) (accesses : List (Access α σ)) :
    Machine.AtEachStep (fun pre a =>
        EvictsOnlyFromFull (machine.run ({ state } : Trace α σ (s + 1) (2 ^ d)) pre).1 a
          (machine.step (machine.run ({ state } : Trace α σ (s + 1) (2 ^ d)) pre).1 a).1)
        accesses ↔
      Machine.AtEachStep (fun pre a => NoDetour s d (pre.map Access.key) a.key) accesses := by
  refine Machine.atEachStep_congr fun pre a _ => ?_
  rw [noDetour_iff s d state pre a.key rfl]
  exact (core_run s d state pre).evictionFromFull_iff a

/-- Two sets of four ways: key 2 is evicted although there is room in its set. -/
theorem not_evictsOnlyFromFull :
    let t := (machine.run ({ state := () } : Trace Nat Unit 1 (2 ^ 2))
      ([0, 2, 0, 4, 0].map plainAccess)).1
    (t.cache.contains 6 = false ∧ (t.cache.sets 0).used 1 = false ∧
      t.cache.contains 2 = true ∧
      (machine.step t (plainAccess 6)).1.cache.contains 2 = false) ∧
    ¬EvictsOnlyFromFull t (plainAccess 6) (machine.step t (plainAccess 6)).1 := by
  intro t
  have hfacts : t.cache.contains 6 = false ∧ (t.cache.sets 0).used 1 = false ∧
      t.cache.contains 2 = true ∧
      (machine.step t (plainAccess 6)).1.cache.contains 2 = false := by decide
  obtain ⟨hout, hfree, hin, hlost⟩ := hfacts
  refine ⟨⟨hout, hfree, hin, hlost⟩, fun hevicts => ?_⟩
  have hroom : ¬Full (t.cache.sets (PlruCache.set 1 6)).used 2 0 := fun hfull => by
    rw [show PlruCache.set 1 6 = 0 from rfl] at hfull
    rw [hfull 1 (by decide) (by decide)] at hfree
    cases hfree
  rw [(hevicts hout hroom).2 2 hin] at hlost
  cases hlost

end Trace

end Midi2.Adt
