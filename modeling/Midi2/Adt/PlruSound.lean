import Mathlib.Algebra.Order.BigOperators.Group.List
import Mathlib.Algebra.Order.Ring.Nat
import Mathlib.Data.Finset.Card
import Midi2.Adt.PlruCache
import Midi2.Lib.Machine

/-!
# The cache is sound (`adt/plru_cache.hpp`)

Whichever entry the replacement tree picks, a `plru_cache` has to remain a partial map from
keys to values. A key is split into its set and a tag, and the two determine it (`keyOf_iff`).
Of a set, an access changes one way only, the target: the way that has the tag, or else the
oldest one. It `put`s the tag, a value and the recency there, and that is all
(`access_cached`, `access_miss`). So the tags of a set remain distinct (`Distinct.put`), the
other tags keep their ways and values (`Distinct.put_other`), and at most the tag that was in
the target is lost (`put_lost`).

`Trace` is a cache in use, with a record of the calls of `miss`. `sound` says of every
sequence of accesses what the cache holds after it and what each access does.
-/

namespace Midi2.Adt

/-! ## Keys -/

theorem one_or_eq (n : Nat) : 1 ||| n = 2 * (n / 2) + 1 := by
  have hmod : (1 ||| n) % 2 = 1 := Nat.or_mod_two_eq_one.2 (Or.inl rfl)
  have hdiv : (1 ||| n) / 2 = n / 2 := by
    rw [Nat.or_div_two]
    exact Nat.zero_or _
  omega

theorem taggedKey_eq (s key : Nat) : taggedKey (s + 1) key = 2 * (key / 2 ^ (s + 1)) + 1 := by
  rw [taggedKey, Nat.add_sub_cancel, one_or_eq, Nat.shiftRight_eq_div_pow, Nat.div_div_eq_div_mul,
    Nat.pow_succ]

/-- The tag of a key of `w` bits has `w - setBits + 1` bits. -/
theorem taggedKey_lt {s w key : Nat} (hs : s + 1 ≤ w) (hkey : key < 2 ^ w) :
    taggedKey (s + 1) key < 2 ^ (w - s) := by
  have hpow : 2 ^ w = 2 ^ (w - (s + 1)) * 2 ^ (s + 1) := by
    rw [← Nat.pow_add, Nat.sub_add_cancel hs]
  have hhigh : key / 2 ^ (s + 1) < 2 ^ (w - (s + 1)) :=
    Nat.div_lt_of_lt_mul (by rw [Nat.mul_comm, ← hpow]; exact hkey)
  rw [taggedKey_eq, show w - s = w - (s + 1) + 1 by omega, Nat.pow_succ 2 (w - (s + 1))]
  omega

theorem PlruCache.set_eq (setBits key : Nat) : PlruCache.set setBits key = key % 2 ^ setBits :=
  Nat.and_two_pow_sub_one_eq_mod key setBits

theorem validTag_iff {tag : Nat} : validTag tag = true ↔ tag % 2 = 1 := by
  rw [validTag, Nat.and_one_is_mod, decide_eq_true_eq]
  omega

theorem not_validTag_zero : ¬validTag 0 = true := by
  decide

/-- The key that has a tag in set `i`. -/
def keyOf (s i tag : Nat) : Nat :=
  tag / 2 * 2 ^ (s + 1) + i

/-- Set and tag determine the key. -/
theorem keyOf_iff {s i tag key : Nat} (hi : i < 2 ^ (s + 1)) (htag : validTag tag = true) :
    PlruCache.set (s + 1) key = i ∧ taggedKey (s + 1) key = tag ↔ key = keyOf s i tag := by
  have hodd := validTag_iff.1 htag
  have hpos := Nat.two_pow_pos (s + 1)
  rw [PlruCache.set_eq, taggedKey_eq, keyOf]
  constructor
  · rintro ⟨hset, rfl⟩
    have hdiv := Nat.div_add_mod' key (2 ^ (s + 1))
    rw [show (2 * (key / 2 ^ (s + 1)) + 1) / 2 = key / 2 ^ (s + 1) by omega]
    omega
  · rintro rfl
    rw [Nat.mul_comm, Nat.mul_add_mod, Nat.mod_eq_of_lt hi, Nat.mul_add_div hpos,
      Nat.div_eq_of_lt hi]
    omega

theorem tag_ne {s key key' : Nat} (hne : key ≠ key')
    (hset : PlruCache.set (s + 1) key = PlruCache.set (s + 1) key') :
    taggedKey (s + 1) key ≠ taggedKey (s + 1) key' := by
  intro htag
  have hkey := (keyOf_iff (PlruCache.set_lt (s + 1) key')
    (validTag_taggedKey (s + 1) key')).1 ⟨hset, htag⟩
  have hkey' := (keyOf_iff (PlruCache.set_lt (s + 1) key')
    (validTag_taggedKey (s + 1) key')).1 ⟨rfl, rfl⟩
  exact hne (hkey.trans hkey'.symm)

/-! ## One set -/

namespace CacheSet

variable {α σ : Type} {ways : Nat}

theorem findMatching_lt_iff (c : CacheSet α) (ways tag : Nat) :
    c.findMatching ways tag < ways ↔ ∃ way < ways, c.keys way = tag := by
  constructor
  · intro hlt
    exact ⟨_, hlt, matchFrom_eq c.keys (by rwa [Nat.zero_add])⟩
  · rintro ⟨way, hway, hkey⟩
    refine Nat.lt_of_le_of_lt (Nat.not_lt.1 fun hlt => ?_) hway
    exact matchFrom_first (Nat.zero_le way) hlt hkey

theorem keys_findMatching {c : CacheSet α} {tag : Nat} (h : c.findMatching ways tag < ways) :
    c.keys (c.findMatching ways tag) = tag :=
  matchFrom_eq c.keys (by rwa [Nat.zero_add])

/-- The way that an access uses: that of the tag, or the oldest one. -/
def target (c : CacheSet α) (ways tag : Nat) : Nat :=
  if c.findMatching ways tag < ways then c.findMatching ways tag else c.plru.oldest ways

/-- A way is given a tag and a value, and is the one used last. -/
def put (c : CacheSet α) (ways way tag : Nat) (v : α) : CacheSet α where
  keys := Function.update c.keys way tag
  values := Function.update c.values way (some v)
  plru := c.plru.touch ways way

section PutLemmas

variable (c : CacheSet α) (ways tag : Nat) (v : α) {way i : Nat}

theorem keys_put_self (way : Nat) : (c.put ways way tag v).keys way = tag := by
  simp only [put, Function.update_self]

theorem keys_put_of_ne (h : i ≠ way) : (c.put ways way tag v).keys i = c.keys i := by
  simp only [put, Function.update_of_ne h]

theorem values_put_self (way : Nat) : (c.put ways way tag v).values way = some v := by
  simp only [put, Function.update_self]

theorem values_put_of_ne (h : i ≠ way) : (c.put ways way tag v).values i = c.values i := by
  simp only [put, Function.update_of_ne h]

end PutLemmas

theorem target_lt (c : CacheSet α) (hways : 0 < ways) (tag : Nat) : c.target ways tag < ways := by
  unfold target
  split
  case isTrue hlt => exact hlt
  case isFalse => exact c.plru.oldest_lt hways

/-- The target of a tag has that tag, or nothing has. -/
theorem keys_target (c : CacheSet α) (ways tag : Nat) :
    c.keys (c.target ways tag) = tag ∨ ∀ way < ways, c.keys way ≠ tag := by
  unfold target
  split
  case isTrue hlt => exact Or.inl (keys_findMatching hlt)
  case isFalse hge =>
    exact Or.inr fun way hway hkey => hge ((findMatching_lt_iff c ways tag).2 ⟨way, hway, hkey⟩)

theorem target_eq (c : CacheSet α) {tag : Nat} (h : c.findMatching ways tag < ways) :
    c.target ways tag = c.findMatching ways tag :=
  if_pos h

/-- A way that has the tag and the value already. -/
theorem put_same {c : CacheSet α} {way tag : Nat} {v : α} (hkey : c.keys way = tag)
    (hv : c.values way = some v) :
    c.put ways way tag v = { c with plru := c.plru.touch ways way } := by
  have hkeys : Function.update c.keys way tag = c.keys := Function.update_eq_self_iff.2 hkey.symm
  have hvalues : Function.update c.values way (some v) = c.values :=
    Function.update_eq_self_iff.2 hv.symm
  rw [put, hkeys, hvalues]

section Access

variable {setBits key : Nat} (miss : Nat → Nat → σ → α × σ) {valid : α → Bool} (index : Nat) (s : σ)

/-- A value that is found and still good is the result. -/
theorem access_cached {c : CacheSet α} {v : α}
    (hv : c.cached ways (taggedKey setBits key) = some v) (hgood : valid v = true) :
    c.access setBits ways key miss valid index s =
      (c.put ways (c.target ways (taggedKey setBits key)) (taggedKey setBits key) v,
        some v, s) := by
  simp only [cached] at hv
  split at hv
  case isTrue hlt =>
    rw [put_same (c.target_eq hlt ▸ keys_findMatching hlt) (c.target_eq hlt ▸ hv)]
    simp only [access, if_pos hlt, hv, Option.any_some, hgood, target_eq c hlt]
    rfl
  case isFalse => cases hv

/-- Else `miss` is called for the target, and what it produces is the result. -/
theorem access_miss {c : CacheSet α}
    (h : (c.cached ways (taggedKey setBits key)).any valid = false) :
    c.access setBits ways key miss valid index s =
      (c.put ways (c.target ways (taggedKey setBits key)) (taggedKey setBits key)
          (miss key (index + c.target ways (taggedKey setBits key)) s).1,
        some (miss key (index + c.target ways (taggedKey setBits key)) s).1,
        (miss key (index + c.target ways (taggedKey setBits key)) s).2) := by
  simp only [cached] at h
  split at h
  case isTrue hlt =>
    have hkeys : Function.update c.keys (c.findMatching ways (taggedKey setBits key))
        (taggedKey setBits key) = c.keys :=
      Function.update_eq_self_iff.2 (keys_findMatching hlt).symm
    simp only [access, if_pos hlt, h, target_eq c hlt, put, hkeys]
    rfl
  case isFalse hge =>
    simp only [access, if_neg hge, target, put]

end Access

/-- No two ways in use have the same tag. -/
def Distinct (c : CacheSet α) (ways : Nat) : Prop :=
  ∀ way < ways, ∀ way' < ways, validTag (c.keys way) = true → c.keys way = c.keys way' → way = way'

theorem Distinct.findMatching_eq {c : CacheSet α} (h : c.Distinct ways) {way tag : Nat}
    (htag : validTag tag = true) (hway : way < ways) (hkey : c.keys way = tag) :
    c.findMatching ways tag = way := by
  have hlt := (findMatching_lt_iff c ways tag).2 ⟨way, hway, hkey⟩
  have hfound := keys_findMatching hlt
  exact h _ hlt way hway (by rw [hfound]; exact htag) (hfound.trans hkey.symm)

section Put

variable {c : CacheSet α} {way tag : Nat} {v : α}

theorem Distinct.put (h : c.Distinct ways)
    (htarget : c.keys way = tag ∨ ∀ way < ways, c.keys way ≠ tag) :
    (c.put ways way tag v).Distinct ways := by
  rcases htarget with hsame | hnew
  · have hkeys : (c.put ways way tag v).keys = c.keys := Function.update_eq_self_iff.2 hsame.symm
    rw [Distinct, hkeys]
    exact h
  · intro i hi j hj hvalid heq
    simp only [CacheSet.put, Function.update_apply] at hvalid heq
    split at heq
    case isTrue hi' =>
      split at heq
      case isTrue hj' => rw [hi', hj']
      case isFalse => exact absurd heq.symm (hnew j hj)
    case isFalse hi' =>
      rw [if_neg hi'] at hvalid
      split at heq
      case isTrue => exact absurd heq (hnew i hi)
      case isFalse => exact h i hi j hj hvalid heq

/-- The tag that is put is then found, in that way and with that value. -/
theorem Distinct.put_self (h : (c.put ways way tag v).Distinct ways) (htag : validTag tag = true)
    (hway : way < ways) :
    (c.put ways way tag v).findMatching ways tag = way ∧
    (c.put ways way tag v).cached ways tag = some v := by
  have hfound := h.findMatching_eq htag hway (keys_put_self c ways tag v way)
  refine ⟨hfound, ?_⟩
  simp only [cached, hfound, if_pos hway]
  exact values_put_self c ways tag v way

/-- Another tag that is found afterwards was there before, with the same way and value. -/
theorem Distinct.put_other (h : c.Distinct ways) (h' : (c.put ways way tag v).Distinct ways)
    {tag' : Nat} (htag' : validTag tag' = true) (hne : tag' ≠ tag)
    (hfound : (c.put ways way tag v).findMatching ways tag' < ways) :
    c.findMatching ways tag' = (c.put ways way tag v).findMatching ways tag' ∧
    c.cached ways tag' = (c.put ways way tag v).cached ways tag' := by
  obtain ⟨i, hi, hkey⟩ := (findMatching_lt_iff _ ways tag').1 hfound
  have hi' : i ≠ way := by
    rintro rfl
    exact hne (hkey.symm.trans (keys_put_self c ways tag v i))
  have hkeyBefore : c.keys i = tag' := by rw [← hkey, keys_put_of_ne c ways tag v hi']
  have hafter := h'.findMatching_eq htag' hi hkey
  have hbefore := h.findMatching_eq htag' hi hkeyBefore
  refine ⟨hbefore.trans hafter.symm, ?_⟩
  simp only [cached, hbefore, hafter, if_pos hi, values_put_of_ne c ways tag v hi']

/-- The only tag that may be lost is that of the way. -/
theorem put_lost {tag' : Nat} (hbefore : c.findMatching ways tag' < ways)
    (hafter : ¬(c.put ways way tag v).findMatching ways tag' < ways) : c.keys way = tag' := by
  obtain ⟨i, hi, hkey⟩ := (findMatching_lt_iff c ways tag').1 hbefore
  by_cases hi' : i = way
  · rw [← hi', hkey]
  · refine absurd ((findMatching_lt_iff _ ways tag').2 ⟨i, hi, ?_⟩) hafter
    rw [← hkey, keys_put_of_ne c ways tag v hi']

end Put

end CacheSet

/-! ## The sets together -/

namespace PlruCache

variable {α σ : Type} {s setBits ways : Nat}

/-- The number of the entry that a key of the cache has. -/
def slot (c : PlruCache α setBits ways) (key : Nat) : Nat :=
  set setBits key * ways +
    (c.sets (set setBits key)).findMatching ways (taggedKey setBits key)

/-- The number of the entry that an access uses. -/
def targetSlot (c : PlruCache α setBits ways) (key : Nat) : Nat :=
  set setBits key * ways + (c.sets (set setBits key)).target ways (taggedKey setBits key)

/-- The cache when the target of a key has been given a value. -/
def put (c : PlruCache α setBits ways) (key : Nat) (v : α) : PlruCache α setBits ways where
  sets := Function.update c.sets (set setBits key)
    ((c.sets (set setBits key)).put ways
      ((c.sets (set setBits key)).target ways (taggedKey setBits key)) (taggedKey setBits key) v)

/-- No two ways of a set have the same tag, if they are in use. -/
def Distinct (c : PlruCache α setBits ways) : Prop :=
  ∀ i, (c.sets i).Distinct ways

theorem contains_of_cached {c : PlruCache α setBits ways} {key : Nat} {v : α}
    (h : c.cached key = some v) : c.contains key = true := by
  rw [contains, CacheSet.contains, decide_eq_true_eq]
  by_contra hge
  rw [cached, CacheSet.cached, if_neg hge] at h
  cases h

theorem distinct_empty : Distinct ({} : PlruCache α setBits ways) :=
  fun _ _ _ _ _ hvalid => absurd hvalid not_validTag_zero

theorem contains_iff {c : PlruCache α setBits ways} {key : Nat} :
    c.contains key = true ↔
      (c.sets (set setBits key)).findMatching ways (taggedKey setBits key) < ways := by
  rw [contains, CacheSet.contains, decide_eq_true_eq]

/-- An access either finds a good value or calls `miss`, once. -/
theorem access_eq (c : PlruCache α setBits ways) (key : Nat) (miss : Nat → Nat → σ → α × σ)
    (valid : α → Bool) (state : σ) :
    (∃ v, c.cached key = some v ∧ valid v = true ∧
      c.access key miss valid state = (c.put key v, some v, state)) ∨
    ((c.cached key).any valid = false ∧
      c.access key miss valid state =
        (c.put key (miss key (c.targetSlot key) state).1,
          some (miss key (c.targetSlot key) state).1, (miss key (c.targetSlot key) state).2)) := by
  cases hgood : (c.cached key).any valid with
  | true =>
      obtain ⟨v, hv, hvalid⟩ := (Option.any_eq_true _ _).1 hgood
      have hset := CacheSet.access_cached miss (set setBits key * ways) state hv hvalid
      refine Or.inl ⟨v, hv, hvalid, ?_⟩
      simp only [access, hset, put]
  | false =>
      have hset := CacheSet.access_miss miss (set setBits key * ways) state hgood
      refine Or.inr ⟨rfl, ?_⟩
      simp only [access, hset, put, targetSlot]

section Put

variable {c : PlruCache α (s + 1) ways}

theorem sets_put_self (c : PlruCache α setBits ways) (key : Nat) (v : α) :
    (c.put key v).sets (set setBits key) = (c.sets (set setBits key)).put ways
      ((c.sets (set setBits key)).target ways (taggedKey setBits key))
      (taggedKey setBits key) v := by
  simp only [put, Function.update_self]

theorem sets_put_of_ne (c : PlruCache α setBits ways) {key i : Nat} (v : α)
    (h : i ≠ set setBits key) : (c.put key v).sets i = c.sets i := by
  simp only [put, Function.update_of_ne h]

/-- All tags but one are what they were. -/
theorem keys_put (c : PlruCache α setBits ways) (key : Nat) (v : α) (i way : Nat) :
    ((c.put key v).sets i).keys way = taggedKey setBits key ∨
    ((c.put key v).sets i).keys way = (c.sets i).keys way := by
  by_cases hi : i = set setBits key
  · rw [hi, sets_put_self]
    by_cases hway : way =
        (c.sets (set setBits key)).target ways (taggedKey setBits key)
    · rw [hway]
      exact Or.inl (CacheSet.keys_put_self _ ways _ v _)
    · exact Or.inr (CacheSet.keys_put_of_ne _ ways _ v hway)
  · rw [sets_put_of_ne c v hi]
    exact Or.inr rfl

theorem Distinct.put (h : c.Distinct) (key : Nat) (v : α) : (c.put key v).Distinct := by
  intro i
  by_cases hi : i = set (s + 1) key
  · rw [hi, sets_put_self]
    exact (h _).put (CacheSet.keys_target _ ways _)
  · rw [sets_put_of_ne c v hi]
    exact h i

/-- The key that is put is in the entry that was chosen for it. -/
theorem Distinct.put_self (h : c.Distinct) (hways : 0 < ways) (key : Nat) (v : α) :
    (c.put key v).contains key = true ∧ (c.put key v).cached key = some v ∧
    (c.put key v).slot key = c.targetSlot key := by
  have hdistinct := h.put key v (set (s + 1) key)
  have hway := (c.sets (set (s + 1) key)).target_lt hways (taggedKey (s + 1) key)
  rw [sets_put_self] at hdistinct
  obtain ⟨hfound, hcached⟩ := hdistinct.put_self (validTag_taggedKey (s + 1) key) hway
  refine ⟨?_, ?_, ?_⟩
  · rw [contains_iff, sets_put_self, hfound]
    exact hway
  · rw [cached, sets_put_self]
    exact hcached
  · rw [slot, sets_put_self, hfound, targetSlot]

/-- Other keys in the cache have the values and the entries that they had. -/
theorem Distinct.put_other (h : c.Distinct) {key key' : Nat} (v : α) (hne : key' ≠ key)
    (hin : (c.put key v).contains key' = true) :
    c.contains key' = true ∧ (c.put key v).cached key' = c.cached key' ∧
    (c.put key v).slot key' = c.slot key' := by
  by_cases hset : set (s + 1) key' = set (s + 1) key
  · have hdistinct := h.put key v (set (s + 1) key)
    rw [contains_iff, hset, sets_put_self] at hin
    rw [sets_put_self] at hdistinct
    obtain ⟨hfound, hcached⟩ := (h _).put_other hdistinct (validTag_taggedKey (s + 1) key')
      (tag_ne hne hset) hin
    refine ⟨?_, ?_, ?_⟩
    · rw [contains_iff, hset, hfound]
      exact hin
    · rw [cached, hset, sets_put_self, ← hcached, cached, hset]
    · rw [slot, hset, sets_put_self, ← hfound, slot, hset]
  · have hsame := sets_put_of_ne c v hset
    rw [contains_iff, hsame] at hin
    refine ⟨contains_iff.2 hin, ?_, ?_⟩
    · rw [cached, hsame, cached]
    · rw [slot, hsame, slot]

/-- A key that is lost was in the entry that was chosen. -/
theorem put_lost {key key' : Nat} {v : α} (hin : c.contains key' = true)
    (hout : (c.put key v).contains key' ≠ true) :
    set (s + 1) key' = set (s + 1) key ∧
    (c.sets (set (s + 1) key)).keys
      ((c.sets (set (s + 1) key)).target ways (taggedKey (s + 1) key)) =
        taggedKey (s + 1) key' := by
  rw [contains_iff] at hin
  rw [ne_eq, contains_iff] at hout
  by_cases hset : set (s + 1) key' = set (s + 1) key
  · rw [hset] at hin hout
    rw [sets_put_self] at hout
    exact ⟨hset, CacheSet.put_lost hin hout⟩
  · rw [sets_put_of_ne c v hset] at hout
    exact absurd hin hout

end Put

/-- Keys that are in the cache have slots of their own. -/
theorem slot_inj {c : PlruCache α (s + 1) ways} {key key' : Nat} (hin : c.contains key = true)
    (hin' : c.contains key' = true) (hslot : c.slot key = c.slot key') : key = key' := by
  rw [contains_iff] at hin hin'
  have hpos : 0 < ways := Nat.lt_of_le_of_lt (Nat.zero_le _) hin
  have hset : set (s + 1) key = set (s + 1) key' := by
    have hdiv := congrArg (· / ways) hslot
    simpa [slot, Nat.mul_comm _ ways, Nat.mul_add_div hpos, Nat.div_eq_of_lt hin,
      Nat.div_eq_of_lt hin'] using hdiv
  by_contra hne
  refine tag_ne hne hset ?_
  rw [slot, slot, hset] at hslot
  have htag := CacheSet.keys_findMatching hin
  rw [hset, Nat.add_left_cancel hslot, CacheSet.keys_findMatching hin'] at htag
  exact htag.symm

/-! ## Counting the keys -/

/-- The keys of the entries in use, set by set. -/
def residents (c : PlruCache α (s + 1) ways) : List Nat :=
  (List.range (2 ^ (s + 1))).flatMap fun i =>
    ((List.range ways).filter fun way => validTag ((c.sets i).keys way)).map fun way =>
      keyOf s i ((c.sets i).keys way)

theorem mem_residents {c : PlruCache α (s + 1) ways} {key : Nat} :
    key ∈ c.residents ↔ c.contains key = true := by
  rw [residents, List.mem_flatMap, contains_iff, CacheSet.findMatching_lt_iff]
  constructor
  · rintro ⟨i, hi, hkey⟩
    obtain ⟨way, hway, rfl⟩ := List.mem_map.1 hkey
    obtain ⟨hlt, hvalid⟩ := List.mem_filter.1 hway
    obtain ⟨hset, htag⟩ := (keyOf_iff (List.mem_range.1 hi) hvalid).2 rfl
    exact ⟨way, List.mem_range.1 hlt, by rw [hset, htag]⟩
  · rintro ⟨way, hway, htag⟩
    have hvalid := validTag_taggedKey (s + 1) key
    have hlt := set_lt (s + 1) key
    refine ⟨set (s + 1) key, List.mem_range.2 hlt, List.mem_map.2 ⟨way, ?_, ?_⟩⟩
    · exact List.mem_filter.2 ⟨List.mem_range.2 hway, by rw [htag]; exact hvalid⟩
    · rw [htag]
      exact ((keyOf_iff hlt hvalid).1 ⟨rfl, rfl⟩).symm

theorem Distinct.nodup_residents {c : PlruCache α (s + 1) ways} (h : c.Distinct) :
    c.residents.Nodup := by
  rw [residents, List.nodup_flatMap]
  constructor
  · intro i hi
    refine (List.nodup_range.filter _).map_on fun way hway way' hway' heq => ?_
    obtain ⟨hlt, hvalid⟩ := List.mem_filter.1 hway
    obtain ⟨hlt', hvalid'⟩ := List.mem_filter.1 hway'
    have htag := ((keyOf_iff (List.mem_range.1 hi) hvalid).2 rfl).2
    rw [heq, ((keyOf_iff (List.mem_range.1 hi) hvalid').2 rfl).2] at htag
    exact h i way (List.mem_range.1 hlt) way' (List.mem_range.1 hlt') hvalid htag.symm
  · refine List.nodup_range.pairwise_of_forall_ne fun i hi j hj hne => ?_
    intro key hkey hkey'
    obtain ⟨way, hway, rfl⟩ := List.mem_map.1 hkey
    obtain ⟨way', hway', heq⟩ := List.mem_map.1 hkey'
    have hset := ((keyOf_iff (List.mem_range.1 hi) (List.mem_filter.1 hway).2).2 rfl).1
    rw [← heq, ((keyOf_iff (List.mem_range.1 hj) (List.mem_filter.1 hway').2).2 rfl).1] at hset
    exact hne hset.symm

theorem foldl_add_eq (l : List Nat) (f : Nat → Nat) (n : Nat) :
    l.foldl (fun acc i => acc + f i) n = n + (l.map f).sum := by
  induction l generalizing n with
  | nil => rfl
  | cons i l ih => rw [List.foldl_cons, ih, List.map_cons, List.sum_cons, Nat.add_assoc]

theorem length_residents (c : PlruCache α (s + 1) ways) : c.residents.length = c.size := by
  rw [residents, List.length_flatMap, size, foldl_add_eq, Nat.zero_add]
  simp only [List.length_map, CacheSet.size, List.countP_eq_length_filter]

theorem size_le (c : PlruCache α setBits ways) : c.size ≤ 2 ^ setBits * ways := by
  rw [size, foldl_add_eq, Nat.zero_add]
  have hle : ∀ n ∈ (List.range (2 ^ setBits)).map (fun i => (c.sets i).size ways), n ≤ ways := by
    intro n hn
    obtain ⟨i, -, rfl⟩ := List.mem_map.1 hn
    have hcount := @List.countP_le_length _ (fun way => validTag ((c.sets i).keys way))
      (List.range ways)
    rwa [List.length_range] at hcount
  have hsum := List.sum_le_card_nsmul _ ways hle
  rwa [List.length_map, List.length_range] at hsum

end PlruCache

/-! ## A cache in use -/

/-- One call of `access`. -/
structure Access (α σ : Type) where
  key : Nat
  miss : Nat → Nat → σ → α × σ
  valid : α → Bool

/-- An access for which the value is the key. -/
def plainAccess (key : Nat) : Access Nat Unit where
  key
  miss key _ s := (key, s)
  valid _ := true

/-- One call of `miss`, and what it produced. -/
structure Miss (α : Type) where
  key : Nat
  index : Nat
  value : α
  deriving DecidableEq

/-- `miss`, with a record of its calls. -/
def record {α σ : Type} (miss : Nat → Nat → σ → α × σ) (key index : Nat)
    (s : σ × List (Miss α)) : α × σ × List (Miss α) :=
  let (value, state) := miss key index s.1
  (value, state, s.2 ++ [⟨key, index, value⟩])

/-- A cache, the state of the program around it, and the calls of `miss` so far. -/
structure Trace (α σ : Type) (setBits ways : Nat) where
  cache : PlruCache α setBits ways := {}
  state : σ
  calls : List (Miss α) := []

/-- What `miss` has produced last for a key. -/
def lastValue {α : Type} (calls : List (Miss α)) (key : Nat) : Option α :=
  (calls.filter fun m => m.key = key).getLast?.map Miss.value

namespace Trace

variable {α σ : Type} {s setBits ways : Nat}

/-- The cache as a machine: accesses go in, and their results come out. -/
def machine : Machine (Access α σ) (Option α) (Trace α σ setBits ways) where
  step t a :=
    let (cache, result, state, calls) :=
      t.cache.access a.key (record a.miss) a.valid (t.state, t.calls)
    (⟨cache, state, calls⟩, [result])

/-- What holds between accesses. -/
structure Sound (t : Trace α σ setBits ways) : Prop where
  /-- The ways in use of a set have different tags. -/
  distinct : t.cache.Distinct
  /-- A key in the cache has the value that was produced last for it. -/
  value : ∀ key, t.cache.contains key = true →
    ∃ v, t.cache.cached key = some v ∧ lastValue t.calls key = some v
  /-- `size` is the number of keys in the cache. -/
  size : ∃ keys : Finset Nat, (∀ key, key ∈ keys ↔ t.cache.contains key = true) ∧
    keys.card = t.cache.size
  size_le : t.cache.size ≤ 2 ^ setBits * ways
  /-- Different keys are in different slots. -/
  slot : ∀ key key', t.cache.contains key = true → t.cache.contains key' = true →
    t.cache.slot key = t.cache.slot key' → key = key'
  slot_lt : ∀ key, t.cache.contains key = true → t.cache.slot key < 2 ^ setBits * ways
  /-- If the keys have `w` bits, then all tags fit into the type for `w - setBits + 1` bits. -/
  fits : ∀ w, setBits ≤ w → (∀ m ∈ t.calls, m.key < 2 ^ w) →
    ∀ i way, (t.cache.sets i).keys way < 2 ^ (w - setBits + 1)

/-- What an access does, which leads from `t` to `t'`. -/
structure SoundStep (t : Trace α σ setBits ways) (a : Access α σ) (t' : Trace α σ setBits ways)
    (out : List (Option α)) : Prop where
  /-- `miss` is called if and only if the key is not in the cache or its value is not valid. The
  slot that it is told is the one that the key is then in. -/
  calls : t'.calls = t.calls ++
    if t.cache.contains a.key = true ∧ (t.cache.cached a.key).any a.valid = true then []
    else [⟨a.key, t'.cache.slot a.key, (a.miss a.key (t'.cache.slot a.key) t.state).1⟩]
  /-- The result is what `miss` has produced last for the key. -/
  result : ∃ v, out = [some v] ∧ lastValue t'.calls a.key = some v
  resident : t'.cache.contains a.key = true
  /-- No other key enters the cache, and those that remain keep their values and slots. -/
  kept : ∀ key, key ≠ a.key → t'.cache.contains key = true → t.cache.contains key = true ∧
    t'.cache.cached key = t.cache.cached key ∧ t'.cache.slot key = t.cache.slot key
  /-- At most one key is lost, and it is of the same set. -/
  lost : ∀ key key', t.cache.contains key = true → t'.cache.contains key ≠ true →
    t.cache.contains key' = true → t'.cache.contains key' ≠ true →
    key = key' ∧ PlruCache.set setBits key = PlruCache.set setBits a.key

/-- What every access keeps; the rest of `Sound` follows from it. -/
structure Core (t : Trace α σ setBits ways) : Prop where
  distinct : t.cache.Distinct
  value : ∀ key, t.cache.contains key = true →
    ∃ v, t.cache.cached key = some v ∧ lastValue t.calls key = some v
  origin : ∀ i way, (t.cache.sets i).keys way = 0 ∨
    ∃ m ∈ t.calls, (t.cache.sets i).keys way = taggedKey setBits m.key

theorem core_nil (state : σ) : Core ({ state } : Trace α σ setBits ways) where
  distinct := PlruCache.distinct_empty
  value key hin := by
    obtain ⟨way, -, hkey⟩ :=
      (CacheSet.findMatching_lt_iff _ _ _).1 (PlruCache.contains_iff.1 hin)
    have htag := validTag_taggedKey setBits key
    rw [← hkey] at htag
    exact absurd htag not_validTag_zero
  origin _ _ := Or.inl rfl

/-- A key for which there is a value has been passed to `miss`. -/
theorem mem_of_lastValue {calls : List (Miss α)} {key : Nat} {v : α}
    (h : lastValue calls key = some v) : ∃ m ∈ calls, m.key = key := by
  obtain ⟨m, hm, -⟩ := Option.map_eq_some_iff.1 h
  obtain ⟨hmem, hkey⟩ := List.mem_filter.1 (List.mem_of_getLast? hm)
  exact ⟨m, hmem, of_decide_eq_true hkey⟩

theorem lastValue_concat_self (calls : List (Miss α)) (key index : Nat) (v : α) :
    lastValue (calls ++ [⟨key, index, v⟩]) key = some v := by
  have hone : [(⟨key, index, v⟩ : Miss α)].filter (fun m => m.key = key) = [⟨key, index, v⟩] :=
    List.filter_cons_of_pos (decide_eq_true rfl)
  rw [lastValue, List.filter_append, hone, List.getLast?_concat]
  rfl

theorem lastValue_concat_of_ne (calls : List (Miss α)) {key key' : Nat} (index : Nat) (v : α)
    (h : key' ≠ key) : lastValue (calls ++ [⟨key, index, v⟩]) key' = lastValue calls key' := by
  have hnone : [(⟨key, index, v⟩ : Miss α)].filter (fun m => m.key = key') = [] :=
    List.filter_cons_of_neg (by simpa using h.symm)
  rw [lastValue, List.filter_append, hnone, List.append_nil, lastValue]

theorem Core.toSound {t : Trace α σ (s + 1) ways} (h : t.Core) : t.Sound where
  distinct := h.distinct
  value := h.value
  size := by
    refine ⟨t.cache.residents.toFinset, fun key => ?_, ?_⟩
    · rw [List.mem_toFinset, PlruCache.mem_residents]
    · rw [List.toFinset_card_of_nodup h.distinct.nodup_residents, PlruCache.length_residents]
  size_le := t.cache.size_le
  slot _ _ := PlruCache.slot_inj
  slot_lt key hin := by
    have hlt := PlruCache.contains_iff.1 hin
    have hset := PlruCache.set_lt (s + 1) key
    have hmul : (PlruCache.set (s + 1) key + 1) * ways ≤ 2 ^ (s + 1) * ways :=
      Nat.mul_le_mul_right ways hset
    rw [Nat.succ_mul] at hmul
    rw [PlruCache.slot]
    omega
  fits w hw hkeys i way := by
    rcases h.origin i way with hzero | ⟨m, hm, htag⟩
    · rw [hzero]
      exact Nat.two_pow_pos _
    · rw [htag, show w - (s + 1) + 1 = w - s by omega]
      exact taggedKey_lt hw (hkeys m hm)

/-- The two forms of a step. -/
theorem machine_step (t : Trace α σ setBits ways) (a : Access α σ) :
    (∃ v, t.cache.cached a.key = some v ∧ a.valid v = true ∧
      machine.step t a = (⟨t.cache.put a.key v, t.state, t.calls⟩, [some v])) ∨
    ((t.cache.cached a.key).any a.valid = false ∧ ∃ v state,
      (v, state) = a.miss a.key (t.cache.targetSlot a.key) t.state ∧
      machine.step t a = (⟨t.cache.put a.key v, state,
        t.calls ++ [⟨a.key, t.cache.targetSlot a.key, v⟩]⟩, [some v])) := by
  rcases t.cache.access_eq a.key (record a.miss) a.valid (t.state, t.calls) with
    ⟨v, hv, hgood, haccess⟩ | ⟨hbad, haccess⟩
  · refine Or.inl ⟨v, hv, hgood, ?_⟩
    simp only [machine, haccess]
  · refine Or.inr ⟨hbad, _, _, rfl, ?_⟩
    simp only [machine, haccess, record]

/-- To the cache an access is that some value is put. -/
theorem cache_step (t : Trace α σ setBits ways) (a : Access α σ) :
    ∃ v, (machine.step t a).1.cache = t.cache.put a.key v := by
  rcases machine_step t a with ⟨v, -, -, hstep⟩ | ⟨-, v, _, -, hstep⟩
  · exact ⟨v, by rw [hstep]⟩
  · exact ⟨v, by rw [hstep]⟩

/-- What holds of a step in which some value is put. -/
theorem Core.step_put {t : Trace α σ (s + 1) ways} (h : t.Core) (hways : 0 < ways)
    {a : Access α σ} {v : α} {state : σ} {calls : List (Miss α)}
    (hcalls : calls = t.calls ++
      if t.cache.contains a.key = true ∧ (t.cache.cached a.key).any a.valid = true then []
      else [⟨a.key, t.cache.targetSlot a.key,
        (a.miss a.key (t.cache.targetSlot a.key) t.state).1⟩])
    (hlast : lastValue calls a.key = some v)
    (hother : ∀ key, key ≠ a.key → lastValue calls key = lastValue t.calls key) :
    Core ⟨t.cache.put a.key v, state, calls⟩ ∧
    SoundStep t a ⟨t.cache.put a.key v, state, calls⟩ [some v] := by
  obtain ⟨hin, hcached, hslot⟩ := h.distinct.put_self hways a.key v
  refine ⟨⟨h.distinct.put a.key v, fun key hkey => ?_, fun i way => ?_⟩, ?_⟩
  · by_cases hne : key = a.key
    · rw [hne]
      exact ⟨v, hcached, hlast⟩
    · obtain ⟨hbefore, hsame, -⟩ := h.distinct.put_other v hne hkey
      obtain ⟨w, hw, hwlast⟩ := h.value key hbefore
      exact ⟨w, hsame.trans hw, (hother key hne).trans hwlast⟩
  · show ((t.cache.put a.key v).sets i).keys way = 0 ∨
      ∃ m ∈ calls, ((t.cache.put a.key v).sets i).keys way = taggedKey (s + 1) m.key
    rcases PlruCache.keys_put t.cache a.key v i way with hput | hput
    · obtain ⟨m, hm, hkey⟩ := mem_of_lastValue hlast
      exact Or.inr ⟨m, hm, by rw [hput, hkey]⟩
    · rw [hput, hcalls]
      exact (h.origin i way).imp_right fun ⟨m, hm, htag⟩ =>
        ⟨m, List.mem_append_left _ hm, htag⟩
  · refine ⟨?_, ⟨v, rfl, hlast⟩, hin, fun key hne hkey => h.distinct.put_other v hne hkey, ?_⟩
    · rw [hslot]
      exact hcalls
    · intro key key' hkey hout hkey' hout'
      obtain ⟨hset, htag⟩ := PlruCache.put_lost hkey hout
      obtain ⟨hset', htag'⟩ := PlruCache.put_lost hkey' hout'
      refine ⟨?_, hset⟩
      by_contra hne
      exact tag_ne hne (hset.trans hset'.symm) (htag.symm.trans htag')

theorem Core.step {t : Trace α σ (s + 1) ways} (h : t.Core) (hways : 0 < ways) (a : Access α σ) :
    Core (machine.step t a).1 ∧ SoundStep t a (machine.step t a).1 (machine.step t a).2 := by
  rcases machine_step t a with ⟨v, hv, hgood, hstep⟩ | ⟨hbad, v, state, hmiss, hstep⟩
  · have hin := PlruCache.contains_of_cached hv
    obtain ⟨w, hw, hlast⟩ := h.value a.key hin
    obtain rfl := Option.some.inj (hv.symm.trans hw)
    rw [hstep]
    refine h.step_put hways ?_ hlast fun _ _ => rfl
    rw [hv, if_pos ⟨hin, hgood⟩, List.append_nil]
  · have hcond : ¬(t.cache.contains a.key = true ∧
        (t.cache.cached a.key).any a.valid = true) := fun hgood => by
      rw [hbad] at hgood
      exact Bool.false_ne_true hgood.2
    rw [hstep]
    refine h.step_put hways ?_ (lastValue_concat_self _ _ _ _) fun key hne =>
      lastValue_concat_of_ne _ _ _ hne
    rw [if_neg hcond, ← hmiss]

theorem core_run (s d : Nat) (state : σ) (accesses : List (Access α σ)) :
    Core (machine.run ({ state } : Trace α σ (s + 1) (2 ^ d)) accesses).1 :=
  @Machine.run_invariant _ _ _ machine (fun t _ => Core t) (fun _ _ => True)
    (fun h _ => (h.step (Nat.two_pow_pos d) _).1) _ (core_nil state) accesses
    fun _ _ _ => trivial

/-- Whatever is accessed, `miss` called for it and found valid, the cache holds the right values,
and each access finds its value or has it produced. -/
theorem sound (s d : Nat) (state : σ) (accesses : List (Access α σ)) :
    Sound (machine.run ({ state } : Trace α σ (s + 1) (2 ^ d)) accesses).1 ∧
    Machine.AtEachStep (fun pre a =>
      SoundStep (machine.run ({ state } : Trace α σ (s + 1) (2 ^ d)) pre).1 a
        (machine.step (machine.run ({ state } : Trace α σ (s + 1) (2 ^ d)) pre).1 a).1
        (machine.step (machine.run ({ state } : Trace α σ (s + 1) (2 ^ d)) pre).1 a).2)
      accesses := by
  refine ⟨(core_run s d state accesses).toSound, fun pre a _ => ?_⟩
  exact ((core_run s d state pre).step (Nat.two_pow_pos d) a).2

end Trace

end Midi2.Adt
