import Mathlib.Data.Nat.Bitwise
import Mathlib.Logic.Function.Basic

/-!
# The cache (`adt/plru_cache.hpp`)

A `plru_cache` has `Sets` sets of `Ways` entries each. The low bits of a key choose the
set, the rest of it is the tag that an entry is looked for by, and a tree of one bit for
each inner node points, in every set, away from what was used last (pseudo least recently
used).

`access` takes two callbacks, one that produces the value of a key that is missing and one
that tells whether a value found is still good. The first may have effects, which the model
passes along as a state. What a client needs is `access_effect`: the effect happens exactly
when the value is not `cached` or no longer good.
-/

namespace Midi2.Adt

/-- `details::tree<Ways>`: the access bits, by node. -/
structure Tree where
  bits : Nat → Bool := fun _ => false

namespace Tree

/-- The loop of `touch`, from `node` on, which covers the ways from `start` to `stop`. -/
def touchFrom (ways way : Nat) : Nat → Nat → Nat → Nat → (Nat → Bool) → Nat → Bool
  | 0, _, _, _, bits => bits
  | n + 1, node, start, stop, bits =>
      if node < ways - 1 then
        let mid := start + (stop - start) / 2
        let isLess := decide (way < mid)
        touchFrom ways way n (2 * node + 1 + (!isLess).toNat) (if isLess then start else mid)
          (if isLess then mid else stop) (Function.update bits node isLess)
      else
        bits

/-- `touch(way)`: flips the access bits so that `way` is the most recently used member. -/
def touch (t : Tree) (ways way : Nat) : Tree :=
  ⟨touchFrom ways way ways 0 0 ways t.bits⟩

/-- The loop of `oldest`, from `node` on. -/
def oldestFrom (ways : Nat) (bits : Nat → Bool) : Nat → Nat → Nat
  | 0, node => node
  | n + 1, node =>
      if node < ways - 1 then oldestFrom ways bits n (2 * node + 1 + (bits node).toNat) else node

/-- `oldest()`: the index of the oldest member. -/
def oldest (t : Tree) (ways : Nat) : Nat :=
  oldestFrom ways t.bits ways 0 - (ways - 1)

theorem oldestFrom_le {ways n node : Nat} (bits : Nat → Bool) (h : node ≤ 2 * (ways - 1)) :
    oldestFrom ways bits n node ≤ 2 * (ways - 1) := by
  induction n generalizing node with
  | zero => exact h
  | succ n ih =>
      unfold oldestFrom
      split
      case isTrue =>
        have := (bits node).toNat_le
        exact ih (by omega)
      case isFalse => exact h

theorem oldest_lt (t : Tree) {ways : Nat} (h : 0 < ways) : t.oldest ways < ways := by
  have hle : oldestFrom ways t.bits ways 0 ≤ 2 * (ways - 1) := oldestFrom_le t.bits (Nat.zero_le _)
  rw [oldest]
  omega

end Tree

/-- `details::tagged_key<Key, SetBits>`: the bits of a key above the set number, with a bit
below them that is set; an entry that is not in use has tag zero. -/
def taggedKey (setBits key : Nat) : Nat :=
  1 ||| (key >>> (setBits - 1))

/-- `valid()` of a tag: whether the entry is in use. -/
def validTag (tag : Nat) : Bool :=
  tag &&& 1 ≠ 0

theorem validTag_taggedKey (setBits key : Nat) : validTag (taggedKey setBits key) = true := by
  rw [validTag, taggedKey, Nat.and_one_is_mod, decide_eq_true_eq,
    Nat.or_mod_two_eq_one.2 (Or.inl rfl)]
  exact Nat.one_ne_zero

/-- The loop of `match_finder::find`, from `index` on. -/
def matchFrom (tag : Nat) (keys : Nat → Nat) : Nat → Nat → Nat
  | 0, index => index
  | n + 1, index => if keys index = tag then index else matchFrom tag keys n (index + 1)

theorem matchFrom_eq {tag n index : Nat} (keys : Nat → Nat)
    (h : matchFrom tag keys n index < index + n) : keys (matchFrom tag keys n index) = tag := by
  induction n generalizing index with
  | zero => exact absurd h (Nat.lt_irrefl index)
  | succ n ih =>
      unfold matchFrom at h ⊢
      split at h
      case isTrue heq => rw [if_pos heq, heq]
      case isFalse hne =>
        rw [if_neg hne]
        exact ih (by omega)

theorem matchFrom_le {tag n index : Nat} (keys : Nat → Nat) :
    matchFrom tag keys n index ≤ index + n := by
  induction n generalizing index with
  | zero => exact Nat.le_refl index
  | succ n ih =>
      unfold matchFrom
      split
      case isTrue => exact Nat.le_add_right index _
      case isFalse => exact Nat.le_trans ih (by omega)

/-- The loop stops at the first match. -/
theorem matchFrom_first {tag n index j : Nat} {keys : Nat → Nat} (hj : index ≤ j)
    (hlt : j < matchFrom tag keys n index) : keys j ≠ tag := by
  induction n generalizing index with
  | zero => exact absurd hlt (Nat.not_lt.2 hj)
  | succ n ih =>
      unfold matchFrom at hlt
      split at hlt
      case isTrue => exact absurd hlt (Nat.not_lt.2 hj)
      case isFalse hne =>
        rcases Nat.eq_or_lt_of_le hj with rfl | hlt'
        · exact hne
        · exact ih hlt' hlt

/-- `details::cache_set`: tags and values, both by way, and the replacement tree. -/
structure CacheSet (α : Type) where
  keys : Nat → Nat := fun _ => 0
  values : Nat → Option α := fun _ => none
  plru : Tree := {}

namespace CacheSet

variable {α σ : Type}

/-- `find_matching(tag)`: a way with that tag, or `ways`. -/
def findMatching (c : CacheSet α) (ways tag : Nat) : Nat :=
  matchFrom tag c.keys ways 0

/-- The value that an entry with this tag holds. -/
def cached (c : CacheSet α) (ways tag : Nat) : Option α :=
  let vi := c.findMatching ways tag
  if vi < ways then c.values vi else none

/-- `cache_set::access`. The result has the value accessed in the middle. -/
def access (c : CacheSet α) (setBits ways key : Nat) (miss : Nat → Nat → σ → α × σ)
    (valid : α → Bool) (index : Nat) (s : σ) : CacheSet α × Option α × σ :=
  let tag := taggedKey setBits key
  let vi := c.findMatching ways tag
  if vi < ways then
    if (c.values vi).any valid then
      ({ c with plru := c.plru.touch ways vi }, c.values vi, s)
    else
      let (result, s) := miss key (index + vi) s
      ({ c with
          values := Function.update c.values vi (some result)
          plru := c.plru.touch ways vi }, some result, s)
  else
    let victim := c.plru.oldest ways
    let (result, s) := miss key (index + victim) s
    ({ keys := Function.update c.keys victim tag
       values := Function.update c.values victim (some result)
       plru := c.plru.touch ways victim }, some result, s)

/-- `cache_set::contains`. -/
def contains (c : CacheSet α) (setBits ways key : Nat) : Bool :=
  c.findMatching ways (taggedKey setBits key) < ways

/-- `cache_set::size`: the number of ways in use. -/
def size (c : CacheSet α) (ways : Nat) : Nat :=
  (List.range ways).countP fun i => validTag (c.keys i)

/-- `cache_set::clear`: values are destroyed where there are any, tags and tree are reset. -/
def clear (c : CacheSet α) (ways : Nat) : CacheSet α where
  keys i := if i < ways then 0 else c.keys i
  values i := if i < ways ∧ validTag (c.keys i) = true then none else c.values i

/-- There are values where there are valid tags, and nothing outside the ways. -/
structure Proper (c : CacheSet α) (ways : Nat) : Prop where
  tag : ∀ i, c.keys i = 0 ∨ i < ways ∧ validTag (c.keys i) = true
  value : ∀ i, c.keys i = 0 → c.values i = none

theorem proper_empty (ways : Nat) : Proper ({} : CacheSet α) ways :=
  ⟨fun _ => Or.inl rfl, fun _ _ => rfl⟩

theorem Proper.clear_eq {c : CacheSet α} {ways : Nat} (h : c.Proper ways) : c.clear ways = {} := by
  have hkeys : ∀ i, (if i < ways then 0 else c.keys i) = 0 := by
    intro i
    split
    case isTrue => rfl
    case isFalse hge => exact (h.tag i).resolve_right fun hi => hge hi.1
  have hvalues : ∀ i, (if i < ways ∧ validTag (c.keys i) = true then none else c.values i) =
      none := by
    intro i
    split
    case isTrue => rfl
    case isFalse hge => exact h.value i ((h.tag i).resolve_right hge)
  rw [clear]
  simp only [hkeys, hvalues]

/-- An entry that has been given a value. -/
theorem Proper.set {c : CacheSet α} {ways : Nat} (h : c.Proper ways) {way tag : Nat}
    (hway : way < ways) (htag : validTag tag = true) (v : α) (plru : Tree) :
    Proper { keys := Function.update c.keys way tag
             values := Function.update c.values way (some v)
             plru } ways := by
  have hne : tag ≠ 0 := fun h0 => by rw [h0] at htag; cases htag
  constructor
  · intro i
    simp only [Function.update_apply]
    split
    case isTrue hi => exact Or.inr ⟨hi ▸ hway, htag⟩
    case isFalse => exact h.tag i
  · intro i hi
    simp only [Function.update_apply] at hi ⊢
    split at hi
    case isTrue => exact absurd hi hne
    case isFalse hi' =>
      rw [if_neg hi']
      exact h.value i hi

theorem Proper.access {c : CacheSet α} {ways : Nat} (h : c.Proper ways) (hways : 0 < ways)
    (setBits key : Nat) (miss : Nat → Nat → σ → α × σ) (valid : α → Bool) (index : Nat) (s : σ) :
    (c.access setBits ways key miss valid index s).1.Proper ways := by
  have htag := validTag_taggedKey setBits key
  simp only [CacheSet.access]
  split
  case isTrue hlt =>
    have hkey : c.keys (c.findMatching ways (taggedKey setBits key)) = taggedKey setBits key :=
      matchFrom_eq c.keys (by rwa [Nat.zero_add])
    split
    case isTrue => exact ⟨h.tag, h.value⟩
    case isFalse =>
      have hset := h.set hlt htag (miss key (index + c.findMatching ways
        (taggedKey setBits key)) s).1 (c.plru.touch ways (c.findMatching ways
          (taggedKey setBits key)))
      rw [Function.update_eq_self_iff.2 hkey.symm] at hset
      exact hset
  case isFalse => exact h.set (c.plru.oldest_lt hways) htag _ _

end CacheSet

/-- `plru_cache<Key, Mapped, Sets, Ways>` for `2 ^ setBits` sets. -/
structure PlruCache (α : Type) (setBits ways : Nat) where
  sets : Nat → CacheSet α := fun _ => {}

namespace PlruCache

variable {α σ : Type} {setBits ways : Nat}

/-- `set(key)`: the set number of a key. -/
def set (setBits key : Nat) : Nat :=
  key &&& (2 ^ setBits - 1)

/-- `access(key, miss, valid)`. -/
def access (c : PlruCache α setBits ways) (key : Nat) (miss : Nat → Nat → σ → α × σ)
    (valid : α → Bool) (s : σ) : PlruCache α setBits ways × Option α × σ :=
  let i := set setBits key
  let (entry, result, s) := (c.sets i).access setBits ways key miss valid (i * ways) s
  (⟨Function.update c.sets i entry⟩, result, s)

/-- `contains(key)`. -/
def contains (c : PlruCache α setBits ways) (key : Nat) : Bool :=
  (c.sets (set setBits key)).contains setBits ways key

/-- `size()`. -/
def size (c : PlruCache α setBits ways) : Nat :=
  (List.range (2 ^ setBits)).foldl (fun acc i => acc + (c.sets i).size ways) 0

/-- `clear()`. -/
def clear (c : PlruCache α setBits ways) : PlruCache α setBits ways where
  sets i := if i < 2 ^ setBits then (c.sets i).clear ways else c.sets i

/-- The sets are proper, and there are no others. -/
structure Proper (c : PlruCache α setBits ways) : Prop where
  sets : ∀ i, (c.sets i).Proper ways
  rest : ∀ i, 2 ^ setBits ≤ i → c.sets i = {}

theorem proper_empty : Proper ({} : PlruCache α setBits ways) :=
  ⟨fun _ => CacheSet.proper_empty ways, fun _ _ => rfl⟩

/-- A cache that has been cleared is like new. -/
theorem Proper.clear_eq {c : PlruCache α setBits ways} (h : c.Proper) : c.clear = {} := by
  have hsets : ∀ i, (if i < 2 ^ setBits then (c.sets i).clear ways else c.sets i) = {} := by
    intro i
    split
    case isTrue => exact (h.sets i).clear_eq
    case isFalse hge => exact h.rest i (Nat.le_of_not_lt hge)
  rw [clear]
  simp only [hsets]

theorem set_lt (setBits key : Nat) : set setBits key < 2 ^ setBits :=
  Nat.and_lt_two_pow key (Nat.sub_lt (Nat.two_pow_pos _) Nat.one_pos)

theorem Proper.access {c : PlruCache α setBits ways} (h : c.Proper) (hways : 0 < ways)
    (key : Nat) (miss : Nat → Nat → σ → α × σ) (valid : α → Bool) (s : σ) :
    (c.access key miss valid s).1.Proper := by
  have hset := (h.sets (set setBits key)).access hways setBits key miss valid
    (set setBits key * ways) s
  constructor
  · intro i
    simp only [PlruCache.access, Function.update_apply]
    split
    case isTrue => exact hset
    case isFalse => exact h.sets i
  · intro i hi
    have hne : i ≠ set setBits key := Nat.ne_of_gt (Nat.lt_of_lt_of_le (set_lt setBits key) hi)
    simp only [PlruCache.access, Function.update_of_ne hne]
    exact h.rest i hi

/-- The value that the cache holds for a key. -/
def cached (c : PlruCache α setBits ways) (key : Nat) : Option α :=
  (c.sets (set setBits key)).cached ways (taggedKey setBits key)

/-- An access calls `miss` exactly when there is no value in the cache that is still good. -/
theorem access_effect (c : PlruCache α setBits ways) (key : Nat)
    (miss : Nat → Nat → σ → α × σ) (valid : α → Bool) (s : σ) :
    ((c.cached key).any valid = true ∧ (c.access key miss valid s).2.2 = s) ∨
    ((c.cached key).any valid = false ∧
      ∃ index, (c.access key miss valid s).2.2 = (miss key index s).2) := by
  simp only [access, cached, CacheSet.access, CacheSet.cached]
  split
  case isTrue hlt =>
    cases hgood : ((c.sets (set setBits key)).values _).any valid with
    | true => exact Or.inl ⟨rfl, rfl⟩
    | false => exact Or.inr ⟨rfl, _, rfl⟩
  case isFalse => exact Or.inr ⟨rfl, _, rfl⟩

/-- What an access does to the cache depends on the value that `miss` makes, and not on the
states that it is passed. -/
theorem access_rel {σ' : Type} {R : σ → σ' → Prop} (c : PlruCache α setBits ways) (key : Nat)
    {f : Nat → Nat → σ → α × σ} {g : Nat → Nat → σ' → α × σ'} (valid : α → Bool)
    {s : σ} {s' : σ'} (hR : R s s')
    (hmiss : ∀ k i, (f k i s).1 = (g k i s').1 ∧ R (f k i s).2 (g k i s').2) :
    (c.access key f valid s).1 = (c.access key g valid s').1 ∧
    R (c.access key f valid s).2.2 (c.access key g valid s').2.2 := by
  simp only [access, CacheSet.access]
  split
  case isTrue =>
    split
    case isTrue => exact ⟨rfl, hR⟩
    case isFalse =>
      obtain ⟨hvalue, hstate⟩ := hmiss key (set setBits key * ways +
        (c.sets (set setBits key)).findMatching ways (taggedKey setBits key))
      exact ⟨by rw [hvalue], hstate⟩
  case isFalse =>
    obtain ⟨hvalue, hstate⟩ := hmiss key (set setBits key * ways +
      (c.sets (set setBits key)).plru.oldest ways)
    exact ⟨by rw [hvalue], hstate⟩

end PlruCache

end Midi2.Adt
