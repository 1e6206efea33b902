import Midi2.Adt.PlruSound
import Midi2.Adt.UInteger
import Midi2.Lib.Neon

/-!
# The search for a tag with vector instructions (`adt/plru_cache.hpp`)

On ARM three specialisations of `match_finder` compare a tag with all ways at once. In the word
that they make of the comparison a way has 16, 8 and 16 bits. From the position of the lowest bit
that is set they compute the number of the way by a division by 8, 8 and 16. The first of these
divisors is wrong: for 16-bit tags and four ways the number is twice what it should be
(`find_u16x4`). The other two are right (`find_u16x8`, `find_u32x4`).

`machineWith` is the cache with any of the finders. Its results are those of the portable
code as long as every tag that is searched is in the first way or in none (`agrees_iff`).
-/

namespace Midi2.Adt

open Neon

/-! ## The finders -/

/-- `packed | (static_cast<std::uint64_t>(packed == 0) << 63)`. -/
def nzOr (packed : BitVec 64) : BitVec 64 :=
  packed ||| ((BitVec.ofBool (packed == 0)).setWidth 64 <<< 63)

/-- The tags of a set, as they are in memory: `vld1` of `values.data()`. -/
def vld1 (n lanes : Nat) (keys : Nat → Nat) : Vec n :=
  (List.range lanes).map fun way => BitVec.ofNat n (keys way)

/-- `match_finder<Key, SetBits, 4>::find` for tags of type `std::uint16_t`. -/
def findU16x4 (tag : Nat) (keys : Nat → Nat) : Nat :=
  let a := vdup 4 (BitVec.ofNat 16 tag)
  let b := vld1 16 4 keys
  let cmp := vceq a b
  let packed := vgetLane cmp
  ((nzOr packed).ctz.toNat + 1) >>> 3

/-- `match_finder<Key, SetBits, 8>::find` for tags of type `std::uint16_t`. -/
def findU16x8 (tag : Nat) (keys : Nat → Nat) : Nat :=
  let a := vdup 8 (BitVec.ofNat 16 tag)
  let b := vld1 16 8 keys
  let cmp := vceq a b
  let narrow := vmovn 8 cmp
  let packed := vgetLane narrow
  ((nzOr packed).ctz.toNat + 1) >>> 3

/-- `match_finder<Key, SetBits, 4>::find` for tags of type `std::uint32_t`. -/
def findU32x4 (tag : Nat) (keys : Nat → Nat) : Nat :=
  let a := vdup 4 (BitVec.ofNat 32 tag)
  let b := vld1 32 4 keys
  let cmp := vceq a b
  let narrow := vmovn 16 cmp
  let packed := vgetLane narrow
  ((nzOr packed).ctz.toNat + 1) / 16

/-- The ways that match, as the comparison has them. -/
def equalWays (n lanes tag : Nat) (keys : Nat → Nat) : List Bool :=
  (List.range lanes).map fun way => decide (BitVec.ofNat n tag = BitVec.ofNat n (keys way))

theorem vceq_vld1 (n lanes tag : Nat) (keys : Nat → Nat) :
    vceq (vdup lanes (BitVec.ofNat n tag)) (vld1 n lanes keys) =
      mask n (equalWays n lanes tag keys) := by
  have hlen : (vld1 n lanes keys).length = lanes := by
    rw [vld1, List.length_map, List.length_range]
  have hcmp := vceq_vdup (BitVec.ofNat n tag) (vld1 n lanes keys)
  rw [hlen] at hcmp
  rw [hcmp, vld1, List.map_map]
  rfl

theorem length_equalWays (n lanes tag : Nat) (keys : Nat → Nat) :
    (equalWays n lanes tag keys).length = lanes := by
  rw [equalWays, List.length_map, List.length_range]

/-- The comparison finds the first way, as the portable loop does. -/
theorem findIdx_equalWays {n lanes tag : Nat} {keys : Nat → Nat} (htag : tag < 2 ^ n)
    (hkeys : ∀ way, keys way < 2 ^ n) :
    (equalWays n lanes tag keys).findIdx id = matchFrom tag keys lanes 0 := by
  have hbit : ∀ way, decide (BitVec.ofNat n tag = BitVec.ofNat n (keys way)) = true ↔
      keys way = tag := by
    intro way
    rw [decide_eq_true_eq, ← BitVec.toNat_inj, BitVec.toNat_ofNat, BitVec.toNat_ofNat,
      Nat.mod_eq_of_lt htag, Nat.mod_eq_of_lt (hkeys way)]
    exact eq_comm
  have hlen := length_equalWays n lanes tag keys
  have hle : matchFrom tag keys lanes 0 ≤ 0 + lanes := matchFrom_le keys
  rw [Nat.zero_add] at hle
  rcases Nat.lt_or_eq_of_le hle with hlt | heq
  · rw [List.findIdx_eq (by rw [hlen]; exact hlt)]
    constructor
    · simp only [equalWays, List.getElem_map, List.getElem_range, id]
      exact (hbit _).2 (matchFrom_eq keys (by rwa [Nat.zero_add]))
    · intro j hj
      simp only [equalWays, List.getElem_map, List.getElem_range, id]
      exact Bool.eq_false_iff.2 fun h => matchFrom_first (Nat.zero_le j) hj ((hbit j).1 h)
  · rw [heq]
    refine (List.findIdx_eq_length.2 fun b hb => ?_).trans hlen
    obtain ⟨way, hway, rfl⟩ := List.mem_map.1 hb
    refine Bool.eq_false_iff.2 fun h => ?_
    exact matchFrom_first (Nat.zero_le way) (by rw [heq]; exact List.mem_range.1 hway)
      ((hbit way).1 h)

/-- The position of the first way in a word with lanes of `m` bits, or 63. -/
theorem ctz_nzOr {m lanes : Nat} (hm : 0 < m) (hlen : m * lanes ≤ 64) {equal : List Bool}
    (hlanes : equal.length = lanes) :
    (nzOr (vgetLane (mask m equal))).ctz.toNat =
      if equal.findIdx id < lanes then m * equal.findIdx id else 63 := by
  subst hlanes
  split
  case isTrue hfound =>
    have hbit := ctz_packMask hm hlen hfound
    have hlt : (vgetLane (mask m equal)).ctz.toNat < 64 := by
      rw [hbit]
      exact Nat.lt_of_lt_of_le (Nat.mul_lt_mul_of_pos_left hfound hm) hlen
    have hne : vgetLane (mask m equal) ≠ 0 := BitVec.ctz_lt_iff_ne_zero.1 hlt
    rw [nzOr, beq_eq_false_iff_ne.2 hne]
    simpa using hbit
  case isFalse hnone =>
    rw [packMask_eq_zero hm hnone]
    exact ctz_eq rfl (by decide)

section Finders

variable {tag : Nat} {keys : Nat → Nat}

theorem find_u16x4 (htag : tag < 2 ^ 16) (hkeys : ∀ way, keys way < 2 ^ 16) :
    findU16x4 tag keys =
      if matchFrom tag keys 4 0 < 4 then 2 * matchFrom tag keys 4 0 else 8 := by
  simp only [findU16x4, vceq_vld1]
  rw [ctz_nzOr (by decide) (by decide) (length_equalWays 16 4 tag keys),
    findIdx_equalWays htag hkeys, Nat.shiftRight_eq_div_pow]
  split
  case isTrue => omega
  case isFalse => rfl

theorem find_u16x8 (htag : tag < 2 ^ 16) (hkeys : ∀ way, keys way < 2 ^ 16) :
    findU16x8 tag keys = matchFrom tag keys 8 0 := by
  have hle : matchFrom tag keys 8 0 ≤ 0 + 8 := matchFrom_le keys
  simp only [findU16x8, vceq_vld1, vmovn_mask (show 8 ≤ 16 by decide)]
  rw [ctz_nzOr (by decide) (by decide) (length_equalWays 16 8 tag keys),
    findIdx_equalWays htag hkeys, Nat.shiftRight_eq_div_pow]
  split
  case isTrue => omega
  case isFalse => omega

theorem find_u32x4 (htag : tag < 2 ^ 32) (hkeys : ∀ way, keys way < 2 ^ 32) :
    findU32x4 tag keys = matchFrom tag keys 4 0 := by
  have hle : matchFrom tag keys 4 0 ≤ 0 + 4 := matchFrom_le keys
  simp only [findU32x4, vceq_vld1, vmovn_mask (show 16 ≤ 32 by decide)]
  rw [ctz_nzOr (by decide) (by decide) (length_equalWays 32 4 tag keys),
    findIdx_equalWays htag hkeys]
  split
  case isTrue => omega
  case isFalse => omega

end Finders

/-- The specialisations, by the type of a tag and the number of ways. -/
inductive Simd
  | u16x4
  | u16x8
  | u32x4
  deriving DecidableEq

namespace Simd

def tagBits : Simd → Nat
  | u16x4 | u16x8 => 16
  | u32x4 => 32

def ways : Simd → Nat
  | u16x4 | u32x4 => 4
  | u16x8 => 8

def find : Simd → Nat → (Nat → Nat) → Nat
  | u16x4 => findU16x4
  | u16x8 => findU16x8
  | u32x4 => findU32x4

/-- The specialisation is for keys of `w` bits: `tagged_key::value_type` has this many bits. -/
def Selected (v : Simd) (w setBits : Nat) : Prop :=
  uinteger (w - setBits + 1) = v.tagBits

instance (v : Simd) (w setBits : Nat) : Decidable (v.Selected w setBits) :=
  inferInstanceAs (Decidable (_ = _))

/-- A tag that is searched has room in its type. -/
theorem Selected.tag_lt {v : Simd} {w s key : Nat} (h : v.Selected w (s + 1))
    (hkey : key < 2 ^ w) : taggedKey (s + 1) key < 2 ^ v.tagBits := by
  unfold Selected uinteger at h
  have hbits : v.tagBits = 16 ∨ v.tagBits = 32 := by cases v <;> simp [tagBits]
  have hw : s + 1 ≤ w ∧ w - s ≤ v.tagBits := by
    split at h
    · omega
    · split at h
      · omega
      · split at h <;> omega
  exact Nat.lt_of_lt_of_le (taggedKey_lt hw.1 hkey) (Nat.pow_le_pow_right (by decide) hw.2)

end Simd

/-- The result of a search is right: the first way that has the tag, or no way. -/
def FirstMatch (ways tag : Nat) (keys : Nat → Nat) (found : Nat) : Prop :=
  (found < ways ∧ keys found = tag ∧ ∀ way < found, keys way ≠ tag) ∨
  (ways ≤ found ∧ ∀ way < ways, keys way ≠ tag)

/-- The tag is in the first way or in none. -/
def FirstOrNone (ways tag : Nat) (keys : Nat → Nat) : Prop :=
  keys 0 = tag ∨ ∀ way < ways, keys way ≠ tag

theorem firstMatch_iff {ways tag found : Nat} {keys : Nat → Nat} :
    FirstMatch ways tag keys found ↔
      if matchFrom tag keys ways 0 < ways then found = matchFrom tag keys ways 0
      else ways ≤ found := by
  have hfirst : ∀ {j}, j < matchFrom tag keys ways 0 → keys j ≠ tag :=
    fun {j} hj => matchFrom_first (Nat.zero_le j) hj
  have hle : matchFrom tag keys ways 0 ≤ 0 + ways := matchFrom_le keys
  rw [Nat.zero_add] at hle
  split
  case isTrue hlt =>
    have hkey : keys (matchFrom tag keys ways 0) = tag :=
      matchFrom_eq keys (by rwa [Nat.zero_add])
    constructor
    · rintro (⟨-, hfound, hbefore⟩ | ⟨-, hnone⟩)
      · rcases Nat.lt_trichotomy found (matchFrom tag keys ways 0) with hlow | heq | hhigh
        · exact absurd hfound (hfirst hlow)
        · exact heq
        · exact absurd hkey (hbefore _ hhigh)
      · exact absurd hkey (hnone _ hlt)
    · rintro rfl
      exact Or.inl ⟨hlt, hkey, fun way hway => hfirst hway⟩
  case isFalse hge =>
    have hnone : ∀ way < ways, keys way ≠ tag := fun way hway => hfirst (by omega)
    constructor
    · rintro (⟨hlt, hfound, -⟩ | ⟨hfound, -⟩)
      · exact absurd hfound (hnone found hlt)
      · exact hfound
    · exact fun hfound => Or.inr ⟨hfound, hnone⟩

theorem firstOrNone_iff {ways tag : Nat} {keys : Nat → Nat} (hways : 0 < ways) :
    FirstOrNone ways tag keys ↔
      matchFrom tag keys ways 0 = 0 ∨ ¬matchFrom tag keys ways 0 < ways := by
  have hle : matchFrom tag keys ways 0 ≤ 0 + ways := matchFrom_le keys
  rw [Nat.zero_add] at hle
  constructor
  · rintro (hzero | hnone)
    · refine Or.inl (Nat.le_zero.1 (Nat.not_lt.1 fun hlt => ?_))
      exact matchFrom_first (Nat.le_refl 0) hlt hzero
    · refine Or.inr fun hlt => ?_
      exact hnone _ hlt (matchFrom_eq keys (by rwa [Nat.zero_add]))
  · rintro (hzero | hge)
    · have hkey := @matchFrom_eq tag ways 0 keys (by rw [hzero]; omega)
      rw [hzero] at hkey
      exact Or.inl hkey
    · have hall : matchFrom tag keys ways 0 = ways := by omega
      exact Or.inr fun way hway => matchFrom_first (Nat.zero_le way) (by rw [hall]; exact hway)

/-- When a specialisation is right about a tag. -/
theorem Simd.find_iff (v : Simd) {tag : Nat} {keys : Nat → Nat} (htag : tag < 2 ^ v.tagBits)
    (hkeys : ∀ way, keys way < 2 ^ v.tagBits) :
    FirstMatch v.ways tag keys (v.find tag keys) ↔ v ≠ .u16x4 ∨ FirstOrNone v.ways tag keys := by
  rw [firstMatch_iff]
  cases v with
  | u16x4 =>
      rw [firstOrNone_iff (by decide), Simd.find, find_u16x4 htag hkeys]
      simp only [Simd.ways, ne_eq, not_true_eq_false, false_or]
      split
      case isTrue => omega
      case isFalse hge => simp [hge]
  | u16x8 =>
      rw [Simd.find, find_u16x8 htag hkeys]
      simp only [Simd.ways]
      refine iff_of_true ?_ (Or.inl Simd.noConfusion)
      split
      case isTrue => trivial
      case isFalse hge => exact Nat.not_lt.1 hge
  | u32x4 =>
      rw [Simd.find, find_u32x4 htag hkeys]
      simp only [Simd.ways]
      refine iff_of_true ?_ (Or.inl Simd.noConfusion)
      split
      case isTrue => trivial
      case isFalse hge => exact Nat.not_lt.1 hge

/-! ## The cache with a finder -/

namespace CacheSet

variable {α σ : Type}

/-- `cache_set::access` with the given `match_finder`. -/
def accessWith (find : Nat → (Nat → Nat) → Nat) (c : CacheSet α) (setBits ways key : Nat)
    (miss : Nat → Nat → σ → α × σ) (valid : α → Bool) (index : Nat) (s : σ) :
    CacheSet α × Option α × σ :=
  let tag := taggedKey setBits key
  let vi := find tag c.keys
  if vi < ways then
    if (c.values vi).any valid then
      ({ c with plru := c.plru.touch ways vi }, c.values vi, s)
    else
      let (result, s) := miss key (index + vi) s
      ({ c with
          values := Function.update c.values vi (some result)
          plru := c.plru.touch ways vi }, some result, s)
  else
    let victim := c.plru.oldest ways
    let (result, s) := miss key (index + victim) s
    ({ keys := Function.update c.keys victim tag
       values := Function.update c.values victim (some result)
       plru := c.plru.touch ways victim }, some result, s)

/-- `cache_set::contains` with the given `match_finder`. -/
def containsWith (find : Nat → (Nat → Nat) → Nat) (c : CacheSet α) (setBits ways key : Nat) :
    Bool :=
  find (taggedKey setBits key) c.keys < ways

/-- What is found decides what an access does, if anything is found. -/
theorem accessWith_congr {find find' : Nat → (Nat → Nat) → Nat} {c : CacheSet α}
    {setBits ways key : Nat} (miss : Nat → Nat → σ → α × σ) (valid : α → Bool) (index : Nat)
    (s : σ)
    (h : find (taggedKey setBits key) c.keys = find' (taggedKey setBits key) c.keys ∨
      ways ≤ find (taggedKey setBits key) c.keys ∧
        ways ≤ find' (taggedKey setBits key) c.keys) :
    c.accessWith find setBits ways key miss valid index s =
      c.accessWith find' setBits ways key miss valid index s := by
  rcases h with heq | ⟨hge, hge'⟩
  · simp only [accessWith, heq]
  · simp only [accessWith, if_neg (Nat.not_lt.2 hge), if_neg (Nat.not_lt.2 hge')]

/-- All tags but one are what they were. -/
theorem keys_accessWith (find : Nat → (Nat → Nat) → Nat) (c : CacheSet α)
    (setBits ways key : Nat) (miss : Nat → Nat → σ → α × σ) (valid : α → Bool) (index : Nat)
    (s : σ) (way : Nat) :
    (c.accessWith find setBits ways key miss valid index s).1.keys way = taggedKey setBits key ∨
    (c.accessWith find setBits ways key miss valid index s).1.keys way = c.keys way := by
  simp only [accessWith]
  split
  case isTrue => split <;> exact Or.inr rfl
  case isFalse =>
    simp only [Function.update_apply]
    split
    case isTrue => exact Or.inl rfl
    case isFalse => exact Or.inr rfl

end CacheSet

namespace PlruCache

variable {α σ : Type} {setBits ways : Nat}

/-- The portable `match_finder`. -/
def portable (ways tag : Nat) (keys : Nat → Nat) : Nat :=
  matchFrom tag keys ways 0

/-- `access(key, miss, valid)` with the given `match_finder`. -/
def accessWith (find : Nat → (Nat → Nat) → Nat) (c : PlruCache α setBits ways) (key : Nat)
    (miss : Nat → Nat → σ → α × σ) (valid : α → Bool) (s : σ) :
    PlruCache α setBits ways × Option α × σ :=
  let i := set setBits key
  let (entry, result, s) := (c.sets i).accessWith find setBits ways key miss valid (i * ways) s
  (⟨Function.update c.sets i entry⟩, result, s)

/-- `contains(key)` with the given `match_finder`. -/
def containsWith (find : Nat → (Nat → Nat) → Nat) (c : PlruCache α setBits ways) (key : Nat) :
    Bool :=
  (c.sets (set setBits key)).containsWith find setBits ways key

theorem accessWith_portable (c : PlruCache α setBits ways) (key : Nat)
    (miss : Nat → Nat → σ → α × σ) (valid : α → Bool) (s : σ) :
    c.accessWith (portable ways) key miss valid s = c.access key miss valid s := rfl

theorem containsWith_portable (c : PlruCache α setBits ways) (key : Nat) :
    c.containsWith (portable ways) key = c.contains key := rfl

/-- All tags have at most `n` bits. -/
def Fits (c : PlruCache α setBits ways) (n : Nat) : Prop :=
  ∀ i way, (c.sets i).keys way < 2 ^ n

theorem Fits.accessWith {c : PlruCache α setBits ways} {n key : Nat} (h : c.Fits n)
    (htag : taggedKey setBits key < 2 ^ n) (find : Nat → (Nat → Nat) → Nat)
    (miss : Nat → Nat → σ → α × σ) (valid : α → Bool) (s : σ) :
    (c.accessWith find key miss valid s).1.Fits n := by
  intro i way
  simp only [PlruCache.accessWith, Function.update_apply]
  split
  case isTrue =>
    rcases CacheSet.keys_accessWith find (c.sets (set setBits key)) setBits ways key miss valid
      (set setBits key * ways) s way with hkey | hkey
    · rw [hkey]
      exact htag
    · rw [hkey]
      exact h _ way
  case isFalse => exact h i way

end PlruCache

/-- What is asked of a cache. -/
inductive Query (α σ : Type)
  | access (a : Access α σ)
  | contains (key : Nat)
  | size

/-- And answered. -/
inductive Answer (α : Type)
  | value (v : Option α)
  | contained (found : Bool)
  | count (n : Nat)
  deriving DecidableEq

namespace Query

variable {α σ : Type} {s setBits ways : Nat}

/-- The key that is searched. -/
def key? : Query α σ → Option Nat
  | access a => some a.key
  | contains key => some key
  | size => none

/-- A cache and the state of the program around it, with some `match_finder`. -/
def machineWith (find : Nat → (Nat → Nat) → Nat) :
    Machine (Query α σ) (Answer α) (PlruCache α setBits ways × σ) where
  step t
    | access a =>
        let (cache, result, state) := t.1.accessWith find a.key a.miss a.valid t.2
        ((cache, state), [.value result])
    | contains key => (t, [.contained (t.1.containsWith find key)])
    | size => (t, [.count t.1.size])

/-- The search for a key has the right result. -/
def Finds (find : Nat → (Nat → Nat) → Nat) (t : PlruCache α setBits ways × σ)
    (q : Query α σ) : Prop :=
  ∀ key ∈ q.key?,
    FirstMatch ways (taggedKey setBits key) (t.1.sets (PlruCache.set setBits key)).keys
      (find (taggedKey setBits key) (t.1.sets (PlruCache.set setBits key)).keys)

/-- The tag of a key is in the first way of its set or in none. -/
def First (t : PlruCache α setBits ways × σ) (q : Query α σ) : Prop :=
  ∀ key ∈ q.key?,
    FirstOrNone ways (taggedKey setBits key) (t.1.sets (PlruCache.set setBits key)).keys

/-- If the search is right, then the query does what it does with the portable code. -/
theorem step_eq {find : Nat → (Nat → Nat) → Nat} {t : PlruCache α setBits ways × σ}
    {q : Query α σ} (h : Finds find t q) :
    (machineWith find).step t q = (machineWith (PlruCache.portable ways)).step t q := by
  have hkey : ∀ key ∈ q.key?, ∀ keys,
      keys = (t.1.sets (PlruCache.set setBits key)).keys →
      find (taggedKey setBits key) keys = PlruCache.portable ways (taggedKey setBits key) keys ∨
      ways ≤ find (taggedKey setBits key) keys ∧
        ways ≤ PlruCache.portable ways (taggedKey setBits key) keys := by
    rintro key hmem keys rfl
    have hfirst := firstMatch_iff.1 (h key hmem)
    split at hfirst
    case isTrue => exact Or.inl hfirst
    case isFalse hge => exact Or.inr ⟨hfirst, Nat.not_lt.1 hge⟩
  cases q with
  | access a =>
      have hset := CacheSet.accessWith_congr a.miss a.valid
        (PlruCache.set setBits a.key * ways) t.2 (hkey a.key rfl _ rfl)
      simp only [machineWith, PlruCache.accessWith, hset]
  | contains key =>
      have hset : (t.1.sets (PlruCache.set setBits key)).containsWith find setBits ways key =
          (t.1.sets (PlruCache.set setBits key)).containsWith (PlruCache.portable ways)
            setBits ways key := by
        unfold CacheSet.containsWith
        rcases hkey key rfl _ rfl with heq | ⟨hge, hge'⟩
        · rw [heq]
        · rw [decide_eq_false (Nat.not_lt.2 hge), decide_eq_false (Nat.not_lt.2 hge')]
      simp only [machineWith, PlruCache.containsWith, hset]
  | size => rfl

/-- A new cache after some queries, and the state around it. -/
def after (find : Nat → (Nat → Nat) → Nat) (setBits ways : Nat) (state : σ)
    (qs : List (Query α σ)) : PlruCache α setBits ways × σ :=
  ((machineWith find).run ({}, state) qs).1

/-- What a new cache answers. -/
def answers (find : Nat → (Nat → Nat) → Nat) (setBits ways : Nat) (state : σ)
    (qs : List (Query α σ)) : List (Answer α) :=
  ((machineWith find).run (({} : PlruCache α setBits ways), state) qs).2

/-- The tags of a cache that has been used with keys of `w` bits have room in their type. -/
theorem fits_after (v : Simd) {w : Nat} (h : v.Selected w (s + 1)) (state : σ)
    {qs : List (Query α σ)} (hkeys : ∀ q ∈ qs, ∀ key ∈ q.key?, key < 2 ^ w) :
    (after v.find (s + 1) v.ways state qs).1.Fits v.tagBits := by
  refine @Machine.run_invariant _ _ _ (machineWith v.find) (fun t _ => t.1.Fits v.tagBits)
    (fun _ q => ∀ key ∈ q.key?, key < 2 ^ w) ?_ (({} : PlruCache α (s + 1) v.ways), state)
    (fun _ _ => Nat.two_pow_pos _) qs ?_
  · intro t out q hfits hq
    cases q with
    | access a => exact hfits.accessWith (h.tag_lt (hq a.key rfl)) v.find a.miss a.valid t.2
    | contains key => exact hfits
    | size => exact hfits
  · intro pre q hpre
    exact hkeys q (hpre.subset (List.mem_append_right pre (List.mem_singleton.2 rfl)))

/-- A specialisation is right in every search of a run, and has the results of the portable code,
if and only if it is not the one for 16-bit tags and four ways, or if every tag that is searched
is in the first way of its set or in no way. There are at least two sets; for a single one no tag
is defined. -/
theorem agrees_iff (v : Simd) {w : Nat} (h : v.Selected w (s + 1)) (state : σ)
    (qs : List (Query α σ)) (hkeys : ∀ q ∈ qs, ∀ key ∈ q.key?, key < 2 ^ w) :
    (Machine.AtEachStep (fun pre => Finds v.find (after v.find (s + 1) v.ways state pre)) qs ∧
      answers v.find (s + 1) v.ways state qs =
        answers (PlruCache.portable v.ways) (s + 1) v.ways state qs) ↔
    v ≠ .u16x4 ∨
      Machine.AtEachStep (fun pre => First (after v.find (s + 1) v.ways state pre)) qs := by
  have hstep : ∀ pre q, pre ++ [q] <+: qs →
      (Finds v.find (after v.find (s + 1) v.ways state pre) q ↔
        v ≠ .u16x4 ∨ First (after v.find (s + 1) v.ways state pre) q) := by
    intro pre q hpre
    have hfits := fits_after v h state fun q hq =>
      hkeys q (hpre.subset (List.mem_append_left _ hq))
    have hq := hkeys q (hpre.subset (List.mem_append_right pre (List.mem_singleton.2 rfl)))
    unfold Finds First
    rcases hkey : q.key? with _ | key
    · simp
    · have hfind := v.find_iff (h.tag_lt (hq key hkey)) (hfits (PlruCache.set (s + 1) key))
      simpa using hfind
  constructor
  · rintro ⟨hfinds, -⟩
    rcases Classical.em (v = .u16x4) with hv | hv
    · exact Or.inr fun pre q hpre =>
        ((hstep pre q hpre).1 (hfinds pre q hpre)).resolve_left (not_not.2 hv)
    · exact Or.inl hv
  · intro hcond
    have hfinds : Machine.AtEachStep
        (fun pre => Finds v.find (after v.find (s + 1) v.ways state pre)) qs :=
      fun pre q hpre => (hstep pre q hpre).2 (hcond.imp_right fun hfirst => hfirst pre q hpre)
    have hsame : ∀ {t u : PlruCache α (s + 1) v.ways × σ} {q : Query α σ}, t = u →
        Finds v.find t q → ((machineWith v.find).step t q).1 =
            ((machineWith (PlruCache.portable v.ways)).step u q).1 ∧
          ((machineWith v.find).step t q).2 =
            ((machineWith (PlruCache.portable v.ways)).step u q).2 := by
      rintro t _ q rfl hq
      rw [step_eq hq]
      exact ⟨rfl, rfl⟩
    exact ⟨hfinds, (Machine.run_simulates hsame rfl hfinds).2⟩

/-- Three keys of one set, with 32-bit tags. -/
theorem agrees_iff_u32x4 :
    answers findU32x4 2 4 () [.access (plainAccess 0), .access (plainAccess 4),
        .access (plainAccess 8), .contains 4] =
      answers (PlruCache.portable 4) 2 4 () [.access (plainAccess 0), .access (plainAccess 4),
        .access (plainAccess 8), .contains 4] :=
  ((@agrees_iff Nat Unit 1 .u32x4 32 (by decide) () [.access (plainAccess 0),
    .access (plainAccess 4), .access (plainAccess 8), .contains 4]
    (by simp [key?, plainAccess])).2 (Or.inl Simd.noConfusion)).2

/-- Two keys of one set, with 16-bit tags: the second one is not found again. -/
theorem not_agrees_u16x4 :
    Simd.u16x4.Selected 16 2 ∧
    answers findU16x4 2 4 () [.access (plainAccess 0), .access (plainAccess 4), .contains 4] =
      [.value (some 0), .value (some 4), .contained false] ∧
    answers (PlruCache.portable 4) 2 4 ()
        [.access (plainAccess 0), .access (plainAccess 4), .contains 4] =
      [.value (some 0), .value (some 4), .contained true] := by
  decide +kernel

end Query

end Midi2.Adt
