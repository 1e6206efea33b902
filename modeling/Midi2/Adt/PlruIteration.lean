import Midi2.Adt.PlruSound
import Midi2.Adt.UInteger

/-!
# Iterating over the cache (`adt/plru_cache.hpp`)

An iterator is the number of a set and of a way in it. It is moved to the next entry in use by
two loops, which go over the entries in order (`walkFrom_eq`), so that each entry in use is
visited once. What is visited there is a pair of a key and a value. The key is put together
again from the tag and the number of the set.

But the mask that removes the lowest bit of the tag has 32 bits. Of a tag that has more it
removes the others as well, so that of the key there remain the lowest 31 bits and those of the
set number (`deref_eq`). And if a key of 64 bits has more than 32 bits for the set, then the
type of the tag is too narrow for the shift, which is undefined. Otherwise the keys that are
visited are those that were put into the cache (`visitsResidents_iff`).
-/

namespace Midi2.Adt

/-- `set_index_` and `way_index_`. -/
structure Cursor where
  set : Nat
  way : Nat
  deriving DecidableEq

/-- `cache_set::key(index)`: there is none if the shift is not defined. The tag is promoted, and
then converted to the type of the mask if that is wider. -/
def CacheSet.key {α : Type} (c : CacheSet α) (w setBits index : Nat) : Option Nat :=
  let width := promoted (uinteger (w - setBits + 1))
  if setBits - 1 < width then
    some ((c.keys index &&& (2 ^ 32 - 1 - 0x01)) <<< (setBits - 1) % 2 ^ width % 2 ^ w)
  else
    none

namespace PlruCache

variable {α : Type} {s setBits ways : Nat}

/-- `valid()` of an iterator. -/
def valid (c : PlruCache α setBits ways) (p : Cursor) : Bool :=
  validTag ((c.sets p.set).keys p.way)

/-- `end()`. -/
def last (setBits ways : Nat) : Cursor :=
  ⟨2 ^ setBits, ways⟩

/-- The body of both loops, and whether it ends in `break`. -/
def advance (setBits ways : Nat) (p : Cursor) : Cursor × Bool :=
  let way := p.way + 1
  if way ≥ ways then
    let set := p.set + 1
    if set ≥ 2 ^ setBits then (⟨set, way⟩, true) else (⟨set, 0⟩, false)
  else
    (⟨p.set, way⟩, false)

/-- The loop `while (!valid)`, from an entry on. -/
def firstValidFrom (c : PlruCache α setBits ways) : Nat → Cursor → Option Cursor
  | 0, _ => none
  | n + 1, p =>
      if c.valid p then some p
      else
        match advance setBits ways p with
        | (p, true) => some p
        | (p, false) => c.firstValidFrom n p

/-- `begin()`, with `first_valid()`. -/
def first (c : PlruCache α setBits ways) : Option Cursor :=
  c.firstValidFrom (2 ^ setBits * ways) ⟨0, 0⟩

/-- `operator++`. -/
def next (c : PlruCache α setBits ways) (p : Cursor) : Option Cursor :=
  match advance setBits ways p with
  | (p, true) => some p
  | (p, false) => c.firstValidFrom (2 ^ setBits * ways) p

/-- `operator*`, for keys of `w` bits. -/
def deref (c : PlruCache α setBits ways) (w : Nat) (p : Cursor) : Option (Nat × α) := do
  let key ← (c.sets p.set).key w setBits p.way
  let value ← (c.sets p.set).values p.way
  some ((key ||| p.set) % 2 ^ w, value)

/-- The loop `for (; it != end(); ++it)`, from an entry on. -/
def walkFrom (c : PlruCache α setBits ways) (w : Nat) : Nat → Cursor → Option (List (Nat × α))
  | 0, _ => none
  | n + 1, p =>
      if p = last setBits ways then some []
      else do
        let pair ← c.deref w p
        let p ← c.next p
        let rest ← c.walkFrom w n p
        some (pair :: rest)

/-- What is visited from `begin()` to `end()`. -/
def walk (c : PlruCache α setBits ways) (w : Nat) : Option (List (Nat × α)) := do
  let p ← c.first
  c.walkFrom w (2 ^ setBits * ways + 1) p

/-! ## The order of the entries -/

/-- The place of an entry in the order, from its number. -/
def cursor (setBits ways n : Nat) : Cursor :=
  if n < 2 ^ setBits * ways then ⟨n / ways, n % ways⟩ else last setBits ways

theorem cursor_of_lt {n : Nat} (h : n < 2 ^ setBits * ways) :
    cursor setBits ways n = ⟨n / ways, n % ways⟩ :=
  if_pos h

theorem div_lt {n : Nat} (h : n < 2 ^ setBits * ways) : n / ways < 2 ^ setBits :=
  Nat.div_lt_of_lt_mul (by rwa [Nat.mul_comm])

theorem cursor_ne_last {n : Nat} (h : n < 2 ^ setBits * ways) :
    cursor setBits ways n ≠ last setBits ways := by
  rw [cursor_of_lt h, last]
  intro heq
  exact Nat.ne_of_lt (div_lt h) (congrArg Cursor.set heq)

/-- The entries are gone through by number. -/
theorem advance_cursor {n : Nat} (h : n < 2 ^ setBits * ways) :
    advance setBits ways (cursor setBits ways n) =
      (cursor setBits ways (n + 1), decide (n + 1 = 2 ^ setBits * ways)) := by
  have hways : 0 < ways := Nat.pos_of_ne_zero fun h0 => by
    rw [h0, Nat.mul_zero] at h
    exact Nat.not_lt_zero n h
  have hset := div_lt h
  have hway := Nat.mod_lt n hways
  have hsplit := Nat.div_add_mod' n ways
  rw [cursor_of_lt h, advance]
  by_cases hwrap : n % ways + 1 ≥ ways
  · have hway' : n % ways + 1 = ways := by omega
    have hnext : n + 1 = (n / ways + 1) * ways := by rw [Nat.succ_mul]; omega
    rw [if_pos hwrap]
    by_cases hend : n / ways + 1 ≥ 2 ^ setBits
    · have hset' : n / ways + 1 = 2 ^ setBits := by omega
      rw [if_pos hend, hnext, hset', cursor, if_neg (Nat.lt_irrefl _), decide_eq_true rfl, last,
        hway']
    · have hlt : n + 1 < 2 ^ setBits * ways := by
        rw [hnext]
        exact Nat.mul_lt_mul_of_pos_right (Nat.not_le.1 hend) hways
      rw [if_neg hend, cursor_of_lt hlt, decide_eq_false (Nat.ne_of_lt hlt), hnext,
        Nat.mul_div_cancel _ hways, Nat.mul_mod_left]
  · have hnext : (n % ways + 1) + ways * (n / ways) = n + 1 := by
      rw [Nat.mul_comm]
      omega
    obtain ⟨hdiv, hmod⟩ := (Nat.div_mod_unique hways).2 ⟨hnext, Nat.not_le.1 hwrap⟩
    have hlt : n + 1 < 2 ^ setBits * ways := by
      have hle : (n / ways + 1) * ways ≤ 2 ^ setBits * ways := Nat.mul_le_mul_right ways hset
      rw [Nat.succ_mul] at hle
      omega
    rw [if_neg hwrap, cursor_of_lt hlt, decide_eq_false (Nat.ne_of_lt hlt), hdiv, hmod]

section Walk

variable (c : PlruCache α setBits ways)

/-- The numbers of the entries in use, from `n` on. -/
def inUse (n : Nat) : List Nat :=
  (List.range' n (2 ^ setBits * ways - n)).filter fun i => c.valid (cursor setBits ways i)

theorem inUse_end : c.inUse (2 ^ setBits * ways) = [] := by
  rw [inUse, Nat.sub_self]
  rfl

theorem inUse_eq {n : Nat} (h : n < 2 ^ setBits * ways) :
    c.inUse n = if c.valid (cursor setBits ways n) then n :: c.inUse (n + 1)
      else c.inUse (n + 1) := by
  rw [inUse, show 2 ^ setBits * ways - n = 2 ^ setBits * ways - (n + 1) + 1 by omega,
    List.range'_succ, List.filter_cons]
  rfl

theorem mem_inUse {n i : Nat} :
    i ∈ c.inUse n ↔ n ≤ i ∧ i < 2 ^ setBits * ways ∧ c.valid (cursor setBits ways i) = true := by
  rw [inUse, List.mem_filter, List.mem_range'_1]
  constructor
  · rintro ⟨⟨hle, hlt⟩, hvalid⟩
    exact ⟨hle, by omega, hvalid⟩
  · rintro ⟨hle, hlt, hvalid⟩
    exact ⟨⟨hle, by omega⟩, hvalid⟩

/-- Where an iterator may be: at an entry in use or at the end. -/
def Stops (n : Nat) : Prop :=
  n = 2 ^ setBits * ways ∨ n < 2 ^ setBits * ways ∧ c.valid (cursor setBits ways n) = true

/-- The loop stops at the next entry in use. As many rounds are enough as there are entries. -/
theorem firstValidFrom_cursor {n fuel : Nat} (h : n < 2 ^ setBits * ways)
    (hfuel : 2 ^ setBits * ways ≤ n + fuel) :
    ∃ m, n ≤ m ∧ c.Stops m ∧ c.inUse n = c.inUse m ∧
      c.firstValidFrom fuel (cursor setBits ways n) = some (cursor setBits ways m) := by
  induction fuel generalizing n with
  | zero => exact absurd h (Nat.not_lt.2 hfuel)
  | succ fuel ih =>
      rw [firstValidFrom]
      cases hvalid : c.valid (cursor setBits ways n) with
      | true => exact ⟨n, Nat.le_refl n, Or.inr ⟨h, hvalid⟩, rfl, rfl⟩
      | false =>
          rw [inUse_eq c h, hvalid, advance_cursor h]
          by_cases hend : n + 1 = 2 ^ setBits * ways
          · refine ⟨n + 1, Nat.le_succ n, Or.inl hend, rfl, ?_⟩
            rw [decide_eq_true hend]
            rfl
          · obtain ⟨m, hle, hstop, hsame, hfirst⟩ :=
              ih (show n + 1 < 2 ^ setBits * ways by omega) (by omega)
            refine ⟨m, Nat.le_of_succ_le hle, hstop, hsame, ?_⟩
            rw [decide_eq_false hend]
            exact hfirst

theorem next_cursor {n : Nat} (h : n < 2 ^ setBits * ways) :
    ∃ m, n < m ∧ c.Stops m ∧ c.inUse (n + 1) = c.inUse m ∧
      c.next (cursor setBits ways n) = some (cursor setBits ways m) := by
  rw [next, advance_cursor h]
  by_cases hend : n + 1 = 2 ^ setBits * ways
  · refine ⟨n + 1, Nat.lt_succ_self n, Or.inl hend, rfl, ?_⟩
    rw [decide_eq_true hend]
  · obtain ⟨m, hle, hstop, hsame, hfirst⟩ :=
      @firstValidFrom_cursor _ _ _ c (n + 1) (2 ^ setBits * ways) (by omega) (by omega)
    refine ⟨m, hle, hstop, hsame, ?_⟩
    rw [decide_eq_false hend]
    exact hfirst

/-- The entries in use are visited in order. -/
theorem walkFrom_eq (w : Nat) {n fuel : Nat} (hstop : c.Stops n)
    (hfuel : 2 ^ setBits * ways < n + fuel) :
    c.walkFrom w fuel (cursor setBits ways n) =
      (c.inUse n).mapM fun i => c.deref w (cursor setBits ways i) := by
  induction fuel generalizing n with
  | zero =>
      rcases hstop with heq | ⟨hlt, -⟩
      · omega
      · omega
  | succ fuel ih =>
      rcases hstop with rfl | ⟨hlt, hvalid⟩
      · rw [walkFrom, cursor, if_neg (Nat.lt_irrefl _), if_pos rfl, inUse_end]
        rfl
      · obtain ⟨m, hle, hstop, hsame, hnext⟩ := next_cursor c hlt
        rw [walkFrom, if_neg (cursor_ne_last hlt), inUse_eq c hlt, if_pos hvalid, hsame, hnext,
          List.mapM_cons, ← ih hstop (by omega)]
        rfl

theorem walk_eq (w : Nat) (hways : 0 < ways) :
    c.walk w = (c.inUse 0).mapM fun i => c.deref w (cursor setBits ways i) := by
  have hpos : 0 < 2 ^ setBits * ways := Nat.mul_pos (Nat.two_pow_pos _) hways
  have hzero : cursor setBits ways 0 = ⟨0, 0⟩ := by
    rw [cursor_of_lt hpos, Nat.zero_div, Nat.zero_mod]
  obtain ⟨m, -, hstop, hsame, hfirst⟩ :=
    @firstValidFrom_cursor _ _ _ c 0 (2 ^ setBits * ways) hpos (Nat.le_add_left _ _)
  rw [hzero] at hfirst
  have hwalk := @walkFrom_eq _ _ _ c w m (2 ^ setBits * ways + 1) hstop (by omega)
  rw [walk, first, hfirst, hsame, ← hwalk]
  rfl

end Walk

/-! ## The keys that are reported -/

/-- The mask removes the lowest bit, and those from the 32nd on. -/
theorem and_mask (n : Nat) : n &&& (2 ^ 32 - 1 - 0x01) = 2 ^ 1 * (n / 2 % 2 ^ 31) := by
  have hmask : (2 ^ 32 - 1 - 0x01 : Nat) = 2 ^ 1 * (2 ^ 31 - 1) := rfl
  refine Nat.eq_of_testBit_eq fun i => ?_
  rw [hmask, Nat.testBit_and, Nat.testBit_two_pow_mul, Nat.testBit_two_pow_mul,
    Nat.testBit_two_pow_sub_one, Nat.testBit_mod_two_pow, Nat.testBit_div_two]
  by_cases hi : i ≥ 1
  · rw [Nat.sub_add_cancel hi, Bool.and_left_comm, Bool.and_comm (n.testBit i)]
  · rw [decide_eq_false hi, Bool.false_and, Bool.false_and, Bool.and_false]

/-- The type of the mask is wide enough for the shift if the set has at most 32 bits of the key,
and then the shifted tag has room for the key. -/
theorem shift_width {w s : Nat} (hw : w = 8 ∨ w = 16 ∨ w = 32 ∨ w = 64) :
    (s < promoted (uinteger (w - (s + 1) + 1)) ↔ s < 32) ∧
    (s < 32 → w ≤ promoted (uinteger (w - (s + 1) + 1))) := by
  unfold promoted uinteger
  rcases hw with rfl | rfl | rfl | rfl
  all_goals
    split
    · omega
    · split
      · omega
      · split
        · omega
        · omega

theorem key_eq {c : CacheSet α} {w s way key : Nat} (hw : w = 8 ∨ w = 16 ∨ w = 32 ∨ w = 64)
    (hkey : key < 2 ^ w) (htag : c.keys way = taggedKey (s + 1) key) :
    c.key w (s + 1) way =
      if s < 32 then some (2 ^ (s + 1) * (key / 2 ^ (s + 1) % 2 ^ 31)) else none := by
  obtain ⟨hdefined, hroom⟩ := @shift_width w s hw
  have hhalf : taggedKey (s + 1) key / 2 = key / 2 ^ (s + 1) := by
    rw [taggedKey_eq]
    omega
  have hle : 2 ^ (s + 1) * (key / 2 ^ (s + 1) % 2 ^ 31) < 2 ^ w := by
    calc 2 ^ (s + 1) * (key / 2 ^ (s + 1) % 2 ^ 31)
        ≤ 2 ^ (s + 1) * (key / 2 ^ (s + 1)) := Nat.mul_le_mul_left _ (Nat.mod_le _ _)
      _ ≤ key := Nat.mul_div_le key _
      _ < 2 ^ w := hkey
  rw [CacheSet.key, htag, and_mask, hhalf, Nat.add_sub_cancel, Nat.shiftLeft_eq, Nat.mul_right_comm,
    ← Nat.pow_add, Nat.add_comm 1 s]
  simp only [hdefined]
  by_cases hs : s < 32
  · have hwide : 2 ^ w ≤ 2 ^ promoted (uinteger (w - (s + 1) + 1)) :=
      Nat.pow_le_pow_right Nat.two_pos (hroom hs)
    rw [if_pos hs, if_pos hs, Nat.mod_eq_of_lt (Nat.lt_of_lt_of_le hle hwide), Nat.mod_eq_of_lt hle]
  · rw [if_neg hs, if_neg hs]

/-- Of the key there remain the lowest bits: those of the set number, and 31 more. -/
theorem deref_eq {c : PlruCache α (s + 1) ways} {w key : Nat} {p : Cursor} {v : α}
    (hw : w = 8 ∨ w = 16 ∨ w = 32 ∨ w = 64) (hkey : key < 2 ^ w)
    (hset : set (s + 1) key = p.set) (htag : (c.sets p.set).keys p.way = taggedKey (s + 1) key)
    (hv : (c.sets p.set).values p.way = some v) :
    c.deref w p = if s < 32 then some (key % 2 ^ (32 + s), v) else none := by
  rw [set_eq] at hset
  have hlow : p.set < 2 ^ (s + 1) := hset ▸ Nat.mod_lt key (Nat.two_pow_pos _)
  have hjoin : 2 ^ (s + 1) * (key / 2 ^ (s + 1) % 2 ^ 31) ||| p.set = key % 2 ^ (32 + s) := by
    have hpow : 2 ^ (32 + s) = 2 ^ (s + 1) * 2 ^ 31 := by
      rw [← Nat.pow_add, show 32 + s = s + 1 + 31 by omega]
    rw [← Nat.two_pow_add_eq_or_of_lt hlow, ← hset, hpow, Nat.mod_mul, Nat.add_comm]
  have hle : key % 2 ^ (32 + s) < 2 ^ w := Nat.lt_of_le_of_lt (Nat.mod_le _ _) hkey
  rw [deref, key_eq hw hkey htag, hv]
  by_cases hs : s < 32
  · rw [if_pos hs, if_pos hs, ← Nat.mod_eq_of_lt hle, ← hjoin]
    rfl
  · rw [if_neg hs, if_neg hs]
    rfl

/-! ## Who is visited -/

theorem mapM_eq_some {β γ : Type} {f : β → Option γ} {l : List β} {l' : List γ} :
    l.mapM f = some l' ↔ (∀ a ∈ l, ∃ b, f a = some b) ∧ l' = l.filterMap f := by
  induction l generalizing l' with
  | nil => exact ⟨fun h => ⟨fun _ ha => absurd ha List.not_mem_nil, (Option.some.inj h).symm⟩,
      fun h => congrArg some h.2.symm⟩
  | cons a l ih =>
      rw [List.mapM_cons, List.forall_mem_cons]
      cases ha : f a with
      | none =>
          refine iff_of_false (fun h => by cases h) ?_
          rintro ⟨⟨⟨b, hb⟩, -⟩, -⟩
          cases hb
      | some b =>
          rw [List.filterMap_cons_some ha, Option.bind_eq_bind, Option.bind_some,
            Option.bind_eq_bind]
          constructor
          · intro h
            obtain ⟨rest, hrest, hl'⟩ := Option.bind_eq_some_iff.1 h
            obtain ⟨hall, rfl⟩ := ih.1 hrest
            exact ⟨⟨⟨b, rfl⟩, hall⟩, (Option.some.inj hl').symm⟩
          · rintro ⟨⟨-, hall⟩, rfl⟩
            rw [ih.2 ⟨hall, rfl⟩]
            rfl

/-- The entry of number `n` has the key. -/
structure HasKey (c : PlruCache α (s + 1) ways) (n key : Nat) : Prop where
  set : set (s + 1) key = n / ways
  tag : (c.sets (n / ways)).keys (n % ways) = taggedKey (s + 1) key

variable {c : PlruCache α (s + 1) ways} {n n' key key' : Nat}

theorem HasKey.valid (h : c.HasKey n key) (hn : n < 2 ^ (s + 1) * ways) :
    c.valid (cursor (s + 1) ways n) = true := by
  rw [cursor_of_lt hn, PlruCache.valid, h.tag]
  exact validTag_taggedKey (s + 1) key

theorem HasKey.key_inj (h : c.HasKey n key) (h' : c.HasKey n key') : key = key' := by
  by_contra hne
  exact tag_ne hne (h.set.trans h'.set.symm) (h.tag.symm.trans h'.tag)

theorem HasKey.findMatching_eq (h : c.HasKey n key) (hc : c.Distinct) (hways : 0 < ways) :
    (c.sets (PlruCache.set (s + 1) key)).findMatching ways (taggedKey (s + 1) key) = n % ways := by
  rw [h.set]
  exact (hc _).findMatching_eq (validTag_taggedKey (s + 1) key) (Nat.mod_lt n hways) h.tag

/-- A key has one entry only. -/
theorem HasKey.num_inj (h : c.HasKey n key) (h' : c.HasKey n' key) (hc : c.Distinct)
    (hways : 0 < ways) : n = n' := by
  have hmod := (h.findMatching_eq hc hways).symm.trans (h'.findMatching_eq hc hways)
  rw [← Nat.div_add_mod n ways, ← Nat.div_add_mod n' ways, hmod, h.set.symm.trans h'.set]

theorem HasKey.contains (h : c.HasKey n key) (hways : 0 < ways) : c.contains key = true := by
  rw [contains_iff, CacheSet.findMatching_lt_iff, h.set]
  exact ⟨n % ways, Nat.mod_lt n hways, h.tag⟩

theorem HasKey.values_eq (h : c.HasKey n key) (hc : c.Distinct) (hways : 0 < ways) {v : α}
    (hv : c.cached key = some v) : (c.sets (n / ways)).values (n % ways) = some v := by
  rw [cached, CacheSet.cached, h.findMatching_eq hc hways, h.set] at hv
  rwa [if_pos (Nat.mod_lt n hways)] at hv

/-- The entries in use are those of the keys in the cache. -/
theorem exists_hasKey_of_mem (hmem : n ∈ c.inUse 0) : ∃ key, c.HasKey n key := by
  obtain ⟨-, hlt, hvalid⟩ := (mem_inUse c).1 hmem
  rw [cursor_of_lt hlt, PlruCache.valid] at hvalid
  obtain ⟨hset, htag⟩ := (keyOf_iff (div_lt hlt) hvalid).2 rfl
  exact ⟨_, hset, htag.symm⟩

theorem exists_hasKey_of_contains (hin : c.contains key = true) :
    ∃ n ∈ c.inUse 0, c.HasKey n key := by
  rw [contains_iff, CacheSet.findMatching_lt_iff] at hin
  obtain ⟨way, hway, htag⟩ := hin
  have hpos : 0 < ways := Nat.zero_lt_of_lt hway
  have hset := set_lt (s + 1) key
  obtain ⟨hdiv, hmod⟩ : (way + ways * PlruCache.set (s + 1) key) / ways =
      PlruCache.set (s + 1) key ∧ (way + ways * PlruCache.set (s + 1) key) % ways = way :=
    (Nat.div_mod_unique hpos).2 ⟨rfl, hway⟩
  have hkey : c.HasKey (way + ways * PlruCache.set (s + 1) key) key := by
    refine ⟨hdiv.symm, ?_⟩
    rw [hdiv, hmod, htag]
  have hlt : way + ways * PlruCache.set (s + 1) key < 2 ^ (s + 1) * ways := by
    have hle : (PlruCache.set (s + 1) key + 1) * ways ≤ 2 ^ (s + 1) * ways :=
      Nat.mul_le_mul_right ways hset
    rw [Nat.succ_mul, Nat.mul_comm] at hle
    omega
  exact ⟨_, (mem_inUse c).2 ⟨Nat.zero_le _, hlt, hkey.valid hlt⟩, hkey⟩

/-- What is visited at the entry of a key. -/
theorem HasKey.deref_eq {w : Nat} {v : α} (h : c.HasKey n key) (hc : c.Distinct)
    (hn : n < 2 ^ (s + 1) * ways) (hw : w = 8 ∨ w = 16 ∨ w = 32 ∨ w = 64) (hkey : key < 2 ^ w)
    (hv : c.cached key = some v) :
    c.deref w (cursor (s + 1) ways n) = if s < 32 then some (key % 2 ^ (32 + s), v) else none := by
  have hways : 0 < ways := Nat.pos_of_ne_zero fun h0 => by
    rw [h0, Nat.mul_zero] at hn
    exact Nat.not_lt_zero n hn
  rw [cursor_of_lt hn]
  exact PlruCache.deref_eq hw hkey h.set h.tag (h.values_eq hc hways hv)

/-- From `begin()` to `end()`, for keys of `w` bits, the keys in the cache are visited with their
values, each of them once, and nothing else is. -/
def VisitsResidents (c : PlruCache α setBits ways) (w : Nat) : Prop :=
  ∃ visited, c.walk w = some visited ∧ visited.Nodup ∧
    ∀ key v, (key, v) ∈ visited ↔ c.cached key = some v

end PlruCache

namespace Trace

variable {α σ : Type} {s ways : Nat}

/-- Only keys that have been accessed are passed to `miss`. -/
theorem calls_run {setBits : Nat} (t : Trace α σ setBits ways) (accesses : List (Access α σ)) :
    ∀ m ∈ (machine.run t accesses).1.calls, m ∈ t.calls ∨ ∃ a ∈ accesses, a.key = m.key := by
  induction accesses generalizing t with
  | nil => exact fun m hm => Or.inl hm
  | cons a accesses ih =>
      intro m hm
      rw [Machine.run_cons] at hm
      rcases ih _ m hm with hbefore | ⟨b, hb, hkey⟩
      · rcases machine_step t a with ⟨v, -, -, hstep⟩ | ⟨-, v, state, -, hstep⟩
        · rw [hstep] at hbefore
          exact Or.inl hbefore
        · rw [hstep] at hbefore
          rcases List.mem_append.1 hbefore with hold | hnew
          · exact Or.inl hold
          · rw [List.mem_singleton.1 hnew]
            exact Or.inr ⟨a, List.mem_cons_self, rfl⟩
      · exact Or.inr ⟨b, List.mem_cons_of_mem a hb, hkey⟩

/-- Each entry in use is that of a key in the cache, of which the lowest bits are reported. -/
theorem Core.deref_inUse {t : Trace α σ (s + 1) ways} (h : t.Core) (hways : 0 < ways) {w : Nat}
    (hw : w = 8 ∨ w = 16 ∨ w = 32 ∨ w = 64) (hkeys : ∀ m ∈ t.calls, m.key < 2 ^ w) {n : Nat}
    (hn : n ∈ t.cache.inUse 0) :
    ∃ key v, t.cache.HasKey n key ∧ t.cache.cached key = some v ∧
      t.cache.deref w (PlruCache.cursor (s + 1) ways n) =
        if s < 32 then some (key % 2 ^ (32 + s), v) else none := by
  obtain ⟨key, hkey⟩ := PlruCache.exists_hasKey_of_mem hn
  obtain ⟨v, hv, hlast⟩ := h.value key (hkey.contains hways)
  obtain ⟨m, hm, rfl⟩ := mem_of_lastValue hlast
  have hbound := ((PlruCache.mem_inUse _).1 hn).2.1
  exact ⟨m.key, v, hkey, hv, hkey.deref_eq h.distinct hbound hw (hkeys m hm) hv⟩

/-- If keys are reported as they are, then the right ones are. -/
theorem Core.visits_of_exact {t : Trace α σ (s + 1) ways} (h : t.Core) (hways : 0 < ways) {w : Nat}
    (hexact : ∀ n ∈ t.cache.inUse 0, ∃ key v, t.cache.HasKey n key ∧
      t.cache.cached key = some v ∧
      t.cache.deref w (PlruCache.cursor (s + 1) ways n) = some (key, v)) :
    t.cache.VisitsResidents w := by
  rw [PlruCache.VisitsResidents, PlruCache.walk_eq _ w hways]
  refine ⟨_, PlruCache.mapM_eq_some.2 ⟨fun n hn => ?_, rfl⟩, ?_, fun key v => ?_⟩
  · obtain ⟨key, v, -, -, hderef⟩ := hexact n hn
    exact ⟨_, hderef⟩
  · have hnodup : (t.cache.inUse 0).Nodup := List.Nodup.filter _ List.nodup_range'
    refine List.pairwise_filterMap.2 (hnodup.imp_of_mem ?_)
    intro n n' hn hn' hne pair hpair pair' hpair' heq
    obtain ⟨key, v, hkey, -, hderef⟩ := hexact n hn
    obtain ⟨key', v', hkey', -, hderef'⟩ := hexact n' hn'
    rw [hderef] at hpair
    rw [hderef', ← heq, ← hpair] at hpair'
    obtain ⟨rfl, -⟩ := Prod.mk.inj (Option.some.inj hpair')
    exact hne (hkey.num_inj hkey' h.distinct hways)
  · rw [List.mem_filterMap]
    constructor
    · rintro ⟨n, hn, hpair⟩
      obtain ⟨key', v', -, hv, hderef⟩ := hexact n hn
      rw [hderef] at hpair
      obtain ⟨rfl, rfl⟩ := Prod.mk.inj (Option.some.inj hpair)
      exact hv
    · intro hv
      obtain ⟨n, hn, hkey⟩ :=
        PlruCache.exists_hasKey_of_contains (PlruCache.contains_of_cached hv)
      obtain ⟨key', v', hkey', hv', hderef⟩ := hexact n hn
      obtain rfl := hkey.key_inj hkey'
      obtain rfl := Option.some.inj (hv.symm.trans hv')
      exact ⟨n, hn, hderef⟩

theorem Core.visits_iff {t : Trace α σ (s + 1) ways} (h : t.Core) (hways : 0 < ways) {w : Nat}
    (hw : w = 8 ∨ w = 16 ∨ w = 32 ∨ w = 64) (hkeys : ∀ m ∈ t.calls, m.key < 2 ^ w) :
    t.cache.VisitsResidents w ↔
      ∀ key, t.cache.contains key = true → s < 32 ∧ key < 2 ^ (32 + s) := by
  constructor
  · rintro ⟨visited, hwalk, -, hmem⟩ key hin
    rw [PlruCache.walk_eq _ w hways] at hwalk
    obtain ⟨-, rfl⟩ := PlruCache.mapM_eq_some.1 hwalk
    obtain ⟨v, hv, -⟩ := h.value key hin
    obtain ⟨n, hn, hpair⟩ := List.mem_filterMap.1 ((hmem key v).2 hv)
    obtain ⟨key', v', -, -, hderef⟩ := h.deref_inUse hways hw hkeys hn
    rw [hderef] at hpair
    split at hpair
    case isTrue hs =>
      obtain ⟨rfl, -⟩ := Prod.mk.inj (Option.some.inj hpair)
      exact ⟨hs, Nat.mod_lt _ (Nat.two_pow_pos _)⟩
    case isFalse => cases hpair
  · intro hall
    refine h.visits_of_exact hways fun n hn => ?_
    obtain ⟨key, v, hkey, hv, hderef⟩ := h.deref_inUse hways hw hkeys hn
    obtain ⟨hs, hsmall⟩ := hall key (hkey.contains hways)
    rw [if_pos hs, Nat.mod_eq_of_lt hsmall] at hderef
    exact ⟨key, v, hkey, hv, hderef⟩

/-- After any accesses, the keys in the cache are visited if and only if they have no bits
above those that the mask leaves. -/
theorem visitsResidents_iff (s d : Nat) {w : Nat} (hw : w = 8 ∨ w = 16 ∨ w = 32 ∨ w = 64)
    (state : σ) {accesses : List (Access α σ)} (hkeys : ∀ a ∈ accesses, a.key < 2 ^ w) :
    (machine.run ({ state } : Trace α σ (s + 1) (2 ^ d)) accesses).1.cache.VisitsResidents w ↔
      ∀ key, (machine.run ({ state } : Trace α σ (s + 1) (2 ^ d)) accesses).1.cache.contains key =
        true → s < 32 ∧ key < 2 ^ (32 + s) := by
  refine (core_run s d state accesses).visits_iff (Nat.two_pow_pos d) hw fun m hm => ?_
  rcases calls_run _ accesses m hm with hnone | ⟨a, ha, hkey⟩
  · exact absurd hnone List.not_mem_nil
  · exact hkey ▸ hkeys a ha

/-- Keys of eight bits, one of which has the place of another one. -/
theorem visitsResidents_iff_u8 :
    (machine.run ({ state := () } : Trace Nat Unit 1 (2 ^ 1))
        ([0xFF, 2, 3, 5].map plainAccess)).1.cache.VisitsResidents 8 ↔
      ∀ key, (machine.run ({ state := () } : Trace Nat Unit 1 (2 ^ 1))
        ([0xFF, 2, 3, 5].map plainAccess)).1.cache.contains key = true →
          0 < 32 ∧ key < 2 ^ (32 + 0) :=
  visitsResidents_iff 0 1 (Or.inl rfl) () (by decide)

/-- Two sets, and a key with a bit above the lowest 32: it is visited as zero. -/
theorem not_visitsResidents :
    let cache := (machine.run ({ state := () } : Trace Nat Unit 1 (2 ^ 1))
      [plainAccess (2 ^ 32)]).1.cache
    cache.walk 64 = some [(0, 2 ^ 32)] ∧ cache.contains (2 ^ 32) = true ∧
    cache.contains 0 = false ∧ ¬cache.VisitsResidents 64 := by
  intro cache
  have hfacts : cache.walk 64 = some [(0, 2 ^ 32)] ∧ cache.contains (2 ^ 32) = true ∧
      cache.contains 0 = false ∧ cache.cached (2 ^ 32) = some (2 ^ 32) := by decide
  obtain ⟨hwalk, hin, hout, hcached⟩ := hfacts
  refine ⟨hwalk, hin, hout, ?_⟩
  rintro ⟨visited, hvisited, -, hmem⟩
  obtain rfl := Option.some.inj (hwalk.symm.trans hvisited)
  have hkey := (hmem _ _).2 hcached
  revert hkey
  decide

end Trace

end Midi2.Adt
