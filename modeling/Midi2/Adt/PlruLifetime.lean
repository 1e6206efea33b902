import Midi2.Adt.PlruSound
import Midi2.Lib.Storage

/-!
# The lifetimes of the values of a cache (`adt/plru_cache.hpp`)

The values of a set are raw storage. `access` constructs a value where the tag of the victim is
not valid and assigns to it where it is, and `clear`, which the destructor calls, destroys a value
where the tag is valid. So there has to be a value exactly where there is a valid tag
(`Occupied`). As all operations see to that, no value is constructed twice, used or destroyed
where there is none, or left behind (`values_lifetimes`).
-/

namespace Midi2.Adt

namespace CacheSet

variable {α σ : Type}

/-- What `access` does to the values. -/
def accessTouches (c : CacheSet α) (setBits ways key : Nat) (miss : Nat → Nat → σ → α × σ)
    (valid : α → Bool) (index : Nat) (s : σ) : List (Touch Nat α) :=
  let vi := c.findMatching ways (taggedKey setBits key)
  if vi < ways then
    if (c.values vi).any valid then [.use vi] else [.use vi, .assign vi (miss key (index + vi) s).1]
  else
    let victim := c.plru.oldest ways
    let result := (miss key (index + victim) s).1
    if validTag (c.keys victim) then [.assign victim result] else [.construct victim result]

/-- What `clear` does to the values. -/
def clearTouches (c : CacheSet α) (ways : Nat) : List (Touch Nat α) :=
  (List.range ways).flatMap fun i => if validTag (c.keys i) then [.destroy i] else []

/-- There are values where there are valid tags, and nowhere else. -/
def Occupied (c : CacheSet α) : Prop :=
  ∀ i, (c.values i).isSome = validTag (c.keys i)

theorem occupied_empty : Occupied ({} : CacheSet α) := by
  intro i
  show false = validTag 0
  decide

/-- A value and a valid tag in the same place. -/
theorem Occupied.set {c : CacheSet α} (h : c.Occupied) (way : Nat) {tag : Nat}
    (htag : validTag tag = true) (v : α) (plru : Tree) :
    Occupied { keys := Function.update c.keys way tag
               values := Function.update c.values way (some v)
               plru } := by
  intro i
  simp only [Function.update_apply]
  split
  case isTrue => exact htag.symm
  case isFalse => exact h i

theorem Occupied.access {c : CacheSet α} (h : c.Occupied) (setBits ways key : Nat)
    (miss : Nat → Nat → σ → α × σ) (valid : α → Bool) (index : Nat) (s : σ) :
    (c.access setBits ways key miss valid index s).1.Occupied ∧
      Touch.applyAll c.values (c.accessTouches setBits ways key miss valid index s) =
        some (c.access setBits ways key miss valid index s).1.values := by
  have htag := validTag_taggedKey setBits key
  simp only [CacheSet.access, accessTouches]
  split
  case isTrue hlt =>
    have hkey : c.keys (c.findMatching ways (taggedKey setBits key)) = taggedKey setBits key :=
      matchFrom_eq c.keys (by rwa [Nat.zero_add])
    have hlive : (c.values (c.findMatching ways (taggedKey setBits key))).isSome = true := by
      rw [h, hkey, htag]
    have hset := h.set (c.findMatching ways (taggedKey setBits key)) htag
      (miss key (index + c.findMatching ways (taggedKey setBits key)) s).1
      (c.plru.touch ways (c.findMatching ways (taggedKey setBits key)))
    rw [Function.update_eq_self_iff.2 hkey.symm] at hset
    split
    case isTrue => exact ⟨h, by rw [Touch.applyAll_singleton, Touch.apply_use hlive]⟩
    case isFalse =>
      refine ⟨hset, ?_⟩
      rw [Touch.applyAll_cons, Touch.apply_use hlive, Option.bind_some, Touch.applyAll_singleton]
      exact Touch.apply_eq_some.2 ⟨hlive, rfl⟩
  case isFalse =>
    refine ⟨h.set _ htag _ _, ?_⟩
    have hvictim := h (c.plru.oldest ways)
    split
    case isTrue hvalid =>
      rw [Touch.applyAll_singleton]
      exact Touch.apply_eq_some.2 ⟨hvictim.trans hvalid, rfl⟩
    case isFalse hvalid =>
      rw [Touch.applyAll_singleton]
      exact Touch.apply_eq_some.2 ⟨hvictim.trans (Bool.eq_false_of_not_eq_true hvalid), rfl⟩

theorem Occupied.clear {c : CacheSet α} (h : c.Occupied) (ways : Nat) :
    Touch.applyAll c.values (c.clearTouches ways) = some (c.clear ways).values := by
  induction ways with
  | zero =>
      have hnone : (c.clear 0).values = c.values := by simp [CacheSet.clear]
      rw [hnone]
      rfl
  | succ ways ih =>
      have hsplit : c.clearTouches (ways + 1) = c.clearTouches ways ++
          if validTag (c.keys ways) then [.destroy ways] else [] := by
        rw [clearTouches, List.range_succ, List.flatMap_append, List.flatMap_singleton]
        rfl
      have hway : (c.clear ways).values ways = c.values ways :=
        if_neg fun hlt => Nat.lt_irrefl ways hlt.1
      have hbelow {i : Nat} (hne : i = ways → ¬validTag (c.keys i) = true) :
          i < ways ∧ validTag (c.keys i) = true ↔ i < ways + 1 ∧ validTag (c.keys i) = true :=
        and_congr_left fun hvalid => ⟨Nat.lt_succ_of_lt, fun hlt =>
          Nat.lt_of_le_of_ne (Nat.le_of_lt_succ hlt) fun heq => hne heq hvalid⟩
      rw [hsplit, Touch.applyAll_append_of_eq ih]
      split
      case isTrue hvalid =>
        rw [Touch.applyAll_singleton]
        refine Touch.apply_eq_some.2 ⟨by rw [Touch.slot, hway, h, hvalid]; rfl, funext fun i => ?_⟩
        by_cases hi : i = ways
        · subst hi
          exact (Function.update_self ..).trans (if_pos ⟨i.lt_succ_self, hvalid⟩).symm
        · refine (Function.update_of_ne hi _ _).trans ?_
          exact if_congr (hbelow fun heq => absurd heq hi) rfl rfl
      case isFalse hvalid =>
        refine congrArg some (funext fun i => ?_)
        exact if_congr (hbelow fun heq => heq ▸ hvalid) rfl rfl

end CacheSet

namespace PlruCache

variable {α σ : Type} {setBits ways : Nat}

/-- The storage of the values, by set and way. -/
def contents (c : PlruCache α setBits ways) : Nat × Nat → Option α :=
  Touch.parts fun i => (c.sets i).values

/-- A call of `access` or `clear`. -/
inductive Op (α σ : Type)
  | access (a : Access α σ)
  | clear

def accessTouches (c : PlruCache α setBits ways) (a : Access α σ) (s : σ) :
    List (Touch (Nat × Nat) α) :=
  let i := set setBits a.key
  ((c.sets i).accessTouches setBits ways a.key a.miss a.valid (i * ways) s).map (.within i)

def clearTouches (c : PlruCache α setBits ways) : List (Touch (Nat × Nat) α) :=
  (List.range (2 ^ setBits)).flatMap fun i => ((c.sets i).clearTouches ways).map (.within i)

/-- A cache in use and what it does to its values. The destructor does what `clear` does. -/
def lifetime : Machine (Op α σ) (Touch (Nat × Nat) α) (PlruCache α setBits ways × σ) where
  step t op :=
    match op with
    | .access a =>
        let (cache, _, state) := t.1.access a.key a.miss a.valid t.2
        ((cache, state), t.1.accessTouches a t.2)
    | .clear => ((t.1.clear, t.2), t.1.clearTouches)

/-! ## Runs -/

/-- Between operations there are values where there are valid tags, and there are no others. -/
structure Stored (c : PlruCache α setBits ways) : Prop where
  proper : c.Proper
  occupied : ∀ i, (c.sets i).Occupied

theorem stored_empty : Stored ({} : PlruCache α setBits ways) :=
  ⟨proper_empty, fun _ => CacheSet.occupied_empty⟩

theorem Stored.access {c : PlruCache α setBits ways} (h : c.Stored) (hways : 0 < ways)
    (a : Access α σ) (s : σ) : (c.access a.key a.miss a.valid s).1.Stored ∧
      Touch.applyAll c.contents (c.accessTouches a s) =
        some (c.access a.key a.miss a.valid s).1.contents := by
  obtain ⟨hoccupied, htouches⟩ := (h.occupied (set setBits a.key)).access setBits ways a.key a.miss
    a.valid (set setBits a.key * ways) s
  refine ⟨⟨h.proper.access hways a.key a.miss a.valid s, fun i => ?_⟩, ?_⟩
  · simp only [PlruCache.access, Function.update_apply]
    split
    case isTrue => exact hoccupied
    case isFalse => exact h.occupied i
  · refine (Touch.applyAll_within _ (fun i => (c.sets i).values) htouches).trans ?_
    refine congrArg (fun parts => some (Touch.parts parts)) (funext fun i => ?_)
    simp only [PlruCache.access, Function.update_apply]
    split <;> rfl

theorem Stored.clear {c : PlruCache α setBits ways} (h : c.Stored) :
    c.clear.Stored ∧ Touch.applyAll c.contents c.clearTouches = some c.clear.contents := by
  refine ⟨h.proper.clear_eq.symm ▸ stored_empty, ?_⟩
  refine (Touch.applyAll_range fun i _ => (h.occupied i).clear ways).trans ?_
  refine congrArg (fun parts => some (Touch.parts parts)) (funext fun i => ?_)
  simp only [PlruCache.clear]
  split <;> rfl

/-- What a run does to the values is allowed, and leaves those that are in the cache. -/
theorem Stored.run {t : PlruCache α setBits ways × σ} (h : t.1.Stored) (hways : 0 < ways)
    (ops : List (Op α σ)) : (lifetime.run t ops).1.1.Stored ∧
      Touch.applyAll t.1.contents (lifetime.run t ops).2 =
        some (lifetime.run t ops).1.1.contents := by
  induction ops generalizing t with
  | nil => exact ⟨h, rfl⟩
  | cons op ops ih =>
      have hstep : (lifetime.step t op).1.1.Stored ∧
          Touch.applyAll t.1.contents (lifetime.step t op).2 =
            some (lifetime.step t op).1.1.contents := by
        cases op with
        | access a => exact h.access hways a t.2
        | clear => exact h.clear
      obtain ⟨hstored, htouches⟩ := hstep
      obtain ⟨hend, hrest⟩ := ih hstored
      rw [Machine.run_cons, Touch.applyAll_append_of_eq htouches]
      exact ⟨hend, hrest⟩

/-- Whatever is done with a cache, it constructs values where there are none, and uses, assigns to
and destroys values where there are some. Those that it holds are in its storage, and when it is
destroyed, each that has been constructed has been destroyed, once. There are at least two sets;
for a single one no tag is defined. -/
theorem values_lifetimes (s d : Nat) (state : σ) (ops : List (Op α σ)) :
    Touch.applyAll (fun _ => none)
        (lifetime.run (({} : PlruCache α (s + 1) (2 ^ d)), state) ops).2 =
      some (lifetime.run (({} : PlruCache α (s + 1) (2 ^ d)), state) ops).1.1.contents ∧
    ∀ slot, Touch.Lives slot false
      ((lifetime.run (({} : PlruCache α (s + 1) (2 ^ d)), state) (ops ++ [.clear])).2.filter
        fun t => t.slot = slot) := by
  have hways : 0 < 2 ^ d := Nat.two_pow_pos d
  have hstart : (({} : PlruCache α (s + 1) (2 ^ d)), state).1.Stored := stored_empty
  refine ⟨(hstart.run hways ops).2, fun slot => ?_⟩
  have hend := (hstart.run hways (ops ++ [.clear])).2
  obtain ⟨hstored, -⟩ := hstart.run hways ops
  refine Touch.lives_of_applyAll hend ?_
  rw [Machine.run_append, Machine.run_singleton]
  show contents (PlruCache.clear _) slot = none
  rw [hstored.proper.clear_eq]
  rfl

end PlruCache

end Midi2.Adt
