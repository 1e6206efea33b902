import Midi2.Adt.PlruSound
import Midi2.Ump.ChannelIsolation
import Midi2.Ump.Parameters

/-!
# When the cache of `to_midi1` does no harm

The cache may forget, but what it has for a channel and a kind is the last parameter of this kind
that a controller message was about (`Remembers`). So it cannot be stale for a stream that is
`Undisturbed`, which can be told from the stream alone: a controller message about the same
parameter as the one before it, of those of its kind on its channel, comes while this parameter is
still selected. `sets_undisturbed` says that all changes of parameters arrive in such a stream,
whatever the cache has evicted.
-/

namespace Midi2.Ump

open Adt

/-! ## The parameters of controller messages -/

/-- The parameter of a controller message. -/
def Packet.parameter? (p : Packet) : Option Parameter :=
  match p.message.call.callback with
  | .m2cvm .rpn => some (ToMidi1.parameterOf p true)
  | .m2cvm .nrpn => some (ToMidi1.parameterOf p false)
  | _ => none

theorem Packet.IsController.parameter {p : Packet} {isRpn : Bool} (h : p.IsController isRpn) :
    p.parameter? = some (ToMidi1.parameterOf p isRpn) := by
  rw [parameter?, show p.message.call.callback = _ from h]
  cases isRpn <;> rfl

theorem Packet.isController_of_parameter {p : Packet} {q : Parameter} (h : p.parameter? = some q) :
    p.IsController q.isRpn ∧ q = ToMidi1.parameterOf p q.isRpn := by
  rw [parameter?] at h
  split at h
  case h_1 hcall =>
    obtain rfl := Option.some.inj h
    exact ⟨hcall, rfl⟩
  case h_2 hcall =>
    obtain rfl := Option.some.inj h
    exact ⟨hcall, rfl⟩
  case h_3 => cases h

/-- The channel of a parameter. -/
def Parameter.address (q : Parameter) : Channel :=
  (q.group, q.channel)

/-- The last parameter of a channel. -/
def lastOn (qs : List Parameter) (k : Channel) : Option Parameter :=
  (qs.filter fun q => q.address = k).getLast?

/-- The last one of a kind. -/
def lastOfKind (qs : List Parameter) (k : Channel) (isRpn : Bool) : Option Parameter :=
  (qs.filter fun q => q.address = k ∧ q.isRpn = isRpn).getLast?

theorem getLast_filter_concat {α : Type} (P : α → Bool) (as : List α) (a : α) :
    ((as ++ [a]).filter P).getLast? = if P a then some a else (as.filter P).getLast? := by
  rw [List.filter_append]
  cases hP : P a with
  | true => simp [hP]
  | false => simp [hP]

theorem lastOn_concat (qs : List Parameter) (q : Parameter) (k : Channel) :
    lastOn (qs ++ [q]) k = if q.address = k then some q else lastOn qs k := by
  rw [lastOn, getLast_filter_concat]
  simp only [decide_eq_true_eq]
  rfl

theorem lastOfKind_concat (qs : List Parameter) (q : Parameter) (k : Channel) (isRpn : Bool) :
    lastOfKind (qs ++ [q]) k isRpn =
      if q.address = k ∧ q.isRpn = isRpn then some q else lastOfKind qs k isRpn := by
  rw [lastOfKind, getLast_filter_concat]
  simp only [decide_eq_true_eq]
  rfl

namespace ToMidi1

/-! ## What is in the cache -/

/-- The key of a parameter. -/
def keyOf (q : Parameter) : PnCacheKey :=
  .make q.group q.channel q.isRpn

theorem make_inj {g c g' c' : Nat} (hg : g < 2 ^ 4) (hc : c < 2 ^ 4) (hg' : g' < 2 ^ 4)
    (hc' : c' < 2 ^ 4) {isRpn isRpn' : Bool}
    (h : PnCacheKey.make g c isRpn = .make g' c' isRpn') : g = g' ∧ c = c' ∧ isRpn = isRpn' := by
  obtain ⟨hgroup, hchannel, hkind⟩ := PnCacheKey.parts_make hg hc isRpn
  obtain ⟨hgroup', hchannel', hkind'⟩ := PnCacheKey.parts_make hg' hc' isRpn'
  rw [← h] at hgroup' hchannel' hkind'
  exact ⟨hgroup.symm.trans hgroup', hchannel.symm.trans hchannel', hkind.symm.trans hkind'⟩

/-- Whether the number was in the cache or not, it is afterwards. -/
theorem pnMessage_state (cache : PnCache) (key : PnCacheKey) (number : Nat × Nat) (value : Nat) :
    (pnMessage (⟨cache, []⟩ : Context PnCache (List Message)) key number value).state =
      cache.put key.v number := by
  rw [pnMessage]
  rcases cache.access_eq key.v (fun _ _ (ctxt : Context PnCache (List Message)) =>
    (number, sendControllerNumber ctxt key number)) (· == number) ⟨cache, []⟩ with
    ⟨v, -, hv, heq⟩ | ⟨-, heq⟩
  · rw [heq, eq_of_beq hv]
    rfl
  · rw [heq]
    rfl

/-- The cache after a packet. -/
theorem state_messages (cache : PnCache) (p : Packet) :
    (translator.messages cache p).state =
      match p.parameter? with
      | some q => cache.put (keyOf q).v (q.bank, q.index)
      | none => cache := by
  have hm := Message.call_message (m := p.message)
  rw [Translator.messages, Packet.parameter?]
  generalize p.message.call = c at hm
  obtain ⟨callback, m⟩ := c
  cases callback with
  | m2cvm s =>
      obtain rfl := hm Callback.noConfusion
      cases s with
      | rpn => exact pnMessage_state cache _ _ _
      | nrpn => exact pnMessage_state cache _ _ _
      | programChange =>
          show (programChange _ _).state = cache
          simp only [programChange]
          split <;> rfl
      | _ => rfl
  | _ => rfl

/-- What is in the cache is about the last parameter of its kind on its channel. -/
structure Remembers (cache : PnCache) (qs : List Parameter) : Prop where
  distinct : cache.Distinct
  last : ∀ q : Parameter, q.group < 2 ^ 4 → q.channel < 2 ^ 4 →
    cache.cached (keyOf q).v = some (q.bank, q.index) → lastOfKind qs q.address q.isRpn = some q

theorem remembers_empty : Remembers {} [] where
  distinct := PlruCache.distinct_empty
  last q _ _ h := by
    have hnone : ({} : PnCache).cached (keyOf q).v = none := by
      rw [PlruCache.cached, CacheSet.cached]
      split <;> rfl
    rw [hnone] at h
    cases h

theorem Remembers.put {cache : PnCache} {qs : List Parameter} (h : Remembers cache qs)
    {q : Parameter} (hg : q.group < 2 ^ 4) (hc : q.channel < 2 ^ 4) :
    Remembers (cache.put (keyOf q).v (q.bank, q.index)) (qs ++ [q]) where
  distinct := h.distinct.put _ _
  last q' hg' hc' hcached := by
    rw [lastOfKind_concat]
    split
    case isTrue hsame =>
      -- The key that was put has the number that was put.
      obtain ⟨haddress, hkind⟩ := hsame
      obtain ⟨hgroup, hchannel⟩ := Prod.mk.inj haddress
      have hkey : keyOf q' = keyOf q := by
        rw [keyOf, keyOf, ← hgroup, ← hchannel, ← hkind]
      rw [hkey, (h.distinct.put_self (by decide) _ _).2.1] at hcached
      obtain ⟨hbank, hindex⟩ := Prod.mk.inj (Option.some.inj hcached)
      obtain ⟨group, channel, isRpn, bank, index⟩ := q
      obtain ⟨group', channel', isRpn', bank', index'⟩ := q'
      subst hgroup hchannel hkind hbank hindex
      rfl
    case isFalse hother =>
      have hne : (keyOf q').v ≠ (keyOf q).v := by
        intro heq
        obtain ⟨hgroup, hchannel, hkind⟩ := make_inj hg' hc' hg hc (congrArg PnCacheKey.mk heq)
        exact hother ⟨Prod.ext hgroup.symm hchannel.symm, hkind.symm⟩
      have hbefore := h.distinct.put_other (q.bank, q.index) hne
        (PlruCache.contains_of_cached hcached)
      exact h.last q' hg' hc' (hbefore.2.1.symm.trans hcached)

theorem Remembers.step {cache : PnCache} {qs : List Parameter} (h : Remembers cache qs)
    (p : Packet) :
    Remembers (translator.translation.step cache p).1 (qs ++ p.parameter?.toList) := by
  show Remembers (translator.messages cache p).state _
  rw [state_messages]
  cases hp : p.parameter? with
  | none =>
      rw [Option.toList_none, List.append_nil]
      exact h
  | some q =>
      obtain ⟨-, hq⟩ := Packet.isController_of_parameter hp
      have hg : q.group < 2 ^ 4 := hq ▸ p.message.get_lt .group
      have hc : q.channel < 2 ^ 4 := hq ▸ p.message.get_lt .channel
      exact h.put hg hc

theorem Remembers.run {cache : PnCache} {qs : List Parameter} (h : Remembers cache qs)
    (ps : List Packet) :
    Remembers (translator.translation.run cache ps).1 (qs ++ ps.filterMap Packet.parameter?) := by
  induction ps generalizing cache qs with
  | nil =>
      rw [List.filterMap_nil, List.append_nil]
      exact h
  | cons p ps ih =>
      have hrest := ih (h.step p)
      rw [Machine.run_cons, show p :: ps = [p] ++ ps from rfl, List.filterMap_append,
        ← List.append_assoc]
      cases hp : p.parameter? <;> simpa [hp] using hrest

/-! ## Streams without disturbance -/

/-- A parameter that is still the last one of its kind when it is set again is selected. -/
def StillSelected (qs : List Parameter) (s : Selections) (q : Parameter) : Prop :=
  lastOfKind qs q.address q.isRpn = some q → s.parameter q.group q.channel = some q

instance (qs : List Parameter) (s : Selections) (q : Parameter) :
    Decidable (StillSelected qs s q) :=
  inferInstanceAs (Decidable (_ → _))

theorem Remembers.notStale {cache : PnCache} {qs : List Parameter} (h : Remembers cache qs)
    {s : Selections} {p : Packet} (hp : ∀ q ∈ p.parameter?, StillSelected qs s q) :
    NotStale cache s p := by
  intro isRpn hcontroller hcached
  refine hp (parameterOf p isRpn) hcontroller.parameter ?_
  exact h.last (parameterOf p isRpn) (p.message.get_lt .group) (p.message.get_lt .channel) hcached

/-- No parameter is set after a stay elsewhere, unless another one of its kind was set in between:
if a controller message is about the parameter that the last one of its kind on its channel was
about, then this parameter is still selected. -/
def Undisturbed (pre : List Packet) (p : Packet) : Prop :=
  ∀ q ∈ p.parameter?, StillSelected (pre.filterMap Packet.parameter?) (selectionsAfter pre) q

instance (pre : List Packet) (p : Packet) : Decidable (Undisturbed pre p) :=
  inferInstanceAs (Decidable (∀ q ∈ _, _))

/-- If nothing is disturbed then every controller message sets its parameter and none other. -/
theorem sets_undisturbed (ps : List Packet) (h : Machine.AtEachStep Undisturbed ps) :
    Machine.AtEachStep (fun pre p => Sets (receiverAfter pre) (receiverAfter (pre ++ [p])) p)
      ps := by
  simp only [receiverAfter, Translator.receive_run]
  refine (sets_iff ps {} {}).2 fun pre p hprefix => ?_
  have hremembers := remembers_empty.run pre
  rw [List.nil_append] at hremembers
  refine hremembers.notStale fun q hq => ?_
  have hselected := h pre p hprefix q hq
  rwa [selectionsAfter, receive_words] at hselected

/-- Registered parameter (0, 5), assignable parameter (1, 7), then (0, 6) twice and (0, 5), all on
the first channel of the second group. -/
def returning : List Packet :=
  [{ message := ⟨[0x41200005, 0x00000000]⟩ }, { message := ⟨[0x41300107, 0x00000000]⟩ },
    { message := ⟨[0x41200006, 0x80000000]⟩ }, { message := ⟨[0x41200006, 0xFFFFFFFF]⟩ },
    { message := ⟨[0x41200005, 0xFFFFFFFF]⟩ }]

theorem sets_undisturbed_returning :
    Machine.AtEachStep (fun pre p => Sets (receiverAfter pre) (receiverAfter (pre ++ [p])) p)
      returning :=
  sets_undisturbed returning (by decide +kernel)

end ToMidi1

end Midi2.Ump
