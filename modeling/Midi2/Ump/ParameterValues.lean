import Midi2.Ump.ParameterEntry

/-!
# Parameters up and down again

On the way up a parameter's number and its value become one message, at the lower half of the value.
On the way down that message becomes control changes again, without the number if the cache has it.
If a stream is in order then a receiver of what comes back has the same values as a receiver of the
stream, but for halves that are pending (`Agrees`), whatever is sent in between and whatever the
cache has evicted (`parameters_upgrade_downgrade`).
-/

namespace Midi2.Ump

open Adt ToMidi2

/-! ## What has nothing to do with parameters -/

/-- A message that neither selects nor sets a parameter, in either protocol. -/
structure Message.Unrelated (m : Message) : Prop where
  midi1 : m.call.callback ≠ .m1cvm .cc
  cc : m.call.callback = .m2cvm .cc →
    ∀ x ∈ ToMidi1.parameterControls, Control.ofNat? (m.get M2cvm.controller) ≠ some x
  controller : ∀ isRpn, m.call.callback ≠ .m2cvm (controllerStatus isRpn)

theorem unrelated_of_is {s : Mt.M2cvm} {m : Message} (h : M2cvm.Is s m)
    (hs : s ∉ [.cc, .rpn, .nrpn]) : m.Unrelated where
  midi1 := by
    rw [h.call]
    exact Callback.noConfusion
  cc heq := by
    rw [h.call] at heq
    exact absurd (by rw [Callback.m2cvm.inj heq]; decide) hs
  controller isRpn heq := by
    rw [h.call] at heq
    exact hs (by rw [Callback.m2cvm.inj heq]; cases isRpn <;> decide)

namespace ToMidi2

/-- Nothing but a control change makes a message about parameters. -/
theorem unrelated_m1cvm {status : Mt.M1cvm} (h : status ≠ .cc) (s : State) (m : Message) :
    ∀ x ∈ (m1cvm status (⟨s, []⟩ : Context State (List Message)) m).output, x.Unrelated := by
  cases status with
  | cc => exact absurd rfl h
  | noteOff | noteOn =>
      exact List.forall_mem_singleton.2 (unrelated_of_is (is_noteMessage _ m) (by decide))
  | polyPressure =>
      exact List.forall_mem_singleton.2 (unrelated_of_is (is_upgraded .polyPressure m) (by decide))
  | channelPressure =>
      exact List.forall_mem_singleton.2
        (unrelated_of_is (is_upgraded .channelPressure m) (by decide))
  | pitchBend =>
      exact List.forall_mem_singleton.2 (unrelated_of_is (is_upgraded .pitchBend m) (by decide))
  | programChange =>
      refine List.forall_mem_singleton.2 ?_
      exact unrelated_of_is (is_programChangeMessage _ m) (by decide)

theorem unrelated_otherController (s : State) (g c value : Nat) {controller : Nat}
    (hlt : controller < 2 ^ 7)
    (h : ∀ x ∈ ToMidi1.parameterControls, Control.ofNat? controller ≠ some x) :
    ∀ x ∈ (otherController (⟨s, []⟩ : Context State (List Message)) g c controller value).output,
      x.Unrelated := by
  have hchannel : M2cvm.Is .cc (((M2cvm.init .cc).set .group g).set .channel c) :=
    ((M2cvm.is_init .cc).set g).set c
  have his : M2cvm.Is .cc (((((M2cvm.init .cc).set .group g).set .channel c).set
      M2cvm.controller controller).set M2cvm.value (mcmScale 7 32 value)) :=
    (hchannel.set controller).set (mcmScale 7 32 value)
  refine List.forall_mem_singleton.2 ⟨?_, fun _ => ?_, fun isRpn => ?_⟩
  · rw [his.call]
    exact Callback.noConfusion
  · rw [Message.get_set_of_disjoint _ _ (by decide), hchannel.get_set hlt]
    exact h
  · rw [his.call]
    cases isRpn <;> exact fun heq => by cases heq

/-- A control change makes one only if it is the lower half of a value, for a complete record. -/
theorem unrelated_messages {s : State} {p : Packet} (htype : p.message.type ≠ .m2cvm)
    (hlsb : ∀ k value, p.controlChange? = some (k, .dataEntryLsb, value) →
      ¬(s.parameterNumber k.1 k.2).Complete) :
    ∀ x ∈ (translator.messages s p).output, x.Unrelated := by
  by_cases hcc : p.message.call.callback = .m1cvm .cc
  · have hlt : p.message.get M1cvm.controller < 2 ^ 7 := p.message.get_lt M1cvm.controller
    rw [messages_cc hcc]
    simp only [controlChange]
    split
    case h_6 => split <;> exact List.forall_mem_nil _
    case h_8 hc =>
      have hp : p.controlChange? = some ((p.message.get .group, p.message.get .channel),
          .dataEntryLsb, p.message.get M1cvm.value) := by
        rw [controlChange_eq_cc hcc, hc, Option.map_some]
      split
      case isTrue hcomplete => exact absurd hcomplete (hlsb _ _ hp)
      case isFalse => exact List.forall_mem_nil _
    case h_9 hc | h_10 hc => exact unrelated_otherController _ _ _ _ hlt (by rw [hc]; decide)
    all_goals exact List.forall_mem_nil _
  by_cases hpassed : p.PassedOn
  · rw [messages_passedOn hpassed]
    refine List.forall_mem_singleton.2 ⟨hcc, fun hcall => ?_, fun isRpn hcall => ?_⟩
    · exact absurd (Message.type_of_call (by rw [hcall]; rfl)) htype
    · exact absurd (Message.type_of_call (by rw [hcall]; rfl)) htype
  by_cases hskip : p.Skipped
  · rw [messages_skipped hskip]
    exact List.forall_mem_nil _
  have hknown : p.message.Known := not_not.1 fun h => hskip (Or.inr h)
  have hm1cvm : p.message.type = .m1cvm :=
    by_contra fun h => hpassed ⟨hknown, fun hnoop => hskip (Or.inl hnoop), h⟩
  obtain ⟨status, hcall⟩ := callback_m1cvm hm1cvm hknown
  rw [Translator.messages, Message.call_eq hcall Callback.noConfusion]
  exact unrelated_m1cvm (fun heq => hcc (heq ▸ hcall)) s p.message

end ToMidi2

namespace ToMidi1

/-- `to_midi1` makes nothing of it that matters to a receiver of parameters. -/
theorem received_unrelated {p : Packet} (h : p.message.Unrelated) (cache : PnCache)
    (r : ParameterReceiver) :
    (translator.translation.step cache p).1 = cache ∧ received cache p r = r := by
  have hparameter : p.parameter? = none := by
    cases hq : p.parameter? with
    | none => rfl
    | some q =>
        obtain ⟨hcontroller, -⟩ := Packet.isController_of_parameter hq
        refine absurd hcontroller ?_
        have hne := h.controller q.isRpn
        unfold controllerStatus at hne
        exact hne
  refine ⟨?_, ?_⟩
  · show (translator.messages cache p).state = cache
    rw [state_messages, hparameter]
  rw [received_eq]
  rcases messages_cases p cache with ⟨-, heq⟩ | ⟨s, hcall, heq⟩ | heq
  · rw [heq]
    simp only [List.foldl_cons, List.foldl_nil, receiveParameters]
    split
    case h_1 hcc => exact absurd hcc h.midi1
    case h_2 => rfl
  · have hcallback : p.message.call.callback = .m2cvm s := by rw [hcall]
    rw [heq]
    have hg := p.message.get_lt .group
    have hc := p.message.get_lt .channel
    cases s with
    | noteOff | noteOn =>
        simp only [m2cvm, noteOff, noteOn, Context.output_push, List.nil_append, List.foldl_cons,
          List.foldl_nil]
        exact receive_other (is_noteMessage _ p.message) (by decide) r
    | polyPressure | pitchBend =>
        simp only [m2cvm, polyPressure, pitchBend, Context.output_push, List.nil_append,
          List.foldl_cons, List.foldl_nil]
        exact receive_other (((((M1cvm.is_init _).set _).set _).set _).set _) (by decide) r
    | channelPressure =>
        simp only [m2cvm, channelPressure, Context.output_push, List.nil_append,
          List.foldl_cons, List.foldl_nil]
        exact receive_other ((((M1cvm.is_init _).set _).set _).set _) (by decide) r
    | cc =>
        have hscale : mcmScale 32 7 (p.message.get M2cvm.value) < 2 ^ 7 :=
          mcmScale_down_lt (by decide) (p.message.get_lt M2cvm.value)
        simp only [m2cvm, controlChange, Context.output_push, List.nil_append,
          List.foldl_cons, List.foldl_nil]
        rw [receive_controlChangeMessage hg hc (p.message.get_lt _) hscale]
        exact r.controlChange_id _ _ _ (h.cc hcallback)
    | programChange =>
        have hprogram := (((M1cvm.is_init .programChange).set (f := .group)
          (p.message.get .group)).set (f := .channel) (p.message.get .channel)).set
            (f := M1cvm.program) (p.message.get M2cvm.program)
        have hbank (r : ParameterReceiver) (value : Nat) :=
          r.controlChange_id (p.message.get .group) (p.message.get .channel) value
            (show ∀ x ∈ parameterControls,
              Control.ofNat? Control.bankSelect.toNat ≠ some x by decide)
        have hbankLsb (r : ParameterReceiver) (value : Nat) :=
          r.controlChange_id (p.message.get .group) (p.message.get .channel) value
            (show ∀ x ∈ parameterControls,
              Control.ofNat? Control.bankSelectLsb.toNat ≠ some x by decide)
        simp only [m2cvm, programChange]
        split
        case isTrue =>
          simp only [Context.output_push, List.nil_append, List.cons_append, List.foldl_cons,
            List.foldl_nil, receive_other hprogram (by decide)]
          rw [receive_controlChangeMessage hg hc (by decide) (p.message.get_lt M2cvm.bankMsb),
            receive_controlChangeMessage hg hc (by decide) (p.message.get_lt M2cvm.bankLsb),
            hbank, hbankLsb]
        case isFalse =>
          simp only [Context.output_push, List.nil_append, List.foldl_cons, List.foldl_nil,
            receive_other hprogram (by decide)]
    | rpn => exact absurd hcallback (h.controller true)
    | nrpn => exact absurd hcallback (h.controller false)
    | rpnPerNote | nrpnPerNote | rpnRelative | nrpnRelative | perNoteManage
    | pitchBendPerNote => rfl
  · rw [heq]
    rfl

end ToMidi1

theorem ParameterReceiver.values_apply (r : ParameterReceiver) (g c : Nat) (f : Nat → Nat)
    (q : Parameter) : (r.apply g c f).values q =
      if r.selections.parameter g c = some q then f (r.values q) else r.values q := by
  unfold apply
  cases hq : r.selections.parameter g c with
  | none => rw [if_neg (Option.some_ne_none q).symm]
  | some q' =>
      show Function.update r.values q' (f (r.values q')) q = _
      by_cases heq : q' = q
      · rw [heq, Function.update_self, if_pos rfl]
      · rw [Function.update_of_ne (Ne.symm heq), if_neg fun h => heq (Option.some.inj h)]

/-! ## Up and down -/

/-- What the two receivers agree on: all values, but for halves that have not been sent on yet. -/
structure Agrees (ps : List Packet) (cache : ToMidi1.PnCache) (r : ParameterReceiver) : Prop where
  remembers : ToMidi1.Remembers cache (entered ps)
  selected : ∀ k : Channel, r.selections.parameter k.1 k.2 = lastOn (entered ps) k
  numbered : ∀ k, (history k ps).pending.isSome → (selectedOn ps k).isSome →
    (record (history k ps)).Numbered
  settled : ∀ q, ((history q.address ps).pending.isSome → selectedOn ps q.address ≠ some q) →
    (parametersAfter ps).values q = r.values q
  halfway : ∀ q msb, (history q.address ps).pending = some msb →
    selectedOn ps q.address = some q →
      (parametersAfter ps).values q = msb * 2 ^ 7 + r.values q % 2 ^ 7

/-- What remains the same on a channel. -/
structure SameOn (k : Channel) (ps ps' : List Packet) : Prop where
  pending : (history k ps').pending = (history k ps).pending
  selected : selectedOn ps' k = selectedOn ps k
  numbered : (record (history k ps')).Numbered ↔ (record (history k ps)).Numbered

/-- Nothing is set, and where something changes nothing is halfway. -/
theorem Agrees.congr {ps ps' : List Packet} {cache : ToMidi1.PnCache} {r : ParameterReceiver}
    (h : Agrees ps cache r) (hentered : entered ps' = entered ps)
    (hvalues : (parametersAfter ps').values = (parametersAfter ps).values)
    (hchannel : ∀ k, SameOn k ps ps' ∨ (history k ps').pending = none ∧
      ((history k ps).pending.isSome → selectedOn ps k = none)) : Agrees ps' cache r where
  remembers := hentered ▸ h.remembers
  selected := hentered ▸ h.selected
  numbered k hpending hselected := by
    rcases hchannel k with hsame | ⟨hnone, -⟩
    · rw [hsame.pending] at hpending
      rw [hsame.selected] at hselected
      exact hsame.numbered.2 (h.numbered k hpending hselected)
    · rw [hnone] at hpending
      cases hpending
  settled q hq := by
    rw [hvalues]
    refine h.settled q fun hpending => ?_
    rcases hchannel q.address with hsame | ⟨-, hnone⟩
    · rw [hsame.pending, hsame.selected] at hq
      exact hq hpending
    · rw [hnone hpending]
      exact (Option.some_ne_none q).symm
  halfway q msb hpending hselected := by
    rw [hvalues]
    rcases hchannel q.address with hsame | ⟨hnone, -⟩
    · rw [hsame.pending] at hpending
      rw [hsame.selected] at hselected
      exact h.halfway q msb hpending hselected
    · rw [hnone] at hpending
      cases hpending

/-! ### A control change -/

section ControlChange

variable {ps : List Packet} {cache : ToMidi1.PnCache} {r : ParameterReceiver} {p : Packet}
  {k : Channel} {value : Nat}

theorem sameOn_of_ne (ps : List Packet) {c : Control} (hp : p.controlChange? = some (k, c, value))
    {k' : Channel} (hne : k ≠ k') : SameOn k' ps (ps ++ [p]) := by
  have hhistory : history k' (ps ++ [p]) = history k' ps := by
    rw [history_concat hp, if_neg hne]
  refine ⟨by rw [hhistory], ?_, by rw [hhistory]⟩
  rw [selectedOn, selectedOn, Selections.parameter, Selections.parameter, selections_concat hp,
    Function.update_of_ne (Ne.symm hne)]

theorem entered_of_ne (ps : List Packet) {c : Control} (hp : p.controlChange? = some (k, c, value))
    (hc : c ≠ .dataEntryLsb) : entered (ps ++ [p]) = entered ps := by
  rw [entered_concat, Packet.completes, hp]
  cases c with
  | dataEntryLsb => exact absurd rfl hc
  | _ => exact List.append_nil _

/-- A control change that neither selects nor sets anything. -/
theorem selectedOn_concat {c : Control} (hp : p.controlChange? = some (k, c, value))
    (hc : ∀ x : Selection, x.select c value = x) (k' : Channel) :
    selectedOn (ps ++ [p]) k' = selectedOn ps k' := by
  rw [selectedOn, selectedOn, selections_concat hp, hc, Function.update_eq_self]

theorem values_concat {c : Control} (hp : p.controlChange? = some (k, c, value))
    (hmsb : c ≠ .dataEntryMsb) (hlsb : c ≠ .dataEntryLsb) :
    (parametersAfter (ps ++ [p])).values = (parametersAfter ps).values := by
  rw [parametersAfter_concat, receive_of_some hp, ParameterReceiver.controlChange,
    Control.ofNat_toNat]
  cases c with
  | dataEntryMsb => exact absurd rfl hmsb
  | dataEntryLsb => exact absurd rfl hlsb
  | _ => rfl

/-- A control change that does not enter a value. -/
theorem Agrees.other (h : Agrees ps cache r) {c : Control}
    (hp : p.controlChange? = some (k, c, value)) (horder : InOrder ps k c)
    (hmsb : c ≠ .dataEntryMsb) (hlsb : c ≠ .dataEntryLsb) : Agrees (ps ++ [p]) cache r := by
  refine h.congr (entered_of_ne ps hp hlsb) (values_concat hp hmsb hlsb) fun k' => ?_
  by_cases hk : k = k'
  · subst hk
    have hhistory : history k (ps ++ [p]) = history k ps ++ [(c, value)] := by
      rw [history_concat hp, if_pos rfl]
    by_cases hconcerns : c.concernsParameters = true
    · -- Nothing is halfway, before and after it.
      have hnone : (history k ps).pending.isSome = false :=
        Bool.eq_false_of_not_eq_true fun hsome => hlsb ((horder.lower hconcerns).2 hsome)
      refine Or.inr ⟨?_, fun hsome => absurd (hsome.symm.trans hnone) Bool.noConfusion⟩
      rw [hhistory, History.pending_concat]
      cases c with
      | bankSelect | bankSelectLsb => cases hconcerns
      | dataEntryMsb => exact absurd rfl hmsb
      | _ => rfl
    · have hselect : ∀ x : Selection, x.select c value = x := by
        intro x
        cases c with
        | bankSelect | bankSelectLsb => rfl
        | _ => exact absurd rfl hconcerns
      refine Or.inl ⟨?_, selectedOn_concat hp hselect k, ?_⟩
      · rw [hhistory, History.pending_concat]
        cases c with
        | bankSelect | bankSelectLsb => rfl
        | _ => exact absurd rfl hconcerns
      · rw [hhistory, record_concat]
        cases c with
        | bankSelect | bankSelectLsb => exact Iff.rfl
        | _ => exact absurd rfl hconcerns
  · exact Or.inl (sameOn_of_ne ps hp hk)

/-- The upper half of a value, which is set at once and not sent on. -/
theorem Agrees.upper (h : Agrees ps cache r)
    (hp : p.controlChange? = some (k, .dataEntryMsb, value))
    (horder : InOrder ps k .dataEntryMsb) : Agrees (ps ++ [p]) cache r := by
  have hhistory : history k (ps ++ [p]) = history k ps ++ [(.dataEntryMsb, value)] := by
    rw [history_concat hp, if_pos rfl]
  have hselected (k' : Channel) : selectedOn (ps ++ [p]) k' = selectedOn ps k' :=
    selectedOn_concat hp (fun _ => rfl) k'
  have hbefore : ¬(history k ps).pending.isSome := fun hsome =>
    absurd ((horder.lower rfl).2 hsome) (by decide)
  have hvalues (q : Parameter) : (parametersAfter (ps ++ [p])).values q =
      if selectedOn ps k = some q then value * 2 ^ 7 + (parametersAfter ps).values q % 2 ^ 7
      else (parametersAfter ps).values q := by
    rw [parametersAfter_concat, receive_of_some hp, ParameterReceiver.controlChange_dataEntryMsb,
      ParameterReceiver.values_apply]
    rfl
  have hentered := entered_of_ne ps hp (by decide)
  refine ⟨hentered ▸ h.remembers, hentered ▸ h.selected, fun k' => ?_, fun q hq => ?_,
    fun q msb hpending hq => ?_⟩
  · by_cases hk : k = k'
    · subst hk
      intro _ hsome
      rw [hselected] at hsome
      rw [hhistory, record_concat]
      exact horder.upper rfl hsome
    · have hsame := sameOn_of_ne ps hp hk
      rw [hsame.pending, hsame.selected, hsame.numbered]
      exact h.numbered k'
  · rw [hvalues]
    by_cases hk : k = q.address
    · rw [← hk, hselected, hhistory, History.pending_concat] at hq
      rw [if_neg (hq rfl)]
      exact h.settled q fun hsome => absurd (hk ▸ hsome) hbefore
    · have hsame := sameOn_of_ne ps hp hk
      rw [hsame.pending, hsame.selected] at hq
      rw [if_neg fun heq => hk (address_of_selectedOn heq).symm]
      exact h.settled q hq
  · rw [hvalues]
    by_cases hk : k = q.address
    · rw [← hk, hhistory, History.pending_concat] at hpending
      obtain rfl := Option.some.inj hpending
      rw [← hk, hselected] at hq
      rw [if_pos hq, h.settled q fun hsome => absurd (hk ▸ hsome) hbefore]
    · have hsame := sameOn_of_ne ps hp hk
      rw [hsame.pending] at hpending
      rw [hsame.selected] at hq
      rw [if_neg fun heq => hk (address_of_selectedOn heq).symm]
      exact h.halfway q msb hpending hq

/-- The lower half of a value, where no parameter is selected. -/
theorem Agrees.ignored (h : Agrees ps cache r)
    (hp : p.controlChange? = some (k, .dataEntryLsb, value)) (hnone : selectedOn ps k = none) :
    Agrees (ps ++ [p]) cache r := by
  have hentered : entered (ps ++ [p]) = entered ps := by
    rw [entered_concat, Packet.completes, hp]
    exact (congrArg (fun o => entered ps ++ Option.toList o) hnone).trans (List.append_nil _)
  have hvalues : (parametersAfter (ps ++ [p])).values = (parametersAfter ps).values := by
    funext q
    rw [parametersAfter_concat, receive_of_some hp, ParameterReceiver.controlChange_dataEntryLsb,
      ParameterReceiver.values_apply, if_neg]
    rw [show (parametersAfter ps).selections.parameter k.1 k.2 = none from hnone]
    exact (Option.some_ne_none q).symm
  refine h.congr hentered hvalues fun k' => ?_
  by_cases hk : k = k'
  · subst hk
    refine Or.inr ⟨?_, fun _ => hnone⟩
    rw [history_concat hp, if_pos rfl, History.pending_concat]
  · exact Or.inl (sameOn_of_ne ps hp hk)

/-- What a controller message does to a receiver, if the cache is not stale. -/
theorem received_of_notStale {x : Packet} {isRpn : Bool} (hx : x.IsController isRpn)
    (h : ToMidi1.NotStale cache r.selections x) :
    (ToMidi1.received cache x r).selections =
        r.selections.selectNumber (x.message.get .group) (x.message.get .channel) isRpn
          (x.message.get M2cvm.bank) (x.message.get M2cvm.index) ∧
      (ToMidi1.received cache x r).values =
        Function.update r.values (ToMidi1.parameterOf x isRpn)
          (mcmScale 32 14 (x.message.get M2cvm.value)) :=
  ⟨ToMidi1.selections_controller hx h, (((ToMidi1.sets_received_iff cache x r).2 h) isRpn hx).1⟩

/-- The lower half of a value, which is sent on with the upper half. -/
theorem Agrees.lower (h : Agrees ps cache r)
    (hp : p.controlChange? = some (k, .dataEntryLsb, value)) {msb : Nat}
    (hpending : (history k ps).pending = some msb) {q : Parameter}
    (hselected : selectedOn ps k = some q) (hturn : InTurn (entered ps) q) {x : Packet}
    (hx : x.message = controllerMessage (record (history k ps)) k value) :
    Agrees (ps ++ [p]) (ToMidi1.translator.translation.step cache x).1
      (ToMidi1.received cache x r) := by
  have hlt : value < 2 ^ 7 := by
    rw [show value = _ from (controlChange_eq_some hp).2.2.2]
    exact p.message.get_lt _
  have hk : k.1 < 2 ^ 4 ∧ k.2 < 2 ^ 4 := by
    obtain ⟨-, -, rfl, -⟩ := controlChange_eq_some hp
    exact ⟨p.message.get_lt _, p.message.get_lt _⟩
  have hrange := inRange_record (history_lt k ps)
  have hcarries := carries_controllerMessage hrange hk.1 hk.2 hlt
  rw [← hx] at hcarries
  obtain ⟨hgroup, hchannel⟩ := Prod.mk.inj hcarries.channel
  have hnumbered := h.numbered k (by rw [hpending]; rfl) (by rw [hselected]; rfl)
  have hq := Option.some.inj (hselected.symm.trans (selectedOn_of_numbered hnumbered))
  have haddress := address_of_selectedOn hselected
  have hcontroller : x.IsController q.isRpn := by
    rw [Packet.IsController, hx, (is_controllerMessage ..).call, hq]
    rfl
  have hparameter : ToMidi1.parameterOf x q.isRpn = q := by
    rw [ToMidi1.parameterOf, hcarries.bank, hcarries.index, hq]
    exact congrArg₂ (fun g c => Parameter.mk g c _ _ _) hgroup hchannel
  have hvalue : mcmScale 32 14 (x.message.get M2cvm.value) = msb * 2 ^ 7 + value := by
    rw [hcarries.value, mcmScale_down_up (by decide) (shiftLeft_or_lt hrange.valueMsb hlt),
      shiftLeft_or hlt, (record_of_pending hpending).2]
  have hstale : ToMidi1.NotStale cache r.selections x := by
    refine h.remembers.notStale fun q' hq' => ?_
    obtain rfl := Option.some.inj (hq'.symm.trans hcontroller.parameter)
    rw [hparameter]
    intro hlast
    have hselected' := h.selected q.address
    rw [hturn hlast] at hselected'
    exact hselected'
  obtain ⟨hselections, hvalues⟩ := received_of_notStale hcontroller hstale
  rw [hparameter, hvalue] at hvalues
  have hentered : entered (ps ++ [p]) = entered ps ++ [q] := by
    rw [entered_concat, Packet.completes, hp]
    exact congrArg (fun o => entered ps ++ Option.toList o) hselected
  have hremembers := h.remembers.step x
  rw [hcontroller.parameter, hparameter, Option.toList_some, ← hentered] at hremembers
  have hnone : (history k (ps ++ [p])).pending = none := by
    rw [history_concat hp, if_pos rfl, History.pending_concat]
  have hsent (q' : Parameter) : (parametersAfter (ps ++ [p])).values q' =
      if selectedOn ps k = some q' then (parametersAfter ps).values q' / 2 ^ 7 * 2 ^ 7 + value
      else (parametersAfter ps).values q' := by
    rw [parametersAfter_concat, receive_of_some hp, ParameterReceiver.controlChange_dataEntryLsb,
      ParameterReceiver.values_apply]
    rfl
  refine ⟨hremembers, fun k' => ?_, fun k' => ?_, fun q' hq' => ?_, fun q' msb' hpending' hq' => ?_⟩
  · rw [hselections, hentered, lastOn_concat, haddress, Selections.selectNumber,
      hcarries.channel]
    split
    case isTrue hk' =>
      subst hk'
      rw [← hparameter, ToMidi1.parameterOf, hgroup, hchannel]
      exact (Selections.parameter_eq_some_iff _).2 (Function.update_self ..)
    case isFalse hk' =>
      rw [Selections.parameter, Function.update_of_ne (Ne.symm hk')]
      exact h.selected k'
  · by_cases hk' : k = k'
    · subst hk'
      intro hsome
      rw [hnone] at hsome
      cases hsome
    · have hsame := sameOn_of_ne ps hp hk'
      rw [hsame.pending, hsame.selected, hsame.numbered]
      exact h.numbered k'
  · rw [hsent, hvalues, Function.update_apply]
    by_cases heq : q' = q
    · subst heq
      have hhalf := h.halfway q' msb (haddress ▸ hpending) (haddress ▸ hselected)
      rw [if_pos hselected, if_pos rfl, hhalf]
      omega
    · have hne : selectedOn ps k ≠ some q' := fun hsome =>
        heq (Option.some.inj (hsome.symm.trans hselected))
      rw [if_neg hne, if_neg heq]
      refine h.settled q' fun hsome => ?_
      by_cases hk' : k = q'.address
      · rw [← hk']
        exact hne
      · have hsame := sameOn_of_ne ps hp hk'
        rw [hsame.pending, hsame.selected] at hq'
        exact hq' hsome
  · have hk' : k ≠ q'.address := by
      rintro rfl
      rw [hnone] at hpending'
      cases hpending'
    have hsame := sameOn_of_ne ps hp hk'
    rw [hsame.pending] at hpending'
    rw [hsame.selected] at hq'
    have hne : q' ≠ q := by
      rintro rfl
      exact hk' haddress.symm
    rw [hsent, if_neg fun heq => hk' (address_of_selectedOn heq).symm, hvalues,
      Function.update_of_ne hne]
    exact h.halfway q' msb' hpending' hq'

/-- A packet that is no control change with a function. -/
theorem Agrees.idle (h : Agrees ps cache r) (hp : p.controlChange? = none) :
    Agrees (ps ++ [p]) cache r := by
  have hentered : entered (ps ++ [p]) = entered ps := by
    rw [entered_concat, Packet.completes, hp]
    exact List.append_nil _
  have hafter : parametersAfter (ps ++ [p]) = parametersAfter ps := by
    rw [parametersAfter_concat, receive_of_none hp]
  refine h.congr hentered (by rw [hafter]) fun k => Or.inl ?_
  have hhistory := history_concat_none hp ps k
  exact ⟨by rw [hhistory], by rw [selectedOn, hafter, selectedOn], by rw [hhistory]⟩

end ControlChange

/-! ### Runs -/

/-- What the two translators have sent for a packet, after some others. -/
def sentUp (g : Nat) (ps : List Packet) (p : Packet) : List Packet :=
  (translator.translation.step (translator.translation.run (.create g) ps).1 p).2

/-- The receiver of what comes back, and the cache. -/
def returned (g : Nat) (ps : List Packet) : ToMidi1.PnCache × ParameterReceiver :=
  let sent := ToMidi1.translator.translation.run {} (translator.translation.run (.create g) ps).2
  (sent.1, sent.2.foldl (observe receiveParameters) {})

theorem returned_concat (g : Nat) (ps : List Packet) (p : Packet) :
    returned g (ps ++ [p]) =
      ((ToMidi1.translator.translation.run (returned g ps).1 (sentUp g ps p)).1,
        (ToMidi1.translator.translation.run (returned g ps).1 (sentUp g ps p)).2.foldl
          (observe receiveParameters) (returned g ps).2) := by
  simp only [returned, Machine.run_append, Machine.run_singleton, List.foldl_append, sentUp]

theorem run_unrelated {qs : List Packet} (h : ∀ q ∈ qs, q.message.Unrelated)
    (cache : ToMidi1.PnCache) (r : ParameterReceiver) :
    (ToMidi1.translator.translation.run cache qs).1 = cache ∧
      (ToMidi1.translator.translation.run cache qs).2.foldl (observe receiveParameters) r = r := by
  induction qs with
  | nil => exact ⟨rfl, rfl⟩
  | cons q qs ih =>
      obtain ⟨hq, hqs⟩ := List.forall_mem_cons.1 h
      obtain ⟨hstate, hreceived⟩ := ToMidi1.received_unrelated hq cache r
      rw [ToMidi1.received] at hreceived
      rw [Machine.run_cons, List.foldl_append, hreceived, hstate]
      exact ih hqs

theorem Agrees.step {g : Nat} {ps : List Packet} {p : Packet}
    (h : Agrees ps (returned g ps).1 (returned g ps).2) (htype : p.message.type ≠ .m2cvm)
    (horder : Orderly ps p)
    (hturn : ∀ q ∈ p.completes (parametersAfter ps).selections, InTurn (entered ps) q) :
    Agrees (ps ++ [p]) (returned g (ps ++ [p])).1 (returned g (ps ++ [p])).2 := by
  have hrecord (k : Channel) :
      (translator.translation.run (.create g) ps).1.parameterNumber k.1 k.2 =
        record (history k ps) := by
    rw [recordAfter_state, recordAfter_eq]
  by_cases hsent : ∃ k value, p.controlChange? = some (k, .dataEntryLsb, value) ∧
      (record (history k ps)).Complete
  · obtain ⟨k, value, hp, hcomplete⟩ := hsent
    have hup := output_dataEntryLsb hp (translator.translation.run (.create g) ps).1
    rw [hrecord, if_pos hcomplete] at hup
    have hstep := congrArg Prod.snd
      (translator.step_of_output hup (is_controllerMessage _ k value).whole)
    rw [returned_concat, sentUp, hstep, Machine.run_singleton]
    obtain ⟨hnumbered, -⟩ : (_ ∧ _) ∧ _ := by
      simpa only [ParameterNumber.Complete, Bool.and_eq_true] using hcomplete
    obtain ⟨msb, hpending⟩ :=
      Option.isSome_iff_exists.1 (((horder _ hp).lower rfl).1 rfl)
    have hselected := selectedOn_of_numbered hnumbered
    refine h.lower hp hpending hselected (hturn _ ?_) rfl
    rw [Packet.completes, hp]
    exact hselected
  · have hunrelated : ∀ q ∈ sentUp g ps p, q.message.Unrelated := by
      intro q hq
      refine unrelated_messages htype (fun k value hp hcomplete => ?_) _
        (Translator.message_of_mem_step hq)
      rw [hrecord] at hcomplete
      exact hsent ⟨k, value, hp, hcomplete⟩
    obtain ⟨hcache, hreceived⟩ :=
      run_unrelated hunrelated (returned g ps).1 (returned g ps).2
    rw [returned_concat, hcache, hreceived]
    cases hp : p.controlChange? with
    | none => exact h.idle hp
    | some x =>
        obtain ⟨k, c, value⟩ := x
        have hin := horder _ hp
        by_cases hmsb : c = .dataEntryMsb
        · subst hmsb
          exact h.upper hp hin
        by_cases hlsb : c = .dataEntryLsb
        · subst hlsb
          refine h.ignored hp ?_
          -- Otherwise the record would be complete.
          obtain ⟨msb, hpending⟩ := Option.isSome_iff_exists.1 ((hin.lower rfl).1 rfl)
          rw [← Option.not_isSome_iff_eq_none]
          intro hsome
          have hnumbered := h.numbered k (by rw [hpending]; rfl) hsome
          refine hsent ⟨k, value, hp, ?_⟩
          rw [ParameterNumber.Complete, hnumbered.1, hnumbered.2, (record_of_pending hpending).1]
          rfl
        · exact h.other hp hin hmsb hlsb

theorem agrees_nil : Agrees [] {} {} where
  remembers := ToMidi1.remembers_empty
  selected _ := rfl
  numbered _ h := absurd h Bool.false_ne_true
  settled _ _ := rfl
  halfway _ _ h := absurd h (Option.some_ne_none _).symm

theorem agrees_run {g : Nat} {ps : List Packet} (hps : ∀ p ∈ ps, p.message.type ≠ .m2cvm)
    (horder : Machine.AtEachStep Orderly ps) (hturn : Machine.AtEachStep InTurn (entered ps)) :
    Agrees ps (returned g ps).1 (returned g ps).2 := by
  induction ps using List.reverseRecOn with
  | nil => exact agrees_nil
  | append_singleton ps p ih =>
      obtain ⟨hbefore, hlast⟩ := Machine.atEachStep_concat.1 horder
      obtain ⟨hps, hp⟩ := List.forall_mem_append.1 hps
      rw [entered_concat, Machine.atEachStep_append] at hturn
      obtain ⟨hturn, hturn'⟩ := hturn
      refine (ih hps hbefore hturn).step (hp p List.mem_cons_self) hlast fun q hq => ?_
      rw [Option.mem_def.1 hq] at hturn'
      have hfirst : InTurn (entered ps ++ []) q := hturn' [] q (List.prefix_refl _)
      rwa [List.append_nil] at hfirst

/-- A MIDI 1.0 stream that is in order comes back with the same parameters: a receiver has the same
values for all of them, but for a value of which one half is missing yet: that of the parameter
that is selected on a channel where an upper half is pending. -/
theorem parameters_upgrade_downgrade (g : Nat) {ps : List Packet}
    (hps : ∀ p ∈ ps, p.message.type ≠ .m2cvm) (horder : Machine.AtEachStep Orderly ps)
    (hturn : Machine.AtEachStep InTurn (entered ps)) {q : Parameter}
    (hq : (history q.address ps).pending.isSome → selectedOn ps q.address ≠ some q) :
    (receive receiveParameters {} (ToMidi1.translator.run {}
      (translator.run (.create g) (ps.flatMap Packet.words)).2).2).values q =
        (receive receiveParameters {} (ps.flatMap Packet.words)).values q := by
  have hagrees := @agrees_run g ps hps horder hturn
  rw [(translator.run_words _ ps).2, Translator.receive_run, receive_parameters]
  exact (hagrees.settled q hq).symm

/-- Registered parameter (0, 1) of the first channel and assignable parameter (2, 3) of the second,
with their values interleaved, then the null function and assignable parameter (2, 3) of the first
channel, and half a value for its registered parameter (0, 2). -/
def interleaved : List Packet :=
  [{ message := ⟨[0x22B06500]⟩ }, { message := ⟨[0x22B06401]⟩ }, { message := ⟨[0x22B16302]⟩ },
    { message := ⟨[0x22B16203]⟩ }, { message := ⟨[0x22B00610]⟩ }, { message := ⟨[0x22B10611]⟩ },
    { message := ⟨[0x22B02620]⟩ }, { message := ⟨[0x22B12621]⟩ }, { message := ⟨[0x22B0657F]⟩ },
    { message := ⟨[0x22B0647F]⟩ }, { message := ⟨[0x22B06302]⟩ }, { message := ⟨[0x22B06203]⟩ },
    { message := ⟨[0x22B00612]⟩ }, { message := ⟨[0x22B02622]⟩ }, { message := ⟨[0x22B06500]⟩ },
    { message := ⟨[0x22B06402]⟩ }, { message := ⟨[0x22B00613]⟩ }]

theorem parameters_upgrade_downgrade_interleaved :
    (receive receiveParameters {} (ToMidi1.translator.run {}
      (translator.run (.create 0) (interleaved.flatMap Packet.words)).2).2).values
        ⟨2, 0, true, 0, 1⟩ = 0x10 * 2 ^ 7 + 0x20 :=
  (@parameters_upgrade_downgrade 0 interleaved (by decide) (by decide +kernel)
    (by decide +kernel) ⟨2, 0, true, 0, 1⟩ (by decide +kernel)).trans (by decide +kernel)

end Midi2.Ump
