import Midi2.Ump.ChannelRecord

/-!
# Parameters through `ump_to_midi2`

Three results about the messages that `ump_to_midi2` makes of control changes, each for
every sequence of them. A message should carry the number that its channel selected
(`carries_selection`), with a value that was received for it (`carries_value`), and none
should be sent after the null function (`nullFunction_silences`). The record of a channel has
one number for both kinds of parameters, its value outlives the number, and it is put back to
empty by one of the two orders of the null function; so each result comes with the exact
condition under which it is so.
-/

namespace Midi2.Ump.ToMidi2

/-! ## The number of the parameter -/

/-- A controller message has the kind that its channel selected last, and for bank and index
the two halves of the number that the channel selected for this kind. -/
def CarriesSelection (h : History) (isRpn : Bool) (m : Message) : Prop :=
  h.kind = some isRpn ∧ h.value (.numberMsb isRpn) = some (m.get M2cvm.bank) ∧
    h.value (.numberLsb isRpn) = some (m.get M2cvm.index)

/-- The controller messages that come out for `p` after `pre` have the property, which may
depend on what their channel has received. -/
def ControllersSent (g : Nat) (P : History → Bool → Message → Prop) (pre : List Packet)
    (p : Packet) : Prop :=
  ∀ c ∈ calls (translator.emit (.create g) pre p), ∀ isRpn,
    c.callback = .m2cvm (controllerStatus isRpn) →
      P (history (c.message.get .group, c.message.get .channel) (pre ++ [p])) isRpn c.message

/-- The most recent selections of a channel, of whichever kind, have the values of the most
recent ones of the kind that was selected last. -/
def OneKind (h : History) : Prop :=
  ∀ isRpn, h.kind = some isRpn →
    (h.last Control.selectsMsb).map Prod.snd = h.value (.numberMsb isRpn) ∧
    (h.last Control.selectsLsb).map Prod.snd = h.value (.numberLsb isRpn)

/-- The low half of a value that completes the message of a channel, and what this channel
has received. -/
def AtCompletion (g : Nat) (P : History → Prop) (pre : List Packet) (p : Packet) : Prop :=
  ∀ k value, p.controlChange? = some (k, .dataEntryLsb, value) → (recordAfter g pre k).Complete →
    P (history k pre)

theorem kind_controllerStatus {isRpn isRpn' : Bool}
    (h : controllerStatus isRpn = controllerStatus isRpn') : isRpn = isRpn' := by
  revert isRpn isRpn'
  decide

/-- The low half of a value is no part of the selection. -/
theorem last_history_dataEntryLsb {p : Packet} {k : Channel} {value : Nat}
    (hp : p.controlChange? = some (k, .dataEntryLsb, value)) (pre : List Packet)
    {P : Control → Bool} (hP : P .dataEntryLsb = false) :
    (history k (pre ++ [p])).last P = (history k pre).last P := by
  rw [history_append, history_singleton, controlChangeOn_eq hp, if_pos rfl, Option.toList_some,
    History.last_concat, if_neg (by rw [hP]; exact Bool.false_ne_true)]

theorem carries_recordAfter (g : Nat) (pre : List Packet) {p : Packet} {k : Channel}
    {value : Nat} (hp : p.controlChange? = some (k, .dataEntryLsb, value)) :
    CarriesRecord (controllerMessage (recordAfter g pre k) k value) (recordAfter g pre k) k
      value := by
  obtain ⟨-, -, rfl, rfl⟩ := controlChange_eq_some hp
  refine carries_controllerMessage ?_ (p.message.get_lt _) (p.message.get_lt _)
    (p.message.get_lt _)
  rw [recordAfter_eq]
  exact inRange_record (history_lt _ pre)

/-- What a control change sends for the parameters is the message of the record. -/
theorem controllersSent_iff {g : Nat} {P : History → Bool → Message → Prop} {pre : List Packet}
    {p : Packet} (hcc : p.message.call.callback = .m1cvm .cc) :
    ControllersSent g P pre p ↔
      ∀ k value, p.controlChange? = some (k, .dataEntryLsb, value) →
        (recordAfter g pre k).Complete →
          P (history k (pre ++ [p])) (recordAfter g pre k).pnIsRpn
            (controllerMessage (recordAfter g pre k) k value) := by
  have hrecord (k : Channel) : recordAfter g pre k =
      (translator.translation.run (.create g) pre).1.parameterNumber k.1 k.2 := by
    rw [recordAfter, (translator.run_words _ _).1]
  rw [ControllersSent, Translator.calls_emit]
  constructor
  · intro h k value hp hcomplete
    have hcall := (is_controllerMessage (recordAfter g pre k) k value).call
    have hsent : (controllerMessage (recordAfter g pre k) k value).call ∈ (translator.messages
        (translator.translation.run (.create g) pre).1 p).output.map Message.call := by
      rw [output_dataEntryLsb hp, ← hrecord, if_pos hcomplete]
      exact List.mem_singleton.2 rfl
    rw [hcall] at hsent
    have hP := h _ hsent _ rfl
    rwa [(carries_recordAfter g pre hp).channel] at hP
  · intro h c hc isRpn hcallback
    obtain ⟨m, hm, rfl⟩ := List.mem_map.1 hc
    obtain ⟨k, value, hp, hcomplete, rfl⟩ :=
      controller_sent (by rw [hcc]; exact fun heq => by cases heq) hm hcallback
    rw [← hrecord] at hcomplete hcallback ⊢
    rw [(is_controllerMessage _ _ _).call] at hcallback ⊢
    obtain rfl := kind_controllerStatus (Callback.m2cvm.inj hcallback)
    simp only [(carries_recordAfter g pre hp).channel]
    exact h k value hp hcomplete

/-- The controller messages carry the numbers that were selected for them if and only if no
message is completed while the two halves of the record are of different kinds. -/
theorem carries_selection (g : Nat) (ps : List Packet)
    (hps : ∀ p ∈ ps, p.message.call.callback = .m1cvm .cc) :
    Machine.AtEachStep (ControllersSent g CarriesSelection) ps ↔
      Machine.AtEachStep (AtCompletion g OneKind) ps := by
  refine Machine.atEachStep_congr fun pre p hp => ?_
  rw [controllersSent_iff (hps p hp), AtCompletion]
  refine forall₄_congr fun k value hp hcomplete => ?_
  -- The record has the kind of the last selection, and the values of the last two halves.
  have htracks := tracks_record (history k pre)
  rw [← recordAfter_eq g] at htracks
  obtain ⟨⟨hmsbValid, hlsbValid⟩, -⟩ : (_ ∧ _) ∧ _ := by
    simpa only [ParameterNumber.Complete, Bool.and_eq_true] using hcomplete
  have hkind := htracks.kind hmsbValid
  have hmsb := htracks.msb hmsbValid
  have hlsb := htracks.lsb hlsbValid
  have hcarries := carries_recordAfter g pre hp
  have hvalue {c : Control} (hc : (Control.dataEntryLsb == c) = false) :
      (history k (pre ++ [p])).value c = (history k pre).value c :=
    congrArg (Option.map Prod.snd) (last_history_dataEntryLsb hp pre (P := (· == c)) hc)
  have hkind' : (history k (pre ++ [p])).kind = (history k pre).kind :=
    congrArg (Option.map _) (last_history_dataEntryLsb hp pre (P := Control.selects) rfl)
  rw [CarriesSelection, hkind', hvalue (by cases (recordAfter g pre k).pnIsRpn <;> rfl),
    hvalue (by cases (recordAfter g pre k).pnIsRpn <;> rfl), hcarries.bank, hcarries.index,
    ← hmsb, ← hlsb]
  constructor
  · rintro ⟨-, hm, hl⟩ isRpn hisRpn
    obtain rfl := Option.some.inj (hkind.symm.trans hisRpn)
    exact ⟨hm.symm, hl.symm⟩
  · intro h
    obtain ⟨hm, hl⟩ := h _ hkind
    exact ⟨hkind, hm.symm, hl.symm⟩

/-- Registered parameter (0, 5), then the lower half of an assignable number and a value, on
the first channel of the first group. -/
def mixedNumber : List Packet :=
  [{ message := ⟨[0x20B06500]⟩ }, { message := ⟨[0x20B06405]⟩ }, { message := ⟨[0x20B06207]⟩ },
    { message := ⟨[0x20B00601]⟩ }, { message := ⟨[0x20B02602]⟩ }]

/-- The message has the kind of the second number and the upper half of the first. -/
theorem mixedNumber_sent : ¬∀ g ps, (∀ p ∈ ps, p.message.call.callback = .m1cvm .cc) →
    Machine.AtEachStep (ControllersSent g CarriesSelection) ps := by
  intro h
  have hsent := h 0 mixedNumber (by decide) (mixedNumber.take 4) _ (List.prefix_refl _)
    ⟨.m2cvm .nrpn, ⟨[0x40300007, 0x02080000]⟩⟩ (by decide +kernel) false rfl
  have hmsb := hsent.2.1
  revert hmsb
  decide +kernel

/-- The numbers of `mixedNumber`, each with both halves. -/
def wholeNumbers : List Packet :=
  [{ message := ⟨[0x20B06500]⟩ }, { message := ⟨[0x20B06405]⟩ }, { message := ⟨[0x20B00601]⟩ },
    { message := ⟨[0x20B02602]⟩ }, { message := ⟨[0x20B06301]⟩ }, { message := ⟨[0x20B06207]⟩ },
    { message := ⟨[0x20B02603]⟩ }]

theorem carries_selection_wholeNumbers :
    Machine.AtEachStep (ControllersSent 0 CarriesSelection) wholeNumbers ↔
      Machine.AtEachStep (AtCompletion 0 OneKind) wholeNumbers :=
  carries_selection 0 wholeNumbers (by decide)

/-! ## The value of the parameter -/

/-- The upper half of the value is one that the channel received after it last selected a
parameter. -/
def CarriesValue (h : History) (_ : Bool) (m : Message) : Prop :=
  ∃ msb lsb, lsb < 2 ^ 7 ∧ (.dataEntryMsb, msb) ∈ h.sinceSelection ∧
    m.get M2cvm.value = mcmScale 14 32 ((msb <<< 7) ||| lsb)

/-- The channel has received the upper half of a value since it last selected a parameter. -/
def HasValue (h : History) : Prop :=
  ∃ msb, (.dataEntryMsb, msb) ∈ h.sinceSelection

/-- If there is such a value, then the record has the most recent one. -/
theorem HasValue.mem {h : History} (hv : HasValue h) {msb : Nat}
    (hmsb : h.value .dataEntryMsb = some msb) : (.dataEntryMsb, msb) ∈ h.sinceSelection := by
  induction h using List.reverseRecOn with
  | nil => cases hmsb
  | append_singleton h e ih =>
      obtain ⟨msb', hmem⟩ := hv
      rw [History.sinceSelection_concat] at hmem ⊢
      rw [History.value, History.last_concat] at hmsb
      split at hmem
      case isTrue => exact absurd hmem List.not_mem_nil
      case isFalse hselects =>
        rw [if_neg hselects]
        split at hmsb
        case isTrue he =>
          obtain rfl := Option.some.inj hmsb
          obtain ⟨control, value⟩ := e
          obtain rfl := eq_of_beq he
          exact List.mem_append_right _ (List.mem_singleton.2 rfl)
        case isFalse he =>
          refine List.mem_append_left _ (ih ⟨msb', ?_⟩ hmsb)
          refine (List.mem_append.1 hmem).resolve_right fun hmem => he ?_
          obtain rfl := List.mem_singleton.1 hmem
          exact beq_self_eq_true _

/-- The controller messages carry values that were received for them if and only if no
message is completed before the upper half of a value for it. -/
theorem carries_value (g : Nat) (ps : List Packet)
    (hps : ∀ p ∈ ps, p.message.call.callback = .m1cvm .cc) :
    Machine.AtEachStep (ControllersSent g CarriesValue) ps ↔
      Machine.AtEachStep (AtCompletion g HasValue) ps := by
  refine Machine.atEachStep_congr fun pre p hp => ?_
  rw [controllersSent_iff (hps p hp), AtCompletion]
  refine forall₄_congr fun k value hp hcomplete => ?_
  have hsince (msb : Nat) : (.dataEntryMsb, msb) ∈ (history k (pre ++ [p])).sinceSelection ↔
      (.dataEntryMsb, msb) ∈ (history k pre).sinceSelection := by
    rw [history_append, history_singleton, controlChangeOn_eq hp, if_pos rfl,
      Option.toList_some, History.sinceSelection_concat]
    simp [Control.selects, Control.selectsMsb, Control.selectsLsb]
  constructor
  · rintro ⟨msb, -, -, hmem, -⟩
    exact ⟨msb, (hsince msb).1 hmem⟩
  · intro h
    obtain ⟨-, hvalid⟩ : (_ ∧ _) ∧ _ := by
      simpa only [ParameterNumber.Complete, Bool.and_eq_true] using hcomplete
    have htracks := tracks_record (history k pre)
    rw [← recordAfter_eq g] at htracks
    have hlt : value < 2 ^ 7 := by
      rw [show value = _ from (controlChange_eq_some hp).2.2.2]
      exact p.message.get_lt _
    exact ⟨_, value, hlt, (hsince _).2 (h.mem (htracks.valueMsb hvalid)),
      (carries_recordAfter g pre hp).value⟩

theorem carries_value_wholeNumbers :
    Machine.AtEachStep (ControllersSent 0 CarriesValue) wholeNumbers ↔
      Machine.AtEachStep (AtCompletion 0 HasValue) wholeNumbers :=
  carries_value 0 wholeNumbers (by decide)

/-- Registered parameter (0, 1) with a value, then (0, 2) with the lower half of one. -/
def staleValue : List Packet :=
  [{ message := ⟨[0x20B06500]⟩ }, { message := ⟨[0x20B06401]⟩ }, { message := ⟨[0x20B00605]⟩ },
    { message := ⟨[0x20B02606]⟩ }, { message := ⟨[0x20B06500]⟩ }, { message := ⟨[0x20B06402]⟩ },
    { message := ⟨[0x20B02607]⟩ }]

/-- The second value has the upper half of the first. -/
theorem staleValue_sent : ¬∀ g ps, (∀ p ∈ ps, p.message.call.callback = .m1cvm .cc) →
    Machine.AtEachStep (ControllersSent g CarriesValue) ps := by
  intro h
  obtain ⟨msb, -, -, hmem, -⟩ := h 0 staleValue (by decide) (staleValue.take 6) _
    (List.prefix_refl _) ⟨.m2cvm .rpn, ⟨[0x40200002, 0x0A1C0000]⟩⟩ (by decide +kernel) true rfl
  have hnone : ∀ e ∈ (history (0, 0) staleValue).sinceSelection, e.1 ≠ .dataEntryMsb := by
    decide +kernel
  exact hnone _ hmem rfl

/-! ## The null function -/

/-- The channel has not selected a parameter. -/
def NoSelection (k : Channel) (ps : List Packet) : Prop :=
  ∀ e ∈ history k ps, e.1.selects = false

instance (k : Channel) (ps : List Packet) : Decidable (NoSelection k ps) :=
  inferInstanceAs (Decidable (∀ e ∈ _, _))

/-- No controller message comes out for the channel during `rest`. -/
def Silent (g : Nat) (k : Channel) (pre rest : List Packet) : Prop :=
  Machine.AtEachStep (fun pre' p => ∀ c ∈ calls (translator.emit (.create g) (pre ++ pre') p),
    (c.message.get .group, c.message.get .channel) = k →
      ∀ isRpn, c.callback ≠ .m2cvm (controllerStatus isRpn)) rest

/-- The two control changes of the null function, in one of the two orders. -/
def nullControls (msbFirst : Bool) : Control × Control :=
  if msbFirst then (.rpnMsb, .rpnLsb) else (.rpnLsb, .rpnMsb)

/-- The condition under which `control_change` takes an RPN LSB of 7FH for the second half of
the null function. -/
def ParameterNumber.NullMsb (c : ParameterNumber) : Prop :=
  (c.pnIsRpn && c.pnMsbValid && c.pnMsb == 0x7F) = true

instance (c : ParameterNumber) : Decidable c.NullMsb :=
  inferInstanceAs (Decidable (_ = _))

/-- The record has a whole number. -/
def ParameterNumber.Numbered (c : ParameterNumber) : Prop :=
  c.pnMsbValid = true ∧ c.pnLsbValid = true

/-- As long as nothing is selected, the number stays as it is or is forgotten. -/
structure Keeps (h : History) (c c' : ParameterNumber) : Prop where
  isRpn : c'.pnIsRpn = c.pnIsRpn
  forgotten : .resetAllControllers ∈ h.map Prod.fst → c'.pnMsbValid = false ∧ c'.pnLsbValid = false
  kept : .resetAllControllers ∉ h.map Prod.fst →
    c'.pnMsbValid = c.pnMsbValid ∧ c'.pnLsbValid = c.pnLsbValid ∧ c'.pnMsb = c.pnMsb

theorem keeps_foldl {h : History} (hh : ∀ e ∈ h, e.1.selects = false) (c : ParameterNumber) :
    Keeps h c (h.foldl .receive c) := by
  induction h using List.reverseRecOn with
  | nil => exact ⟨rfl, fun hmem => absurd hmem List.not_mem_nil, fun _ => ⟨rfl, rfl, rfl⟩⟩
  | append_singleton h e ih =>
      obtain ⟨hisRpn, hforgotten, hkept⟩ := ih fun e' he' => hh e' (List.mem_append_left _ he')
      have hselects := hh e (List.mem_append_right _ (List.mem_singleton.2 rfl))
      obtain ⟨control, value⟩ := e
      rw [List.foldl_append, List.foldl_cons, List.foldl_nil]
      cases control with
      | rpnMsb | rpnLsb | nrpnMsb | nrpnLsb => cases hselects
      | resetAllControllers =>
          refine ⟨hisRpn, fun _ => ⟨rfl, rfl⟩, fun hmem => absurd ?_ hmem⟩
          simp
      | dataEntryMsb | bankSelect | bankSelectLsb | dataEntryLsb =>
          refine ⟨hisRpn, fun hmem => ?_, fun hmem => ?_⟩
          · exact hforgotten (by simpa using hmem)
          · exact hkept (by simpa using hmem)

theorem recordAfter_append (g : Nat) (ps qs : List Packet) (k : Channel) :
    recordAfter g (ps ++ qs) k = (history k qs).foldl .receive (recordAfter g ps k) := by
  rw [recordAfter_eq, recordAfter_eq, history_append, record, List.foldl_append]
  rfl

/-- What is not a selection does not complete a number. -/
theorem Keeps.numbered {h : History} {c c' : ParameterNumber} (hk : Keeps h c c')
    (hn : c'.Numbered) : c.Numbered := by
  obtain ⟨hmsb, hlsb⟩ := hn
  by_cases hmem : .resetAllControllers ∈ h.map Prod.fst
  · rw [(hk.forgotten hmem).1] at hmsb
    cases hmsb
  · obtain ⟨hmsb', hlsb', -⟩ := hk.kept hmem
    exact ⟨hmsb' ▸ hmsb, hlsb' ▸ hlsb⟩

/-- A channel is silent from now on, whatever it receives that is not a selection, exactly if
its record has no number. -/
theorem silent_iff (g : Nat) {k : Channel} (hg : k.1 < 2 ^ 4) (hc : k.2 < 2 ^ 4)
    (ps : List Packet) :
    (∀ rest, NoSelection k rest →
      (∀ p ∈ rest, ∀ isRpn, p.message.call.callback ≠ .m2cvm (controllerStatus isRpn)) →
        Silent g k ps rest) ↔ ¬(recordAfter g ps k).Numbered := by
  constructor
  · intro h hn
    -- A whole value completes the message.
    have hmsb := controlChange_controlChangePacket hg hc .dataEntryMsb
    have hlsb := controlChange_controlChangePacket hg hc .dataEntryLsb
    have hhistory : history k [controlChangePacket k .dataEntryMsb] = [(.dataEntryMsb, 0)] := by
      rw [history_singleton, controlChangeOn_eq hmsb, if_pos rfl, Option.toList_some]
    have hquiet : NoSelection k
        [controlChangePacket k .dataEntryMsb, controlChangePacket k .dataEntryLsb] := by
      rw [NoSelection, ← List.singleton_append, history_append, hhistory, history_singleton,
        controlChangeOn_eq hlsb, if_pos rfl]
      decide
    have hcc (c : Control) (isRpn : Bool) : (controlChangePacket k c).message.call.callback ≠
        .m2cvm (controllerStatus isRpn) := by
      rw [controlChangePacket, (ToMidi1.is_controlChangeMessage ..).call]
      exact fun heq => by cases heq
    have hrecord : recordAfter g (ps ++ [controlChangePacket k .dataEntryMsb]) k =
        (recordAfter g ps k).setValueMsb 0 := by
      rw [recordAfter_append, hhistory]
      rfl
    have hcomplete : (recordAfter g (ps ++ [controlChangePacket k .dataEntryMsb]) k).Complete := by
      rw [hrecord, ParameterNumber.Complete]
      simp only [ParameterNumber.setValueMsb, hn.1, hn.2, Bool.and_self]
    have hsent := Translator.calls_emit translator (.create g)
      (ps ++ [controlChangePacket k .dataEntryMsb]) (controlChangePacket k .dataEntryLsb)
    rw [output_dataEntryLsb hlsb, recordAfter_state, if_pos hcomplete, List.map_singleton,
      (is_controllerMessage _ _ _).call] at hsent
    have hne := h _ hquiet (by simp [hcc]) [controlChangePacket k .dataEntryMsb] _
      (List.prefix_refl _)
    simp only [hsent, List.mem_singleton] at hne
    exact hne _ rfl (carries_recordAfter g _ hlsb).channel _ rfl
  · intro hn rest hrest hother pre p hpre c hmem hk isRpn hcallback
    rw [Translator.calls_emit] at hmem
    obtain ⟨m, hm, rfl⟩ := List.mem_map.1 hmem
    have hp := hother p (hpre.subset (List.mem_append_right _ (List.mem_singleton.2 rfl))) isRpn
    obtain ⟨k', value, hp', hcomplete, rfl⟩ := controller_sent hp hm hcallback
    rw [recordAfter_state] at hcomplete hk
    rw [(is_controllerMessage _ _ _).call, (carries_recordAfter g _ hp').channel] at hk
    subst hk
    have hquiet : ∀ e ∈ history k' pre, e.1.selects = false := by
      intro e he
      obtain ⟨suffix, hsuffix⟩ := hpre
      refine hrest e ?_
      rw [← hsuffix, history_append, history_append]
      exact List.mem_append_left _ (List.mem_append_left _ he)
    obtain ⟨hnumbered, -⟩ : (_ ∧ _) ∧ _ := by
      simpa only [ParameterNumber.Complete, Bool.and_eq_true] using hcomplete
    rw [recordAfter_append] at hnumbered
    exact hn ((keeps_foldl hquiet _).numbered hnumbered)

/-- The record after the null function has no number, but for the order LSB, MSB without
anything that resets the record. -/
theorem numbered_nullFunction {msbFirst : Bool} {h : History}
    (hh : ∀ e ∈ h, e.1.selects = false) (c : ParameterNumber) :
    ((h.foldl .receive (c.receive ((nullControls msbFirst).1, 0x7F))).receive
      ((nullControls msbFirst).2, 0x7F)).Numbered ↔
    ¬(msbFirst = true ∨ .resetAllControllers ∈ h.map Prod.fst ∨ c.NullMsb) := by
  have hlsb (c : ParameterNumber) : c.receive (.rpnLsb, 0x7F) =
      if c.NullMsb then c.reset else { c with pnIsRpn := true }.setNumberLsb 0x7F := by
    simp only [ParameterNumber.receive, beq_self_eq_true, Bool.and_true]
    rfl
  cases msbFirst with
  | true =>
      refine iff_of_false ?_ fun hn => hn (Or.inl rfl)
      obtain ⟨hisRpn, hforgotten, hkept⟩ := keeps_foldl hh (c.receive (.rpnMsb, 0x7F))
      show ¬((h.foldl .receive (c.receive (.rpnMsb, 0x7F))).receive (.rpnLsb, 0x7F)).Numbered
      rw [hlsb]
      split
      case isTrue => exact fun hn => absurd hn.1 Bool.false_ne_true
      case isFalse hnull =>
        intro hn
        have hvalid : (h.foldl .receive (c.receive (.rpnMsb, 0x7F))).pnMsbValid = true := hn.1
        by_cases hmem : .resetAllControllers ∈ h.map Prod.fst
        · rw [(hforgotten hmem).1] at hvalid
          cases hvalid
        · obtain ⟨-, -, hmsb⟩ := hkept hmem
          refine hnull ?_
          rw [ParameterNumber.NullMsb, hisRpn, hvalid, hmsb]
          rfl
  | false =>
      obtain ⟨-, hforgotten, hkept⟩ := keeps_foldl hh (c.receive (.rpnLsb, 0x7F))
      have hnumbered : ((h.foldl .receive (c.receive (.rpnLsb, 0x7F))).receive
          (.rpnMsb, 0x7F)).Numbered ↔
            (h.foldl .receive (c.receive (.rpnLsb, 0x7F))).pnLsbValid = true :=
        ⟨fun hn => hn.2, fun hn => ⟨rfl, hn⟩⟩
      show ((h.foldl .receive (c.receive (.rpnLsb, 0x7F))).receive (.rpnMsb, 0x7F)).Numbered ↔ _
      rw [hnumbered]
      by_cases hmem : .resetAllControllers ∈ h.map Prod.fst
      · rw [(hforgotten hmem).2]
        exact iff_of_false Bool.false_ne_true fun hn => hn (Or.inr (Or.inl hmem))
      · rw [(hkept hmem).2.1, hlsb]
        split
        case isTrue hnull =>
          exact iff_of_false Bool.false_ne_true fun hn => hn (Or.inr (Or.inr hnull))
        case isFalse hnull =>
          refine iff_of_true rfl ?_
          rintro (hfirst | hreset | hnull')
          · cases hfirst
          · exact hmem hreset
          · exact hnull hnull'

/-- After the null function the channel is silent, until it selects a parameter again, if and
only if the MSB came first, or the controllers were reset in between, or the RPN MSB was 7FH
before. -/
theorem nullFunction_silences (g : Nat) (pre mid : List Packet) {a b : Packet} {k : Channel}
    {msbFirst : Bool} (ha : a.controlChange? = some (k, (nullControls msbFirst).1, 0x7F))
    (hmid : NoSelection k mid) (hb : b.controlChange? = some (k, (nullControls msbFirst).2, 0x7F)) :
    (∀ rest, NoSelection k rest →
      (∀ p ∈ rest, ∀ isRpn, p.message.call.callback ≠ .m2cvm (controllerStatus isRpn)) →
        Silent g k (pre ++ a :: mid ++ [b]) rest) ↔
      msbFirst = true ∨ .resetAllControllers ∈ (history k mid).map Prod.fst ∨
        (recordAfter g pre k).NullMsb := by
  have hk : k.1 < 2 ^ 4 ∧ k.2 < 2 ^ 4 := by
    obtain ⟨-, -, rfl, -⟩ := controlChange_eq_some ha
    exact ⟨a.message.get_lt _, a.message.get_lt _⟩
  have hrecord : recordAfter g (pre ++ a :: mid ++ [b]) k =
      ((history k mid).foldl .receive ((recordAfter g pre k).receive
        ((nullControls msbFirst).1, 0x7F))).receive ((nullControls msbFirst).2, 0x7F) := by
    rw [recordAfter_append, recordAfter_append, history_singleton, controlChangeOn_eq hb,
      if_pos rfl, ← List.singleton_append, history_append, history_singleton,
      controlChangeOn_eq ha, if_pos rfl]
    rfl
  rw [silent_iff g hk.1 hk.2, hrecord, numbered_nullFunction hmid, not_not]

/-- The null function with its LSB first, and nothing else. -/
def nullLsb : Packet where
  message := ⟨[0x20B0647F]⟩

def nullMsb : Packet where
  message := ⟨[0x20B0657F]⟩

/-- The null function in the other order, while an assignable parameter is selected. -/
theorem nullFunction_silences_msbFirst :
    (∀ rest, NoSelection (0, 0) rest →
      (∀ p ∈ rest, ∀ isRpn, p.message.call.callback ≠ .m2cvm (controllerStatus isRpn)) →
        Silent 0 (0, 0) (wholeNumbers ++ nullMsb :: [] ++ [nullLsb]) rest) ↔
      true = true ∨ .resetAllControllers ∈ (history (0, 0) []).map Prod.fst ∨
        (recordAfter 0 wholeNumbers (0, 0)).NullMsb :=
  nullFunction_silences 0 wholeNumbers [] (by decide) (by decide) (by decide)

/-- A value of eleven bits. -/
def someValue : List Packet :=
  [{ message := ⟨[0x20B00601]⟩ }, { message := ⟨[0x20B02602]⟩ }]

/-- The value is sent to the null function. -/
theorem nullFunction_sent : ¬∀ g k pre mid a b,
    (a.controlChange? = some (k, .rpnMsb, 0x7F) ∧ b.controlChange? = some (k, .rpnLsb, 0x7F) ∨
      a.controlChange? = some (k, .rpnLsb, 0x7F) ∧ b.controlChange? = some (k, .rpnMsb, 0x7F)) →
    NoSelection k mid → ∀ rest, NoSelection k rest →
      (∀ p ∈ rest, p.message.call.callback = .m1cvm .cc) →
        Silent g k (pre ++ a :: mid ++ [b]) rest := by
  intro h
  have hne := h 0 (0, 0) [] [] nullLsb nullMsb (Or.inr ⟨by decide, by decide⟩) (by decide)
    someValue (by decide) (by decide) (someValue.take 1) _ (List.prefix_refl _)
    ⟨.m2cvm .rpn, ⟨[0x40207F7F, 0x02080000]⟩⟩ (by decide +kernel) (by decide) true
  exact hne rfl

end Midi2.Ump.ToMidi2
