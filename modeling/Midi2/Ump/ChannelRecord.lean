import Mathlib.Data.List.DropRight
import Midi2.Ump.Receiver
import Midi2.Ump.ToMidi1
import Midi2.Ump.ToMidi2

/-!
# The records of `ump_to_midi2`

In MIDI 1.0 a parameter is changed by up to four control changes, in MIDI 2.0 by one
message. `ump_to_midi2` keeps a record for each group and channel of what has been received
and sends the message at the last control change, the low half of the value.

What a channel has received is its `history`, and the record is a function of it, the fold
of `ParameterNumber.receive` (`parameterNumber_run`). `Tracks` says where the parts of the
record come from, `controller_sent` and `output_dataEntryLsb` when and with what a message is
sent.
-/

namespace Midi2.Ump

/-! ## Control changes -/

namespace Control

/-- The control changes that select the upper half of a parameter number. -/
def selectsMsb : Control → Bool
  | rpnMsb | nrpnMsb => true
  | _ => false

/-- The control changes that select the lower half. -/
def selectsLsb : Control → Bool
  | rpnLsb | nrpnLsb => true
  | _ => false

/-- Control changes 98 to 101. -/
def selects (c : Control) : Bool :=
  c.selectsMsb || c.selectsLsb

/-- The kind of parameter that is selected: whether it is a registered one. -/
def selectsRpn : Control → Bool
  | rpnMsb | rpnLsb => true
  | _ => false

/-- The control change for the upper half of the number of a parameter of this kind. -/
def numberMsb (isRpn : Bool) : Control :=
  if isRpn then rpnMsb else nrpnMsb

/-- The control change for the lower half. -/
def numberLsb (isRpn : Bool) : Control :=
  if isRpn then rpnLsb else nrpnLsb

end Control

/-- A channel of a group. -/
abbrev Channel := Nat × Nat

/-- The channel, the function and the value of a MIDI 1.0 control change that has one of the
functions of `control`. -/
def Packet.controlChange? (p : Packet) : Option (Channel × Control × Nat) :=
  match p.message.call.callback with
  | .m1cvm .cc =>
      (Control.ofNat? (p.message.get M1cvm.controller)).map fun c =>
        ((p.message.get .group, p.message.get .channel), c, p.message.get M1cvm.value)
  | _ => none

/-- What the channel `k` receives with a packet. -/
def Packet.controlChangeOn (k : Channel) (p : Packet) : Option (Control × Nat) :=
  p.controlChange?.bind fun x => if x.1 = k then some x.2 else none

/-- Control changes and their values, the oldest first. -/
abbrev History := List (Control × Nat)

/-- What the channel `k` has received. -/
def history (k : Channel) (ps : List Packet) : History :=
  ps.filterMap (Packet.controlChangeOn k)

namespace History

/-- The most recent control change with the property. -/
def last (h : History) (P : Control → Bool) : Option (Control × Nat) :=
  (h.filter fun e => P e.1).getLast?

/-- The value of the most recent control change `c`. -/
def value (h : History) (c : Control) : Option Nat :=
  (h.last (· == c)).map Prod.snd

/-- The kind of the most recent selection. -/
def kind (h : History) : Option Bool :=
  (h.last Control.selects).map fun e => e.1.selectsRpn

/-- What has been received since the most recent selection. -/
def sinceSelection (h : History) : History :=
  h.rtakeWhile fun e => !e.1.selects

theorem last_concat (h : History) (e : Control × Nat) (P : Control → Bool) :
    (h ++ [e]).last P = if P e.1 then some e else h.last P := by
  rw [last, List.filter_append]
  cases hP : P e.1 with
  | true => simp [hP]
  | false => simp [hP, last]

theorem sinceSelection_concat (h : History) (e : Control × Nat) :
    (h ++ [e]).sinceSelection = if e.1.selects then [] else h.sinceSelection ++ [e] := by
  rw [sinceSelection, List.rtakeWhile_concat]
  cases hs : e.1.selects <;> simp [sinceSelection]

end History

theorem history_append (k : Channel) (ps qs : List Packet) :
    history k (ps ++ qs) = history k ps ++ history k qs :=
  List.filterMap_append

theorem history_singleton (k : Channel) (p : Packet) :
    history k [p] = (p.controlChangeOn k).toList := by
  rw [history]
  cases h : p.controlChangeOn k <;> simp [h]

theorem controlChangeOn_eq {p : Packet} {k k' : Channel} {e : Control × Nat}
    (h : p.controlChange? = some (k', e)) :
    p.controlChangeOn k = if k' = k then some e else none := by
  rw [Packet.controlChangeOn, h, Option.bind_some]

theorem controlChange_eq_none {p : Packet} (h : p.message.call.callback ≠ .m1cvm .cc) :
    p.controlChange? = none := by
  rw [Packet.controlChange?]
  split
  case h_1 hcc => exact absurd hcc h
  case h_2 => rfl

theorem controlChange_eq_cc {p : Packet} (h : p.message.call.callback = .m1cvm .cc) :
    p.controlChange? = (Control.ofNat? (p.message.get M1cvm.controller)).map fun c =>
      ((p.message.get .group, p.message.get .channel), c, p.message.get M1cvm.value) := by
  rw [Packet.controlChange?, h]

theorem controlChange_eq_some {p : Packet} {k : Channel} {e : Control × Nat}
    (h : p.controlChange? = some (k, e)) :
    p.message.call.callback = .m1cvm .cc ∧
      Control.ofNat? (p.message.get M1cvm.controller) = some e.1 ∧
      k = (p.message.get .group, p.message.get .channel) ∧ e.2 = p.message.get M1cvm.value := by
  have hcc : p.message.call.callback = .m1cvm .cc := by
    by_contra hne
    rw [controlChange_eq_none hne] at h
    cases h
  rw [controlChange_eq_cc hcc, Option.map_eq_some_iff] at h
  obtain ⟨c, hc, heq⟩ := h
  cases heq
  exact ⟨hcc, hc, rfl, rfl⟩

theorem mem_history {k : Channel} {ps : List Packet} {e : Control × Nat} :
    e ∈ history k ps ↔ ∃ p ∈ ps, p.controlChange? = some (k, e) := by
  have hon (p : Packet) : p.controlChangeOn k = some e ↔ p.controlChange? = some (k, e) := by
    rw [Packet.controlChangeOn, Option.bind_eq_some_iff]
    constructor
    · rintro ⟨⟨k', e'⟩, hp, hk⟩
      split at hk
      case isTrue heq =>
        obtain rfl := Option.some.inj hk
        exact heq ▸ hp
      case isFalse => cases hk
    · intro hp
      exact ⟨(k, e), hp, if_pos rfl⟩
  simp only [history, List.mem_filterMap, hon]

namespace ToMidi2

/-! ## The record of a channel -/

/-- What a control change does to the record of its channel. -/
def ParameterNumber.receive (c : ParameterNumber) (e : Control × Nat) : ParameterNumber :=
  match e.1 with
  | .nrpnMsb => { c with pnIsRpn := false }.setNumberMsb e.2
  | .nrpnLsb => { c with pnIsRpn := false, pnLsbValid := true, pnLsb := e.2 }
  | .rpnMsb => { c with pnIsRpn := true }.setNumberMsb e.2
  | .rpnLsb =>
      if c.pnIsRpn && c.pnMsbValid && c.pnMsb == 0x7F && e.2 == 0x7F then c.reset
      else { c with pnIsRpn := true }.setNumberLsb e.2
  | .dataEntryMsb => c.setValueMsb e.2
  | .resetAllControllers => c.reset
  | .bankSelect | .bankSelectLsb | .dataEntryLsb => c

/-- The record after a history. -/
def record (h : History) : ParameterNumber :=
  h.foldl .receive {}

theorem record_concat (h : History) (e : Control × Nat) :
    record (h ++ [e]) = (record h).receive e := by
  rw [record, List.foldl_append]
  rfl

theorem set_self {α : Type} (table : Array2d α) (group channel : Nat) (v : α) :
    table.set group channel v group channel = v := by
  rw [Array2d.set, Function.update_self, Function.update_self]

theorem set_of_ne {α : Type} (table : Array2d α) {group channel : Nat} (v : α) {k : Channel}
    (h : (group, channel) ≠ k) : table.set group channel v k.1 k.2 = table k.1 k.2 := by
  rw [Array2d.set]
  by_cases hg : k.1 = group
  · have hc : k.2 ≠ channel := fun hc => h (Prod.ext hg.symm hc.symm)
    rw [hg, Function.update_self, Function.update_of_ne hc]
  · rw [Function.update_of_ne hg]

variable {ω : Type} [Sink ω]

/-- Of all control changes those for a bank change it. -/
theorem bank_controlChange (ctxt : Context State ω) (m : Message) :
    (controlChange ctxt m).state.bank =
      match Control.ofNat? (m.get M1cvm.controller) with
      | some .bankSelect => ctxt.state.bank.set (m.get .group) (m.get .channel)
          ((ctxt.state.bank (m.get .group) (m.get .channel)).setMsb (m.get M1cvm.value))
      | some .bankSelectLsb => ctxt.state.bank.set (m.get .group) (m.get .channel)
          ((ctxt.state.bank (m.get .group) (m.get .channel)).setLsb (m.get M1cvm.value))
      | _ => ctxt.state.bank := by
  simp only [controlChange]
  cases Control.ofNat? (m.get M1cvm.controller) with
  | none => rfl
  | some c =>
      cases c with
      | rpnLsb | dataEntryLsb =>
          simp only
          split
          case isTrue => rfl
          case isFalse => rfl
      | _ => rfl

/-- The record of the channel of a control change is the only one that it changes. -/
theorem parameterNumber_controlChange (ctxt : Context State ω) (m : Message) (k : Channel) :
    (controlChange ctxt m).state.parameterNumber k.1 k.2 =
      match Control.ofNat? (m.get M1cvm.controller) with
      | some c =>
          if (m.get .group, m.get .channel) = k then
            (ctxt.state.parameterNumber k.1 k.2).receive (c, m.get M1cvm.value)
          else ctxt.state.parameterNumber k.1 k.2
      | none => ctxt.state.parameterNumber k.1 k.2 := by
  have hset (r : ParameterNumber) :
      (setParameterNumber ctxt (m.get .group) (m.get .channel) r).state.parameterNumber k.1 k.2 =
        if (m.get .group, m.get .channel) = k then r
        else ctxt.state.parameterNumber k.1 k.2 := by
    split
    case isTrue h =>
      subst h
      exact set_self _ _ _ _
    case isFalse h => exact set_of_ne _ _ h
  simp only [controlChange]
  cases Control.ofNat? (m.get M1cvm.controller) with
  | none => rfl
  | some c =>
      by_cases hk : (m.get .group, m.get .channel) = k
      · subst hk
        simp only [if_pos] at hset ⊢
        cases c with
        | bankSelect | bankSelectLsb => rfl
        | dataEntryLsb =>
            simp only [ParameterNumber.receive]
            split <;> rfl
        | rpnLsb =>
            simp only [ParameterNumber.receive]
            split <;> exact hset _
        | _ => exact hset _
      · simp only [if_neg hk] at hset ⊢
        cases c with
        | bankSelect | bankSelectLsb => rfl
        | dataEntryLsb =>
            simp only
            split <;> rfl
        | rpnLsb =>
            simp only
            split <;> exact hset _
        | _ => exact hset _

theorem state_call {c : Call} (h : c.callback ≠ .m1cvm .cc) (ctxt : Context State ω) :
    (call c ctxt).state = ctxt.state := by
  obtain ⟨callback, m⟩ := c
  cases callback with
  | utility s =>
      cases s with
      | _ => rfl
  | m1cvm s =>
      cases s with
      | cc => exact absurd rfl h
      | _ => rfl
  | _ => rfl

theorem messages_cc {p : Packet} (h : p.message.call.callback = .m1cvm .cc) (s : State) :
    translator.messages s p = controlChange (⟨s, []⟩ : Context State (List Message)) p.message := by
  rw [Translator.messages, Message.call_eq h]
  rfl

theorem parameterNumber_step (s : State) (p : Packet) (k : Channel) :
    (translator.messages s p).state.parameterNumber k.1 k.2 =
      (p.controlChangeOn k).toList.foldl .receive (s.parameterNumber k.1 k.2) := by
  by_cases hcc : p.message.call.callback = .m1cvm .cc
  · rw [messages_cc hcc, parameterNumber_controlChange, Packet.controlChangeOn,
      controlChange_eq_cc hcc]
    cases Control.ofNat? (p.message.get M1cvm.controller) with
    | none => rfl
    | some c =>
        simp only [Option.map_some, Option.bind_some]
        split <;> rfl
  · rw [Translator.messages, show translator.call = call from rfl, state_call hcc,
      Packet.controlChangeOn, controlChange_eq_none hcc]
    rfl

theorem parameterNumber_run (s : State) (ps : List Packet) (k : Channel) :
    (translator.translation.run s ps).1.parameterNumber k.1 k.2 =
      (history k ps).foldl .receive (s.parameterNumber k.1 k.2) := by
  induction ps generalizing s with
  | nil => rfl
  | cons p ps ih =>
      rw [Machine.run_cons, ih, ← List.singleton_append, history_append, history_singleton,
        List.foldl_append, ← parameterNumber_step s p k]
      rfl

/-- The record that the translator has of a channel, after some packets. -/
def recordAfter (g : Nat) (ps : List Packet) (k : Channel) : ParameterNumber :=
  (translator.run (.create g) (ps.flatMap Packet.words)).1.state.parameterNumber k.1 k.2

theorem recordAfter_eq (g : Nat) (ps : List Packet) (k : Channel) :
    recordAfter g ps k = record (history k ps) := by
  rw [recordAfter, (translator.run_words _ _).1, parameterNumber_run]
  rfl

theorem recordAfter_state (g : Nat) (ps : List Packet) (k : Channel) :
    (translator.translation.run (.create g) ps).1.parameterNumber k.1 k.2 = recordAfter g ps k := by
  rw [recordAfter, (translator.run_words _ _).1]

/-- A control change of the channel `k`. -/
def controlChangePacket (k : Channel) (c : Control) : Packet where
  message := ToMidi1.controlChangeMessage k.1 k.2 c.toNat 0
  whole := (ToMidi1.is_controlChangeMessage ..).whole

theorem controlChange_controlChangePacket {k : Channel} (hg : k.1 < 2 ^ 4) (hc : k.2 < 2 ^ 4)
    (c : Control) : (controlChangePacket k c).controlChange? = some (k, c, 0) := by
  obtain ⟨hgroup, hchannel, hcontroller, hvalue⟩ :=
    ToMidi1.get_controlChangeMessage hg hc c.toNat_lt (Nat.two_pow_pos 7)
  have hcall := (ToMidi1.is_controlChangeMessage k.1 k.2 c.toNat 0).call
  rw [controlChange_eq_cc (by rw [controlChangePacket, hcall])]
  simp only [controlChangePacket, hgroup, hchannel, hcontroller, hvalue, Control.ofNat_toNat,
    Option.map_some]

/-! ## What is sent -/

/-- The record has a whole number and the upper half of a value. -/
def ParameterNumber.Complete (c : ParameterNumber) : Prop :=
  (c.pnMsbValid && c.pnLsbValid && c.valueMsbValid) = true

instance (c : ParameterNumber) : Decidable c.Complete :=
  inferInstanceAs (Decidable (_ = _))

/-- The status of controller messages of this kind. -/
def controllerStatus (isRpn : Bool) : Mt.M2cvm :=
  if isRpn then .rpn else .nrpn

/-- The message that `pn_control_message` sends. -/
def controllerMessage (c : ParameterNumber) (k : Channel) (value : Nat) : Message :=
  (M2cvm.init (controllerStatus c.pnIsRpn))
    |>.set .group k.1
    |>.set .channel k.2
    |>.set M2cvm.bank c.pnMsb
    |>.set M2cvm.index c.pnLsb
    |>.set M2cvm.value (mcmScale 14 32 ((c.valueMsb <<< 7) ||| value))

/-- The low half of a value is sent on if the record is complete. -/
theorem output_dataEntryLsb {p : Packet} {k : Channel} {value : Nat}
    (h : p.controlChange? = some (k, .dataEntryLsb, value)) (s : State) :
    (translator.messages s p).output =
      if (s.parameterNumber k.1 k.2).Complete then
        [controllerMessage (s.parameterNumber k.1 k.2) k value]
      else [] := by
  obtain ⟨hcc, hc, rfl, rfl⟩ := controlChange_eq_some h
  rw [messages_cc hcc]
  simp only [controlChange, hc]
  split
  case isTrue hcomplete => exact (if_pos hcomplete).symm
  case isFalse hcomplete => exact (if_neg hcomplete).symm

/-- A channel voice message that is not a controller message. -/
def OtherVoice (m : Message) : Prop :=
  ∃ status, M2cvm.Is status m ∧ ∀ isRpn, status ≠ controllerStatus isRpn

theorem OtherVoice.callback_ne {m : Message} (h : OtherVoice m) (isRpn : Bool) :
    m.call.callback ≠ .m2cvm (controllerStatus isRpn) := by
  obtain ⟨status, his, hne⟩ := h
  rw [his.call]
  exact fun heq => hne isRpn (Callback.m2cvm.inj heq)

theorem otherVoice {status : Mt.M2cvm} {m : Message} (h : M2cvm.Is status m)
    (hs : ∀ isRpn, status ≠ controllerStatus isRpn := by decide) : OtherVoice m :=
  ⟨status, h, hs⟩

theorem output_controlChange {s : State} {m m' : Message}
    (h : m' ∈ (controlChange (⟨s, []⟩ : Context State (List Message)) m).output) :
    Control.ofNat? (m.get M1cvm.controller) = some .dataEntryLsb ∨ OtherVoice m' := by
  have hcc : ∀ v, OtherVoice ((M2cvm.init .cc)
      |>.set .group (m.get .group)
      |>.set .channel (m.get .channel)
      |>.set M2cvm.controller (m.get M1cvm.controller)
      |>.set M2cvm.value v) :=
    fun v => otherVoice (((((M2cvm.is_init .cc).set _).set _).set _).set _)
  simp only [controlChange] at h
  cases hc : Control.ofNat? (m.get M1cvm.controller) with
  | none =>
      rw [hc] at h
      exact Or.inr (List.mem_singleton.1 h ▸ hcc _)
  | some c =>
      rw [hc] at h
      cases c with
      | dataEntryLsb => exact Or.inl rfl
      | resetAllControllers => exact Or.inr (List.mem_singleton.1 h ▸ hcc _)
      | rpnLsb =>
          simp only at h
          split at h <;> exact absurd h List.not_mem_nil
      | _ => exact absurd h List.not_mem_nil

/-- Whatever is not a control change is passed on, or makes another message. -/
theorem output_of_not_cc {p : Packet} (hp : p.message.call.callback ≠ .m1cvm .cc) {s : State}
    {m : Message} (h : m ∈ (translator.messages s p).output) : m = p.message ∨ OtherVoice m := by
  have hm := Message.call_message (m := p.message)
  rw [Translator.messages] at h
  generalize p.message.call = c at hp hm h
  obtain ⟨callback, m'⟩ := c
  cases callback with
  | utility status =>
      cases status with
      | noop => exact absurd h List.not_mem_nil
      | _ => exact Or.inl ((List.mem_singleton.1 h).trans (hm fun heq => by cases heq))
  | unknown => exact absurd h List.not_mem_nil
  | m1cvm status =>
      refine Or.inr ?_
      cases status with
      | cc => exact absurd rfl hp
      | noteOff => exact List.mem_singleton.1 h ▸ otherVoice (is_noteMessage .noteOff m')
      | noteOn => exact List.mem_singleton.1 h ▸ otherVoice (is_noteMessage .noteOn m')
      | polyPressure =>
          exact List.mem_singleton.1 h ▸ otherVoice (((((M2cvm.is_init .polyPressure).set _).set
            _).set _).set _)
      | channelPressure =>
          exact List.mem_singleton.1 h ▸ otherVoice ((((M2cvm.is_init .channelPressure).set
            _).set _).set _)
      | pitchBend =>
          exact List.mem_singleton.1 h ▸ otherVoice ((((M2cvm.is_init .pitchBend).set _).set
            _).set _)
      | programChange =>
          have hprogram := (((M2cvm.is_init .programChange).set (f := .group)
            (m'.get .group)).set (f := .channel) (m'.get .channel)).set (f := M2cvm.program)
              (m'.get M1cvm.program)
          rw [List.mem_singleton.1 h]
          split
          case isTrue => exact otherVoice (((hprogram.set _).set _).set _)
          case isFalse => exact otherVoice hprogram
  | _ => exact Or.inl ((List.mem_singleton.1 h).trans (hm fun heq => by cases heq))

/-- Nothing but the low half of a value makes a controller message. -/
theorem controller_sent {p : Packet} {isRpn : Bool}
    (hp : p.message.call.callback ≠ .m2cvm (controllerStatus isRpn)) {s : State} {m : Message}
    (hm : m ∈ (translator.messages s p).output)
    (h : m.call.callback = .m2cvm (controllerStatus isRpn)) :
    ∃ k value, p.controlChange? = some (k, .dataEntryLsb, value) ∧
      (s.parameterNumber k.1 k.2).Complete ∧
      m = controllerMessage (s.parameterNumber k.1 k.2) k value := by
  by_cases hcc : p.message.call.callback = .m1cvm .cc
  · have hlsb : Control.ofNat? (p.message.get M1cvm.controller) = some .dataEntryLsb := by
      rw [messages_cc hcc] at hm
      exact (output_controlChange hm).resolve_right fun hother => hother.callback_ne isRpn h
    have hp' : p.controlChange? = some ((p.message.get .group, p.message.get .channel),
        .dataEntryLsb, p.message.get M1cvm.value) := by
      rw [controlChange_eq_cc hcc, hlsb, Option.map_some]
    rw [output_dataEntryLsb hp'] at hm
    split at hm
    case isTrue hcomplete => exact ⟨_, _, hp', hcomplete, List.mem_singleton.1 hm⟩
    case isFalse => exact absurd hm List.not_mem_nil
  · rcases output_of_not_cc hcc hm with rfl | hother
    · exact absurd h hp
    · exact absurd h (hother.callback_ne isRpn)

theorem is_controllerMessage (c : ParameterNumber) (k : Channel) (value : Nat) :
    M2cvm.Is (controllerStatus c.pnIsRpn) (controllerMessage c k value) :=
  (((((M2cvm.is_init _).set _).set _).set _).set _).set _

/-- The numbers of a record are values of control changes. -/
structure ParameterNumber.InRange (c : ParameterNumber) : Prop where
  pnMsb : c.pnMsb < 2 ^ 7
  pnLsb : c.pnLsb < 2 ^ 7
  valueMsb : c.valueMsb < 2 ^ 7

theorem ParameterNumber.InRange.receive {c : ParameterNumber} (h : c.InRange)
    {e : Control × Nat} (he : e.2 < 2 ^ 7) : (c.receive e).InRange := by
  obtain ⟨control, value⟩ := e
  have hreset : c.reset.InRange := ⟨Nat.two_pow_pos 7, Nat.two_pow_pos 7, h.valueMsb⟩
  cases control with
  | nrpnMsb | rpnMsb => exact ⟨he, h.pnLsb, h.valueMsb⟩
  | nrpnLsb => exact ⟨h.pnMsb, he, h.valueMsb⟩
  | rpnLsb =>
      simp only [ParameterNumber.receive]
      split
      case isTrue => exact hreset
      case isFalse => exact ⟨h.pnMsb, he, h.valueMsb⟩
  | dataEntryMsb => exact ⟨h.pnMsb, h.pnLsb, he⟩
  | resetAllControllers => exact hreset
  | bankSelect | bankSelectLsb | dataEntryLsb => exact h

theorem history_lt (k : Channel) (ps : List Packet) : ∀ e ∈ history k ps, e.2 < 2 ^ 7 := by
  intro e he
  obtain ⟨p, -, hp⟩ := mem_history.1 he
  rw [(controlChange_eq_some hp).2.2.2]
  exact p.message.get_lt _

theorem inRange_record {h : History} (hlt : ∀ e ∈ h, e.2 < 2 ^ 7) : (record h).InRange := by
  induction h using List.reverseRecOn with
  | nil => exact ⟨Nat.two_pow_pos 7, Nat.two_pow_pos 7, Nat.two_pow_pos 7⟩
  | append_singleton h e ih =>
      rw [record_concat]
      refine ParameterNumber.InRange.receive (ih fun e' he' => ?_) (hlt e ?_)
      · exact hlt e' (List.mem_append_left _ he')
      · exact List.mem_append_right _ (List.mem_singleton.2 rfl)

/-- The fields of the message are those of the record. -/
structure CarriesRecord (m : Message) (c : ParameterNumber) (k : Channel) (value : Nat) : Prop where
  channel : (m.get .group, m.get .channel) = k
  bank : m.get M2cvm.bank = c.pnMsb
  index : m.get M2cvm.index = c.pnLsb
  value : m.get M2cvm.value = mcmScale 14 32 ((c.valueMsb <<< 7) ||| value)

theorem carries_controllerMessage {c : ParameterNumber} (h : c.InRange) {k : Channel}
    {value : Nat} (hg : k.1 < 2 ^ 4) (hc : k.2 < 2 ^ 4) (hvalue : value < 2 ^ 7) :
    CarriesRecord (controllerMessage c k value) c k value := by
  have hscale := mcmScale_up_lt (show 14 ≤ 32 by decide) (shiftLeft_or_lt h.valueMsb hvalue)
  let fields := [(.group, k.1), (.channel, k.2), (M2cvm.bank, c.pnMsb), (M2cvm.index, c.pnLsb),
    (M2cvm.value, mcmScale 14 32 ((c.valueMsb <<< 7) ||| value))]
  have hget : ∀ x ∈ fields, ((M2cvm.init (controllerStatus c.pnIsRpn)).sets fields).get x.1 =
      x.2 := by
    refine (M2cvm.is_init _).get_sets [.group, .channel, M2cvm.bank, M2cvm.index, M2cvm.value] ?_
    simp only [fields, List.forall_mem_cons]
    exact ⟨hg, hc, h.pnMsb, h.pnLsb, hscale, List.forall_mem_nil _⟩
  simp only [fields, List.forall_mem_cons] at hget
  obtain ⟨hgroup, hchannel, hbank, hindex, hvalue, -⟩ := hget
  exact ⟨Prod.ext hgroup hchannel, hbank, hindex, hvalue⟩

/-- Where the record of a channel comes from. Its number is that of the most recent
selections of either kind. -/
structure Tracks (h : History) (c : ParameterNumber) : Prop where
  kind : c.pnMsbValid = true → h.kind = some c.pnIsRpn
  msb : c.pnMsbValid = true → (h.last Control.selectsMsb).map Prod.snd = some c.pnMsb
  lsb : c.pnLsbValid = true → (h.last Control.selectsLsb).map Prod.snd = some c.pnLsb
  valueMsb : c.valueMsbValid = true → h.value .dataEntryMsb = some c.valueMsb

theorem Tracks.receive {h : History} {c : ParameterNumber} (ht : Tracks h c)
    (e : Control × Nat) : Tracks (h ++ [e]) (c.receive e) := by
  obtain ⟨control, value⟩ := e
  have hfalse {P : Prop} (h : false = true) : P := absurd h Bool.false_ne_true
  have hkind : (h ++ [(control, value)]).kind =
      if control.selects then some control.selectsRpn else h.kind := by
    rw [History.kind, History.last_concat]
    split <;> rfl
  have hvalue : (h ++ [(control, value)]).value .dataEntryMsb =
      if control == .dataEntryMsb then some value else h.value .dataEntryMsb := by
    rw [History.value, History.last_concat]
    split <;> rfl
  have hmsb := h.last_concat (control, value) Control.selectsMsb
  have hlsb := h.last_concat (control, value) Control.selectsLsb
  cases control with
  | nrpnMsb | rpnMsb =>
      refine ⟨fun _ => hkind, fun _ => ?_, fun hv => ?_, fun hv => ?_⟩
      · rw [hmsb]; rfl
      · rw [hlsb]; exact ht.lsb hv
      · rw [hvalue]; exact ht.valueMsb hv
  | nrpnLsb =>
      refine ⟨fun _ => hkind, fun hv => ?_, fun _ => ?_, fun hv => ?_⟩
      · rw [hmsb]; exact ht.msb hv
      · rw [hlsb]; rfl
      · rw [hvalue]; exact ht.valueMsb hv
  | rpnLsb =>
      simp only [ParameterNumber.receive]
      split
      case isTrue =>
        refine ⟨hfalse, hfalse, hfalse, fun hv => ?_⟩
        rw [hvalue]; exact ht.valueMsb hv
      case isFalse =>
        refine ⟨fun _ => hkind, fun hv => ?_, fun _ => ?_, fun hv => ?_⟩
        · rw [hmsb]; exact ht.msb hv
        · rw [hlsb]; rfl
        · rw [hvalue]; exact ht.valueMsb hv
  | dataEntryMsb =>
      refine ⟨fun hv => ?_, fun hv => ?_, fun hv => ?_, fun _ => hvalue⟩
      · rw [hkind]; exact ht.kind hv
      · rw [hmsb]; exact ht.msb hv
      · rw [hlsb]; exact ht.lsb hv
  | resetAllControllers =>
      refine ⟨hfalse, hfalse, hfalse, fun hv => ?_⟩
      rw [hvalue]; exact ht.valueMsb hv
  | bankSelect | bankSelectLsb | dataEntryLsb =>
      refine ⟨fun hv => ?_, fun hv => ?_, fun hv => ?_, fun hv => ?_⟩
      · rw [hkind]; exact ht.kind hv
      · rw [hmsb]; exact ht.msb hv
      · rw [hlsb]; exact ht.lsb hv
      · rw [hvalue]; exact ht.valueMsb hv

theorem tracks_record (h : History) : Tracks h (record h) := by
  induction h using List.reverseRecOn with
  | nil =>
      have hfalse {P : Prop} (h : false = true) : P := absurd h Bool.false_ne_true
      exact ⟨hfalse, hfalse, hfalse, hfalse⟩
  | append_singleton h e ih =>
      rw [record_concat]
      exact ih.receive e

end ToMidi2

end Midi2.Ump
