import Midi2.Ump.Receiver
import Midi2.Ump.ToMidi1

/-!
# Parameters through `to_midi1`

A MIDI 1.0 receiver has one parameter selected on each channel, registered or assignable,
which control changes 98 to 101 select and data entries change. The translator has a cache
of what it selected last, but by channel *and kind*, and it does not look at the control
changes that pass through it. So the cache can be stale: a parameter is still in it after
another one, of the other kind or chosen by a control change, has been selected.

`sets_parameters` says exactly when the translation works: every change of a parameter
arrives if and only if the cache is never stale when it is used.
-/

namespace Midi2.Ump

open Adt

/-! ## The receiver -/

/-- What control changes 98 to 101 have selected on a channel. -/
structure Selection where
  isRpn : Bool := false
  msb : Option Nat := none
  lsb : Option Nat := none
  deriving DecidableEq

/-- A control change on the channel. -/
def Selection.select (s : Selection) (c : Control) (value : Nat) : Selection :=
  match c with
  | .rpnMsb => { s with isRpn := true, msb := some value }
  | .rpnLsb => { s with isRpn := true, lsb := some value }
  | .nrpnMsb => { s with isRpn := false, msb := some value }
  | .nrpnLsb => { s with isRpn := false, lsb := some value }
  | _ => s

/-- The selections of all channels, by group and channel. -/
abbrev Selections := Nat × Nat → Selection

def Selections.controlChange (s : Selections) (group channel controller value : Nat) :
    Selections :=
  match Control.ofNat? controller with
  | some c => Function.update s (group, channel) ((s (group, channel)).select c value)
  | none => s

/-- A parameter is selected by its whole number. -/
def Selections.selectNumber (s : Selections) (group channel : Nat) (isRpn : Bool)
    (bank index : Nat) : Selections :=
  Function.update s (group, channel) ⟨isRpn, some bank, some index⟩

/-- A registered or assignable parameter of a channel. -/
structure Parameter where
  group : Nat
  channel : Nat
  isRpn : Bool
  bank : Nat
  index : Nat
  deriving DecidableEq

/-- The selected parameter of a channel, once both halves of its number have been received. -/
def Selections.parameter (s : Selections) (group channel : Nat) : Option Parameter :=
  match (s (group, channel)).msb, (s (group, channel)).lsb with
  | some bank, some index => some ⟨group, channel, (s (group, channel)).isRpn, bank, index⟩
  | _, _ => none

/-- A MIDI 1.0 receiver of parameters: its selections, the values of fourteen bits that
parameters have, and the parameters that data entries were applied to so far. -/
structure ParameterReceiver where
  selections : Selections := fun _ => {}
  values : Parameter → Nat := fun _ => 0
  applied : List Parameter := []

namespace ParameterReceiver

/-- A data entry, which changes the value by `f`. -/
def apply (r : ParameterReceiver) (group channel : Nat) (f : Nat → Nat) : ParameterReceiver :=
  match r.selections.parameter group channel with
  | some p =>
      { r with values := Function.update r.values p (f (r.values p)), applied := r.applied ++ [p] }
  | none => r

def controlChange (r : ParameterReceiver) (group channel controller value : Nat) :
    ParameterReceiver :=
  let r := { r with selections := r.selections.controlChange group channel controller value }
  match Control.ofNat? controller with
  | some .dataEntryMsb => r.apply group channel fun v => value * 2 ^ 7 + v % 2 ^ 7
  | some .dataEntryLsb => r.apply group channel fun v => v / 2 ^ 7 * 2 ^ 7 + value
  | _ => r

end ParameterReceiver

/-- The receiver at the output of the translator. -/
def receiveParameters (c : Call) (r : ParameterReceiver) : ParameterReceiver :=
  match c.callback with
  | .m1cvm .cc =>
      r.controlChange (c.message.get .group) (c.message.get .channel)
        (c.message.get M1cvm.controller) (c.message.get M1cvm.value)
  | _ => r

/-- The selections that the messages at the input make: those of the controller messages,
and those of control changes of either protocol, which the translation passes on. -/
def selectParameters (c : Call) (s : Selections) : Selections :=
  let group := c.message.get .group
  let channel := c.message.get .channel
  let select (isRpn : Bool) := s.selectNumber group channel isRpn (c.message.get M2cvm.bank)
    (c.message.get M2cvm.index)
  match c.callback with
  | .m1cvm .cc =>
      s.controlChange group channel (c.message.get M1cvm.controller) (c.message.get M1cvm.value)
  | .m2cvm .cc =>
      s.controlChange group channel (c.message.get M2cvm.controller)
        (mcmScale 32 7 (c.message.get M2cvm.value))
  | .m2cvm .rpn => select true
  | .m2cvm .nrpn => select false
  | _ => s

/-! ### Lemmas about the receiver -/

theorem Selections.controlChange_toNat (s : Selections) (group channel : Nat) (c : Control)
    (value : Nat) : s.controlChange group channel c.toNat value =
      Function.update s (group, channel) ((s (group, channel)).select c value) := by
  rw [controlChange, Control.ofNat_toNat]

/-- Control changes that select nothing. -/
theorem Selections.controlChange_id (s : Selections) (group channel value : Nat) {c : Control}
    (hc : ∀ x : Selection, x.select c value = x) :
    s.controlChange group channel c.toNat value = s := by
  rw [controlChange_toNat, hc, Function.update_eq_self]

/-- The two halves of a number select the parameter. -/
theorem Selections.controlChange_number (s : Selections) (group channel bank index : Nat)
    (isRpn : Bool) : (s.controlChange group channel
      (if isRpn then Control.rpnMsb else .nrpnMsb).toNat bank).controlChange group channel
        (if isRpn then Control.rpnLsb else .nrpnLsb).toNat index =
      s.selectNumber group channel isRpn bank index := by
  rw [controlChange_toNat, controlChange_toNat, Function.update_self, Function.update_idem,
    selectNumber]
  cases isRpn <;> rfl

/-- A parameter is the selected one if its number and kind are. -/
theorem Selections.parameter_eq_some_iff (s : Selections) {group channel : Nat} {isRpn : Bool}
    {bank index : Nat} :
    s.parameter group channel = some ⟨group, channel, isRpn, bank, index⟩ ↔
      s (group, channel) = ⟨isRpn, some bank, some index⟩ := by
  unfold parameter
  obtain ⟨kind, msb, lsb⟩ := s (group, channel)
  cases msb <;> cases lsb <;> simp

namespace ParameterReceiver

@[simp] theorem selections_apply (r : ParameterReceiver) (group channel : Nat) (f : Nat → Nat) :
    (r.apply group channel f).selections = r.selections := by
  unfold apply
  split <;> rfl

@[simp] theorem selections_controlChange (r : ParameterReceiver)
    (group channel controller value : Nat) :
    (r.controlChange group channel controller value).selections =
      r.selections.controlChange group channel controller value := by
  simp only [controlChange]
  split <;> simp

theorem controlChange_dataEntryMsb (r : ParameterReceiver) (group channel value : Nat) :
    r.controlChange group channel Control.dataEntryMsb.toNat value =
      r.apply group channel fun v => value * 2 ^ 7 + v % 2 ^ 7 := by
  rw [controlChange, r.selections.controlChange_id group channel value fun _ => rfl]
  rfl

theorem controlChange_dataEntryLsb (r : ParameterReceiver) (group channel value : Nat) :
    r.controlChange group channel Control.dataEntryLsb.toNat value =
      r.apply group channel fun v => v / 2 ^ 7 * 2 ^ 7 + value := by
  rw [controlChange, r.selections.controlChange_id group channel value fun _ => rfl]
  rfl

/-- Both halves of a value. -/
def dataEntry (r : ParameterReceiver) (group channel v : Nat) : ParameterReceiver :=
  (r.controlChange group channel Control.dataEntryMsb.toNat (hi7 v)).controlChange group channel
    Control.dataEntryLsb.toNat (lo7 v)

/-- Both halves of a parameter number. -/
def selectNumber (r : ParameterReceiver) (group channel : Nat) (isRpn : Bool)
    (bank index : Nat) : ParameterReceiver :=
  (r.controlChange group channel (if isRpn then Control.rpnMsb else .nrpnMsb).toNat
    bank).controlChange group channel (if isRpn then Control.rpnLsb else .nrpnLsb).toNat index

/-- A value sets the parameter that is selected. -/
theorem dataEntry_some (r : ParameterReceiver) {group channel v : Nat} (hv : v < 2 ^ 14)
    {p : Parameter} (hp : r.selections.parameter group channel = some p) :
    r.dataEntry group channel v =
      { r with values := Function.update r.values p v, applied := r.applied ++ [p, p] } := by
  have hvalue : (hi7 v * 2 ^ 7 + r.values p % 2 ^ 7) / 2 ^ 7 * 2 ^ 7 + lo7 v = v := by
    have := hi7_lo7 hv
    omega
  rw [dataEntry, controlChange_dataEntryLsb, controlChange_dataEntryMsb, apply, selections_apply,
    hp]
  simp only [apply, hp, Function.update_self, Function.update_idem, hvalue, List.append_assoc,
    List.cons_append, List.nil_append]

/-- Without a parameter that is selected, a value is ignored. -/
theorem dataEntry_none (r : ParameterReceiver) {group channel : Nat} (v : Nat)
    (hp : r.selections.parameter group channel = none) : r.dataEntry group channel v = r := by
  rw [dataEntry, controlChange_dataEntryLsb, controlChange_dataEntryMsb, apply, selections_apply,
    hp]
  simp only [apply, hp]

/-- A value sets a parameter, and is applied to nothing else, exactly if it is selected. -/
theorem dataEntry_sets_iff (r : ParameterReceiver) {group channel v : Nat} (hv : v < 2 ^ 14)
    (p : Parameter) :
    ((r.dataEntry group channel v).values = Function.update r.values p v ∧
      (r.dataEntry group channel v).applied = r.applied ++ [p, p]) ↔
    r.selections.parameter group channel = some p := by
  cases hq : r.selections.parameter group channel with
  | none =>
      rw [r.dataEntry_none v hq]
      simp
  | some q =>
      rw [r.dataEntry_some hv hq, List.append_cancel_left_eq, Option.some_inj]
      constructor
      · rintro ⟨-, happlied⟩
        exact (List.cons.inj happlied).1
      · rintro rfl
        exact ⟨rfl, rfl⟩

@[simp] theorem selections_dataEntry (r : ParameterReceiver) (group channel v : Nat) :
    (r.dataEntry group channel v).selections = r.selections := by
  rw [dataEntry, controlChange_dataEntryLsb, controlChange_dataEntryMsb, selections_apply,
    selections_apply]

theorem selectNumber_eq (r : ParameterReceiver) (group channel bank index : Nat)
    (isRpn : Bool) : r.selectNumber group channel isRpn bank index =
      { r with selections := r.selections.selectNumber group channel isRpn bank index } := by
  rw [← Selections.controlChange_number]
  cases isRpn <;> rfl

end ParameterReceiver

/-! ## One packet -/

/-- A registered, or an assignable, controller message. -/
def Packet.IsController (p : Packet) (isRpn : Bool) : Prop :=
  p.message.call.callback = .m2cvm (if isRpn then .rpn else .nrpn)

namespace ToMidi1

theorem receive_controlChangeMessage {group channel controller value : Nat}
    (hg : group < 2 ^ 4) (hc : channel < 2 ^ 4) (hk : controller < 2 ^ 7) (hv : value < 2 ^ 7)
    (r : ParameterReceiver) :
    receiveParameters (controlChangeMessage group channel controller value).call r =
      r.controlChange group channel controller value := by
  obtain ⟨hgroup, hchannel, hcontroller, hvalue⟩ := get_controlChangeMessage hg hc hk hv
  rw [(is_controlChangeMessage ..).call, receiveParameters]
  simp only [hgroup, hchannel, hcontroller, hvalue]

/-- What the receiver makes of the messages that are sent for one packet. -/
def received (cache : PnCache) (p : Packet) (r : ParameterReceiver) : ParameterReceiver :=
  (translator.translation.step cache p).2.foldl (observe receiveParameters) r

theorem received_eq (cache : PnCache) (p : Packet) (r : ParameterReceiver) :
    received cache p r = (translator.messages cache p).output.foldl
      (fun r m => receiveParameters m.call r) r :=
  translator.foldl_step receiveParameters cache p r

/-- The cache has the parameter of a controller message, which makes the translator leave
out its number. -/
def Cached (cache : PnCache) (p : Packet) (isRpn : Bool) : Prop :=
  cache.cached (PnCacheKey.make (p.message.get .group) (p.message.get .channel) isRpn).v =
    some (p.message.get M2cvm.bank, p.message.get M2cvm.index)

instance (cache : PnCache) (p : Packet) (isRpn : Bool) : Decidable (Cached cache p isRpn) :=
  inferInstanceAs (Decidable (_ = _))

theorem receive_dataEntryMessages {group channel : Nat} (hg : group < 2 ^ 4)
    (hc : channel < 2 ^ 4) (isRpn : Bool) (value : Nat) (r : ParameterReceiver) :
    (dataEntryMessages (.make group channel isRpn) value).foldl
      (fun r m => receiveParameters m.call r) r =
        r.dataEntry group channel (mcmScale 32 14 value) := by
  obtain ⟨hgroup, hchannel, -⟩ := PnCacheKey.parts_make hg hc isRpn
  simp only [dataEntryMessages, List.foldl_cons, List.foldl_nil, hgroup, hchannel]
  rw [receive_controlChangeMessage hg hc (by decide) (hi7_lt _),
    receive_controlChangeMessage hg hc (by decide) (lo7_lt _), ParameterReceiver.dataEntry]

theorem receive_selectMessages {group channel bank index : Nat} (hg : group < 2 ^ 4)
    (hc : channel < 2 ^ 4) (hb : bank < 2 ^ 7) (hi : index < 2 ^ 7) (isRpn : Bool)
    (r : ParameterReceiver) :
    (selectMessages (.make group channel isRpn) (bank, index)).foldl
      (fun r m => receiveParameters m.call r) r =
        r.selectNumber group channel isRpn bank index := by
  obtain ⟨hgroup, hchannel, hkind⟩ := PnCacheKey.parts_make hg hc isRpn
  simp only [selectMessages, sendControllerNumber, Context.output_push, List.nil_append,
    List.singleton_append, List.foldl_cons, List.foldl_nil, hgroup, hchannel, hkind]
  rw [receive_controlChangeMessage hg hc (Control.toNat_lt _) hb,
    receive_controlChangeMessage hg hc (Control.toNat_lt _) hi, ParameterReceiver.selectNumber]

/-- A controller message is received as a value, after the number unless it is left out. -/
theorem received_controller {p : Packet} {isRpn : Bool} (h : p.IsController isRpn)
    (cache : PnCache) (r : ParameterReceiver) :
    received cache p r =
      (if Cached cache p isRpn then r
        else r.selectNumber (p.message.get .group) (p.message.get .channel) isRpn
          (p.message.get M2cvm.bank) (p.message.get M2cvm.index)).dataEntry (p.message.get .group)
        (p.message.get .channel) (mcmScale 32 14 (p.message.get M2cvm.value)) := by
  have hg := p.message.get_lt .group
  have hc := p.message.get_lt .channel
  have hsent : (translator.messages cache p).output =
      (pnMessage (⟨cache, []⟩ : Context PnCache (List Message))
        (.make (p.message.get .group) (p.message.get .channel) isRpn)
        (p.message.get M2cvm.bank, p.message.get M2cvm.index)
        (p.message.get M2cvm.value)).output := by
    rw [Translator.messages, Message.call_eq h (by cases isRpn <;> decide)]
    cases isRpn <;> rfl
  have hcached : (cache.cached (PnCacheKey.make (p.message.get .group) (p.message.get .channel)
      isRpn).v).any (· == (p.message.get M2cvm.bank, p.message.get M2cvm.index)) = true ↔
      Cached cache p isRpn := by
    rw [Cached, Option.any_eq_true]
    simp
  rw [received_eq, hsent, pnMessage_output, if_congr hcached rfl rfl, List.foldl_append,
    receive_dataEntryMessages hg hc]
  split
  case isTrue => rw [List.foldl_nil]
  case isFalse => rw [receive_selectMessages hg hc (p.message.get_lt _) (p.message.get_lt _)]

/-- The parameter that a controller message is about. -/
def parameterOf (p : Packet) (isRpn : Bool) : Parameter where
  group := p.message.get .group
  channel := p.message.get .channel
  isRpn := isRpn
  bank := p.message.get M2cvm.bank
  index := p.message.get M2cvm.index

/-- The change from `r` to `r'` is the one that the message asks for: a controller message
sets its parameter and no other, and both data entries have been applied to it. -/
def Sets (r r' : ParameterReceiver) (p : Packet) : Prop :=
  ∀ isRpn, p.IsController isRpn →
    r'.values = Function.update r.values (parameterOf p isRpn)
      (mcmScale 32 14 (p.message.get M2cvm.value)) ∧
    r'.applied = r.applied ++ [parameterOf p isRpn, parameterOf p isRpn]

/-- A controller message whose number is left out is about the parameter that has been
selected last. -/
def NotStale (cache : PnCache) (s : Selections) (p : Packet) : Prop :=
  ∀ isRpn, p.IsController isRpn → Cached cache p isRpn →
    s.parameter (p.message.get .group) (p.message.get .channel) = some (parameterOf p isRpn)

theorem sets_received_iff (cache : PnCache) (p : Packet) (r : ParameterReceiver) :
    Sets r (received cache p r) p ↔ NotStale cache r.selections p := by
  refine forall_congr' fun isRpn => forall_congr' fun h => ?_
  have hvalue : mcmScale 32 14 (p.message.get M2cvm.value) < 2 ^ 14 :=
    mcmScale_down_lt (by decide) (p.message.get_lt M2cvm.value)
  rw [received_controller h]
  by_cases hcached : Cached cache p isRpn
  · rw [if_pos hcached, forall_prop_of_true hcached]
    exact r.dataEntry_sets_iff hvalue _
  · rw [if_neg hcached, ParameterReceiver.selectNumber_eq]
    refine iff_of_true ?_ fun h => absurd h hcached
    refine (ParameterReceiver.dataEntry_sets_iff _ hvalue (parameterOf p isRpn)).2 ?_
    exact (Selections.parameter_eq_some_iff _).2 (Function.update_self ..)

/-- Channel voice messages that are no control changes do not matter. -/
theorem receive_other {s : Mt.M1cvm} {m : Message} (h : M1cvm.Is s m) (hs : s ≠ .cc)
    (r : ParameterReceiver) : receiveParameters m.call r = r := by
  rw [h.call]
  cases s <;> first | rfl | contradiction

theorem selections_other {cache : PnCache} {p : Packet} {r : ParameterReceiver} {s : Mt.M1cvm}
    {m : Message} (hsent : (translator.messages cache p).output = [m]) (h : M1cvm.Is s m)
    (hs : s ≠ .cc) : (received cache p r).selections = r.selections := by
  rw [received_eq, hsent, List.foldl_cons, List.foldl_nil, receive_other h hs]

/-- A bank selection selects no parameter. -/
theorem selections_programChange (cache : PnCache) (m : Message) (r : ParameterReceiver) :
    ((programChange (⟨cache, []⟩ : Context PnCache (List Message)) m).output.foldl
      (fun r m => receiveParameters m.call r) r).selections = r.selections := by
  have hg := m.get_lt .group
  have hc := m.get_lt .channel
  have hprogram := (((M1cvm.is_init .programChange).set (f := .group) (m.get .group)).set
    (f := .channel) (m.get .channel)).set (f := M1cvm.program) (m.get M2cvm.program)
  simp only [programChange]
  split
  case isTrue =>
    simp only [Context.output_push, List.nil_append, List.cons_append, List.foldl_cons,
      List.foldl_nil, receive_other hprogram (by decide)]
    rw [receive_controlChangeMessage hg hc (by decide) (m.get_lt M2cvm.bankLsb),
      receive_controlChangeMessage hg hc (by decide) (m.get_lt M2cvm.bankMsb),
      ParameterReceiver.selections_controlChange, ParameterReceiver.selections_controlChange,
      Selections.controlChange_id _ _ _ _ fun _ => rfl,
      Selections.controlChange_id _ _ _ _ fun _ => rfl]
  case isFalse =>
    simp only [Context.output_push, List.nil_append, List.foldl_cons, List.foldl_nil,
      receive_other hprogram (by decide)]

/-- Only the messages of parameters may be left out. -/
theorem selections_controller {cache : PnCache} {p : Packet} {r : ParameterReceiver}
    {isRpn : Bool} (h : p.IsController isRpn) (hstale : NotStale cache r.selections p) :
    (received cache p r).selections =
      r.selections.selectNumber (p.message.get .group) (p.message.get .channel) isRpn
        (p.message.get M2cvm.bank) (p.message.get M2cvm.index) := by
  rw [received_controller h, ParameterReceiver.selections_dataEntry]
  split
  case isTrue hcached =>
    have hselected := (Selections.parameter_eq_some_iff _).1 (hstale isRpn h hcached)
    rw [Selections.selectNumber, ← hselected, Function.update_eq_self]
  case isFalse => rw [ParameterReceiver.selectNumber_eq]

/-- As long as the cache is not stale, the receiver has selected what the input selects. -/
theorem selections_received {cache : PnCache} {p : Packet} {r : ParameterReceiver}
    (h : NotStale cache r.selections p) :
    (received cache p r).selections = selectParameters p.message.call r.selections := by
  cases hcall : p.message.call with
  | mk f m =>
    have hm : f ≠ .utility .noop → m = p.message := fun hf => by
      have := Message.call_message (m := p.message) (by rw [hcall]; exact hf)
      rwa [hcall] at this
    have hsent : (translator.messages cache p).output =
        (call ⟨f, m⟩ (⟨cache, []⟩ : Context PnCache (List Message))).output := by
      rw [Translator.messages, hcall]
      rfl
    cases f with
    | utility | data128 | stream | flexData | flexText | unknown =>
        rw [received_eq, hsent]
        rfl
    | system | data64 =>
        obtain rfl := hm fun hf => by cases hf
        rw [received_eq, hsent]
        simp only [call, Context.output_push, List.nil_append, List.foldl_cons, List.foldl_nil,
          hcall]
        rfl
    | m1cvm s =>
        obtain rfl := hm fun hf => by cases hf
        rw [received_eq, hsent]
        simp only [call, Context.output_push, List.nil_append, List.foldl_cons, List.foldl_nil,
          hcall]
        cases s with
        | cc => exact ParameterReceiver.selections_controlChange ..
        | _ => rfl
    | m2cvm s =>
        obtain rfl := hm fun hf => by cases hf
        cases s with
        | rpn =>
            exact @selections_controller _ _ _ true (by rw [Packet.IsController, hcall]; rfl) h
        | nrpn =>
            exact @selections_controller _ _ _ false (by rw [Packet.IsController, hcall]; rfl) h
        | cc =>
            have hscale : mcmScale 32 7 (p.message.get M2cvm.value) < 2 ^ 7 :=
              mcmScale_down_lt (by decide) (p.message.get_lt M2cvm.value)
            rw [received_eq, hsent]
            simp only [call, m2cvm, controlChange, Context.output_push, List.nil_append,
              List.foldl_cons, List.foldl_nil]
            rw [receive_controlChangeMessage (p.message.get_lt _) (p.message.get_lt _)
              (p.message.get_lt _) hscale]
            exact ParameterReceiver.selections_controlChange ..
        | programChange =>
            rw [received_eq, hsent]
            exact selections_programChange cache p.message r
        | noteOff | noteOn => exact selections_other hsent (is_noteMessage _ p.message) (by decide)
        | polyPressure | pitchBend =>
            exact selections_other hsent (((((M1cvm.is_init _).set _).set _).set _).set _)
              (by decide)
        | channelPressure =>
            exact selections_other hsent ((((M1cvm.is_init _).set _).set _).set _) (by decide)
        | rpnPerNote | nrpnPerNote | rpnRelative | nrpnRelative | perNoteManage
        | pitchBendPerNote =>
            rw [received_eq, hsent]
            rfl

/-- Every change of a parameter arrives if and only if the cache is never stale. -/
theorem sets_iff (ps : List Packet) (cache : PnCache) (r : ParameterReceiver) :
    Machine.AtEachStep (fun pre p =>
      Sets ((translator.translation.run cache pre).2.foldl (observe receiveParameters) r)
        ((translator.translation.run cache (pre ++ [p])).2.foldl (observe receiveParameters) r)
        p) ps ↔
    Machine.AtEachStep (fun pre p =>
      NotStale (translator.translation.run cache pre).1
        (pre.foldl (observe selectParameters) r.selections) p) ps := by
  induction ps generalizing cache r with
  | nil => exact iff_of_true (Machine.atEachStep_nil _) (Machine.atEachStep_nil _)
  | cons p ps ih =>
      have hhead := sets_received_iff cache p r
      rw [received] at hhead
      rw [Machine.atEachStep_cons, Machine.atEachStep_cons]
      simp only [List.nil_append, Machine.run_singleton, Machine.run_nil, List.foldl_nil]
      rw [hhead]
      -- The rest starts from a receiver that still has selected what the input selects.
      refine and_congr_right fun hfresh => ?_
      have hrest := ih (translator.translation.step cache p).1 (received cache p r)
      rw [selections_received hfresh] at hrest
      simp only [List.cons_append, Machine.run_cons, List.foldl_append, List.foldl_cons]
      exact hrest

/-! ## Whole runs -/

/-- The receiver at the output, after some packets. -/
def receiverAfter (ps : List Packet) : ParameterReceiver :=
  receive receiveParameters {} (translator.run {} (ps.flatMap Packet.words)).2

/-- The cache of the translator. -/
def cacheAfter (ps : List Packet) : PnCache :=
  (translator.run {} (ps.flatMap Packet.words)).1.state

/-- What the input has selected. -/
def selectionsAfter (ps : List Packet) : Selections :=
  receive selectParameters (fun _ => {}) (ps.flatMap Packet.words)

/-- Every controller message sets its parameter, and none other, if and only if the cache is
never stale: whenever the number of a parameter is left out because the cache has it, this
parameter is the one that was selected last on its channel. -/
theorem sets_parameters (ps : List Packet) :
    Machine.AtEachStep (fun pre p => Sets (receiverAfter pre) (receiverAfter (pre ++ [p])) p) ps ↔
    Machine.AtEachStep (fun pre p => NotStale (cacheAfter pre) (selectionsAfter pre) p) ps := by
  simp only [receiverAfter, cacheAfter, selectionsAfter, Translator.receive_run,
    (translator.run_words _ _).1, receive_words]
  exact sets_iff ps {} {}

/-- Registered parameter (0, 5), assignable parameter (1, 7), and (0, 5) again, all on the
first channel of the first group. -/
def alternating : List Packet :=
  [{ message := ⟨[0x40200005, 0x00000000]⟩ }, { message := ⟨[0x40300107, 0x00000000]⟩ },
    { message := ⟨[0x40200005, 0xFFFFFFFF]⟩ }]

/-- The last of these changes the assignable parameter. -/
theorem alternating_misdirected : ¬∀ ps : List Packet,
    Machine.AtEachStep (fun pre p => Sets (receiverAfter pre) (receiverAfter (pre ++ [p])) p)
      ps := by
  intro h
  have hsets := h alternating (alternating.take 2) _ (List.prefix_refl _) true rfl
  have happlied := hsets.2
  revert happlied
  decide +kernel

end ToMidi1

end Midi2.Ump
