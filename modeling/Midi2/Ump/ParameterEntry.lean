import Midi2.Ump.ParameterSelection
import Midi2.Ump.Programs
import Midi2.Ump.Undisturbed

/-!
# Entering parameters

What a MIDI 1.0 stream does to parameters, as its receiver sees it and as `ump_to_midi2` records it.
The receiver uses a half of a value at once, `ump_to_midi2` waits for both. In between a half is
`pending`. The record has what the receiver has selected, as far as it has not been forgotten
(`Shows`).

A stream is in order if values come in two halves, for numbers that have not been forgotten
(`Orderly`), and if no channel goes back from one kind of parameters to the parameter of the other
kind that it set last (`InTurn`).
-/

namespace Midi2.Ump

open Adt ToMidi2

/-- A controller without a function for parameters leaves the receiver as it is. -/
theorem ParameterReceiver.controlChange_id (r : ParameterReceiver) (g c value : Nat)
    {controller : Nat} (h : ∀ x ∈ ToMidi1.parameterControls, Control.ofNat? controller ≠ some x) :
    r.controlChange g c controller value = r := by
  rw [controlChange, Selections.controlChange]
  cases hc : Control.ofNat? controller with
  | none => rfl
  | some x =>
      have hx := fun hmem => h x hmem hc
      cases x with
      | bankSelect | bankSelectLsb | resetAllControllers =>
          show { r with selections := Function.update r.selections (g, c) _ } = r
          exact congrArg (fun s => { r with selections := s }) (Function.update_eq_self _ _)
      | _ => exact absurd (by decide) hx

/-! ## The stream of the sender -/

/-- The control changes that a channel's parameters depend on. -/
def Control.concernsParameters : Control → Bool
  | bankSelect | bankSelectLsb => false
  | _ => true

/-- The upper half of a value of which the lower half has not come yet. -/
def History.pending (h : History) : Option Nat :=
  match h.last Control.concernsParameters with
  | some (.dataEntryMsb, value) => some value
  | _ => none

theorem History.pending_concat (h : History) (c : Control) (value : Nat) :
    (h ++ [(c, value)]).pending =
      match c with
      | .dataEntryMsb => some value
      | .bankSelect | .bankSelectLsb => h.pending
      | _ => none := by
  rw [pending, last_concat]
  cases c <;> rfl

/-- The parameter of which a packet completes the value. -/
def Packet.completes (s : Selections) (p : Packet) : Option Parameter :=
  match p.controlChange? with
  | some (k, .dataEntryLsb, _) => s.parameter k.1 k.2
  | _ => none

/-- A receiver that puts out the parameters whose values are completed. -/
def entries : Machine Packet Parameter ParameterReceiver where
  step r p := (observe receiveParameters r p, (p.completes r.selections).toList)

/-- The receiver of a stream. -/
def parametersAfter (ps : List Packet) : ParameterReceiver :=
  (entries.run {} ps).1

/-- The parameters that a stream sets. -/
def entered (ps : List Packet) : List Parameter :=
  (entries.run {} ps).2

theorem parametersAfter_concat (ps : List Packet) (p : Packet) :
    parametersAfter (ps ++ [p]) = receiveParameters p.message.call (parametersAfter ps) := by
  rw [parametersAfter, Machine.run_append, Machine.run_singleton]
  rfl

theorem entered_concat (ps : List Packet) (p : Packet) :
    entered (ps ++ [p]) =
      entered ps ++ (p.completes (parametersAfter ps).selections).toList := by
  rw [entered, Machine.run_append, Machine.run_singleton]
  rfl

theorem receive_parameters (ps : List Packet) :
    receive receiveParameters {} (ps.flatMap Packet.words) = parametersAfter ps := by
  rw [receive_words]
  induction ps using List.reverseRecOn with
  | nil => rfl
  | append_singleton ps p ih =>
      rw [List.foldl_append, ih, parametersAfter_concat]
      rfl

/-- The parameter that is selected on a channel. -/
def selectedOn (ps : List Packet) (k : Channel) : Option Parameter :=
  (parametersAfter ps).selections.parameter k.1 k.2

/-- What a channel may receive next: the lower half of a value after the upper half, and then only,
and the upper half only for a number that has not been forgotten by reset-all-controllers or the
null function since it was selected. -/
structure InOrder (ps : List Packet) (k : Channel) (c : Control) : Prop where
  lower : c.concernsParameters = true → (c = .dataEntryLsb ↔ (history k ps).pending.isSome)
  upper : c = .dataEntryMsb → (selectedOn ps k).isSome → (record (history k ps)).Numbered

instance (c : ParameterNumber) : Decidable c.Numbered :=
  inferInstanceAs (Decidable (_ ∧ _))

instance (ps : List Packet) (k : Channel) (c : Control) : Decidable (InOrder ps k c) :=
  decidable_of_iff ((c.concernsParameters = true →
      (c = .dataEntryLsb ↔ (history k ps).pending.isSome)) ∧
    (c = .dataEntryMsb → (selectedOn ps k).isSome → (record (history k ps)).Numbered))
    ⟨fun h => ⟨h.1, h.2⟩, fun h => ⟨h.lower, h.upper⟩⟩

def Orderly (pre : List Packet) (p : Packet) : Prop :=
  ∀ x ∈ p.controlChange?, InOrder pre x.1 x.2.1

instance (pre : List Packet) (p : Packet) : Decidable (Orderly pre p) :=
  inferInstanceAs (Decidable (∀ x ∈ _, _))

/-- A parameter that is the last one of its kind that was set on its channel is the last one of any
kind. -/
def InTurn (qs : List Parameter) (q : Parameter) : Prop :=
  lastOfKind qs q.address q.isRpn = some q → lastOn qs q.address = some q

instance (qs : List Parameter) (q : Parameter) : Decidable (InTurn qs q) :=
  inferInstanceAs (Decidable (_ → _))

/-! ### What a control change does -/

theorem receive_of_none {p : Packet} (h : p.controlChange? = none) (r : ParameterReceiver) :
    receiveParameters p.message.call r = r := by
  by_cases hcc : p.message.call.callback = .m1cvm .cc
  · rw [controlChange_eq_cc hcc, Option.map_eq_none_iff] at h
    rw [Message.call_eq hcc Callback.noConfusion]
    exact r.controlChange_id _ _ _ (by rw [h]; decide)
  · rw [receiveParameters]
    split
    case h_1 heq => exact absurd heq hcc
    case h_2 => rfl

theorem receive_of_some {p : Packet} {k : Channel} {c : Control} {value : Nat}
    (h : p.controlChange? = some (k, c, value)) (r : ParameterReceiver) :
    receiveParameters p.message.call r = r.controlChange k.1 k.2 c.toNat value := by
  obtain ⟨hcc, hc, rfl, rfl⟩ := controlChange_eq_some h
  rw [Message.call_eq hcc Callback.noConfusion]
  simp only [receiveParameters, ParameterReceiver.controlChange, Selections.controlChange, hc,
    Control.ofNat_toNat]

/-- The record of a channel has what is selected on it, as far as it has not been forgotten. -/
structure Shows (c : ParameterNumber) (x : Selection) : Prop where
  msb : c.pnMsbValid = true → x.isRpn = c.pnIsRpn ∧ x.msb = some c.pnMsb
  lsb : c.pnLsbValid = true → x.isRpn = c.pnIsRpn ∧ x.lsb = some c.pnLsb

theorem Shows.receive {c : ParameterNumber} {x : Selection} (h : Shows c x)
    (e : Control × Nat) : Shows (c.receive e) (x.select e.1 e.2) := by
  obtain ⟨control, value⟩ := e
  have hreset (y : Selection) : Shows c.reset y :=
    ⟨fun hfalse => absurd hfalse Bool.false_ne_true, fun hfalse => absurd hfalse Bool.false_ne_true⟩
  cases control with
  | nrpnMsb | rpnMsb => exact ⟨fun _ => ⟨rfl, rfl⟩, fun hv => ⟨rfl, (h.lsb hv).2⟩⟩
  | nrpnLsb => exact ⟨fun hv => ⟨rfl, (h.msb hv).2⟩, fun _ => ⟨rfl, rfl⟩⟩
  | rpnLsb =>
      simp only [ParameterNumber.receive]
      split
      case isTrue => exact hreset _
      case isFalse => exact ⟨fun hv => ⟨rfl, (h.msb hv).2⟩, fun _ => ⟨rfl, rfl⟩⟩
  | resetAllControllers => exact hreset _
  | dataEntryMsb | dataEntryLsb | bankSelect | bankSelectLsb => exact ⟨h.msb, h.lsb⟩

theorem history_concat {p : Packet} {k : Channel} {e : Control × Nat}
    (h : p.controlChange? = some (k, e)) (ps : List Packet) (k' : Channel) :
    history k' (ps ++ [p]) = if k = k' then history k' ps ++ [e] else history k' ps := by
  rw [history_append, history_singleton, controlChangeOn_eq h]
  split
  case isTrue => rfl
  case isFalse => exact List.append_nil _

theorem history_concat_none {p : Packet} (h : p.controlChange? = none) (ps : List Packet)
    (k : Channel) : history k (ps ++ [p]) = history k ps := by
  rw [history_append, history_singleton, Packet.controlChangeOn, h]
  exact List.append_nil _

theorem selections_concat {p : Packet} {k : Channel} {c : Control} {value : Nat}
    (h : p.controlChange? = some (k, c, value)) (ps : List Packet) :
    (parametersAfter (ps ++ [p])).selections =
      Function.update (parametersAfter ps).selections k
        (((parametersAfter ps).selections k).select c value) := by
  rw [parametersAfter_concat, receive_of_some h, ParameterReceiver.selections_controlChange,
    Selections.controlChange_toNat]

theorem shows_record (ps : List Packet) (k : Channel) :
    Shows (record (history k ps)) ((parametersAfter ps).selections k) := by
  induction ps using List.reverseRecOn with
  | nil =>
      exact ⟨fun hfalse => absurd hfalse Bool.false_ne_true,
        fun hfalse => absurd hfalse Bool.false_ne_true⟩
  | append_singleton ps p ih =>
      cases hp : p.controlChange? with
      | none =>
          rw [history_concat_none hp, parametersAfter_concat, receive_of_none hp]
          exact ih
      | some x =>
          obtain ⟨k', c, value⟩ := x
          rw [history_concat hp, selections_concat hp]
          split
          case isTrue heq =>
            subst heq
            rw [record_concat, Function.update_self]
            exact ih.receive (c, value)
          case isFalse hne =>
            rw [Function.update_of_ne (Ne.symm hne)]
            exact ih

/-- A number that has not been forgotten is that of the selected parameter. -/
theorem selectedOn_of_numbered {ps : List Packet} {k : Channel}
    (h : (record (history k ps)).Numbered) :
    selectedOn ps k = some ⟨k.1, k.2, (record (history k ps)).pnIsRpn,
      (record (history k ps)).pnMsb, (record (history k ps)).pnLsb⟩ := by
  obtain ⟨hmsb, hlsb⟩ := shows_record ps k
  obtain ⟨hkind, hbank⟩ := hmsb h.1
  have hindex := (hlsb h.2).2
  refine (Selections.parameter_eq_some_iff _).2 ?_
  show (parametersAfter ps).selections k = _
  rw [← hkind, ← hbank, ← hindex]

theorem record_of_pending {h : History} {msb : Nat} (hp : h.pending = some msb) :
    (record h).valueMsbValid = true ∧ (record h).valueMsb = msb := by
  induction h using List.reverseRecOn with
  | nil => cases hp
  | append_singleton h e ih =>
      obtain ⟨c, value⟩ := e
      rw [History.pending_concat] at hp
      rw [record_concat]
      cases c with
      | dataEntryMsb => exact ⟨rfl, Option.some.inj hp⟩
      | bankSelect | bankSelectLsb => exact ih hp
      | _ => cases hp

theorem address_of_selectedOn {ps : List Packet} {k : Channel} {q : Parameter}
    (h : selectedOn ps k = some q) : q.address = k := by
  unfold selectedOn Selections.parameter at h
  split at h
  case h_1 =>
    obtain rfl := Option.some.inj h
    rfl
  case h_2 => cases h

end Midi2.Ump
