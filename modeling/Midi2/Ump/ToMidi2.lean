import Midi2.Ump.ChannelVoice
import Midi2.Ump.Translator
import Midi2.Ump.Utils

/-!
# From MIDI 1.0 to MIDI 2.0 (`ump/ump_to_midi2.hpp`, `ump_to_midi2.cpp`)

`ump_to_midi2` translates the MIDI 1.0 channel voice messages and passes on everything else.
Control changes that select a bank or a parameter send nothing; they are kept for each group
and channel until a program change or the end of a data entry, which are sent together with
what was selected.
-/

namespace Midi2.Ump.ToMidi2

open Adt

/-! ## The context -/

/-- `context::bank`. -/
structure Bank where
  msbValid : Bool := false
  msb : Nat := 0
  lsbValid : Bool := false
  lsb : Nat := 0
  deriving DecidableEq

namespace Bank

def setMsb (b : Bank) (value : Nat) : Bank :=
  { b with msb := value, msbValid := true }

def setLsb (b : Bank) (value : Nat) : Bank :=
  { b with lsb := value, lsbValid := true }

def isValid (b : Bank) : Bool :=
  b.lsbValid && b.msbValid

def reset (b : Bank) : Bank :=
  { b with msbValid := false, msb := 0, lsbValid := false, lsb := 0 }

end Bank

/-- `context::parameter_number`: the status of registered or assignable parameters. -/
structure ParameterNumber where
  pnIsRpn : Bool := false
  pnMsbValid : Bool := false
  pnMsb : Nat := 0
  pnLsbValid : Bool := false
  pnLsb : Nat := 0
  valueMsbValid : Bool := false
  valueMsb : Nat := 0
  deriving DecidableEq

namespace ParameterNumber

def setNumberMsb (c : ParameterNumber) (value : Nat) : ParameterNumber :=
  { c with pnMsb := value, pnMsbValid := true }

def setNumberLsb (c : ParameterNumber) (value : Nat) : ParameterNumber :=
  { c with pnLsb := value, pnLsbValid := true }

/-- The value and the kind of parameter stay. -/
def reset (c : ParameterNumber) : ParameterNumber :=
  { c with pnMsbValid := false, pnMsb := 0, pnLsbValid := false, pnLsb := 0 }

def setValueMsb (c : ParameterNumber) (value : Nat) : ParameterNumber :=
  { c with valueMsb := value, valueMsbValid := true }

end ParameterNumber

/-- `array2d`, by group and channel. -/
abbrev Array2d (α : Type) := Nat → Nat → α

/-- The context without its output. -/
structure State where
  bank : Array2d Bank := fun _ _ => {}
  parameterNumber : Array2d ParameterNumber := fun _ _ => {}
  group : Nat := 0

/-- The constructor. -/
def State.create (group : Nat) : State where
  group := group

/-- An assignment to `table[group][channel]`. -/
def Array2d.set {α : Type} (table : Array2d α) (group channel : Nat) (v : α) : Array2d α :=
  Function.update table group (Function.update (table group) channel v)

variable {ω : Type} [Sink ω]

/-- An assignment to `bank[group][channel]`. -/
def setBank (ctxt : Context State ω) (group channel : Nat) (b : Bank) : Context State ω :=
  ctxt.update fun s => { s with bank := s.bank.set group channel b }

/-- An assignment to `parameter_number[group][channel]`. -/
def setParameterNumber (ctxt : Context State ω) (group channel : Nat) (c : ParameterNumber) :
    Context State ω :=
  ctxt.update fun s => { s with parameterNumber := s.parameterNumber.set group channel c }

/-! ## The handlers of MIDI 1.0 channel voice messages -/

/-- The message that is sent by `note_off` and `note_on`. -/
def noteMessage (s : Mt.M2cvm) (m : Message) : Message :=
  (M2cvm.init s)
    |>.set .group (m.get .group)
    |>.set .channel (m.get .channel)
    |>.set M2cvm.note (m.get M1cvm.note)
    |>.set M2cvm.velocity (mcmScale 7 16 (m.get M1cvm.velocity))

def noteOff (ctxt : Context State ω) (m : Message) : Context State ω :=
  ctxt.push (noteMessage .noteOff m)

def noteOn (ctxt : Context State ω) (m : Message) : Context State ω :=
  ctxt.push (noteMessage .noteOn m)

def polyPressure (ctxt : Context State ω) (m : Message) : Context State ω :=
  ctxt.push <| (M2cvm.init .polyPressure)
    |>.set .group (m.get .group)
    |>.set .channel (m.get .channel)
    |>.set M2cvm.note (m.get M1cvm.note)
    |>.set M2cvm.pressure (mcmScale 7 32 (m.get M1cvm.pressure))

/-- `pn_control_message<T>`, for the status of `T`. -/
def pnControlMessage (s : Mt.M2cvm) (ctxt : Context State ω) (c : ParameterNumber)
    (group channel value : Nat) : Context State ω :=
  ctxt.push <| (M2cvm.init s)
    |>.set .group group
    |>.set .channel channel
    |>.set M2cvm.bank c.pnMsb
    |>.set M2cvm.index c.pnLsb
    |>.set M2cvm.value (mcmScale 14 32 ((c.valueMsb <<< 7) ||| value))

/-- The `default` case of `control_change`. -/
def otherController (ctxt : Context State ω) (group channel controller value : Nat) :
    Context State ω :=
  ctxt.push <| (M2cvm.init .cc)
    |>.set .group group
    |>.set .channel channel
    |>.set M2cvm.controller controller
    |>.set M2cvm.value (mcmScale 7 32 value)

def controlChange (ctxt : Context State ω) (m : Message) : Context State ω :=
  let group := m.get .group
  let channel := m.get .channel
  let controller := m.get M1cvm.controller
  let value := m.get M1cvm.value
  let c := ctxt.state.parameterNumber group channel
  let b := ctxt.state.bank group channel
  let setNumber := setParameterNumber ctxt group channel
  match Control.ofNat? controller with
  | some .bankSelect => setBank ctxt group channel (b.setMsb value)
  | some .bankSelectLsb => setBank ctxt group channel (b.setLsb value)
  | some .nrpnMsb => setNumber ({ c with pnIsRpn := false }.setNumberMsb value)
  | some .nrpnLsb => setNumber { c with pnIsRpn := false, pnLsbValid := true, pnLsb := value }
  | some .rpnMsb => setNumber ({ c with pnIsRpn := true }.setNumberMsb value)
  | some .rpnLsb =>
      -- The number 7FH, 7FH turns data entry off until another number is selected.
      if c.pnIsRpn && c.pnMsbValid && c.pnMsb == 0x7F && value == 0x7F then
        setNumber c.reset
      else
        setNumber ({ c with pnIsRpn := true }.setNumberLsb value)
  | some .dataEntryMsb => setNumber (c.setValueMsb value)
  | some .dataEntryLsb =>
      if c.pnMsbValid && c.pnLsbValid && c.valueMsbValid then
        pnControlMessage (if c.pnIsRpn then .rpn else .nrpn) ctxt c group channel value
      else
        ctxt
  | some .resetAllControllers =>
      otherController (setNumber c.reset) group channel controller value
  | none => otherController ctxt group channel controller value

def programChange (ctxt : Context State ω) (m : Message) : Context State ω :=
  let group := m.get .group
  let channel := m.get .channel
  let out := (M2cvm.init .programChange)
    |>.set .group group
    |>.set .channel channel
    |>.set M2cvm.program (m.get M1cvm.program)
  let b := ctxt.state.bank group channel
  ctxt.push <|
    if b.isValid then
      out
        |>.set M2cvm.bankValid 1
        |>.set M2cvm.bankMsb b.msb
        |>.set M2cvm.bankLsb b.lsb
    else
      out

def channelPressure (ctxt : Context State ω) (m : Message) : Context State ω :=
  ctxt.push <| (M2cvm.init .channelPressure)
    |>.set .group (m.get .group)
    |>.set .channel (m.get .channel)
    |>.set M2cvm.value (mcmScale 7 32 (m.get M1cvm.data))

def pitchBend (ctxt : Context State ω) (m : Message) : Context State ω :=
  let m1value := (m.get M1cvm.msbData <<< 7) ||| m.get M1cvm.lsbData
  ctxt.push <| (M2cvm.init .pitchBend)
    |>.set .group (m.get .group)
    |>.set .channel (m.get .channel)
    |>.set M2cvm.value (mcmScale 14 32 m1value)

/-- `class m1cvm`. -/
def m1cvm (s : Mt.M1cvm) (ctxt : Context State ω) (m : Message) : Context State ω :=
  match s with
  | .noteOff => noteOff ctxt m
  | .noteOn => noteOn ctxt m
  | .polyPressure => polyPressure ctxt m
  | .cc => controlChange ctxt m
  | .programChange => programChange ctxt m
  | .channelPressure => channelPressure ctxt m
  | .pitchBend => pitchBend ctxt m

/-- `to_midi2_config`. -/
def call (c : Call) (ctxt : Context State ω) : Context State ω :=
  match c.callback with
  | .utility .noop | .unknown => ctxt
  | .m1cvm s => m1cvm s ctxt c.message
  | .utility _ | .system _ | .data64 _ | .m2cvm _ | .data128 _ | .stream _ | .flexData _
  | .flexText => ctxt.push c.message

/-- `context::reset()`, for what is kept next to the output. -/
def State.reset (s : State) : State where
  bank group channel := (s.bank group channel).reset
  parameterNumber group channel := (s.parameterNumber group channel).reset
  group := 0

/-- `context::reset()`. -/
def reset (ctxt : Context State (Fifo Word 2)) : Context State (Fifo Word 2) where
  state := ctxt.state.reset
  output := ctxt.output.clear

/-! ## The translator -/

theorem controlChange_rel {ω' : Type} [Sink ω'] {R : ω → ω' → Prop} (hR : Sink.Sim R)
    {a : Context State ω} {b : Context State ω'} (h : a.Rel R b) (m : Message) :
    (controlChange a m).Rel R (controlChange b m) := by
  simp only [controlChange, h.state]
  split
  case h_6 =>
    split
    case isTrue => exact h.update _
    case isFalse => exact h.update _
  case h_8 =>
    split
    case isTrue => exact h.push hR _
    case isFalse => exact h
  case h_9 => exact (h.update _).push hR _
  case h_10 => exact h.push hR _
  all_goals exact h.update _

theorem call_rel {ω' : Type} [Sink ω'] {R : ω → ω' → Prop} (hR : Sink.Sim R)
    {a : Context State ω} {b : Context State ω'} (h : a.Rel R b) (c : Call) :
    (call c a).Rel R (call c b) := by
  obtain ⟨callback, m⟩ := c
  cases callback with
  | utility s => cases s with
      | noop => exact h
      | _ => exact h.push hR m
  | m1cvm s =>
      cases s with
      | cc => exact controlChange_rel hR h m
      | programChange =>
          simp only [call, m1cvm, programChange, h.state]
          exact h.push hR _
      | _ => exact h.push hR _
  | unknown => exact h
  | _ => exact h.push hR m

/-! ### What is sent -/

/-- Nothing, or a MIDI 2.0 channel voice message. -/
def AtMostOne (ms : List Message) : Prop :=
  ms = [] ∨ ∃ s m, ms = [m] ∧ M2cvm.Is s m

theorem is_noteMessage (s : Mt.M2cvm) (m : Message) : M2cvm.Is s (noteMessage s m) :=
  ((((M2cvm.is_init s).set _).set _).set _).set _

/-- A MIDI 1.0 channel voice message makes nothing or one message, and nothing but a program
change makes a program change. -/
theorem output_m1cvm_cases (status : Mt.M1cvm) (s : State) (m : Message) :
    (m1cvm status (⟨s, []⟩ : Context State (List Message)) m).output = [] ∨
    ∃ status' m', (m1cvm status (⟨s, []⟩ : Context State (List Message)) m).output = [m'] ∧
      M2cvm.Is status' m' ∧ (status' = .programChange → status = .programChange) := by
  have hother {status' : Mt.M2cvm} {m' : Message} (h : M2cvm.Is status' m')
      (hne : status' ≠ .programChange) : ∃ status'' m'', [m'] = [m''] ∧ M2cvm.Is status'' m'' ∧
        (status'' = .programChange → status = .programChange) :=
    ⟨status', m', rfl, h, fun heq => absurd heq hne⟩
  cases status with
  | noteOff | noteOn => exact Or.inr (hother (is_noteMessage _ m) (by decide))
  | polyPressure =>
      exact Or.inr <| @hother .polyPressure _
        (((((M2cvm.is_init _).set _).set _).set _).set _) (by decide)
  | channelPressure =>
      exact Or.inr <| @hother .channelPressure _
        ((((M2cvm.is_init _).set _).set _).set _) (by decide)
  | pitchBend =>
      exact Or.inr <| @hother .pitchBend _
        ((((M2cvm.is_init _).set _).set _).set _) (by decide)
  | programChange =>
      refine Or.inr ⟨.programChange, _, rfl, ?_, fun _ => rfl⟩
      split
      case isTrue =>
        exact ((((((M2cvm.is_init _).set _).set _).set _).set _).set _).set _
      case isFalse => exact (((M2cvm.is_init _).set _).set _).set _
  | cc =>
      simp only [m1cvm, controlChange]
      split
      case h_6 => split <;> exact Or.inl rfl
      case h_8 =>
        split
        case isTrue =>
          refine Or.inr <| @hother
            (if (s.parameterNumber (m.get .group) (m.get .channel)).pnIsRpn then .rpn else .nrpn) _
            ((((((M2cvm.is_init _).set _).set _).set _).set _).set _) ?_
          split <;> decide
        case isFalse => exact Or.inl rfl
      case h_9 | h_10 =>
        exact Or.inr <| @hother .cc _
          (((((M2cvm.is_init _).set _).set _).set _).set _) (by decide)
      all_goals exact Or.inl rfl

theorem atMostOne_m1cvm (s : Mt.M1cvm) (state : State) (m : Message) :
    AtMostOne (m1cvm s (⟨state, []⟩ : Context State (List Message)) m).output := by
  rcases output_m1cvm_cases s state m with hnone | ⟨status, m', hone, his, -⟩
  · exact Or.inl hnone
  · exact Or.inr ⟨status, m', hone, his⟩

/-- What is sent for a call: the message itself, or at most one other. -/
theorem call_output (c : Call) (s : State) :
    ((call c (⟨s, []⟩ : Context State (List Message))).output = [c.message] ∧
      c.callback ≠ .utility .noop) ∨
    AtMostOne (call c (⟨s, []⟩ : Context State (List Message))).output := by
  obtain ⟨callback, m⟩ := c
  cases callback with
  | utility s =>
      cases s with
      | noop => exact Or.inr (Or.inl rfl)
      | _ => exact Or.inl ⟨rfl, fun h => by cases h⟩
  | m1cvm kind => exact Or.inr (atMostOne_m1cvm kind s m)
  | unknown => exact Or.inr (Or.inl rfl)
  | _ => exact Or.inl ⟨rfl, Callback.noConfusion⟩

/-- `ump_to_midi2`. -/
def translator : Translator State where
  call := call
  uniform hR c _ _ h := call_rel hR h c
  fits p s := by
    rcases call_output p.message.call s with ⟨hout, hnoop⟩ | hnone | ⟨_, m, hone, hm⟩
    · rw [hout, Message.call_message hnoop, wordsOf, List.flatMap_singleton]
      exact p.whole.length_le
    · rw [hnone]
      exact Nat.zero_le 4
    · rw [hone, wordsOf, List.flatMap_singleton]
      exact hm.whole.length_le
  whole p s := by
    rcases call_output p.message.call s with ⟨hout, hnoop⟩ | hnone | ⟨_, m, hone, hm⟩
    · rw [hout, Message.call_message hnoop]
      exact List.forall_mem_singleton.2 p.whole
    · rw [hnone]
      exact List.forall_mem_nil _
    · rw [hone]
      exact List.forall_mem_singleton.2 hm.whole

end Midi2.Ump.ToMidi2
