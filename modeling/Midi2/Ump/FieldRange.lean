import Midi2.Ump.Framing
import Midi2.Ump.ToMidi1

/-!
# The values that `to_midi1` gives to setters

A setter asserts that its value has no more bits than the field, and cuts off what is too
long when assertions are off. So it matters for each message which values its setters are
called with. `setters` lists them for all messages that `to_midi1` builds, and
`setters_output` says that these are the messages that are pushed. All values are in range,
whatever words come in, but for one (`settersInRange_iff`): the program of a MIDI 2.0 program
change has eight bits, and is given to a field of seven.
-/

namespace Midi2.Ump.ToMidi1

/-! ## Messages and their setters -/

/-- A message that is built from the default one of its kind by calls of setters. -/
structure Setters where
  status : Mt.M1cvm
  calls : List (Field × Nat)

def Setters.message (b : Setters) : Message :=
  (M1cvm.init b.status).sets b.calls

/-- Every value has the number of bits of its field. -/
def Setters.InRange (b : Setters) : Prop :=
  ∀ x ∈ b.calls, x.2 < 2 ^ x.1.range.bits

instance (b : Setters) : Decidable b.InRange :=
  inferInstanceAs (Decidable (∀ x ∈ _, _))

/-- `note_off` and `note_on`. -/
def noteSetters (s : Mt.M1cvm) (m : Message) : Setters where
  status := s
  calls := [(.group, m.get .group), (.channel, m.get .channel), (M1cvm.note, m.get M2cvm.note),
    (M1cvm.velocity, mcmScale 16 7 (m.get M2cvm.velocity))]

def polyPressureSetters (m : Message) : Setters where
  status := .polyPressure
  calls := [(.group, m.get .group), (.channel, m.get .channel), (M1cvm.note, m.get M2cvm.note),
    (M1cvm.pressure, mcmScale 32 7 (m.get M2cvm.pressure))]

def controlChangeSetters (group channel controller value : Nat) : Setters where
  status := .cc
  calls := [(.group, group), (.channel, channel), (M1cvm.controller, controller),
    (M1cvm.value, value)]

def programSetters (m : Message) : Setters where
  status := .programChange
  calls := [(.group, m.get .group), (.channel, m.get .channel),
    (M1cvm.program, m.get M2cvm.program)]

def channelPressureSetters (m : Message) : Setters where
  status := .channelPressure
  calls := [(.group, m.get .group), (.channel, m.get .channel),
    (M1cvm.data, mcmScale 32 7 (m.get M2cvm.value))]

def pitchBendSetters (m : Message) : Setters where
  status := .pitchBend
  calls := [(.group, m.get .group), (.channel, m.get .channel),
    (M1cvm.lsbData, lo7 (mcmScale 32 14 (m.get M2cvm.value))),
    (M1cvm.msbData, hi7 (mcmScale 32 14 (m.get M2cvm.value)))]

/-- The bank of a program change, if it has one. -/
def bankSetters (m : Message) : List Setters :=
  if m.get M2cvm.bankValid ≠ 0 then
    [controlChangeSetters (m.get .group) (m.get .channel) Control.bankSelect.toNat
        (m.get M2cvm.bankMsb),
      controlChangeSetters (m.get .group) (m.get .channel) Control.bankSelectLsb.toNat
        (m.get M2cvm.bankLsb)]
  else
    []

/-- `send_controller_number`. -/
def numberSetters (key : PnCacheKey) (number : Nat × Nat) : List Setters :=
  [controlChangeSetters key.group key.channel
      (if key.isRpn then Control.rpnMsb else .nrpnMsb).toNat number.1,
    controlChangeSetters key.group key.channel
      (if key.isRpn then Control.rpnLsb else .nrpnLsb).toNat number.2]

/-- `pn_message`. The number is left out if the cache has it. -/
def pnSetters (cache : PnCache) (key : PnCacheKey) (number : Nat × Nat) (value : Nat) :
    List Setters :=
  (if (cache.cached key.v).any (· == number) then [] else numberSetters key number) ++
    [controlChangeSetters key.group key.channel Control.dataEntryMsb.toNat
        (hi7 (mcmScale 32 14 value)),
      controlChangeSetters key.group key.channel Control.dataEntryLsb.toNat
        (lo7 (mcmScale 32 14 value))]

/-- `class m2cvm`. -/
def m2cvmSetters (s : Mt.M2cvm) (cache : PnCache) (m : Message) : List Setters :=
  match s with
  | .noteOff => [noteSetters .noteOff m]
  | .noteOn => [noteSetters .noteOn m]
  | .polyPressure => [polyPressureSetters m]
  | .programChange => bankSetters m ++ [programSetters m]
  | .channelPressure => [channelPressureSetters m]
  | .rpn => pnSetters cache (.make (m.get .group) (m.get .channel) true)
      (m.get M2cvm.bank, m.get M2cvm.index) (m.get M2cvm.value)
  | .nrpn => pnSetters cache (.make (m.get .group) (m.get .channel) false)
      (m.get M2cvm.bank, m.get M2cvm.index) (m.get M2cvm.value)
  | .cc => [controlChangeSetters (m.get .group) (m.get .channel) (m.get M2cvm.controller)
      (mcmScale 32 7 (m.get M2cvm.value))]
  | .pitchBend => [pitchBendSetters m]
  | .rpnPerNote | .nrpnPerNote | .rpnRelative | .nrpnRelative | .perNoteManage
  | .pitchBendPerNote => []

/-- The setters that are called for a packet. What is passed on is not built. -/
def setters (cache : PnCache) (p : Packet) : List Setters :=
  match p.message.call.callback with
  | .m2cvm s => m2cvmSetters s cache p.message
  | _ => []

theorem pnSetters_message (cache : PnCache) (key : PnCacheKey) (number : Nat × Nat)
    (value : Nat) : (pnMessage (⟨cache, []⟩ : Context PnCache (List Message)) key number
      value).output = (pnSetters cache key number value).map Setters.message := by
  rw [pnMessage_output, pnSetters]
  split
  case isTrue => rfl
  case isFalse => rfl

/-- The messages that are pushed for a MIDI 2.0 channel voice message are those that the
setters build. -/
theorem setters_output {p : Packet} {s : Mt.M2cvm} (h : p.message.call.callback = .m2cvm s)
    (cache : PnCache) :
    (translator.messages cache p).output = (setters cache p).map Setters.message := by
  have hsetters : setters cache p = m2cvmSetters s cache p.message := by
    rw [setters, h]
  have hmessages : translator.messages cache p =
      m2cvm s (⟨cache, []⟩ : Context PnCache (List Message)) p.message := by
    rw [Translator.messages, Message.call_eq h Callback.noConfusion]
    rfl
  rw [hsetters, hmessages]
  cases s with
  | rpn | nrpn => exact pnSetters_message cache _ _ _
  | programChange =>
      simp only [m2cvm, m2cvmSetters, programChange, bankSetters]
      split
      case isTrue => rfl
      case isFalse => rfl
  | _ => rfl

/-! ## Values in range -/

theorem inRange_controlChangeSetters {group channel controller value : Nat} (hg : group < 2 ^ 4)
    (hc : channel < 2 ^ 4) (hk : controller < 2 ^ 7) (hv : value < 2 ^ 7) :
    (controlChangeSetters group channel controller value).InRange := by
  simp only [Setters.InRange, controlChangeSetters, List.forall_mem_cons]
  exact ⟨hg, hc, hk, hv, List.forall_mem_nil _⟩

theorem inRange_noteSetters (s : Mt.M1cvm) (m : Message) : (noteSetters s m).InRange := by
  have hvelocity := mcmScale_down_lt (show 7 ≤ 16 by decide) (m.get_lt M2cvm.velocity)
  simp only [Setters.InRange, noteSetters, List.forall_mem_cons]
  exact ⟨m.get_lt _, m.get_lt _, m.get_lt _, hvelocity, List.forall_mem_nil _⟩

theorem inRange_polyPressureSetters (m : Message) : (polyPressureSetters m).InRange := by
  have hpressure := mcmScale_down_lt (show 7 ≤ 32 by decide) (m.get_lt M2cvm.pressure)
  simp only [Setters.InRange, polyPressureSetters, List.forall_mem_cons]
  exact ⟨m.get_lt _, m.get_lt _, m.get_lt _, hpressure, List.forall_mem_nil _⟩

theorem inRange_channelPressureSetters (m : Message) : (channelPressureSetters m).InRange := by
  have hdata := mcmScale_down_lt (show 7 ≤ 32 by decide) (m.get_lt M2cvm.value)
  simp only [Setters.InRange, channelPressureSetters, List.forall_mem_cons]
  exact ⟨m.get_lt _, m.get_lt _, hdata, List.forall_mem_nil _⟩

theorem inRange_pitchBendSetters (m : Message) : (pitchBendSetters m).InRange := by
  simp only [Setters.InRange, pitchBendSetters, List.forall_mem_cons]
  exact ⟨m.get_lt _, m.get_lt _, lo7_lt _, hi7_lt _, List.forall_mem_nil _⟩

/-- The program has eight bits before and seven after. -/
theorem inRange_programSetters_iff (m : Message) :
    (programSetters m).InRange ↔ m.get M2cvm.program < 2 ^ 7 := by
  simp only [Setters.InRange, programSetters, List.forall_mem_cons]
  constructor
  · rintro ⟨-, -, hprogram, -⟩
    exact hprogram
  · intro hprogram
    exact ⟨m.get_lt _, m.get_lt _, hprogram, List.forall_mem_nil _⟩

theorem inRange_bankSetters (m : Message) : ∀ b ∈ bankSetters m, b.InRange := by
  have hcc (c : Control) (f : Field) (hf : f.range.bits = 7) : (controlChangeSetters
      (m.get .group) (m.get .channel) c.toNat (m.get f)).InRange :=
    inRange_controlChangeSetters (m.get_lt _) (m.get_lt _) c.toNat_lt (hf ▸ m.get_lt f)
  unfold bankSetters
  split
  case isTrue =>
    simp only [List.forall_mem_cons]
    exact ⟨hcc _ _ rfl, hcc _ _ rfl, List.forall_mem_nil _⟩
  case isFalse => exact List.forall_mem_nil _

theorem inRange_pnSetters (cache : PnCache) (key : PnCacheKey) {number : Nat × Nat}
    (hbank : number.1 < 2 ^ 7) (hindex : number.2 < 2 ^ 7) (value : Nat) :
    ∀ b ∈ pnSetters cache key number value, b.InRange := by
  have hcc (c : Control) {v : Nat} (hv : v < 2 ^ 7) :
      (controlChangeSetters key.group key.channel c.toNat v).InRange :=
    inRange_controlChangeSetters (Nat.and_lt_two_pow _ (by decide))
      (Nat.and_lt_two_pow _ (by decide)) c.toNat_lt hv
  have hnumber : ∀ b ∈ numberSetters key number, b.InRange := by
    simp only [numberSetters, List.forall_mem_cons]
    exact ⟨hcc _ hbank, hcc _ hindex, List.forall_mem_nil _⟩
  rw [pnSetters, List.forall_mem_append]
  constructor
  · split
    case isTrue => exact List.forall_mem_nil _
    case isFalse => exact hnumber
  · simp only [List.forall_mem_cons]
    exact ⟨hcc _ (hi7_lt _), hcc _ (lo7_lt _), List.forall_mem_nil _⟩

/-- A program change of which the program fits into seven bits, or any other message. -/
def ProgramFits (p : Packet) : Prop :=
  p.message.call.callback = .m2cvm .programChange → p.message.get M2cvm.program < 2 ^ 7

theorem inRange_setters_iff (cache : PnCache) (p : Packet) :
    (∀ b ∈ setters cache p, b.InRange) ↔ ProgramFits p := by
  have hone {b : Setters} (h : b.InRange) : ∀ b' ∈ [b], b'.InRange :=
    List.forall_mem_singleton.2 h
  unfold setters ProgramFits
  split
  case h_1 s hs =>
    cases s with
    | programChange =>
        rw [hs, forall_prop_of_true rfl, m2cvmSetters, List.forall_mem_append,
          and_iff_right (inRange_bankSetters _), List.forall_mem_singleton,
          inRange_programSetters_iff]
    | rpn | nrpn =>
        rw [hs]
        refine iff_of_true ?_ fun h => by cases h
        exact inRange_pnSetters cache _ (p.message.get_lt _) (p.message.get_lt _) _
    | noteOff | noteOn =>
        rw [hs]
        exact iff_of_true (hone (inRange_noteSetters _ _)) fun h => by cases h
    | polyPressure =>
        rw [hs]
        exact iff_of_true (hone (inRange_polyPressureSetters _)) fun h => by cases h
    | channelPressure =>
        rw [hs]
        exact iff_of_true (hone (inRange_channelPressureSetters _)) fun h => by cases h
    | pitchBend =>
        rw [hs]
        exact iff_of_true (hone (inRange_pitchBendSetters _)) fun h => by cases h
    | cc =>
        have hvalue := mcmScale_down_lt (show 7 ≤ 32 by decide) (p.message.get_lt M2cvm.value)
        rw [hs]
        refine iff_of_true (hone ?_) fun h => by cases h
        exact inRange_controlChangeSetters (p.message.get_lt _) (p.message.get_lt _)
          (p.message.get_lt _) hvalue
    | rpnPerNote | nrpnPerNote | rpnRelative | nrpnRelative | perNoteManage | pitchBendPerNote =>
        rw [hs]
        exact iff_of_true (List.forall_mem_nil _) fun h => by cases h
  case h_2 hother =>
    refine iff_of_true (List.forall_mem_nil _) fun h => ?_
    exact absurd h (hother .programChange)

/-- The translator, with the setters that are called. -/
def building : Machine Packet Setters PnCache where
  step cache p := ((translator.messages cache p).state, setters cache p)

/-- The setters that are called while words come in. -/
def settersOf (words : List Word) : List Setters :=
  (building.run {} (packetsOf words)).2

/-- No value that is given to a setter is too long, if and only if no program is. -/
theorem settersInRange_iff (words : List Word) :
    (∀ b ∈ settersOf words, b.InRange) ↔ ∀ p ∈ packetsOf words, ProgramFits p :=
  @Machine.forall_output_iff _ _ _ building Setters.InRange ProgramFits inRange_setters_iff {}
    (packetsOf words)

/-- The program 128, which becomes the program 0. -/
theorem program_out_of_range : ¬∀ words, ∀ b ∈ settersOf words, b.InRange := by
  intro h
  let p : Packet := { message := ⟨[0x40C00000, 0x80000000]⟩ }
  have hfits := (settersInRange_iff ([p].flatMap Packet.words)).1 (h _)
  rw [packetsOf_words, List.forall_mem_singleton] at hfits
  exact absurd (hfits (by decide)) (by decide)

end Midi2.Ump.ToMidi1
