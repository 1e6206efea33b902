import Midi2.Adt.PlruCache
import Midi2.Ump.ChannelVoice
import Midi2.Ump.Translator
import Midi2.Ump.Utils

/-!
# From MIDI 2.0 to MIDI 1.0 (`ump/ump_to_midi1.hpp`, `ump_to_midi1.cpp`)

`to_midi1` passes on what MIDI 1.0 has too and translates the MIDI 2.0 channel voice
messages. A change of a registered or assignable parameter takes up to four control changes
in MIDI 1.0: two that select the parameter and two that set it. The translator leaves the
first two out when its cache says that the parameter is the one that was selected last.
-/

namespace Midi2.Ump.ToMidi1

open Adt

/-! ## The context -/

/-- `pn_cache_key`: group, channel and kind of parameter in one number. -/
structure PnCacheKey where
  v : Nat
  deriving DecidableEq

namespace PnCacheKey

/-- The constructor. -/
def make (group channel : Nat) (isRpn : Bool) : PnCacheKey :=
  ⟨group ||| (channel <<< 4) ||| (isRpn.toNat <<< 8)⟩

def group (key : PnCacheKey) : Nat :=
  key.v &&& 0x000F

def channel (key : PnCacheKey) : Nat :=
  (key.v >>> 4) &&& 0x000F

def isRpn (key : PnCacheKey) : Bool :=
  (key.v >>> 8) &&& 0x0001 ≠ 0

/-- The three parts of a key can be read back. -/
theorem parts_make {group channel : Nat} (hg : group < 2 ^ 4) (hc : channel < 2 ^ 4)
    (isRpn : Bool) : (make group channel isRpn).group = group ∧
      (make group channel isRpn).channel = channel ∧ (make group channel isRpn).isRpn = isRpn := by
  have hall : ∀ g < 2 ^ 4, ∀ c < 2 ^ 4, ∀ b : Bool, (make g c b).group = g ∧
      (make g c b).channel = c ∧ (make g c b).isRpn = b := by decide
  exact hall group hg channel hc isRpn

end PnCacheKey

/-- `pn_cache_type`: for every key the bank and index of the parameter selected last. -/
abbrev PnCache := PlruCache (Nat × Nat) 2 8

variable {ω : Type} [Sink ω]

/-! ## The handlers of MIDI 2.0 channel voice messages -/

/-- The message that is sent by `note_off` and `note_on`. -/
def noteMessage (s : Mt.M1cvm) (m : Message) : Message :=
  (M1cvm.init s)
    |>.set .group (m.get .group)
    |>.set .channel (m.get .channel)
    |>.set M1cvm.note (m.get M2cvm.note)
    |>.set M1cvm.velocity (mcmScale 16 7 (m.get M2cvm.velocity))

def noteOff (ctxt : Context PnCache ω) (m : Message) : Context PnCache ω :=
  ctxt.push (noteMessage .noteOff m)

def noteOn (ctxt : Context PnCache ω) (m : Message) : Context PnCache ω :=
  ctxt.push (noteMessage .noteOn m)

def polyPressure (ctxt : Context PnCache ω) (m : Message) : Context PnCache ω :=
  ctxt.push <| (M1cvm.init .polyPressure)
    |>.set .group (m.get .group)
    |>.set .channel (m.get .channel)
    |>.set M1cvm.note (m.get M2cvm.note)
    |>.set M1cvm.pressure (mcmScale 32 7 (m.get M2cvm.pressure))

/-- `m1cvm::control_change{}` with all its fields. -/
def controlChangeMessage (group channel controller value : Nat) : Message :=
  (M1cvm.init .cc)
    |>.set .group group
    |>.set .channel channel
    |>.set M1cvm.controller controller
    |>.set M1cvm.value value

def programChange (ctxt : Context PnCache ω) (m : Message) : Context PnCache ω :=
  let group := m.get .group
  let channel := m.get .channel
  let ctxt :=
    if m.get M2cvm.bankValid ≠ 0 then
      ctxt
        |>.push (controlChangeMessage group channel Control.bankSelect.toNat
          (m.get M2cvm.bankMsb))
        |>.push (controlChangeMessage group channel Control.bankSelectLsb.toNat
          (m.get M2cvm.bankLsb))
    else
      ctxt
  ctxt.push <| (M1cvm.init .programChange)
    |>.set .group group
    |>.set .channel channel
    |>.set M1cvm.program (m.get M2cvm.program)

def channelPressure (ctxt : Context PnCache ω) (m : Message) : Context PnCache ω :=
  ctxt.push <| (M1cvm.init .channelPressure)
    |>.set .group (m.get .group)
    |>.set .channel (m.get .channel)
    |>.set M1cvm.data (mcmScale 32 7 (m.get M2cvm.value))

/-- `send_controller_number`. -/
def sendControllerNumber (ctxt : Context PnCache ω) (key : PnCacheKey)
    (controllerNumber : Nat × Nat) : Context PnCache ω :=
  let cc := controlChangeMessage key.group key.channel
  ctxt
    |>.push (cc (if key.isRpn then Control.rpnMsb else .nrpnMsb).toNat controllerNumber.1)
    |>.push (cc (if key.isRpn then Control.rpnLsb else .nrpnLsb).toNat controllerNumber.2)

/-- `pn_message`. The cache calls back when the receiver has to be told the number. -/
def pnMessage (ctxt : Context PnCache ω) (key : PnCacheKey) (controllerNumber : Nat × Nat)
    (value : Nat) : Context PnCache ω :=
  let missFn (_ _ : Nat) (ctxt : Context PnCache ω) :=
    (controllerNumber, sendControllerNumber ctxt key controllerNumber)
  let staleFn (inCache : Nat × Nat) : Bool := inCache == controllerNumber
  let (pnCache, _, ctxt) := ctxt.state.access key.v missFn staleFn ctxt
  let scaledValue := mcmScale 32 14 value
  let cc := controlChangeMessage key.group key.channel
  { ctxt with state := pnCache }
    |>.push (cc Control.dataEntryMsb.toNat (hi7 scaledValue))
    |>.push (cc Control.dataEntryLsb.toNat (lo7 scaledValue))

/-- `rpn_controller` and `nrpn_controller`. -/
def controller (isRpn : Bool) (ctxt : Context PnCache ω) (m : Message) : Context PnCache ω :=
  pnMessage ctxt (.make (m.get .group) (m.get .channel) isRpn)
    (m.get M2cvm.bank, m.get M2cvm.index) (m.get M2cvm.value)

def rpnController (ctxt : Context PnCache ω) (m : Message) : Context PnCache ω :=
  controller true ctxt m

def nrpnController (ctxt : Context PnCache ω) (m : Message) : Context PnCache ω :=
  controller false ctxt m

def controlChange (ctxt : Context PnCache ω) (m : Message) : Context PnCache ω :=
  ctxt.push <| controlChangeMessage (m.get .group) (m.get .channel) (m.get M2cvm.controller)
    (mcmScale 32 7 (m.get M2cvm.value))

def pitchBend (ctxt : Context PnCache ω) (m : Message) : Context PnCache ω :=
  let scaledValue := mcmScale 32 14 (m.get M2cvm.value)
  ctxt.push <| (M1cvm.init .pitchBend)
    |>.set .group (m.get .group)
    |>.set .channel (m.get .channel)
    |>.set M1cvm.lsbData (lo7 scaledValue)
    |>.set M1cvm.msbData (hi7 scaledValue)

/-- `class m2cvm`. -/
def m2cvm (s : Mt.M2cvm) (ctxt : Context PnCache ω) (m : Message) : Context PnCache ω :=
  match s with
  | .noteOff => noteOff ctxt m
  | .noteOn => noteOn ctxt m
  | .polyPressure => polyPressure ctxt m
  | .programChange => programChange ctxt m
  | .channelPressure => channelPressure ctxt m
  | .rpn => rpnController ctxt m
  | .nrpn => nrpnController ctxt m
  | .cc => controlChange ctxt m
  | .pitchBend => pitchBend ctxt m
  -- These cannot be translated to MIDI 1.0.
  | .rpnPerNote | .nrpnPerNote | .rpnRelative | .nrpnRelative | .perNoteManage
  | .pitchBendPerNote => ctxt

/-- `to_midi1_config`. -/
def call (c : Call) (ctxt : Context PnCache ω) : Context PnCache ω :=
  match c.callback with
  | .system _ | .m1cvm _ | .data64 _ => ctxt.push c.message
  | .m2cvm s => m2cvm s ctxt c.message
  | .utility _ | .data128 _ | .stream _ | .flexData _ | .flexText | .unknown => ctxt

/-- `context_type::reset()`. -/
def reset (ctxt : Context PnCache (Fifo Word 2)) : Context PnCache (Fifo Word 2) where
  state := ctxt.state.clear
  output := ctxt.output.clear

/-! ## The translator -/

section Uniform

variable {ω' : Type} [Sink ω'] {R : ω → ω' → Prop} {a : Context PnCache ω}
  {b : Context PnCache ω'}

theorem sendControllerNumber_rel (hR : Sink.Sim R) (h : a.Rel R b) (key : PnCacheKey)
    (controllerNumber : Nat × Nat) : (sendControllerNumber a key controllerNumber).Rel R
      (sendControllerNumber b key controllerNumber) :=
  (h.push hR _).push hR _

theorem pnMessage_rel (hR : Sink.Sim R) (h : a.Rel R b) (key : PnCacheKey)
    (controllerNumber : Nat × Nat) (value : Nat) : (pnMessage a key controllerNumber value).Rel R
      (pnMessage b key controllerNumber value) := by
  obtain ⟨hcache, hctxt⟩ := b.state.access_rel key.v (· == controllerNumber) h
    (f := fun _ _ ctxt => (controllerNumber, sendControllerNumber ctxt key controllerNumber))
    (g := fun _ _ ctxt => (controllerNumber, sendControllerNumber ctxt key controllerNumber))
    fun _ _ => ⟨rfl, sendControllerNumber_rel hR h key controllerNumber⟩
  rw [pnMessage, pnMessage, h.state]
  refine Context.Rel.push hR (Context.Rel.push hR ?_ _) _
  exact ⟨hcache, hctxt.output⟩

theorem programChange_rel (hR : Sink.Sim R) (h : a.Rel R b) (m : Message) :
    (programChange a m).Rel R (programChange b m) := by
  simp only [programChange]
  split
  case isTrue => exact ((h.push hR _).push hR _).push hR _
  case isFalse => exact h.push hR _

theorem call_rel (hR : Sink.Sim R) (h : a.Rel R b) (c : Call) :
    (call c a).Rel R (call c b) := by
  obtain ⟨callback, m⟩ := c
  cases callback with
  | system | m1cvm | data64 => exact h.push hR m
  | utility | data128 | stream | flexData | flexText | unknown => exact h
  | m2cvm s =>
      cases s with
      | noteOff | noteOn | polyPressure | channelPressure | cc | pitchBend => exact h.push hR _
      | programChange => exact programChange_rel hR h m
      | rpn | nrpn => exact pnMessage_rel hR h _ _ _
      | rpnPerNote | nrpnPerNote | rpnRelative | nrpnRelative | perNoteManage
      | pitchBendPerNote => exact h

end Uniform

/-! ### What is sent -/

/-- The parameter number, for a receiver that has another one selected. -/
def selectMessages (key : PnCacheKey) (controllerNumber : Nat × Nat) : List Message :=
  (sendControllerNumber (⟨{}, []⟩ : Context PnCache (List Message)) key controllerNumber).output

/-- The value. -/
def dataEntryMessages (key : PnCacheKey) (value : Nat) : List Message :=
  [controlChangeMessage key.group key.channel Control.dataEntryMsb.toNat
      (hi7 (mcmScale 32 14 value)),
    controlChangeMessage key.group key.channel Control.dataEntryLsb.toNat
      (lo7 (mcmScale 32 14 value))]

/-- The number is left out exactly when the cache has it. -/
theorem pnMessage_output (cache : PnCache) (key : PnCacheKey) (controllerNumber : Nat × Nat)
    (value : Nat) : (pnMessage (⟨cache, []⟩ : Context PnCache (List Message)) key
      controllerNumber value).output =
        (if (cache.cached key.v).any (· == controllerNumber) then []
          else selectMessages key controllerNumber) ++ dataEntryMessages key value := by
  have heffect := cache.access_effect key.v
    (fun _ _ (ctxt : Context PnCache (List Message)) =>
      (controllerNumber, sendControllerNumber ctxt key controllerNumber))
    (· == controllerNumber) ⟨cache, []⟩
  rw [pnMessage]
  simp only [Context.output_push]
  rcases heffect with ⟨hgood, hsame⟩ | ⟨hbad, _, hsent⟩
  · rw [hsame, if_pos hgood]
    rfl
  · rw [hsent, if_neg (by rw [hbad]; exact Bool.false_ne_true)]
    rfl

theorem is_noteMessage (s : Mt.M1cvm) (m : Message) : M1cvm.Is s (noteMessage s m) :=
  ((((M1cvm.is_init s).set _).set _).set _).set _

theorem is_controlChangeMessage (group channel controller value : Nat) :
    M1cvm.Is .cc (controlChangeMessage group channel controller value) :=
  ((((M1cvm.is_init .cc).set _).set _).set _).set _

/-- The fields of a control change read back. -/
theorem get_controlChangeMessage {group channel controller value : Nat} (hg : group < 2 ^ 4)
    (hc : channel < 2 ^ 4) (hk : controller < 2 ^ 7) (hv : value < 2 ^ 7) :
    (controlChangeMessage group channel controller value).get .group = group ∧
    (controlChangeMessage group channel controller value).get .channel = channel ∧
    (controlChangeMessage group channel controller value).get M1cvm.controller = controller ∧
    (controlChangeMessage group channel controller value).get M1cvm.value = value := by
  let fields := [(.group, group), (.channel, channel), (M1cvm.controller, controller),
    (M1cvm.value, value)]
  have hget : ∀ x ∈ fields, ((M1cvm.init .cc).sets fields).get x.1 = x.2 := by
    refine (M1cvm.is_init .cc).get_sets [.group, .channel, M1cvm.controller, M1cvm.value] ?_
    simp only [fields, List.forall_mem_cons]
    exact ⟨hg, hc, hk, hv, List.forall_mem_nil _⟩
  simp only [fields, List.forall_mem_cons] at hget
  obtain ⟨hgroup, hchannel, hcontroller, hvalue, -⟩ := hget
  exact ⟨hgroup, hchannel, hcontroller, hvalue⟩

/-- MIDI 1.0 channel voice messages, `n` at most. -/
structure ChannelVoice (n : Nat) (ms : List Message) : Prop where
  is : ∀ m ∈ ms, ∃ s, M1cvm.Is s m
  length_le : ms.length ≤ n

namespace ChannelVoice

theorem nil : ChannelVoice 0 [] :=
  ⟨List.forall_mem_nil _, Nat.le_refl 0⟩

theorem singleton {s : Mt.M1cvm} {m : Message} (h : M1cvm.Is s m) : ChannelVoice 1 [m] :=
  ⟨fun _ hm' => ⟨s, List.mem_singleton.1 hm' ▸ h⟩, Nat.le_refl 1⟩

theorem append {n k : Nat} {ms ms' : List Message} (h : ChannelVoice n ms)
    (h' : ChannelVoice k ms') : ChannelVoice (n + k) (ms ++ ms') where
  is m hm := (List.mem_append.1 hm).elim (h.is m) (h'.is m)
  length_le := by
    rw [List.length_append]
    exact Nat.add_le_add h.length_le h'.length_le

theorem mono {n k : Nat} {ms : List Message} (h : ChannelVoice n ms) (hle : n ≤ k) :
    ChannelVoice k ms :=
  ⟨h.is, Nat.le_trans h.length_le hle⟩

theorem wordsOf_length {n : Nat} {ms : List Message} (h : ChannelVoice n ms) :
    (wordsOf ms).length ≤ n := by
  have hone : ∀ m ∈ ms, m.words.length = 1 := fun m hm =>
    let ⟨_, hs⟩ := h.is m hm
    hs.length
  rw [wordsOf, List.length_flatMap, List.map_congr_left hone, List.map_const',
    List.sum_replicate_nat, Nat.mul_one]
  exact h.length_le

theorem whole {n : Nat} {ms : List Message} (h : ChannelVoice n ms) : ∀ m ∈ ms, m.Whole :=
  fun m hm =>
    let ⟨_, hs⟩ := h.is m hm
    hs.whole

end ChannelVoice

theorem channelVoice_pnMessage (cache : PnCache) (key : PnCacheKey) (number : Nat × Nat)
    (value : Nat) : ChannelVoice 4
      (pnMessage (⟨cache, []⟩ : Context PnCache (List Message)) key number value).output := by
  have hcc : ∀ controller value, ChannelVoice 1
      [controlChangeMessage key.group key.channel controller value] :=
    fun controller value => .singleton (is_controlChangeMessage ..)
  have hentry : ChannelVoice 2 (dataEntryMessages key value) := (hcc ..).append (hcc ..)
  rw [pnMessage_output]
  split
  case isTrue => exact (ChannelVoice.nil.append hentry).mono (by decide)
  case isFalse => exact ((hcc ..).append (hcc ..)).append hentry

theorem channelVoice_programChange (cache : PnCache) (m : Message) : ChannelVoice 4
    (programChange (⟨cache, []⟩ : Context PnCache (List Message)) m).output := by
  have hprogram := ChannelVoice.singleton <|
    (((M1cvm.is_init .programChange).set (f := .group) (m.get .group)).set (f := .channel)
      (m.get .channel)).set (f := M1cvm.program) (m.get M2cvm.program)
  simp only [programChange]
  split
  case isTrue =>
    exact (((ChannelVoice.singleton (is_controlChangeMessage ..)).append
      (.singleton (is_controlChangeMessage ..))).append hprogram).mono (by decide)
  case isFalse => exact hprogram.mono (by decide)

/-- What is sent for a MIDI 2.0 channel voice message. -/
theorem channelVoice_m2cvm (s : Mt.M2cvm) (cache : PnCache) (m : Message) : ChannelVoice 4
    (m2cvm s (⟨cache, []⟩ : Context PnCache (List Message)) m).output := by
  cases s with
  | noteOff | noteOn => exact (ChannelVoice.singleton (is_noteMessage _ m)).mono (by decide)
  | polyPressure | pitchBend =>
      exact (ChannelVoice.singleton
        (((((M1cvm.is_init _).set _).set _).set _).set _)).mono (by decide)
  | channelPressure =>
      exact (ChannelVoice.singleton ((((M1cvm.is_init _).set _).set _).set _)).mono (by decide)
  | cc => exact (ChannelVoice.singleton (is_controlChangeMessage ..)).mono (by decide)
  | programChange => exact channelVoice_programChange cache m
  | rpn | nrpn => exact channelVoice_pnMessage cache _ _ _
  | rpnPerNote | nrpnPerNote | rpnRelative | nrpnRelative | perNoteManage
  | pitchBendPerNote => exact ChannelVoice.nil.mono (by decide)

/-- What is sent for a call: nothing, the message itself, or channel voice messages. -/
theorem call_output (c : Call) (cache : PnCache) :
    ((call c (⟨cache, []⟩ : Context PnCache (List Message))).output = [c.message] ∧
      c.callback ≠ .utility .noop) ∨
    ChannelVoice 4 (call c (⟨cache, []⟩ : Context PnCache (List Message))).output := by
  obtain ⟨callback, m⟩ := c
  cases callback with
  | system | m1cvm | data64 => exact Or.inl ⟨rfl, Callback.noConfusion⟩
  | m2cvm s => exact Or.inr (channelVoice_m2cvm s cache m)
  | utility | data128 | stream | flexData | flexText | unknown =>
      exact Or.inr (ChannelVoice.nil.mono (by decide))

/-- `to_midi1`. -/
def translator : Translator PnCache where
  call := call
  uniform hR c _ _ h := call_rel hR h c
  fits p cache := by
    rcases call_output p.message.call cache with ⟨hout, hnoop⟩ | hvoice
    · rw [hout, Message.call_message hnoop, wordsOf, List.flatMap_singleton]
      exact p.whole.length_le
    · exact hvoice.wordsOf_length
  whole p cache := by
    rcases call_output p.message.call cache with ⟨hout, hnoop⟩ | hvoice
    · rw [hout, Message.call_message hnoop]
      exact List.forall_mem_singleton.2 p.whole
    · exact hvoice.whole

end Midi2.Ump.ToMidi1
