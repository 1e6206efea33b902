import Midi2.Bytestream.Types
import Midi2.Ump.Translator

/-!
# From UMP to a byte stream (`bytestream/ump_to_bytestream.hpp`)

`to_bytestream` writes system messages, MIDI 1.0 channel voice messages and system exclusive
messages as bytes. All of them are written with `push_back`, which leaves out a status byte
that is the one it was given last. So what is sent for a packet are the bytes that its function
writes, without repeated headers; `encoder` says this for packets, and `run_words` that the
code does it for their words.
-/

namespace Midi2.Bytestream.ToBytestream

open Adt Ump
open Adt.Fifo (Output)

/-! ## The context -/

/-- `context_type` without its output. -/
structure State where
  onlyGroups : BitVec 16 := 0xFFFF
  status : Option Byte := none
  deriving DecidableEq

abbrev ContextType := Context State (Fifo Byte 3)

/-- `push_back(s)`. -/
def pushBack (ctxt : ContextType) (s : Byte) : ContextType :=
  if !isStatusByte s || isSystemRealTimeMessage s then
    { ctxt with output := (ctxt.output.pushBack s).2 }
  else
    let ctxt :=
      if ctxt.state.status ≠ some s then
        { ctxt with output := (ctxt.output.pushBack s).2 }
      else
        ctxt
    ctxt.update fun state => { state with status := some s }

/-- Several calls of `push_back`. -/
def pushAll (ctxt : ContextType) (bytes : List Byte) : ContextType :=
  bytes.foldl pushBack ctxt

/-- `filter_message(group)`: true if the message should be filtered. -/
def State.filterMessage (state : State) (group : Nat) : Bool :=
  state.onlyGroups &&& (1 <<< group) == 0

/-- At first no group is filtered. -/
theorem filterMessage_default {group : Nat} (h : group < 2 ^ 4) :
    ({} : State).filterMessage group = false := by
  have hall : ∀ group < 2 ^ 4, ({} : State).filterMessage group = false := by decide
  exact hall group h

/-- `reset()`. -/
def reset (ctxt : ContextType) : ContextType where
  state := { onlyGroups := 0xFFFF, status := none }
  output := ctxt.output.clear

/-- `group_filter(group_bitmap)`. -/
def groupFilter (groupBitmap : BitVec 16) (ctxt : ContextType) : ContextType :=
  ctxt.update fun state =>
    { state with onlyGroups := if groupBitmap == 0 then 0xFFFF else groupBitmap }

/-! ## The handlers -/

namespace System

/-- The three overloads of `push`. -/
def push (ctxt : ContextType) (group : Nat) (s : Status) (bytes : List Byte) : ContextType :=
  if !ctxt.state.filterMessage group then pushAll ctxt (s.toByte :: bytes) else ctxt

def midiTimeCode (ctxt : ContextType) (m : Message) : ContextType :=
  push ctxt (m.get .group) .timingCode [byte (m.get System.timeCode)]

def songPositionPointer (ctxt : ContextType) (m : Message) : ContextType :=
  push ctxt (m.get .group) .spp [byte (m.get System.positionLsb), byte (m.get System.positionMsb)]

def songSelect (ctxt : ContextType) (m : Message) : ContextType :=
  push ctxt (m.get .group) .songSelect [byte (m.get System.song)]

def tuneRequest (ctxt : ContextType) (m : Message) : ContextType :=
  push ctxt (m.get .group) .tuneRequest []

def timingClock (ctxt : ContextType) (m : Message) : ContextType :=
  push ctxt (m.get .group) .timingClock []

def seqStart (ctxt : ContextType) (m : Message) : ContextType :=
  push ctxt (m.get .group) .sequenceStart []

def seqContinue (ctxt : ContextType) (m : Message) : ContextType :=
  push ctxt (m.get .group) .sequenceContinue []

def seqStop (ctxt : ContextType) (m : Message) : ContextType :=
  push ctxt (m.get .group) .sequenceStop []

def activeSensing (ctxt : ContextType) (m : Message) : ContextType :=
  push ctxt (m.get .group) .activeSensing []

def reset (ctxt : ContextType) (m : Message) : ContextType :=
  push ctxt (m.get .group) .systemReset []

end System

/-- `class system`. -/
def system (s : Mt.SystemCrt) (ctxt : ContextType) (m : Message) : ContextType :=
  match s with
  | .timingCode => System.midiTimeCode ctxt m
  | .spp => System.songPositionPointer ctxt m
  | .songSelect => System.songSelect ctxt m
  | .tuneRequest => System.tuneRequest ctxt m
  | .timingClock => System.timingClock ctxt m
  | .sequenceStart => System.seqStart ctxt m
  | .sequenceContinue => System.seqContinue ctxt m
  | .sequenceStop => System.seqStop ctxt m
  | .activeSensing => System.activeSensing ctxt m
  | .systemReset => System.reset ctxt m

namespace M1cvm

/-- What all functions of `class m1cvm` do. -/
def push (ctxt : ContextType) (s : Status) (m : Message) (bytes : List Byte) : ContextType :=
  if ctxt.state.filterMessage (m.get .group) then ctxt
  else pushAll ctxt ((s.toByte ||| byte (m.get .channel)) :: bytes)

def noteOff (ctxt : ContextType) (m : Message) : ContextType :=
  push ctxt .noteOff m [byte (m.get M1cvm.note), byte (m.get M1cvm.velocity)]

def noteOn (ctxt : ContextType) (m : Message) : ContextType :=
  push ctxt .noteOn m [byte (m.get M1cvm.note), byte (m.get M1cvm.velocity)]

def polyPressure (ctxt : ContextType) (m : Message) : ContextType :=
  push ctxt .polyPressure m [byte (m.get M1cvm.note), byte (m.get M1cvm.pressure)]

def controlChange (ctxt : ContextType) (m : Message) : ContextType :=
  push ctxt .cc m [byte (m.get M1cvm.controller), byte (m.get M1cvm.value)]

def programChange (ctxt : ContextType) (m : Message) : ContextType :=
  push ctxt .programChange m [byte (m.get M1cvm.program)]

def channelPressure (ctxt : ContextType) (m : Message) : ContextType :=
  push ctxt .channelPressure m [byte (m.get M1cvm.data)]

def pitchBend (ctxt : ContextType) (m : Message) : ContextType :=
  push ctxt .pitchBend m [byte (m.get M1cvm.lsbData), byte (m.get M1cvm.msbData)]

end M1cvm

/-- `class m1cvm`. -/
def m1cvm (s : Mt.M1cvm) (ctxt : ContextType) (m : Message) : ContextType :=
  match s with
  | .noteOff => M1cvm.noteOff ctxt m
  | .noteOn => M1cvm.noteOn ctxt m
  | .polyPressure => M1cvm.polyPressure ctxt m
  | .cc => M1cvm.controlChange ctxt m
  | .programChange => M1cvm.programChange ctxt m
  | .channelPressure => M1cvm.channelPressure ctxt m
  | .pitchBend => M1cvm.pitchBend ctxt m

namespace Data64

def sysexStart : Byte := Status.sysexStart.toByte

def sysexStop : Byte := Status.sysexStop.toByte

/-- `write_sysex_bytes`. -/
def writeSysexBytes (ctxt : ContextType) (m : Message) : ContextType :=
  let numberOfBytes := m.get Data64.numberOfBytes
  let write (i : Nat) (f : Field) (ctxt : ContextType) : ContextType :=
    if numberOfBytes > i then pushBack ctxt (byte (m.get f)) else ctxt
  ctxt
    |> write 0 Data64.data0
    |> write 1 Data64.data1
    |> write 2 Data64.data2
    |> write 3 Data64.data3
    |> write 4 Data64.data4
    |> write 5 Data64.data5

def sysex7In1 (ctxt : ContextType) (m : Message) : ContextType :=
  if ctxt.state.filterMessage (m.get .group) then ctxt
  else if m.get Data64.numberOfBytes > 0 then
    pushBack (writeSysexBytes (pushBack ctxt sysexStart) m) sysexStop
  else ctxt

def sysex7Start (ctxt : ContextType) (m : Message) : ContextType :=
  if ctxt.state.filterMessage (m.get .group) then ctxt
  else writeSysexBytes (pushBack ctxt sysexStart) m

/-- The message is skipped if it is filtered, or if there was no start message before it. -/
def sysex7Continue (ctxt : ContextType) (m : Message) : ContextType :=
  if ctxt.state.filterMessage (m.get .group) || ctxt.state.status != some sysexStart then ctxt
  else writeSysexBytes ctxt m

def sysex7End (ctxt : ContextType) (m : Message) : ContextType :=
  if ctxt.state.filterMessage (m.get .group) || ctxt.state.status != some sysexStart then ctxt
  else pushBack (writeSysexBytes ctxt m) sysexStop

end Data64

/-- `class data64`. -/
def data64 (s : Mt.Data64) (ctxt : ContextType) (m : Message) : ContextType :=
  match s with
  | .sysex7In1 => Data64.sysex7In1 ctxt m
  | .sysex7Start => Data64.sysex7Start ctxt m
  | .sysex7Continue => Data64.sysex7Continue ctxt m
  | .sysex7End => Data64.sysex7End ctxt m

/-- `to_bytestream_config`. The other members are null back-ends. -/
def call (c : Call) (ctxt : ContextType) : ContextType :=
  match c.callback with
  | .system s => system s ctxt c.message
  | .m1cvm s => m1cvm s ctxt c.message
  | .data64 s => data64 s ctxt c.message
  | .utility _ | .m2cvm _ | .data128 _ | .stream _ | .flexData _ | .flexText | .unknown => ctxt

/-! ## What is written -/

/-- The bytes that `write_sysex_bytes` writes: `data0`, … as far as `number_of_bytes` goes. -/
def sysexBytes (m : Message) : List Byte :=
  ([Data64.data0, Data64.data1, Data64.data2, Data64.data3, Data64.data4, Data64.data5].take
    (m.get Data64.numberOfBytes)).map fun f => byte (m.get f)

/-- The bytes of a system exclusive message, of which a part may be skipped. -/
def sysexTokens (status : Option Byte) (s : Mt.Data64) (m : Message) : List Byte :=
  match s with
  | .sysex7In1 =>
      if m.get Data64.numberOfBytes > 0 then
        Data64.sysexStart :: (sysexBytes m ++ [Data64.sysexStop])
      else []
  | .sysex7Start => Data64.sysexStart :: sysexBytes m
  | .sysex7Continue => if status = some Data64.sysexStart then sysexBytes m else []
  | .sysex7End =>
      if status = some Data64.sysexStart then sysexBytes m ++ [Data64.sysexStop] else []

/-- The bytes that the function of a call writes, with all status bytes. -/
def tokens (state : State) (c : Call) : List Byte :=
  if state.filterMessage (c.message.get .group) then []
  else
    match c.callback with
    | .system s => (systemBlock s c.message).tokens
    | .m1cvm s => (channelBlock s c.message).tokens
    | .data64 s => sysexTokens state.status s c.message
    | .utility _ | .m2cvm _ | .data128 _ | .stream _ | .flexData _ | .flexText | .unknown => []

theorem writeSysexBytes_eq (ctxt : ContextType) (m : Message) :
    Data64.writeSysexBytes ctxt m = pushAll ctxt (sysexBytes m) := by
  unfold Data64.writeSysexBytes sysexBytes
  generalize m.get Data64.numberOfBytes = n
  rcases n with _ | _ | _ | _ | _ | _ | n <;> simp [pushAll]

theorem data64_eq (s : Mt.Data64) (ctxt : ContextType) (m : Message) :
    data64 s ctxt m = pushAll ctxt (if ctxt.state.filterMessage (m.get .group) then []
      else sysexTokens ctxt.state.status s m) := by
  have hcons (b : Byte) (bs : List Byte) : pushAll (pushBack ctxt b) bs = pushAll ctxt (b :: bs) :=
    rfl
  have hconcat (ctxt : ContextType) (b : Byte) (bs : List Byte) :
      pushBack (pushAll ctxt bs) b = pushAll ctxt (bs ++ [b]) := by
    rw [pushAll, pushAll, List.foldl_append]
    rfl
  cases hfilter : ctxt.state.filterMessage (m.get .group) with
  | true =>
      cases s <;> simp [data64, Data64.sysex7In1, Data64.sysex7Start, Data64.sysex7Continue,
        Data64.sysex7End, hfilter, pushAll]
  | false =>
      cases s with
      | sysex7In1 =>
          by_cases hn : m.get Data64.numberOfBytes > 0
          · simp only [data64, Data64.sysex7In1, sysexTokens, hfilter, if_pos hn,
              writeSysexBytes_eq, hcons, hconcat, List.cons_append]
            rfl
          · simp only [data64, Data64.sysex7In1, sysexTokens, hfilter, if_neg hn]
            rfl
      | sysex7Start =>
          simp only [data64, Data64.sysex7Start, sysexTokens, hfilter, writeSysexBytes_eq, hcons]
          rfl
      | sysex7Continue =>
          by_cases hs : ctxt.state.status = some Data64.sysexStart <;>
            simp [data64, Data64.sysex7Continue, sysexTokens, hfilter, hs, writeSysexBytes_eq,
              pushAll]
      | sysex7End =>
          by_cases hs : ctxt.state.status = some Data64.sysexStart <;>
            simp [data64, Data64.sysex7End, sysexTokens, hfilter, hs, writeSysexBytes_eq,
              pushAll, List.foldl_append]

/-- A function writes its bytes one after the other. -/
theorem call_eq (c : Call) (ctxt : ContextType) :
    call c ctxt = pushAll ctxt (tokens ctxt.state c) := by
  obtain ⟨callback, m⟩ := c
  cases callback with
  | data64 s => exact data64_eq s ctxt m
  | system s =>
      simp only [call, tokens]
      cases s <;> (cases hfilter : ctxt.state.filterMessage (m.get .group) <;>
        simp [system, System.midiTimeCode, System.songPositionPointer, System.songSelect,
          System.tuneRequest, System.timingClock, System.seqStart, System.seqContinue,
          System.seqStop, System.activeSensing, System.reset, System.push, hfilter] <;> rfl)
  | m1cvm s =>
      simp only [call, tokens]
      cases s <;> (cases hfilter : ctxt.state.filterMessage (m.get .group) <;>
        simp [m1cvm, M1cvm.noteOff, M1cvm.noteOn, M1cvm.polyPressure, M1cvm.controlChange,
          M1cvm.programChange, M1cvm.channelPressure, M1cvm.pitchBend, M1cvm.push, hfilter] <;> rfl)
  | utility _ | m2cvm _ | data128 _ | stream _ | flexData _ | flexText | unknown =>
      simp only [call, tokens, ite_self]
      rfl

section PushBack

variable {ω : Type} [Output ω Byte]

/-- `push_back(s)` with any output: that of the code is `pushBack`. -/
def pushBackTo (ctxt : Context State ω) (s : Byte) : Context State ω :=
  if !isStatusByte s || isSystemRealTimeMessage s then
    { ctxt with output := Output.pushBack ctxt.output s }
  else
    let ctxt :=
      if ctxt.state.status ≠ some s then
        { ctxt with output := Output.pushBack ctxt.output s }
      else
        ctxt
    ctxt.update fun state => { state with status := some s }

/-- A byte goes to the output unless it is left out. -/
theorem pushBackTo_eq (ctxt : Context State ω) (b : Byte) :
    pushBackTo ctxt b =
      ⟨{ ctxt.state with status := (alphabet.elide.step ctxt.state.status b).1 },
        (alphabet.elide.step ctxt.state.status b).2.foldl Output.pushBack ctxt.output⟩ := by
  have hstep : alphabet.elide.step ctxt.state.status b =
      if isStatusByte b && !isSystemRealTimeMessage b then
        (some b, if ctxt.state.status = some b then [] else [b])
      else (ctxt.state.status, [b]) := rfl
  rw [hstep, pushBackTo]
  cases isStatusByte b with
  | false => rfl
  | true =>
      cases isSystemRealTimeMessage b with
      | true => rfl
      | false =>
          by_cases hs : ctxt.state.status = some b
          · simp [hs, Context.update]
          · simp [hs, Context.update]

theorem foldl_pushBackTo (ctxt : Context State ω) (bytes : List Byte) :
    bytes.foldl pushBackTo ctxt =
      ⟨{ ctxt.state with status := (alphabet.elide.run ctxt.state.status bytes).1 },
        (alphabet.elide.run ctxt.state.status bytes).2.foldl Output.pushBack ctxt.output⟩ := by
  induction bytes generalizing ctxt with
  | nil => rfl
  | cons b bytes ih => rw [List.foldl_cons, ih, pushBackTo_eq, Machine.run_cons, List.foldl_append]

end PushBack

/-- What a sequence of calls of `push_back` sends, if there is room for it. -/
theorem pushAll_spec {ctxt : ContextType} {xs : List Byte} (h : ctxt.output.Holds xs)
    (bytes : List Byte)
    (hlen : (xs ++ (alphabet.elide.run ctxt.state.status bytes).2).length ≤ 2 ^ 3) :
    (pushAll ctxt bytes).state =
      { ctxt.state with status := (alphabet.elide.run ctxt.state.status bytes).1 } ∧
    (pushAll ctxt bytes).output.Holds
      (xs ++ (alphabet.elide.run ctxt.state.status bytes).2) := by
  rw [show pushAll ctxt bytes = _ from foldl_pushBackTo ctxt bytes]
  rw [List.length_append] at hlen
  have hall := h.foldl_pushBack (alphabet.elide.run ctxt.state.status bytes).2
  rw [List.take_of_length_le (by omega)] at hall
  exact ⟨rfl, hall⟩

/-! ## The translator -/

/-- Between packets the output is empty. -/
def Drained (c : ContextType) (state : State) : Prop :=
  c.state = state ∧ c.output.Holds []

/-- `while (!empty()) pop();`. The output has no more than eight bytes. -/
def drain (c : ContextType) : ContextType × List Byte :=
  ({ c with output := (c.output.drain 8).2 }, (c.output.drain 8).1)

/-- The translation, packet by packet. -/
def encoder : Machine Packet Byte State where
  step state p :=
    let r := alphabet.elide.run state.status (tokens state p.message.call)
    ({ state with status := r.1 }, r.2)

theorem sysexBytes_length_le (m : Message) : (sysexBytes m).length ≤ 6 := by
  rw [sysexBytes, List.length_map]
  exact List.length_take_le' _ _

theorem tokens_length_le (state : State) (c : Call) : (tokens state c).length ≤ 8 := by
  obtain ⟨callback, m⟩ := c
  have hsysex := sysexBytes_length_le m
  simp only [tokens]
  split
  case isTrue => exact Nat.zero_le 8
  case isFalse =>
    cases callback with
    | system s => cases s <;> exact Nat.le_of_ble_eq_true rfl
    | m1cvm s => cases s <;> exact Nat.le_of_ble_eq_true rfl
    | data64 s =>
        cases s with
        | sysex7In1 =>
            simp only [sysexTokens]
            split <;> simp
            omega
        | sysex7Start => simp [sysexTokens]; omega
        | sysex7Continue => simp only [sysexTokens]; split <;> simp; omega
        | sysex7End => simp only [sysexTokens]; split <;> simp; omega
    | _ => exact Nat.zero_le 8

/-- A packet: its bytes come out, and the output is empty again. -/
theorem drain_call {c : ContextType} {state : State} (h : Drained c state) (p : Packet) :
    Drained (drain (call p.message.call c)).1 (encoder.step state p).1 ∧
    (drain (call p.message.call c)).2 = (encoder.step state p).2 := by
  obtain ⟨rfl, hholds⟩ := h
  have hlen : (alphabet.elide.run c.state.status (tokens c.state p.message.call)).2.length ≤ 8 :=
    Nat.le_trans (alphabet.elide_sublist _ _).length_le (tokens_length_le _ _)
  obtain ⟨hstate, houtput⟩ := pushAll_spec hholds (tokens c.state p.message.call) hlen
  rw [← call_eq] at hstate houtput
  obtain ⟨hbytes, hempty⟩ := houtput.drain hlen
  exact ⟨⟨hstate, hempty⟩, hbytes⟩

/-- `to_bytestream` as a client of the dispatcher. -/
def client : Client Byte ContextType where
  call := call
  flush := drain
  Idle c := c.output.Holds []
  flush_idle h := by
    have hempty := h.empty_iff.2 rfl
    rw [drain, Fifo.drain, if_pos hempty]
  idle_call p {c} h := (drain_call (⟨rfl, h⟩ : Drained c c.state) p).1.2

theorem refines : client.perPacket.Refines encoder (fun p => [p]) (fun b => [b]) Drained where
  state p h := by
    rw [Machine.run_singleton]
    exact (drain_call h p).1
  output p h := by
    rw [Machine.run_singleton, List.flatMap_singleton']
    exact (drain_call h p).2

/-- `push(word)` for each of the words, with the output drained after each: the context at
the end, and what came out. -/
def run (init : State) (words : List Word) : ContextType × List Byte :=
  let r := client.perWord.run ({}, ⟨init, {}⟩) words
  (r.1.2, r.2)

/-- Whole messages are translated one after the other. -/
theorem run_words (init : State) (ps : List Packet) :
    (run init (ps.flatMap Packet.words)).1.state = (encoder.run init ps).1 ∧
    (run init (ps.flatMap Packet.words)).2 = (encoder.run init ps).2 := by
  have hidle : client.Idle (⟨init, {}⟩ : ContextType) := Fifo.holds_nil
  obtain ⟨hstate, houtput⟩ := refines.run ps (⟨rfl, Fifo.holds_nil⟩ : Drained ⟨init, {}⟩ init)
  obtain ⟨hcontext, hbytes⟩ := client.run_words hidle ps
  rw [List.flatMap_singleton'] at hstate
  rw [List.flatMap_singleton', List.flatMap_singleton'] at houtput
  exact ⟨by rw [run, hcontext]; exact hstate.1, by rw [run, hbytes, houtput]⟩

end Midi2.Bytestream.ToBytestream
