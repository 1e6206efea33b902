import Midi2.Lib.Elision
import Midi2.Ump.ChannelVoice

/-!
# MIDI 1.0 byte streams (`bytestream/bytestream_types.hpp`)

A byte with its top bit set is a status byte; it begins a message, and `arity` is the number
of data bytes that follow, if this number is fixed. System real time messages are single bytes
that may come anywhere. In the terms of `Elision` these are the headers and the passing
headers of an alphabet, and running status is the elision of headers.

`systemBlock` and `channelBlock` are the messages of the byte stream that correspond to UMP
messages.
-/

namespace Midi2.Bytestream

open Ump

abbrev Byte := BitVec 8

/-- `enum class status`. -/
inductive Status where
  | noteOff
  | noteOn
  | polyPressure
  | cc
  | programChange
  | channelPressure
  | pitchBend
  | sysexStart
  | timingCode
  | spp
  | songSelect
  | reserved1
  | reserved2
  | tuneRequest
  | sysexStop
  | timingClock
  | reserved3
  | sequenceStart
  | sequenceContinue
  | sequenceStop
  | reserved4
  | activeSensing
  | systemReset
  deriving DecidableEq, Repr

/-- `to_byte(status)`. -/
def Status.toByte : Status → Byte
  | noteOff => 0x80
  | noteOn => 0x90
  | polyPressure => 0xA0
  | cc => 0xB0
  | programChange => 0xC0
  | channelPressure => 0xD0
  | pitchBend => 0xE0
  | sysexStart => 0xF0
  | timingCode => 0xF1
  | spp => 0xF2
  | songSelect => 0xF3
  | reserved1 => 0xF4
  | reserved2 => 0xF5
  | tuneRequest => 0xF6
  | sysexStop => 0xF7
  | timingClock => 0xF8
  | reserved3 => 0xF9
  | sequenceStart => 0xFA
  | sequenceContinue => 0xFB
  | sequenceStop => 0xFC
  | reserved4 => 0xFD
  | activeSensing => 0xFE
  | systemReset => 0xFF

/-- `is_system_real_time_message(midi1_byte)`. -/
def isSystemRealTimeMessage (midi1Byte : Byte) : Bool :=
  [Status.timingClock, .sequenceStart, .sequenceContinue, .sequenceStop, .activeSensing,
    .systemReset].any fun s => midi1Byte == s.toByte

/-- `is_status_byte(midi1_byte)`. -/
def isStatusByte (midi1Byte : Byte) : Bool :=
  midi1Byte &&& 0x80 != 0

/-- The number of data bytes after a status byte. It is not fixed for system exclusive
messages, and there is none for a status that is not defined. -/
def arity (b : Byte) : Option Nat :=
  if isSystemRealTimeMessage b || b == Status.tuneRequest.toByte then some 0
  else if b == Status.timingCode.toByte || b == Status.songSelect.toByte then some 1
  else if b == Status.spp.toByte then some 2
  else if b < Status.noteOff.toByte || Status.sysexStart.toByte ≤ b then none
  else if Status.programChange.toByte ≤ b && b < Status.pitchBend.toByte then some 1
  else some 2

/-- The bytes of a MIDI 1.0 stream. -/
def alphabet : Elision.Alphabet Byte where
  header := isStatusByte
  passing := isSystemRealTimeMessage
  arity := arity
  header_of_passing := by decide
  arity_of_passing := by decide

/-- A message of a byte stream: its status and its data bytes. -/
abbrev Block := Elision.Block Byte

/-! ## Messages -/

/-- `std::byte{v}`. -/
def byte (v : Nat) : Byte :=
  BitVec.ofNat 8 v

/-- The fields of a system message, in the order of the byte stream. -/
def systemData : Mt.SystemCrt → List Field
  | .timingCode => [System.timeCode]
  | .spp => [System.positionLsb, System.positionMsb]
  | .songSelect => [System.song]
  | .tuneRequest | .timingClock | .sequenceStart | .sequenceContinue | .sequenceStop
  | .activeSensing | .systemReset => []

/-- The fields of a MIDI 1.0 channel voice message, in the order of the byte stream. -/
def channelData : Mt.M1cvm → List Field
  | .noteOff | .noteOn => [M1cvm.note, M1cvm.velocity]
  | .polyPressure => [M1cvm.note, M1cvm.pressure]
  | .cc => [M1cvm.controller, M1cvm.value]
  | .programChange => [M1cvm.program]
  | .channelPressure => [M1cvm.data]
  | .pitchBend => [M1cvm.lsbData, M1cvm.msbData]

/-- The status of a channel voice message, without its channel. -/
def channelStatus : Mt.M1cvm → Status
  | .noteOff => .noteOff
  | .noteOn => .noteOn
  | .polyPressure => .polyPressure
  | .cc => .cc
  | .programChange => .programChange
  | .channelPressure => .channelPressure
  | .pitchBend => .pitchBend

/-- A system common or system real time message in the byte stream. -/
def systemBlock (s : Mt.SystemCrt) (m : Message) : Block where
  header := byte s.toNat
  data := (systemData s).map fun f => byte (m.get f)

/-- A MIDI 1.0 channel voice message in the byte stream. -/
def channelBlock (s : Mt.M1cvm) (m : Message) : Block where
  header := (channelStatus s).toByte ||| byte (m.get .channel)
  data := (channelData s).map fun f => byte (m.get f)

/-- A system real time message. -/
def realTime (p : Packet) : Bool :=
  match p.message.call.callback with
  | .system s => isSystemRealTimeMessage (byte s.toNat)
  | _ => false

theorem status_byte_iff (b : Byte) : isStatusByte b = false ↔ b.toNat < 2 ^ 7 := by
  revert b
  decide +kernel

theorem not_status_byte {v : Nat} (h : v < 2 ^ 7) : isStatusByte (byte v) = false := by
  rw [status_byte_iff, byte, BitVec.toNat_ofNat, Nat.mod_eq_of_lt (by omega)]
  exact h

/-- Without data there are only real time messages and the tune request. -/
theorem arity_eq_zero_iff {b : Byte} (hrt : isSystemRealTimeMessage b = false) :
    alphabet.arity b = some 0 ↔ b = Status.tuneRequest.toByte := by
  show arity b = some 0 ↔ _
  revert b
  decide +kernel

/-- Fields of seven bits are data bytes. -/
theorem data_of_fields {m : Message} {fs : List Field} (h : ∀ f ∈ fs, f.range.bits = 7) :
    ∀ b ∈ fs.map fun f => byte (m.get f), isStatusByte b = false := by
  intro b hb
  obtain ⟨f, hf, rfl⟩ := List.mem_map.1 hb
  refine not_status_byte ?_
  rw [← h f hf]
  exact m.get_lt f

theorem formed_systemBlock (s : Mt.SystemCrt) (m : Message) :
    alphabet.Formed (systemBlock s m) where
  header := by
    show isStatusByte (byte s.toNat) = true
    cases s <;> decide
  data := data_of_fields (by cases s <;> decide)
  arity := by
    show arity (byte s.toNat) = some ((systemData s).map _).length
    rw [List.length_map]
    cases s <;> decide

theorem channelBlock_header (s : Mt.M1cvm) (m : Message) :
    isStatusByte (channelBlock s m).header = true ∧
      arity (channelBlock s m).header = some (channelData s).length ∧
      isSystemRealTimeMessage (channelBlock s m).header = false ∧
      (channelBlock s m).header < Status.sysexStart.toByte := by
  have hall : ∀ c < 2 ^ 4, ∀ b, b = (channelStatus s).toByte ||| byte c → isStatusByte b = true ∧
      arity b = some (channelData s).length ∧ isSystemRealTimeMessage b = false ∧
      b < Status.sysexStart.toByte := by
    intro c hc b hb
    subst hb
    revert c
    cases s <;> decide
  exact hall _ (m.get_lt .channel) _ rfl

theorem toNat_channelBlock (s : Mt.M1cvm) (m : Message) :
    (channelBlock s m).header.toNat = s.toNat * 16 + m.get .channel := by
  have hall : ∀ c < 2 ^ 4, ((channelStatus s).toByte ||| byte c).toNat = s.toNat * 16 + c := by
    cases s <;> decide
  exact hall _ (m.get_lt .channel)

theorem formed_channelBlock (s : Mt.M1cvm) (m : Message) :
    alphabet.Formed (channelBlock s m) where
  header := (channelBlock_header s m).1
  data := data_of_fields (by cases s <;> decide)
  arity := by
    rw [channelBlock, List.length_map]
    exact (channelBlock_header s m).2.1

end Midi2.Bytestream
