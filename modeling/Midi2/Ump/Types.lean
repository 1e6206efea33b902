import Mathlib.Data.List.GetD
import Midi2.Adt.BitField

/-!
# Universal MIDI packets (`ump/ump_types.hpp`)

A UMP message is one to four words. The source has a class for each kind of message, with a
getter and a setter for each of its fields; a field is a bit range in one of the words.
`Message` is the common form of these classes and `Field` names the ranges, so that a getter
is `m.get field` and a chain of setters `(m.set field v).set …`. The laws of getters and
setters are those of bit-fields: a field reads back what was written to it, and disjoint
fields do not interfere.
-/

namespace Midi2.Ump

open Adt

abbrev Word := BitField 32

/-! ## Message types -/

/-- `enum class message_type`. -/
inductive MessageType where
  | utility
  | system
  | m1cvm
  | data64
  | m2cvm
  | data128
  | reserved32_06
  | reserved32_07
  | reserved64_08
  | reserved64_09
  | reserved64_0a
  | reserved96_0b
  | reserved96_0c
  | flexData
  | reserved128_0e
  | stream
  deriving DecidableEq, Repr

/-- The value of an enumerator, which is the `mt` field of a message. -/
def MessageType.toNat : MessageType → Nat
  | utility => 0x0
  | system => 0x1
  | m1cvm => 0x2
  | data64 => 0x3
  | m2cvm => 0x4
  | data128 => 0x5
  | reserved32_06 => 0x6
  | reserved32_07 => 0x7
  | reserved64_08 => 0x8
  | reserved64_09 => 0x9
  | reserved64_0a => 0xA
  | reserved96_0b => 0xB
  | reserved96_0c => 0xC
  | flexData => 0xD
  | reserved128_0e => 0xE
  | stream => 0xF

/-- `static_cast<message_type>`, of a value of four bits. -/
def MessageType.ofMt : Nat → MessageType
  | 0x0 => utility
  | 0x1 => system
  | 0x2 => m1cvm
  | 0x3 => data64
  | 0x4 => m2cvm
  | 0x5 => data128
  | 0x6 => reserved32_06
  | 0x7 => reserved32_07
  | 0x8 => reserved64_08
  | 0x9 => reserved64_09
  | 0xA => reserved64_0a
  | 0xB => reserved96_0b
  | 0xC => reserved96_0c
  | 0xD => flexData
  | 0xE => reserved128_0e
  | _ => stream

@[simp] theorem MessageType.ofMt_toNat (mt : MessageType) : ofMt mt.toNat = mt := by
  cases mt <;> rfl

theorem MessageType.toNat_ofMt {n : Nat} (h : n < 2 ^ 4) : (ofMt n).toNat = n := by
  have hall : ∀ n < 2 ^ 4, (ofMt n).toNat = n := by decide
  exact hall n h

theorem MessageType.toNat_lt (mt : MessageType) : mt.toNat < 2 ^ 4 := by
  cases mt <;> decide

/-- `message_size<mt>`: the number of words. -/
def MessageType.size : MessageType → Nat
  | utility | system | m1cvm | reserved32_06 | reserved32_07 => 1
  | data64 | m2cvm | reserved64_08 | reserved64_09 | reserved64_0a => 2
  | reserved96_0b | reserved96_0c => 3
  | data128 | flexData | reserved128_0e | stream => 4

theorem MessageType.size_pos (mt : MessageType) : 0 < mt.size := by
  cases mt <;> decide

theorem MessageType.size_le (mt : MessageType) : mt.size ≤ 4 := by
  cases mt <;> decide

/-! ## Statuses -/

namespace Mt

/-- `enum class mt::utility`. -/
inductive Utility where
  | noop
  | jrClock
  | jrTs
  | deltaClockTick
  | deltaClockSince
  deriving DecidableEq, Repr

def Utility.ofNat? : Nat → Option Utility
  | 0b0000 => some noop
  | 0b0001 => some jrClock
  | 0b0010 => some jrTs
  | 0b0011 => some deltaClockTick
  | 0b0100 => some deltaClockSince
  | _ => none

/-- `enum class mt::system_crt`. -/
inductive SystemCrt where
  | timingCode
  | spp
  | songSelect
  | tuneRequest
  | timingClock
  | sequenceStart
  | sequenceContinue
  | sequenceStop
  | activeSensing
  | systemReset
  deriving DecidableEq, Repr

def SystemCrt.toNat : SystemCrt → Nat
  | timingCode => 0xF1
  | spp => 0xF2
  | songSelect => 0xF3
  | tuneRequest => 0xF6
  | timingClock => 0xF8
  | sequenceStart => 0xFA
  | sequenceContinue => 0xFB
  | sequenceStop => 0xFC
  | activeSensing => 0xFE
  | systemReset => 0xFF

def SystemCrt.ofNat? : Nat → Option SystemCrt
  | 0xF1 => some timingCode
  | 0xF2 => some spp
  | 0xF3 => some songSelect
  | 0xF6 => some tuneRequest
  | 0xF8 => some timingClock
  | 0xFA => some sequenceStart
  | 0xFB => some sequenceContinue
  | 0xFC => some sequenceStop
  | 0xFE => some activeSensing
  | 0xFF => some systemReset
  | _ => none

theorem SystemCrt.eq_toNat {n : Nat} {s : SystemCrt} (h : ofNat? n = some s) : n = s.toNat := by
  unfold ofNat? at h
  split at h <;> cases h <;> rfl

@[simp] theorem SystemCrt.ofNat_toNat (s : SystemCrt) : ofNat? s.toNat = some s := by
  cases s <;> rfl

/-- `enum class mt::m1cvm`. -/
inductive M1cvm where
  | noteOff
  | noteOn
  | polyPressure
  | cc
  | programChange
  | channelPressure
  | pitchBend
  deriving DecidableEq, Repr

def M1cvm.toNat : M1cvm → Nat
  | noteOff => 0x8
  | noteOn => 0x9
  | polyPressure => 0xA
  | cc => 0xB
  | programChange => 0xC
  | channelPressure => 0xD
  | pitchBend => 0xE

def M1cvm.ofNat? : Nat → Option M1cvm
  | 0x8 => some noteOff
  | 0x9 => some noteOn
  | 0xA => some polyPressure
  | 0xB => some cc
  | 0xC => some programChange
  | 0xD => some channelPressure
  | 0xE => some pitchBend
  | _ => none

theorem M1cvm.eq_toNat {n : Nat} {s : M1cvm} (h : ofNat? n = some s) : n = s.toNat := by
  unfold ofNat? at h
  split at h <;> cases h <;> rfl

@[simp] theorem M1cvm.ofNat_toNat (s : M1cvm) : ofNat? s.toNat = some s := by
  cases s <;> rfl

/-- `enum class mt::m2cvm`. -/
inductive M2cvm where
  | rpnPerNote
  | nrpnPerNote
  | rpn
  | nrpn
  | rpnRelative
  | nrpnRelative
  | pitchBendPerNote
  | noteOff
  | noteOn
  | polyPressure
  | cc
  | programChange
  | channelPressure
  | pitchBend
  | perNoteManage
  deriving DecidableEq, Repr

def M2cvm.toNat : M2cvm → Nat
  | rpnPerNote => 0x0
  | nrpnPerNote => 0x1
  | rpn => 0x2
  | nrpn => 0x3
  | rpnRelative => 0x4
  | nrpnRelative => 0x5
  | pitchBendPerNote => 0x6
  | noteOff => 0x8
  | noteOn => 0x9
  | polyPressure => 0xA
  | cc => 0xB
  | programChange => 0xC
  | channelPressure => 0xD
  | pitchBend => 0xE
  | perNoteManage => 0xF

def M2cvm.ofNat? : Nat → Option M2cvm
  | 0x0 => some rpnPerNote
  | 0x1 => some nrpnPerNote
  | 0x2 => some rpn
  | 0x3 => some nrpn
  | 0x4 => some rpnRelative
  | 0x5 => some nrpnRelative
  | 0x6 => some pitchBendPerNote
  | 0x8 => some noteOff
  | 0x9 => some noteOn
  | 0xA => some polyPressure
  | 0xB => some cc
  | 0xC => some programChange
  | 0xD => some channelPressure
  | 0xE => some pitchBend
  | 0xF => some perNoteManage
  | _ => none

@[simp] theorem M2cvm.ofNat_toNat (s : M2cvm) : ofNat? s.toNat = some s := by
  cases s <;> rfl

/-- `enum class mt::data64`. -/
inductive Data64 where
  | sysex7In1
  | sysex7Start
  | sysex7Continue
  | sysex7End
  deriving DecidableEq, Repr

def Data64.toNat : Data64 → Nat
  | sysex7In1 => 0x0
  | sysex7Start => 0x1
  | sysex7Continue => 0x2
  | sysex7End => 0x3

def Data64.ofNat? : Nat → Option Data64
  | 0x0 => some sysex7In1
  | 0x1 => some sysex7Start
  | 0x2 => some sysex7Continue
  | 0x3 => some sysex7End
  | _ => none

@[simp] theorem Data64.ofNat_toNat (s : Data64) : ofNat? s.toNat = some s := by
  cases s <;> rfl

/-- `enum class mt::data128`. -/
inductive Data128 where
  | sysex8In1
  | sysex8Start
  | sysex8Continue
  | sysex8End
  | mixedDataSetHeader
  | mixedDataSetPayload
  deriving DecidableEq, Repr

def Data128.ofNat? : Nat → Option Data128
  | 0x0 => some sysex8In1
  | 0x1 => some sysex8Start
  | 0x2 => some sysex8Continue
  | 0x3 => some sysex8End
  | 0x8 => some mixedDataSetHeader
  | 0x9 => some mixedDataSetPayload
  | _ => none

/-- `enum class mt::stream`. -/
inductive Stream where
  | endpointDiscovery
  | endpointInfoNotification
  | deviceIdentityNotification
  | endpointNameNotification
  | productInstanceIdNotification
  | jrConfigurationRequest
  | jrConfigurationNotification
  | functionBlockDiscovery
  | functionBlockInfoNotification
  | functionBlockNameNotification
  | startOfClip
  | endOfClip
  deriving DecidableEq, Repr

def Stream.ofNat? : Nat → Option Stream
  | 0x00 => some endpointDiscovery
  | 0x01 => some endpointInfoNotification
  | 0x02 => some deviceIdentityNotification
  | 0x03 => some endpointNameNotification
  | 0x04 => some productInstanceIdNotification
  | 0x05 => some jrConfigurationRequest
  | 0x06 => some jrConfigurationNotification
  | 0x10 => some functionBlockDiscovery
  | 0x11 => some functionBlockInfoNotification
  | 0x12 => some functionBlockNameNotification
  | 0x20 => some startOfClip
  | 0x21 => some endOfClip
  | _ => none

/-- `enum class mt::flex_data`. -/
inductive FlexData where
  | setTempo
  | setTimeSignature
  | setMetronome
  | setKeySignature
  | setChordName
  deriving DecidableEq, Repr

def FlexData.ofNat? : Nat → Option FlexData
  | 0x00 => some setTempo
  | 0x01 => some setTimeSignature
  | 0x02 => some setMetronome
  | 0x05 => some setKeySignature
  | 0x06 => some setChordName
  | _ => none

end Mt

/-! ## Messages and fields -/

/-- The words of a message. -/
structure Message where
  words : List Word
  deriving DecidableEq

/-- A field of a message: the number of a word and a bit range in it. -/
structure Field where
  word : Nat
  range : BitRange
  le_32 : range.index + range.bits ≤ 32 := by decide

namespace Message

/-- `MIDI2_UMP_GETTER`. -/
def get (m : Message) (f : Field) : Nat :=
  BitField.get (m.words.getD f.word 0) f.range

/-- `MIDI2_UMP_SETTER`. -/
def set (m : Message) (f : Field) (v : Nat) : Message :=
  ⟨m.words.set f.word (BitField.set (m.words.getD f.word 0) f.range v)⟩

end Message

/-- Two fields that do not share a bit. -/
def Field.Disjoint (f g : Field) : Prop :=
  f.word ≠ g.word ∨ f.range.Disjoint g.range

instance (f g : Field) : Decidable (f.Disjoint g) :=
  inferInstanceAs (Decidable (_ ∨ _))

theorem Field.Disjoint.symm {f g : Field} (h : f.Disjoint g) : g.Disjoint f :=
  h.imp Ne.symm Or.symm

@[simp] theorem Message.length_set (m : Message) (f : Field) (v : Nat) :
    (m.set f v).words.length = m.words.length :=
  List.length_set

@[simp] theorem Message.get_set_self (m : Message) (f : Field) {v : Nat}
    (hw : f.word < m.words.length) (hv : v < 2 ^ f.range.bits) : (m.set f v).get f = v := by
  rw [get, set, List.getD_eq_getElem _ _ (by rwa [List.length_set]), List.getElem_set_self,
    Adt.get_set_self _ _ f.le_32 hv]

@[simp] theorem Message.get_set_of_disjoint (m : Message) {f g : Field} (v : Nat)
    (h : f.Disjoint g) : (m.set f v).get g = m.get g := by
  simp only [get, set, List.getD_eq_getElem?_getD, List.getElem?_set]
  split
  case isTrue hword =>
    have hrange : f.range.Disjoint g.range := h.resolve_left fun hne => hne hword
    rw [← hword]
    split
    case isTrue => exact Adt.get_set_of_disjoint _ v hrange
    case isFalse hout =>
      rw [List.getElem?_eq_none (by omega)]
  case isFalse => rfl

theorem Message.get_lt (m : Message) (f : Field) : m.get f < 2 ^ f.range.bits :=
  Adt.get_lt _ _

/-! ### Fields -/

namespace Field

/-! Fields of every message, or of every message of a channel or group. -/

def mt : Field := { word := 0, range := { index := 28, bits := 4 } }
def group : Field := { word := 0, range := { index := 24, bits := 4 } }
def status : Field := { word := 0, range := { index := 20, bits := 4 } }
def channel : Field := { word := 0, range := { index := 16, bits := 4 } }

/-! Statuses that are not in the four bits below the group. -/

def systemStatus : Field := { word := 0, range := { index := 16, bits := 8 } }
def streamStatus : Field := { word := 0, range := { index := 16, bits := 10 } }
def flexStatusBank : Field := { word := 0, range := { index := 8, bits := 8 } }
def flexStatus : Field := { word := 0, range := { index := 0, bits := 8 } }

end Field

namespace System

/-! Fields of system common messages. System real time messages have none. -/

def timeCode : Field := { word := 0, range := { index := 8, bits := 7 } }
def positionLsb : Field := { word := 0, range := { index := 8, bits := 7 } }
def positionMsb : Field := { word := 0, range := { index := 0, bits := 7 } }
def song : Field := { word := 0, range := { index := 8, bits := 7 } }

/-- The ranges `reserved0`, … of a message. -/
def reserved : Mt.SystemCrt → List Field
  | .timingCode | .songSelect =>
      [{ word := 0, range := .bit 15 }, { word := 0, range := .bit 7 },
        { word := 0, range := { index := 0, bits := 7 } }]
  | .spp => [{ word := 0, range := .bit 15 }, { word := 0, range := .bit 7 }]
  | .tuneRequest | .timingClock | .sequenceStart | .sequenceContinue | .sequenceStop
  | .activeSensing | .systemReset =>
      [{ word := 0, range := { index := 8, bits := 8 } },
        { word := 0, range := { index := 0, bits := 8 } }]

/-- The unused bits of the message are zero. -/
def Clean (s : Mt.SystemCrt) (m : Message) : Prop :=
  ∀ f ∈ reserved s, m.get f = 0

instance (s : Mt.SystemCrt) (m : Message) : Decidable (Clean s m) :=
  inferInstanceAs (Decidable (∀ f ∈ _, _))

end System

namespace M1cvm

/-! Fields of MIDI 1.0 channel voice messages: two data values of seven bits, under the names
that the messages give them. -/

def note : Field := { word := 0, range := { index := 8, bits := 7 } }
def velocity : Field := { word := 0, range := { index := 0, bits := 7 } }
def pressure : Field := { word := 0, range := { index := 0, bits := 7 } }
def controller : Field := { word := 0, range := { index := 8, bits := 7 } }
def value : Field := { word := 0, range := { index := 0, bits := 7 } }
def program : Field := { word := 0, range := { index := 8, bits := 7 } }
def data : Field := { word := 0, range := { index := 8, bits := 7 } }
def lsbData : Field := { word := 0, range := { index := 8, bits := 7 } }
def msbData : Field := { word := 0, range := { index := 0, bits := 7 } }

/-- The ranges `reserved0` and `reserved1` of a message. -/
def reserved : Mt.M1cvm → List Field
  | .noteOff | .noteOn | .polyPressure | .cc | .pitchBend =>
      [{ word := 0, range := .bit 15 }, { word := 0, range := .bit 7 }]
  | .programChange | .channelPressure =>
      [{ word := 0, range := .bit 15 }, { word := 0, range := { index := 0, bits := 8 } }]

/-- The unused bits of the message are zero. -/
def Clean (s : Mt.M1cvm) (m : Message) : Prop :=
  ∀ f ∈ reserved s, m.get f = 0

instance (s : Mt.M1cvm) (m : Message) : Decidable (Clean s m) :=
  inferInstanceAs (Decidable (∀ f ∈ _, _))

end M1cvm

namespace Data64

/-! Fields of system exclusive messages of seven bits. -/

def numberOfBytes : Field := { word := 0, range := { index := 16, bits := 4 } }
def data0 : Field := { word := 0, range := { index := 8, bits := 7 } }
def data1 : Field := { word := 0, range := { index := 0, bits := 7 } }
def data2 : Field := { word := 1, range := { index := 24, bits := 7 } }
def data3 : Field := { word := 1, range := { index := 16, bits := 7 } }
def data4 : Field := { word := 1, range := { index := 8, bits := 7 } }
def data5 : Field := { word := 1, range := { index := 0, bits := 7 } }

/-- The ranges `reserved0`, … of the two words: the bit above each byte of data. -/
def reserved : List Field :=
  [{ word := 0, range := .bit 15 }, { word := 0, range := .bit 7 },
    { word := 1, range := .bit 31 }, { word := 1, range := .bit 23 },
    { word := 1, range := .bit 15 }, { word := 1, range := .bit 7 }]

end Data64

namespace Data128

/-! Fields of system exclusive messages of eight bits. -/

def numberOfBytes : Field := { word := 0, range := { index := 16, bits := 4 } }
def streamId : Field := { word := 0, range := { index := 8, bits := 8 } }
def data0 : Field := { word := 0, range := { index := 0, bits := 8 } }
def data1 : Field := { word := 1, range := { index := 24, bits := 8 } }
def data2 : Field := { word := 1, range := { index := 16, bits := 8 } }
def data3 : Field := { word := 1, range := { index := 8, bits := 8 } }
def data4 : Field := { word := 1, range := { index := 0, bits := 8 } }
def data5 : Field := { word := 2, range := { index := 24, bits := 8 } }
def data6 : Field := { word := 2, range := { index := 16, bits := 8 } }
def data7 : Field := { word := 2, range := { index := 8, bits := 8 } }
def data8 : Field := { word := 2, range := { index := 0, bits := 8 } }
def data9 : Field := { word := 3, range := { index := 24, bits := 8 } }
def data10 : Field := { word := 3, range := { index := 16, bits := 8 } }
def data11 : Field := { word := 3, range := { index := 8, bits := 8 } }
def data12 : Field := { word := 3, range := { index := 0, bits := 8 } }

end Data128

namespace M2cvm

/-! Fields of MIDI 2.0 channel voice messages. -/

def note : Field := { word := 0, range := { index := 8, bits := 7 } }
def velocity : Field := { word := 1, range := { index := 16, bits := 16 } }
def pressure : Field := { word := 1, range := { index := 0, bits := 32 } }
def controller : Field := { word := 0, range := { index := 8, bits := 7 } }
def bank : Field := { word := 0, range := { index := 8, bits := 7 } }
def index : Field := { word := 0, range := { index := 0, bits := 7 } }
def value : Field := { word := 1, range := { index := 0, bits := 32 } }
def bankValid : Field := { word := 0, range := .bit 0 }
def program : Field := { word := 1, range := { index := 24, bits := 8 } }
def bankMsb : Field := { word := 1, range := { index := 8, bits := 7 } }
def bankLsb : Field := { word := 1, range := { index := 0, bits := 7 } }

end M2cvm

namespace TextCommon

/-! Fields of flex data text messages. -/

def form : Field := { word := 0, range := { index := 22, bits := 2 } }
def address : Field := { word := 0, range := { index := 20, bits := 2 } }
def data0 : Field := { word := 1, range := { index := 24, bits := 8 } }
def data1 : Field := { word := 1, range := { index := 16, bits := 8 } }
def data2 : Field := { word := 1, range := { index := 8, bits := 8 } }
def data3 : Field := { word := 1, range := { index := 0, bits := 8 } }
def data4 : Field := { word := 2, range := { index := 24, bits := 8 } }
def data5 : Field := { word := 2, range := { index := 16, bits := 8 } }
def data6 : Field := { word := 2, range := { index := 8, bits := 8 } }
def data7 : Field := { word := 2, range := { index := 0, bits := 8 } }
def data8 : Field := { word := 3, range := { index := 24, bits := 8 } }
def data9 : Field := { word := 3, range := { index := 16, bits := 8 } }
def data10 : Field := { word := 3, range := { index := 8, bits := 8 } }
def data11 : Field := { word := 3, range := { index := 0, bits := 8 } }

end TextCommon

/-! ### Default messages -/

/-- `word_base::init<mt, status>`: a message of `n` words, all zero but for type and status. -/
def Message.init (n : Nat) (mt : MessageType) (status : Nat) : Message :=
  ((⟨List.replicate n 0⟩ : Message).set .mt mt.toNat).set .status status

/-- The default constructors of MIDI 1.0 channel voice messages. -/
def M1cvm.init (s : Mt.M1cvm) : Message :=
  .init 1 .m1cvm s.toNat

/-- The default constructors of system exclusive messages of seven bits. -/
def Data64.init (s : Mt.Data64) : Message :=
  .init 2 .data64 s.toNat

/-- The default constructors of MIDI 2.0 channel voice messages. -/
def M2cvm.init (s : Mt.M2cvm) : Message :=
  .init 2 .m2cvm s.toNat

end Midi2.Ump
