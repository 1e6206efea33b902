import Midi2.Ump.ChannelVoice

/-!
# The classes of messages (`ump/ump_types.hpp`)

The source has one class for each message. A class says of how many words its messages are,
which type and which status its default constructor writes, and for which bit ranges it has
a setter. That is a `MessageClass`, and every function of a configuration is for messages of
one class: `Callback.messageClass?` is the table.

`MessageClass.Ok` is what makes a class usable: its setters stay inside the message, they
do not touch type and status, and two of them write either the same bits or no common bit.
-/

namespace Midi2.Ump

open Adt

/-! ## Fields -/

/-- The field of word `word` with `bits` bits from bit `index` on. -/
def Field.of (word index bits : Nat) (h : 0 < bits ∧ index + bits ≤ 32 := by decide) : Field where
  word := word
  range := ⟨index, bits, h.1, Nat.le_trans h.2 (by decide)⟩
  le_32 := h.2

/-- Byte `i` of a message. The first byte is the most significant one of the first word. -/
def Field.byte (i : Nat) : Field :=
  .of (i / 4) (8 * (3 - i % 4)) 8 ⟨by decide, by omega⟩

namespace Utility

/-! Fields of utility messages. -/

def senderClockTime : Field := .of 0 0 16
def timestamp : Field := .of 0 0 16
def ticksPqn : Field := .of 0 0 16
def numTicks : Field := .of 0 0 20

/-- The bits that `noop` keeps zero. -/
def noopReserved : Field := .of 0 0 20

end Utility

namespace M2cvm

/-! Further fields of MIDI 2.0 channel voice messages, by class where classes differ. -/

def attributeType : Field := .of 0 0 8
def noteAttribute : Field := .of 1 0 16
def reserved15 : Field := .of 0 15 1
def reserved7 : Field := .of 0 7 1

def PerNoteController.index : Field := .of 0 0 8

def PerNoteManagement.optionFlags : Field := .of 0 0 1
def PerNoteManagement.detach : Field := .of 0 1 1
def PerNoteManagement.setToDefault : Field := .of 0 0 1

def ProgramChange.optionFlags : Field := .of 0 1 7

end M2cvm

namespace Stream

/-! Fields of UMP stream messages, by class where classes differ. -/

def format : Field := .of 0 26 2
def value1 : Field := .of 1 0 32
def value2 : Field := .of 2 0 32
def value3 : Field := .of 3 0 32
def versionMajor : Field := .of 0 8 8
def versionMinor : Field := .of 0 0 8

def EndpointDiscovery.filter : Field := .of 1 0 8

namespace EndpointInfo

def staticFunctionBlocks : Field := .of 1 31 1
def numberFunctionBlocks : Field := .of 1 24 7
def midi2ProtocolCapability : Field := .of 1 9 1
def midi1ProtocolCapability : Field := .of 1 8 1
def receiveJrTimestampCapability : Field := .of 1 1 1
def transmitJrTimestampCapability : Field := .of 1 0 1

end EndpointInfo

namespace DeviceIdentity

def devManufSysexId1 : Field := .of 1 16 7
def devManufSysexId2 : Field := .of 1 8 7
def devManufSysexId3 : Field := .of 1 0 7
def deviceFamilyLsb : Field := .of 2 24 7
def deviceFamilyMsb : Field := .of 2 16 7
def deviceFamilyModelLsb : Field := .of 2 8 7
def deviceFamilyModelMsb : Field := .of 2 0 7
def swRevision1 : Field := .of 3 24 7
def swRevision2 : Field := .of 3 16 7
def swRevision3 : Field := .of 3 8 7
def swRevision4 : Field := .of 3 0 7

end DeviceIdentity

/-- `name1` to `name14`. -/
def EndpointName.name (i : Nat) : Field := .byte (i + 1)

/-- `pid1` to `pid14`. -/
def ProductInstanceId.pid (i : Nat) : Field := .byte (i + 1)

def JrConfiguration.protocol : Field := .of 0 8 8
def JrConfiguration.rxjr : Field := .of 0 1 1
def JrConfiguration.txjr : Field := .of 0 0 1

def FunctionBlockDiscovery.blockNum : Field := .of 0 8 8
def FunctionBlockDiscovery.filter : Field := .of 0 0 8

namespace FunctionBlockInfo

def blockActive : Field := .of 0 15 1
def blockNum : Field := .of 0 8 7
def uiHint : Field := .of 0 4 2
def midi1 : Field := .of 0 2 2
def direction : Field := .of 0 0 2
def firstGroup : Field := .of 1 24 8
def numSpanned : Field := .of 1 16 8
def ciMessageVersion : Field := .of 1 8 8
def maxSys8Streams : Field := .of 1 0 8

end FunctionBlockInfo

def FunctionBlockName.blockNum : Field := .of 0 8 8

/-- `name0` to `name12`. -/
def FunctionBlockName.name (i : Nat) : Field := .byte (i + 3)

end Stream

namespace FlexData

/-! Fields of flex data messages, by class where classes differ. Form, address, bank and
status are where a text has them. -/

def value1 : Field := .of 1 0 32
def value2 : Field := .of 2 0 32
def value3 : Field := .of 3 0 32

def SetTimeSignature.numerator : Field := .of 1 24 8
def SetTimeSignature.denominator : Field := .of 1 16 8
def SetTimeSignature.numberOf32Notes : Field := .of 1 8 8

namespace SetMetronome

def numClocksPerPrimaryClick : Field := .of 1 24 8
def barAccentPart1 : Field := .of 1 16 8
def barAccentPart2 : Field := .of 1 8 8
def barAccentPart3 : Field := .of 1 0 8
def numSubdivisionClicks1 : Field := .of 2 24 8
def numSubdivisionClicks2 : Field := .of 2 16 8

end SetMetronome

def SetKeySignature.sharpsFlats : Field := .of 1 28 4
def SetKeySignature.tonicNote : Field := .of 1 24 4

namespace SetChordName

def tonicSharpsFlats : Field := .of 1 28 4
def chordTonic : Field := .of 1 24 4
def chordType : Field := .of 1 16 8
def alter1Type : Field := .of 1 12 4
def alter1Degree : Field := .of 1 8 4
def alter2Type : Field := .of 1 4 4
def alter2Degree : Field := .of 1 0 4
def alter3Type : Field := .of 2 28 4
def alter3Degree : Field := .of 2 24 4
def alter4Type : Field := .of 2 20 4
def alter4Degree : Field := .of 2 16 4
def bassSharpsFlats : Field := .of 3 28 4
def bassNote : Field := .of 3 24 4
def bassChordType : Field := .of 3 16 8
def bassAlter1Type : Field := .of 3 12 4
def bassAlter1Degree : Field := .of 3 8 4
def bassAlter2Type : Field := .of 3 4 4
def bassAlter2Degree : Field := .of 3 0 4

end SetChordName

end FlexData

namespace Data128

/-! Fields of the messages of a mixed data set. -/

def mdsId : Field := .of 0 16 4

namespace MdsHeader

def bytesInChunk : Field := .of 0 0 16
def chunksInMds : Field := .of 1 16 16
def chunkNum : Field := .of 1 0 16
def manufacturerId : Field := .of 2 16 16
def deviceId : Field := .of 2 0 16
def subId1 : Field := .of 3 16 16
def subId2 : Field := .of 3 0 16

end MdsHeader

namespace MdsPayload

def value0 : Field := .of 0 0 16
def value1 : Field := .of 1 0 32
def value2 : Field := .of 2 0 32
def value3 : Field := .of 3 0 32

end MdsPayload

end Data128

/-! ## Enumerators of the statuses -/

namespace Mt

def Utility.toNat : Utility → Nat
  | noop => 0b0000
  | jrClock => 0b0001
  | jrTs => 0b0010
  | deltaClockTick => 0b0011
  | deltaClockSince => 0b0100

def Data128.toNat : Data128 → Nat
  | sysex8In1 => 0x0
  | sysex8Start => 0x1
  | sysex8Continue => 0x2
  | sysex8End => 0x3
  | mixedDataSetHeader => 0x8
  | mixedDataSetPayload => 0x9

def Stream.toNat : Stream → Nat
  | endpointDiscovery => 0x00
  | endpointInfoNotification => 0x01
  | deviceIdentityNotification => 0x02
  | endpointNameNotification => 0x03
  | productInstanceIdNotification => 0x04
  | jrConfigurationRequest => 0x05
  | jrConfigurationNotification => 0x06
  | functionBlockDiscovery => 0x10
  | functionBlockInfoNotification => 0x11
  | functionBlockNameNotification => 0x12
  | startOfClip => 0x20
  | endOfClip => 0x21

def FlexData.toNat : FlexData → Nat
  | setTempo => 0x00
  | setTimeSignature => 0x01
  | setMetronome => 0x02
  | setKeySignature => 0x05
  | setChordName => 0x06

theorem Utility.ofNat?_eq_some {n : Nat} {s : Utility} : ofNat? n = some s ↔ n = s.toNat := by
  constructor
  · intro h
    unfold ofNat? at h
    split at h <;> cases h <;> rfl
  · rintro rfl
    cases s <;> rfl

theorem SystemCrt.ofNat?_eq_some {n : Nat} {s : SystemCrt} : ofNat? n = some s ↔ n = s.toNat :=
  ⟨SystemCrt.eq_toNat, fun h => h ▸ ofNat_toNat s⟩

theorem M1cvm.ofNat?_eq_some {n : Nat} {s : M1cvm} : ofNat? n = some s ↔ n = s.toNat :=
  ⟨M1cvm.eq_toNat, fun h => h ▸ ofNat_toNat s⟩

theorem Data64.ofNat?_eq_some {n : Nat} {s : Data64} : ofNat? n = some s ↔ n = s.toNat := by
  constructor
  · intro h
    unfold ofNat? at h
    split at h <;> cases h <;> rfl
  · rintro rfl
    exact ofNat_toNat s

theorem M2cvm.ofNat?_eq_some {n : Nat} {s : M2cvm} : ofNat? n = some s ↔ n = s.toNat := by
  constructor
  · intro h
    unfold ofNat? at h
    split at h <;> cases h <;> rfl
  · rintro rfl
    exact ofNat_toNat s

theorem Data128.ofNat?_eq_some {n : Nat} {s : Data128} : ofNat? n = some s ↔ n = s.toNat := by
  constructor
  · intro h
    unfold ofNat? at h
    split at h <;> cases h <;> rfl
  · rintro rfl
    cases s <;> rfl

theorem Stream.ofNat?_eq_some {n : Nat} {s : Stream} : ofNat? n = some s ↔ n = s.toNat := by
  constructor
  · intro h
    unfold ofNat? at h
    split at h <;> cases h <;> rfl
  · rintro rfl
    cases s <;> rfl

theorem FlexData.ofNat?_eq_some {n : Nat} {s : FlexData} : ofNat? n = some s ↔ n = s.toNat := by
  constructor
  · intro h
    unfold ofNat? at h
    split at h <;> cases h <;> rfl
  · rintro rfl
    cases s <;> rfl

end Mt

/-! ## Classes -/

/-- Two fields of the same bits. -/
def Field.Same (f g : Field) : Prop :=
  f.word = g.word ∧ f.range.index = g.range.index ∧ f.range.bits = g.range.bits

instance (f g : Field) : Decidable (f.Same g) :=
  inferInstanceAs (Decidable (_ ∧ _))

theorem Field.Same.eq {f g : Field} (h : f.Same g) : f = g := by
  obtain ⟨fw, ⟨fi, fb, _, _⟩, _⟩ := f
  obtain ⟨gw, ⟨gi, gb, _, _⟩, _⟩ := g
  obtain ⟨rfl, rfl, rfl⟩ := h
  rfl

/-- No field is disjoint from itself. -/
theorem Field.Disjoint.not_same {f g : Field} (h : f.Disjoint g) : ¬f.Same g := by
  intro hsame
  have hpos := g.range.bits_pos
  rw [hsame.eq] at h
  rcases h with h | h | h
  · exact h rfl
  · omega
  · omega

/-- A class can be used: the status fits its field, the setters stay inside the message and
off type and status, and they write the same bits or none in common. -/
structure MessageClass.Ok (type : MessageType) (status : Option (Field × Nat))
    (fields : List Field) : Prop where
  status_ok : ∀ s ∈ status, s.1.word = 0 ∧ s.1.Disjoint .mt ∧ s.2 < 2 ^ s.1.range.bits
  word_lt : ∀ f ∈ fields, f.word < type.size
  off_mt : ∀ f ∈ fields, f.Disjoint .mt
  off_status : ∀ s ∈ status, ∀ f ∈ fields, f.Disjoint s.1
  apart : ∀ f ∈ fields, ∀ g ∈ fields, f.Disjoint g ∨ f.Same g

theorem MessageClass.ok_iff {type : MessageType} {status : Option (Field × Nat)}
    {fields : List Field} : Ok type status fields ↔
      (∀ s ∈ status, s.1.word = 0 ∧ s.1.Disjoint .mt ∧ s.2 < 2 ^ s.1.range.bits) ∧
      (∀ f ∈ fields, f.word < type.size) ∧ (∀ f ∈ fields, f.Disjoint .mt) ∧
      (∀ s ∈ status, ∀ f ∈ fields, f.Disjoint s.1) ∧
      ∀ f ∈ fields, ∀ g ∈ fields, f.Disjoint g ∨ f.Same g :=
  ⟨fun h => ⟨h.status_ok, h.word_lt, h.off_mt, h.off_status, h.apart⟩, fun ⟨h₁, h₂, h₃, h₄, h₅⟩ =>
    ⟨h₁, h₂, h₃, h₄, h₅⟩⟩

instance (type : MessageType) (status : Option (Field × Nat)) (fields : List Field) :
    Decidable (MessageClass.Ok type status fields) :=
  decidable_of_iff _ MessageClass.ok_iff.symm

/-- A class of messages. -/
structure MessageClass where
  type : MessageType
  /-- The status field, with the enumerator that is its value. `text_common` has none. -/
  status : Option (Field × Nat)
  /-- The fields with a setter. -/
  fields : List Field
  /-- The fields that `word0::check()` wants to be zero. -/
  zero : List Field := []
  ok : MessageClass.Ok type status fields := by decide

namespace MessageClass

/-- `word_base::init<mt, status>` of the first word of as many words as the type has. -/
def init (k : MessageClass) : Message :=
  ((⟨List.replicate k.type.size 0⟩ : Message).set .mt k.type.toNat).sets k.status.toList

/-- `word_base::check<mt, status>`. -/
def Header (k : MessageClass) (m : Message) : Prop :=
  m.get .mt = k.type.toNat ∧ ∀ s ∈ k.status, m.get s.1 = s.2

instance (k : MessageClass) (m : Message) : Decidable (k.Header m) :=
  inferInstanceAs (Decidable (_ ∧ _))

/-- `word0::check()`. -/
def check (k : MessageClass) (m : Message) : Bool :=
  decide (k.Header m) && k.zero.all fun f => m.get f = 0

end MessageClass

/-! ### The fields with a setter, and the classes -/

/-- Fields of utility messages. -/
def Utility.fields : Mt.Utility → List Field
  | .noop => []
  | .jrClock => [senderClockTime]
  | .jrTs => [timestamp]
  | .deltaClockTick => [ticksPqn]
  | .deltaClockSince => [numTicks]

def Utility.messageClass (s : Mt.Utility) : MessageClass where
  type := .utility
  status := some (.status, s.toNat)
  fields := fields s
  zero := match s with
    | .noop => [noopReserved]
    | _ => []
  ok := by cases s <;> decide

/-- Fields of system messages. -/
def System.fields : Mt.SystemCrt → List Field
  | .timingCode => [.group, timeCode]
  | .spp => [.group, positionLsb, positionMsb]
  | .songSelect => [.group, song]
  | .tuneRequest | .timingClock | .sequenceStart | .sequenceContinue | .sequenceStop
  | .activeSensing | .systemReset => [.group]

def System.messageClass (s : Mt.SystemCrt) : MessageClass where
  type := .system
  status := some (.systemStatus, s.toNat)
  fields := fields s
  ok := by cases s <;> decide

/-- Fields of MIDI 1.0 channel voice messages. -/
def M1cvm.fields : Mt.M1cvm → List Field
  | .noteOff | .noteOn => [.group, .channel, note, velocity]
  | .polyPressure => [.group, .channel, note, pressure]
  | .cc => [.group, .channel, controller, value]
  | .programChange => [.group, .channel, program]
  | .channelPressure => [.group, .channel, data]
  | .pitchBend => [.group, .channel, lsbData, msbData]

def M1cvm.messageClass (s : Mt.M1cvm) : MessageClass where
  type := .m1cvm
  status := some (.status, s.toNat)
  fields := fields s
  ok := by cases s <;> decide

/-- Fields of `sysex7`, which is one class for the four statuses. -/
def Data64.fields : List Field :=
  [.group, numberOfBytes, data0, data1, data2, data3, data4, data5]

def Data64.messageClass (s : Mt.Data64) : MessageClass where
  type := .data64
  status := some (.status, s.toNat)
  fields := fields
  ok := by cases s <;> decide

/-- Fields of MIDI 2.0 channel voice messages. Some of these classes have setters for
reserved bits, and `per_note_management` has two names for one bit. -/
def M2cvm.fields : Mt.M2cvm → List Field
  | .noteOff | .noteOn =>
      [.group, .channel, note, attributeType, velocity, noteAttribute]
  | .polyPressure => [.group, .channel, note, pressure]
  | .rpnPerNote | .nrpnPerNote =>
      [.group, .channel, reserved15, note, PerNoteController.index, value]
  | .rpn | .nrpn | .rpnRelative => [.group, .channel, bank, index, value]
  | .nrpnRelative => [.group, .channel, reserved15, bank, reserved7, index, value]
  | .perNoteManage =>
      [.group, .channel, reserved15, note, PerNoteManagement.optionFlags,
        PerNoteManagement.detach, PerNoteManagement.setToDefault, value]
  | .cc => [.group, .channel, controller, value]
  | .programChange =>
      [.group, .channel, ProgramChange.optionFlags, bankValid, program, bankMsb, bankLsb]
  | .channelPressure | .pitchBend => [.group, .channel, value]
  | .pitchBendPerNote => [.group, .channel, note, value]

def M2cvm.messageClass (s : Mt.M2cvm) : MessageClass where
  type := .m2cvm
  status := some (.status, s.toNat)
  fields := fields s
  ok := by cases s <;> decide

/-- Fields of UMP stream messages. -/
def Stream.fields : Mt.Stream → List Field
  | .endpointDiscovery =>
      [format, versionMajor, versionMinor, EndpointDiscovery.filter, value2, value3]
  | .endpointInfoNotification =>
      [format, versionMajor, versionMinor, EndpointInfo.staticFunctionBlocks,
        EndpointInfo.numberFunctionBlocks, EndpointInfo.midi2ProtocolCapability,
        EndpointInfo.midi1ProtocolCapability, EndpointInfo.receiveJrTimestampCapability,
        EndpointInfo.transmitJrTimestampCapability, value2, value3]
  | .deviceIdentityNotification =>
      [format, DeviceIdentity.devManufSysexId1, DeviceIdentity.devManufSysexId2,
        DeviceIdentity.devManufSysexId3, DeviceIdentity.deviceFamilyLsb,
        DeviceIdentity.deviceFamilyMsb, DeviceIdentity.deviceFamilyModelLsb,
        DeviceIdentity.deviceFamilyModelMsb, DeviceIdentity.swRevision1,
        DeviceIdentity.swRevision2, DeviceIdentity.swRevision3, DeviceIdentity.swRevision4]
  | .endpointNameNotification => format :: (List.range' 1 14).map EndpointName.name
  | .productInstanceIdNotification => format :: (List.range' 1 14).map ProductInstanceId.pid
  | .jrConfigurationRequest | .jrConfigurationNotification =>
      [format, JrConfiguration.protocol, JrConfiguration.rxjr, JrConfiguration.txjr,
        value1, value2, value3]
  | .functionBlockDiscovery =>
      [format, FunctionBlockDiscovery.blockNum, FunctionBlockDiscovery.filter,
        value1, value2, value3]
  | .functionBlockInfoNotification =>
      [format, FunctionBlockInfo.blockActive, FunctionBlockInfo.blockNum,
        FunctionBlockInfo.uiHint, FunctionBlockInfo.midi1, FunctionBlockInfo.direction,
        FunctionBlockInfo.firstGroup, FunctionBlockInfo.numSpanned,
        FunctionBlockInfo.ciMessageVersion, FunctionBlockInfo.maxSys8Streams, value2, value3]
  | .functionBlockNameNotification =>
      [format, FunctionBlockName.blockNum] ++ (List.range 13).map FunctionBlockName.name
  | .startOfClip | .endOfClip => [format, value1, value2, value3]

def Stream.messageClass (s : Mt.Stream) : MessageClass where
  type := .stream
  status := some (.streamStatus, s.toNat)
  fields := fields s
  ok := by cases s <;> decide

/-- Fields of flex data messages other than texts. A chord name has a fixed form and bank. -/
def FlexData.fields : Mt.FlexData → List Field
  | .setTempo =>
      [.group, TextCommon.form, TextCommon.address, .channel, .flexStatusBank,
        value1, value2, value3]
  | .setTimeSignature =>
      [.group, TextCommon.form, TextCommon.address, .channel, .flexStatusBank,
        SetTimeSignature.numerator, SetTimeSignature.denominator,
        SetTimeSignature.numberOf32Notes, value2, value3]
  | .setMetronome =>
      [.group, TextCommon.form, TextCommon.address, .channel, .flexStatusBank,
        SetMetronome.numClocksPerPrimaryClick, SetMetronome.barAccentPart1,
        SetMetronome.barAccentPart2, SetMetronome.barAccentPart3,
        SetMetronome.numSubdivisionClicks1, SetMetronome.numSubdivisionClicks2, value3]
  | .setKeySignature =>
      [.group, TextCommon.form, TextCommon.address, .channel, .flexStatusBank,
        SetKeySignature.sharpsFlats, SetKeySignature.tonicNote, value2, value3]
  | .setChordName =>
      [.group, TextCommon.address, .channel, SetChordName.tonicSharpsFlats,
        SetChordName.chordTonic, SetChordName.chordType, SetChordName.alter1Type,
        SetChordName.alter1Degree, SetChordName.alter2Type, SetChordName.alter2Degree,
        SetChordName.alter3Type, SetChordName.alter3Degree, SetChordName.alter4Type,
        SetChordName.alter4Degree, SetChordName.bassSharpsFlats, SetChordName.bassNote,
        SetChordName.bassChordType, SetChordName.bassAlter1Type, SetChordName.bassAlter1Degree,
        SetChordName.bassAlter2Type, SetChordName.bassAlter2Degree]

def FlexData.messageClass (s : Mt.FlexData) : MessageClass where
  type := .flexData
  status := some (.flexStatus, s.toNat)
  fields := fields s
  ok := by cases s <;> decide

/-- `text_common`, which also has a setter for the status. -/
def TextCommon.messageClass : MessageClass where
  type := .flexData
  status := none
  fields :=
    [.group, form, address, .channel, .flexStatusBank, .flexStatus, data0, data1, data2, data3,
      data4, data5, data6, data7, data8, data9, data10, data11]

/-- Fields of `sysex8`, which is one class for four statuses, and of mixed data sets. -/
def Data128.fields : Mt.Data128 → List Field
  | .sysex8In1 | .sysex8Start | .sysex8Continue | .sysex8End =>
      [.group, numberOfBytes, streamId, data0, data1, data2, data3, data4, data5, data6, data7,
        data8, data9, data10, data11, data12]
  | .mixedDataSetHeader =>
      [.group, mdsId, MdsHeader.bytesInChunk, MdsHeader.chunksInMds, MdsHeader.chunkNum,
        MdsHeader.manufacturerId, MdsHeader.deviceId, MdsHeader.subId1, MdsHeader.subId2]
  | .mixedDataSetPayload =>
      [.group, mdsId, MdsPayload.value0, MdsPayload.value1, MdsPayload.value2,
        MdsPayload.value3]

def Data128.messageClass (s : Mt.Data128) : MessageClass where
  type := .data128
  status := some (.status, s.toNat)
  fields := fields s
  ok := by cases s <;> decide

/-- The class of the messages that a function is for. `unknown` takes words of any kind. -/
def Callback.messageClass? : Callback → Option MessageClass
  | .utility s => some (Utility.messageClass s)
  | .system s => some (System.messageClass s)
  | .m1cvm s => some (M1cvm.messageClass s)
  | .data64 s => some (Data64.messageClass s)
  | .m2cvm s => some (M2cvm.messageClass s)
  | .data128 s => some (Data128.messageClass s)
  | .stream s => some (Stream.messageClass s)
  | .flexData s => some (FlexData.messageClass s)
  | .flexText => some TextCommon.messageClass
  | .unknown => none

end Midi2.Ump
