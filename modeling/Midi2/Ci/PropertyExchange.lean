import Midi2.Ci.Types

/-!
# Property exchange messages (`ci::property_exchange`)

Seven message types share one structure and one wire format: a request id and a header
text, then the position of this chunk in a sequence of chunks and the data. Both texts have
a length of fourteen bits in front of them, and the second part of the packed message
starts where the header text ends.
-/

namespace Midi2.Ci.PropertyExchange

namespace Packed

structure CapabilitiesV1 where
  numSimultaneous : Byte

instance : Layout Byte CapabilitiesV1 :=
  Layout.via (fun p => p.numSimultaneous) (fun a => ⟨a⟩) fun _ => rfl

@[simp] theorem size_capabilitiesV1 : Layout.size CapabilitiesV1 = 1 := rfl

structure CapabilitiesV2 where
  v1 : CapabilitiesV1
  majorVersion : Byte
  minorVersion : Byte

instance : Layout Byte CapabilitiesV2 :=
  Layout.via (fun p => (p.v1, p.majorVersion, p.minorVersion)) (fun (a, b, c) => ⟨a, b, c⟩)
    fun _ => rfl

@[simp] theorem size_capabilitiesV2 : Layout.size CapabilitiesV2 = 3 := rfl

structure CapabilitiesReplyV1 where
  numSimultaneous : Byte

instance : Layout Byte CapabilitiesReplyV1 :=
  Layout.via (fun p => p.numSimultaneous) (fun a => ⟨a⟩) fun _ => rfl

@[simp] theorem size_capabilitiesReplyV1 : Layout.size CapabilitiesReplyV1 = 1 := rfl

structure CapabilitiesReplyV2 where
  v1 : CapabilitiesReplyV1
  majorVersion : Byte
  minorVersion : Byte

instance : Layout Byte CapabilitiesReplyV2 :=
  Layout.via (fun p => (p.v1, p.majorVersion, p.minorVersion)) (fun (a, b, c) => ⟨a, b, c⟩)
    fun _ => rfl

@[simp] theorem size_capabilitiesReplyV2 : Layout.size CapabilitiesReplyV2 = 3 := rfl

end Packed

structure Capabilities where
  numSimultaneous : B7
  majorVersion : B7
  minorVersion : B7
  deriving DecidableEq

def Capabilities.makeV1 (p : Packed.CapabilitiesV1) : Capabilities :=
  ⟨B7.ofByte p.numSimultaneous, 0, 0⟩

def Capabilities.makeV2 (p : Packed.CapabilitiesV2) : Capabilities :=
  ⟨B7.ofByte p.v1.numSimultaneous, B7.ofByte p.majorVersion, B7.ofByte p.minorVersion⟩

def Capabilities.toV1 (m : Capabilities) : Packed.CapabilitiesV1 := ⟨m.numSimultaneous.toByte⟩

def Capabilities.toV2 (m : Capabilities) : Packed.CapabilitiesV2 :=
  ⟨m.toV1, m.majorVersion.toByte, m.minorVersion.toByte⟩

@[simp] theorem Capabilities.makeV1_toV1 (m : Capabilities) :
    makeV1 m.toV1 = ⟨m.numSimultaneous, 0, 0⟩ := by
  simp [makeV1, toV1]

@[simp] theorem Capabilities.makeV2_toV2 (m : Capabilities) : makeV2 m.toV2 = m := by
  simp [makeV2, toV2, toV1]

structure CapabilitiesReply where
  numSimultaneous : B7
  majorVersion : B7
  minorVersion : B7
  deriving DecidableEq

def CapabilitiesReply.makeV1 (p : Packed.CapabilitiesReplyV1) : CapabilitiesReply :=
  ⟨B7.ofByte p.numSimultaneous, 0, 0⟩

def CapabilitiesReply.makeV2 (p : Packed.CapabilitiesReplyV2) : CapabilitiesReply :=
  ⟨B7.ofByte p.v1.numSimultaneous, B7.ofByte p.majorVersion, B7.ofByte p.minorVersion⟩

def CapabilitiesReply.toV1 (m : CapabilitiesReply) : Packed.CapabilitiesReplyV1 :=
  ⟨m.numSimultaneous.toByte⟩

def CapabilitiesReply.toV2 (m : CapabilitiesReply) : Packed.CapabilitiesReplyV2 :=
  ⟨m.toV1, m.majorVersion.toByte, m.minorVersion.toByte⟩

@[simp] theorem CapabilitiesReply.makeV1_toV1 (m : CapabilitiesReply) :
    makeV1 m.toV1 = ⟨m.numSimultaneous, 0, 0⟩ := by
  simp [makeV1, toV1]

@[simp] theorem CapabilitiesReply.makeV2_toV2 (m : CapabilitiesReply) :
    makeV2 m.toV2 = m := by
  simp [makeV2, toV2, toV1]

/-! ## The messages that carry properties -/

namespace Packed

/-- `property_exchange_pt1` up to its member `header`. -/
structure PropertyExchangePt1 where
  requestId : Byte
  headerLength : ByteArray 2

instance : Layout Byte PropertyExchangePt1 :=
  Layout.via (fun p => (p.requestId, p.headerLength)) (fun (a, b) => ⟨a, b⟩) fun _ => rfl

@[simp] theorem size_propertyExchangePt1 : Layout.size PropertyExchangePt1 = 3 := rfl

/-- `property_exchange_pt2` up to its member `data`. -/
structure PropertyExchangePt2 where
  numberOfChunks : ByteArray 2
  chunkNumber : ByteArray 2
  dataLength : ByteArray 2

instance : Layout Byte PropertyExchangePt2 :=
  Layout.via (fun p => (p.numberOfChunks, p.chunkNumber, p.dataLength))
    (fun (a, b, c) => ⟨a, b, c⟩) fun _ => rfl

@[simp] theorem size_propertyExchangePt2 : Layout.size PropertyExchangePt2 = 6 := rfl

end Packed

structure ChunkInfo where
  numberOfChunks : B14
  chunkNumber : B14
  deriving DecidableEq, Repr

/-- `property_exchange_type`. -/
inductive PropertyExchangeType where
  | get
  | getReply
  | set
  | setReply
  | subscription
  | subscriptionReply
  | notify
  deriving DecidableEq, Repr

set_option linter.dupNamespace false

/-- `property_exchange<Pet>`; the texts are spans of `char`. -/
structure PropertyExchange (S : Type → Type) where
  chunk : ChunkInfo
  request : B7
  header : S Byte
  data : S Byte

def PropertyExchange.toPt1 (pe : PropertyExchange List) : Packed.PropertyExchangePt1 where
  requestId := pe.request.toByte
  headerLength := toLe7 (BitVec.ofNat 14 pe.header.length)

def PropertyExchange.toPt2 (pe : PropertyExchange List) : Packed.PropertyExchangePt2 where
  numberOfChunks := toLe7 pe.chunk.numberOfChunks
  chunkNumber := toLe7 pe.chunk.chunkNumber
  dataLength := toLe7 (BitVec.ofNat 14 pe.data.length)

end Midi2.Ci.PropertyExchange
