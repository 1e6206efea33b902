import Midi2.Ci.Le7

/-!
# Headers and management messages (`ci/ci_types.hpp`)

Every message exists twice. The `Packed` structure is the layout on the wire: its members
are bytes, and a dispatcher looks at it through a `reinterpret_cast` of its buffer. The
public structure holds numbers. `make` goes from the first to the second, the conversion
operators (`toV1`, `toV2`, …) go back.

A packed structure that ends in an array of run-time length declares it as one element
(`data[1]`); here that member is left out, so that `Layout.size` is the `offsetof` it which
the source uses throughout. The public structures hold such a tail as a `std::span`. What a
span is differs between the two sides: the dispatcher hands out an extent of its own
buffer (`Span`), a sender points at a list of its own. The structures therefore take the
span as a parameter, and `read` turns the first reading into the second.
-/

namespace Midi2.Ci

/-- A `std::span` into the dispatcher's buffer: the index of the first byte it covers and
the number of elements. -/
structure Span (α : Type) where
  first : Nat
  size : Nat
  deriving DecidableEq, Repr

/-- One past the last byte that a span covers. -/
def Span.stop {α : Type} [Layout Byte α] (s : Span α) : Nat :=
  s.first + Layout.size α * s.size

/-- The elements of a span, for a given content of the memory it points into. -/
def Span.read {α : Type} [Layout Byte α] (mem : Nat → Byte) (s : Span α) : List α :=
  Layout.viewList α mem s.first s.size

/-- `muid`: the random number that identifies a MIDI-CI device. -/
abbrev Muid := B28

/-- `broadcast_muid`: reserved for messages that are directed to all listening devices. -/
def broadcastMuid : Muid := 0x0FFFFFFF#28

/-! ## Header -/

namespace Packed

/-- `packed::header`: what every message starts with. -/
structure Header where
  sysex : Byte
  source : Byte
  subId1 : Byte
  subId2 : Byte
  version : Byte
  sourceMuid : ByteArray 4
  destinationMuid : ByteArray 4

instance : Layout Byte Header :=
  Layout.via (fun h => (h.sysex, h.source, h.subId1, h.subId2, h.version, h.sourceMuid,
      h.destinationMuid))
    (fun (a, b, c, d, e, f, g) => ⟨a, b, c, d, e, f, g⟩) fun _ => rfl

@[simp] theorem size_header : Layout.size Header = 13 := rfl

end Packed

/-- `header`: device id (source or destination, depending on the message), message version
and the two MUIDs. -/
structure Header where
  deviceId : B7 := 0
  version : B7 := 1#7
  remoteMuid : Muid := 0
  localMuid : Muid := 0
  deriving DecidableEq, Repr

/-- `bytestream::s7_universal_nrt`. -/
def s7UniversalNrt : Byte := 0x7E#8

/-- `bytestream::s7_midi_ci`. -/
def s7MidiCi : Byte := 0x0D#8

/-- `header::operator packed::header`. -/
def Header.toPacked (h : Header) : Packed.Header where
  sysex := s7UniversalNrt
  source := h.deviceId.toByte
  subId1 := s7MidiCi
  subId2 := 0
  version := h.version.toByte
  sourceMuid := toLe7 h.remoteMuid
  destinationMuid := toLe7 h.localMuid

/-! ## Discovery -/

namespace Packed

structure DiscoveryV1 where
  manufacturer : ByteArray 3
  family : ByteArray 2
  model : ByteArray 2
  version : ByteArray 4
  capability : Byte
  maxSysexSize : ByteArray 4

instance : Layout Byte DiscoveryV1 :=
  Layout.via (fun p => (p.manufacturer, p.family, p.model, p.version, p.capability,
      p.maxSysexSize))
    (fun (a, b, c, d, e, f) => ⟨a, b, c, d, e, f⟩) fun _ => rfl

@[simp] theorem size_discoveryV1 : Layout.size DiscoveryV1 = 16 := rfl

structure DiscoveryV2 where
  v1 : DiscoveryV1
  outputPathId : Byte

instance : Layout Byte DiscoveryV2 :=
  Layout.via (fun p => (p.v1, p.outputPathId)) (fun (a, b) => ⟨a, b⟩) fun _ => rfl

@[simp] theorem size_discoveryV2 : Layout.size DiscoveryV2 = 17 := rfl

/-- `discovery_reply_v1` has the members of `discovery_v1`. -/
structure DiscoveryReplyV1 where
  manufacturer : ByteArray 3
  family : ByteArray 2
  model : ByteArray 2
  version : ByteArray 4
  capability : Byte
  maxSysexSize : ByteArray 4

instance : Layout Byte DiscoveryReplyV1 :=
  Layout.via (fun p => (p.manufacturer, p.family, p.model, p.version, p.capability,
      p.maxSysexSize))
    (fun (a, b, c, d, e, f) => ⟨a, b, c, d, e, f⟩) fun _ => rfl

@[simp] theorem size_discoveryReplyV1 : Layout.size DiscoveryReplyV1 = 16 := rfl

structure DiscoveryReplyV2 where
  v1 : DiscoveryReplyV1
  outputPathId : Byte
  functionBlock : Byte

instance : Layout Byte DiscoveryReplyV2 :=
  Layout.via (fun p => (p.v1, p.outputPathId, p.functionBlock)) (fun (a, b, c) => ⟨a, b, c⟩)
    fun _ => rfl

@[simp] theorem size_discoveryReplyV2 : Layout.size DiscoveryReplyV2 = 18 := rfl

end Packed

/-- The fields of a discovery message. -/
structure Discovery where
  manufacturer : B7Array 3
  family : B14
  model : B14
  version : B7Array 4
  capability : B7
  maxSysexSize : B28
  outputPathId : B7
  deriving DecidableEq

/-- `discovery::make(packed::discovery_v1 const&, b7)`. -/
def Discovery.makeV1 (v1 : Packed.DiscoveryV1) (outputPathId : B7 := 0) : Discovery where
  manufacturer := fromLe7 v1.manufacturer
  family := fromLe7 v1.family
  model := fromLe7 v1.model
  version := fromLe7 v1.version
  capability := fromLe7 v1.capability
  maxSysexSize := fromLe7 v1.maxSysexSize
  outputPathId := outputPathId

/-- `discovery::make(packed::discovery_v2 const&)`. -/
def Discovery.makeV2 (v2 : Packed.DiscoveryV2) : Discovery :=
  makeV1 v2.v1 (fromLe7 v2.outputPathId)

def Discovery.toV1 (m : Discovery) : Packed.DiscoveryV1 where
  manufacturer := toLe7 m.manufacturer
  family := toLe7 m.family
  model := toLe7 m.model
  version := toLe7 m.version
  capability := m.capability.toByte
  maxSysexSize := toLe7 m.maxSysexSize

def Discovery.toV2 (m : Discovery) : Packed.DiscoveryV2 where
  v1 := m.toV1
  outputPathId := toLe7 m.outputPathId

@[simp] theorem Discovery.makeV1_toV1 (m : Discovery) (p : B7) :
    makeV1 m.toV1 p = { m with outputPathId := p } := by
  simp [makeV1, toV1]

@[simp] theorem Discovery.makeV2_toV2 (m : Discovery) : makeV2 m.toV2 = m := by
  simp [makeV2, toV2]

/-- The fields of a reply to discovery. -/
structure DiscoveryReply where
  manufacturer : B7Array 3
  family : B14
  model : B14
  version : B7Array 4
  capability : B7
  maxSysexSize : B28
  outputPathId : B7
  functionBlock : B7
  deriving DecidableEq

def DiscoveryReply.makeV1 (v1 : Packed.DiscoveryReplyV1) (outputPathId functionBlock : B7 := 0) :
    DiscoveryReply where
  manufacturer := fromLe7 v1.manufacturer
  family := fromLe7 v1.family
  model := fromLe7 v1.model
  version := fromLe7 v1.version
  capability := fromLe7 v1.capability
  maxSysexSize := fromLe7 v1.maxSysexSize
  outputPathId := outputPathId
  functionBlock := functionBlock

def DiscoveryReply.makeV2 (v2 : Packed.DiscoveryReplyV2) : DiscoveryReply :=
  makeV1 v2.v1 (fromLe7 v2.outputPathId) (fromLe7 v2.functionBlock)

def DiscoveryReply.toV1 (m : DiscoveryReply) : Packed.DiscoveryReplyV1 where
  manufacturer := toLe7 m.manufacturer
  family := toLe7 m.family
  model := toLe7 m.model
  version := toLe7 m.version
  capability := m.capability.toByte
  maxSysexSize := toLe7 m.maxSysexSize

def DiscoveryReply.toV2 (m : DiscoveryReply) : Packed.DiscoveryReplyV2 where
  v1 := m.toV1
  outputPathId := toLe7 m.outputPathId
  functionBlock := toLe7 m.functionBlock

@[simp] theorem DiscoveryReply.makeV1_toV1 (m : DiscoveryReply) (p f : B7) :
    makeV1 m.toV1 p f = { m with outputPathId := p, functionBlock := f } := by
  simp [makeV1, toV1]

@[simp] theorem DiscoveryReply.makeV2_toV2 (m : DiscoveryReply) : makeV2 m.toV2 = m := by
  simp [makeV2, toV2]

/-! ## Endpoint -/

namespace Packed

structure EndpointV1 where
  status : Byte

instance : Layout Byte EndpointV1 := Layout.via (fun p => p.status) (fun a => ⟨a⟩) fun _ => rfl

@[simp] theorem size_endpointV1 : Layout.size EndpointV1 = 1 := rfl

/-- `endpoint_reply_v1` up to its member `data`. -/
structure EndpointReplyV1 where
  status : Byte
  dataLength : ByteArray 2

instance : Layout Byte EndpointReplyV1 :=
  Layout.via (fun p => (p.status, p.dataLength)) (fun (a, b) => ⟨a, b⟩) fun _ => rfl

@[simp] theorem size_endpointReplyV1 : Layout.size EndpointReplyV1 = 3 := rfl

end Packed

structure Endpoint where
  status : B7
  deriving DecidableEq

def Endpoint.make (p : Packed.EndpointV1) : Endpoint := ⟨B7.ofByte p.status⟩

def Endpoint.toV1 (m : Endpoint) : Packed.EndpointV1 := ⟨m.status.toByte⟩

@[simp] theorem Endpoint.make_toV1 (m : Endpoint) : make m.toV1 = m := by
  simp [make, toV1]

structure EndpointReply (S : Type → Type) where
  status : B7
  information : S B7

/-- `endpoint_reply::make`, for a packed structure at address `ptr`. -/
def EndpointReply.make (ptr : Nat) (p : Packed.EndpointReplyV1) : EndpointReply Span where
  status := fromLe7 p.status
  information := ⟨ptr + Layout.size Packed.EndpointReplyV1, (fromLe7 p.dataLength : B14).toNat⟩

def EndpointReply.toV1 (m : EndpointReply List) : Packed.EndpointReplyV1 where
  status := toLe7 m.status
  dataLength := toLe7 (BitVec.ofNat 14 m.information.length)

theorem EndpointReply.make_toV1 (ptr : Nat) (m : EndpointReply List)
    (h : m.information.length < 2 ^ 14) :
    make ptr m.toV1 = ⟨m.status, ⟨ptr + 3, m.information.length⟩⟩ := by
  simpa [make, toV1] using h

/-! ## Invalidate MUID -/

namespace Packed

structure InvalidateMuidV1 where
  targetMuid : ByteArray 4

instance : Layout Byte InvalidateMuidV1 :=
  Layout.via (fun p => p.targetMuid) (fun a => ⟨a⟩) fun _ => rfl

@[simp] theorem size_invalidateMuidV1 : Layout.size InvalidateMuidV1 = 4 := rfl

end Packed

structure InvalidateMuid where
  targetMuid : Muid
  deriving DecidableEq

def InvalidateMuid.make (p : Packed.InvalidateMuidV1) : InvalidateMuid :=
  ⟨fromLe7 p.targetMuid⟩

def InvalidateMuid.toV1 (m : InvalidateMuid) : Packed.InvalidateMuidV1 := ⟨toLe7 m.targetMuid⟩

@[simp] theorem InvalidateMuid.make_toV1 (m : InvalidateMuid) : make m.toV1 = m := by
  simp [make, toV1]

/-! ## ACK and NAK -/

namespace Packed

/-- `ack_v1` up to its member `message`. -/
structure AckV1 where
  originalId : Byte
  statusCode : Byte
  statusData : Byte
  details : ByteArray 5
  messageLength : ByteArray 2

instance : Layout Byte AckV1 :=
  Layout.via (fun p => (p.originalId, p.statusCode, p.statusData, p.details, p.messageLength))
    (fun (a, b, c, d, e) => ⟨a, b, c, d, e⟩) fun _ => rfl

@[simp] theorem size_ackV1 : Layout.size AckV1 = 10 := rfl

/-- `nak_v1` has no members at all. -/
structure NakV1 where

/-- The `sizeof` of a class without members is one: its only byte is padding. -/
instance : Layout Byte NakV1 :=
  Layout.via (fun _ => (0 : Byte)) (fun _ => ⟨⟩) fun _ => rfl

@[simp] theorem size_nakV1 : Layout.size NakV1 = 1 := rfl

/-- `nak_v2` up to its member `message`. -/
structure NakV2 where
  originalId : Byte
  statusCode : Byte
  statusData : Byte
  details : ByteArray 5
  messageLength : ByteArray 2

instance : Layout Byte NakV2 :=
  Layout.via (fun p => (p.originalId, p.statusCode, p.statusData, p.details, p.messageLength))
    (fun (a, b, c, d, e) => ⟨a, b, c, d, e⟩) fun _ => rfl

@[simp] theorem size_nakV2 : Layout.size NakV2 = 10 := rfl

end Packed

/-- Positive acknowledgement of an action, or notice of ongoing activity. -/
structure Ack (S : Type → Type) where
  originalId : B7
  statusCode : B7
  statusData : B7
  details : B7Array 5
  message : S B7

def Ack.make (ptr : Nat) (v1 : Packed.AckV1) : Ack Span where
  originalId := fromLe7 v1.originalId
  statusCode := fromLe7 v1.statusCode
  statusData := fromLe7 v1.statusData
  details := fromLe7 v1.details
  message := ⟨ptr + Layout.size Packed.AckV1, (fromLe7 v1.messageLength : B14).toNat⟩

def Ack.toV1 (m : Ack List) : Packed.AckV1 where
  originalId := toLe7 m.originalId
  statusCode := toLe7 m.statusCode
  statusData := toLe7 m.statusData
  details := toLe7 m.details
  messageLength := toLe7 (BitVec.ofNat 14 m.message.length)

theorem Ack.make_toV1 (ptr : Nat) (m : Ack List) (h : m.message.length < 2 ^ 14) :
    make ptr m.toV1 =
      ⟨m.originalId, m.statusCode, m.statusData, m.details, ⟨ptr + 10, m.message.length⟩⟩ := by
  simpa [make, toV1] using h

structure Nak (S : Type → Type) where
  originalId : B7
  statusCode : B7
  statusData : B7
  details : B7Array 5
  message : S B7

/-- `nak::make(packed::nak_v1 const&)`: every field takes its default, the span is empty. -/
def Nak.makeV1 (_ : Packed.NakV1) : Nak Span where
  originalId := 0
  statusCode := 0
  statusData := 0
  details := fun _ => 0
  message := ⟨0, 0⟩

def Nak.makeV2 (ptr : Nat) (v2 : Packed.NakV2) : Nak Span where
  originalId := B7.ofByte v2.originalId
  statusCode := B7.ofByte v2.statusCode
  statusData := B7.ofByte v2.statusData
  details := fromLe7 v2.details
  message := ⟨ptr + Layout.size Packed.NakV2, (fromLe7 v2.messageLength : B14).toNat⟩

def Nak.toV2 (m : Nak List) : Packed.NakV2 where
  originalId := toLe7 m.originalId
  statusCode := toLe7 m.statusCode
  statusData := toLe7 m.statusData
  details := toLe7 m.details
  messageLength := toLe7 (BitVec.ofNat 14 m.message.length)

theorem Nak.makeV2_toV2 (ptr : Nat) (m : Nak List) (h : m.message.length < 2 ^ 14) :
    makeV2 ptr m.toV2 =
      ⟨m.originalId, m.statusCode, m.statusData, m.details, ⟨ptr + 10, m.message.length⟩⟩ := by
  simpa [makeV2, toV2] using h

end Midi2.Ci
