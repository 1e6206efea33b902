import Midi2.Ci.Message

/-!
# The dispatcher (`ci/ci_dispatcher.hpp`)

`ci_dispatcher` takes a message apart one byte at a time. It collects `count_` bytes in
`buffer_` and then runs its consumer, a member function that either asks for more bytes of
the same message or passes the message on. The first consumer is `header`, which looks the
message type up in a table and installs the handler of that type; the last one is
`discard`, which ignores whatever follows.

The buffer is a window, from address zero up to `bufferSize`, in a memory that goes on
behind it. The model stores and reads through addresses, as the code does through `pos_`
and `reinterpret_cast`, so that leaving the window is something that can happen, and has to
be excluded by proof. `calls` logs what the dispatcher asks of and reports to its user;
for a message it also records `pos_` and the memory at that moment, the state in which the
callback looks through the spans it is given.
-/

namespace Midi2.Ci

open ProfileConfiguration (InquiryReply Added Removed Details DetailsReply On Off Enabled
  Disabled SpecificData Profile)
open PropertyExchange (PropertyExchangeType ChunkInfo)

/-- One call of a backend function. -/
inductive Call where
  /-- `system.check_muid` and its answer. -/
  | checkMuid (group : Byte) (muid : Muid) (answer : Bool)
  /-- `system.unknown_midici`. -/
  | unknownMidici (hdr : Header)
  /-- `system.buffer_overflow`. -/
  | bufferOverflow
  /-- The function of the management, profile, property exchange or process inquiry
  backend that takes messages of this type. -/
  | message (hdr : Header) (m : Message Span) (pos : Nat) (memory : Nat → Byte)

/-- What the dispatcher is instantiated with. A backend may keep state in its context, so
the answer of `check_muid` depends on all calls made so far. `memory` is what lies around
the buffer. -/
structure Config where
  bufferSize : Nat
  header_fits : 13 ≤ bufferSize
  checkMuid : List Call → Byte → Muid → Bool
  memory : Nat → Byte := fun _ => 0

/-- The consumers that handle the body of a message. -/
inductive Handler where
  | discovery
  | discoveryReply
  | endpoint
  | endpointReply
  | invalidateMuid
  | ack
  | nak
  | profileInquiry
  | profileInquiryReply
  | profileAdded
  | profileRemoved
  | profileDetails
  | profileDetailsReply
  | profileOn
  | profileOff
  | profileEnabled
  | profileDisabled
  | profileSpecificData
  | peCapabilities
  | peCapabilitiesReply
  | propertyExchange
  | processInquiryCapabilities
  | processInquiryCapabilitiesReply
  | processInquiryMidiMessageReport
  | processInquiryMidiMessageReportReply
  | processInquiryMidiMessageReportEnd
  deriving DecidableEq, Repr

/-- `consumer_fn`. -/
inductive Consumer where
  | header
  | discard
  | handler (h : Handler)
  deriving DecidableEq, Repr

/-- The members of `ci_dispatcher`, and the calls it has made. -/
structure Dispatcher where
  count : Nat := Layout.size Packed.Header
  type : Byte := 0
  group : Byte := 0
  consumer : Consumer := .header
  header : Header := {}
  buffer : Nat → Byte
  pos : Nat := 0
  calls : List Call := []

namespace Dispatcher

/-- `ci_dispatcher(device_id, group, config)`. -/
def fresh (cfg : Config) (deviceId : B7) (group : Byte) : Dispatcher where
  group := group
  header := { deviceId := deviceId }
  buffer := fun i => if i < cfg.bufferSize then 0 else cfg.memory i

/-! ## Handlers -/

/-- `reinterpret_cast<α const*>(buffer_.data() + off)`. -/
def view (d : Dispatcher) (α : Type) [Layout Byte α] (off : Nat) : α :=
  Layout.cast α d.buffer off

/-- `count_ = n; return;`: a further stage of the message is awaited. -/
def await (d : Dispatcher) (n : Nat) : Dispatcher :=
  { d with count := n }

/-- `consumer_ = &ci_dispatcher::discard` without a callback. -/
def giveUp (d : Dispatcher) : Dispatcher :=
  { d with consumer := .discard }

/-- A callback is made and the rest of the input discarded. -/
def deliver (d : Dispatcher) (m : Message Span) : Dispatcher :=
  { d with consumer := .discard, calls := d.calls ++ [.message d.header m d.pos d.buffer] }

/-- The handlers of messages with one fixed layout. -/
def fixed (V : Type) [Layout Byte V] (make : V → Message Span) (d : Dispatcher) : Dispatcher :=
  d.deliver (make (d.view V 0))

/-- The handlers of messages whose layout depends on the version in the header. -/
def versioned (V1 V2 : Type) [Layout Byte V1] [Layout Byte V2] (make1 : V1 → Message Span)
    (make2 : V2 → Message Span) (d : Dispatcher) : Dispatcher :=
  if d.header.version = 1#7 then d.fixed V1 make1 else d.fixed V2 make2

/-- The handlers of messages that exist from version 2 on. -/
def sinceV2 (handler : Dispatcher → Dispatcher) (d : Dispatcher) : Dispatcher :=
  if 1#7 < d.header.version then handler d else d.giveUp

/-- The handlers of messages that end in an array of run-time length. They are entered when
the fixed part has arrived and, unless the array is empty, once more at its end. -/
def withTail (V : Type) [Layout Byte V] (length : V → ByteArray 2) (make : Nat → V → Message Span)
    (d : Dispatcher) : Dispatcher :=
  let ptr := d.view V 0
  let dataLength := (fromLe7 (length ptr) : B14).toNat
  if d.pos = Layout.size V ∧ dataLength > 0 then
    d.await dataLength
  else
    d.deliver (make 0 ptr)

def discovery : Dispatcher → Dispatcher :=
  versioned Packed.DiscoveryV1 Packed.DiscoveryV2 (fun v => .discovery (.makeV1 v))
    (fun v => .discovery (.makeV2 v))

def discoveryReply : Dispatcher → Dispatcher :=
  versioned Packed.DiscoveryReplyV1 Packed.DiscoveryReplyV2
    (fun v => .discoveryReply (.makeV1 v)) (fun v => .discoveryReply (.makeV2 v))

def invalidateMuid : Dispatcher → Dispatcher :=
  fixed Packed.InvalidateMuidV1 fun v => .invalidateMuid (.make v)

def ack : Dispatcher → Dispatcher :=
  withTail Packed.AckV1 (·.messageLength) fun ptr v => .ack (.make ptr v)

/-- In version 1 a NAK is `sizeof(nak_v1)` bytes long, otherwise it has a tail. -/
def nak (d : Dispatcher) : Dispatcher :=
  if d.header.version = 1#7 then
    d.fixed Packed.NakV1 fun v => .nak (.makeV1 v)
  else
    d.withTail Packed.NakV2 (·.messageLength) fun ptr v => .nak (.makeV2 ptr v)

def endpoint : Dispatcher → Dispatcher :=
  fixed Packed.EndpointV1 fun v => .endpoint (.make v)

def endpointReply : Dispatcher → Dispatcher :=
  withTail Packed.EndpointReplyV1 (·.dataLength) fun ptr v => .endpointReply (.make ptr v)

def profileInquiry (d : Dispatcher) : Dispatcher :=
  d.deliver .profileInquiry

def profileInquiryReply (d : Dispatcher) : Dispatcher :=
  let pt1 := d.view ProfileConfiguration.Packed.InquiryReplyV1Pt1 0
  let idsOff := Layout.size ProfileConfiguration.Packed.InquiryReplyV1Pt1
  let numEnabled := (fromLe7 pt1.numEnabled : B14).toNat
  let numEnabledSize := numEnabled * Layout.size Profile
  if numEnabled > 0 ∧ d.pos = idsOff then
    -- The list of enabled profiles and the fixed size portion of part 2.
    d.await (numEnabledSize + Layout.size ProfileConfiguration.Packed.InquiryReplyV1Pt2)
  else
    let ptr2 := idsOff + numEnabledSize
    let pt2 := d.view ProfileConfiguration.Packed.InquiryReplyV1Pt2 ptr2
    let numDisabled := (fromLe7 pt2.numDisabled : B14).toNat
    if numDisabled > 0 ∧
        d.pos = ptr2 + Layout.size ProfileConfiguration.Packed.InquiryReplyV1Pt2 then
      d.await (numDisabled * Layout.size Profile)
    else
      d.deliver (.profileInquiryReply (.make 0 pt1 ptr2 pt2))

def profileAdded : Dispatcher → Dispatcher :=
  fixed ProfileConfiguration.Packed.AddedV1 fun v => .profileAdded (.make v)

def profileRemoved : Dispatcher → Dispatcher :=
  fixed ProfileConfiguration.Packed.RemovedV1 fun v => .profileRemoved (.make v)

def profileDetails : Dispatcher → Dispatcher :=
  fixed ProfileConfiguration.Packed.DetailsV1 fun v => .profileDetails (.make v)

def profileDetailsReply : Dispatcher → Dispatcher :=
  withTail ProfileConfiguration.Packed.DetailsReplyV1 (·.dataLength)
    fun ptr v => .profileDetailsReply (.make ptr v)

def profileOn : Dispatcher → Dispatcher :=
  versioned ProfileConfiguration.Packed.OnV1 ProfileConfiguration.Packed.OnV2
    (fun v => .profileOn (.makeV1 v)) (fun v => .profileOn (.makeV2 v))

def profileOff : Dispatcher → Dispatcher :=
  versioned ProfileConfiguration.Packed.OffV1 ProfileConfiguration.Packed.OffV2
    (fun v => .profileOff (.makeV1 v)) (fun v => .profileOff (.makeV2 v))

def profileEnabled : Dispatcher → Dispatcher :=
  versioned ProfileConfiguration.Packed.EnabledV1 ProfileConfiguration.Packed.EnabledV2
    (fun v => .profileEnabled (.makeV1 v)) (fun v => .profileEnabled (.makeV2 v))

def profileDisabled : Dispatcher → Dispatcher :=
  versioned ProfileConfiguration.Packed.DisabledV1 ProfileConfiguration.Packed.DisabledV2
    (fun v => .profileDisabled (.makeV1 v)) (fun v => .profileDisabled (.makeV2 v))

def profileSpecificData : Dispatcher → Dispatcher :=
  withTail ProfileConfiguration.Packed.SpecificDataV1 (·.dataLength)
    fun ptr v => .profileSpecificData (.make ptr v)

def peCapabilities : Dispatcher → Dispatcher :=
  versioned PropertyExchange.Packed.CapabilitiesV1 PropertyExchange.Packed.CapabilitiesV2
    (fun v => .peCapabilities (.makeV1 v)) (fun v => .peCapabilities (.makeV2 v))

def peCapabilitiesReply : Dispatcher → Dispatcher :=
  versioned PropertyExchange.Packed.CapabilitiesReplyV1
    PropertyExchange.Packed.CapabilitiesReplyV2
    (fun v => .peCapabilitiesReply (.makeV1 v)) (fun v => .peCapabilitiesReply (.makeV2 v))

/-- The `switch` over `type_` at the end of `property_exchange`. -/
def propertyExchangeType (type : Byte) : Option PropertyExchangeType :=
  [PropertyExchangeType.get, .getReply, .set, .setReply, .subscription, .subscriptionReply,
    .notify].find? fun pet => pet.id.toByte = type

def propertyExchange (d : Dispatcher) : Dispatcher :=
  let size := Layout.size PropertyExchange.Packed.PropertyExchangePt1
  let pt1 := d.view PropertyExchange.Packed.PropertyExchangePt1 0
  let headerLength := (fromLe7 pt1.headerLength : B14).toNat
  if d.pos = size ∧ headerLength > 0 then
    d.await headerLength
  else
    let size := size + headerLength
    let pt2Size := Layout.size PropertyExchange.Packed.PropertyExchangePt2
    if d.pos = size then
      d.await pt2Size
    else
      let pt2 := d.view PropertyExchange.Packed.PropertyExchangePt2 size
      let size := size + pt2Size
      let dataLength := (fromLe7 pt2.dataLength : B14).toNat
      if d.pos = size ∧ dataLength > 0 then
        d.await dataLength
      else
        let chunk : ChunkInfo := ⟨fromLe7 pt2.numberOfChunks, fromLe7 pt2.chunkNumber⟩
        let request := B7.ofByte pt1.requestId
        let header : Span Byte :=
          ⟨Layout.size PropertyExchange.Packed.PropertyExchangePt1, headerLength⟩
        let data : Span Byte := ⟨size, dataLength⟩
        match propertyExchangeType d.type with
        | some .get => d.deliver (.propertyExchange .get ⟨chunk, request, header, ⟨0, 0⟩⟩)
        | some pet => d.deliver (.propertyExchange pet ⟨chunk, request, header, data⟩)
        | none => d.giveUp

def processInquiryCapabilities : Dispatcher → Dispatcher :=
  sinceV2 fun d => d.deliver .piCapabilities

def processInquiryCapabilitiesReply : Dispatcher → Dispatcher :=
  sinceV2 (fixed ProcessInquiry.Packed.CapabilitiesReplyV2
    fun v => .piCapabilitiesReply (.make v))

def processInquiryMidiMessageReport : Dispatcher → Dispatcher :=
  sinceV2 (fixed ProcessInquiry.Packed.MidiMessageReportV2
    fun v => .piMidiMessageReport (.make v))

def processInquiryMidiMessageReportReply : Dispatcher → Dispatcher :=
  sinceV2 (fixed ProcessInquiry.Packed.MidiMessageReportReplyV2
    fun v => .piMidiMessageReportReply (.make v))

def processInquiryMidiMessageReportEnd : Dispatcher → Dispatcher :=
  sinceV2 fun d => d.deliver .piMidiMessageReportEnd

/-- The member function that a handler stands for. -/
def handle : Handler → Dispatcher → Dispatcher
  | .discovery => discovery
  | .discoveryReply => discoveryReply
  | .endpoint => endpoint
  | .endpointReply => endpointReply
  | .invalidateMuid => invalidateMuid
  | .ack => ack
  | .nak => nak
  | .profileInquiry => profileInquiry
  | .profileInquiryReply => profileInquiryReply
  | .profileAdded => profileAdded
  | .profileRemoved => profileRemoved
  | .profileDetails => profileDetails
  | .profileDetailsReply => profileDetailsReply
  | .profileOn => profileOn
  | .profileOff => profileOff
  | .profileEnabled => profileEnabled
  | .profileDisabled => profileDisabled
  | .profileSpecificData => profileSpecificData
  | .peCapabilities => peCapabilities
  | .peCapabilitiesReply => peCapabilitiesReply
  | .propertyExchange => propertyExchange
  | .processInquiryCapabilities => processInquiryCapabilities
  | .processInquiryCapabilitiesReply => processInquiryCapabilitiesReply
  | .processInquiryMidiMessageReport => processInquiryMidiMessageReport
  | .processInquiryMidiMessageReportReply => processInquiryMidiMessageReportReply
  | .processInquiryMidiMessageReportEnd => processInquiryMidiMessageReportEnd

end Dispatcher

/-! ## The table of messages -/

/-- `message_dispatch_info`. -/
structure MessageDispatchInfo where
  type : MessageType
  v1size : Nat
  v2size : Nat
  consumer : Handler

/-- `header_.version == b7{1U} ? pos->v1size : pos->v2size`. -/
def MessageDispatchInfo.size (info : MessageDispatchInfo) (version : B7) : Nat :=
  if version = 1#7 then info.v1size else info.v2size

section
open ProfileConfiguration.Packed (InquiryReplyV1Pt1 AddedV1 RemovedV1 DetailsV1 DetailsReplyV1
  OnV1 OnV2 OffV1 OffV2 EnabledV1 EnabledV2 DisabledV1 DisabledV2 SpecificDataV1)
open PropertyExchange.Packed (CapabilitiesV1 CapabilitiesV2 CapabilitiesReplyV1 PropertyExchangePt1)
open ProcessInquiry.Packed (MidiMessageReportV2 MidiMessageReportReplyV2)
open Layout (size)

/-- The table in `header()`, sorted by message type. -/
def messages : List MessageDispatchInfo := [
  ⟨.profileInquiry, 0, 0, .profileInquiry⟩,
  ⟨.profileInquiryReply, size InquiryReplyV1Pt1, size InquiryReplyV1Pt1, .profileInquiryReply⟩,
  ⟨.profileSetOn, size OnV1, size OnV2, .profileOn⟩,
  ⟨.profileSetOff, size OffV1, size OffV2, .profileOff⟩,
  ⟨.profileEnabled, size EnabledV1, size EnabledV2, .profileEnabled⟩,
  ⟨.profileDisabled, size DisabledV1, size DisabledV2, .profileDisabled⟩,
  ⟨.profileAdded, size AddedV1, size AddedV1, .profileAdded⟩,
  ⟨.profileRemoved, size RemovedV1, size RemovedV1, .profileRemoved⟩,
  ⟨.profileDetails, size DetailsV1, size DetailsV1, .profileDetails⟩,
  ⟨.profileDetailsReply, size DetailsReplyV1, size DetailsReplyV1, .profileDetailsReply⟩,
  ⟨.profileSpecificData, size SpecificDataV1, size SpecificDataV1, .profileSpecificData⟩,
  ⟨.peCapability, size CapabilitiesV1, size CapabilitiesV2, .peCapabilities⟩,
  ⟨.peCapabilityReply, size CapabilitiesReplyV1,
    size PropertyExchange.Packed.CapabilitiesReplyV2, .peCapabilitiesReply⟩,
  ⟨.peGet, size PropertyExchangePt1, size PropertyExchangePt1, .propertyExchange⟩,
  ⟨.peGetReply, size PropertyExchangePt1, size PropertyExchangePt1, .propertyExchange⟩,
  ⟨.peSet, size PropertyExchangePt1, size PropertyExchangePt1, .propertyExchange⟩,
  ⟨.peSetReply, size PropertyExchangePt1, size PropertyExchangePt1, .propertyExchange⟩,
  ⟨.peSub, size PropertyExchangePt1, size PropertyExchangePt1, .propertyExchange⟩,
  ⟨.peSubReply, size PropertyExchangePt1, size PropertyExchangePt1, .propertyExchange⟩,
  ⟨.peNotify, size PropertyExchangePt1, size PropertyExchangePt1, .propertyExchange⟩,
  ⟨.piCapability, 0, 0, .processInquiryCapabilities⟩,
  ⟨.piCapabilityReply, 0, size ProcessInquiry.Packed.CapabilitiesReplyV2,
    .processInquiryCapabilitiesReply⟩,
  ⟨.piMmReport, 0, size MidiMessageReportV2, .processInquiryMidiMessageReport⟩,
  ⟨.piMmReportReply, 0, size MidiMessageReportReplyV2, .processInquiryMidiMessageReportReply⟩,
  ⟨.piMmReportEnd, 0, 0, .processInquiryMidiMessageReportEnd⟩,
  ⟨.discovery, size Packed.DiscoveryV1, size Packed.DiscoveryV2, .discovery⟩,
  ⟨.discoveryReply, size Packed.DiscoveryReplyV1, size Packed.DiscoveryReplyV2,
    .discoveryReply⟩,
  ⟨.endpoint, size Packed.EndpointV1, size Packed.EndpointV1, .endpoint⟩,
  ⟨.endpointReply, size Packed.EndpointReplyV1, size Packed.EndpointReplyV1, .endpointReply⟩,
  ⟨.ack, size Packed.AckV1, size Packed.AckV1, .ack⟩,
  ⟨.invalidateMuid, size Packed.InvalidateMuidV1, size Packed.InvalidateMuidV1,
    .invalidateMuid⟩,
  ⟨.nak, size Packed.NakV1, size Packed.NakV2, .nak⟩]

end

/-- `std::lower_bound` on the table, followed by the test that the entry it finds is the
one that was looked for. -/
def lookup (type : Byte) : Option MessageDispatchInfo :=
  match (messages.dropWhile fun info => info.type.toByte < type).head? with
  | none => none
  | some info => if info.type.toByte = type then some info else none

/-- The table is sorted, as `header()` asserts and `std::lower_bound` requires. -/
theorem messages_sorted :
    messages.Pairwise fun a b => a.type.toByte < b.type.toByte := by
  decide

namespace Dispatcher

/-! ## The protocol -/

/-- `discard()`. -/
def discard (cfg : Config) (d : Dispatcher) : Dispatcher :=
  { d with pos := 0, count := cfg.bufferSize }

/-- `overflow()`. -/
def overflow (d : Dispatcher) : Dispatcher :=
  { d with calls := d.calls ++ [.bufferOverflow], count := 0, pos := 0, consumer := .discard }

/-- The header members that `header()` takes from the buffer. -/
def readHeader (d : Dispatcher) : Dispatcher :=
  let h := d.view Packed.Header 0
  { d with
    type := h.subId2
    header := { d.header with
      version := B7.ofByte h.version
      remoteMuid := fromLe7 h.sourceMuid
      localMuid := fromLe7 h.destinationMuid } }

/-- `header_.local_muid != broadcast_muid && !check_muid(…)`, negated: whether the message
is for us, and the dispatcher after it has asked. -/
def accept (cfg : Config) (d : Dispatcher) : Bool × Dispatcher :=
  if d.header.localMuid = broadcastMuid then
    (true, d)
  else
    let answer := cfg.checkMuid d.calls d.group d.header.localMuid
    (answer, { d with calls := d.calls ++ [.checkMuid d.group d.header.localMuid answer] })

/-- The branch of `header()` for a message type that is not in the table. -/
def unknown (d : Dispatcher) : Dispatcher :=
  { d with
    consumer := .discard
    count := 0
    calls := d.calls ++ [Call.unknownMidici d.header] }

/-- The branch of `header()` for a message that is not intended for us. -/
def reject (d : Dispatcher) : Dispatcher :=
  { d with consumer := .discard, count := 0 }

/-- The branch of `header()` that hands over to the handler of the message. -/
def install (info : MessageDispatchInfo) (d : Dispatcher) : Dispatcher :=
  let d := { d with
    consumer := .handler info.consumer
    count := info.size d.header.version }
  if d.count = 0 then handle info.consumer d else d

/-- `header()`. -/
def headerConsumer (cfg : Config) (d : Dispatcher) : Dispatcher :=
  let d := d.readHeader
  let d :=
    match lookup d.type with
    | none => d.unknown
    | some info =>
        match d.accept cfg with
        | (false, d) => d.reject
        | (true, d) => d.install info
  { d with pos := 0 }

/-- `(this->*consumer_)()`. -/
def consume (cfg : Config) (d : Dispatcher) : Dispatcher :=
  match d.consumer with
  | .header => d.headerConsumer cfg
  | .discard => d.discard cfg
  | .handler h => handle h d

/-- The byte is stored and counted. `pos_` is an `unsigned`. -/
def store (d : Dispatcher) (s7 : Byte) : Dispatcher :=
  { d with
    buffer := Function.update d.buffer d.pos s7
    pos := (d.pos + 1) % 2 ^ 32
    count := d.count - 1 }

/-- `dispatch(s7)`. -/
def dispatch (cfg : Config) (d : Dispatcher) (s7 : Byte) : Dispatcher :=
  if 0 < d.count ∧ cfg.bufferSize ≤ d.pos then
    d.overflow
  else
    let d := if 0 < d.count then d.store s7 else d
    if d.count = 0 then d.consume cfg else d

/-- The dispatcher after a sequence of bytes. -/
def run (cfg : Config) (d : Dispatcher) (bs : List Byte) : Dispatcher :=
  bs.foldl (dispatch cfg) d

end Dispatcher

end Midi2.Ci
