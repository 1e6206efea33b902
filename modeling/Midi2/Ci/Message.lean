import Midi2.Ci.ProcessInquiry
import Midi2.Ci.ProfileConfiguration
import Midi2.Ci.PropertyExchange

/-!
# All messages

The source has one C++ type for each MIDI-CI message, one overload of `create_message` and
one backend function that takes it. `Message` is their sum: what a sender passes to
`create_message` and what a dispatcher passes to a callback is a `Message`, with lists for
spans in the first case and extents of the dispatcher's buffer in the second.
-/

namespace Midi2.Ci

open ProfileConfiguration (InquiryReply Added Removed Details DetailsReply On Off Enabled
  Disabled SpecificData)
open PropertyExchange (PropertyExchangeType)

/-- `enum class message`. -/
inductive MessageType where
  | protocolNegotiation
  | protocolNegotiationReply
  | protocolSet
  | protocolTest
  | protocolTestResponder
  | protocolConfirm
  | profileInquiry
  | profileInquiryReply
  | profileSetOn
  | profileSetOff
  | profileEnabled
  | profileDisabled
  | profileAdded
  | profileRemoved
  | profileDetails
  | profileDetailsReply
  | profileSpecificData
  | peCapability
  | peCapabilityReply
  | peGet
  | peGetReply
  | peSet
  | peSetReply
  | peSub
  | peSubReply
  | peNotify
  | piCapability
  | piCapabilityReply
  | piMmReport
  | piMmReportReply
  | piMmReportEnd
  | discovery
  | discoveryReply
  | endpoint
  | endpointReply
  | ack
  | invalidateMuid
  | nak
  deriving DecidableEq, Repr

/-- The value of an enumerator, which is the byte on the wire. -/
def MessageType.toByte : MessageType → Byte
  | protocolNegotiation => 0x10
  | protocolNegotiationReply => 0x11
  | protocolSet => 0x12
  | protocolTest => 0x13
  | protocolTestResponder => 0x14
  | protocolConfirm => 0x15
  | profileInquiry => 0x20
  | profileInquiryReply => 0x21
  | profileSetOn => 0x22
  | profileSetOff => 0x23
  | profileEnabled => 0x24
  | profileDisabled => 0x25
  | profileAdded => 0x26
  | profileRemoved => 0x27
  | profileDetails => 0x28
  | profileDetailsReply => 0x29
  | profileSpecificData => 0x2F
  | peCapability => 0x30
  | peCapabilityReply => 0x31
  | peGet => 0x34
  | peGetReply => 0x35
  | peSet => 0x36
  | peSetReply => 0x37
  | peSub => 0x38
  | peSubReply => 0x39
  | peNotify => 0x3F
  | piCapability => 0x40
  | piCapabilityReply => 0x41
  | piMmReport => 0x42
  | piMmReportReply => 0x43
  | piMmReportEnd => 0x44
  | discovery => 0x70
  | discoveryReply => 0x71
  | endpoint => 0x72
  | endpointReply => 0x73
  | ack => 0x7D
  | invalidateMuid => 0x7E
  | nak => 0x7F

/-- `type_to_packed<property_exchange<Pet>>::id`. -/
def PropertyExchange.PropertyExchangeType.id : PropertyExchangeType → MessageType
  | get => .peGet
  | getReply => .peGetReply
  | set => .peSet
  | setReply => .peSetReply
  | subscription => .peSub
  | subscriptionReply => .peSubReply
  | notify => .peNotify

inductive Message (S : Type → Type) where
  | discovery (m : Discovery)
  | discoveryReply (m : DiscoveryReply)
  | endpoint (m : Endpoint)
  | endpointReply (m : EndpointReply S)
  | invalidateMuid (m : InvalidateMuid)
  | ack (m : Ack S)
  | nak (m : Nak S)
  | profileInquiry
  | profileInquiryReply (m : InquiryReply S)
  | profileAdded (m : Added)
  | profileRemoved (m : Removed)
  | profileDetails (m : Details)
  | profileDetailsReply (m : DetailsReply S)
  | profileOn (m : On)
  | profileOff (m : Off)
  | profileEnabled (m : Enabled)
  | profileDisabled (m : Disabled)
  | profileSpecificData (m : SpecificData S)
  | peCapabilities (m : PropertyExchange.Capabilities)
  | peCapabilitiesReply (m : PropertyExchange.CapabilitiesReply)
  | propertyExchange (pet : PropertyExchangeType) (m : PropertyExchange.PropertyExchange S)
  | piCapabilities
  | piCapabilitiesReply (m : ProcessInquiry.CapabilitiesReply)
  | piMidiMessageReport (m : ProcessInquiry.MidiMessageReport)
  | piMidiMessageReportReply (m : ProcessInquiry.MidiMessageReportReply)
  | piMidiMessageReportEnd

namespace Message

variable {S : Type → Type}

/-- `type_to_packed<T>::id`. -/
def id : Message S → MessageType
  | discovery _ => .discovery
  | discoveryReply _ => .discoveryReply
  | endpoint _ => .endpoint
  | endpointReply _ => .endpointReply
  | invalidateMuid _ => .invalidateMuid
  | ack _ => .ack
  | nak _ => .nak
  | profileInquiry => .profileInquiry
  | profileInquiryReply _ => .profileInquiryReply
  | profileAdded _ => .profileAdded
  | profileRemoved _ => .profileRemoved
  | profileDetails _ => .profileDetails
  | profileDetailsReply _ => .profileDetailsReply
  | profileOn _ => .profileSetOn
  | profileOff _ => .profileSetOff
  | profileEnabled _ => .profileEnabled
  | profileDisabled _ => .profileDisabled
  | profileSpecificData _ => .profileSpecificData
  | peCapabilities _ => .peCapability
  | peCapabilitiesReply _ => .peCapabilityReply
  | propertyExchange pet _ => pet.id
  | piCapabilities => .piCapability
  | piCapabilitiesReply _ => .piCapabilityReply
  | piMidiMessageReport _ => .piMmReport
  | piMidiMessageReportReply _ => .piMmReportReply
  | piMidiMessageReportEnd => .piMmReportEnd

/-- The message with its spans replaced by the elements they cover. -/
def read (mem : Nat → Byte) : Message Span → Message List
  | discovery m => discovery m
  | discoveryReply m => discoveryReply m
  | endpoint m => endpoint m
  | endpointReply m => endpointReply ⟨m.status, m.information.read mem⟩
  | invalidateMuid m => invalidateMuid m
  | ack m => ack ⟨m.originalId, m.statusCode, m.statusData, m.details, m.message.read mem⟩
  | nak m => nak ⟨m.originalId, m.statusCode, m.statusData, m.details, m.message.read mem⟩
  | profileInquiry => profileInquiry
  | profileInquiryReply m => profileInquiryReply ⟨m.enabled.read mem, m.disabled.read mem⟩
  | profileAdded m => profileAdded m
  | profileRemoved m => profileRemoved m
  | profileDetails m => profileDetails m
  | profileDetailsReply m => profileDetailsReply ⟨m.pid, m.target, m.data.read mem⟩
  | profileOn m => profileOn m
  | profileOff m => profileOff m
  | profileEnabled m => profileEnabled m
  | profileDisabled m => profileDisabled m
  | profileSpecificData m => profileSpecificData ⟨m.pid, m.data.read mem⟩
  | peCapabilities m => peCapabilities m
  | peCapabilitiesReply m => peCapabilitiesReply m
  | propertyExchange pet m =>
      propertyExchange pet ⟨m.chunk, m.request, m.header.read mem, m.data.read mem⟩
  | piCapabilities => piCapabilities
  | piCapabilitiesReply m => piCapabilitiesReply m
  | piMidiMessageReport m => piMidiMessageReport m
  | piMidiMessageReportReply m => piMidiMessageReportReply m
  | piMidiMessageReportEnd => piMidiMessageReportEnd

/-- For each span of the message, the index of its first byte and one past its last. -/
def extents : Message Span → List (Nat × Nat)
  | endpointReply m => [(m.information.first, m.information.stop)]
  | ack m => [(m.message.first, m.message.stop)]
  | nak m => [(m.message.first, m.message.stop)]
  | profileInquiryReply m =>
      [(m.enabled.first, m.enabled.stop), (m.disabled.first, m.disabled.stop)]
  | profileDetailsReply m => [(m.data.first, m.data.stop)]
  | profileSpecificData m => [(m.data.first, m.data.stop)]
  | propertyExchange _ m => [(m.header.first, m.header.stop), (m.data.first, m.data.stop)]
  | _ => []

/-- Every list has a length that its fourteen-bit length field can hold, which is what the
sender's `static_cast<b14>` asserts. -/
def Representable : Message List → Prop
  | endpointReply m => m.information.length < 2 ^ 14
  | ack m => m.message.length < 2 ^ 14
  | nak m => m.message.length < 2 ^ 14
  | profileInquiryReply m => m.enabled.length < 2 ^ 14 ∧ m.disabled.length < 2 ^ 14
  | profileDetailsReply m => m.data.length < 2 ^ 14
  | profileSpecificData m => m.data.length < 2 ^ 14
  | propertyExchange _ m => m.header.length < 2 ^ 14 ∧ m.data.length < 2 ^ 14
  | _ => True

/-- The part of a message that its encoding of this version carries. The other fields take
the default of their type; a property get inquiry carries no data in any version. -/
def carried (version : B7) : Message List → Message List
  | discovery m => discovery (if version = 1#7 then { m with outputPathId := 0 } else m)
  | discoveryReply m =>
      discoveryReply (if version = 1#7 then { m with outputPathId := 0, functionBlock := 0 } else m)
  | nak m => nak (if version = 1#7 then ⟨0, 0, 0, fun _ => 0, []⟩ else m)
  | profileOn m => profileOn (if version = 1#7 then { m with numChannels := 0 } else m)
  | profileEnabled m => profileEnabled (if version = 1#7 then { m with numChannels := 0 } else m)
  | profileDisabled m => profileDisabled (if version = 1#7 then { m with numChannels := 0 } else m)
  | peCapabilities m =>
      peCapabilities (if version = 1#7 then { m with majorVersion := 0, minorVersion := 0 } else m)
  | peCapabilitiesReply m =>
      peCapabilitiesReply
        (if version = 1#7 then { m with majorVersion := 0, minorVersion := 0 } else m)
  | propertyExchange .get m => propertyExchange .get { m with data := [] }
  | m => m

end Message

end Midi2.Ci
