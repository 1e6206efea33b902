import Midi2.Ci.Message

/-!
# Writing messages (`ci/ci_create_message.hpp`)

`create_message` writes to an output iterator that is bounded by a sentinel. `Output` is
that pair: the bytes stored so far, the position of the iterator and, unless the sentinel
is a `trivial_sentinel`, the position of the sentinel. `put` is the pattern that
`safe_copy` and `write_packed_with_tail` share: the iterator is first advanced over the
space the bytes need, stopping at the sentinel, and the bytes are only copied when that did
not end at the sentinel.

A message is written in pieces: its header, its fixed part, its tails (`createMessage_eq`).
`encode` is the case without a bound. Its bytes are the header and the body of the message
(`encode_eq`), the form in which the receiving side reasons about them.
-/

namespace Midi2.Ci

open Layout (bytes bytesList)

/-- An output iterator over bytes together with its sentinel. -/
structure Output where
  stored : List Byte := []
  first : Nat := 0
  last : Option Nat := none

/-- `std::ranges::advance(first, n, last)`. -/
def Output.advance (o : Output) (n : Nat) : Nat :=
  match o.last with
  | none => o.first + n
  | some l => min (o.first + n) l

def Output.put (o : Output) (bs : List Byte) : Output :=
  let first2 := o.advance bs.length
  if some first2 ≠ o.last then
    { o with stored := o.stored ++ bs, first := o.first + bs.length }
  else
    { o with first := first2 }

/-- `details::safe_copy`. -/
def safeCopy {α : Type} [Layout Byte α] (o : Output) (t : α) : Output :=
  o.put (bytes t)

/-- `details::write_packed_with_tail`: the packed structure up to its tail, then the
elements of the tail. -/
def writePackedWithTail {α τ : Type} [Layout Byte α] [Layout Byte τ] (o : Output) (t : α)
    (span : List τ) : Output :=
  o.put (bytes t ++ bytesList span)

/-- `details::write_header`. -/
def writeHeader (o : Output) (h : Header) (id : MessageType) : Output :=
  safeCopy o { h.toPacked with subId2 := id.toByte }

/-- What `type_to_packed` names for one version of a message: `details::not_available`,
`details::empty` or a packed type, of which only the bytes of the converted message are
needed. -/
inductive External where
  | notAvailable
  | empty
  | packed (bs : List Byte)

/-- `details::write_header_body`. -/
def writeHeaderBody (o : Output) (h : Header) (id : MessageType) : External → Output
  | .notAvailable => o
  | .empty => writeHeader o h id
  | .packed bs => (writeHeader o h id).put bs

/-- `details::write_pe`. -/
def writePe (o : Output) (h : Header) (pe : PropertyExchange.PropertyExchange List)
    (id : MessageType) : Output :=
  writePackedWithTail (writePackedWithTail (writeHeader o h id) pe.toPt1 pe.header)
    pe.toPt2 pe.data

namespace Message

/-- `type_to_packed<T>::v1`, for the types that the general `create_message` takes. -/
def v1 : Message List → External
  | discovery m => .packed (bytes m.toV1)
  | discoveryReply m => .packed (bytes m.toV1)
  | endpoint m => .packed (bytes m.toV1)
  | invalidateMuid m => .packed (bytes m.toV1)
  | profileAdded m => .packed (bytes m.toV1)
  | profileRemoved m => .packed (bytes m.toV1)
  | profileDetails m => .packed (bytes m.toV1)
  | profileInquiry => .empty
  | profileOn m => .packed (bytes m.toV1)
  | profileOff m => .packed (bytes m.toV1)
  | profileEnabled m => .packed (bytes m.toV1)
  | profileDisabled m => .packed (bytes m.toV1)
  | peCapabilities m => .packed (bytes m.toV1)
  | peCapabilitiesReply m => .packed (bytes m.toV1)
  | piCapabilities => .empty
  | _ => .notAvailable

/-- `type_to_packed<T>::v2`. -/
def v2 : Message List → External
  | discovery m => .packed (bytes m.toV2)
  | discoveryReply m => .packed (bytes m.toV2)
  | endpoint m => .packed (bytes m.toV1)
  | invalidateMuid m => .packed (bytes m.toV1)
  | profileAdded m => .packed (bytes m.toV1)
  | profileRemoved m => .packed (bytes m.toV1)
  | profileDetails m => .packed (bytes m.toV1)
  | profileInquiry => .empty
  | profileOn m => .packed (bytes m.toV2)
  | profileOff m => .packed (bytes m.toV2)
  | profileEnabled m => .packed (bytes m.toV2)
  | profileDisabled m => .packed (bytes m.toV2)
  | peCapabilities m => .packed (bytes m.toV2)
  | peCapabilitiesReply m => .packed (bytes m.toV2)
  | piCapabilities => .empty
  | piCapabilitiesReply m => .packed (bytes m.toV2)
  | piMidiMessageReport m => .packed (bytes m.toV2)
  | piMidiMessageReportReply m => .packed (bytes m.toV2)
  | piMidiMessageReportEnd => .empty
  | _ => .notAvailable

end Message

/-- The overloads of `create_message`. -/
def createMessage (o : Output) (hdr : Header) : Message List → Output
  | .endpointReply m =>
      writePackedWithTail (writeHeader o hdr .endpointReply) m.toV1 m.information
  | .ack m => writePackedWithTail (writeHeader o hdr .ack) m.toV1 m.message
  | .nak m =>
      let o := writeHeader o hdr .nak
      if hdr.version = 1#7 then o else writePackedWithTail o m.toV2 m.message
  | .profileDetailsReply m =>
      writePackedWithTail (writeHeader o hdr .profileDetailsReply) m.toV1 m.data
  | .profileInquiryReply m =>
      let o := writeHeader o hdr .profileInquiryReply
      let o := writePackedWithTail o m.toPt1 m.enabled
      writePackedWithTail o m.toPt2 m.disabled
  | .profileSpecificData m =>
      writePackedWithTail (writeHeader o hdr .profileSpecificData) m.toV1 m.data
  | .propertyExchange pet m => writePe o hdr m pet.id
  | m => writeHeaderBody o hdr m.id (if hdr.version = 1#7 then m.v1 else m.v2)

/-- The bytes that `create_message` writes when there is room for all of them. -/
def encode (hdr : Header) (m : Message List) : List Byte :=
  (createMessage {} hdr m).stored

/-! ## Header and body -/

/-- The thirteen bytes that every message starts with. -/
def headerBytes (hdr : Header) (id : MessageType) : List Byte :=
  bytes { hdr.toPacked with subId2 := id.toByte }

/-- The bytes of an external type. -/
def External.body : External → Option (List Byte)
  | notAvailable => none
  | empty => some []
  | packed bs => some bs

/-- What follows the header, or `none` when the message is not defined in that version. -/
def Message.body (version : B7) : Message List → Option (List Byte)
  | endpointReply m => some (bytes m.toV1 ++ bytesList m.information)
  | ack m => some (bytes m.toV1 ++ bytesList m.message)
  | nak m => some (if version = 1#7 then [] else bytes m.toV2 ++ bytesList m.message)
  | profileDetailsReply m => some (bytes m.toV1 ++ bytesList m.data)
  | profileInquiryReply m =>
      some (bytes m.toPt1 ++ bytesList m.enabled ++ (bytes m.toPt2 ++ bytesList m.disabled))
  | profileSpecificData m => some (bytes m.toV1 ++ bytesList m.data)
  | propertyExchange _ m =>
      some (bytes m.toPt1 ++ bytesList m.header ++ (bytes m.toPt2 ++ bytesList m.data))
  | m => (if version = 1#7 then m.v1 else m.v2).body

@[simp] theorem length_headerBytes (hdr : Header) (id : MessageType) :
    (headerBytes hdr id).length = 13 := by
  simp [headerBytes]

/-! ## Pieces -/

/-- What is written of an external type. -/
def External.parts : External → Option (List (List Byte))
  | notAvailable => none
  | empty => some []
  | packed bs => some [bs]

/-- What is written after the header, or `none` when the message is not defined in that
version. -/
def Message.parts (version : B7) : Message List → Option (List (List Byte))
  | endpointReply m => some [bytes m.toV1 ++ bytesList m.information]
  | ack m => some [bytes m.toV1 ++ bytesList m.message]
  | nak m => some (if version = 1#7 then [] else [bytes m.toV2 ++ bytesList m.message])
  | profileDetailsReply m => some [bytes m.toV1 ++ bytesList m.data]
  | profileInquiryReply m =>
      some [bytes m.toPt1 ++ bytesList m.enabled, bytes m.toPt2 ++ bytesList m.disabled]
  | profileSpecificData m => some [bytes m.toV1 ++ bytesList m.data]
  | propertyExchange _ m =>
      some [bytes m.toPt1 ++ bytesList m.header, bytes m.toPt2 ++ bytesList m.data]
  | m => (if version = 1#7 then m.v1 else m.v2).parts

/-- The header and the parts, if there are any. -/
def withHeader (hdr : Header) (id : MessageType) : Option (List (List Byte)) → List (List Byte)
  | none => []
  | some parts => headerBytes hdr id :: parts

/-- What `safe_copy` and `write_packed_with_tail` are called for, in this order. -/
def Message.pieces (hdr : Header) (m : Message List) : List (List Byte) :=
  withHeader hdr m.id (m.parts hdr.version)

theorem writeHeaderBody_eq (o : Output) (hdr : Header) (id : MessageType) (e : External) :
    writeHeaderBody o hdr id e = (withHeader hdr id e.parts).foldl Output.put o := by
  cases e <;> rfl

/-- A message is written piece by piece. -/
theorem createMessage_eq (o : Output) (hdr : Header) (m : Message List) :
    createMessage o hdr m = (m.pieces hdr).foldl Output.put o := by
  cases m
  case nak m =>
    unfold createMessage Message.pieces Message.parts
    by_cases hversion : hdr.version = 1#7
    · simp only [if_pos hversion]
      rfl
    · simp only [if_neg hversion]
      rfl
  case endpointReply | ack | profileDetailsReply | profileInquiryReply | profileSpecificData |
      propertyExchange => rfl
  all_goals exact writeHeaderBody_eq o hdr _ _

@[simp] theorem stored_put_unbounded (o : Output) (h : o.last = none) (bs : List Byte) :
    (o.put bs).stored = o.stored ++ bs := by
  simp [Output.put, h]

@[simp] theorem last_put (o : Output) (bs : List Byte) : (o.put bs).last = o.last := by
  rw [Output.put]
  split <;> rfl

theorem stored_foldl_put_unbounded {o : Output} (h : o.last = none) (pieces : List (List Byte)) :
    (pieces.foldl Output.put o).stored = o.stored ++ pieces.flatten := by
  induction pieces generalizing o with
  | nil => exact (List.append_nil o.stored).symm
  | cons bs pieces ih =>
      rw [List.foldl_cons, ih ((last_put o bs).trans h), stored_put_unbounded o h,
        List.flatten_cons, List.append_assoc]

theorem encode_eq_flatten (hdr : Header) (m : Message List) :
    encode hdr m = (m.pieces hdr).flatten := by
  rw [encode, createMessage_eq, stored_foldl_put_unbounded rfl, List.nil_append]

theorem External.body_eq (e : External) : e.body = e.parts.map List.flatten := by
  cases e with
  | notAvailable => rfl
  | empty => rfl
  | packed bs => simp [body, parts]

theorem Message.body_eq (version : B7) (m : Message List) :
    m.body version = (m.parts version).map List.flatten := by
  cases m
  case nak m =>
    by_cases hversion : version = 1#7
    · simp [body, parts, hversion]
    · simp [body, parts, hversion]
  case endpointReply | ack | profileDetailsReply | profileInquiryReply | profileSpecificData |
      propertyExchange => simp [body, parts]
  all_goals exact External.body_eq _

/-- A message on the wire is its header followed by its body. -/
theorem encode_eq (hdr : Header) (m : Message List) :
    encode hdr m =
      match m.body hdr.version with
      | none => []
      | some bs => headerBytes hdr m.id ++ bs := by
  rw [encode_eq_flatten, Message.pieces, Message.body_eq]
  cases m.parts hdr.version <;> rfl

end Midi2.Ci
