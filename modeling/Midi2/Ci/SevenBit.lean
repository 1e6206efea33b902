import Midi2.Ci.CreateMessage

/-!
# Seven-bit messages

MIDI-CI messages are the payload of system exclusive messages, so a byte of them with its top
bit set would be the end of the message. `create_message` does not check the bytes that it
writes. The numbers of a message are of seven, fourteen or twenty eight bits and are written in
groups of seven. But the texts of property exchange and the control of a message report are
bytes that are written as they are (`sevenBit_encode_iff`).
-/

namespace Midi2.Ci

open Layout (bytes bytesList)

/-- The top bit is clear. -/
def SevenBit (b : Byte) : Prop :=
  b.toNat < 2 ^ 7

instance (b : Byte) : Decidable (SevenBit b) :=
  inferInstanceAs (Decidable (_ < _))

/-! ## Numbers -/

theorem sevenBit_toByte (v : B7) : SevenBit v.toByte := by
  rw [SevenBit, B7.toByte, BitVec.toNat_setWidth]
  exact Nat.lt_of_le_of_lt (Nat.mod_le _ _) v.isLt

theorem sevenBit_mask7b (b : Byte) : SevenBit (b &&& mask7b) := by
  rw [and_mask7b]
  exact sevenBit_toByte _

theorem sevenBit_array {n : Nat} {f : ByteArray n} (h : ∀ i, SevenBit (f i)) :
    ∀ b ∈ bytesList (List.ofFn f), SevenBit b := by
  intro b hb
  obtain ⟨a, ha, hb⟩ := List.mem_flatMap.1 hb
  obtain ⟨i, rfl⟩ := List.mem_ofFn.1 ha
  rw [List.mem_singleton.1 hb]
  exact h i

theorem sevenBit_b7Array {n : Nat} (v : B7Array n) : ∀ b ∈ bytesList (List.ofFn v), SevenBit b := by
  intro b hb
  obtain ⟨a, -, hb⟩ := List.mem_flatMap.1 hb
  rw [List.mem_singleton.1 hb]
  exact sevenBit_toByte a

theorem sevenBit_toLe7_b7Array {n : Nat} (v : B7Array n) :
    ∀ b ∈ bytesList (List.ofFn (toLe7 v : ByteArray n)), SevenBit b :=
  sevenBit_array fun i => sevenBit_toByte (v i)

theorem sevenBit_toLe7_b14 (v : B14) :
    ∀ b ∈ bytesList (List.ofFn (toLe7 v : ByteArray 2)), SevenBit b := by
  refine sevenBit_array fun i => ?_
  match i with
  | 0 | 1 => exact sevenBit_mask7b _

theorem sevenBit_toLe7_b28 (v : B28) :
    ∀ b ∈ bytesList (List.ofFn (toLe7 v : ByteArray 4)), SevenBit b := by
  refine sevenBit_array fun i => ?_
  match i with
  | 0 | 1 | 2 | 3 => exact sevenBit_mask7b _

theorem sevenBit_bytesList_b7 (vs : List B7) : ∀ b ∈ bytesList vs, SevenBit b := by
  intro b hb
  obtain ⟨v, -, hb⟩ := List.mem_flatMap.1 hb
  rw [List.mem_singleton.1 hb]
  exact sevenBit_toByte v

theorem sevenBit_profiles (ps : List ProfileConfiguration.Profile) :
    ∀ b ∈ bytesList ps, SevenBit b := by
  intro b hb
  obtain ⟨p, -, hb⟩ := List.mem_flatMap.1 hb
  exact sevenBit_b7Array p b hb

theorem bytesList_byte (bs : List Byte) : bytesList bs = bs :=
  List.flatMap_singleton' bs

/-! ## Fixed parts

The members of a packed structure, one after the other. -/

theorem sevenBit_byte (v : B7) : ∀ b ∈ [v.toByte], SevenBit b :=
  List.forall_mem_singleton.2 (sevenBit_toByte v)

theorem sevenBit_header (hdr : Header) (id : MessageType) :
    ∀ b ∈ headerBytes hdr id, SevenBit b := by
  have hid : SevenBit id.toByte := by
    cases id <;> decide
  simp only [headerBytes, bytes, List.forall_mem_append, List.forall_mem_singleton]
  have huniversal : SevenBit s7UniversalNrt := by decide
  have hci : SevenBit s7MidiCi := by decide
  exact ⟨huniversal, sevenBit_toByte _, hci, hid, sevenBit_toByte _, sevenBit_toLe7_b28 _,
    sevenBit_toLe7_b28 _⟩

theorem sevenBit_discoveryV1 (m : Discovery) : ∀ b ∈ bytes m.toV1, SevenBit b := by
  simp only [bytes, List.forall_mem_append]
  exact ⟨sevenBit_toLe7_b7Array _, sevenBit_toLe7_b14 _, sevenBit_toLe7_b14 _,
    sevenBit_toLe7_b7Array _, sevenBit_byte _, sevenBit_toLe7_b28 _⟩

theorem sevenBit_discoveryV2 (m : Discovery) : ∀ b ∈ bytes m.toV2, SevenBit b :=
  List.forall_mem_append.2 ⟨sevenBit_discoveryV1 m, sevenBit_byte _⟩

theorem sevenBit_discoveryReplyV1 (m : DiscoveryReply) : ∀ b ∈ bytes m.toV1, SevenBit b := by
  simp only [bytes, List.forall_mem_append]
  exact ⟨sevenBit_toLe7_b7Array _, sevenBit_toLe7_b14 _, sevenBit_toLe7_b14 _,
    sevenBit_toLe7_b7Array _, sevenBit_byte _, sevenBit_toLe7_b28 _⟩

theorem sevenBit_discoveryReplyV2 (m : DiscoveryReply) : ∀ b ∈ bytes m.toV2, SevenBit b :=
  List.forall_mem_append.2 ⟨sevenBit_discoveryReplyV1 m,
    List.forall_mem_append.2 ⟨sevenBit_byte _, sevenBit_byte _⟩⟩

theorem sevenBit_endpointReply (m : EndpointReply List) : ∀ b ∈ bytes m.toV1, SevenBit b :=
  List.forall_mem_append.2 ⟨sevenBit_byte _, sevenBit_toLe7_b14 _⟩

theorem sevenBit_ack (m : Ack List) : ∀ b ∈ bytes m.toV1, SevenBit b := by
  simp only [bytes, List.forall_mem_append]
  exact ⟨sevenBit_byte _, sevenBit_byte _, sevenBit_byte _, sevenBit_toLe7_b7Array _,
    sevenBit_toLe7_b14 _⟩

theorem sevenBit_nak (m : Nak List) : ∀ b ∈ bytes m.toV2, SevenBit b := by
  simp only [bytes, List.forall_mem_append]
  exact ⟨sevenBit_byte _, sevenBit_byte _, sevenBit_byte _, sevenBit_toLe7_b7Array _,
    sevenBit_toLe7_b14 _⟩

section

open ProfileConfiguration

theorem sevenBit_details (m : Details) : ∀ b ∈ bytes m.toV1, SevenBit b :=
  List.forall_mem_append.2 ⟨sevenBit_b7Array _, sevenBit_byte _⟩

theorem sevenBit_detailsReply (m : DetailsReply List) : ∀ b ∈ bytes m.toV1, SevenBit b :=
  List.forall_mem_append.2 ⟨sevenBit_b7Array _,
    List.forall_mem_append.2 ⟨sevenBit_byte _, sevenBit_toLe7_b14 _⟩⟩

theorem sevenBit_on (m : On) : ∀ b ∈ bytes m.toV2, SevenBit b :=
  List.forall_mem_append.2 ⟨sevenBit_b7Array _, sevenBit_toLe7_b14 _⟩

theorem sevenBit_off (m : Off) : ∀ b ∈ bytes m.toV2, SevenBit b :=
  have hzero : SevenBit 0 := by decide
  List.forall_mem_append.2 ⟨sevenBit_b7Array _, sevenBit_array fun _ => hzero⟩

theorem sevenBit_enabled (m : Enabled) : ∀ b ∈ bytes m.toV2, SevenBit b :=
  List.forall_mem_append.2 ⟨sevenBit_b7Array _, sevenBit_toLe7_b14 _⟩

theorem sevenBit_disabled (m : Disabled) : ∀ b ∈ bytes m.toV2, SevenBit b :=
  List.forall_mem_append.2 ⟨sevenBit_b7Array _, sevenBit_toLe7_b14 _⟩

theorem sevenBit_specificData (m : SpecificData List) : ∀ b ∈ bytes m.toV1, SevenBit b :=
  List.forall_mem_append.2 ⟨sevenBit_b7Array _, sevenBit_toLe7_b14 _⟩

end

section

open PropertyExchange

theorem sevenBit_capabilities (m : Capabilities) : ∀ b ∈ bytes m.toV2, SevenBit b :=
  List.forall_mem_append.2 ⟨sevenBit_byte _,
    List.forall_mem_append.2 ⟨sevenBit_byte _, sevenBit_byte _⟩⟩

theorem sevenBit_capabilitiesReply (m : CapabilitiesReply) : ∀ b ∈ bytes m.toV2, SevenBit b :=
  List.forall_mem_append.2 ⟨sevenBit_byte _,
    List.forall_mem_append.2 ⟨sevenBit_byte _, sevenBit_byte _⟩⟩

theorem sevenBit_pt1 (m : PropertyExchange.PropertyExchange List) :
    ∀ b ∈ bytes m.toPt1, SevenBit b :=
  List.forall_mem_append.2 ⟨sevenBit_byte _, sevenBit_toLe7_b14 _⟩

theorem sevenBit_pt2 (m : PropertyExchange.PropertyExchange List) :
    ∀ b ∈ bytes m.toPt2, SevenBit b :=
  List.forall_mem_append.2 ⟨sevenBit_toLe7_b14 _,
    List.forall_mem_append.2 ⟨sevenBit_toLe7_b14 _, sevenBit_toLe7_b14 _⟩⟩

end

/-! ## Reports

No flag of a report has the top bit of its byte. -/

section

open Midi2.Adt ProcessInquiry
open ProcessInquiry.Packed hiding ReportFlags

theorem sevenBit_iff : ∀ b : Byte, SevenBit b ↔ b.getLsbD 7 = false := by
  decide

theorem SevenBit.set {f : BitField 8} (h : SevenBit f) {r : BitRange}
    (hr : r.index + r.bits ≤ 7) (v : Nat) : SevenBit (f.set r v) := by
  rw [sevenBit_iff] at h ⊢
  rw [getLsbD_set f r v 7 (by decide), if_neg (by omega), h]

theorem sevenBit_flags (m : ReportFlags) : ∀ b ∈ bytes m.toPacked, SevenBit b := by
  have hzero : SevenBit 0 := by decide
  have hsystem : SevenBit m.toPacked.systemMessage :=
    ((hzero.set (by decide) _).set (by decide) _).set (by decide) _
  have hchannel : SevenBit m.toPacked.channelController :=
    (((((hzero.set (by decide) _).set (by decide) _).set (by decide) _).set (by decide) _).set
      (by decide) _).set (by decide) _
  have hnote : SevenBit m.toPacked.noteDataMessages :=
    ((((hzero.set (by decide) _).set (by decide) _).set (by decide) _).set (by decide) _).set
      (by decide) _
  simp only [bytes, List.forall_mem_append, List.forall_mem_singleton]
  exact ⟨hsystem, hzero, hchannel, hnote⟩

end

/-! ## Messages -/

/-- What the sender of a message has to see to: `create_message` writes these bytes as they
are. -/
def Message.SevenBit (version : B7) : Message List → Prop
  | propertyExchange _ m => (∀ b ∈ m.header, Ci.SevenBit b) ∧ ∀ b ∈ m.data, Ci.SevenBit b
  | piMidiMessageReport m => version = 1#7 ∨ Ci.SevenBit m.messageDataControl
  | _ => True

def External.SevenBit : External → Prop
  | packed bs => ∀ b ∈ bs, Ci.SevenBit b
  | _ => True

theorem sevenBit_v1 (m : Message List) : m.v1.SevenBit := by
  cases m with
  | discovery m => exact sevenBit_discoveryV1 m
  | discoveryReply m => exact sevenBit_discoveryReplyV1 m
  | endpoint m => exact sevenBit_byte m.status
  | invalidateMuid m => exact sevenBit_toLe7_b28 m.targetMuid
  | profileAdded m | profileRemoved m | profileOn m | profileOff m | profileEnabled m
  | profileDisabled m => exact sevenBit_b7Array m.pid
  | profileDetails m => exact sevenBit_details m
  | peCapabilities m | peCapabilitiesReply m => exact sevenBit_byte m.numSimultaneous
  | endpointReply | ack | nak | profileInquiry | profileInquiryReply | profileDetailsReply
  | profileSpecificData | propertyExchange | piCapabilities | piCapabilitiesReply
  | piMidiMessageReport | piMidiMessageReportReply | piMidiMessageReportEnd => trivial

theorem sevenBit_report_iff (m : ProcessInquiry.MidiMessageReport) :
    (∀ b ∈ bytes m.toV2, SevenBit b) ↔ SevenBit m.messageDataControl := by
  calc (∀ b ∈ bytes m.toV2, SevenBit b)
      ↔ (∀ b ∈ [m.messageDataControl], SevenBit b) ∧
          ∀ b ∈ bytes m.toReportFlags.toPacked, SevenBit b := List.forall_mem_append
    _ ↔ ∀ b ∈ [m.messageDataControl], SevenBit b := and_iff_left (sevenBit_flags _)
    _ ↔ SevenBit m.messageDataControl := List.forall_mem_singleton

theorem sevenBit_v2_iff (m : Message List) : m.v2.SevenBit ↔
    match m with
    | .piMidiMessageReport m => SevenBit m.messageDataControl
    | _ => True := by
  cases m with
  | piMidiMessageReport m => exact sevenBit_report_iff m
  | discovery m => exact iff_true_intro (sevenBit_discoveryV2 m)
  | discoveryReply m => exact iff_true_intro (sevenBit_discoveryReplyV2 m)
  | endpoint m => exact iff_true_intro (sevenBit_byte m.status)
  | invalidateMuid m => exact iff_true_intro (sevenBit_toLe7_b28 m.targetMuid)
  | profileAdded m | profileRemoved m => exact iff_true_intro (sevenBit_b7Array m.pid)
  | profileDetails m => exact iff_true_intro (sevenBit_details m)
  | profileOn m => exact iff_true_intro (sevenBit_on m)
  | profileOff m => exact iff_true_intro (sevenBit_off m)
  | profileEnabled m => exact iff_true_intro (sevenBit_enabled m)
  | profileDisabled m => exact iff_true_intro (sevenBit_disabled m)
  | peCapabilities m => exact iff_true_intro (sevenBit_capabilities m)
  | peCapabilitiesReply m => exact iff_true_intro (sevenBit_capabilitiesReply m)
  | piCapabilitiesReply m => exact iff_true_intro (sevenBit_byte m.features)
  | piMidiMessageReportReply m => exact iff_true_intro (sevenBit_flags m.toReportFlags)
  | endpointReply | ack | nak | profileInquiry | profileInquiryReply | profileDetailsReply
  | profileSpecificData | propertyExchange | piCapabilities | piMidiMessageReportEnd => rfl

theorem forall_mem_some {bs : List Byte} {p : List Byte → Prop} :
    (∀ cs ∈ some bs, p cs) ↔ p bs := by
  simp

theorem External.sevenBit_iff (e : External) :
    (∀ bs ∈ e.body, ∀ b ∈ bs, Ci.SevenBit b) ↔ e.SevenBit := by
  cases e with
  | notAvailable => exact iff_true_intro fun bs hbs => absurd hbs (Option.not_mem_none bs)
  | empty => exact iff_true_intro (forall_mem_some.2 (List.forall_mem_nil _))
  | packed bs => exact forall_mem_some

theorem External.sevenBit_versioned {version : B7} {e₁ e₂ : External} (h₁ : e₁.SevenBit) :
    (∀ bs ∈ (if version = 1#7 then e₁ else e₂).body, ∀ b ∈ bs, Ci.SevenBit b) ↔
      version = 1#7 ∨ e₂.SevenBit := by
  rw [External.sevenBit_iff]
  by_cases hversion : version = 1#7
  · rw [if_pos hversion]
    exact iff_of_true h₁ (Or.inl hversion)
  · rw [if_neg hversion, or_iff_right hversion]

/-- A fixed part and a tail of seven-bit values. -/
theorem sevenBit_withTail {fixed : List Byte} (tail : List B7)
    (h : ∀ b ∈ fixed, SevenBit b) : ∀ b ∈ fixed ++ bytesList tail, SevenBit b :=
  List.forall_mem_append.2 ⟨h, sevenBit_bytesList_b7 tail⟩

/-- A fixed part and a text. -/
theorem sevenBit_withText_iff {fixed : List Byte} (text : List Byte)
    (h : ∀ b ∈ fixed, SevenBit b) :
    (∀ b ∈ fixed ++ bytesList text, SevenBit b) ↔ ∀ b ∈ text, SevenBit b := by
  rw [List.forall_mem_append, bytesList_byte]
  exact and_iff_right h

theorem sevenBit_body_iff (version : B7) (m : Message List) :
    (∀ bs ∈ m.body version, ∀ b ∈ bs, SevenBit b) ↔ m.SevenBit version := by
  cases m with
  | endpointReply m =>
      exact iff_true_intro
        (forall_mem_some.2 (sevenBit_withTail _ (sevenBit_endpointReply m)))
  | ack m => exact iff_true_intro (forall_mem_some.2 (sevenBit_withTail _ (sevenBit_ack m)))
  | profileDetailsReply m =>
      exact iff_true_intro (forall_mem_some.2 (sevenBit_withTail _ (sevenBit_detailsReply m)))
  | profileSpecificData m =>
      exact iff_true_intro (forall_mem_some.2 (sevenBit_withTail _ (sevenBit_specificData m)))
  | nak m =>
      refine iff_true_intro (forall_mem_some.2 ?_)
      split
      · exact List.forall_mem_nil _
      · exact sevenBit_withTail _ (sevenBit_nak m)
  | profileInquiryReply m =>
      refine iff_true_intro (forall_mem_some.2 (List.forall_mem_append.2 ⟨?_, ?_⟩))
      · exact List.forall_mem_append.2 ⟨sevenBit_toLe7_b14 _, sevenBit_profiles _⟩
      · exact List.forall_mem_append.2 ⟨sevenBit_toLe7_b14 _, sevenBit_profiles _⟩
  | propertyExchange pet m =>
      refine forall_mem_some.trans (List.forall_mem_append.trans ?_)
      exact and_congr (sevenBit_withText_iff _ (sevenBit_pt1 m))
        (sevenBit_withText_iff _ (sevenBit_pt2 m))
  | piMidiMessageReport m =>
      refine (External.sevenBit_versioned (sevenBit_v1 (.piMidiMessageReport m))).trans ?_
      exact or_congr_right (sevenBit_v2_iff (.piMidiMessageReport m))
  | discovery | discoveryReply | endpoint | invalidateMuid | profileInquiry | profileAdded
  | profileRemoved | profileDetails | profileOn | profileOff | profileEnabled | profileDisabled
  | peCapabilities | peCapabilitiesReply | piCapabilities | piCapabilitiesReply
  | piMidiMessageReportReply | piMidiMessageReportEnd =>
      refine (External.sevenBit_versioned (sevenBit_v1 _)).trans ?_
      exact iff_true_intro (Or.inr ((sevenBit_v2_iff _).2 trivial))

/-- `create_message` writes seven-bit bytes, if the sender saw to those that it is given as
bytes. -/
theorem sevenBit_encode_iff (hdr : Header) (m : Message List) :
    (∀ b ∈ encode hdr m, SevenBit b) ↔ m.SevenBit hdr.version := by
  rw [encode_eq, ← sevenBit_body_iff]
  cases hbody : m.body hdr.version with
  | none =>
      exact iff_of_true (List.forall_mem_nil _) fun bs hbs => absurd hbs (Option.not_mem_none bs)
  | some bs =>
      rw [forall_mem_some, List.forall_mem_append]
      exact and_iff_right (sevenBit_header hdr m.id)

end Midi2.Ci
