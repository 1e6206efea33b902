import Midi2.Ci.Delivery

/-!
# Header fidelity

The header that a callback receives is put together from two places. Version and MUIDs come
from the message; the device id stays the one that the dispatcher was configured with, the
byte that carries the sender's is never looked at. So the header of a message is passed on
faithfully if and only if the two device ids happen to agree, or nothing is passed on.
-/

namespace Midi2.Ci

open Layout (bytes bytesList)
open Dispatcher

variable {cfg : Config} {group : Byte} {hdr : Header} {m : Message List}

/-- Every header that is passed on is the one that was encoded, up to its device id. -/
theorem passed_header (cfg : Config) (deviceId : B7) (group : Byte) (hdr : Header)
    (m : Message List) :
    ∀ c ∈ ((fresh cfg deviceId group).run cfg (encode hdr m)).calls,
      ∀ h, c.header? = some h → h = { hdr with deviceId := deviceId } := by
  rw [encode_eq]
  cases m.body hdr.version with
  | none => exact fun c hc => by cases hc
  | some b =>
      have hlen := length_headerBytes hdr m.id
      have hheader := (headerBytes_spec hdr m.id deviceId).2
      rcases addressed_run_fresh cfg deviceId group (headerBytes hdr m.id ++ b) with
        ⟨hlt, _⟩ | ⟨_, haddressed⟩
      · rw [List.length_append, hlen] at hlt
        omega
      · rw [receivedHeader_append deviceId b hlen, hheader] at haddressed
        exact haddressed.passed

/-- Messages that are reported to a receiver they are meant for: those that are taken apart
as they were written and fit the buffer, and replies to a profile inquiry that enable no
profile, of which only the first two bytes matter. -/
def Message.Reported (bufferSize : Nat) (version : B7) : Message List → Prop
  | profileInquiryReply r =>
      r.enabled = [] ∨ (profileInquiryReply r).bodySize version ≤ bufferSize
  | m => m.Parsed version ∧ m.bodySize version ≤ bufferSize

/-- A message is reported in one of two ways. -/
theorem Message.reported_iff {bufferSize : Nat} {version : B7} :
    m.Reported bufferSize version ↔
      (∃ r, m = .profileInquiryReply r ∧ r.enabled = []) ∨
      (m.Parsed version ∧ m.bodySize version ≤ bufferSize) := by
  cases m
  case profileInquiryReply r =>
    simp only [Message.Reported, Message.Parsed, Message.profileInquiryReply.injEq,
      exists_eq_left']
    tauto
  all_goals simp [Message.Reported]

/-- A message that is reported is passed on with some header. -/
theorem exists_header_of_reported (hrep : m.Representable)
    (haccept : accepts cfg group hdr.localMuid = true)
    (hreported : m.Reported cfg.bufferSize hdr.version) (deviceId : B7) :
    ∃ spans pos memory, Call.message { hdr with deviceId := deviceId } spans pos memory ∈
      ((fresh cfg deviceId group).run cfg (encode hdr m)).calls := by
  have hmem : ∀ {spans pos memory} {d : Dispatcher},
      d.callbacks = [.message { hdr with deviceId := deviceId } spans pos memory] →
      Call.message { hdr with deviceId := deviceId } spans pos memory ∈ d.calls := by
    intro spans pos memory d h
    exact List.mem_of_mem_filter (h ▸ List.mem_singleton_self _)
  rcases Message.reported_iff.1 hreported with ⟨r, rfl, hnil⟩ | ⟨hparsed, hfit⟩
  · obtain ⟨spans, pos, memory, hcalls⟩ := @reported_emptyReply cfg group hdr r hnil haccept
      deviceId (bytesList r.enabled ++ (bytes r.toPt2 ++ bytesList r.disabled))
    refine ⟨spans, pos, memory, hmem ?_⟩
    rw [encode_eq, Message.body]
    simp only [Message.id, List.append_assoc]
    exact hcalls
  · obtain ⟨spans, pos, memory, -, hcalls⟩ :=
      (delivers_message hrep hparsed haccept hfit deviceId).after
    exact ⟨spans, pos, memory, hmem hcalls⟩

/-- A message that is not reported is passed over in silence or overflows the buffer. -/
theorem callbacks_of_not_reported (hrep : m.Representable)
    (haccept : accepts cfg group hdr.localMuid = true)
    (hreported : ¬m.Reported cfg.bufferSize hdr.version) (deviceId : B7) :
    ((fresh cfg deviceId group).run cfg (encode hdr m)).callbacks = [] ∨
    ((fresh cfg deviceId group).run cfg (encode hdr m)).callbacks = [.bufferOverflow] := by
  by_cases hparsed : m.Parsed hdr.version
  · have hlong : cfg.bufferSize < m.bodySize hdr.version :=
      Nat.lt_of_not_le fun hfit => hreported (Message.reported_iff.2 (Or.inr ⟨hparsed, hfit⟩))
    exact Or.inr (overflows_message hrep hparsed haccept hlong deviceId)
  · refine Or.inl ?_
    cases m
    case nak r => exact silent_nakV1 (not_not.1 hparsed) r deviceId
    case profileInquiryReply r => exact absurd (Or.inl (not_not.1 hparsed)) hreported
    all_goals
      obtain ⟨hm, hv⟩ := Classical.not_imp.1 hparsed
      exact silent_sinceV2 hm hv deviceId

theorem exists_lookup (m : Message List) : ∃ info, lookup m.id.toByte = some info := by
  cases m
  case propertyExchange pet pe => exact ⟨_, lookup_propertyExchange pet⟩
  all_goals exact ⟨_, rfl⟩

/-- A message for somebody else is passed over in silence. -/
theorem callbacks_of_not_accepted (haccept : accepts cfg group hdr.localMuid = false)
    (deviceId : B7) : ((fresh cfg deviceId group).run cfg (encode hdr m)).callbacks = [] := by
  obtain ⟨info, hlookup⟩ := exists_lookup m
  rw [encode_eq]
  cases m.body hdr.version with
  | none => rfl
  | some b => exact callbacks_rejected hlookup haccept b

/-- Every header that is passed on is the one that was encoded. -/
def Faithful (cfg : Config) (deviceId : B7) (group : Byte) (hdr : Header) (m : Message List) :
    Prop :=
  ∀ c ∈ ((fresh cfg deviceId group).run cfg (encode hdr m)).calls,
    ∀ h, c.header? = some h → h = hdr

/-- The header arrives as it was sent if and only if the receiver was configured with the
device id of the sender, or the message is not reported at all. -/
theorem faithful_iff (cfg : Config) (deviceId : B7) (group : Byte) (hdr : Header)
    (m : Message List) (hrep : m.Representable) :
    Faithful cfg deviceId group hdr m ↔
      deviceId = hdr.deviceId ∨ accepts cfg group hdr.localMuid = false ∨
        ¬m.Reported cfg.bufferSize hdr.version := by
  -- Without a callback that has a header there is nothing to get wrong.
  have hquiet : (∀ c ∈ ((fresh cfg deviceId group).run cfg (encode hdr m)).callbacks,
      c.header? = none) → Faithful cfg deviceId group hdr m := by
    intro hnone c hc h hh
    have hcallback : c.isCallback = true := by
      cases c <;> first | rfl | cases hh
    rw [hnone c (List.mem_filter.2 ⟨hc, hcallback⟩)] at hh
    cases hh
  refine ⟨fun hfaithful => ?_, ?_⟩
  · cases haccept : accepts cfg group hdr.localMuid with
    | false => exact Or.inr (Or.inl rfl)
    | true =>
        by_cases hreported : m.Reported cfg.bufferSize hdr.version
        · obtain ⟨spans, pos, memory, hmem⟩ :=
            exists_header_of_reported hrep haccept hreported deviceId
          exact Or.inl (congrArg Header.deviceId (hfaithful _ hmem _ rfl))
        · exact Or.inr (Or.inr hreported)
  · rintro (rfl | haccept | hreported)
    · exact passed_header cfg hdr.deviceId group hdr m
    · refine hquiet ?_
      rw [callbacks_of_not_accepted haccept]
      exact fun c hc => by cases hc
    · cases haccept : accepts cfg group hdr.localMuid with
      | false =>
          refine hquiet ?_
          rw [callbacks_of_not_accepted haccept]
          exact fun c hc => by cases hc
      | true =>
          refine hquiet ?_
          rcases callbacks_of_not_reported hrep haccept hreported deviceId with h | h
          · rw [h]
            exact fun c hc => by cases hc
          · rw [h]
            exact fun c hc => by obtain rfl := List.mem_singleton.1 hc; rfl

theorem faithful_endpoint :
    Faithful openConfig 0x7F#7 0 (broadcastHeader 2#7) (.endpoint ⟨0⟩) :=
  (faithful_iff openConfig 0x7F#7 0 (broadcastHeader 2#7) (.endpoint ⟨0⟩) trivial).2 (Or.inl rfl)

/-- A receiver that was configured with device id zero passes on that device id, whatever the
message says. -/
theorem not_faithful_endpoint :
    (Message.endpoint ⟨0⟩ : Message List).Representable ∧
      ¬Faithful openConfig 0 0 (broadcastHeader 2#7) (.endpoint ⟨0⟩) := by
  refine ⟨trivial, fun hfaithful => ?_⟩
  have hpassed : (((fresh openConfig 0 0).run openConfig
      (encode (broadcastHeader 2#7) (.endpoint ⟨0⟩))).calls.filterMap Call.header?) =
      [{ broadcastHeader 2#7 with deviceId := 0 }] := by
    decide
  have hmem := hpassed ▸ List.mem_singleton_self { broadcastHeader 2#7 with deviceId := 0 }
  obtain ⟨c, hc, hheader⟩ := List.mem_filterMap.1 hmem
  exact absurd (hfaithful c hc _ hheader) (by decide)

end Midi2.Ci
