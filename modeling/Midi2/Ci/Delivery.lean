import Midi2.Ci.Memory
import Midi2.Ci.RoundTrip

/-!
# Delivery

The round trips of `RoundTrip`, put together with what a dispatcher does with a message that
is cut into stages. A message that is for us arrives whole when its body fits the buffer, and
is reported as an overflow when it does not (`delivers_message`, `overflows_message`).

Two kinds of message do not follow this rule. A NAK of version 1 is complete with its header,
but the dispatcher's table gives its body the size of an empty C++ class, which is one, and
the byte it waits for never comes (`silent_nakV1`). A reply to a profile inquiry that enables
no profile is reported as soon as the length of that list has been read, with a second length
taken from bytes that have not arrived (`reported_emptyReply`).
-/

namespace Midi2.Ci

open Layout (Holds bytes bytesList)
open Dispatcher

variable {cfg : Config} {group : Byte} {hdr : Header} {m m' : Message List}

/-! ## Messages that are taken apart as they were written -/

/-- The size of the body of a message. -/
def Message.bodySize (version : B7) (m : Message List) : Nat :=
  ((m.body version).getD []).length

theorem bodySize_of_body {version : B7} {b : List Byte} (h : m.body version = some b) :
    m.bodySize version = b.length := by
  rw [Message.bodySize, h, Option.getD_some]

theorem Dispatcher.Parses.body (h : Parses hdr m m') : ∃ b, m.body hdr.version = some b := by
  cases h with
  | empty _ hbody => exact ⟨_, hbody⟩
  | stages _ hbody => exact ⟨_, hbody⟩

/-- A body is much shorter than what `pos_` can count. -/
theorem bodySize_lt (version : B7) (hrep : m.Representable) : m.bodySize version < 2 ^ 32 := by
  cases m <;> simp only [Message.Representable] at hrep <;>
    simp only [Message.bodySize, Message.body, Message.v1, Message.v2]
  case endpointReply | ack | profileInquiryReply | profileDetailsReply | profileSpecificData |
      propertyExchange =>
    simp
    omega
  case nak =>
    split
    · simp
    · simp
      omega
  all_goals split <;> simp [External.body]

theorem delivers_message (hrep : m.Representable) (hparsed : m.Parsed hdr.version)
    (haccept : accepts cfg group hdr.localMuid = true)
    (hfit : m.bodySize hdr.version ≤ cfg.bufferSize) (deviceId : B7) :
    Delivers cfg deviceId group (encode hdr m) { hdr with deviceId := deviceId }
      (m.carried hdr.version) := by
  have hp : Parses { hdr with deviceId := deviceId } m (m.carried hdr.version) :=
    parses_message hrep hparsed
  obtain ⟨b, hbody⟩ := hp.body
  have hsize : m.bodySize hdr.version = b.length := bodySize_of_body hbody
  exact hp.delivers haccept hbody (hsize ▸ hfit) (hsize ▸ bodySize_lt hdr.version hrep)

theorem overflows_message (hrep : m.Representable) (hparsed : m.Parsed hdr.version)
    (haccept : accepts cfg group hdr.localMuid = true)
    (hlong : cfg.bufferSize < m.bodySize hdr.version) (deviceId : B7) :
    ((fresh cfg deviceId group).run cfg (encode hdr m)).callbacks = [.bufferOverflow] := by
  have hp : Parses { hdr with deviceId := deviceId } m (m.carried hdr.version) :=
    parses_message hrep hparsed
  obtain ⟨b, hbody⟩ := hp.body
  have hsize : m.bodySize hdr.version = b.length := bodySize_of_body hbody
  exact hp.overflows haccept hbody (hsize ▸ hlong) (hsize ▸ bodySize_lt hdr.version hrep)

/-! ## Messages that are not -/

/-- A dispatcher that has read the header of a NAK of version 1 waits for a byte more than
the message has. -/
theorem silent_nakV1 (hv : hdr.version = 1#7) (r : Nak List) (deviceId : B7) :
    ((fresh cfg deviceId group).run cfg (encode hdr (.nak r))).callbacks = [] := by
  have hlookup : lookup MessageType.nak.toByte =
      some ⟨.nak, Layout.size Packed.NakV1, Layout.size Packed.NakV2, .nak⟩ := rfl
  have hbody : (Message.nak r).body hdr.version = some [] := by
    simp only [Message.body, if_pos hv]
  rw [encode_eq, hbody]
  cases haccept : accepts cfg group hdr.localMuid with
  | false => exact callbacks_rejected hlookup haccept []
  | true =>
      have hsize : MessageDispatchInfo.size ⟨.nak, Layout.size Packed.NakV1,
          Layout.size Packed.NakV2, .nak⟩ hdr.version = 1 := if_pos hv
      obtain ⟨d, -, hquiet, hrun⟩ := @run_headerBytes cfg hdr deviceId group _ _ hlookup haccept
        (by rw [hsize]; decide)
      simp only [Message.id, List.append_nil, hrun]
      exact hquiet

/-- A message whose handler gives up when all of it has arrived. -/
theorem silent_of_giveUp {id : MessageType} {info : MessageDispatchInfo} {b : List Byte}
    {deviceId : B7} (hlookup : lookup id.toByte = some info)
    (hsize : info.size hdr.version = b.length) (hsmall : b.length ≤ 13)
    (hhandle : ∀ d, d.header.version = hdr.version → handle info.consumer d = d.giveUp) :
    ((fresh cfg deviceId group).run cfg (headerBytes hdr id ++ b)).callbacks = [] := by
  have hfits := cfg.header_fits
  cases haccept : accepts cfg group hdr.localMuid with
  | false => exact callbacks_rejected hlookup haccept b
  | true =>
      rcases Nat.eq_zero_or_pos b.length with hnil | hne
      · obtain ⟨d, hheader, hquiet, hrun⟩ := @run_headerBytes_empty cfg hdr deviceId group id
          info hlookup haccept (hsize.trans hnil)
        rw [List.length_eq_zero_iff.1 hnil, List.append_nil, hrun, hhandle d (by rw [hheader])]
        exact hquiet
      · obtain ⟨d, hd, hquiet, hrun⟩ := @run_headerBytes cfg hdr deviceId group id info hlookup
          haccept (by omega)
        have hlen : ([] ++ b).length = b.length := rfl
        rw [run_append, hrun, hsize, hd.run_stage hne (by omega) (by omega), hhandle]
        · exact hquiet
        · rw [hd.receive.header_eq]

/-- Before version 2 a process inquiry message is discarded with its last byte. -/
theorem silent_sinceV2 (hm : m.SinceV2) (hv : ¬1#7 < hdr.version) (deviceId : B7) :
    ((fresh cfg deviceId group).run cfg (encode hdr m)).callbacks = [] := by
  have hgiveUp : ∀ (f : Dispatcher → Dispatcher) (d : Dispatcher),
      d.header.version = hdr.version → sinceV2 f d = d.giveUp := by
    intro f d hd
    rw [sinceV2, hd, if_neg hv]
  have habsent : m.body hdr.version = none →
      ((fresh cfg deviceId group).run cfg (encode hdr m)).callbacks = [] := by
    intro hbody
    rw [encode_eq, hbody]
    rfl
  have hpresent : ∀ {info b}, lookup m.id.toByte = some info → m.body hdr.version = some b →
      info.size hdr.version = b.length → b.length ≤ 13 →
      (∃ f, handle info.consumer = sinceV2 f) →
      ((fresh cfg deviceId group).run cfg (encode hdr m)).callbacks = [] := by
    rintro info b hlookup hbody hsize hsmall ⟨f, hf⟩
    rw [encode_eq, hbody]
    exact silent_of_giveUp hlookup hsize hsmall fun d hd => by rw [hf, hgiveUp f d hd]
  by_cases h1 : hdr.version = 1#7
  · cases m <;> try exact hm.elim
    case piCapabilities =>
      exact hpresent rfl (congrArg External.body (if_pos h1)) (ite_self _) (by decide) ⟨_, rfl⟩
    all_goals exact habsent (congrArg External.body (if_pos h1))
  · have hpacked : ∀ {V : Type} [Layout Byte V] (v : V) {id : MessageType} {k : Handler},
        lookup m.id.toByte = some ⟨id, 0, Layout.size V, k⟩ → m.body hdr.version = some (bytes v) →
        Layout.size V ≤ 13 → (∃ f, handle k = sinceV2 f) →
        ((fresh cfg deviceId group).run cfg (encode hdr m)).callbacks = [] := by
      intro V _ v id k hlookup hbody hsmall hf
      refine hpresent hlookup hbody ?_ (by rwa [Layout.length_bytes]) hf
      exact (if_neg h1).trans (Layout.length_bytes v).symm
    cases m <;> try exact hm.elim
    case piCapabilities | piMidiMessageReportEnd =>
      exact hpresent rfl (congrArg External.body (if_neg h1)) (ite_self _) (by decide) ⟨_, rfl⟩
    case piCapabilitiesReply m | piMidiMessageReport m | piMidiMessageReportReply m =>
      exact hpacked m.toV2 rfl (congrArg External.body (if_neg h1)) (by decide) ⟨_, rfl⟩

/-- A reply that enables no profile is reported when two bytes of its body have arrived. -/
theorem reported_emptyReply {r : ProfileConfiguration.InquiryReply List}
    (hnil : r.enabled = []) (haccept : accepts cfg group hdr.localMuid = true) (deviceId : B7)
    (rest : List Byte) :
    ∃ spans pos memory,
      ((fresh cfg deviceId group).run cfg (headerBytes hdr .profileInquiryReply ++
        (bytes r.toPt1 ++ rest))).callbacks =
        [.message { hdr with deviceId := deviceId } spans pos memory] := by
  have hfits := cfg.header_fits
  have hlookup : lookup MessageType.profileInquiryReply.toByte =
      some ⟨.profileInquiryReply, 2, 2, .profileInquiryReply⟩ := rfl
  have hsize : MessageDispatchInfo.size ⟨.profileInquiryReply, 2, 2, .profileInquiryReply⟩
      hdr.version = (bytes r.toPt1).length := (ite_self 2).trans (by rw [Layout.length_bytes]; rfl)
  have hlen : (bytes r.toPt1).length = 2 := Layout.length_bytes _
  obtain ⟨d, hd, hquiet, hrun⟩ := @run_headerBytes cfg hdr deviceId group _ _ hlookup haccept
    (by omega)
  have hzero : r.enabled.length = 0 := by rw [hnil, List.length_nil]
  have hnone : ([] ++ bytes r.toPt1).length = 2 := hlen
  have hstage := @Received.run_stage cfg _ _ _ _ [] (bytes r.toPt1) hd (by omega) (by omega)
    (by omega)
  have he := @Received.receive _ _ _ _ [] (bytes r.toPt1) hd
  have hquiet' : ((d.await (bytes r.toPt1).length).receive (bytes r.toPt1)).callbacks = [] := hquiet
  rw [run_append, hrun, hsize, run_append, hstage]
  generalize (d.await (bytes r.toPt1).length).receive (bytes r.toPt1) = e at he hquiet'
  rw [List.nil_append, ← List.append_nil (bytes r.toPt1)] at he
  have henabled : e.numEnabled = 0 :=
    (numEnabled_received r (by rw [hnil]; decide) he).trans hzero
  have hpos : e.pos = 2 := by rw [he.pos_eq, List.append_nil, hlen]
  have hdeliver : ∃ spans, handle .profileInquiryReply e = e.deliver spans := by
    rw [handle_profileInquiryReply, henabled, if_neg (by omega), if_neg (by omega)]
    exact ⟨_, rfl⟩
  obtain ⟨spans, hdeliver⟩ := hdeliver
  have hlast : (e.deliver spans).calls = e.calls ++ [.message e.header spans e.pos e.buffer] := rfl
  refine ⟨spans, e.pos, e.buffer, ?_⟩
  rw [hdeliver, callbacks, (discarding_deliver spans he.count_eq).run.2, ← he.header_eq]
  exact callbacks_of_calls hlast hquiet'

/-! ## Round trips, family by family -/

/-- A header from one device to everybody, for examples. -/
def broadcastHeader (version : B7) : Header :=
  { deviceId := 0x7F#7, version := version, remoteMuid := 0x0123456#28, localMuid := broadcastMuid }

/-- A reply to a profile inquiry is delivered with its last byte if and only if it enables a
profile. -/
theorem profileInquiryReply_delivers_iff (cfg : Config) (group : Byte) (hdr : Header)
    (r : ProfileConfiguration.InquiryReply List)
    (haccept : accepts cfg group hdr.localMuid = true) (henabled : r.enabled.length < 2 ^ 14)
    (hdisabled : r.disabled.length < 2 ^ 14)
    (hfit : (Message.profileInquiryReply r).bodySize hdr.version ≤ cfg.bufferSize) :
    Delivers cfg hdr.deviceId group (encode hdr (.profileInquiryReply r)) hdr
      (.profileInquiryReply r) ↔ r.enabled ≠ [] := by
  refine ⟨fun hdelivers hnil => ?_, fun hne => ?_⟩
  · obtain ⟨spans, pos, memory, hcalls⟩ :=
      @reported_emptyReply cfg group hdr r hnil haccept hdr.deviceId
        (bytes r.toPt2 ++ bytesList r.disabled).dropLast
    have hpt2 : bytes r.toPt2 ++ bytesList r.disabled ≠ [] := by
      intro h
      have hlen := congrArg List.length h
      rw [List.length_append, Layout.length_bytes, List.length_nil,
        ProfileConfiguration.Packed.size_inquiryReplyV1Pt2] at hlen
      omega
    have hbefore := hdelivers.before
    rw [encode_eq, Message.body, hnil, Layout.bytesList_nil, List.append_nil] at hbefore
    simp only [Message.id] at hbefore
    rw [← List.append_assoc, List.dropLast_append_of_ne_nil hpt2, List.append_assoc,
      hcalls] at hbefore
    cases hbefore
  · have hrep : (Message.profileInquiryReply r).Representable := ⟨henabled, hdisabled⟩
    exact delivers_message hrep hne haccept hfit hdr.deviceId

theorem profileInquiryReply_delivers_oneEnabled :
    Delivers openConfig 0x7F#7 0
      (encode (broadcastHeader 2#7) (.profileInquiryReply ⟨[fun _ => 1], []⟩)) (broadcastHeader 2#7)
      (.profileInquiryReply ⟨[fun _ => 1], []⟩) :=
  (profileInquiryReply_delivers_iff openConfig 0 (broadcastHeader 2#7) ⟨[fun _ => 1], []⟩ rfl
    (by decide) (by decide) (by decide)).2 (by simp)

/-- A reply with two empty lists is reported two bytes before it is complete. -/
theorem not_delivers_noneEnabled :
    accepts openConfig 0 (broadcastHeader 2#7).localMuid = true ∧
    (Message.profileInquiryReply ⟨[], []⟩).bodySize 2#7 ≤ openConfig.bufferSize ∧
    ¬Delivers openConfig (broadcastHeader 2#7).deviceId 0
      (encode (broadcastHeader 2#7) (.profileInquiryReply ⟨[], []⟩)) (broadcastHeader 2#7)
      (.profileInquiryReply ⟨[], []⟩) := by
  refine ⟨rfl, by decide, fun h => ?_⟩
  have hlen := congrArg List.length h.before
  revert hlen
  decide

/-- Property exchange: what fits the buffer is delivered with its last byte, what does not
overflows it. -/
theorem propertyExchange_delivers (cfg : Config) (group : Byte) (hdr : Header)
    (pet : PropertyExchange.PropertyExchangeType) (pe : PropertyExchange.PropertyExchange List)
    (haccept : accepts cfg group hdr.localMuid = true) (hheader : pe.header.length < 2 ^ 14)
    (hdata : pe.data.length < 2 ^ 14) (hget : pet = .get → pe.data = []) :
    ((Message.propertyExchange pet pe).bodySize hdr.version ≤ cfg.bufferSize →
      Delivers cfg hdr.deviceId group (encode hdr (.propertyExchange pet pe)) hdr
        (.propertyExchange pet pe)) ∧
    (cfg.bufferSize < (Message.propertyExchange pet pe).bodySize hdr.version →
      ((fresh cfg hdr.deviceId group).run cfg
        (encode hdr (.propertyExchange pet pe))).callbacks = [.bufferOverflow]) := by
  have hrep : (Message.propertyExchange pet pe).Representable := ⟨hheader, hdata⟩
  have hparsed : (Message.propertyExchange pet pe).Parsed hdr.version := fun h => h.elim
  have hcarried : (Message.propertyExchange pet pe).carried hdr.version =
      .propertyExchange pet pe := by
    cases pet
    case get => rw [Message.carried, ← hget rfl]
    all_goals rfl
  refine ⟨fun hfit => ?_, fun hlong => overflows_message hrep hparsed haccept hlong hdr.deviceId⟩
  have hdelivers := delivers_message hrep hparsed haccept hfit hdr.deviceId
  rwa [hcarried] at hdelivers

theorem propertyExchange_delivers_getReply :
    Delivers openConfig 0x7F#7 0
      (encode (broadcastHeader 2#7) (.propertyExchange .getReply ⟨⟨1, 1⟩, 3, [0x7B, 0x7D], [0x22]⟩))
      (broadcastHeader 2#7)
      (.propertyExchange .getReply ⟨⟨1, 1⟩, 3, [0x7B, 0x7D], [0x22]⟩) :=
  (propertyExchange_delivers openConfig 0 (broadcastHeader 2#7) .getReply
    ⟨⟨1, 1⟩, 3, [0x7B, 0x7D], [0x22]⟩ rfl (by decide) (by decide) (fun h => by cases h)).1
    (by decide)

/-- Messages that consist of a fixed part and one tail. -/
def Message.OneTail (version : B7) : Message List → Prop
  | ack _ | endpointReply _ | profileDetailsReply _ | profileSpecificData _ => True
  | nak _ => version ≠ 1#7
  | _ => False

/-- Messages with a tail: what fits the buffer is delivered with its last byte, what does not
overflows it. -/
theorem oneTail_delivers (cfg : Config) (group : Byte) (hdr : Header) (m : Message List)
    (hm : m.OneTail hdr.version) (hrep : m.Representable)
    (haccept : accepts cfg group hdr.localMuid = true) :
    (m.bodySize hdr.version ≤ cfg.bufferSize →
      Delivers cfg hdr.deviceId group (encode hdr m) hdr m) ∧
    (cfg.bufferSize < m.bodySize hdr.version →
      ((fresh cfg hdr.deviceId group).run cfg (encode hdr m)).callbacks = [.bufferOverflow]) := by
  have hparsed : m.Parsed hdr.version := by
    cases m <;> first | exact hm | exact fun h => h.elim | exact hm.elim
  have hcarried : m.carried hdr.version = m := by
    cases m <;> first | exact congrArg Message.nak (if_neg hm) | rfl | exact hm.elim
  refine ⟨fun hfit => ?_, fun hlong => overflows_message hrep hparsed haccept hlong hdr.deviceId⟩
  have hdelivers := delivers_message hrep hparsed haccept hfit hdr.deviceId
  rwa [hcarried] at hdelivers

theorem oneTail_delivers_ack :
    Delivers openConfig 0x7F#7 0
      (encode (broadcastHeader 1#7) (.ack ⟨0x34, 0, 0, fun _ => 0, [0x4F, 0x4B]⟩))
      (broadcastHeader 1#7) (.ack ⟨0x34, 0, 0, fun _ => 0, [0x4F, 0x4B]⟩) :=
  (oneTail_delivers openConfig 0 (broadcastHeader 1#7) (.ack ⟨0x34, 0, 0, fun _ => 0, [0x4F, 0x4B]⟩)
    trivial (show 2 < 2 ^ 14 by decide) rfl).1 (by decide)

/-- Messages of a fixed size, in the versions that define them. -/
def Message.FixedSize (version : B7) : Message List → Prop
  | discovery _ | discoveryReply _ | endpoint _ | invalidateMuid _ | profileInquiry
  | profileAdded _ | profileRemoved _ | profileDetails _ | profileOn _ | profileOff _
  | profileEnabled _ | profileDisabled _ | peCapabilities _ | peCapabilitiesReply _ => True
  | nak _ => version = 1#7
  | m => m.SinceV2 ∧ 1#7 < version

/-- A message of a fixed size is reported, with what its version carries, if and only if it is
not a NAK. -/
theorem fixedSize_reports_iff (cfg : Config) (group : Byte) (hdr : Header) (m : Message List)
    (hm : m.FixedSize hdr.version) (haccept : accepts cfg group hdr.localMuid = true)
    (hfit : m.bodySize hdr.version ≤ cfg.bufferSize) :
    Reports cfg hdr.deviceId group (encode hdr m) hdr (m.carried hdr.version) ↔ m.id ≠ .nak := by
  refine ⟨?_, fun hnak => ?_⟩
  · rintro ⟨spans, pos, memory, -, hcalls⟩ hnak
    obtain ⟨r, rfl⟩ : ∃ r, m = .nak r := by
      cases m
      case nak r => exact ⟨r, rfl⟩
      case propertyExchange pet pe => cases pet <;> cases hnak
      all_goals cases hnak
    rw [silent_nakV1 hm] at hcalls
    cases hcalls
  · have hparsed : m.Parsed hdr.version ∧ m.Representable := by
      cases m
      case nak => exact absurd rfl hnak
      case piCapabilities | piCapabilitiesReply | piMidiMessageReport | piMidiMessageReportReply |
          piMidiMessageReportEnd => exact ⟨fun _ => hm.2, trivial⟩
      all_goals first | exact ⟨fun h => h.elim, trivial⟩ | exact hm.1.elim
    exact (delivers_message hparsed.2 hparsed.1 haccept hfit hdr.deviceId).after

theorem fixedSize_reports_endpoint :
    Reports openConfig 0x7F#7 0 (encode (broadcastHeader 2#7) (.endpoint ⟨0⟩)) (broadcastHeader 2#7)
      (.endpoint ⟨0⟩) :=
  (fixedSize_reports_iff openConfig 0 (broadcastHeader 2#7) (.endpoint ⟨0⟩) trivial rfl
    (by decide)).2 (by decide)

/-- A NAK of version 1 is not reported. -/
theorem not_reports_nakV1 :
    let nak : Message List := .nak ⟨0, 0, 0, fun _ => 0, []⟩
    nak.FixedSize (broadcastHeader 1#7).version ∧
    accepts openConfig 0 (broadcastHeader 1#7).localMuid = true ∧
    nak.bodySize 1#7 ≤ openConfig.bufferSize ∧
    ¬Reports openConfig (broadcastHeader 1#7).deviceId 0 (encode (broadcastHeader 1#7) nak)
      (broadcastHeader 1#7) (nak.carried 1#7) := by
  refine ⟨rfl, rfl, by decide, ?_⟩
  rintro ⟨spans, pos, memory, -, hcalls⟩
  have hlen := congrArg List.length hcalls
  rw [List.length_singleton] at hlen
  revert hlen
  decide

end Midi2.Ci
