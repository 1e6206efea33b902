import Midi2.Ci.Stages

/-!
# Round trips

What `create_message` writes and what a dispatcher makes of it, for every message type. The
messages fall into four families by the way their bodies are cut into stages: one stage of a
fixed size (`parses_fixed`), a fixed part and a tail (`parses_withTail`), the reply to a
profile inquiry with its two lists, and property exchange with its two texts. The family
decides the stages; the member decides only which packed structure they are made of, and its
`make` undoes its conversion operator.
-/

namespace Midi2.Ci

open Layout (Holds bytes bytesList holds_append)
open Dispatcher

variable {hdr : Header} {m m' : Message List} {info : MessageDispatchInfo}

/-! ## Families -/

/-- What has been received starts with a packed structure. -/
theorem Dispatcher.Received.view_eq {V : Type} [Layout Byte V] {h : Handler} {type : Byte}
    {v : V} {rest : List Byte} {d : Dispatcher}
    (hd : Received h type hdr (bytes v ++ rest) d) : d.view V 0 = v :=
  Layout.cast_of_holds (holds_append.1 hd.holds).1

/-- A body of one stage, whose size does not depend on its content. The handler need only
read it as such when the header is `hdr`. -/
theorem parses_stage {V : Type} [Layout Byte V] {make : V → Message Span} {v : V}
    (hlookup : lookup m.id.toByte = some info) (hbody : m.body hdr.version = some (bytes v))
    (hsize : info.size hdr.version = Layout.size V) (hne : 0 < Layout.size V)
    (hhandle : ∀ d, d.header = hdr → handle info.consumer d = d.fixed V make)
    (hread : ∀ mem, (make v).read mem = m') : Parses hdr m m' := by
  refine @Parses.stages _ _ _ info (make v) (bytes v) [] hlookup ?_ ?_ ?_ (.last ?_)
    fun mem _ => hread mem
  · rw [hbody, List.flatten_nil, List.append_nil]
  · rw [hsize, Layout.length_bytes]
  · rwa [Layout.length_bytes]
  · intro d hd
    rw [← List.append_nil (bytes v)] at hd
    rw [hhandle d hd.header_eq, fixed, hd.view_eq]

theorem parses_fixed {V : Type} [Layout Byte V] (v : V) (make : V → Message Span)
    {id : MessageType} {k : Handler}
    (hlookup : lookup m.id.toByte = some ⟨id, Layout.size V, Layout.size V, k⟩)
    (hbody : m.body hdr.version = some (bytes v)) (hne : 0 < Layout.size V)
    (hhandle : handle k = fixed V make) (hread : ∀ mem, (make v).read mem = m') :
    Parses hdr m m' :=
  parses_stage hlookup hbody (ite_self _) hne (fun d _ => congrFun hhandle d) hread

/-- The stage for an array of run-time length, which is left out when the array is empty. -/
def tailStages (tail : List Byte) : List (List Byte) :=
  if tail = [] then [] else [tail]

@[simp] theorem flatten_tailStages (tail : List Byte) : (tailStages tail).flatten = tail := by
  unfold tailStages
  split
  case isTrue h => rw [h, List.flatten_nil]
  case isFalse => rw [List.flatten_singleton]

/-- A last stage that may be empty. -/
theorem stages_tail {h : Handler} {type : Byte} {spans : Message Span} {got tail : List Byte}
    (hmore : 0 < tail.length →
      ∀ d, Received h type hdr got d → handle h d = d.await tail.length)
    (hlast : ∀ d, Received h type hdr (got ++ tail) d → handle h d = d.deliver spans) :
    Stages h type hdr spans got (tailStages tail) := by
  unfold tailStages
  split
  case isTrue hnil =>
    rw [hnil, List.append_nil] at hlast
    exact .last hlast
  case isFalse hne =>
    have hpos : 0 < tail.length := List.length_pos_of_ne_nil hne
    exact .next hpos (hmore hpos) (.last hlast)

/-- A body with a fixed part, which holds the length of the tail that follows it. -/
theorem parses_stageTail {V : Type} [Layout Byte V] {length : V → ByteArray 2}
    {make : Nat → V → Message Span} {v : V} {tail : List Byte}
    (hlookup : lookup m.id.toByte = some info)
    (hbody : m.body hdr.version = some (bytes v ++ tail))
    (hsize : info.size hdr.version = Layout.size V) (hne : 0 < Layout.size V)
    (hhandle : ∀ d, d.header = hdr → handle info.consumer d = d.withTail V length make)
    (hlength : (fromLe7 (length v) : B14).toNat = tail.length)
    (hread : ∀ mem, Holds mem 0 (bytes v ++ tail) → (make 0 v).read mem = m') :
    Parses hdr m m' := by
  refine @Parses.stages _ _ _ info (make 0 v) (bytes v) (tailStages tail) hlookup ?_ ?_ ?_
    (stages_tail ?_ ?_) ?_
  · rw [hbody, flatten_tailStages]
  · rw [hsize, Layout.length_bytes]
  · rwa [Layout.length_bytes]
  · intro hpos d hd
    have hp : d.pos = Layout.size V := by rw [hd.pos_eq, Layout.length_bytes]
    rw [← List.append_nil (bytes v)] at hd
    simp only [hhandle d hd.header_eq, withTail, hd.view_eq, hlength, hp]
    rw [if_pos ⟨trivial, hpos⟩]
  · intro d hd
    have hp : d.pos = Layout.size V + tail.length := by
      rw [hd.pos_eq, List.length_append, Layout.length_bytes]
    simp only [hhandle d hd.header_eq, withTail, hd.view_eq, hlength, hp]
    rw [if_neg (by omega)]
  · rwa [flatten_tailStages]

theorem parses_withTail {V : Type} [Layout Byte V] (v : V) (tail : List Byte)
    (length : V → ByteArray 2) (make : Nat → V → Message Span) {id : MessageType} {k : Handler}
    (hlookup : lookup m.id.toByte = some ⟨id, Layout.size V, Layout.size V, k⟩)
    (hbody : m.body hdr.version = some (bytes v ++ tail)) (hne : 0 < Layout.size V)
    (hhandle : handle k = withTail V length make)
    (hlength : (fromLe7 (length v) : B14).toNat = tail.length)
    (hread : ∀ mem, Holds mem 0 (bytes v ++ tail) → (make 0 v).read mem = m') :
    Parses hdr m m' :=
  parses_stageTail hlookup hbody (ite_self _) hne (fun d _ => congrFun hhandle d) hlength hread

/-! ### The reply to a profile inquiry -/

section
open ProfileConfiguration (InquiryReply Profile)
open ProfileConfiguration.Packed

variable {type : Byte} {d : Dispatcher} (r : InquiryReply List)

/-- The spans that a dispatcher hands out for the reply `r`. -/
def replySpans : Message Span :=
  .profileInquiryReply ⟨⟨2, r.enabled.length⟩, ⟨2 + r.enabled.length * 5 + 2, r.disabled.length⟩⟩

theorem numEnabled_received {rest : List Byte} (hlen : r.enabled.length < 2 ^ 14)
    (hd : Received .profileInquiryReply type hdr (bytes r.toPt1 ++ rest) d) :
    d.numEnabled = r.enabled.length := by
  rw [numEnabled, hd.view_eq, InquiryReply.toPt1, Le7.fromLe7_toLe7, BitVec.toNat_ofNat,
    Nat.mod_eq_of_lt hlen]

theorem numDisabled_received {rest : List Byte} (hlen : r.enabled.length < 2 ^ 14)
    (hlen' : r.disabled.length < 2 ^ 14)
    (hd : Received .profileInquiryReply type hdr
      (bytes r.toPt1 ++ (bytesList r.enabled ++ (bytes r.toPt2 ++ rest))) d) :
    d.numDisabled = r.disabled.length := by
  have hholds := (holds_append.1 (holds_append.1 (holds_append.1 hd.holds).2).2).1
  have hoff : 0 + (bytes r.toPt1).length + (bytesList r.enabled).length =
      2 + r.enabled.length * 5 := by
    rw [Layout.length_bytes, size_inquiryReplyV1Pt1, Layout.length_bytesList,
      ProfileConfiguration.size_profile]
    omega
  rw [hoff] at hholds
  have hview : d.view InquiryReplyV1Pt2 (2 + r.enabled.length * 5) = r.toPt2 :=
    Layout.cast_of_holds hholds
  rw [numDisabled, numEnabled_received r hlen hd, hview, InquiryReply.toPt2,
    Le7.fromLe7_toLe7, BitVec.toNat_ofNat, Nat.mod_eq_of_lt hlen']

theorem read_replySpans {mem : Nat → Byte}
    (h : Holds mem 0 (bytes r.toPt1 ++ (bytesList r.enabled ++
      (bytes r.toPt2 ++ bytesList r.disabled)))) :
    (replySpans r).read mem = .profileInquiryReply r := by
  obtain ⟨-, henabled, -, hdisabled⟩ :=
    (holds_append.1 h).imp_right fun h => (holds_append.1 h).imp_right holds_append.1
  simp only [Layout.length_bytes, Layout.length_bytesList, size_inquiryReplyV1Pt1,
    size_inquiryReplyV1Pt2, ProfileConfiguration.size_profile, Nat.zero_add,
    Nat.mul_comm 5] at henabled hdisabled
  simp only [replySpans, Message.read, Span.read, Layout.viewList_of_holds henabled,
    Layout.viewList_of_holds hdisabled]

theorem parses_profileInquiryReply (hlen : r.enabled.length < 2 ^ 14)
    (hlen' : r.disabled.length < 2 ^ 14) (hne : r.enabled ≠ []) :
    Parses hdr (.profileInquiryReply r) (.profileInquiryReply r) := by
  have hpos : 0 < r.enabled.length := List.length_pos_of_ne_nil hne
  have hlookup : lookup (Message.profileInquiryReply r).id.toByte =
      some ⟨.profileInquiryReply, 2, 2, .profileInquiryReply⟩ := rfl
  have hflat : bytes r.toPt1 ++ ((bytesList r.enabled ++ bytes r.toPt2) ::
      tailStages (bytesList r.disabled)).flatten =
      bytes r.toPt1 ++ (bytesList r.enabled ++ (bytes r.toPt2 ++ bytesList r.disabled)) := by
    rw [List.flatten_cons, flatten_tailStages, List.append_assoc]
  -- The stage lengths, as the handler computes them.
  have hids : (bytesList r.enabled ++ bytes r.toPt2).length = r.enabled.length * 5 + 2 := by
    simp only [List.length_append, Layout.length_bytesList, Layout.length_bytes,
      ProfileConfiguration.size_profile, size_inquiryReplyV1Pt2]
    omega
  have htail : (bytesList r.disabled).length = r.disabled.length * 5 := by
    rw [Layout.length_bytesList, ProfileConfiguration.size_profile, Nat.mul_comm]
  refine @Parses.stages _ _ _ _ (replySpans r) (bytes r.toPt1)
    ((bytesList r.enabled ++ bytes r.toPt2) :: tailStages (bytesList r.disabled)) hlookup ?_ ?_ ?_
    (.next ?_ ?_ (stages_tail ?_ ?_)) ?_
  · rw [hflat]
    exact congrArg some (by rw [List.append_assoc])
  · rw [Layout.length_bytes]
    exact ite_self _
  · rw [Layout.length_bytes]
    decide
  · omega
  · intro d hd
    have hp : d.pos = 2 := by rw [hd.pos_eq, Layout.length_bytes, size_inquiryReplyV1Pt1]
    rw [← List.append_nil (bytes r.toPt1)] at hd
    rw [hids, handle_profileInquiryReply, numEnabled_received r hlen hd, if_pos ⟨hpos, hp⟩]
  · intro hmore d hd
    have hp : d.pos = 2 + r.enabled.length * 5 + 2 := by
      rw [hd.pos_eq, List.length_append, hids, Layout.length_bytes, size_inquiryReplyV1Pt1]
      omega
    rw [← List.append_nil (bytes r.toPt2)] at hd
    have hmore' : 0 < r.disabled.length := by omega
    rw [handle_profileInquiryReply, numEnabled_received r hlen hd,
      numDisabled_received r hlen hlen' hd, if_neg (by omega), if_pos ⟨hmore', hp⟩, htail]
  · intro d hd
    have hp : d.pos = 2 + r.enabled.length * 5 + 2 + r.disabled.length * 5 := by
      rw [hd.pos_eq, List.length_append, List.length_append, hids, htail, Layout.length_bytes,
        size_inquiryReplyV1Pt1]
      omega
    rw [List.append_assoc, List.append_assoc] at hd
    have henabled := numEnabled_received r hlen hd
    have hdisabled := numDisabled_received r hlen hlen' hd
    rw [handle_profileInquiryReply, henabled, hdisabled, if_neg (by omega), if_neg (by omega),
      deliverReply, henabled, hdisabled, replySpans]
  · intro mem hmem
    rw [hflat] at hmem
    exact read_replySpans r hmem

end

/-! ### Property exchange -/

section
open PropertyExchange (PropertyExchangeType)
open PropertyExchange.Packed

variable {d : Dispatcher} (pet : PropertyExchangeType)
  (pe : PropertyExchange.PropertyExchange List)

/-- The spans that a dispatcher hands out for the message `pe`. -/
def exchangeSpans : Message Span :=
  .propertyExchange pet ⟨pe.chunk, pe.request, ⟨3, pe.header.length⟩,
    if pet = .get then ⟨0, 0⟩ else ⟨9 + pe.header.length, pe.data.length⟩⟩

theorem propertyExchangeType_id : propertyExchangeType pet.id.toByte = some pet := by
  cases pet <;> rfl

theorem lookup_propertyExchange :
    lookup pet.id.toByte = some ⟨pet.id, 3, 3, .propertyExchange⟩ := by
  cases pet <;> rfl

theorem headerLength_received {type : Byte} {rest : List Byte}
    (hlen : pe.header.length < 2 ^ 14)
    (hd : Received .propertyExchange type hdr (bytes pe.toPt1 ++ rest) d) :
    d.headerLength = pe.header.length := by
  rw [headerLength, hd.view_eq, PropertyExchange.PropertyExchange.toPt1, Le7.fromLe7_toLe7,
    BitVec.toNat_ofNat, Nat.mod_eq_of_lt hlen]

theorem view_pt2_received {type : Byte} {rest : List Byte}
    (hd : Received .propertyExchange type hdr
      (bytes pe.toPt1 ++ (bytesList pe.header ++ (bytes pe.toPt2 ++ rest))) d) :
    d.view PropertyExchangePt2 (3 + pe.header.length) = pe.toPt2 := by
  have hholds := (holds_append.1 (holds_append.1 (holds_append.1 hd.holds).2).2).1
  rw [Layout.length_bytes, size_propertyExchangePt1, Layout.length_bytesList, size_byte,
    Nat.one_mul, Nat.zero_add] at hholds
  exact Layout.cast_of_holds hholds

theorem dataLength_received {type : Byte} {rest : List Byte}
    (hlen : pe.header.length < 2 ^ 14) (hlen' : pe.data.length < 2 ^ 14)
    (hd : Received .propertyExchange type hdr
      (bytes pe.toPt1 ++ (bytesList pe.header ++ (bytes pe.toPt2 ++ rest))) d) :
    d.dataLength = pe.data.length := by
  rw [dataLength, headerLength_received pe hlen hd, view_pt2_received pe hd,
    PropertyExchange.PropertyExchange.toPt2, Le7.fromLe7_toLe7, BitVec.toNat_ofNat,
    Nat.mod_eq_of_lt hlen']

theorem deliverExchange_received {rest : List Byte} (hlen : pe.header.length < 2 ^ 14)
    (hlen' : pe.data.length < 2 ^ 14)
    (hd : Received .propertyExchange pet.id.toByte hdr
      (bytes pe.toPt1 ++ (bytesList pe.header ++ (bytes pe.toPt2 ++ rest))) d) :
    d.deliverExchange = d.deliver (exchangeSpans pet pe) := by
  have hpt2 := view_pt2_received pe hd
  have hheader := headerLength_received pe hlen hd
  have hdata := dataLength_received pe hlen hlen' hd
  simp only [deliverExchange, hpt2, hd.view_eq, hheader, hdata, hd.type_eq,
    propertyExchangeType_id, PropertyExchange.PropertyExchange.toPt1,
    PropertyExchange.PropertyExchange.toPt2, Le7.fromLe7_toLe7, B7.ofByte_toByte]
  cases pet <;> rfl

theorem read_exchangeSpans (version : B7) {mem : Nat → Byte}
    (h : Holds mem 0 (bytes pe.toPt1 ++ (bytesList pe.header ++
      (bytes pe.toPt2 ++ bytesList pe.data)))) :
    (exchangeSpans pet pe).read mem = (Message.propertyExchange pet pe).carried version := by
  obtain ⟨-, hheader, -, hdata⟩ :=
    (holds_append.1 h).imp_right fun h => (holds_append.1 h).imp_right holds_append.1
  simp only [Layout.length_bytes, Layout.length_bytesList, size_propertyExchangePt1,
    size_propertyExchangePt2, size_byte, Nat.zero_add, Nat.one_mul] at hheader hdata
  have hoff : 3 + pe.header.length + 6 = 9 + pe.header.length := by omega
  rw [hoff] at hdata
  simp only [exchangeSpans, Message.read, Span.read, Layout.viewList_of_holds hheader]
  cases pet
  case get => rfl
  all_goals
    exact congrArg (fun data => Message.propertyExchange _ ⟨pe.chunk, pe.request, pe.header, data⟩)
      (Layout.viewList_of_holds hdata)

/-- From the end of the header text on. -/
theorem stages_pt2 (hlen : pe.header.length < 2 ^ 14) (hlen' : pe.data.length < 2 ^ 14) :
    Stages .propertyExchange pet.id.toByte hdr (exchangeSpans pet pe)
      (bytes pe.toPt1 ++ bytesList pe.header)
      (bytes pe.toPt2 :: tailStages (bytesList pe.data)) := by
  have hheader : (bytesList pe.header).length = pe.header.length := by
    rw [Layout.length_bytesList, size_byte, Nat.one_mul]
  have hdata : (bytesList pe.data).length = pe.data.length := by
    rw [Layout.length_bytesList, size_byte, Nat.one_mul]
  refine .next ?_ ?_ (stages_tail ?_ ?_)
  · rw [Layout.length_bytes]
    decide
  · intro d hd
    have hp : d.pos = 3 + pe.header.length := by
      rw [hd.pos_eq, List.length_append, hheader, Layout.length_bytes, size_propertyExchangePt1]
    rw [handle_propertyExchange, headerLength_received pe hlen hd, if_neg (by omega),
      if_pos hp, Layout.length_bytes, size_propertyExchangePt2]
  · intro hmore d hd
    have hp : d.pos = 9 + pe.header.length := by
      rw [hd.pos_eq, List.length_append, List.length_append, hheader, Layout.length_bytes,
        Layout.length_bytes, size_propertyExchangePt1, size_propertyExchangePt2]
      omega
    rw [hdata] at hmore ⊢
    rw [← List.append_nil (bytes pe.toPt2), List.append_assoc] at hd
    rw [handle_propertyExchange, headerLength_received pe hlen hd,
      dataLength_received pe hlen hlen' hd, if_neg (by omega), if_neg (by omega),
      if_pos ⟨hp, hmore⟩]
  · intro d hd
    have hp : d.pos = 9 + pe.header.length + pe.data.length := by
      simp only [hd.pos_eq, List.length_append, hheader, hdata, Layout.length_bytes,
        size_propertyExchangePt1, size_propertyExchangePt2]
      omega
    rw [List.append_assoc, List.append_assoc] at hd
    rw [handle_propertyExchange, headerLength_received pe hlen hd,
      dataLength_received pe hlen hlen' hd, if_neg (by omega), if_neg (by omega),
      if_neg (by omega), deliverExchange_received pet pe hlen hlen' hd]

theorem parses_propertyExchange (hlen : pe.header.length < 2 ^ 14)
    (hlen' : pe.data.length < 2 ^ 14) :
    Parses hdr (.propertyExchange pet pe)
      ((Message.propertyExchange pet pe).carried hdr.version) := by
  have hheader : (bytesList pe.header).length = pe.header.length := by
    rw [Layout.length_bytesList, size_byte, Nat.one_mul]
  have hflat : bytes pe.toPt1 ++ (tailStages (bytesList pe.header) ++
      bytes pe.toPt2 :: tailStages (bytesList pe.data)).flatten =
      bytes pe.toPt1 ++ (bytesList pe.header ++ (bytes pe.toPt2 ++ bytesList pe.data)) := by
    rw [List.flatten_append, List.flatten_cons, flatten_tailStages, flatten_tailStages]
  have hpt2 := @stages_pt2 hdr pet pe hlen hlen'
  refine @Parses.stages _ _ _ _ (exchangeSpans pet pe) (bytes pe.toPt1)
    (tailStages (bytesList pe.header) ++ bytes pe.toPt2 :: tailStages (bytesList pe.data))
    (lookup_propertyExchange pet) ?_ ?_ ?_ ?_ ?_
  · rw [hflat]
    exact congrArg some (by rw [List.append_assoc])
  · rw [Layout.length_bytes]
    exact ite_self _
  · rw [Layout.length_bytes]
    decide
  · unfold tailStages
    split
    case isTrue hnil =>
      rw [hnil, List.append_nil] at hpt2
      exact hpt2
    case isFalse hne =>
      have hpos : 0 < pe.header.length := hheader ▸ List.length_pos_of_ne_nil hne
      refine .next (hheader ▸ hpos) ?_ hpt2
      intro d hd
      have hp : d.pos = 3 := by rw [hd.pos_eq, Layout.length_bytes, size_propertyExchangePt1]
      rw [← List.append_nil (bytes pe.toPt1)] at hd
      rw [hheader, handle_propertyExchange, headerLength_received pe hlen hd,
        if_pos ⟨hp, hpos⟩]
  · intro mem hmem
    rw [hflat] at hmem
    exact read_exchangeSpans pet pe hdr.version hmem

end

/-! ## Messages -/

/-- A body of one stage, whose layout depends on the version. -/
theorem parses_versioned {V1 V2 : Type} [Layout Byte V1] [Layout Byte V2] {id : MessageType}
    {k : Handler} {make1 : V1 → Message Span} {make2 : V2 → Message Span} {v1 : V1} {v2 : V2}
    (hlookup : lookup m.id.toByte = some ⟨id, Layout.size V1, Layout.size V2, k⟩)
    (hbody : m.body hdr.version =
      (if hdr.version = 1#7 then External.packed (bytes v1) else .packed (bytes v2)).body)
    (hne : 0 < Layout.size V1 ∧ 0 < Layout.size V2)
    (hhandle : handle k = versioned V1 V2 make1 make2)
    (hread : ∀ mem, (if hdr.version = 1#7 then make1 v1 else make2 v2).read mem = m') :
    Parses hdr m m' := by
  by_cases hv : hdr.version = 1#7
  · simp only [if_pos hv] at hbody hread
    refine parses_stage hlookup hbody (if_pos hv) hne.1 (fun d hd => ?_) hread
    rw [hhandle, versioned, hd, if_pos hv]
  · simp only [if_neg hv] at hbody hread
    refine parses_stage hlookup hbody (if_neg hv) hne.2 (fun d hd => ?_) hread
    rw [hhandle, versioned, hd, if_neg hv]

/-- Messages without a body. -/
theorem parses_empty {spans : Message Span}
    (hlookup : lookup m.id.toByte = some info) (hbody : m.body hdr.version = some [])
    (hsize : info.v1size = 0 ∧ info.v2size = 0)
    (hhandle : ∀ d, d.header = hdr → handle info.consumer d = d.deliver spans)
    (hread : ∀ mem, spans.read mem = m') : Parses hdr m m' := by
  refine .empty hlookup hbody ?_ hhandle hread
  rw [MessageDispatchInfo.size, hsize.1, hsize.2, ite_self]

/-- Messages that were introduced with version 2. -/
def Message.SinceV2 : Message List → Prop
  | piCapabilities | piCapabilitiesReply _ | piMidiMessageReport _
  | piMidiMessageReportReply _ | piMidiMessageReportEnd => True
  | _ => False

/-- Messages that a dispatcher takes apart the way `create_message` puts them together. The
exceptions are a NAK of version 1, which it takes to have a body, a reply to a profile
inquiry whose list of enabled profiles is empty, whose second part it does not wait for, and
process inquiry messages before version 2. -/
def Message.Parsed (version : B7) : Message List → Prop
  | nak _ => version ≠ 1#7
  | profileInquiryReply m => m.enabled ≠ []
  | m => m.SinceV2 → 1#7 < version

/-- A body of one stage, in a message that exists from version 2 on. -/
theorem parses_sinceV2 {V : Type} [Layout Byte V] (v : V) (make : V → Message Span)
    {id : MessageType} {k : Handler} (hv : 1#7 < hdr.version)
    (hlookup : lookup m.id.toByte = some ⟨id, 0, Layout.size V, k⟩)
    (hbody : m.body hdr.version =
      (if hdr.version = 1#7 then External.notAvailable else .packed (bytes v)).body)
    (hne : 0 < Layout.size V) (hhandle : handle k = sinceV2 (fixed V make))
    (hread : ∀ mem, (make v).read mem = m') : Parses hdr m m' := by
  have hne1 : hdr.version ≠ 1#7 := fun h => absurd (h ▸ hv) (by decide)
  rw [if_neg hne1] at hbody
  refine parses_stage hlookup hbody (if_neg hne1) hne (fun d hd => ?_) hread
  rw [hhandle, sinceV2, hd, if_pos hv]

/-- A tail of bytes or seven-bit values, as part of what has been received. -/
theorem read_tail {V : Type} [Layout Byte V] {v : V} {tail : List B7} {n : Nat}
    {mem : Nat → Byte} (hsize : Layout.size V = n) (h : Holds mem 0 (bytes v ++ bytesList tail)) :
    Layout.viewList B7 mem (0 + n) tail.length = tail := by
  have htail := (holds_append.1 h).2
  rw [Layout.length_bytes, hsize] at htail
  exact Layout.viewList_of_holds htail

theorem toNat_length {τ : Type} {tail : List τ} (hlen : tail.length < 2 ^ 14) :
    (fromLe7 (toLe7 (BitVec.ofNat 14 tail.length) : ByteArray 2) : B14).toNat = tail.length := by
  rw [Le7.fromLe7_toLe7, BitVec.toNat_ofNat, Nat.mod_eq_of_lt hlen]

theorem length_tail (tail : List B7) : (bytesList tail).length = tail.length := by
  rw [Layout.length_bytesList, size_b7, Nat.one_mul]

/-- Every message whose lists have a length that can be written is taken apart in stages that
read as what its encoding carries. -/
theorem parses_message (hrep : m.Representable) (hparsed : m.Parsed hdr.version) :
    Parses hdr m (m.carried hdr.version) := by
  cases m with
  | discovery m =>
      refine parses_versioned rfl rfl (by decide) rfl fun mem => ?_
      simp only [Message.carried]
      split <;> simp [Message.read]
  | discoveryReply m =>
      refine parses_versioned rfl rfl (by decide) rfl fun mem => ?_
      simp only [Message.carried]
      split <;> simp [Message.read]
  | endpoint m =>
      refine parses_fixed m.toV1 (fun v => .endpoint (.make v)) rfl
        (congrArg External.body (ite_self _)) (by decide) rfl fun mem => ?_
      simp [Message.read, Message.carried]
  | endpointReply m =>
      refine parses_withTail m.toV1 (bytesList m.information) (·.dataLength)
        (fun ptr v => .endpointReply (.make ptr v)) rfl rfl (by decide) rfl ?_ fun mem hmem => ?_
      · exact (toNat_length hrep).trans (length_tail _).symm
      · simp only [EndpointReply.make_toV1 0 m hrep, Message.read, Span.read, Message.carried]
        rw [read_tail Packed.size_endpointReplyV1 hmem]
  | invalidateMuid m =>
      refine parses_fixed m.toV1 (fun v => .invalidateMuid (.make v)) rfl
        (congrArg External.body (ite_self _)) (by decide) rfl fun mem => ?_
      simp [Message.read, Message.carried]
  | ack m =>
      refine parses_withTail m.toV1 (bytesList m.message) (·.messageLength)
        (fun ptr v => .ack (.make ptr v)) rfl rfl (by decide) rfl ?_ fun mem hmem => ?_
      · exact (toNat_length hrep).trans (length_tail _).symm
      · simp only [Ack.make_toV1 0 m hrep, Message.read, Span.read, Message.carried]
        rw [read_tail Packed.size_ackV1 hmem]
  | nak m =>
      have hv : hdr.version ≠ 1#7 := hparsed
      have hlookup : lookup (Message.nak m).id.toByte =
          some ⟨.nak, Layout.size Packed.NakV1, Layout.size Packed.NakV2, .nak⟩ := rfl
      refine @parses_stageTail hdr _ _ _ Packed.NakV2 _ (·.messageLength)
        (fun ptr v => .nak (.makeV2 ptr v)) m.toV2 (bytesList m.message) hlookup ?_ (if_neg hv)
        (by decide) (fun d hd => ?_) ?_ fun mem hmem => ?_
      · simp only [Message.body, if_neg hv]
      · simp only [handle, nak, hd, if_neg hv]
      · exact (toNat_length hrep).trans (length_tail _).symm
      · simp only [Nak.makeV2_toV2 0 m hrep, Message.read, Span.read, Message.carried, if_neg hv]
        rw [read_tail Packed.size_nakV2 hmem]
  | profileInquiry =>
      exact @parses_empty hdr _ _ _ .profileInquiry rfl (congrArg External.body (ite_self _))
        ⟨rfl, rfl⟩ (fun _ _ => rfl) fun _ => rfl
  | profileInquiryReply m => exact parses_profileInquiryReply m hrep.1 hrep.2 hparsed
  | profileAdded m =>
      exact parses_fixed m.toV1 (fun v => .profileAdded (.make v)) rfl
        (congrArg External.body (ite_self _)) (by decide) rfl fun _ => rfl
  | profileRemoved m =>
      exact parses_fixed m.toV1 (fun v => .profileRemoved (.make v)) rfl
        (congrArg External.body (ite_self _)) (by decide) rfl fun _ => rfl
  | profileDetails m =>
      refine parses_fixed m.toV1 (fun v => .profileDetails (.make v)) rfl
        (congrArg External.body (ite_self _)) (by decide) rfl fun mem => ?_
      simp [Message.read, Message.carried]
  | profileDetailsReply m =>
      refine parses_withTail m.toV1 (bytesList m.data) (·.dataLength)
        (fun ptr v => .profileDetailsReply (.make ptr v)) rfl rfl (by decide) rfl ?_
        fun mem hmem => ?_
      · exact (toNat_length hrep).trans (length_tail _).symm
      · simp only [ProfileConfiguration.DetailsReply.make_toV1 0 m hrep, Message.read, Span.read,
          Message.carried]
        rw [read_tail ProfileConfiguration.Packed.size_detailsReplyV1 hmem]
  | profileOn m | profileOff m | profileEnabled m | profileDisabled m
  | peCapabilities m | peCapabilitiesReply m =>
      refine parses_versioned rfl rfl (by decide) rfl fun mem => ?_
      simp only [Message.carried]
      split <;> simp [Message.read]
  | profileSpecificData m =>
      refine parses_withTail m.toV1 (bytesList m.data) (·.dataLength)
        (fun ptr v => .profileSpecificData (.make ptr v)) rfl rfl (by decide) rfl ?_
        fun mem hmem => ?_
      · exact (toNat_length hrep).trans (length_tail _).symm
      · simp only [ProfileConfiguration.SpecificData.make_toV1 0 m hrep, Message.read, Span.read,
          Message.carried]
        rw [read_tail ProfileConfiguration.Packed.size_specificDataV1 hmem]
  | propertyExchange pet m => exact parses_propertyExchange pet m hrep.1 hrep.2
  | piCapabilities =>
      refine @parses_empty hdr _ _ _ .piCapabilities rfl (congrArg External.body (ite_self _))
        ⟨rfl, rfl⟩ (fun d hd => ?_) fun _ => rfl
      have hv : 1#7 < d.header.version := hd ▸ hparsed trivial
      exact if_pos hv
  | piCapabilitiesReply m =>
      refine parses_sinceV2 m.toV2 (fun v => .piCapabilitiesReply (.make v)) (hparsed trivial) rfl
        rfl (by decide) rfl fun mem => ?_
      simp [Message.read, Message.carried]
  | piMidiMessageReport m =>
      refine parses_sinceV2 m.toV2 (fun v => .piMidiMessageReport (.make v)) (hparsed trivial) rfl
        rfl (by decide) rfl fun mem => ?_
      simp [Message.read, Message.carried]
  | piMidiMessageReportReply m =>
      refine parses_sinceV2 m.toV2 (fun v => .piMidiMessageReportReply (.make v))
        (hparsed trivial) rfl rfl (by decide) rfl fun mem => ?_
      simp [Message.read, Message.carried]
  | piMidiMessageReportEnd =>
      have hne1 : hdr.version ≠ 1#7 := fun h => absurd (h ▸ hparsed trivial) (by decide)
      refine @parses_empty hdr _ _ _ .piMidiMessageReportEnd rfl
        (congrArg External.body (if_neg hne1)) ⟨rfl, rfl⟩ (fun d hd => ?_) fun _ => rfl
      have hv : 1#7 < d.header.version := hd ▸ hparsed trivial
      exact if_pos hv

end Midi2.Ci
