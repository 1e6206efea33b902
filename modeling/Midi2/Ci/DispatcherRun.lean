import Mathlib.Data.List.GetD
import Midi2.Ci.Dispatcher

/-!
# Runs of the dispatcher

What a sequence of bytes does to a dispatcher, without looking at what the bytes mean.
While a stage is being collected nothing happens but storing (`run_collecting`); the last byte
of the stage calls the consumer (`run_stage`); a stage that does not fit the buffer ends in
`overflow` (`run_overflow`); and a dispatcher that discards stays that way (`Discarding.run`).

The handlers are some thirty functions, but they do only three things: ask for another
stage, deliver a message, or give up. `handle_outcome` says so once, and everything that is
preserved by these three is preserved by every handler.
-/

namespace Midi2.Ci.Dispatcher

open Layout (blit)

variable {cfg : Config} {d : Dispatcher}

@[simp] theorem run_nil (cfg : Config) (d : Dispatcher) : d.run cfg [] = d := rfl

@[simp] theorem run_cons (cfg : Config) (d : Dispatcher) (b : Byte) (bs : List Byte) :
    d.run cfg (b :: bs) = (d.dispatch cfg b).run cfg bs := rfl

theorem run_append (cfg : Config) (d : Dispatcher) (bs cs : List Byte) :
    d.run cfg (bs ++ cs) = (d.run cfg bs).run cfg cs :=
  List.foldl_append

/-! ## One byte -/

theorem dispatch_store (b : Byte) (hcount : 1 < d.count) (hpos : d.pos < cfg.bufferSize) :
    d.dispatch cfg b = d.store b := by
  have hc : 0 < d.count := by omega
  have hs : (d.store b).count ≠ 0 := by simp only [store]; omega
  rw [dispatch, if_neg (by omega), if_pos hc]
  exact if_neg hs

theorem dispatch_last (b : Byte) (hcount : d.count = 1) (hpos : d.pos < cfg.bufferSize) :
    d.dispatch cfg b = (d.store b).consume cfg := by
  have hc : 0 < d.count := by omega
  have hs : (d.store b).count = 0 := by simp only [store]; omega
  rw [dispatch, if_neg (by omega), if_pos hc]
  exact if_pos hs

theorem dispatch_overflow (b : Byte) (hcount : 0 < d.count) (hpos : cfg.bufferSize ≤ d.pos) :
    d.dispatch cfg b = d.overflow := by
  rw [dispatch, if_pos ⟨hcount, hpos⟩]

theorem dispatch_idle (b : Byte) (hcount : d.count = 0) :
    d.dispatch cfg b = d.consume cfg := by
  have hc : ¬0 < d.count := by omega
  rw [dispatch, if_neg (fun h => hc h.1), if_neg hc]
  exact if_pos hcount

/-- The four things one byte can do. -/
theorem dispatch_cases (cfg : Config) (d : Dispatcher) (b : Byte) :
    (0 < d.count ∧ cfg.bufferSize ≤ d.pos ∧ d.dispatch cfg b = d.overflow) ∨
    (1 < d.count ∧ d.pos < cfg.bufferSize ∧ d.dispatch cfg b = d.store b) ∨
    (d.count = 1 ∧ d.pos < cfg.bufferSize ∧ d.dispatch cfg b = (d.store b).consume cfg) ∨
    (d.count = 0 ∧ d.dispatch cfg b = d.consume cfg) := by
  rcases Nat.eq_zero_or_pos d.count with h0 | hpos
  · exact Or.inr (Or.inr (Or.inr ⟨h0, dispatch_idle b h0⟩))
  rcases Nat.lt_or_ge d.pos cfg.bufferSize with hlt | hge
  · rcases Nat.lt_or_ge 1 d.count with h1 | h1
    · exact Or.inr (Or.inl ⟨h1, hlt, dispatch_store b h1 hlt⟩)
    · have h : d.count = 1 := by omega
      exact Or.inr (Or.inr (Or.inl ⟨h, hlt, dispatch_last b h hlt⟩))
  · exact Or.inl ⟨hpos, hge, dispatch_overflow b hpos hge⟩

/-! ## One stage -/

/-- The dispatcher after it has stored `bs`, before any consumer is called. -/
def receive (d : Dispatcher) (bs : List Byte) : Dispatcher :=
  { d with
    count := d.count - bs.length
    pos := d.pos + bs.length
    buffer := blit d.buffer d.pos bs }

@[simp] theorem receive_nil (d : Dispatcher) : d.receive [] = d := rfl

theorem store_receive (b : Byte) (bs : List Byte) (hpos : d.pos + (b :: bs).length < 2 ^ 32) :
    (d.store b).receive bs = d.receive (b :: bs) := by
  simp only [List.length_cons] at hpos
  have hmod : (d.pos + 1) % 2 ^ 32 = d.pos + 1 := Nat.mod_eq_of_lt (by omega)
  simp only [receive, store, hmod, List.length_cons, Layout.blit_cons]
  congr 1 <;> omega

/-- Bytes that do not complete a stage are only stored. -/
theorem run_collecting : ∀ {bs : List Byte} {d : Dispatcher}, bs.length < d.count →
    d.pos + bs.length ≤ cfg.bufferSize → d.pos + bs.length < 2 ^ 32 →
    d.run cfg bs = d.receive bs
  | [], d, _, _, _ => by rw [run_nil, receive_nil]
  | b :: bs, d, hcount, hfit, hpos => by
      simp only [List.length_cons] at hcount hfit hpos
      have hmod : (d.pos + 1) % 2 ^ 32 = d.pos + 1 := Nat.mod_eq_of_lt (by omega)
      rw [run_cons, dispatch_store b (by omega) (by omega), ← store_receive b bs hpos]
      refine run_collecting ?_ ?_ ?_ <;> simp only [store, hmod] <;> omega

/-- The byte that completes a stage calls the consumer. -/
theorem run_stage {bs : List Byte} (hcount : bs.length = d.count) (hne : 0 < d.count)
    (hfit : d.pos + d.count ≤ cfg.bufferSize) (hpos : d.pos + d.count < 2 ^ 32) :
    d.run cfg bs = (d.receive bs).consume cfg := by
  obtain ⟨cs, b, rfl⟩ : ∃ cs b, bs = cs ++ [b] := by
    rcases List.eq_nil_or_concat' bs with rfl | ⟨cs, b, rfl⟩
    · rw [List.length_nil] at hcount
      omega
    · exact ⟨cs, b, rfl⟩
  rw [List.length_append, List.length_singleton] at hcount
  have hmod : (d.pos + cs.length + 1) % 2 ^ 32 = d.pos + cs.length + 1 :=
    Nat.mod_eq_of_lt (by omega)
  have hlast : (d.receive cs).store b = d.receive (cs ++ [b]) := by
    simp only [receive, store, hmod, List.length_append, List.length_singleton,
      Layout.blit_append, Layout.blit_cons, Layout.blit_nil, Nat.sub_sub]
    rw [Nat.add_assoc]
  have hrun : d.run cfg cs = d.receive cs := run_collecting (by omega) (by omega) (by omega)
  have hlt : (d.receive cs).pos < cfg.bufferSize := by simp only [receive]; omega
  have hone : (d.receive cs).count = 1 := by simp only [receive]; omega
  rw [run_append, hrun, run_cons, run_nil, dispatch_last b hone hlt, hlast]

/-- What a stage that is too long for the buffer ends in. -/
theorem run_overflow {bs : List Byte} (hfit : cfg.bufferSize < d.pos + bs.length)
    (hpos : d.pos + bs.length < 2 ^ 32) (hcount : bs.length ≤ d.count)
    (hroom : d.pos ≤ cfg.bufferSize) :
    ∃ cs b rest, bs = cs ++ b :: rest ∧
      d.run cfg bs = ((d.receive cs).overflow).run cfg rest := by
  obtain ⟨n, hn⟩ : ∃ n, n = cfg.bufferSize - d.pos := ⟨_, rfl⟩
  have hsplit : bs = bs.take n ++ bs.drop n := (List.take_append_drop n bs).symm
  have hlen : (bs.take n).length = n := by rw [List.length_take]; omega
  obtain ⟨b, rest, hrest⟩ : ∃ b rest, bs.drop n = b :: rest := by
    cases hdrop : bs.drop n with
    | nil =>
        have := congrArg List.length hdrop
        rw [List.length_drop, List.length_nil] at this
        omega
    | cons b rest => exact ⟨b, rest, rfl⟩
  refine ⟨bs.take n, b, rest, by rw [← hrest]; exact hsplit, ?_⟩
  have hrun : d.run cfg (bs.take n) = d.receive (bs.take n) :=
    run_collecting (by omega) (by omega) (by omega)
  have hmore : 0 < (d.receive (bs.take n)).count := by simp only [receive]; omega
  have hfull : cfg.bufferSize ≤ (d.receive (bs.take n)).pos := by simp only [receive]; omega
  conv_lhs => rw [hsplit]
  rw [hrest, run_append, hrun, run_cons, dispatch_overflow b hmore hfull]

/-! ## Handlers -/

/-- Everything a handler can do: ask for another stage, deliver a message, or give up. -/
inductive Outcome (d : Dispatcher) : Dispatcher → Prop
  | more (n : Nat) : Outcome d (d.await n)
  | deliver (m : Message Span) : Outcome d (d.deliver m)
  | giveUp : Outcome d d.giveUp

theorem outcome_fixed {V : Type} [Layout Byte V] (make : V → Message Span) (d : Dispatcher) :
    Outcome d (fixed V make d) :=
  .deliver _

theorem outcome_versioned {V1 V2 : Type} [Layout Byte V1] [Layout Byte V2]
    (make1 : V1 → Message Span) (make2 : V2 → Message Span) (d : Dispatcher) :
    Outcome d (versioned V1 V2 make1 make2 d) := by
  unfold versioned
  split
  · exact outcome_fixed make1 d
  · exact outcome_fixed make2 d

theorem outcome_withTail {V : Type} [Layout Byte V] (length : V → ByteArray 2)
    (make : Nat → V → Message Span) (d : Dispatcher) :
    Outcome d (withTail V length make d) := by
  simp only [withTail]
  split
  · exact .more _
  · exact .deliver _

theorem outcome_sinceV2 {f : Dispatcher → Dispatcher} (hf : Outcome d (f d)) :
    Outcome d (sinceV2 f d) := by
  unfold sinceV2
  split
  · exact hf
  · exact .giveUp

theorem handle_outcome (h : Handler) (d : Dispatcher) : Outcome d (handle h d) := by
  cases h
  case discovery | discoveryReply | profileOn | profileOff | profileEnabled | profileDisabled |
      peCapabilities | peCapabilitiesReply =>
    simp only [handle, discovery, discoveryReply, profileOn, profileOff, profileEnabled,
      profileDisabled, peCapabilities, peCapabilitiesReply]
    exact outcome_versioned _ _ d
  case endpoint | invalidateMuid | profileAdded | profileRemoved | profileDetails =>
    simp only [handle, endpoint, invalidateMuid, profileAdded, profileRemoved, profileDetails]
    exact outcome_fixed _ d
  case endpointReply | ack | profileDetailsReply | profileSpecificData =>
    simp only [handle, endpointReply, ack, profileDetailsReply, profileSpecificData]
    exact outcome_withTail _ _ d
  case profileInquiry => exact .deliver _
  case nak =>
    simp only [handle, nak]
    split
    · exact outcome_fixed _ d
    · exact outcome_withTail _ _ d
  case profileInquiryReply =>
    simp only [handle, profileInquiryReply]
    split
    · exact .more _
    · split
      · exact .more _
      · exact .deliver _
  case propertyExchange =>
    simp only [handle, propertyExchange]
    split
    · exact .more _
    · split
      · exact .more _
      · split
        · exact .more _
        · split
          · exact .deliver _
          · exact .deliver _
          · exact .giveUp
  case processInquiryCapabilities | processInquiryMidiMessageReportEnd =>
    simp only [handle, processInquiryCapabilities, processInquiryMidiMessageReportEnd]
    refine outcome_sinceV2 ?_
    exact .deliver _
  case processInquiryCapabilitiesReply | processInquiryMidiMessageReport |
      processInquiryMidiMessageReportReply =>
    simp only [handle, processInquiryCapabilitiesReply, processInquiryMidiMessageReport,
      processInquiryMidiMessageReportReply]
    exact outcome_sinceV2 (outcome_fixed _ d)

/-! ### Handlers with several stages

The two handlers that are entered more than twice, written as functions of the position
and of the lengths they read back from the buffer. -/

open PropertyExchange.Packed (PropertyExchangePt1 PropertyExchangePt2)
open ProfileConfiguration.Packed (InquiryReplyV1Pt1 InquiryReplyV1Pt2)

/-- The length of the header text of a property exchange message. -/
def headerLength (d : Dispatcher) : Nat :=
  (fromLe7 (d.view PropertyExchangePt1 0).headerLength : B14).toNat

/-- The length of the data of a property exchange message. -/
def dataLength (d : Dispatcher) : Nat :=
  (fromLe7 (d.view PropertyExchangePt2 (3 + d.headerLength)).dataLength : B14).toNat

/-- The call that a property exchange message ends in. -/
def deliverExchange (d : Dispatcher) : Dispatcher :=
  let pt1 := d.view PropertyExchangePt1 0
  let pt2 := d.view PropertyExchangePt2 (3 + d.headerLength)
  let chunk : PropertyExchange.ChunkInfo :=
    ⟨fromLe7 pt2.numberOfChunks, fromLe7 pt2.chunkNumber⟩
  let header : Span Byte := ⟨3, d.headerLength⟩
  let data : Span Byte := ⟨9 + d.headerLength, d.dataLength⟩
  match propertyExchangeType d.type with
  | some .get =>
      d.deliver (.propertyExchange .get ⟨chunk, B7.ofByte pt1.requestId, header, ⟨0, 0⟩⟩)
  | some pet => d.deliver (.propertyExchange pet ⟨chunk, B7.ofByte pt1.requestId, header, data⟩)
  | none => d.giveUp

theorem handle_propertyExchange (d : Dispatcher) :
    handle .propertyExchange d =
      if d.pos = 3 ∧ 0 < d.headerLength then d.await d.headerLength
      else if d.pos = 3 + d.headerLength then d.await 6
      else if d.pos = 9 + d.headerLength ∧ 0 < d.dataLength then d.await d.dataLength
      else d.deliverExchange := by
  have hsize : 3 + d.headerLength + 6 = 9 + d.headerLength := by omega
  simp only [handle, propertyExchange, deliverExchange, ← hsize]
  rfl

/-- The number of enabled profiles in a reply to an inquiry. -/
def numEnabled (d : Dispatcher) : Nat :=
  (fromLe7 (d.view InquiryReplyV1Pt1 0).numEnabled : B14).toNat

/-- The number of disabled profiles, wherever the enabled ones end. -/
def numDisabled (d : Dispatcher) : Nat :=
  (fromLe7 (d.view InquiryReplyV1Pt2 (2 + d.numEnabled * 5)).numDisabled : B14).toNat

/-- The call that a reply to an inquiry ends in. -/
def deliverReply (d : Dispatcher) : Dispatcher :=
  d.deliver (.profileInquiryReply
    ⟨⟨2, d.numEnabled⟩, ⟨2 + d.numEnabled * 5 + 2, d.numDisabled⟩⟩)

theorem handle_profileInquiryReply (d : Dispatcher) :
    handle .profileInquiryReply d =
      if 0 < d.numEnabled ∧ d.pos = 2 then d.await (d.numEnabled * 5 + 2)
      else if 0 < d.numDisabled ∧ d.pos = 2 + d.numEnabled * 5 + 2 then
        d.await (d.numDisabled * 5)
      else d.deliverReply := by
  simp only [handle, profileInquiryReply]
  rfl

/-- The lengths are read from cells that later stages do not touch. -/
theorem headerLength_receive {n : Nat} {bs : List Byte} (hpos : 3 ≤ d.pos) :
    ((d.await n).receive bs).headerLength = d.headerLength := by
  have hpt1 : ((d.await n).receive bs).view PropertyExchangePt1 0 =
      d.view PropertyExchangePt1 0 :=
    Layout.cast_blit (by simpa [await] using hpos)
  rw [headerLength, hpt1, headerLength]

theorem dataLength_receive {n : Nat} {bs : List Byte} (hpos : 9 + d.headerLength ≤ d.pos) :
    ((d.await n).receive bs).dataLength = d.dataLength := by
  have hpt2 : ((d.await n).receive bs).view PropertyExchangePt2 (3 + d.headerLength) =
      d.view PropertyExchangePt2 (3 + d.headerLength) :=
    Layout.cast_blit (by simp only [await, PropertyExchange.Packed.size_propertyExchangePt2]; omega)
  rw [dataLength, headerLength_receive (by omega), hpt2, dataLength]

theorem numEnabled_receive {n : Nat} {bs : List Byte} (hpos : 2 ≤ d.pos) :
    ((d.await n).receive bs).numEnabled = d.numEnabled := by
  have hpt1 : ((d.await n).receive bs).view InquiryReplyV1Pt1 0 = d.view InquiryReplyV1Pt1 0 :=
    Layout.cast_blit (by simpa [await] using hpos)
  rw [numEnabled, hpt1, numEnabled]

theorem numDisabled_receive {n : Nat} {bs : List Byte}
    (hpos : 2 + d.numEnabled * 5 + 2 ≤ d.pos) :
    ((d.await n).receive bs).numDisabled = d.numDisabled := by
  have hpt2 : ((d.await n).receive bs).view InquiryReplyV1Pt2 (2 + d.numEnabled * 5) =
      d.view InquiryReplyV1Pt2 (2 + d.numEnabled * 5) :=
    Layout.cast_blit (by
      simp only [await, ProfileConfiguration.Packed.size_inquiryReplyV1Pt2]; omega)
  rw [numDisabled, numEnabled_receive (by omega), hpt2, numDisabled]

theorem headerLength_lt (d : Dispatcher) : d.headerLength < 2 ^ 14 :=
  (fromLe7 (d.view PropertyExchangePt1 0).headerLength : B14).isLt

theorem dataLength_lt (d : Dispatcher) : d.dataLength < 2 ^ 14 :=
  (fromLe7 (d.view PropertyExchangePt2 (3 + d.headerLength)).dataLength : B14).isLt

theorem numEnabled_lt (d : Dispatcher) : d.numEnabled < 2 ^ 14 :=
  (fromLe7 (d.view InquiryReplyV1Pt1 0).numEnabled : B14).isLt

theorem numDisabled_lt (d : Dispatcher) : d.numDisabled < 2 ^ 14 :=
  (fromLe7 (d.view InquiryReplyV1Pt2 (2 + d.numEnabled * 5)).numDisabled : B14).isLt

/-! ## Invariants -/

/-- What is preserved by storing a byte, by overflow, by the two consumers that are not
handlers and by the three things a handler can do, is preserved by a run. -/
theorem run_preserves {P : Dispatcher → Prop}
    (hstore : ∀ d b, P d → 0 < d.count → d.pos < cfg.bufferSize → P (d.store b))
    (hoverflow : ∀ d, P d → 0 < d.count → cfg.bufferSize ≤ d.pos → P d.overflow)
    (hheader : ∀ d, P d → d.count = 0 → d.consumer = .header → P (d.headerConsumer cfg))
    (hdiscard : ∀ d, P d → d.consumer = .discard → P (d.discard cfg))
    (hhandler : ∀ d e h, P d → d.count = 0 → d.consumer = .handler h → Outcome d e → P e) :
    ∀ {bs : List Byte} {d : Dispatcher}, P d → P (d.run cfg bs) := by
  have hconsume : ∀ d, P d → d.count = 0 → P (d.consume cfg) := by
    intro d hP h0
    unfold consume
    cases hc : d.consumer with
    | header => exact hheader d hP h0 hc
    | discard => exact hdiscard d hP hc
    | handler h => exact hhandler d _ h hP h0 hc (handle_outcome h d)
  intro bs
  induction bs with
  | nil => exact fun hP => hP
  | cons b bs ih =>
      intro d hP
      refine ih ?_
      rcases dispatch_cases cfg d b with ⟨hn, hp, heq⟩ | ⟨hn, hp, heq⟩ | ⟨hn, hp, heq⟩ | ⟨hn, heq⟩
      · rw [heq]
        exact hoverflow d hP hn hp
      · rw [heq]
        exact hstore d b hP (by omega) hp
      · rw [heq]
        exact hconsume _ (hstore d b hP (by omega) hp) (by simp only [store]; omega)
      · rw [heq]
        exact hconsume d hP hn

/-! ## Discarding -/

/-- The state in which the rest of the input is ignored: the next consumer call only
restarts the count, and the count never runs past the buffer. -/
structure Discarding (cfg : Config) (d : Dispatcher) : Prop where
  consumer : d.consumer = .discard
  bounded : d.count = 0 ∨ d.pos + d.count ≤ cfg.bufferSize

/-- Whatever follows, a dispatcher that discards makes no call any more. -/
theorem Discarding.run {bs : List Byte} (h : Discarding cfg d) :
    Discarding cfg (d.run cfg bs) ∧ (d.run cfg bs).calls = d.calls := by
  refine run_preserves (P := fun e => Discarding cfg e ∧ e.calls = d.calls)
    ?_ ?_ ?_ ?_ ?_ ⟨h, rfl⟩
  · rintro e b ⟨he, hcalls⟩ hn _
    refine ⟨⟨he.consumer, Or.inr ?_⟩, hcalls⟩
    have hbound := he.bounded
    have hmod := Nat.mod_le (e.pos + 1) (2 ^ 32)
    simp only [store]
    omega
  · rintro e ⟨he, _⟩ hn hp
    have := he.bounded
    omega
  · rintro e ⟨he, _⟩ _ hc
    rw [he.consumer] at hc
    exact absurd hc (by decide)
  · rintro e ⟨he, hcalls⟩ _
    exact ⟨⟨he.consumer, Or.inr (by simp [discard])⟩, hcalls⟩
  · rintro e _ k ⟨he, _⟩ _ hc _
    rw [he.consumer] at hc
    cases hc

theorem discarding_overflow (d : Dispatcher) : Discarding cfg d.overflow :=
  ⟨rfl, Or.inl rfl⟩

theorem discarding_deliver (m : Message Span) (h : d.count = 0) :
    Discarding cfg (d.deliver m) :=
  ⟨rfl, Or.inl h⟩

theorem discarding_giveUp (h : d.count = 0) : Discarding cfg d.giveUp :=
  ⟨rfl, Or.inl h⟩

/-! ## The header -/

/-- The members of a packed header, by address. -/
theorem cast_header (mem : Nat → Byte) : Layout.cast Packed.Header mem 0 =
    { sysex := mem 0, source := mem 1, subId1 := mem 2, subId2 := mem 3, version := mem 4,
      sourceMuid := fun i => mem (5 + i), destinationMuid := fun i => mem (9 + i) } := by
  simp only [Layout.cast, Layout.view, size_byte, Layout.size_array]
  simp only [Packed.Header.mk.injEq, Nat.mul_one, Nat.zero_add, Nat.add_zero]
  refine ⟨trivial, trivial, trivial, trivial, trivial, ?_, ?_⟩ <;> funext i <;>
    exact congrArg mem (by omega)

/-- Whether a message with this destination is for us, and the calls that it takes to find
out. -/
theorem accept_cases (cfg : Config) (d : Dispatcher) :
    (d.header.localMuid = broadcastMuid ∧ d.accept cfg = (true, d)) ∨
    (d.header.localMuid ≠ broadcastMuid ∧ ∃ answer,
      answer = cfg.checkMuid d.calls d.group d.header.localMuid ∧
      d.accept cfg = (answer,
        { d with calls := d.calls ++ [.checkMuid d.group d.header.localMuid answer] })) := by
  unfold accept
  split
  case isTrue h => exact Or.inl ⟨h, rfl⟩
  case isFalse h => exact Or.inr ⟨h, _, rfl, rfl⟩

/-- The four ways in which `header()` can go on. -/
theorem headerConsumer_cases (cfg : Config) (d : Dispatcher) :
    (lookup d.readHeader.type = none ∧
      d.headerConsumer cfg = { d.readHeader.unknown with pos := 0 }) ∨
    ∃ info answer e, lookup d.readHeader.type = some info ∧
      d.readHeader.accept cfg = (answer, e) ∧
      d.headerConsumer cfg =
        { (if answer then e.install info else e.reject) with pos := 0 } := by
  simp only [headerConsumer]
  cases hlookup : lookup d.readHeader.type with
  | none => exact Or.inl ⟨rfl, rfl⟩
  | some info =>
      rcases haccept : d.readHeader.accept cfg with ⟨answer, e⟩
      refine Or.inr ⟨info, answer, e, rfl, rfl, ?_⟩
      cases answer <;> rfl

/-- Whether a message to `muid` is for us, when nothing has been called before. -/
def accepts (cfg : Config) (group : Byte) (muid : Muid) : Bool :=
  muid = broadcastMuid || cfg.checkMuid [] group muid

/-- The header that a dispatcher configured with `deviceId` reads from thirteen bytes. -/
def receivedHeader (deviceId : B7) (bs : List Byte) : Header where
  deviceId := deviceId
  version := B7.ofByte (bs.getD 4 0)
  remoteMuid := fromLe7 fun i : Fin 4 => bs.getD (5 + i) 0
  localMuid := fromLe7 fun i : Fin 4 => bs.getD (9 + i) 0

/-- Only the first thirteen bytes matter for the header. -/
theorem receivedHeader_append (deviceId : B7) {hd : List Byte} (rest : List Byte)
    (hlen : hd.length = 13) :
    receivedHeader deviceId (hd ++ rest) = receivedHeader deviceId hd := by
  have hcell : ∀ i < 13, (hd ++ rest).getD i 0 = hd.getD i 0 :=
    fun i hi => List.getD_append hd rest 0 i (by omega)
  have hmuid : ∀ off, off ≤ 9 → (fun i : Fin 4 => (hd ++ rest).getD (off + i) 0) =
      fun i : Fin 4 => hd.getD (off + i) 0 :=
    fun off hoff => funext fun i => hcell _ (by omega)
  simp only [receivedHeader, hcell 4 (by decide), hmuid 5 (by decide), hmuid 9 (by decide)]

/-- Thirteen bytes or more start with a whole header. -/
theorem exists_header {bs : List Byte} (h : 13 ≤ bs.length) :
    ∃ hd rest, bs = hd ++ rest ∧ hd.length = 13 :=
  ⟨bs.take 13, bs.drop 13, (List.take_append_drop 13 bs).symm, by rw [List.length_take]; omega⟩

/-- A fresh dispatcher that has collected `bs`. -/
def collected (cfg : Config) (deviceId : B7) (group : Byte) (bs : List Byte) : Dispatcher :=
  (fresh cfg deviceId group).receive bs

theorem buffer_collected {deviceId : B7} {group : Byte} {bs : List Byte} {i : Nat}
    (hi : i < bs.length) : (collected cfg deviceId group bs).buffer i = bs.getD i 0 := by
  have hholds : Layout.Holds (blit (fresh cfg deviceId group).buffer 0 bs) 0 bs :=
    Layout.holds_blit
  have hcell := hholds.getD 0 hi
  rwa [Nat.zero_add] at hcell

theorem readHeader_collected {deviceId : B7} {group : Byte} {hd : List Byte}
    (hlen : hd.length = 13) :
    (collected cfg deviceId group hd).readHeader =
      { collected cfg deviceId group hd with
        type := hd.getD 3 0
        header := receivedHeader deviceId hd } := by
  have hcell : ∀ i < 13, (collected cfg deviceId group hd).buffer i = hd.getD i 0 :=
    fun i hi => buffer_collected (by omega)
  have hmuid : ∀ off, off ≤ 9 → (fun i : Fin 4 =>
      (collected cfg deviceId group hd).buffer (off + i)) = fun i : Fin 4 => hd.getD (off + i) 0 :=
    fun off hoff => funext fun i => hcell _ (by omega)
  rw [readHeader, view, cast_header]
  simp only [hcell 3 (by decide), hcell 4 (by decide), hmuid 5 (by decide), hmuid 9 (by decide)]
  rfl

/-- Fewer than thirteen bytes are only collected. -/
theorem run_fresh_short {deviceId : B7} {group : Byte} {bs : List Byte}
    (hlen : bs.length < 13) :
    (fresh cfg deviceId group).run cfg bs = collected cfg deviceId group bs := by
  have hfits := cfg.header_fits
  have hpos : (fresh cfg deviceId group).pos = 0 := rfl
  exact run_collecting hlen (by omega) (by omega)

/-- The thirteenth byte calls `header()`. -/
theorem run_fresh {deviceId : B7} {group : Byte} {hd : List Byte} (hlen : hd.length = 13) :
    (fresh cfg deviceId group).run cfg hd =
      (collected cfg deviceId group hd).headerConsumer cfg := by
  have hfits := cfg.header_fits
  have hpos : (fresh cfg deviceId group).pos = 0 := rfl
  have hcount : (fresh cfg deviceId group).count = 13 := rfl
  exact run_stage (hlen.trans hcount.symm) (by omega) (by omega) (by omega)

/-- The calls that an accepted message takes: none for a broadcast. -/
def asked (group : Byte) (muid : Muid) : List Call :=
  if muid = broadcastMuid then [] else [.checkMuid group muid true]

/-- A dispatcher whose header, read from `hd`, has been accepted. -/
def accepted (cfg : Config) (deviceId : B7) (group : Byte) (hd : List Byte) : Dispatcher :=
  { collected cfg deviceId group hd with
    type := hd.getD 3 0
    header := receivedHeader deviceId hd
    calls := asked group (receivedHeader deviceId hd).localMuid }

variable {deviceId : B7} {group : Byte} {hd : List Byte} {info : MessageDispatchInfo}

/-- The answer to whether a message is for us, after thirteen bytes. -/
theorem accept_collected (cfg : Config) (deviceId : B7) (group : Byte) (hd : List Byte) :
    let muid := (receivedHeader deviceId hd).localMuid
    let d := { collected cfg deviceId group hd with
      type := hd.getD 3 0, header := receivedHeader deviceId hd }
    d.accept cfg =
      if accepts cfg group muid then (true, accepted cfg deviceId group hd)
      else (false, { d with calls := [.checkMuid group muid false] }) := by
  intro muid d
  have hcalls : d.calls = [] := rfl
  have hgroup : d.group = group := rfl
  have hmuid : d.header.localMuid = muid := rfl
  simp only [accept, accepts, accepted, asked, hmuid, hgroup, hcalls, List.nil_append,
    Bool.or_eq_true, decide_eq_true_eq]
  by_cases hb : muid = broadcastMuid
  · rw [if_pos hb, if_pos (Or.inl hb), if_pos hb]
    rfl
  · rw [if_neg hb, if_neg hb]
    cases ha : cfg.checkMuid [] group muid with
    | true =>
        rw [if_pos (Or.inr rfl)]
        rfl
    | false => rw [if_neg (by simp [hb])]

theorem run_fresh_accepted (hlen : hd.length = 13) (hlookup : lookup (hd.getD 3 0) = some info)
    (haccept : accepts cfg group (receivedHeader deviceId hd).localMuid = true) :
    (fresh cfg deviceId group).run cfg hd =
      { (accepted cfg deviceId group hd).install info with pos := 0 } := by
  have hread := accept_collected cfg deviceId group hd
  simp only [if_pos haccept] at hread
  rw [run_fresh hlen, headerConsumer, readHeader_collected hlen]
  simp only [hlookup, hread]

/-- A message that is not for us is discarded. -/
theorem run_fresh_rejected (hlen : hd.length = 13) (hlookup : lookup (hd.getD 3 0) = some info)
    (haccept : accepts cfg group (receivedHeader deviceId hd).localMuid = false) :
    Discarding cfg ((fresh cfg deviceId group).run cfg hd) ∧
      ((fresh cfg deviceId group).run cfg hd).calls =
        [.checkMuid group (receivedHeader deviceId hd).localMuid false] := by
  have hread := accept_collected cfg deviceId group hd
  simp only [haccept, Bool.false_eq_true, if_false] at hread
  rw [run_fresh hlen, headerConsumer, readHeader_collected hlen]
  simp only [hlookup, hread]
  exact ⟨⟨rfl, Or.inl rfl⟩, rfl⟩

/-- A message whose type is not in the table is discarded, after it has been reported. -/
theorem run_fresh_unknown (hlen : hd.length = 13) (hlookup : lookup (hd.getD 3 0) = none) :
    Discarding cfg ((fresh cfg deviceId group).run cfg hd) ∧
      ((fresh cfg deviceId group).run cfg hd).calls =
        [.unknownMidici (receivedHeader deviceId hd)] := by
  rw [run_fresh hlen, headerConsumer, readHeader_collected hlen]
  simp only [hlookup]
  exact ⟨⟨rfl, Or.inl rfl⟩, rfl⟩

end Midi2.Ci.Dispatcher
