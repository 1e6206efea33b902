import Midi2.Ci.DispatcherRun

/-!
# Memory discipline

The dispatcher stores bytes at `pos_` and hands out spans whose sizes it has read from the
message. Stores stay inside the buffer because each is guarded by a comparison with its
size (`buffer_run`). For the spans the argument follows the stages of a message: `Safe`
says of a state that no call it will ever make hands out a span reaching beyond the bytes
received, and `safe_collect` reduces it to the state at the end of the current stage.

Every handler is safe but one. `profile_inquiry_reply` waits for the number of disabled
profiles only when the list of enabled profiles is not empty. When it is empty the handler
falls through and takes that number from the two bytes behind, which are still those of
the header, sub-id 1 and sub-id 2. `memoryDiscipline_iff` states that this is the only way in
which a span gets out of bounds.
-/

namespace Midi2.Ci

open ProfileConfiguration (InquiryReply)

/-- Every index that a span of this call covers is one of a byte received for the message
body. -/
def Call.InBounds : Call → Prop
  | .message _ m pos _ => ∀ e ∈ m.extents, ∀ i, e.1 ≤ i → i < e.2 → i < pos
  | _ => True

theorem inBounds_of_stop_le {hdr : Header} {m : Message Span} {pos : Nat} {mem : Nat → Byte}
    (h : ∀ e ∈ m.extents, e.2 ≤ pos) : (Call.message hdr m pos mem).InBounds :=
  fun e he _ _ hi => Nat.lt_of_lt_of_le hi (h e he)

instance : DecidablePred Call.InBounds := fun c =>
  match c with
  | .message _ m pos _ =>
      decidable_of_iff (∀ e ∈ m.extents, e.1 < e.2 → e.2 ≤ pos)
        ⟨fun h e he i hlo hi => by have := h e he (by omega); omega,
          fun h e he hlt => by have := h e he (e.2 - 1) (by omega) (by omega); omega⟩
  | .checkMuid .. | .unknownMidici _ | .bufferOverflow => isTrue trivial

/-- The offset of the first array of run-time length, in messages that have one. -/
def Handler.offset : Handler → Option Nat
  | .endpointReply => some 3
  | .ack => some 10
  | .nak => some 10
  | .profileInquiryReply => some 2
  | .profileDetailsReply => some 8
  | .profileSpecificData => some 7
  | .propertyExchange => some 3
  | _ => none

/-- The table makes the dispatcher wait for exactly the bytes in front of that array. Only
a NAK differs, in its first version. -/
theorem messages_offset : ∀ info ∈ messages, ∀ off, info.consumer.offset = some off →
    info.v2size = off ∧ (info.consumer ≠ .nak → info.v1size = off) := by
  intro info hinfo off hoff
  have htable : ∀ info ∈ messages, info.consumer.offset = none ∨
      info.consumer.offset = some info.v2size ∧
        (info.consumer ≠ .nak → info.v1size = info.v2size) := by
    decide
  rcases htable info hinfo with h | ⟨h, hv1⟩
  · rw [h] at hoff
    cases hoff
  · obtain rfl := Option.some.inj (h.symm.trans hoff)
    exact ⟨rfl, hv1⟩

theorem lookup_mem {type : Byte} {info : MessageDispatchInfo} (h : lookup type = some info) :
    info ∈ messages ∧ info.type.toByte = type := by
  rw [lookup] at h
  split at h
  · cases h
  · next first hhead =>
    split at h
    · next heq =>
      obtain rfl := Option.some.inj h
      refine ⟨?_, heq⟩
      have hmem := List.mem_of_mem_head? hhead
      exact (List.dropWhile_sublist _).subset hmem
    · cases h

namespace Dispatcher

open Layout (blit)

variable {cfg : Config} {d e : Dispatcher}

/-! ## Stores -/

theorem Outcome.buffer (h : Outcome d e) : e.buffer = d.buffer := by
  cases h <;> rfl

theorem buffer_install (info : MessageDispatchInfo) (d : Dispatcher) :
    (d.install info).buffer = d.buffer := by
  simp only [install]
  split
  · exact (handle_outcome _ _).buffer
  · rfl

theorem buffer_headerConsumer (cfg : Config) (d : Dispatcher) :
    (d.headerConsumer cfg).buffer = d.buffer := by
  rcases headerConsumer_cases cfg d with ⟨_, heq⟩ | ⟨info, answer, e, _, haccept, heq⟩
  · rw [heq]
    rfl
  · have hask : e.buffer = d.buffer := by
      rcases accept_cases cfg d.readHeader with ⟨_, h⟩ | ⟨_, a, _, h⟩
      all_goals
        rw [h] at haccept
        obtain ⟨-, rfl⟩ := Prod.mk.inj haccept
        rfl
    rw [heq]
    cases answer with
    | false => exact hask
    | true => exact (buffer_install info e).trans hask

/-- No byte is stored outside the buffer. -/
theorem buffer_run {mem : Nat → Byte} {bs : List Byte}
    (h : ∀ i, cfg.bufferSize ≤ i → d.buffer i = mem i) :
    ∀ i, cfg.bufferSize ≤ i → (d.run cfg bs).buffer i = mem i := by
  refine run_preserves (P := fun e => ∀ i, cfg.bufferSize ≤ i → e.buffer i = mem i)
    ?_ ?_ ?_ ?_ ?_ h
  · intro e b he _ hpos i hi
    simp only [store]
    rw [Function.update_of_ne (by omega), he i hi]
  · exact fun e he _ _ => he
  · intro e he _ _
    rw [buffer_headerConsumer]
    exact he
  · exact fun e he _ => he
  · intro e f _ he _ _ ho
    rw [ho.buffer]
    exact he

/-! ## Spans -/

/-- Whatever bytes follow, all spans that are handed out stay in bounds. -/
def Safe (cfg : Config) (d : Dispatcher) : Prop :=
  ∀ bs : List Byte, ∀ c ∈ (d.run cfg bs).calls, c.InBounds

theorem safe_discarding (h : Discarding cfg d) (hcalls : ∀ c ∈ d.calls, c.InBounds) :
    Safe cfg d := by
  intro bs
  rw [h.run.2]
  exact hcalls

theorem safe_overflow (hcalls : ∀ c ∈ d.calls, c.InBounds) : Safe cfg d.overflow :=
  safe_discarding (discarding_overflow d) fun c hc => by
    rcases List.mem_append.1 hc with hc | hc
    · exact hcalls c hc
    · obtain rfl := List.mem_singleton.1 hc
      trivial

theorem safe_deliver (m : Message Span) (hcount : d.count = 0)
    (hcalls : ∀ c ∈ d.calls, c.InBounds) (hm : ∀ e ∈ m.extents, e.2 ≤ d.pos) :
    Safe cfg (d.deliver m) :=
  safe_discarding (discarding_deliver m hcount) fun c hc => by
    rcases List.mem_append.1 hc with hc | hc
    · exact hcalls c hc
    · obtain rfl := List.mem_singleton.1 hc
      exact inBounds_of_stop_le hm

/-- A state that collects a stage is safe when the state at the end of the stage is. -/
theorem safe_collect {h : Handler} (hc : d.consumer = .handler h) (hcount : 0 < d.count)
    (hsmall : d.pos + d.count < 2 ^ 32) (hpos : d.pos ≤ cfg.bufferSize)
    (hcalls : ∀ c ∈ d.calls, c.InBounds)
    (hend : ∀ bs, bs.length = d.count → d.pos + d.count ≤ cfg.bufferSize →
      Safe cfg (handle h (d.receive bs))) : Safe cfg d := by
  intro bs
  have hover : ∀ cs : List Byte, cs.length ≤ d.count → cfg.bufferSize < d.pos + cs.length →
      ∀ rest, ∀ c ∈ (d.run cfg (cs ++ rest)).calls, c.InBounds := by
    intro cs hlen hlong rest
    obtain ⟨s, b, more, -, hrun⟩ := run_overflow hlong (by omega) hlen hpos
    rw [run_append, hrun, ← run_append]
    exact safe_overflow (d := d.receive s) hcalls (more ++ rest)
  rcases Nat.lt_or_ge bs.length d.count with hlt | hge
  · rcases Nat.lt_or_ge cfg.bufferSize (d.pos + bs.length) with hlong | hfit
    · have hbs := hover bs (Nat.le_of_lt hlt) hlong []
      rwa [List.append_nil] at hbs
    · rw [run_collecting hlt hfit (by omega)]
      exact hcalls
  · have hlen : (bs.take d.count).length = d.count := by rw [List.length_take]; omega
    rw [← List.take_append_drop d.count bs]
    rcases Nat.lt_or_ge cfg.bufferSize (d.pos + d.count) with hlong | hfit
    · exact hover _ (Nat.le_of_eq hlen) (by omega) _
    · have hstage : d.run cfg (bs.take d.count) = handle h (d.receive (bs.take d.count)) := by
        rw [run_stage hlen hcount hfit hsmall, consume]
        simp only [receive, hc]
      rw [run_append, hstage]
      exact hend _ hlen hfit _

/-- Where a stage begins: a handler is installed, and what has been called so far is in
bounds. -/
structure Stage (cfg : Config) (h : Handler) (pos count : Nat) (d : Dispatcher) : Prop where
  consumer : d.consumer = .handler h
  pos_eq : d.pos = pos
  count_eq : d.count = count
  calls : ∀ c ∈ d.calls, c.InBounds
  room : pos ≤ cfg.bufferSize

/-- `safe_collect` for the beginning of a stage. -/
theorem Stage.safe {h : Handler} {pos count : Nat} (hd : Stage cfg h pos count d)
    (hcount : 0 < count) (hsmall : pos + count < 2 ^ 32)
    (hend : ∀ bs, Stage cfg h (pos + count) 0 (d.receive bs) →
      Safe cfg (handle h (d.receive bs))) : Safe cfg d := by
  have hp := hd.pos_eq
  have hn := hd.count_eq
  refine safe_collect hd.consumer (by omega) (by omega) (by rw [hp]; exact hd.room) hd.calls ?_
  intro bs hlen hfit
  refine hend bs ⟨hd.consumer, ?_, ?_, hd.calls, by omega⟩
  · simp only [receive]
    omega
  · simp only [receive]
    omega

/-- At the end of a stage, asking for `n` more bytes begins the next one. -/
theorem Stage.more {h : Handler} {pos n : Nat} (hd : Stage cfg h pos 0 d) :
    Stage cfg h pos n (d.await n) :=
  ⟨hd.consumer, hd.pos_eq, rfl, hd.calls, hd.room⟩

theorem Stage.deliver {h : Handler} {pos : Nat} (hd : Stage cfg h pos 0 d) (m : Message Span)
    (hm : ∀ e ∈ m.extents, e.2 ≤ pos) : Safe cfg (d.deliver m) :=
  safe_deliver m hd.count_eq hd.calls fun e he => by rw [hd.pos_eq]; exact hm e he

theorem Stage.giveUp {h : Handler} {pos : Nat} (hd : Stage cfg h pos 0 d) :
    Safe cfg d.giveUp :=
  safe_discarding (discarding_giveUp hd.count_eq) hd.calls

/-! ## Handlers -/

/-- A handler that asks for nothing more and hands out no bytes. -/
def Plain (h : Handler) : Prop :=
  ∀ d, (∃ m : Message Span, (∀ e ∈ m.extents, e.2 = 0) ∧ handle h d = d.deliver m) ∨
    handle h d = d.giveUp

theorem Plain.safe {h : Handler} (hh : Plain h) {pos : Nat} (hd : Stage cfg h pos 0 d) :
    Safe cfg (handle h d) := by
  rcases hh d with ⟨m, hm, heq⟩ | heq
  · rw [heq]
    exact hd.deliver m fun e he => by rw [hm e he]; exact Nat.zero_le pos
  · rw [heq]
    exact hd.giveUp

/-- The handlers of messages without an array are plain. -/
theorem plain_of_offset {h : Handler} (hoff : h.offset = none) : Plain h := by
  have hnil : ∀ {m : Message Span}, m.extents = [] → ∀ e ∈ m.extents, e.2 = 0 := by
    intro m hm e he
    rw [hm] at he
    cases he
  intro d
  cases h
  case endpointReply | ack | nak | profileInquiryReply | profileDetailsReply |
      profileSpecificData | propertyExchange =>
    cases hoff
  case endpoint | invalidateMuid | profileInquiry | profileAdded | profileRemoved |
      profileDetails =>
    exact Or.inl ⟨_, hnil rfl, rfl⟩
  case discovery | discoveryReply | profileOn | profileOff | profileEnabled | profileDisabled |
      peCapabilities | peCapabilitiesReply =>
    simp only [handle, discovery, discoveryReply, profileOn, profileOff, profileEnabled,
      profileDisabled, peCapabilities, peCapabilitiesReply, versioned]
    split
    · exact Or.inl ⟨_, hnil rfl, rfl⟩
    · exact Or.inl ⟨_, hnil rfl, rfl⟩
  case processInquiryCapabilities | processInquiryCapabilitiesReply |
      processInquiryMidiMessageReport | processInquiryMidiMessageReportReply |
      processInquiryMidiMessageReportEnd =>
    simp only [handle, processInquiryCapabilities, processInquiryCapabilitiesReply,
      processInquiryMidiMessageReport, processInquiryMidiMessageReportReply,
      processInquiryMidiMessageReportEnd, sinceV2]
    split
    · exact Or.inl ⟨_, hnil rfl, rfl⟩
    · exact Or.inr rfl

/-- A message with one array at its end is safe: the array is as long as the length in
front of it says, and nothing changes that length while the array arrives. -/
theorem safe_withTail {h : Handler} (V : Type) [Layout Byte V] (length : V → ByteArray 2)
    (make : Nat → V → Message Span)
    (hmake : ∀ v, ∀ e ∈ (make 0 v).extents,
      e.2 = Layout.size V + (fromLe7 (length v) : B14).toNat)
    (hV : 0 < Layout.size V ∧ Layout.size V ≤ 13)
    (hd : Stage cfg h 0 (Layout.size V) d)
    (hh : ∀ e : Dispatcher, e.header = d.header → handle h e = withTail V length make e) :
    Safe cfg d := by
  refine hd.safe hV.1 (by omega) fun bs hend => ?_
  rw [Nat.zero_add] at hend
  rw [hh (d.receive bs) rfl]
  simp only [withTail]
  generalize hv : (d.receive bs).view V 0 = v
  have hlt := (fromLe7 (length v) : B14).isLt
  by_cases hn : 0 < (fromLe7 (length v) : B14).toNat
  · rw [if_pos ⟨hend.pos_eq, hn⟩]
    refine hend.more.safe hn (by omega) fun cs hend' => ?_
    rw [hh (((d.receive bs).await _).receive cs) rfl]
    simp only [withTail]
    have hv' : (((d.receive bs).await (fromLe7 (length v) : B14).toNat).receive cs).view V 0
        = v := by
      rw [← hv]
      exact Layout.cast_blit (by simp only [await, hend.pos_eq]; omega)
    rw [hv', if_neg (by rw [hend'.pos_eq]; omega)]
    exact hend'.deliver _ fun e he => Nat.le_of_eq (hmake v e he)
  · rw [if_neg (fun h => hn h.2)]
    exact hend.deliver _ fun e he => by rw [hmake v e he]; omega

/-- Once both texts have arrived, the message is delivered with spans that end where the
texts do. -/
theorem safe_deliverExchange {n : Nat} (hd : Stage cfg .propertyExchange n 0 d)
    (hn : n = 9 + d.headerLength + d.dataLength) : Safe cfg d.deliverExchange := by
  simp only [deliverExchange]
  split
  · refine hd.deliver _ fun e he => ?_
    simp only [Message.extents, List.mem_cons, List.not_mem_nil, or_false] at he
    rcases he with rfl | rfl
    · simp only [Span.stop, size_byte]
      omega
    · exact Nat.zero_le n
  · refine hd.deliver _ fun e he => ?_
    simp only [Message.extents, List.mem_cons, List.not_mem_nil, or_false] at he
    rcases he with rfl | rfl
    all_goals
      simp only [Span.stop, size_byte]
      omega
  · exact hd.giveUp

/-- The second part and the data of a property exchange message, from the end of the header
text on. -/
theorem safe_propertyExchange_pt2 (hd : Stage cfg .propertyExchange (3 + d.headerLength) 0 d) :
    Safe cfg (d.await 6) := by
  have hhl := d.headerLength_lt
  refine hd.more.safe (by decide) (by omega) fun bs hend => ?_
  have hlen : ((d.await 6).receive bs).headerLength = d.headerLength :=
    headerLength_receive (by rw [hd.pos_eq]; omega)
  generalize (d.await 6).receive bs = e at hend hlen ⊢
  have hdl := e.dataLength_lt
  have hpos := hend.pos_eq
  rw [handle_propertyExchange, if_neg (by omega), if_neg (by omega)]
  split
  case isTrue h =>
    refine hend.more.safe h.2 (by omega) fun cs hend' => ?_
    have hlen' : ((e.await e.dataLength).receive cs).headerLength = e.headerLength :=
      headerLength_receive (by omega)
    have hdata' : ((e.await e.dataLength).receive cs).dataLength = e.dataLength :=
      dataLength_receive (by omega)
    have hpos' := hend'.pos_eq
    rw [handle_propertyExchange, if_neg (by omega), if_neg (by omega), if_neg (by omega)]
    exact safe_deliverExchange hend' (by omega)
  case isFalse h => exact safe_deliverExchange hend (by omega)

/-- Property exchange has two texts, each with its length in front; the second length only
arrives behind the first text. -/
theorem safe_propertyExchange (hd : Stage cfg .propertyExchange 0 3 d) : Safe cfg d := by
  refine hd.safe (by decide) (by decide) fun bs hend => ?_
  generalize d.receive bs = e at hend ⊢
  have hhl := e.headerLength_lt
  have hpos := hend.pos_eq
  rw [handle_propertyExchange]
  split
  case isTrue h =>
    refine hend.more.safe h.2 (by omega) fun cs hend' => ?_
    have hlen' : ((e.await e.headerLength).receive cs).headerLength = e.headerLength :=
      headerLength_receive (by omega)
    generalize (e.await e.headerLength).receive cs = f at hend' hlen' ⊢
    have hpos' := hend'.pos_eq
    rw [handle_propertyExchange, if_neg (by omega), if_pos (by omega)]
    refine safe_propertyExchange_pt2 ?_
    rw [hlen']
    exact hend'
  case isFalse h =>
    rw [if_pos (by omega)]
    refine safe_propertyExchange_pt2 ?_
    have h0 : e.headerLength = 0 := by omega
    rw [h0]
    exact hend

/-- A reply to an inquiry whose list of enabled profiles is not empty, from the end of its
first two bytes on. -/
theorem safe_profileInquiryReply_ids (hd : Stage cfg .profileInquiryReply 2 0 d)
    (hn : 0 < d.numEnabled) : Safe cfg (handle .profileInquiryReply d) := by
  have hlt := d.numEnabled_lt
  have hextents : ∀ e : Dispatcher, ∀ x ∈ (Message.profileInquiryReply
      ⟨⟨2, e.numEnabled⟩, ⟨2 + e.numEnabled * 5 + 2, e.numDisabled⟩⟩).extents,
      x.2 ≤ 2 + e.numEnabled * 5 + 2 + e.numDisabled * 5 := by
    intro e x hx
    simp only [Message.extents, List.mem_cons, List.not_mem_nil, or_false] at hx
    rcases hx with rfl | rfl
    all_goals
      simp only [Span.stop, ProfileConfiguration.size_profile]
      omega
  rw [handle_profileInquiryReply, if_pos ⟨hn, hd.pos_eq⟩]
  refine hd.more.safe (by omega) (by omega) fun bs hend => ?_
  have hnum : ((d.await (d.numEnabled * 5 + 2)).receive bs).numEnabled = d.numEnabled :=
    numEnabled_receive (by rw [hd.pos_eq])
  generalize (d.await (d.numEnabled * 5 + 2)).receive bs = e at hend hnum ⊢
  have hdis := e.numDisabled_lt
  have hpos := hend.pos_eq
  rw [handle_profileInquiryReply, if_neg (by omega)]
  split
  case isTrue h =>
    refine hend.more.safe (by omega) (by omega) fun cs hend' => ?_
    have hnum' : ((e.await (e.numDisabled * 5)).receive cs).numEnabled = e.numEnabled :=
      numEnabled_receive (by omega)
    have hdis' : ((e.await (e.numDisabled * 5)).receive cs).numDisabled = e.numDisabled :=
      numDisabled_receive (by omega)
    generalize (e.await (e.numDisabled * 5)).receive cs = f at hend' hnum' hdis' ⊢
    have hpos' := hend'.pos_eq
    rw [handle_profileInquiryReply, if_neg (by omega), if_neg (by omega)]
    exact hend'.deliver _ fun x hx => (hextents f x hx).trans (by omega)
  case isFalse h => exact hend.deliver _ fun x hx => (hextents e x hx).trans (by omega)

/-- The handlers other than that of the inquiry reply are safe from their first stage on. -/
theorem safe_stage {h : Handler} {count : Nat} (hd : Stage cfg h 0 count d)
    (hcount : 0 < count ∧ count ≤ 18) (hne : h ≠ .profileInquiryReply)
    (hoff : ∀ off, h.offset = some off → (h = .nak ∧ d.header.version = 1#7) ∨ count = off) :
    Safe cfg d := by
  have hplain : h.offset = none → Safe cfg d := fun hnone =>
    hd.safe hcount.1 (by omega) fun _ hend => (plain_of_offset hnone).safe hend
  have hsize : ∀ {off : Nat}, h.offset = some off → h ≠ .nak → Stage cfg h 0 off d := by
    intro off hsome hnak
    obtain ⟨rfl, -⟩ | rfl := hoff off hsome
    · exact absurd rfl hnak
    · exact hd
  cases h
  case endpointReply =>
    exact safe_withTail Packed.EndpointReplyV1 (·.dataLength)
      (fun ptr v => .endpointReply (.make ptr v))
      (by simp [Message.extents, Span.stop, EndpointReply.make]) (by decide)
      (hsize rfl (by decide)) fun _ _ => rfl
  case ack =>
    exact safe_withTail Packed.AckV1 (·.messageLength) (fun ptr v => .ack (.make ptr v))
      (by simp [Message.extents, Span.stop, Ack.make]) (by decide)
      (hsize rfl (by decide)) fun _ _ => rfl
  case profileDetailsReply =>
    exact safe_withTail ProfileConfiguration.Packed.DetailsReplyV1 (·.dataLength)
      (fun ptr v => .profileDetailsReply (.make ptr v))
      (by simp [Message.extents, Span.stop, ProfileConfiguration.DetailsReply.make]) (by decide)
      (hsize rfl (by decide)) fun _ _ => rfl
  case profileSpecificData =>
    exact safe_withTail ProfileConfiguration.Packed.SpecificDataV1 (·.dataLength)
      (fun ptr v => .profileSpecificData (.make ptr v))
      (by simp [Message.extents, Span.stop, ProfileConfiguration.SpecificData.make]) (by decide)
      (hsize rfl (by decide)) fun _ _ => rfl
  case nak =>
    by_cases hv : d.header.version = 1#7
    · refine hd.safe hcount.1 (by omega) fun bs hend => ?_
      have hv1 : handle .nak (d.receive bs) =
          (d.receive bs).fixed Packed.NakV1 fun v => .nak (.makeV1 v) := if_pos hv
      rw [hv1]
      exact hend.deliver _ (by simp [Message.extents, Span.stop, Nak.makeV1])
    · obtain rfl : count = 10 := (hoff 10 rfl).resolve_left fun h => hv h.2
      exact safe_withTail Packed.NakV2 (·.messageLength) (fun ptr v => .nak (.makeV2 ptr v))
        (by simp [Message.extents, Span.stop, Nak.makeV2]) (by decide) hd
        fun e he => if_neg (by rwa [he])
  case propertyExchange => exact safe_propertyExchange (hsize rfl (by decide))
  case profileInquiryReply => exact absurd rfl hne
  all_goals exact hplain rfl

/-- Installing a handler other than that of the inquiry reply is safe. -/
theorem safe_install {info : MessageDispatchInfo} (hinfo : info ∈ messages)
    (hne : info.consumer ≠ .profileInquiryReply) (hcalls : ∀ c ∈ d.calls, c.InBounds) :
    Safe cfg { d.install info with pos := 0 } := by
  have hbound : ∀ info ∈ messages, info.v1size ≤ 18 ∧ info.v2size ≤ 18 := by decide
  have hsize : info.size d.header.version ≤ 18 := by
    unfold MessageDispatchInfo.size
    split
    · exact (hbound info hinfo).1
    · exact (hbound info hinfo).2
  have hoff : ∀ off, info.consumer.offset = some off →
      (info.consumer = .nak ∧ d.header.version = 1#7) ∨ info.size d.header.version = off := by
    intro off hsome
    obtain ⟨hv2, hv1⟩ := messages_offset info hinfo off hsome
    unfold MessageDispatchInfo.size
    split
    · by_cases hnak : info.consumer = .nak
      · exact Or.inl ⟨hnak, ‹_›⟩
      · exact Or.inr (hv1 hnak)
    · exact Or.inr hv2
  simp only [install]
  split
  case isTrue h0 =>
    -- Nothing follows the header, so the message has no array and its handler is plain.
    have hv1 : ∀ info ∈ messages, info.v1size = 0 → info.consumer.offset = none := by decide
    have hv2 : ∀ info ∈ messages, info.v2size = 0 → info.consumer.offset = none := by decide
    have hnone : info.consumer.offset = none := by
      rw [MessageDispatchInfo.size] at h0
      split at h0
      · exact hv1 info hinfo h0
      · exact hv2 info hinfo h0
    rcases plain_of_offset hnone { d with
        consumer := .handler info.consumer, count := info.size d.header.version } with
      ⟨m, hm, heq⟩ | heq
    · rw [heq]
      refine safe_discarding ⟨rfl, Or.inl h0⟩ fun c hc => ?_
      rcases List.mem_append.1 hc with hc | hc
      · exact hcalls c hc
      · obtain rfl := List.mem_singleton.1 hc
        exact inBounds_of_stop_le fun e he => by rw [hm e he]; exact Nat.zero_le _
    · rw [heq]
      exact safe_discarding ⟨rfl, Or.inl h0⟩ hcalls
  case isFalse h0 =>
    exact safe_stage ⟨rfl, rfl, rfl, hcalls, Nat.zero_le _⟩
      ⟨Nat.pos_of_ne_zero h0, hsize⟩ hne hoff

/-! ## The reply to an inquiry -/

/-- The inputs on which the number of disabled profiles is read from the header: an
accepted inquiry reply whose number of enabled profiles is zero. -/
def EmptyEnabledList (cfg : Config) (deviceId : B7) (group : Byte) (bs : List Byte) : Prop :=
  15 ≤ bs.length ∧ bs.getD 3 0 = MessageType.profileInquiryReply.toByte ∧
    accepts cfg group (receivedHeader deviceId bs).localMuid = true ∧
    (fromLe7 fun i : Fin 2 => bs.getD (13 + i) 0 : B14) = 0

/-- The number of enabled profiles, by address. -/
theorem numEnabled_eq (d : Dispatcher) :
    d.numEnabled = (fromLe7 fun i : Fin 2 => d.buffer i : B14).toNat := by
  have hview : (d.view ProfileConfiguration.Packed.InquiryReplyV1Pt1 0).numEnabled =
      fun i : Fin 2 => d.buffer i := by
    funext i
    exact congrArg d.buffer (by simp)
  rw [numEnabled, hview]

/-- With no enabled profiles, the number of disabled ones is read right behind. -/
theorem numDisabled_eq (h : d.numEnabled = 0) :
    d.numDisabled = (fromLe7 fun i : Fin 2 => d.buffer (2 + i) : B14).toNat := by
  have hview : (d.view ProfileConfiguration.Packed.InquiryReplyV1Pt2 2).numDisabled =
      fun i : Fin 2 => d.buffer (2 + i) := by
    funext i
    exact congrArg d.buffer (by simp)
  rw [numDisabled, h, Nat.zero_mul, hview]

/-- A length whose second byte is that of the inquiry reply's message type is not zero. -/
theorem fromLe7_ne_zero {v : ByteArray 2}
    (h : v 1 = MessageType.profileInquiryReply.toByte) : 0 < (fromLe7 v : B14).toNat := by
  have hbit : (fromLe7 v : B14).getLsbD 7 = true := by
    change (fromLe7Pair v).getLsbD 7 = true
    simp only [fromLe7Pair, BitVec.getLsbD_setWidth, BitVec.getLsbD_or,
      BitVec.getLsbD_shiftLeft, getLsbD_and_mask7b, h]
    simp [MessageType.toByte]
  refine Nat.pos_of_ne_zero fun h0 => ?_
  rw [BitVec.getLsbD, h0, Nat.zero_testBit] at hbit
  cases hbit

/-- An accepted inquiry reply waits for the two bytes of its first length. -/
theorem stage_inquiryReply {deviceId : B7} {group : Byte} {hd : List Byte}
    (hlen : hd.length = 13) (htype : hd.getD 3 0 = MessageType.profileInquiryReply.toByte)
    (haccept : accepts cfg group (receivedHeader deviceId hd).localMuid = true) :
    Stage cfg .profileInquiryReply 0 2 ((fresh cfg deviceId group).run cfg hd) ∧
      ((fresh cfg deviceId group).run cfg hd).buffer =
        (collected cfg deviceId group hd).buffer := by
  have hlookup : lookup (hd.getD 3 0) =
      some ⟨.profileInquiryReply, 2, 2, .profileInquiryReply⟩ := by
    rw [htype]
    rfl
  have hquiet : ∀ c ∈ asked group (receivedHeader deviceId hd).localMuid, c.InBounds := by
    intro c hc
    rw [asked] at hc
    split at hc
    · cases hc
    · obtain rfl := List.mem_singleton.1 hc
      trivial
  have hsize : ∀ v : B7, MessageDispatchInfo.size
      ⟨.profileInquiryReply, 2, 2, .profileInquiryReply⟩ v = 2 := fun v => ite_self _
  rw [run_fresh_accepted hlen hlookup haccept]
  simp only [install, hsize]
  exact ⟨⟨rfl, rfl, rfl, hquiet, Nat.zero_le _⟩, rfl⟩

/-- Delivering a reply with an empty list of enabled profiles hands out a span of disabled
profiles that starts behind the bytes received. -/
theorem not_inBounds_deliverReply (hpos : d.pos = 2) (hn : d.numEnabled = 0)
    (hdis : 0 < d.numDisabled) : ∃ c ∈ d.deliverReply.calls, ¬c.InBounds := by
  refine ⟨_, List.mem_append_right _ (List.mem_singleton_self _), fun hbounds => ?_⟩
  have hlast := hbounds (4, 4 + 5 * d.numDisabled)
    (by simp [Message.extents, Span.stop, hn]) 4 (Nat.le_refl 4) (by omega)
  omega

/-- The first stage of an inquiry reply: the number of enabled profiles is in the first two
bytes, and the handler goes on from there with the rest. -/
theorem firstStage_inquiryReply {rest : List Byte} (hd : Stage cfg .profileInquiryReply 0 2 d)
    (hge : 2 ≤ rest.length) :
    (d.receive (rest.take 2)).numEnabled =
        (fromLe7 fun i : Fin 2 => rest.getD i 0 : B14).toNat ∧
    Stage cfg .profileInquiryReply 2 0 (d.receive (rest.take 2)) ∧
    d.run cfg rest =
      (handle .profileInquiryReply (d.receive (rest.take 2))).run cfg (rest.drop 2) := by
  have hfits := cfg.header_fits
  have hpos := hd.pos_eq
  have hcount := hd.count_eq
  have hs : (rest.take 2).length = 2 := by rw [List.length_take]; omega
  have hcell : ∀ i < 2, (blit d.buffer d.pos (rest.take 2)) i = rest.getD i 0 := by
    intro i hi
    have hholds : Layout.Holds (blit d.buffer d.pos (rest.take 2)) 0 (rest.take 2) := by
      rw [hpos]
      exact Layout.holds_blit
    have hget := hholds.getD 0 (show i < _ by omega)
    rw [Nat.zero_add] at hget
    rw [hget, List.getD_eq_getElem?_getD, List.getElem?_take_of_lt hi,
      ← List.getD_eq_getElem?_getD]
  have hstage : d.run cfg (rest.take 2) =
      handle .profileInquiryReply (d.receive (rest.take 2)) := by
    rw [run_stage (by omega) (by omega) (by omega) (by omega), consume]
    simp only [receive, hd.consumer]
  refine ⟨?_, ⟨hd.consumer, ?_, ?_, hd.calls, by omega⟩, ?_⟩
  · rw [numEnabled_eq]
    congr 2
    funext i
    exact hcell i i.isLt
  · simp only [receive]
    omega
  · simp only [receive]
    omega
  · rw [← hstage, ← run_append, List.take_append_drop]

/-- An accepted inquiry reply keeps its spans in bounds unless its first list is empty. -/
theorem inBounds_inquiryReply_iff {deviceId : B7} {group : Byte} {hd rest : List Byte}
    (hlen : hd.length = 13) (htype : hd.getD 3 0 = MessageType.profileInquiryReply.toByte)
    (haccept : accepts cfg group (receivedHeader deviceId hd).localMuid = true) :
    (∀ c ∈ ((fresh cfg deviceId group).run cfg (hd ++ rest)).calls, c.InBounds) ↔
      ¬(2 ≤ rest.length ∧ (fromLe7 fun i : Fin 2 => rest.getD i 0 : B14) = 0) := by
  obtain ⟨hd1, hbuf⟩ := stage_inquiryReply hlen htype haccept
  have hfits := cfg.header_fits
  rw [run_append]
  generalize (fresh cfg deviceId group).run cfg hd = d at hd1 hbuf
  have hpos := hd1.pos_eq
  have hcount := hd1.count_eq
  rcases Nat.lt_or_ge rest.length 2 with hlt | hge
  · rw [run_collecting (by omega) (by omega) (by omega)]
    exact ⟨fun _ h => by omega, fun _ => hd1.calls⟩
  obtain ⟨hnum, hend, hrun⟩ := firstStage_inquiryReply hd1 hge
  rw [hrun]
  by_cases h0 : (fromLe7 fun i : Fin 2 => rest.getD i 0 : B14) = 0
  · rw [h0] at hnum
    have hzero : (d.receive (rest.take 2)).numEnabled = 0 := hnum
    -- The two bytes behind those received are still those of the header.
    have hdis : 0 < (d.receive (rest.take 2)).numDisabled := by
      have hs : (rest.take 2).length = 2 := by rw [List.length_take]; omega
      rw [numDisabled_eq hzero]
      refine fromLe7_ne_zero ?_
      have h3 : (blit d.buffer d.pos (rest.take 2)) 3 = d.buffer 3 :=
        Layout.blit_of_ge (by omega)
      change (blit d.buffer d.pos (rest.take 2)) 3 = _
      rw [h3, hbuf, buffer_collected (by omega), htype]
    have hdeliver : handle .profileInquiryReply (d.receive (rest.take 2)) =
        (d.receive (rest.take 2)).deliverReply := by
      rw [handle_profileInquiryReply, if_neg (by omega), if_neg (by rw [hend.pos_eq]; omega)]
    obtain ⟨c, hc, hout⟩ := not_inBounds_deliverReply hend.pos_eq hzero hdis
    refine iff_of_false (fun hall => hout (hall c ?_)) fun h => h ⟨hge, h0⟩
    have hdiscard : Discarding cfg (d.receive (rest.take 2)).deliverReply :=
      discarding_deliver _ hend.count_eq
    rw [hdeliver, hdiscard.run.2]
    exact hc
  · refine iff_of_true (safe_profileInquiryReply_ids hend ?_ _) fun h => h0 h.2
    rw [hnum]
    refine Nat.pos_of_ne_zero fun hz => h0 ?_
    exact BitVec.eq_of_toNat_eq hz

/-- All other messages keep their spans in bounds. -/
theorem inBounds_of_ne {deviceId : B7} {group : Byte} {hd rest : List Byte}
    (hlen : hd.length = 13)
    (hne : hd.getD 3 0 ≠ MessageType.profileInquiryReply.toByte ∨
      accepts cfg group (receivedHeader deviceId hd).localMuid = false) :
    ∀ c ∈ ((fresh cfg deviceId group).run cfg (hd ++ rest)).calls, c.InBounds := by
  rw [run_append]
  cases hlookup : lookup (hd.getD 3 0) with
  | none =>
      obtain ⟨hdiscard, hcalls⟩ := @run_fresh_unknown cfg deviceId group hd hlen hlookup
      refine safe_discarding hdiscard ?_ rest
      rw [hcalls]
      exact fun c hc => by obtain rfl := List.mem_singleton.1 hc; trivial
  | some info =>
      cases haccept : accepts cfg group (receivedHeader deviceId hd).localMuid with
      | false =>
          obtain ⟨hdiscard, hcalls⟩ := run_fresh_rejected hlen hlookup haccept
          refine safe_discarding hdiscard ?_ rest
          rw [hcalls]
          exact fun c hc => by obtain rfl := List.mem_singleton.1 hc; trivial
      | true =>
          obtain ⟨hinfo, htype⟩ := lookup_mem hlookup
          have hconsumer : ∀ info ∈ messages, info.consumer = .profileInquiryReply →
              info.type = .profileInquiryReply := by
            decide
          have hreply : info.consumer ≠ .profileInquiryReply := by
            intro h
            rw [hconsumer info hinfo h] at htype
            rcases hne with hne | hne
            · exact hne htype.symm
            · rw [haccept] at hne
              cases hne
          rw [run_fresh_accepted hlen hlookup haccept]
          refine safe_install hinfo hreply ?_ rest
          intro c hc
          simp only [accepted, asked] at hc
          split at hc
          · cases hc
          · obtain rfl := List.mem_singleton.1 hc
            trivial

end Dispatcher

open Dispatcher

/-- The memory discipline of a dispatcher: no byte has been stored outside the buffer, and
every span handed to a callback covers bytes received for the message body only. -/
structure MemoryDiscipline (cfg : Config) (d : Dispatcher) : Prop where
  stores : ∀ i, cfg.bufferSize ≤ i → d.buffer i = cfg.memory i
  spans : ∀ c ∈ d.calls, c.InBounds

/-- Memory discipline fails on exactly one kind of input: a reply to a profile inquiry that
is for us and enables no profile. -/
theorem memoryDiscipline_iff (cfg : Config) (deviceId : B7) (group : Byte) (bs : List B7) :
    MemoryDiscipline cfg ((fresh cfg deviceId group).run cfg (bs.map B7.toByte)) ↔
      ¬EmptyEnabledList cfg deviceId group (bs.map B7.toByte) := by
  generalize bs.map B7.toByte = bs
  have hstores : ∀ i, cfg.bufferSize ≤ i →
      ((fresh cfg deviceId group).run cfg bs).buffer i = cfg.memory i :=
    buffer_run fun i hi => if_neg (Nat.not_lt.2 hi)
  have hiff : MemoryDiscipline cfg ((fresh cfg deviceId group).run cfg bs) ↔
      ∀ c ∈ ((fresh cfg deviceId group).run cfg bs).calls, c.InBounds :=
    ⟨fun h => h.spans, fun h => ⟨hstores, h⟩⟩
  rw [hiff]
  rcases Nat.lt_or_ge bs.length 13 with hlt | hge
  · rw [run_fresh_short hlt]
    refine iff_of_true (fun c hc => by cases hc) fun h => ?_
    have := h.1
    omega
  obtain ⟨hd, rest, rfl, hlen⟩ := exists_header hge
  rw [EmptyEnabledList, receivedHeader_append deviceId rest hlen,
    List.getD_append hd rest 0 3 (by omega), List.length_append, hlen]
  have hbody : (fun i : Fin 2 => (hd ++ rest).getD (13 + i) 0) =
      fun i : Fin 2 => rest.getD i 0 := by
    funext i
    rw [List.getD_append_right _ _ _ _ (by omega), hlen, Nat.add_sub_cancel_left]
  rw [hbody]
  by_cases htype : hd.getD 3 0 = MessageType.profileInquiryReply.toByte
  · cases haccept : accepts cfg group (receivedHeader deviceId hd).localMuid with
    | true =>
        rw [inBounds_inquiryReply_iff hlen htype haccept]
        refine not_congr ⟨fun h => ⟨by omega, htype, rfl, h.2⟩, fun h => ⟨by omega, h.2.2.2⟩⟩
    | false =>
        exact iff_of_true (inBounds_of_ne hlen (Or.inr haccept)) fun h => by
          have := h.2.2.1
          cases this
  · exact iff_of_true (inBounds_of_ne hlen (Or.inl htype)) fun h => htype h.2.1

/-- A configuration whose buffer could hold any MIDI-CI message and that accepts every
destination. -/
def openConfig : Config where
  bufferSize := 512
  header_fits := by decide
  checkMuid _ _ _ := true

/-- A reply to a profile inquiry, broadcast, with no profile enabled and none disabled. -/
def emptyReply : List B7 :=
  [0x7E, 0x7F, 0x0D, 0x21, 0x02, 0x01, 0x02, 0x03, 0x04, 0x7F, 0x7F, 0x7F, 0x7F, 0, 0, 0, 0]

/-- On an empty reply a span of 4237 disabled profiles is handed out when two bytes of the
body have been received. -/
theorem not_memoryDiscipline_emptyReply :
    ¬MemoryDiscipline openConfig
      ((fresh openConfig 0x7F 0).run openConfig (emptyReply.map B7.toByte)) := by
  intro h
  have hspans := h.spans
  revert hspans
  decide

end Midi2.Ci
