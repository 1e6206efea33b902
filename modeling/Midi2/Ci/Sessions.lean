import Midi2.Ci.Delivery

/-!
# Dispatchers that are configured on the way

`set_group()` and `set_device_id()` may be called between any two bytes of a message. The group is
what `check_muid` is asked with, and the device id goes into the headers of callbacks. Nothing else
depends on them: a handler sees the type and the version of the message, the buffer and how much is
in it (`sees_handle`). So the calls of a session are those for its bytes alone, with the group that
there is at the end of the header and, in each callback, the device id of that moment
(`calls_configured`). A message that is sent in whole is delivered with its last byte, whatever is
configured in between (`delivered_session`).
-/

namespace Midi2.Ci

open Dispatcher

/-- What can be done with a dispatcher. -/
inductive Use where
  | byte (b : Byte)
  | setGroup (group : Byte)
  | setDeviceId (deviceId : B7)

/-- The bytes of a session. -/
def Use.byte? : Use → Option Byte
  | .byte b => some b
  | .setGroup _ | .setDeviceId _ => none

def bytesOf (us : List Use) : List Byte :=
  us.filterMap Use.byte?

/-- The group that is set when `n` more bytes have come. -/
def groupAt : Nat → Byte → List Use → Byte
  | 0, group, _ | _ + 1, group, [] => group
  | n + 1, group, .byte _ :: us => groupAt n group us
  | n + 1, _, .setGroup group :: us => groupAt (n + 1) group us
  | n + 1, group, .setDeviceId _ :: us => groupAt (n + 1) group us

/-- The device id that is set in the end. -/
def deviceIdAfter (deviceId : B7) : List Use → B7
  | [] => deviceId
  | .setDeviceId deviceId :: us => deviceIdAfter deviceId us
  | .byte _ :: us | .setGroup _ :: us => deviceIdAfter deviceId us

/-- A call, with this device id in its header. -/
def Call.onDevice (deviceId : B7) : Call → Call
  | .unknownMidici hdr => .unknownMidici { hdr with deviceId }
  | .message hdr m pos memory => .message { hdr with deviceId } m pos memory
  | .checkMuid group muid answer => .checkMuid group muid answer
  | .bufferOverflow => .bufferOverflow

namespace Dispatcher

variable {cfg : Config} {d e : Dispatcher}

/-- `set_group(group)`. -/
def setGroup (group : Byte) (d : Dispatcher) : Dispatcher :=
  { d with group }

/-- `set_device_id(device_id)`. -/
def setDeviceId (deviceId : B7) (d : Dispatcher) : Dispatcher :=
  { d with header := { d.header with deviceId } }

def use (cfg : Config) (d : Dispatcher) : Use → Dispatcher
  | .byte b => d.dispatch cfg b
  | .setGroup group => d.setGroup group
  | .setDeviceId deviceId => d.setDeviceId deviceId

/-- The dispatcher after it was used. -/
def session (cfg : Config) (d : Dispatcher) (us : List Use) : Dispatcher :=
  us.foldl (use cfg) d

/-! ## What a handler sees -/

/-- The members that handlers look at. -/
structure Seen where
  type : Byte
  version : B7
  buffer : Nat → Byte
  pos : Nat

def seen (d : Dispatcher) : Seen :=
  ⟨d.type, d.header.version, d.buffer, d.pos⟩

/-- What a handler decides to do. -/
inductive Decision where
  | more (n : Nat)
  | deliver (m : Message Span)
  | giveUp

def Decision.apply (d : Dispatcher) : Decision → Dispatcher
  | .more n => d.await n
  | .deliver m => d.deliver m
  | .giveUp => d.giveUp

/-- A handler that decides by what it sees. -/
def Sees (f : Dispatcher → Dispatcher) : Prop :=
  ∃ decide : Seen → Decision, ∀ d, f d = (decide d.seen).apply d

theorem sees_fixed {V : Type} [Layout Byte V] (make : V → Message Span) : Sees (fixed V make) :=
  ⟨fun s => .deliver (make (Layout.cast V s.buffer 0)), fun _ => rfl⟩

theorem sees_ite {f g : Dispatcher → Dispatcher} (hf : Sees f) (hg : Sees g) (P : Seen → Prop)
    [DecidablePred P] : Sees fun d => if P d.seen then f d else g d := by
  obtain ⟨decideF, hf⟩ := hf
  obtain ⟨decideG, hg⟩ := hg
  refine ⟨fun s => if P s then decideF s else decideG s, fun d => ?_⟩
  by_cases h : P d.seen
  · simp only [if_pos h]
    exact hf d
  · simp only [if_neg h]
    exact hg d

theorem sees_deliver (m : Seen → Message Span) : Sees fun d => d.deliver (m d.seen) :=
  ⟨fun s => .deliver (m s), fun _ => rfl⟩

theorem sees_await (n : Seen → Nat) : Sees fun d => d.await (n d.seen) :=
  ⟨fun s => .more (n s), fun _ => rfl⟩

theorem sees_giveUp : Sees giveUp :=
  ⟨fun _ => .giveUp, fun _ => rfl⟩

theorem sees_versioned {V1 V2 : Type} [Layout Byte V1] [Layout Byte V2]
    (make1 : V1 → Message Span) (make2 : V2 → Message Span) :
    Sees (versioned V1 V2 make1 make2) :=
  sees_ite (sees_fixed make1) (sees_fixed make2) (·.version = 1#7)

theorem sees_sinceV2 {f : Dispatcher → Dispatcher} (hf : Sees f) : Sees (sinceV2 f) :=
  sees_ite hf sees_giveUp (1#7 < ·.version)

theorem sees_withTail {V : Type} [Layout Byte V] (length : V → ByteArray 2)
    (make : Nat → V → Message Span) : Sees (withTail V length make) := by
  let dataLength (s : Seen) : Nat := (fromLe7 (length (Layout.cast V s.buffer 0)) : B14).toNat
  exact sees_ite (sees_await dataLength) (sees_deliver fun s => make 0 (Layout.cast V s.buffer 0))
    fun s => s.pos = Layout.size V ∧ dataLength s > 0

/-- A dispatcher with these members. -/
def Seen.dispatcher (s : Seen) : Dispatcher where
  type := s.type
  header := { version := s.version }
  buffer := s.buffer
  pos := s.pos

/-- What `property_exchange` decides when all has come. -/
def Seen.exchange (s : Seen) : Decision :=
  let d := s.dispatcher
  let pt1 := d.view PropertyExchange.Packed.PropertyExchangePt1 0
  let pt2 := d.view PropertyExchange.Packed.PropertyExchangePt2 (3 + d.headerLength)
  let exchange (data : Span Byte) : PropertyExchange.PropertyExchange Span :=
    ⟨⟨fromLe7 pt2.numberOfChunks, fromLe7 pt2.chunkNumber⟩, B7.ofByte pt1.requestId,
      ⟨3, d.headerLength⟩, data⟩
  match propertyExchangeType s.type with
  | some .get => .deliver (.propertyExchange .get (exchange ⟨0, 0⟩))
  | some pet => .deliver (.propertyExchange pet (exchange ⟨9 + d.headerLength, d.dataLength⟩))
  | none => .giveUp

theorem sees_deliverExchange : Sees deliverExchange := by
  refine ⟨Seen.exchange, fun d => ?_⟩
  simp only [deliverExchange, Seen.exchange, seen]
  cases propertyExchangeType d.type with
  | none => rfl
  | some pet => cases pet <;> rfl

theorem sees_propertyExchange : Sees (handle .propertyExchange) := by
  have hexchange := sees_ite (sees_await fun s => s.dispatcher.headerLength)
    (sees_ite (sees_await fun _ => 6)
      (sees_ite (sees_await fun s => s.dispatcher.dataLength) sees_deliverExchange
        fun s => s.pos = 9 + s.dispatcher.headerLength ∧ 0 < s.dispatcher.dataLength)
      fun s => s.pos = 3 + s.dispatcher.headerLength)
    fun s => s.pos = 3 ∧ 0 < s.dispatcher.headerLength
  obtain ⟨decide, hdecide⟩ := hexchange
  exact ⟨decide, fun d => (handle_propertyExchange d).trans (hdecide d)⟩

theorem sees_profileInquiryReply : Sees (handle .profileInquiryReply) := by
  have hreply := sees_ite (sees_await fun s => s.dispatcher.numEnabled * 5 + 2)
    (sees_ite (sees_await fun s => s.dispatcher.numDisabled * 5)
      (sees_deliver fun s => .profileInquiryReply ⟨⟨2, s.dispatcher.numEnabled⟩,
        ⟨2 + s.dispatcher.numEnabled * 5 + 2, s.dispatcher.numDisabled⟩⟩)
      fun s => 0 < s.dispatcher.numDisabled ∧ s.pos = 2 + s.dispatcher.numEnabled * 5 + 2)
    fun s => 0 < s.dispatcher.numEnabled ∧ s.pos = 2
  obtain ⟨decide, hdecide⟩ := hreply
  exact ⟨decide, fun d => (handle_profileInquiryReply d).trans (hdecide d)⟩

/-- No handler sees the device id or the group. -/
theorem sees_handle (h : Handler) : Sees (handle h) := by
  cases h
  case discovery | discoveryReply | profileOn | profileOff | profileEnabled | profileDisabled |
      peCapabilities | peCapabilitiesReply =>
    simp only [handle, discovery, discoveryReply, profileOn, profileOff, profileEnabled,
      profileDisabled, peCapabilities, peCapabilitiesReply]
    exact sees_versioned _ _
  case endpoint | invalidateMuid | profileAdded | profileRemoved | profileDetails =>
    simp only [handle, endpoint, invalidateMuid, profileAdded, profileRemoved, profileDetails]
    exact sees_fixed _
  case endpointReply | ack | profileDetailsReply | profileSpecificData =>
    simp only [handle, endpointReply, ack, profileDetailsReply, profileSpecificData]
    exact sees_withTail _ _
  case profileInquiry => exact sees_deliver fun _ => .profileInquiry
  case nak => exact sees_ite (sees_fixed _) (sees_withTail _ _) (·.version = 1#7)
  case profileInquiryReply => exact sees_profileInquiryReply
  case propertyExchange => exact sees_propertyExchange
  case processInquiryCapabilities => exact sees_sinceV2 (sees_deliver fun _ => .piCapabilities)
  case processInquiryMidiMessageReportEnd =>
    exact sees_sinceV2 (sees_deliver fun _ => .piMidiMessageReportEnd)
  case processInquiryCapabilitiesReply | processInquiryMidiMessageReport |
      processInquiryMidiMessageReportReply =>
    simp only [handle, processInquiryCapabilitiesReply, processInquiryMidiMessageReport,
      processInquiryMidiMessageReportReply]
    exact sees_sinceV2 (sees_fixed _)

/-! ## Two dispatchers with the same bytes -/

/-- The dispatcher with another device id, another group and other calls. -/
def mirror (e : Dispatcher) (deviceId : B7) (group : Byte) (calls : List Call) : Dispatcher :=
  { e with header := { e.header with deviceId }, group, calls }

/-- What `f` adds to the calls of `e` it adds to those of the other, with its device id. -/
def Mirrored (f : Dispatcher → Dispatcher) (e : Dispatcher) (deviceId : B7) (group : Byte)
    (calls : List Call) : Prop :=
  ∃ new, (f e).calls = e.calls ++ new ∧
    f (e.mirror deviceId group calls) =
      (f e).mirror deviceId group (calls ++ new.map (Call.onDevice deviceId))

variable {deviceId : B7} {group : Byte} {calls : List Call}

/-- Without a call. -/
theorem mirrored_silent {f : Dispatcher → Dispatcher} (hcalls : (f e).calls = e.calls)
    (hmirror : f (e.mirror deviceId group calls) = (f e).mirror deviceId group calls) :
    Mirrored f e deviceId group calls := by
  refine ⟨[], ?_, ?_⟩
  · rw [hcalls, List.append_nil]
  · rw [hmirror, List.map_nil, List.append_nil]

theorem Mirrored.comp {f g : Dispatcher → Dispatcher} (hf : Mirrored f e deviceId group calls)
    (hg : ∀ calls, Mirrored g (f e) deviceId group calls) :
    Mirrored (fun e => g (f e)) e deviceId group calls := by
  obtain ⟨new, hcalls, hmirror⟩ := hf
  obtain ⟨new', hcalls', hmirror'⟩ := hg (calls ++ new.map (Call.onDevice deviceId))
  refine ⟨new ++ new', ?_, ?_⟩
  · rw [hcalls', hcalls, List.append_assoc]
  · show g (f (e.mirror deviceId group calls)) = _
    rw [hmirror, hmirror', List.map_append, List.append_assoc]

theorem Sees.mirrored {f : Dispatcher → Dispatcher} (h : Sees f) :
    Mirrored f e deviceId group calls := by
  obtain ⟨decide, hdecide⟩ := h
  have hseen : (e.mirror deviceId group calls).seen = e.seen := rfl
  rw [Mirrored, hdecide, hdecide, hseen]
  cases decide e.seen with
  | more n => exact mirrored_silent (f := (·.await n)) rfl rfl
  | giveUp => exact mirrored_silent (f := giveUp) rfl rfl
  | deliver m => exact ⟨[.message e.header m e.pos e.buffer], rfl, rfl⟩

theorem mirrored_install (info : MessageDispatchInfo) :
    Mirrored (install info) e deviceId group calls := by
  let waiting (e : Dispatcher) : Dispatcher :=
    { e with consumer := .handler info.consumer, count := info.size e.header.version }
  have hwaiting : Mirrored waiting e deviceId group calls := mirrored_silent rfl rfl
  by_cases h0 : info.size e.header.version = 0
  · have hinstall : ∀ calls, (e.mirror deviceId group calls).install info =
        handle info.consumer (waiting (e.mirror deviceId group calls)) := fun _ => if_pos h0
    have hown : e.install info = handle info.consumer (waiting e) := if_pos h0
    rw [Mirrored, hinstall, hown]
    exact hwaiting.comp fun _ => (sees_handle info.consumer).mirrored
  · have hinstall : ∀ calls, (e.mirror deviceId group calls).install info =
        waiting (e.mirror deviceId group calls) := fun _ => if_neg h0
    have hown : e.install info = waiting e := if_neg h0
    rw [Mirrored, hinstall, hown]
    exact hwaiting

/-- What `header()` does with a message of a known type. -/
def found (cfg : Config) (info : MessageDispatchInfo) (d : Dispatcher) : Dispatcher :=
  match d.accept cfg with
  | (false, d) => d.reject
  | (true, d) => d.install info

/-- `check_muid` is asked with the group, and before any other call. -/
theorem mirrored_found (info : MessageDispatchInfo) (hgroup : e.group = group)
    (hcalls : e.calls = []) : Mirrored (found cfg info) e deviceId group [] := by
  have hinstall : ∀ e' calls, Mirrored (install info) e' deviceId group calls :=
    fun _ _ => mirrored_install info
  have hreject : ∀ e' calls, Mirrored reject e' deviceId group calls :=
    fun _ _ => mirrored_silent rfl rfl
  rw [Mirrored]
  unfold found
  rcases accept_cases cfg e with ⟨hb, heq⟩ | ⟨hb, answer, hanswer, heq⟩
  · rcases accept_cases cfg (e.mirror deviceId group []) with ⟨-, heq'⟩ | ⟨hb', -⟩
    · rw [heq, heq']
      exact hinstall e []
    · exact absurd hb hb'
  · rcases accept_cases cfg (e.mirror deviceId group []) with
      ⟨hb', -⟩ | ⟨-, answer', hanswer', heq'⟩
    · exact absurd hb' hb
    · have hsame : answer' = answer := by
        rw [hanswer, hanswer', hgroup, hcalls]
        rfl
      let asking (e : Dispatcher) : Dispatcher :=
        { e with calls := e.calls ++ [.checkMuid e.group e.header.localMuid answer] }
      have hasking : Mirrored asking e deviceId group [] := by
        refine ⟨[.checkMuid group e.header.localMuid answer], ?_, rfl⟩
        rw [← hgroup]
      rw [heq, heq', hsame]
      cases answer with
      | false => exact hasking.comp fun _ => hreject _ _
      | true => exact hasking.comp fun _ => hinstall _ _

/-- What `header()` does when the header has been read. -/
def route (cfg : Config) (d : Dispatcher) : Dispatcher :=
  match lookup d.type with
  | none => d.unknown
  | some info => d.found cfg info

theorem mirrored_route (hgroup : e.group = group) (hcalls : e.calls = []) :
    Mirrored (route cfg) e deviceId group [] := by
  have htype : (e.mirror deviceId group []).type = e.type := rfl
  rw [Mirrored]
  unfold route
  rw [htype]
  cases lookup e.type with
  | none => exact ⟨[.unknownMidici e.header], rfl, rfl⟩
  | some info => exact mirrored_found info hgroup hcalls

theorem mirrored_headerConsumer (hgroup : e.group = group) (hcalls : e.calls = []) :
    Mirrored (headerConsumer cfg) e deviceId group [] := by
  have hread : ∀ calls, Mirrored readHeader e deviceId group calls :=
    fun _ => mirrored_silent rfl rfl
  have hpos : ∀ e' calls, Mirrored (fun d => { d with pos := 0 }) e' deviceId group calls :=
    fun _ _ => mirrored_silent rfl rfl
  have hroute : Mirrored (fun d => route cfg d.readHeader) e deviceId group [] := by
    obtain ⟨new, hnew, hmirror⟩ := @mirrored_route cfg e.readHeader deviceId group hgroup hcalls
    exact ⟨new, hnew, hmirror⟩
  exact hroute.comp fun calls => hpos _ calls

theorem mirrored_consume (hheader : e.consumer = .header → e.group = group ∧ e.calls = [] ∧
    calls = []) : Mirrored (consume cfg) e deviceId group calls := by
  have hconsumer : (e.mirror deviceId group calls).consumer = e.consumer := rfl
  rw [Mirrored]
  unfold consume
  rw [hconsumer]
  cases hc : e.consumer with
  | header =>
      obtain ⟨hgroup, hcalls, rfl⟩ := hheader hc
      exact mirrored_headerConsumer hgroup hcalls
  | discard => exact mirrored_silent (f := discard cfg) rfl rfl
  | handler h => exact (sees_handle h).mirrored

/-- A byte adds the same calls, but for the device id, when at the end of a header the groups are
the same. -/
theorem mirrored_dispatch (b : Byte) (hheader : e.consumer = .header →
    0 < e.count ∧ e.calls = [] ∧ calls = [] ∧ (e.count = 1 → e.group = group)) :
    Mirrored (dispatch cfg · b) e deviceId group calls := by
  let m := e.mirror deviceId group calls
  rw [Mirrored]
  rcases dispatch_cases cfg e b with ⟨hn, hp, heq⟩ | ⟨hn, hp, heq⟩ | ⟨hn, hp, heq⟩ | ⟨hn, heq⟩
  · rw [heq, dispatch_overflow (d := m) b hn hp]
    exact ⟨[.bufferOverflow], rfl, rfl⟩
  · rw [heq, dispatch_store (d := m) b hn hp]
    exact mirrored_silent (f := (store · b)) rfl rfl
  · rw [heq, dispatch_last (d := m) b hn hp]
    refine mirrored_consume (e := e.store b) fun hc => ?_
    obtain ⟨-, hcalls, hnone, hgroup⟩ := hheader hc
    exact ⟨hgroup hn, hcalls, hnone⟩
  · rw [heq, dispatch_idle (d := m) b hn]
    refine mirrored_consume fun hc => ?_
    have := (hheader hc).1
    omega

/-- The header is read once. -/
theorem consumer_handle (h : Handler) (hc : d.consumer ≠ .header) :
    (handle h d).consumer ≠ .header := by
  have hout := handle_outcome h d
  generalize handle h d = e at hout
  cases hout with
  | more n => exact hc
  | deliver m => exact Consumer.noConfusion
  | giveUp => exact Consumer.noConfusion

theorem consumer_install (info : MessageDispatchInfo) : (d.install info).consumer ≠ .header := by
  simp only [install]
  split
  case isTrue => exact consumer_handle _ Consumer.noConfusion
  case isFalse => exact Consumer.noConfusion

theorem consumer_consume : (d.consume cfg).consumer ≠ .header := by
  unfold consume
  cases hc : d.consumer with
  | header =>
      rcases headerConsumer_cases cfg d with ⟨-, heq⟩ | ⟨info, answer, e, -, -, heq⟩
      · rw [heq]
        exact Consumer.noConfusion
      · rw [heq]
        cases answer with
        | false => exact Consumer.noConfusion
        | true => exact consumer_install info
  | discard =>
      show d.consumer ≠ .header
      rw [hc]
      exact Consumer.noConfusion
  | handler h =>
      refine consumer_handle h ?_
      rw [hc]
      exact Consumer.noConfusion

/-- As long as the header is not complete, a byte is stored. -/
theorem dispatch_of_header {b : Byte} (h : (d.dispatch cfg b).consumer = .header) :
    1 < d.count ∧ d.dispatch cfg b = d.store b := by
  rcases dispatch_cases cfg d b with ⟨-, -, heq⟩ | ⟨hn, -, heq⟩ | ⟨-, -, heq⟩ | ⟨-, heq⟩
  · rw [heq] at h
    cases h
  · exact ⟨hn, heq⟩
  · rw [heq] at h
    exact absurd h consumer_consume
  · rw [heq] at h
    exact absurd h consumer_consume

/-! ## Sessions -/

/-- The calls that a byte adds. -/
def newCalls (cfg : Config) (e : Dispatcher) (b : Byte) : List Call :=
  (e.dispatch cfg b).calls.drop e.calls.length

/-- The calls that the bytes of a session make, each with the device id that is set. -/
def callsFor (cfg : Config) : B7 → Dispatcher → List Use → List Call
  | _, _, [] => []
  | deviceId, e, .byte b :: us =>
      (newCalls cfg e b).map (Call.onDevice deviceId) ++ callsFor cfg deviceId (e.dispatch cfg b) us
  | deviceId, e, .setGroup _ :: us => callsFor cfg deviceId e us
  | _, e, .setDeviceId deviceId :: us => callsFor cfg deviceId e us

/-- Until the header is complete, the group of `e` is the one that will be set by then. -/
structure Awaits (e : Dispatcher) (group : Byte) (calls : List Call) (us : List Use) : Prop where
  more : 0 < e.count
  silent : e.calls = []
  none : calls = []
  group_eq : e.group = groupAt e.count group us

theorem Awaits.of_configure {us : List Use} {u : Use} {group' : Byte}
    (h : Awaits e group calls (u :: us))
    (hgroup : ∀ n, groupAt (n + 1) group (u :: us) = groupAt (n + 1) group' us) :
    Awaits e group' calls us := by
  obtain ⟨n, hn⟩ := Nat.exists_eq_succ_of_ne_zero (Nat.ne_of_gt h.more)
  refine ⟨h.more, h.silent, h.none, ?_⟩
  rw [h.group_eq, hn]
  exact hgroup n

/-- The next byte of the header. -/
theorem Awaits.store {us : List Use} {b : Byte} (h : Awaits e group calls (.byte b :: us))
    (hmore : 1 < e.count) : Awaits (e.store b) group calls us := by
  obtain ⟨n, hn⟩ := Nat.exists_eq_succ_of_ne_zero (Nat.ne_of_gt h.more)
  have hcount : (e.store b).count = n := by
    show e.count - 1 = n
    omega
  refine ⟨by omega, h.silent, h.none, ?_⟩
  rw [hcount]
  exact h.group_eq.trans (by rw [hn, groupAt])

theorem calls_mirror {us : List Use} (h : e.consumer = .header → Awaits e group calls us) :
    (session cfg (e.mirror deviceId group calls) us).calls =
      calls ++ callsFor cfg deviceId e us := by
  induction us generalizing e deviceId group calls with
  | nil => exact (List.append_nil _).symm
  | cons u us ih =>
      rw [session, List.foldl_cons]
      cases u with
      | byte b =>
          have hheader (hc : e.consumer = .header) :
              0 < e.count ∧ e.calls = [] ∧ calls = [] ∧ (e.count = 1 → e.group = group) := by
            obtain ⟨hmore, hsilent, hnone, hgroup⟩ := h hc
            refine ⟨hmore, hsilent, hnone, fun hone => ?_⟩
            rw [hgroup, hone, groupAt, groupAt]
          obtain ⟨new, hnew, hmirror⟩ := @mirrored_dispatch cfg e deviceId group calls b hheader
          have hcalls : newCalls cfg e b = new := by
            rw [newCalls, show (e.dispatch cfg b).calls = e.calls ++ new from hnew, List.drop_left]
          have hnext : (e.dispatch cfg b).consumer = .header →
              Awaits (e.dispatch cfg b) group (calls ++ new.map (Call.onDevice deviceId)) us := by
            intro hc
            obtain ⟨hmore, hstore⟩ := dispatch_of_header hc
            have hnone : new = [] := by
              have hsame : (e.store b).calls = e.calls ++ new := hstore ▸ hnew
              exact List.append_cancel_left (hsame.symm.trans (List.append_nil _).symm)
            rw [hstore] at hc ⊢
            rw [hnone, List.map_nil, List.append_nil]
            exact (h hc).store hmore
          have hrest := @ih (e.dispatch cfg b) deviceId group _ hnext
          rw [← hmirror] at hrest
          rw [callsFor, hcalls, ← List.append_assoc]
          exact hrest
      | setGroup group' =>
          exact @ih e deviceId group' calls fun hc => (h hc).of_configure fun _ => rfl
      | setDeviceId deviceId' =>
          exact @ih e deviceId' group calls fun hc => (h hc).of_configure fun _ => rfl

/-- The calls of a session are those that its bytes make, with the device id that is set at the
time, if the dispatcher for these is given the group that is set at the end of the header. -/
theorem calls_configured (cfg : Config) (deviceId : B7) (group : Byte) (us : List Use) :
    (session cfg (fresh cfg deviceId group) us).calls =
      callsFor cfg deviceId (fresh cfg 0 (groupAt 13 group us)) us := by
  have hcount : (fresh cfg 0 (groupAt 13 group us)).count = 13 := rfl
  have hawaits : Awaits (fresh cfg 0 (groupAt 13 group us)) group [] us :=
    ⟨by rw [hcount]; exact Nat.zero_lt_succ 12, rfl, rfl, by rw [hcount]; rfl⟩
  exact @calls_mirror cfg _ deviceId group [] us fun _ => hawaits

/-! ## Messages that are sent in whole -/

theorem onDevice_onDevice (deviceId deviceId' : B7) (c : Call) :
    (c.onDevice deviceId').onDevice deviceId = c.onDevice deviceId := by
  cases c <;> rfl

theorem isCallback_onDevice (deviceId : B7) (c : Call) :
    (c.onDevice deviceId).isCallback = c.isCallback := by
  cases c <;> rfl

theorem filter_onDevice (deviceId : B7) (calls : List Call) :
    (calls.map (Call.onDevice deviceId)).filter Call.isCallback =
      (calls.filter Call.isCallback).map (Call.onDevice deviceId) := by
  rw [List.filter_map]
  congr 1
  exact List.filter_congr fun c _ => isCallback_onDevice deviceId c

theorem callsFor_append (cfg : Config) (deviceId : B7) (e : Dispatcher) (us us' : List Use) :
    callsFor cfg deviceId e (us ++ us') = callsFor cfg deviceId e us ++
      callsFor cfg (deviceIdAfter deviceId us) (e.run cfg (bytesOf us)) us' := by
  induction us generalizing deviceId e with
  | nil => rfl
  | cons u us ih =>
      rw [List.cons_append]
      cases u with
      | byte b =>
          rw [callsFor, callsFor, ih, List.append_assoc]
          rfl
      | setGroup group => exact ih deviceId e
      | setDeviceId deviceId' => exact ih deviceId' e

/-- A byte is the last thing that the group can depend on. -/
theorem groupAt_concat (n : Nat) (group : Byte) (us : List Use) (b : Byte) :
    groupAt n group (us ++ [.byte b]) = groupAt n group us := by
  induction us generalizing n group with
  | nil =>
      cases n with
      | zero => rfl
      | succ n => cases n <;> rfl
  | cons u us ih =>
      cases n with
      | zero => rfl
      | succ n =>
          cases u with
          | byte b' => exact ih n group
          | setGroup group' => exact ih (n + 1) group'
          | setDeviceId deviceId => exact ih (n + 1) group

theorem groupAt_bytes (n : Nat) (group : Byte) (bs : List Byte) :
    groupAt n group (bs.map .byte) = group := by
  induction bs generalizing n with
  | nil => cases n <;> rfl
  | cons b bs ih =>
      cases n with
      | zero => rfl
      | succ n => exact ih n

/-- But for the device ids, the calls are those of the bytes alone. -/
theorem calls_configured_run (cfg : Config) (deviceId : B7) (group : Byte) (us : List Use) :
    (session cfg (fresh cfg deviceId group) us).calls.map (Call.onDevice 0) =
      ((fresh cfg 0 (groupAt 13 group us)).run cfg (bytesOf us)).calls.map (Call.onDevice 0) := by
  have hbytes : ∀ (deviceId : B7) (e : Dispatcher),
      (callsFor cfg deviceId e us).map (Call.onDevice 0) =
        (callsFor cfg 0 e ((bytesOf us).map .byte)).map (Call.onDevice 0) := by
    induction us with
    | nil => exact fun _ _ => rfl
    | cons u us ih =>
        intro deviceId e
        cases u with
        | byte b =>
            have hcons : (bytesOf (.byte b :: us)).map Use.byte =
                .byte b :: (bytesOf us).map .byte := rfl
            rw [hcons, callsFor, callsFor, List.map_append, List.map_append, ih, List.map_map,
              List.map_map]
            congr 1
            exact List.map_congr_left fun c _ =>
              (onDevice_onDevice 0 deviceId c).trans (onDevice_onDevice 0 0 c).symm
        | setGroup group => exact ih deviceId e
        | setDeviceId deviceId' => exact ih deviceId' e
  have hrun := calls_configured cfg 0 (groupAt 13 group us) ((bytesOf us).map .byte)
  rw [groupAt_bytes] at hrun
  have hsession : ∀ (d : Dispatcher) (bs : List Byte),
      session cfg d (bs.map .byte) = d.run cfg bs := by
    intro d bs
    rw [session, List.foldl_map]
    rfl
  rw [calls_configured, hbytes, ← hrun, hsession]

/-- What is configured after the header makes no difference to the group. -/
theorem groupAt_append {n : Nat} {us : List Use} (h : n ≤ (bytesOf us).length) (group : Byte)
    (us' : List Use) : groupAt n group (us ++ us') = groupAt n group us := by
  induction us generalizing n group with
  | nil =>
      obtain rfl := Nat.le_zero.1 h
      cases us' <;> rfl
  | cons u us ih =>
      cases n with
      | zero => rfl
      | succ n =>
          cases u with
          | byte b => exact ih (Nat.le_of_succ_le_succ h) group
          | setGroup group' => exact ih h group'
          | setDeviceId deviceId => exact ih h group

/-- After the header nothing takes calls back. -/
theorem callbacks_session_append (cfg : Config) (deviceId : B7) (group : Byte) {us : List Use}
    (h : 13 ≤ (bytesOf us).length) (us' : List Use) : ∃ rest,
      (session cfg (fresh cfg deviceId group) (us ++ us')).callbacks =
        (session cfg (fresh cfg deviceId group) us).callbacks ++ rest := by
  rw [callbacks, callbacks, calls_configured, calls_configured, groupAt_append h, callsFor_append,
    List.filter_append]
  exact ⟨_, rfl⟩

/-- The callbacks are those of the bytes alone, but for the device ids. -/
theorem callbacks_session (cfg : Config) (deviceId : B7) (group : Byte) (us : List Use) :
    (session cfg (fresh cfg deviceId group) us).callbacks.map (Call.onDevice 0) =
      ((fresh cfg 0 (groupAt 13 group us)).run cfg (bytesOf us)).callbacks.map
        (Call.onDevice 0) := by
  rw [callbacks, callbacks, ← filter_onDevice, ← filter_onDevice, calls_configured_run]

theorem callbacks_session_length_le (cfg : Config) (deviceId : B7) (group : Byte)
    (us : List Use) : (session cfg (fresh cfg deviceId group) us).callbacks.length ≤ 1 := by
  have hone : OneMessage cfg ((fresh cfg 0 (groupAt 13 group us)).run cfg (bytesOf us)) :=
    (oneMessage_fresh cfg 0 (groupAt 13 group us)).run
  have hlen := congrArg List.length (callbacks_session cfg deviceId group us)
  rw [List.length_map, List.length_map] at hlen
  exact hlen.trans_le hone.once

/-- A byte adds its calls with the device id that is set. -/
theorem calls_configured_byte (cfg : Config) (deviceId : B7) (group : Byte) (us : List Use)
    (b : Byte) : ∃ new : List Call,
      (session cfg (fresh cfg deviceId group) (us ++ [.byte b])).calls =
        (session cfg (fresh cfg deviceId group) us).calls ++
          new.map (Call.onDevice (deviceIdAfter deviceId us)) := by
  refine ⟨newCalls cfg ((fresh cfg 0 (groupAt 13 group us)).run cfg (bytesOf us)) b, ?_⟩
  rw [calls_configured, calls_configured, groupAt_concat, callsFor_append, callsFor, callsFor,
    List.append_nil]

end Dispatcher

variable {cfg : Config} {hdr : Header} {m : Message List}

/-- However groups and device ids are set between the bytes of a message, before them and after
them, if the message is for the group that is set at the end of its header then it is delivered
with its last byte, with the device id that is set by then, and nothing else is called. -/
theorem delivered_session (hrep : m.Representable) (hparsed : m.Parsed hdr.version)
    (hfit : m.bodySize hdr.version ≤ cfg.bufferSize) (deviceId : B7) (group : Byte)
    {us us' : List Use} {b : Byte} (hbytes : bytesOf us ++ [b] = encode hdr m)
    (haccept : accepts cfg (groupAt 13 group us) hdr.localMuid = true) :
    (session cfg (fresh cfg deviceId group) us).callbacks = [] ∧
      ∃ spans pos memory, spans.read memory = m.carried hdr.version ∧
        (session cfg (fresh cfg deviceId group) (us ++ .byte b :: us')).callbacks =
          [.message { hdr with deviceId := deviceIdAfter deviceId us } spans pos memory] := by
  have hfull : bytesOf (us ++ [.byte b]) = encode hdr m := by
    rw [bytesOf, List.filterMap_append]
    exact hbytes
  have hdelivers := delivers_message hrep hparsed haccept hfit 0
  have hbefore := hdelivers.before
  obtain ⟨spans, pos, memory, hread, hafter⟩ := hdelivers.after
  rw [← hbytes, List.dropLast_concat] at hbefore
  have hquiet : (session cfg (fresh cfg deviceId group) us).callbacks = [] := by
    have hsame := callbacks_session cfg deviceId group us
    rw [hbefore] at hsame
    exact List.map_eq_nil_iff.1 hsame
  refine ⟨hquiet, spans, pos, memory, hread, ?_⟩
  -- With the last byte the message is called, with the device id that is set.
  have hlast : (session cfg (fresh cfg deviceId group) (us ++ [.byte b])).callbacks =
      [.message { hdr with deviceId := deviceIdAfter deviceId us } spans pos memory] := by
    obtain ⟨new, hnew⟩ := calls_configured_byte cfg deviceId group us b
    have hsame := callbacks_session cfg deviceId group (us ++ [.byte b])
    rw [groupAt_concat, hfull, hafter] at hsame
    have hcallbacks : (session cfg (fresh cfg deviceId group) (us ++ [.byte b])).callbacks =
        (new.filter Call.isCallback).map (Call.onDevice (deviceIdAfter deviceId us)) := by
      rw [callbacks, hnew, List.filter_append, filter_onDevice]
      exact congrArg (· ++ _) hquiet
    have hagain := congrArg (List.map (Call.onDevice (deviceIdAfter deviceId us))) hsame
    have hboth : Call.onDevice (deviceIdAfter deviceId us) ∘ Call.onDevice 0 =
        Call.onDevice (deviceIdAfter deviceId us) := funext fun c => onDevice_onDevice _ 0 c
    rw [hcallbacks, List.map_map, List.map_map, List.map_map, hboth] at hagain
    have htwice : Call.onDevice (deviceIdAfter deviceId us) ∘
        Call.onDevice (deviceIdAfter deviceId us) = Call.onDevice (deviceIdAfter deviceId us) :=
      funext fun c => onDevice_onDevice _ _ c
    rw [htwice] at hagain
    rw [hcallbacks, hagain]
    rfl
  have hlong : 13 ≤ (bytesOf (us ++ [.byte b])).length := by
    have hne : encode hdr m ≠ [] := by
      rw [← hbytes]
      exact List.append_ne_nil_of_right_ne_nil _ (List.cons_ne_nil b [])
    rw [hfull]
    rw [encode_eq] at hne ⊢
    cases hbody : m.body hdr.version with
    | none =>
        rw [hbody] at hne
        exact absurd rfl hne
    | some bs =>
        show 13 ≤ (headerBytes hdr m.id ++ bs).length
        rw [List.length_append, length_headerBytes]
        exact Nat.le_add_right 13 bs.length
  obtain ⟨rest, hrest⟩ := callbacks_session_append cfg deviceId group hlong us'
  have hone := callbacks_session_length_le cfg deviceId group (us ++ [.byte b] ++ us')
  rw [hrest, hlast, List.length_append, List.length_singleton] at hone
  obtain rfl : rest = [] := List.length_eq_zero_iff.1 (by omega)
  rw [List.append_cons, hrest, hlast]
  rfl

/-- An endpoint message of fourteen bytes, with the group set before it, the device id in its
header and both once more after it. -/
theorem delivered_session_endpoint :
    let bytes := (encode (broadcastHeader 2#7) (.endpoint ⟨0⟩)).map Use.byte
    let us := .setGroup 4 :: (bytes.take 7 ++ .setDeviceId 0x11 :: (bytes.drop 7).take 6)
    (session openConfig (fresh openConfig 0 0)
        (us ++ .byte 0 :: [.setGroup 5, .setDeviceId 0x22])).callbacks.filterMap Call.header? =
      [{ broadcastHeader 2#7 with deviceId := 0x11 }] := by
  intro bytes us
  obtain ⟨-, spans, pos, memory, -, hcallbacks⟩ :=
    @delivered_session openConfig (broadcastHeader 2#7) (.endpoint ⟨0⟩) trivial (fun h => h.elim)
      (by decide) 0 0 us [.setGroup 5, .setDeviceId 0x22] 0 (by decide) rfl
  rw [hcallbacks]
  rfl

end Midi2.Ci
