import Midi2.Ci.CreateMessage
import Midi2.Ci.Protocol

/-!
# Messages in stages

A message body reaches its handler in stages: the handler is entered when the first stage
has arrived, asks for the next one, and so on until it delivers. `Stages` says that a
handler cuts a given body into given stages. It is a statement about the handler alone, in
states that have received the first stages and nothing else, and it is proved by evaluating
the handler once per stage.

From it follows what a fresh dispatcher does with the whole message (`run_stages_fit`): if the
body fits the buffer, nothing is called before its last byte, and then the message; if it
does not, `buffer_overflow` is called and nothing else, in whichever stage the buffer is
exceeded.
-/

namespace Midi2.Ci

open Layout (Holds bytes bytesList)

namespace Dispatcher

variable {cfg : Config} {d : Dispatcher} {h : Handler} {type : Byte} {hdr : Header}
  {m : Message Span}

/-- The handler `h` has been installed by a message header and `got` has arrived. -/
structure Received (h : Handler) (type : Byte) (hdr : Header) (got : List Byte)
    (d : Dispatcher) : Prop where
  consumer : d.consumer = .handler h
  type_eq : d.type = type
  header_eq : d.header = hdr
  pos_eq : d.pos = got.length
  count_eq : d.count = 0
  holds : Holds d.buffer 0 got

/-- What arrives next is stored behind what has arrived. -/
theorem Received.receive {got bs : List Byte} (hd : Received h type hdr got d) :
    Received h type hdr (got ++ bs) ((d.await bs.length).receive bs) where
  consumer := hd.consumer
  type_eq := hd.type_eq
  header_eq := hd.header_eq
  pos_eq := by simp only [Dispatcher.receive, await, hd.pos_eq, List.length_append]
  count_eq := Nat.sub_self _
  holds := by
    have hblit : Holds (Layout.blit d.buffer (0 + got.length) bs) 0 (got ++ bs) :=
      hd.holds.append_blit
    rwa [Nat.zero_add, ← hd.pos_eq] at hblit

/-- With `got` received, the handler takes the rest of the body in the given stages and
then delivers `m`. -/
inductive Stages (h : Handler) (type : Byte) (hdr : Header) (m : Message Span) :
    List Byte → List (List Byte) → Prop
  | last {got : List Byte}
      (hlast : ∀ d, Received h type hdr got d → handle h d = d.deliver m) :
      Stages h type hdr m got []
  | next {got s : List Byte} {ss : List (List Byte)} (hne : 0 < s.length)
      (hnext : ∀ d, Received h type hdr got d → handle h d = d.await s.length)
      (hrest : Stages h type hdr m (got ++ s) ss) : Stages h type hdr m got (s :: ss)

/-- One stage that fits the buffer. -/
theorem Received.run_stage {got s : List Byte} (hd : Received h type hdr got d)
    (hne : 0 < s.length) (hfit : (got ++ s).length ≤ cfg.bufferSize)
    (hsmall : (got ++ s).length < 2 ^ 32) :
    (d.await s.length).run cfg s = handle h ((d.await s.length).receive s) := by
  have hpos : (d.await s.length).pos = got.length := hd.pos_eq
  have hcount : (d.await s.length).count = s.length := rfl
  rw [List.length_append] at hfit hsmall
  rw [Dispatcher.run_stage rfl hne (by omega) (by omega), consume]
  simp only [Dispatcher.receive, await, hd.consumer]

/-- A stage whose last byte is missing. -/
theorem Received.run_dropLast {got s : List Byte} (hd : Received h type hdr got d)
    (hne : 0 < s.length) (hfit : (got ++ s).length ≤ cfg.bufferSize)
    (hsmall : (got ++ s).length < 2 ^ 32) :
    ((d.await s.length).run cfg s.dropLast).calls = d.calls := by
  have hpos : (d.await s.length).pos = got.length := hd.pos_eq
  have hcount : (d.await s.length).count = s.length := rfl
  rw [List.length_append] at hfit hsmall
  have hlen := s.length_dropLast
  rw [run_collecting (by omega) (by omega) (by omega)]
  rfl

/-- A stage that does not fit the buffer. -/
theorem Received.run_overflow {got s : List Byte} (hd : Received h type hdr got d)
    (hroom : got.length ≤ cfg.bufferSize) (hlong : cfg.bufferSize < (got ++ s).length)
    (hsmall : (got ++ s).length < 2 ^ 32) (rest : List Byte) :
    ((d.await s.length).run cfg (s ++ rest)).calls = d.calls ++ [.bufferOverflow] := by
  have hpos : (d.await s.length).pos = got.length := hd.pos_eq
  have hcount : (d.await s.length).count = s.length := rfl
  rw [List.length_append] at hlong hsmall
  obtain ⟨cs, b, more, -, hrun⟩ : ∃ cs b more, s = cs ++ b :: more ∧
      (d.await s.length).run cfg s =
        (((d.await s.length).receive cs).overflow).run cfg more :=
    Dispatcher.run_overflow (by omega) (by omega) (by omega) (by omega)
  rw [run_append, hrun, ← run_append, (discarding_overflow _).run.2]
  rfl

/-- A body that fits the buffer: silence until its last byte, then the message. -/
theorem run_stages_fit {got s : List Byte} {ss : List (List Byte)}
    (hs : Stages h type hdr m (got ++ s) ss) (hd : Received h type hdr got d)
    (hne : 0 < s.length) (hfit : (got ++ s ++ ss.flatten).length ≤ cfg.bufferSize)
    (hsmall : (got ++ s ++ ss.flatten).length < 2 ^ 32) :
    ((d.await s.length).run cfg (s ++ ss.flatten).dropLast).calls = d.calls ∧
    ∃ e, Received h type hdr (got ++ s ++ ss.flatten) e ∧ e.calls = d.calls ∧
      (d.await s.length).run cfg (s ++ ss.flatten) = e.deliver m := by
  generalize hgot : got ++ s = all at hs
  induction hs generalizing got s d with
  | last hlast =>
      subst hgot
      rw [List.flatten_nil, List.append_nil] at hfit hsmall ⊢
      rw [List.append_nil]
      refine ⟨hd.run_dropLast hne hfit hsmall, _, hd.receive, rfl, ?_⟩
      rw [hd.run_stage hne hfit hsmall, hlast _ hd.receive]
  | next hne' hnext hrest ih =>
      rename_i s' ss'
      subst hgot
      rw [List.flatten_cons] at hfit hsmall ⊢
      have hassoc : got ++ s ++ (s' ++ ss'.flatten) = got ++ s ++ s' ++ ss'.flatten := by
        rw [List.append_assoc (got ++ s)]
      rw [hassoc] at hfit hsmall
      have hlen : (got ++ s).length ≤ (got ++ s ++ s' ++ ss'.flatten).length := by
        rw [List.append_assoc (got ++ s)]
        exact (List.sublist_append_left _ _).length_le
      obtain ⟨hquiet, e, he, hcalls, hrun⟩ := ih hd.receive hne' hfit hsmall rfl
      have hstage := hd.run_stage hne (hlen.trans hfit) (lt_of_le_of_lt hlen hsmall)
      rw [hnext _ hd.receive] at hstage
      have hnil : s' ++ ss'.flatten ≠ [] := by
        intro hnil
        rw [List.append_eq_nil_iff.1 hnil |>.1] at hne'
        exact absurd hne' (Nat.lt_irrefl 0)
      refine ⟨?_, e, by rw [hassoc]; exact he, hcalls, ?_⟩
      · rw [List.dropLast_append_of_ne_nil hnil, run_append, hstage, hquiet]
        rfl
      · rw [run_append, hstage, hrun]

/-- A body that does not fit the buffer: `buffer_overflow` and nothing else. -/
theorem run_stages_overflow {got s : List Byte} {ss : List (List Byte)}
    (hs : Stages h type hdr m (got ++ s) ss) (hd : Received h type hdr got d)
    (hne : 0 < s.length) (hroom : got.length ≤ cfg.bufferSize)
    (hlong : cfg.bufferSize < (got ++ s ++ ss.flatten).length)
    (hsmall : (got ++ s ++ ss.flatten).length < 2 ^ 32) :
    ((d.await s.length).run cfg (s ++ ss.flatten)).calls = d.calls ++ [.bufferOverflow] := by
  generalize hgot : got ++ s = all at hs
  induction hs generalizing got s d with
  | last hlast =>
      rw [List.flatten_nil, List.append_nil] at hlong hsmall
      exact hd.run_overflow hroom hlong hsmall _
  | next hne' hnext hrest ih =>
      rename_i s' ss'
      subst hgot
      rw [List.flatten_cons] at hlong hsmall ⊢
      have hassoc : got ++ s ++ (s' ++ ss'.flatten) = got ++ s ++ s' ++ ss'.flatten := by
        rw [List.append_assoc (got ++ s)]
      rw [hassoc] at hlong hsmall
      have hlen : (got ++ s).length ≤ (got ++ s ++ s' ++ ss'.flatten).length := by
        rw [List.append_assoc (got ++ s)]
        exact (List.sublist_append_left _ _).length_le
      rcases Nat.lt_or_ge cfg.bufferSize (got ++ s).length with hover | hfit
      · exact hd.run_overflow hroom hover (lt_of_le_of_lt hlen hsmall) _
      · have hstage := hd.run_stage hne hfit (lt_of_le_of_lt hlen hsmall)
        rw [hnext _ hd.receive] at hstage
        rw [run_append, hstage]
        exact ih hd.receive hne' hfit hlong hsmall rfl

/-! ## Whole messages -/

/-- The bytes of a message header, as the receiver reads them back. -/
theorem headerBytes_spec (hdr : Header) (id : MessageType) (deviceId : B7) :
    (headerBytes hdr id).getD 3 0 = id.toByte ∧
      receivedHeader deviceId (headerBytes hdr id) = { hdr with deviceId := deviceId } := by
  have hholds : Holds (fun i => (headerBytes hdr id).getD i 0) 0 (headerBytes hdr id) :=
    Layout.holds_of_getD 0 fun i _ => by rw [Nat.zero_add]
  have hcast := (cast_header _).symm.trans (Layout.cast_of_holds hholds)
  simp only [Packed.Header.mk.injEq] at hcast
  obtain ⟨-, -, -, htype, hversion, hremote, hlocal⟩ := hcast
  refine ⟨htype, ?_⟩
  simp only [receivedHeader, hversion, hremote, hlocal, Header.toPacked, Le7.fromLe7_toLe7,
    B7.ofByte_toByte]

theorem callbacks_accepted (cfg : Config) (deviceId : B7) (group : Byte) (hd : List Byte) :
    (accepted cfg deviceId group hd).callbacks = [] := by
  simp only [callbacks, accepted, asked]
  split <;> rfl

/-- A fresh dispatcher that has read the header of a message for us waits for the body. -/
theorem run_headerBytes {deviceId : B7} {group : Byte} {id : MessageType}
    {info : MessageDispatchInfo} (hlookup : lookup id.toByte = some info)
    (haccept : accepts cfg group hdr.localMuid = true) (hsize : info.size hdr.version ≠ 0) :
    ∃ d, Received info.consumer id.toByte { hdr with deviceId := deviceId } [] d ∧
      d.callbacks = [] ∧
      (fresh cfg deviceId group).run cfg (headerBytes hdr id) =
        d.await (info.size hdr.version) := by
  obtain ⟨htype, hheader⟩ := headerBytes_spec hdr id deviceId
  refine ⟨{ accepted cfg deviceId group (headerBytes hdr id) with
    consumer := .handler info.consumer, count := 0, pos := 0 }, ?_, ?_, ?_⟩
  · exact ⟨rfl, htype, hheader, rfl, rfl, trivial⟩
  · exact callbacks_accepted cfg deviceId group (headerBytes hdr id)
  · rw [run_fresh_accepted (length_headerBytes hdr id) (by rw [htype, hlookup])
      (by rw [hheader]; exact haccept)]
    have hversion : (accepted cfg deviceId group (headerBytes hdr id)).header.version =
        hdr.version := by simp only [accepted, hheader]
    simp only [install, hversion, if_neg hsize]
    rfl

/-- If the body is empty, the handler is entered straight away. -/
theorem run_headerBytes_empty {deviceId : B7} {group : Byte} {id : MessageType}
    {info : MessageDispatchInfo} (hlookup : lookup id.toByte = some info)
    (haccept : accepts cfg group hdr.localMuid = true) (hsize : info.size hdr.version = 0) :
    ∃ d, d.header = { hdr with deviceId := deviceId } ∧ d.callbacks = [] ∧
      (fresh cfg deviceId group).run cfg (headerBytes hdr id) =
        { handle info.consumer d with pos := 0 } := by
  obtain ⟨htype, hheader⟩ := headerBytes_spec hdr id deviceId
  have hversion : (accepted cfg deviceId group (headerBytes hdr id)).header.version =
      hdr.version := by simp only [accepted, hheader]
  refine ⟨{ accepted cfg deviceId group (headerBytes hdr id) with
    consumer := .handler info.consumer, count := 0 }, hheader, ?_, ?_⟩
  · exact callbacks_accepted cfg deviceId group (headerBytes hdr id)
  · rw [run_fresh_accepted (length_headerBytes hdr id) (by rw [htype, hlookup])
      (by rw [hheader]; exact haccept)]
    simp only [install, hversion, hsize, if_true]

/-- A fresh dispatcher makes one callback on `bs`, which passes on `hdr` and spans that read
as `m` in the memory of that moment. -/
def Reports (cfg : Config) (deviceId : B7) (group : Byte) (bs : List Byte) (hdr : Header)
    (m : Message List) : Prop :=
  ∃ spans pos memory, spans.read memory = m ∧
    ((fresh cfg deviceId group).run cfg bs).callbacks = [.message hdr spans pos memory]

/-- A message that is reported with the last of its bytes: nothing is called before. -/
structure Delivers (cfg : Config) (deviceId : B7) (group : Byte) (bs : List Byte)
    (hdr : Header) (m : Message List) : Prop where
  before : ((fresh cfg deviceId group).run cfg bs.dropLast).callbacks = []
  after : Reports cfg deviceId group bs hdr m

/-- How a dispatcher takes the body of a message apart: either there is none, or it comes in
stages. In both cases the spans that are handed out in the end read as `m'`. -/
inductive Parses (hdr : Header) (m m' : Message List) : Prop
  | empty {info : MessageDispatchInfo} {spans : Message Span}
      (hlookup : lookup m.id.toByte = some info)
      (hbody : m.body hdr.version = some [])
      (hsize : info.size hdr.version = 0)
      (hhandle : ∀ d, d.header = hdr → handle info.consumer d = d.deliver spans)
      (hread : ∀ mem, spans.read mem = m') : Parses hdr m m'
  | stages {info : MessageDispatchInfo} {spans : Message Span} {s : List Byte}
      {ss : List (List Byte)}
      (hlookup : lookup m.id.toByte = some info)
      (hbody : m.body hdr.version = some (s ++ ss.flatten))
      (hsize : info.size hdr.version = s.length)
      (hne : 0 < s.length)
      (hstages : Stages info.consumer m.id.toByte hdr spans s ss)
      (hread : ∀ mem, Holds mem 0 (s ++ ss.flatten) → spans.read mem = m') : Parses hdr m m'

theorem run_fresh_dropLast {deviceId : B7} {group : Byte} {id : MessageType} :
    ((fresh cfg deviceId group).run cfg (headerBytes hdr id).dropLast).callbacks = [] := by
  rw [run_fresh_short (by simp)]
  rfl

theorem callbacks_of_calls {e : Dispatcher} {cs : List Call} (h : e.calls = d.calls ++ cs)
    (hd : d.callbacks = []) : e.callbacks = cs.filter Call.isCallback := by
  rw [callbacks, h, List.filter_append, ← callbacks, hd, List.nil_append]

/-- A message for us whose body fits the buffer is delivered. -/
theorem Parses.delivers {deviceId : B7} {group : Byte} {m m' : Message List} {b : List Byte}
    (hp : Parses { hdr with deviceId := deviceId } m m')
    (haccept : accepts cfg group hdr.localMuid = true) (hbody : m.body hdr.version = some b)
    (hfit : b.length ≤ cfg.bufferSize) (hsmall : b.length < 2 ^ 32) :
    Delivers cfg deviceId group (encode hdr m) { hdr with deviceId := deviceId } m' := by
  rw [encode_eq, hbody]
  cases hp with
  | @empty info spans hlookup hnil hsize hhandle hread =>
      obtain rfl : b = [] := Option.some.inj (hbody.symm.trans hnil)
      obtain ⟨d, hheader, hquiet, hrun⟩ := @run_headerBytes_empty cfg hdr deviceId group m.id
        info hlookup haccept hsize
      simp only [List.append_nil]
      refine ⟨run_fresh_dropLast, spans, d.pos, d.buffer, hread _, ?_⟩
      have hlast : (d.deliver spans).calls = d.calls ++ [.message d.header spans d.pos d.buffer] :=
        rfl
      rw [hrun, hhandle d hheader, ← hheader]
      exact callbacks_of_calls hlast hquiet
  | @stages info spans s ss hlookup hstaged hsize hne hstages hread =>
      obtain rfl : b = s ++ ss.flatten := Option.some.inj (hbody.symm.trans hstaged)
      have hcount : info.size hdr.version = s.length := hsize
      obtain ⟨d, hd, hquiet, hrun⟩ := @run_headerBytes cfg hdr deviceId group m.id info hlookup
        haccept (by omega)
      rw [hcount] at hrun
      obtain ⟨hbefore, e, he, hcalls, hafter⟩ := run_stages_fit hstages hd hne hfit hsmall
      have hnil : s ++ ss.flatten ≠ [] := by
        intro hnil
        rw [List.append_eq_nil_iff.1 hnil |>.1] at hne
        exact absurd hne (Nat.lt_irrefl 0)
      refine ⟨?_, spans, e.pos, e.buffer, hread _ he.holds, ?_⟩
      · rw [List.dropLast_append_of_ne_nil hnil, run_append, hrun, callbacks, hbefore]
        exact hquiet
      · rw [run_append, hrun, hafter, ← he.header_eq]
        have hlast : (e.deliver spans).calls =
            d.calls ++ [.message e.header spans e.pos e.buffer] :=
          congrArg (· ++ [Call.message e.header spans e.pos e.buffer]) hcalls
        exact callbacks_of_calls hlast hquiet

/-- A message for us whose body does not fit the buffer. -/
theorem Parses.overflows {deviceId : B7} {group : Byte} {m m' : Message List} {b : List Byte}
    (hp : Parses { hdr with deviceId := deviceId } m m')
    (haccept : accepts cfg group hdr.localMuid = true) (hbody : m.body hdr.version = some b)
    (hlong : cfg.bufferSize < b.length) (hsmall : b.length < 2 ^ 32) :
    ((fresh cfg deviceId group).run cfg (encode hdr m)).callbacks = [.bufferOverflow] := by
  rw [encode_eq, hbody]
  cases hp with
  | @empty info spans hlookup hnil hsize hhandle hread =>
      obtain rfl : b = [] := Option.some.inj (hbody.symm.trans hnil)
      exact absurd hlong (Nat.not_lt_zero _)
  | @stages info spans s ss hlookup hstaged hsize hne hstages hread =>
      obtain rfl : b = s ++ ss.flatten := Option.some.inj (hbody.symm.trans hstaged)
      have hcount : info.size hdr.version = s.length := hsize
      obtain ⟨d, hd, hquiet, hrun⟩ := @run_headerBytes cfg hdr deviceId group m.id info hlookup
        haccept (by omega)
      rw [hcount] at hrun
      show (run cfg _ (headerBytes hdr m.id ++ (s ++ ss.flatten))).callbacks = _
      rw [run_append, hrun]
      exact callbacks_of_calls
        (run_stages_overflow hstages hd hne (Nat.zero_le _) hlong hsmall) hquiet

/-- A message that is not for us is passed over in silence. -/
theorem callbacks_rejected {deviceId : B7} {group : Byte} {id : MessageType}
    {info : MessageDispatchInfo} (hlookup : lookup id.toByte = some info)
    (hreject : accepts cfg group hdr.localMuid = false) (body : List Byte) :
    ((fresh cfg deviceId group).run cfg (headerBytes hdr id ++ body)).callbacks = [] := by
  obtain ⟨htype, hheader⟩ := headerBytes_spec hdr id deviceId
  obtain ⟨hdiscard, hcalls⟩ := @run_fresh_rejected cfg deviceId group (headerBytes hdr id) info
    (length_headerBytes hdr id) (by rw [htype, hlookup]) (by rw [hheader]; exact hreject)
  rw [run_append, callbacks, hdiscard.run.2, hcalls]
  rfl

end Dispatcher

end Midi2.Ci
