import Midi2.Ci.DispatcherRun

/-!
# One message per dispatcher

A dispatcher reports on one message and then falls silent. Two invariants carry this over a
run. `OneMessage` is about how many callbacks there are: none while bytes are still
collected, and after the first one the dispatcher discards. `Addressed` is about whom the
message was for: once the header has been read, a handler is only installed, and so a
message only delivered, when the destination is the broadcast MUID or `check_muid` said
yes; and every callback passes on the header that was read.
-/

namespace Midi2.Ci

/-- Calls that report something, as opposed to the question `check_muid`. -/
def Call.isCallback : Call → Bool
  | .checkMuid .. => false
  | _ => true

/-- The header that a call passes on. -/
def Call.header? : Call → Option Header
  | .unknownMidici hdr => some hdr
  | .message hdr .. => some hdr
  | _ => none

/-- Calls of the management, profile, property exchange and process inquiry backends. -/
def Call.isMessage : Call → Bool
  | .message .. => true
  | _ => false

namespace Dispatcher

variable {cfg : Config} {d e : Dispatcher}

/-- The message callbacks, `unknown_midici` and `buffer_overflow`. -/
def callbacks (d : Dispatcher) : List Call :=
  d.calls.filter Call.isCallback

/-! ## The number of callbacks -/

structure OneMessage (cfg : Config) (d : Dispatcher) : Prop where
  silent : d.consumer ≠ .discard → d.callbacks = []
  once : d.callbacks.length ≤ 1
  bounded : d.consumer = .discard → d.count = 0 ∨ d.pos + d.count ≤ cfg.bufferSize

theorem oneMessage_of_silent (hlive : d.consumer ≠ .discard) (hsilent : d.callbacks = []) :
    OneMessage cfg d :=
  ⟨fun _ => hsilent, by simp [hsilent], fun h => absurd h hlive⟩

theorem oneMessage_pos (h : OneMessage cfg d) : OneMessage cfg { d with pos := 0 } where
  silent := h.silent
  once := h.once
  bounded hc := (h.bounded hc).imp_right fun _ => by simp only; omega

theorem oneMessage_reject (hsilent : d.callbacks = []) : OneMessage cfg d.reject :=
  ⟨fun _ => hsilent, (congrArg List.length hsilent).le.trans (Nat.zero_le 1),
    fun _ => Or.inl rfl⟩

theorem OneMessage.outcome (h : OneMessage cfg d) (hlive : d.consumer ≠ .discard)
    (hcount : d.count = 0) (ho : Outcome d e) : OneMessage cfg e := by
  have hsilent := h.silent hlive
  cases ho with
  | more n => exact oneMessage_of_silent hlive hsilent
  | deliver m =>
      refine ⟨fun hc => absurd rfl hc, ?_, fun _ => Or.inl hcount⟩
      have hcalls : (d.deliver m).callbacks =
          d.callbacks ++ [.message d.header m d.pos d.buffer] := by
        simp [callbacks, deliver, Call.isCallback]
      rw [hcalls, hsilent]
      exact Nat.le_refl 1
  | giveUp => exact ⟨fun hc => absurd rfl hc, h.once, fun _ => Or.inl hcount⟩

theorem OneMessage.install (info : MessageDispatchInfo) (hsilent : d.callbacks = []) :
    OneMessage cfg (d.install info) := by
  have hlive : OneMessage cfg { d with
      consumer := .handler info.consumer, count := info.size d.header.version } :=
    oneMessage_of_silent (by simp) hsilent
  simp only [Dispatcher.install]
  split
  case isTrue h0 => exact hlive.outcome (by simp) h0 (handle_outcome _ _)
  case isFalse => exact hlive

/-- Asking whether a message is for us is not a callback. -/
theorem callbacks_accept (cfg : Config) (d : Dispatcher) :
    (d.accept cfg).2.callbacks = d.callbacks := by
  rcases accept_cases cfg d with ⟨_, heq⟩ | ⟨_, answer, _, heq⟩
  · rw [heq]
  · rw [heq]
    simp [callbacks, Call.isCallback]

theorem OneMessage.headerConsumer (h : OneMessage cfg d) (hlive : d.consumer ≠ .discard) :
    OneMessage cfg (d.headerConsumer cfg) := by
  have hsilent : d.readHeader.callbacks = [] := h.silent hlive
  rcases headerConsumer_cases cfg d with ⟨_, heq⟩ | ⟨info, answer, e, _, haccept, heq⟩
  · rw [heq]
    refine oneMessage_pos ⟨fun hc => absurd rfl hc, ?_, fun _ => Or.inl rfl⟩
    have hcalls : d.readHeader.unknown.callbacks =
        d.readHeader.callbacks ++ [.unknownMidici d.readHeader.header] := by
      simp [callbacks, unknown, Call.isCallback]
    rw [hcalls, hsilent]
    exact Nat.le_refl 1
  · have hask := callbacks_accept cfg d.readHeader
    rw [haccept, hsilent] at hask
    rw [heq]
    refine oneMessage_pos ?_
    split
    · exact OneMessage.install info hask
    · exact oneMessage_reject hask

theorem OneMessage.run {bs : List Byte} (h : OneMessage cfg d) : OneMessage cfg (d.run cfg bs) := by
  refine run_preserves ?_ ?_ ?_ ?_ ?_ h
  · intro d b hd _ _
    refine ⟨hd.silent, hd.once, fun hc => Or.inr ?_⟩
    have hbound := hd.bounded hc
    have hmod := Nat.mod_le (d.pos + 1) (2 ^ 32)
    simp only [store]
    omega
  · intro d hd hn hp
    have hlive : d.consumer ≠ .discard := fun hc => by have := hd.bounded hc; omega
    refine ⟨fun hc => absurd rfl hc, ?_, fun _ => Or.inl rfl⟩
    have hcalls : d.overflow.callbacks = d.callbacks ++ [.bufferOverflow] := by
      simp [callbacks, overflow, Call.isCallback]
    rw [hcalls, hd.silent hlive]
    exact Nat.le_refl 1
  · intro d hd _ hc
    exact hd.headerConsumer (by simp [hc])
  · intro d hd hc
    exact ⟨fun hlive => absurd hc hlive, hd.once, fun _ => Or.inr (by simp [discard])⟩
  · intro d e k hd h0 hc ho
    exact hd.outcome (by simp [hc]) h0 ho

theorem oneMessage_fresh (cfg : Config) (deviceId : B7) (group : Byte) :
    OneMessage cfg (fresh cfg deviceId group) :=
  oneMessage_of_silent (by simp [fresh]) rfl

theorem OneMessage.discarding (h : OneMessage cfg d) (hc : d.consumer = .discard) :
    Discarding cfg d :=
  ⟨hc, h.bounded hc⟩

/-! ## The destination -/

/-- The destination is everybody, or `check_muid` has said that it is us. -/
def ForUs (group : Byte) (muid : Muid) (calls : List Call) : Prop :=
  muid = broadcastMuid ∨ Call.checkMuid group muid true ∈ calls

theorem ForUs.append {group : Byte} {muid : Muid} {calls : List Call} (more : List Call)
    (h : ForUs group muid calls) : ForUs group muid (calls ++ more) :=
  h.imp_right (List.mem_append_left more)

/-- The header has been read as `hdr`; a handler and a delivered message mean that it is
for us. -/
structure Addressed (group : Byte) (hdr : Header) (d : Dispatcher) : Prop where
  past : d.consumer ≠ .header
  sameHeader : d.header = hdr
  sameGroup : d.group = group
  handler : ∀ h, d.consumer = .handler h → ForUs group hdr.localMuid d.calls
  message : ∀ c ∈ d.calls, c.isMessage = true → ForUs group hdr.localMuid d.calls
  passed : ∀ c ∈ d.calls, ∀ h, c.header? = some h → h = hdr

variable {group : Byte} {hdr : Header}

/-- A callback leaves a dispatcher addressed when it passes on the header that was read and,
if it delivers a message, the message is for us. -/
theorem Addressed.call (h : Addressed group hdr d) (c : Call)
    (hmessage : c.isMessage = true → ForUs group hdr.localMuid d.calls)
    (hpassed : ∀ k, c.header? = some k → k = hdr)
    (he : e.consumer = .discard) (hheader : e.header = d.header) (hgroup : e.group = d.group)
    (hcalls : e.calls = d.calls ++ [c]) : Addressed group hdr e where
  past := by simp [he]
  sameHeader := hheader.trans h.sameHeader
  sameGroup := hgroup.trans h.sameGroup
  handler k hk := by rw [he] at hk; cases hk
  message k hk hmsg := by
    rw [hcalls] at hk ⊢
    rcases List.mem_append.1 hk with hk | hk
    · exact (h.message k hk hmsg).append _
    · obtain rfl := List.mem_singleton.1 hk
      exact (hmessage hmsg).append _
  passed k hk := by
    rw [hcalls] at hk
    rcases List.mem_append.1 hk with hk | hk
    · exact h.passed k hk
    · obtain rfl := List.mem_singleton.1 hk
      exact hpassed

theorem Addressed.outcome (h : Addressed group hdr d) {k : Handler}
    (hk : d.consumer = .handler k) (ho : Outcome d e) : Addressed group hdr e := by
  cases ho with
  | more n => exact ⟨h.past, h.sameHeader, h.sameGroup, h.handler, h.message, h.passed⟩
  | deliver m =>
      refine h.call (.message d.header m d.pos d.buffer) (fun _ => h.handler k hk) ?_ rfl rfl rfl
        rfl
      intro j hj
      rw [← h.sameHeader]
      exact (Option.some.inj hj).symm
  | giveUp =>
      exact ⟨by simp [giveUp], h.sameHeader, h.sameGroup, (fun _ hc => by cases hc), h.message,
        h.passed⟩

theorem Addressed.run {bs : List Byte} (h : Addressed group hdr d) :
    Addressed group hdr (d.run cfg bs) := by
  refine run_preserves ?_ ?_ ?_ ?_ ?_ h
  · exact fun d b hd _ _ =>
      ⟨hd.past, hd.sameHeader, hd.sameGroup, hd.handler, hd.message, hd.passed⟩
  · exact fun d hd _ _ =>
      hd.call .bufferOverflow (fun hc => by cases hc) (fun _ hc => by cases hc) rfl rfl rfl rfl
  · exact fun d hd _ hc => absurd hc hd.past
  · exact fun d hd _ => ⟨hd.past, hd.sameHeader, hd.sameGroup, hd.handler, hd.message, hd.passed⟩
  · exact fun d e k hd _ hc ho => hd.outcome hc ho

/-- Reading the header of a dispatcher that has made no calls establishes the invariant. -/
theorem addressed_headerConsumer (hcalls : d.calls = []) :
    Addressed d.group d.readHeader.header (d.headerConsumer cfg) := by
  have hread : d.readHeader.calls = [] := hcalls
  have hpos : ∀ {e : Dispatcher} {hdr : Header}, Addressed d.group hdr e →
      Addressed d.group hdr { e with pos := 0 } :=
    fun he => ⟨he.past, he.sameHeader, he.sameGroup, he.handler, he.message, he.passed⟩
  rcases headerConsumer_cases cfg d with ⟨_, heq⟩ | ⟨info, answer, e, _, haccept, heq⟩
  · rw [heq]
    refine hpos ⟨by simp [unknown], rfl, rfl, (fun _ hc => by cases hc), ?_, ?_⟩
    all_goals
      intro c hc
      simp only [unknown, hread, List.nil_append, List.mem_singleton] at hc
      subst hc
    · exact fun hmsg => by cases hmsg
    · exact fun _ hh => (Option.some.inj hh).symm
  · -- Before a handler is installed, the only call is the question to `check_muid`.
    have hask : e.header = d.readHeader.header ∧ e.group = d.group ∧
        (∀ c ∈ e.calls, c.isMessage = false ∧ c.header? = none) ∧
        (answer = true → ForUs d.group d.readHeader.header.localMuid e.calls) := by
      rcases accept_cases cfg d.readHeader with ⟨hbroadcast, h⟩ | ⟨_, a, _, h⟩
      all_goals
        rw [h] at haccept
        obtain ⟨rfl, rfl⟩ := Prod.mk.inj haccept
      · exact ⟨rfl, rfl, by simp [hread], fun _ => Or.inl hbroadcast⟩
      · refine ⟨rfl, rfl, ?_, ?_⟩
        · simp [hread, Call.isMessage, Call.header?]
        · rintro rfl
          exact Or.inr (by simp [readHeader])
    obtain ⟨hheader, hgroup, hquiet, hfor⟩ := hask
    have hnone : ∀ c ∈ e.calls, c.isMessage = true → ForUs d.group
        d.readHeader.header.localMuid e.calls := by
      intro c hc hmsg
      rw [(hquiet c hc).1] at hmsg
      cases hmsg
    have hpassed : ∀ c ∈ e.calls, ∀ h, c.header? = some h → h = d.readHeader.header := by
      intro c hc h hh
      rw [(hquiet c hc).2] at hh
      cases hh
    rw [heq]
    refine hpos ?_
    cases answer with
    | false => exact ⟨by simp [reject], hheader, hgroup, (fun _ hc => by cases hc), hnone, hpassed⟩
    | true =>
        have hlive : Addressed d.group d.readHeader.header { e with
            consumer := .handler info.consumer, count := info.size e.header.version } :=
          ⟨by simp, hheader, hgroup, fun _ _ => hfor rfl, hnone, hpassed⟩
        simp only [Dispatcher.install, if_true]
        split
        · exact hlive.outcome rfl (handle_outcome _ _)
        · exact hlive

/-- After thirteen bytes or more the header has been read; before that nothing is called. -/
theorem addressed_run_fresh (cfg : Config) (deviceId : B7) (group : Byte) (bs : List Byte) :
    (bs.length < 13 ∧ ((fresh cfg deviceId group).run cfg bs).calls = []) ∨
    (13 ≤ bs.length ∧
      Addressed group (receivedHeader deviceId bs) ((fresh cfg deviceId group).run cfg bs)) := by
  rcases Nat.lt_or_ge bs.length 13 with hlt | hge
  · rw [run_fresh_short hlt]
    exact Or.inl ⟨hlt, rfl⟩
  · obtain ⟨hd, rest, rfl, hlen⟩ := exists_header hge
    have haddressed := @addressed_headerConsumer cfg (collected cfg deviceId group hd) rfl
    rw [readHeader_collected hlen, ← run_fresh hlen] at haddressed
    rw [receivedHeader_append deviceId rest hlen, run_append]
    exact Or.inr ⟨hge, haddressed.run⟩

end Dispatcher

open Dispatcher

/-- The one-message protocol of a dispatcher, for every sequence of seven-bit bytes. -/
theorem dispatcher_one_message (cfg : Config) (deviceId : B7) (group : Byte) (bs : List B7) :
    let d := (fresh cfg deviceId group).run cfg (bs.map B7.toByte)
    let muid := (receivedHeader deviceId (bs.map B7.toByte)).localMuid
    d.callbacks.length ≤ 1 ∧
    (d.consumer = .discard → ∀ cs : List B7, (d.run cfg (cs.map B7.toByte)).calls = d.calls) ∧
    ∀ hdr m pos memory, Call.message hdr m pos memory ∈ d.calls →
      13 ≤ bs.length ∧ hdr.localMuid = muid ∧
        (muid = broadcastMuid ∨ Call.checkMuid group muid true ∈ d.calls) := by
  intro d muid
  have hone : OneMessage cfg d := (oneMessage_fresh cfg deviceId group).run
  refine ⟨hone.once, fun hc cs => (hone.discarding hc).run.2, ?_⟩
  intro hdr m pos memory hmem
  rcases addressed_run_fresh cfg deviceId group (bs.map B7.toByte) with
    ⟨_, hnone⟩ | ⟨hlen, haddressed⟩
  · rw [show d.calls = [] from hnone] at hmem
    cases hmem
  · refine ⟨by simpa using hlen, ?_, haddressed.message _ hmem rfl⟩
    rw [haddressed.passed _ hmem hdr rfl]

end Midi2.Ci
