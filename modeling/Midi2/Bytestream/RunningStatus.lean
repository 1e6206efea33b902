import Midi2.Bytestream.ToBytestream

/-!
# Running status (`bytestream/ump_to_bytestream.hpp`)

MIDI 1.0 has running status for channel voice messages only: `ProperStatus` says what this
means for a message and the messages before it. `push_back` goes further and leaves out any
status that is repeated, real time ones apart. Which ones these are can be read off the messages:
`lastStatus` is the status that the encoder has (`encoder_status`). So the stream is proper if
and only if every system common and every system exclusive message begins with a new status
(`properStatus_iff`).
-/

namespace Midi2.Bytestream.ToBytestream

open Adt Ump

/-! ## The bytes of a message -/

/-- The bytes that come out for a message that is pushed after others. -/
def sent (groups : BitVec 16) (pre : List Packet) (p : Packet) : List Byte :=
  (run { onlyGroups := groups } ((pre ++ [p]).flatMap Packet.words)).2.drop
    (run { onlyGroups := groups } (pre.flatMap Packet.words)).2.length

theorem run_concat (groups : BitVec 16) (pre : List Packet) (p : Packet) :
    (run { onlyGroups := groups } ((pre ++ [p]).flatMap Packet.words)).2 =
      (run { onlyGroups := groups } (pre.flatMap Packet.words)).2 ++ sent groups pre p ∧
    sent groups pre p = (encoder.step (encoder.run { onlyGroups := groups } pre).1 p).2 := by
  have hstep : (run { onlyGroups := groups } ((pre ++ [p]).flatMap Packet.words)).2 =
      (run { onlyGroups := groups } (pre.flatMap Packet.words)).2 ++
        (encoder.step (encoder.run { onlyGroups := groups } pre).1 p).2 := by
    rw [(run_words _ _).2, (run_words _ _).2, Machine.run_append, Machine.run_singleton]
  have hsent : sent groups pre p =
      (encoder.step (encoder.run { onlyGroups := groups } pre).1 p).2 := by
    rw [sent, hstep, List.drop_left]
  exact ⟨by rw [hsent, hstep], hsent⟩

/-! ## What MIDI 1.0 allows -/

/-- The status of a channel voice message. -/
def voiceStatus (p : Packet) : Option Byte :=
  match p.message.call.callback with
  | .m1cvm s => some (channelBlock s p.message).header
  | _ => none

/-- The message is in the byte stream, and it is not a real time message. -/
def Appears (groups : BitVec 16) (pre : List Packet) (p : Packet) : Prop :=
  realTime p = false ∧ sent groups pre p ≠ []

/-- `q` is the last message in the byte stream, real time messages aside. -/
def Precedes (groups : BitVec 16) (q : Packet) (pre : List Packet) : Prop :=
  Machine.Since (fun before r => ¬Appears groups before r)
    (fun before r => r = q ∧ Appears groups before r) pre

/-- The last byte of a stream, ignoring F8 to FF. -/
def lastByte (bytes : List Byte) : Option Byte :=
  (bytes.filter fun b => b < Status.timingClock.toByte).getLast?

structure ProperStatus (groups : BitVec 16) (pre : List Packet) (p : Packet) : Prop where
  /-- The data of a system common message come directly after its status. -/
  common : ∀ s, p.message.call.callback = .system s → ∃ head data,
    sent groups pre p = head ++ data ∧ (∀ b ∈ head, isStatusByte b = true) ∧
    (∀ b ∈ data, isStatusByte b = false) ∧
    (data ≠ [] → lastByte ((run { onlyGroups := groups } (pre.flatMap Packet.words)).2 ++ head) =
      some (byte s.toNat))
  /-- A status is left out only if it is that of a channel voice message and of the message
  before. -/
  elided : sent groups pre p =
      tokens (run { onlyGroups := groups } (pre.flatMap Packet.words)).1.state p.message.call ∨
    ∃ b q, voiceStatus p = some b ∧ Precedes groups q pre ∧ voiceStatus q = some b ∧
      b :: sent groups pre p =
        tokens (run { onlyGroups := groups } (pre.flatMap Packet.words)).1.state p.message.call

/-! ## The last status -/

/-- The message is filtered. -/
def filtered (groups : BitVec 16) (p : Packet) : Bool :=
  ({ onlyGroups := groups } : State).filterMessage (p.message.get .group)

/-- The status that a message begins with, unless it is a real time one. -/
def leadingStatus (groups : BitVec 16) (p : Packet) : Option Byte :=
  if filtered groups p then none
  else
    match p.message.call.callback with
    | .system s => if realTime p then none else some (byte s.toNat)
    | .m1cvm s => some (channelBlock s p.message).header
    | .data64 .sysex7In1 =>
        if p.message.get Data64.numberOfBytes > 0 then some Data64.sysexStart else none
    | .data64 .sysex7Start => some Data64.sysexStart
    | _ => none

/-- The last status after a message. -/
def statusAfter (groups : BitVec 16) (last : Option Byte) (p : Packet) : Option Byte :=
  match p.message.call.callback with
  | .data64 .sysex7In1 =>
      if (leadingStatus groups p).isSome then some Data64.sysexStop else last
  | .data64 .sysex7End =>
      if filtered groups p = false ∧ last = some Data64.sysexStart then some Data64.sysexStop
      else last
  | _ => (leadingStatus groups p).or last

/-- The last status of messages that all have their status, real time messages aside. -/
def lastStatus (groups : BitVec 16) (ps : List Packet) : Option Byte :=
  ps.foldl (statusAfter groups) none

/-- A message that begins with a system common status or with F0 begins with another status
than the last one. -/
def NewStatus (groups : BitVec 16) (pre : List Packet) (p : Packet) : Prop :=
  ∀ b, leadingStatus groups p = some b → voiceStatus p = none → lastStatus groups pre ≠ some b

/-! ## The encoder -/

theorem tokens_eq (state : State) (p : Packet) :
    tokens state p.message.call =
      if filtered state.onlyGroups p then []
      else
        match p.message.call.callback with
        | .system s => (systemBlock s p.message).tokens
        | .m1cvm s => (channelBlock s p.message).tokens
        | .data64 s => sysexTokens state.status s p.message
        | _ => [] := by
  cases hs : p.message.call.callback with
  | system s => rw [tokens, Message.call_eq hs Callback.noConfusion]; rfl
  | m1cvm s => rw [tokens, Message.call_eq hs Callback.noConfusion]; rfl
  | data64 s => rw [tokens, Message.call_eq hs Callback.noConfusion]; rfl
  | _ => simp only [tokens, hs, ite_self]

theorem sysexBytes_data (m : Message) : ∀ b ∈ sysexBytes m, isStatusByte b = false := by
  refine data_of_fields fun f hf => ?_
  have hall : ∀ f ∈ [Data64.data0, Data64.data1, Data64.data2, Data64.data3, Data64.data4,
      Data64.data5], f.range.bits = 7 := by decide
  exact hall f (List.mem_of_mem_take hf)

theorem elide_sysexStart (status : Option Byte) (bytes : List Byte) :
    alphabet.elide.run status (Data64.sysexStart :: bytes) =
      ((alphabet.elide.run (some Data64.sysexStart) bytes).1,
        (if status = some Data64.sysexStart then [] else [Data64.sysexStart]) ++
          (alphabet.elide.run (some Data64.sysexStart) bytes).2) :=
  Elision.Alphabet.elide_header rfl rfl status bytes

theorem elide_sysexBytes (status : Option Byte) (m : Message) :
    alphabet.elide.run status (sysexBytes m) = (status, sysexBytes m) :=
  Elision.Alphabet.elide_data status (sysexBytes_data m)

/-- The end of a system exclusive message is always sent. -/
theorem elide_sysexStop (m : Message) :
    alphabet.elide.run (some Data64.sysexStart) (sysexBytes m ++ [Data64.sysexStop]) =
      (some Data64.sysexStop, sysexBytes m ++ [Data64.sysexStop]) := by
  rw [Machine.run_append, elide_sysexBytes]
  rfl

section Step

variable (last : Option Byte) {p : Packet}

theorem leadingStatus_system {groups : BitVec 16} (hf : filtered groups p = false)
    {s : Mt.SystemCrt} (hs : p.message.call.callback = .system s) :
    leadingStatus groups p = if realTime p then none else some (byte s.toNat) := by
  rw [leadingStatus, hf, hs]
  rfl

theorem elide_system {s : Mt.SystemCrt} (hs : p.message.call.callback = .system s) :
    alphabet.elide.run last (systemBlock s p.message).tokens =
      if realTime p then (last, (systemBlock s p.message).tokens)
      else (some (byte s.toNat), if last = some (byte s.toNat) then
        (systemBlock s p.message).data else (systemBlock s p.message).tokens) := by
  have hrt : alphabet.passing (systemBlock s p.message).header = realTime p := by
    rw [realTime, hs]
    rfl
  have hstep := Elision.Alphabet.encode_step (formed_systemBlock s p.message) last
  rw [hrt] at hstep
  exact hstep

theorem elide_m1cvm (s : Mt.M1cvm) (m : Message) :
    alphabet.elide.run last (channelBlock s m).tokens =
      (some (channelBlock s m).header, if last = some (channelBlock s m).header then
        (channelBlock s m).data else (channelBlock s m).tokens) := by
  have hrt : alphabet.passing (channelBlock s m).header = false := (channelBlock_header s m).2.2.1
  have hstep := Elision.Alphabet.encode_step (formed_channelBlock s m) last
  rw [hrt] at hstep
  exact hstep

theorem elide_data64 (s : Mt.Data64) (m : Message) :
    alphabet.elide.run last (sysexTokens last s m) =
      match s with
      | .sysex7In1 =>
          if m.get Data64.numberOfBytes > 0 then
            (some Data64.sysexStop, if last = some Data64.sysexStart then
              sysexBytes m ++ [Data64.sysexStop]
            else Data64.sysexStart :: (sysexBytes m ++ [Data64.sysexStop]))
          else (last, [])
      | .sysex7Start =>
          (some Data64.sysexStart, if last = some Data64.sysexStart then sysexBytes m
            else Data64.sysexStart :: sysexBytes m)
      | .sysex7Continue =>
          (last, if last = some Data64.sysexStart then sysexBytes m else [])
      | .sysex7End =>
          if last = some Data64.sysexStart then
            (some Data64.sysexStop, sysexBytes m ++ [Data64.sysexStop])
          else (last, []) := by
  cases s with
  | sysex7In1 =>
      simp only [sysexTokens]
      split
      case isTrue =>
        rw [elide_sysexStart, elide_sysexStop]
        split <;> rfl
      case isFalse => rfl
  | sysex7Start =>
      simp only [sysexTokens]
      rw [elide_sysexStart, elide_sysexBytes]
      split <;> rfl
  | sysex7Continue =>
      simp only [sysexTokens]
      split
      case isTrue => exact elide_sysexBytes _ _
      case isFalse => rfl
  | sysex7End =>
      simp only [sysexTokens]
      split
      case isTrue hs => rw [hs, elide_sysexStop]
      case isFalse => rfl

end Step

theorem statusAfter_of_filtered {groups : BitVec 16} {p : Packet} (hf : filtered groups p = true)
    (status : Option Byte) : statusAfter groups status p = status := by
  have hleading : leadingStatus groups p = none := by rw [leadingStatus, hf]; rfl
  unfold statusAfter
  rw [hleading, hf]
  split <;> rfl

/-- The status that a message begins with is left out if it is the last one. -/
theorem elide_tokens (state : State) (p : Packet) :
    alphabet.elide.run state.status (tokens state p.message.call) =
      (statusAfter state.onlyGroups state.status p,
        if (leadingStatus state.onlyGroups p).isSome ∧
            state.status = leadingStatus state.onlyGroups p then
          (tokens state p.message.call).tail
        else tokens state p.message.call) := by
  rw [tokens_eq]
  cases hf : filtered state.onlyGroups p with
  | true =>
      rw [statusAfter_of_filtered hf, if_pos rfl, List.tail_nil, ite_self]
      rfl
  | false =>
      rw [if_neg Bool.false_ne_true]
      cases hs : p.message.call.callback with
      | system s =>
          simp only [statusAfter, hs, leadingStatus_system hf hs, elide_system state.status hs]
          cases realTime p with
          | true => rfl
          | false => simp [Elision.Block.tokens]
      | m1cvm s =>
          have hleading : leadingStatus state.onlyGroups p =
              some (channelBlock s p.message).header := by
            rw [leadingStatus, hf, hs]
            rfl
          simp only [statusAfter, hs, hleading, elide_m1cvm]
          simp [Elision.Block.tokens]
      | data64 s =>
          simp only [statusAfter, hs, elide_data64, leadingStatus, hf]
          cases s with
          | sysex7In1 =>
              by_cases hn : p.message.get Data64.numberOfBytes > 0
              · simp [hn, sysexTokens]
              · simp [hn, sysexTokens]
          | sysex7Start => simp [sysexTokens]
          | sysex7Continue => simp [sysexTokens]
          | sysex7End =>
              by_cases hlast : state.status = some Data64.sysexStart
              · simp [hlast, sysexTokens]
              · simp [hlast, sysexTokens]
      | _ =>
          simp only [statusAfter, hs, leadingStatus, hf]
          rfl

/-- What the encoder does with a message. -/
theorem encoder_step (state : State) (p : Packet) :
    encoder.step state p =
      ({ state with status := statusAfter state.onlyGroups state.status p },
        if (leadingStatus state.onlyGroups p).isSome ∧
            state.status = leadingStatus state.onlyGroups p then
          (tokens state p.message.call).tail
        else tokens state p.message.call) := by
  show (({ state with status := (alphabet.elide.run _ _).1 } : State),
    (alphabet.elide.run _ _).2) = _
  rw [elide_tokens]

theorem encoder_status (groups : BitVec 16) (ps : List Packet) :
    (encoder.run { onlyGroups := groups } ps).1 =
      { onlyGroups := groups, status := lastStatus groups ps } := by
  induction ps using List.reverseRecOn with
  | nil => rfl
  | append_singleton ps p ih =>
      rw [Machine.run_append, Machine.run_singleton, encoder_step, ih, lastStatus, lastStatus,
        List.foldl_append]
      rfl

section Sent

variable {groups : BitVec 16} {pre : List Packet} {p : Packet}

theorem run_state (groups : BitVec 16) (pre : List Packet) :
    (run { onlyGroups := groups } (pre.flatMap Packet.words)).1.state =
      { onlyGroups := groups, status := lastStatus groups pre } := by
  rw [(run_words _ _).1, encoder_status]

/-- The bytes of a message that is written in full, if some others are before it. -/
def fullBytes (groups : BitVec 16) (pre : List Packet) (p : Packet) : List Byte :=
  tokens { onlyGroups := groups, status := lastStatus groups pre } p.message.call

theorem sent_run (groups : BitVec 16) (pre : List Packet) (p : Packet) :
    alphabet.elide.run (lastStatus groups pre) (fullBytes groups pre p) =
      (lastStatus groups (pre ++ [p]), sent groups pre p) := by
  have hstatus := encoder_status groups (pre ++ [p])
  rw [Machine.run_append, Machine.run_singleton, encoder_status] at hstatus
  have hsent := (run_concat groups pre p).2
  rw [encoder_status] at hsent
  rw [hsent]
  exact Prod.ext (congrArg State.status hstatus) rfl

theorem sent_eq (groups : BitVec 16) (pre : List Packet) (p : Packet) :
    sent groups pre p =
      if (leadingStatus groups p).isSome ∧ lastStatus groups pre = leadingStatus groups p then
        (fullBytes groups pre p).tail
      else fullBytes groups pre p := by
  rw [(run_concat groups pre p).2, encoder_status, encoder_step]
  rfl

theorem fullBytes_of_leadingStatus {b : Byte} (h : leadingStatus groups p = some b) :
    fullBytes groups pre p = b :: (fullBytes groups pre p).tail := by
  rw [fullBytes, tokens_eq]
  unfold leadingStatus at h
  split at h
  case isTrue => cases h
  case isFalse hf =>
    rw [if_neg hf]
    split at h
    case h_1 s hs =>
      rw [hs]
      split at h
      case isTrue => cases h
      case isFalse =>
        obtain rfl := Option.some.inj h
        rfl
    case h_2 s hs =>
      rw [hs]
      obtain rfl := Option.some.inj h
      rfl
    case h_3 hs =>
      rw [hs]
      split at h
      case isTrue hn =>
        obtain rfl := Option.some.inj h
        simp only [sysexTokens, if_pos hn]
        rfl
      case isFalse => cases h
    case h_4 hs =>
      rw [hs]
      obtain rfl := Option.some.inj h
      rfl
    case h_5 => cases h

theorem leadingStatus_of_voiceStatus {b c : Byte} (hc : voiceStatus p = some c)
    (hb : leadingStatus groups p = some b) : b = c ∧ c < Status.sysexStart.toByte := by
  unfold voiceStatus at hc
  split at hc
  case h_1 s hs =>
    obtain rfl := Option.some.inj hc
    refine ⟨?_, (channelBlock_header s p.message).2.2.2⟩
    rw [leadingStatus, hs] at hb
    split at hb
    case isTrue => cases hb
    case isFalse => exact (Option.some.inj hb).symm
  case h_2 => cases hc

/-- The status changes only with a message that appears in the stream. -/
theorem statusAfter_of_not_appears (h : ¬Appears groups pre p) :
    statusAfter groups (lastStatus groups pre) p = lastStatus groups pre := by
  cases hrt : realTime p with
  | true =>
      unfold realTime at hrt
      split at hrt
      case h_1 s hs =>
        have hleading : leadingStatus groups p = none := by
          have hrt' : realTime p = true := by rw [realTime, hs]; exact hrt
          rw [leadingStatus, hs, hrt']
          exact ite_self none
        simp only [statusAfter, hs, hleading, Option.none_or]
      case h_2 => cases hrt
  | false =>
      have hsent : sent groups pre p = [] := not_not.1 fun hsent => h ⟨hrt, hsent⟩
      have hrun := sent_run groups pre p
      have hsame : (alphabet.elide.run _ (fullBytes groups pre p)).1 = lastStatus groups pre :=
        Elision.Alphabet.elide_eq_nil (by rw [hrun, hsent])
      rw [hrun, lastStatus, List.foldl_append] at hsame
      exact hsame

/-- After a message that appears in the stream the status is one from F0 on, unless it is a
channel voice message. -/
theorem voiceStatus_of_appears (h : Appears groups pre p) {b : Byte}
    (hb : b < Status.sysexStart.toByte)
    (hafter : statusAfter groups (lastStatus groups pre) p = some b) : voiceStatus p = some b := by
  obtain ⟨hrt, hsent⟩ := h
  have hfull : fullBytes groups pre p ≠ [] := by
    intro hnil
    rw [sent_eq, hnil] at hsent
    exact hsent (ite_self _)
  have hne {c : Byte} (hc : Status.sysexStart.toByte ≤ c) : some c ≠ some b := by
    intro heq
    rw [Option.some.inj heq] at hc
    exact absurd hb (BitVec.not_lt.2 hc)
  rw [fullBytes, tokens_eq] at hfull
  cases hf : filtered groups p with
  | true => exact absurd (if_pos hf) hfull
  | false =>
      rw [if_neg (by rw [hf]; exact Bool.false_ne_true)] at hfull
      cases hs : p.message.call.callback with
      | system s =>
          simp only [statusAfter, hs, leadingStatus_system hf hs, hrt] at hafter
          exact absurd hafter (hne (by cases s <;> decide))
      | m1cvm s =>
          simp only [statusAfter, hs, leadingStatus, hf] at hafter
          simp only [voiceStatus, hs]
          exact hafter
      | data64 s =>
          simp only [hs] at hfull
          simp only [statusAfter, hs, leadingStatus, hf] at hafter
          cases s with
          | sysex7In1 =>
              have hn : p.message.get Data64.numberOfBytes > 0 := by
                by_contra hn
                exact hfull (if_neg hn)
              simp only [if_pos hn] at hafter
              exact absurd hafter (hne (by decide))
          | sysex7Start => exact absurd hafter (hne (by decide))
          | sysex7Continue =>
              have hlast : lastStatus groups pre = some Data64.sysexStart := by
                by_contra hlast
                exact hfull (if_neg hlast)
              rw [hlast] at hafter
              exact absurd hafter (hne (by decide))
          | sysex7End =>
              have hlast : lastStatus groups pre = some Data64.sysexStart := by
                by_contra hlast
                exact hfull (if_neg hlast)
              rw [hlast] at hafter
              exact absurd hafter (hne (by decide))
      | _ =>
          rw [hs] at hfull
          exact absurd rfl hfull

theorem precedes_of_lastStatus {b : Byte} (hb : b < Status.sysexStart.toByte)
    (hlast : lastStatus groups pre = some b) :
    ∃ q, Precedes groups q pre ∧ voiceStatus q = some b := by
  induction pre using List.reverseRecOn with
  | nil => cases hlast
  | append_singleton pre p ih =>
      rw [lastStatus, List.foldl_append] at hlast
      have hafter : statusAfter groups (lastStatus groups pre) p = some b := hlast
      by_cases happears : Appears groups pre p
      · exact ⟨p, Machine.since_concat.2 (Or.inl ⟨rfl, happears⟩),
          voiceStatus_of_appears happears hb hafter⟩
      · rw [statusAfter_of_not_appears happears] at hafter
        obtain ⟨q, hq, hstatus⟩ := ih hafter
        exact ⟨q, Machine.since_concat.2 (Or.inr ⟨happears, hq⟩), hstatus⟩

/-- With a new status the message is sent in full. -/
theorem sent_of_newStatus (h : NewStatus groups pre p) (hvoice : voiceStatus p = none) :
    sent groups pre p = fullBytes groups pre p := by
  rw [sent_eq, if_neg]
  rintro ⟨hsome, hlast⟩
  obtain ⟨b, hb⟩ := Option.isSome_iff_exists.1 hsome
  exact h b hb hvoice (hlast.trans hb)

/-- A message is properly sent if and only if its status is new. -/
theorem properStatus_iff_newStatus : ProperStatus groups pre p ↔ NewStatus groups pre p := by
  constructor
  · intro hproper b hleading hvoice hlast
    have hsent : sent groups pre p = (fullBytes groups pre p).tail := by
      rw [sent_eq, if_pos ⟨Option.isSome_iff_exists.2 ⟨b, hleading⟩, hlast.trans hleading.symm⟩]
    rcases hproper.elided with hfull | ⟨c, q, hc, -⟩
    · rw [run_state, hsent] at hfull
      have hlen := congrArg List.length (hfull.trans (fullBytes_of_leadingStatus hleading))
      rw [List.length_cons] at hlen
      omega
    · rw [hvoice] at hc
      cases hc
  · intro hnew
    constructor
    case common =>
      intro s hs
      have hvoice : voiceStatus p = none := by rw [voiceStatus, hs]
      rw [sent_of_newStatus hnew hvoice, fullBytes, tokens_eq, hs]
      split
      case isTrue =>
        exact ⟨[], [], rfl, by simp, by simp, fun hne => absurd rfl hne⟩
      case isFalse =>
        have hformed := formed_systemBlock s p.message
        refine ⟨[byte s.toNat], (systemBlock s p.message).data, rfl,
          List.forall_mem_singleton.2 hformed.header, hformed.data, fun hne => ?_⟩
        have hlt : byte s.toNat < Status.timingClock.toByte := by
          cases s <;> first | decide | exact absurd rfl hne
        rw [lastByte, List.filter_append, List.filter_singleton, decide_eq_true hlt]
        exact List.getLast?_concat
    case elided =>
      rw [run_state, sent_eq]
      split
      case isTrue h =>
        obtain ⟨b, hb⟩ := Option.isSome_iff_exists.1 h.1
        have hlast : lastStatus groups pre = some b := h.2.trans hb
        cases hvoice : voiceStatus p with
        | none => exact absurd hlast (hnew b hb hvoice)
        | some c =>
            obtain ⟨rfl, hlt⟩ := leadingStatus_of_voiceStatus hvoice hb
            obtain ⟨q, hq, hstatus⟩ := precedes_of_lastStatus hlt hlast
            exact Or.inr ⟨b, q, rfl, hq, hstatus, (fullBytes_of_leadingStatus hb).symm⟩
      case isFalse => exact Or.inl rfl

end Sent

/-- Running status is only used as MIDI 1.0 allows if and only if each system common and each
system exclusive message begins with another status than the last one. -/
theorem properStatus_iff (groups : BitVec 16) (ps : List Packet) :
    Machine.AtEachStep (ProperStatus groups) ps ↔ Machine.AtEachStep (NewStatus groups) ps :=
  Machine.atEachStep_congr fun _ _ _ => properStatus_iff_newStatus

/-- Of two time codes the second one is sent without its status. -/
theorem timingCode_repeated : ¬∀ groups ps, Machine.AtEachStep (ProperStatus groups) ps := by
  intro h
  have hproper := h 0xFFFF [{ message := ⟨[0x10F10100]⟩ }, { message := ⟨[0x10F10200]⟩ }]
    [{ message := ⟨[0x10F10100]⟩ }] { message := ⟨[0x10F10200]⟩ } (List.prefix_refl _)
  rcases hproper.elided with hfull | ⟨b, q, hvoice, -⟩
  · revert hfull
    decide +kernel
  · exact Option.some_ne_none b hvoice.symm

end Midi2.Bytestream.ToBytestream
