import Midi2.Bytestream.RunningStatus

/-!
# System exclusive messages of several groups (`bytestream/ump_to_bytestream.hpp`)

Each group has its own system exclusive messages, and the messages of different groups may be
interleaved. The byte stream has one F0 and one F7 at a time, and `to_bytestream` has one status
for all groups. `tagger` is the byte stream in which each payload byte has the message that it
is part of, and `Unmixed` says that what is between F0 and the next status is the payload of one
message. This is the case if and only if no data arrive while data of another message are in the
system exclusive that is open (`unmixed_iff`).
-/

namespace Midi2.Bytestream.ToBytestream

open Adt Ump

/-! ## Messages and their payload -/

def sysex7? (p : Packet) : Option Mt.Data64 :=
  match p.message.call.callback with
  | .data64 s => some s
  | _ => none

/-- The payload of a packet of a system exclusive message. -/
def payload (p : Packet) : List Byte :=
  if (sysex7? p).isSome then sysexBytes p.message else []

/-- The packet is the first one of a system exclusive message. -/
def begins (p : Packet) : Bool :=
  sysex7? p == some .sysex7In1 || sysex7? p == some .sysex7Start

/-- A system exclusive message: the messages of a group are numbered. -/
structure SysexId where
  group : Nat
  number : Nat
  deriving DecidableEq

/-- The message that a packet is part of, if some packets are before it. -/
def sysexId (pre : List Packet) (p : Packet) : SysexId where
  group := p.message.get .group
  number := (pre ++ [p]).countP fun q =>
    q.message.get .group == p.message.get .group && begins q

/-- The system exclusive messages of a group are whole ones, one after the other. -/
inductive WellFormed : List Mt.Data64 → Prop where
  | nil : WellFormed []
  | single {ss} : WellFormed ss → WellFormed (.sysex7In1 :: ss)
  | multiple (n : Nat) {ss} : WellFormed ss →
      WellFormed (.sysex7Start :: (List.replicate n .sysex7Continue ++ .sysex7End :: ss))

/-- The packets of the system exclusive messages of a group. -/
def sysex7Of (g : Nat) (ps : List Packet) : List Mt.Data64 :=
  ps.filterMap fun p => if p.message.get .group = g then sysex7? p else none

/-! ## The tagged stream -/

/-- A byte, and the message that it is payload of. -/
abbrev Tagged := Byte × Option SysexId

def tag (pre : List Packet) (p : Packet) (b : Byte) : Tagged :=
  (b, if (sysex7? p).isSome && !isStatusByte b then some (sysexId pre p) else none)

/-- The byte stream without group filter. The state are the packets so far. -/
def tagger : Machine Packet Tagged (List Packet) where
  step pre p := (pre ++ [p], (sent 0xFFFF pre p).map (tag pre p))

/-- The last status of a stream, real time ones aside, and the tags of the data after it. -/
structure Span where
  status : Option Byte := none
  tags : List (Option SysexId) := []

def Span.add (s : Span) (y : Tagged) : Span :=
  if isSystemRealTimeMessage y.1 then s
  else if isStatusByte y.1 then { status := some y.1 }
  else { s with tags := s.tags ++ [y.2] }

def span (bytes : List Tagged) : Span :=
  bytes.foldl Span.add {}

/-- The next byte of a stream does not mix messages. -/
structure Unmixed (pre : List Tagged) (y : Tagged) : Prop where
  /-- Payload is between F0 and the next status. -/
  inside : y.2 ≠ none → (span pre).status = some Data64.sysexStart
  /-- Data between F0 and the next status are payload of one message. -/
  one : isStatusByte y.1 = false → (span pre).status = some Data64.sysexStart →
    ∃ id, y.2 = some id ∧ ∀ t ∈ (span pre).tags, t = some id

/-! ## The condition -/

/-- After the packet a system exclusive message is open. -/
def Opened (pre : List Packet) (p : Packet) : Prop :=
  lastStatus 0xFFFF (pre ++ [p]) = some Data64.sysexStart

/-- A part of the message has arrived, and since then a system exclusive message is open. -/
def Holds (id : SysexId) (pre : List Packet) : Prop :=
  Machine.Since Opened
    (fun before p => Opened before p ∧ payload p ≠ [] ∧ sysexId before p = id) pre

/-- Data do not arrive while the system exclusive that is open has data of another message. -/
def Apart (pre : List Packet) (p : Packet) : Prop :=
  payload p ≠ [] → ∀ id, Holds id pre → id = sysexId pre p

/-! ## What is sent -/

section Sent

variable {pre : List Packet} {p : Packet}

theorem not_filtered (p : Packet) : filtered 0xFFFF p = false :=
  filterMessage_default (p.message.get_lt .group)

theorem payload_data (p : Packet) : ∀ b ∈ payload p, isStatusByte b = false := by
  unfold payload
  split
  case isTrue => exact sysexBytes_data p.message
  case isFalse => exact List.forall_mem_nil _

/-- F0, unless a system exclusive is open. -/
def opening (pre : List Packet) : List Byte :=
  if lastStatus 0xFFFF pre = some Data64.sysexStart then [] else [Data64.sysexStart]

/-- A packet of a system exclusive message is skipped, or its payload is sent after F0. -/
theorem sent_sysex7 (hs : (sysex7? p).isSome) :
    (sent 0xFFFF pre p = [] ∧ lastStatus 0xFFFF (pre ++ [p]) = lastStatus 0xFFFF pre ∧
      (payload p = [] ∨ lastStatus 0xFFFF pre ≠ some Data64.sysexStart)) ∨
    ∃ stop, (stop = [] ∧ lastStatus 0xFFFF (pre ++ [p]) = some Data64.sysexStart ∨
        stop = [Data64.sysexStop] ∧ lastStatus 0xFFFF (pre ++ [p]) = some Data64.sysexStop) ∧
      sent 0xFFFF pre p = opening pre ++ payload p ++ stop := by
  have hpayload : payload p = sysexBytes p.message := if_pos hs
  have hrun := sent_run 0xFFFF pre p
  unfold sysex7? at hs
  split at hs
  case h_1 s hcall =>
    have hfull : fullBytes 0xFFFF pre p = sysexTokens (lastStatus 0xFFFF pre) s p.message := by
      rw [fullBytes, tokens_eq, not_filtered, hcall]
      rfl
    rw [hfull, elide_data64] at hrun
    cases s with
    | sysex7In1 =>
        by_cases hn : p.message.get Data64.numberOfBytes > 0
        · simp only [if_pos hn, Prod.mk.injEq] at hrun
          refine Or.inr ⟨[Data64.sysexStop], Or.inr ⟨rfl, hrun.1.symm⟩, ?_⟩
          rw [← hrun.2, hpayload, opening]
          split <;> rfl
        · simp only [if_neg hn, Prod.mk.injEq] at hrun
          refine Or.inl ⟨hrun.2.symm, hrun.1.symm, Or.inl ?_⟩
          rw [hpayload, sysexBytes, Nat.eq_zero_of_not_pos hn]
          rfl
    | sysex7Start =>
        simp only [Prod.mk.injEq] at hrun
        refine Or.inr ⟨[], Or.inl ⟨rfl, hrun.1.symm⟩, ?_⟩
        rw [← hrun.2, hpayload, List.append_nil, opening]
        split <;> rfl
    | sysex7Continue =>
        by_cases hlast : lastStatus 0xFFFF pre = some Data64.sysexStart
        · simp only [if_pos hlast, Prod.mk.injEq] at hrun
          refine Or.inr ⟨[], Or.inl ⟨rfl, hrun.1.symm.trans hlast⟩, ?_⟩
          rw [← hrun.2, hpayload, opening, if_pos hlast, List.append_nil]
          rfl
        · simp only [if_neg hlast, Prod.mk.injEq] at hrun
          exact Or.inl ⟨hrun.2.symm, hrun.1.symm, Or.inr hlast⟩
    | sysex7End =>
        by_cases hlast : lastStatus 0xFFFF pre = some Data64.sysexStart
        · simp only [if_pos hlast, Prod.mk.injEq] at hrun
          refine Or.inr ⟨[Data64.sysexStop], Or.inr ⟨rfl, hrun.1.symm⟩, ?_⟩
          rw [← hrun.2, hpayload, opening, if_pos hlast]
          rfl
        · simp only [if_neg hlast, Prod.mk.injEq] at hrun
          exact Or.inl ⟨hrun.2.symm, hrun.1.symm, Or.inr hlast⟩
  case h_2 => cases hs

/-- Another packet is not in the byte stream, or it is a real time message, or it has a status
of its own. -/
theorem sent_other (hs : sysex7? p = none) :
    (lastStatus 0xFFFF (pre ++ [p]) = lastStatus 0xFFFF pre ∧
      ∀ b ∈ sent 0xFFFF pre p, isSystemRealTimeMessage b = true) ∨
    ∃ h data, lastStatus 0xFFFF (pre ++ [p]) = some h ∧ h ≠ Data64.sysexStart ∧
      isStatusByte h = true ∧ isSystemRealTimeMessage h = false ∧
      (∀ b ∈ data, isStatusByte b = false) ∧
      sent 0xFFFF pre p = (if lastStatus 0xFFFF pre = some h then [] else [h]) ++ data := by
  have hrun := sent_run 0xFFFF pre p
  rw [fullBytes, tokens_eq, not_filtered, if_neg Bool.false_ne_true] at hrun
  cases hcall : p.message.call.callback with
  | system s =>
      have hformed := formed_systemBlock s p.message
      rw [hcall] at hrun
      simp only [elide_system _ hcall] at hrun
      cases hrt : realTime p with
      | true =>
          rw [hrt, if_pos rfl, Prod.mk.injEq] at hrun
          have hpassing : isSystemRealTimeMessage (byte s.toNat) = true := by
            rw [realTime, hcall] at hrt
            exact hrt
          refine Or.inl ⟨hrun.1.symm, ?_⟩
          rw [← hrun.2, Elision.Block.tokens, hformed.data_of_passing hpassing]
          exact List.forall_mem_singleton.2 hpassing
      | false =>
          rw [hrt, if_neg Bool.false_ne_true, Prod.mk.injEq] at hrun
          refine Or.inr ⟨byte s.toNat, _, hrun.1.symm, by cases s <;> decide, hformed.header,
            ?_, hformed.data, ?_⟩
          · rw [realTime, hcall] at hrt
            exact hrt
          · rw [← hrun.2]
            split <;> rfl
  | m1cvm s =>
      have hformed := formed_channelBlock s p.message
      obtain ⟨hst, -, hrt, hlt⟩ := channelBlock_header s p.message
      rw [hcall] at hrun
      simp only [elide_m1cvm, Prod.mk.injEq] at hrun
      refine Or.inr ⟨_, _, hrun.1.symm, ?_, hst, hrt, hformed.data, ?_⟩
      · intro heq
        rw [heq] at hlt
        exact absurd hlt (by decide)
      · rw [← hrun.2]
        split <;> rfl
  | data64 s =>
      rw [sysex7?, hcall] at hs
      cases hs
  | _ =>
      rw [hcall] at hrun
      simp only [Machine.run_nil, Prod.mk.injEq] at hrun
      refine Or.inl ⟨hrun.1.symm, ?_⟩
      rw [← hrun.2]
      exact List.forall_mem_nil _

end Sent

/-! ## What the stream has -/

theorem tagger_run (ps : List Packet) :
    (tagger.run [] ps).1 = ps ∧
    (tagger.run [] ps).2.map Prod.fst = (run {} (ps.flatMap Packet.words)).2 := by
  induction ps using List.reverseRecOn with
  | nil => exact ⟨rfl, rfl⟩
  | append_singleton ps p ih =>
      obtain ⟨hstate, hbytes⟩ := ih
      have htag : Prod.fst ∘ tag ps p = id := rfl
      rw [Machine.run_append, Machine.run_singleton, hstate, List.map_append, hbytes]
      refine ⟨rfl, ?_⟩
      show _ ++ ((sent 0xFFFF ps p).map (tag ps p)).map Prod.fst = _
      rw [List.map_map, htag, List.map_id]
      exact (run_concat 0xFFFF ps p).1.symm

/-- The tagged bytes of some packets. -/
def stream (ps : List Packet) : List Tagged :=
  (tagger.run [] ps).2

theorem stream_concat (pre : List Packet) (p : Packet) :
    stream (pre ++ [p]) = stream pre ++ (sent 0xFFFF pre p).map (tag pre p) := by
  rw [stream, Machine.run_append, Machine.run_singleton, (tagger_run pre).1]
  rfl

theorem span_append (bytes bytes' : List Tagged) :
    span (bytes ++ bytes') = bytes'.foldl Span.add (span bytes) :=
  List.foldl_append

theorem foldl_data {ys : List Tagged} (hys : ∀ y ∈ ys, isStatusByte y.1 = false) (s : Span) :
    ys.foldl Span.add s = { s with tags := s.tags ++ ys.map Prod.snd } := by
  induction ys generalizing s with
  | nil => rw [List.map_nil, List.append_nil]; rfl
  | cons y ys ih =>
      obtain ⟨hy, hys⟩ := List.forall_mem_cons.1 hys
      have hadd : s.add y = { s with tags := s.tags ++ [y.2] } := by
        have hrt : isSystemRealTimeMessage y.1 = false := alphabet.not_passing_of_data hy
        rw [Span.add, hrt, hy]
        rfl
      rw [List.foldl_cons, ih hys, hadd, List.append_assoc]
      rfl

theorem foldl_realTime {ys : List Tagged} (hys : ∀ y ∈ ys, isSystemRealTimeMessage y.1 = true)
    (s : Span) : ys.foldl Span.add s = s := by
  induction ys with
  | nil => rfl
  | cons y ys ih =>
      obtain ⟨hy, hys⟩ := List.forall_mem_cons.1 hys
      have hadd : s.add y = s := by rw [Span.add, hy]; rfl
      rw [List.foldl_cons, hadd, ih hys]

/-- The span of a stream begins with its last status. -/
theorem span_status (bytes : List Tagged) :
    (span bytes).status = alphabet.lastHeader (bytes.map Prod.fst) := by
  induction bytes using List.reverseRecOn with
  | nil => rfl
  | append_singleton bytes y ih =>
      rw [span_append, List.map_append, List.map_singleton, Elision.Alphabet.lastHeader_concat,
        ← ih]
      show (Span.add _ y).status =
        if isStatusByte y.1 && !isSystemRealTimeMessage y.1 then some y.1 else _
      rw [Span.add]
      cases hrt : isSystemRealTimeMessage y.1 with
      | true => rw [Bool.not_true, Bool.and_false]; rfl
      | false => cases isStatusByte y.1 <;> rfl

theorem span_stream (ps : List Packet) : (span (stream ps)).status = lastStatus 0xFFFF ps := by
  rw [span_status, stream, (tagger_run ps).2]
  induction ps using List.reverseRecOn with
  | nil => rfl
  | append_singleton ps p ih =>
      have hrun := sent_run 0xFFFF ps p
      have hlast := Elision.Alphabet.lastHeader_elide ih (fullBytes 0xFFFF ps p)
      rw [hrun] at hlast
      exact (congrArg alphabet.lastHeader (run_concat 0xFFFF ps p).1).trans hlast

theorem tag_status {pre : List Packet} {p : Packet} {b : Byte} (hb : isStatusByte b = true) :
    tag pre p b = (b, none) := by
  rw [tag, hb, Bool.not_true, Bool.and_false]
  rfl

theorem tag_payload {pre : List Packet} {p : Packet} (hs : (sysex7? p).isSome) {b : Byte}
    (hb : isStatusByte b = false) : tag pre p b = (b, some (sysexId pre p)) := by
  rw [tag, hb, hs]
  rfl

theorem tag_other {pre : List Packet} {p : Packet} (hs : sysex7? p = none) (b : Byte) :
    tag pre p b = (b, none) := by
  rw [tag, hs]
  rfl

/-- The span that the payload of a packet is sent in. -/
theorem span_opening (pre : List Packet) (p : Packet) :
    span (stream pre ++ (opening pre).map (tag pre p)) =
      { status := some Data64.sysexStart
        tags := if lastStatus 0xFFFF pre = some Data64.sysexStart then (span (stream pre)).tags
          else [] } := by
  unfold opening
  split
  case isTrue hlast =>
    rw [List.map_nil, List.append_nil, ← hlast, ← span_stream]
  case isFalse =>
    rw [List.map_singleton, tag_status rfl, span_append]
    rfl

/-- The payload of a packet in the stream. -/
def tagged (pre : List Packet) (p : Packet) : List Tagged :=
  (payload p).map fun b => (b, some (sysexId pre p))

theorem map_tag_payload (pre : List Packet) {p : Packet} (hs : (sysex7? p).isSome) :
    (payload p).map (tag pre p) = tagged pre p :=
  List.map_congr_left fun b hb => tag_payload hs (payload_data p b hb)

theorem tagged_data (pre : List Packet) (p : Packet) :
    ∀ y ∈ tagged pre p, isStatusByte y.1 = false := by
  intro y hy
  obtain ⟨b, hb, rfl⟩ := List.mem_map.1 hy
  exact payload_data p b hb

theorem mem_tags_tagged {pre : List Packet} {p : Packet} {t : Option SysexId} :
    t ∈ (tagged pre p).map Prod.snd ↔ payload p ≠ [] ∧ t = some (sysexId pre p) := by
  rw [tagged, List.map_map]
  constructor
  · intro ht
    obtain ⟨b, hb, rfl⟩ := List.mem_map.1 ht
    exact ⟨List.ne_nil_of_mem hb, rfl⟩
  · rintro ⟨hne, rfl⟩
    obtain ⟨b, hb⟩ := List.exists_mem_of_ne_nil _ hne
    exact List.mem_map.2 ⟨b, hb, rfl⟩

theorem lastStatus_of_holds {id : SysexId} {pre : List Packet} (h : Holds id pre) :
    lastStatus 0xFFFF pre = some Data64.sysexStart := by
  induction pre using List.reverseRecOn with
  | nil => exact absurd h (Machine.not_since_nil _ _)
  | append_singleton pre p _ =>
      rcases Machine.since_concat.1 h with ⟨hopened, -⟩ | ⟨hopened, -⟩
      · exact hopened
      · exact hopened

theorem holds_concat {id : SysexId} {pre : List Packet} {p : Packet} (h : Opened pre p) :
    Holds id (pre ++ [p]) ↔ payload p ≠ [] ∧ sysexId pre p = id ∨ Holds id pre := by
  rw [Holds, Machine.since_concat, and_iff_right h, and_iff_right h]
  rfl

/-- The tags after a packet that leaves a system exclusive open. -/
theorem tags_concat {pre : List Packet} {p : Packet} (h : Opened pre p) :
    (span (stream (pre ++ [p]))).tags =
      (if lastStatus 0xFFFF pre = some Data64.sysexStart then (span (stream pre)).tags else []) ++
        (tagged pre p).map Prod.snd := by
  have hkeep (hlast : lastStatus 0xFFFF (pre ++ [p]) = lastStatus 0xFFFF pre)
      (hpayload : payload p = []) (hbytes : span (stream (pre ++ [p])) = span (stream pre)) :
      (span (stream (pre ++ [p]))).tags = (if lastStatus 0xFFFF pre = some Data64.sysexStart then
        (span (stream pre)).tags else []) ++ (tagged pre p).map Prod.snd := by
    rw [if_pos (hlast.symm.trans h), tagged, hpayload, hbytes]
    exact (List.append_nil _).symm
  cases hs : sysex7? p with
  | none =>
      have hpayload : payload p = [] := by rw [payload, hs]; rfl
      rcases @sent_other pre p hs with ⟨hlast, hrt⟩ | ⟨b, data, hlast, hne, -⟩
      · refine hkeep hlast hpayload ?_
        rw [stream_concat, span_append, foldl_realTime]
        intro y hy
        obtain ⟨b, hb, rfl⟩ := List.mem_map.1 hy
        exact hrt b hb
      · exact absurd (Option.some.inj (hlast.symm.trans h)) hne
  | some s =>
      have hsome : (sysex7? p).isSome := by rw [hs]; rfl
      rcases @sent_sysex7 pre p hsome with ⟨hsent, hlast, hskip⟩ | ⟨stop, hstop, hsent⟩
      · refine hkeep hlast (hskip.resolve_right (not_not.2 (hlast.symm.trans h))) ?_
        rw [stream_concat, hsent, List.map_nil, List.append_nil]
      · rcases hstop with ⟨rfl, -⟩ | ⟨-, hlast⟩
        · rw [stream_concat, hsent, List.append_nil, List.map_append, map_tag_payload pre hsome,
            ← List.append_assoc, span_append, span_opening, foldl_data (tagged_data pre p)]
        · exact absurd (Option.some.inj (hlast.symm.trans h)) (by decide)

/-- The data in a system exclusive that is open are those of the messages that it holds. -/
theorem mem_tags {ps : List Packet} (hopen : lastStatus 0xFFFF ps = some Data64.sysexStart)
    (t : Option SysexId) : t ∈ (span (stream ps)).tags ↔ ∃ id, t = some id ∧ Holds id ps := by
  induction ps using List.reverseRecOn generalizing t with
  | nil => cases hopen
  | append_singleton pre p ih =>
      have hbefore : (t ∈ if lastStatus 0xFFFF pre = some Data64.sysexStart then
          (span (stream pre)).tags else []) ↔ ∃ id, t = some id ∧ Holds id pre := by
        split
        case isTrue hlast => exact ih hlast t
        case isFalse hlast =>
          refine iff_of_false List.not_mem_nil ?_
          rintro ⟨id, -, hid⟩
          exact hlast (lastStatus_of_holds hid)
      rw [tags_concat hopen, List.mem_append, hbefore, mem_tags_tagged]
      constructor
      · rintro (⟨id, rfl, hid⟩ | ⟨hne, rfl⟩)
        · exact ⟨id, rfl, (holds_concat hopen).2 (Or.inr hid)⟩
        · exact ⟨_, rfl, (holds_concat hopen).2 (Or.inl ⟨hne, rfl⟩)⟩
      · rintro ⟨id, rfl, hid⟩
        rcases (holds_concat hopen).1 hid with ⟨hne, rfl⟩ | hid
        · exact Or.inr ⟨hne, rfl⟩
        · exact Or.inl ⟨id, rfl, hid⟩

/-! ## Bytes that do not mix messages -/

section Bytes

variable {pre : List Tagged} {ys : List Tagged}

theorem unmixed_status {before : List Packet} {p : Packet} {bs : List Byte}
    (hbs : ∀ b ∈ bs, isStatusByte b = true) :
    Machine.AtEachStep (fun out => Unmixed (pre ++ out)) (bs.map (tag before p)) := by
  intro out y hpre
  obtain ⟨b, hb, rfl⟩ := List.mem_map.1 (hpre.subset List.mem_concat_self)
  have hst := hbs b hb
  rw [tag_status hst]
  refine ⟨fun hne => absurd rfl hne, fun hdata => ?_⟩
  rw [hst] at hdata
  cases hdata

/-- Data that are no payload, outside of a system exclusive. -/
theorem unmixed_other (hstatus : (span pre).status ≠ some Data64.sysexStart)
    (hys : ∀ y ∈ ys, isStatusByte y.1 = false ∧ y.2 = none) :
    Machine.AtEachStep (fun out => Unmixed (pre ++ out)) ys := by
  intro out y hpre
  have hout : ∀ y ∈ out, isStatusByte y.1 = false :=
    fun y hy => (hys y (hpre.subset (List.mem_append_left _ hy))).1
  have hspan : (span (pre ++ out)).status = (span pre).status := by
    rw [span_append, foldl_data hout]
  refine ⟨fun hne => absurd (hys y (hpre.subset List.mem_concat_self)).2 hne, fun _ hopen => ?_⟩
  exact absurd (hspan.symm.trans hopen) hstatus

/-- Payload in a system exclusive. -/
theorem unmixed_payload (hstatus : (span pre).status = some Data64.sysexStart) {id : SysexId}
    (hys : ∀ y ∈ ys, isStatusByte y.1 = false ∧ y.2 = some id) :
    Machine.AtEachStep (fun out => Unmixed (pre ++ out)) ys ↔
      (ys ≠ [] → ∀ t ∈ (span pre).tags, t = some id) := by
  constructor
  · intro h hne t ht
    obtain ⟨y, ys, rfl⟩ := List.exists_cons_of_ne_nil hne
    obtain ⟨hdata, hid⟩ := hys y List.mem_cons_self
    have hfirst := (Machine.atEachStep_cons.1 h).1
    rw [List.append_nil] at hfirst
    obtain ⟨id', hid', hall⟩ := hfirst.one hdata hstatus
    exact (hall t ht).trans (hid'.symm.trans hid)
  · intro h out y hpre
    have hy := hys y (hpre.subset List.mem_concat_self)
    have hout : ∀ y ∈ out, isStatusByte y.1 = false ∧ y.2 = some id :=
      fun y hy => hys y (hpre.subset (List.mem_append_left _ hy))
    have hspan : span (pre ++ out) =
        { span pre with tags := (span pre).tags ++ out.map Prod.snd } := by
      rw [span_append, foldl_data fun y hy => (hout y hy).1]
    refine ⟨fun _ => by rw [hspan, hstatus], fun _ _ => ⟨id, hy.2, fun t ht => ?_⟩⟩
    rw [hspan] at ht
    rcases List.mem_append.1 ht with ht | ht
    · exact h (List.ne_nil_of_mem (hpre.subset List.mem_concat_self)) t ht
    · obtain ⟨z, hz, rfl⟩ := List.mem_map.1 ht
      exact (hout z hz).2

end Bytes

/-- The messages that a system exclusive holds are those of the tags in its span. -/
theorem apart_iff (pre : List Packet) (p : Packet) :
    Apart pre p ↔ lastStatus 0xFFFF pre = some Data64.sysexStart → payload p ≠ [] →
      ∀ t ∈ (span (stream pre)).tags, t = some (sysexId pre p) := by
  constructor
  · intro h hopen hne t ht
    obtain ⟨id, rfl, hid⟩ := (mem_tags hopen t).1 ht
    rw [h hne id hid]
  · intro h hne id hid
    have hopen := lastStatus_of_holds hid
    exact Option.some.inj (h hopen hne _ ((mem_tags hopen _).2 ⟨id, rfl, hid⟩))

theorem unmixed_sent_other {pre : List Packet} {p : Packet} (hs : sysex7? p = none) :
    Machine.AtEachStep (fun out => Unmixed (stream pre ++ out))
      ((sent 0xFFFF pre p).map (tag pre p)) := by
  rcases @sent_other pre p hs with ⟨-, hrt⟩ | ⟨h, data, -, hne, hst, hpassing, hdata, hsent⟩
  · exact unmixed_status fun b hb => alphabet.header_of_passing (hrt b hb)
  · rw [hsent, List.map_append, Machine.atEachStep_append]
    constructor
    · refine unmixed_status fun b hb => ?_
      split at hb
      case isTrue => exact absurd hb List.not_mem_nil
      case isFalse => exact List.mem_singleton.1 hb ▸ hst
    · simp only [← List.append_assoc]
      refine unmixed_other ?_ fun y hy => ?_
      · have hstatus : (span (stream pre ++ (if lastStatus 0xFFFF pre = some h then []
            else [h]).map (tag pre p))).status = some h := by
          split
          case isTrue hlast => rw [List.map_nil, List.append_nil, span_stream, hlast]
          case isFalse =>
            rw [List.map_singleton, tag_other hs, span_append, List.foldl_cons, List.foldl_nil,
              Span.add, hpassing, hst]
            rfl
        rw [hstatus]
        exact fun heq => hne (Option.some.inj heq)
      · obtain ⟨b, hb, rfl⟩ := List.mem_map.1 hy
        rw [tag_other hs]
        exact ⟨hdata b hb, rfl⟩

/-- A packet does not mix messages if and only if it comes apart from other messages. -/
theorem unmixed_iff_apart (pre : List Packet) (p : Packet) :
    Machine.AtEachStep (fun out => Unmixed (stream pre ++ out))
      ((sent 0xFFFF pre p).map (tag pre p)) ↔ Apart pre p := by
  cases hs : sysex7? p with
  | none =>
      have hpayload : payload p = [] := by rw [payload, hs]; rfl
      exact iff_of_true (unmixed_sent_other hs) fun hne => absurd hpayload hne
  | some s =>
      have hsome : (sysex7? p).isSome := by rw [hs]; rfl
      rcases @sent_sysex7 pre p hsome with ⟨hsent, -, hskip⟩ | ⟨stop, hstop, hsent⟩
      · rw [hsent]
        refine iff_of_true (Machine.atEachStep_nil _) fun hne id hid => ?_
        rcases hskip with hpayload | hlast
        · exact absurd hpayload hne
        · exact absurd (lastStatus_of_holds hid) hlast
      · -- Only the payload can mix messages, not F0 before it and not F7 after it.
        have hhead : ∀ b ∈ opening pre, isStatusByte b = true := by
          unfold opening
          split
          case isTrue => exact List.forall_mem_nil _
          case isFalse => exact List.forall_mem_singleton.2 rfl
        have htail : ∀ b ∈ stop, isStatusByte b = true := by
          rcases hstop with ⟨rfl, -⟩ | ⟨rfl, -⟩
          · exact List.forall_mem_nil _
          · exact List.forall_mem_singleton.2 rfl
        have hstatus : (span (stream pre ++ (opening pre).map (tag pre p))).status =
            some Data64.sysexStart := by rw [span_opening]
        have hpayload : ∀ y ∈ tagged pre p,
            isStatusByte y.1 = false ∧ y.2 = some (sysexId pre p) := by
          refine fun y hy => ⟨tagged_data pre p y hy, ?_⟩
          obtain ⟨b, -, rfl⟩ := List.mem_map.1 hy
          rfl
        have hne : tagged pre p ≠ [] ↔ payload p ≠ [] := not_congr List.map_eq_nil_iff
        rw [hsent, List.map_append, List.map_append, map_tag_payload pre hsome,
          Machine.atEachStep_append, Machine.atEachStep_append,
          and_iff_right (unmixed_status hhead)]
        simp only [← List.append_assoc]
        rw [and_iff_left (unmixed_status htail), unmixed_payload hstatus hpayload, span_opening,
          hne, apart_iff]
        by_cases hlast : lastStatus 0xFFFF pre = some Data64.sysexStart
        · rw [if_pos hlast]
          exact ⟨fun h _ => h, fun h => h hlast⟩
        · rw [if_neg hlast]
          exact iff_of_true (fun _ _ ht => absurd ht List.not_mem_nil) fun h => absurd h hlast

/-- What is between F0 and the next status is always the payload of one message, and no payload
is anywhere else, if and only if no data arrive while the system exclusive that is open has data
of another message. -/
theorem unmixed_iff (ps : List Packet) :
    Machine.AtEachStep Unmixed (tagger.run [] ps).2 ↔ Machine.AtEachStep Apart ps := by
  rw [Machine.atEachStep_run]
  refine Machine.atEachStep_congr fun pre p _ => ?_
  rw [(tagger_run pre).1]
  exact unmixed_iff_apart pre p

/-- Two messages of different groups at the same time: in the byte stream they are one. -/
theorem messages_mixed : ¬∀ ps, (∀ g < 2 ^ 4, WellFormed (sysex7Of g ps)) →
    Machine.AtEachStep Unmixed (tagger.run [] ps).2 := by
  intro h
  let ps : List Packet :=
    [{ message := ⟨[0x30110100, 0]⟩ }, { message := ⟨[0x31110200, 0]⟩ },
      { message := ⟨[0x30300000, 0]⟩ }, { message := ⟨[0x31300000, 0]⟩ }]
  have hformed : ∀ g < 2 ^ 4, WellFormed (sysex7Of g ps) := by
    have hall : ∀ g < 2 ^ 4, sysex7Of g ps = [.sysex7Start, .sysex7End] ∨ sysex7Of g ps = [] := by
      decide
    intro g hg
    rcases hall g hg with heq | heq
    · rw [heq]
      exact WellFormed.multiple 0 WellFormed.nil
    · rw [heq]
      exact WellFormed.nil
  have hbytes : (tagger.run [] ps).2 =
      [(0xF0, none), (0x01, some ⟨0, 1⟩), (0x02, some ⟨1, 1⟩), (0xF7, none)] := by
    decide +kernel
  have hmixed := h ps hformed
  rw [hbytes] at hmixed
  obtain ⟨id, hid, hall⟩ := (hmixed [(0xF0, none), (0x01, some ⟨0, 1⟩)] (0x02, some ⟨1, 1⟩)
    ⟨_, rfl⟩).one rfl rfl
  have hother := hall (some ⟨0, 1⟩) List.mem_cons_self
  rw [← hid] at hother
  revert hother
  decide

end Midi2.Bytestream.ToBytestream
