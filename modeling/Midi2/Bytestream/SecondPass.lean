import Midi2.Bytestream.SysexRoundTrip

/-!
# Going through both translators twice

`pass` is `to_ump` and `to_bytestream`, one after the other, on any byte stream. A second pass
over its output keeps up with the first one, a system exclusive message apart. There the reader
has up to six bytes that it has not sent yet, and what the first pass puts out between two
packets reaches the second one too early: `Behind` says what the second pass has still to put
out. So a stream that went through both translators is a normal form exactly if no real time
message and not the end of the stream comes in a system exclusive message that a packet of has
been sent (`second_pass_iff`).
-/

namespace Midi2.Bytestream

open Adt Ump Chunks

open ToBytestream.Data64 (sysexStart sysexStop)

/-! ## One pass -/

/-- The reader, and the writer of what it puts out. -/
def pass : Machine Byte Byte (Reading × Option Byte) :=
  reader.andThen writer

theorem pass_step (r : Reading) (status : Option Byte) (b : Byte) :
    pass.step (r, status) b = (((reader.step r b).1, (writer.run status (reader.step r b).2).1),
      (writer.run status (reader.step r b).2).2) :=
  rfl

theorem pass_run (r : Reading) (status : Option Byte) (bytes : List Byte) :
    pass.run (r, status) bytes =
      (((reader.run r bytes).1, (writer.run status (reader.run r bytes).2).1),
        (writer.run status (reader.run r bytes).2).2) :=
  Machine.run_andThen reader writer r status bytes

/-- It is what the two translators do. -/
theorem toBytestream_toUmp {g : Nat} (hg : g < 2 ^ 4) (bytes : List Byte) :
    (ToBytestream.run {} (ToUmp.run (.create g) bytes)).2 =
      (pass.run (.message {}, none) bytes).2 := by
  rw [toBytestream_items hg, pass_run]
  rfl

/-! ## Messages of a fixed size -/

theorem write_blocks (status : Option Byte) (ms : List Block) :
    writer.run status (ms.map .block) = alphabet.encode.run status ms := by
  induction ms generalizing status with
  | nil => rfl
  | cons m ms ih =>
      rw [List.map_cons, Machine.run_cons, ih, Machine.run_cons]
      rfl

/-- F0 is not the status of such a message. -/
theorem status_blocks {ms : List Block} (hms : ∀ m ∈ ms, alphabet.Formed m) {status : Option Byte}
    (hstatus : status ≠ some sysexStart) :
    (writer.run status (ms.map .block)).1 ≠ some sysexStart := by
  rw [write_blocks]
  induction ms generalizing status with
  | nil => exact hstatus
  | cons m ms ih =>
      obtain ⟨hm, hms⟩ := List.forall_mem_cons.1 hms
      rw [Machine.run_cons]
      refine ih hms ?_
      rw [Elision.Alphabet.encode_step hm]
      split
      case isTrue => exact hstatus
      case isFalse =>
        intro heq
        have harity := hm.arity
        rw [Option.some.inj heq] at harity
        cases harity

/-- They are written, read and written in the same way again. -/
theorem again_blocks {ms : List Block} (hms : ∀ m ∈ ms, alphabet.Formed m) (status : Option Byte) :
    pass.run (.message ⟨status, []⟩, status) (writer.run status (ms.map .block)).2 =
      ((.message ⟨(writer.run status (ms.map .block)).1, []⟩,
        (writer.run status (ms.map .block)).1), (writer.run status (ms.map .block)).2) := by
  have hread := run_message (encode_ne_sysexStart hms status) ⟨status, []⟩
  rw [Elision.Alphabet.restore_encode hms] at hread
  rw [write_blocks, pass_run, hread, write_blocks, Elision.Alphabet.encode_dedupe hms]

/-! ## Where the second pass is -/

theorem sysexStop_ne : some sysexStop ≠ some sysexStart := by
  decide

/-- What is written for data that are not the last of their message: F0 comes before the first
of them. -/
def opening (fresh : Bool) (data : List Byte) : List Byte :=
  if fresh then sysexStart :: data else data

/-- The second pass, with what it has still to put out. In a system exclusive message of which
nothing has been sent it waits before the message. Otherwise it is in the same message, and it
has read a whole packet but not sent it. -/
inductive Behind : Reading × Option Byte → Reading × Option Byte → List Byte → Prop where
  | message {o status} : alphabet.FormedOpen o → status ≠ some sysexStart →
      Behind (.message o, status) (.message ⟨status, []⟩, status) []
  | short {data status} : data.length ≤ 6 → (∀ b ∈ data, isStatusByte b = false) →
      status ≠ some sysexStart →
      Behind (.sysex ⟨true, data⟩, status) (.message ⟨status, []⟩, status) []
  | long {data sent fresh status} : data.length ≤ 6 → data ≠ [] →
      (∀ b ∈ data, isStatusByte b = false) → sent.length = 6 →
      (∀ b ∈ sent, isStatusByte b = false) → (status = some sysexStart ↔ fresh = false) →
      Behind (.sysex ⟨false, data⟩, some sysexStart) (.sysex ⟨fresh, sent⟩, status)
        (opening fresh sent)

section Steps

variable {status : Option Byte} {data sent : List Byte} {fresh : Bool}

theorem write_opening (hdata : ∀ b ∈ data, isStatusByte b = false)
    (hstatus : status = some sysexStart ↔ fresh = false) :
    writer.step status (.sysex ⟨if fresh then .first else .middle, data⟩) =
      (some sysexStart, opening fresh data) := by
  cases fresh with
  | true => exact write_first hdata fun h => Bool.noConfusion (hstatus.1 h)
  | false =>
      obtain rfl := hstatus.2 rfl
      exact write_middle hdata

/-- Data in a system exclusive message. -/
theorem read_data (s : Chunks.State Byte) (hdata : ∀ b ∈ data, isStatusByte b = false) :
    reader.run (.sysex s) data =
      (.sysex ((cutter 6).run s data).1, ((cutter 6).run s data).2.map .sysex) := by
  induction data generalizing s with
  | nil => rfl
  | cons b data ih =>
      obtain ⟨hb, hdata⟩ := List.forall_mem_cons.1 hdata
      have hrt : isSystemRealTimeMessage b = false := alphabet.not_passing_of_data hb
      have hstep : reader.step (.sysex s) b =
          (.sysex ((cutter 6).step s b).1, ((cutter 6).step s b).2.map .sysex) := by
        simp only [reader, hrt, hb, Bool.false_eq_true, if_false]
      rw [Machine.run_cons, hstep, ih _ hdata, Machine.run_cons, List.map_append]

/-- The first of the data push out the packet before them. -/
theorem cut_full (hlen : data.length ≤ 6) (hne : data ≠ []) (hsent : sent.length = 6) :
    (cutter 6).run ⟨fresh, sent⟩ data =
      (⟨false, data⟩, [⟨if fresh then .first else .middle, sent⟩]) := by
  obtain ⟨b, data, rfl⟩ := List.exists_cons_of_ne_nil hne
  have hstep := cutter_full (s := ⟨fresh, sent⟩) hsent b
  rw [Machine.run_cons, hstep, cutter_fill [b] hlen]
  rfl

/-- The second pass reads the data of a packet and sends those before them. -/
theorem again_data (hlen : data.length ≤ 6) (hne : data ≠ [])
    (hdata : ∀ b ∈ data, isStatusByte b = false) (hsent : sent.length = 6)
    (hsent' : ∀ b ∈ sent, isStatusByte b = false)
    (hstatus : status = some sysexStart ↔ fresh = false) :
    pass.run (.sysex ⟨fresh, sent⟩, status) data =
      ((.sysex ⟨false, data⟩, some sysexStart), opening fresh sent) := by
  rw [pass_run, read_data _ hdata, cut_full hlen hne hsent, List.map_singleton,
    Machine.run_singleton, write_opening hsent' hstatus]

/-- The second pass reads the first packet of a message. -/
theorem again_first (hlen : data.length ≤ 6) (hdata : ∀ b ∈ data, isStatusByte b = false)
    (o : Elision.Open Byte) : pass.run (.message o, status) (sysexStart :: data) =
      ((.sysex ⟨true, data⟩, status), []) := by
  have hstart : reader.step (.message o) sysexStart = (.sysex {}, []) := rfl
  rw [pass_run, Machine.run_cons, hstart, read_data _ hdata,
    show ({} : Chunks.State Byte) = ⟨true, []⟩ from rfl, cutter_fill [] hlen]
  rfl

/-- A message that fits in a packet. -/
theorem again_single (hlen : data.length ≤ 6) (hne : data ≠ [])
    (hdata : ∀ b ∈ data, isStatusByte b = false) (hstatus : status ≠ some sysexStart)
    (o : Elision.Open Byte) :
    pass.run (.message o, status) (sysexStart :: (data ++ [sysexStop])) =
      ((.message ⟨some sysexStop, []⟩, some sysexStop), sysexStart :: (data ++ [sysexStop])) := by
  have hchunks : chunks 6 data = [⟨.single, data⟩] := by
    rw [chunks, show ({} : Chunks.State Byte) = ⟨true, []⟩ from rfl, cutter_fill [] hlen]
    rfl
  rw [pass_run, read_sysex o hdata, hchunks, List.map_singleton, Machine.run_singleton,
    write_single hdata hne hstatus]

/-- The end of a message of which a packet has been sent. -/
theorem again_stop (hdata : ∀ b ∈ data, isStatusByte b = false) :
    pass.step (.sysex ⟨false, data⟩, some sysexStart) sysexStop =
      ((.message ⟨some sysexStop, []⟩, some sysexStop), data ++ [sysexStop]) := by
  have hread : reader.step (.sysex ⟨false, data⟩) sysexStop =
      (.message ⟨some sysexStop, []⟩, [.sysex ⟨.last, data⟩]) := rfl
  rw [pass_step, hread, Machine.run_singleton, write_last hdata]

end Steps

/-! ## Keeping up -/

/-- A reader that has sent a packet of a system exclusive message and is still in it. -/
def Reading.Underway : Reading → Prop
  | message _ => False
  | sysex s => s.fresh = false

/-- A byte outside of system exclusive messages. -/
theorem behind_readMessage {o : Elision.Open Byte} (ho : alphabet.FormedOpen o)
    {status : Option Byte} (hstatus : status ≠ some sysexStart) (b : Byte) :
    Behind ((readMessage o b).1, (writer.run status (readMessage o b).2).1)
        (pass.run (.message ⟨status, []⟩, status) (writer.run status (readMessage o b).2).2).1 [] ∧
      (pass.run (.message ⟨status, []⟩, status) (writer.run status (readMessage o b).2).2).2 =
        (writer.run status (readMessage o b).2).2 := by
  unfold readMessage
  split
  case isTrue => exact ⟨.short (Nat.zero_le 6) (List.forall_mem_nil _) hstatus, rfl⟩
  case isFalse =>
    obtain ⟨hopen, hformed⟩ := Elision.Alphabet.formed_restore_step ho b
    rw [again_blocks hformed]
    exact ⟨.message hopen (status_blocks hformed hstatus), rfl⟩

/-- The second pass is behind after a byte as well, by what it has not yet put out. -/
def KeepsUp (first second : Reading × Option Byte) (pending : List Byte) (b : Byte) : Prop :=
  ∃ pending', Behind (pass.step first b).1 (pass.run second (pass.step first b).2).1 pending' ∧
    pending ++ (pass.step first b).2 = (pass.run second (pass.step first b).2).2 ++ pending'

theorem KeepsUp.of_step {first next second second' : Reading × Option Byte} {b : Byte}
    {pending pending' out out' : List Byte} (hstep : pass.step first b = (next, out))
    (hagain : pass.run second out = (second', out')) (hbehind : Behind next second' pending')
    (heq : pending ++ out = out' ++ pending') : KeepsUp first second pending b := by
  refine ⟨pending', ?_, ?_⟩
  · rwa [hstep, hagain]
  · rwa [hstep, hagain]

section Sysex

variable {data sent : List Byte} {fresh : Bool} {status : Option Byte} {b : Byte}

/-- A data byte for which there is room in the packet. -/
theorem pass_room (hb : isStatusByte b = false) (hlen : data.length ≠ 6) :
    pass.step (.sysex ⟨fresh, data⟩, status) b =
      ((.sysex ⟨fresh, data ++ [b]⟩, status), []) := by
  have hread := @read_data [b] ⟨fresh, data⟩ (List.forall_mem_singleton.2 hb)
  rw [Machine.run_singleton, Machine.run_singleton, cutter_room (s := ⟨fresh, data⟩) hlen] at hread
  rw [pass_step, hread]
  rfl

/-- A data byte after a full packet. -/
theorem pass_full (hb : isStatusByte b = false) (hlen : data.length = 6)
    (hdata : ∀ b ∈ data, isStatusByte b = false)
    (hstatus : status = some sysexStart ↔ fresh = false) :
    pass.step (.sysex ⟨fresh, data⟩, status) b =
      ((.sysex ⟨false, [b]⟩, some sysexStart), opening fresh data) := by
  have hread := @read_data [b] ⟨fresh, data⟩ (List.forall_mem_singleton.2 hb)
  rw [Machine.run_singleton, Machine.run_singleton, cutter_full (s := ⟨fresh, data⟩) hlen,
    List.map_singleton] at hread
  rw [pass_step, hread, Machine.run_singleton, write_opening hdata hstatus]

theorem write_realTime (hrt : isSystemRealTimeMessage b = true) :
    writer.run status [.block ⟨b, []⟩] = (status, [b]) := by
  rw [Machine.run_singleton]
  exact (Elision.Alphabet.encode_step (alphabet.formed_passing hrt) status).trans (if_pos hrt)

/-- A real time message goes through at once, also in a system exclusive message. -/
theorem pass_realTime (hrt : isSystemRealTimeMessage b = true) (r : Reading) :
    pass.step (r, status) b = ((r, status), [b]) := by
  have hread : reader.step r b = (r, [.block ⟨b, []⟩]) := by
    cases r with
    | message o => exact read_realTime o hrt
    | sysex s => exact if_pos hrt
  rw [pass_step, hread, write_realTime hrt]

/-- The status that ends a message, if the second pass has caught up before it. -/
theorem keepsUp_close {s : Chunks.State Byte} (ht : isStatusByte b = true)
    (hrt : isSystemRealTimeMessage b = false) {next : Option Byte} {out pending : List Byte}
    {second : Reading × Option Byte} (hnext : next ≠ some sysexStart)
    (hwrite : writer.step status (.sysex s.close) = (next, out))
    (hagain : pass.run second out = ((.message ⟨next, []⟩, next), pending ++ out)) :
    KeepsUp (.sysex s, status) second pending b := by
  obtain ⟨hbehind, heq⟩ := behind_readMessage Elision.Alphabet.formed_nil hnext b
  have hstep : pass.step (.sysex s, status) b =
      (((readMessage {} b).1, (writer.run next (readMessage {} b).2).1),
        out ++ (writer.run next (readMessage {} b).2).2) := by
    rw [pass_step, step_close s ht hrt, Machine.run_cons, hwrite]
  refine .of_step hstep ?_ hbehind (List.append_nil _).symm
  rw [Machine.run_append, hagain, heq, List.append_assoc]

theorem keepsUp_short (hlen : data.length ≤ 6) (hdata : ∀ b ∈ data, isStatusByte b = false)
    (hstatus : status ≠ some sysexStart) :
    KeepsUp (.sysex ⟨true, data⟩, status) (.message ⟨status, []⟩, status) [] b := by
  cases hst : isStatusByte b with
  | true =>
      cases hrt : isSystemRealTimeMessage b with
      | true =>
          have hagain := Machine.run_singleton pass (.message ⟨status, []⟩, status) b
          rw [pass_realTime hrt] at hagain
          exact .of_step (pass_realTime hrt _) hagain (.short hlen hdata hstatus) rfl
      | false =>
          by_cases hnil : data = []
          · subst hnil
            have hwrite : writer.step status (.sysex ⟨.single, []⟩) = (status, []) := rfl
            exact keepsUp_close hst hrt hstatus hwrite rfl
          · exact keepsUp_close hst hrt sysexStop_ne (write_single hdata hnil hstatus)
              (again_single hlen hnil hdata hstatus _)
  | false =>
      by_cases hfull : data.length = 6
      · have hopen : status = some sysexStart ↔ true = false :=
          iff_of_false hstatus Bool.noConfusion
        refine .of_step (pass_full hst hfull hdata hopen) (again_first hlen hdata _) ?_ rfl
        exact .long (Nat.le_add_left 1 5) (List.cons_ne_nil _ _) (List.forall_mem_singleton.2 hst)
          hfull hdata hopen
      · refine .of_step (pass_room hst hfull) rfl (.short ?_ ?_ hstatus) rfl
        · rw [List.length_append, List.length_singleton]
          exact Nat.lt_of_le_of_ne hlen hfull
        · exact List.forall_mem_append.2 ⟨hdata, List.forall_mem_singleton.2 hst⟩

theorem keepsUp_long (hlen : data.length ≤ 6) (hne : data ≠ [])
    (hdata : ∀ b ∈ data, isStatusByte b = false) (hsent : sent.length = 6)
    (hsent' : ∀ b ∈ sent, isStatusByte b = false)
    (hstatus : status = some sysexStart ↔ fresh = false)
    (hrt : isSystemRealTimeMessage b = false) :
    KeepsUp (.sysex ⟨false, data⟩, some sysexStart) (.sysex ⟨fresh, sent⟩, status)
      (opening fresh sent) b := by
  have hagain := again_data hlen hne hdata hsent hsent' hstatus
  cases hst : isStatusByte b with
  | true =>
      refine keepsUp_close hst hrt sysexStop_ne (write_last hdata) ?_
      rw [Machine.run_append, hagain, Machine.run_singleton, again_stop hdata]
  | false =>
      have hopen : some sysexStart = some sysexStart ↔ false = false := iff_of_true rfl rfl
      by_cases hfull : data.length = 6
      · refine .of_step (pass_full hst hfull hdata hopen) hagain ?_ rfl
        exact .long (Nat.le_add_left 1 5) (List.cons_ne_nil _ _) (List.forall_mem_singleton.2 hst)
          hfull hdata hopen
      · refine .of_step (pass_room hst hfull) rfl (.long ?_ ?_ ?_ hsent hsent' hstatus)
          (List.append_nil _)
        · rw [List.length_append, List.length_singleton]
          exact Nat.lt_of_le_of_ne hlen hfull
        · exact List.append_ne_nil_of_right_ne_nil _ (List.cons_ne_nil _ _)
        · exact List.forall_mem_append.2 ⟨hdata, List.forall_mem_singleton.2 hst⟩

end Sysex

theorem lags : pass.Lags Behind fun s b => s.1.Underway → isSystemRealTimeMessage b = false where
  step {s t pending b} h hgood := by
    cases h with
    | @message o status ho hstatus =>
        obtain ⟨hbehind, heq⟩ := behind_readMessage ho hstatus b
        refine ⟨[], hbehind, ?_⟩
        rw [List.append_nil, List.nil_append]
        exact heq.symm
    | short hlen hdata hstatus => exact keepsUp_short hlen hdata hstatus
    | long hlen hne hdata hsent hsent' hstatus =>
        exact keepsUp_long hlen hne hdata hsent hsent' hstatus (hgood rfl)
  stuck {s t pending b} h hbad := by
    obtain ⟨hunderway, hrt⟩ := Classical.not_imp.1 hbad
    have hrt' : isSystemRealTimeMessage b = true := eq_true_of_ne_false hrt
    cases h with
    | message => exact hunderway.elim
    | short => exact (Bool.noConfusion hunderway)
    | @long data sent fresh status hlen hne hdata hsent hsent' hstatus =>
        -- The real time message overtakes the packet that has been read.
        rw [pass_realTime hrt', Machine.run_singleton, pass_realTime hrt']
        cases fresh with
        | true =>
            refine ⟨sysexStart, sent, b, [], rfl, rfl, ?_⟩
            rintro rfl
            exact hrt rfl
        | false =>
            cases sent with
            | nil => cases hsent
            | cons x sent =>
                refine ⟨x, sent, b, [], rfl, rfl, ?_⟩
                rintro rfl
                exact hrt (alphabet.not_passing_of_data (hsent' _ List.mem_cons_self))

/-- There is something left to put out exactly in such a message. -/
theorem behind_eq_nil_iff {first second : Reading × Option Byte} {pending : List Byte}
    (h : Behind first second pending) : pending = [] ↔ ¬first.1.Underway := by
  cases h with
  | message => exact iff_of_true rfl id
  | short => exact iff_of_true rfl Bool.noConfusion
  | @long data sent fresh status hlen hne hdata hsent hsent' hstatus =>
      refine iff_of_false (fun hnil => ?_) (not_not.2 rfl)
      cases fresh with
      | true => cases hnil
      | false =>
          obtain rfl : sent = [] := hnil
          cases hsent

/-! ## Where the stream is -/

/-- The bytes end in a system exclusive message that has more than six data bytes. -/
def Overlong (bytes : List Byte) : Prop :=
  ∃ before inside, bytes = before ++ sysexStart :: inside ∧ (∀ b ∈ inside, Within b) ∧
    6 < (dataOf inside).length

theorem reading_of_sysex {before inside : List Byte} (h : ∀ b ∈ inside, Within b) :
    (reader.run (.message {}) (before ++ sysexStart :: inside)).1 =
      .sysex ((cutter 6).run {} (dataOf inside)).1 := by
  have hstart (r : Reading) : (reader.step r sysexStart).1 = .sysex {} := by
    cases r with
    | message o => rfl
    | sysex s => rfl
  rw [Machine.run_append, Machine.run_cons, hstart, (run_within h {}).1]

theorem sysex_of_reading {bytes : List Byte} {s : Chunks.State Byte}
    (h : (reader.run (.message {}) bytes).1 = .sysex s) :
    ∃ before inside, bytes = before ++ sysexStart :: inside ∧ (∀ b ∈ inside, Within b) ∧
      s = ((cutter 6).run {} (dataOf inside)).1 := by
  induction bytes using List.reverseRecOn generalizing s with
  | nil => cases h
  | append_singleton bytes b ih =>
      -- F0 begins a message, wherever it is.
      have hbegins : ∀ o, (readMessage o b).1 = .sysex s → ∃ before inside,
          bytes ++ [b] = before ++ sysexStart :: inside ∧ (∀ b ∈ inside, Within b) ∧
            s = ((cutter 6).run {} (dataOf inside)).1 := by
        intro o ho
        unfold readMessage at ho
        split at ho
        case isTrue hb =>
          subst hb
          obtain rfl := Reading.sysex.inj ho
          exact ⟨bytes, [], rfl, List.forall_mem_nil _, rfl⟩
        case isFalse => cases ho
      have hstep := h
      rw [Machine.run_append, Machine.run_singleton] at hstep
      cases hr : (reader.run (.message {}) bytes).1 with
      | message o =>
          rw [hr] at hstep
          exact hbegins o hstep
      | sysex s' =>
          by_cases hb : Within b
          · obtain ⟨before, inside, rfl, hinside, -⟩ := ih hr
            have hall : ∀ b' ∈ inside ++ [b], Within b' :=
              List.forall_mem_append.2 ⟨hinside, List.forall_mem_singleton.2 hb⟩
            rw [List.append_assoc, List.cons_append, reading_of_sysex hall] at h
            refine ⟨before, inside ++ [b], ?_, hall, (Reading.sysex.inj h).symm⟩
            rw [List.append_assoc, List.cons_append]
          · obtain ⟨hst, hrt⟩ := not_or.1 hb
            rw [hr, step_close s' (eq_true_of_ne_false hst) (eq_false_of_ne_true hrt)] at hstep
            exact hbegins {} hstep

theorem underway_iff (bytes : List Byte) :
    (reader.run (.message {}) bytes).1.Underway ↔ Overlong bytes := by
  constructor
  · intro h
    cases hr : (reader.run (.message {}) bytes).1 with
    | message o =>
        rw [hr] at h
        exact h.elim
    | sysex s =>
        obtain ⟨before, inside, rfl, hinside, rfl⟩ := sysex_of_reading hr
        rw [hr] at h
        have hfresh := fresh_iff (n := 6) (by decide) (dataOf inside)
        refine ⟨before, inside, rfl, hinside, Nat.lt_of_not_le fun hle => ?_⟩
        exact Bool.false_ne_true (h.symm.trans (hfresh.2 hle))
  · rintro ⟨before, inside, rfl, hinside, hlen⟩
    rw [reading_of_sysex hinside]
    have hfresh := fresh_iff (n := 6) (by decide) (dataOf inside)
    exact eq_false_of_ne_true fun h => Nat.not_le_of_lt hlen (hfresh.1 h)

/-! ## The two translators -/

/-- For any bytes: going through both translators once more changes nothing exactly if, in a
system exclusive message with more than six data bytes so far, there always comes another byte
and no real time message. -/
theorem second_pass_iff {g : Nat} (hg : g < 2 ^ 4) (bytes : List Byte) :
    (ToBytestream.run {} (ToUmp.run (.create g)
        (ToBytestream.run {} (ToUmp.run (.create g) bytes)).2)).2 =
      (ToBytestream.run {} (ToUmp.run (.create g) bytes)).2 ↔
    ∀ pre, pre <+: bytes → Overlong pre →
      ∃ b, pre ++ [b] <+: bytes ∧ isSystemRealTimeMessage b = false := by
  have hreading (pre : List Byte) :
      (pass.run (.message {}, none) pre).1.1 = (reader.run (.message {}) pre).1 :=
    congrArg (fun r => r.1.1) (pass_run (.message {}) none pre)
  have hstart : Behind (.message {}, none) (.message {}, none) [] :=
    .message Elision.Alphabet.formed_nil (Option.some_ne_none _).symm
  have hlags := lags.run_run_eq_iff behind_eq_nil_iff hstart bytes
  simp only [List.nil_append, hreading, underway_iff] at hlags
  rw [toBytestream_toUmp hg, toBytestream_toUmp hg, hlags]
  constructor
  · rintro ⟨hsteps, hend⟩ pre ⟨rest, rfl⟩ hpre
    cases rest with
    | nil =>
        rw [List.append_nil] at hend
        exact absurd hpre hend
    | cons b rest =>
        have hnext : pre ++ [b] <+: pre ++ b :: rest := ⟨rest, List.append_cons .. ▸ rfl⟩
        exact ⟨b, hnext, hsteps pre b hnext hpre⟩
  · intro h
    refine ⟨fun pre a hpre hover => ?_, fun hover => ?_⟩
    · obtain ⟨b, hb, hrt⟩ := h pre ((List.prefix_append pre [a]).trans hpre) hover
      have hsame := List.prefix_of_prefix_length_le hpre hb (by simp)
      have heq := hsame.eq_of_length (by simp)
      obtain rfl : a = b := List.head_eq_of_cons_eq (List.append_cancel_left heq)
      exact hrt
    · obtain ⟨b, hb, -⟩ := h bytes (List.prefix_refl bytes) hover
      have hlen := hb.length_le
      rw [List.length_append, List.length_singleton] at hlen
      exact absurd hlen (Nat.not_succ_le_self _)

/-- A timing clock in a system exclusive message of eight bytes. -/
theorem second_pass_clock :
    (ToBytestream.run {} (ToUmp.run (.create 3) (ToBytestream.run {} (ToUmp.run (.create 3)
        [0xF0, 0x01, 0x02, 0x03, 0x04, 0x05, 0x06, 0x07, 0xF8, 0x08, 0xF7])).2)).2 =
      (ToBytestream.run {} (ToUmp.run (.create 3)
        [0xF0, 0x01, 0x02, 0x03, 0x04, 0x05, 0x06, 0x07, 0xF8, 0x08, 0xF7])).2 ↔
    ∀ pre, pre <+: [0xF0, 0x01, 0x02, 0x03, 0x04, 0x05, 0x06, 0x07, 0xF8, 0x08, 0xF7] →
      Overlong pre → ∃ b, pre ++ [b] <+:
        [0xF0, 0x01, 0x02, 0x03, 0x04, 0x05, 0x06, 0x07, 0xF8, 0x08, 0xF7] ∧
          isSystemRealTimeMessage b = false :=
  second_pass_iff (by decide) _

end Midi2.Bytestream
