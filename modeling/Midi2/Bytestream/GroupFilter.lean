import Midi2.Bytestream.RunningStatus

/-!
# The group filter (`bytestream/ump_to_bytestream.hpp`)

`group_filter` tells `to_bytestream` of which groups it is to write messages. The functions
for channel voice, system and data messages test the filter before they do anything else. So a
message of another group is as good as absent: no byte comes out for it, and the running
status, which also tells whether a system exclusive message is open, stays what it was
(`encoder_step_excluded`). What is left of the stream is written as without a filter
(`encoder_step_kept`).
-/

namespace Midi2.Bytestream.ToBytestream

open Adt Ump

/-- `to_bytestream` when it has been told of its groups. -/
def configured (groupBitmap : BitVec 16) : State :=
  (groupFilter groupBitmap ⟨{}, {}⟩).state

/-- A message of a kind that the filter is for, and of a group that is not in the bitmap. -/
def Excluded (groupBitmap : BitVec 16) (p : Packet) : Prop :=
  (p.message.type = .m1cvm ∨ p.message.type = .system ∨ p.message.type = .data64) ∧
  groupBitmap.getLsbD (p.message.get .group) = false

instance (groupBitmap : BitVec 16) : DecidablePred (Excluded groupBitmap) := fun _ =>
  inferInstanceAs (Decidable (_ ∧ _))

theorem configured_eq {groupBitmap : BitVec 16} (h : groupBitmap ≠ 0) :
    configured groupBitmap = { onlyGroups := groupBitmap } := by
  have hzero : (groupBitmap == 0) = false := beq_eq_false_iff_ne.2 h
  rw [configured, groupFilter, Context.update, hzero]
  rfl

theorem filterMessage_eq (state : State) (group : Nat) :
    state.filterMessage group = !(state.onlyGroups.getLsbD group && decide (group < 16)) := by
  have hand : state.onlyGroups &&& (1 <<< group) =
      if state.onlyGroups.getLsbD group then BitVec.twoPow 16 group else 0 :=
    BitVec.and_twoPow state.onlyGroups group
  rw [State.filterMessage, hand]
  cases hbit : state.onlyGroups.getLsbD group with
  | false => rfl
  | true =>
      have hlt : group < 16 := BitVec.lt_of_getLsbD hbit
      have hne : BitVec.twoPow 16 group ≠ 0 := by
        intro hzero
        have hone := congrArg (BitVec.getLsbD · group) hzero
        simp [hlt] at hone
      rw [if_pos rfl, beq_eq_false_iff_ne.2 hne, decide_eq_true hlt]
      rfl

/-- The filter of the code is the bit of the group. -/
theorem filtered_eq (groupBitmap : BitVec 16) (p : Packet) :
    filtered groupBitmap p = !groupBitmap.getLsbD (p.message.get .group) := by
  have hgroup : p.message.get .group < 16 := p.message.get_lt .group
  rw [filtered, filterMessage_eq, decide_eq_true hgroup, Bool.and_true]

theorem filtered_default (p : Packet) : filtered 0xFFFF p = false :=
  filterMessage_default (p.message.get_lt .group)

/-- Messages of the other kinds are not written at all. -/
theorem tokens_of_type (state : State) {p : Packet}
    (h : ¬(p.message.type = .m1cvm ∨ p.message.type = .system ∨ p.message.type = .data64)) :
    tokens state p.message.call = [] := by
  have htype {mt : MessageType} (hc : p.message.call.callback.type? = some mt) :
      p.message.type = mt := Message.type_of_call hc
  rw [tokens_eq]
  cases hs : p.message.call.callback with
  | system s => exact absurd (Or.inr (Or.inl (htype (by rw [hs]; rfl)))) h
  | m1cvm s => exact absurd (Or.inl (htype (by rw [hs]; rfl))) h
  | data64 s => exact absurd (Or.inr (Or.inr (htype (by rw [hs]; rfl)))) h
  | _ => exact ite_self _

/-- A message without bytes changes nothing. -/
theorem encoder_step_nil {state : State} {p : Packet} (h : tokens state p.message.call = []) :
    encoder.step state p = (state, []) := by
  show (({ state with status := (alphabet.elide.run _ _).1 } : State),
    (alphabet.elide.run _ _).2) = _
  rw [h]
  rfl

theorem encoder_step_excluded {state : State} {p : Packet} (h : Excluded state.onlyGroups p) :
    encoder.step state p = (state, []) := by
  have hfiltered : filtered state.onlyGroups p = true := by rw [filtered_eq, h.2]; rfl
  exact encoder_step_nil (by rw [tokens_eq, if_pos hfiltered])

/-- A message that is not excluded is written as if there were no filter. -/
theorem encoder_step_kept {groupBitmap : BitVec 16} {p : Packet} (h : ¬Excluded groupBitmap p)
    (status : Option Byte) :
    (encoder.step { onlyGroups := groupBitmap, status } p).1 =
      { onlyGroups := groupBitmap, status := (encoder.step { status } p).1.status } ∧
    (encoder.step { onlyGroups := groupBitmap, status } p).2 =
      (encoder.step { status } p).2 := by
  have htokens : tokens { onlyGroups := groupBitmap, status } p.message.call =
      tokens { status } p.message.call := by
    by_cases htype : p.message.type = .m1cvm ∨ p.message.type = .system ∨ p.message.type = .data64
    · have hbit : groupBitmap.getLsbD (p.message.get .group) = true := by
        rw [← Bool.not_eq_false]
        exact fun hbit => h ⟨htype, hbit⟩
      have hfiltered : filtered groupBitmap p = false := by rw [filtered_eq, hbit]; rfl
      simp only [tokens_eq, hfiltered, filtered_default]
    · rw [tokens_of_type _ htype, tokens_of_type _ htype]
  constructor <;> simp only [encoder, htokens]

/-- The filtered run is the unfiltered one of the messages that are not excluded. -/
theorem encoder_run_filter (groupBitmap : BitVec 16) (ps : List Packet) :
    (encoder.run { onlyGroups := groupBitmap } ps).2 =
      (encoder.run {} (ps.filter fun p => ¬Excluded groupBitmap p)).2 := by
  -- The status of the two encoders is the same all along.
  have hrun : ∀ (status : Option Byte) (ps : List Packet),
      (encoder.run { onlyGroups := groupBitmap, status } ps).2 =
        (encoder.run { status } (ps.filter fun p => ¬Excluded groupBitmap p)).2 := by
    intro status ps
    induction ps generalizing status with
    | nil => rfl
    | cons p ps ih =>
        by_cases hp : Excluded groupBitmap p
        · have hdrop : (p :: ps).filter (fun p => ¬Excluded groupBitmap p) =
              ps.filter fun p => ¬Excluded groupBitmap p :=
            List.filter_cons_of_neg (by simpa using hp)
          rw [hdrop, Machine.run_cons, encoder_step_excluded hp, List.nil_append]
          exact ih status
        · have hkeep : (p :: ps).filter (fun p => ¬Excluded groupBitmap p) =
              p :: ps.filter fun p => ¬Excluded groupBitmap p :=
            List.filter_cons_of_pos (by simpa using hp)
          obtain ⟨hstate, hout⟩ := encoder_step_kept hp status
          rw [hkeep, Machine.run_cons, Machine.run_cons, hstate, hout, ih]
          rfl
  exact hrun none ps

/-- The messages of the groups that are filtered out have no effect: the bytes are those of
the other messages without a filter. No byte comes out for such a message, and the running
status and the groups are the same before and after it. -/
theorem groupFilter_noninterference (groupBitmap : BitVec 16) (ps : List Packet)
    (h : groupBitmap ≠ 0) :
    (run (configured groupBitmap) (ps.flatMap Packet.words)).2 =
      (run {} ((ps.filter fun p => ¬Excluded groupBitmap p).flatMap Packet.words)).2 ∧
    ∀ pre p, Excluded groupBitmap p →
      (run (configured groupBitmap) ((pre ++ [p]).flatMap Packet.words)).2 =
        (run (configured groupBitmap) (pre.flatMap Packet.words)).2 ∧
      (run (configured groupBitmap) ((pre ++ [p]).flatMap Packet.words)).1.state =
        (run (configured groupBitmap) (pre.flatMap Packet.words)).1.state := by
  rw [configured_eq h]
  constructor
  · rw [(run_words _ _).2, (run_words _ _).2, encoder_run_filter]
  · intro pre p hp
    have hgroups := congrArg State.onlyGroups (encoder_status groupBitmap pre)
    have hstep := @encoder_step_excluded (encoder.run { onlyGroups := groupBitmap } pre).1 p
      (by rw [hgroups]; exact hp)
    have hrun := Machine.run_append encoder { onlyGroups := groupBitmap } pre [p]
    rw [Machine.run_singleton, hstep, List.append_nil] at hrun
    constructor
    · rw [(run_words _ _).2, (run_words _ _).2, hrun]
    · rw [(run_words _ _).1, (run_words _ _).1, hrun]

/-- Two notes of group 0, and one of group 1 between them. -/
def notes : List Packet :=
  [{ message := ⟨[0x20904340]⟩ }, { message := ⟨[0x21804340]⟩ }, { message := ⟨[0x20904300]⟩ }]

/-- Group 0 only: the second of its notes has no status byte. -/
theorem groupFilter_noninterference_notes :
    (run (configured 1) (notes.flatMap Packet.words)).2 = [0x90, 0x43, 0x40, 0x43, 0x00] ∧
    (run (configured 1) (notes.flatMap Packet.words)).2 =
      (run {} ((notes.filter fun p => ¬Excluded 1 p).flatMap Packet.words)).2 :=
  ⟨by decide +kernel, (groupFilter_noninterference 1 notes (by decide)).1⟩

end Midi2.Bytestream.ToBytestream
