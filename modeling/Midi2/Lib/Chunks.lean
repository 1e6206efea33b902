import Midi2.Lib.Machine

/-!
# A payload in chunks

A sender gets the elements of a payload one after the other and sends chunks of `n` of them. A
chunk has a label: it is the first, a middle or the last one of its payload, or the only one. So
a full chunk can only be sent when it is known whether anything follows, with the next element
or at the end of the payload.

`cutter` is the sender before the end, and `close` is the chunk that it sends there. `chunks`
are both together: the payload in order (`data_chunks`), in as few chunks as possible
(`length_chunks`), with the labels that a receiver expects (`labels_chunks`). For a sender that
is stopped at any point, `Phase` says which labels it has sent.
-/

universe u

namespace Chunks

inductive Label where
  | single
  | first
  | middle
  | last
  deriving DecidableEq

structure Chunk (β : Type u) where
  label : Label
  data : List β

/-- A sender: nothing of the payload has been sent, and what is not sent yet. -/
structure State (β : Type u) where
  fresh : Bool := true
  data : List β := []

variable {β : Type u} {n : Nat}

/-- The next element of the payload. -/
def cutter (n : Nat) : Machine β (Chunk β) (State β) where
  step s b :=
    if s.data.length = n then (⟨false, [b]⟩, [⟨if s.fresh then .first else .middle, s.data⟩])
    else (⟨s.fresh, s.data ++ [b]⟩, [])

theorem cutter_full {s : State β} (h : s.data.length = n) (b : β) :
    (cutter n).step s b = (⟨false, [b]⟩, [⟨if s.fresh then .first else .middle, s.data⟩]) :=
  if_pos h

theorem cutter_room {s : State β} (h : s.data.length ≠ n) (b : β) :
    (cutter n).step s b = (⟨s.fresh, s.data ++ [b]⟩, []) :=
  if_neg h

/-- As long as there is room nothing is sent. -/
theorem cutter_fill {fresh : Bool} (pre : List β) {bs : List β} (h : (pre ++ bs).length ≤ n) :
    (cutter n).run ⟨fresh, pre⟩ bs = (⟨fresh, pre ++ bs⟩, []) := by
  induction bs generalizing pre with
  | nil => rw [Machine.run_nil, List.append_nil]
  | cons b bs ih =>
      rw [List.append_cons] at h ⊢
      have hroom : pre.length ≠ n := by
        rw [List.length_append, List.length_append, List.length_singleton] at h
        omega
      rw [Machine.run_cons, cutter_room (s := ⟨fresh, pre⟩) hroom, ih _ h, List.nil_append]

/-- The end of the payload. -/
def State.close (s : State β) : Chunk β where
  label := if s.fresh then .single else .last
  data := s.data

/-- The chunks of a payload. -/
def chunks (n : Nat) (payload : List β) : List (Chunk β) :=
  ((cutter n).run {} payload).2 ++ [((cutter n).run {} payload).1.close]

/-! ## Sizes -/

/-- The chunk is as long as its label says. -/
structure Chunk.Sized (n : Nat) (c : Chunk β) : Prop where
  length_le : c.data.length ≤ n
  full : c.label = .first ∨ c.label = .middle → c.data.length = n
  ne_nil : c.label = .last → c.data ≠ []

/-- A chunk that is not complete has an element, unless nothing has been sent before. -/
structure State.Sized (n : Nat) (s : State β) : Prop where
  length_le : s.data.length ≤ n
  ne_nil : s.fresh = false → s.data ≠ []

theorem sized_nil : ({} : State β).Sized n :=
  ⟨Nat.zero_le n, fun h => by cases h⟩

theorem State.Sized.step (hn : 0 < n) {s : State β} (h : s.Sized n) (b : β) :
    ((cutter n).step s b).1.Sized n ∧ ∀ c ∈ ((cutter n).step s b).2, c.Sized n := by
  have hlen := h.length_le
  by_cases hfull : s.data.length = n
  · rw [cutter_full hfull]
    refine ⟨⟨hn, fun _ => List.cons_ne_nil _ _⟩, List.forall_mem_singleton.2 ?_⟩
    refine ⟨hlen, fun _ => hfull, fun hlabel => ?_⟩
    split at hlabel <;> cases hlabel
  · rw [cutter_room hfull]
    refine ⟨⟨?_, fun _ => ?_⟩, List.forall_mem_nil _⟩
    · rw [List.length_append, List.length_singleton]
      omega
    · exact List.append_ne_nil_of_right_ne_nil _ (List.cons_ne_nil _ _)

theorem State.Sized.close {s : State β} (h : s.Sized n) : s.close.Sized n where
  length_le := h.length_le
  full hlabel := by
    obtain ⟨_ | _, data⟩ := s
    · rcases hlabel with hl | hl <;> cases hl
    · rcases hlabel with hl | hl <;> cases hl
  ne_nil hlabel := by
    obtain ⟨_ | _, data⟩ := s
    · exact h.ne_nil rfl
    · cases hlabel

/-! ## Labels -/

/-- The labels of whole payloads, one after the other. -/
inductive Complete : List Label → Prop where
  | nil : Complete []
  | single {ls} : Complete ls → Complete (.single :: ls)
  | multiple (k : Nat) {ls} : Complete ls →
      Complete (.first :: (List.replicate k .middle ++ .last :: ls))

/-- Whole payloads, and the beginning of one. -/
def Begun (ls : List Label) : Prop :=
  ∃ done k, Complete done ∧ ls = done ++ .first :: List.replicate k .middle

/-- What a sender has sent, this payload and others before it. -/
def State.Phase (s : State β) (ls : List Label) : Prop :=
  if s.fresh then Complete ls else Begun ls

theorem Complete.append {ls ls' : List Label} (h : Complete ls) (h' : Complete ls') :
    Complete (ls ++ ls') := by
  induction h with
  | nil => exact h'
  | single _ ih => exact ih.single
  | multiple k _ ih =>
      rw [List.cons_append, List.append_assoc, List.cons_append]
      exact ih.multiple k

/-- After whole payloads no chunk is due. -/
theorem Complete.getLast {ls : List Label} (h : Complete ls) {l : Label}
    (hl : ls.getLast? = some l) : l = .single ∨ l = .last := by
  induction h with
  | nil => cases hl
  | @single ls _ ih =>
      rw [List.getLast?_cons] at hl
      cases hlast : ls.getLast? with
      | none =>
          rw [hlast] at hl
          exact Or.inl (Option.some.inj hl).symm
      | some l' =>
          rw [hlast] at hl
          obtain rfl : l' = l := Option.some.inj hl
          exact ih hlast
  | @multiple k ls _ ih =>
      rw [← List.cons_append, List.getLast?_append, List.getLast?_cons] at hl
      cases hlast : ls.getLast? with
      | none =>
          rw [hlast] at hl
          exact Or.inr (Option.some.inj hl).symm
      | some l' =>
          rw [hlast] at hl
          obtain rfl : l' = l := Option.some.inj hl
          exact ih hlast

theorem Begun.middle {ls : List Label} (h : Begun ls) : Begun (ls ++ [.middle]) := by
  obtain ⟨done, k, hdone, rfl⟩ := h
  refine ⟨done, k + 1, hdone, ?_⟩
  rw [List.append_assoc, List.cons_append, List.replicate_succ']

theorem Begun.last {ls : List Label} (h : Begun ls) : Complete (ls ++ [.last]) := by
  obtain ⟨done, k, hdone, rfl⟩ := h
  rw [List.append_assoc, List.cons_append]
  exact hdone.append (Complete.nil.multiple k)

theorem State.Phase.step {s : State β} {ls : List Label} (h : s.Phase ls) (b : β) :
    ((cutter n).step s b).1.Phase (ls ++ ((cutter n).step s b).2.map Chunk.label) := by
  by_cases hfull : s.data.length = n
  · rw [cutter_full hfull]
    obtain ⟨_ | _, data⟩ := s
    · exact Begun.middle h
    · exact ⟨ls, 0, h, rfl⟩
  · rw [cutter_room hfull, List.map_nil, List.append_nil]
    exact h

theorem State.Phase.close {s : State β} {ls : List Label} (h : s.Phase ls) :
    Complete (ls ++ [s.close.label]) := by
  obtain ⟨_ | _, data⟩ := s
  · exact Begun.last h
  · exact Complete.append h Complete.nil.single

/-! ## Whole payloads -/

/-- A sender that has cut a payload. -/
structure Cut (n : Nat) (payload : List β) (s : State β) (out : List (Chunk β)) : Prop where
  data : out.flatMap Chunk.data ++ s.data = payload
  labels : out.map Chunk.label =
    if s.fresh then [] else .first :: List.replicate (out.length - 1) .middle
  full : ∀ c ∈ out, c.Sized n ∧ c.data.length = n
  sized : s.Sized n

theorem Cut.step (hn : 0 < n) {payload : List β} {s : State β} {out : List (Chunk β)}
    (h : Cut n payload s out) (b : β) :
    Cut n (payload ++ [b]) ((cutter n).step s b).1 (out ++ ((cutter n).step s b).2) := by
  obtain ⟨hsized, hsent⟩ := h.sized.step hn b
  by_cases hfull : s.data.length = n
  · rw [cutter_full hfull] at hsized hsent ⊢
    refine ⟨?_, ?_, ?_, hsized⟩
    · rw [List.flatMap_append, List.flatMap_singleton, h.data]
    · obtain ⟨_ | _, data⟩ := s
      · have hlabels : out.map Chunk.label = .first :: List.replicate (out.length - 1) .middle :=
          h.labels
        have hpos : out.length = out.length - 1 + 1 := by
          have hlen := congrArg List.length hlabels
          rwa [List.length_map, List.length_cons, List.length_replicate] at hlen
        rw [List.map_append, hlabels, List.length_append, List.length_singleton,
          Nat.add_sub_cancel]
        conv_rhs => rw [hpos, List.replicate_succ']
        rfl
      · obtain rfl := List.map_eq_nil_iff.1 h.labels
        rfl
    · refine List.forall_mem_append.2 ⟨h.full, List.forall_mem_singleton.2 ⟨?_, hfull⟩⟩
      exact hsent _ (List.mem_singleton.2 rfl)
  · rw [cutter_room hfull] at hsized ⊢
    rw [List.append_nil]
    refine ⟨?_, h.labels, h.full, hsized⟩
    rw [← List.append_assoc, h.data]

theorem cut_run (hn : 0 < n) (payload : List β) :
    Cut n payload ((cutter n).run {} payload).1 ((cutter n).run {} payload).2 := by
  induction payload using List.reverseRecOn with
  | nil => exact ⟨rfl, rfl, List.forall_mem_nil _, sized_nil⟩
  | append_singleton payload b ih =>
      rw [Machine.run_append, Machine.run_singleton]
      exact ih.step hn b

/-- How much of the payload has been sent. -/
theorem Cut.length_eq {payload : List β} {s : State β} {out : List (Chunk β)}
    (h : Cut n payload s out) : payload.length = n * out.length + s.data.length := by
  have hsum : (out.flatMap Chunk.data).length = n * out.length := by
    rw [List.length_flatMap, List.map_congr_left fun c hc => (h.full c hc).2, List.map_const',
      List.sum_replicate_nat, Nat.mul_comm]
  rw [← h.data, List.length_append, hsum]

/-- Something has been sent once there are more elements than fit in a chunk. -/
theorem fresh_iff (hn : 0 < n) (payload : List β) :
    ((cutter n).run {} payload).1.fresh = true ↔ payload.length ≤ n := by
  have hcut := cut_run hn payload
  have hlen := hcut.length_eq
  have hle := hcut.sized.length_le
  generalize ((cutter n).run {} payload).1 = s at *
  generalize ((cutter n).run {} payload).2 = out at *
  obtain ⟨_ | _, data⟩ := s
  · have hdata := List.length_pos_of_ne_nil (hcut.sized.ne_nil rfl)
    have hpos : 0 < out.length := by
      have hlabels := congrArg List.length hcut.labels
      rw [List.length_map] at hlabels
      rw [hlabels]
      exact Nat.succ_pos _
    have hmul : n * 1 ≤ n * out.length := Nat.mul_le_mul_left n hpos
    exact iff_of_false Bool.false_ne_true (by omega)
  · obtain rfl := List.map_eq_nil_iff.1 hcut.labels
    rw [List.length_nil, Nat.mul_zero, Nat.zero_add] at hlen
    exact iff_of_true rfl (by rwa [hlen])

theorem data_chunks (hn : 0 < n) (payload : List β) :
    (chunks n payload).flatMap Chunk.data = payload := by
  rw [chunks, List.flatMap_append, List.flatMap_singleton]
  exact (cut_run hn payload).data

/-- Without an element there is one chunk, too. -/
theorem length_chunks (hn : 0 < n) (payload : List β) :
    (chunks n payload).length = max 1 ((payload.length + n - 1) / n) := by
  have hcut := cut_run hn payload
  have hlen := hcut.length_eq
  have hle := hcut.sized.length_le
  rw [chunks, List.length_append, List.length_singleton]
  generalize ((cutter n).run {} payload).1 = s at *
  generalize ((cutter n).run {} payload).2 = out at *
  cases hdata : s.data with
  | nil =>
      obtain ⟨_ | _, data⟩ := s
      · exact absurd hdata (hcut.sized.ne_nil rfl)
      · obtain rfl := List.map_eq_nil_iff.1 hcut.labels
        rw [hdata, List.length_nil, List.length_nil, Nat.mul_zero] at hlen
        rw [hlen, Nat.div_eq_of_lt (by omega)]
        rfl
  | cons b data =>
      rw [hdata, List.length_cons] at hlen hle
      have hcount : (payload.length + n - 1) / n = out.length + 1 := by
        refine Nat.div_eq_of_lt_le ?_ ?_
        · rw [hlen, Nat.add_mul, Nat.mul_comm out.length]
          omega
        · rw [hlen, Nat.add_mul, Nat.add_mul, Nat.mul_comm out.length]
          omega
      rw [hcount, Nat.max_eq_right (Nat.le_add_left 1 _)]

/-- A payload that fits in one chunk is a single one. -/
theorem labels_chunks (hn : 0 < n) (payload : List β) :
    (chunks n payload).map Chunk.label =
      if payload.length ≤ n then [.single]
      else .first :: (List.replicate ((chunks n payload).length - 2) .middle ++ [.last]) := by
  have hcut := cut_run hn payload
  have hlen := hcut.length_eq
  have hle := hcut.sized.length_le
  rw [chunks, List.map_append, hcut.labels, List.map_singleton, List.length_append,
    List.length_singleton]
  generalize ((cutter n).run {} payload).1 = s at *
  generalize ((cutter n).run {} payload).2 = out at *
  obtain ⟨_ | _, data⟩ := s
  · have hdata := List.length_pos_of_ne_nil (hcut.sized.ne_nil rfl)
    have hpos : 0 < out.length := by
      have hlabels := congrArg List.length hcut.labels
      rw [List.length_map] at hlabels
      rw [hlabels]
      exact Nat.succ_pos _
    have hmul : n * 1 ≤ n * out.length := Nat.mul_le_mul_left n hpos
    rw [if_neg (show ¬payload.length ≤ n by omega)]
    rfl
  · obtain rfl := List.map_eq_nil_iff.1 hcut.labels
    rw [List.length_nil, Nat.mul_zero, Nat.zero_add] at hlen
    rw [if_pos (show payload.length ≤ n by rwa [hlen])]
    rfl

end Chunks
