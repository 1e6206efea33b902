import Mathlib.Data.List.Chain
import Midi2.Lib.Machine

/-!
# Leaving out repeated headers

A stream consists of tokens, headers and data. A message is a header and as many data as the
header says. If the header of a message is that of the message before it, then it can be left
out (`elide`), since a receiver that keeps the last header can put it back (`restore`). Some
headers are passing: such a message has no data, may come anywhere in between and changes
nothing.

The receiver notices a message by its last token. So what gets lost is a message that is only
a header, directly after one with the same header, and nothing else is lost (`restore_encode`,
`dedupe_eq_iff`); to send what has been received takes the same tokens again (`encode_dedupe`).
-/

universe u

namespace Elision

/-- The tokens of a stream. A header with an arity begins a message. -/
structure Alphabet (β : Type u) where
  header : β → Bool
  passing : β → Bool
  arity : β → Option Nat
  header_of_passing : ∀ {b}, passing b = true → header b = true
  arity_of_passing : ∀ {b}, passing b = true → arity b = some 0

/-- A message: a header and its data. -/
structure Block (β : Type u) where
  header : β
  data : List β
  deriving DecidableEq

def Block.tokens {β : Type u} (m : Block β) : List β :=
  m.header :: m.data

/-- A receiver: the last header, and the data that it has of a message. -/
structure Open (β : Type u) where
  header : Option β := none
  data : List β := []

namespace Alphabet

variable {β : Type u} (A : Alphabet β)

/-- A message with as many data as its header says. -/
structure Formed (m : Block β) : Prop where
  header : A.header m.header = true
  data : ∀ b ∈ m.data, A.header b = false
  arity : A.arity m.header = some m.data.length

instance (m : Block β) : Decidable (A.Formed m) :=
  decidable_of_iff (_ ∧ _ ∧ _) ⟨fun ⟨header, data, arity⟩ => ⟨header, data, arity⟩,
    fun h => ⟨h.header, h.data, h.arity⟩⟩

variable {A}

variable (A) in
theorem formed_passing {b : β} (h : A.passing b = true) : A.Formed ⟨b, []⟩ :=
  ⟨A.header_of_passing h, List.forall_mem_nil _, A.arity_of_passing h⟩

theorem Formed.data_of_passing {m : Block β} (h : A.Formed m) (hp : A.passing m.header = true) :
    m.data = [] := by
  have harity := h.arity
  rw [A.arity_of_passing hp] at harity
  exact List.length_eq_zero_iff.1 (Option.some.inj harity).symm

theorem not_passing_of_data {b : β} (h : A.header b = false) : A.passing b = false := by
  cases hp : A.passing b with
  | false => rfl
  | true =>
      rw [A.header_of_passing hp] at h
      exact h

/-! ## The two machines -/

section Elide

variable (A) [DecidableEq β]

/-- The state is the last header, unless it is a passing one. -/
def elide : Machine β β (Option β) where
  step s b :=
    if A.header b && !A.passing b then (some b, if s = some b then [] else [b]) else (s, [b])

/-- Messages without their repeated headers. -/
def encode : Machine (Block β) β (Option β) :=
  A.elide.blocks Block.tokens

end Elide

variable (A)

/-- The receiver gets one more datum. -/
def append (s : Open β) (b : β) : Open β × List (Block β) :=
  match s.header with
  | none => (s, [])
  | some h =>
      match A.arity h with
      | none => (s, [])
      | some n =>
          if n ≤ s.data.length then (s, [])
          else if s.data.length + 1 = n then (⟨some h, []⟩, [⟨h, s.data ++ [b]⟩])
          else (⟨some h, s.data ++ [b]⟩, [])

def restore : Machine β (Block β) (Open β) where
  step s b :=
    if A.passing b then (s, [⟨b, []⟩])
    else if A.header b then (⟨some b, []⟩, if A.arity b = some 0 then [⟨b, []⟩] else [])
    else A.append s b

/-! ## Steps -/

variable {A}

theorem restore_header {h : β} (hh : A.header h = true) (hp : A.passing h = false) (s : Open β) :
    A.restore.step s h = (⟨some h, []⟩, if A.arity h = some 0 then [⟨h, []⟩] else []) := by
  simp only [restore, hp, hh]
  rfl

theorem append_eq {h : β} {n : Nat} (harity : A.arity h = some n) (data : List β) (b : β) :
    A.append ⟨some h, data⟩ b =
      if n ≤ data.length then (⟨some h, data⟩, [])
      else if data.length + 1 = n then (⟨some h, []⟩, [⟨h, data ++ [b]⟩])
      else (⟨some h, data ++ [b]⟩, []) := by
  simp only [append, harity]

/-- Data are put back to the last header. -/
theorem restore_data {h : β} {ds : List β} (hdata : ∀ b ∈ ds, A.header b = false) {n : Nat}
    (harity : A.arity h = some n) {pre : List β} (hlen : (pre ++ ds).length = n) (hne : ds ≠ []) :
    A.restore.run ⟨some h, pre⟩ ds = (⟨some h, []⟩, [⟨h, pre ++ ds⟩]) := by
  induction ds generalizing pre with
  | nil => exact absurd rfl hne
  | cons d ds ih =>
      obtain ⟨hd, hds⟩ := List.forall_mem_cons.1 hdata
      rw [List.length_append, List.length_cons] at hlen
      have hstep : A.restore.step ⟨some h, pre⟩ d =
          if pre.length + 1 = n then (⟨some h, []⟩, [⟨h, pre ++ [d]⟩])
          else (⟨some h, pre ++ [d]⟩, []) := by
        have happend := append_eq harity pre d
        rw [if_neg (show ¬n ≤ pre.length by omega)] at happend
        simp only [restore, not_passing_of_data hd, hd]
        exact happend
      rw [Machine.run_cons, hstep]
      cases ds with
      | nil =>
          rw [if_pos (by simpa using hlen)]
          rfl
      | cons d' ds =>
          rw [List.length_cons] at hlen
          rw [if_neg (by omega), ih hds (by simp; omega) (List.cons_ne_nil _ _), List.nil_append,
            List.append_assoc, List.singleton_append]

/-- A whole message is received, whatever came before. -/
theorem restore_tokens {m : Block β} (hm : A.Formed m) (s : Open β) :
    (A.restore.run s m.tokens).2 = [m] := by
  obtain ⟨h, data⟩ := m
  rw [Block.tokens, Machine.run_cons]
  cases hp : A.passing h with
  | true =>
      obtain rfl : data = [] := hm.data_of_passing hp
      have hstep : A.restore.step s h = (s, [⟨h, []⟩]) := if_pos hp
      rw [hstep]
      rfl
  | false =>
      rw [restore_header hm.header hp s, hm.arity]
      cases data with
      | nil => rfl
      | cons d data =>
          rw [@restore_data _ A h (d :: data) hm.data _ hm.arity [] rfl (List.cons_ne_nil d data)]
          rfl

variable (A) in
/-- The last header of a stream, unless it is a passing one. -/
def lastHeader (bs : List β) : Option β :=
  (bs.filter fun b => A.header b && !A.passing b).getLast?

theorem lastHeader_concat (bs : List β) (b : β) :
    A.lastHeader (bs ++ [b]) =
      if A.header b && !A.passing b then some b else A.lastHeader bs := by
  rw [lastHeader, List.filter_append, List.filter_singleton]
  cases A.header b && !A.passing b with
  | true => exact List.getLast?_concat
  | false => exact congrArg List.getLast? (List.append_nil _)

section Step

variable [DecidableEq β]

theorem elide_data (s : Option β) {ds : List β} (hdata : ∀ b ∈ ds, A.header b = false) :
    A.elide.run s ds = (s, ds) := by
  induction ds with
  | nil => rfl
  | cons d ds ih =>
      obtain ⟨hd, hds⟩ := List.forall_mem_cons.1 hdata
      have hstep : A.elide.step s d = (s, [d]) := by simp only [elide, hd]; rfl
      rw [Machine.run_cons, hstep, ih hds, List.singleton_append]

theorem elide_header {h : β} (hh : A.header h = true) (hp : A.passing h = false) (s : Option β)
    (bs : List β) :
    A.elide.run s (h :: bs) = ((A.elide.run (some h) bs).1,
      (if s = some h then [] else [h]) ++ (A.elide.run (some h) bs).2) := by
  have hstep : A.elide.step s h = (some h, if s = some h then [] else [h]) := by
    simp only [elide, hh, hp]
    rfl
  rw [Machine.run_cons, hstep]

/-- If nothing is sent, then there was nothing but the last header. -/
theorem elide_eq_nil {s : Option β} {bs : List β} (h : (A.elide.run s bs).2 = []) :
    (A.elide.run s bs).1 = s := by
  induction bs generalizing s with
  | nil => rfl
  | cons b bs ih =>
      obtain ⟨hhead, htail⟩ := List.append_eq_nil_iff.1 h
      rw [Machine.run_cons, ih htail]
      revert hhead
      simp only [elide]
      split
      case isTrue =>
        split
        case isTrue hs => exact fun _ => hs.symm
        case isFalse => exact fun hb => absurd hb (List.cons_ne_nil _ _)
      case isFalse => exact fun _ => rfl

/-- Sender and receiver agree on the last header. -/
theorem lastHeader_elide {pre : List β} {s : Option β} (h : A.lastHeader pre = s) (bs : List β) :
    A.lastHeader (pre ++ (A.elide.run s bs).2) = (A.elide.run s bs).1 := by
  induction bs generalizing pre s with
  | nil => rwa [Machine.run_nil, List.append_nil]
  | cons b bs ih =>
      rw [Machine.run_cons, ← List.append_assoc]
      refine ih ?_
      simp only [elide]
      split
      case isTrue hb =>
        split
        case isTrue hs => rw [List.append_nil, h, hs]
        case isFalse => rw [lastHeader_concat, if_pos hb]
      case isFalse hb => rw [lastHeader_concat, if_neg hb, h]

/-- Headers are left out, and nothing else happens. -/
theorem elide_sublist (s : Option β) (bs : List β) : (A.elide.run s bs).2.Sublist bs := by
  induction bs generalizing s with
  | nil => exact List.Sublist.refl _
  | cons b bs ih =>
      have hstep : (A.elide.step s b).2.Sublist [b] := by
        simp only [elide]
        split
        case isTrue =>
          split
          case isTrue => exact List.nil_sublist _
          case isFalse => exact List.Sublist.refl _
        case isFalse => exact List.Sublist.refl _
      exact hstep.append (ih _)

/-- What is sent for a message. -/
theorem encode_step {m : Block β} (hm : A.Formed m) (s : Option β) :
    A.encode.step s m =
      if A.passing m.header then (s, m.tokens)
      else (some m.header, if s = some m.header then m.data else m.tokens) := by
  have hrun : A.encode.step s m = ((A.elide.run (A.elide.step s m.header).1 m.data).1,
      (A.elide.step s m.header).2 ++ (A.elide.run (A.elide.step s m.header).1 m.data).2) := rfl
  rw [hrun, elide_data _ hm.data]
  simp only [elide, hm.header, Bool.true_and]
  cases hp : A.passing m.header with
  | true => rfl
  | false =>
      simp only [Bool.not_false, if_true, Bool.false_eq_true, if_false]
      split
      case isTrue => rfl
      case isFalse => rfl

variable (A)

/-- What a receiver of an encoded stream gets: a message without data is lost if the header
before it is the same. -/
def dedupe : Machine (Block β) (Block β) (Option β) where
  step s m :=
    if A.passing m.header then (s, [m])
    else (some m.header, if s = some m.header ∧ m.data = [] then [] else [m])

variable {A}

/-- Sender and receiver have the same header after a message, and the message has been received
unless it is lost. -/
theorem restore_encode_step {m : Block β} (hm : A.Formed m) (s : Option β) :
    A.restore.run ⟨s, []⟩ (A.encode.step s m).2 =
      (⟨(A.encode.step s m).1, []⟩, (A.dedupe.step s m).2) := by
  obtain ⟨h, data⟩ := m
  have harity : A.arity h = some data.length := hm.arity
  rw [encode_step hm]
  cases hp : A.passing h with
  | true =>
      obtain rfl : data = [] := hm.data_of_passing hp
      simp only [dedupe, Block.tokens, hp, if_true]
      rw [Machine.run_singleton]
      simp only [restore, hp, if_true]
  | false =>
      have hheader := restore_header hm.header hp ⟨s, []⟩
      have hrest : data ≠ [] → A.restore.run ⟨some h, []⟩ data = (⟨some h, []⟩, [⟨h, data⟩]) :=
        fun hne => @restore_data _ A h data hm.data _ harity [] rfl hne
      simp only [dedupe, Block.tokens, hp, Bool.false_eq_true, if_false]
      by_cases hs : s = some h
      · subst hs
        by_cases hempty : data = []
        · subst hempty
          rw [if_pos rfl, if_pos ⟨rfl, rfl⟩]
          rfl
        · rw [if_pos rfl, if_neg fun hboth => hempty hboth.2]
          exact hrest hempty
      · rw [if_neg hs, if_neg fun hboth => hs hboth.1, Machine.run_cons, hheader, harity]
        by_cases hempty : data = []
        · subst hempty
          rfl
        · rw [if_neg fun hzero => hempty (List.length_eq_zero_iff.1 (Option.some.inj hzero)),
            hrest hempty, List.nil_append]

theorem dedupe_state {m : Block β} (hm : A.Formed m) (s : Option β) :
    (A.dedupe.step s m).1 = (A.encode.step s m).1 := by
  rw [encode_step hm]
  simp only [dedupe]
  cases A.passing m.header with
  | true => rfl
  | false => rfl

/-- A message that is lost has sent nothing. -/
theorem encode_dedupe_step {m : Block β} (hm : A.Formed m) (s : Option β) :
    A.encode.run s (A.dedupe.step s m).2 = A.encode.step s m := by
  simp only [dedupe]
  split
  case isTrue => exact Machine.run_singleton _ _ _
  case isFalse hp =>
    split
    case isTrue hlost =>
      rw [encode_step hm, if_neg hp, if_pos hlost.1, hlost.2, hlost.1]
      rfl
    case isFalse => exact Machine.run_singleton _ _ _

end Step

/-! ## Runs -/

section Run

variable [DecidableEq β]

theorem restore_encode {ms : List (Block β)} (hms : ∀ m ∈ ms, A.Formed m) (s : Option β) :
    A.restore.run ⟨s, []⟩ (A.encode.run s ms).2 =
      (⟨(A.encode.run s ms).1, []⟩, (A.dedupe.run s ms).2) := by
  induction ms generalizing s with
  | nil => rfl
  | cons m ms ih =>
      obtain ⟨hm, hms⟩ := List.forall_mem_cons.1 hms
      rw [Machine.run_cons, Machine.run_append, restore_encode_step hm, ih hms, Machine.run_cons,
        dedupe_state hm]

theorem encode_dedupe {ms : List (Block β)} (hms : ∀ m ∈ ms, A.Formed m) (s : Option β) :
    A.encode.run s (A.dedupe.run s ms).2 = A.encode.run s ms := by
  induction ms generalizing s with
  | nil => rfl
  | cons m ms ih =>
      obtain ⟨hm, hms⟩ := List.forall_mem_cons.1 hms
      rw [Machine.run_cons, Machine.run_append, encode_dedupe_step hm, dedupe_state hm, ih hms,
        Machine.run_cons]

theorem dedupe_sublist (s : Option β) (ms : List (Block β)) :
    (A.dedupe.run s ms).2.Sublist ms := by
  induction ms generalizing s with
  | nil => exact List.Sublist.refl _
  | cons m ms ih =>
      have hstep : (A.dedupe.step s m).2.Sublist [m] := by
        simp only [dedupe]
        split
        case isTrue => exact List.Sublist.refl _
        case isFalse =>
          split
          case isTrue => exact List.nil_sublist _
          case isFalse => exact List.Sublist.refl _
      exact hstep.append (ih _)

/-- Two messages of which the second is lost, if nothing or a passing message is in between. -/
def Loses (m m' : Block β) : Prop :=
  m.header = m'.header ∧ m'.data = []

instance (m m' : Block β) : Decidable (Loses m m') :=
  inferInstanceAs (Decidable (_ ∧ _))

/-- Nothing is lost exactly if no message repeats the header before it without data. -/
theorem dedupe_eq_iff (s : Option β) (ms : List (Block β)) :
    (A.dedupe.run s ms).2 = ms ↔
      (∀ m ∈ (ms.filter fun m => !A.passing m.header).head?, ¬(s = some m.header ∧ m.data = [])) ∧
        (ms.filter fun m => !A.passing m.header).IsChain fun m m' => ¬Loses m m' := by
  induction ms generalizing s with
  | nil => exact iff_of_true rfl ⟨fun _ h => absurd h (Option.not_mem_none _), List.IsChain.nil⟩
  | cons m ms ih =>
      rw [Machine.run_cons]
      cases hp : A.passing m.header with
      | true =>
          have hstep : A.dedupe.step s m = (s, [m]) := by simp only [dedupe, hp, if_true]
          rw [hstep, List.singleton_append, List.cons_inj_right, ih,
            List.filter_cons_of_neg (by rw [hp]; decide)]
      | false =>
          have hstep : A.dedupe.step s m =
              (some m.header, if s = some m.header ∧ m.data = [] then [] else [m]) := by
            simp only [dedupe, hp, Bool.false_eq_true, if_false]
          rw [hstep, List.filter_cons_of_pos (by rw [hp]; rfl), List.isChain_cons,
            List.head?_cons]
          simp only [Option.mem_def, Option.some.injEq, forall_eq']
          by_cases hlost : s = some m.header ∧ m.data = []
          · refine iff_of_false ?_ fun h => h.1 hlost
            rw [if_pos hlost, List.nil_append]
            intro heq
            have hlen := (dedupe_sublist (A := A) (some m.header) ms).length_le
            rw [heq, List.length_cons] at hlen
            omega
          · simp only [if_neg hlost, List.singleton_append, List.cons_inj_right, ih,
              Option.some.injEq]
            exact (and_iff_right hlost).symm

end Run

/-! ## Any stream -/

/-- What a receiver has of a message. -/
structure FormedOpen (A : Alphabet β) (s : Open β) : Prop where
  header : ∀ h, s.header = some h → A.header h = true
  data : ∀ b ∈ s.data, A.header b = false

/-- Whatever is received, it is a message. -/
theorem formed_restore_step {s : Open β} (hs : A.FormedOpen s) (b : β) :
    A.FormedOpen (A.restore.step s b).1 ∧ ∀ m ∈ (A.restore.step s b).2, A.Formed m := by
  simp only [restore]
  split
  case isTrue hp =>
    exact ⟨hs, List.forall_mem_singleton.2 (A.formed_passing hp)⟩
  case isFalse =>
    split
    case isTrue hb =>
      refine ⟨⟨fun h hh => Option.some.inj hh ▸ hb, List.forall_mem_nil _⟩, ?_⟩
      split
      case isTrue hzero =>
        exact List.forall_mem_singleton.2 ⟨hb, List.forall_mem_nil _, hzero⟩
      case isFalse => exact List.forall_mem_nil _
    case isFalse hb =>
      have hdata : ∀ b' ∈ s.data ++ [b], A.header b' = false := by
        intro b' hb'
        rcases List.mem_append.1 hb' with h | h
        · exact hs.data b' h
        · rw [List.mem_singleton.1 h]
          exact eq_false_of_ne_true hb
      simp only [append]
      split
      case h_1 => exact ⟨hs, List.forall_mem_nil _⟩
      case h_2 h hh =>
        have hheader : ∀ h', some h = some h' → A.header h' = true :=
          fun h' heq => hs.header h' (hh.trans heq)
        split
        case h_1 => exact ⟨hs, List.forall_mem_nil _⟩
        case h_2 n hn =>
          split
          case isTrue => exact ⟨hs, List.forall_mem_nil _⟩
          case isFalse =>
            split
            case isTrue hlen =>
              refine ⟨⟨hheader, List.forall_mem_nil _⟩, ?_⟩
              refine List.forall_mem_singleton.2 ⟨hheader h rfl, hdata, ?_⟩
              rw [hn, ← hlen, List.length_append, List.length_singleton]
            case isFalse => exact ⟨⟨hheader, hdata⟩, List.forall_mem_nil _⟩

theorem formed_restore {s : Open β} (hs : A.FormedOpen s) (bs : List β) :
    ∀ m ∈ (A.restore.run s bs).2, A.Formed m := by
  induction bs generalizing s with
  | nil => exact List.forall_mem_nil _
  | cons b bs ih =>
      obtain ⟨hopen, hout⟩ := formed_restore_step hs b
      rw [Machine.run_cons]
      intro m hm
      rcases List.mem_append.1 hm with h | h
      · exact hout m h
      · exact ih hopen m h

theorem formed_nil : A.FormedOpen {} :=
  ⟨fun _ h => absurd h.symm (Option.some_ne_none _), List.forall_mem_nil _⟩

end Alphabet

end Elision
