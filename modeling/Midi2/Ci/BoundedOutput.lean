import Midi2.Ci.CreateMessage

/-!
# Messages into a range of bytes

When the sentinel of `create_message` is the end of a range, there may be too little room. A
message is written in pieces (`Message.pieces`). A piece for which there is no room is not
written, and takes the iterator to the end of the range, where no further piece can be written.

But the iterator also gets to the end of the range if a piece just fits in there, and `put` does
not tell these two cases apart. So the last piece of a message that fills the range exactly is
not written, while `create_message` returns what it would return if it had been. In all other
cases the message is written as it is without a bound, or the end of the range is returned
(`fits_iff`).
-/

namespace Midi2.Ci

open Layout (blit)

/-! ## Sizes -/

/-- The size of a message, from its header and body. -/
def Message.size (version : B7) (m : Message List) : Nat :=
  match m.body version with
  | none => 0
  | some bs => 13 + bs.length

theorem length_encode (hdr : Header) (m : Message List) :
    (encode hdr m).length = m.size hdr.version := by
  rw [encode_eq, Message.size]
  cases m.body hdr.version with
  | none => rfl
  | some bs =>
      show (headerBytes hdr m.id ++ bs).length = _
      rw [List.length_append, length_headerBytes]

/-! ## Running out of room -/

section Bounded

variable {o : Output} {n : Nat}

theorem Output.put_of_lt (h : o.last = some n) {bs : List Byte} (hroom : o.first + bs.length < n) :
    o.put bs = { o with stored := o.stored ++ bs, first := o.first + bs.length } := by
  have hadvance : o.advance bs.length = o.first + bs.length := by
    rw [advance, h]
    exact Nat.min_eq_left (Nat.le_of_lt hroom)
  have hne : some (o.advance bs.length) ≠ o.last := by
    rw [hadvance, h]
    exact fun heq => absurd (Option.some.inj heq) (Nat.ne_of_lt hroom)
  rw [put, if_pos hne]

/-- This is so also if the bytes would just fit. -/
theorem Output.put_of_le (h : o.last = some n) {bs : List Byte}
    (hfull : n ≤ o.first + bs.length) : o.put bs = { o with first := n } := by
  have hadvance : o.advance bs.length = n := by
    rw [advance, h]
    exact Nat.min_eq_right hfull
  rw [put, hadvance, h, if_neg (not_not.2 rfl)]

/-- At the end of the range nothing happens any more. -/
theorem foldl_put_full (h : o.last = some n) (hfull : o.first = n) (pieces : List (List Byte)) :
    pieces.foldl Output.put o = o := by
  induction pieces with
  | nil => rfl
  | cons bs pieces ih =>
      have hput : o.put bs = o := by
        rw [Output.put_of_le h (by omega), ← hfull]
      rw [List.foldl_cons, hput, ih]

theorem foldl_put_of_lt (h : o.last = some n) {pieces : List (List Byte)}
    (hroom : o.first + pieces.flatten.length < n) :
    pieces.foldl Output.put o =
      { o with
        stored := o.stored ++ pieces.flatten
        first := o.first + pieces.flatten.length } := by
  induction pieces generalizing o with
  | nil => rw [List.flatten_nil, List.append_nil]; rfl
  | cons bs pieces ih =>
      rw [List.flatten_cons, List.length_append] at hroom
      have hput := @Output.put_of_lt o n h bs (by omega)
      have hnext : (o.put bs).first = o.first + bs.length := by rw [hput]
      have hrest := @ih (o.put bs) ((last_put o bs).trans h) (by omega)
      rw [List.foldl_cons, hrest, hput]
      simp only [List.flatten_cons, List.length_append, List.append_assoc, Nat.add_assoc]

/-- Something is missing when the iterator has come to the end of the range. -/
theorem foldl_put_of_le (h : o.last = some n) (hfirst : o.first < n) {pieces : List (List Byte)}
    (hfull : n ≤ o.first + pieces.flatten.length) :
    (pieces.foldl Output.put o).first = n ∧
    (pieces.foldl Output.put o).stored.length + o.first < o.stored.length + n := by
  induction pieces generalizing o with
  | nil => exact absurd hfirst (Nat.not_lt.2 hfull)
  | cons bs pieces ih =>
      rw [List.flatten_cons, List.length_append] at hfull
      have hlast := (last_put o bs).trans h
      rw [List.foldl_cons]
      rcases Nat.lt_or_ge (o.first + bs.length) n with hroom | hover
      · have hput := Output.put_of_lt h hroom
        have hstored : (o.put bs).stored.length = o.stored.length + bs.length := by
          rw [hput, List.length_append]
        have hnext : (o.put bs).first = o.first + bs.length := by rw [hput]
        obtain ⟨hend, hlen⟩ := ih hlast (by omega) (by omega)
        exact ⟨hend, by omega⟩
      · have hput := Output.put_of_le h hover
        have hnext : (o.put bs).first = n := by rw [hput]
        have hstored : (o.put bs).stored = o.stored := by rw [hput]
        rw [foldl_put_full hlast hnext]
        exact ⟨hnext, by rw [hstored]; omega⟩

end Bounded

/-! ## Where the bytes go -/

/-- The memory after pieces have been written to it. Addresses count from the place where the
iterator was at first. -/
def memoryAfter (mem : Nat → Byte) (o : Output) : List (List Byte) → Nat → Byte
  | [] => mem
  | bs :: pieces =>
      memoryAfter (if some (o.advance bs.length) ≠ o.last then blit mem o.first bs else mem)
        (o.put bs) pieces

/-- The iterator is behind what has been stored, or at the end of the range. -/
def Output.Placed (o : Output) : Prop :=
  o.first = o.stored.length ∨ some o.first = o.last

theorem Output.Placed.put {o : Output} (h : o.Placed) (bs : List Byte) :
    (o.put bs).Placed ∧ ∀ mem,
      (if some (o.advance bs.length) ≠ o.last then blit (blit mem 0 o.stored) o.first bs
        else blit mem 0 o.stored) = blit mem 0 (o.put bs).stored := by
  unfold Output.put
  by_cases hroom : some (o.advance bs.length) ≠ o.last
  · have hfirst : o.first = o.stored.length := by
      refine h.resolve_right fun hend => hroom ?_
      rw [Output.advance, ← hend]
      exact congrArg some (Nat.min_eq_right (Nat.le_add_right _ _))
    simp only [if_pos hroom]
    refine ⟨Or.inl ?_, fun mem => ?_⟩
    · rw [hfirst, List.length_append]
    · rw [Layout.blit_append, hfirst, Nat.zero_add]
  · simp only [if_neg hroom]
    exact ⟨Or.inr (not_not.1 hroom), fun _ => trivial⟩

/-- What is stored is in memory, from the place where the iterator was at first. -/
theorem memoryAfter_eq {o : Output} (h : o.Placed) (mem : Nat → Byte)
    (pieces : List (List Byte)) :
    memoryAfter (blit mem 0 o.stored) o pieces =
      blit mem 0 (pieces.foldl Output.put o).stored := by
  induction pieces generalizing o with
  | nil => rfl
  | cons bs pieces ih =>
      obtain ⟨hplaced, hmem⟩ := h.put bs
      rw [memoryAfter, hmem, ih hplaced, List.foldl_cons]

/-! ## Messages that fit -/

/-- `create_message` for a range of `n` bytes: a message that has room is written, for one that
has not the end of the range is returned, and only bytes of the range are written. -/
structure Fits (hdr : Header) (m : Message List) (n : Nat) : Prop where
  written : (encode hdr m).length ≤ n →
    (createMessage { last := some n } hdr m).stored = encode hdr m ∧
    (createMessage { last := some n } hdr m).first = (encode hdr m).length
  full : n < (encode hdr m).length → (createMessage { last := some n } hdr m).first = n
  within : ∀ mem i, n ≤ i → memoryAfter mem { last := some n } (m.pieces hdr) i = mem i

section Cases

variable {hdr : Header} {m : Message List} {n : Nat}

theorem createMessage_of_lt (h : m.size hdr.version < n) :
    (createMessage { last := some n } hdr m).stored = encode hdr m ∧
    (createMessage { last := some n } hdr m).first = m.size hdr.version := by
  rw [← length_encode, encode_eq_flatten] at h
  rw [createMessage_eq, foldl_put_of_lt rfl (by rwa [Nat.zero_add]), ← encode_eq_flatten,
    length_encode]
  exact ⟨rfl, Nat.zero_add _⟩

theorem createMessage_of_le (h : n ≤ m.size hdr.version) :
    (createMessage { last := some n } hdr m).first = n ∧
    ((createMessage { last := some n } hdr m).stored.length < n ∨
      n = 0 ∧ (createMessage { last := some n } hdr m).stored = []) := by
  rw [createMessage_eq]
  cases n with
  | zero =>
      rw [foldl_put_full rfl rfl]
      exact ⟨rfl, Or.inr ⟨rfl, rfl⟩⟩
  | succ n =>
      rw [← length_encode, encode_eq_flatten] at h
      obtain ⟨hend, hlen⟩ := @foldl_put_of_le { last := some (n + 1) } _ rfl (Nat.succ_pos n)
        (m.pieces hdr) (by rwa [Nat.zero_add])
      rw [List.length_nil, Nat.zero_add] at hlen
      exact ⟨hend, Or.inl hlen⟩

theorem length_stored_le :
    (createMessage { last := some n } hdr m).stored.length ≤ n := by
  rcases Nat.lt_or_ge (m.size hdr.version) n with hlt | hge
  · rw [(createMessage_of_lt hlt).1, length_encode]
    exact Nat.le_of_lt hlt
  · rcases (createMessage_of_le hge).2 with hlt | ⟨-, hnil⟩
    · exact Nat.le_of_lt hlt
    · rw [hnil]
      exact Nat.zero_le n

/-- Whatever the room is, nothing behind the range is written. -/
theorem memoryAfter_of_le (mem : Nat → Byte) {i : Nat} (hi : n ≤ i) :
    memoryAfter mem { last := some n } (m.pieces hdr) i = mem i := by
  have hmem := @memoryAfter_eq { last := some n } (Or.inl rfl) mem (m.pieces hdr)
  rw [Layout.blit_nil, ← createMessage_eq] at hmem
  rw [hmem]
  refine Layout.blit_of_ge ?_
  rw [Nat.zero_add]
  exact Nat.le_trans length_stored_le hi

end Cases

/-- A message is not written if it fills the range exactly, unless there is nothing to write. -/
theorem fits_iff (hdr : Header) (m : Message List) (n : Nat) :
    Fits hdr m n ↔ m.size hdr.version ≠ n ∨ m.size hdr.version = 0 := by
  constructor
  · intro h
    by_contra hexact
    obtain ⟨hsize, hne⟩ := not_or.1 hexact
    rw [not_not] at hsize
    obtain ⟨hstored, -⟩ := h.written (by rw [length_encode, hsize])
    rcases (createMessage_of_le (Nat.le_of_eq hsize.symm)).2 with hlt | ⟨hzero, -⟩
    · rw [hstored, length_encode, hsize] at hlt
      exact Nat.lt_irrefl n hlt
    · exact hne (hsize.trans hzero)
  · intro h
    refine ⟨fun hle => ?_, fun hlt => ?_, fun mem i hi => memoryAfter_of_le mem hi⟩
    · rw [length_encode] at hle ⊢
      rcases Nat.lt_or_eq_of_le hle with hlt | heq
      · exact createMessage_of_lt hlt
      · have hzero : m.size hdr.version = 0 := h.resolve_left (not_not.2 heq)
        have hnil : encode hdr m = [] :=
          List.eq_nil_of_length_eq_zero (by rw [length_encode, hzero])
        obtain ⟨hfirst, hstored⟩ := createMessage_of_le (Nat.le_of_eq heq.symm)
        refine ⟨?_, hfirst.trans heq.symm⟩
        rw [hnil]
        exact (hstored.resolve_left (by omega)).2
    · rw [length_encode] at hlt
      exact (createMessage_of_le (Nat.le_of_lt hlt)).1

/-- A profile inquiry has thirteen bytes; into thirteen bytes, it is not written. -/
theorem not_fits : ¬Fits ⟨0x7F, 2, 0x12345, 0x54321⟩ .profileInquiry 13 := by
  intro h
  have hwritten := (h.written (by decide)).1
  revert hwritten
  decide

end Midi2.Ci
