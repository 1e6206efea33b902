import Midi2.Ump.ChannelIsolation
import Midi2.Ump.Reset

/-!
# The bank of upgraded program changes

In MIDI 1.0 a bank is selected by two control changes before the program change, in MIDI 2.0 it
is a part of the program change. `ump_to_midi2` remembers the two halves for each channel, and
forgets them in `reset()` only. A program change carries the most recent of each if there is
one of both, and no bank otherwise (`bank_programChange`).
-/

namespace Midi2.Ump

open Adt

namespace ToMidi2

/-! ## Messages and resets -/

/-- The words of a message, with the output drained after each, or a call of `reset()`. -/
def resettable : Machine (Packet ⊕ Unit) Word (UmpDispatcher × Context State (Fifo Word 2)) where
  step s x :=
    match x with
    | .inl p => translator.client.perWord.run s p.words
    | .inr _ => ((s.1, reset s.2), [])

/-- What comes out for the words of `p`, after the messages and resets `xs`. -/
def emitAfter (g : Nat) (xs : List (Packet ⊕ Unit)) (p : Packet) : List Word :=
  (resettable.step (resettable.run ({}, ⟨.create g, {}⟩) xs).1 (.inl p)).2

/-- The messages since the last reset, or since construction. -/
def sinceReset (xs : List (Packet ⊕ Unit)) : List Packet :=
  (xs.rtakeWhile Sum.isLeft).filterMap Sum.getLeft?

theorem sinceReset_message (xs : List (Packet ⊕ Unit)) (p : Packet) :
    sinceReset (xs ++ [.inl p]) = sinceReset xs ++ [p] := by
  rw [sinceReset, List.rtakeWhile_concat_pos _ _ _ rfl, List.filterMap_append]
  rfl

theorem sinceReset_reset (xs : List (Packet ⊕ Unit)) : sinceReset (xs ++ [.inr ()]) = [] := by
  rw [sinceReset, List.rtakeWhile_concat_neg _ _ _ Bool.false_ne_true]
  rfl

/-! ## The bank that is remembered -/

/-- The bank after some control changes. -/
def bankOf (h : History) : Bank :=
  h.foldl .receive {}

/-- The halves of the bank are the most recent ones. -/
theorem bankOf_eq (h : History) : bankOf h =
    { msbValid := (h.value .bankSelect).isSome
      msb := (h.value .bankSelect).getD 0
      lsbValid := (h.value .bankSelectLsb).isSome
      lsb := (h.value .bankSelectLsb).getD 0 } := by
  induction h using List.reverseRecOn with
  | nil => rfl
  | append_singleton h e ih =>
      obtain ⟨control, value⟩ := e
      have hconcat : bankOf (h ++ [(control, value)]) = (bankOf h).receive (control, value) := by
        rw [bankOf, List.foldl_append]
        rfl
      have hvalue (c : Control) : History.value (h ++ [(control, value)]) c =
          if control == c then some value else History.value h c := by
        rw [History.value, History.last_concat]
        split <;> rfl
      rw [hconcat, ih, hvalue, hvalue]
      cases control with
      | _ => rfl

/-- Between messages a translator has read nothing, its output is empty, and it has the bank
of what has been received since the last reset. -/
structure Remembers (s : UmpDispatcher × Context State (Fifo Word 2)) (ps : List Packet) :
    Prop where
  read : s.1.read = []
  output : s.2.output.Holds []
  bank : ∀ k : Channel, s.2.state.bank k.1 k.2 = bankOf (history k ps)

theorem Remembers.message {s : UmpDispatcher × Context State (Fifo Word 2)} {ps : List Packet}
    (h : Remembers s ps) (p : Packet) :
    Remembers (resettable.step s (.inl p)).1 (ps ++ [p]) ∧
      (resettable.step s (.inl p)).2 = wordsOf (translator.messages s.2.state p).output := by
  obtain ⟨d, ctxt⟩ := s
  obtain ⟨d', hread, hrun⟩ := translator.client.run_packet h.read h.output p
  obtain ⟨⟨hstate, hempty⟩, hwords⟩ := translator.drain_call (⟨rfl, h.output⟩ :
    Translator.Drained ctxt ctxt.state) p
  have hstep : resettable.step (d, ctxt) (.inl p) =
      ((d', (translator.client.perPacket.step ctxt p).1),
        (translator.client.perPacket.step ctxt p).2) := hrun
  rw [hstep]
  refine ⟨⟨hread, hempty, fun k => ?_⟩, hwords⟩
  have hbank : (translator.client.perPacket.step ctxt p).1.state =
      (translator.messages ctxt.state p).state := hstate
  rw [hbank, bank_step, h.bank k, history_append, history_singleton, bankOf, bankOf,
    List.foldl_append]

theorem Remembers.reset {s : UmpDispatcher × Context State (Fifo Word 2)} {ps : List Packet}
    (h : Remembers s ps) : Remembers (resettable.step s (.inr ())).1 [] :=
  ⟨h.read, h.output.clear, fun _ => rfl⟩

theorem remembers_run (g : Nat) (xs : List (Packet ⊕ Unit)) :
    Remembers (resettable.run ({}, ⟨.create g, {}⟩) xs).1 (sinceReset xs) := by
  induction xs using List.reverseRecOn with
  | nil => exact ⟨rfl, Fifo.holds_nil, fun _ => rfl⟩
  | append_singleton xs x ih =>
      rw [Machine.run_append, Machine.run_singleton]
      cases x with
      | inl p =>
          rw [sinceReset_message]
          exact (ih.message p).1
      | inr u =>
          rw [sinceReset_reset]
          exact ih.reset

/-! ## Program changes -/

/-- What `program_change` sends. -/
def programChangeMessage (b : Bank) (m : Message) : Message :=
  let out := (M2cvm.init .programChange)
    |>.set .group (m.get .group)
    |>.set .channel (m.get .channel)
    |>.set M2cvm.program (m.get M1cvm.program)
  if b.isValid then
    out
      |>.set M2cvm.bankValid 1
      |>.set M2cvm.bankMsb b.msb
      |>.set M2cvm.bankLsb b.lsb
  else
    out

/-- Nothing but a program change makes a program change. -/
theorem callback_of_programChange {p : Packet} (hp : p.message.type = .m1cvm) {s : State}
    {m : Message} (hm : m ∈ (translator.messages s p).output)
    (h : m.call.callback = .m2cvm .programChange) :
    p.message.call.callback = .m1cvm .programChange := by
  have hskip (hnone : translator.messages s p = ⟨s, []⟩) : False := by
    rw [hnone] at hm
    exact List.not_mem_nil hm
  have hknown : p.message.Known := by
    by_contra hunknown
    exact hskip (messages_skipped (Or.inr hunknown) s)
  obtain ⟨status, hcallback⟩ := callback_m1cvm hp hknown
  rw [Translator.messages, Message.call_eq hcallback Callback.noConfusion] at hm
  rcases output_m1cvm_cases status s p.message with hnone | ⟨status', m', hone, his, hprogram⟩
  · exact absurd (hnone ▸ hm) List.not_mem_nil
  obtain rfl : m = m' := List.mem_singleton.1 (hone ▸ hm)
  rw [his.call] at h
  rw [hcallback, hprogram (Callback.m2cvm.inj h)]

theorem output_programChange {p : Packet} (h : p.message.call.callback = .m1cvm .programChange)
    (s : State) : (translator.messages s p).output =
      [programChangeMessage (s.bank p.address.1 p.address.2) p.message] := by
  rw [Translator.messages, Message.call_eq h]
  rfl

/-- The most recent bank after a history: both of its halves, or nothing. -/
structure CarriesBank (h : History) (m : Message) : Prop where
  valid : m.get M2cvm.bankValid ≠ 0 ↔
    (h.value .bankSelect).isSome ∧ (h.value .bankSelectLsb).isSome
  recent : m.get M2cvm.bankValid ≠ 0 → h.value .bankSelect = some (m.get M2cvm.bankMsb) ∧
    h.value .bankSelectLsb = some (m.get M2cvm.bankLsb)
  zero : m.get M2cvm.bankValid = 0 → m.get M2cvm.bankMsb = 0 ∧ m.get M2cvm.bankLsb = 0

theorem value_lt {k : Channel} {ps : List Packet} {c : Control} {v : Nat}
    (h : History.value (history k ps) c = some v) : v < 2 ^ 7 := by
  obtain ⟨e, he, rfl⟩ := Option.map_eq_some_iff.1 h
  have hmem := List.mem_of_getLast? he
  exact history_lt k ps e (List.mem_filter.1 hmem).1

/-- The default message has no bank, and its first setters do not give it one. -/
theorem get_programChangeMessage {b : Bank} (hb : b.isValid = false) (m : Message) :
    (programChangeMessage b m).get M2cvm.bankValid = 0 ∧
    (programChangeMessage b m).get M2cvm.bankMsb = 0 ∧
    (programChangeMessage b m).get M2cvm.bankLsb = 0 := by
  let xs := [(.group, m.get .group), (.channel, m.get .channel),
    (M2cvm.program, m.get M1cvm.program)]
  have hmessage : programChangeMessage b m = (M2cvm.init .programChange).sets xs := by
    simp only [programChangeMessage, hb]
    rfl
  have hget (f : Field) (hf : ∀ g ∈ [Field.group, .channel, M2cvm.program], g.Disjoint f) :
      ((M2cvm.init .programChange).sets xs).get f = (M2cvm.init .programChange).get f := by
    refine Message.get_sets_of_disjoint _ fun x hx => hf x.1 ?_
    exact List.mem_map_of_mem hx
  rw [hmessage, hget _ (by decide), hget _ (by decide), hget _ (by decide)]
  decide

/-- With both halves of a bank, the last three setters put them in. -/
theorem get_programChangeMessage_valid {msb lsb : Nat} (hmsb : msb < 2 ^ 7) (hlsb : lsb < 2 ^ 7)
    (m : Message) :
    (programChangeMessage ⟨true, msb, true, lsb⟩ m).get M2cvm.bankValid = 1 ∧
    (programChangeMessage ⟨true, msb, true, lsb⟩ m).get M2cvm.bankMsb = msb ∧
    (programChangeMessage ⟨true, msb, true, lsb⟩ m).get M2cvm.bankLsb = lsb := by
  let xs := [(.group, m.get .group), (.channel, m.get .channel),
    (M2cvm.program, m.get M1cvm.program), (M2cvm.bankValid, 1), (M2cvm.bankMsb, msb),
    (M2cvm.bankLsb, lsb)]
  have hprogram : m.get M1cvm.program < 2 ^ 8 :=
    Nat.lt_of_lt_of_le (m.get_lt M1cvm.program) (by decide)
  have hget : ∀ x ∈ xs, ((M2cvm.init .programChange).sets xs).get x.1 = x.2 := by
    refine (M2cvm.is_init .programChange).get_sets [.group, .channel, M2cvm.program,
      M2cvm.bankValid, M2cvm.bankMsb, M2cvm.bankLsb] ?_
    simp only [xs, List.forall_mem_cons]
    exact ⟨m.get_lt _, m.get_lt _, hprogram, Nat.one_lt_two, hmsb, hlsb, List.forall_mem_nil _⟩
  simp only [xs, List.forall_mem_cons] at hget
  obtain ⟨-, -, -, hvalid, hmsb, hlsb, -⟩ := hget
  exact ⟨hvalid, hmsb, hlsb⟩

theorem carriesBank {k : Channel} (ps : List Packet) (m : Message) :
    CarriesBank (history k ps) (programChangeMessage (bankOf (history k ps)) m) := by
  by_cases hvalid : (bankOf (history k ps)).isValid = true
  · rw [bankOf_eq] at hvalid ⊢
    obtain ⟨hlsb, hmsb⟩ := Bool.and_eq_true_iff.1 hvalid
    obtain ⟨lsb, hlsb⟩ := Option.isSome_iff_exists.1 hlsb
    obtain ⟨msb, hmsb⟩ := Option.isSome_iff_exists.1 hmsb
    obtain ⟨hone, hm, hl⟩ := get_programChangeMessage_valid (value_lt hmsb) (value_lt hlsb) m
    simp only [hmsb, hlsb, Option.isSome_some, Option.getD_some]
    refine ⟨?_, fun _ => ?_, fun hzero => absurd (hone.symm.trans hzero) Nat.one_ne_zero⟩
    · rw [hone, hmsb, hlsb]
      exact iff_of_true Nat.one_ne_zero ⟨rfl, rfl⟩
    · rw [hm, hl]
      exact ⟨hmsb, hlsb⟩
  · have hinvalid := Bool.eq_false_of_not_eq_true hvalid
    obtain ⟨hzero, hm, hl⟩ := get_programChangeMessage hinvalid m
    refine ⟨?_, fun hne => absurd hzero hne, fun _ => ⟨hm, hl⟩⟩
    refine iff_of_false (fun hne => hne hzero) fun hboth => hvalid ?_
    rw [bankOf_eq]
    exact Bool.and_eq_true_iff.2 hboth.symm

/-- Whatever came before, a program change that is sent for a MIDI 1.0 channel voice message
carries the bank that its channel has selected since the last reset. -/
theorem bank_programChange (g : Nat) (xs : List (Packet ⊕ Unit)) (p : Packet)
    (hp : p.message.type = .m1cvm) : ∀ m ∈ framesOf (emitAfter g xs p),
      m.call.callback = .m2cvm .programChange →
        CarriesBank (history m.address (sinceReset xs)) m := by
  intro m hm hprogram
  have hremembers := remembers_run g xs
  have hemitted : emitAfter g xs p = _ := (hremembers.message p).2
  generalize (resettable.run ({}, ⟨.create g, {}⟩) xs).1 = r at hremembers hemitted
  have hemit : framesOf (emitAfter g xs p) = (translator.messages r.2.state p).output := by
    have hframes := (framesOf_wordsOf (translator.whole p r.2.state) partial_nil).1
    rw [List.append_nil] at hframes
    rw [hemitted]
    exact hframes
  rw [hemit] at hm
  have hcallback := callback_of_programChange hp hm hprogram
  have haddress := address_output r.2.state p m hm
  rw [output_programChange hcallback, List.mem_singleton, hremembers.bank] at hm
  rw [haddress, hm]
  exact carriesBank _ _

/-- Bank 1, a reset, both halves of bank 5, 7, and the program 42. -/
theorem bank_programChange_reset :
    CarriesBank (history (Message.address ⟨[0x40C00001, 0x2A000507]⟩)
      (sinceReset [.inl { message := ⟨[0x20B00001]⟩ }, .inr (),
        .inl { message := ⟨[0x20B02007]⟩ }, .inl { message := ⟨[0x20B00005]⟩ }]))
      ⟨[0x40C00001, 0x2A000507]⟩ := by
  refine bank_programChange 0 _ { message := ⟨[0x20C02A00]⟩ } (by decide) _ ?_ (by decide)
  have hemit : emitAfter 0 [.inl { message := ⟨[0x20B00001]⟩ }, .inr (),
      .inl { message := ⟨[0x20B02007]⟩ }, .inl { message := ⟨[0x20B00005]⟩ }]
      { message := ⟨[0x20C02A00]⟩ } = wordsOf [⟨[0x40C00001, 0x2A000507]⟩] ++ [] := by
    decide +kernel
  rw [hemit, (framesOf_wordsOf (List.forall_mem_singleton.2 (by decide)) partial_nil).1]
  exact List.mem_singleton.2 rfl

end ToMidi2

end Midi2.Ump
