import Midi2.Ump.PassThrough
import Midi2.Ump.Reset

/-!
# A translator whose output is not drained

`context::push` gives the words of a message to the output one after the other and does not
look at what `push_back` returns. Words that do not fit are lost. What has been popped and
what is queued are together the words that were accepted, so a receiver sees whole messages
as long as no message meets an output with room for some but not all of its words
(`Translator.parses_accepted_iff`). In a buffer of four words this can happen to messages of
two words and more: `to_midi1` sends system exclusive messages of this length, and
`ump_to_midi2` sends no other than those of one word without the danger.
-/

namespace Midi2.Ump

open Adt

/-! ## A buffer that fills up -/

/-- Each of the messages finds room for all of its words, or for none. -/
def NoneCut : Nat → List Message → Prop
  | _, [] => True
  | room, m :: ms => (room = 0 ∨ m.words.length ≤ room) ∧ NoneCut (room - m.words.length) ms

theorem noneCut_zero (ms : List Message) : NoneCut 0 ms := by
  induction ms with
  | nil => trivial
  | cons m ms ih =>
      refine ⟨Or.inl rfl, ?_⟩
      rw [Nat.zero_sub]
      exact ih

/-- A message of one word is never cut. -/
theorem noneCut_of_length_le {ms : List Message} (h : ∀ m ∈ ms, m.words.length ≤ 1) (room : Nat) :
    NoneCut room ms := by
  induction ms generalizing room with
  | nil => trivial
  | cons m ms ih =>
      obtain ⟨hm, hms⟩ := List.forall_mem_cons.1 h
      refine ⟨?_, ih hms _⟩
      omega

/-- As many words as there is room for are whole messages if none is cut. -/
theorem parses_take_iff {ms : List Message} (hms : ∀ m ∈ ms, m.Whole) (room : Nat) :
    Parses ((wordsOf ms).take room) ↔ NoneCut room ms := by
  induction ms generalizing room with
  | nil =>
      rw [wordsOf, List.flatMap_nil, List.take_nil]
      exact iff_of_true parses_nil trivial
  | cons m ms ih =>
      obtain ⟨hm, hms⟩ := List.forall_mem_cons.1 hms
      have hwords : wordsOf (m :: ms) = m.words ++ wordsOf ms := List.flatMap_cons
      rw [hwords, List.take_append]
      rcases Nat.lt_or_ge room m.words.length with hlt | hge
      · rw [Nat.sub_eq_zero_of_le (Nat.le_of_lt hlt), List.take_zero, List.append_nil]
        rcases Nat.eq_zero_or_pos room with rfl | hpos
        · rw [List.take_zero]
          exact iff_of_true parses_nil (noneCut_zero _)
        · refine iff_of_false ?_ ?_
          · obtain ⟨hpart, hne⟩ := hm.partial_take hpos hlt
            exact hpart.not_parses hne
          · rintro ⟨hzero | hle, -⟩ <;> omega
      · rw [List.take_of_length_le hge, hm.parses.append_iff, ih hms, NoneCut,
          and_iff_right (Or.inr hge)]

/-! ## Pushing and popping in any order -/

/-- The packet of which the last word is pushed. -/
def Completes (d : UmpDispatcher) (x : Word ⊕ Unit) (p : Packet) : Prop :=
  ∃ w, x = .inl w ∧ p.words = d.read ++ [w]

namespace Translator

variable {τ : Type} (t : Translator τ)

/-- `push(word)`, or `pop()` where there is something to pop, and what is popped. -/
def buffered : Machine (Word ⊕ Unit) Word (UmpDispatcher × Context τ (Fifo Word 2)) where
  step s x :=
    (t.client.use pop s x,
      match x with
      | .inl _ => []
      | .inr _ => if s.2.output.empty then [] else s.2.output.popFront.1.toList)

/-- The translator after a session. -/
def after (init : τ) (xs : List (Word ⊕ Unit)) : UmpDispatcher × Context τ (Fifo Word 2) :=
  (t.buffered.run ({}, ⟨init, {}⟩) xs).1

/-- The words that have been popped, followed by those that are still queued. -/
def accepted (init : τ) (xs : List (Word ⊕ Unit)) : List Word :=
  (t.buffered.run ({}, ⟨init, {}⟩) xs).2 ++ ((t.after init xs).2.output.drain 4).1

/-- The number of words that can be pushed to the output. -/
def room (c : Context τ (Fifo Word 2)) : Nat :=
  4 - c.output.size

theorem after_concat (init : τ) (xs : List (Word ⊕ Unit)) (x : Word ⊕ Unit) :
    t.after init (xs ++ [x]) = t.client.use pop (t.after init xs) x := by
  rw [after, Machine.run_append, Machine.run_singleton]
  rfl

/-- Words that are dispatched one after the other leave a part of a message in the dispatcher,
and a queue in the output. -/
structure Reached (s : UmpDispatcher × Context τ (Fifo Word 2)) (queue : List Word) : Prop where
  read : Partial s.1.read
  output : s.2.output.Holds queue

variable {t}

theorem Reached.room_eq {s : UmpDispatcher × Context τ (Fifo Word 2)} {queue : List Word}
    (h : Reached s queue) : room s.2 = 4 - queue.length := by
  rw [room, h.output.size_eq]

/-- A call: as many of its words are queued as there is room for. -/
theorem holds_call {c : Context τ (Fifo Word 2)} {queue : List Word} (h : c.output.Holds queue)
    (p : Packet) : (t.call p.message.call c).output.Holds
      (queue ++ (wordsOf (t.messages c.state p).output).take (4 - queue.length)) := by
  let R (f : Fifo Word 2) (ms : List Message) : Prop :=
    f.Holds (queue ++ (wordsOf ms).take (4 - queue.length))
  have hsim : Sink.Sim R := by
    refine ⟨fun {f ms} m hf => ?_⟩
    have hall := Fifo.Holds.foldl_pushBack hf m.words
    have hwords : wordsOf (Sink.push ms m) = wordsOf ms ++ m.words := by
      simp [wordsOf, Sink.push]
    show (Sink.push f m).Holds _
    rw [hwords, List.take_append, ← List.append_assoc]
    have hroom : 2 ^ 2 - (queue ++ (wordsOf ms).take (4 - queue.length)).length =
        4 - queue.length - (wordsOf ms).length := by
      rw [List.length_append, List.length_take]
      omega
    rw [hroom] at hall
    exact hall
  have hrel : c.Rel R (⟨c.state, []⟩ : Context τ (List Message)) := by
    refine ⟨rfl, ?_⟩
    show c.output.Holds (queue ++ (wordsOf []).take (4 - queue.length))
    rw [wordsOf, List.flatMap_nil, List.take_nil, List.append_nil]
    exact h
  exact (t.uniform hsim p.message.call hrel).output

/-- A word is pushed. -/
theorem Reached.push {s : UmpDispatcher × Context τ (Fifo Word 2)} {queue : List Word}
    (h : Reached s queue) (w : Word) :
    (∃ p : Packet, p.words = s.1.read ++ [w] ∧ Reached (t.client.use pop s (.inl w))
      (queue ++ (wordsOf (t.messages s.2.state p).output).take (room s.2))) ∨
    (∀ p : Packet, p.words ≠ s.1.read ++ [w]) ∧ Reached (t.client.use pop s (.inl w)) queue := by
  rcases UmpDispatcher.dispatch_cases h.read w with ⟨hwhole, hread, hcall⟩ | ⟨hpart, hread, hcall⟩
  · refine Or.inl ⟨⟨_, hwhole⟩, rfl, ?_, ?_⟩
    · show Partial (s.1.dispatch w).1.read
      rw [hread]
      exact partial_nil
    · have hholds := @holds_call _ t _ _ h.output ⟨_, hwhole⟩
      rw [h.room_eq]
      show ((s.1.dispatch w).2.elim s.2 (t.client.call · s.2)).output.Holds _
      rw [hcall]
      exact hholds
  · refine Or.inr ⟨?_, ?_, ?_⟩
    · intro p hp
      have hwhole : (⟨p.words⟩ : Message).Whole := p.whole
      rw [hp] at hwhole
      exact absurd hwhole (Nat.ne_of_lt hpart)
    · show Partial (s.1.dispatch w).1.read
      rw [hread]
      exact hpart
    · show ((s.1.dispatch w).2.elim s.2 (t.client.call · s.2)).output.Holds _
      rw [hcall]
      exact h.output

/-- A word is popped, if there is one. -/
theorem Reached.pop {s : UmpDispatcher × Context τ (Fifo Word 2)} {queue : List Word}
    (h : Reached s queue) : ∃ queue', Reached (t.client.use pop s (.inr ())) queue' ∧
      (t.buffered.step s (.inr ())).2 ++ queue' = queue := by
  cases queue with
  | nil =>
      have hempty : s.2.output.empty = true := h.output.empty_iff.2 rfl
      have hsame : t.client.use Translator.pop s (.inr ()) = s := by
        show (s.1, Translator.pop () s.2) = s
        rw [Translator.pop, if_pos hempty]
      refine ⟨[], by rw [hsame]; exact h, ?_⟩
      rw [List.append_nil, buffered]
      exact if_pos hempty
  | cons w queue =>
      have hne : ¬s.2.output.empty = true := fun he => by cases h.output.empty_iff.1 he
      obtain ⟨hfront, hrest⟩ := h.output.popFront
      refine ⟨queue, ⟨h.read, ?_⟩, ?_⟩
      · show (Translator.pop () s.2).output.Holds queue
        rw [Translator.pop, if_neg hne]
        exact hrest
      · have hout : (t.buffered.step s (.inr ())).2 = s.2.output.popFront.1.toList := if_neg hne
        rw [hout, hfront]
        rfl

theorem accepted_eq {init : τ} {xs : List (Word ⊕ Unit)} {queue : List Word}
    (h : Reached (t.after init xs) queue) :
    t.accepted init xs = (t.buffered.run ({}, ⟨init, {}⟩) xs).2 ++ queue := by
  have hqueue : ((t.after init xs).2.output.drain 4).1 = queue :=
    (h.output.drain h.output.length_le).1
  rw [accepted, hqueue]

/-- What one more use of the translator adds to the words that were accepted. -/
theorem accepted_concat {init : τ} {xs : List (Word ⊕ Unit)} {queue : List Word}
    (h : Reached (t.after init xs) queue) (x : Word ⊕ Unit) :
    (∃ queue', Reached (t.after init (xs ++ [x])) queue') ∧
    ((∃ p, Completes (t.after init xs).1 x p ∧
      t.accepted init (xs ++ [x]) = t.accepted init xs ++
        (wordsOf (t.messages (t.after init xs).2.state p).output).take
          (room (t.after init xs).2)) ∨
    (∀ p, ¬Completes (t.after init xs).1 x p) ∧
      t.accepted init (xs ++ [x]) = t.accepted init xs) := by
  have hout : (t.buffered.run ({}, ⟨init, {}⟩) (xs ++ [x])).2 =
      (t.buffered.run ({}, ⟨init, {}⟩) xs).2 ++ (t.buffered.step (t.after init xs) x).2 := by
    rw [Machine.run_append, Machine.run_singleton]
    rfl
  have hafter := t.after_concat init xs x
  cases x with
  | inl w =>
      have hnil : (t.buffered.step (t.after init xs) (.inl w)).2 = [] := rfl
      rcases h.push w with ⟨p, hp, hnext⟩ | ⟨hnone, hnext⟩
      · rw [← hafter] at hnext
        refine ⟨⟨_, hnext⟩, Or.inl ⟨p, ⟨w, rfl, hp⟩, ?_⟩⟩
        rw [accepted_eq hnext, accepted_eq h, hout, hnil, List.append_nil, List.append_assoc]
      · rw [← hafter] at hnext
        refine ⟨⟨_, hnext⟩, Or.inr ⟨?_, ?_⟩⟩
        · rintro p ⟨v, hv, hp⟩
          obtain rfl := Sum.inl.inj hv
          exact hnone p hp
        · rw [accepted_eq hnext, accepted_eq h, hout, hnil, List.append_nil]
  | inr k =>
      obtain ⟨queue', hnext, hpopped⟩ := h.pop
      rw [← hafter] at hnext
      refine ⟨⟨_, hnext⟩, Or.inr ⟨?_, ?_⟩⟩
      · rintro p ⟨v, hv, -⟩
        cases hv
      · rw [accepted_eq hnext, accepted_eq h, hout, List.append_assoc, ← hpopped]

variable (t)

theorem reached_after (init : τ) (xs : List (Word ⊕ Unit)) :
    ∃ queue, Reached (t.after init xs) queue := by
  induction xs using List.reverseRecOn with
  | nil => exact ⟨[], partial_nil, Fifo.holds_nil⟩
  | append_singleton xs x ih =>
      obtain ⟨queue, hqueue⟩ := ih
      exact (accepted_concat hqueue x).1

/-- The words that are accepted are whole messages throughout a session if and only if no
message is cut. -/
theorem parses_accepted_iff (init : τ) (xs : List (Word ⊕ Unit)) :
    (∀ pre, pre <+: xs → Parses (t.accepted init pre)) ↔
      Machine.AtEachStep (fun pre x => ∀ p, Completes (t.after init pre).1 x p →
        NoneCut (room (t.after init pre).2)
          (t.messages (t.after init pre).2.state p).output) xs := by
  refine @Machine.forall_prefix_iff _ (fun pre => Parses (t.accepted init pre)) _ parses_nil
    (fun pre x hpre => ?_) xs
  obtain ⟨queue, hqueue⟩ := t.reached_after init pre
  rcases (accepted_concat hqueue x).2 with ⟨p, hp, hsent⟩ | ⟨hnone, hsent⟩
  · have htake := parses_take_iff (t.whole p (t.after init pre).2.state) (room (t.after init pre).2)
    rw [hsent, hpre.append_iff]
    refine htake.trans ?_
    constructor
    · intro hcut p' hp'
      obtain ⟨w, rfl, hw⟩ := hp
      obtain ⟨w', hw', hwords'⟩ := hp'
      obtain rfl := Sum.inl.inj hw'
      obtain rfl : p = p' := Packet.ext_words (hw.trans hwords'.symm)
      exact hcut
    · intro hall
      exact hall p hp
  · rw [hsent]
    exact iff_of_true hpre fun p hp => absurd hp (hnone p)

end Translator

/-! ## `to_midi1` -/

/-- A system exclusive message of seven bits: two words, in both protocols. -/
def Packet.IsData64 (p : Packet) : Prop :=
  p.message.type = .data64 ∧ p.message.Known

theorem Packet.isData64_iff (p : Packet) :
    p.IsData64 ↔ ∃ s, p.message.call.callback = .data64 s := by
  constructor
  · rintro ⟨htype, hknown⟩
    rw [Message.Known, htype] at hknown
    obtain ⟨s, hs⟩ := Option.isSome_iff_exists.1 hknown
    refine ⟨s, ?_⟩
    rw [Message.call, htype, UmpDispatcher.callOf, UmpDispatcher.data64Message, hs, Call.switch]
  · rintro ⟨s, hs⟩
    refine ⟨Message.type_of_call (by rw [hs]; rfl), ?_⟩
    by_contra hunknown
    rw [← Message.unknown_iff, hs] at hunknown
    cases hunknown

theorem noneCut_singleton (m : Message) (room : Nat) :
    NoneCut room [m] ↔ room = 0 ∨ m.words.length ≤ room :=
  and_iff_left trivial

namespace ToMidi1

/-- All that is sent but for system exclusive messages has one word. -/
theorem length_output {p : Packet} (h : ¬p.IsData64) (cache : PnCache) :
    ∀ m ∈ (translator.messages cache p).output, m.words.length ≤ 1 := by
  have hpass {f : Callback} {mt : MessageType} (hf : p.message.call.callback = f)
      (hmt : f.type? = some mt) (hone : mt.size = 1) : p.message.words.length ≤ 1 := by
    rw [show p.message.words.length = p.message.type.size from p.whole,
      Message.type_of_call (hf ▸ hmt), hone]
  have hmessage := Message.call_message (m := p.message)
  rw [Translator.messages]
  rw [p.isData64_iff] at h
  generalize p.message.call = c at h hpass hmessage
  obtain ⟨callback, m'⟩ := c
  intro m hm
  cases callback with
  | data64 s => exact absurd ⟨s, rfl⟩ h
  | system | m1cvm =>
      rw [List.mem_singleton.1 hm, hmessage Callback.noConfusion]
      exact hpass rfl rfl rfl
  | m2cvm s =>
      obtain ⟨s', hs'⟩ := (channelVoice_m2cvm s cache m').is m hm
      exact Nat.le_of_eq hs'.length
  | utility | data128 | stream | flexData | flexText | unknown => exact absurd hm List.not_mem_nil

theorem noneCut_iff (cache : PnCache) (p : Packet) (room : Nat) :
    NoneCut room (translator.messages cache p).output ↔ (p.IsData64 → room ≠ 1) := by
  by_cases hp : p.IsData64
  · obtain ⟨s, hs⟩ := p.isData64_iff.1 hp
    have hout : (translator.messages cache p).output = [p.message] := by
      rw [Translator.messages, Message.call_eq hs Callback.noConfusion]
      rfl
    have hlen : p.message.words.length = 2 := by
      rw [show p.message.words.length = p.message.type.size from p.whole, hp.1]
      rfl
    rw [hout, noneCut_singleton, hlen, forall_prop_of_true hp]
    omega
  · exact iff_of_true (noneCut_of_length_le (length_output hp cache) room) fun h => absurd h hp

end ToMidi1

/-! ## `ump_to_midi2` -/

namespace ToMidi2

/-- A MIDI 1.0 channel voice message makes a message, and is not only remembered. -/
def Sends (s : State) (p : Packet) : Prop :=
  match p.controlChange? with
  | none | some (_, .resetAllControllers, _) => True
  | some (k, .dataEntryLsb, _) => (s.parameterNumber k.1 k.2).Complete
  | some _ => False

instance (s : State) (p : Packet) : Decidable (Sends s p) := by
  unfold Sends
  split <;> infer_instance

/-- The number of words that are sent for a packet. -/
def sentSize (s : State) (p : Packet) : Nat :=
  if p.PassedOn then p.message.type.size
  else if p.message.type = .m1cvm ∧ p.message.Known ∧ Sends s p then 2
  else 0

theorem output_eq_nil_iff {p : Packet} {status : Mt.M1cvm}
    (h : p.message.call.callback = .m1cvm status) (s : State) :
    (m1cvm status (⟨s, []⟩ : Context State (List Message)) p.message).output = [] ↔
      ¬Sends s p := by
  have hsent {m : Message} (hsends : Sends s p) : [m] = [] ↔ ¬Sends s p :=
    iff_of_false (List.cons_ne_nil _ _) (not_not.2 hsends)
  by_cases hcc : status = .cc
  · subst hcc
    have hc := controlChange_eq_cc h
    simp only [m1cvm, controlChange, Sends, hc] at hsent ⊢
    cases hcontrol : Control.ofNat? (p.message.get M1cvm.controller) with
    | none =>
        rw [hcontrol] at hsent
        exact hsent trivial
    | some c =>
        rw [hcontrol] at hsent
        cases c with
        | resetAllControllers => exact hsent trivial
        | dataEntryLsb =>
            simp only [Option.map_some]
            split
            case isTrue hcomplete => exact hsent hcomplete
            case isFalse hcomplete => exact iff_of_true rfl hcomplete
        | rpnLsb =>
            simp only [Option.map_some]
            split
            case isTrue => exact iff_of_true rfl not_false
            case isFalse => exact iff_of_true rfl not_false
        | _ => exact iff_of_true rfl not_false
  · have hnone : p.controlChange? = none :=
      controlChange_eq_none fun heq => hcc (Callback.m1cvm.inj (h.symm.trans heq))
    have hsends : Sends s p := by
      rw [Sends, hnone]
      trivial
    cases status with
    | cc => exact absurd rfl hcc
    | _ => exact hsent hsends

theorem output_m1cvm {p : Packet} {status : Mt.M1cvm}
    (h : p.message.call.callback = .m1cvm status) (s : State) :
    ((∃ m, (translator.messages s p).output = [m] ∧ m.words.length = 2) ∧ Sends s p) ∨
      (translator.messages s p).output = [] ∧ ¬Sends s p := by
  have hmessages : translator.messages s p =
      m1cvm status (⟨s, []⟩ : Context State (List Message)) p.message := by
    rw [Translator.messages, Message.call_eq h Callback.noConfusion]
    rfl
  have hnil := output_eq_nil_iff h s
  rw [hmessages]
  rcases output_m1cvm_cases status s p.message with hnone | ⟨_, m, hone, his, -⟩
  · exact Or.inr ⟨hnone, hnil.1 hnone⟩
  · refine Or.inl ⟨⟨m, hone, his.length⟩, ?_⟩
    rw [hone] at hnil
    exact not_not.1 fun hsends => List.cons_ne_nil _ _ (hnil.2 hsends)

/-- Nothing is sent, or one message. -/
theorem output_cases (s : State) (p : Packet) :
    (∃ m, (translator.messages s p).output = [m] ∧ m.words.length = sentSize s p) ∨
      (translator.messages s p).output = [] ∧ sentSize s p = 0 := by
  by_cases hpassed : p.PassedOn
  · refine Or.inl ⟨p.message, congrArg Context.output (messages_passedOn hpassed s), ?_⟩
    rw [sentSize, if_pos hpassed]
    exact p.whole
  · rw [sentSize, if_neg hpassed]
    by_cases hskipped : p.Skipped
    · refine Or.inr ⟨congrArg Context.output (messages_skipped hskipped s), if_neg ?_⟩
      rintro ⟨htype, hknown, -⟩
      rcases hskipped with ⟨hutility, -⟩ | hunknown
      · rw [htype] at hutility
        cases hutility
      · exact hunknown hknown
    · obtain ⟨hnoop, hknown⟩ := not_or.1 hskipped
      have hknown := not_not.1 hknown
      have htype : p.message.type = .m1cvm := by
        by_contra hne
        exact hpassed ⟨hknown, hnoop, hne⟩
      obtain ⟨status, hstatus⟩ := callback_m1cvm htype hknown
      rcases output_m1cvm hstatus s with ⟨⟨m, hout, hlen⟩, hsends⟩ | ⟨hout, hsends⟩
      · rw [if_pos ⟨htype, hknown, hsends⟩]
        exact Or.inl ⟨m, hout, hlen⟩
      · exact Or.inr ⟨hout, if_neg fun h => hsends h.2.2⟩

theorem noneCut_iff (s : State) (p : Packet) (room : Nat) :
    NoneCut room (translator.messages s p).output ↔ room = 0 ∨ sentSize s p ≤ room := by
  rcases output_cases s p with ⟨m, hout, hlen⟩ | ⟨hout, hzero⟩
  · rw [hout, noneCut_singleton, hlen]
  · rw [hout, hzero]
    exact iff_of_true trivial (Or.inr (Nat.zero_le room))

end ToMidi2

/-! ## Whole messages or none -/

namespace Translator

/-- What has been popped and what is queued are whole messages, at each point of a session. -/
def NeverCut {τ : Type} (t : Translator τ) (init : τ) (xs : List (Word ⊕ Unit)) : Prop :=
  ∀ pre, pre <+: xs → Parses (t.accepted init pre)

end Translator

/-- A session in which `to_midi1` gets no system exclusive message while there is room for one
word, or `ump_to_midi2` no message for which there is some room but not enough. -/
theorem neverCut_iff (g : Nat) (xs : List (Word ⊕ Unit)) :
    (ToMidi1.translator.NeverCut {} xs ↔
      Machine.AtEachStep (fun pre x => ∀ p, Completes (ToMidi1.translator.after {} pre).1 x p →
        p.IsData64 → Translator.room (ToMidi1.translator.after {} pre).2 ≠ 1) xs) ∧
    (ToMidi2.translator.NeverCut (.create g) xs ↔
      Machine.AtEachStep (fun pre x =>
        ∀ p, Completes (ToMidi2.translator.after (.create g) pre).1 x p →
          Translator.room (ToMidi2.translator.after (.create g) pre).2 = 0 ∨
            ToMidi2.sentSize (ToMidi2.translator.after (.create g) pre).2.state p ≤
              Translator.room (ToMidi2.translator.after (.create g) pre).2) xs) := by
  constructor
  · refine (ToMidi1.translator.parses_accepted_iff {} xs).trans
      (Machine.atEachStep_congr fun pre x _ => ?_)
    exact forall_congr' fun p => imp_congr_right fun _ => ToMidi1.noneCut_iff _ p _
  · refine (ToMidi2.translator.parses_accepted_iff (.create g) xs).trans
      (Machine.atEachStep_congr fun pre x _ => ?_)
    exact forall_congr' fun p => imp_congr_right fun _ => ToMidi2.noneCut_iff _ p _

instance (ws : List Word) : Decidable (Parses ws) :=
  decidable_of_iff ((UmpDispatcher.machine.run {} ws).1.read = [])
    (by rw [(UmpDispatcher.machine_run ws).1, parses_iff])

/-- Three clocks wait in the output when a system exclusive message comes. -/
theorem cut_data64 :
    ¬(∀ xs, ToMidi1.translator.NeverCut {} xs) ∧
      ¬∀ g xs, ToMidi2.translator.NeverCut (.create g) xs := by
  have hwords : ∃ xs : List (Word ⊕ Unit),
      ¬Parses (ToMidi1.translator.accepted {} xs) ∧
        ¬Parses (ToMidi2.translator.accepted (.create 0) xs) := by
    refine ⟨[.inl 0x10F80000, .inl 0x10F80000, .inl 0x10F80000, .inl 0x30020102, .inl 0], ?_⟩
    decide +kernel
  obtain ⟨xs, hone, htwo⟩ := hwords
  exact ⟨fun h => hone (h xs xs (List.prefix_refl xs)),
    fun h => htwo (h 0 xs xs (List.prefix_refl xs))⟩

end Midi2.Ump
