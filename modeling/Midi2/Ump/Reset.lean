import Midi2.Ump.ChannelRecord

/-!
# Resetting a translator

`reset()` of a translator resets its context. Between two resets words are pushed, and words
of the output are popped or left where they are; this is a `session`. What a reset leaves
behind can be seen in two places: in the part of a message that the dispatcher has read
(`Client.Bisim.reset_iff`), and in the state of the translation. Of the latter `to_midi1` keeps
nothing, and `ump_to_midi2` the value of a data entry (`ToMidi2.reset_forgets`).
-/

namespace Midi2.Ump

open Adt

/-! ## Sessions -/

namespace Client

variable {β σ κ : Type} (c : Client β σ)

/-- A word is pushed, or the context is used in one of the ways `κ`. -/
def use (other : κ → σ → σ) (s : UmpDispatcher × σ) : Word ⊕ κ → UmpDispatcher × σ
  | .inl ump => ((s.1.dispatch ump).1, (s.1.dispatch ump).2.elim s.2 (c.call · s.2))
  | .inr k => (s.1, other k s.2)

/-- Words and other uses, in any order. -/
def session (other : κ → σ → σ) (s : UmpDispatcher × σ) (xs : List (Word ⊕ κ)) :
    UmpDispatcher × σ :=
  xs.foldl (c.use other) s

/-- The words that are pushed in a session. -/
def pushed (xs : List (Word ⊕ κ)) : List Word :=
  xs.filterMap Sum.getLeft?

variable {c} {other : κ → σ → σ}

/-- The dispatcher of a session has been fed with the words. -/
theorem session_dispatcher (s : UmpDispatcher × σ) (xs : List (Word ⊕ κ)) :
    (c.session other s xs).1 = s.1.feed (pushed xs) := by
  induction xs generalizing s with
  | nil => rfl
  | cons x xs ih =>
      cases x with
      | inl ump => exact ih _
      | inr k => exact ih _

/-- A word after a part of a message can only send what the whole message sends. -/
theorem step_ne {d : UmpDispatcher} (hpart : Partial d.read) {s : σ} (hidle : c.Idle s)
    {probe : Word} {out : List β} (hne : out ≠ [])
    (hcall : ∀ _ : (⟨d.read ++ [probe]⟩ : Message).Whole,
      (c.flush (c.call (⟨d.read ++ [probe]⟩ : Message).call s)).2 ≠ out) :
    (c.perWord.step (d, s) probe).2 ≠ out := by
  rcases UmpDispatcher.dispatch_cases hpart probe with ⟨hwhole, -, hsome⟩ | ⟨-, -, hnone⟩
  · simp only [Client.perWord, hsome, Option.elim]
    exact hcall hwhole
  · simp only [Client.perWord, hnone, Option.elim]
    rw [c.flush_idle hidle]
    exact hne.symm

/-- What all uses of a context keep. -/
theorem session_context {Inv : σ → Prop} (hcall : ∀ k s, Inv s → Inv (c.call k s))
    (hother : ∀ k s, Inv s → Inv (other k s)) {s : UmpDispatcher × σ} (hs : Inv s.2)
    (xs : List (Word ⊕ κ)) : Inv (c.session other s xs).2 := by
  induction xs generalizing s with
  | nil => exact hs
  | cons x xs ih =>
      cases x with
      | inl ump =>
          refine ih (s := ⟨_, _⟩) ?_
          cases (s.1.dispatch ump).2 with
          | none => exact hs
          | some k => exact hcall k _ hs
      | inr k => exact ih (s := ⟨_, _⟩) (hother k _ hs)

/-- If only the dispatcher is not reset, then this is noticed exactly when the session ends
inside of a message. The word `probe` tells the difference. -/
theorem Bisim.reset_iff {E : σ → σ → Prop} (h : c.Bisim E) {s s₀ s₁ : σ} (hE : E s s₁)
    (probe : Word) (hprobe : ∀ d : UmpDispatcher, Partial d.read → d.read ≠ [] →
      (c.perWord.step (d, s) probe).2 ≠ (c.perWord.step ({}, s₁) probe).2)
    (xs : List (Word ⊕ κ)) :
    (∀ ws, (c.perWord.run ((c.session other ({}, s₀) xs).1, s) ws).2 =
      (c.perWord.run ({}, s₁) ws).2) ↔ ∃ ps : List Packet, pushed xs = ps.flatMap Packet.words := by
  rw [session_dispatcher, ← feed_read_iff]
  have hpart := UmpDispatcher.partial_feed (pushed xs)
  constructor
  · intro hsame
    by_contra hne
    have hword := hsame [probe]
    rw [Machine.run_singleton, Machine.run_singleton] at hword
    exact hprobe _ hpart hne hword
  · intro hread ws
    exact h.run hE hread hpart ws

end Client

namespace Translator

variable {τ : Type} (t : Translator τ)

/-- `pop()`, of which the precondition is that there is something to pop. -/
def pop (_ : Unit) (ctxt : Context τ (Fifo Word 2)) : Context τ (Fifo Word 2) :=
  if ctxt.output.empty then ctxt else { ctxt with output := ctxt.output.popFront.2 }

/-- What comes out for `words`, popped after each, of a translator that has been used for `xs`
and then reset. -/
def afterReset (reset : Context τ (Fifo Word 2) → Context τ (Fifo Word 2)) (init : τ)
    (xs : List (Word ⊕ Unit)) (words : List Word) : List Word :=
  let s := t.client.session pop ({}, ⟨init, {}⟩) xs
  (t.client.perWord.run (s.1, reset s.2) words).2

/-- Messages that are pushed to a ring buffer that holds some words leave it one. -/
theorem holds_sim : Sink.Sim fun (f : Fifo Word 2) (_ : List Message) => ∃ ws, f.Holds ws where
  push {f _} m hf := by
    show ∃ ws, (m.words.foldl (fun f w => (f.pushBack w).2) f).Holds ws
    obtain ⟨ws, hws⟩ := hf
    exact ⟨_, hws.foldl_pushBack m.words⟩

theorem exists_holds_call {ctxt : Context τ (Fifo Word 2)} (h : ∃ ws, ctxt.output.Holds ws)
    (k : Call) : ∃ ws, (t.call k ctxt).output.Holds ws := by
  have hrel : ctxt.Rel (fun f (_ : List Message) => ∃ ws, f.Holds ws) ⟨ctxt.state, []⟩ := ⟨rfl, h⟩
  exact (t.uniform holds_sim k hrel).output

theorem exists_holds_pop {ctxt : Context τ (Fifo Word 2)} (h : ∃ ws, ctxt.output.Holds ws)
    (k : Unit) : ∃ ws, (pop k ctxt).output.Holds ws := by
  obtain ⟨ws, hws⟩ := h
  unfold pop
  rw [apply_ite Context.output]
  exact hws.exists_popFront

/-- However it is used, the output is a ring buffer that holds some words. -/
theorem holds_session (init : τ) (xs : List (Word ⊕ Unit)) :
    ∃ ws, (t.client.session pop ({}, ⟨init, {}⟩) xs).2.output.Holds ws := by
  let Inv (ctxt : Context τ (Fifo Word 2)) : Prop := ∃ ws, ctxt.output.Holds ws
  refine @Client.session_context _ _ _ t.client pop Inv ?_ ?_ _ ⟨[], Fifo.holds_nil⟩ xs
  · exact fun k ctxt hctxt => t.exists_holds_call hctxt k
  · exact fun k ctxt hctxt => exists_holds_pop hctxt k

/-- The state of the translation after a session is that after its packets. -/
theorem state_session (init : τ) {xs : List (Word ⊕ Unit)} {ps : List Packet}
    (hps : Client.pushed xs = ps.flatMap Packet.words) :
    (t.client.session pop ({}, ⟨init, {}⟩) xs).2.state = (t.translation.run init ps).1 := by
  have hrun : ∀ (d : UmpDispatcher) (a b : Context τ (Fifo Word 2)), a.state = b.state →
      (t.client.session pop (d, a) xs).2.state =
        (t.client.perWord.run (d, b) (Client.pushed xs)).1.2.state := by
    clear hps
    induction xs with
    | nil => exact fun _ _ _ h => h
    | cons x xs ih =>
        intro d a b h
        cases x with
        | inr k =>
            refine ih d _ b ?_
            unfold pop
            split
            case isTrue => exact h
            case isFalse => exact h
        | inl ump =>
            refine ih (d.dispatch ump).1 _ _ ?_
            show ((d.dispatch ump).2.elim a (t.call · a)).state =
              ((d.dispatch ump).2.elim b (t.call · b)).state
            cases (d.dispatch ump).2 with
            | none => exact h
            | some k =>
                have hany : Sink.Sim fun _ _ : Fifo Word 2 => True := ⟨fun _ _ => trivial⟩
                exact (t.uniform hany k (a := a) (b := b) ⟨h, trivial⟩).state
  rw [hrun {} ⟨init, {}⟩ ⟨init, {}⟩ rfl, hps]
  exact (t.run_words init ps).1

/-- States that no packet tells apart, with an output that has been drained. -/
theorem bisim {S : τ → τ → Prop}
    (hstep : ∀ (p : Packet) {s s' : τ}, S s s' → S (t.messages s p).state (t.messages s' p).state ∧
      (t.messages s p).output = (t.messages s' p).output) :
    t.client.Bisim fun a b => ∃ s s', Drained a s ∧ Drained b s' ∧ S s s' where
  idle := by
    rintro a b ⟨s, s', ha, hb, -⟩
    exact ⟨ha.2, hb.2⟩
  output := by
    rintro p a b ⟨s, s', ha, hb, hS⟩
    show (drain (t.call _ a)).2 = (drain (t.call _ b)).2
    rw [(t.drain_call ha p).2, (t.drain_call hb p).2, (hstep p hS).2]
  state := by
    rintro p a b ⟨s, s', ha, hb, hS⟩
    exact ⟨_, _, (t.drain_call ha p).1, (t.drain_call hb p).1, (hstep p hS).1⟩

/-- After whole messages, all that a translator has when it has been reset is its state. -/
theorem afterReset_eq {reset : Context τ (Fifo Word 2) → Context τ (Fifo Word 2)} {init s : τ}
    {xs : List (Word ⊕ Unit)} {ps : List Packet}
    (hps : Client.pushed xs = ps.flatMap Packet.words)
    (hreset : Drained (reset (t.client.session pop ({}, ⟨init, {}⟩) xs).2) s) (words : List Word) :
    t.afterReset reset init xs words = (t.run s words).2 := by
  have hread := (Client.feed_read_iff (Client.pushed xs)).2 ⟨ps, hps⟩
  have hsession : (t.client.session pop ({}, ⟨init, {}⟩) xs).1 =
      UmpDispatcher.feed {} (Client.pushed xs) := Client.session_dispatcher _ xs
  rw [← hsession] at hread
  have hbisim := t.bisim (S := Eq) fun p {s s'} h => by subst h; exact ⟨rfl, rfl⟩
  refine hbisim.run ⟨s, s, hreset, ⟨rfl, Fifo.holds_nil⟩, rfl⟩ hread ?_ words
  rw [hread]
  exact partial_nil

end Translator

/-! ## `to_midi1` -/

namespace ToMidi1

theorem proper_pnMessage {ω : Type} [Sink ω] {ctxt : Context PnCache ω} (h : ctxt.state.Proper)
    (key : PnCacheKey) (number : Nat × Nat) (value : Nat) :
    (pnMessage ctxt key number value).state.Proper :=
  h.access (by decide) key.v (fun _ _ ctxt => (number, sendControllerNumber ctxt key number))
    (· == number) ctxt

/-- The functions of the configuration keep the cache proper. -/
theorem proper_call {ω : Type} [Sink ω] {ctxt : Context PnCache ω} (h : ctxt.state.Proper)
    (c : Call) : (call c ctxt).state.Proper := by
  obtain ⟨callback, m⟩ := c
  cases callback with
  | m2cvm s =>
      cases s with
      | rpn | nrpn => exact proper_pnMessage h _ _ _
      | programChange =>
          simp only [call, m2cvm, programChange]
          split
          case isTrue => exact h
          case isFalse => exact h
      | _ => exact h
  | _ => exact h

/-- A reset leaves the context as it is after construction. -/
theorem drained_reset (xs : List (Word ⊕ Unit)) :
    Translator.Drained (reset (translator.client.session Translator.pop ({}, ⟨{}, {}⟩) xs).2)
      {} := by
  obtain ⟨ws, hws⟩ := translator.holds_session {} xs
  refine ⟨?_, hws.clear⟩
  have hproper : (translator.client.session Translator.pop ({}, ⟨{}, {}⟩) xs).2.state.Proper := by
    let Inv (ctxt : Context PnCache (Fifo Word 2)) : Prop := ctxt.state.Proper
    refine @Client.session_context _ _ _ translator.client Translator.pop Inv ?_ ?_ _ ?_ xs
    · exact fun c ctxt h => proper_call h c
    · intro k ctxt h
      unfold Translator.pop
      split
      case isTrue => exact h
      case isFalse => exact h
    · exact PlruCache.proper_empty
  exact hproper.clear_eq

/-- A timing clock, on the first group. -/
def timingClock : Word := 0x10F80000

/-- A timing clock is passed on, unless it is taken for the rest of a message. -/
theorem step_timingClock {d : UmpDispatcher} (hpart : Partial d.read) (hread : d.read ≠ [])
    {ctxt : Context PnCache (Fifo Word 2)} {cache : PnCache}
    (hctxt : Translator.Drained ctxt cache) :
    (translator.client.perWord.step (d, ctxt) timingClock).2 ≠ [timingClock] := by
  refine translator.client.step_ne hpart hctxt.2 (List.cons_ne_nil _ _) fun hwhole hsent => ?_
  have hout := (translator.drain_call hctxt ⟨_, hwhole⟩).2
  have hwords : wordsOf (translator.messages cache ⟨_, hwhole⟩).output = [timingClock] :=
    hout.symm.trans hsent
  rcases call_output (⟨d.read ++ [timingClock]⟩ : Message).call cache with ⟨hsame, hnoop⟩ | hvoice
  · rw [show (translator.messages cache ⟨_, hwhole⟩).output = _ from hsame,
      Message.call_message hnoop, wordsOf, List.flatMap_singleton] at hwords
    exact hread (List.append_left_eq_self.1 hwords)
  · -- A channel voice message does not have the type of a timing clock.
    have hmem : timingClock ∈ wordsOf (translator.messages cache ⟨_, hwhole⟩).output := by
      rw [hwords]
      exact List.mem_singleton.2 rfl
    obtain ⟨m, hm, hword⟩ := List.mem_flatMap.1 hmem
    obtain ⟨s, hs⟩ := hvoice.is m hm
    obtain ⟨w, hw⟩ := List.length_eq_one_iff.1 hs.length
    obtain rfl : timingClock = w := by rwa [hw, List.mem_singleton] at hword
    have htype := hs.type
    rw [Message.type, hw] at htype
    revert htype
    decide

/-- `to_midi1` is as new after a reset, except for what the dispatcher has read. -/
theorem afterReset_iff (xs : List (Word ⊕ Unit)) :
    (∀ ws, translator.afterReset reset {} xs ws = (translator.run {} ws).2) ↔
      ∃ ps : List Packet, Client.pushed xs = ps.flatMap Packet.words := by
  have hbisim := translator.bisim (S := Eq) fun p {s s'} h => by subst h; exact ⟨rfl, rfl⟩
  have hfresh : (translator.client.perWord.step ({}, ⟨{}, {}⟩) timingClock).2 = [timingClock] := by
    decide +kernel
  refine hbisim.reset_iff ⟨{}, {}, drained_reset xs, ⟨rfl, Fifo.holds_nil⟩, rfl⟩ timingClock ?_ xs
  intro d hpart hread
  rw [hfresh]
  exact step_timingClock hpart hread (drained_reset xs)

end ToMidi1

/-! ## `ump_to_midi2` -/

namespace ToMidi2

/-- Records that no control change tells apart: as long as no half of a number is selected,
the kind of the parameter does not matter. -/
def ParameterNumber.Same (c c' : ParameterNumber) : Prop :=
  ∃ isRpn, c' = { c with pnIsRpn := isRpn } ∧
    ((c.pnMsbValid || c.pnLsbValid) = true → isRpn = c.pnIsRpn)

theorem ParameterNumber.Same.receive {c c' : ParameterNumber} (h : c.Same c')
    (e : Control × Nat) : (c.receive e).Same (c'.receive e) := by
  obtain ⟨control, value⟩ := e
  obtain ⟨isRpn', rfl, hkind⟩ := h
  obtain ⟨isRpn, msbValid, msb, lsbValid, lsb, valueValid, valueMsb⟩ := c
  cases control with
  | nrpnMsb | rpnMsb | nrpnLsb => exact ⟨_, rfl, fun _ => rfl⟩
  | rpnLsb =>
      cases msbValid with
      | true =>
          obtain rfl : isRpn' = isRpn := hkind rfl
          exact ⟨_, rfl, fun _ => rfl⟩
      | false =>
          simp only [ParameterNumber.receive, Bool.and_false, Bool.false_and]
          exact ⟨true, rfl, fun _ => rfl⟩
  | resetAllControllers => exact ⟨isRpn', rfl, fun hvalid => absurd hvalid Bool.false_ne_true⟩
  | dataEntryMsb | bankSelect | bankSelectLsb | dataEntryLsb => exact ⟨isRpn', rfl, hkind⟩

/-- States that no packet tells apart. The group is not used. -/
structure State.Same (s s' : State) : Prop where
  bank : s.bank = s'.bank
  parameterNumber : ∀ k : Channel,
    (s.parameterNumber k.1 k.2).Same (s'.parameterNumber k.1 k.2)

/-- Only the low half of a value needs the record of its channel. -/
theorem output_controlChange_congr (s s' : State) {m : Message}
    (h : Control.ofNat? (m.get M1cvm.controller) ≠ some .dataEntryLsb) :
    (controlChange (⟨s, []⟩ : Context State (List Message)) m).output =
      (controlChange (⟨s', []⟩ : Context State (List Message)) m).output := by
  simp only [controlChange]
  cases hc : Control.ofNat? (m.get M1cvm.controller) with
  | none => rfl
  | some c =>
      cases c with
      | dataEntryLsb => exact absurd hc h
      | rpnLsb =>
          simp only
          split <;> split <;> rfl
      | _ => rfl

/-- Complete records that are the same are equal. -/
theorem ParameterNumber.Same.complete {c c' : ParameterNumber} (h : c.Same c') :
    (c.Complete ↔ c'.Complete) ∧ (c.Complete → c = c') := by
  obtain ⟨isRpn, rfl, hkind⟩ := h
  refine ⟨Iff.rfl, fun hcomplete => ?_⟩
  obtain ⟨⟨hmsb, -⟩, -⟩ : (_ ∧ _) ∧ _ := by
    simpa only [ParameterNumber.Complete, Bool.and_eq_true] using hcomplete
  rw [hkind (by rw [hmsb]; rfl)]

theorem State.Same.step {s s' : State} (h : s.Same s') (p : Packet) :
    (translator.messages s p).state.Same (translator.messages s' p).state ∧
      (translator.messages s p).output = (translator.messages s' p).output := by
  have hrecord (k : Channel) : ((translator.messages s p).state.parameterNumber k.1 k.2).Same
      ((translator.messages s' p).state.parameterNumber k.1 k.2) := by
    rw [parameterNumber_step, parameterNumber_step]
    cases p.controlChangeOn k with
    | none => exact h.parameterNumber k
    | some e => exact (h.parameterNumber k).receive e
  by_cases hcc : p.message.call.callback = .m1cvm .cc
  · refine ⟨⟨?_, hrecord⟩, ?_⟩
    · rw [messages_cc hcc, messages_cc hcc, bank_controlChange, bank_controlChange, h.bank]
    · by_cases hlsb : Control.ofNat? (p.message.get M1cvm.controller) = some .dataEntryLsb
      · have hp : p.controlChange? = some ((p.message.get .group, p.message.get .channel),
            .dataEntryLsb, p.message.get M1cvm.value) := by
          rw [controlChange_eq_cc hcc, hlsb, Option.map_some]
        obtain ⟨hiff, heq⟩ := (h.parameterNumber
          (p.message.get .group, p.message.get .channel)).complete
        rw [output_dataEntryLsb hp, output_dataEntryLsb hp]
        split
        case isTrue hcomplete => rw [if_pos (hiff.1 hcomplete), heq hcomplete]
        case isFalse hcomplete => rw [if_neg fun h' => hcomplete (hiff.2 h')]
      · rw [messages_cc hcc, messages_cc hcc]
        exact output_controlChange_congr s s' hlsb
  · have hstate (s : State) : (translator.messages s p).state = s := state_call hcc _
    refine ⟨⟨?_, hrecord⟩, ?_⟩
    · rw [hstate, hstate]
      exact h.bank
    · show (call p.message.call _).output = (call p.message.call _).output
      generalize p.message.call = c at hcc
      obtain ⟨callback, m⟩ := c
      cases callback with
      | m1cvm status =>
          cases status with
          | cc => exact absurd rfl hcc
          | programChange => simp only [call, m1cvm, programChange, h.bank]; rfl
          | _ => rfl
      | utility status => cases status <;> rfl
      | _ => rfl

theorem drained_reset {g : Nat} {xs : List (Word ⊕ Unit)} {ps : List Packet}
    (hps : Client.pushed xs = ps.flatMap Packet.words) :
    Translator.Drained
      (reset (translator.client.session Translator.pop ({}, ⟨.create g, {}⟩) xs).2)
      (translator.translation.run (.create g) ps).1.reset := by
  obtain ⟨ws, hws⟩ := translator.holds_session (.create g) xs
  exact ⟨congrArg State.reset (translator.state_session (.create g) hps), hws.clear⟩

/-! ### The value that is left behind -/

theorem value_record (h : History) :
    (record h).valueMsbValid = h.any (·.1 == .dataEntryMsb) ∧
      ((record h).valueMsbValid = false → (record h).valueMsb = 0) := by
  induction h using List.reverseRecOn with
  | nil => exact ⟨rfl, fun _ => rfl⟩
  | append_singleton h e ih =>
      obtain ⟨control, value⟩ := e
      obtain ⟨hvalid, hzero⟩ := ih
      rw [record_concat, List.any_append, ← hvalid]
      cases control with
      | dataEntryMsb =>
          refine ⟨?_, fun hfalse => absurd hfalse.symm Bool.false_ne_true⟩
          exact (Bool.or_true _).symm
      | rpnLsb =>
          simp only [ParameterNumber.receive]
          split
          case isTrue => exact ⟨(Bool.or_false _).symm, hzero⟩
          case isFalse => exact ⟨(Bool.or_false _).symm, hzero⟩
      | _ => exact ⟨(Bool.or_false _).symm, hzero⟩

/-- The number of a registered parameter, and the low half of a value for it, complete a
message if there is the high half of a value. -/
theorem complete_select {k : Channel} (hg : k.1 < 2 ^ 4) (hc : k.2 < 2 ^ 4) (s : State) :
    ((translator.translation.run s [controlChangePacket k .rpnMsb,
      controlChangePacket k .rpnLsb]).1.parameterNumber k.1 k.2).Complete ↔
        (s.parameterNumber k.1 k.2).valueMsbValid = true := by
  have hon (c : Control) : (controlChangePacket k c).controlChangeOn k = some (c, 0) := by
    rw [controlChangeOn_eq (controlChange_controlChangePacket hg hc c), if_pos rfl]
  have hhistory : history k [controlChangePacket k .rpnMsb, controlChangePacket k .rpnLsb] =
      [(.rpnMsb, 0), (.rpnLsb, 0)] := by
    simp only [history, List.filterMap_cons, hon, List.filterMap_nil]
  rw [parameterNumber_run, hhistory]
  exact Iff.rfl

/-- Whole messages have no effect beyond a reset if and only if none of them is the high half
of a value for a parameter. -/
theorem reset_forgets (g : Nat) {xs : List (Word ⊕ Unit)} {ps : List Packet}
    (hps : Client.pushed xs = ps.flatMap Packet.words) :
    (∀ ws, translator.afterReset reset (.create g) xs ws = (translator.run (.create g) ws).2) ↔
      ∀ p ∈ ps, ∀ k value, p.controlChange? ≠ some (k, .dataEntryMsb, value) := by
  simp only [translator.afterReset_eq hps (drained_reset hps)]
  have hbank : (translator.translation.run (.create g) ps).1.reset.bank = (State.create g).bank :=
    rfl
  have hrecord (k : Channel) :
      (translator.translation.run (.create g) ps).1.reset.parameterNumber k.1 k.2 =
        (record (history k ps)).reset := by
    rw [← recordAfter_eq g, ← recordAfter_state]
    rfl
  generalize (translator.translation.run (.create g) ps).1.reset = s at hbank hrecord ⊢
  have hvalue (k : Channel) : (s.parameterNumber k.1 k.2).valueMsbValid =
      (history k ps).any (·.1 == .dataEntryMsb) := by
    rw [hrecord, ← (value_record _).1]
    rfl
  constructor
  · intro hsame p hp k value hcc
    have hk : k.1 < 2 ^ 4 ∧ k.2 < 2 ^ 4 := by
      obtain ⟨-, -, rfl, -⟩ := controlChange_eq_some hcc
      exact ⟨p.message.get_lt _, p.message.get_lt _⟩
    have hleft : (s.parameterNumber k.1 k.2).valueMsbValid = true := by
      rw [hvalue, List.any_eq_true]
      exact ⟨(.dataEntryMsb, value), mem_history.2 ⟨p, hp, hcc⟩, rfl⟩
    -- The same number completes a message here, and does not after construction.
    have hlsb := controlChange_controlChangePacket hk.1 hk.2 .dataEntryLsb
    have hcalls := congrArg calls (translator.emit_congr hsame
      [controlChangePacket k .rpnMsb, controlChangePacket k .rpnLsb]
      (controlChangePacket k .dataEntryLsb))
    rw [translator.calls_emit, translator.calls_emit, output_dataEntryLsb hlsb,
      output_dataEntryLsb hlsb, if_pos ((complete_select hk.1 hk.2 s).2 hleft),
      if_neg fun h => absurd ((complete_select hk.1 hk.2 _).1 h) Bool.false_ne_true] at hcalls
    exact List.cons_ne_nil _ _ hcalls
  · intro hnone ws
    have hsame : s.Same (.create g) := by
      refine ⟨hbank, fun k => ?_⟩
      have hno : (record (history k ps)).valueMsbValid = false := by
        rw [(value_record _).1, List.any_eq_false]
        rintro ⟨control, value⟩ hmem hcontrol
        obtain rfl : control = .dataEntryMsb := eq_of_beq hcontrol
        obtain ⟨p, hp, hcc⟩ := mem_history.1 hmem
        exact hnone p hp k value hcc
      refine ⟨false, ?_, ?_⟩
      · rw [hrecord, ParameterNumber.reset, hno, (value_record _).2 hno]
        rfl
      · rw [hrecord]
        exact fun hvalid => absurd hvalid Bool.false_ne_true
    have hbisim := translator.bisim fun p {s s' : State} (h : s.Same s') => h.step p
    show (translator.client.perWord.run ({}, ⟨s, {}⟩) ws).2 =
      (translator.client.perWord.run ({}, ⟨.create g, {}⟩) ws).2
    refine hbisim.run ⟨s, .create g, ⟨rfl, Fifo.holds_nil⟩, ⟨rfl, Fifo.holds_nil⟩, hsame⟩ rfl ?_ ws
    exact partial_nil

/-- The high half of a value, a reset, and then the number and the low half. -/
theorem reset_leaves_value : ¬∀ g (xs : List (Word ⊕ Unit)) (ps : List Packet),
    Client.pushed xs = ps.flatMap Packet.words →
      ∀ ws, translator.afterReset reset (.create g) xs ws = (translator.run (.create g) ws).2 := by
  intro h
  have hsame := h 0 [.inl 0x20B00605] [{ message := ⟨[0x20B00605]⟩ }] rfl
    [0x20B06500, 0x20B06401, 0x20B02607]
  revert hsame
  decide +kernel

theorem reset_forgets_selection :
    (∀ ws, translator.afterReset reset (.create 0) [.inl 0x20B06500, .inr (), .inl 0x20B06401] ws =
      (translator.run (.create 0) ws).2) ↔
    ∀ p ∈ ([{ message := ⟨[0x20B06500]⟩ }, { message := ⟨[0x20B06401]⟩ }] : List Packet),
      ∀ k value, p.controlChange? ≠ some (k, .dataEntryMsb, value) :=
  reset_forgets 0 rfl

end ToMidi2

end Midi2.Ump
