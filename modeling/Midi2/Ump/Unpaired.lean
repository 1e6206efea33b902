import Midi2.Ump.Programs

/-!
# Any MIDI 1.0 stream up and down again

Here a stream may have control changes that select banks and parameters anywhere between other
messages. These come back at other places, more often or not at all, but nothing else does: without
the paired controllers the stream that comes back is the one that was sent
(`unpaired_upgrade_downgrade`).
-/

namespace Midi2.Ump

open Adt

/-- A control change that selects or sets a half of something. -/
def Message.Paired (m : Message) : Prop :=
  m.call.callback = .m1cvm .cc ∧ m.get M1cvm.controller ∈ pairedControllers

instance : DecidablePred Message.Paired := fun _ =>
  inferInstanceAs (Decidable (_ ∧ _))

/-- A message of MIDI 1.0 without anything in the bits that it does not use. -/
structure Packet.Plain (p : Packet) : Prop where
  midi1 : p.IsMidi1
  clean : ∀ s, p.message.call.callback = .m1cvm s → M1cvm.Clean s p.message

/-- A message of MIDI 1.0 is of a channel, or `ump_to_midi2` passes it on. -/
theorem Packet.IsMidi1.cases {p : Packet} (h : p.IsMidi1) :
    (∃ status, p.message.call.callback = .m1cvm status) ∨
      (p.PassedOn ∧ p.message.type ≠ .m2cvm) := by
  have hpassed {t : MessageType} (hcall : p.message.call.callback.type? = some t)
      (hutility : t ≠ .utility) (hm1cvm : t ≠ .m1cvm) (hm2cvm : t ≠ .m2cvm) :
      p.PassedOn ∧ p.message.type ≠ .m2cvm := by
    have htype : p.message.type = t := Message.type_of_call hcall
    refine ⟨⟨?_, fun hnoop => hutility (htype.symm.trans hnoop.1), htype ▸ hm1cvm⟩, htype ▸ hm2cvm⟩
    refine not_not.1 fun hunknown => ?_
    rw [p.message.unknown_iff.2 hunknown] at hcall
    cases hcall
  rcases h with h | h | h
  · exact Or.inr (hpassed h (by decide) (by decide) (by decide))
  · cases hcall : p.message.call.callback with
    | m1cvm status => exact Or.inl ⟨status, rfl⟩
    | _ =>
        rw [hcall] at h
        cases h
  · exact Or.inr (hpassed h (by decide) (by decide) (by decide))

theorem filter_paired {ms : List Message} (h : ∀ m ∈ ms, m.Paired) :
    ms.filter (fun m => ¬m.Paired) = [] :=
  List.filter_eq_nil_iff.2 fun m hm => by
    rw [decide_eq_true_eq, not_not]
    exact h m hm

theorem paired_controlChangeMessage (g c value : Nat) {controller : Nat}
    (h : controller ∈ pairedControllers) :
    (ToMidi1.controlChangeMessage g c controller value).Paired := by
  have hlt : ∀ n ∈ pairedControllers, n < 2 ^ 7 := by decide
  refine ⟨by rw [(ToMidi1.is_controlChangeMessage ..).call], ?_⟩
  rwa [ToMidi1.controller_controlChangeMessage g c value (hlt controller h)]

theorem paired_pnMessage (cache : ToMidi1.PnCache) (key : ToMidi1.PnCacheKey)
    (number : Nat × Nat) (value : Nat) : ∀ m ∈ (ToMidi1.pnMessage
      (⟨cache, []⟩ : Context ToMidi1.PnCache (List Message)) key number value).output,
        m.Paired := by
  intro m hm
  obtain ⟨c, hc, v, rfl⟩ := ToMidi1.controls_pnMessage cache key number value m hm
  have hall : ∀ c ∈ ToMidi1.parameterControls, c.toNat ∈ pairedControllers := by decide
  exact paired_controlChangeMessage _ _ v (hall c hc)

/-! ## One message -/

section Bounce

variable {s : ToMidi2.State} {cache : ToMidi1.PnCache} {p : Packet}

/-- A channel voice message that is neither a program change nor paired comes back. -/
theorem bounce_single {status : Mt.M1cvm} (h : p.Single status) (hne : status ≠ .programChange) :
    bounce s cache p = [p.message] := by
  have hup : (ToMidi2.translator.messages s p).output = [upgraded status p.message] := by
    rw [Translator.messages, Message.call_eq h.call Callback.noConfusion]
    cases status with
    | noteOff | noteOn | polyPressure | channelPressure | pitchBend => rfl
    | programChange => exact absurd rfl hne
    | cc =>
        show (ToMidi2.controlChange _ _).output = _
        rw [ToMidi2.controlChange]
        rcases ofNat_eq_of_not_paired (p.message.get_lt _) (h.controller rfl) with hc | hc
        · rw [hc]
          rfl
        · rw [hc]
          rfl
  rw [bounce_is hup (is_upgraded status p.message),
    downgraded_eq (M1cvm.is_of_call h.call) h.clean cache]

/-- A paired control change is forgotten or comes back as others. -/
theorem bounce_paired (h : p.message.Paired) : ∀ m ∈ bounce s cache p, m.Paired := by
  obtain ⟨hcc, hpaired⟩ := h
  have hup : (ToMidi2.translator.messages s p).output = [] ∨
      ∃ status x, (ToMidi2.translator.messages s p).output = [x] ∧ M2cvm.Is status x ∧
        (status = .rpn ∨ status = .nrpn) := by
    have hnone : ∀ n ∈ pairedControllers, Control.ofNat? n ≠ none ∧
        Control.ofNat? n ≠ some .resetAllControllers := by decide
    obtain ⟨hsome, hreset⟩ := hnone _ hpaired
    rw [Translator.messages, Message.call_eq hcc Callback.noConfusion]
    simp only [ToMidi2.translator, ToMidi2.call, ToMidi2.m1cvm, ToMidi2.controlChange]
    split
    case h_6 => split <;> exact Or.inl rfl
    case h_8 =>
      split
      case isTrue =>
        refine Or.inr ⟨_, _, rfl, (((((M2cvm.is_init _).set _).set _).set _).set _).set _, ?_⟩
        split
        case isTrue => exact Or.inl rfl
        case isFalse => exact Or.inr rfl
      case isFalse => exact Or.inl rfl
    case h_9 hc => exact absurd hc hreset
    case h_10 hc => exact absurd hc hsome
    all_goals exact Or.inl rfl
  rcases hup with hnil | ⟨status, x, hone, his, hstatus⟩
  · rw [bounce_nil hnil]
    exact List.forall_mem_nil _
  · rw [bounce_is hone his]
    rcases hstatus with rfl | rfl
    · exact paired_pnMessage cache _ _ _
    · exact paired_pnMessage cache _ _ _

/-- A program change comes back after the control changes for its bank, if it has got one. -/
theorem bounce_programChange (h : p.message.call.callback = .m1cvm .programChange)
    (hclean : M1cvm.Clean .programChange p.message) :
    ∃ ms, bounce s cache p = ms ++ [p.message] ∧ ∀ m ∈ ms, m.Paired := by
  have hup := ToMidi2.output_programChange h s
  have his := is_programChangeMessage (s.bank p.address.1 p.address.2) p.message
  have haddress : (ToMidi2.programChangeMessage (s.bank p.address.1 p.address.2)
      p.message).address = p.address :=
    ToMidi2.address_output s p _ (hup ▸ List.mem_singleton.2 rfl)
  have hlast : programMessage p.address (p.message.get M1cvm.program) = p.message :=
    M1cvm.rebuild (M1cvm.is_of_call h) hclean [.group, .channel, M1cvm.program]
  have hnumber := program_programChangeMessage (s.bank p.address.1 p.address.2) p.message
  rw [bounce_is hup his]
  generalize ToMidi2.programChangeMessage (s.bank p.address.1 p.address.2) p.message = x
    at haddress hnumber
  rw [← haddress, ← hnumber] at hlast
  simp only [ToMidi1.m2cvm, ToMidi1.programChange]
  split
  case isTrue =>
    refine ⟨[_, _], congrArg (fun m => [_, _, m]) hlast, List.forall_mem_cons.2 ⟨?_, ?_⟩⟩
    · exact paired_controlChangeMessage _ _ _ (by decide)
    · exact List.forall_mem_singleton.2 (paired_controlChangeMessage _ _ _ (by decide))
  case isFalse => exact ⟨[], congrArg (fun m => [m]) hlast, List.forall_mem_nil _⟩

/-- Without paired control changes, what comes back for a packet is the packet. -/
theorem filter_bounce (h : p.Plain) :
    (bounce s cache p).filter (fun m => ¬m.Paired) = [p.message].filter fun m => ¬m.Paired := by
  have hvoice (status : Mt.M1cvm) (hcall : p.message.call.callback = .m1cvm status) :
      (bounce s cache p).filter (fun m => ¬m.Paired) =
        [p.message].filter fun m => ¬m.Paired := by
    by_cases hpaired : p.message.Paired
    · rw [filter_paired (bounce_paired hpaired),
        filter_paired (List.forall_mem_singleton.2 hpaired)]
    by_cases hprogram : status = .programChange
    · subst hprogram
      obtain ⟨ms, heq, hms⟩ := @bounce_programChange s cache p hcall (h.clean _ hcall)
      rw [heq, List.filter_append, filter_paired hms, List.nil_append]
    · have hsingle : p.Single status := by
        refine ⟨hcall, h.clean status hcall, fun hcc hmem => hpaired ⟨hcc ▸ hcall, hmem⟩⟩
      rw [bounce_single hsingle hprogram]
  rcases h.midi1.cases with ⟨status, hcall⟩ | ⟨hpassed, htype⟩
  · exact hvoice status hcall
  · rw [bounce_passedOn hpassed htype, if_pos h.midi1]

/-- As long as no bank has been selected, a packet that is not paired comes back alone. -/
theorem step_unpaired (h : p.Plain) (hpaired : ¬p.message.Paired) (hbank : NoBank s) :
    NoBank ((ToMidi2.translator.translation.andThen
      ToMidi1.translator.translation).step (s, cache) p).1.1 ∧
    ((ToMidi2.translator.translation.andThen
      ToMidi1.translator.translation).step (s, cache) p).2 = [p] := by
  have hup : (ToMidi2.translator.messages s p).state.bank = s.bank ∧ ∃ q : Packet,
      (ToMidi2.translator.messages s p).output = [q.message] ∧
        (ToMidi1.translator.messages cache q).output = [p.message] := by
    rcases h.midi1.cases with ⟨status, hcall⟩ | ⟨hpassed, -⟩
    · have hsingle : p.Single status :=
        ⟨hcall, h.clean status hcall, fun hcc hmem => hpaired ⟨hcc ▸ hcall, hmem⟩⟩
      obtain ⟨hstate, hout⟩ := messages_upgrade hsingle hbank
      have hdown := @messages_downgrade p ⟨_, (is_upgraded status p.message).whole⟩ status hsingle
        rfl cache
      exact ⟨hstate, _, hout, congrArg Context.output hdown⟩
    · have hmessages := ToMidi2.messages_passedOn hpassed s
      have hdown := ToMidi1.messages_midi1 h.midi1 cache
      exact ⟨by rw [hmessages], p, by rw [hmessages], congrArg Context.output hdown⟩
  obtain ⟨hstate, q, hout, hdown⟩ := hup
  simp only [Machine.andThen, ToMidi2.translator.step_of_output hout q.whole,
    Machine.run_singleton, ToMidi1.translator.step_of_output hdown p.whole]
  refine ⟨?_, trivial⟩
  rw [NoBank, hstate]
  exact hbank

end Bounce

/-! ## Runs -/

theorem run_unpaired {s : ToMidi2.State} (hbank : NoBank s) (cache : ToMidi1.PnCache)
    {ps : List Packet} (hps : ∀ p ∈ ps, p.Plain ∧ ¬p.message.Paired) :
    ((ToMidi2.translator.translation.andThen ToMidi1.translator.translation).run (s, cache)
      ps).2 = ps := by
  induction ps generalizing s cache with
  | nil => rfl
  | cons p ps ih =>
      obtain ⟨⟨hplain, hpaired⟩, hrest⟩ := List.forall_mem_cons.1 hps
      obtain ⟨hnext, hout⟩ := @step_unpaired s cache p hplain hpaired hbank
      rw [Machine.run_cons, hout, ih hnext _ hrest]
      rfl

theorem filter_run_bounce (s : ToMidi2.State) (cache : ToMidi1.PnCache) {ps : List Packet}
    (hps : ∀ p ∈ ps, p.Plain) :
    (((ToMidi2.translator.translation.andThen ToMidi1.translator.translation).run (s, cache)
      ps).2.map Packet.message).filter (fun m => ¬m.Paired) =
        (ps.map Packet.message).filter fun m => ¬m.Paired := by
  induction ps generalizing s cache with
  | nil => rfl
  | cons p ps ih =>
      obtain ⟨hp, hrest⟩ := List.forall_mem_cons.1 hps
      have hstep := @filter_bounce s cache p hp
      rw [Machine.run_cons, List.map_append, List.filter_append, ih _ _ hrest, List.map_cons,
        ← List.singleton_append, List.filter_append]
      exact congrArg (· ++ _) hstep

/-- Without the control changes that select or set a half of something, the MIDI 1.0 messages
that come back are those that were sent. -/
theorem unpaired_upgrade_downgrade (g : Nat) (ps : List Packet) (hps : ∀ p ∈ ps, p.Plain) :
    (framesOf (ToMidi1.translator.run {}
      (ToMidi2.translator.run (.create g) (ps.flatMap Packet.words)).2).2).filter
        (fun m => ¬m.Paired) =
      (ps.map Packet.message).filter fun m => ¬m.Paired := by
  have hcomp := Machine.run_andThen ToMidi2.translator.translation ToMidi1.translator.translation
    (.create g) {} ps
  have hrun := filter_run_bounce (.create g) {} hps
  rw [hcomp] at hrun
  rw [(ToMidi2.translator.run_words _ ps).2, (ToMidi1.translator.run_words _ _).2, ← hrun,
    ← message_packetsOf, packetsOf_words]

/-- A note between the halves of a bank, the program, and a clock. -/
theorem unpaired_upgrade_downgrade_note :
    (framesOf (ToMidi1.translator.run {} (ToMidi2.translator.run (.create 0)
      [0x20B00005, 0x20903C64, 0x20B02007, 0x20C02A00, 0x10F80000]).2).2).filter
        (fun m => ¬m.Paired) =
      [⟨[0x20903C64]⟩, ⟨[0x20C02A00]⟩, ⟨[0x10F80000]⟩] := by
  have hvoice {p : Packet} {status : Mt.M1cvm} (h : p.message.call.callback = .m1cvm status)
      (hclean : M1cvm.Clean status p.message) : p.Plain :=
    ⟨Or.inr (Or.inl (by rw [h]; rfl)), fun s hs => Callback.m1cvm.inj (h.symm.trans hs) ▸ hclean⟩
  refine (unpaired_upgrade_downgrade 0 [{ message := ⟨[0x20B00005]⟩ },
    { message := ⟨[0x20903C64]⟩ }, { message := ⟨[0x20B02007]⟩ }, { message := ⟨[0x20C02A00]⟩ },
    { message := ⟨[0x10F80000]⟩ }] ?_).trans (by decide)
  refine List.forall_mem_cons.2 ⟨@hvoice _ .cc (by decide) (by decide), List.forall_mem_cons.2
    ⟨@hvoice _ .noteOn (by decide) (by decide), List.forall_mem_cons.2
    ⟨@hvoice _ .cc (by decide) (by decide), List.forall_mem_cons.2
    ⟨@hvoice _ .programChange (by decide) (by decide), List.forall_mem_singleton.2 ⟨?_, ?_⟩⟩⟩⟩⟩
  · exact Or.inl (by decide)
  · intro s hs
    have hcall : (⟨[0x10F80000]⟩ : Message).call.callback = .system .timingClock := by decide
    exact absurd (hcall.symm.trans hs) Callback.noConfusion

end Midi2.Ump
