import Midi2.Ump.Framing
import Midi2.Ump.Receiver
import Midi2.Ump.ToMidi2

/-!
# What `ump_to_midi2` passes on

`ump_to_midi2` has a function for every message that the dispatcher knows. Those for MIDI 1.0
channel voice messages translate, `noop` and `unknown` do nothing, and all others push the
message that they were called with. As the dispatcher calls them with all words of the
message, bit for bit as they came in, the same words come out (`passThrough`).
-/

namespace Midi2.Ump

/-- A message that has nothing to say, by its type and status. -/
def Packet.Noop (p : Packet) : Prop :=
  p.message.type = .utility ∧ Mt.Utility.ofNat? (p.message.get .status) = some .noop

/-- A message of which nothing comes out: `noop`, or one that the dispatcher does not know. -/
def Packet.Skipped (p : Packet) : Prop :=
  p.Noop ∨ ¬p.message.Known

/-- A message that is known and neither `noop` nor of a MIDI 1.0 channel. -/
def Packet.PassedOn (p : Packet) : Prop :=
  p.message.Known ∧ ¬p.Noop ∧ p.message.type ≠ .m1cvm

instance (p : Packet) : Decidable p.Noop :=
  inferInstanceAs (Decidable (_ ∧ _))

instance : DecidablePred Packet.Skipped := fun _ =>
  inferInstanceAs (Decidable (_ ∨ _))

instance : DecidablePred Packet.PassedOn := fun _ =>
  inferInstanceAs (Decidable (_ ∧ _))

theorem Packet.noop_iff (p : Packet) : p.message.call.callback = .utility .noop ↔ p.Noop := by
  constructor
  · intro h
    have htype : p.message.type = .utility := Message.type_of_call (by rw [h]; rfl)
    refine ⟨htype, ?_⟩
    rw [Message.call, htype, UmpDispatcher.callOf, UmpDispatcher.utilityMessage] at h
    split at h
    case h_1 hstatus => exact hstatus
    case h_2 =>
      exact Message.status_of_switch (fun _ _ => Callback.utility.inj)
        (fun _ => Callback.noConfusion) h
  · rintro ⟨htype, hstatus⟩
    rw [Message.call, htype, UmpDispatcher.callOf, UmpDispatcher.utilityMessage, hstatus]

theorem callback_m1cvm {p : Packet} (htype : p.message.type = .m1cvm) (hknown : p.message.Known) :
    ∃ status, p.message.call.callback = .m1cvm status := by
  rw [Message.Known, htype] at hknown
  obtain ⟨status, hstatus⟩ := Option.isSome_iff_exists.1 hknown
  refine ⟨status, ?_⟩
  rw [Message.call, htype, UmpDispatcher.callOf, UmpDispatcher.m1cvmMessage, hstatus, Call.switch]

namespace ToMidi2

/-- The functions of the configuration that push what they are called with. -/
theorem call_push {ω : Type} [Sink ω] {c : Call} (hnoop : c.callback ≠ .utility .noop)
    (hknown : c.callback ≠ .unknown) (hm1cvm : c.callback.type? ≠ some .m1cvm)
    (ctxt : Context State ω) : call c ctxt = ctxt.push c.message := by
  obtain ⟨callback, m⟩ := c
  cases callback with
  | utility s =>
      cases s with
      | noop => exact absurd rfl hnoop
      | _ => rfl
  | m1cvm s => exact absurd rfl hm1cvm
  | unknown => exact absurd rfl hknown
  | _ => rfl

/-- Those that do nothing. -/
theorem call_skip {ω : Type} [Sink ω] {c : Call}
    (h : c.callback = .utility .noop ∨ c.callback = .unknown) (ctxt : Context State ω) :
    call c ctxt = ctxt := by
  obtain ⟨callback, m⟩ := c
  rcases h with rfl | rfl
  · rfl
  · rfl

theorem messages_passedOn {p : Packet} (h : p.PassedOn) (s : State) :
    translator.messages s p = ⟨s, [p.message]⟩ := by
  obtain ⟨hknown, hnoop, htype⟩ := h
  have hnoop' : p.message.call.callback ≠ .utility .noop := fun hc => hnoop (p.noop_iff.1 hc)
  have hm1cvm : p.message.call.callback.type? ≠ some .m1cvm := fun hc =>
    htype (Message.type_of_call hc)
  have hpush := call_push hnoop' (fun hc => p.message.unknown_iff.1 hc hknown) hm1cvm
    (⟨s, []⟩ : Context State (List Message))
  rw [Message.call_message hnoop'] at hpush
  exact hpush

theorem messages_skipped {p : Packet} (h : p.Skipped) (s : State) :
    translator.messages s p = ⟨s, []⟩ :=
  call_skip (h.imp p.noop_iff.2 p.message.unknown_iff.2) _

theorem step_passedOn {p : Packet} (h : p.PassedOn) (s : State) :
    translator.translation.step s p = (s, [p]) := by
  have hmessages := messages_passedOn h s
  have hstep := translator.step_of_output (congrArg Context.output hmessages) p.whole
  rw [hmessages] at hstep
  exact hstep

theorem step_skipped {p : Packet} (h : p.Skipped) (s : State) :
    translator.translation.step s p = (s, []) := by
  have hmessages := messages_skipped h s
  have hnone : ∀ (ms : List Message) (hms : ∀ m ∈ ms, m.Whole), ms = [] →
      ms.attach.map (fun x => (⟨x.1, hms x.1 x.2⟩ : Packet)) = [] := by
    rintro _ _ rfl
    rfl
  exact Prod.ext (congrArg Context.state hmessages)
    (hnone _ (translator.whole p s) (congrArg Context.output hmessages))

/-- Whatever came before, the words of a message that is passed on come out as they are, and
those of one that is skipped do not. Messages that are skipped can be left out of a stream. -/
theorem passThrough (g : Nat) (ps : List Packet) :
    ((∀ p ∈ ps, p.PassedOn) →
      (translator.run (.create g) (ps.flatMap Packet.words)).2 = ps.flatMap Packet.words) ∧
    (∀ p : Packet, p.PassedOn → translator.emit (.create g) ps p = p.words) ∧
    (∀ p : Packet, p.Skipped → translator.emit (.create g) ps p = []) ∧
    (translator.run (.create g) (ps.flatMap Packet.words)).2 =
      (translator.run (.create g)
        ((ps.filter fun p => ¬p.Skipped).flatMap Packet.words)).2 := by
  refine ⟨fun hps => ?_, fun p hp => ?_, fun p hp => ?_, ?_⟩
  · have hstep : ∀ p ∈ ps, ∀ s : State, True →
        True ∧ (translator.translation.step s p).2 = [p] := fun p hp s _ =>
      ⟨trivial, congrArg Prod.snd (step_passedOn (hps p hp) s)⟩
    obtain ⟨-, hrun⟩ := @Machine.run_eq_flatMap _ _ _ translator.translation (fun _ => True) ps
      (fun p => [p]) hstep (.create g) trivial
    rw [(translator.run_words _ _).2, hrun, List.flatMap_singleton']
  · rw [translator.emit_eq, step_passedOn hp, List.flatMap_singleton]
  · rw [translator.emit_eq, step_skipped hp, List.flatMap_nil]
  · rw [(translator.run_words _ _).2, (translator.run_words _ _).2,
      Machine.run_filter fun s p hp => step_skipped (not_not.1 hp) s]

/-- A tempo with its reserved bits set, and a clock. -/
theorem passThrough_setTempo :
    (translator.run (.create 0) [0xD0FF0000, 0x12345678, 0xFFFFFFFF, 0x80000001, 0x10F8FFFF]).2 =
      [0xD0FF0000, 0x12345678, 0xFFFFFFFF, 0x80000001, 0x10F8FFFF] :=
  (passThrough 0 [{ message := ⟨[0xD0FF0000, 0x12345678, 0xFFFFFFFF, 0x80000001]⟩ },
    { message := ⟨[0x10F8FFFF]⟩ }]).1 (by decide)

end ToMidi2

end Midi2.Ump
