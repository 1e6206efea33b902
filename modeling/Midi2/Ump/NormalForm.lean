import Midi2.Ump.PassThrough
import Midi2.Ump.ToMidi1

/-!
# What the translators leave alone

`to_midi1` sends nothing but MIDI 1.0 messages, and passes MIDI 1.0 messages on;
`ump_to_midi2` sends no MIDI 1.0 channel voice message and passes on everything else that the
dispatcher knows, `noop` apart. So for both a second pass changes nothing, and the streams
that a pass leaves alone are those of the messages that are passed on.
-/

namespace Midi2.Ump

/-! ## Normal forms -/

/-- A translation of words that has a normal form: the streams of messages that it keeps. -/
structure NormalForm (translate : List Word → List Word) (Keep : Packet → Prop) : Prop where
  idempotent : ∀ ws, translate (translate ws) = translate ws
  fixed_iff : ∀ ws, translate ws = ws ↔ ∃ ps : List Packet, (∀ p ∈ ps, Keep p) ∧
    ws = ps.flatMap Packet.words

namespace Translator

variable {τ : Type} {t : Translator τ} {Keep : Packet → Prop}

theorem normalForm (h : t.translation.Projects Keep) (init : τ) :
    NormalForm (fun ws => (t.run init ws).2) Keep where
  idempotent ws := by
    rw [(t.run_packetsOf init ws).2, (t.run_words init _).2, h.run_run]
  fixed_iff ws := by
    rw [(t.run_packetsOf init ws).2]
    constructor
    · intro heq
      exact ⟨_, h.keep_run init (packetsOf ws), heq.symm⟩
    · rintro ⟨ps, hps, rfl⟩
      rw [packetsOf_words, h.run_keep init hps]

theorem message_step (t : Translator τ) (s : τ) (p : Packet) :
    (t.translation.step s p).2.map Packet.message = (t.messages s p).output := by
  rw [translation, List.map_map]
  exact List.attach_map_subtype_val _

/-- What a translator sends are the packets of its messages. -/
theorem message_of_mem_step {s : τ} {p q : Packet} (hq : q ∈ (t.translation.step s p).2) :
    q.message ∈ (t.messages s p).output := by
  obtain ⟨m, -, rfl⟩ := List.mem_map.1 hq
  exact m.2

end Translator

/-! ## `to_midi1` -/

/-- A message that MIDI 1.0 has too. -/
def Packet.IsMidi1 (p : Packet) : Prop :=
  p.message.call.callback.type? = some .system ∨ p.message.call.callback.type? = some .m1cvm ∨
    p.message.call.callback.type? = some .data64

instance (p : Packet) : Decidable p.IsMidi1 :=
  inferInstanceAs (Decidable (_ ∨ _))

namespace ToMidi1

/-- What is sent for a packet: itself if it is of MIDI 1.0, or else what it is translated to. -/
theorem messages_cases (p : Packet) (cache : PnCache) :
    (p.IsMidi1 ∧ translator.messages cache p = ⟨cache, [p.message]⟩) ∨
      (∃ s, p.message.call = ⟨.m2cvm s, p.message⟩ ∧
        translator.messages cache p = m2cvm s ⟨cache, []⟩ p.message) ∨
      translator.messages cache p = ⟨cache, []⟩ := by
  have hmessage := Message.call_message (m := p.message)
  rw [Translator.messages]
  unfold Packet.IsMidi1
  generalize p.message.call = c at hmessage
  obtain ⟨callback, m⟩ := c
  cases callback with
  | system =>
      obtain rfl : m = p.message := hmessage Callback.noConfusion
      exact Or.inl ⟨Or.inl rfl, rfl⟩
  | m1cvm =>
      obtain rfl : m = p.message := hmessage Callback.noConfusion
      exact Or.inl ⟨Or.inr (Or.inl rfl), rfl⟩
  | data64 =>
      obtain rfl : m = p.message := hmessage Callback.noConfusion
      exact Or.inl ⟨Or.inr (Or.inr rfl), rfl⟩
  | m2cvm s =>
      obtain rfl : m = p.message := hmessage Callback.noConfusion
      exact Or.inr (Or.inl ⟨s, rfl, rfl⟩)
  | utility | data128 | stream | flexData | flexText | unknown => exact Or.inr (Or.inr rfl)

theorem messages_midi1 {p : Packet} (h : p.IsMidi1) (cache : PnCache) :
    translator.messages cache p = ⟨cache, [p.message]⟩ := by
  have hmessage := Message.call_message (m := p.message)
  rw [Translator.messages]
  unfold Packet.IsMidi1 at h
  generalize p.message.call = c at h hmessage
  obtain ⟨callback, m⟩ := c
  cases callback with
  | system | m1cvm | data64 =>
      obtain rfl : m = p.message := hmessage Callback.noConfusion
      rfl
  | _ => rcases h with h | h | h <;> cases h

/-- MIDI 1.0 messages come out as they are, and nothing else comes out. -/
theorem projects : translator.translation.Projects Packet.IsMidi1 where
  keep cache p hp := by
    have hmessages := messages_midi1 hp cache
    have hstep := translator.step_of_output (congrArg Context.output hmessages) p.whole
    rw [hmessages] at hstep
    exact hstep
  sends cache p q hq := by
    have hmem := Translator.message_of_mem_step hq
    rcases messages_cases p cache with ⟨hp, heq⟩ | ⟨s, -, heq⟩ | heq
    · rw [heq] at hmem
      rw [Packet.IsMidi1, List.mem_singleton.1 hmem]
      exact hp
    · rw [heq] at hmem
      obtain ⟨status, his⟩ := (channelVoice_m2cvm s cache p.message).is _ hmem
      refine Or.inr (Or.inl ?_)
      rw [his.call]
      rfl
    · rw [heq] at hmem
      exact absurd hmem List.not_mem_nil

/-- `to_midi1` makes streams of MIDI 1.0 messages and leaves these alone. -/
theorem output_normalForm :
    NormalForm (fun ws => (translator.run {} ws).2) Packet.IsMidi1 :=
  translator.normalForm projects {}

end ToMidi1

/-! ## `ump_to_midi2` -/

namespace ToMidi2

theorem passedOn_of_is {s : Mt.M2cvm} {p : Packet} (h : M2cvm.Is s p.message) : p.PassedOn := by
  have htype : p.message.type = .m2cvm := h.type
  refine ⟨?_, ?_, ?_⟩
  · rw [← not_not (a := p.message.Known), ← p.message.unknown_iff, h.call]
    exact Callback.noConfusion
  · rintro ⟨hutility, -⟩
    rw [htype] at hutility
    cases hutility
  · rw [htype]
    exact MessageType.noConfusion

/-- What is sent for a packet: itself if it is passed on, or nothing, or a translation. -/
theorem messages_cases (p : Packet) (s : State) :
    (p.PassedOn ∧ translator.messages s p = ⟨s, [p.message]⟩) ∨
      AtMostOne (translator.messages s p).output := by
  by_cases hp : p.PassedOn
  · exact Or.inl ⟨hp, messages_passedOn hp s⟩
  refine Or.inr ?_
  by_cases hskip : p.Skipped
  · rw [messages_skipped hskip s]
    exact Or.inl rfl
  have hknown : p.message.Known := not_not.1 fun h => hskip (Or.inr h)
  have htype : p.message.type = .m1cvm :=
    by_contra fun h => hp ⟨hknown, fun hnoop => hskip (Or.inl hnoop), h⟩
  obtain ⟨status, hcall⟩ := callback_m1cvm htype hknown
  have hsent := atMostOne_m1cvm status s p.message.call.message
  rwa [Translator.messages, show p.message.call = ⟨.m1cvm status, p.message.call.message⟩ from
    hcall ▸ rfl]

/-- What is passed on comes out as it is, and nothing else comes out. -/
theorem projects : translator.translation.Projects Packet.PassedOn where
  keep s p hp := step_passedOn hp s
  sends s p q hq := by
    have hmem := Translator.message_of_mem_step hq
    rcases messages_cases p s with ⟨hp, heq⟩ | hnone | ⟨status, m, hone, his⟩
    · rw [heq] at hmem
      unfold Packet.PassedOn Packet.Noop
      rw [List.mem_singleton.1 hmem]
      exact hp
    · rw [hnone] at hmem
      exact absurd hmem List.not_mem_nil
    · rw [hone] at hmem
      rw [← List.mem_singleton.1 hmem] at his
      exact passedOn_of_is his

/-- `ump_to_midi2` makes streams without MIDI 1.0 channel voice messages, `noop` and messages
that the dispatcher does not know, and leaves these alone. -/
theorem output_normalForm_midi2 (g : Nat) :
    NormalForm (fun ws => (translator.run (.create g) ws).2) Packet.PassedOn :=
  translator.normalForm projects (.create g)

end ToMidi2

end Midi2.Ump
