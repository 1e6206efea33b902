import Mathlib.Data.Finset.Basic
import Midi2.Ump.Receiver
import Midi2.Ump.ToMidi1
import Midi2.Ump.ToMidi2

/-!
# Sounding notes through the translators

The notes that sound are what matters about a stream of note messages. The two protocols
differ in one point: in MIDI 1.0 a note-on with velocity zero ends the note, in MIDI 2.0 only
a note-off does. Both translators turn a note-on into a note-on and scale its velocity, so
the notes that sound at the two ends are the same until a velocity is, or becomes, zero.
-/

namespace Midi2.Ump

/-! ## Receivers of notes -/

/-- A note: its group, channel and number. -/
abbrev Note := Nat × Nat × Nat

/-- The note of a note message, of either protocol. -/
def noteOf (m : Message) : Note :=
  (m.get .group, m.get .channel, m.get M1cvm.note)

/-- The sounding notes for a MIDI 1.0 receiver. -/
def midi1Notes (c : Call) (sounding : Finset Note) : Finset Note :=
  match c.callback with
  | .m1cvm .noteOn =>
      if c.message.get M1cvm.velocity = 0 then sounding.erase (noteOf c.message)
      else insert (noteOf c.message) sounding
  | .m1cvm .noteOff => sounding.erase (noteOf c.message)
  | _ => sounding

/-- The sounding notes for a MIDI 2.0 receiver. -/
def midi2Notes (c : Call) (sounding : Finset Note) : Finset Note :=
  match c.callback with
  | .m2cvm .noteOn => insert (noteOf c.message) sounding
  | .m2cvm .noteOff => sounding.erase (noteOf c.message)
  | _ => sounding

theorem erase_ne_insert (sounding : Finset Note) (n : Note) :
    sounding.erase n ≠ insert n sounding := fun h =>
  Finset.notMem_erase n sounding (h ▸ Finset.mem_insert_self n sounding)

/-- A message that has been given the group, the channel and the note of another. -/
theorem noteOf_set {n status : Nat} {mt : MessageType} {base : Message}
    (h : base.Kind n mt status) (hn : 0 < n) (m : Message) {f : Field} (v : Nat)
    (hgroup : f.Disjoint .group := by decide) (hchannel : f.Disjoint .channel := by decide)
    (hnote : f.Disjoint M1cvm.note := by decide) :
    noteOf (base
      |>.set .group (m.get .group)
      |>.set .channel (m.get .channel)
      |>.set M1cvm.note (m.get M1cvm.note)
      |>.set f v) = noteOf m := by
  have hg : (base.set .group (m.get .group)).get .group = m.get .group :=
    h.get_set (m.get_lt _) hn
  have hc : ((base.set .group (m.get .group)).set .channel (m.get .channel)).get .channel =
      m.get .channel := (h.set _).get_set (m.get_lt _) hn
  simp only [noteOf]
  rw [Message.get_set_of_disjoint _ _ hgroup, Message.get_set_of_disjoint _ _ hchannel,
    Message.get_set_of_disjoint _ _ hnote, ((h.set _).set _).get_set (m.get_lt _) hn]
  simp (disch := decide) only [Message.get_set_of_disjoint, hg, hc]

/-! ## To MIDI 1.0 -/

/-- A MIDI 2.0 note-on or note-off. -/
def Packet.IsMidi2Note (p : Packet) : Prop :=
  p.message.call.callback = .m2cvm .noteOn ∨ p.message.call.callback = .m2cvm .noteOff

instance (p : Packet) : Decidable p.IsMidi2Note :=
  inferInstanceAs (Decidable (_ ∨ _))

namespace ToMidi1

theorem noteOf_noteMessage (s : Mt.M1cvm) (m : Message) : noteOf (noteMessage s m) = noteOf m :=
  noteOf_set (M1cvm.is_init s) (by decide) m _

/-- A velocity of sixteen bits keeps its upper seven. -/
theorem velocity_noteMessage (s : Mt.M1cvm) (m : Message) :
    (noteMessage s m).get M1cvm.velocity = m.get M2cvm.velocity / 2 ^ 9 := by
  have hscale : mcmScale 16 7 (m.get M2cvm.velocity) < 2 ^ 7 :=
    mcmScale_down_lt (by decide) (m.get_lt M2cvm.velocity)
  rw [noteMessage, ((((M1cvm.is_init s).set _).set _).set _).get_set hscale,
    mcmScale_down (by decide)]

/-- A note message becomes a note message. What the receivers make of the two differs for
the note-on that has no velocity left. -/
theorem notes_step {p : Packet} (h : p.IsMidi2Note) (cache : PnCache) (sounding : Finset Note) :
    (translator.translation.step cache p).2.foldl (observe midi1Notes) sounding =
        observe midi2Notes sounding p ↔
      (p.message.call.callback = .m2cvm .noteOn → 2 ^ 9 ≤ p.message.get M2cvm.velocity) := by
  rw [Translator.foldl_step, Translator.messages, observe]
  rcases h with hon | hoff
  · have hsent : (translator.call p.message.call (⟨cache, []⟩ : Context _ (List Message))).output =
        [noteMessage .noteOn p.message] := by rw [Message.call_eq hon]; rfl
    have hvelocity := velocity_noteMessage .noteOn p.message
    rw [hsent, List.foldl_cons, List.foldl_nil, (is_noteMessage .noteOn p.message).call,
      Message.call_eq hon]
    simp only [midi1Notes, midi2Notes, noteOf_noteMessage, hvelocity]
    split
    case isTrue hzero =>
      refine ⟨fun h => absurd h (erase_ne_insert _ _), fun h => ?_⟩
      have := h trivial
      omega
    case isFalse hpos =>
      refine ⟨fun _ _ => ?_, fun _ => rfl⟩
      omega
  · have hsent : (translator.call p.message.call (⟨cache, []⟩ : Context _ (List Message))).output =
        [noteMessage .noteOff p.message] := by rw [Message.call_eq hoff]; rfl
    rw [hsent, List.foldl_cons, List.foldl_nil, (is_noteMessage .noteOff p.message).call,
      Message.call_eq hoff]
    simp only [midi1Notes, midi2Notes, noteOf_noteMessage]
    exact ⟨fun _ h => (by cases h), fun _ => trivial⟩

/-- The translation to MIDI 1.0 keeps the sounding notes, after every prefix of a sequence of
notes, if and only if no note-on has a velocity that is scaled to zero. -/
theorem keeps_soundingNotes (ps : List Packet) (hps : ∀ p ∈ ps, p.IsMidi2Note) :
    (∀ pre, pre <+: ps →
      receive midi1Notes ∅ (translator.run {} (pre.flatMap Packet.words)).2 =
        receive midi2Notes ∅ (pre.flatMap Packet.words)) ↔
    ∀ p ∈ ps, p.message.call.callback = .m2cvm .noteOn →
      2 ^ 9 ≤ p.message.get M2cvm.velocity := by
  simp only [Translator.receive_run, receive_words]
  exact translator.translation.agree_iff (fun p hp => notes_step (hps p hp)) {} ∅

/-- A note-on of full velocity, and the note-off. -/
def loudNote : Packet where
  message := ⟨[0x40903C00, 0xFFFF0000]⟩

def loudNoteEnd : Packet where
  message := ⟨[0x40803C00, 0x00000000]⟩

/-- A loud note and its end. -/
theorem keeps_soundingNotes_loud :
    (∀ pre, pre <+: [loudNote, loudNoteEnd] →
      receive midi1Notes ∅ (translator.run {} (pre.flatMap Packet.words)).2 =
        receive midi2Notes ∅ (pre.flatMap Packet.words)) ↔
    ∀ p ∈ [loudNote, loudNoteEnd], p.message.call.callback = .m2cvm .noteOn →
      2 ^ 9 ≤ p.message.get M2cvm.velocity :=
  keeps_soundingNotes [loudNote, loudNoteEnd] (by decide)

/-- `40903C00 01FF0000`: a note-on of middle C whose velocity is just too small. -/
def faintNote : Packet where
  message := ⟨[0x40903C00, 0x01FF0000]⟩

/-- A faint note sounds at the input, and has been turned off at the output. -/
theorem faintNote_lost : ¬∀ ps : List Packet, (∀ p ∈ ps, p.IsMidi2Note) → ∀ pre, pre <+: ps →
    receive midi1Notes ∅ (translator.run {} (pre.flatMap Packet.words)).2 =
      receive midi2Notes ∅ (pre.flatMap Packet.words) := by
  intro h
  have heq := h [faintNote] (by decide) [faintNote] (List.prefix_refl _)
  revert heq
  decide

end ToMidi1

/-! ## To MIDI 2.0 -/

/-- A MIDI 1.0 note-on or note-off. -/
def Packet.IsMidi1Note (p : Packet) : Prop :=
  p.message.call.callback = .m1cvm .noteOn ∨ p.message.call.callback = .m1cvm .noteOff

instance (p : Packet) : Decidable p.IsMidi1Note :=
  inferInstanceAs (Decidable (_ ∨ _))

namespace ToMidi2

theorem noteOf_noteMessage (s : Mt.M2cvm) (m : Message) : noteOf (noteMessage s m) = noteOf m :=
  noteOf_set (M2cvm.is_init s) (by decide) m _

/-- A note message becomes a note message, whatever its velocity. -/
theorem notes_step {p : Packet} (h : p.IsMidi1Note) (s : State) (sounding : Finset Note) :
    (translator.translation.step s p).2.foldl (observe midi2Notes) sounding =
        observe midi1Notes sounding p ↔
      (p.message.call.callback = .m1cvm .noteOn → p.message.get M1cvm.velocity ≠ 0) := by
  rw [Translator.foldl_step, Translator.messages, observe]
  rcases h with hon | hoff
  · have hsent : (translator.call p.message.call (⟨s, []⟩ : Context _ (List Message))).output =
        [noteMessage .noteOn p.message] := by rw [Message.call_eq hon]; rfl
    rw [hsent, List.foldl_cons, List.foldl_nil, (is_noteMessage .noteOn p.message).call,
      Message.call_eq hon]
    simp only [midi1Notes, midi2Notes, noteOf_noteMessage]
    split
    case isTrue hzero =>
      exact ⟨fun h => absurd h.symm (erase_ne_insert _ _), fun h => absurd hzero (h trivial)⟩
    case isFalse hpos => exact ⟨fun _ _ => hpos, fun _ => rfl⟩
  · have hsent : (translator.call p.message.call (⟨s, []⟩ : Context _ (List Message))).output =
        [noteMessage .noteOff p.message] := by rw [Message.call_eq hoff]; rfl
    rw [hsent, List.foldl_cons, List.foldl_nil, (is_noteMessage .noteOff p.message).call,
      Message.call_eq hoff]
    simp only [midi1Notes, midi2Notes, noteOf_noteMessage]
    exact ⟨fun _ h => (by cases h), fun _ => trivial⟩

/-- The translation to MIDI 2.0 keeps the sounding notes, after every prefix of a sequence of
notes, if and only if no note is ended by a note-on. -/
theorem keeps_soundingNotes_midi2 (g : Nat) (ps : List Packet)
    (hps : ∀ p ∈ ps, p.IsMidi1Note) :
    (∀ pre, pre <+: ps →
      receive midi2Notes ∅ (translator.run (.create g) (pre.flatMap Packet.words)).2 =
        receive midi1Notes ∅ (pre.flatMap Packet.words)) ↔
    ∀ p ∈ ps, p.message.call.callback = .m1cvm .noteOn → p.message.get M1cvm.velocity ≠ 0 := by
  simp only [Translator.receive_run, receive_words]
  exact translator.translation.agree_iff (fun p hp => notes_step (hps p hp)) (.create g) ∅

def loudNote : Packet where
  message := ⟨[0x20903C7F]⟩

def loudNoteEnd : Packet where
  message := ⟨[0x20803C00]⟩

theorem keeps_soundingNotes_midi2_loud :
    (∀ pre, pre <+: [loudNote, loudNoteEnd] →
      receive midi2Notes ∅ (translator.run (.create 0) (pre.flatMap Packet.words)).2 =
        receive midi1Notes ∅ (pre.flatMap Packet.words)) ↔
    ∀ p ∈ [loudNote, loudNoteEnd], p.message.call.callback = .m1cvm .noteOn →
      p.message.get M1cvm.velocity ≠ 0 :=
  keeps_soundingNotes_midi2 0 [loudNote, loudNoteEnd] (by decide)

/-- `20903C00`: a note-on that is the implicit end of a note. -/
def implicitNoteOff : Packet where
  message := ⟨[0x20903C00]⟩

/-- The implicit end of a note is not one at the output, where the note sounds on. -/
theorem implicitNoteOff_stuck : ¬∀ ps : List Packet, (∀ p ∈ ps, p.IsMidi1Note) →
    ∀ pre, pre <+: ps →
      receive midi2Notes ∅ (translator.run (.create 0) (pre.flatMap Packet.words)).2 =
        receive midi1Notes ∅ (pre.flatMap Packet.words) := by
  intro h
  have heq := h [loudNote, implicitNoteOff] (by decide) _ (List.prefix_refl _)
  revert heq
  decide

end ToMidi2

end Midi2.Ump
