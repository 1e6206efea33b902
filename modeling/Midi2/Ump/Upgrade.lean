import Midi2.Ump.ToMidi1
import Midi2.Ump.ToMidi2

/-!
# Up to MIDI 2.0 and down again

A MIDI 1.0 channel voice message that needs no other one to be translated is the same after
`ump_to_midi2` and `to_midi1` (`upgrade_downgrade`). The two translators were written apart:
each field has to be put back to where it came from, each value scaled down to what it was
before it was scaled up, and a program change must not bring a bank along.

`M1cvm.rebuild` reduces this to the fields: a message whose unused bits are zero is made of
them.
-/

namespace Midi2.Ump

open Adt

/-! ## Messages made of their fields -/

/-- Setters of a message of one word. -/
theorem sets_singleton (w : Word) {fs : List Field} (v : Field → Nat)
    (hword : ∀ f ∈ fs, f.word = 0) :
    (⟨[w]⟩ : Message).sets (fs.map fun f => (f, v f)) =
      ⟨[fs.foldl (fun w f => BitField.set w f.range (v f)) w]⟩ := by
  induction fs generalizing w with
  | nil => rfl
  | cons f fs ih =>
      obtain ⟨hf, hfs⟩ := List.forall_mem_cons.1 hword
      have hset : (⟨[w]⟩ : Message).set f (v f) = ⟨[BitField.set w f.range (v f)]⟩ := by
        rw [Message.set, hf]
        rfl
      rw [List.map_cons, List.foldl_cons, ← ih _ hfs, ← hset]
      rfl

/-- A message is its type, its status and its other fields. -/
theorem M1cvm.rebuild {s : Mt.M1cvm} {m : Message} (h : Is s m) (hclean : Clean s m)
    (fs : List Field) (hword : ∀ f ∈ fs, f.word = 0 := by decide)
    (hcover : ∀ i < 32, ∃ f ∈ (.mt :: .status :: fs) ++ reserved s, f.range.Covers i := by
      decide) : (init s).sets (fs.map fun f => (f, m.get f)) = m := by
  obtain ⟨w, hw⟩ := List.length_eq_one_iff.1 h.length
  obtain rfl : m = ⟨[w]⟩ := congrArg Message.mk hw
  have hreserved : ∀ f ∈ reserved s, f.word = 0 := by cases s <;> decide
  have hget (f : Field) (hf : f.word = 0) :
      (⟨[w]⟩ : Message).get f = BitField.get w f.range := by
    rw [Message.get, hf]
    rfl
  have hcopy := @copy_eq 32 w ((.mt :: .status :: fs).map Field.range)
    ((reserved s).map Field.range) ?_ ?_
  · have hinit : init s = ⟨[BitField.set (BitField.set 0 Field.mt.range
        (BitField.get w Field.mt.range)) Field.status.range
          (BitField.get w Field.status.range)]⟩ := by
      rw [← hget .mt rfl, ← hget .status rfl, h.mt, h.status]
      rfl
    rw [hinit, sets_singleton _ _ hword]
    rw [List.foldl_map, List.foldl_cons, List.foldl_cons] at hcopy
    refine congrArg (fun w => (⟨[w]⟩ : Message)) (Eq.trans ?_ hcopy)
    exact List.foldl_ext _ _ _ fun w' f hf => by rw [hget f (hword f hf)]
  · intro i hi
    obtain ⟨f, hf, hfi⟩ := hcover i hi
    rw [← List.map_append]
    exact ⟨f.range, List.mem_map_of_mem hf, hfi⟩
  · intro r hr
    obtain ⟨f, hf, rfl⟩ := List.mem_map.1 hr
    rw [← hget f (hreserved f hf)]
    exact hclean f hf

/-! ## One message up and down -/

/-- The controllers that select a bank or a parameter, or set one. -/
def pairedControllers : List Nat :=
  [0, 6, 32, 38, 98, 99, 100, 101]

theorem ofNat_eq_of_not_paired {controller : Nat} (hlt : controller < 2 ^ 7)
    (h : controller ∉ pairedControllers) : Control.ofNat? controller = none ∨
      Control.ofNat? controller = some .resetAllControllers := by
  have hall : ∀ n < 2 ^ 7, n ∉ pairedControllers →
      Control.ofNat? n = none ∨ Control.ofNat? n = some .resetAllControllers := by decide
  exact hall controller hlt h

/-- A channel voice message that is translated by itself. -/
structure Packet.Single (p : Packet) (s : Mt.M1cvm) : Prop where
  call : p.message.call.callback = .m1cvm s
  clean : M1cvm.Clean s p.message
  controller : s = .cc → p.message.get M1cvm.controller ∉ pairedControllers

/-- The status of the message that is made of one with status `s`. -/
def upgradedStatus : Mt.M1cvm → Mt.M2cvm
  | .noteOff => .noteOff
  | .noteOn => .noteOn
  | .polyPressure => .polyPressure
  | .cc => .cc
  | .programChange => .programChange
  | .channelPressure => .channelPressure
  | .pitchBend => .pitchBend

/-- The fields that a message is upgraded to, with their values. -/
def upgradedFields (s : Mt.M1cvm) (m : Message) : List (Field × Nat) :=
  (.group, m.get .group) :: (.channel, m.get .channel) ::
    match s with
    | .noteOff | .noteOn =>
        [(M2cvm.note, m.get M1cvm.note),
          (M2cvm.velocity, mcmScale 7 16 (m.get M1cvm.velocity))]
    | .polyPressure =>
        [(M2cvm.note, m.get M1cvm.note),
          (M2cvm.pressure, mcmScale 7 32 (m.get M1cvm.pressure))]
    | .cc =>
        [(M2cvm.controller, m.get M1cvm.controller),
          (M2cvm.value, mcmScale 7 32 (m.get M1cvm.value))]
    | .programChange => [(M2cvm.program, m.get M1cvm.program)]
    | .channelPressure => [(M2cvm.value, mcmScale 7 32 (m.get M1cvm.data))]
    | .pitchBend =>
        [(M2cvm.value, mcmScale 14 32
          ((m.get M1cvm.msbData <<< 7) ||| m.get M1cvm.lsbData))]

/-- The message that a channel voice message is upgraded to. -/
def upgraded (s : Mt.M1cvm) (m : Message) : Message :=
  (M2cvm.init (upgradedStatus s)).sets (upgradedFields s m)

theorem is_upgraded (s : Mt.M1cvm) (m : Message) :
    M2cvm.Is (upgradedStatus s) (upgraded s m) := by
  have hinit := M2cvm.is_init (upgradedStatus s)
  cases s with
  | noteOff | noteOn => exact hinit.sets [.group, .channel, M2cvm.note, M2cvm.velocity]
  | polyPressure => exact hinit.sets [.group, .channel, M2cvm.note, M2cvm.pressure]
  | cc => exact hinit.sets [.group, .channel, M2cvm.controller, M2cvm.value]
  | programChange => exact hinit.sets [.group, .channel, M2cvm.program]
  | channelPressure | pitchBend => exact hinit.sets [.group, .channel, M2cvm.value]

theorem scaled_lt {s d : Nat} {f : Field} (m : Message) (hs : f.range.bits = s)
    (h : s ≤ d := by decide) : mcmScale s d (m.get f) < 2 ^ d :=
  mcmScale_up_lt h (hs ▸ m.get_lt f)

theorem bend_lt (m : Message) : (m.get M1cvm.msbData <<< 7) ||| m.get M1cvm.lsbData < 2 ^ 14 :=
  shiftLeft_or_lt (m.get_lt M1cvm.msbData) (m.get_lt M1cvm.lsbData)

theorem get_upgraded (s : Mt.M1cvm) (m : Message) :
    ∀ x ∈ upgradedFields s m, (upgraded s m).get x.1 = x.2 := by
  have hinit := M2cvm.is_init (upgradedStatus s)
  have hg := m.get_lt .group
  have hc := m.get_lt .channel
  cases s with
  | noteOff | noteOn =>
      refine hinit.get_sets [.group, .channel, M2cvm.note, M2cvm.velocity] ?_
      simp only [upgradedFields, List.forall_mem_cons]
      exact ⟨hg, hc, m.get_lt M1cvm.note, scaled_lt m rfl, List.forall_mem_nil _⟩
  | polyPressure =>
      refine hinit.get_sets [.group, .channel, M2cvm.note, M2cvm.pressure] ?_
      simp only [upgradedFields, List.forall_mem_cons]
      exact ⟨hg, hc, m.get_lt M1cvm.note, scaled_lt m rfl, List.forall_mem_nil _⟩
  | cc =>
      refine hinit.get_sets [.group, .channel, M2cvm.controller, M2cvm.value] ?_
      simp only [upgradedFields, List.forall_mem_cons]
      exact ⟨hg, hc, m.get_lt M1cvm.controller, scaled_lt m rfl, List.forall_mem_nil _⟩
  | programChange =>
      refine hinit.get_sets [.group, .channel, M2cvm.program] ?_
      simp only [upgradedFields, List.forall_mem_cons]
      exact ⟨hg, hc, Nat.lt_trans (m.get_lt M1cvm.program) (by decide), List.forall_mem_nil _⟩
  | channelPressure =>
      refine hinit.get_sets [.group, .channel, M2cvm.value] ?_
      simp only [upgradedFields, List.forall_mem_cons]
      exact ⟨hg, hc, scaled_lt m rfl, List.forall_mem_nil _⟩
  | pitchBend =>
      refine hinit.get_sets [.group, .channel, M2cvm.value] ?_
      simp only [upgradedFields, List.forall_mem_cons]
      exact ⟨hg, hc, mcmScale_up_lt (by decide) (bend_lt m), List.forall_mem_nil _⟩

theorem downgraded_eq {s : Mt.M1cvm} {m : Message} (h : M1cvm.Is s m)
    (hclean : M1cvm.Clean s m) (cache : ToMidi1.PnCache) :
    ToMidi1.m2cvm (upgradedStatus s) ⟨cache, []⟩ (upgraded s m) =
      (⟨cache, [m]⟩ : Context ToMidi1.PnCache (List Message)) := by
  have hget := get_upgraded s m
  have hpush {m' : Message} (hm : m' = m) :
      (⟨cache, []⟩ : Context ToMidi1.PnCache (List Message)).push m' = ⟨cache, [m]⟩ := by
    rw [hm]
    rfl
  have hdown {d : Nat} {f : Field} (hf : f.range.bits = 7) (hd : 7 ≤ d) :
      mcmScale d 7 (mcmScale 7 d (m.get f)) = m.get f :=
    mcmScale_down_up hd (hf ▸ m.get_lt f)
  cases s with
  | noteOff | noteOn =>
      simp only [upgradedFields, List.forall_mem_cons] at hget
      obtain ⟨hg, hc, hn, hv, -⟩ := hget
      refine hpush ?_
      rw [ToMidi1.noteMessage, hg, hc, hn, hv, hdown rfl (by decide)]
      exact M1cvm.rebuild h hclean [.group, .channel, M1cvm.note, M1cvm.velocity]
  | polyPressure =>
      simp only [upgradedFields, List.forall_mem_cons] at hget
      obtain ⟨hg, hc, hn, hv, -⟩ := hget
      refine hpush ?_
      rw [hg, hc, hn, hv, hdown rfl (by decide)]
      exact M1cvm.rebuild h hclean [.group, .channel, M1cvm.note, M1cvm.pressure]
  | cc =>
      simp only [upgradedFields, List.forall_mem_cons] at hget
      obtain ⟨hg, hc, hn, hv, -⟩ := hget
      refine hpush ?_
      rw [ToMidi1.controlChangeMessage, hg, hc, hn, hv, hdown rfl (by decide)]
      exact M1cvm.rebuild h hclean [.group, .channel, M1cvm.controller, M1cvm.value]
  | programChange =>
      have hbank : (upgraded .programChange m).get M2cvm.bankValid = 0 := by
        rw [upgraded, Message.get_sets_of_disjoint]
        · rfl
        · simp only [upgradedFields, List.forall_mem_cons]
          decide
      simp only [upgradedFields, List.forall_mem_cons] at hget
      obtain ⟨hg, hc, hp, -⟩ := hget
      simp only [upgradedStatus, ToMidi1.m2cvm, ToMidi1.programChange, hbank, ne_eq,
        not_true_eq_false, if_false]
      refine hpush ?_
      rw [hg, hc, hp]
      exact M1cvm.rebuild h hclean [.group, .channel, M1cvm.program]
  | channelPressure =>
      simp only [upgradedFields, List.forall_mem_cons] at hget
      obtain ⟨hg, hc, hv, -⟩ := hget
      refine hpush ?_
      rw [hg, hc, hv, hdown rfl (by decide)]
      exact M1cvm.rebuild h hclean [.group, .channel, M1cvm.data]
  | pitchBend =>
      have hmsb : m.get M1cvm.msbData < 2 ^ 7 := m.get_lt _
      have hlsb : m.get M1cvm.lsbData < 2 ^ 7 := m.get_lt _
      simp only [upgradedFields, List.forall_mem_cons] at hget
      obtain ⟨hg, hc, hv, -⟩ := hget
      refine hpush ?_
      rw [hg, hc, hv, mcmScale_down_up (by decide) (bend_lt m), lo7_shiftLeft_or hlsb,
        hi7_shiftLeft_or hmsb hlsb]
      exact M1cvm.rebuild h hclean [.group, .channel, M1cvm.lsbData, M1cvm.msbData]

/-- No channel has a bank. -/
def NoBank (s : ToMidi2.State) : Prop :=
  ∀ group channel, (s.bank group channel).isValid = false

/-- The upgrade of a message that is translated by itself. -/
theorem messages_upgrade {p : Packet} {s : Mt.M1cvm} (h : p.Single s) {state : ToMidi2.State}
    (hbank : NoBank state) : (ToMidi2.translator.messages state p).state.bank = state.bank ∧
      (ToMidi2.translator.messages state p).output = [upgraded s p.message] := by
  rw [Translator.messages, Message.call_eq h.call (by cases s <;> decide)]
  cases s with
  | noteOff | noteOn | polyPressure | channelPressure | pitchBend => exact ⟨rfl, rfl⟩
  | cc =>
      show (ToMidi2.controlChange (⟨state, []⟩ : Context ToMidi2.State (List Message))
        p.message).state.bank = _ ∧ (ToMidi2.controlChange _ _).output = _
      rw [ToMidi2.controlChange]
      rcases ofNat_eq_of_not_paired (p.message.get_lt _) (h.controller rfl) with hc | hc
      · rw [hc]
        exact ⟨rfl, rfl⟩
      · rw [hc]
        exact ⟨rfl, rfl⟩
  | programChange =>
      have hnone := hbank (p.message.get .group) (p.message.get .channel)
      refine ⟨rfl, ?_⟩
      show (ToMidi2.programChange (⟨state, []⟩ : Context ToMidi2.State (List Message))
        p.message).output = _
      simp only [ToMidi2.programChange, hnone, Bool.false_eq_true, if_false]
      rfl

/-- The downgrade of an upgraded message. -/
theorem messages_downgrade {p p' : Packet} {s : Mt.M1cvm} (h : p.Single s)
    (hp' : p'.message = upgraded s p.message) (cache : ToMidi1.PnCache) :
    ToMidi1.translator.messages cache p' = ⟨cache, [p.message]⟩ := by
  rw [Translator.messages, hp', (is_upgraded s p.message).call]
  exact downgraded_eq (M1cvm.is_of_call h.call) h.clean cache

/-! ## Runs -/

/-- Channel voice messages that are translated by themselves come back unchanged. -/
theorem upgrade_downgrade (g : Nat) (ps : List Packet) (hps : ∀ p ∈ ps, ∃ s, p.Single s) :
    (ToMidi1.translator.run {}
      (ToMidi2.translator.run (.create g) (ps.flatMap Packet.words)).2).2 =
        ps.flatMap Packet.words := by
  rw [(ToMidi2.translator.run_words _ ps).2, (ToMidi1.translator.run_words _ _).2]
  congr 1
  have hcomp := Machine.run_andThen ToMidi2.translator.translation ToMidi1.translator.translation
    (.create g) {} ps
  have hstep : ∀ p ∈ ps, ∀ x : ToMidi2.State × ToMidi1.PnCache, NoBank x.1 →
      NoBank ((ToMidi2.translator.translation.andThen
        ToMidi1.translator.translation).step x p).1.1 ∧
      ((ToMidi2.translator.translation.andThen ToMidi1.translator.translation).step x p).2 =
        [p] := by
    rintro p hp ⟨state, cache⟩ hbank
    obtain ⟨s, hsingle⟩ := hps p hp
    obtain ⟨hstate, hup⟩ := messages_upgrade hsingle hbank
    have hwhole := (is_upgraded s p.message).whole
    have hdown := @messages_downgrade p ⟨upgraded s p.message, hwhole⟩ s hsingle rfl cache
    simp only [Machine.andThen, ToMidi2.translator.step_of_output hup hwhole,
      Machine.run_singleton, ToMidi1.translator.step_of_output (congrArg _ hdown) p.whole]
    refine ⟨?_, trivial⟩
    rw [NoBank, hstate]
    exact hbank
  have hrun := Machine.run_eq_flatMap hstep (s := (.create g, {})) fun _ _ => rfl
  rw [hcomp, List.flatMap_singleton'] at hrun
  exact hrun.2

/-- A chord, a controller, a bend and a program. -/
def performance : List Packet :=
  [{ message := ⟨[0x21903C64]⟩ }, { message := ⟨[0x21904064]⟩ }, { message := ⟨[0x21B0077F]⟩ },
    { message := ⟨[0x21E00145]⟩ }, { message := ⟨[0x21C02900]⟩ }, { message := ⟨[0x21803C40]⟩ }]

theorem upgrade_downgrade_performance :
    (ToMidi1.translator.run {}
      (ToMidi2.translator.run (.create 0) (performance.flatMap Packet.words)).2).2 =
        performance.flatMap Packet.words :=
  upgrade_downgrade 0 performance <| List.forall_mem_cons.2
    ⟨⟨.noteOn, by decide, by decide, fun _ => by decide⟩, List.forall_mem_cons.2
    ⟨⟨.noteOn, by decide, by decide, fun _ => by decide⟩, List.forall_mem_cons.2
    ⟨⟨.cc, by decide, by decide, fun _ => by decide⟩, List.forall_mem_cons.2
    ⟨⟨.pitchBend, by decide, by decide, fun _ => by decide⟩, List.forall_mem_cons.2
    ⟨⟨.programChange, by decide, by decide, fun _ => by decide⟩, List.forall_mem_singleton.2
    ⟨.noteOff, by decide, by decide, fun _ => by decide⟩⟩⟩⟩⟩⟩

end Midi2.Ump
