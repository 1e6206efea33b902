import Midi2.Ump.ChannelRecord
import Midi2.Ump.PassThrough

/-!
# The channels of `ump_to_midi2` are independent

For each group and channel `ump_to_midi2` has a bank and a parameter number. What it sends for
a message depends on those of the message's own channel only (`output_congr`), is addressed to
this channel (`channel_output`), and changes nothing that is kept for the others
(`bank_step`, `parameterNumber_step`). So the traffic of one channel has no effect on what
another receives (`channel_isolation`).
-/

namespace Midi2.Ump

/-- The channel that a message is addressed to. -/
def Message.address (m : Message) : Channel :=
  (m.get .group, m.get .channel)

/-- The channel that a packet is addressed to. -/
def Packet.address (p : Packet) : Channel :=
  p.message.address

theorem Message.address_lt (m : Message) : m.address.1 < 2 ^ 4 ∧ m.address.2 < 2 ^ 4 :=
  ⟨m.get_lt _, m.get_lt _⟩

theorem controlChangeOn_of_ne {p : Packet} {k : Channel} (h : p.address ≠ k) :
    p.controlChangeOn k = none := by
  cases hcc : p.controlChange? with
  | none => rw [Packet.controlChangeOn, hcc, Option.bind_none]
  | some x =>
      obtain ⟨-, -, hk, -⟩ := controlChange_eq_some hcc
      rw [controlChangeOn_eq hcc, if_neg (fun heq => h (hk.symm.trans heq))]

namespace ToMidi2

/-! ## The bank of a channel -/

/-- What a control change does to the bank of its channel. -/
def Bank.receive (b : Bank) (e : Control × Nat) : Bank :=
  match e.1 with
  | .bankSelect => b.setMsb e.2
  | .bankSelectLsb => b.setLsb e.2
  | _ => b

theorem bank_controlChange_on {ω : Type} [Sink ω] (ctxt : Context State ω) (m : Message)
    (k : Channel) : (controlChange ctxt m).state.bank k.1 k.2 =
      match Control.ofNat? (m.get M1cvm.controller) with
      | some c =>
          if m.address = k then (ctxt.state.bank k.1 k.2).receive (c, m.get M1cvm.value)
          else ctxt.state.bank k.1 k.2
      | none => ctxt.state.bank k.1 k.2 := by
  have hset (table : Array2d Bank) (b : Bank) :
      table.set (m.get .group) (m.get .channel) b k.1 k.2 =
        if m.address = k then b else table k.1 k.2 := by
    split
    case isTrue h =>
      subst h
      exact set_self _ _ _ _
    case isFalse h => exact set_of_ne _ _ h
  rw [bank_controlChange]
  cases Control.ofNat? (m.get M1cvm.controller) with
  | none => rfl
  | some c =>
      cases c with
      | bankSelect | bankSelectLsb =>
          simp only [hset]
          split
          case isTrue h =>
            subst h
            rfl
          case isFalse => rfl
      | _ => exact (ite_self _).symm

/-- The bank of a channel changes with the control changes that the channel receives. -/
theorem bank_step (s : State) (p : Packet) (k : Channel) :
    (translator.messages s p).state.bank k.1 k.2 =
      (p.controlChangeOn k).toList.foldl .receive (s.bank k.1 k.2) := by
  by_cases hcc : p.message.call.callback = .m1cvm .cc
  · rw [messages_cc hcc, bank_controlChange_on, Packet.controlChangeOn, controlChange_eq_cc hcc]
    cases Control.ofNat? (p.message.get M1cvm.controller) with
    | none => rfl
    | some c =>
        by_cases hk : p.message.address = k
        · have hk' : (p.message.get .group, p.message.get .channel) = k := hk
          simp only [Option.map_some, Option.bind_some, if_pos hk, if_pos hk']
          rfl
        · have hk' : (p.message.get .group, p.message.get .channel) ≠ k := hk
          simp only [Option.map_some, Option.bind_some, if_neg hk, if_neg hk']
          rfl
  · rw [Translator.messages, show translator.call = call from rfl, state_call hcc,
      Packet.controlChangeOn, controlChange_eq_none hcc]
    rfl

/-! ## What is sent -/

/-- Only what is kept for its own channel matters for a message. -/
theorem output_congr {s s' : State} {p : Packet}
    (hbank : s.bank p.address.1 p.address.2 = s'.bank p.address.1 p.address.2)
    (hnumber : s.parameterNumber p.address.1 p.address.2 =
      s'.parameterNumber p.address.1 p.address.2) :
    (translator.messages s p).output = (translator.messages s' p).output := by
  by_cases hcc : p.message.call.callback = .m1cvm .cc
  · have hbank' : s.bank (p.message.get .group) (p.message.get .channel) =
        s'.bank (p.message.get .group) (p.message.get .channel) := hbank
    have hnumber' : s.parameterNumber (p.message.get .group) (p.message.get .channel) =
        s'.parameterNumber (p.message.get .group) (p.message.get .channel) := hnumber
    rw [messages_cc hcc, messages_cc hcc]
    simp only [controlChange, hnumber', hbank']
    cases Control.ofNat? (p.message.get M1cvm.controller) with
    | none => rfl
    | some c =>
        cases c with
        | rpnLsb | dataEntryLsb =>
            simp only
            split <;> rfl
        | _ => rfl
  · rw [Translator.messages, Translator.messages]
    have hmessage := Message.call_message (m := p.message)
    generalize p.message.call = c at hcc hmessage
    obtain ⟨callback, m⟩ := c
    cases callback with
    | m1cvm status =>
        obtain rfl : m = p.message := hmessage Callback.noConfusion
        have hbank' : s.bank (p.message.get .group) (p.message.get .channel) =
            s'.bank (p.message.get .group) (p.message.get .channel) := hbank
        cases status with
        | cc => exact absurd rfl hcc
        | programChange =>
            simp only [translator, call, m1cvm, programChange, hbank']
            rfl
        | _ => rfl
    | utility status => cases status <;> rfl
    | _ => rfl

/-! ### Addresses -/

/-- A message that is built for a channel is addressed to it. -/
theorem address_sets {status : Mt.M2cvm} {k : Channel} (hg : k.1 < 2 ^ 4) (hc : k.2 < 2 ^ 4)
    {xs : List (Field × Nat)} (fs : List Field) (hfs : xs.map Prod.fst = fs := by rfl)
    (hdisjoint : ∀ f ∈ fs, f.Disjoint .group ∧ f.Disjoint .channel := by decide) :
    ((((M2cvm.init status).set .group k.1).set .channel k.2).sets xs).address = k := by
  subst hfs
  have hrest (f : Field) (hf : f = .group ∨ f = .channel) : ∀ x ∈ xs, x.1.Disjoint f := by
    intro x hx
    obtain ⟨hgroup, hchannel⟩ := hdisjoint x.1 (List.mem_map_of_mem hx)
    rcases hf with rfl | rfl
    · exact hgroup
    · exact hchannel
  have his : M2cvm.Is status ((M2cvm.init status).set .group k.1) := (M2cvm.is_init status).set _
  refine Prod.ext ?_ ?_
  · show Message.get _ .group = _
    rw [Message.get_sets_of_disjoint _ (hrest _ (Or.inl rfl)),
      Message.get_set_of_disjoint _ _ (by decide), (M2cvm.is_init status).get_set hg]
  · show Message.get _ .channel = _
    rw [Message.get_sets_of_disjoint _ (hrest _ (Or.inr rfl)), his.get_set hc]

theorem address_controlChange (s : State) (m : Message) :
    ∀ m' ∈ (controlChange (⟨s, []⟩ : Context State (List Message)) m).output,
      m'.address = m.address := by
  obtain ⟨hg, hc⟩ := m.address_lt
  have hcc (v : Nat) : (((((M2cvm.init .cc).set .group m.address.1).set .channel m.address.2).set
      M2cvm.controller (m.get M1cvm.controller)).set M2cvm.value v).address = m.address :=
    @address_sets .cc m.address hg hc [(M2cvm.controller, _), (M2cvm.value, _)]
      [M2cvm.controller, M2cvm.value] rfl (by decide)
  simp only [controlChange]
  intro m' hm'
  cases h : Control.ofNat? (m.get M1cvm.controller) with
  | none =>
      rw [h] at hm'
      exact List.mem_singleton.1 hm' ▸ hcc _
  | some c =>
      rw [h] at hm'
      cases c with
      | resetAllControllers => exact List.mem_singleton.1 hm' ▸ hcc _
      | dataEntryLsb =>
          simp only at hm'
          split at hm'
          case isTrue =>
            rw [List.mem_singleton.1 hm']
            exact @address_sets _ m.address hg hc
              [(M2cvm.bank, _), (M2cvm.index, _), (M2cvm.value, _)]
              [M2cvm.bank, M2cvm.index, M2cvm.value] rfl (by decide)
          case isFalse => exact absurd hm' List.not_mem_nil
      | rpnLsb =>
          simp only at hm'
          split at hm' <;> exact absurd hm' List.not_mem_nil
      | _ => exact absurd hm' List.not_mem_nil

theorem address_m1cvm (status : Mt.M1cvm) (s : State) (m : Message) :
    ∀ m' ∈ (m1cvm status (⟨s, []⟩ : Context State (List Message)) m).output,
      m'.address = m.address := by
  obtain ⟨hg, hc⟩ := m.address_lt
  cases status with
  | cc => exact address_controlChange s m
  | noteOff | noteOn =>
      exact List.forall_mem_singleton.2 <| @address_sets _ m.address hg hc
        [(M2cvm.note, _), (M2cvm.velocity, _)] [M2cvm.note, M2cvm.velocity] rfl (by decide)
  | polyPressure =>
      exact List.forall_mem_singleton.2 <| @address_sets _ m.address hg hc
        [(M2cvm.note, _), (M2cvm.pressure, _)] [M2cvm.note, M2cvm.pressure] rfl (by decide)
  | channelPressure | pitchBend =>
      exact List.forall_mem_singleton.2 <| @address_sets _ m.address hg hc [(M2cvm.value, _)]
        [M2cvm.value] rfl (by decide)
  | programChange =>
      simp only [m1cvm, programChange]
      refine List.forall_mem_singleton.2 ?_
      split
      case isTrue =>
        exact @address_sets _ m.address hg hc [(M2cvm.program, _), (M2cvm.bankValid, _),
          (M2cvm.bankMsb, _), (M2cvm.bankLsb, _)]
          [M2cvm.program, M2cvm.bankValid, M2cvm.bankMsb, M2cvm.bankLsb] rfl (by decide)
      case isFalse =>
        exact @address_sets _ m.address hg hc [(M2cvm.program, _)] [M2cvm.program] rfl (by decide)

/-- What is sent for a message is addressed to the same channel. -/
theorem address_output (s : State) (p : Packet) :
    ∀ m ∈ (translator.messages s p).output, m.address = p.address := by
  intro m hm
  have hmessage := Message.call_message (m := p.message)
  rw [Translator.messages] at hm
  generalize p.message.call = c at hm hmessage
  obtain ⟨callback, m'⟩ := c
  cases callback with
  | m1cvm status =>
      obtain rfl : m' = p.message := hmessage Callback.noConfusion
      exact address_m1cvm status s p.message m hm
  | utility status =>
      cases status with
      | noop => exact absurd hm List.not_mem_nil
      | _ =>
          obtain rfl : m' = p.message := hmessage fun h => by cases h
          exact List.mem_singleton.1 hm ▸ rfl
  | unknown => exact absurd hm List.not_mem_nil
  | _ =>
      obtain rfl : m' = p.message := hmessage fun h => by cases h
      exact List.mem_singleton.1 hm ▸ rfl

theorem address_step (s : State) (p : Packet) :
    ∀ q ∈ (translator.translation.step s p).2, q.address = p.address := by
  intro q hq
  obtain ⟨m, -, rfl⟩ := List.mem_map.1 hq
  exact address_output s p m.1 m.2

/-! ## Isolation -/

/-- States with the same bank and parameter number for a channel. -/
structure SameOn (k : Channel) (s s' : State) : Prop where
  bank : s.bank k.1 k.2 = s'.bank k.1 k.2
  parameterNumber : s.parameterNumber k.1 k.2 = s'.parameterNumber k.1 k.2

theorem SameOn.step_congr {s s' : State} {p : Packet} (h : SameOn p.address s s') :
    (translator.translation.step s p).2 = (translator.translation.step s' p).2 := by
  have hmap : ∀ (ms ms' : List Message) (hms : ∀ m ∈ ms, m.Whole) (hms' : ∀ m ∈ ms', m.Whole),
      ms = ms' → ms.attach.map (fun x => (⟨x.1, hms x.1 x.2⟩ : Packet)) =
        ms'.attach.map (fun x => (⟨x.1, hms' x.1 x.2⟩ : Packet)) := by
    rintro ms _ hms hms' rfl
    rfl
  exact hmap _ _ (translator.whole p s) (translator.whole p s')
    (output_congr h.bank h.parameterNumber)

theorem SameOn.state {k : Channel} {s s' : State} (h : SameOn k s s') (p : Packet) :
    SameOn k (translator.translation.step s p).1 (translator.translation.step s' p).1 where
  bank := by
    show (translator.messages s p).state.bank k.1 k.2 =
      (translator.messages s' p).state.bank k.1 k.2
    rw [bank_step, bank_step, h.bank]
  parameterNumber := by
    show (translator.messages s p).state.parameterNumber k.1 k.2 =
      (translator.messages s' p).state.parameterNumber k.1 k.2
    rw [parameterNumber_step, parameterNumber_step, h.parameterNumber]

/-- A message of another channel leaves everything as it is. -/
theorem SameOn.silent {k : Channel} {s s' : State} (h : SameOn k s s') {p : Packet}
    (hp : p.address ≠ k) : SameOn k (translator.translation.step s p).1 s' where
  bank := by
    show (translator.messages s p).state.bank k.1 k.2 = _
    rw [bank_step, controlChangeOn_of_ne hp]
    exact h.bank
  parameterNumber := by
    show (translator.messages s p).state.parameterNumber k.1 k.2 = _
    rw [parameterNumber_step, controlChangeOn_of_ne hp]
    exact h.parameterNumber

theorem unwinds (k : Channel) : translator.translation.Unwinds (fun p => p.address = k)
    (fun q => q.address = k) (SameOn k) where
  output _ h hp := SameOn.step_congr (hp.symm ▸ h)
  visible s p hp q hq := (address_step s p q hq).trans hp
  state _ h _ := h.state _
  hidden s p hp q hq hk := hp ((address_step s p q hq).symm.trans hk)
  silent _ h hp := h.silent hp

/-- What comes out for a channel is all that comes out of a fresh translator that is given the
messages for this channel only. -/
theorem channel_isolation (g : Nat) (k : Channel) (ps : List Packet) :
    ((packetsOf (translator.run (.create g) (ps.flatMap Packet.words)).2).filter
        fun q => q.address = k).flatMap Packet.words =
      (translator.run (.create g)
        ((ps.filter fun p => p.address = k).flatMap Packet.words)).2 := by
  have hsame : SameOn k (State.create g) (State.create g) := ⟨rfl, rfl⟩
  rw [(translator.run_words _ _).2, (translator.run_words _ _).2, packetsOf_words,
    (unwinds k).run hsame]

end ToMidi2

end Midi2.Ump
