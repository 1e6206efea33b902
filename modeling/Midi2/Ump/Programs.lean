import Midi2.Ump.BankSelection
import Midi2.Ump.NormalForm
import Midi2.Ump.Selections
import Midi2.Ump.Upgrade

/-!
# Program changes up and down again

`Upgrade` is about messages that are translated by themselves. A program change is not once there
are control changes that select a bank: on the way up the bank becomes a part of it, on the way
down there are control changes again, at another place and maybe more often. But a receiver hears
every program change with the same bank, unless only one half of the bank has been selected: then
it hears no bank (`programs_upgrade_downgrade`).
-/

namespace Midi2.Ump

open Adt

/-! ## A receiver of program changes -/

/-- The halves of a bank that a channel has selected. -/
structure Halves where
  msb : Option Nat := none
  lsb : Option Nat := none
  deriving DecidableEq

/-- A control change. -/
def Halves.receive (b : Halves) (controller value : Nat) : Halves :=
  match Control.ofNat? controller with
  | some .bankSelect => { b with msb := some value }
  | some .bankSelectLsb => { b with lsb := some value }
  | _ => b

def Halves.Whole (b : Halves) : Prop :=
  b.msb.isSome ∧ b.lsb.isSome

instance (b : Halves) : Decidable b.Whole :=
  inferInstanceAs (Decidable (_ ∧ _))

/-- A program change as it is heard, with what its channel has selected of a bank. -/
structure Program where
  channel : Channel
  bank : Halves
  program : Nat
  deriving DecidableEq

/-- The program without half a bank. -/
def Program.whole (x : Program) : Program :=
  { x with bank := if x.bank.Whole then x.bank else {} }

/-- A MIDI 1.0 receiver that puts out the program changes it hears. -/
def programs : Machine Message Program (Channel → Halves) where
  step banks m :=
    match m.call.callback with
    | .m1cvm .cc =>
        (Function.update banks m.address ((banks m.address).receive (m.get M1cvm.controller)
          (m.get M1cvm.value)), [])
    | .m1cvm .programChange => (banks, [⟨m.address, banks m.address, m.get M1cvm.program⟩])
    | _ => (banks, [])

/-- The program changes of a stream. -/
def heard (ws : List Word) : List Program :=
  (programs.run (fun _ => {}) (framesOf ws)).2

/-! ### What it does not hear -/

/-- Neither a program change nor half a bank. -/
structure Message.Quiet (m : Message) : Prop where
  program : m.call.callback ≠ .m1cvm .programChange
  bank : m.call.callback = .m1cvm .cc →
    Control.ofNat? (m.get M1cvm.controller) ∉ [some .bankSelect, some .bankSelectLsb]

theorem Halves.receive_of_not_mem {controller : Nat}
    (h : Control.ofNat? controller ∉ [some .bankSelect, some .bankSelectLsb]) (b : Halves)
    (value : Nat) : b.receive controller value = b := by
  unfold receive
  split
  case h_1 hc => exact absurd (by rw [hc]; decide) h
  case h_2 hc => exact absurd (by rw [hc]; decide) h
  case h_3 => rfl

theorem programs_quiet {m : Message} (h : m.Quiet) (banks : Channel → Halves) :
    programs.step banks m = (banks, []) := by
  simp only [programs]
  split
  case h_1 hcc => rw [Halves.receive_of_not_mem (h.bank hcc), Function.update_eq_self]
  case h_2 hprogram => exact absurd hprogram h.program
  case h_3 => rfl

theorem programs_run_quiet {ms : List Message} (h : ∀ m ∈ ms, m.Quiet) (banks : Channel → Halves) :
    programs.run banks ms = (banks, []) := by
  induction ms with
  | nil => rfl
  | cons m ms ih =>
      obtain ⟨hm, hms⟩ := List.forall_mem_cons.1 h
      rw [Machine.run_cons, programs_quiet hm, ih hms]
      rfl

theorem quiet_of_is {s : Mt.M1cvm} {m : Message} (h : M1cvm.Is s m) (hprogram : s ≠ .programChange)
    (hcc : s ≠ .cc) : m.Quiet where
  program := by
    rw [h.call]
    exact fun heq => hprogram (Callback.m1cvm.inj heq)
  bank heq := by
    rw [h.call] at heq
    exact absurd (Callback.m1cvm.inj heq) hcc

theorem quiet_of_type {m : Message} (h : m.call.callback.type? ≠ some .m1cvm) : m.Quiet where
  program heq := h (by rw [heq]; rfl)
  bank heq := absurd (by rw [heq]; rfl) h

/-! ## Down -/

namespace ToMidi1

theorem controller_controlChangeMessage (g c value : Nat) {controller : Nat}
    (h : controller < 2 ^ 7) :
    (controlChangeMessage g c controller value).get M1cvm.controller = controller := by
  have his : M1cvm.Is .cc (((M1cvm.init .cc).set .group g).set .channel c) :=
    ((M1cvm.is_init .cc).set g).set c
  rw [controlChangeMessage, Message.get_set_of_disjoint _ _ (by decide)]
  exact his.get_set h

theorem quiet_controlChangeMessage (g c value : Nat) {controller : Nat} (h : controller < 2 ^ 7)
    (hbank : Control.ofNat? controller ∉ [some .bankSelect, some .bankSelectLsb]) :
    (controlChangeMessage g c controller value).Quiet where
  program := by
    rw [(is_controlChangeMessage ..).call]
    exact fun heq => by cases heq
  bank _ := by rwa [controller_controlChangeMessage g c value h]

/-- The controllers that select and set a parameter. -/
def parameterControls : List Control :=
  [.dataEntryMsb, .dataEntryLsb, .nrpnLsb, .nrpnMsb, .rpnLsb, .rpnMsb]

theorem controls_pnMessage (cache : PnCache) (key : PnCacheKey) (number : Nat × Nat)
    (value : Nat) :
    ∀ m ∈ (pnMessage (⟨cache, []⟩ : Context PnCache (List Message)) key number value).output,
      ∃ c ∈ parameterControls, ∃ v,
        m = controlChangeMessage key.group key.channel c.toNat v := by
  have hentry : ∀ m ∈ dataEntryMessages key value, ∃ c ∈ parameterControls, ∃ v,
      m = controlChangeMessage key.group key.channel c.toNat v :=
    List.forall_mem_cons.2 ⟨⟨.dataEntryMsb, by decide, _, rfl⟩,
      List.forall_mem_singleton.2 ⟨.dataEntryLsb, by decide, _, rfl⟩⟩
  have hselect : ∀ m ∈ selectMessages key number, ∃ c ∈ parameterControls, ∃ v,
      m = controlChangeMessage key.group key.channel c.toNat v := by
    refine List.forall_mem_cons.2 ⟨⟨if key.isRpn then .rpnMsb else .nrpnMsb, ?_, _, rfl⟩,
      List.forall_mem_singleton.2 ⟨if key.isRpn then .rpnLsb else .nrpnLsb, ?_, _, rfl⟩⟩
    · split <;> decide
    · split <;> decide
  rw [pnMessage_output]
  split
  case isTrue => exact hentry
  case isFalse => exact List.forall_mem_append.2 ⟨hselect, hentry⟩

theorem quiet_pnMessage (cache : PnCache) (key : PnCacheKey) (number : Nat × Nat) (value : Nat) :
    ∀ m ∈ (pnMessage (⟨cache, []⟩ : Context PnCache (List Message)) key number value).output,
      m.Quiet := by
  intro m hm
  obtain ⟨c, hc, v, rfl⟩ := controls_pnMessage cache key number value m hm
  have hall : ∀ c ∈ parameterControls, some c ∉ [some .bankSelect, some .bankSelectLsb] := by
    decide
  exact quiet_controlChangeMessage _ _ v c.toNat_lt (by rw [Control.ofNat_toNat]; exact hall c hc)

/-- Nothing but a program change or a control change for a bank makes one. -/
theorem quiet_m2cvm {s : Mt.M2cvm} {m : Message} (hprogram : s ≠ .programChange)
    (hbank : s = .cc →
      Control.ofNat? (m.get M2cvm.controller) ∉ [some .bankSelect, some .bankSelectLsb])
    (cache : PnCache) :
    ∀ y ∈ (m2cvm s (⟨cache, []⟩ : Context PnCache (List Message)) m).output, y.Quiet := by
  cases s with
  | noteOff | noteOn =>
      exact List.forall_mem_singleton.2 (quiet_of_is (is_noteMessage _ m) (by decide) (by decide))
  | polyPressure | pitchBend =>
      exact List.forall_mem_singleton.2 (quiet_of_is
        (((((M1cvm.is_init _).set _).set _).set _).set _) (by decide) (by decide))
  | channelPressure =>
      exact List.forall_mem_singleton.2 (quiet_of_is
        ((((M1cvm.is_init _).set _).set _).set _) (by decide) (by decide))
  | cc =>
      exact List.forall_mem_singleton.2
        (quiet_controlChangeMessage _ _ _ (m.get_lt M2cvm.controller) (hbank rfl))
  | programChange => exact absurd rfl hprogram
  | rpn | nrpn => exact quiet_pnMessage cache _ _ _
  | rpnPerNote | nrpnPerNote | rpnRelative | nrpnRelative | perNoteManage
  | pitchBendPerNote => exact List.forall_mem_nil _

end ToMidi1

/-! ## Up -/

namespace ToMidi2

/-- A message that is not a program change and has no half of a bank to carry. -/
def Sent (m : Message) : Prop :=
  ∃ s, M2cvm.Is s m ∧ s ≠ .programChange ∧ (s = .cc →
    Control.ofNat? (m.get M2cvm.controller) ∉ [some .bankSelect, some .bankSelectLsb])

theorem sent_of_is {s : Mt.M2cvm} {m : Message} (h : M2cvm.Is s m) (hprogram : s ≠ .programChange)
    (hcc : s ≠ .cc) : Sent m :=
  ⟨s, h, hprogram, fun heq => absurd heq hcc⟩

theorem sent_otherController (s : State) (g c value : Nat) {controller : Nat}
    (h : controller < 2 ^ 7)
    (hbank : Control.ofNat? controller ∉ [some .bankSelect, some .bankSelectLsb]) :
    ∀ m ∈ (otherController (⟨s, []⟩ : Context State (List Message)) g c controller value).output,
      Sent m := by
  have his : M2cvm.Is .cc (((M2cvm.init .cc).set .group g).set .channel c) :=
    ((M2cvm.is_init .cc).set g).set c
  refine List.forall_mem_singleton.2
    ⟨.cc, (his.set controller).set (mcmScale 7 32 value), by decide, fun _ => ?_⟩
  rw [Message.get_set_of_disjoint _ _ (by decide)]
  rwa [his.get_set h]

theorem sent_m1cvm {status : Mt.M1cvm} (h : status ≠ .programChange) (s : State) (m : Message) :
    ∀ x ∈ (m1cvm status (⟨s, []⟩ : Context State (List Message)) m).output, Sent x := by
  cases status with
  | noteOff | noteOn =>
      exact List.forall_mem_singleton.2 (sent_of_is (is_noteMessage _ m) (by decide) (by decide))
  | polyPressure =>
      exact List.forall_mem_singleton.2 (@sent_of_is .polyPressure _
        (((((M2cvm.is_init _).set _).set _).set _).set _) (by decide) (by decide))
  | channelPressure =>
      exact List.forall_mem_singleton.2 (@sent_of_is .channelPressure _
        ((((M2cvm.is_init _).set _).set _).set _) (by decide) (by decide))
  | pitchBend =>
      exact List.forall_mem_singleton.2 (@sent_of_is .pitchBend _
        ((((M2cvm.is_init _).set _).set _).set _) (by decide) (by decide))
  | programChange => exact absurd rfl h
  | cc =>
      have hlt : m.get M1cvm.controller < 2 ^ 7 := m.get_lt M1cvm.controller
      simp only [m1cvm, controlChange]
      split
      case h_6 => split <;> exact List.forall_mem_nil _
      case h_8 =>
        split
        case isTrue =>
          refine List.forall_mem_singleton.2 (@sent_of_is
            (if (s.parameterNumber (m.get .group) (m.get .channel)).pnIsRpn then .rpn else .nrpn) _
            ((((((M2cvm.is_init _).set _).set _).set _).set _).set _) ?_ ?_)
          · split <;> decide
          · split <;> decide
        case isFalse => exact List.forall_mem_nil _
      case h_9 hc =>
        exact sent_otherController _ _ _ _ hlt (by rw [hc]; decide)
      case h_10 hc => exact sent_otherController _ _ _ _ hlt (by rw [hc]; decide)
      all_goals exact List.forall_mem_nil _

end ToMidi2

/-! ## Up and down -/

/-- What comes back for a packet. -/
def bounce (s : ToMidi2.State) (cache : ToMidi1.PnCache) (p : Packet) : List Message :=
  ((ToMidi2.translator.translation.andThen ToMidi1.translator.translation).step (s, cache) p).2.map
    Packet.message

section Bounce

variable {s : ToMidi2.State} {cache : ToMidi1.PnCache} {p : Packet}

theorem bounce_nil (h : (ToMidi2.translator.messages s p).output = []) : bounce s cache p = [] := by
  have hstep := ToMidi2.translator.message_step s p
  rw [h, List.map_eq_nil_iff] at hstep
  simp only [bounce, Machine.andThen, hstep]
  rfl

theorem bounce_singleton {m : Message} (h : (ToMidi2.translator.messages s p).output = [m])
    (hm : m.Whole) : bounce s cache p = (ToMidi1.translator.messages cache ⟨m, hm⟩).output := by
  have hstep := ToMidi2.translator.step_of_output h hm
  simp only [bounce, Machine.andThen, hstep, Machine.run_singleton]
  exact ToMidi1.translator.message_step cache ⟨m, hm⟩

theorem bounce_is {m : Message} (h : (ToMidi2.translator.messages s p).output = [m])
    {status : Mt.M2cvm} (hm : M2cvm.Is status m) :
    bounce s cache p = (ToMidi1.m2cvm status ⟨cache, []⟩ m).output := by
  rw [bounce_singleton h hm.whole, Translator.messages, hm.call]
  rfl

/-- A message that is not of a channel comes back as it is, or not at all. -/
theorem bounce_passedOn (hp : p.PassedOn) (htype : p.message.type ≠ .m2cvm) :
    bounce s cache p = if p.IsMidi1 then [p.message] else [] := by
  have hup := congrArg Context.output (ToMidi2.messages_passedOn hp s)
  rw [bounce_singleton hup p.whole]
  rcases ToMidi1.messages_cases p cache with ⟨hmidi1, heq⟩ | ⟨status, hcall, -⟩ | heq
  · rw [if_pos hmidi1]
    exact congrArg Context.output heq
  · refine absurd (Message.type_of_call ?_) htype
    rw [hcall]
    rfl
  · have hnot : ¬p.IsMidi1 := by
      intro hmidi1
      rw [ToMidi1.messages_midi1 hmidi1] at heq
      cases heq
    rw [if_neg hnot]
    exact congrArg Context.output heq

end Bounce

/-- A bank as `ump_to_midi2` has it. -/
def Halves.bank (b : Halves) : ToMidi2.Bank where
  msbValid := b.msb.isSome
  msb := b.msb.getD 0
  lsbValid := b.lsb.isSome
  lsb := b.lsb.getD 0

theorem Halves.bank_receive (b : Halves) {controller value : Nat} {c : Control}
    (hc : Control.ofNat? controller = some c) :
    (b.receive controller value).bank = b.bank.receive (c, value) := by
  rw [receive, hc]
  cases c <;> rfl

theorem Halves.isValid_iff (b : Halves) : b.bank.isValid = true ↔ b.Whole := by
  rw [bank, ToMidi2.Bank.isValid, Bool.and_eq_true, and_comm]
  rfl

theorem Halves.Whole.receive {b : Halves} (h : b.Whole) (controller value : Nat) :
    (b.receive controller value).Whole := by
  unfold Halves.receive
  split
  case h_1 => exact ⟨rfl, h.2⟩
  case h_2 => exact ⟨h.1, rfl⟩
  case h_3 => exact h

/-- A bank of seven bits for each half. -/
structure Halves.Small (b : Halves) : Prop where
  msb : ∀ v ∈ b.msb, v < 2 ^ 7
  lsb : ∀ v ∈ b.lsb, v < 2 ^ 7

theorem Halves.Small.receive {b : Halves} (h : b.Small) (controller : Nat) {value : Nat}
    (hvalue : value < 2 ^ 7) : (b.receive controller value).Small := by
  unfold Halves.receive
  split
  case h_1 => exact ⟨fun v hv => Option.mem_some.1 hv ▸ hvalue, h.lsb⟩
  case h_2 => exact ⟨h.msb, fun v hv => Option.mem_some.1 hv ▸ hvalue⟩
  case h_3 => exact h

theorem bank_programs (banks : Channel → Halves) (p : Packet) (k : Channel) :
    ((programs.step banks p.message).1 k).bank =
      (p.controlChangeOn k).toList.foldl .receive (banks k).bank := by
  by_cases hcc : p.message.call.callback = .m1cvm .cc
  · have hstep : (programs.step banks p.message).1 = Function.update banks p.address
        ((banks p.address).receive (p.message.get M1cvm.controller)
          (p.message.get M1cvm.value)) := by
      simp only [programs, hcc]
      rfl
    rw [hstep]
    by_cases hk : p.address = k
    · subst hk
      rw [Function.update_self]
      cases hc : Control.ofNat? (p.message.get M1cvm.controller) with
      | none =>
          have hnone : p.controlChange? = none := by
            rw [controlChange_eq_cc hcc, hc, Option.map_none]
          rw [Packet.controlChangeOn, hnone,
            Halves.receive_of_not_mem (by rw [hc]; decide)]
          rfl
      | some c =>
          have hsome : p.controlChange? = some (p.address, c, p.message.get M1cvm.value) := by
            rw [controlChange_eq_cc hcc, hc, Option.map_some]
            rfl
          rw [controlChangeOn_eq hsome, if_pos rfl, Halves.bank_receive _ hc]
          rfl
    · rw [Function.update_of_ne (Ne.symm hk), controlChangeOn_of_ne hk]
      rfl
  · have hstep : (programs.step banks p.message).1 = banks := by
      simp only [programs]
      split
      case h_1 heq => exact absurd heq hcc
      case h_2 | h_3 => rfl
    rw [hstep, Packet.controlChangeOn, controlChange_eq_none hcc]
    rfl

/-- What a control change keeps, a message keeps. -/
theorem programs_keeps {P : Halves → Prop}
    (hreceive : ∀ b controller value, value < 2 ^ 7 → P b → P (b.receive controller value))
    {banks : Channel → Halves} {k : Channel} (h : P (banks k)) (m : Message) :
    P ((programs.step banks m).1 k) := by
  simp only [programs]
  split
  case h_1 =>
    simp only
    by_cases hk : k = m.address
    · subst hk
      rw [Function.update_self]
      exact hreceive _ _ _ (m.get_lt M1cvm.value) h
    · rw [Function.update_of_ne hk]
      exact h
  case h_2 | h_3 => exact h

/-- The translator has the banks that have been selected, and the receiver of what comes back has
heard of none that is not whole. -/
structure Follows (banks : Channel → Halves) (s : ToMidi2.State) (banks' : Channel → Halves) :
    Prop where
  bank : ∀ k, s.bank k.1 k.2 = (banks k).bank
  small : ∀ k, (banks k).Small
  unheard : ∀ k, ¬(banks k).Whole → banks' k = {}

/-- The banks of the translator follow those of a receiver of what it is given. -/
theorem Follows.step {banks banks' : Channel → Halves} {s : ToMidi2.State}
    (h : Follows banks s banks') (p : Packet) :
    Follows (programs.step banks p.message).1 (ToMidi2.translator.messages s p).state banks' where
  bank k := by rw [ToMidi2.bank_step, h.bank, bank_programs]
  small k := programs_keeps (fun _ c _ hv hb => hb.receive c hv) (h.small k) p.message
  unheard k hk := h.unheard k fun hwhole =>
    hk (programs_keeps (fun _ c v _ hb => hb.receive c v) hwhole p.message)

/-! ### Program changes -/

/-- What `program_change` of `to_midi1` sends last. -/
def programMessage (k : Channel) (program : Nat) : Message :=
  (((M1cvm.init .programChange).set .group k.1).set .channel k.2).set M1cvm.program program

theorem programs_programMessage {k : Channel} (hg : k.1 < 2 ^ 4) (hc : k.2 < 2 ^ 4) {program : Nat}
    (hprogram : program < 2 ^ 7) (banks : Channel → Halves) :
    programs.step banks (programMessage k program) = (banks, [⟨k, banks k, program⟩]) := by
  have hchannel : M1cvm.Is .programChange
      (((M1cvm.init .programChange).set .group k.1).set .channel k.2) :=
    ((M1cvm.is_init .programChange).set k.1).set k.2
  have his : M1cvm.Is .programChange (programMessage k program) := hchannel.set program
  have haddress : (programMessage k program).address = k :=
    @Message.Kind.address_sets _ _ _ _ (M1cvm.is_init .programChange) (by decide) k hg hc
      [(M1cvm.program, program)] [M1cvm.program] rfl (by decide)
  have hget : (programMessage k program).get M1cvm.program = program :=
    hchannel.get_set hprogram
  simp only [programs, his.call, haddress, hget]

theorem programs_nil {m : Message} (h : m.call.callback ≠ .m1cvm .programChange)
    (banks : Channel → Halves) : (programs.step banks m).2 = [] := by
  simp only [programs]
  split
  case h_1 | h_3 => rfl
  case h_2 heq => exact absurd heq h

theorem programs_controlChange {k : Channel} (hg : k.1 < 2 ^ 4) (hc : k.2 < 2 ^ 4)
    {controller value : Nat} (hcontroller : controller < 2 ^ 7) (hvalue : value < 2 ^ 7)
    (banks : Channel → Halves) :
    programs.step banks (ToMidi1.controlChangeMessage k.1 k.2 controller value) =
      (Function.update banks k ((banks k).receive controller value), []) := by
  obtain ⟨-, -, hcget, hvget⟩ := ToMidi1.get_controlChangeMessage hg hc hcontroller hvalue
  simp only [programs, (ToMidi1.is_controlChangeMessage ..).call,
    ToMidi1.address_controlChangeMessage hg hc, hcget, hvget]

/-- The bank that a MIDI 2.0 program change is heard with, where `b` has been selected. -/
def carried (b : Halves) (m : Message) : Halves :=
  if m.get M2cvm.bankValid ≠ 0 then ⟨some (m.get M2cvm.bankMsb), some (m.get M2cvm.bankLsb)⟩ else b

/-- A MIDI 2.0 program change as it is heard after `to_midi1`. -/
theorem programs_downgraded (banks : Channel → Halves) (cache : ToMidi1.PnCache) {m : Message}
    (hprogram : m.get M2cvm.program < 2 ^ 7) :
    programs.run banks (ToMidi1.programChange
      (⟨cache, []⟩ : Context ToMidi1.PnCache (List Message)) m).output =
        (Function.update banks m.address (carried (banks m.address) m),
          [⟨m.address, carried (banks m.address) m, m.get M2cvm.program⟩]) := by
  obtain ⟨hg, hc⟩ := m.address_lt
  have hlast (banks : Channel → Halves) := programs_programMessage hg hc hprogram banks
  have hbank := programs_controlChange hg hc Control.bankSelect.toNat_lt (m.get_lt M2cvm.bankMsb)
  have hbankLsb := programs_controlChange hg hc Control.bankSelectLsb.toNat_lt
    (m.get_lt M2cvm.bankLsb)
  simp only [ToMidi1.programChange, carried]
  split
  case isTrue =>
    show programs.run banks
      [ToMidi1.controlChangeMessage m.address.1 m.address.2 _ _,
        ToMidi1.controlChangeMessage m.address.1 m.address.2 _ _, programMessage m.address _] = _
    rw [Machine.run_cons, Machine.run_cons, Machine.run_singleton, hbank, hbankLsb, hlast]
    simp only [Function.update_self, Function.update_idem]
    rfl
  case isFalse =>
    show programs.run banks [programMessage m.address _] = _
    rw [Machine.run_singleton, hlast, Function.update_eq_self]

/-- The bank of an upgraded program change: the one that has been selected, if it is whole. -/
theorem carried_programChangeMessage {b b' : Halves} (hsmall : b.Small) (h : ¬b.Whole → b' = {})
    (m : Message) : carried b' (ToMidi2.programChangeMessage b.bank m) =
      if b.Whole then b else {} := by
  by_cases hwhole : b.Whole
  · rw [if_pos hwhole]
    obtain ⟨msb, lsb⟩ := b
    obtain ⟨msb, rfl⟩ := Option.isSome_iff_exists.1 hwhole.1
    obtain ⟨lsb, rfl⟩ := Option.isSome_iff_exists.1 hwhole.2
    obtain ⟨hvalid, hmsb, hlsb⟩ := ToMidi2.get_programChangeMessage_valid (hsmall.msb msb rfl)
      (hsmall.lsb lsb rfl) m
    show carried b' (ToMidi2.programChangeMessage ⟨true, msb, true, lsb⟩ m) = _
    rw [carried, hvalid, hmsb, hlsb, if_pos Nat.one_ne_zero]
  · have hinvalid := Bool.eq_false_of_not_eq_true fun hvalid => hwhole (b.isValid_iff.1 hvalid)
    obtain ⟨hzero, -, -⟩ := ToMidi2.get_programChangeMessage hinvalid m
    rw [if_neg hwhole, carried, if_neg (not_not.2 hzero), h hwhole]

theorem is_programChangeMessage (b : ToMidi2.Bank) (m : Message) :
    M2cvm.Is .programChange (ToMidi2.programChangeMessage b m) := by
  simp only [ToMidi2.programChangeMessage]
  split
  case isTrue => exact ((((((M2cvm.is_init _).set _).set _).set _).set _).set _).set _
  case isFalse => exact (((M2cvm.is_init _).set _).set _).set _

theorem program_programChangeMessage (b : ToMidi2.Bank) (m : Message) :
    (ToMidi2.programChangeMessage b m).get M2cvm.program = m.get M1cvm.program := by
  have hlt : m.get M1cvm.program < 2 ^ M2cvm.program.range.bits :=
    Nat.lt_of_lt_of_le (m.get_lt M1cvm.program) (by decide)
  have his : M2cvm.Is .programChange
      (((M2cvm.init .programChange).set .group (m.get .group)).set .channel (m.get .channel)) :=
    ((M2cvm.is_init .programChange).set _).set _
  simp only [ToMidi2.programChangeMessage]
  split
  case isTrue =>
    rw [Message.get_set_of_disjoint _ _ (by decide), Message.get_set_of_disjoint _ _ (by decide),
      Message.get_set_of_disjoint _ _ (by decide)]
    exact his.get_set hlt
  case isFalse => exact his.get_set hlt

/-! ### Runs -/

/-- What comes back for anything but a program change is not heard. -/
theorem quiet_bounce {s : ToMidi2.State} {p : Packet} (htype : p.message.type ≠ .m2cvm)
    (hprogram : p.message.call.callback ≠ .m1cvm .programChange) (cache : ToMidi1.PnCache) :
    ∀ y ∈ bounce s cache p, y.Quiet := by
  by_cases hpassed : p.PassedOn
  · rw [bounce_passedOn hpassed htype]
    split
    case isTrue =>
      exact List.forall_mem_singleton.2 <| quiet_of_type fun hcall =>
        hpassed.2.2 (Message.type_of_call hcall)
    case isFalse => exact List.forall_mem_nil _
  by_cases hskip : p.Skipped
  · rw [bounce_nil (congrArg Context.output (ToMidi2.messages_skipped hskip s))]
    exact List.forall_mem_nil _
  have hknown : p.message.Known := not_not.1 fun h => hskip (Or.inr h)
  have hm1cvm : p.message.type = .m1cvm :=
    by_contra fun h => hpassed ⟨hknown, fun hnoop => hskip (Or.inl hnoop), h⟩
  obtain ⟨status, hcallback⟩ := callback_m1cvm hm1cvm hknown
  have hne : status ≠ .programChange := fun heq => hprogram (heq ▸ hcallback)
  have hmessages : (ToMidi2.translator.messages s p).output =
      (ToMidi2.m1cvm status (⟨s, []⟩ : Context ToMidi2.State (List Message)) p.message).output := by
    rw [Translator.messages, Message.call_eq hcallback Callback.noConfusion]
    rfl
  rcases ToMidi2.atMostOne_m1cvm status s p.message with hnone | ⟨-, x, hone, -⟩
  · rw [bounce_nil (hmessages.trans hnone)]
    exact List.forall_mem_nil _
  · obtain ⟨status', his, hprogram', hbank⟩ := ToMidi2.sent_m1cvm hne s p.message x
      (hone ▸ List.mem_singleton.2 rfl)
    rw [bounce_is (hmessages.trans hone) his]
    exact ToMidi1.quiet_m2cvm hprogram' hbank cache

/-- What comes back for a packet is heard as the packet is, but for half a bank. -/
theorem Follows.heard {banks banks' : Channel → Halves} {s : ToMidi2.State}
    (h : Follows banks s banks') (cache : ToMidi1.PnCache) {p : Packet}
    (htype : p.message.type ≠ .m2cvm) :
    Follows (programs.step banks p.message).1 (ToMidi2.translator.messages s p).state
        (programs.run banks' (bounce s cache p)).1 ∧
      (programs.run banks' (bounce s cache p)).2 =
        (programs.step banks p.message).2.map Program.whole := by
  by_cases hprogram : p.message.call.callback = .m1cvm .programChange
  · have hup := ToMidi2.output_programChange hprogram s
    rw [h.bank] at hup
    have haddress : (ToMidi2.programChangeMessage (banks p.address).bank p.message).address =
        p.address :=
      ToMidi2.address_output s p _ (hup ▸ List.mem_singleton.2 rfl)
    have hnumber := program_programChangeMessage (banks p.address).bank p.message
    have hdown := programs_downgraded banks' cache (hnumber ▸ p.message.get_lt M1cvm.program)
    have hcarried := carried_programChangeMessage (h.small p.address) (h.unheard p.address)
      p.message
    have hheard : programs.step banks p.message =
        (banks, [⟨p.address, banks p.address, p.message.get M1cvm.program⟩]) := by
      simp only [programs, hprogram]
      rfl
    have hstep := h.step p
    rw [hheard] at hstep ⊢
    rw [bounce_is hup (is_programChangeMessage ..), ToMidi1.m2cvm, hdown, haddress, hnumber,
      hcarried]
    refine ⟨⟨hstep.bank, hstep.small, fun k hk => ?_⟩, rfl⟩
    show Function.update banks' p.address _ k = _
    by_cases heq : k = p.address
    · subst heq
      rw [Function.update_self, if_neg hk]
    · rw [Function.update_of_ne heq]
      exact h.unheard k hk
  · rw [programs_run_quiet (quiet_bounce htype hprogram cache), programs_nil hprogram]
    exact ⟨h.step p, rfl⟩

theorem Follows.run {banks banks' : Channel → Halves} {s : ToMidi2.State}
    (h : Follows banks s banks') (cache : ToMidi1.PnCache) {ps : List Packet}
    (hps : ∀ p ∈ ps, p.message.type ≠ .m2cvm) :
    (programs.run banks' (((ToMidi2.translator.translation.andThen
      ToMidi1.translator.translation).run (s, cache) ps).2.map Packet.message)).2 =
        (programs.run banks (ps.map Packet.message)).2.map Program.whole := by
  induction ps generalizing banks banks' s cache with
  | nil => rfl
  | cons p ps ih =>
      obtain ⟨hp, hrest⟩ := List.forall_mem_cons.1 hps
      obtain ⟨hfollows, hheard⟩ := h.heard cache hp
      rw [Machine.run_cons, List.map_append, Machine.run_append, List.map_cons, Machine.run_cons,
        List.map_append, ← hheard]
      exact congrArg _ (ih hfollows _ hrest)

/-- In the beginning nothing has been selected. -/
theorem follows_create (g : Nat) : Follows (fun _ => {}) (.create g) fun _ => {} := by
  refine ⟨fun _ => rfl, fun _ => ⟨?_, ?_⟩, fun _ _ => rfl⟩
  · exact fun _ hv => absurd hv (Option.not_mem_none _)
  · exact fun _ hv => absurd hv (Option.not_mem_none _)

/-- Whatever is sent for MIDI 1.0, a receiver of what comes back hears the same program changes on
the same channels with the same banks, but for banks of which a half was never selected. -/
theorem programs_upgrade_downgrade (g : Nat) (ps : List Packet)
    (hps : ∀ p ∈ ps, p.message.type ≠ .m2cvm) :
    heard (ToMidi1.translator.run {}
      (ToMidi2.translator.run (.create g) (ps.flatMap Packet.words)).2).2 =
        (heard (ps.flatMap Packet.words)).map Program.whole := by
  have hframes (ps : List Packet) :
      framesOf (ps.flatMap Packet.words) = ps.map Packet.message := by
    rw [← message_packetsOf, packetsOf_words]
  have hrun := (follows_create g).run {} hps
  rw [Machine.run_andThen] at hrun
  rw [(ToMidi2.translator.run_words _ ps).2, (ToMidi1.translator.run_words _ _).2, heard, heard,
    hframes, hframes]
  exact hrun

/-- Half of bank 5 and the program 42, then the other half and the program again. -/
theorem programs_upgrade_downgrade_half :
    heard (ToMidi1.translator.run {} (ToMidi2.translator.run (.create 0)
      [0x20B00005, 0x20C02A00, 0x20B02007, 0x20C02A00]).2).2 =
        [⟨(0, 0), {}, 42⟩, ⟨(0, 0), ⟨some 5, some 7⟩, 42⟩] := by
  have h := programs_upgrade_downgrade 0 [{ message := ⟨[0x20B00005]⟩ },
    { message := ⟨[0x20C02A00]⟩ }, { message := ⟨[0x20B02007]⟩ }, { message := ⟨[0x20C02A00]⟩ }]
    (by decide)
  exact h.trans (by decide +kernel)

end Midi2.Ump
