import Midi2.Ump.ChannelIsolation
import Midi2.Ump.NormalForm

/-!
# What the cache of `to_midi1` shows

All channels share the cache of `to_midi1`, and what is in it depends on everything that was
translated before. It decides about one thing only: whether a parameter is selected anew
before its value is sent. Apart from the control changes that select a parameter the
translation goes message by message (`values_memoryless`), so that the channels do not
disturb each other (`values_isolation`).
-/

namespace Midi2.Ump

/-! ## Addresses -/

/-- A message that is built for a channel is addressed to it. -/
theorem Message.Kind.address_sets {n status : Nat} {mt : MessageType} {m : Message}
    (h : m.Kind n mt status) (hn : 0 < n) {k : Channel} (hg : k.1 < 2 ^ 4) (hc : k.2 < 2 ^ 4)
    {xs : List (Field × Nat)} (fs : List Field) (hfs : xs.map Prod.fst = fs := by rfl)
    (hdisjoint : ∀ f ∈ fs, f.Disjoint .group ∧ f.Disjoint .channel := by decide) :
    (((m.set .group k.1).set .channel k.2).sets xs).address = k := by
  subst hfs
  have hxs : ∀ x ∈ xs, x.1.Disjoint .group ∧ x.1.Disjoint .channel := fun x hx =>
    hdisjoint x.1 (List.mem_map_of_mem hx)
  have hgroup : (m.set .group k.1).Kind n mt status := h.set _
  refine Prod.ext ?_ ?_
  · show Message.get _ .group = _
    rw [get_sets_of_disjoint _ fun x hx => (hxs x hx).1, get_set_of_disjoint _ _ (by decide),
      h.get_set hg hn]
  · show Message.get _ .channel = _
    rw [get_sets_of_disjoint _ fun x hx => (hxs x hx).2, hgroup.get_set hc hn]

/-! ## Messages that select a parameter -/

/-- A control change that selects a part of a parameter's number. -/
def Message.Selects (m : Message) : Prop :=
  m.call.callback = .m1cvm .cc ∧ Control.ofNat? (m.get M1cvm.controller) ∈
    [some .nrpnLsb, some .nrpnMsb, some .rpnLsb, some .rpnMsb]

def Packet.Selects (p : Packet) : Prop :=
  p.message.Selects

instance (m : Message) : Decidable m.Selects :=
  inferInstanceAs (Decidable (_ ∧ _))

instance (p : Packet) : Decidable p.Selects :=
  inferInstanceAs (Decidable p.message.Selects)

namespace ToMidi1

theorem selects_controlChangeMessage {g c value : Nat} (hg : g < 2 ^ 4) (hc : c < 2 ^ 4)
    {control : Control} (hcontrol : some control ∈
      [some Control.nrpnLsb, some .nrpnMsb, some .rpnLsb, some .rpnMsb]) (hv : value < 2 ^ 7) :
    (controlChangeMessage g c control.toNat value).Selects := by
  obtain ⟨-, -, hcontroller, -⟩ := get_controlChangeMessage hg hc control.toNat_lt hv
  refine ⟨?_, ?_⟩
  · rw [(is_controlChangeMessage ..).call]
  · rw [hcontroller, Control.ofNat_toNat]
    exact hcontrol

theorem PnCacheKey.group_lt (key : PnCacheKey) : key.group < 2 ^ 4 :=
  Nat.and_lt_two_pow _ (by decide)

theorem PnCacheKey.channel_lt (key : PnCacheKey) : key.channel < 2 ^ 4 :=
  Nat.and_lt_two_pow _ (by decide)

/-- What is left out if the cache has the parameter selects it. -/
theorem selects_selectMessages (key : PnCacheKey) {number : Nat × Nat} (hbank : number.1 < 2 ^ 7)
    (hindex : number.2 < 2 ^ 7) : ∀ m ∈ selectMessages key number, m.Selects := by
  intro m hm
  rcases List.mem_pair.1 hm with rfl | rfl
  · refine selects_controlChangeMessage key.group_lt key.channel_lt ?_ hbank
    split <;> decide
  · refine selects_controlChangeMessage key.group_lt key.channel_lt ?_ hindex
    split <;> decide

/-! ## What does not select -/

/-- The messages that are sent for a packet, without those that select a parameter. -/
def values (cache : PnCache) (p : Packet) : List Message :=
  (translator.messages cache p).output.filter fun m => ¬m.Selects

theorem values_pnMessage (cache : PnCache) (key : PnCacheKey) {number : Nat × Nat}
    (hbank : number.1 < 2 ^ 7) (hindex : number.2 < 2 ^ 7) (value : Nat) :
    (pnMessage (⟨cache, []⟩ : Context PnCache (List Message)) key number value).output.filter
        (fun m => ¬m.Selects) =
      (dataEntryMessages key value).filter fun m => ¬m.Selects := by
  have hnone : (selectMessages key number).filter (fun m => ¬m.Selects) = [] := by
    refine List.filter_eq_nil_iff.2 fun m hm => ?_
    rw [decide_eq_true_eq, not_not]
    exact selects_selectMessages key hbank hindex m hm
  rw [pnMessage_output, List.filter_append]
  split
  case isTrue => rfl
  case isFalse => rw [hnone, List.nil_append]

theorem values_m2cvm (s : Mt.M2cvm) (cache cache' : PnCache) (m : Message) :
    (m2cvm s (⟨cache, []⟩ : Context PnCache (List Message)) m).output.filter
        (fun m => ¬m.Selects) =
      (m2cvm s (⟨cache', []⟩ : Context PnCache (List Message)) m).output.filter
        fun m => ¬m.Selects := by
  cases s with
  | rpn | nrpn =>
      exact (values_pnMessage cache _ (m.get_lt _) (m.get_lt _) _).trans
        (values_pnMessage cache' _ (m.get_lt _) (m.get_lt _) _).symm
  | programChange =>
      simp only [m2cvm, programChange]
      split <;> rfl
  | _ => rfl

/-- They do not depend on the cache. -/
theorem values_congr (cache cache' : PnCache) (p : Packet) : values cache p = values cache' p := by
  rw [values, values, Translator.messages, Translator.messages]
  generalize p.message.call = c
  obtain ⟨callback, m⟩ := c
  cases callback with
  | m2cvm s => exact values_m2cvm s cache cache' m
  | _ => rfl

/-! ## Channels -/

theorem address_controlChangeMessage {g c : Nat} (hg : g < 2 ^ 4) (hc : c < 2 ^ 4)
    (controller value : Nat) : (controlChangeMessage g c controller value).address = (g, c) :=
  @Message.Kind.address_sets _ _ _ _ (M1cvm.is_init .cc) (by decide) (g, c) hg hc
    [(M1cvm.controller, controller), (M1cvm.value, value)] [M1cvm.controller, M1cvm.value] rfl
    (by decide)

theorem address_pnMessage (cache : PnCache) (k : Channel) (hg : k.1 < 2 ^ 4) (hc : k.2 < 2 ^ 4)
    (isRpn : Bool) (number : Nat × Nat) (value : Nat) :
    ∀ m ∈ (pnMessage (⟨cache, []⟩ : Context PnCache (List Message)) (.make k.1 k.2 isRpn) number
      value).output, m.address = k := by
  obtain ⟨hgroup, hchannel, -⟩ := PnCacheKey.parts_make hg hc isRpn
  have hcc : ∀ controller value, (controlChangeMessage (PnCacheKey.make k.1 k.2 isRpn).group
      (PnCacheKey.make k.1 k.2 isRpn).channel controller value).address = k := by
    rw [hgroup, hchannel]
    exact address_controlChangeMessage hg hc
  have hentry : ∀ m ∈ dataEntryMessages (.make k.1 k.2 isRpn) value, m.address = k :=
    List.forall_mem_cons.2 ⟨hcc _ _, List.forall_mem_singleton.2 (hcc _ _)⟩
  rw [pnMessage_output]
  split
  case isTrue => exact hentry
  case isFalse =>
    refine List.forall_mem_append.2 ⟨?_, hentry⟩
    exact List.forall_mem_cons.2 ⟨hcc _ _, List.forall_mem_singleton.2 (hcc _ _)⟩

theorem address_m2cvm (s : Mt.M2cvm) (cache : PnCache) (m : Message) :
    ∀ m' ∈ (m2cvm s (⟨cache, []⟩ : Context PnCache (List Message)) m).output,
      m'.address = m.address := by
  obtain ⟨hg, hc⟩ := m.address_lt
  have haddress {status : Mt.M1cvm} {xs : List (Field × Nat)} :=
    @Message.Kind.address_sets _ _ _ _ (M1cvm.is_init status) (by decide) m.address hg hc xs
  cases s with
  | noteOff | noteOn =>
      exact List.forall_mem_singleton.2 <| @haddress _ [(M1cvm.note, _), (M1cvm.velocity, _)]
        [M1cvm.note, M1cvm.velocity] rfl (by decide)
  | polyPressure =>
      exact List.forall_mem_singleton.2 <| @haddress _ [(M1cvm.note, _), (M1cvm.pressure, _)]
        [M1cvm.note, M1cvm.pressure] rfl (by decide)
  | channelPressure =>
      exact List.forall_mem_singleton.2 <| @haddress _ [(M1cvm.data, _)] [M1cvm.data] rfl
        (by decide)
  | pitchBend =>
      exact List.forall_mem_singleton.2 <| @haddress _ [(M1cvm.lsbData, _), (M1cvm.msbData, _)]
        [M1cvm.lsbData, M1cvm.msbData] rfl (by decide)
  | cc => exact List.forall_mem_singleton.2 (address_controlChangeMessage hg hc _ _)
  | programChange =>
      have hprogram := @haddress .programChange [(M1cvm.program, m.get M2cvm.program)]
        [M1cvm.program] rfl (by decide)
      simp only [m2cvm, programChange]
      split
      case isTrue =>
        exact List.forall_mem_cons.2 ⟨address_controlChangeMessage hg hc _ _,
          List.forall_mem_cons.2 ⟨address_controlChangeMessage hg hc _ _,
            List.forall_mem_singleton.2 hprogram⟩⟩
      case isFalse => exact List.forall_mem_singleton.2 hprogram
  | rpn | nrpn => exact address_pnMessage cache m.address hg hc _ _ _
  | rpnPerNote | nrpnPerNote | rpnRelative | nrpnRelative | perNoteManage
  | pitchBendPerNote => exact List.forall_mem_nil _

/-- What is sent for a message is addressed to the same channel. -/
theorem address_messages (cache : PnCache) (p : Packet) :
    ∀ m ∈ (translator.messages cache p).output, m.address = p.address := by
  rcases messages_cases p cache with ⟨-, heq⟩ | ⟨s, -, heq⟩ | heq
  · rw [heq]
    exact List.forall_mem_singleton.2 rfl
  · rw [heq]
    exact address_m2cvm s cache p.message
  · rw [heq]
    exact List.forall_mem_nil _

/-! ## Runs -/

/-- What a fresh translator sends for a packet, without selections. -/
def valuePackets (p : Packet) : List Packet :=
  (translator.translation.step {} p).2.filter fun q => ¬q.Selects

/-- So does any other, whatever it has translated before. -/
theorem filter_step (cache : PnCache) (p : Packet) :
    (translator.translation.step cache p).2.filter (fun q => ¬q.Selects) = valuePackets p := by
  have hinjective : Function.Injective Packet.message := fun p p' h =>
    Packet.ext_words (congrArg Message.words h)
  have hvalues : ∀ cache : PnCache,
      ((translator.translation.step cache p).2.filter fun q => ¬q.Selects).map Packet.message =
        values cache p := by
    intro cache
    rw [values, ← translator.message_step, List.filter_map]
    rfl
  refine List.map_injective_iff.2 hinjective ?_
  rw [hvalues, valuePackets, hvalues, values_congr]

theorem address_valuePackets (p : Packet) : ∀ q ∈ valuePackets p, q.address = p.address := by
  intro q hq
  exact address_messages {} p _ (Translator.message_of_mem_step (List.mem_of_mem_filter hq))

theorem filter_run (ws : List Word) :
    (packetsOf (translator.run {} ws).2).filter (fun q => ¬q.Selects) =
      (packetsOf ws).flatMap valuePackets := by
  rw [(translator.run_packetsOf {} ws).2, packetsOf_words, Machine.filter_run filter_step]

/-- But for selections, a stream is translated message by message: what comes out for it is
what fresh translators would send for its messages. -/
theorem values_memoryless (ws : List Word) :
    (packetsOf (translator.run {} ws).2).filter (fun q => ¬q.Selects) =
      (packetsOf ws).flatMap fun p =>
        (packetsOf (translator.run {} p.words).2).filter fun q => ¬q.Selects := by
  rw [filter_run]
  congr 1
  funext p
  have hpacket : packetsOf p.words = [p] := by
    have := packetsOf_words [p]
    rwa [List.flatMap_singleton] at this
  rw [filter_run, hpacket, List.flatMap_singleton]

/-- But for selections, what comes out for a channel is what comes out of a fresh translator
that is given the messages for this channel only. -/
theorem values_isolation (k : Channel) (ws : List Word) :
    (packetsOf (translator.run {} ws).2).filter (fun q => q.address = k ∧ ¬q.Selects) =
      (packetsOf (translator.run {}
        (((packetsOf ws).filter fun p => p.address = k).flatMap Packet.words)).2).filter
          fun q => ¬q.Selects := by
  have hchannel : ∀ p : Packet, (valuePackets p).filter (fun q => q.address = k) =
      if p.address = k then valuePackets p else [] := by
    intro p
    split
    case isTrue hp =>
      refine List.filter_eq_self.2 fun q hq => ?_
      rw [address_valuePackets p q hq]
      exact decide_eq_true hp
    case isFalse hp =>
      refine List.filter_eq_nil_iff.2 fun q hq => ?_
      rw [address_valuePackets p q hq, decide_eq_true_eq]
      exact hp
  have hboth : (fun q : Packet => decide (q.address = k ∧ ¬q.Selects)) =
      fun q => decide (q.address = k) && decide (¬q.Selects) := by
    funext q
    exact Bool.decide_and _ _
  rw [filter_run, packetsOf_words, hboth, ← List.filter_filter, filter_run, List.filter_flatMap]
  simp only [hchannel]
  induction packetsOf ws with
  | nil => rfl
  | cons p ps ih =>
      rw [List.flatMap_cons, ih]
      by_cases hp : p.address = k
      · have hkeep : (p :: ps).filter (fun p => p.address = k) =
            p :: ps.filter fun p => p.address = k :=
          List.filter_cons_of_pos (decide_eq_true hp)
        rw [if_pos hp, hkeep, List.flatMap_cons]
      · have hdrop : (p :: ps).filter (fun p => p.address = k) =
            ps.filter fun p => p.address = k :=
          List.filter_cons_of_neg fun h => hp (of_decide_eq_true h)
        rw [if_neg hp, hdrop, List.nil_append]

end ToMidi1

end Midi2.Ump
