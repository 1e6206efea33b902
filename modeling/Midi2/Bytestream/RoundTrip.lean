import Midi2.Bytestream.ToBytestream
import Midi2.Bytestream.ToUmp

/-!
# Between UMP and byte streams

A system message or a MIDI 1.0 channel voice message is the same message in both formats:
`Carries` relates a packet of one word to a message of the byte stream. On such packets
`to_bytestream` leaves out the headers (`encoder_run`), and without system exclusive messages
`to_ump` puts them back (`decoder_run`). So the laws of `Elision` are laws of the two
translators: which messages survive both of them (`keeps_messages`), and that a stream that went
through both of them once is a normal form (`normal_form`).
-/

namespace Midi2.Bytestream

open Adt Ump

/-! ## Words of three bytes -/

theorem or_eq_add {a b n : Nat} (ha : 2 ^ n ∣ a) (hb : b < 2 ^ n) : a ||| b = a + b := by
  obtain ⟨k, rfl⟩ := ha
  exact (Nat.two_pow_add_eq_or_of_lt hb k).symm

/-- The word of a message: type, group and three bytes. -/
theorem toNat_convertWord {group : Byte} (hgroup : group.toNat < 2 ^ 4) (b0 b1 b2 : Byte) :
    (ToUmp.convertWord group b0 b1 b2).toNat =
      (if b0 ≥ Status.sysexStart.toByte then 1 else 2) * 2 ^ 28 + group.toNat * 2 ^ 24 +
        b0.toNat * 2 ^ 16 + b1.toNat * 2 ^ 8 + b2.toNat := by
  have h0 := b0.isLt
  have h1 := b1.isLt
  have h2 := b2.isLt
  have hmt : (if b0 ≥ Status.sysexStart.toByte then MessageType.system else .m1cvm).toNat =
      if b0 ≥ Status.sysexStart.toByte then 1 else 2 := by
    split <;> rfl
  have hlt : (if b0 ≥ Status.sysexStart.toByte then 1 else 2) < 2 ^ 4 := by
    split <;> decide
  unfold ToUmp.convertWord
  simp only [BitVec.toNat_or, BitVec.toNat_shiftLeft, BitVec.toNat_setWidth, BitVec.toNat_ofNat,
    Nat.shiftLeft_eq, hmt]
  generalize (if b0 ≥ Status.sysexStart.toByte then 1 else 2) = mt at hlt ⊢
  have hmod (v n : Nat) (hv : v * 2 ^ n < 2 ^ 32) : v % 2 ^ 32 * 2 ^ n % 2 ^ 32 = v * 2 ^ n := by
    rw [Nat.mod_mul_mod, Nat.mod_eq_of_lt hv]
  rw [hmod mt 28 (by omega), hmod group.toNat 24 (by omega), hmod b0.toNat 16 (by omega),
    hmod b1.toNat 8 (by omega), Nat.mod_eq_of_lt (show b2.toNat < 2 ^ 32 by omega)]
  have hor0 := @or_eq_add (mt * 2 ^ 28) (group.toNat * 2 ^ 24) 28 (by omega) (by omega)
  have hor1 := @or_eq_add (mt * 2 ^ 28 + group.toNat * 2 ^ 24) (b0.toNat * 2 ^ 16) 24 (by omega)
    (by omega)
  have hor2 := @or_eq_add (mt * 2 ^ 28 + group.toNat * 2 ^ 24 + b0.toNat * 2 ^ 16)
    (b1.toNat * 2 ^ 8) 16 (by omega) (by omega)
  have hor3 := @or_eq_add (mt * 2 ^ 28 + group.toNat * 2 ^ 24 + b0.toNat * 2 ^ 16 +
    b1.toNat * 2 ^ 8) b2.toNat 8 (by omega) (by omega)
  rw [hor0, hor1, hor2, hor3]

/-- The word that `to_ump` makes of a message. -/
def blockWord (g : Nat) (m : Block) : Word :=
  ToUmp.convertWord (byte g) m.header (m.data.getD 0 0) (m.data.getD 1 0)

theorem byte_toNat (b : Byte) : byte b.toNat = b := by
  rw [byte, BitVec.ofNat_toNat, BitVec.setWidth_eq]

theorem toNat_byte {v : Nat} (h : v < 2 ^ 8) : (byte v).toNat = v := by
  rw [byte, BitVec.toNat_ofNat, Nat.mod_eq_of_lt h]

theorem toNat_blockWord {g : Nat} (hg : g < 2 ^ 4) (m : Block) :
    (blockWord g m).toNat =
      (if m.header ≥ Status.sysexStart.toByte then 1 else 2) * 2 ^ 28 + g * 2 ^ 24 +
        m.header.toNat * 2 ^ 16 + (m.data.getD 0 0).toNat * 2 ^ 8 + (m.data.getD 1 0).toNat := by
  have hgroup : (byte g).toNat = g := toNat_byte (by omega)
  have hword := @toNat_convertWord (byte g) (by rwa [hgroup]) m.header (m.data.getD 0 0)
    (m.data.getD 1 0)
  rwa [hgroup] at hword

/-! ## Packets and messages -/

theorem get_singleton (w : Word) {f : Field} (hf : f.word = 0) :
    (⟨[w]⟩ : Message).get f = w.toNat / 2 ^ f.range.index % 2 ^ f.range.bits := by
  rw [Message.get, hf]
  exact get_eq_div_mod w f.range

/-- What the dispatcher takes for a system message is one. -/
theorem system_of_call {p : Packet} {s : Mt.SystemCrt}
    (h : p.message.call.callback = .system s) :
    p.message.words.length = 1 ∧ p.message.get .mt = 1 ∧ p.message.get .systemStatus = s.toNat := by
  have htype : p.message.type = .system := Message.type_of_call (by rw [h]; rfl)
  rw [Message.call, htype] at h
  have hstatus : Mt.SystemCrt.ofNat? (p.message.get .systemStatus) = some s :=
    Message.status_of_switch (fun _ _ => Callback.system.inj) (fun _ => Callback.noConfusion) h
  refine ⟨?_, ?_, Mt.SystemCrt.eq_toNat hstatus⟩
  · rw [show p.message.words.length = p.message.type.size from p.whole, htype]
    rfl
  · rw [Message.type_eq] at htype
    rw [← MessageType.toNat_ofMt (p.message.get_lt .mt), htype]
    rfl

/-- A system message without unused bits is the word of its bytes. -/
theorem word_systemBlock {g : Nat} (hg : g < 2 ^ 4) {s : Mt.SystemCrt} {w : Word}
    (hmt : (⟨[w]⟩ : Message).get .mt = 1) (hgroup : (⟨[w]⟩ : Message).get .group = g)
    (hstatus : (⟨[w]⟩ : Message).get .systemStatus = s.toNat) (hclean : System.Clean s ⟨[w]⟩) :
    w = blockWord g (systemBlock s ⟨[w]⟩) := by
  have hheader : (systemBlock s ⟨[w]⟩).header ≥ Status.sysexStart.toByte := by
    show byte s.toNat ≥ _
    cases s <;> decide
  refine BitVec.eq_of_toNat_eq ?_
  rw [toNat_blockWord hg, if_pos hheader]
  rw [get_singleton w rfl] at hmt hgroup hstatus
  have hw := w.isLt
  cases s <;>
    simp [System.Clean, System.reserved, systemBlock, systemData, get_singleton,
      Mt.SystemCrt.toNat, Field.mt, Field.group, Field.systemStatus, byte, BitRange.bit,
      System.timeCode, System.positionLsb, System.positionMsb, System.song]
      at hmt hgroup hstatus hclean ⊢ <;>
    omega

/-- A channel voice message without unused bits is the word of its bytes. -/
theorem word_channelBlock {g : Nat} (hg : g < 2 ^ 4) {s : Mt.M1cvm} {w : Word}
    (h : M1cvm.Is s ⟨[w]⟩) (hgroup : (⟨[w]⟩ : Message).get .group = g)
    (hclean : M1cvm.Clean s ⟨[w]⟩) : w = blockWord g (channelBlock s ⟨[w]⟩) := by
  have hmt := h.mt
  have hstatus := h.status
  have hlt := (channelBlock_header s ⟨[w]⟩).2.2.2
  refine BitVec.eq_of_toNat_eq ?_
  rw [toNat_blockWord hg, if_neg (by simpa using hlt), toNat_channelBlock]
  rw [get_singleton w rfl] at hmt hgroup hstatus ⊢
  have hw := w.isLt
  cases s <;>
    simp [M1cvm.Clean, M1cvm.reserved, channelBlock, channelData, get_singleton,
      Mt.M1cvm.toNat, MessageType.toNat, Field.mt, Field.group, Field.status, Field.channel,
      byte, BitRange.bit, M1cvm.note, M1cvm.velocity, M1cvm.pressure, M1cvm.controller,
      M1cvm.value, M1cvm.program,
      M1cvm.data, M1cvm.lsbData, M1cvm.msbData]
      at hmt hgroup hstatus hclean ⊢ <;>
    omega

/-- The unused bits of a system message or a MIDI 1.0 channel voice message. -/
def reserved? : Callback → Option (List Field)
  | .system s => some (System.reserved s)
  | .m1cvm s => some (M1cvm.reserved s)
  | _ => none

/-- A system message or a MIDI 1.0 channel voice message of the group, with unused bits zero. -/
structure OnStream (g : Nat) (p : Packet) : Prop where
  group : p.message.get .group = g
  clean : ∃ fs, fs ∈ reserved? p.message.call.callback ∧ ∀ f ∈ fs, p.message.get f = 0

instance (g : Nat) (p : Packet) : Decidable (OnStream g p) :=
  decidable_of_iff (_ ∧ _) ⟨fun ⟨group, clean⟩ => ⟨group, clean⟩, fun h => ⟨h.group, h.clean⟩⟩

/-- The packet is a message of one word, of the group, and `to_bytestream` writes it as `m`. -/
structure Carries (g : Nat) (p : Packet) (m : Block) : Prop where
  formed : alphabet.Formed m
  words : p.words = [blockWord g m]
  tokens : ∀ state : ToBytestream.State, state.filterMessage g = false →
    ToBytestream.tokens state p.message.call = m.tokens

/-- The message of the byte stream that a packet is. -/
def blockOf (p : Packet) : Block :=
  match p.message.call.callback with
  | .system s => systemBlock s p.message
  | .m1cvm s => channelBlock s p.message
  | _ => ⟨0, []⟩

/-- A packet of the byte stream carries a message. -/
theorem carries_of_onStream {g : Nat} (hg : g < 2 ^ 4) {p : Packet} (h : OnStream g p) :
    Carries g p (blockOf p) := by
  obtain ⟨hgroup, fs, hfs, hclean⟩ := h
  cases hs : p.message.call.callback with
  | system s =>
      obtain rfl : System.reserved s = fs := by
        rw [hs] at hfs
        exact Option.some.inj hfs
      obtain ⟨hlen, hmt, hstatus⟩ := system_of_call hs
      obtain ⟨w, hw⟩ := List.length_eq_one_iff.1 hlen
      have hm : p.message = ⟨[w]⟩ := congrArg Message.mk hw
      have hblock : blockOf p = systemBlock s p.message := by rw [blockOf, hs]
      rw [hblock]
      refine ⟨formed_systemBlock s _, ?_, ?_⟩
      · rw [Packet.words, hw, hm]
        rw [hm] at hmt hgroup hstatus hclean
        rw [← word_systemBlock hg hmt hgroup hstatus hclean]
      · intro state hfilter
        rw [ToBytestream.tokens, Message.call_eq hs Callback.noConfusion,
          if_neg (by rw [hgroup, hfilter]; decide)]
  | m1cvm s =>
      obtain rfl : M1cvm.reserved s = fs := by
        rw [hs] at hfs
        exact Option.some.inj hfs
      have his := M1cvm.is_of_call hs
      obtain ⟨w, hw⟩ := List.length_eq_one_iff.1 his.length
      have hm : p.message = ⟨[w]⟩ := congrArg Message.mk hw
      have hblock : blockOf p = channelBlock s p.message := by rw [blockOf, hs]
      rw [hblock]
      refine ⟨formed_channelBlock s _, ?_, ?_⟩
      · rw [Packet.words, hw, hm]
        rw [hm] at his hgroup hclean
        rw [← word_channelBlock hg his hgroup hclean]
      · intro state hfilter
        rw [ToBytestream.tokens, Message.call_eq hs Callback.noConfusion,
          if_neg (by rw [hgroup, hfilter]; decide)]
  | _ =>
      rw [hs] at hfs
      cases hfs

/-- The statuses that begin a message of a fixed size are those of system messages and of
channel voice messages. -/
theorem arity_cases {h : Byte} {n : Nat} (hn : arity h = some n) :
    (h ≥ Status.sysexStart.toByte ∧ ∃ s, Mt.SystemCrt.ofNat? h.toNat = some s ∧
      (systemData s).length = n) ∨
    (h < Status.sysexStart.toByte ∧ ∃ s, Mt.M1cvm.ofNat? (h.toNat / 2 ^ 4) = some s ∧
      (channelData s).length = n ∧ (channelStatus s).toByte ||| byte (h.toNat % 2 ^ 4) = h) := by
  have hall : ∀ h : Byte, (arity h).isSome = true →
      (h ≥ Status.sysexStart.toByte ∧
        (Mt.SystemCrt.ofNat? h.toNat).map (fun s => (systemData s).length) = arity h) ∨
      (h < Status.sysexStart.toByte ∧
        (Mt.M1cvm.ofNat? (h.toNat / 2 ^ 4)).map (fun s => (channelData s).length) = arity h ∧
        ∀ s ∈ Mt.M1cvm.ofNat? (h.toNat / 2 ^ 4),
          (channelStatus s).toByte ||| byte (h.toNat % 2 ^ 4) = h) := by decide +kernel
  rcases hall h (by rw [hn]; rfl) with ⟨hge, hs⟩ | ⟨hlt, hs, hbyte⟩
  · obtain ⟨s, hs, hlen⟩ := Option.map_eq_some_iff.1 (hs.trans hn)
    exact Or.inl ⟨hge, s, hs, hlen⟩
  · obtain ⟨s, hs, hlen⟩ := Option.map_eq_some_iff.1 (hs.trans hn)
    exact Or.inr ⟨hlt, s, hs, hlen, hbyte s hs⟩

/-- The data of a message are read back from its word. -/
theorem data_blockWord {g : Nat} (hg : g < 2 ^ 4) {m : Block}
    (hdata : ∀ b ∈ m.data, isStatusByte b = false) {fs : List Field}
    (hfs : fs.map (fun f => (f.word, f.range.index, f.range.bits)) <+: [(0, 8, 7), (0, 0, 7)])
    (hlen : fs.length = m.data.length) :
    fs.map (fun f => byte ((⟨[blockWord g m]⟩ : Message).get f)) = m.data := by
  have hget {f : Field} {i : Nat} (hf : (f.word, f.range.index, f.range.bits) = (0, i, 7))
      {b : Byte} (hb : (blockWord g m).toNat / 2 ^ i % 2 ^ 7 = b.toNat) :
      byte ((⟨[blockWord g m]⟩ : Message).get f) = b := by
    simp only [Prod.mk.injEq] at hf
    rw [get_singleton _ hf.1, hf.2.1, hf.2.2, hb, byte_toNat]
  obtain ⟨h, data⟩ := m
  have hword := toNat_blockWord hg ⟨h, data⟩
  rcases fs with _ | ⟨f, _ | ⟨f', _ | ⟨f'', fs⟩⟩⟩
  · obtain rfl := List.length_eq_zero_iff.1 hlen.symm
    rfl
  · obtain ⟨x, rfl⟩ := List.length_eq_one_iff.1 hlen.symm
    have hx := (status_byte_iff x).1 (hdata x List.mem_cons_self)
    have hf := (List.cons_prefix_cons.1 hfs).1
    rw [List.map_singleton, hget hf]
    rw [hword]
    show (_ + x.toNat * 2 ^ 8 + 0) / 2 ^ 8 % 2 ^ 7 = x.toNat
    omega
  · obtain ⟨x, y, rfl⟩ := List.length_eq_two.1 hlen.symm
    have hx := (status_byte_iff x).1 (hdata x List.mem_cons_self)
    have hy := (status_byte_iff y).1 (hdata y (List.mem_cons_of_mem x List.mem_cons_self))
    obtain ⟨hf, hfs⟩ := List.cons_prefix_cons.1 hfs
    have hf' := (List.cons_prefix_cons.1 hfs).1
    have hword' : (blockWord g ⟨h, [x, y]⟩).toNat = _ + x.toNat * 2 ^ 8 + y.toNat := hword
    rw [List.map_cons, List.map_singleton, hget hf (b := x) (by rw [hword']; omega),
      hget hf' (b := y) (by rw [hword']; omega)]
  · exact absurd hfs.length_le (by simp)

/-- The fields that the dispatcher reads are those of the header. -/
theorem get_blockWord {g : Nat} (hg : g < 2 ^ 4) (m : Block) :
    (⟨[blockWord g m]⟩ : Message).get .group = g ∧
    (⟨[blockWord g m]⟩ : Message).get .systemStatus = m.header.toNat ∧
    (⟨[blockWord g m]⟩ : Message).get .status = m.header.toNat / 2 ^ 4 ∧
    (⟨[blockWord g m]⟩ : Message).get .channel = m.header.toNat % 2 ^ 4 := by
  have hword := toNat_blockWord hg m
  have hh := m.header.isLt
  have h1 := (m.data.getD 0 0).isLt
  have h2 := (m.data.getD 1 0).isLt
  generalize (if m.header ≥ Status.sysexStart.toByte then 1 else 2) = mt at hword
  refine ⟨?_, ?_, ?_, ?_⟩
  · rw [get_singleton _ rfl, hword]
    show _ / 2 ^ 24 % 2 ^ 4 = g
    omega
  · rw [get_singleton _ rfl, hword]
    show _ / 2 ^ 16 % 2 ^ 8 = _
    omega
  · rw [get_singleton _ rfl, hword]
    show _ / 2 ^ 20 % 2 ^ 4 = _
    omega
  · rw [get_singleton _ rfl, hword]
    show _ / 2 ^ 16 % 2 ^ 4 = _
    omega

theorem type_blockWord {g : Nat} (hg : g < 2 ^ 4) (m : Block) :
    (⟨[blockWord g m]⟩ : Message).type =
      if m.header ≥ Status.sysexStart.toByte then .system else .m1cvm := by
  have hword := toNat_blockWord hg m
  have hh := m.header.isLt
  have h1 := (m.data.getD 0 0).isLt
  have h2 := (m.data.getD 1 0).isLt
  have hmt (t : Nat) (ht : (blockWord g m).toNat / 2 ^ 28 % 2 ^ 4 = t) :
      (⟨[blockWord g m]⟩ : Message).type = .ofMt t := by
    rw [Message.type_eq, get_singleton _ rfl, ← ht]
    rfl
  split
  case isTrue hge =>
    rw [if_pos hge] at hword
    exact hmt 1 (by omega)
  case isFalse hlt =>
    rw [if_neg hlt] at hword
    exact hmt 2 (by omega)

/-- The word of a message of a fixed size is that message, of its group. -/
theorem call_blockWord {g : Nat} (hg : g < 2 ^ 4) {m : Block} (hm : alphabet.Formed m) :
    (⟨[blockWord g m]⟩ : Message).get .group = g ∧
    ((m.header ≥ Status.sysexStart.toByte ∧ ∃ s,
        (⟨[blockWord g m]⟩ : Message).call = ⟨.system s, ⟨[blockWord g m]⟩⟩ ∧
          systemBlock s ⟨[blockWord g m]⟩ = m) ∨
      m.header < Status.sysexStart.toByte ∧ ∃ s,
        (⟨[blockWord g m]⟩ : Message).call = ⟨.m1cvm s, ⟨[blockWord g m]⟩⟩ ∧
          channelBlock s ⟨[blockWord g m]⟩ = m) := by
  obtain ⟨hgroup, hsystem, hstatus, hchannel⟩ := get_blockWord hg m
  have htype := type_blockWord hg m
  refine ⟨hgroup, ?_⟩
  rcases arity_cases hm.arity with ⟨hge, s, hs, hlen⟩ | ⟨hlt, s, hs, hlen, hbyte⟩
  · rw [if_pos hge] at htype
    refine Or.inl ⟨hge, s, ?_, ?_⟩
    · rw [Message.call, htype, UmpDispatcher.callOf, UmpDispatcher.systemMessage, hsystem, hs]
      rfl
    · have hdata := data_blockWord hg hm.data (by cases s <;> decide) hlen
      rw [systemBlock, hdata, ← Mt.SystemCrt.eq_toNat hs, byte_toNat]
  · rw [if_neg (by simpa using hlt)] at htype
    refine Or.inr ⟨hlt, s, ?_, ?_⟩
    · rw [Message.call, htype, UmpDispatcher.callOf, UmpDispatcher.m1cvmMessage, hstatus, hs]
      rfl
    · have hdata := data_blockWord hg hm.data (by cases s <;> decide) hlen
      rw [channelBlock, hdata, hchannel, hbyte]

theorem whole_blockWord {g : Nat} (hg : g < 2 ^ 4) {m : Block} (hm : alphabet.Formed m) :
    (⟨[blockWord g m]⟩ : Message).Whole := by
  rcases (call_blockWord hg hm).2 with ⟨-, s, hcall, -⟩ | ⟨-, s, hcall, -⟩
  · rw [Message.Whole, @Message.type_of_call _ .system (by rw [hcall]; rfl)]
    rfl
  · rw [Message.Whole, @Message.type_of_call _ .m1cvm (by rw [hcall]; rfl)]
    rfl

/-- The packet of a message of a fixed size carries it. -/
theorem carries_blockWord {g : Nat} (hg : g < 2 ^ 4) {m : Block} (hm : alphabet.Formed m) :
    Carries g ⟨⟨[blockWord g m]⟩, whole_blockWord hg hm⟩ m := by
  refine ⟨hm, rfl, fun state hfilter => ?_⟩
  obtain ⟨hgroup, ⟨-, s, hcall, hblock⟩ | ⟨-, s, hcall, hblock⟩⟩ := call_blockWord hg hm
  · rw [ToBytestream.tokens, hcall, if_neg (by rw [hgroup, hfilter]; decide)]
    exact congrArg Elision.Block.tokens hblock
  · rw [ToBytestream.tokens, hcall, if_neg (by rw [hgroup, hfilter]; decide)]
    exact congrArg Elision.Block.tokens hblock

/-! ## The two translators -/

/-- `to_bytestream` does with packets what a machine does that writes the same bytes. -/
theorem encoder_run_forall₂ {γ : Type} {A : Packet → γ → Prop}
    {n : Machine γ Byte (Option Byte)} {ps : List Packet} {cs : List γ} (h : List.Forall₂ A ps cs)
    {state : ToBytestream.State}
    (hstep : ∀ {status p c}, A p c → alphabet.elide.run status
      (ToBytestream.tokens { state with status := status } p.message.call) = n.step status c) :
    (ToBytestream.encoder.run state ps).2 = (n.run state.status cs).2 := by
  refine (Machine.run_forall₂ (R := fun s status => s = { state with status := status }) ?_ h
    rfl).2
  intro s status p c hs hp
  subst hs
  have hencode : ToBytestream.encoder.step { state with status := status } p =
      ({ state with status := (n.step status c).1 }, (n.step status c).2) := by
    rw [← hstep hp]
    rfl
  rw [hencode]
  exact ⟨rfl, rfl⟩

/-- On such packets `to_bytestream` leaves out the repeated statuses. -/
theorem encoder_run {g : Nat} {ps : List Packet} {ms : List Block}
    (h : List.Forall₂ (Carries g) ps ms) {state : ToBytestream.State}
    (hfilter : state.filterMessage g = false) :
    (ToBytestream.encoder.run state ps).2 = (alphabet.encode.run state.status ms).2 := by
  refine encoder_run_forall₂ h fun {status p m} hp => ?_
  rw [hp.tokens { state with status := status } hfilter]
  rfl

/-- What `to_ump` has read, if it is not in a system exclusive message. -/
structure Reads (g : Nat) (s : ToUmp.State) (o : Elision.Open Byte) : Prop where
  group : s.group = byte g
  sysex7 : s.sysex7.state = .none
  header : (s.d0 = 0 ∧ o.header = none) ∨ (isStatusByte s.d0 = true ∧
    isSystemRealTimeMessage s.d0 = false ∧ s.d0 ≠ Status.sysexStart.toByte ∧
      o.header = some s.d0)
  data : (s.d1 = ToUmp.unknown ∧ o.data = []) ∨
    (isStatusByte s.d1 = false ∧ o.data = [s.d1] ∧ ∃ h, o.header = some h ∧ arity h = some 2)

theorem reads_create (g : Nat) : Reads g (.create g) {} :=
  ⟨rfl, rfl, Or.inl ⟨rfl, rfl⟩, Or.inl ⟨rfl, rfl⟩⟩

/-- What `push` decides from the status byte is the number of data bytes. -/
theorem arity_of_status {b : Byte} (hb : isStatusByte b = true)
    (hrt : isSystemRealTimeMessage b = false) (hsysex : b ≠ Status.sysexStart.toByte) :
    (ToUmp.isOneByteMessage b = true ∧ arity b = some 1) ∨
    (ToUmp.isOneByteMessage b = false ∧
      (b < Status.sysexStart.toByte || b == Status.spp.toByte) = true ∧ arity b = some 2) ∨
    (ToUmp.isOneByteMessage b = false ∧
      (b < Status.sysexStart.toByte || b == Status.spp.toByte) = false ∧
        (arity b = none ∨ arity b = some 0)) := by
  revert b
  decide +kernel

theorem pushStatus_none {s : ToUmp.State} (hsysex : s.sysex7.state = .none) {b : Byte}
    (hb : b ≠ Status.sysexStart.toByte) :
    ToUmp.pushStatus (⟨s, []⟩ : Context ToUmp.State (List Message)) b =
      if b == Status.tuneRequest.toByte then
        ToUmp.convert ⟨{ s with d0 := b, d1 := ToUmp.unknown }, []⟩ b 0 0
      else ⟨{ s with d0 := b, d1 := ToUmp.unknown }, []⟩ := by
  have hstate : (Context.update (⟨s, []⟩ : Context ToUmp.State (List Message)) fun s =>
      { s with d0 := b, d1 := ToUmp.unknown }).state.sysex7.state = .none := hsysex
  have hne : (b == Status.sysexStart.toByte) = false := beq_eq_false_iff_ne.2 hb
  simp only [ToUmp.pushStatus, hstate, hne]
  rfl

theorem pushData_none {s : ToUmp.State} (hsysex : s.sysex7.state = .none) (b : Byte) :
    ToUmp.pushData (⟨s, []⟩ : Context ToUmp.State (List Message)) b =
      if s.d1 ≠ ToUmp.unknown then
        (ToUmp.convert ⟨s, []⟩ s.d0 s.d1 b).update fun s => { s with d1 := ToUmp.unknown }
      else if s.d0 ≠ 0 then
        if ToUmp.isOneByteMessage s.d0 then ToUmp.convert ⟨s, []⟩ s.d0 b 0
        else if s.d0 < Status.sysexStart.toByte || s.d0 == Status.spp.toByte then
          ⟨{ s with d1 := b }, []⟩
        else ⟨s, []⟩
      else ⟨s, []⟩ := by
  have hnot : ¬(s.sysex7.state = .start ∨ s.sysex7.state = .cont) := by
    rw [hsysex]
    decide
  simp only [ToUmp.pushData, if_neg hnot]
  rfl

theorem convert_eq {g : Nat} {s : ToUmp.State} (hgroup : s.group = byte g) (b0 b1 b2 : Byte) :
    ToUmp.convert (⟨s, []⟩ : Context ToUmp.State (List Message)) b0 b1 b2 =
      ⟨s, [⟨[ToUmp.convertWord (byte g) b0 b1 b2]⟩]⟩ := by
  rw [← hgroup]
  rfl

section Steps

variable {g : Nat} {s : ToUmp.State} {o : Elision.Open Byte}

/-- The translator and the receiver do the same with a byte. -/
def Agrees (g : Nat) (ctxt : Context ToUmp.State (List Message))
    (r : Elision.Open Byte × List Block) : Prop :=
  ctxt.output = r.2.map (fun m => ⟨[blockWord g m]⟩) ∧ Reads g ctxt.state r.1

theorem agrees_status (h : Reads g s o) {b : Byte} (hst : isStatusByte b = true)
    (hrt : isSystemRealTimeMessage b = false) (hb : b ≠ Status.sysexStart.toByte) :
    Agrees g (ToUmp.pushStatus ⟨s, []⟩ b)
      (⟨some b, []⟩, if arity b = some 0 then [⟨b, []⟩] else []) := by
  have hreads : Reads g { s with d0 := b, d1 := ToUmp.unknown } ⟨some b, []⟩ :=
    ⟨h.group, h.sysex7, Or.inr ⟨hst, hrt, hb, rfl⟩, Or.inl ⟨rfl, rfl⟩⟩
  have harity : arity b = some 0 ↔ (b == Status.tuneRequest.toByte) = true :=
    (arity_eq_zero_iff hrt).trans beq_iff_eq.symm
  rw [pushStatus_none h.sysex7 hb]
  split
  case isTrue htune =>
    rw [if_pos (harity.2 htune), convert_eq hreads.group]
    exact ⟨rfl, hreads⟩
  case isFalse htune =>
    rw [if_neg fun hzero => htune (harity.1 hzero)]
    exact ⟨rfl, hreads⟩

theorem agrees_data (h : Reads g s o) (b : Byte) (hst : isStatusByte b = false) :
    Agrees g (ToUmp.pushData ⟨s, []⟩ b) (alphabet.append o b) := by
  obtain ⟨header, data⟩ := o
  obtain ⟨hgroup, hsysex, hheader, hdata⟩ := h
  rw [pushData_none hsysex]
  rcases hdata with ⟨hd1, rfl⟩ | ⟨hd1, rfl, h', rfl, harity⟩
  · rw [if_neg (not_not.2 hd1)]
    rcases hheader with ⟨hd0, rfl⟩ | ⟨hs0, hrt0, hsysex0, rfl⟩
    · rw [if_neg (not_not.2 hd0)]
      exact ⟨rfl, hgroup, hsysex, Or.inl ⟨hd0, rfl⟩, Or.inl ⟨hd1, rfl⟩⟩
    · have hreads : Reads g s ⟨some s.d0, []⟩ :=
        ⟨hgroup, hsysex, Or.inr ⟨hs0, hrt0, hsysex0, rfl⟩, Or.inl ⟨hd1, rfl⟩⟩
      have hne : s.d0 ≠ 0 := by
        intro hzero
        rw [hzero] at hs0
        cases hs0
      rw [if_pos hne]
      rcases arity_of_status hs0 hrt0 hsysex0 with ⟨hbyte, harity⟩ | ⟨hbyte, htwo, harity⟩ |
        ⟨hbyte, htwo, harity⟩
      · rw [if_pos hbyte, Elision.Alphabet.append_eq harity,
          convert_eq hgroup]
        exact ⟨rfl, hreads⟩
      · rw [if_neg (by rw [hbyte]; decide), if_pos htwo, Elision.Alphabet.append_eq harity]
        exact ⟨rfl, hgroup, hsysex, Or.inr ⟨hs0, hrt0, hsysex0, rfl⟩,
          Or.inr ⟨hst, rfl, s.d0, rfl, harity⟩⟩
      · rw [if_neg (by rw [hbyte]; decide), if_neg (by rw [htwo]; decide)]
        have happend : alphabet.append ⟨some s.d0, []⟩ b = (⟨some s.d0, []⟩, []) := by
          rcases harity with hnone | hzero
          · simp only [Elision.Alphabet.append, show alphabet.arity s.d0 = none from hnone]
          · rw [Elision.Alphabet.append_eq hzero]
            rfl
        rw [happend]
        exact ⟨rfl, hreads⟩
  · have hne : s.d1 ≠ ToUmp.unknown := by
      intro heq
      rw [heq] at hd1
      cases hd1
    rcases hheader with ⟨-, hnone⟩ | ⟨hs0, hrt0, hsysex0, hsome⟩
    · cases hnone
    · obtain rfl := Option.some.inj hsome
      rw [if_pos hne, Elision.Alphabet.append_eq harity,
        convert_eq hgroup]
      exact ⟨rfl, hgroup, hsysex, Or.inr ⟨hs0, hrt0, hsysex0, rfl⟩, Or.inl ⟨rfl, rfl⟩⟩

theorem agrees_push (h : Reads g s o) {b : Byte} (hb : b ≠ Status.sysexStart.toByte) :
    Agrees g (ToUmp.push ⟨s, []⟩ b) (alphabet.restore.step o b) := by
  have hrestore : alphabet.restore.step o b =
      if isSystemRealTimeMessage b then (o, [⟨b, []⟩])
      else if isStatusByte b then (⟨some b, []⟩, if arity b = some 0 then [⟨b, []⟩] else [])
      else alphabet.append o b := rfl
  rw [hrestore]
  unfold ToUmp.push
  cases hst : isStatusByte b with
  | true =>
      cases hrt : isSystemRealTimeMessage b with
      | true =>
          exact ⟨congrArg Context.output (convert_eq h.group b 0 0), h⟩
      | false => exact agrees_status h hst hrt hb
  | false =>
      have hrt : isSystemRealTimeMessage b = false := alphabet.not_passing_of_data hst
      rw [hrt]
      exact agrees_data h b hst

end Steps

/-- Without system exclusive messages `to_ump` puts the statuses back. -/
theorem decoder_run {g : Nat} {bytes : List Byte}
    (hbytes : ∀ b ∈ bytes, b ≠ Status.sysexStart.toByte) {s : ToUmp.State}
    {o : Elision.Open Byte} (h : Reads g s o) :
    (ToUmp.decoder.run s bytes).2 =
      (alphabet.restore.run o bytes).2.map fun m => ⟨[blockWord g m]⟩ := by
  induction bytes generalizing s o with
  | nil => rfl
  | cons b bytes ih =>
      obtain ⟨hb, hbytes⟩ := List.forall_mem_cons.1 hbytes
      obtain ⟨hout, hreads⟩ := agrees_push h hb
      rw [Machine.run_cons, Machine.run_cons, List.map_append]
      exact congrArg₂ (· ++ ·) hout (ih hbytes hreads)

/-! ## The laws -/

/-- What `to_ump` makes of a byte stream without system exclusive messages. -/
theorem toUmp_run {g : Nat} {bytes : List Byte}
    (hbytes : ∀ b ∈ bytes, b ≠ Status.sysexStart.toByte) :
    ToUmp.run (.create g) bytes = (alphabet.restore.run {} bytes).2.map (blockWord g) := by
  rw [ToUmp.run_eq, decoder_run hbytes (reads_create g), wordsOf, List.flatMap_map]
  exact (List.map_eq_flatMap).symm

/-- What `to_bytestream` makes of the words of messages. -/
theorem toBytestream_run {g : Nat} (hg : g < 2 ^ 4) {ps : List Packet} {ms : List Block}
    (h : List.Forall₂ (Carries g) ps ms) :
    (ToBytestream.run {} (ms.map (blockWord g))).2 = (alphabet.encode.run none ms).2 := by
  have hwords : ms.map (blockWord g) = ps.flatMap Packet.words := by
    induction h with
    | nil => rfl
    | cons hp _ ih => rw [List.map_cons, ih, List.flatMap_cons, hp.words, List.singleton_append]
  rw [hwords, (ToBytestream.run_words {} ps).2,
    encoder_run h (ToBytestream.filterMessage_default hg)]

/-- What is sent for messages of a fixed size is no start of a system exclusive message. -/
theorem encode_ne_sysexStart {ms : List Block} (hms : ∀ m ∈ ms, alphabet.Formed m)
    (s : Option Byte) : ∀ b ∈ (alphabet.encode.run s ms).2, b ≠ Status.sysexStart.toByte := by
  intro b hb
  rw [Elision.Alphabet.encode, Machine.run_blocks] at hb
  obtain ⟨m, hm, hbm⟩ := List.mem_flatMap.1 ((alphabet.elide_sublist _ _).subset hb)
  rintro rfl
  rcases List.mem_cons.1 hbm with hheader | hdata
  · have harity := (hms m hm).arity
    rw [← hheader] at harity
    cases harity
  · have hstatus := (hms m hm).data _ hdata
    cases hstatus

theorem exists_forall₂_carries {g : Nat} (hg : g < 2 ^ 4) {ms : List Block}
    (hms : ∀ m ∈ ms, alphabet.Formed m) : ∃ ps, List.Forall₂ (Carries g) ps ms := by
  induction ms with
  | nil => exact ⟨[], List.Forall₂.nil⟩
  | cons m ms ih =>
      obtain ⟨hm, hms⟩ := List.forall_mem_cons.1 hms
      obtain ⟨ps, hps⟩ := ih hms
      exact ⟨_ :: ps, List.Forall₂.cons (carries_blockWord hg hm) hps⟩

/-- Both translators, one after the other. -/
theorem toUmp_toBytestream {g : Nat} (hg : g < 2 ^ 4) {ms : List Block}
    (hms : ∀ m ∈ ms, alphabet.Formed m) :
    ToUmp.run (.create g) (ToBytestream.run {} (ms.map (blockWord g))).2 =
      (alphabet.dedupe.run none ms).2.map (blockWord g) := by
  obtain ⟨ps, hps⟩ := exists_forall₂_carries hg hms
  have hrestore := alphabet.restore_encode hms none
  rw [toBytestream_run hg hps, toUmp_run (encode_ne_sysexStart hms none)]
  exact congrArg (fun r => r.2.map (blockWord g)) hrestore

/-- A stream without system exclusive messages that went through both translators is a normal
form. -/
theorem normal_form {g : Nat} (hg : g < 2 ^ 4) {bytes : List Byte}
    (hbytes : ∀ b ∈ bytes, b ≠ Status.sysexStart.toByte) :
    (ToBytestream.run {} (ToUmp.run (.create g)
      (ToBytestream.run {} (ToUmp.run (.create g) bytes)).2)).2 =
    (ToBytestream.run {} (ToUmp.run (.create g) bytes)).2 := by
  have hms := alphabet.formed_restore Elision.Alphabet.formed_nil bytes
  have hdedupe : ∀ m ∈ (alphabet.dedupe.run none (alphabet.restore.run {} bytes).2).2,
      alphabet.Formed m := fun m hm => hms m ((alphabet.dedupe_sublist _ _).subset hm)
  obtain ⟨ps, hps⟩ := exists_forall₂_carries hg hms
  obtain ⟨ps', hps'⟩ := exists_forall₂_carries hg hdedupe
  rw [toUmp_run hbytes, toUmp_toBytestream hg hms, toBytestream_run hg hps',
    toBytestream_run hg hps, alphabet.encode_dedupe hms]

/-- Running status with a real time message and a status that is not defined in between. -/
theorem normal_form_interrupted :
    (ToBytestream.run {} (ToUmp.run (.create 3) (ToBytestream.run {} (ToUmp.run (.create 3)
      [0x90, 0x3C, 0x40, 0x3E, 0xF8, 0x41, 0xF9, 0x3E])).2)).2 =
    (ToBytestream.run {} (ToUmp.run (.create 3)
      [0x90, 0x3C, 0x40, 0x3E, 0xF8, 0x41, 0xF9, 0x3E])).2 :=
  normal_form (by decide) (by decide)

def tuneRequest (p : Packet) : Bool :=
  p.message.call.callback == .system .tuneRequest

theorem passing_blockOf (p : Packet) :
    isSystemRealTimeMessage (blockOf p).header = realTime p := by
  unfold blockOf realTime
  cases p.message.call.callback with
  | m1cvm s => exact (channelBlock_header s _).2.2.1
  | _ => rfl

/-- Of the messages that are not real time ones only the tune request has no data. -/
theorem loses_blockOf {g : Nat} {p q : Packet} (hp : OnStream g p) (hq : OnStream g q)
    (hpt : realTime p = false) (hqt : realTime q = false) :
    Elision.Alphabet.Loses (blockOf p) (blockOf q) ↔
      tuneRequest p = true ∧ tuneRequest q = true := by
  have hcases {p : Packet} (hp : OnStream g p) (hrt : realTime p = false) :
      ((blockOf p).header = Status.tuneRequest.toByte ↔ tuneRequest p = true) ∧
      ((blockOf p).data = [] ↔ tuneRequest p = true) := by
    obtain ⟨-, fs, hfs, -⟩ := hp
    unfold blockOf tuneRequest
    unfold realTime at hrt
    cases hcall : p.message.call.callback with
    | system s =>
        rw [hcall] at hrt
        simp only [systemBlock, List.map_eq_nil_iff, beq_iff_eq]
        clear hfs hcall
        cases s <;> (revert hrt; decide)
    | m1cvm s =>
        have hlt := (channelBlock_header s p.message).2.2.2
        have hdata : (channelBlock s p.message).data ≠ [] := by
          cases s <;> exact List.cons_ne_nil _ _
        simp only [beq_iff_eq, reduceCtorEq, iff_false]
        refine ⟨fun heq => ?_, hdata⟩
        rw [heq] at hlt
        exact absurd hlt (by decide)
    | _ =>
        rw [hcall] at hfs
        cases hfs
  obtain ⟨hheader, -⟩ := hcases hp hpt
  obtain ⟨hheader', hdata'⟩ := hcases hq hqt
  constructor
  · rintro ⟨heq, hnil⟩
    have htune := hdata'.1 hnil
    exact ⟨hheader.1 (heq.trans (hheader'.2 htune)), htune⟩
  · rintro ⟨htune, htune'⟩
    exact ⟨(hheader.2 htune).trans (hheader'.2 htune').symm, hdata'.2 htune'⟩

/-- The messages come back if and only if no tune request directly follows another one. -/
theorem keeps_messages {g : Nat} (hg : g < 2 ^ 4) {ps : List Packet}
    (hps : ∀ p ∈ ps, OnStream g p) :
    ToUmp.run (.create g) (ToBytestream.run {} (ps.flatMap Packet.words)).2 =
        ps.flatMap Packet.words ↔
      (ps.filter fun p => !realTime p).IsChain
        fun p q => ¬(tuneRequest p = true ∧ tuneRequest q = true) := by
  have hcarries : ∀ p ∈ ps, Carries g p (blockOf p) :=
    fun p hp => carries_of_onStream hg (hps p hp)
  have hwords : ps.flatMap Packet.words = (ps.map blockOf).map (blockWord g) := by
    rw [List.map_map, List.map_eq_flatMap]
    exact List.flatMap_congr fun p hp => (hcarries p hp).words
  have hformed : ∀ m ∈ ps.map blockOf, alphabet.Formed m := by
    intro m hm
    obtain ⟨p, hp, rfl⟩ := List.mem_map.1 hm
    exact (hcarries p hp).formed
  have hsublist := alphabet.dedupe_sublist none (ps.map blockOf)
  have hmap : (alphabet.dedupe.run none (ps.map blockOf)).2.map (blockWord g) =
      (ps.map blockOf).map (blockWord g) ↔
        (alphabet.dedupe.run none (ps.map blockOf)).2 = ps.map blockOf := by
    refine ⟨fun h => hsublist.eq_of_length ?_, fun h => congrArg _ h⟩
    simpa using congrArg List.length h
  have hfilter : (ps.map blockOf).filter (fun m => !alphabet.passing m.header) =
      (ps.filter fun p => !realTime p).map blockOf := by
    rw [List.filter_map]
    refine congrArg _ (List.filter_congr fun p _ => ?_)
    exact congrArg _ (passing_blockOf p)
  rw [hwords, toUmp_toBytestream hg hformed, hmap, alphabet.dedupe_eq_iff, hfilter,
    List.isChain_map, and_iff_right fun m _ h => Option.some_ne_none _ h.1.symm]
  refine List.IsChain.iff_of_mem_imp fun p q hp hq => not_congr ?_
  obtain ⟨hp, hpt⟩ := List.mem_filter.1 hp
  obtain ⟨hq, hqt⟩ := List.mem_filter.1 hq
  exact loses_blockOf (hps p hp) (hps q hq) (Bool.not_eq_true' _ ▸ hpt) (Bool.not_eq_true' _ ▸ hqt)

/-- Two notes, a tune request, a timing clock and a song select. -/
def mixedMessages : List Packet :=
  [{ message := ⟨[0x20903C40]⟩ }, { message := ⟨[0x20903E41]⟩ }, { message := ⟨[0x10F60000]⟩ },
    { message := ⟨[0x10F80000]⟩ }, { message := ⟨[0x10F30500]⟩ }]

theorem keeps_messages_mixed :
    ToUmp.run (.create 0) (ToBytestream.run {} (mixedMessages.flatMap Packet.words)).2 =
        mixedMessages.flatMap Packet.words ↔
      (mixedMessages.filter fun p => !realTime p).IsChain
        fun p q => ¬(tuneRequest p = true ∧ tuneRequest q = true) :=
  keeps_messages (by decide) (by decide)

/-- Two tune requests come back as one. -/
theorem tuneRequest_lost : ¬∀ g < 2 ^ 4, ∀ ps : List Packet, (∀ p ∈ ps, OnStream g p) →
    ToUmp.run (.create g) (ToBytestream.run {} (ps.flatMap Packet.words)).2 =
      ps.flatMap Packet.words := by
  intro h
  have hsame := h 0 (by decide)
    [{ message := ⟨[0x10F60000]⟩ }, { message := ⟨[0x10F60000]⟩ }] (by decide)
  revert hsame
  decide +kernel

end Midi2.Bytestream
