import Midi2.Bytestream.Grammar
import Midi2.Ump.Unpaired

/-!
# A MIDI 2.0 link between two cables

A byte stream can be carried over a link that knows MIDI 2.0 only: `to_ump` makes packets of the
bytes, `ump_to_midi2` upgrades them, and at the other end `to_midi1` and `to_bytestream` do the
reverse. The bytes may be any at all.

What is on the link is well formed and has no MIDI 1.0 channel voice message in it; the rest is
what `to_ump` sent (`upLink_wellFormed`). What comes out at the other end is what went in, but for
the control changes that select or set halves of something; without these, the bytes are those of
`to_ump` and `to_bytestream` alone (`carried_back`).
-/

namespace Midi2.Bytestream

open Adt Ump

/-- The words on the link, for the bytes of a cable. -/
def upLink (g : Nat) (bytes : List Byte) : List Word :=
  (ToMidi2.translator.run (.create g) (ToUmp.run (.create g) bytes)).2

/-- The words of MIDI 1.0 at the other end of the link. -/
def downLink (ws : List Word) : List Word :=
  (ToMidi1.translator.run {} ws).2

/-- Whole messages of the group, of those types that have no other one in MIDI 2.0. -/
structure WellFormedMidi2 (g : Nat) (ws : List Word) : Prop where
  parses : Parses ws
  known : ∀ p ∈ packetsOf ws, p.message.Known
  group : ∀ p ∈ packetsOf ws, p.message.get .group = g
  type : ∀ p ∈ packetsOf ws,
    p.message.type = .system ∨ p.message.type = .m2cvm ∨ p.message.type = .data64

/-! ## What `to_ump` sends -/

/-- The bits above the data bytes are zero, and so is the place of a data byte that there is
not. -/
theorem spare_blockWord {g : Nat} (hg : g < 2 ^ 4) {m : Block} (hm : alphabet.Formed m) :
    (blockWord g m).toNat / 2 ^ 15 % 2 ^ 1 = 0 ∧ (blockWord g m).toNat / 2 ^ 7 % 2 ^ 1 = 0 ∧
      (m.data.length ≤ 1 → (blockWord g m).toNat / 2 ^ 0 % 2 ^ 8 = 0) := by
  have hword := toNat_blockWord hg m
  have h0 := gathered_lt hm.data 0
  have h1 := gathered_lt hm.data 1
  rw [gathered] at h0 h1
  refine ⟨by omega, by omega, fun hlen => ?_⟩
  rw [List.getD_eq_default _ _ hlen] at hword
  have hzero : (0 : Byte).toNat = 0 := rfl
  omega

/-- The unused bits of a channel voice message are among these. -/
theorem clean_blockWord {g : Nat} (hg : g < 2 ^ 4) {m : Block} (hm : alphabet.Formed m)
    {s : Mt.M1cvm} (hs : channelBlock s ⟨[blockWord g m]⟩ = m) :
    M1cvm.Clean s ⟨[blockWord g m]⟩ := by
  obtain ⟨h15, h7, hlow⟩ := spare_blockWord hg hm
  have hlen : m.data.length = (channelData s).length := by
    rw [← hs, channelBlock, List.length_map]
  unfold M1cvm.Clean
  cases s with
  | noteOff | noteOn | polyPressure | cc | pitchBend =>
      refine List.forall_mem_cons.2 ⟨?_, List.forall_mem_singleton.2 ?_⟩
      · rw [get_singleton _ rfl]
        exact h15
      · rw [get_singleton _ rfl]
        exact h7
  | programChange | channelPressure =>
      refine List.forall_mem_cons.2 ⟨?_, List.forall_mem_singleton.2 ?_⟩
      · rw [get_singleton _ rfl]
        exact h15
      · rw [get_singleton _ rfl]
        exact hlow (Nat.le_of_eq hlen)

section Packs

variable {g : Nat} {p : Packet} {i : Item}

theorem Packs.midi1 (h : Packs g p i) (hg : g < 2 ^ 4) : p.IsMidi1 := by
  obtain ⟨hi, hp⟩ := h
  unfold Packet.IsMidi1
  rw [hp]
  cases i with
  | block m =>
      rcases (call_blockWord hg hi).2 with ⟨-, s, hcall, -⟩ | ⟨-, s, hcall, -⟩
      · exact Or.inl (by rw [Item.message, hcall]; rfl)
      · exact Or.inr (Or.inl (by rw [Item.message, hcall]; rfl))
  | sysex c => exact Or.inr (Or.inr (by rw [Item.message, call_sysexMessage]; rfl))

/-- All that `to_ump` sends can be translated up and down. -/
theorem Packs.plain (h : Packs g p i) (hg : g < 2 ^ 4) : p.Plain := by
  refine ⟨h.midi1 hg, ?_⟩
  obtain ⟨hi, hp⟩ := h
  rw [hp]
  intro s hs
  cases i with
  | block m =>
      rw [Item.message] at hs ⊢
      rcases (call_blockWord hg hi).2 with ⟨-, s', hcall, -⟩ | ⟨-, s', hcall, hblock⟩
      · rw [hcall] at hs
        cases hs
      · rw [hcall] at hs
        cases hs
        exact clean_blockWord hg hi hblock
  | sysex c =>
      rw [Item.message, call_sysexMessage] at hs
      cases hs

end Packs

theorem plain_toUmp {g : Nat} (hg : g < 2 ^ 4) (bytes : List Byte) :
    ∀ p ∈ packetsOf (ToUmp.run (.create g) bytes), p.Plain := by
  intro p hp
  obtain ⟨i, hi⟩ := exists_packs (packs_toUmp hg bytes).2 p hp
  exact hi.plain hg

/-! ## On the link -/

/-- A packet of MIDI 1.0 is passed on, or upgraded to messages that stay on its channel. -/
theorem upgraded_step {p : Packet} (h : p.IsMidi1) (s : ToMidi2.State) :
    (p.message.type ≠ .m1cvm ∧ p.message.type ≠ .m2cvm ∧
        (ToMidi2.translator.translation.step s p).2 = [p]) ∨
      p.message.type = .m1cvm ∧ ∀ q ∈ (ToMidi2.translator.translation.step s p).2,
        q.message.type = .m2cvm ∧ q.message.Known := by
  rcases h.cases with ⟨status, hcall⟩ | ⟨hpassed, htype⟩
  · have hm1cvm : p.message.type = .m1cvm := Message.type_of_call (by rw [hcall]; rfl)
    refine Or.inr ⟨hm1cvm, fun q hq => ?_⟩
    have hmem := Translator.message_of_mem_step hq
    rcases ToMidi2.messages_cases p s with ⟨hpassed, -⟩ | hnone | ⟨status', m, hone, his⟩
    · exact absurd hm1cvm hpassed.2.2
    · rw [hnone] at hmem
      exact absurd hmem List.not_mem_nil
    · rw [hone] at hmem
      rw [← List.mem_singleton.1 hmem] at his
      exact ⟨his.type, (ToMidi2.passedOn_of_is his).1⟩
  · exact Or.inl ⟨hpassed.2.2, htype, congrArg Prod.snd (ToMidi2.step_passedOn hpassed s)⟩

theorem upgraded_run (s : ToMidi2.State) {ps : List Packet} (hps : ∀ p ∈ ps, p.IsMidi1) :
    (∀ q ∈ (ToMidi2.translator.translation.run s ps).2, ∃ p ∈ ps,
      q.address.1 = p.address.1 ∧ (q = p ∧ p.message.type ≠ .m1cvm ∨
        q.message.type = .m2cvm ∧ q.message.Known)) ∧
    (ToMidi2.translator.translation.run s ps).2.filter (fun q => q.message.type ≠ .m2cvm) =
      ps.filter fun p => p.message.type ≠ .m1cvm := by
  induction ps generalizing s with
  | nil => exact ⟨List.forall_mem_nil _, rfl⟩
  | cons p ps ih =>
      obtain ⟨hp, hrest⟩ := List.forall_mem_cons.1 hps
      obtain ⟨hall, hfilter⟩ := ih (ToMidi2.translator.translation.step s p).1 hrest
      have haddress := ToMidi2.address_step s p
      rw [Machine.run_cons]
      constructor
      · refine List.forall_mem_append.2 ⟨fun q hq => ?_, fun q hq => ?_⟩
        · refine ⟨p, List.mem_cons_self, congrArg Prod.fst (haddress q hq), ?_⟩
          rcases upgraded_step hp s with ⟨hm1cvm, -, hsame⟩ | ⟨-, hup⟩
          · rw [hsame] at hq
            exact Or.inl ⟨List.mem_singleton.1 hq, hm1cvm⟩
          · exact Or.inr (hup q hq)
        · obtain ⟨p', hp', hq'⟩ := hall q hq
          exact ⟨p', List.mem_cons_of_mem p hp', hq'⟩
      · rw [List.filter_append, hfilter]
        rcases upgraded_step hp s with ⟨hm1cvm, hm2cvm, hsame⟩ | ⟨hm1cvm, hup⟩
        · rw [hsame, List.filter_cons_of_pos (by rwa [decide_eq_true_eq]),
            List.filter_cons_of_pos (by rwa [decide_eq_true_eq])]
          rfl
        · have hnone : (ToMidi2.translator.translation.step s p).2.filter
              (fun q => q.message.type ≠ .m2cvm) = [] := by
            refine List.filter_eq_nil_iff.2 fun q hq => ?_
            rw [decide_eq_true_eq, not_not]
            exact (hup q hq).1
          rw [hnone, List.nil_append, List.filter_cons_of_neg]
          rw [decide_eq_true_eq, not_not]
          exact hm1cvm

theorem packets_upLink (g : Nat) (bytes : List Byte) :
    Parses (upLink g bytes) ∧ packetsOf (upLink g bytes) =
      (ToMidi2.translator.translation.run (.create g)
        (packetsOf (ToUmp.run (.create g) bytes))).2 := by
  have hrun := (ToMidi2.translator.run_packetsOf (.create g) (ToUmp.run (.create g) bytes)).2
  rw [upLink, hrun]
  exact ⟨⟨_, rfl⟩, packetsOf_words _⟩

/-- Whatever the bytes, the link carries whole messages of MIDI 2.0, and what is not of a channel
is what `to_ump` sent. -/
theorem upLink_wellFormed {g : Nat} (hg : g < 2 ^ 4) (bytes : List Byte) :
    WellFormedMidi2 g (upLink g bytes) ∧
      (packetsOf (upLink g bytes)).filter (fun p => p.message.type ≠ .m2cvm) =
        (packetsOf (ToUmp.run (.create g) bytes)).filter fun p => p.message.type ≠ .m1cvm := by
  obtain ⟨hparses, hpackets⟩ := packets_upLink g bytes
  have hplain := plain_toUmp hg bytes
  obtain ⟨hall, hfilter⟩ := upgraded_run (.create g) fun p hp => (hplain p hp).midi1
  have hproper := (toUmp_wellFormed hg bytes).proper
  rw [← hpackets] at hall hfilter
  refine ⟨⟨hparses, fun q hq => ?_, fun q hq => ?_, fun q hq => ?_⟩, hfilter⟩
  · obtain ⟨p, hp, -, ⟨rfl, -⟩ | ⟨-, hknown⟩⟩ := hall q hq
    · exact (hproper q hp).known
    · exact hknown
  · obtain ⟨p, hp, haddress, -⟩ := hall q hq
    exact haddress.trans (hproper p hp).group
  · obtain ⟨p, hp, -, ⟨rfl, hm1cvm⟩ | ⟨hm2cvm, -⟩⟩ := hall q hq
    · rcases (hproper q hp).type with h | h | h
      · exact Or.inl h
      · exact absurd h hm1cvm
      · exact Or.inr (Or.inr h)
    · exact Or.inr (Or.inl hm2cvm)

/-- A status in a system exclusive message, and a controller. -/
theorem upLink_wellFormed_broken :
    WellFormedMidi2 3 (upLink 3 [0xF0, 0x01, 0x02, 0xB4, 0x07, 0x7F, 0x3C]) ∧
      (packetsOf (upLink 3 [0xF0, 0x01, 0x02, 0xB4, 0x07, 0x7F, 0x3C])).filter
          (fun p => p.message.type ≠ .m2cvm) =
        (packetsOf (ToUmp.run (.create 3) [0xF0, 0x01, 0x02, 0xB4, 0x07, 0x7F, 0x3C])).filter
          fun p => p.message.type ≠ .m1cvm :=
  upLink_wellFormed (by decide) _

/-! ## At the other end -/

theorem packets_downLink (g : Nat) (bytes : List Byte) :
    downLink (upLink g bytes) =
      ((ToMidi2.translator.translation.andThen ToMidi1.translator.translation).run (.create g, {})
        (packetsOf (ToUmp.run (.create g) bytes))).2.flatMap Packet.words := by
  have hup := (packets_upLink g bytes).2
  have hdown := (ToMidi1.translator.run_packetsOf {} (upLink g bytes)).2
  rw [downLink, hdown, hup, Machine.run_andThen]

/-- Whatever the bytes, the messages at the other end are those that `to_ump` sent, but for paired
control changes, and a receiver hears the same program changes with the same banks, but for those
of which a half was never selected. Without paired control changes the bytes are those of `to_ump`
and `to_bytestream`. -/
theorem carried_back {g : Nat} (hg : g < 2 ^ 4) (bytes : List Byte) :
    (framesOf (downLink (upLink g bytes))).filter (fun m => ¬m.Paired) =
        (framesOf (ToUmp.run (.create g) bytes)).filter (fun m => ¬m.Paired) ∧
    Ump.heard (downLink (upLink g bytes)) =
      (Ump.heard (ToUmp.run (.create g) bytes)).map Program.whole ∧
    ((∀ m ∈ framesOf (ToUmp.run (.create g) bytes), ¬m.Paired) →
      (ToBytestream.run {} (downLink (upLink g bytes))).2 =
        (ToBytestream.run {} (ToUmp.run (.create g) bytes)).2) := by
  have hplain := plain_toUmp hg bytes
  have hwords := words_packetsOf (ToUmp.run (.create g) bytes)
  have hrest := (parses_iff _).1 (toUmp_wellFormed hg bytes).parses
  have hframes := message_packetsOf (ToUmp.run (.create g) bytes)
  have hdown := packets_downLink g bytes
  rw [hrest, List.append_nil] at hwords
  have hback : framesOf (downLink (upLink g bytes)) =
      ((ToMidi2.translator.translation.andThen ToMidi1.translator.translation).run (.create g, {})
        (packetsOf (ToUmp.run (.create g) bytes))).2.map Packet.message := by
    rw [hdown, ← message_packetsOf, packetsOf_words]
  refine ⟨?_, ?_, fun hpaired => ?_⟩
  · rw [hback, filter_run_bounce _ _ hplain, hframes]
  · have htype : ∀ p ∈ packetsOf (ToUmp.run (.create g) bytes), p.message.type ≠ .m2cvm := by
      intro p hp h
      rcases ((toUmp_wellFormed hg bytes).proper p hp).type with ht | ht | ht
      · rw [ht] at h; cases h
      · rw [ht] at h; cases h
      · rw [ht] at h; cases h
    rw [Ump.heard, Ump.heard, hback, ← hframes]
    exact (follows_create g).run {} htype
  · have hunpaired : ∀ p ∈ packetsOf (ToUmp.run (.create g) bytes),
        p.Plain ∧ ¬p.message.Paired := by
      intro p hp
      refine ⟨hplain p hp, hpaired _ ?_⟩
      rw [← hframes]
      exact List.mem_map_of_mem hp
    rw [hdown, run_unpaired (fun _ _ => rfl) {} hunpaired, hwords]

/-- Notes with running status, a clock between them, and a system exclusive message. -/
theorem carried_back_notes :
    (ToBytestream.run {} (downLink (upLink 3
      [0x94, 0x3C, 0x64, 0x3E, 0xF8, 0x64, 0xF0, 0x01, 0x02, 0xF7]))).2 =
      [0x94, 0x3C, 0x64, 0xF8, 0x3E, 0x64, 0xF0, 0x01, 0x02, 0xF7] :=
  ((carried_back (g := 3) (by decide)
    [0x94, 0x3C, 0x64, 0x3E, 0xF8, 0x64, 0xF0, 0x01, 0x02, 0xF7]).2.2 (by decide +kernel)).trans
      (by decide +kernel)

end Midi2.Bytestream
