import Midi2.Bytestream.SecondPass

/-!
# System exclusive messages in any packing

A sender of UMP is free to put fewer than six data bytes in a packet of a system exclusive
message, and real time messages between its packets. `to_bytestream` makes the same bytes of
every packing (`write_packed`), and `to_ump` packs them in its own way. So all messages get
through the two translators as they were, but for tune requests that follow one another, and
each system exclusive message with as few packets as possible (`repacked`).
-/

namespace Midi2.Bytestream

open Adt Ump Chunks

open ToBytestream (encoder)
open ToBytestream.Data64 (sysexStart sysexStop)

/-! ## The items of any packets -/

def labelOf : Mt.Data64 → Label
  | .sysex7In1 => .single
  | .sysex7Start => .first
  | .sysex7Continue => .middle
  | .sysex7End => .last

/-- What a packet is in a byte stream, if it is in it: the messages of other types are not, and
a system exclusive message without data is not. -/
def itemOf? (p : Packet) : Option Item :=
  match p.message.call.callback with
  | .system s => some (.block (systemBlock s p.message))
  | .m1cvm s => some (.block (channelBlock s p.message))
  | .data64 s =>
      let data := ToBytestream.sysexBytes p.message
      if s = .sysex7In1 ∧ data = [] then none else some (.sysex ⟨labelOf s, data⟩)
  | _ => none

theorem sysexBytes_eq_nil_iff (m : Message) :
    ToBytestream.sysexBytes m = [] ↔ m.get Data64.numberOfBytes = 0 := by
  rw [ToBytestream.sysexBytes, List.map_eq_nil_iff, List.take_eq_nil_iff]
  exact or_iff_left (List.cons_ne_nil _ _)

/-- The function for a packet writes the bytes of the item. -/
theorem tokens_itemOf {state : ToBytestream.State} {p : Packet}
    (hfilter : state.filterMessage (p.message.get .group) = false) :
    ToBytestream.tokens state p.message.call =
      (itemOf? p).toList.flatMap (Item.tokens state.status) := by
  unfold itemOf?
  cases hcall : p.message.call.callback with
  | utility s =>
      rw [ToBytestream.tokens, hcall]
      exact ite_self _
  | system s =>
      rw [ToBytestream.tokens, Message.call_eq hcall Callback.noConfusion, hfilter]
      exact (List.flatMap_singleton _ _).symm
  | m1cvm s =>
      rw [ToBytestream.tokens, Message.call_eq hcall Callback.noConfusion, hfilter]
      exact (List.flatMap_singleton _ _).symm
  | data64 s =>
      have hnil := sysexBytes_eq_nil_iff p.message
      rw [ToBytestream.tokens, Message.call_eq hcall Callback.noConfusion, hfilter]
      simp only [Bool.false_eq_true, if_false]
      cases s with
      | sysex7In1 =>
          by_cases hempty : ToBytestream.sysexBytes p.message = []
          · simp only [hempty, ToBytestream.sysexTokens, hnil.1 hempty, and_self, if_true]
            rfl
          · have hpos : p.message.get Data64.numberOfBytes > 0 :=
              Nat.pos_of_ne_zero fun h => hempty (hnil.2 h)
            simp only [hempty, ToBytestream.sysexTokens, hpos, and_false, if_true, if_false]
            refine Eq.trans ?_ (List.flatMap_singleton _ _).symm
            exact (if_neg hempty).symm
      | _ => exact (List.flatMap_singleton _ _).symm
  | _ =>
      rw [ToBytestream.tokens, hcall]
      exact ite_self _

/-- Without a group filter, `to_bytestream` is a writer of the items of any packets. -/
theorem encoder_items {state : ToBytestream.State} (hfilter : state.onlyGroups = 0xFFFF)
    (ps : List Packet) :
    (encoder.run state ps).2 = (writer.run state.status (ps.filterMap itemOf?)).2 := by
  induction ps generalizing state with
  | nil => rfl
  | cons p ps ih =>
      have hgroup : state.filterMessage (p.message.get .group) = false := by
        rw [ToBytestream.State.filterMessage, hfilter]
        exact ToBytestream.filterMessage_default (p.message.get_lt .group)
      have htokens := tokens_itemOf hgroup
      rw [Machine.run_cons, @ih (encoder.step state p).1 hfilter]
      simp only [encoder, htokens]
      cases hitem : itemOf? p with
      | none =>
          rw [List.filterMap_cons_none hitem]
          rfl
      | some i =>
          rw [List.filterMap_cons_some hitem, Machine.run_cons]
          simp only [Option.toList_some, List.flatMap_singleton]
          rfl

/-! ## Messages and their packings -/

/-- A message of a stream. The bytes of a system exclusive message are data and real time
messages. -/
inductive Part where
  | block (m : Block)
  | sysex (inside : List Byte)

/-- A packet between the first and the last one of a system exclusive message. -/
inductive Between : Item → List Byte → Prop where
  | middle {data} : (∀ b ∈ data, isStatusByte b = false) → Between (.sysex ⟨.middle, data⟩) data
  | realTime {b} : isSystemRealTimeMessage b = true → Between (.block ⟨b, []⟩) [b]

/-- The items are a message. A packet of a system exclusive message may have any number of data
bytes, but one that is alone has to have some. -/
inductive Packed : Part → List Item → Prop where
  | block {m} : alphabet.Formed m → Packed (.block m) [.block m]
  | single {data} : (∀ b ∈ data, isStatusByte b = false) → data ≠ [] →
      Packed (.sysex data) [.sysex ⟨.single, data⟩]
  | multiple {first last between inner} : (∀ b ∈ first, isStatusByte b = false) →
      (∀ b ∈ last, isStatusByte b = false) → List.Forall₂ Between between inner →
      Packed (.sysex (first ++ inner.flatten ++ last))
        (.sysex ⟨.first, first⟩ :: (between ++ [.sysex ⟨.last, last⟩]))

/-- The bytes of the messages, of which a repeated status is left out. -/
def carry : Machine Part Byte (Option Byte) where
  step status
    | .block m => alphabet.encode.step status m
    | .sysex inside => (some sysexStop, sysexStart :: (inside ++ [sysexStop]))

/-- The messages that get through: a tune request is lost if it is the status already. -/
def kept : Machine Part Part (Option Byte) where
  step status
    | .block m =>
        ((alphabet.dedupe.step status m).1, (alphabet.dedupe.step status m).2.map .block)
    | .sysex inside => (some sysexStop, [.sysex inside])

/-! ## Writing -/

theorem write_inside {is : List Item} {inner : List (List Byte)}
    (h : List.Forall₂ Between is inner) :
    writer.run (some sysexStart) is = (some sysexStart, inner.flatten) := by
  induction h with
  | nil => rfl
  | @cons i bytes is inner hi _ ih =>
      have hstep : writer.step (some sysexStart) i = (some sysexStart, bytes) := by
        cases hi with
        | middle hdata => exact write_middle hdata
        | realTime hrt =>
            have hwrite := @write_realTime (some sysexStart) _ hrt
            rwa [Machine.run_singleton] at hwrite
      rw [Machine.run_cons, hstep, ih]
      rfl

/-- The bytes of a message do not depend on its packing. -/
theorem write_packed {part : Part} {is : List Item} (h : Packed part is) {status : Option Byte}
    (hstatus : status ≠ some sysexStart) :
    writer.run status is = carry.step status part ∧
      (carry.step status part).1 ≠ some sysexStart := by
  cases h with
  | @block m hm =>
      have hformed : ∀ m' ∈ [m], alphabet.Formed m' := List.forall_mem_singleton.2 hm
      have hwrite := write_blocks status [m]
      have hnext := status_blocks hformed hstatus
      rw [Machine.run_singleton] at hwrite
      rw [hwrite] at hnext
      exact ⟨hwrite, hnext⟩
  | single hdata hne =>
      refine ⟨?_, sysexStop_ne⟩
      rw [Machine.run_singleton]
      exact write_single hdata hne hstatus
  | @multiple first last between inner hfirst hlast hbetween =>
      refine ⟨?_, sysexStop_ne⟩
      rw [Machine.run_cons, write_first hfirst hstatus, Machine.run_append,
        write_inside hbetween, Machine.run_singleton, write_last hlast]
      simp only [carry, List.cons_append, List.append_assoc]

theorem write_parts {parts : List Part} {iss : List (List Item)}
    (h : List.Forall₂ Packed parts iss) {status : Option Byte}
    (hstatus : status ≠ some sysexStart) :
    writer.run status iss.flatten = carry.run status parts := by
  induction h generalizing status with
  | nil => rfl
  | cons hpart _ ih =>
      obtain ⟨hwrite, hnext⟩ := write_packed hpart hstatus
      rw [List.flatten_cons, Machine.run_append, hwrite, ih hnext, Machine.run_cons]

/-! ## Reading -/

/-- The items that the reader makes of a message. -/
inductive Repacked : Part → List Item → Prop where
  | block {m} : Repacked (.block m) [.block m]
  | sysex {inside is} : is.filterMap Item.chunk? = chunks 6 (dataOf inside) →
      is.filterMap Item.block? = (inside.filter isSystemRealTimeMessage).map (fun b => ⟨b, []⟩) →
      Repacked (.sysex inside) is

theorem Packed.within {inside : List Byte} {is : List Item} (h : Packed (.sysex inside) is) :
    ∀ b ∈ inside, Within b := by
  have hdata {data : List Byte} (h : ∀ b ∈ data, isStatusByte b = false) : ∀ b ∈ data, Within b :=
    fun b hb => Or.inl (h b hb)
  cases h with
  | single hd => exact hdata hd
  | @multiple first last between inner hfirst hlast hbetween =>
      have hinner : ∀ b ∈ inner.flatten, Within b := by
        clear hfirst hlast
        induction hbetween with
        | nil => exact List.forall_mem_nil _
        | cons hi _ ih =>
            refine List.forall_mem_append.2 ⟨?_, ih⟩
            cases hi with
            | middle hd => exact hdata hd
            | realTime hrt => exact List.forall_mem_singleton.2 (Or.inr hrt)
      exact List.forall_mem_append.2
        ⟨List.forall_mem_append.2 ⟨hdata hfirst, hinner⟩, hdata hlast⟩

theorem read_packed {part : Part} {is : List Item} (h : Packed part is) (status : Option Byte) :
    ∃ iss, reader.run (.message ⟨status, []⟩) (carry.step status part).2 =
        (.message ⟨(carry.step status part).1, []⟩, iss.flatten) ∧
      List.Forall₂ Repacked (kept.step status part).2 iss ∧
      (kept.step status part).1 = (carry.step status part).1 := by
  cases part with
  | block m =>
      cases h with
      | block hm =>
          have hread := @run_message (alphabet.encode.step status m).2 ?_ ⟨status, []⟩
          case refine_1 =>
            have hne := encode_ne_sysexStart (List.forall_mem_singleton.2 hm) status
            rwa [Machine.run_singleton] at hne
          rw [Elision.Alphabet.restore_encode_step hm] at hread
          refine ⟨(alphabet.dedupe.step status m).2.map fun m => [.block m], ?_, ?_,
            Elision.Alphabet.dedupe_state hm status⟩
          · rw [← List.flatMap_def, ← List.map_eq_flatMap]
            exact hread
          · show List.Forall₂ Repacked ((alphabet.dedupe.step status m).2.map .block) _
            rw [List.forall₂_map_left_iff, List.forall₂_map_right_iff]
            exact List.forall₂_same.2 fun _ _ => .block
  | sysex inside =>
      have hnext : readMessage {} sysexStop = (.message ⟨some sysexStop, []⟩, []) := rfl
      obtain ⟨out, hrun, hchunks, hblocks⟩ := @run_sysex ⟨status, []⟩ inside h.within sysexStop rfl
        rfl
      refine ⟨[out], ?_, .cons (.sysex hchunks hblocks) .nil, rfl⟩
      rw [hnext] at hrun
      rwa [List.flatten_singleton, ← List.append_nil out]

theorem read_parts {parts : List Part} {iss : List (List Item)}
    (h : List.Forall₂ Packed parts iss) (status : Option Byte) :
    ∃ iss, (reader.run (.message ⟨status, []⟩) (carry.run status parts).2).2 = iss.flatten ∧
      List.Forall₂ Repacked (kept.run status parts).2 iss := by
  induction h generalizing status with
  | nil => exact ⟨[], rfl, .nil⟩
  | @cons part is parts iss hpart _ ih =>
      obtain ⟨iss, hread, hkept, hstatus⟩ := read_packed hpart status
      obtain ⟨iss', hread', hkept'⟩ := ih (carry.step status part).1
      refine ⟨iss ++ iss', ?_, ?_⟩
      · rw [Machine.run_cons, Machine.run_append, hread, hread', List.flatten_append]
      · rw [Machine.run_cons, hstatus]
        exact List.rel_append hkept hkept'

/-! ## The two translators -/

/-- The packets are the message: its word, or a system exclusive message in as few packets as
possible. -/
inductive Delivered (g : Nat) : Part → List Packet → Prop where
  | block {m p} : p.words = [blockWord g m] → Delivered g (.block m) [p]
  | sysex {inside ps} : Extracts g inside ps → Delivered g (.sysex inside) ps

theorem forall₂_flatten {α β : Type} {R : α → β → Prop} {xs : List α} {yss : List (List β)}
    (h : List.Forall₂ R xs yss.flatten) :
    ∃ xss, xs = xss.flatten ∧ List.Forall₂ (List.Forall₂ R) xss yss := by
  induction yss generalizing xs with
  | nil => exact ⟨[], List.forall₂_nil_right_iff.1 h, .nil⟩
  | cons ys yss ih =>
      obtain ⟨xss, hxss, hrest⟩ := ih (List.forall₂_drop_append _ _ _ h)
      refine ⟨xs.take ys.length :: xss, ?_, .cons (List.forall₂_take_append _ _ _ h) hrest⟩
      rw [List.flatten_cons, ← hxss, List.take_append_drop]

theorem delivered_packs {g : Nat} (hg : g < 2 ^ 4) {part : Part} {is : List Item} {ps : List Packet}
    (hread : Repacked part is) (h : List.Forall₂ (Packs g) ps is) : Delivered g part ps := by
  cases hread with
  | block =>
      obtain ⟨p, rest, hp, hnil, rfl⟩ := List.forall₂_cons_right_iff.1 h
      rw [List.forall₂_nil_right_iff.1 hnil]
      exact .block (hp.carries hg).words
  | sysex hchunks hblocks => exact .sysex (extracts_packs hg h hchunks hblocks)

theorem delivered_parts {g : Nat} (hg : g < 2 ^ 4) {parts : List Part} {iss : List (List Item)}
    {pss : List (List Packet)} (hread : List.Forall₂ Repacked parts iss)
    (h : List.Forall₂ (List.Forall₂ (Packs g)) pss iss) :
    List.Forall₂ (Delivered g) parts pss := by
  induction hread generalizing pss with
  | nil =>
      rw [List.forall₂_nil_right_iff.1 h]
      exact .nil
  | cons hpart _ ih =>
      obtain ⟨ps, pss, hps, hrest, rfl⟩ := List.forall₂_cons_right_iff.1 h
      exact .cons (delivered_packs hg hpart hps) (ih hrest)

/-- However its system exclusive messages are packed, a stream makes the bytes of its messages,
and what `to_ump` makes of these are the messages again, with every system exclusive message in
as few packets as possible, but for tune requests that are lost (`kept`). -/
theorem repacked {g : Nat} (hg : g < 2 ^ 4) {ps : List Packet} {parts : List Part}
    {iss : List (List Item)} (hitems : ps.filterMap itemOf? = iss.flatten)
    (hparts : List.Forall₂ Packed parts iss) :
    (ToBytestream.run {} (ps.flatMap Packet.words)).2 = (carry.run none parts).2 ∧
    ∃ pss, packetsOf (ToUmp.run (.create g) (ToBytestream.run {} (ps.flatMap Packet.words)).2) =
        pss.flatten ∧
      List.Forall₂ (Delivered g) (kept.run none parts).2 pss := by
  have hbytes : (ToBytestream.run {} (ps.flatMap Packet.words)).2 = (carry.run none parts).2 := by
    rw [(ToBytestream.run_words {} ps).2, encoder_items rfl, hitems,
      write_parts hparts (Option.some_ne_none _).symm]
  refine ⟨hbytes, ?_⟩
  obtain ⟨iss', hread, hkept⟩ := read_parts hparts none
  have hpacks := (packs_toUmp hg (carry.run none parts).2).2
  rw [show itemsOf (carry.run none parts).2 = _ from hread] at hpacks
  obtain ⟨pss, hpss, hall⟩ := forall₂_flatten hpacks
  exact ⟨pss, by rw [hbytes, hpss], delivered_parts hg hkept hall⟩

/-- A note on, and a system exclusive message of five bytes in two packets, with a timing clock
between them. -/
theorem repacked_short :
    (ToBytestream.run {} ([{ message := ⟨[0x20903C40]⟩ }, { message := ⟨[0x30120102, 0]⟩ },
        { message := ⟨[0x10F80000]⟩ }, { message := ⟨[0x30330304, 0x05000000]⟩ }].flatMap
          Packet.words)).2 =
      (carry.run none [.block ⟨0x90, [0x3C, 0x40]⟩,
        .sysex [0x01, 0x02, 0xF8, 0x03, 0x04, 0x05]]).2 ∧
    ∃ pss, packetsOf (ToUmp.run (.create 5) (ToBytestream.run {} (
        [{ message := ⟨[0x20903C40]⟩ }, { message := ⟨[0x30120102, 0]⟩ },
          { message := ⟨[0x10F80000]⟩ }, { message := ⟨[0x30330304, 0x05000000]⟩ }].flatMap
            Packet.words)).2) = pss.flatten ∧
      List.Forall₂ (Delivered 5) (kept.run none
        [.block ⟨0x90, [0x3C, 0x40]⟩, .sysex [0x01, 0x02, 0xF8, 0x03, 0x04, 0x05]]).2 pss :=
  @repacked 5 (by decide) _ _ [[.block ⟨0x90, [0x3C, 0x40]⟩], [.sysex ⟨.first, [0x01, 0x02]⟩,
      .block ⟨0xF8, []⟩, .sysex ⟨.last, [0x03, 0x04, 0x05]⟩]] rfl
    (.cons (.block (by decide)) (.cons (@Packed.multiple [0x01, 0x02] [0x03, 0x04, 0x05]
      [.block ⟨0xF8, []⟩] [[0xF8]] (by decide) (by decide) (.cons (.realTime rfl) .nil)) .nil))

end Midi2.Bytestream
