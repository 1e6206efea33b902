import Midi2.Bytestream.Items
import Midi2.Bytestream.RunningStatus

/-!
# What `to_bytestream` makes of the items

The opposite of `reader`: `writer` gets the items that a byte stream consists of and writes the
bytes. A part of a system exclusive message brings F0 if it is the first one, and F7 if it is
the last one, and the statuses that are repeated are left out. `to_bytestream` does this with
packets of the items (`encoder_writer`). Of a system exclusive message that has been cut, the
parts come out as one again (`write_chunks`).
-/

namespace Midi2.Bytestream

open Adt Ump Chunks

open ToBytestream (encoder)
open ToBytestream.Data64 (sysexStart sysexStop)

/-! ## The writer -/

/-- The bytes of an item, with its status. Parts of a system exclusive message without the first
one are skipped, and so is one without data. -/
def Item.tokens (status : Option Byte) : Item → List Byte
  | block m => m.tokens
  | sysex ⟨.single, data⟩ => if data = [] then [] else sysexStart :: (data ++ [sysexStop])
  | sysex ⟨.first, data⟩ => sysexStart :: data
  | sysex ⟨.middle, data⟩ => if status = some sysexStart then data else []
  | sysex ⟨.last, data⟩ => if status = some sysexStart then data ++ [sysexStop] else []

def writer : Machine Item Byte (Option Byte) where
  step status i := alphabet.elide.run status (i.tokens status)

/-! ## The code is a writer -/

section Packs

variable {g : Nat} {p : Packet} {i : Item}

/-- The bytes that `to_bytestream` writes for a packet. -/
theorem tokens_packs (hg : g < 2 ^ 4) (h : Packs g p i) {state : ToBytestream.State}
    (hfilter : state.filterMessage g = false) :
    ToBytestream.tokens state p.message.call = i.tokens state.status := by
  cases i with
  | block m => exact (h.carries hg).tokens state hfilter
  | sysex c =>
      have hgroup := group_sysexMessage hg h.formed
      have hbytes := sysexBytes_sysexMessage hg h.formed
      have hnumber := numberOfBytes_sysexMessage hg h.formed
      rw [h.message, Item.message, call_sysexMessage, ToBytestream.tokens, hgroup, hfilter,
        if_neg Bool.false_ne_true]
      simp only [ToBytestream.sysexTokens, hbytes, hnumber]
      obtain ⟨_ | _ | _ | _, data⟩ := c
      · cases data with
        | nil => rfl
        | cons b data => rfl
      · rfl
      · rfl
      · rfl

end Packs

/-- `to_bytestream` is a writer. -/
theorem encoder_writer {g : Nat} (hg : g < 2 ^ 4) {ps : List Packet} {is : List Item}
    (h : List.Forall₂ (Packs g) ps is) {state : ToBytestream.State}
    (hfilter : state.filterMessage g = false) :
    (encoder.run state ps).2 = (writer.run state.status is).2 := by
  refine encoder_run_forall₂ h fun {status p i} hp => ?_
  rw [@tokens_packs _ _ _ hg hp { state with status := status } hfilter]
  rfl

/-! ## System exclusive messages -/

theorem elide_stop {data : List Byte} (hdata : ∀ b ∈ data, isStatusByte b = false) :
    alphabet.elide.run (some sysexStart) (data ++ [sysexStop]) =
      (some sysexStop, data ++ [sysexStop]) := by
  have hrun : alphabet.elide.run (some sysexStart) data = (some sysexStart, data) :=
    Elision.Alphabet.elide_data _ hdata
  rw [Machine.run_append, hrun]
  rfl

theorem write_single {data : List Byte} (hdata : ∀ b ∈ data, isStatusByte b = false)
    (hne : data ≠ []) {status : Option Byte} (hstatus : status ≠ some sysexStart) :
    writer.step status (.sysex ⟨.single, data⟩) =
      (some sysexStop, sysexStart :: (data ++ [sysexStop])) := by
  show alphabet.elide.run status
    (if data = [] then [] else sysexStart :: (data ++ [sysexStop])) = _
  rw [if_neg hne, ToBytestream.elide_sysexStart, if_neg hstatus, elide_stop hdata]
  rfl

theorem write_first {data : List Byte} (hdata : ∀ b ∈ data, isStatusByte b = false)
    {status : Option Byte} (hstatus : status ≠ some sysexStart) :
    writer.step status (.sysex ⟨.first, data⟩) = (some sysexStart, sysexStart :: data) := by
  show alphabet.elide.run status (sysexStart :: data) = _
  rw [ToBytestream.elide_sysexStart, if_neg hstatus, Elision.Alphabet.elide_data _ hdata]
  rfl

theorem write_middle {data : List Byte} (hdata : ∀ b ∈ data, isStatusByte b = false) :
    writer.step (some sysexStart) (.sysex ⟨.middle, data⟩) = (some sysexStart, data) := by
  show alphabet.elide.run _ (if some sysexStart = some sysexStart then data else []) = _
  rw [if_pos rfl, Elision.Alphabet.elide_data _ hdata]

theorem write_last {data : List Byte} (hdata : ∀ b ∈ data, isStatusByte b = false) :
    writer.step (some sysexStart) (.sysex ⟨.last, data⟩) =
      (some sysexStop, data ++ [sysexStop]) := by
  show alphabet.elide.run _
    (if some sysexStart = some sysexStart then data ++ [sysexStop] else []) = _
  rw [if_pos rfl, elide_stop hdata]

/-- Between the first and the last part only data are written. -/
theorem write_middles {cs : List (Chunk Byte)}
    (hcs : ∀ c ∈ cs, c.label = .middle ∧ ∀ b ∈ c.data, isStatusByte b = false) :
    writer.run (some sysexStart) (cs.map .sysex) = (some sysexStart, cs.flatMap Chunk.data) := by
  induction cs with
  | nil => rfl
  | cons c cs ih =>
      obtain ⟨⟨hlabel, hdata⟩, htail⟩ := List.forall_mem_cons.1 hcs
      obtain ⟨label, data⟩ := c
      obtain rfl : label = .middle := hlabel
      rw [List.map_cons, Machine.run_cons, write_middle hdata, ih htail, List.flatMap_cons]

/-- The parts before the last one. -/
theorem write_cut {payload : List Byte} {s : Chunks.State Byte} {out : List (Chunk Byte)}
    (hcut : Cut 6 payload s out) (hdata : ∀ b ∈ payload, isStatusByte b = false)
    {status : Option Byte} (hstatus : status ≠ some sysexStart) :
    writer.run status (out.map .sysex) =
      if s.fresh then (status, [])
      else (some sysexStart, sysexStart :: out.flatMap Chunk.data) := by
  have hlabels := hcut.labels
  obtain ⟨_ | _, data⟩ := s
  · rcases out with _ | ⟨⟨label, data0⟩, out⟩
    · cases hlabels
    · obtain ⟨rfl, hmiddle⟩ := List.cons_eq_cons.1 hlabels
      have hpayload : ∀ b ∈ data0 ++ out.flatMap Chunk.data, isStatusByte b = false := by
        intro b hb
        refine hdata b ?_
        rw [← hcut.data]
        exact List.mem_append_left _ hb
      obtain ⟨hdata0, hout⟩ := List.forall_mem_append.1 hpayload
      rw [List.map_cons, Machine.run_cons, write_first hdata0 hstatus,
        write_middles fun c hc => ⟨?_, ?_⟩]
      · rfl
      · have hmem := List.mem_map_of_mem (f := Chunk.label) hc
        rw [hmiddle] at hmem
        exact List.eq_of_mem_replicate hmem
      · exact fun b hb => hout b (List.mem_flatMap.2 ⟨c, hc, hb⟩)
  · obtain rfl := List.map_eq_nil_iff.1 hlabels
    rfl

/-- A payload that has been cut is written in one piece. -/
theorem write_chunks {payload : List Byte} (hdata : ∀ b ∈ payload, isStatusByte b = false)
    (hne : payload ≠ []) {status : Option Byte} (hstatus : status ≠ some sysexStart) :
    writer.run status ((chunks 6 payload).map .sysex) =
      (some sysexStop, sysexStart :: (payload ++ [sysexStop])) := by
  have hcut := cut_run (n := 6) (by decide) payload
  rw [chunks, List.map_append, Machine.run_append, write_cut hcut hdata hstatus,
    List.map_singleton, Machine.run_singleton]
  generalize ((cutter 6).run {} payload).1 = s at *
  generalize ((cutter 6).run {} payload).2 = out at *
  have hall : ∀ b ∈ out.flatMap Chunk.data ++ s.data, isStatusByte b = false := by
    rwa [hcut.data]
  have hlast := (List.forall_mem_append.1 hall).2
  obtain ⟨_ | _, data⟩ := s
  · show ((writer.step (some sysexStart) (.sysex ⟨.last, data⟩)).1,
      sysexStart :: out.flatMap Chunk.data ++
        (writer.step (some sysexStart) (.sysex ⟨.last, data⟩)).2) = _
    rw [write_last hlast, ← hcut.data, List.cons_append, List.append_assoc]
  · obtain rfl := List.map_eq_nil_iff.1 hcut.labels
    obtain rfl : data = payload := hcut.data
    show ((writer.step status (.sysex ⟨.single, data⟩)).1,
      [] ++ (writer.step status (.sysex ⟨.single, data⟩)).2) = _
    rw [write_single hlast hne hstatus, List.nil_append]

end Midi2.Bytestream
