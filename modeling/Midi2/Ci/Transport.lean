import Midi2.Bytestream.Repacking
import Midi2.Ci.Delivery
import Midi2.Ci.SevenBit

/-!
# Messages in transport

A MIDI-CI message travels as the payload of a system exclusive message. In a byte stream it is
between F0 and F7 and real time messages may be between its bytes. In UMP it is in packets of up
to six bytes, with any other packets between them. A dispatcher is fed with the payload, and it
gets the message on each side of the translators (`transported`).
-/

namespace Midi2.Ci

open Adt Ump Bytestream
open ToBytestream (payload sysexBytes)
open ToBytestream.Data64 (sysexStart sysexStop)

variable {cfg : Config} {group : Byte} {hdr : Header} {m : Message List} {inside : List Byte}

/-! ## In a byte stream -/

/-- The bytes are those of a message, with real time messages between them. -/
def Carries (hdr : Header) (m : Message List) (inside : List Byte) : Prop :=
  (inside.filter fun b => !isSystemRealTimeMessage b) = encode hdr m

theorem sevenBit_iff_data : ∀ b : Byte, SevenBit b ↔ isStatusByte b = false := by
  decide

/-- What is left without the real time messages are data. -/
theorem Carries.data (h : Carries hdr m inside) (hseven : m.SevenBit hdr.version) :
    (∀ b ∈ inside, Within b) ∧ dataOf inside = encode hdr m := by
  have hencode := (sevenBit_encode_iff hdr m).2 hseven
  have hdata {b : Byte} (hb : b ∈ inside) (hrt : isSystemRealTimeMessage b = false) :
      isStatusByte b = false := by
    refine (sevenBit_iff_data b).1 (hencode b ?_)
    rw [← h, List.mem_filter, hrt]
    exact ⟨hb, rfl⟩
  constructor
  · intro b hb
    cases hrt : isSystemRealTimeMessage b with
    | true => exact Or.inr hrt
    | false => exact Or.inl (hdata hb hrt)
  · rw [← h]
    refine List.filter_congr fun b hb => ?_
    cases hrt : isSystemRealTimeMessage b with
    | true => exact congrArg (!·) (alphabet.header_of_passing hrt)
    | false => rw [hdata hb hrt]

theorem dataOf_framed (inside : List Byte) :
    dataOf (sysexStart :: (inside ++ [sysexStop])) = dataOf inside := by
  have hstart : dataOf [sysexStart] = [] := rfl
  have hstop : dataOf [sysexStop] = [] := rfl
  calc dataOf ([sysexStart] ++ (inside ++ [sysexStop]))
      = dataOf [sysexStart] ++ (dataOf inside ++ dataOf [sysexStop]) := by
        simp only [dataOf, List.filter_append]
    _ = dataOf inside := by rw [hstart, hstop, List.nil_append, List.append_nil]

/-! ## In packets -/

theorem payload_item (p : Packet) :
    payload p = ((itemOf? p).toList.filterMap Item.chunk?).flatMap Chunks.Chunk.data := by
  unfold payload ToBytestream.sysex7? itemOf?
  cases p.message.call.callback with
  | data64 s =>
      by_cases hnil : s = .sysex7In1 ∧ sysexBytes p.message = []
      · simp only [hnil, and_self, if_true]
        rfl
      · simp only [hnil, if_false]
        exact (List.append_nil _).symm
  | _ => rfl

theorem payload_items (ps : List Packet) :
    ps.flatMap payload =
      ((ps.filterMap itemOf?).filterMap Item.chunk?).flatMap Chunks.Chunk.data := by
  induction ps with
  | nil => rfl
  | cons p ps ih =>
      rw [List.flatMap_cons, ih, payload_item]
      cases hitem : itemOf? p with
      | none =>
          rw [List.filterMap_cons_none hitem]
          rfl
      | some i =>
          rw [List.filterMap_cons_some hitem, ← List.flatMap_append, ← List.filterMap_append]
          rfl

theorem dataOf_of_data {bs : List Byte} (h : ∀ b ∈ bs, isStatusByte b = false) :
    dataOf bs = bs :=
  List.filter_eq_self.2 fun b hb => by rw [h b hb]; rfl

/-- The data of the packets of system exclusive messages. -/
def itemData (is : List Item) : List Byte :=
  (is.filterMap Item.chunk?).flatMap Chunks.Chunk.data

theorem itemData_append (is js : List Item) : itemData (is ++ js) = itemData is ++ itemData js := by
  rw [itemData, List.filterMap_append, List.flatMap_append]
  rfl

theorem itemData_between {is : List Item} {inner : List (List Byte)}
    (h : List.Forall₂ Between is inner) : itemData is = dataOf inner.flatten := by
  induction h with
  | nil => rfl
  | @cons i bytes is inner hi _ ih =>
      have hhead : itemData [i] = dataOf bytes := by
        cases hi with
        | middle hdata => exact (List.append_nil _).trans (dataOf_of_data hdata).symm
        | @realTime b hrt =>
            have hst : isStatusByte b = true := alphabet.header_of_passing hrt
            rw [dataOf, List.filter_cons_of_neg (by rw [hst]; decide)]
            rfl
      calc itemData ([i] ++ is)
          = dataOf bytes ++ dataOf inner.flatten := by rw [itemData_append, hhead, ih]
        _ = dataOf (bytes :: inner).flatten := by
          rw [List.flatten_cons, dataOf, dataOf, dataOf, List.filter_append]

/-- The packets of a system exclusive message have its data, in any packing. -/
theorem itemData_packed {is : List Item} (h : Packed (.sysex inside) is) :
    itemData is = dataOf inside := by
  have hone (l : Chunks.Label) {data : List Byte} (hdata : ∀ b ∈ data, isStatusByte b = false) :
      itemData [.sysex ⟨l, data⟩] = dataOf data :=
    (List.append_nil _).trans (dataOf_of_data hdata).symm
  cases h with
  | single hdata => exact hone _ hdata
  | @multiple first last between inner hfirst hlast hbetween =>
      calc itemData ([.sysex ⟨.first, first⟩] ++ (between ++ [.sysex ⟨.last, last⟩]))
          = dataOf first ++ (dataOf inner.flatten ++ dataOf last) := by
            rw [itemData_append, itemData_append, hone _ hfirst, hone _ hlast,
              itemData_between hbetween]
        _ = dataOf (first ++ inner.flatten ++ last) := by
          rw [dataOf, dataOf, dataOf, dataOf, List.filter_append, List.filter_append,
            List.append_assoc]

/-! ## Between the two -/

/-- What `to_bytestream` makes of the packets. -/
theorem toBytestream_packed {ps : List Packet} (h : Packed (.sysex inside) (ps.filterMap itemOf?)) :
    (ToBytestream.run {} (ps.flatMap Packet.words)).2 = sysexStart :: (inside ++ [sysexStop]) := by
  rw [(ToBytestream.run_words {} ps).2, encoder_items rfl,
    (write_packed h (Option.some_ne_none _).symm).1]
  rfl

/-- What `to_ump` makes of the bytes. -/
theorem toUmp_payload {g : Nat} (hg : g < 2 ^ 4) (hinside : ∀ b ∈ inside, Within b) :
    (packetsOf (ToUmp.run (.create g) (sysexStart :: (inside ++ [sysexStop])))).flatMap payload =
      dataOf inside := by
  have hpacks := (packs_toUmp hg (sysexStart :: (inside ++ [sysexStop]))).2
  obtain ⟨out, hrun, hchunks, -⟩ := @run_sysex {} inside hinside sysexStop rfl rfl
  have hitems : itemsOf (sysexStart :: (inside ++ [sysexStop])) = out := by
    rw [itemsOf]
    exact (congrArg Prod.snd hrun).trans (List.append_nil out)
  rw [hitems] at hpacks
  rw [payload_packs hg hpacks, hchunks, Chunks.data_chunks (by decide)]

/-- A message goes out in packets, through `to_bytestream` and through `to_ump`. In whatever way
the sender has packed it, and whatever other packets and real time messages are between its
bytes, a dispatcher gets it from the packets, from the byte stream and from the packets again,
and with its last byte. -/
theorem transported {g : Nat} (hg : g < 2 ^ 4) (hrep : m.Representable)
    (hparsed : m.Parsed hdr.version) (hseven : m.SevenBit hdr.version)
    (haccept : Dispatcher.accepts cfg group hdr.localMuid = true)
    (hfit : m.bodySize hdr.version ≤ cfg.bufferSize) (hcarries : Carries hdr m inside)
    {ps : List Packet} (hpacked : Packed (.sysex inside) (ps.filterMap itemOf?)) (deviceId : B7) :
    let bytes := (ToBytestream.run {} (ps.flatMap Packet.words)).2
    let again := packetsOf (ToUmp.run (.create g) bytes)
    ∀ received ∈ [ps.flatMap payload, dataOf bytes, again.flatMap payload],
      Dispatcher.Delivers cfg deviceId group received { hdr with deviceId := deviceId }
        (m.carried hdr.version) := by
  intro bytes again received hreceived
  obtain ⟨hwithin, hdata⟩ := hcarries.data hseven
  have hbytes : bytes = sysexStart :: (inside ++ [sysexStop]) := toBytestream_packed hpacked
  have hencode : received = encode hdr m := by
    rcases List.mem_cons.1 hreceived with rfl | hreceived
    · rw [payload_items]
      exact (itemData_packed hpacked).trans hdata
    · rcases List.mem_cons.1 hreceived with rfl | hreceived
      · rw [hbytes, dataOf_framed, hdata]
      · rw [List.mem_singleton.1 hreceived, ← hdata]
        show (packetsOf (ToUmp.run (.create g) bytes)).flatMap payload = dataOf inside
        rw [hbytes, toUmp_payload hg hwithin]
  rw [hencode]
  exact delivers_message hrep hparsed haccept hfit deviceId

/-- An endpoint inquiry of fourteen bytes in three packets, with a timing clock, a utility message
and active sensing between them. -/
theorem transported_endpoint :
    let ps : List Packet := [{ message := ⟨[0x30167E7F, 0x0D720256]⟩ },
      { message := ⟨[0x10F80000]⟩ }, { message := ⟨[0x30226848, 0]⟩ },
      { message := ⟨[0x00200000]⟩ }, { message := ⟨[0x10FE0000]⟩ },
      { message := ⟨[0x3036007F, 0x7F7F7F05]⟩ }]
    let bytes := (ToBytestream.run {} (ps.flatMap Packet.words)).2
    let again := packetsOf (ToUmp.run (.create 3) bytes)
    ∀ received ∈ [ps.flatMap payload, dataOf bytes, again.flatMap payload],
      Dispatcher.Delivers openConfig 0x7F#7 0 received (broadcastHeader 2#7) (.endpoint ⟨5⟩) := by
  intro ps
  have hpacked : Packed (.sysex ([0x7E, 0x7F, 0x0D, 0x72, 0x02, 0x56] ++
      [[0xF8], [0x68, 0x48], [0xFE]].flatten ++ [0x00, 0x7F, 0x7F, 0x7F, 0x7F, 0x05]))
      (ps.filterMap itemOf?) :=
    @Packed.multiple _ _ [.block ⟨0xF8, []⟩, .sysex ⟨.middle, [0x68, 0x48]⟩, .block ⟨0xFE, []⟩] _
      (by decide) (by decide)
      (.cons (.realTime rfl) (.cons (.middle (by decide)) (.cons (.realTime rfl) .nil)))
  exact @transported openConfig 0 (broadcastHeader 2#7) (.endpoint ⟨5⟩) _ 3 (by decide) trivial
    (fun h => h.elim) trivial rfl (by decide) (by rfl) ps hpacked 0x7F#7

end Midi2.Ci
