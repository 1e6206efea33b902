import Midi2.Adt.BitFieldSigned
import Midi2.Ump.Build

/-!
# Fields with enumerations (`ump/ump_types.hpp`)

The keys and chords of flex data messages have fields that are read and written as enumerations,
some of them signed. `check` of a message wants every one of these fields to have an enumerator of
its type. Setters see to that (`check_run`). Of a message that has been received, the getters read
enumerators if and only if `check` holds, and to write what has been read changes nothing
(`received_check_iff`).
-/

namespace Midi2.Ump

open Adt

namespace FlexData

/-! ## Enumerations -/

/-- `enum class sharps_flats : std::int8_t`. -/
inductive SharpsFlats
  | doubleSharp | sharp | natural | flat | doubleFlat | chordTonic
  deriving DecidableEq

/-- `enum class note : std::int8_t`. -/
inductive Note
  | unknown | a | b | c | d | e | f | g
  deriving DecidableEq

/-- `enum class chord_type : std::uint8_t`. -/
inductive ChordType
  | noChord | major | major6th | major7th | major9th | major11th | major13th
  | minor | minor6th | minor7th | minor9th | minor11th | minor13th
  | dominant | dominantNinth | dominant11th | dominant13th | augmented | augmentedSeventh
  | diminished | diminishedSeventh | halfDiminished | majorMinor | pedal | power
  | suspended2nd | suspended4th | sevenSuspended4th
  deriving DecidableEq

/-- The macro `MIDI2_SHARPS_FLATS`. -/
def SharpsFlats.entries : List (SharpsFlats × Int) :=
  [(doubleSharp, 2), (sharp, 1), (natural, 0), (flat, -1), (doubleFlat, -2), (chordTonic, -8)]

/-- The macro `MIDI2_NOTE`. -/
def Note.entries : List (Note × Int) :=
  [(unknown, 0x0), (a, 0x1), (b, 0x2), (c, 0x3), (d, 0x4), (e, 0x5), (f, 0x6), (g, 0x7)]

/-- The macro `MIDI2_CHORD_TYPE`. -/
def ChordType.entries : List (ChordType × Int) :=
  [(noChord, 0x00), (major, 0x01), (major6th, 0x02), (major7th, 0x03), (major9th, 0x04),
    (major11th, 0x05), (major13th, 0x06), (minor, 0x07), (minor6th, 0x08), (minor7th, 0x09),
    (minor9th, 0x0A), (minor11th, 0x0B), (minor13th, 0x0C), (dominant, 0x0D),
    (dominantNinth, 0x0E), (dominant11th, 0x0F), (dominant13th, 0x10), (augmented, 0x11),
    (augmentedSeventh, 0x12), (diminished, 0x13), (diminishedSeventh, 0x14),
    (halfDiminished, 0x15), (majorMinor, 0x16), (pedal, 0x17), (power, 0x18),
    (suspended2nd, 0x19), (suspended4th, 0x1A), (sevenSuspended4th, 0x1B)]

/-- The enumerations of flex data messages. -/
inductive Enumeration
  | sharpsFlats | note | chordType
  deriving DecidableEq

namespace Enumeration

/-- The type. -/
abbrev Carrier : Enumeration → Type
  | sharpsFlats => SharpsFlats
  | note => Note
  | chordType => ChordType

instance (e : Enumeration) : DecidableEq e.Carrier :=
  match e with
  | sharpsFlats => inferInstanceAs (DecidableEq SharpsFlats)
  | note => inferInstanceAs (DecidableEq Note)
  | chordType => inferInstanceAs (DecidableEq ChordType)

def entries : (e : Enumeration) → List (e.Carrier × Int)
  | sharpsFlats => SharpsFlats.entries
  | note => Note.entries
  | chordType => ChordType.entries

/-- `std::is_unsigned_v<std::underlying_type_t<Enumeration>>`. -/
def isUnsigned : Enumeration → Bool
  | sharpsFlats | note => false
  | chordType => true

/-- `std::to_underlying`. -/
def toUnderlying (e : Enumeration) (v : e.Carrier) : Int :=
  (e.entries.lookup v).getD 0

/-- `valid_sharps_flats`, `valid_note` and `valid_chord_type`. -/
def valid (e : Enumeration) (v : Int) : Bool :=
  e.entries.any fun entry => entry.2 = v

/-- `static_cast<Enumeration>`: the enumerator with a value, if there is one. -/
def ofUnderlying (e : Enumeration) (v : Int) : Option e.Carrier :=
  (e.entries.find? fun entry => entry.2 = v).map Prod.fst

/-- The width of the fields. -/
def bits : Enumeration → Nat
  | sharpsFlats | note => 4
  | chordType => 8

/-- The enumerator of a field of zeros. -/
def zero : (e : Enumeration) → e.Carrier
  | sharpsFlats => .natural
  | note => .unknown
  | chordType => .noChord

theorem ofUnderlying_toUnderlying {e : Enumeration} (v : e.Carrier) :
    e.ofUnderlying (e.toUnderlying v) = some v := by
  cases e <;> cases v <;> rfl

theorem ofUnderlying_eq_some {e : Enumeration} {n : Int} {v : e.Carrier} :
    e.ofUnderlying n = some v ↔ n = e.toUnderlying v := by
  have hentries : ∀ entry ∈ e.entries, entry.2 = e.toUnderlying entry.1 := by
    cases e <;> decide
  constructor
  · intro h
    obtain ⟨entry, hfind, rfl⟩ := Option.map_eq_some_iff.1 h
    have hvalue := List.find?_some hfind
    rw [← hentries entry (List.mem_of_find?_eq_some hfind)]
    exact (of_decide_eq_true hvalue).symm
  · rintro rfl
    exact ofUnderlying_toUnderlying v

/-- `valid` is for the values of the enumerators. -/
theorem valid_iff {e : Enumeration} {n : Int} :
    e.valid n = true ↔ (e.ofUnderlying n).isSome = true := by
  rw [valid, ofUnderlying, Option.isSome_map, List.find?_isSome, List.any_eq_true]

/-- What is written to a field for an enumerator, as a number of as many bits. -/
def raw (e : Enumeration) (v : e.Carrier) : Nat :=
  (e.toUnderlying v % 2 ^ e.bits).toNat

/-- The value that is read for a number of as many bits. -/
def ofRaw (e : Enumeration) (n : Nat) : Int :=
  if e.isUnsigned then n else signed (e.bits - 1) n

theorem raw_lt {e : Enumeration} (v : e.Carrier) : e.raw v < 2 ^ e.bits := by
  cases e <;> cases v <;> decide

theorem ofRaw_raw {e : Enumeration} (v : e.Carrier) : e.ofRaw (e.raw v) = e.toUnderlying v := by
  cases e <;> cases v <;> rfl

theorem raw_of_ofRaw {e : Enumeration} {n : Nat} (hn : n < 2 ^ e.bits) {v : e.Carrier}
    (h : e.ofRaw n = e.toUnderlying v) : e.raw v = n := by
  have hcast : ((2 : Int) ^ e.bits) = (2 ^ e.bits : Nat) := by push_cast; rfl
  have hself : ((n : Int) % (2 ^ e.bits : Nat)).toNat = n := by
    rw [← Int.natCast_emod, Int.toNat_natCast, Nat.mod_eq_of_lt hn]
  have hbits : e.bits - 1 + 1 = e.bits := by cases e <;> rfl
  rw [raw, ← h, ofRaw, hcast]
  split
  case isTrue => exact hself
  case isFalse =>
    rw [signed, hbits]
    split
    case isTrue => exact hself
    case isFalse => rwa [hcast, Int.sub_emod_right]

/-- A signed value modulo the number of values of the field. -/
theorem ofInt_mod {e : Enumeration} (v : e.Carrier) :
    (BitVec.ofInt 32 (e.toUnderlying v)).toNat % 2 ^ e.bits = e.raw v := by
  cases e <;> cases v <;> decide

theorem toNat_eq_raw {e : Enumeration} (h : e.isUnsigned = true) (v : e.Carrier) :
    (e.toUnderlying v).toNat = e.raw v := by
  cases e with
  | sharpsFlats | note => cases h
  | chordType => cases v <;> decide

end Enumeration

end FlexData

/-! ## Fields -/

open FlexData

/-- A field and its enumeration. -/
structure EnumField where
  field : Field
  enumeration : Enumeration
  bits_eq : field.range.bits = enumeration.bits := by rfl

namespace Message

/-- `set_signed` of a word of the message. -/
def setSigned (m : Message) (f : Field) (v : Int) : Message :=
  ⟨m.words.set f.word (BitField.setSigned (m.words.getD f.word 0) f.range v)⟩

/-- `get_signed` of a word of the message. -/
def getSigned (m : Message) (f : Field) : Int :=
  BitField.getSigned (m.words.getD f.word 0) f.range

/-- `set_enum_field`. -/
def setEnum (m : Message) (x : EnumField) (v : x.enumeration.Carrier) : Message :=
  if x.enumeration.isUnsigned then m.set x.field (x.enumeration.toUnderlying v).toNat
  else m.setSigned x.field (x.enumeration.toUnderlying v)

/-- `get_enum_field_raw`. -/
def getEnumRaw (m : Message) (x : EnumField) : Int :=
  if x.enumeration.isUnsigned then m.get x.field else m.getSigned x.field

/-- `get_enum_field`. -/
def getEnum (m : Message) (x : EnumField) : Option x.enumeration.Carrier :=
  x.enumeration.ofUnderlying (m.getEnumRaw x)

theorem setSigned_eq (m : Message) (f : Field) (v : Int) :
    m.setSigned f v = m.set f (BitVec.ofInt 32 v).toNat := by
  rw [setSigned, Adt.setSigned_eq, set]

/-- A field has the lowest bits of what is written to it. -/
theorem set_mod (m : Message) {f : Field} (hf : f.word < m.words.length) (v : Nat) :
    m.set f v = m.set f (v % 2 ^ f.range.bits) := by
  refine ext_bit (by rw [length_set, length_set]) fun w i hi => ?_
  rw [bit_set m _ hf w hi, bit_set m _ hf w hi]
  split
  case isTrue hcovers =>
    obtain ⟨-, hlo, hup⟩ := hcovers
    rw [Nat.testBit_mod_two_pow, decide_eq_true (by omega), Bool.true_and]
  case isFalse => rfl

theorem set_get (m : Message) {f : Field} (hf : f.word < m.words.length) :
    m.set f (m.get f) = m := by
  refine ext_bit (length_set ..) fun w i hi => ?_
  rw [bit_set m _ hf w hi]
  split
  case isTrue hcovers =>
    obtain ⟨rfl, hlo, hup⟩ := hcovers
    rw [testBit_get, decide_eq_true (by omega), Bool.true_and, Nat.add_sub_cancel' hlo]
  case isFalse => rfl

/-- An enumerator is written as a number of as many bits. -/
theorem setEnum_eq (m : Message) {x : EnumField} (hx : x.field.word < m.words.length)
    (v : x.enumeration.Carrier) : m.setEnum x v = m.set x.field (x.enumeration.raw v) := by
  rw [setEnum]
  split
  case isTrue hunsigned => rw [Enumeration.toNat_eq_raw hunsigned]
  case isFalse => rw [setSigned_eq, set_mod m hx, x.bits_eq, Enumeration.ofInt_mod]

theorem getEnumRaw_eq (m : Message) (x : EnumField) :
    m.getEnumRaw x = x.enumeration.ofRaw (m.get x.field) := by
  rw [getEnumRaw, Enumeration.ofRaw]
  split
  case isTrue => rfl
  case isFalse =>
    rw [getSigned, getSigned_eq_signed (by decide) _ x.field.le_32, x.bits_eq]
    rfl

theorem getEnum_eq_some {m : Message} {x : EnumField} {v : x.enumeration.Carrier} :
    m.getEnum x = some v ↔ m.get x.field = x.enumeration.raw v := by
  have hlt : m.get x.field < 2 ^ x.enumeration.bits := x.bits_eq ▸ m.get_lt x.field
  rw [getEnum, getEnumRaw_eq, Enumeration.ofUnderlying_eq_some]
  constructor
  · exact fun h => (Enumeration.raw_of_ofRaw hlt h).symm
  · intro h
    rw [h, Enumeration.ofRaw_raw]

theorem getEnum_setEnum_self (m : Message) {x : EnumField} (hx : x.field.word < m.words.length)
    (v : x.enumeration.Carrier) : (m.setEnum x v).getEnum x = some v := by
  have hlt : x.enumeration.raw v < 2 ^ x.field.range.bits := x.bits_eq ▸ Enumeration.raw_lt v
  rw [getEnum_eq_some, setEnum_eq m hx, get_set_self m _ hx hlt]

end Message

namespace FlexData

/-- The fields with an enumeration. -/
def enums : Mt.FlexData → List EnumField
  | .setTempo | .setTimeSignature | .setMetronome => []
  | .setKeySignature =>
      [⟨SetKeySignature.sharpsFlats, .sharpsFlats, rfl⟩, ⟨SetKeySignature.tonicNote, .note, rfl⟩]
  | .setChordName =>
      [⟨SetChordName.tonicSharpsFlats, .sharpsFlats, rfl⟩, ⟨SetChordName.chordTonic, .note, rfl⟩,
        ⟨SetChordName.chordType, .chordType, rfl⟩,
        ⟨SetChordName.bassSharpsFlats, .sharpsFlats, rfl⟩, ⟨SetChordName.bassNote, .note, rfl⟩,
        ⟨SetChordName.bassChordType, .chordType, rfl⟩]

/-- `check(message)`: the `check()` of each word. -/
def check (s : Mt.FlexData) (m : Message) : Bool :=
  (messageClass s).check m && (enums s).all fun x => x.enumeration.valid (m.getEnumRaw x)

variable {s : Mt.FlexData} {m : Message}

theorem field_mem {x : EnumField} (hx : x ∈ enums s) : x.field ∈ (messageClass s).fields := by
  have hall : ∀ x ∈ enums s, x.field ∈ fields s := by cases s <;> simp [enums, fields]
  exact hall x hx

/-- A field has one enumeration. -/
theorem enumeration_eq {x y : EnumField} (hx : x ∈ enums s) (hy : y ∈ enums s)
    (hsame : x.field.Same y.field) : x = y := by
  have hall : ∀ x ∈ enums s, ∀ y ∈ enums s, x.field.Same y.field →
      x.enumeration = y.enumeration := by
    cases s <;> decide
  have henum := hall x hx y hy hsame
  obtain ⟨f, e, hbits⟩ := x
  obtain ⟨f', e', hbits'⟩ := y
  obtain rfl : f = f' := hsame.eq
  obtain rfl : e = e' := henum
  rfl

theorem check_iff : check s m = true ↔
    (messageClass s).Header m ∧ ∀ x ∈ enums s, ∃ v, m.getEnum x = some v := by
  rw [check, Bool.and_eq_true, List.all_eq_true]
  refine and_congr ?_ (forall₂_congr fun x _ => ?_)
  · rw [MessageClass.check]
    exact (Bool.and_eq_true_iff.trans (and_iff_left rfl)).trans decide_eq_true_iff
  · rw [Enumeration.valid_iff, Option.isSome_iff_exists]
    rfl

/-- A message for which a function has been called passes `check` if and only if the getters read
enumerators, which can be written back. -/
theorem received_check_iff (p : Packet) (h : p.message.call.callback = .flexData s) :
    check s p.message = true ↔
      ∀ x ∈ enums s, ∃ v, p.message.getEnum x = some v ∧ p.message.setEnum x v = p.message := by
  have hheader : (messageClass s).Header p.message := ((Message.callback_iff rfl p.message).1 h).1
  rw [check_iff, and_iff_right hheader]
  refine forall₂_congr fun x hx => exists_congr fun v => ?_
  have hword : x.field.word < p.message.words.length := by
    rw [p.whole, hheader.type]
    exact (messageClass s).ok.word_lt _ (field_mem hx)
  refine ⟨fun hget => ⟨hget, ?_⟩, And.left⟩
  rw [Message.setEnum_eq _ hword, ← Message.getEnum_eq_some.1 hget, Message.set_get _ hword]

/-- A key of one flat that does not have to be changed to be written back. -/
theorem received_check_iff_flat :
    check .setKeySignature ⟨[0xD0000005, 0xF6000000, 0, 0]⟩ = true ↔
      ∀ x ∈ enums .setKeySignature, ∃ v,
        (⟨[0xD0000005, 0xF6000000, 0, 0]⟩ : Message).getEnum x = some v ∧
          (⟨[0xD0000005, 0xF6000000, 0, 0]⟩ : Message).setEnum x v =
            ⟨[0xD0000005, 0xF6000000, 0, 0]⟩ :=
  received_check_iff { message := ⟨[0xD0000005, 0xF6000000, 0, 0]⟩ } (by decide)

example : check .setKeySignature ⟨[0xD0000005, 0xF6000000, 0, 0]⟩ = true := by decide

/-! ## Setters -/

/-- A call of a setter, with a number or with an enumerator. -/
inductive Setter (s : Mt.FlexData)
  | plain (x : (messageClass s).Setter) (h : ∀ y ∈ enums s, x.field.Disjoint y.field)
  | enum (x : EnumField) (h : x ∈ enums s) (v : x.enumeration.Carrier)

def Setter.apply (m : Message) : Setter s → Message
  | plain x _ => m.set x.field x.value
  | enum x _ v => m.setEnum x v

/-- The value of the last enumerator that a field has been set to. -/
def lastUnderlying (calls : List (Setter s)) (x : EnumField) : Int :=
  calls.foldl (fun n call =>
    match call with
    | .plain .. => n
    | .enum y _ v => if y.field.Same x.field then y.enumeration.toUnderlying v else n) 0

/-- A message that is being built: it is of its class, and each field has the last enumerator. -/
structure Built (s : Mt.FlexData) (m : Message) (calls : List (Setter s)) : Prop where
  length : m.words.length = 4
  header : (messageClass s).Header m
  enums : ∀ x ∈ enums s, ∃ v, m.getEnum x = some v ∧
    x.enumeration.toUnderlying v = lastUnderlying calls x

theorem built_init (s : Mt.FlexData) : Built s (messageClass s).init [] where
  length := (messageClass s).init_length
  header := (messageClass s).init_header
  enums x hx := by
    have hzero : (messageClass s).init.get x.field = 0 := MessageClass.get_init (field_mem hx)
    refine ⟨x.enumeration.zero, Message.getEnum_eq_some.2 ?_, ?_⟩
    · rw [hzero]
      cases x.enumeration <;> rfl
    · cases x.enumeration <;> rfl

/-- A write to a field of the class leaves type and status alone. -/
theorem header_set (h : (messageClass s).Header m) {f : Field} (hf : f ∈ (messageClass s).fields)
    (v : Nat) : (messageClass s).Header (m.set f v) := by
  refine ⟨?_, fun st hst => ?_⟩
  · rw [Message.get_set_of_disjoint _ _ ((messageClass s).ok.off_mt f hf), h.1]
  · rw [Message.get_set_of_disjoint _ _ ((messageClass s).ok.off_status st hst f hf), h.2 st hst]

theorem Built.apply {calls : List (Setter s)} (h : Built s m calls) (call : Setter s) :
    Built s (call.apply m) (calls ++ [call]) := by
  cases call with
  | plain y hy =>
      refine ⟨(Message.length_set ..).trans h.length, header_set h.header y.mem _, fun x hx => ?_⟩
      obtain ⟨v, hget, hlast⟩ := h.enums x hx
      refine ⟨v, Message.getEnum_eq_some.2 ?_, ?_⟩
      · rw [Setter.apply, Message.get_set_of_disjoint _ _ (hy x hx)]
        exact Message.getEnum_eq_some.1 hget
      · rw [hlast, lastUnderlying, lastUnderlying, List.foldl_append]
        rfl
  | enum y hy w =>
      have hword : y.field.word < m.words.length := by
        rw [h.length]
        exact (messageClass s).ok.word_lt _ (field_mem hy)
      have hset := Message.setEnum_eq m hword w
      have hlength : (m.setEnum y w).words.length = 4 := by rw [hset, Message.length_set, h.length]
      refine ⟨hlength, ?_, fun x hx => ?_⟩
      · rw [Setter.apply, hset]
        exact header_set h.header (field_mem hy) _
      have hlast : lastUnderlying (calls ++ [.enum y hy w]) x =
          if y.field.Same x.field then y.enumeration.toUnderlying w
          else lastUnderlying calls x := by
        rw [lastUnderlying, List.foldl_append]
        rfl
      rw [hlast]
      rcases (messageClass s).ok.apart _ (field_mem hy) _ (field_mem hx) with hapart | hsame
      · obtain ⟨v, hget, hvalue⟩ := h.enums x hx
        rw [if_neg hapart.not_same]
        refine ⟨v, Message.getEnum_eq_some.2 ?_, hvalue⟩
        rw [Setter.apply, hset, Message.get_set_of_disjoint _ _ hapart]
        exact Message.getEnum_eq_some.1 hget
      · obtain rfl := enumeration_eq hy hx hsame
        rw [if_pos hsame]
        exact ⟨w, Message.getEnum_setEnum_self m hword w, rfl⟩

/-- Whatever setters are called on a default message, `check` holds, and the getters read the
enumerators that were set last. -/
theorem check_run (s : Mt.FlexData) (calls : List (Setter s)) :
    check s (calls.foldl Setter.apply (messageClass s).init) = true ∧
      ∀ x ∈ enums s, ∃ v,
        (calls.foldl Setter.apply (messageClass s).init).getEnum x = some v ∧
          x.enumeration.toUnderlying v = lastUnderlying calls x := by
  have hbuilt : Built s (calls.foldl Setter.apply (messageClass s).init) calls := by
    induction calls using List.reverseRecOn with
    | nil => exact built_init s
    | append_singleton calls call ih =>
        rw [List.foldl_append]
        exact ih.apply call
  refine ⟨check_iff.2 ⟨hbuilt.header, fun x hx => ?_⟩, hbuilt.enums⟩
  obtain ⟨v, hget, -⟩ := hbuilt.enums x hx
  exact ⟨v, hget⟩

end FlexData

end Midi2.Ump
