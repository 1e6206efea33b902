import Midi2.Ci.Le7
import Midi2.Lib.Transcoder

/-!
# Text in seven bits (`ci7text.hpp`)

MIDI-CI sends text as ASCII. A backslash is sent as two, and what is not ASCII as an escape
`\uXXXX` for each of its UTF-16 code units (`ci7`). Two transcoders go there and back: `encoder`
is `transcoder<InputEncoding, char>` and `decoder` is `transcoder<char, OutputEncoding>`. Both
use transcoders between the encodings of Unicode, which come from elsewhere and are parameters
here; all that is known of them is that they transcode. Then so do these two
(`encoder_transcodes`, `decoder_transcodes`), and `decoder_encoder` puts one after the other.

The decoder gives the code units of escapes to a transcoder from UTF-16, so in between two
escapes it may be in the middle of a code point. It is in step with that transcoder, an escape
for a code unit (`decoderMachine_refines`).
-/

namespace Midi2.Ci7Text

/-- A character of the source text of the program. -/
def chr (c : Char) : Byte :=
  .ofNat 8 c.toNat

/-! ## To seven bits -/

/-- `to_hex`. -/
def toHex (v : BitVec 32) : Byte :=
  (v + if v < 10 then (chr '0').setWidth 32 else (chr 'A').setWidth 32 - 10).setWidth 8

/-- The escape for a code unit of UTF-16. -/
def escape (c : Char16) : List Byte :=
  [chr '\\', chr 'u', toHex (c.setWidth 32 >>> 12 &&& 0x0F), toHex (c.setWidth 32 >>> 8 &&& 0x0F),
    toHex (c.setWidth 32 >>> 4 &&& 0x0F), toHex (c.setWidth 32 &&& 0x0F)]

variable {α : Type}

/-- `convert_from_32(code_unit, dest)`, where `t32To16` is `icubaby::t32_16`. -/
def convertFrom32 (t32To16 : Transcoder Char32 Char16) (codeUnit : Char32) : List Byte :=
  if codeUnit < 1 <<< 7 then
    (if codeUnit = (chr '\\').setWidth 32 then [chr '\\'] else []) ++ [codeUnit.setWidth 8]
  else
    (t32To16.machine.step t32To16.init codeUnit).2.flatMap escape

/-- `operator()(code_unit, dest)` of `transcoder<InputEncoding, char>`. -/
def encoderMachine (srcTo32 : Transcoder α Char32) (t32To16 : Transcoder Char32 Char16) :
    Machine α Byte srcTo32.State where
  step s codeUnit :=
    let (s, out32) := srcTo32.machine.step s codeUnit
    (s, out32.flatMap (convertFrom32 t32To16))

/-- `transcoder<InputEncoding, char>`, where `srcTo32` is `src_to_32_`. -/
def encoder (srcTo32 : Transcoder α Char32) (t32To16 : Transcoder Char32 Char16) :
    Transcoder α Byte where
  State := srcTo32.State
  init := srcTo32.init
  machine := encoderMachine srcTo32 t32To16
  endCp s :=
    let (s, out32) := srcTo32.endCp s
    match out32 with
    | [] => (s, [])
    | c :: _ => (s, convertFrom32 t32To16 c)
  wellFormed s := srcTo32.wellFormed s

/-! ## From seven bits -/

/-- `enum class state`. -/
inductive State where
  | normal | escape | hex1 | hex2 | hex3 | hex4
  deriving DecidableEq

/-- The next enumerator, `static_cast<state>(std::to_underlying(state_) + 1)`. -/
def State.next : State → State
  | .normal => .escape
  | .escape => .hex1
  | .hex1 => .hex2
  | .hex2 => .hex3
  | .hex3 | .hex4 => .hex4

/-- The members of `transcoder<char, OutputEncoding>`. -/
structure Decoder (σ : Type) where
  wellFormed : Bool := true
  state : State := .normal
  hex : Char16 := 0
  hexTo32 : σ

/-- What a hexadecimal digit is more than its value. -/
def hexDelta (codeUnit : Byte) : Option Char16 :=
  if chr '0' ≤ codeUnit ∧ codeUnit ≤ chr '9' then some ((chr '0').setWidth 16)
  else if chr 'a' ≤ codeUnit ∧ codeUnit ≤ chr 'f' then some ((chr 'a').setWidth 16 - 10)
  else if chr 'A' ≤ codeUnit ∧ codeUnit ≤ chr 'F' then some ((chr 'A').setWidth 16 - 10)
  else none

/-- `hex_char(code_unit)`. -/
def Decoder.hexChar {σ : Type} (d : Decoder σ) (codeUnit : Byte) : Decoder σ × Bool :=
  match hexDelta codeUnit with
  | none => ({ d with wellFormed := false }, false)
  | some delta => ({ d with hex := d.hex <<< 4 ||| (codeUnit.setWidth 16 - delta) }, true)

/-- The character that an escape of two characters stands for. -/
def escaped (codeUnit : Byte) : Option Byte :=
  if codeUnit = chr 'b' then some 0x08
  else if codeUnit = chr 'f' then some 0x0C
  else if codeUnit = chr 'n' then some 0x0A
  else if codeUnit = chr 'r' then some 0x0D
  else if codeUnit = chr 't' then some 0x09
  else if codeUnit = chr '"' ∨ codeUnit = chr '\\' ∨ codeUnit = chr '/' then some codeUnit
  else none

section Decoding

variable {w : Nat} (hexTo32 : Transcoder Char16 (BitVec w))

/-- `*(dest++) = code_unit`, after the end of the code point that the escapes before it may
not have completed. -/
def put (d : Decoder hexTo32.State) (codeUnit : Byte) : Decoder hexTo32.State × List (BitVec w) :=
  let (s, out) := hexTo32.endCp d.hexTo32
  ({ d with hexTo32 := s }, out ++ [codeUnit.setWidth w])

/-- `escape_char(code_unit, dest)`. -/
def escapeChar (d : Decoder hexTo32.State) (codeUnit : Byte) :
    Decoder hexTo32.State × List (BitVec w) :=
  if codeUnit = chr 'u' then
    ({ d with state := .hex1, hex := 0 }, [])
  else
    let (d, out) :=
      match escaped codeUnit with
      | some c => put hexTo32 d c
      | none => put hexTo32 { d with wellFormed := false } codeUnit
    ({ d with state := .normal }, out)

/-- `operator()(code_unit, dest)`. -/
def decoderMachine : Machine Byte (BitVec w) (Decoder hexTo32.State) where
  step d codeUnit :=
    if codeUnit &&& 1 <<< 7 ≠ 0 then ({ d with wellFormed := false }, [])
    else
      match d.state with
      | .normal =>
        if codeUnit = chr '\\' then ({ d with state := .escape }, []) else put hexTo32 d codeUnit
      | .hex1 | .hex2 | .hex3 =>
        match d.hexChar codeUnit with
        | (d, true) => ({ d with state := d.state.next }, [])
        | (d, false) => ({ d with state := .normal, hex := 0 }, [])
      | .hex4 =>
        match d.hexChar codeUnit with
        | (d, true) =>
          let (s, out) := hexTo32.machine.step d.hexTo32 d.hex
          ({ d with state := .normal, hex := 0, hexTo32 := s }, out)
        | (d, false) => ({ d with state := .normal, hex := 0 }, [])
      | .escape => escapeChar hexTo32 d codeUnit

/-- `transcoder<char, OutputEncoding>`, where `hexTo32` is `hex_to_32_`. -/
def decoder : Transcoder Byte (BitVec w) where
  State := Decoder hexTo32.State
  init := { hexTo32 := hexTo32.init }
  machine := decoderMachine hexTo32
  endCp d :=
    let (s, out) := hexTo32.endCp d.hexTo32
    let bad := hexTo32.wellFormed s = false ∨ d.state ≠ .normal
    ({ d with wellFormed := if bad then false else d.wellFormed, hexTo32 := s }, out)
  wellFormed d := d.wellFormed

end Decoding

/-! ## Text as it is sent -/

/-- A character as it is sent. -/
def ci7 (c : Char) : List Byte :=
  if c = '\\' then [chr '\\', chr '\\']
  else if c.toNat < 0x80 then [chr c]
  else (utf16 c).flatMap escape

theorem toHex_lt : ∀ n : BitVec 4, toHex (n.setWidth 32) < 0x80 := by
  decide

/-- `c` is the hexadecimal digit of the value, as a small or as a capital letter. -/
def HexDigit (v : BitVec 4) (c : Byte) : Prop :=
  c = chr (['0', '1', '2', '3', '4', '5', '6', '7', '8', '9', 'a', 'b', 'c', 'd', 'e', 'f'].getD
    v.toNat '0') ∨
  c = chr (['0', '1', '2', '3', '4', '5', '6', '7', '8', '9', 'A', 'B', 'C', 'D', 'E', 'F'].getD
    v.toNat '0')

instance (v : BitVec 4) (c : Byte) : Decidable (HexDigit v c) :=
  inferInstanceAs (Decidable (_ ∨ _))

theorem hexDigit_toHex : ∀ v : BitVec 4, HexDigit v (toHex (v.setWidth 32)) := by
  decide

theorem HexDigit.ascii {v : BitVec 4} {c : Byte} (h : HexDigit v c) : c &&& 1 <<< 7 = 0 := by
  rcases h with rfl | rfl
  all_goals
    revert v
    decide

theorem HexDigit.value {v : BitVec 4} {c : Byte} (h : HexDigit v c) :
    (hexDelta c).map (fun delta => c.setWidth 16 - delta) = some (v.setWidth 16) := by
  rcases h with rfl | rfl
  all_goals
    revert v
    decide

/-- The digits of an escape are those of the code unit. -/
theorem escape_eq (c : Char16) :
    escape c = [chr '\\', chr 'u', toHex ((c.extractLsb' 12 4).setWidth 32),
      toHex ((c.extractLsb' 8 4).setWidth 32), toHex ((c.extractLsb' 4 4).setWidth 32),
      toHex ((c.extractLsb' 0 4).setWidth 32)] := by
  have hdigit : ∀ k, c.setWidth 32 >>> k &&& 0x0F = (c.extractLsb' k 4).setWidth 32 := by
    intro k
    have hmask : (0x0F : BitVec 32) = (BitVec.allOnes 4).setWidth 32 := rfl
    refine BitVec.eq_of_getLsbD_eq fun i hi => ?_
    simp only [hmask, BitVec.getLsbD_and, BitVec.getLsbD_ushiftRight, BitVec.getLsbD_setWidth,
      BitVec.getLsbD_extractLsb', BitVec.getLsbD_allOnes]
    rcases Nat.lt_or_ge (k + i) 32 with hlt | hge
    · rw [decide_eq_true hlt, decide_eq_true hi, Bool.true_and, Bool.true_and, Bool.true_and,
        Bool.and_comm]
    · rw [BitVec.getLsbD_of_ge c _ (Nat.le_trans (by decide) hge), Bool.and_false, Bool.and_false,
        Bool.and_false, Bool.false_and]
  rw [escape, hdigit, hdigit, hdigit, ← hdigit 0, BitVec.ushiftRight_zero]

/-- A code unit is put together from its digits. -/
theorem join_digits (c : Char16) :
    ((((0 : Char16) <<< 4 ||| (c.extractLsb' 12 4).setWidth 16) <<< 4 |||
      (c.extractLsb' 8 4).setWidth 16) <<< 4 ||| (c.extractLsb' 4 4).setWidth 16) <<< 4 |||
      (c.extractLsb' 0 4).setWidth 16 = c := by
  refine BitVec.eq_of_getLsbD_eq fun i hi => ?_
  simp only [BitVec.getLsbD_or, BitVec.getLsbD_shiftLeft, BitVec.getLsbD_setWidth,
    BitVec.getLsbD_extractLsb']
  interval_cases i <;> simp

theorem chr_ascii : ∀ n < 0x80, (BitVec.ofNat 8 n) &&& 1 <<< 7 = 0 := by
  decide

theorem toNat_chr {c : Char} (hc : c.toNat < 0x80) : (chr c).toNat = c.toNat := by
  rw [chr, BitVec.toNat_ofNat, Nat.mod_eq_of_lt (by omega)]

theorem utf32_ascii {c : Char} (hc : c.toNat < 0x80) : utf32 c = [(chr c).setWidth 32] := by
  refine congrArg (fun u => [u]) (BitVec.eq_of_toNat_eq ?_)
  rw [BitVec.toNat_setWidth_of_le (by decide), toNat_chr hc, toNat_codePoint]

/-- Of what is sent, only the backslash is `\\`. -/
theorem chr_eq_backslash {c : Char} (hc : c.toNat < 0x80) : chr c = chr '\\' ↔ c = '\\' := by
  constructor
  · intro h
    have hnat := congrArg BitVec.toNat h
    rw [toNat_chr hc] at hnat
    exact Char.toNat_inj.1 hnat
  · rintro rfl
    rfl

/-- Everything that is sent is ASCII. -/
theorem lt_of_mem_ci7 {c : Char} {b : Byte} (h : b ∈ ci7 c) : b < 0x80 := by
  unfold ci7 at h
  split at h
  · revert b
    decide
  · split at h
    · rename_i hc
      rw [List.mem_singleton.1 h, BitVec.lt_def, toNat_chr hc]
      exact hc
    · obtain ⟨u, -, hmem⟩ := List.mem_flatMap.1 h
      rw [escape_eq] at hmem
      simp only [List.mem_cons, List.not_mem_nil, or_false] at hmem
      rcases hmem with rfl | rfl | rfl | rfl | rfl | rfl
      · decide
      · decide
      all_goals exact toHex_lt _

/-! ## What is sent -/

/-- `convert_from_32`, for a character. -/
theorem convertFrom32_codePoint {t32To16 : Transcoder Char32 Char16}
    (h : t32To16.Transcodes utf32 utf16) (c : Char) :
    convertFrom32 t32To16 (codePoint c) = ci7 c := by
  obtain ⟨Idle, h⟩ := h
  obtain ⟨-, hout⟩ := h.codePoint c h.init
  rw [utf32, Machine.run_singleton] at hout
  have hascii : codePoint c < 1 <<< 7 ↔ c.toNat < 0x80 := BitVec.lt_def
  have hbackslash : codePoint c = (chr '\\').setWidth 32 ↔ c = '\\' := by
    rw [BitVec.toNat_eq, toNat_codePoint]
    exact @Char.toNat_inj c '\\'
  have hnarrow : (codePoint c).setWidth 8 = chr c := BitVec.eq_of_toNat_eq rfl
  unfold convertFrom32 ci7
  simp only [hascii, hbackslash, hnarrow, hout]
  by_cases hc : c = '\\'
  · subst hc
    rfl
  · rw [if_neg hc, if_neg hc, List.nil_append]

theorem run_encoderMachine (srcTo32 : Transcoder α Char32) (t32To16 : Transcoder Char32 Char16)
    (s : srcTo32.State) (text : List α) :
    (encoderMachine srcTo32 t32To16).run s text =
      ((srcTo32.machine.run s text).1,
        (srcTo32.machine.run s text).2.flatMap (convertFrom32 t32To16)) := by
  induction text generalizing s with
  | nil => rfl
  | cons u text ih =>
      rw [Machine.run_cons, Machine.run_cons, List.flatMap_append]
      exact congrArg (fun r => (r.1, _ ++ r.2)) (ih _)

/-- The encoder transcodes, from any encoding of Unicode. -/
theorem encoder_transcodes {srcTo32 : Transcoder α Char32} {t32To16 : Transcoder Char32 Char16}
    {src : Char → List α} (hsrc : srcTo32.Transcodes src utf32)
    (h16 : t32To16.Transcodes utf32 utf16) : (encoder srcTo32 t32To16).Transcodes src ci7 := by
  obtain ⟨Idle, hidle⟩ := hsrc
  refine ⟨Idle, hidle.init, hidle.wellFormed, ?_, ?_⟩
  · intro s c hs
    obtain ⟨hnext, hout⟩ := hidle.codePoint c hs
    have hrun := run_encoderMachine srcTo32 t32To16 s (src c)
    rw [hout, utf32, List.flatMap_singleton, convertFrom32_codePoint h16] at hrun
    exact ⟨(congrArg Prod.fst hrun).symm ▸ hnext, congrArg Prod.snd hrun⟩
  · intro s hs
    obtain ⟨hnext, hnone⟩ := hidle.endCp hs
    simp only [encoder, hnone]
    exact ⟨hnext, trivial⟩

/-! ## What is read -/

section Decoding

variable {w : Nat} {hexTo32 : Transcoder Char16 (BitVec w)}

/-- Between two characters or escapes, with the transcoder of code units in the state `s`. -/
structure Ready (d : Decoder hexTo32.State) (s : hexTo32.State) : Prop where
  wellFormed : d.wellFormed = true
  state : d.state = .normal
  hexTo32 : d.hexTo32 = s

variable {d : Decoder hexTo32.State}

theorem hexChar_digit {v : BitVec 4} {c : Byte} (h : HexDigit v c) :
    d.hexChar c = ({ d with hex := d.hex <<< 4 ||| v.setWidth 16 }, true) := by
  unfold Decoder.hexChar
  have hvalue := h.value
  cases hdelta : hexDelta c with
  | none =>
      rw [hdelta] at hvalue
      cases hvalue
  | some delta =>
      rw [hdelta] at hvalue
      simp only [Option.some.inj hvalue]

/-- The first three digits. -/
theorem step_hex (hd : d.state = .hex1 ∨ d.state = .hex2 ∨ d.state = .hex3) {v : BitVec 4}
    {c : Byte} (h : HexDigit v c) :
    (decoderMachine hexTo32).step d c =
      ({ d with state := d.state.next, hex := d.hex <<< 4 ||| v.setWidth 16 }, []) := by
  have hbit := not_not.2 h.ascii
  rcases hd with hd | hd | hd
  all_goals simp only [decoderMachine, if_neg hbit, hd, hexChar_digit h]

/-- The last one: the code unit is complete. -/
theorem step_hex4 (hd : d.state = .hex4) {v : BitVec 4} {c : Byte} (h : HexDigit v c) :
    (decoderMachine hexTo32).step d c =
      ({ d with
          state := .normal
          hex := 0
          hexTo32 := (hexTo32.machine.step d.hexTo32 (d.hex <<< 4 ||| v.setWidth 16)).1 },
        (hexTo32.machine.step d.hexTo32 (d.hex <<< 4 ||| v.setWidth 16)).2) := by
  have hbit := not_not.2 h.ascii
  simp only [decoderMachine, if_neg hbit, hd, hexChar_digit h]

theorem step_backslash (hd : d.state = .normal) :
    (decoderMachine hexTo32).step d (chr '\\') = ({ d with state := .escape }, []) := by
  simp only [decoderMachine, hd]
  rfl

/-- After a backslash. -/
theorem step_u (hd : d.state = .escape) :
    (decoderMachine hexTo32).step d (chr 'u') = ({ d with state := .hex1, hex := 0 }, []) := by
  simp only [decoderMachine, hd]
  rfl

theorem step_short (hd : d.state = .escape) {c e : Byte} (hbit : c &&& 1 <<< 7 = 0)
    (hu : c ≠ chr 'u') (he : escaped c = some e) :
    (decoderMachine hexTo32).step d c =
      ({ (put hexTo32 d e).1 with state := .normal }, (put hexTo32 d e).2) := by
  simp only [decoderMachine, if_neg (not_not.2 hbit), hd, escapeChar, if_neg hu, he]

theorem step_plain (hd : d.state = .normal) {c : Byte} (hbit : c &&& 1 <<< 7 = 0)
    (hne : c ≠ chr '\\') : (decoderMachine hexTo32).step d c = put hexTo32 d c := by
  simp only [decoderMachine, if_neg (not_not.2 hbit), hd, if_neg hne]

/-- Four digits are read as their code unit is by the transcoder from UTF-16. -/
theorem run_digits (hd : d.state = .normal) {u : Char16} {a b c e : Byte}
    (ha : HexDigit (u.extractLsb' 12 4) a) (hb : HexDigit (u.extractLsb' 8 4) b)
    (hc : HexDigit (u.extractLsb' 4 4) c) (he : HexDigit (u.extractLsb' 0 4) e) :
    (decoderMachine hexTo32).run d [chr '\\', chr 'u', a, b, c, e] =
      ({ d with
          state := .normal
          hex := 0
          hexTo32 := (hexTo32.machine.step d.hexTo32 u).1 },
        (hexTo32.machine.step d.hexTo32 u).2) := by
  rw [Machine.run_cons, step_backslash hd, Machine.run_cons, step_u, Machine.run_cons,
    step_hex (Or.inl _) ha, Machine.run_cons, step_hex (Or.inr (Or.inl _)) hb, Machine.run_cons,
    step_hex (Or.inr (Or.inr _)) hc, Machine.run_singleton, step_hex4 _ he]
  · simp only [List.nil_append, join_digits]
  all_goals rfl

theorem run_escape (hd : d.state = .normal) (u : Char16) :
    (decoderMachine hexTo32).run d (escape u) =
      ({ d with
          state := .normal
          hex := 0
          hexTo32 := (hexTo32.machine.step d.hexTo32 u).1 },
        (hexTo32.machine.step d.hexTo32 u).2) := by
  rw [escape_eq]
  exact run_digits hd (hexDigit_toHex _) (hexDigit_toHex _) (hexDigit_toHex _) (hexDigit_toHex _)

/-- The decoder does for an escape what the transcoder from UTF-16 does for the code unit. -/
theorem decoderMachine_refines :
    (decoderMachine hexTo32).Refines hexTo32.machine escape (fun b => [b]) Ready where
  state := by
    intro d s u h
    rw [run_escape h.state, h.hexTo32]
    exact ⟨h.wellFormed, rfl, rfl⟩
  output := by
    intro d s u h
    rw [run_escape h.state, h.hexTo32, List.flatMap_singleton']

/-- A character that is not from an escape is put out alone, if the transcoder from UTF-16 is
not in the middle of a code point. -/
theorem put_idle {enc : Char → List (BitVec w)} {Idle : hexTo32.State → Prop}
    (h : hexTo32.IdleIn utf16 enc Idle) (hd : Idle d.hexTo32) (c : Byte) :
    ∃ s, Idle s ∧ put hexTo32 d c = ({ d with hexTo32 := s }, [c.setWidth w]) := by
  obtain ⟨hnext, hnone⟩ := h.endCp hd
  refine ⟨_, hnext, ?_⟩
  show (_, (hexTo32.endCp d.hexTo32).2 ++ _) = _
  rw [hnone, List.nil_append]

/-- A character is read as it was sent. -/
theorem run_ci7 {enc : Char → List (BitVec w)} {Idle : hexTo32.State → Prop}
    (h : hexTo32.IdleIn utf16 enc Idle)
    (hascii : ∀ c, c.toNat < 0x80 → enc c = [(chr c).setWidth w]) (c : Char)
    {s : hexTo32.State} (hs : Idle s) (hd : Ready d s) :
    (∃ s, Idle s ∧ Ready ((decoderMachine hexTo32).run d (ci7 c)).1 s) ∧
    ((decoderMachine hexTo32).run d (ci7 c)).2 = enc c := by
  have hidle : Idle d.hexTo32 := hd.hexTo32 ▸ hs
  unfold ci7
  split
  · rename_i hc
    obtain ⟨s', hs', hput⟩ := @put_idle _ _ { d with state := .escape } _ _ h hidle (chr '\\')
    rw [hc, Machine.run_cons, step_backslash hd.state, Machine.run_singleton,
      step_short rfl (by decide) (by decide) rfl, hput, hascii '\\' (by decide)]
    exact ⟨⟨s', hs', hd.wellFormed, rfl, rfl⟩, rfl⟩
  · rename_i hne
    split
    · rename_i hc
      obtain ⟨s', hs', hput⟩ := put_idle h hidle (chr c)
      have hbit : chr c &&& 1 <<< 7 = 0 := chr_ascii c.toNat hc
      have hplain : chr c ≠ chr '\\' := mt (chr_eq_backslash hc).1 hne
      rw [Machine.run_singleton, step_plain hd.state hbit hplain, hput, hascii c hc]
      exact ⟨⟨s', hs', hd.wellFormed, hd.state, rfl⟩, rfl⟩
    · obtain ⟨hready, hout⟩ := decoderMachine_refines.run (utf16 c) hd
      obtain ⟨hnext, henc⟩ := h.codePoint c hs
      rw [List.flatMap_singleton', henc] at hout
      exact ⟨⟨_, hnext, hready⟩, hout⟩

/-- The decoder transcodes, to any encoding that has ASCII in it. -/
theorem decoder_transcodes {enc : Char → List (BitVec w)} (h : hexTo32.Transcodes utf16 enc)
    (hascii : ∀ c, c.toNat < 0x80 → enc c = [(chr c).setWidth w]) :
    (decoder hexTo32).Transcodes ci7 enc := by
  obtain ⟨Idle, h⟩ := h
  refine ⟨fun d => ∃ s, Idle s ∧ Ready d s, ⟨_, h.init, rfl, rfl, rfl⟩, ?_, ?_, ?_⟩
  · rintro d ⟨s, -, hd⟩
    exact hd.wellFormed
  · rintro d c ⟨s, hs, hd⟩
    exact run_ci7 h hascii c hs hd
  · rintro d ⟨s, hs, hd⟩
    obtain ⟨hnext, hnone⟩ := h.endCp (hd.hexTo32 ▸ hs : Idle d.hexTo32)
    refine ⟨⟨_, hnext, ?_, hd.state, rfl⟩, hnone⟩
    have hgood : ¬(hexTo32.wellFormed (hexTo32.endCp d.hexTo32).1 = false ∨ d.state ≠ .normal) := by
      rw [h.wellFormed hnext, hd.state]
      decide
    exact (if_neg hgood).trans hd.wellFormed

end Decoding

/-! ## There and back -/

/-- What is sent for a text is ASCII, and the text comes back from it and is found to be
well-formed. -/
theorem decoder_encoder (srcTo32 : Transcoder Char32 Char32) (t32To16 : Transcoder Char32 Char16)
    (hexTo32 : Transcoder Char16 Char32) (hsrc : srcTo32.Transcodes utf32 utf32)
    (h16 : t32To16.Transcodes utf32 utf16) (hhex : hexTo32.Transcodes utf16 utf32)
    (text : List Char) :
    (∀ b ∈ ((encoder srcTo32 t32To16).transcode (text.map codePoint)).2, b < 0x80) ∧
    ((decoder hexTo32).transcode
      ((encoder srcTo32 t32To16).transcode (text.map codePoint)).2).2 = text.map codePoint ∧
    (decoder hexTo32).wellFormed ((decoder hexTo32).transcode
      ((encoder srcTo32 t32To16).transcode (text.map codePoint)).2).1 = true := by
  obtain ⟨hsent, -⟩ := (encoder_transcodes hsrc h16).transcode text
  obtain ⟨hread, hgood⟩ := (decoder_transcodes hhex @utf32_ascii).transcode text
  rw [← flatMap_utf32, hsent, hread]
  refine ⟨?_, rfl, hgood⟩
  intro b hb
  obtain ⟨c, -, hmem⟩ := List.mem_flatMap.1 hb
  exact lt_of_mem_ci7 hmem

/-- A backslash before a `u`, the last of ASCII and what follows it, and two surrogate pairs. -/
theorem decoder_encoder_surrogates :
    (∀ b ∈ ((encoder (.ofUtf32 utf32) (.ofUtf32 utf16)).transcode
      (['\\', 'u', '\x7F', '\u0080', '𐀗', '𐀛'].map codePoint)).2, b < 0x80) ∧
    ((decoder .utf16To32).transcode ((encoder (.ofUtf32 utf32) (.ofUtf32 utf16)).transcode
      (['\\', 'u', '\x7F', '\u0080', '𐀗', '𐀛'].map codePoint)).2).2 =
      ['\\', 'u', '\x7F', '\u0080', '𐀗', '𐀛'].map codePoint ∧
    (decoder .utf16To32).wellFormed ((decoder .utf16To32).transcode
      ((encoder (.ofUtf32 utf32) (.ofUtf32 utf16)).transcode
        (['\\', 'u', '\x7F', '\u0080', '𐀗', '𐀛'].map codePoint)).2).1 = true :=
  decoder_encoder (.ofUtf32 utf32) (.ofUtf32 utf16) .utf16To32 (Transcoder.ofUtf32_transcodes utf32)
    (Transcoder.ofUtf32_transcodes utf16) Transcoder.utf16To32_transcodes
    ['\\', 'u', '\x7F', '\u0080', '𐀗', '𐀛']

end Midi2.Ci7Text
