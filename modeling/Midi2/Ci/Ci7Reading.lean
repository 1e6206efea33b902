import Midi2.Ci.Ci7Grammar

/-!
# What a text in seven bits says (`ci7text.hpp`)

The encoder writes a text in one way, but there are others: a code unit may have small digits, a
character of ASCII may be in an escape, and some have a short escape of their own. `Reads` is what
such a text says, whoever has written it. The decoder accepts a text and puts out some characters
if and only if this is what it says (`decoder_iff`).

So a text that is decoded and encoded again says the same. It is not longer than it was, and is
what it was if and only if the encoder has written it (`reencoded`).
-/

namespace Midi2.Ci7Text

/-- The characters that have a short escape, with what is after its backslash. -/
def shortChars : List (Byte × Char) :=
  [(chr 'b', '\x08'), (chr 'f', '\x0C'), (chr 'n', '\n'), (chr 'r', '\r'), (chr 't', '\t'),
    (chr '"', '"'), (chr '\\', '\\'), (chr '/', '/')]

/-- An escape for each of the code units. -/
def SpellsUnits (us : List Char16) (parts : List (List Byte)) : Prop :=
  List.Forall₂ (fun u part => Spells part (some u)) us parts

/-- The text says these characters. -/
inductive Reads : List Byte → List Char → Prop
  | nil : Reads [] []
  | plain {c : Char} {text : List Byte} {cs : List Char} (ascii : c.toNat < 0x80)
      (not_backslash : c ≠ '\\') (rest : Reads text cs) : Reads (chr c :: text) (c :: cs)
  | short {b : Byte} {c : Char} {text : List Byte} {cs : List Char} (h : (b, c) ∈ shortChars)
      (rest : Reads text cs) : Reads (chr '\\' :: b :: text) (c :: cs)
  | escaped {c : Char} {parts : List (List Byte)} {text : List Byte} {cs : List Char}
      (h : SpellsUnits (utf16 c) parts) (rest : Reads text cs) :
      Reads (parts.flatten ++ text) (c :: cs)

theorem short_chars : ∀ x ∈ shortChars,
    x.1 &&& 1 <<< 7 = 0 ∧ x.1 ≠ chr 'u' ∧ escaped x.1 = some (chr x.2) ∧ x.2.toNat < 0x80 := by
  decide

/-! ## What the decoder puts out -/

section Decoding

variable {w : Nat} {hexTo32 : Transcoder Char16 (BitVec w)} {enc : Char → List (BitVec w)}
  {Idle : hexTo32.State → Prop} {d : Decoder hexTo32.State} {s : hexTo32.State}
  {text : List Byte} {cs : List Char}

/-- The transcoder from UTF-16 is given the code units of escapes. -/
theorem run_units {us : List Char16} {parts : List (List Byte)} (h : SpellsUnits us parts)
    (hd : Ready d s) :
    Ready ((decoderMachine hexTo32).run d parts.flatten).1 (hexTo32.machine.run s us).1 ∧
      ((decoderMachine hexTo32).run d parts.flatten).2 = (hexTo32.machine.run s us).2 := by
  induction h generalizing d s with
  | nil => exact ⟨hd, rfl⟩
  | @cons u part us parts hpart _ ih =>
      cases hpart with
      | unit ha hb hc he =>
          have hnext : Ready _ _ := run_spells hd (.unit ha hb hc he)
          rw [run_digits hd.state ha hb hc he, hd.hexTo32] at hnext
          obtain ⟨hready, hout⟩ := ih hnext
          rw [List.flatten_cons, Machine.run_append, run_digits hd.state ha hb hc he, hd.hexTo32,
            Machine.run_cons]
          exact ⟨hready, congrArg _ hout⟩

theorem run_reads (h : hexTo32.IdleIn utf16 enc Idle)
    (hascii : ∀ c, c.toNat < 0x80 → enc c = [(chr c).setWidth w]) (hr : Reads text cs)
    (hs : Idle s) (hd : Ready d s) :
    (∃ s, Idle s ∧ Ready ((decoderMachine hexTo32).run d text).1 s) ∧
      ((decoderMachine hexTo32).run d text).2 = cs.flatMap enc := by
  induction hr generalizing d s with
  | nil => exact ⟨⟨s, hs, hd⟩, rfl⟩
  | @plain c text cs ascii not_backslash _ ih =>
      have hbit : chr c &&& 1 <<< 7 = 0 := chr_ascii c.toNat ascii
      have hplain : chr c ≠ chr '\\' := mt (chr_eq_backslash ascii).1 not_backslash
      obtain ⟨s', hs', hput⟩ := put_idle h (hd.hexTo32 ▸ hs : Idle d.hexTo32) (chr c)
      have hnext : Ready { d with hexTo32 := s' } s' := ⟨hd.wellFormed, hd.state, rfl⟩
      obtain ⟨hready, hout⟩ := ih hs' hnext
      rw [Machine.run_cons, step_plain hd.state hbit hplain, hput, List.flatMap_cons,
        hascii c ascii]
      exact ⟨hready, congrArg _ hout⟩
  | @short b c text cs hmem _ ih =>
      obtain ⟨hbit, hu, hescaped, ascii⟩ := short_chars (b, c) hmem
      obtain ⟨s', hs', hput⟩ := @put_idle _ _ { d with state := .escape } _ _ h
        (hd.hexTo32 ▸ hs : Idle d.hexTo32) (chr c)
      have hnext : Ready { d with state := .normal, hexTo32 := s' } s' :=
        ⟨hd.wellFormed, rfl, rfl⟩
      obtain ⟨hready, hout⟩ := ih hs' hnext
      rw [Machine.run_cons, step_backslash hd.state, Machine.run_cons,
        step_short rfl hbit hu hescaped, hput, List.flatMap_cons, hascii c ascii]
      exact ⟨hready, congrArg _ hout⟩
  | @escaped c parts text cs hparts _ ih =>
      obtain ⟨hready, hout⟩ := run_units hparts hd
      obtain ⟨hidle, henc⟩ := h.codePoint c hs
      obtain ⟨hready', hout'⟩ := ih hidle hready
      rw [Machine.run_append, List.flatMap_cons, ← henc, hout]
      exact ⟨hready', congrArg _ hout'⟩

/-- The decoder accepts a text that says something, and puts this out. -/
theorem decoder_reads (h : hexTo32.Transcodes utf16 enc)
    (hascii : ∀ c, c.toNat < 0x80 → enc c = [(chr c).setWidth w]) (hr : Reads text cs) :
    ((decoder hexTo32).transcode text).2 = cs.flatMap enc ∧
      Accepts (decoder hexTo32).init text := by
  obtain ⟨Idle, h⟩ := h
  have hready : Ready (decoder hexTo32).init hexTo32.init := ⟨rfl, rfl, rfl⟩
  obtain ⟨⟨s, hs, hend⟩, hout⟩ := run_reads h hascii hr h.init hready
  obtain ⟨hidle, hnone⟩ := h.endCp hs
  have hlast : (hexTo32.endCp
      ((decoderMachine hexTo32).run (decoder hexTo32).init text).1.hexTo32).2 = [] := by
    rw [hend.hexTo32]
    exact hnone
  refine ⟨(congrArg₂ (· ++ ·) hout hlast).trans (List.append_nil _), ?_⟩
  have hall := (@accepts_append w hexTo32 (decoder hexTo32).init [] text).2
    ((accepts_nil hend).2 (h.wellFormed hidle))
  rwa [List.append_nil] at hall

end Decoding

/-! ## What is in the grammar -/

theorem exists_chr : ∀ b : Byte, b < 0x80 → ∃ c : Char, c.toNat < 0x80 ∧ chr c = b := by
  intro b hb
  obtain ⟨c, hc⟩ := @exists_char b.toNat (Or.inl (Nat.lt_trans b.isLt (by decide)))
  refine ⟨c, hc ▸ BitVec.lt_def.1 hb, ?_⟩
  rw [chr, hc, BitVec.ofNat_toNat, BitVec.setWidth_eq]

theorem exists_short : ∀ b ∈ shortEscapes, ∃ c, (b, c) ∈ shortChars := by
  have hall : shortEscapes = shortChars.map Prod.fst := rfl
  intro b hb
  rw [hall, List.mem_map] at hb
  obtain ⟨⟨b, c⟩, hmem, rfl⟩ := hb
  exact ⟨c, hmem⟩

/-- Every text of the grammar says something. -/
theorem exists_reads {items : List Item} (h : Paired items) {text : List Byte}
    (hparses : Parses text items) : ∃ cs, Reads text cs := by
  induction h generalizing text with
  | nil =>
      cases hparses
      exact ⟨[], .nil⟩
  | other _ ih =>
      cases hparses with
      | cons first rest =>
          obtain ⟨cs, hcs⟩ := ih rest
          cases first with
          | plain ascii not_backslash =>
              obtain ⟨c, hc, rfl⟩ := exists_chr _ ascii
              exact ⟨c :: cs, .plain hc (mt (chr_eq_backslash hc).2 not_backslash) hcs⟩
          | short hmem =>
              obtain ⟨c, hc⟩ := exists_short _ hmem
              exact ⟨c :: cs, .short hc hcs⟩
  | one not_high not_low _ ih =>
      cases hparses with
      | @cons part _ _ _ first rest =>
          obtain ⟨cs, hcs⟩ := ih rest
          obtain ⟨c, hc⟩ := Transcoder.Utf16.exists_one not_high not_low
          have hunits : SpellsUnits (utf16 c) [part] := hc ▸ .cons first .nil
          have hreads := Reads.escaped hunits hcs
          rw [List.flatten_singleton] at hreads
          exact ⟨c :: cs, hreads⟩
  | pair is_high is_low _ ih =>
      cases hparses with
      | @cons part _ _ _ first rest =>
          cases rest with
          | @cons part' _ _ _ second rest =>
              obtain ⟨cs, hcs⟩ := ih rest
              obtain ⟨c, hc⟩ := Transcoder.Utf16.exists_pair is_high is_low
              have hunits : SpellsUnits (utf16 c) [part, part'] :=
                hc ▸ .cons first (.cons second .nil)
              have hreads := Reads.escaped hunits hcs
              rw [List.flatten_cons, List.flatten_singleton, List.append_assoc] at hreads
              exact ⟨c :: cs, hreads⟩

/-- It says one thing only. -/
theorem Reads.unique {text : List Byte} {cs cs' : List Char} (h : Reads text cs)
    (h' : Reads text cs') : cs = cs' := by
  have hinjective : Function.Injective codePoint := fun c c' hc =>
    Char.toNat_inj.1 (congrArg BitVec.toNat hc)
  obtain ⟨hout, -⟩ := decoder_reads Transcoder.utf16To32_transcodes @utf32_ascii h
  obtain ⟨hout', -⟩ := decoder_reads Transcoder.utf16To32_transcodes @utf32_ascii h'
  rw [hout, flatMap_utf32, flatMap_utf32] at hout'
  exact List.map_injective_iff.2 hinjective hout'

/-- The decoder accepts a text and puts out characters if and only if the text says them. -/
theorem decoder_iff (hexTo32 : Transcoder Char16 Char32) (h : hexTo32.Transcodes utf16 utf32)
    (hchecks : hexTo32.Checks utf16) (text : List Byte) (cs : List Char) :
    ((decoder hexTo32).wellFormed ((decoder hexTo32).transcode text).1 = true ∧
      ((decoder hexTo32).transcode text).2 = cs.map codePoint) ↔ Reads text cs := by
  have hinjective : Function.Injective codePoint := fun c c' hc =>
    Char.toNat_inj.1 (congrArg BitVec.toNat hc)
  constructor
  · rintro ⟨hgood, hout⟩
    obtain ⟨items, hparses, hpaired⟩ := (accepts_init_iff hchecks text).1 hgood
    obtain ⟨cs', hreads⟩ := exists_reads hpaired hparses
    have hout' := (decoder_reads h @utf32_ascii hreads).1
    rw [hout, flatMap_utf32] at hout'
    exact (List.map_injective_iff.2 hinjective hout') ▸ hreads
  · intro hreads
    obtain ⟨hout, hgood⟩ := decoder_reads h @utf32_ascii hreads
    exact ⟨hgood, by rw [hout, flatMap_utf32]⟩

/-- A pair of surrogates with small digits, a short escape and a character in an escape. -/
def spelled : List Byte :=
  ['\\', 'u', 'd', '8', '0', '0', '\\', 'u', 'd', 'c', '1', '7', '\\', 'n', '\\', 'u', '0', '0',
    '4', '1'].map chr

theorem reads_spelled : Reads spelled ['𐀗', '\n', 'A'] := by
  have hhigh : Spells (['\\', 'u', 'd', '8', '0', '0'].map chr) (some 0xD800#16) :=
    .unit (by decide) (by decide) (by decide) (by decide)
  have hlow : Spells (['\\', 'u', 'd', 'c', '1', '7'].map chr) (some 0xDC17#16) :=
    .unit (by decide) (by decide) (by decide) (by decide)
  have hA : Spells (['\\', 'u', '0', '0', '4', '1'].map chr) (some 0x41#16) :=
    .unit (by decide) (by decide) (by decide) (by decide)
  have hpair : SpellsUnits (utf16 '𐀗') [_, _] := .cons hhigh (.cons hlow .nil)
  have hone : SpellsUnits (utf16 'A') [_] := .cons hA .nil
  exact .escaped hpair (.short (b := chr 'n') (c := '\n') (by decide) (.escaped hone .nil))

theorem decoder_iff_spelled :
    (decoder .utf16To32).wellFormed ((decoder .utf16To32).transcode spelled).1 = true ∧
      ((decoder .utf16To32).transcode spelled).2 = ['𐀗', '\n', 'A'].map codePoint :=
  (decoder_iff .utf16To32 Transcoder.utf16To32_transcodes Transcoder.utf16To32_checks spelled
    ['𐀗', '\n', 'A']).2 reads_spelled

/-! ## Encoding again -/

theorem spells_escape (u : Char16) : Spells (escape u) (some u) := by
  rw [escape_eq]
  exact .unit (hexDigit_toHex _) (hexDigit_toHex _) (hexDigit_toHex _) (hexDigit_toHex _)

theorem spellsUnits_escape (us : List Char16) : SpellsUnits us (us.map escape) := by
  induction us with
  | nil => exact .nil
  | cons u us ih => exact .cons (spells_escape u) ih

/-- What the encoder writes says what it was given. -/
theorem reads_ci7 (cs : List Char) : Reads (cs.flatMap ci7) cs := by
  induction cs with
  | nil => exact .nil
  | cons c cs ih =>
      rw [List.flatMap_cons, ci7]
      split
      case isTrue hc =>
        subst hc
        exact .short (by decide) ih
      case isFalse hc =>
        split
        case isTrue ascii => exact .plain ascii hc ih
        case isFalse =>
          rw [List.flatMap_def]
          exact .escaped (spellsUnits_escape (utf16 c)) ih

theorem length_spellsUnits {us : List Char16} {parts : List (List Byte)}
    (h : SpellsUnits us parts) : parts.flatten.length = 6 * us.length := by
  induction h with
  | nil => rfl
  | @cons u part us parts hpart _ ih =>
      have hlen : part.length = 6 := by
        cases hpart
        rfl
      rw [List.flatten_cons, List.length_append, ih, hlen, List.length_cons]
      omega

theorem length_ci7_ascii {c : Char} (ascii : c.toNat < 0x80) :
    (ci7 c).length = if c = '\\' then 2 else 1 := by
  rw [ci7]
  split
  case isTrue => rfl
  case isFalse => rfl

/-- Nothing that says the same is shorter. -/
theorem Reads.length_ci7 {text : List Byte} {cs : List Char} (h : Reads text cs) :
    (cs.flatMap ci7).length ≤ text.length := by
  induction h with
  | nil => exact Nat.le_refl 0
  | plain ascii not_backslash _ ih =>
      rw [List.flatMap_cons, List.length_append, length_ci7_ascii ascii, if_neg not_backslash,
        List.length_cons]
      omega
  | short hmem _ ih =>
      have hlen := length_ci7_ascii (short_chars _ hmem).2.2.2
      rw [List.flatMap_cons, List.length_append, hlen, List.length_cons, List.length_cons]
      split
      case isTrue => omega
      case isFalse => omega
  | @escaped c parts _ _ hparts _ ih =>
      have hlen := length_spellsUnits hparts
      have hunits : 0 < (utf16 c).length := by
        rcases Transcoder.utf16_cases c with ⟨u, hu, -⟩ | ⟨high, low, hu, -⟩
        · rw [hu]
          exact Nat.one_pos
        · rw [hu]
          exact Nat.two_pos
      have hci7 : (ci7 c).length ≤ 6 * (utf16 c).length := by
        by_cases ascii : c.toNat < 0x80
        · rw [length_ci7_ascii ascii]
          split
          case isTrue => omega
          case isFalse => omega
        · have hne : c ≠ '\\' := by
            rintro rfl
            exact ascii (by decide)
          rw [ci7, if_neg hne, if_neg ascii, List.flatMap_def,
            length_spellsUnits (spellsUnits_escape (utf16 c))]
      rw [List.flatMap_cons, List.length_append, List.length_append, hlen]
      omega

/-- A text of the grammar that is decoded and encoded again says the same and is not longer. It
stays as it is if and only if it is what the encoder writes for some text. -/
theorem reencoded (srcTo32 : Transcoder Char32 Char32) (t32To16 : Transcoder Char32 Char16)
    (hexTo32 : Transcoder Char16 Char32) (hsrc : srcTo32.Transcodes utf32 utf32)
    (h16 : t32To16.Transcodes utf32 utf16) (hhex : hexTo32.Transcodes utf16 utf32)
    {text : List Byte} (h : Grammatical text) :
    let again := ((encoder srcTo32 t32To16).transcode ((decoder hexTo32).transcode text).2).2
    (∀ cs, Reads again cs ↔ Reads text cs) ∧ again.length ≤ text.length ∧
      (again = text ↔ ∃ cs : List Char,
        text = ((encoder srcTo32 t32To16).transcode (cs.map codePoint)).2) := by
  intro again
  obtain ⟨items, hparses, hpaired⟩ := h
  obtain ⟨cs, hreads⟩ := exists_reads hpaired hparses
  have hencode : ∀ cs : List Char,
      ((encoder srcTo32 t32To16).transcode (cs.map codePoint)).2 = cs.flatMap ci7 := by
    intro cs
    rw [← flatMap_utf32]
    exact ((encoder_transcodes hsrc h16).transcode cs).1
  have hdecoded := (decoder_reads hhex @utf32_ascii hreads).1
  have hagain : again = cs.flatMap ci7 := by
    rw [flatMap_utf32] at hdecoded
    rw [← hencode, ← hdecoded]
  have hsame : Reads again cs := hagain ▸ reads_ci7 cs
  refine ⟨fun cs' => ⟨fun h => ?_, fun h => ?_⟩, hagain ▸ hreads.length_ci7, fun h => ?_, ?_⟩
  · exact h.unique hsame ▸ hreads
  · exact h.unique hreads ▸ hsame
  · exact ⟨cs, by rw [hencode, ← hagain, h]⟩
  · rintro ⟨cs', htext⟩
    rw [hencode] at htext
    have hcs : cs' = cs := (htext ▸ reads_ci7 cs' : Reads text cs').unique hreads
    rw [hagain, htext, hcs]

theorem reencoded_spelled :
    let again := ((encoder (.ofUtf32 utf32) (.ofUtf32 utf16)).transcode
      ((decoder .utf16To32).transcode spelled).2).2
    (∀ cs, Reads again cs ↔ Reads spelled cs) ∧ again.length ≤ spelled.length ∧
      (again = spelled ↔ ∃ cs : List Char,
        spelled = ((encoder (.ofUtf32 utf32) (.ofUtf32 utf16)).transcode (cs.map codePoint)).2) :=
  reencoded (.ofUtf32 utf32) (.ofUtf32 utf16) .utf16To32 (Transcoder.ofUtf32_transcodes utf32)
    (Transcoder.ofUtf32_transcodes utf16) Transcoder.utf16To32_transcodes
    ((accepts_init_iff Transcoder.utf16To32_checks spelled).1
      (decoder_reads Transcoder.utf16To32_transcodes @utf32_ascii reads_spelled).2)

end Midi2.Ci7Text
