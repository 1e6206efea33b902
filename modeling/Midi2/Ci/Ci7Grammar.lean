import Midi2.Ci.Ci7Text

/-!
# The texts that the decoder accepts (`ci7text.hpp`)

Not everything is a text in seven bits: a character may be no ASCII, a backslash may begin no
escape, and the surrogates among the escapes may not be in pairs (`Grammatical`). The decoder
makes a note of the first two and goes on. The third it leaves to the transcoder to which it
gives the code units, and which it tells of the end of a text before each character that is not
one. So the escapes are one text for it between every two such characters (`texts`).

`accepts_iff` takes a text apart into characters and escapes: if the decoder accepts it, it
begins with one of them (`exists_spells`), and after it the decoder is where it was
(`run_spells`). What remains is in the hands of the other transcoder, of which it is known that
it finds out whether UTF-16 is well-formed (`Transcoder.Checks`).
-/

namespace Midi2.Ci7Text

open Transcoder

/-! ## The grammar -/

/-- What a character or an escape is: a code unit of UTF-16, or something else. -/
abbrev Item := Option Char16

/-- What may follow a backslash alone. -/
def shortEscapes : List Byte :=
  [chr 'b', chr 'f', chr 'n', chr 'r', chr 't', chr '"', chr '\\', chr '/']

/-- One character or escape. -/
inductive Spells : List Byte → Item → Prop
  | plain {c : Byte} (ascii : c < 0x80) (not_backslash : c ≠ chr '\\') : Spells [c] none
  | short {c : Byte} (h : c ∈ shortEscapes) : Spells [chr '\\', c] none
  | unit {u : Char16} {a b c d : Byte} (ha : HexDigit (u.extractLsb' 12 4) a)
      (hb : HexDigit (u.extractLsb' 8 4) b) (hc : HexDigit (u.extractLsb' 4 4) c)
      (hd : HexDigit (u.extractLsb' 0 4) d) :
      Spells [chr '\\', chr 'u', a, b, c, d] (some u)

/-- One after the other. -/
inductive Parses : List Byte → List Item → Prop
  | nil : Parses [] []
  | cons {part text : List Byte} {item : Item} {items : List Item} (first : Spells part item)
      (rest : Parses text items) : Parses (part ++ text) (item :: items)

/-- A surrogate is either a high one, with a low one right after it, or that low one. -/
inductive Paired : List Item → Prop
  | nil : Paired []
  | other {items : List Item} (rest : Paired items) : Paired (none :: items)
  | one {u : Char16} {items : List Item} (not_high : ¬IsHighSurrogate u)
      (not_low : ¬IsLowSurrogate u) (rest : Paired items) : Paired (some u :: items)
  | pair {high low : Char16} {items : List Item} (is_high : IsHighSurrogate high)
      (is_low : IsLowSurrogate low) (rest : Paired items) :
      Paired (some high :: some low :: items)

/-- The texts in seven bits. -/
def Grammatical (text : List Byte) : Prop :=
  ∃ items, Parses text items ∧ Paired items

/-! ## One step of the decoder -/

section Decoding

variable {w : Nat} {hexTo32 : Transcoder Char16 (BitVec w)} {d : Decoder hexTo32.State}
  {s : hexTo32.State} {c : Byte} {text : List Byte}

/-- The rest of the text is accepted. -/
def Accepts (d : Decoder hexTo32.State) (text : List Byte) : Prop :=
  ((decoder hexTo32).endCp ((decoderMachine hexTo32).run d text).1).1.wellFormed = true

theorem accepts_append (part : List Byte) :
    Accepts d (part ++ text) ↔ Accepts ((decoderMachine hexTo32).run d part).1 text := by
  rw [Accepts, Accepts, Machine.run_append]

theorem accepts_cons :
    Accepts d (c :: text) ↔ Accepts ((decoderMachine hexTo32).step d c).1 text :=
  accepts_append [c]

/-- What the decoder does not take note of. -/
def Allowed (state : State) (c : Byte) : Prop :=
  c &&& 1 <<< 7 = 0 ∧
  match state with
  | .normal => True
  | .escape => c = chr 'u' ∨ (escaped c).isSome
  | .hex1 | .hex2 | .hex3 | .hex4 => (hexDelta c).isSome

theorem hexChar_wellFormed :
    (d.hexChar c).1.wellFormed = true ↔ d.wellFormed = true ∧ (hexDelta c).isSome := by
  unfold Decoder.hexChar
  cases hexDelta c with
  | none => simp only [Option.isSome_none, Bool.false_eq_true, and_false]
  | some delta => simp only [Option.isSome_some, and_true]

theorem escapeChar_wellFormed : (escapeChar hexTo32 d c).1.wellFormed = true ↔
    d.wellFormed = true ∧ (c = chr 'u' ∨ (escaped c).isSome) := by
  unfold escapeChar
  split
  · rename_i hu
    simp only [hu, true_or, and_true]
  · rename_i hu
    cases escaped c with
    | none => simp only [put, hu, Option.isSome_none, Bool.false_eq_true, or_self, and_false]
    | some e => simp only [put, Option.isSome_some, or_true, and_true]

theorem step_wellFormed : ((decoderMachine hexTo32).step d c).1.wellFormed = true ↔
    d.wellFormed = true ∧ Allowed d.state c := by
  simp only [decoderMachine, Allowed]
  by_cases hbit : c &&& 1 <<< 7 = 0
  · rw [if_neg (not_not.2 hbit)]
    simp only [hbit, true_and]
    have hdigit := @hexChar_wellFormed _ _ d c
    cases hstate : d.state with
    | normal =>
        simp only [and_true]
        split <;> rfl
    | escape => exact escapeChar_wellFormed
    | hex1 | hex2 | hex3 | hex4 =>
        simp only [← hdigit]
        rcases d.hexChar c with ⟨d', _ | _⟩ <;> rfl
  · rw [if_pos hbit]
    simp only [hbit, false_and, and_false, Bool.false_eq_true]

theorem Accepts.wellFormed (h : Accepts d text) : d.wellFormed = true := by
  induction text generalizing d with
  | nil =>
      simp only [Accepts, Machine.run_nil, decoder] at h
      split at h
      · cases h
      · exact h
  | cons c text ih => exact (step_wellFormed.1 (ih (accepts_cons.1 h))).1

theorem Accepts.allowed (h : Accepts d (c :: text)) : Allowed d.state c :=
  (step_wellFormed.1 (accepts_cons.1 h).wellFormed).2

/-- A text does not end in the middle of an escape. -/
theorem Accepts.state (h : Accepts d []) : d.state = .normal := by
  by_contra hd
  simp only [Accepts, Machine.run_nil, decoder, hd, ne_eq, not_false_eq_true, or_true, if_true,
    Bool.false_eq_true] at h

theorem accepts_nil (hd : Ready d s) :
    Accepts d [] ↔ hexTo32.wellFormed (hexTo32.endCp s).1 = true := by
  obtain ⟨hgood, hstate, hs⟩ := hd
  simp only [Accepts, Machine.run_nil, decoder, hgood, hstate, hs, ne_eq, not_true_eq_false,
    or_false]
  cases hexTo32.wellFormed (hexTo32.endCp s).1 with
  | false => rfl
  | true => rfl

/-! ## One character or escape -/

theorem and_bit_eq_zero : ∀ c : Byte, c &&& 1 <<< 7 = 0 ↔ c < 0x80 := by
  decide

theorem escaped_isSome : ∀ c : Byte, (escaped c).isSome ↔ c ∈ shortEscapes := by
  decide

theorem ascii_of_mem : ∀ {c : Byte}, c ∈ shortEscapes → c &&& 1 <<< 7 = 0 ∧ c ≠ chr 'u' := by
  decide

theorem exists_hexDigit : ∀ {c : Byte}, (hexDelta c).isSome → ∃ v, HexDigit v c := by
  decide +kernel

/-- What the transcoder from UTF-16 is given. -/
def feed (s : hexTo32.State) : Item → hexTo32.State
  | none => (hexTo32.endCp s).1
  | some u => (hexTo32.machine.step s u).1

/-- Between two characters or escapes, the decoder only depends on that transcoder. -/
theorem run_spells (hd : Ready d s) {part : List Byte} {item : Item} (h : Spells part item) :
    Ready ((decoderMachine hexTo32).run d part).1 (feed s item) := by
  cases h with
  | @plain c ascii not_backslash =>
      rw [Machine.run_singleton, step_plain hd.state ((and_bit_eq_zero c).2 ascii) not_backslash]
      exact ⟨hd.wellFormed, hd.state, congrArg (fun s => (hexTo32.endCp s).1) hd.hexTo32⟩
  | @short c h =>
      obtain ⟨hbit, hu⟩ := ascii_of_mem h
      obtain ⟨e, he⟩ := Option.isSome_iff_exists.1 ((escaped_isSome c).2 h)
      rw [Machine.run_cons, step_backslash hd.state, Machine.run_singleton,
        step_short rfl hbit hu he]
      exact ⟨hd.wellFormed, rfl, congrArg (fun s => (hexTo32.endCp s).1) hd.hexTo32⟩
  | unit ha hb hc he =>
      rw [run_digits hd.state ha hb hc he, hd.hexTo32]
      exact ⟨hd.wellFormed, rfl, rfl⟩

/-- In the middle of an escape there is another character. -/
theorem Accepts.exists_cons (h : Accepts d text) (hd : d.state ≠ .normal) :
    ∃ c rest, text = c :: rest ∧ c &&& 1 <<< 7 = 0 ∧ Allowed d.state c := by
  cases text with
  | nil => exact absurd h.state hd
  | cons c rest => exact ⟨c, rest, rfl, h.allowed.1, h.allowed⟩

/-- In the middle of a code unit it is a digit. -/
theorem Accepts.exists_digit (h : Accepts d text)
    (hd : d.state = .hex1 ∨ d.state = .hex2 ∨ d.state = .hex3 ∨ d.state = .hex4) :
    ∃ v c rest, text = c :: rest ∧ HexDigit v c := by
  have hstate : d.state ≠ .normal := by
    rcases hd with hd | hd | hd | hd
    all_goals
      rw [hd]
      decide
  obtain ⟨c, rest, rfl, -, -, hdigit⟩ := h.exists_cons hstate
  have hsome : (hexDelta c).isSome := by
    rcases hd with hd | hd | hd | hd
    all_goals
      rw [hd] at hdigit
      exact hdigit
  obtain ⟨v, hv⟩ := exists_hexDigit hsome
  exact ⟨v, c, rest, rfl, hv⟩

/-- The code unit of four digits. -/
theorem digits_join (va vb vc vd : BitVec 4) :
    ∃ u : Char16, u.extractLsb' 12 4 = va ∧ u.extractLsb' 8 4 = vb ∧ u.extractLsb' 4 4 = vc ∧
      u.extractLsb' 0 4 = vd := by
  refine ⟨va ++ vb ++ vc ++ vd, ?_, ?_, ?_, ?_⟩
  all_goals
    refine BitVec.eq_of_getLsbD_eq fun i hi => ?_
    simp only [BitVec.getLsbD_extractLsb', BitVec.getLsbD_append]
    interval_cases i <;> simp

/-- After `\u` there are the digits of a code unit. -/
theorem Accepts.exists_digits (h : Accepts d text) (hd : d.state = .hex1) :
    ∃ part u rest, text = part ++ rest ∧ Spells (chr '\\' :: chr 'u' :: part) (some u) := by
  obtain ⟨va, a, text, rfl, ha⟩ := h.exists_digit (Or.inl hd)
  rw [accepts_cons, step_hex (Or.inl hd) ha, hd] at h
  obtain ⟨vb, b, text, rfl, hb⟩ := h.exists_digit (Or.inr (Or.inl rfl))
  rw [accepts_cons, step_hex (Or.inr (Or.inl rfl)) hb] at h
  obtain ⟨vc, c, text, rfl, hc⟩ := h.exists_digit (Or.inr (Or.inr (Or.inl rfl)))
  rw [accepts_cons, step_hex (Or.inr (Or.inr rfl)) hc] at h
  obtain ⟨ve, e, text, rfl, he⟩ := h.exists_digit (Or.inr (Or.inr (Or.inr rfl)))
  obtain ⟨u, rfl, rfl, rfl, rfl⟩ := digits_join va vb vc ve
  exact ⟨[a, b, c, e], u, text, rfl, .unit ha hb hc he⟩

/-- A text that is accepted begins with a character or an escape. -/
theorem Accepts.exists_spells (h : Accepts d (c :: text)) (hd : d.state = .normal) :
    ∃ part item rest, c :: text = part ++ rest ∧ Spells part item ∧ part ≠ [] := by
  by_cases hc : c = chr '\\'
  · subst hc
    rw [accepts_cons, step_backslash hd] at h
    obtain ⟨c, rest, rfl, hbit, hallowed⟩ := h.exists_cons (State.noConfusion ·)
    by_cases hu : c = chr 'u'
    · subst hu
      rw [accepts_cons, step_u rfl] at h
      obtain ⟨part, u, rest, rfl, hspells⟩ := h.exists_digits rfl
      exact ⟨_, _, rest, rfl, hspells, List.cons_ne_nil _ _⟩
    · have hshort := (escaped_isSome c).1 (hallowed.2.resolve_left hu)
      exact ⟨[chr '\\', c], none, rest, rfl, .short hshort, List.cons_ne_nil _ _⟩
  · have hascii := (and_bit_eq_zero c).1 h.allowed.1
    exact ⟨[c], none, text, rfl, .plain hascii hc, List.cons_ne_nil _ _⟩

/-! ## A whole text -/

/-- A text is accepted if it consists of characters and escapes and the transcoder from UTF-16
finds nothing wrong with them. -/
theorem accepts_iff (hd : Ready d s) : Accepts d text ↔
    ∃ items, Parses text items ∧
      hexTo32.wellFormed (hexTo32.endCp (items.foldl feed s)).1 = true := by
  constructor
  · intro h
    induction hn : text.length using Nat.strong_induction_on generalizing d s text with
    | _ n ih =>
        cases text with
        | nil => exact ⟨[], .nil, (accepts_nil hd).1 h⟩
        | cons c text =>
            obtain ⟨part, item, rest, hsplit, hspells, hne⟩ := h.exists_spells hd.state
            have hlt : rest.length < n := by
              rw [← hn, hsplit, List.length_append]
              have := List.length_pos_of_ne_nil hne
              omega
            rw [hsplit, accepts_append] at h
            obtain ⟨items, hparses, hgood⟩ := ih _ hlt (run_spells hd hspells) h rfl
            exact ⟨item :: items, hsplit ▸ .cons hspells hparses, hgood⟩
  · rintro ⟨items, hparses, hgood⟩
    induction hparses generalizing d s with
    | nil => exact (accepts_nil hd).2 hgood
    | cons first rest ih =>
        rw [accepts_append]
        exact ih (run_spells hd first) hgood

end Decoding

/-! ## The code units of a text -/

/-- The code units that come one right after the other, up to the first character that is not
one, and then up to the next. -/
def split : List Item → List Char16 × List (List Char16)
  | [] => ([], [])
  | none :: items => ([], (split items).1 :: (split items).2)
  | some u :: items => (u :: (split items).1, (split items).2)

def texts (items : List Item) : List (List Char16) :=
  (split items).1 :: (split items).2

/-- The transcoder from UTF-16 is given these, and told the end of each. -/
theorem endCp_feed {w : Nat} {hexTo32 : Transcoder Char16 (BitVec w)} (s : hexTo32.State)
    (items : List Item) :
    (hexTo32.endCp (items.foldl feed s)).1 = hexTo32.afterTexts s (texts items) := by
  induction items generalizing s with
  | nil => rfl
  | cons item items ih =>
      rw [List.foldl_cons, ih]
      cases item with
      | none => rfl
      | some u => rfl

/-- They are well-formed if the surrogates are in pairs. -/
theorem paired_iff (items : List Item) : Paired items ↔ ∀ us ∈ texts items, Utf16 us := by
  constructor
  · intro h
    induction h with
    | nil => exact List.forall_mem_singleton.2 .nil
    | other _ ih => exact List.forall_mem_cons.2 ⟨.nil, ih⟩
    | one not_high not_low _ ih =>
        obtain ⟨hfirst, hrest⟩ := List.forall_mem_cons.1 ih
        exact List.forall_mem_cons.2 ⟨.one not_high not_low hfirst, hrest⟩
    | pair is_high is_low _ ih =>
        obtain ⟨hfirst, hrest⟩ := List.forall_mem_cons.1 ih
        exact List.forall_mem_cons.2 ⟨.pair is_high is_low hfirst, hrest⟩
  · intro h
    -- A pair takes two items, so there is a hypothesis for either tail.
    induction items using List.twoStepInduction with
    | nil => exact .nil
    | singleton item =>
        cases item with
        | none => exact .other .nil
        | some u =>
            cases List.forall_mem_singleton.1 h with
            | one not_high not_low _ => exact .one not_high not_low .nil
    | cons_cons item next items ih ih' =>
        obtain ⟨hfirst, hrest⟩ := List.forall_mem_cons.1 h
        cases item with
        | none => exact .other (ih' _ hrest)
        | some u =>
            by_cases hhigh : IsHighSurrogate u
            · obtain ⟨low, rest, hlow, is_low, hrest'⟩ := (Utf16.cons_of_high hhigh).1 hfirst
              cases next with
              | none => cases hlow
              | some u' =>
                  cases hlow
                  exact .pair hhigh is_low (ih (List.forall_mem_cons.2 ⟨hrest', hrest⟩))
            · have hlow : ¬IsLowSurrogate u := fun hlow => Utf16.not_cons_of_low hlow hfirst
              have htail := (Utf16.cons_of_not_surrogate hhigh hlow).1 hfirst
              exact .one hhigh hlow (ih' _ (List.forall_mem_cons.2 ⟨htail, hrest⟩))

/-! ## What is accepted -/

section Accepting

variable {w : Nat} {hexTo32 : Transcoder Char16 (BitVec w)}

theorem accepts_init_iff (h : hexTo32.Checks utf16) (text : List Byte) :
    Accepts (decoder hexTo32).init text ↔ Grammatical text := by
  have hready : Ready (decoder hexTo32).init hexTo32.init := ⟨rfl, rfl, rfl⟩
  have hgood : ∀ items : List Item,
      hexTo32.wellFormed (hexTo32.endCp (items.foldl feed hexTo32.init)).1 = true ↔
        Paired items := by
    intro items
    rw [endCp_feed, h, paired_iff]
    simp only [encodes_utf16_iff]
  simp only [accepts_iff hready, hgood, Grammatical]

/-- The decoder finds a text well-formed if and only if it is in the grammar. -/
theorem decoder_wellFormed_iff (hexTo32 : Transcoder Char16 (BitVec w))
    (h : hexTo32.Checks utf16) (text : List Byte) :
    (decoder hexTo32).wellFormed ((decoder hexTo32).transcode text).1 = true ↔
      Grammatical text :=
  accepts_init_iff h text

/-- A surrogate pair, a quotation mark after a backslash, and a `u`. -/
theorem decoder_wellFormed_iff_pair :
    (decoder .utf16To32).wellFormed ((decoder .utf16To32).transcode
      (['\\', 'u', 'D', '8', '0', '0', '\\', 'u', 'd', 'c', '1', '7', '\\', '"', 'u'].map
        chr)).1 = true ↔
      Grammatical
        (['\\', 'u', 'D', '8', '0', '0', '\\', 'u', 'd', 'c', '1', '7', '\\', '"', 'u'].map
          chr) :=
  decoder_wellFormed_iff .utf16To32 utf16To32_checks _

/-- What the encoder sends for a text is in the grammar. -/
theorem grammatical_ci7 (cs : List Char) : Grammatical (cs.flatMap ci7) := by
  obtain ⟨-, hgood⟩ := (decoder_transcodes utf16To32_transcodes @utf32_ascii).transcode cs
  exact (accepts_init_iff utf16To32_checks _).1 hgood

end Accepting

end Midi2.Ci7Text
