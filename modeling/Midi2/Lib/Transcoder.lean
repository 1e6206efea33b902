import Midi2.Lib.Machine

/-!
# Transcoders

A transcoder reads text in one encoding, a code unit at a time, and writes it in another. It
puts a code point out when it has all of it, and reports a code point that the text ends in
the middle of when it is told that the text ends.

`Transcodes` is what is expected of one: between two code points it is in one of the states it
may be in there, and from each of them it goes to another, with the code point put out; that the
text ends is of no consequence there. It does not matter what these states are; so transcoders
that keep very different ones are used in the same way (`Transcodes.transcode`). Unicode's
scalar values are the characters of Lean. Of texts that may not be well-formed, a transcoder is
expected to find out whether they are (`Checks`).

For UTF-16 and UTF-32 there is one transcoder each way (`ofUtf32`, `utf16To32`). UTF-16 is
well-formed if its surrogates are in pairs (`encodes_utf16_iff`), which is what the one from
UTF-16 finds out (`utf16To32_checks`).
-/

/-! ## Encodings -/

/-- A code unit of UTF-32. -/
abbrev Char32 := BitVec 32

/-- A code unit of UTF-16. -/
abbrev Char16 := BitVec 16

/-- The code point, which is what UTF-32 has for it. -/
def codePoint (c : Char) : Char32 :=
  c.val.toBitVec

def utf32 (c : Char) : List Char32 :=
  [codePoint c]

/-- One code unit, or a pair of surrogates. -/
def utf16 (c : Char) : List Char16 :=
  if c.toNat < 0x10000 then [.ofNat 16 c.toNat]
  else [.ofNat 16 (0xD800 + (c.toNat - 0x10000) / 0x400),
    .ofNat 16 (0xDC00 + (c.toNat - 0x10000) % 0x400)]

/-- `text` is well-formed in the encoding `enc`. -/
def Encodes {α : Type} (enc : Char → List α) (text : List α) : Prop :=
  ∃ cs : List Char, text = cs.flatMap enc

theorem flatMap_utf32 (cs : List Char) : cs.flatMap utf32 = cs.map codePoint :=
  List.map_eq_flatMap.symm

theorem toNat_codePoint (c : Char) : (codePoint c).toNat = c.toNat := rfl

theorem exists_char {n : Nat} (h : n.isValidChar) : ∃ c : Char, c.toNat = n :=
  ⟨.ofNatAux n h, rfl⟩

/-! ## Transcoders -/

/-- A transcoder from code units `α` to code units `β`. -/
structure Transcoder (α β : Type) where
  State : Type
  init : State
  machine : Machine α β State
  endCp : State → State × List β
  wellFormed : State → Bool

namespace Transcoder

variable {α β : Type}

/-- What becomes of a whole text. -/
def transcode (t : Transcoder α β) (text : List α) : t.State × List β :=
  let (s, out) := t.machine.run t.init text
  let (s, out') := t.endCp s
  (s, out ++ out')

/-- The states between two code points of a well-formed text are among `Idle`. -/
structure IdleIn (t : Transcoder α β) (src : Char → List α) (dst : Char → List β)
    (Idle : t.State → Prop) : Prop where
  init : Idle t.init
  wellFormed : ∀ {s}, Idle s → t.wellFormed s = true
  codePoint : ∀ {s} c, Idle s →
    Idle (t.machine.run s (src c)).1 ∧ (t.machine.run s (src c)).2 = dst c
  endCp : ∀ {s}, Idle s → Idle (t.endCp s).1 ∧ (t.endCp s).2 = []

/-- The transcoder is one from the encoding `src` to the encoding `dst`. -/
def Transcodes (t : Transcoder α β) (src : Char → List α) (dst : Char → List β) : Prop :=
  ∃ Idle, t.IdleIn src dst Idle

variable {t : Transcoder α β} {src : Char → List α} {dst : Char → List β}

namespace IdleIn

variable {Idle : t.State → Prop}

theorem run (h : t.IdleIn src dst Idle) {s : t.State} (hs : Idle s) (cs : List Char) :
    Idle (t.machine.run s (cs.flatMap src)).1 ∧
    (t.machine.run s (cs.flatMap src)).2 = cs.flatMap dst := by
  have hrun := @Machine.run_eq_flatMap _ _ _ (t.machine.blocks src) Idle cs dst
    (fun c _ s hs => h.codePoint c hs) s hs
  rwa [Machine.run_blocks] at hrun

end IdleIn

/-- A text that is well-formed is found to be, and is the same text afterwards. -/
theorem Transcodes.transcode (h : t.Transcodes src dst) (cs : List Char) :
    (t.transcode (cs.flatMap src)).2 = cs.flatMap dst ∧
    t.wellFormed (t.transcode (cs.flatMap src)).1 = true := by
  obtain ⟨Idle, h⟩ := h
  obtain ⟨hidle, hout⟩ := h.run h.init cs
  obtain ⟨hend, hnone⟩ := h.endCp hidle
  refine ⟨?_, h.wellFormed hend⟩
  show (t.machine.run _ _).2 ++ (t.endCp _).2 = _
  rw [hout, hnone, List.append_nil]

/-! ## Texts that may not be well-formed -/

/-- The state after some texts, of each of which the transcoder has been told the end. -/
def afterTexts (t : Transcoder α β) (s : t.State) (texts : List (List α)) : t.State :=
  texts.foldl (fun s text => (t.endCp (t.machine.run s text).1).1) s

/-- The transcoder finds out whether all texts are well-formed in the encoding `src`. -/
def Checks (t : Transcoder α β) (src : Char → List α) : Prop :=
  ∀ texts,
    t.wellFormed (t.afterTexts t.init texts) = true ↔ ∀ text ∈ texts, Encodes src text

/-! ## From UTF-32 -/

/-- The replacement character takes the place of what is not a scalar value. -/
def replacementChar : Char := '\uFFFD'

/-- The state says whether all was well-formed. -/
def ofUtf32 (dst : Char → List β) : Transcoder Char32 β where
  State := Bool
  init := true
  machine.step s c :=
    if h : (UInt32.ofBitVec c).isValidChar then (s, dst ⟨.ofBitVec c, h⟩)
    else (false, dst replacementChar)
  endCp s := (s, [])
  wellFormed s := s

theorem ofUtf32_transcodes (dst : Char → List β) : (ofUtf32 dst).Transcodes utf32 dst := by
  refine ⟨fun s => s = true, rfl, fun hs => hs, ?_, fun hs => ⟨hs, rfl⟩⟩
  intro s c hs
  have hvalid : (UInt32.ofBitVec (codePoint c)).isValidChar := c.valid
  rw [utf32, Machine.run_singleton]
  simp only [ofUtf32, dif_pos hvalid]
  exact ⟨hs, rfl⟩

/-! ## From UTF-16 to UTF-32 -/

/-- The ten bits of a high surrogate that still needs a low one, and whether all was
well-formed. -/
structure Utf16State where
  high : Option Nat := none
  wellFormed : Bool := true

def IsHighSurrogate (c : Char16) : Prop :=
  0xD800 ≤ c.toNat ∧ c.toNat < 0xDC00

def IsLowSurrogate (c : Char16) : Prop :=
  0xDC00 ≤ c.toNat ∧ c.toNat < 0xE000

instance : DecidablePred IsHighSurrogate := fun _ => inferInstanceAs (Decidable (_ ∧ _))

instance : DecidablePred IsLowSurrogate := fun _ => inferInstanceAs (Decidable (_ ∧ _))

theorem IsHighSurrogate.not_low {u : Char16} (h : IsHighSurrogate u) : ¬IsLowSurrogate u :=
  fun hlow => Nat.not_lt.2 hlow.1 h.2

/-- The code unit is the scalar value, or the scalar value is put together from ten bits of each
surrogate. -/
theorem utf16_cases (c : Char) :
    (∃ u, utf16 c = [u] ∧ ¬IsHighSurrogate u ∧ ¬IsLowSurrogate u ∧ u.toNat = c.toNat) ∨
    ∃ high low, utf16 c = [high, low] ∧ IsHighSurrogate high ∧ IsLowSurrogate low ∧
      0x10000 + (high.toNat - 0xD800) * 0x400 + (low.toNat - 0xDC00) = c.toNat := by
  have hvalid : c.toNat < 0xD800 ∨ 0xDFFF < c.toNat ∧ c.toNat < 0x110000 := c.valid
  rcases Nat.lt_or_ge c.toNat 0x10000 with hlt | hge
  · have hnat : (BitVec.ofNat 16 c.toNat).toNat = c.toNat := by
      rw [BitVec.toNat_ofNat, Nat.mod_eq_of_lt hlt]
    refine Or.inl ⟨_, if_pos hlt, ?_, ?_, hnat⟩
    · rw [IsHighSurrogate, hnat]
      omega
    · rw [IsLowSurrogate, hnat]
      omega
  · have hhigh : (BitVec.ofNat 16 (0xD800 + (c.toNat - 0x10000) / 0x400)).toNat =
        0xD800 + (c.toNat - 0x10000) / 0x400 := by
      rw [BitVec.toNat_ofNat, Nat.mod_eq_of_lt (by omega)]
    have hlow : (BitVec.ofNat 16 (0xDC00 + (c.toNat - 0x10000) % 0x400)).toNat =
        0xDC00 + (c.toNat - 0x10000) % 0x400 := by
      rw [BitVec.toNat_ofNat, Nat.mod_eq_of_lt (by omega)]
    refine Or.inr ⟨_, _, if_neg (Nat.not_lt.2 hge), ?_, ?_, ?_⟩
    · rw [IsHighSurrogate, hhigh]
      omega
    · rw [IsLowSurrogate, hlow]
      omega
    · rw [hhigh, hlow]
      omega

/-- A surrogate without its other half becomes a replacement character. -/
def utf16Machine : Machine Char16 Char32 Utf16State where
  step s c :=
    match s.high with
    | none =>
      if IsHighSurrogate c then ({ s with high := some (c.toNat - 0xD800) }, [])
      else if IsLowSurrogate c then ({ s with wellFormed := false }, utf32 replacementChar)
      else (s, [c.setWidth 32])
    | some high =>
      if IsLowSurrogate c then
        ({ s with high := none }, [.ofNat 32 (0x10000 + high * 0x400 + (c.toNat - 0xDC00))])
      else if IsHighSurrogate c then (⟨some (c.toNat - 0xD800), false⟩, utf32 replacementChar)
      else (⟨none, false⟩, utf32 replacementChar ++ [c.setWidth 32])

def utf16To32 : Transcoder Char16 Char32 where
  State := Utf16State
  init := {}
  machine := utf16Machine
  endCp s :=
    match s.high with
    | none => (s, [])
    | some _ => (⟨none, false⟩, utf32 replacementChar)
  wellFormed s := s.wellFormed

/-- Every scalar value is put together again, whether or not it needs surrogates. -/
theorem run_utf16Machine (c : Char) : utf16Machine.run {} (utf16 c) = ({}, utf32 c) := by
  rcases utf16_cases c with ⟨u, hu, hhigh, hlow, hnat⟩ | ⟨high, low, hu, hhigh, hlow, hnat⟩
  · have hwide : u.setWidth 32 = codePoint c := by
      refine BitVec.eq_of_toNat_eq ?_
      rw [BitVec.toNat_setWidth_of_le (by decide), hnat, toNat_codePoint]
    rw [hu, Machine.run_singleton]
    simp only [utf16Machine, if_neg hhigh, if_neg hlow, hwide]
    rfl
  · have hjoin : BitVec.ofNat 32 c.toNat = codePoint c :=
      BitVec.eq_of_toNat_eq (Nat.mod_eq_of_lt (codePoint c).isLt)
    rw [hu, Machine.run_cons, Machine.run_singleton]
    simp only [utf16Machine, if_pos hhigh, if_pos hlow, hnat, hjoin]
    rfl

theorem utf16To32_transcodes : utf16To32.Transcodes utf16 utf32 := by
  refine ⟨fun s => s = ({} : Utf16State), rfl, fun hs => hs ▸ rfl, ?_, fun hs => ?_⟩
  · rintro s c rfl
    have hrun := run_utf16Machine c
    exact ⟨congrArg Prod.fst hrun, congrArg Prod.snd hrun⟩
  · rw [hs]
    exact ⟨rfl, rfl⟩

/-! ### Well-formed UTF-16 -/

/-- Surrogates are in pairs. -/
inductive Utf16 : List Char16 → Prop
  | nil : Utf16 []
  | one {u : Char16} {us : List Char16} (not_high : ¬IsHighSurrogate u)
      (not_low : ¬IsLowSurrogate u) (rest : Utf16 us) : Utf16 (u :: us)
  | pair {high low : Char16} {us : List Char16} (is_high : IsHighSurrogate high)
      (is_low : IsLowSurrogate low) (rest : Utf16 us) : Utf16 (high :: low :: us)

namespace Utf16

variable {u : Char16} {us : List Char16}

theorem cons_of_not_surrogate (hhigh : ¬IsHighSurrogate u) (hlow : ¬IsLowSurrogate u) :
    Utf16 (u :: us) ↔ Utf16 us := by
  constructor
  · intro h
    cases h with
    | one _ _ rest => exact rest
    | pair is_high _ _ => exact absurd is_high hhigh
  · exact one hhigh hlow

theorem cons_of_high (hhigh : IsHighSurrogate u) :
    Utf16 (u :: us) ↔ ∃ low rest, us = low :: rest ∧ IsLowSurrogate low ∧ Utf16 rest := by
  constructor
  · intro h
    cases h with
    | one not_high _ _ => exact absurd hhigh not_high
    | pair _ is_low rest => exact ⟨_, _, rfl, is_low, rest⟩
  · rintro ⟨low, rest, rfl, is_low, hrest⟩
    exact pair hhigh is_low hrest

theorem not_cons_of_low (hlow : IsLowSurrogate u) : ¬Utf16 (u :: us) := by
  intro h
  cases h with
  | one _ not_low _ => exact not_low hlow
  | pair is_high _ _ => exact is_high.not_low hlow

theorem append_utf16 (c : Char) (h : Utf16 us) : Utf16 (utf16 c ++ us) := by
  rcases utf16_cases c with ⟨u, hu, hhigh, hlow, -⟩ | ⟨high, low, hu, hhigh, hlow, -⟩
  · exact hu ▸ one hhigh hlow h
  · exact hu ▸ pair hhigh hlow h

/-- Every code unit that is not a surrogate is that of a character. -/
theorem exists_one (hhigh : ¬IsHighSurrogate u) (hlow : ¬IsLowSurrogate u) :
    ∃ c, utf16 c = [u] := by
  have hlt := u.isLt
  rw [IsHighSurrogate] at hhigh
  rw [IsLowSurrogate] at hlow
  obtain ⟨c, hc⟩ := @exists_char u.toNat (by unfold Nat.isValidChar; omega)
  rcases utf16_cases c with ⟨u', hu, -, -, hnat⟩ | ⟨high, low, -, -, -, hnat⟩
  · exact ⟨c, hu.trans (congrArg (fun u => [u]) (BitVec.eq_of_toNat_eq (hnat.trans hc)))⟩
  · omega

/-- Every two surrogates are those of a character. -/
theorem exists_pair {high low : Char16} (hhigh : IsHighSurrogate high)
    (hlow : IsLowSurrogate low) : ∃ c, utf16 c = [high, low] := by
  obtain ⟨hhigh, hhigh'⟩ := hhigh
  obtain ⟨hlow, hlow'⟩ := hlow
  obtain ⟨c, hc⟩ := @exists_char
    (0x10000 + (high.toNat - 0xD800) * 0x400 + (low.toNat - 0xDC00))
    (by unfold Nat.isValidChar; omega)
  rcases utf16_cases c with ⟨u, -, -, -, hnat⟩ | ⟨high', low', hu, hh, hl, hnat⟩
  · have hlt := u.isLt
    omega
  · obtain ⟨hh, hh'⟩ := hh
    obtain ⟨hl, hl'⟩ := hl
    have hhighEq : high' = high := BitVec.eq_of_toNat_eq (by omega)
    have hlowEq : low' = low := BitVec.eq_of_toNat_eq (by omega)
    exact ⟨c, by rw [hu, hhighEq, hlowEq]⟩

end Utf16

theorem encodes_utf16_iff (us : List Char16) : Encodes utf16 us ↔ Utf16 us := by
  constructor
  · rintro ⟨cs, rfl⟩
    induction cs with
    | nil => exact .nil
    | cons c cs ih => exact ih.append_utf16 c
  · intro h
    induction h with
    | nil => exact ⟨[], rfl⟩
    | one not_high not_low _ ih =>
        obtain ⟨c, hc⟩ := Utf16.exists_one not_high not_low
        obtain ⟨cs, rfl⟩ := ih
        exact ⟨c :: cs, by rw [List.flatMap_cons, hc, List.singleton_append]⟩
    | pair is_high is_low _ ih =>
        obtain ⟨c, hc⟩ := Utf16.exists_pair is_high is_low
        obtain ⟨cs, rfl⟩ := ih
        exact ⟨c :: cs, by rw [List.flatMap_cons, hc]; rfl⟩

/-- What makes a text well-formed from the state on. -/
def Utf16State.Completes (s : Utf16State) (us : List Char16) : Prop :=
  match s.high with
  | none => Utf16 us
  | some _ => ∃ low rest, us = low :: rest ∧ IsLowSurrogate low ∧ Utf16 rest

theorem utf16Machine_completes (s : Utf16State) (u : Char16) (us : List Char16) :
    (utf16Machine.step s u).1.wellFormed = true ∧ (utf16Machine.step s u).1.Completes us ↔
      s.wellFormed = true ∧ s.Completes (u :: us) := by
  obtain ⟨_ | high, wellFormed⟩ := s
  · by_cases hhigh : IsHighSurrogate u
    · simp only [utf16Machine, if_pos hhigh, Utf16State.Completes, Utf16.cons_of_high hhigh]
    · by_cases hlow : IsLowSurrogate u
      · have hnot : ¬Utf16 (u :: us) := Utf16.not_cons_of_low hlow
        simp only [utf16Machine, if_neg hhigh, if_pos hlow, Utf16State.Completes, hnot,
          Bool.false_eq_true, false_and, and_false]
      · simp only [utf16Machine, if_neg hhigh, if_neg hlow, Utf16State.Completes,
          Utf16.cons_of_not_surrogate hhigh hlow]
  · have hrest : (∃ low rest, u :: us = low :: rest ∧ IsLowSurrogate low ∧ Utf16 rest) ↔
        IsLowSurrogate u ∧ Utf16 us := by
      constructor
      · rintro ⟨low, rest, h, hlow, hrest⟩
        cases h
        exact ⟨hlow, hrest⟩
      · rintro ⟨hlow, hrest⟩
        exact ⟨u, us, rfl, hlow, hrest⟩
    by_cases hlow : IsLowSurrogate u
    · simp only [utf16Machine, hlow, if_true, Utf16State.Completes, hrest, true_and]
    · have hbad : (utf16Machine.step ⟨some high, wellFormed⟩ u).1.wellFormed = false := by
        by_cases hhigh : IsHighSurrogate u
        · simp only [utf16Machine, if_neg hlow, if_pos hhigh]
        · simp only [utf16Machine, if_neg hlow, if_neg hhigh]
      simp only [hbad, Utf16State.Completes, hrest, hlow, Bool.false_eq_true, false_and, and_false]

/-- The state after a text. -/
theorem utf16To32_text (s : Utf16State) (us : List Char16) :
    ((utf16To32.endCp (utf16Machine.run s us).1).1 : Utf16State).high = none ∧
    (((utf16To32.endCp (utf16Machine.run s us).1).1 : Utf16State).wellFormed = true ↔
      s.wellFormed = true ∧ s.Completes us) := by
  induction us generalizing s with
  | nil =>
      obtain ⟨_ | high, wellFormed⟩ := s
      · exact ⟨rfl, fun h => ⟨h, .nil⟩, And.left⟩
      · refine ⟨rfl, fun h => absurd h Bool.false_ne_true, ?_⟩
        rintro ⟨-, low, rest, h, -⟩
        cases h
  | cons u us ih =>
      rw [Machine.run_cons]
      exact ⟨(ih _).1, (ih _).2.trans (utf16Machine_completes s u us)⟩

theorem utf16To32_checks : utf16To32.Checks utf16 := by
  have hall : ∀ (texts : List (List Char16)) (s : Utf16State), s.high = none →
      ((utf16To32.afterTexts s texts : Utf16State).wellFormed = true ↔
        s.wellFormed = true ∧ ∀ us ∈ texts, Encodes utf16 us) := by
    intro texts
    induction texts with
    | nil =>
        intro s _
        exact ⟨fun h => ⟨h, List.forall_mem_nil _⟩, And.left⟩
    | cons us texts ih =>
        intro s hs
        obtain ⟨hhigh, hgood⟩ := utf16To32_text s us
        have hcompletes : s.Completes us ↔ Encodes utf16 us := by
          rw [Utf16State.Completes, hs, encodes_utf16_iff]
        rw [List.forall_mem_cons, ← and_assoc, ← hcompletes, ← hgood]
        exact ih _ hhigh
  intro texts
  exact (hall texts {} rfl).trans ⟨And.right, fun h => ⟨rfl, h⟩⟩

end Transcoder
