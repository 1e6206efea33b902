import Mathlib.Data.List.Forall2
import Midi2.Lib.Framing
import Midi2.Ump.Translator

/-!
# Framing (`ump_dispatcher::dispatch`)

The words of a stream are cut into messages by their first words alone. The dispatcher finds
the same messages one word at a time (`UmpDispatcher.feed_framing`): it makes a call for each
complete frame, at its last word, and in between it has read the words of the incomplete one,
so that it never stores a word outside of its array. Frames of reserved types and with
unknown statuses have their length like all others, and are handed to `unknown`.
-/

namespace Midi2.Ump

open Framing Adt

/-! ## Frames of words -/

/-- `ump_message_size` of the type that a word announces. -/
def frameSize (w : Word) : Nat :=
  (MessageType.ofWord w).size

theorem frameSize_pos (w : Word) : 0 < frameSize w :=
  MessageType.size_pos _

theorem isFrame_iff (ws : List Word) : IsFrame frameSize ws ↔ (⟨ws⟩ : Message).Whole := by
  cases ws with
  | nil =>
      constructor
      · rintro ⟨w, hw, -⟩
        cases hw
      · intro h
        exact absurd h (Nat.ne_of_lt (MessageType.size_pos _))
  | cons w ws =>
      constructor
      · rintro ⟨v, hv, hlen⟩
        obtain rfl : w = v := Option.some.inj hv
        exact hlen
      · intro h
        exact ⟨w, rfl, h⟩

theorem isPart_iff (ws : List Word) : IsPart frameSize ws ↔ Partial ws := by
  cases ws with
  | nil => exact iff_of_true (isPart_nil _) partial_nil
  | cons w ws =>
      constructor
      · intro h
        exact h w rfl
      · intro h v hv
        obtain rfl : w = v := Option.some.inj hv
        exact h

/-- The messages of a stream of words. -/
def framesOf (ws : List Word) : List Message :=
  (frames frameSize ws).map Message.mk

/-- The words of the message that is not complete. -/
def restOf (ws : List Word) : List Word :=
  rest frameSize ws

theorem whole_of_mem_framesOf {ws : List Word} {m : Message} (h : m ∈ framesOf ws) : m.Whole := by
  obtain ⟨f, hf, rfl⟩ := List.mem_map.1 h
  exact (isFrame_iff f).1 (isFrame_of_mem frameSize_pos hf)

/-- The frames of the words of whole messages are the messages. -/
theorem framesOf_wordsOf {ms : List Message} (hms : ∀ m ∈ ms, m.Whole) {part : List Word}
    (hpart : Partial part) :
    framesOf (wordsOf ms ++ part) = ms ∧ restOf (wordsOf ms ++ part) = part := by
  have hframes : ∀ f ∈ ms.map Message.words, IsFrame frameSize f := by
    intro f hf
    obtain ⟨m, hm, rfl⟩ := List.mem_map.1 hf
    exact (isFrame_iff _).2 (hms m hm)
  obtain ⟨hcut, hleft⟩ := frames_flatten hframes ((isPart_iff part).2 hpart)
  rw [framesOf, restOf, wordsOf, List.flatMap_def, hcut, hleft, List.map_map]
  exact ⟨List.map_id _, rfl⟩

theorem framesOf_words (ps : List Packet) {part : List Word} (hpart : Partial part) :
    framesOf (ps.flatMap Packet.words ++ part) = ps.map Packet.message ∧
      restOf (ps.flatMap Packet.words ++ part) = part := by
  have hwords : ps.flatMap Packet.words = wordsOf (ps.map Packet.message) := by
    rw [wordsOf, List.flatMap_map]
    rfl
  rw [hwords]
  refine framesOf_wordsOf (fun m hm => ?_) hpart
  obtain ⟨p, -, rfl⟩ := List.mem_map.1 hm
  exact p.whole

theorem words_framesOf (ws : List Word) :
    (framesOf ws).flatMap Message.words ++ restOf ws = ws := by
  have hwords : (framesOf ws).flatMap Message.words = (frames frameSize ws).flatten := by
    rw [framesOf, List.flatMap_def, List.map_map]
    exact congrArg List.flatten (List.map_id _)
  rw [hwords]
  exact flatten_frames ws

theorem partial_restOf (ws : List Word) : Partial (restOf ws) :=
  (isPart_iff _).1 (isPart_rest ws)

theorem Packet.ext_words {p p' : Packet} (h : p.words = p'.words) : p = p' := by
  obtain ⟨⟨ws⟩, hp⟩ := p
  obtain rfl : ws = p'.message.words := h
  rfl

/-- The frames, each of which is whole. -/
def packetsOf (ws : List Word) : List Packet :=
  (framesOf ws).attach.map fun m => ⟨m.1, whole_of_mem_framesOf m.2⟩

theorem message_packetsOf (ws : List Word) : (packetsOf ws).map Packet.message = framesOf ws := by
  rw [packetsOf, List.map_map]
  exact List.attach_map_subtype_val _

theorem words_packetsOf (ws : List Word) :
    (packetsOf ws).flatMap Packet.words ++ restOf ws = ws := by
  have hwords : (packetsOf ws).flatMap Packet.words = (framesOf ws).flatMap Message.words := by
    rw [← message_packetsOf, List.flatMap_map]
    rfl
  rw [hwords, words_framesOf]

theorem packetsOf_words (ps : List Packet) : packetsOf (ps.flatMap Packet.words) = ps := by
  have hinjective : Function.Injective Packet.message := fun p p' h =>
    Packet.ext_words (congrArg Message.words h)
  have hframes := (framesOf_words ps partial_nil).1
  rw [List.append_nil, ← message_packetsOf] at hframes
  exact List.map_injective_iff.2 hinjective hframes

/-- A word that completes a message. -/
theorem framesOf_whole {ws : List Word} {w : Word} (h : (⟨restOf ws ++ [w]⟩ : Message).Whole) :
    framesOf (ws ++ [w]) = framesOf ws ++ [⟨restOf ws ++ [w]⟩] ∧ restOf (ws ++ [w]) = [] := by
  obtain ⟨hframes, hrest⟩ := concat_of_isFrame ((isFrame_iff _).2 h)
  refine ⟨?_, hrest⟩
  rw [framesOf, hframes, List.map_append]
  rfl

/-- A word that does not. -/
theorem framesOf_partial {ws : List Word} {w : Word} (h : Partial (restOf ws ++ [w])) :
    framesOf (ws ++ [w]) = framesOf ws ∧ restOf (ws ++ [w]) = restOf ws ++ [w] := by
  obtain ⟨hframes, hrest⟩ := concat_of_isPart ((isPart_iff _).2 h)
  exact ⟨congrArg (List.map Message.mk) hframes, hrest⟩

/-! ### Streams of whole messages -/

/-- Whole messages, one after the other. -/
def Parses (ws : List Word) : Prop :=
  ∃ ps : List Packet, ws = ps.flatMap Packet.words

theorem parses_iff (ws : List Word) : Parses ws ↔ restOf ws = [] := by
  constructor
  · rintro ⟨ps, rfl⟩
    have hrest := (framesOf_words ps partial_nil).2
    rwa [List.append_nil] at hrest
  · intro hrest
    have hwords := words_packetsOf ws
    rw [hrest, List.append_nil] at hwords
    exact ⟨packetsOf ws, hwords.symm⟩

theorem parses_nil : Parses [] :=
  ⟨[], rfl⟩

/-- What follows whole messages is looked at afresh. -/
theorem Parses.append_iff {ws : List Word} (h : Parses ws) (ws' : List Word) :
    Parses (ws ++ ws') ↔ Parses ws' := by
  have hrest : rest frameSize ws = [] := (parses_iff ws).1 h
  rw [parses_iff, parses_iff, restOf, (frames_append ws ws').2, hrest, List.nil_append]
  rfl

theorem Parses.framesOf_append {ws : List Word} (h : Parses ws) (ws' : List Word) :
    framesOf (ws ++ ws') = framesOf ws ++ framesOf ws' := by
  have hrest : rest frameSize ws = [] := (parses_iff ws).1 h
  rw [framesOf, (frames_append ws ws').1, hrest, List.nil_append, List.map_append]
  rfl

theorem framesOf_flatMap {γ : Type} {f : γ → List Word} {xs : List γ}
    (h : ∀ x ∈ xs, Parses (f x)) :
    framesOf (xs.flatMap f) = xs.flatMap fun x => framesOf (f x) := by
  induction xs with
  | nil => exact (framesOf_words [] partial_nil).1
  | cons x xs ih =>
      obtain ⟨hx, hxs⟩ := List.forall_mem_cons.1 h
      rw [List.flatMap_cons, List.flatMap_cons, hx.framesOf_append, ih hxs]

theorem Message.Whole.parses {m : Message} (h : m.Whole) : Parses m.words :=
  ⟨[⟨m, h⟩], (List.append_nil _).symm⟩

theorem Message.Whole.partial_take {m : Message} (h : m.Whole) {n : Nat} (hpos : 0 < n)
    (hlt : n < m.words.length) : Partial (m.words.take n) ∧ m.words.take n ≠ [] := by
  have hlen : (m.words.take n).length = n := by
    rw [List.length_take]
    omega
  have hne : m.words.take n ≠ [] := List.ne_nil_of_length_pos (by omega)
  have htype := type_append hne (m.words.drop n)
  rw [List.take_append_drop] at htype
  refine ⟨?_, hne⟩
  rw [Partial, ← htype, hlen]
  exact Nat.lt_of_lt_of_eq hlt h

/-- A part of a message is not a message. -/
theorem Partial.not_parses {ws : List Word} (h : Partial ws) (hne : ws ≠ []) : ¬Parses ws := by
  rw [parses_iff, restOf, rest_of_isPart ((isPart_iff ws).2 h)]
  exact hne

/-! ## The status of a frame -/

/-- The dispatcher has a function for messages of this type and status. -/
def Message.Known (m : Message) : Prop :=
  match m.type with
  | .utility => (Mt.Utility.ofNat? (m.get .status)).isSome
  | .system => (Mt.SystemCrt.ofNat? (m.get .systemStatus)).isSome
  | .m1cvm => (Mt.M1cvm.ofNat? (m.get .status)).isSome
  | .data64 => (Mt.Data64.ofNat? (m.get .status)).isSome
  | .m2cvm => (Mt.M2cvm.ofNat? (m.get .status)).isSome
  | .data128 => (Mt.Data128.ofNat? (m.get .status)).isSome
  | .stream => (Mt.Stream.ofNat? (m.get .streamStatus)).isSome
  | .flexData => m.get .flexStatusBank ≠ 0 ∨ (Mt.FlexData.ofNat? (m.get .flexStatus)).isSome
  | .reserved32_06 | .reserved32_07 | .reserved64_08 | .reserved64_09 | .reserved64_0a
  | .reserved96_0b | .reserved96_0c | .reserved128_0e => False

theorem switch_unknown_iff {σ : Type} {callback : σ → Callback}
    (hknown : ∀ s, callback s ≠ .unknown) {status : Option σ} {m : Message} :
    (Call.switch callback status m).callback = .unknown ↔ ¬status.isSome := by
  cases status with
  | none => exact iff_of_true rfl Bool.false_ne_true
  | some s => exact iff_of_false (hknown s) (not_not_intro rfl)

/-- What has no function of its own is handed to `unknown`. -/
theorem Message.unknown_iff (m : Message) : m.call.callback = .unknown ↔ ¬m.Known := by
  unfold Message.call Message.Known
  cases m.type with
  | utility =>
      simp only [UmpDispatcher.callOf, UmpDispatcher.utilityMessage]
      split
      case h_1 h =>
        rw [h]
        exact iff_of_false Callback.noConfusion (not_not_intro rfl)
      case h_2 => exact switch_unknown_iff fun _ => Callback.noConfusion
  | flexData =>
      simp only [UmpDispatcher.callOf, UmpDispatcher.flexDataMessage]
      split
      case isTrue h =>
        rw [switch_unknown_iff fun _ => Callback.noConfusion, not_or, not_not]
        exact (and_iff_right h).symm
      case isFalse h => exact iff_of_false Callback.noConfusion (not_not_intro (Or.inl h))
  | system | m1cvm | data64 | m2cvm | data128 | stream =>
      exact switch_unknown_iff fun _ => Callback.noConfusion
  | _ => exact iff_of_true rfl not_false

instance (m : Message) : Decidable m.Known :=
  decidable_of_iff (m.call.callback ≠ .unknown) (by rw [ne_eq, m.unknown_iff, not_not])

/-- `noop` is called without the message. -/
theorem Message.noop_message {m : Message} (h : m.call.callback = .utility .noop) :
    m.call.message = ⟨[]⟩ := by
  have htype : m.type = .utility := Message.type_of_call (by rw [h]; rfl)
  rw [Message.call, htype, UmpDispatcher.callOf, UmpDispatcher.utilityMessage] at h ⊢
  split
  case h_1 => rfl
  case h_2 s hs =>
    split at h
    case h_1 heq => exact absurd heq hs
    case h_2 =>
      rcases @Message.switch_callback _ .utility _ m with hc | ⟨s, heq, hc⟩
      · rw [hc] at h
        cases h
      · rw [hc] at h
        cases h
        exact absurd heq hs

/-- The call that a frame gives rise to: one of the functions for its type, or `unknown`, with
all of its words. Only `noop` takes none. -/
structure CallFor (m : Message) (c : Call) : Prop where
  message : c.message = if c.callback = .utility .noop then ⟨[]⟩ else m
  type : ∀ mt, c.callback.type? = some mt → m.type = mt
  unknown : c.callback = .unknown ↔ ¬m.Known

theorem Message.callFor (m : Message) : CallFor m m.call where
  message := by
    split
    case isTrue h => exact m.noop_message h
    case isFalse h => exact m.call_message h
  type _ h := m.type_of_call h
  unknown := m.unknown_iff

/-! ## Words in, calls out -/

namespace UmpDispatcher

/-- The dispatcher and the calls that it makes. -/
def machine : Machine Word Call UmpDispatcher where
  step d ump := ((d.dispatch ump).1, (d.dispatch ump).2.toList)

/-- What the dispatcher has done after the words `ws`, and the call that the next one makes. -/
structure Framed (ws : List Word) : Prop where
  calls : List.Forall₂ CallFor (framesOf ws) (machine.run {} ws).2
  next : ∀ w, List.Forall₂ CallFor ((framesOf (ws ++ [w])).drop (framesOf ws).length)
    (machine.step (machine.run {} ws).1 w).2
  pos_eq : (machine.run {} ws).1.pos = (restOf ws).length
  pos_lt_size : ∀ w ∈ (restOf ws).head?, (machine.run {} ws).1.pos < frameSize w
  pos_lt : (machine.run {} ws).1.pos < 4

/-- The dispatcher finds the frames: it has read what is left of the words. -/
theorem machine_run (ws : List Word) : (machine.run {} ws).1.read = restOf ws ∧
    (machine.run {} ws).2 = (framesOf ws).map Message.call := by
  induction ws using List.reverseRecOn with
  | nil => simp [framesOf, restOf, read]
  | append_singleton ws w ih =>
      obtain ⟨hread, hcalls⟩ := ih
      have hpart : Partial (machine.run {} ws).1.read := hread ▸ partial_restOf ws
      rw [Machine.run_append, Machine.run_singleton, hcalls]
      rcases dispatch_cases hpart w with ⟨hwhole, hread', hcall⟩ | ⟨hpart', hread', hcall⟩
      · rw [hread] at hwhole hcall
        obtain ⟨hframes, hrest⟩ := framesOf_whole hwhole
        rw [hframes, hrest, List.map_append]
        exact ⟨hread', congrArg (_ ++ Option.toList ·) hcall⟩
      · rw [hread] at hpart' hread'
        obtain ⟨hframes, hrest⟩ := framesOf_partial hpart'
        rw [hframes, hrest]
        exact ⟨hread', (congrArg (_ ++ Option.toList ·) hcall).trans (List.append_nil _)⟩

theorem forall_callFor (ms : List Message) : List.Forall₂ CallFor ms (ms.map Message.call) := by
  rw [List.forall₂_map_right_iff, List.forall₂_same]
  exact fun m _ => m.callFor

/-- At every point of a stream the calls are those for the frames that are complete, each made
at the last word of its frame, and the words of the incomplete one are in the array. -/
theorem framing (ws : List Word) : Framed ws := by
  obtain ⟨hread, hcalls⟩ := machine_run ws
  have hpart := partial_restOf ws
  have hpos : (machine.run {} ws).1.pos = (restOf ws).length := by
    rw [← hread, read, List.length_map, List.length_range]
  have hnext (w : Word) : (machine.step (machine.run {} ws).1 w).2 =
      ((framesOf (ws ++ [w])).drop (framesOf ws).length).map Message.call := by
    have hall := (machine_run (ws ++ [w])).2
    rw [Machine.run_append, Machine.run_singleton, hcalls] at hall
    rw [List.map_drop, ← hall, List.drop_left' (List.length_map _)]
  refine ⟨?_, fun w => ?_, hpos, ?_, ?_⟩
  · rw [hcalls]
    exact forall_callFor _
  · rw [hnext]
    exact forall_callFor _
  · rw [hpos]
    exact (isPart_iff _).2 hpart
  · rw [hpos]
    exact Nat.lt_of_lt_of_le hpart (MessageType.size_le _)

/-- The function for `noop` is not given the word. -/
theorem noop_without_words :
    ¬∀ ws : List Word, (machine.run {} ws).2.map Call.message = framesOf ws := by
  intro h
  have hnoop := h [0]
  have hframes : framesOf [0] = [⟨[0]⟩] := (framesOf_words [⟨⟨[0]⟩, by decide⟩] partial_nil).1
  rw [(machine_run [0]).2, hframes] at hnoop
  revert hnoop
  decide

end UmpDispatcher

/-! ## Clients of any words -/

theorem Partial.of_concat {ws : List Word} {w : Word} (h : Partial (ws ++ [w])) : Partial ws := by
  by_cases hne : ws = []
  · subst hne
    exact partial_nil
  · rw [Partial, type_append hne, List.length_append] at h
    exact Nat.lt_of_succ_lt h

namespace Client

variable {β σ : Type} (c : Client β σ)

/-- A part of a message has no effect but to be read. -/
theorem run_part {d : UmpDispatcher} (hread : d.read = []) {s : σ} (hidle : c.Idle s)
    {part : List Word} (hpart : Partial part) :
    ∃ d' : UmpDispatcher, d'.read = part ∧ c.perWord.run (d, s) part = ((d', s), []) := by
  induction part using List.reverseRecOn with
  | nil => exact ⟨d, hread, rfl⟩
  | append_singleton part w ih =>
      obtain ⟨d', hread', hrun⟩ := ih hpart.of_concat
      have hshort : (part ++ [w]).length < (⟨part ++ [w]⟩ : Message).type.size := hpart
      obtain ⟨hcall, hnext⟩ := UmpDispatcher.dispatch_incomplete hread' hshort
      refine ⟨(d'.dispatch w).1, hnext, ?_⟩
      rw [Machine.run_append, hrun, Machine.run_singleton, List.nil_append]
      simp only [perWord, hcall, Option.elim]
      rw [c.flush_idle hidle]

/-- Any words have the effect of their complete frames. -/
theorem run_packetsOf {s : σ} (hidle : c.Idle s) (ws : List Word) :
    (c.perWord.run ({}, s) ws).1.2 = (c.perPacket.run s (packetsOf ws)).1 ∧
      (c.perWord.run ({}, s) ws).2 = (c.perPacket.run s (packetsOf ws)).2 := by
  obtain ⟨hstate, houtput⟩ := c.run_words hidle (packetsOf ws)
  have hbetween := (c.refines.run (packetsOf ws) (⟨rfl, rfl, hidle⟩ : c.Between ({}, s) s)).1
  generalize hr : c.perWord.run ({}, s) ((packetsOf ws).flatMap Packet.words) = r at *
  have hidle' : c.Idle r.1.2 := by
    rw [hbetween.context]
    exact hbetween.idle
  obtain ⟨d, -, hrun⟩ := c.run_part hbetween.read hidle' (partial_restOf ws)
  have hall : c.perWord.run ({}, s) ws = ((d, r.1.2), r.2) := by
    calc c.perWord.run ({}, s) ws
        = c.perWord.run ({}, s) ((packetsOf ws).flatMap Packet.words ++ restOf ws) := by
          rw [words_packetsOf]
      _ = ((d, r.1.2), r.2) := by rw [Machine.run_append, hr, hrun, List.append_nil]
  rw [hall]
  exact ⟨hstate, houtput⟩

end Client

namespace Translator

variable {τ : Type} (t : Translator τ)

/-- The translation of any words is that of their complete frames. -/
theorem run_packetsOf (init : τ) (ws : List Word) :
    (t.run init ws).1.state = (t.translation.run init (packetsOf ws)).1 ∧
      (t.run init ws).2 = (t.translation.run init (packetsOf ws)).2.flatMap Packet.words := by
  have hidle : t.client.Idle (⟨init, {}⟩ : Context τ (Fifo Word 2)) := Fifo.holds_nil
  obtain ⟨hstate, houtput⟩ := t.client.run_packetsOf hidle ws
  obtain ⟨hstate', houtput'⟩ := t.client.run_words hidle (packetsOf ws)
  obtain ⟨hs, ho⟩ := t.run_words init (packetsOf ws)
  refine ⟨?_, ?_⟩
  · rw [← hs, run, run, hstate, hstate']
  · rw [← ho, run, run, houtput, houtput']

end Translator

end Midi2.Ump
