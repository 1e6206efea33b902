import Mathlib.Data.List.Induction
import Midi2.Lib.Machine
import Midi2.Ump.Types

/-!
# The UMP dispatcher (`ump/ump_dispatcher.hpp`)

The dispatcher collects words until the message that the first of them announces is
complete, and then calls one function of its configuration. `Call` says which function and
with which message; the configuration itself is a `Client`.

A `Client` that is fed whole messages word by word does what it would do if it were handed
the messages one at a time (`Client.refines`).
-/

namespace Midi2.Ump

open Adt

/-! ## Callbacks -/

/-- The functions of a configuration, by the member of `ump_dispatcher_config` that has
them. A function is named by the status that selects it. -/
inductive Callback where
  | utility (s : Mt.Utility)
  | system (s : Mt.SystemCrt)
  | m1cvm (s : Mt.M1cvm)
  | data64 (s : Mt.Data64)
  | m2cvm (s : Mt.M2cvm)
  | data128 (s : Mt.Data128)
  | stream (s : Mt.Stream)
  | flexData (s : Mt.FlexData)
  | flexText
  | unknown
  deriving DecidableEq, Repr

/-- The type of the messages that a function is for. -/
def Callback.type? : Callback → Option MessageType
  | utility _ => some .utility
  | system _ => some .system
  | m1cvm _ => some .m1cvm
  | data64 _ => some .data64
  | m2cvm _ => some .m2cvm
  | data128 _ => some .data128
  | stream _ => some .stream
  | flexData _ | flexText => some .flexData
  | unknown => none

/-- A call of a function with the words of a message. -/
structure Call where
  callback : Callback
  message : Message
  deriving DecidableEq

/-- The cases of a `switch`: the function of the status, or `unknown`. -/
def Call.switch {σ : Type} (callback : σ → Callback) (status : Option σ) (m : Message) : Call :=
  match status with
  | some s => ⟨callback s, m⟩
  | none => ⟨.unknown, m⟩

namespace UmpDispatcher

/-- `utility_message()`: `noop` is called without the message. -/
def utilityMessage (m : Message) : Call :=
  match Mt.Utility.ofNat? (m.get .status) with
  | some .noop => ⟨.utility .noop, ⟨[]⟩⟩
  | s => .switch .utility s m

/-- `system_message()`. -/
def systemMessage (m : Message) : Call :=
  .switch .system (Mt.SystemCrt.ofNat? (m.get .systemStatus)) m

/-- `m1cvm_message()`. -/
def m1cvmMessage (m : Message) : Call :=
  .switch .m1cvm (Mt.M1cvm.ofNat? (m.get .status)) m

/-- `data64_message()`. -/
def data64Message (m : Message) : Call :=
  .switch .data64 (Mt.Data64.ofNat? (m.get .status)) m

/-- `m2cvm_message()`. -/
def m2cvmMessage (m : Message) : Call :=
  .switch .m2cvm (Mt.M2cvm.ofNat? (m.get .status)) m

/-- `stream_message()`. -/
def streamMessage (m : Message) : Call :=
  .switch .stream (Mt.Stream.ofNat? (m.get .streamStatus)) m

/-- `data128_message()`. -/
def data128Message (m : Message) : Call :=
  .switch .data128 (Mt.Data128.ofNat? (m.get .status)) m

/-- `flex_data_message()`: any bank but the first has texts. -/
def flexDataMessage (m : Message) : Call :=
  if m.get .flexStatusBank = 0 then
    .switch .flexData (Mt.FlexData.ofNat? (m.get .flexStatus)) m
  else
    ⟨.flexText, m⟩

/-- The `switch` over the message type: `m` has the words that belong to a message of this
type, `read` all that have been read, which is what `unknown()` passes on. -/
def callOf (mt : MessageType) (m read : Message) : Call :=
  match mt with
  | .utility => utilityMessage m
  | .system => systemMessage m
  | .m1cvm => m1cvmMessage m
  | .m2cvm => m2cvmMessage m
  | .flexData => flexDataMessage m
  | .stream => streamMessage m
  | .data64 => data64Message m
  | .data128 => data128Message m
  | .reserved32_06 | .reserved32_07 | .reserved64_08 | .reserved64_09 | .reserved64_0a
  | .reserved96_0b | .reserved96_0c | .reserved128_0e => ⟨.unknown, read⟩

end UmpDispatcher

/-! ## Words in, calls out -/

/-- `static_cast<message_type>((w >> 28) & 0xF)`. -/
def MessageType.ofWord (w : Word) : MessageType :=
  ofMt (BitField.get w Field.mt.range)

/-- `ump_dispatcher`: the words of a message that is not complete yet. -/
structure UmpDispatcher where
  message : Nat → Word := fun _ => 0
  pos : Nat := 0

namespace UmpDispatcher

/-- `dispatch(ump)`, with the call that it makes. -/
def dispatch (d : UmpDispatcher) (ump : Word) : UmpDispatcher × Option Call :=
  let message := Function.update d.message d.pos ump
  let pos := d.pos + 1
  let mt := MessageType.ofWord (message 0)
  if mt.size ≤ pos then
    let span (n : Nat) : Message := ⟨(List.range n).map message⟩
    ({ message, pos := 0 }, some (callOf mt (span mt.size) (span pos)))
  else
    ({ message, pos }, none)

/-- The words that have been read of a message. -/
def read (d : UmpDispatcher) : List Word :=
  (List.range d.pos).map d.message

end UmpDispatcher

namespace Message

/-- The type of a message, in its first word. -/
def type (m : Message) : MessageType :=
  .ofWord (m.words.getD 0 0)

theorem type_eq (m : Message) : m.type = .ofMt (m.get .mt) := rfl

/-- The call that the dispatcher makes for a message. -/
def call (m : Message) : Call :=
  UmpDispatcher.callOf m.type m m

theorem switch_message {σ : Type} (callback : σ → Callback) (status : Option σ) (m : Message) :
    (Call.switch callback status m).message = m := by
  cases status <;> rfl

/-- Every function is called with the message, but for `noop`. -/
theorem call_message {m : Message} (h : m.call.callback ≠ .utility .noop) :
    m.call.message = m := by
  rw [call] at h ⊢
  cases htype : m.type with
  | utility =>
      rw [htype, UmpDispatcher.callOf, UmpDispatcher.utilityMessage] at h
      rw [UmpDispatcher.callOf, UmpDispatcher.utilityMessage]
      split at h
      case h_1 => exact absurd rfl h
      case h_2 => exact switch_message ..
  | flexData =>
      rw [UmpDispatcher.callOf, UmpDispatcher.flexDataMessage]
      split
      case isTrue => exact switch_message ..
      case isFalse => rfl
  | system | m1cvm | m2cvm | stream | data64 | data128 => exact switch_message ..
  | _ => rfl

/-- The function of a status is selected by this status. -/
theorem switch_callback {σ : Type} {callback : σ → Callback} {status : Option σ} {m : Message} :
    (Call.switch callback status m).callback = .unknown ∨
      ∃ s, status = some s ∧ (Call.switch callback status m).callback = callback s := by
  cases status with
  | none => exact Or.inl rfl
  | some s => exact Or.inr ⟨s, rfl, rfl⟩

theorem status_of_switch {σ : Type} {callback : σ → Callback}
    (hinjective : Function.Injective callback) (hknown : ∀ s, callback s ≠ .unknown)
    {status : Option σ} {m : Message} {s : σ}
    (h : (Call.switch callback status m).callback = callback s) : status = some s := by
  rcases @switch_callback σ callback status m with hc | ⟨s', hs', hc⟩
  · exact absurd (h.symm.trans hc) (hknown s)
  · rw [hs', hinjective (hc.symm.trans h)]

theorem type_of_call {m : Message} {mt : MessageType} (h : m.call.callback.type? = some mt) :
    m.type = mt := by
  have hswitch {σ : Type} {callback : σ → Callback} {status : Option σ} {mt' : MessageType}
      (hmt : ∀ s, (callback s).type? = some mt')
      (h : (Call.switch callback status m).callback.type? = some mt) : mt' = mt := by
    rcases @switch_callback σ callback status m with hc | ⟨s, -, hc⟩
    · rw [hc] at h
      cases h
    · rw [hc, hmt] at h
      exact Option.some.inj h
  rw [call] at h
  cases htype : m.type with
  | utility =>
      rw [htype, UmpDispatcher.callOf, UmpDispatcher.utilityMessage] at h
      split at h
      case h_1 => exact Option.some.inj h
      case h_2 => exact hswitch (fun _ => rfl) h
  | flexData =>
      rw [htype, UmpDispatcher.callOf, UmpDispatcher.flexDataMessage] at h
      split at h
      case isTrue => exact hswitch (fun _ => rfl) h
      case isFalse => exact Option.some.inj h
  | system | m1cvm | m2cvm | stream | data64 | data128 =>
      rw [htype] at h
      exact hswitch (fun _ => rfl) h
  | _ =>
      rw [htype] at h
      cases h

theorem call_eq {m : Message} {f : Callback} (h : m.call.callback = f)
    (hf : f ≠ .utility .noop := by decide) : m.call = ⟨f, m⟩ := by
  have hm : m.call.message = m := call_message (h ▸ hf)
  rw [← h]
  exact congrArg (Call.mk m.call.callback) hm

/-- A message with as many words as its type says. -/
def Whole (m : Message) : Prop :=
  m.words.length = m.type.size

instance (m : Message) : Decidable m.Whole :=
  inferInstanceAs (Decidable (_ = _))

end Message

/-- A message that is whole. -/
structure Packet where
  message : Message
  whole : message.Whole := by decide

theorem Message.Whole.length_le {m : Message} (h : m.Whole) : m.words.length ≤ 4 :=
  Nat.le_trans (Nat.le_of_eq h) m.type.size_le

/-- The words of a packet, as they are sent. -/
def Packet.words (p : Packet) : List Word :=
  p.message.words

namespace UmpDispatcher

theorem map_update_range (message : Nat → Word) (n : Nat) (w : Word) :
    (List.range (n + 1)).map (Function.update message n w) = (List.range n).map message ++ [w] := by
  rw [List.range_succ, List.map_append, List.map_singleton, Function.update_self]
  congr 1
  refine List.map_congr_left fun i hi => Function.update_of_ne ?_ _ _
  exact Nat.ne_of_lt (List.mem_range.1 hi)

/-- The type that `dispatch` looks at is that of what has been read. -/
theorem update_zero (d : UmpDispatcher) (w : Word) :
    Function.update d.message d.pos w 0 = (d.read ++ [w]).getD 0 0 := by
  rw [read, ← map_update_range, List.getD_eq_getElem _ _ (by simp), List.getElem_map,
    List.getElem_range]

/-- A word that does not complete the message is kept. -/
theorem dispatch_incomplete {d : UmpDispatcher} {w : Word} {ws : List Word}
    (hread : d.read = ws) (h : (ws ++ [w]).length < (⟨ws ++ [w]⟩ : Message).type.size) :
    (d.dispatch w).2 = none ∧ (d.dispatch w).1.read = ws ++ [w] := by
  subst hread
  have hlen : (d.read ++ [w]).length = d.pos + 1 := by simp [read]
  rw [hlen, Message.type] at h
  rw [dispatch, update_zero, if_neg (Nat.not_le.2 h)]
  exact ⟨rfl, map_update_range _ _ _⟩

/-- A word that completes the message makes the call for it. -/
theorem dispatch_complete {d : UmpDispatcher} {w : Word} {ws : List Word}
    (hread : d.read = ws) (h : (⟨ws ++ [w]⟩ : Message).Whole) :
    (d.dispatch w).2 = some (⟨ws ++ [w]⟩ : Message).call ∧ (d.dispatch w).1.read = [] := by
  subst hread
  have hlen : (d.read ++ [w]).length = d.pos + 1 := by simp [read]
  have hspan : (List.range (d.pos + 1)).map (Function.update d.message d.pos w) =
      d.read ++ [w] := map_update_range _ _ _
  rw [Message.Whole, hlen, Message.type] at h
  rw [dispatch, update_zero, if_pos (Nat.le_of_eq h.symm), ← h]
  simp only [hspan]
  exact ⟨rfl, rfl⟩

end UmpDispatcher

/-! ### The words of an incomplete message -/

/-- Some words of a message, but not all of them. -/
def Partial (ws : List Word) : Prop :=
  ws.length < (⟨ws⟩ : Message).type.size

theorem partial_nil : Partial [] :=
  MessageType.size_pos _

/-- The type of a message is in its first word. -/
theorem type_append {ws : List Word} (h : ws ≠ []) (ws' : List Word) :
    (⟨ws ++ ws'⟩ : Message).type = (⟨ws⟩ : Message).type := by
  cases ws with
  | nil => exact absurd rfl h
  | cons w ws => rfl

/-- With one more word the message is whole, or still not. -/
theorem Partial.append {ws : List Word} (h : Partial ws) (w : Word) :
    (⟨ws ++ [w]⟩ : Message).Whole ∨ Partial (ws ++ [w]) := by
  have hlen : (ws ++ [w]).length = ws.length + 1 := by simp
  have hle : ws.length + 1 ≤ (⟨ws ++ [w]⟩ : Message).type.size := by
    by_cases hne : ws = []
    · subst hne
      exact MessageType.size_pos _
    · rw [type_append hne]
      exact h
  rw [Message.Whole, Partial, hlen]
  rcases Nat.lt_or_ge (ws.length + 1) (⟨ws ++ [w]⟩ : Message).type.size with hlt | hge
  · exact Or.inr hlt
  · exact Or.inl (Nat.le_antisymm hle hge)

namespace UmpDispatcher

/-- What `dispatch` does depends on the words of the message only. -/
theorem dispatch_cases {d : UmpDispatcher} (h : Partial d.read) (w : Word) :
    ((⟨d.read ++ [w]⟩ : Message).Whole ∧ (d.dispatch w).1.read = [] ∧
      (d.dispatch w).2 = some (⟨d.read ++ [w]⟩ : Message).call) ∨
    (Partial (d.read ++ [w]) ∧ (d.dispatch w).1.read = d.read ++ [w] ∧
      (d.dispatch w).2 = none) := by
  rcases h.append w with hwhole | hpart
  · obtain ⟨hcall, hread⟩ := dispatch_complete rfl hwhole
    exact Or.inl ⟨hwhole, hread, hcall⟩
  · obtain ⟨hcall, hread⟩ := dispatch_incomplete rfl hpart
    exact Or.inr ⟨hpart, hread, hcall⟩

/-- Dispatchers that have read the same make the same calls. -/
theorem dispatch_congr {d d' : UmpDispatcher} (hread : d.read = d'.read) (h : Partial d.read)
    (w : Word) : (d.dispatch w).2 = (d'.dispatch w).2 ∧
      (d.dispatch w).1.read = (d'.dispatch w).1.read := by
  have hcases := dispatch_cases (hread ▸ h) w
  rw [← hread] at hcases
  rcases dispatch_cases h w with ⟨hwhole, hr, hc⟩ | ⟨hpart, hr, hc⟩
  · rcases hcases with ⟨-, hr', hc'⟩ | ⟨hpart', -, -⟩
    · exact ⟨hc.trans hc'.symm, hr.trans hr'.symm⟩
    · exact absurd hwhole (Nat.ne_of_lt hpart')
  · rcases hcases with ⟨hwhole', -, -⟩ | ⟨-, hr', hc'⟩
    · exact absurd hwhole' (Nat.ne_of_lt hpart)
    · exact ⟨hc.trans hc'.symm, hr.trans hr'.symm⟩

theorem partial_dispatch {d : UmpDispatcher} (h : Partial d.read) (w : Word) :
    Partial (d.dispatch w).1.read := by
  rcases dispatch_cases h w with ⟨-, hread, -⟩ | ⟨hpart, hread, -⟩
  · rw [hread]
    exact partial_nil
  · rw [hread]
    exact hpart

/-- The dispatcher after some words. -/
def feed (d : UmpDispatcher) (ws : List Word) : UmpDispatcher :=
  ws.foldl (fun d w => (d.dispatch w).1) d

theorem partial_feed (ws : List Word) : Partial (feed {} ws).read := by
  have h : ∀ d : UmpDispatcher, Partial d.read → Partial (d.feed ws).read := by
    induction ws with
    | nil => exact fun _ h => h
    | cons w ws ih => exact fun d h => ih _ (partial_dispatch h w)
  exact h {} partial_nil

/-- Words are whole messages, one after the other, and the words of the next. -/
theorem feed_eq (ws : List Word) :
    ∃ ps : List Packet, ws = ps.flatMap Packet.words ++ (feed {} ws).read := by
  induction ws using List.reverseRecOn with
  | nil => exact ⟨[], rfl⟩
  | append_singleton ws w ih =>
      obtain ⟨ps, hps⟩ := ih
      have hfeed : feed {} (ws ++ [w]) = ((feed {} ws).dispatch w).1 := by
        rw [feed, List.foldl_append]
        rfl
      rw [hfeed]
      rcases dispatch_cases (partial_feed ws) w with ⟨hwhole, hread, -⟩ | ⟨-, hread, -⟩
      · refine ⟨ps ++ [⟨⟨(feed {} ws).read ++ [w]⟩, hwhole⟩], ?_⟩
        rw [hread, List.append_nil, List.flatMap_append, List.flatMap_singleton, Packet.words]
        calc ws ++ [w] = (ps.flatMap Packet.words ++ (feed {} ws).read) ++ [w] := by rw [← hps]
          _ = _ := List.append_assoc _ _ _
      · refine ⟨ps, ?_⟩
        rw [hread]
        calc ws ++ [w] = (ps.flatMap Packet.words ++ (feed {} ws).read) ++ [w] := by rw [← hps]
          _ = _ := List.append_assoc _ _ _

end UmpDispatcher

/-! ## Clients -/

/-- A configuration over a context `σ`, and how its output is taken. Between packets the
context is `Idle`, when there is nothing to take. -/
structure Client (β σ : Type) where
  call : Call → σ → σ
  flush : σ → σ × List β
  Idle : σ → Prop
  flush_idle : ∀ {s}, Idle s → flush s = (s, [])
  idle_call : ∀ (p : Packet) {s}, Idle s → Idle (flush (call p.message.call s)).1

namespace Client

variable {β σ : Type} (c : Client β σ)

/-- The dispatcher with this configuration, flushed after every word. -/
def perWord : Machine Word β (UmpDispatcher × σ) where
  step s ump :=
    let r := s.1.dispatch ump
    let flushed := c.flush (r.2.elim s.2 (c.call · s.2))
    ((r.1, flushed.1), flushed.2)

/-- The same without a dispatcher: one packet at a time. -/
def perPacket : Machine Packet β σ where
  step s p := c.flush (c.call p.message.call s)

/-- The rest of a message, once `ws` has been read. -/
theorem run_rest {m : Message} (hwhole : m.Whole) {s : σ} (hidle : c.Idle s) :
    ∀ {d : UmpDispatcher} {ws : List Word} (rest : List Word), rest ≠ [] → d.read = ws →
      ws ++ rest = m.words → ∃ d' : UmpDispatcher, d'.read = [] ∧
        c.perWord.run (d, s) rest =
          ((d', (c.flush (c.call m.call s)).1), (c.flush (c.call m.call s)).2)
  | _, _, [], hne, _, _ => absurd rfl hne
  | d, ws, [w], _, hread, hm => by
      obtain rfl : m = ⟨ws ++ [w]⟩ := congrArg Message.mk hm.symm
      obtain ⟨hcall, hread'⟩ := UmpDispatcher.dispatch_complete hread hwhole
      refine ⟨(d.dispatch w).1, hread', ?_⟩
      simp only [Machine.run_singleton, perWord, hcall, Option.elim]
  | d, ws, w :: w' :: rest, _, hread, hm => by
      have htype : (⟨ws ++ [w]⟩ : Message).type = m.type := by
        simp only [Message.type, ← hm]
        cases ws <;> rfl
      have hshort : (ws ++ [w]).length < (⟨ws ++ [w]⟩ : Message).type.size := by
        rw [htype, ← hwhole, ← hm]
        simp
      obtain ⟨hcall, hread'⟩ := UmpDispatcher.dispatch_incomplete hread hshort
      obtain ⟨d', hend, hrun⟩ := run_rest hwhole hidle (w' :: rest) (List.cons_ne_nil _ _)
        hread' (by rw [← hm, List.append_assoc, List.singleton_append])
      refine ⟨d', hend, ?_⟩
      have hstep : c.perWord.step (d, s) w = (((d.dispatch w).1, s), []) := by
        simp only [perWord, hcall, Option.elim]
        rw [c.flush_idle hidle]
      rw [Machine.run_cons, hstep, hrun, List.nil_append]

/-- Between packets the dispatcher has read nothing and nothing is waiting. -/
structure Between (s : UmpDispatcher × σ) (t : σ) : Prop where
  read : s.1.read = []
  context : s.2 = t
  idle : c.Idle t

theorem run_packet {d : UmpDispatcher} {s : σ} (hread : d.read = []) (hidle : c.Idle s)
    (p : Packet) : ∃ d' : UmpDispatcher, d'.read = [] ∧
      c.perWord.run (d, s) p.words =
        ((d', (c.perPacket.step s p).1), (c.perPacket.step s p).2) := by
  have hpos : 0 < p.words.length := by
    rw [show p.words.length = p.message.type.size from p.whole]
    exact p.message.type.size_pos
  exact c.run_rest p.whole hidle p.words (List.ne_nil_of_length_pos hpos) hread rfl

/-- Feeding the words of a packet one by one is handing over the packet. -/
theorem refines : c.perWord.Refines c.perPacket Packet.words (fun b => [b]) c.Between where
  state := by
    rintro ⟨d, s⟩ _ p ⟨hread, rfl, hidle⟩
    obtain ⟨d', hread', hrun⟩ := c.run_packet hread hidle p
    rw [hrun]
    exact ⟨hread', rfl, c.idle_call p hidle⟩
  output := by
    rintro ⟨d, s⟩ _ p ⟨hread, rfl, hidle⟩
    obtain ⟨d', -, hrun⟩ := c.run_packet hread hidle p
    rw [hrun, List.flatMap_singleton']

/-- The run of a dispatcher from its initial state. -/
theorem run_words {s : σ} (h : c.Idle s) (ps : List Packet) :
    (c.perWord.run ({}, s) (ps.flatMap Packet.words)).1.2 = (c.perPacket.run s ps).1 ∧
    (c.perWord.run ({}, s) (ps.flatMap Packet.words)).2 = (c.perPacket.run s ps).2 := by
  obtain ⟨hstate, houtput⟩ := c.refines.run ps (⟨rfl, rfl, h⟩ : c.Between ({}, s) s)
  exact ⟨hstate.context, by rw [houtput, List.flatMap_singleton']⟩

/-! ### Equivalent contexts -/

/-- The dispatcher of a client does not depend on its context. -/
theorem dispatcher_run (d : UmpDispatcher) (s : σ) (ws : List Word) :
    (c.perWord.run (d, s) ws).1.1 = d.feed ws := by
  induction ws generalizing d s with
  | nil => rfl
  | cons w ws ih => exact ih _ _

/-- The dispatcher has read nothing exactly when it has been fed with whole messages. -/
theorem feed_read_iff (ws : List Word) :
    (UmpDispatcher.feed {} ws).read = [] ↔ ∃ ps : List Packet, ws = ps.flatMap Packet.words := by
  constructor
  · intro hread
    obtain ⟨ps, hps⟩ := UmpDispatcher.feed_eq ws
    rw [hread, List.append_nil] at hps
    exact ⟨ps, hps⟩
  · rintro ⟨ps, rfl⟩
    let c : Client Unit Unit := ⟨fun _ s => s, fun s => (s, []), fun _ => True, fun _ => rfl,
      fun _ _ _ => trivial⟩
    have hbetween := (c.refines.run ps (⟨rfl, rfl, trivial⟩ : c.Between ({}, ()) ())).1
    rw [← c.dispatcher_run {} ()]
    exact hbetween.read

/-- Contexts that no packet tells apart. -/
structure Bisim (E : σ → σ → Prop) : Prop where
  idle : ∀ {s s'}, E s s' → c.Idle s ∧ c.Idle s'
  output : ∀ (p : Packet) {s s'}, E s s' →
    (c.perPacket.step s p).2 = (c.perPacket.step s' p).2
  state : ∀ (p : Packet) {s s'}, E s s' → E (c.perPacket.step s p).1 (c.perPacket.step s' p).1

variable {c}

/-- Nor do any words, if the same part of a message has been read. -/
theorem Bisim.run {E : σ → σ → Prop} (h : c.Bisim E) {s s' : σ} (hE : E s s')
    {d d' : UmpDispatcher} (hread : d.read = d'.read) (hpart : Partial d.read)
    (ws : List Word) : (c.perWord.run (d, s) ws).2 = (c.perWord.run (d', s') ws).2 := by
  induction ws generalizing d d' s s' with
  | nil => rfl
  | cons w ws ih =>
      obtain ⟨hcall, hread'⟩ := UmpDispatcher.dispatch_congr hread hpart w
      have hpart' := UmpDispatcher.partial_dispatch hpart w
      rw [Machine.run_cons, Machine.run_cons]
      rcases UmpDispatcher.dispatch_cases hpart w with ⟨hwhole, -, hsome⟩ | ⟨-, -, hnone⟩
      · have hout := h.output ⟨_, hwhole⟩ hE
        have hrest := ih (h.state ⟨_, hwhole⟩ hE) hread' hpart'
        simp only [perPacket] at hout hrest
        simp only [perWord, ← hcall, hsome, Option.elim]
        rw [hout]
        exact congrArg _ hrest
      · obtain ⟨hidle, hidle'⟩ := h.idle hE
        have hrest := ih hE hread' hpart'
        simp only [perWord, ← hcall, hnone, Option.elim, c.flush_idle hidle, c.flush_idle hidle']
        exact congrArg _ hrest

end Client

end Midi2.Ump
