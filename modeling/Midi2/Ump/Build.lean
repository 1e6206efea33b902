import Midi2.Ump.Classes
import Midi2.Ump.Framing

/-!
# Building messages and dispatching them (`ump/ump_types.hpp`, `ump/ump_dispatcher.hpp`)

A client builds a message from the default constructor of its class and any setters, sends
its words, and a dispatcher at the other end hands them to the function of the class. Four
things are shown of this, for every class:

* a getter reads what was last written to its bits (`get_build`),
* the dispatcher calls the function of the class, unless the setters of a flex data message
  have moved it to another bank (`dispatch_built`),
* a span constructor is only ever given words that pass its assertion (`span_ctor`),
* to copy a message field by field keeps the bits of the fields and no other (`copied`).
-/

namespace Midi2.Ump

open Adt

/-! ## The bits of a message -/

/-- Bit `i` of word `w`. -/
def Message.bit (m : Message) (w i : Nat) : Bool :=
  (m.words.getD w 0).getLsbD i

/-- The field has bit `i` of word `w`. -/
def Field.Covers (f : Field) (w i : Nat) : Prop :=
  f.word = w ∧ f.range.Covers i

instance (f : Field) (w i : Nat) : Decidable (f.Covers w i) :=
  inferInstanceAs (Decidable (_ ∧ _))

namespace Message

theorem bit_set (m : Message) {f : Field} (v : Nat) (hf : f.word < m.words.length) (w : Nat)
    {i : Nat} (hi : i < 32) :
    (m.set f v).bit w i =
      if f.Covers w i then v.testBit (i - f.range.index) else m.bit w i := by
  rw [bit, bit, set]
  by_cases hw : f.word = w
  · subst hw
    rw [List.getD_eq_getElem _ _ (by rwa [List.length_set]), List.getElem_set_self,
      getLsbD_set _ _ _ _ hi]
    exact if_congr ⟨fun h => ⟨rfl, h⟩, fun h => h.2⟩ rfl rfl
  · rw [List.getD_eq_getElem?_getD, List.getElem?_set_ne hw, ← List.getD_eq_getElem?_getD,
      if_neg fun h => hw h.1]

theorem testBit_get (m : Message) (f : Field) (i : Nat) :
    (m.get f).testBit i = (decide (i < f.range.bits) && m.bit f.word (f.range.index + i)) :=
  Adt.testBit_get _ _ i

/-- A message is known by its bits. -/
theorem ext_bit {m m' : Message} (hlen : m.words.length = m'.words.length)
    (h : ∀ w, ∀ i < 32, m.bit w i = m'.bit w i) : m = m' := by
  refine congrArg Message.mk (List.ext_getElem hlen fun w hw hw' => ?_)
  refine BitVec.eq_of_getLsbD_eq fun i hi => ?_
  have hbit := h w i hi
  rwa [bit, bit, List.getD_eq_getElem _ _ hw, List.getD_eq_getElem _ _ hw'] at hbit

@[simp] theorem length_sets (m : Message) (xs : List (Field × Nat)) :
    (m.sets xs).words.length = m.words.length := by
  induction xs generalizing m with
  | nil => rfl
  | cons x xs ih =>
      rw [sets, List.foldl_cons, ← sets, ih, length_set]

/-- The copy of some fields of a message has their bits. -/
theorem bit_copy (m : Message) {n : Message} {fs : List Field}
    (hfs : ∀ f ∈ fs, f.word < n.words.length) (w : Nat) {i : Nat} (hi : i < 32) :
    (n.sets (fs.map fun f => (f, m.get f))).bit w i =
      if ∃ f ∈ fs, f.Covers w i then m.bit w i else n.bit w i := by
  induction fs generalizing n with
  | nil => simp [sets]
  | cons f fs ih =>
      obtain ⟨hf, hfs⟩ := List.forall_mem_cons.1 hfs
      rw [List.map_cons, sets, List.foldl_cons, ← sets, ih (by simpa using hfs),
        bit_set n _ hf w hi]
      by_cases hin : ∃ g ∈ fs, g.Covers w i
      · obtain ⟨g, hg, hcovers⟩ := hin
        rw [if_pos ⟨g, hg, hcovers⟩, if_pos ⟨g, List.mem_cons_of_mem f hg, hcovers⟩]
      · rw [if_neg hin]
        by_cases hcovers : f.Covers w i
        · obtain ⟨hw, hlo, hup⟩ := hcovers
          rw [if_pos ⟨hw, hlo, hup⟩, if_pos ⟨f, List.mem_cons_self, hw, hlo, hup⟩, testBit_get,
            decide_eq_true (by omega), Bool.true_and, Nat.add_sub_cancel' hlo, hw]
        · rw [if_neg hcovers, if_neg]
          rintro ⟨g, hg, hcovers'⟩
          rcases List.mem_cons.1 hg with rfl | hg
          · exact hcovers hcovers'
          · exact hin ⟨g, hg, hcovers'⟩

end Message

/-! ## The last write -/

/-- The last value among `xs` that was written to a bit of `f`, or else `v`. -/
def lastValue (v : Nat) (xs : List (Field × Nat)) (f : Field) : Nat :=
  xs.foldl (fun v x => if x.1.Disjoint f then v else x.2) v

/-- A field has the last value written to it, if writes to some of its bits write them all. -/
theorem Message.get_sets_last {m : Message} {xs : List (Field × Nat)} {f : Field}
    (hword : ∀ x ∈ xs, x.1.word < m.words.length) (hlt : ∀ x ∈ xs, x.2 < 2 ^ x.1.range.bits)
    (hapart : ∀ x ∈ xs, x.1.Disjoint f ∨ x.1.Same f) :
    (m.sets xs).get f = lastValue (m.get f) xs f := by
  induction xs generalizing m with
  | nil => rfl
  | cons x xs ih =>
      obtain ⟨hw, hword⟩ := List.forall_mem_cons.1 hword
      obtain ⟨hl, hlt⟩ := List.forall_mem_cons.1 hlt
      obtain ⟨ha, hapart⟩ := List.forall_mem_cons.1 hapart
      rw [sets, List.foldl_cons, ← sets, ih (by simpa using hword) hlt hapart, lastValue, lastValue,
        List.foldl_cons]
      congr 1
      rcases ha with hdisjoint | hsame
      · rw [if_pos hdisjoint, get_set_of_disjoint _ _ hdisjoint]
      · rw [if_neg fun hdisjoint => hdisjoint.not_same hsame]
        obtain rfl := hsame.eq
        exact get_set_self _ _ hw hl

/-! ## Messages of a class -/

/-- A call of a setter with a value that fits the field. -/
structure MessageClass.Setter (k : MessageClass) where
  field : Field
  value : Nat
  mem : field ∈ k.fields
  lt : value < 2 ^ field.range.bits

/-- What a call of a setter writes. -/
def MessageClass.Setter.write {k : MessageClass} (x : k.Setter) : Field × Nat :=
  (x.field, x.value)

namespace MessageClass

variable {k : MessageClass}

/-- A default message, and setters called on it. -/
def build (k : MessageClass) (xs : List k.Setter) : Message :=
  k.init.sets (xs.map Setter.write)

theorem init_length (k : MessageClass) : k.init.words.length = k.type.size := by
  rw [init, Message.length_sets, Message.length_set, List.length_replicate]

/-- A default message is of its type and status. -/
theorem init_header (k : MessageClass) : k.Header k.init := by
  have hlen : ((⟨List.replicate k.type.size 0⟩ : Message).set .mt k.type.toNat).words.length =
      k.type.size := by rw [Message.length_set, List.length_replicate]
  refine ⟨?_, fun s hs => ?_⟩
  · have hoff : ∀ x ∈ k.status.toList, x.1.Disjoint .mt := fun x hx =>
      (k.ok.status_ok x (Option.mem_toList.1 hx)).2.1
    rw [init, Message.get_sets_of_disjoint _ hoff, Message.get_set_self _ _ _ k.type.toNat_lt]
    rw [List.length_replicate]
    exact k.type.size_pos
  · obtain ⟨hword, -, hlt⟩ := k.ok.status_ok s hs
    rw [init, Option.mem_def.1 hs]
    refine Message.get_set_self _ _ ?_ hlt
    rw [hlen, hword]
    exact k.type.size_pos

theorem get_zero (n : Nat) (f : Field) : (⟨List.replicate n 0⟩ : Message).get f = 0 := by
  refine Nat.eq_of_testBit_eq fun i => ?_
  have hzero : (List.replicate n (0 : Word)).getD f.word 0 = 0 := by
    rw [List.getD_eq_getElem?_getD, List.getElem?_replicate]
    split <;> rfl
  rw [Message.testBit_get, Message.bit, hzero]
  simp

/-- Every other field of it is zero. -/
theorem get_init {f : Field} (hf : f ∈ k.fields) : k.init.get f = 0 := by
  have hoff : ∀ x ∈ k.status.toList, x.1.Disjoint f := fun x hx =>
    (k.ok.off_status x (Option.mem_toList.1 hx) f hf).symm
  rw [init, Message.get_sets_of_disjoint _ hoff,
    Message.get_set_of_disjoint _ _ (k.ok.off_mt f hf).symm, get_zero]

theorem build_length (xs : List k.Setter) : (k.build xs).words.length = k.type.size := by
  rw [build, Message.length_sets, init_length]

/-- Setters leave type and status alone. -/
theorem build_header (xs : List k.Setter) : k.Header (k.build xs) := by
  obtain ⟨hmt, hstatus⟩ := k.init_header
  refine ⟨?_, fun s hs => ?_⟩
  · rw [build, Message.get_sets_of_disjoint, hmt]
    intro x hx
    obtain ⟨y, -, rfl⟩ := List.mem_map.1 hx
    exact k.ok.off_mt _ y.mem
  · rw [build, Message.get_sets_of_disjoint, hstatus s hs]
    intro x hx
    obtain ⟨y, -, rfl⟩ := List.mem_map.1 hx
    exact k.ok.off_status s hs _ y.mem

/-- The type of a message of this class. -/
theorem Header.type {m : Message} (h : k.Header m) : m.type = k.type := by
  rw [Message.type_eq, h.1, MessageType.ofMt_toNat]

theorem build_whole (xs : List k.Setter) : (k.build xs).Whole := by
  rw [Message.Whole, build_length, (build_header xs).type]

end MessageClass

/-- A getter of a message that has been built reads the last value that a setter wrote to
its bits, and zero if none has. Setters of other bits do not matter. -/
theorem MessageClass.get_build (k : MessageClass) (xs : List k.Setter) {f : Field}
    (hf : f ∈ k.fields) : (k.build xs).get f = lastValue 0 (xs.map Setter.write) f := by
  rw [build, Message.get_sets_last, get_init hf]
  all_goals
    intro x hx
    obtain ⟨y, -, rfl⟩ := List.mem_map.1 hx
  · rw [init_length]
    exact k.ok.word_lt _ y.mem
  · exact y.lt
  · exact k.ok.apart _ y.mem f hf

/-- A note, its velocity, and another note. -/
theorem MessageClass.get_build_note :
    ((M1cvm.messageClass .noteOn).build [⟨M1cvm.note, 60, by simp [M1cvm.messageClass,
      M1cvm.fields], by decide⟩, ⟨M1cvm.velocity, 100, by simp [M1cvm.messageClass, M1cvm.fields],
        by decide⟩, ⟨M1cvm.note, 64, by simp [M1cvm.messageClass, M1cvm.fields], by decide⟩]).get
          M1cvm.note = 64 := by
  have hnote : M1cvm.note ∈ (M1cvm.messageClass .noteOn).fields := by
    simp [M1cvm.messageClass, M1cvm.fields]
  exact MessageClass.get_build (M1cvm.messageClass .noteOn) _ hnote

/-! ## Which function is called -/

/-- What the dispatcher looks at beyond type and status: flex data messages are in the first
bank, and texts are in any other. -/
def Callback.Addressed (c : Callback) (m : Message) : Prop :=
  match c with
  | .flexData _ => m.get .flexStatusBank = 0
  | .flexText => m.get .flexStatusBank ≠ 0
  | _ => True

theorem switch_iff {σ : Type} {callback : σ → Callback} (hinjective : Function.Injective callback)
    (hknown : ∀ s, callback s ≠ .unknown) {status : Option σ} {m : Message} {s : σ} :
    (Call.switch callback status m).callback = callback s ↔ status = some s :=
  ⟨Message.status_of_switch hinjective hknown, fun h => by rw [h]; rfl⟩

theorem type_iff (m : Message) (mt : MessageType) : m.type = mt ↔ m.get .mt = mt.toNat := by
  rw [Message.type_eq]
  constructor
  · rintro rfl
    exact (MessageType.toNat_ofMt (Message.get_lt m .mt)).symm
  · intro h
    rw [h, MessageType.ofMt_toNat]

namespace Message

/-- A function is called from the `switch` of its type. -/
theorem callback_iff_type {c : Callback} {mt : MessageType} (hc : c.type? = some mt) (m : Message) :
    m.call.callback = c ↔
      m.get .mt = mt.toNat ∧ (UmpDispatcher.callOf mt m m).callback = c := by
  rw [← type_iff]
  constructor
  · intro h
    have htype : m.type = mt := type_of_call (by rw [h, hc])
    exact ⟨htype, htype ▸ h⟩
  · rintro ⟨rfl, h⟩
    exact h

theorem utility_iff (m : Message) (s : Mt.Utility) :
    (UmpDispatcher.utilityMessage m).callback = .utility s ↔
      Mt.Utility.ofNat? (m.get .status) = some s := by
  rw [UmpDispatcher.utilityMessage]
  split
  case h_1 h =>
    rw [h]
    constructor
    · intro hs
      rw [Callback.utility.inj hs]
    · intro hs
      rw [Option.some.inj hs]
  case h_2 => exact switch_iff (fun _ _ h => Callback.utility.inj h) (fun _ => by simp)

theorem flexData_iff (m : Message) (s : Mt.FlexData) :
    (UmpDispatcher.flexDataMessage m).callback = .flexData s ↔
      Mt.FlexData.ofNat? (m.get .flexStatus) = some s ∧ m.get .flexStatusBank = 0 := by
  rw [UmpDispatcher.flexDataMessage]
  split
  case isTrue hbank =>
    rw [switch_iff (fun _ _ h => Callback.flexData.inj h) (fun _ => by simp)]
    exact ⟨fun h => ⟨h, hbank⟩, And.left⟩
  case isFalse hbank => exact iff_of_false (by simp) fun h => hbank h.2

theorem flexText_iff (m : Message) :
    (UmpDispatcher.flexDataMessage m).callback = .flexText ↔ m.get .flexStatusBank ≠ 0 := by
  rw [UmpDispatcher.flexDataMessage]
  split
  case isTrue hbank =>
    refine iff_of_false ?_ fun h => h hbank
    rcases @switch_callback _ .flexData (Mt.FlexData.ofNat? (m.get .flexStatus)) m with
      h | ⟨s, -, h⟩
    · rw [h]
      simp
    · rw [h]
      simp
  case isFalse hbank => exact iff_of_true rfl hbank

/-- The function of a class is called exactly for the messages that pass the check of type
and status of this class, in the right bank. -/
theorem callback_iff {c : Callback} {k : MessageClass} (hk : c.messageClass? = some k)
    (m : Message) : m.call.callback = c ↔ k.Header m ∧ c.Addressed m := by
  cases c with
  | unknown => cases hk
  | flexText =>
      cases hk
      rw [callback_iff_type rfl, UmpDispatcher.callOf, flexText_iff]
      simp [MessageClass.Header, TextCommon.messageClass, Callback.Addressed]
  | utility s =>
      cases hk
      rw [callback_iff_type rfl, UmpDispatcher.callOf, utility_iff, Mt.Utility.ofNat?_eq_some]
      simp [MessageClass.Header, Utility.messageClass, Callback.Addressed]
  | flexData s =>
      cases hk
      rw [callback_iff_type rfl, UmpDispatcher.callOf, flexData_iff, Mt.FlexData.ofNat?_eq_some]
      simp [MessageClass.Header, FlexData.messageClass, Callback.Addressed, and_assoc]
  | system s =>
      cases hk
      rw [callback_iff_type rfl, UmpDispatcher.callOf, UmpDispatcher.systemMessage,
        switch_iff (fun _ _ h => Callback.system.inj h) (fun _ => by simp),
        Mt.SystemCrt.ofNat?_eq_some]
      simp [MessageClass.Header, System.messageClass, Callback.Addressed]
  | m1cvm s =>
      cases hk
      rw [callback_iff_type rfl, UmpDispatcher.callOf, UmpDispatcher.m1cvmMessage,
        switch_iff (fun _ _ h => Callback.m1cvm.inj h) (fun _ => by simp),
        Mt.M1cvm.ofNat?_eq_some]
      simp [MessageClass.Header, M1cvm.messageClass, Callback.Addressed]
  | data64 s =>
      cases hk
      rw [callback_iff_type rfl, UmpDispatcher.callOf, UmpDispatcher.data64Message,
        switch_iff (fun _ _ h => Callback.data64.inj h) (fun _ => by simp),
        Mt.Data64.ofNat?_eq_some]
      simp [MessageClass.Header, Data64.messageClass, Callback.Addressed]
  | m2cvm s =>
      cases hk
      rw [callback_iff_type rfl, UmpDispatcher.callOf, UmpDispatcher.m2cvmMessage,
        switch_iff (fun _ _ h => Callback.m2cvm.inj h) (fun _ => by simp),
        Mt.M2cvm.ofNat?_eq_some]
      simp [MessageClass.Header, M2cvm.messageClass, Callback.Addressed]
  | data128 s =>
      cases hk
      rw [callback_iff_type rfl, UmpDispatcher.callOf, UmpDispatcher.data128Message,
        switch_iff (fun _ _ h => Callback.data128.inj h) (fun _ => by simp),
        Mt.Data128.ofNat?_eq_some]
      simp [MessageClass.Header, Data128.messageClass, Callback.Addressed]
  | stream s =>
      cases hk
      rw [callback_iff_type rfl, UmpDispatcher.callOf, UmpDispatcher.streamMessage,
        switch_iff (fun _ _ h => Callback.stream.inj h) (fun _ => by simp),
        Mt.Stream.ofNat?_eq_some]
      simp [MessageClass.Header, Stream.messageClass, Callback.Addressed]

end Message

/-! ## From a client to a function -/

/-- A message that has been built, with the function that its class is for. -/
structure Built where
  callback : Callback
  messageClass : MessageClass
  class_eq : callback.messageClass? = some messageClass
  setters : List messageClass.Setter

namespace Built

def message (b : Built) : Message :=
  b.messageClass.build b.setters

/-- The call that its class is for. Only `noop` is called without a message. -/
def call (b : Built) : Call :=
  ⟨b.callback, if b.callback = .utility .noop then ⟨[]⟩ else b.message⟩

/-- The message as it is sent. -/
def packet (b : Built) : Packet :=
  ⟨b.message, MessageClass.build_whole b.setters⟩

theorem call_iff (b : Built) : b.message.call = b.call ↔ b.callback.Addressed b.message := by
  have hiff := Message.callback_iff b.class_eq b.message
  have hheader : b.messageClass.Header b.message := MessageClass.build_header b.setters
  constructor
  · intro h
    exact (hiff.1 (congrArg Call.callback h)).2
  · intro h
    have hcallback := hiff.2 ⟨hheader, h⟩
    have hmessage := b.message.callFor.message
    rw [hcallback] at hmessage
    rw [call, ← hmessage, ← hcallback]

end Built

/-- Messages that are built and sent one after the other are dispatched to the functions of
their classes, each once, in order and as they were built, exactly if the setters left every
flex data message in the bank of its class. -/
theorem dispatch_built (bs : List Built) :
    (UmpDispatcher.machine.run {} (bs.flatMap fun b => b.message.words)).2 = bs.map Built.call ↔
      ∀ b ∈ bs, b.callback.Addressed b.message := by
  have hwords : (bs.flatMap fun b => b.message.words) =
      (bs.map Built.packet).flatMap Packet.words := by
    rw [List.flatMap_map]
    rfl
  have hframes := (framesOf_words (bs.map Built.packet) partial_nil).1
  rw [List.append_nil, ← hwords] at hframes
  rw [(UmpDispatcher.machine_run _).2, hframes, List.map_map, List.map_map, List.map_inj_left]
  exact forall₂_congr fun b _ => b.call_iff

/-! ## Assertions -/

/-- What `word0::check()` wants beyond type and status is zero, which only `noop` has. -/
theorem Callback.zero_eq_nil {c : Callback} {k : MessageClass} (hk : c.messageClass? = some k)
    (hc : c ≠ .utility .noop) : k.zero = [] := by
  cases c with
  | unknown => cases hk
  | utility s =>
      cases hk
      cases s with
      | noop => exact absurd rfl hc
      | _ => rfl
  | _ =>
      cases hk
      rfl

/-- Whatever the words are, every message that the dispatcher constructs for a function has
the words of its class, and the assertion of the span constructor holds. -/
theorem span_ctor (ws : List Word) : ∀ call ∈ (UmpDispatcher.machine.run {} ws).2,
    ∀ k, call.callback.messageClass? = some k → call.callback ≠ .utility .noop →
      call.message.words.length = k.type.size ∧ k.check call.message := by
  intro call hcall k hk hnoop
  rw [(UmpDispatcher.machine_run ws).2] at hcall
  obtain ⟨m, hm, rfl⟩ := List.mem_map.1 hcall
  have hwhole : m.Whole := whole_of_mem_framesOf hm
  have hheader : k.Header m := ((Message.callback_iff hk m).1 rfl).1
  rw [Message.call_message hnoop]
  refine ⟨?_, ?_⟩
  · rw [hwhole, hheader.type]
  · rw [MessageClass.check, Callback.zero_eq_nil hk hnoop, decide_eq_true hheader]
    rfl

/-- A note after a message of two words. -/
theorem span_ctor_note :
    (⟨[0x20903C64]⟩ : Message).words.length = 1 ∧
      (M1cvm.messageClass .noteOn).check ⟨[0x20903C64]⟩ :=
  span_ctor [0x40903C00, 0x80000000, 0x20903C64] ⟨.m1cvm .noteOn, ⟨[0x20903C64]⟩⟩ (by decide) _
    rfl (by decide)

/-! ## Copying by getters and setters -/

namespace MessageClass

/-- A default message, and every setter called with what the getter reads from `m`. -/
def copy (k : MessageClass) (m : Message) : Message :=
  k.init.sets (k.fields.map fun f => (f, m.get f))

/-- A copy is built by setters. -/
theorem copy_eq_build (k : MessageClass) (m : Message) : ∃ xs, k.copy m = k.build xs := by
  let setter (f : { f // f ∈ k.fields }) : k.Setter := ⟨f.1, m.get f.1, f.2, m.get_lt f.1⟩
  have hwrites : (k.fields.attach.map setter).map Setter.write =
      k.fields.map fun f => (f, m.get f) := by
    rw [List.map_map]
    exact @List.attach_map_val _ _ k.fields fun f => (f, m.get f)
  exact ⟨k.fields.attach.map setter, by rw [copy, build, hwrites]⟩

/-- The fields of type and status. -/
def headerFields (k : MessageClass) : List Field :=
  .mt :: k.status.toList.map Prod.fst

/-- The bit is one of type, status or a field with a setter. -/
def Used (k : MessageClass) (w i : Nat) : Prop :=
  ∃ f ∈ k.headerFields ++ k.fields, f.Covers w i

instance (k : MessageClass) (w i : Nat) : Decidable (k.Used w i) :=
  inferInstanceAs (Decidable (∃ f ∈ _, _))

variable {k : MessageClass} {m : Message}

theorem word_lt {f : Field} (hf : f ∈ k.headerFields ++ k.fields) : f.word < k.type.size := by
  rcases List.mem_append.1 hf with hf | hf
  · rcases List.mem_cons.1 hf with rfl | hf
    · exact k.type.size_pos
    · obtain ⟨s, hs, rfl⟩ := List.mem_map.1 hf
      rw [(k.ok.status_ok s (Option.mem_toList.1 hs)).1]
      exact k.type.size_pos
  · exact k.ok.word_lt f hf

/-- Type and status are copied as well, as those of `m` are what the default message has. -/
theorem Header.copy_eq (h : k.Header m) : k.copy m =
    (⟨List.replicate k.type.size 0⟩ : Message).sets
      ((k.headerFields ++ k.fields).map fun f => (f, m.get f)) := by
  have hstatus : k.status.toList.map (fun s => (s.1, m.get s.1)) = k.status.toList := by
    refine (List.map_congr_left fun s hs => ?_).trans (List.map_id _)
    rw [h.2 s (Option.mem_toList.1 hs)]
    rfl
  rw [copy, init, headerFields, List.map_append, List.map_cons, h.1, List.map_map,
    show (fun f => (f, m.get f)) ∘ Prod.fst = fun s : Field × Nat => (s.1, m.get s.1) from rfl,
    hstatus]
  simp only [Message.sets, List.cons_append, List.foldl_cons, List.foldl_append]

theorem Header.bit_copy (h : k.Header m) (w : Nat) {i : Nat} (hi : i < 32) :
    (k.copy m).bit w i = (decide (k.Used w i) && m.bit w i) := by
  have hword : ∀ f ∈ k.headerFields ++ k.fields,
      f.word < (⟨List.replicate k.type.size 0⟩ : Message).words.length := by
    intro f hf
    rw [List.length_replicate]
    exact word_lt hf
  have hzero : (⟨List.replicate k.type.size 0⟩ : Message).bit w i = false := by
    rw [Message.bit, List.getD_eq_getElem?_getD, List.getElem?_replicate]
    split <;> exact BitVec.getLsbD_zero
  rw [h.copy_eq, Message.bit_copy m hword w hi, hzero]
  by_cases hused : k.Used w i
  · rw [decide_eq_true hused, Bool.true_and]
    exact if_pos hused
  · rw [decide_eq_false hused, Bool.false_and]
    exact if_neg hused

theorem Header.get_copy (h : k.Header m) {f : Field} (hf : f ∈ k.fields) :
    (k.copy m).get f = m.get f := by
  refine Nat.eq_of_testBit_eq fun i => ?_
  rw [Message.testBit_get, Message.testBit_get]
  by_cases hi : i < f.range.bits
  · have hle := f.le_32
    have hused : k.Used f.word (f.range.index + i) :=
      ⟨f, List.mem_append_right _ hf, rfl, by omega, by omega⟩
    rw [h.bit_copy f.word (by omega), decide_eq_true hused, Bool.true_and]
  · rw [decide_eq_false hi, Bool.false_and, Bool.false_and]

theorem Header.get_copy_eq_zero (h : k.Header m) {f : Field} (hzero : m.get f = 0) :
    (k.copy m).get f = 0 := by
  refine Nat.eq_of_testBit_eq fun i => ?_
  have hbit := m.testBit_get f i
  rw [hzero, Nat.zero_testBit] at hbit
  rw [Message.testBit_get, Nat.zero_testBit]
  by_cases hi : i < f.range.bits
  · have hle := f.le_32
    rw [decide_eq_true hi, Bool.true_and] at hbit
    rw [h.bit_copy f.word (by omega), ← hbit, Bool.and_false, Bool.and_false]
  · rw [decide_eq_false hi, Bool.false_and]

/-- What the copy of a message by its getters and setters is: of the message, the bits of
type, status and fields, and it goes to the same function. -/
structure Copied (c : Callback) (k : MessageClass) (m copy : Message) : Prop where
  length : copy.words.length = m.words.length
  bit : ∀ w, ∀ i < 32, copy.bit w i = (decide (k.Used w i) && m.bit w i)
  callback : copy.call.callback = c
  eq_iff : copy = m ↔ ∀ w, ∀ i < 32, m.bit w i → k.Used w i

end MessageClass

/-- A message that a function has been called with can be copied by the getters and setters
of its class. The copy loses the reserved bits and nothing else. -/
theorem copied {c : Callback} {k : MessageClass} (hk : c.messageClass? = some k) (p : Packet)
    (h : p.message.call.callback = c) : MessageClass.Copied c k p.message (k.copy p.message) := by
  obtain ⟨hheader, haddressed⟩ := (Message.callback_iff hk p.message).1 h
  have hlen : (k.copy p.message).words.length = p.message.words.length := by
    rw [MessageClass.copy, Message.length_sets, MessageClass.init_length, p.whole, hheader.type]
  refine ⟨hlen, fun w i hi => hheader.bit_copy w hi, ?_, ?_⟩
  · have hcopy : k.Header (k.copy p.message) := by
      obtain ⟨xs, hxs⟩ := k.copy_eq_build p.message
      rw [hxs]
      exact MessageClass.build_header xs
    refine (Message.callback_iff hk _).2 ⟨hcopy, ?_⟩
    cases c with
    | flexData s => exact hheader.get_copy_eq_zero haddressed
    | flexText =>
        cases hk
        show (TextCommon.messageClass.copy p.message).get .flexStatusBank ≠ 0
        rw [hheader.get_copy (by simp [TextCommon.messageClass])]
        exact haddressed
    | _ => trivial
  · constructor
    · intro heq w i hi hbit
      have hcopy := hheader.bit_copy w hi
      rw [heq, hbit, Bool.and_true] at hcopy
      exact of_decide_eq_true hcopy.symm
    · intro hused
      refine Message.ext_bit hlen fun w i hi => ?_
      rw [hheader.bit_copy w hi]
      cases hbit : p.message.bit w i with
      | false => exact Bool.and_false _
      | true => rw [decide_eq_true (hused w i hi hbit), Bool.true_and]

/-- A note with a reserved bit. -/
theorem copied_note : MessageClass.Copied (.m1cvm .noteOn) (M1cvm.messageClass .noteOn)
    ⟨[0x2090BC64]⟩ ⟨[0x20903C64]⟩ := by
  have hcopy : (M1cvm.messageClass .noteOn).copy ⟨[0x2090BC64]⟩ = ⟨[0x20903C64]⟩ := by decide
  rw [← hcopy]
  exact @copied (.m1cvm .noteOn) _ rfl { message := ⟨[0x2090BC64]⟩ } (by decide)

end Midi2.Ump
