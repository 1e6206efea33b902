import Midi2.Ump.Dispatcher

/-!
# Building channel voice messages

The translators build their messages from a default constructor and a chain of setters. No
setter they use touches the type or the status, so `Message.Kind` follows a chain from
its start to its end, and says what the dispatcher of a receiver makes of the message.
-/

namespace Midi2.Ump

/-! ## Kinds of messages -/

/-- A message of `n` words with this type and this status. -/
structure Message.Kind (n : Nat) (mt : MessageType) (status : Nat) (m : Message) : Prop where
  length : m.words.length = n
  mt : m.get .mt = mt.toNat
  status : m.get .status = status

namespace Message.Kind

variable {n status : Nat} {mt : MessageType} {m : Message}

theorem init (hn : 0 < n) (hs : status < 2 ^ 4) : Kind n mt status (.init n mt status) := by
  have hword : 0 < (⟨List.replicate n 0⟩ : Message).words.length := by
    rwa [List.length_replicate]
  have hword' : 0 < ((⟨List.replicate n 0⟩ : Message).set .mt mt.toNat).words.length := by
    rwa [length_set]
  refine ⟨?_, ?_, ?_⟩
  · rw [Message.init, length_set, length_set, List.length_replicate]
  · rw [Message.init, get_set_of_disjoint _ _ (by decide), get_set_self _ _ hword mt.toNat_lt]
  · rw [Message.init, get_set_self _ _ hword' hs]

theorem set (h : Kind n mt status m) {f : Field} (v : Nat) (hmt : f.Disjoint .mt := by decide)
    (hs : f.Disjoint .status := by decide) : Kind n mt status (m.set f v) where
  length := by rw [length_set, h.length]
  mt := by rw [get_set_of_disjoint _ _ hmt, h.mt]
  status := by rw [get_set_of_disjoint _ _ hs, h.status]

theorem get_set (h : Kind n mt status m) {f : Field} {v : Nat} (hv : v < 2 ^ f.range.bits)
    (hf : f.word < n := by decide) : (m.set f v).get f = v :=
  get_set_self m f (h.length ▸ hf) hv

theorem type (h : Kind n mt status m) : m.type = mt := by
  rw [Message.type_eq, h.mt, MessageType.ofMt_toNat]

theorem whole (h : Kind mt.size mt status m) : m.Whole := by
  rw [Whole, h.length, h.type]

end Message.Kind

/-! ### Chains of setters -/

namespace Message

/-- A chain of setters. -/
def sets (m : Message) (xs : List (Field × Nat)) : Message :=
  xs.foldl (fun m x => m.set x.1 x.2) m

theorem get_sets_of_disjoint (m : Message) {xs : List (Field × Nat)} {f : Field}
    (h : ∀ x ∈ xs, x.1.Disjoint f) : (m.sets xs).get f = m.get f := by
  induction xs generalizing m with
  | nil => rfl
  | cons x xs ih =>
      have hrest := ih (m.set x.1 x.2) fun y hy => h y (List.mem_cons_of_mem x hy)
      rw [get_set_of_disjoint _ _ (h x List.mem_cons_self)] at hrest
      exact hrest

/-- Each field has the value that it was set to, if no two fields of the chain overlap. -/
theorem get_sets {m : Message} {xs : List (Field × Nat)}
    (hdisjoint : (xs.map Prod.fst).Pairwise fun f g => g.Disjoint f)
    (hword : ∀ f ∈ xs.map Prod.fst, f.word < m.words.length)
    (hlt : ∀ x ∈ xs, x.2 < 2 ^ x.1.range.bits) : ∀ x ∈ xs, (m.sets xs).get x.1 = x.2 := by
  induction xs generalizing m with
  | nil => exact List.forall_mem_nil _
  | cons x xs ih =>
      obtain ⟨hhead, htail⟩ := List.pairwise_cons.1 hdisjoint
      obtain ⟨hw, hws⟩ := List.forall_mem_cons.1 hword
      obtain ⟨hl, hls⟩ := List.forall_mem_cons.1 hlt
      refine List.forall_mem_cons.2 ⟨?_, ?_⟩
      · show ((m.set x.1 x.2).sets xs).get x.1 = x.2
        rw [get_sets_of_disjoint _ fun y hy => hhead y.1 (List.mem_map_of_mem hy),
          get_set_self m x.1 hw hl]
      · refine ih htail (fun f hf => ?_) hls
        rw [length_set]
        exact hws f hf

namespace Kind

variable {n status : Nat} {mt : MessageType} {m : Message}

theorem sets (h : Kind n mt status m) {xs : List (Field × Nat)} (fs : List Field)
    (hfs : xs.map Prod.fst = fs := by rfl)
    (hmt : ∀ f ∈ fs, f.Disjoint .mt ∧ f.Disjoint .status := by decide) :
    Kind n mt status (m.sets xs) := by
  subst hfs
  induction xs generalizing m with
  | nil => exact h
  | cons x xs ih =>
      obtain ⟨hx, hxs⟩ := List.forall_mem_cons.1 hmt
      exact ih (h.set x.2 hx.1 hx.2) hxs

theorem get_sets (h : Kind n mt status m) {xs : List (Field × Nat)} (fs : List Field)
    (hlt : ∀ x ∈ xs, x.2 < 2 ^ x.1.range.bits) (hfs : xs.map Prod.fst = fs := by rfl)
    (hdisjoint : fs.Pairwise fun f g => g.Disjoint f := by decide)
    (hword : ∀ f ∈ fs, f.word < n := by decide) : ∀ x ∈ xs, (m.sets xs).get x.1 = x.2 := by
  subst hfs
  exact Message.get_sets hdisjoint (h.length ▸ hword) hlt

end Kind

end Message

/-- A MIDI 1.0 channel voice message of this kind. -/
abbrev M1cvm.Is (s : Mt.M1cvm) (m : Message) : Prop :=
  m.Kind 1 .m1cvm s.toNat

/-- A MIDI 2.0 channel voice message of this kind. -/
abbrev M2cvm.Is (s : Mt.M2cvm) (m : Message) : Prop :=
  m.Kind 2 .m2cvm s.toNat

theorem M1cvm.is_init (s : Mt.M1cvm) : Is s (init s) :=
  Message.Kind.init (by decide) (by cases s <;> decide)

theorem M2cvm.is_init (s : Mt.M2cvm) : Is s (init s) :=
  Message.Kind.init (by decide) (by cases s <;> decide)

theorem M1cvm.Is.whole {s : Mt.M1cvm} {m : Message} (h : Is s m) : m.Whole :=
  @Message.Kind.whole _ .m1cvm _ h

theorem M2cvm.Is.whole {s : Mt.M2cvm} {m : Message} (h : Is s m) : m.Whole :=
  @Message.Kind.whole _ .m2cvm _ h

theorem M1cvm.Is.call {s : Mt.M1cvm} {m : Message} (h : Is s m) : m.call = ⟨.m1cvm s, m⟩ := by
  rw [Message.call, h.type, UmpDispatcher.callOf, UmpDispatcher.m1cvmMessage, h.status,
    Mt.M1cvm.ofNat_toNat, Call.switch]

/-- What the dispatcher takes for a message of this kind is one. -/
theorem M1cvm.is_of_call {p : Packet} {s : Mt.M1cvm} (h : p.message.call.callback = .m1cvm s) :
    Is s p.message := by
  have htype : p.message.type = .m1cvm := Message.type_of_call (by rw [h]; rfl)
  rw [Message.call, htype] at h
  have hstatus : Mt.M1cvm.ofNat? (p.message.get .status) = some s :=
    Message.status_of_switch (fun _ _ => Callback.m1cvm.inj) (fun _ => Callback.noConfusion) h
  refine ⟨?_, ?_, Mt.M1cvm.eq_toNat hstatus⟩
  · rw [show p.message.words.length = p.message.type.size from p.whole, htype]
    rfl
  · rw [Message.type_eq] at htype
    rw [← htype, MessageType.toNat_ofMt (p.message.get_lt .mt)]

theorem M2cvm.Is.call {s : Mt.M2cvm} {m : Message} (h : Is s m) : m.call = ⟨.m2cvm s, m⟩ := by
  rw [Message.call, h.type, UmpDispatcher.callOf, UmpDispatcher.m2cvmMessage, h.status,
    Mt.M2cvm.ofNat_toNat, Call.switch]

end Midi2.Ump
