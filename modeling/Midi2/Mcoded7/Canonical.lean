import Midi2.Mcoded7
import Mathlib.Data.List.GetD

/-!
# Canonical encodings (`mcoded7.hpp`)

Every sequence of bytes has an encoding, and the decoder gives it back. The converse is not true:
the decoder takes any bytes, and there are some that no encoder writes. A receiver that has to
pass data on as it got them wants to know when decoding loses nothing, that is, when encoding again
gives the bytes that were decoded. They must be seven bits wide, a byte of top bits must not be the
last one, and the top bits that there are no bytes for must be zero (`encode_decode_iff`).
-/

namespace Midi2.Mcoded7

/-- Bytes of seven bits in groups of eight. The last group may be shorter, but it has data, and the
top bits of the data that it does not have are zero. -/
structure Canonical (ws : List Byte) : Prop where
  clear : ∀ b ∈ ws, b < 0x80
  begun : ws.length % 8 ≠ 1
  spare : ∀ i b, ws[8 * i]? = some b → ∀ j, j + (ws.length - 8 * i - 1) < 7 →
    b.getLsbD j = false

/-- Full groups, and a shorter one if there is something in it. -/
def groups (gs : List (List Byte)) (g : List Byte) : List Byte :=
  gs.flatMap group ++ if g = [] then [] else group g

/-! ## Groups that are encoded and decoded -/

theorem groups_unique {gs gs' : List (List Byte)} {g g' : List Byte}
    (hgs : ∀ x ∈ gs, x.length = 7) (hgs' : ∀ x ∈ gs', x.length = 7)
    (hg : g.length < 7) (hg' : g'.length < 7) (h : gs.flatten ++ g = gs'.flatten ++ g') :
    gs = gs' ∧ g = g' := by
  induction gs generalizing gs' with
  | nil =>
      cases gs' with
      | nil => exact ⟨rfl, h⟩
      | cons x xs =>
          have hlen := congrArg List.length h
          have hx := hgs' x List.mem_cons_self
          simp only [List.flatten_nil, List.nil_append, List.flatten_cons, List.length_append]
            at hlen
          omega
  | cons x xs ih =>
      obtain ⟨hx, hxs⟩ := List.forall_mem_cons.1 hgs
      cases gs' with
      | nil =>
          have hlen := congrArg List.length h
          simp only [List.flatten_nil, List.nil_append, List.flatten_cons, List.length_append]
            at hlen
          omega
      | cons y ys =>
          obtain ⟨hy, hys⟩ := List.forall_mem_cons.1 hgs'
          rw [List.flatten_cons, List.flatten_cons, List.append_assoc, List.append_assoc] at h
          obtain ⟨rfl, hrest⟩ := List.append_inj h (hx.trans hy.symm)
          obtain ⟨rfl, rfl⟩ := ih hxs hys hrest
          exact ⟨rfl, rfl⟩

theorem encode_groups {gs : List (List Byte)} {g : List Byte} (hgs : ∀ x ∈ gs, x.length = 7)
    (hg : g.length < 7) : encode (gs.flatten ++ g) = groups gs g := by
  obtain ⟨gs', g', hgs', hg', heq, henc⟩ := encode_eq (gs.flatten ++ g)
  obtain ⟨rfl, rfl⟩ := groups_unique hgs hgs' hg hg' heq
  exact henc

theorem decode_groups_eq {gs : List (List Byte)} {g : List Byte} (hgs : ∀ x ∈ gs, x.length = 7)
    (hg : g.length < 7) : (decoder.run {} (groups gs g)).2 = gs.flatten ++ g := by
  rw [← encode_groups hgs hg]
  exact (decode_encode _).2.2.1

/-! ## A group from its bytes -/

/-- The data of a group with the top bits `signs`, from position `k` on, as they are decoded. -/
def joined (signs : Byte) : Nat → List Byte → List Byte
  | _, [] => []
  | k, b :: bs => (b ||| ((signs >>> (6 - k)) &&& 1) <<< 7) :: joined signs (k + 1) bs

theorem length_joined (signs : Byte) (k : Nat) (bs : List Byte) :
    (joined signs k bs).length = bs.length := by
  induction bs generalizing k with
  | nil => rfl
  | cons b bs ih => rw [joined, List.length_cons, ih, List.length_cons]

/-- The data are below the top bits. -/
theorem data_joined (signs : Byte) (k : Nat) {bs : List Byte} (hbs : ∀ b ∈ bs, b < 0x80) :
    (joined signs k bs).map (fun b => b &&& ~~~msb) = bs := by
  have hdata : ∀ b : Byte, b < 0x80 → ∀ x : BitVec 1,
      (b ||| (x.setWidth 8) <<< 7) &&& ~~~msb = b := by decide +kernel
  induction bs generalizing k with
  | nil => rfl
  | cons b bs ih =>
      obtain ⟨hb, hbs⟩ := List.forall_mem_cons.1 hbs
      rw [joined, List.map_cons, ih (k + 1) hbs, show (1 : Byte) = 1#8 from rfl,
        BitVec.and_one_eq_setWidth_ofBool_getLsbD, hdata b hb]

theorem sign_joined (signs : Byte) (k : Nat) {bs : List Byte} (hbs : ∀ b ∈ bs, b < 0x80)
    (i : Nat) (hi : i < bs.length) :
    ((joined signs k bs).getD i 0).getLsbD 7 = signs.getLsbD (6 - (k + i)) := by
  have hsign : ∀ b : Byte, b < 0x80 → ∀ x : Bool,
      (b ||| ((BitVec.ofBool x).setWidth 8) <<< 7).getLsbD 7 = x := by decide +kernel
  induction bs generalizing k i with
  | nil => exact absurd hi (Nat.not_lt_zero i)
  | cons b bs ih =>
      obtain ⟨hb, hbs⟩ := List.forall_mem_cons.1 hbs
      cases i with
      | zero =>
          rw [joined, List.getD_cons_zero, show (1 : Byte) = 1#8 from rfl,
            BitVec.and_one_eq_setWidth_ofBool_getLsbD, hsign b hb, BitVec.getLsbD_ushiftRight]
          rfl
      | succ i =>
          rw [joined, List.getD_cons_succ, ih (k + 1) hbs i (Nat.lt_of_succ_lt_succ hi),
            Nat.add_assoc, Nat.add_comm 1]

/-- A group is what is encoded for its data as they are decoded. -/
theorem group_joined {signs : Byte} {bs : List Byte} (hlen : bs.length ≤ 7)
    (hsigns : signs < 0x80) (hbs : ∀ b ∈ bs, b < 0x80)
    (hspare : ∀ j, j + bs.length < 7 → signs.getLsbD j = false) :
    group (joined signs 0 bs) = signs :: bs := by
  have htop : ∀ b : Byte, b < 0x80 → b.getLsbD 7 = false := by decide +kernel
  rw [group, data_joined signs 0 hbs]
  refine congrArg (fun s => s :: bs) (BitVec.eq_of_getLsbD_eq fun i hi => ?_)
  rw [getLsbD_signsFrom, Nat.zero_add]
  rcases Nat.lt_or_ge 6 i with htop' | hle
  · -- the top bit of the byte of top bits itself
    obtain rfl : i = 7 := by omega
    rw [htop signs hsigns]
    rfl
  · rw [decide_eq_true hle, Bool.true_and]
    rcases Nat.lt_or_ge (6 - i) bs.length with hdata | hnone
    · rw [sign_joined signs 0 hbs _ hdata, Nat.zero_add, show 6 - (6 - i) = i by omega]
    · have hout : (joined signs 0 bs).length ≤ 6 - i := by rwa [length_joined]
      rw [List.getD_eq_default _ _ hout, hspare i (by omega)]
      rfl

/-! ## Canonical bytes -/

/-- The first eight bytes are a group, and the others are canonical. -/
theorem Canonical.drop {ws ws' : List Byte} (h : Canonical (ws ++ ws')) (hlen : ws.length = 8) :
    Canonical ws' where
  clear b hb := h.clear b (List.mem_append_right ws hb)
  begun := by
    have hbegun := h.begun
    rw [List.length_append, hlen] at hbegun
    omega
  spare i b hb j hj := by
    refine h.spare (i + 1) b ?_ j ?_
    · rw [List.getElem?_append_right (by omega), hlen, show 8 * (i + 1) - 8 = 8 * i by omega]
      exact hb
    · rw [List.length_append, hlen]
      omega

/-- Canonical bytes are what is written for groups. -/
theorem Canonical.groups {ws : List Byte} (h : Canonical ws) :
    ∃ gs g, (∀ x ∈ gs, x.length = 7) ∧ g.length < 7 ∧ ws = groups gs g := by
  induction hn : ws.length using Nat.strongRecOn generalizing ws with
  | ind n ih =>
      cases ws with
      | nil => exact ⟨[], [], List.forall_mem_nil _, by decide, rfl⟩
      | cons signs bs =>
          obtain ⟨hsigns, hbs⟩ := List.forall_mem_cons.1 h.clear
          have hspare := h.spare 0 signs rfl
          rw [List.length_cons] at hn hspare
          rcases Nat.lt_or_ge bs.length 7 with hlt | hge
          · have hgroup := group_joined (Nat.le_of_lt hlt) hsigns hbs fun j hj =>
              hspare j (by omega)
            have hne : joined signs 0 bs ≠ [] := by
              intro hnil
              have hlen := length_joined signs 0 bs
              have hbegun := h.begun
              rw [hnil] at hlen
              rw [List.length_cons, ← hlen] at hbegun
              exact hbegun rfl
            refine ⟨[], joined signs 0 bs, List.forall_mem_nil _, ?_, ?_⟩
            · rwa [length_joined]
            · rw [Mcoded7.groups, if_neg hne, hgroup]
              rfl
          · have htake : (bs.take 7).length = 7 := by rw [List.length_take]; omega
            have hsplit : signs :: bs = (signs :: bs.take 7) ++ bs.drop 7 := by
              rw [List.cons_append, List.take_append_drop]
            have hfull := group_joined (Nat.le_of_eq htake) hsigns
              (fun b hb => hbs b (List.mem_of_mem_take hb)) fun j hj => absurd hj (by omega)
            rw [hsplit] at h
            obtain ⟨gs, g, hgs, hg, hrest⟩ := ih (bs.drop 7).length
              (by rw [List.length_drop]; omega) (h.drop (by rw [List.length_cons, htake])) rfl
            refine ⟨joined signs 0 (bs.take 7) :: gs, g, ?_, hg, ?_⟩
            · exact List.forall_mem_cons.2 ⟨by rw [length_joined, htake], hgs⟩
            · rw [hsplit, hrest, Mcoded7.groups, Mcoded7.groups, List.flatMap_cons, hfull,
                List.append_assoc]

/-- What is written for groups is canonical. -/
theorem canonical_groups {gs : List (List Byte)} {g : List Byte} (hgs : ∀ x ∈ gs, x.length = 7)
    (hg : g.length < 7) : Canonical (groups gs g) := by
  obtain ⟨hout, -⟩ := length_flatMap_group hgs
  obtain ⟨hclear, -⟩ := decode_encode (gs.flatten ++ g)
  rw [encode_groups hgs hg] at hclear
  have hlen : (groups gs g).length =
      8 * gs.length + if g = [] then 0 else g.length + 1 := by
    rw [groups, List.length_append, hout]
    split
    case isTrue => rfl
    case isFalse => rw [length_group]
  refine ⟨hclear, ?_, ?_⟩
  · rw [hlen]
    split
    case isTrue => omega
    case isFalse hne =>
      have hpos := List.length_pos_of_ne_nil hne
      omega
  · intro i b hb j hj
    have hi := (List.getElem?_eq_some_iff.1 hb).1
    rw [hlen] at hi hj
    split at hi
    case isTrue hnil =>
      -- all groups are full
      rw [if_pos hnil] at hj
      omega
    case isFalse hne =>
      rw [if_neg hne] at hj
      obtain rfl : i = gs.length := by omega
      rw [groups, if_neg hne, List.getElem?_append_right (Nat.le_of_eq hout), hout, Nat.sub_self,
        group, List.getElem?_cons_zero] at hb
      rw [← Option.some.inj hb, getLsbD_signsFrom, List.getD_eq_default _ _ (by omega)]
      exact Bool.and_false _

/-- Encoding what was decoded gives the bytes back if and only if they are canonical. -/
theorem encode_decode_iff (ws : List Byte) :
    encode (decoder.run {} ws).2 = ws ↔ Canonical ws := by
  constructor
  · intro h
    obtain ⟨gs, g, hgs, hg, -, henc⟩ := encode_eq (decoder.run {} ws).2
    rw [← h, henc]
    exact canonical_groups hgs hg
  · intro h
    obtain ⟨gs, g, hgs, hg, rfl⟩ := h.groups
    rw [decode_groups_eq hgs hg, encode_groups hgs hg]

end Midi2.Mcoded7
