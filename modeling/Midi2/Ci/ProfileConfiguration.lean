import Midi2.Ci.Types

/-!
# Profile configuration messages (`ci::profile_configuration`)

A profile is named by five seven-bit numbers, which the packed structures hold as they are
(`profile pid`), not as raw bytes. The reply to an inquiry is the one message with two
lists: its packed form comes in two parts, each a number of profiles and the profiles
themselves, and the second part starts where the first list ends.
-/

namespace Midi2.Ci.ProfileConfiguration

abbrev Profile := B7Array 5

namespace Packed

/-- `inquiry_reply_v1_pt1` up to its member `ids`. -/
structure InquiryReplyV1Pt1 where
  numEnabled : ByteArray 2

instance : Layout Byte InquiryReplyV1Pt1 :=
  Layout.via (fun p => p.numEnabled) (fun a => ⟨a⟩) fun _ => rfl

@[simp] theorem size_inquiryReplyV1Pt1 : Layout.size InquiryReplyV1Pt1 = 2 := rfl

/-- `inquiry_reply_v1_pt2` up to its member `ids`. -/
structure InquiryReplyV1Pt2 where
  numDisabled : ByteArray 2

instance : Layout Byte InquiryReplyV1Pt2 :=
  Layout.via (fun p => p.numDisabled) (fun a => ⟨a⟩) fun _ => rfl

@[simp] theorem size_inquiryReplyV1Pt2 : Layout.size InquiryReplyV1Pt2 = 2 := rfl

end Packed

@[simp] theorem size_profile : Layout.size Profile = 5 := rfl

/-- The enabled and the disabled profiles of a device. -/
structure InquiryReply (S : Type → Type) where
  enabled : S Profile
  disabled : S Profile

/-- `inquiry_reply::make`, for the two parts at addresses `ptr1` and `ptr2`. -/
def InquiryReply.make (ptr1 : Nat) (pt1 : Packed.InquiryReplyV1Pt1) (ptr2 : Nat)
    (pt2 : Packed.InquiryReplyV1Pt2) : InquiryReply Span where
  enabled := ⟨ptr1 + Layout.size Packed.InquiryReplyV1Pt1, (fromLe7 pt1.numEnabled : B14).toNat⟩
  disabled := ⟨ptr2 + Layout.size Packed.InquiryReplyV1Pt2,
    (fromLe7 pt2.numDisabled : B14).toNat⟩

def InquiryReply.toPt1 (m : InquiryReply List) : Packed.InquiryReplyV1Pt1 :=
  ⟨toLe7 (BitVec.ofNat 14 m.enabled.length)⟩

def InquiryReply.toPt2 (m : InquiryReply List) : Packed.InquiryReplyV1Pt2 :=
  ⟨toLe7 (BitVec.ofNat 14 m.disabled.length)⟩

/-! ## Added, removed -/

namespace Packed

structure AddedV1 where
  pid : Profile

instance : Layout Byte AddedV1 := Layout.via (fun p => p.pid) (fun a => ⟨a⟩) fun _ => rfl

@[simp] theorem size_addedV1 : Layout.size AddedV1 = 5 := rfl

structure RemovedV1 where
  pid : Profile

instance : Layout Byte RemovedV1 := Layout.via (fun p => p.pid) (fun a => ⟨a⟩) fun _ => rfl

@[simp] theorem size_removedV1 : Layout.size RemovedV1 = 5 := rfl

end Packed

structure Added where
  pid : Profile
  deriving DecidableEq

def Added.make (p : Packed.AddedV1) : Added := ⟨p.pid⟩

def Added.toV1 (m : Added) : Packed.AddedV1 := ⟨m.pid⟩

@[simp] theorem Added.make_toV1 (m : Added) : make m.toV1 = m := rfl

structure Removed where
  pid : Profile
  deriving DecidableEq

def Removed.make (p : Packed.RemovedV1) : Removed := ⟨p.pid⟩

def Removed.toV1 (m : Removed) : Packed.RemovedV1 := ⟨m.pid⟩

@[simp] theorem Removed.make_toV1 (m : Removed) : make m.toV1 = m := rfl

/-! ## Details -/

namespace Packed

structure DetailsV1 where
  pid : Profile
  target : Byte

instance : Layout Byte DetailsV1 :=
  Layout.via (fun p => (p.pid, p.target)) (fun (a, b) => ⟨a, b⟩) fun _ => rfl

@[simp] theorem size_detailsV1 : Layout.size DetailsV1 = 6 := rfl

/-- `details_reply_v1` up to its member `data`. -/
structure DetailsReplyV1 where
  pid : Profile
  target : Byte
  dataLength : ByteArray 2

instance : Layout Byte DetailsReplyV1 :=
  Layout.via (fun p => (p.pid, p.target, p.dataLength)) (fun (a, b, c) => ⟨a, b, c⟩)
    fun _ => rfl

@[simp] theorem size_detailsReplyV1 : Layout.size DetailsReplyV1 = 8 := rfl

end Packed

structure Details where
  pid : Profile
  target : B7
  deriving DecidableEq

def Details.make (p : Packed.DetailsV1) : Details := ⟨p.pid, B7.ofByte p.target⟩

def Details.toV1 (m : Details) : Packed.DetailsV1 := ⟨m.pid, toLe7 m.target⟩

@[simp] theorem Details.make_toV1 (m : Details) : make m.toV1 = m := by
  simp [make, toV1]

structure DetailsReply (S : Type → Type) where
  pid : Profile
  target : B7
  data : S B7

def DetailsReply.make (ptr : Nat) (p : Packed.DetailsReplyV1) : DetailsReply Span where
  pid := p.pid
  target := B7.ofByte p.target
  data := ⟨ptr + Layout.size Packed.DetailsReplyV1, (fromLe7 p.dataLength : B14).toNat⟩

def DetailsReply.toV1 (m : DetailsReply List) : Packed.DetailsReplyV1 where
  pid := m.pid
  target := m.target.toByte
  dataLength := toLe7 (BitVec.ofNat 14 m.data.length)

theorem DetailsReply.make_toV1 (ptr : Nat) (m : DetailsReply List)
    (h : m.data.length < 2 ^ 14) :
    make ptr m.toV1 = ⟨m.pid, m.target, ⟨ptr + 8, m.data.length⟩⟩ := by
  simpa [make, toV1] using h

/-! ## On, off, enabled, disabled -/

namespace Packed

structure OnV1 where
  pid : Profile

instance : Layout Byte OnV1 := Layout.via (fun p => p.pid) (fun a => ⟨a⟩) fun _ => rfl

@[simp] theorem size_onV1 : Layout.size OnV1 = 5 := rfl

structure OnV2 where
  v1 : OnV1
  numChannels : ByteArray 2

instance : Layout Byte OnV2 :=
  Layout.via (fun p => (p.v1, p.numChannels)) (fun (a, b) => ⟨a, b⟩) fun _ => rfl

@[simp] theorem size_onV2 : Layout.size OnV2 = 7 := rfl

structure OffV1 where
  pid : Profile

instance : Layout Byte OffV1 := Layout.via (fun p => p.pid) (fun a => ⟨a⟩) fun _ => rfl

@[simp] theorem size_offV1 : Layout.size OffV1 = 5 := rfl

structure OffV2 where
  v1 : OffV1
  reserved : ByteArray 2

instance : Layout Byte OffV2 :=
  Layout.via (fun p => (p.v1, p.reserved)) (fun (a, b) => ⟨a, b⟩) fun _ => rfl

@[simp] theorem size_offV2 : Layout.size OffV2 = 7 := rfl

structure EnabledV1 where
  pid : Profile

instance : Layout Byte EnabledV1 := Layout.via (fun p => p.pid) (fun a => ⟨a⟩) fun _ => rfl

@[simp] theorem size_enabledV1 : Layout.size EnabledV1 = 5 := rfl

structure EnabledV2 where
  v1 : EnabledV1
  numChannels : ByteArray 2

instance : Layout Byte EnabledV2 :=
  Layout.via (fun p => (p.v1, p.numChannels)) (fun (a, b) => ⟨a, b⟩) fun _ => rfl

@[simp] theorem size_enabledV2 : Layout.size EnabledV2 = 7 := rfl

structure DisabledV1 where
  pid : Profile

instance : Layout Byte DisabledV1 := Layout.via (fun p => p.pid) (fun a => ⟨a⟩) fun _ => rfl

@[simp] theorem size_disabledV1 : Layout.size DisabledV1 = 5 := rfl

structure DisabledV2 where
  v1 : DisabledV1
  numChannels : ByteArray 2

instance : Layout Byte DisabledV2 :=
  Layout.via (fun p => (p.v1, p.numChannels)) (fun (a, b) => ⟨a, b⟩) fun _ => rfl

@[simp] theorem size_disabledV2 : Layout.size DisabledV2 = 7 := rfl

end Packed

structure On where
  pid : Profile
  numChannels : B14
  deriving DecidableEq

def On.makeV1 (p : Packed.OnV1) (numChannels : B14 := 0) : On := ⟨p.pid, numChannels⟩

def On.makeV2 (p : Packed.OnV2) : On := makeV1 p.v1 (fromLe7 p.numChannels)

def On.toV1 (m : On) : Packed.OnV1 := ⟨m.pid⟩

def On.toV2 (m : On) : Packed.OnV2 := ⟨m.toV1, toLe7 m.numChannels⟩

@[simp] theorem On.makeV1_toV1 (m : On) (n : B14) :
    makeV1 m.toV1 n = { m with numChannels := n } := rfl

@[simp] theorem On.makeV2_toV2 (m : On) : makeV2 m.toV2 = m := by
  simp [makeV2, toV2]

structure Off where
  pid : Profile
  deriving DecidableEq

def Off.makeV1 (p : Packed.OffV1) : Off := ⟨p.pid⟩

def Off.makeV2 (p : Packed.OffV2) : Off := makeV1 p.v1

def Off.toV1 (m : Off) : Packed.OffV1 := ⟨m.pid⟩

def Off.toV2 (m : Off) : Packed.OffV2 := ⟨m.toV1, fun _ => 0⟩

@[simp] theorem Off.makeV1_toV1 (m : Off) : makeV1 m.toV1 = m := rfl

@[simp] theorem Off.makeV2_toV2 (m : Off) : makeV2 m.toV2 = m := rfl

structure Enabled where
  pid : Profile
  numChannels : B14
  deriving DecidableEq

def Enabled.makeV1 (p : Packed.EnabledV1) (numChannels : B14 := 0) : Enabled :=
  ⟨p.pid, numChannels⟩

def Enabled.makeV2 (p : Packed.EnabledV2) : Enabled := makeV1 p.v1 (fromLe7 p.numChannels)

def Enabled.toV1 (m : Enabled) : Packed.EnabledV1 := ⟨m.pid⟩

def Enabled.toV2 (m : Enabled) : Packed.EnabledV2 := ⟨m.toV1, toLe7 m.numChannels⟩

@[simp] theorem Enabled.makeV1_toV1 (m : Enabled) (n : B14) :
    makeV1 m.toV1 n = { m with numChannels := n } := rfl

@[simp] theorem Enabled.makeV2_toV2 (m : Enabled) : makeV2 m.toV2 = m := by
  simp [makeV2, toV2]

structure Disabled where
  pid : Profile
  numChannels : B14
  deriving DecidableEq

def Disabled.makeV1 (p : Packed.DisabledV1) : Disabled := ⟨p.pid, 0⟩

def Disabled.makeV2 (p : Packed.DisabledV2) : Disabled := ⟨p.v1.pid, fromLe7 p.numChannels⟩

def Disabled.toV1 (m : Disabled) : Packed.DisabledV1 := ⟨m.pid⟩

def Disabled.toV2 (m : Disabled) : Packed.DisabledV2 := ⟨m.toV1, toLe7 m.numChannels⟩

@[simp] theorem Disabled.makeV1_toV1 (m : Disabled) :
    makeV1 m.toV1 = { m with numChannels := 0 } := rfl

@[simp] theorem Disabled.makeV2_toV2 (m : Disabled) : makeV2 m.toV2 = m := by
  simp [makeV2, toV2, toV1]

/-! ## Profile specific data -/

namespace Packed

/-- `specific_data_v1` up to its member `data`. -/
structure SpecificDataV1 where
  pid : Profile
  dataLength : ByteArray 2

instance : Layout Byte SpecificDataV1 :=
  Layout.via (fun p => (p.pid, p.dataLength)) (fun (a, b) => ⟨a, b⟩) fun _ => rfl

@[simp] theorem size_specificDataV1 : Layout.size SpecificDataV1 = 7 := rfl

end Packed

structure SpecificData (S : Type → Type) where
  pid : Profile
  data : S B7

def SpecificData.make (ptr : Nat) (p : Packed.SpecificDataV1) : SpecificData Span where
  pid := p.pid
  data := ⟨ptr + Layout.size Packed.SpecificDataV1, (fromLe7 p.dataLength : B14).toNat⟩

def SpecificData.toV1 (m : SpecificData List) : Packed.SpecificDataV1 where
  pid := m.pid
  dataLength := toLe7 (BitVec.ofNat 14 m.data.length)

theorem SpecificData.make_toV1 (ptr : Nat) (m : SpecificData List)
    (h : m.data.length < 2 ^ 14) :
    make ptr m.toV1 = ⟨m.pid, ⟨ptr + 7, m.data.length⟩⟩ := by
  simpa [make, toV1] using h

end Midi2.Ci.ProfileConfiguration
