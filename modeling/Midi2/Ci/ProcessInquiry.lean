import Midi2.Adt.BitField
import Midi2.Ci.Types

/-!
# Process inquiry messages (`ci::process_inquiry`)

A MIDI message report says, one bit for each kind of message, which state a device is asked
for or reports. The packed reports hold these flags in three bit-fields of a byte each. The
source declares the same three bit-field classes for the inquiry and for the reply, so the
flags and their bytes are one structure here, which both messages extend.
-/

namespace Midi2.Ci.ProcessInquiry

open Midi2.Adt

/-! ## Capabilities reply -/

namespace Packed

structure CapabilitiesReplyV2 where
  features : Byte

instance : Layout Byte CapabilitiesReplyV2 :=
  Layout.via (fun p => p.features) (fun a => ⟨a⟩) fun _ => rfl

@[simp] theorem size_capabilitiesReplyV2 : Layout.size CapabilitiesReplyV2 = 1 := rfl

end Packed

structure CapabilitiesReply where
  features : B7
  deriving DecidableEq

def CapabilitiesReply.make (p : Packed.CapabilitiesReplyV2) : CapabilitiesReply :=
  ⟨B7.ofByte p.features⟩

def CapabilitiesReply.toV2 (m : CapabilitiesReply) : Packed.CapabilitiesReplyV2 :=
  ⟨m.features.toByte⟩

@[simp] theorem CapabilitiesReply.make_toV2 (m : CapabilitiesReply) : make m.toV2 = m := by
  simp [make, toV2]

/-! ## MIDI message report -/

namespace Packed

/-! The bits of `system_message`. -/

def songSelectBits : BitRange := .bit 2
def songPositionBits : BitRange := .bit 1
def mtcQuarterFrameBits : BitRange := .bit 0

/-! The bits of `channel_controller`. -/

def channelPressureBits : BitRange := .bit 5
def programChangeBits : BitRange := .bit 4
def nrpnAssignableControllerBits : BitRange := .bit 3
def rpnRegisteredControllerBits : BitRange := .bit 2
def controlChangeBits : BitRange := .bit 1
def pitchbendBits : BitRange := .bit 0

/-! The bits of `note_data_messages`. -/

def assignablePerNoteControllerBits : BitRange := .bit 4
def registeredPerNoteControllerBits : BitRange := .bit 3
def perNotePitchbendBits : BitRange := .bit 2
def polyPressureBits : BitRange := .bit 1
def notesBits : BitRange := .bit 0

/-- The members that `midi_message_report_v2` and `midi_message_report_reply_v2` share. -/
structure ReportFlags where
  systemMessage : BitField 8
  reserved : Byte
  channelController : BitField 8
  noteDataMessages : BitField 8

instance : Layout Byte ReportFlags :=
  Layout.via (fun p => (p.systemMessage, p.reserved, p.channelController, p.noteDataMessages))
    (fun (a, b, c, d) => ⟨a, b, c, d⟩) fun _ => rfl

structure MidiMessageReportV2 where
  messageDataControl : Byte
  flags : ReportFlags

instance : Layout Byte MidiMessageReportV2 :=
  Layout.via (fun p => (p.messageDataControl, p.flags)) (fun (a, b) => ⟨a, b⟩) fun _ => rfl

@[simp] theorem size_midiMessageReportV2 : Layout.size MidiMessageReportV2 = 5 := rfl

structure MidiMessageReportReplyV2 where
  flags : ReportFlags

instance : Layout Byte MidiMessageReportReplyV2 :=
  Layout.via (fun p => p.flags) (fun a => ⟨a⟩) fun _ => rfl

@[simp] theorem size_midiMessageReportReplyV2 : Layout.size MidiMessageReportReplyV2 = 4 := rfl

end Packed

/-- The one-bit members of the two reports, each a bit-field of width one. -/
structure ReportFlags where
  mtcQuarterFrame : BitVec 1 := 0
  songPosition : BitVec 1 := 0
  songSelect : BitVec 1 := 0
  pitchbend : BitVec 1 := 0
  controlChange : BitVec 1 := 0
  rpnRegisteredController : BitVec 1 := 0
  nrpnAssignableController : BitVec 1 := 0
  programChange : BitVec 1 := 0
  channelPressure : BitVec 1 := 0
  notes : BitVec 1 := 0
  polyPressure : BitVec 1 := 0
  perNotePitchbend : BitVec 1 := 0
  registeredPerNoteController : BitVec 1 := 0
  assignablePerNoteController : BitVec 1 := 0
  deriving DecidableEq

/-- Assignment of what a bit-field accessor returns to a member of width one. -/
def flag (f : BitField 8) (r : BitRange) : BitVec 1 :=
  BitVec.ofNat 1 (f.get r)

open Midi2.Ci.ProcessInquiry.Packed in
def ReportFlags.make (p : Packed.ReportFlags) : ReportFlags where
  mtcQuarterFrame := flag p.systemMessage mtcQuarterFrameBits
  songPosition := flag p.systemMessage songPositionBits
  songSelect := flag p.systemMessage songSelectBits
  pitchbend := flag p.channelController pitchbendBits
  controlChange := flag p.channelController controlChangeBits
  rpnRegisteredController := flag p.channelController rpnRegisteredControllerBits
  nrpnAssignableController := flag p.channelController nrpnAssignableControllerBits
  programChange := flag p.channelController programChangeBits
  channelPressure := flag p.channelController channelPressureBits
  notes := flag p.noteDataMessages notesBits
  polyPressure := flag p.noteDataMessages polyPressureBits
  perNotePitchbend := flag p.noteDataMessages perNotePitchbendBits
  registeredPerNoteController := flag p.noteDataMessages registeredPerNoteControllerBits
  assignablePerNoteController := flag p.noteDataMessages assignablePerNoteControllerBits

open Midi2.Ci.ProcessInquiry.Packed in
def ReportFlags.toPacked (m : ReportFlags) : Packed.ReportFlags where
  systemMessage := (((0 : BitField 8).set mtcQuarterFrameBits m.mtcQuarterFrame.toNat).set
    songPositionBits m.songPosition.toNat).set songSelectBits m.songSelect.toNat
  reserved := 0
  channelController := ((((((0 : BitField 8).set pitchbendBits m.pitchbend.toNat).set
    controlChangeBits m.controlChange.toNat).set
    rpnRegisteredControllerBits m.rpnRegisteredController.toNat).set
    nrpnAssignableControllerBits m.nrpnAssignableController.toNat).set
    programChangeBits m.programChange.toNat).set channelPressureBits m.channelPressure.toNat
  noteDataMessages := (((((0 : BitField 8).set notesBits m.notes.toNat).set
    polyPressureBits m.polyPressure.toNat).set
    perNotePitchbendBits m.perNotePitchbend.toNat).set
    registeredPerNoteControllerBits m.registeredPerNoteController.toNat).set
    assignablePerNoteControllerBits m.assignablePerNoteController.toNat

theorem flag_set_self (f : BitField 8) (r : BitRange) (v : BitVec 1) (hr : r.bits = 1)
    (hw : r.index + r.bits ≤ 8) : flag (f.set r v.toNat) r = v := by
  rw [flag, get_set_self f r hw (by rw [hr]; exact v.isLt), BitVec.ofNat_toNat,
    BitVec.setWidth_eq]

theorem flag_set_of_disjoint (f : BitField 8) {r r' : BitRange} (v : Nat)
    (h : r.Disjoint r') : flag (f.set r v) r' = flag f r' := by
  rw [flag, flag, get_set_of_disjoint f v h]

@[simp] theorem ReportFlags.make_toPacked (m : ReportFlags) : make m.toPacked = m := by
  simp (disch := decide) only [make, toPacked, flag_set_self, flag_set_of_disjoint]

/-- `midi_message_report`; `control` is an enumeration over all byte values. -/
structure MidiMessageReport extends ReportFlags where
  messageDataControl : Byte := 0
  deriving DecidableEq

def MidiMessageReport.make (p : Packed.MidiMessageReportV2) : MidiMessageReport where
  toReportFlags := ReportFlags.make p.flags
  messageDataControl := p.messageDataControl

def MidiMessageReport.toV2 (m : MidiMessageReport) : Packed.MidiMessageReportV2 where
  messageDataControl := m.messageDataControl
  flags := m.toReportFlags.toPacked

@[simp] theorem MidiMessageReport.make_toV2 (m : MidiMessageReport) : make m.toV2 = m := by
  simp only [make, toV2, ReportFlags.make_toPacked]

structure MidiMessageReportReply extends ReportFlags where
  deriving DecidableEq

def MidiMessageReportReply.make (p : Packed.MidiMessageReportReplyV2) :
    MidiMessageReportReply where
  toReportFlags := ReportFlags.make p.flags

def MidiMessageReportReply.toV2 (m : MidiMessageReportReply) :
    Packed.MidiMessageReportReplyV2 where
  flags := m.toReportFlags.toPacked

@[simp] theorem MidiMessageReportReply.make_toV2 (m : MidiMessageReportReply) :
    make m.toV2 = m := by
  simp only [make, toV2, ReportFlags.make_toPacked]

end Midi2.Ci.ProcessInquiry
