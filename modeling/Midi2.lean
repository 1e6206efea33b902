import Midi2.Lib.Layout
import Midi2.Adt.BitField
import Midi2.Ci.Le7
import Midi2.Ci.Types
import Midi2.Ci.ProfileConfiguration
import Midi2.Ci.ProcessInquiry
import Midi2.Ci.PropertyExchange
import Midi2.Ci.CreateMessage
import Midi2.Ci.Dispatcher
import Midi2.Ci.DispatcherRun
import Midi2.Ci.Protocol
import Midi2.Ci.Memory
import Midi2.Ci.Stages
import Midi2.Ci.RoundTrip
import Midi2.Ci.Delivery
import Midi2.Ci.HeaderFidelity
import Midi2.Adt.Fifo
import Midi2.Adt.PlruCache
import Midi2.Lib.Machine
import Midi2.Ump.Types
import Midi2.Ump.Dispatcher
import Midi2.Ump.Utils
import Midi2.Ump.Translator
import Midi2.Ump.ChannelVoice
import Midi2.Ump.ToMidi1
import Midi2.Ump.ToMidi2
import Midi2.Ump.Receiver
import Midi2.Ump.SoundingNotes
import Midi2.Ump.Parameters
import Midi2.Ump.ParameterSelection
import Midi2.Ump.Upgrade
import Midi2.Ump.Reset
import Midi2.Lib.Elision
import Midi2.Bytestream.Types
import Midi2.Bytestream.ToBytestream
import Midi2.Bytestream.Reset
import Midi2.Bytestream.ToUmp
import Midi2.Bytestream.RoundTrip
import Midi2.Bytestream.RunningStatus
import Midi2.Bytestream.SystemExclusive
import Midi2.Lib.Framing
import Midi2.Ump.Framing
import Midi2.Ump.PassThrough
import Midi2.Ump.Overflow
import Midi2.Ump.FieldRange
import Midi2.Ump.ChannelIsolation
import Midi2.Ump.BankSelection
import Midi2.Bytestream.Usbm1ToBytestream
import Midi2.Bytestream.Capacity
import Midi2.Bytestream.Reader
import Midi2.Bytestream.Items
import Midi2.Bytestream.Grammar
import Midi2.Bytestream.SysexPayload
import Midi2.Bytestream.Writer
import Midi2.Bytestream.SysexRoundTrip
import Midi2.Bytestream.GroupFilter
import Midi2.Lib.Pool
import Midi2.Adt.FifoQueue
import Midi2.Adt.FifoLifetime
import Midi2.Adt.PlruSound
import Midi2.Adt.PlruUsage
import Midi2.Adt.PlruEviction
import Midi2.Adt.PlruNeon
import Midi2.Mcoded7
import Midi2.Ci.Ci7Text
import Midi2.Ci.BoundedOutput
import Midi2.Ump.AsArray
import Midi2.Ump.TextData
import Midi2.Ump.Scale
import Midi2.Adt.PlruRecency
import Midi2.Adt.PlruIteration
import Midi2.Adt.BitFieldSigned
import Midi2.Ump.ArrayData
import Midi2.Ci.Ci7Grammar
import Midi2.Ump.Classes
import Midi2.Ump.Build
import Midi2.Adt.PlruLifetime
import Midi2.Bytestream.Repacking
import Midi2.Bytestream.UsbEvents
import Midi2.Ci.SevenBit
import Midi2.Ci.Transport
import Midi2.Ump.Enumerations
import Midi2.Ump.NormalForm
import Midi2.Ump.Programs
import Midi2.Ump.Unpaired
import Midi2.Bytestream.Link
import Midi2.Ci.Ci7Reading
import Midi2.Mcoded7.Canonical
import Midi2.Ump.Resolutions
import Midi2.Bytestream.Sessions
import Midi2.Ci.Sessions
import Midi2.Ump.ParameterEntry
import Midi2.Ump.ParameterValues
import Midi2.Ump.Sessions
