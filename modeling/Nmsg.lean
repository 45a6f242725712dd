import Nmsg.Lib.Octets
import Nmsg.Lib.StepRun
import Nmsg.Lib.LinearProbe
import Nmsg.Lib.WireFormat
import Nmsg.Lib.KeyTree
import Nmsg.Lib.Gaps
import Nmsg.Lib.Chunks
import Nmsg.Defs
import Nmsg.Dnsqr.Record
import Nmsg.Dnsqr.Table
import Nmsg.Dnsqr.Queue
import Nmsg.Proto
import Nmsg.Wire
import Nmsg.Zbuf
import Nmsg.Message
import Nmsg.Container
import Nmsg.Output
import Nmsg.Input.Frag
import Nmsg.Input.Seqsrc
import Nmsg.Input.File
import Nmsg.Input.Read
import Nmsg.Input.Sock
import Nmsg.Input.Senders
import Nmsg.Stream
import Nmsg.Proof.DnsqrTable
import Nmsg.Proof.DropCount
import Nmsg.Proof.ContainerSize
import Nmsg.Proof.ContainerRoundTrip
import Nmsg.Proof.SerializeBounds
import Nmsg.Proof.FileReader
import Nmsg.Proof.FragSafety
import Nmsg.Proof.History
import Nmsg.Input.Delivery
import Nmsg.Proof.Defrag
import Nmsg.Proof.ReadBack
import Nmsg.Proof.OutputFrag
import Nmsg.Proof.OutputStream
import Nmsg.Proof.StreamRoundTrip
import Nmsg.Input.Loop
import Nmsg.Proof.LoopRead
import Nmsg.Input.Null
import Nmsg.Proof.Decoders
import Nmsg.Lib.Prefixes
import Nmsg.Io
import Nmsg.Proof.Rotation
import Nmsg.Msgmod.Field
import Nmsg.Msgmod.Message
import Nmsg.Msgmod.Access
import Nmsg.Proof.Mirror
import Nmsg.Proof.Serialized
import Nmsg.Lib.Text
import Nmsg.Msgmod.Strbuf
import Nmsg.Msgmod.Pres
import Nmsg.Lib.Memory
import Nmsg.Lib.Outcome
import Nmsg.Net
import Nmsg.Ipreasm.Store
import Nmsg.Ipreasm.Base
import Nmsg.Ipreasm.Core
import Nmsg.Ipdg
import Nmsg.Dnsqr.Filter
import Nmsg.Dnsqr.Message
import Nmsg.Dnsqr.Packet
import Nmsg.Dnsqr.Capture
import Nmsg.Dnsqr.Response
import Nmsg.Proof.PacketFaults
import Nmsg.Proof.RecordFaults
import Nmsg.Proof.TableRoom
import Nmsg.Ipreasm.Packet
import Nmsg.Proof.ReasmStore
import Nmsg.Proof.FragParse
import Nmsg.Proof.ReasmAgree
import Nmsg.Lib.Tiling
import Nmsg.Proof.HoleCount
import Nmsg.Proof.ContainerContract
import Nmsg.SockOutput
import Nmsg.Proof.DatagramSize
import Nmsg.Proof.UnpackResult
import Nmsg.Proof.BufferReads
import Nmsg.Proof.FileFaults
import Nmsg.Proof.PacketBounds
import Nmsg.Proof.HoleExact
import Nmsg.Proof.ReasmParse
import Nmsg.Proof.StoreOrder
import Nmsg.Lib.LinkedList
import Nmsg.Ipreasm.Links
import Nmsg.Proof.StoreLinks
import Nmsg.Proof.ReasmSafety
import Nmsg.Lib.OnesSum
import Nmsg.Ipreasm.Split
import Nmsg.Dnsqr.Datagram
import Nmsg.Proof.ChecksumVerdict
import Nmsg.Proof.ReasmTrack
import Nmsg.Proof.ReasmInverse
import Nmsg.Proof.ExtHeaders
import Nmsg.Proof.PresStep
import Nmsg.Proof.PresGrammar
import Nmsg.Proof.PresReject
import Nmsg.Proof.PresTotal
import Nmsg.Proof.PresRecords
import Nmsg.Proof.PresSize
import Nmsg.Msgmod.Payload
import Nmsg.Proof.PresPrint
import Nmsg.Proof.FragReread
import Nmsg.Proof.StoreMarks
import Nmsg.Proof.ResponseReread
import Nmsg.Proof.ResponseParse
import Nmsg.Proof.ResponseRecord
import Nmsg.Proof.ResponseEntry
import Nmsg.Proof.ResponseReadBack
import Nmsg.Input.Brate
import Nmsg.Proof.ByteRate
import Nmsg.Proof.Unbuffered
import Nmsg.Input.Bounded
import Nmsg.Proof.LoopCompose
import Nmsg.Dnsqr.FilterInit
import Nmsg.Proof.NameFilter
import Nmsg.Sockspec
import Nmsg.Proof.SockspecParse
import Nmsg.Proof.FailedSet
import Nmsg.Lib.Heap
import Nmsg.Msgmod.Raw
import Nmsg.Proof.RawMessage
import Nmsg.Proof.RawSlot
import Nmsg.Proof.RawField
import Nmsg.Proof.SetGet
import Nmsg.Ncap
import Nmsg.Proof.NcapSafe
import Nmsg.OutputFault
import Nmsg.Proof.OutputFaults
import Nmsg.Msgmod.StrbufWidth
import Nmsg.Proof.StrbufLog
import Nmsg.Msgmod.Msgmodset
import Nmsg.Proof.ModuleTable
import Nmsg.Alias
import Nmsg.Proof.AliasTable
import Nmsg.Dnsqr.Getters
import Nmsg.Proof.PacketReads
import Nmsg.Proof.ResponseFrags
import Nmsg.Proof.ResponseAssembly
import Nmsg.Proof.GetterSafe
import Nmsg.Lib.Interleave
import Nmsg.IoThreads
import Nmsg.Proof.IoTurns
import Nmsg.Proof.IoDelivery
import Nmsg.Proof.IoLocks
import Nmsg.Proof.IoEnd
import Nmsg.Proof.IoAlone
import Nmsg.Lib.Crc
import Nmsg.Crc32cTables
import Nmsg.Crc32c
import Nmsg.Proof.Crc32cSlicing
import Nmsg.Proof.Crc32cAgree
import Nmsg.Proof.CrcDamage
import Nmsg.Datagrams
import Nmsg.Proof.NetworkRead
import Nmsg.Proof.NetworkRoundTrip
import Nmsg.Proof.NetworkSend
