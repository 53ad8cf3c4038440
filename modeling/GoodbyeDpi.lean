import GoodbyeDpi.CSem.Traced
import GoodbyeDpi.CSem.Memory
import GoodbyeDpi.CSem.Scalars
import GoodbyeDpi.CSem.CString
import GoodbyeDpi.CSem.Text
import GoodbyeDpi.CSem.FilledArray
import GoodbyeDpi.OnesComplement
import GoodbyeDpi.Checksum
import GoodbyeDpi.ExpiringMap
import GoodbyeDpi.KeyedRecord
import GoodbyeDpi.Packet
import GoodbyeDpi.PacketParse
import GoodbyeDpi.PacketParseSpec
import GoodbyeDpi.PacketParseSafety
import GoodbyeDpi.Sni
import GoodbyeDpi.SniSafety
import GoodbyeDpi.ClientHello
import GoodbyeDpi.StringUtils
import GoodbyeDpi.PacketProcess
import GoodbyeDpi.PacketProcessSpec
import GoodbyeDpi.HostCase
import GoodbyeDpi.HostSearch
import GoodbyeDpi.HeaderMangle
import GoodbyeDpi.TcpPacket
import GoodbyeDpi.PacketProcessSafety
import GoodbyeDpi.PacketProcessResult
import GoodbyeDpi.SpaceEdits
import GoodbyeDpi.Reinjection
import GoodbyeDpi.Netfilter
import GoodbyeDpi.Verdict
import GoodbyeDpi.ProcessReport
import GoodbyeDpi.TurkeySpecific
import GoodbyeDpi.TtlTracker
import GoodbyeDpi.TtlInvariant
import GoodbyeDpi.TtlLearning
import GoodbyeDpi.DnsTracker
import GoodbyeDpi.DnsSessions
import GoodbyeDpi.Config
import GoodbyeDpi.ConfigFormat
import GoodbyeDpi.History
import GoodbyeDpi.SweptCell
import GoodbyeDpi.Conntrack
import GoodbyeDpi.ConntrackHistory
import GoodbyeDpi.ConntrackFlows
import GoodbyeDpi.Ipv4Packet
import GoodbyeDpi.SniWalk
import GoodbyeDpi.EditedList
import GoodbyeDpi.Firewall
import GoodbyeDpi.CSem.Getopt
import GoodbyeDpi.Arguments
import GoodbyeDpi.Logging
import GoodbyeDpi.Statistics
import GoodbyeDpi.TtlFamilies
import GoodbyeDpi.RunningMin
import GoodbyeDpi.TtlEviction
import GoodbyeDpi.TtlExpiry
import GoodbyeDpi.TtlDelta
import GoodbyeDpi.DnsEntries
import GoodbyeDpi.ConfigLaws
import GoodbyeDpi.ConfigComments
import GoodbyeDpi.ConfigValues
import GoodbyeDpi.FragmentSizes
import GoodbyeDpi.PayloadFetch
import GoodbyeDpi.StringSearch
import GoodbyeDpi.CSem.Occurrences
import GoodbyeDpi.StringReplace
import GoodbyeDpi.BlockedService
import GoodbyeDpi.CSem.DoublyLinked
import GoodbyeDpi.DnsHeap
import GoodbyeDpi.UthashFsck
import GoodbyeDpi.CSem.Protocol
import GoodbyeDpi.MainProgram
import GoodbyeDpi.RawSocket
import GoodbyeDpi.CSem.Allocator
import GoodbyeDpi.CSem.Inet
import GoodbyeDpi.DnsServer
import GoodbyeDpi.PacketBuffers
import GoodbyeDpi.PacketContents
import GoodbyeDpi.Privileges
import GoodbyeDpi.CSem.Horner
import GoodbyeDpi.Hash
import GoodbyeDpi.TtlReady
import GoodbyeDpi.StringEdits
import GoodbyeDpi.FakePackets
import GoodbyeDpi.TtlStats
