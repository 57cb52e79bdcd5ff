import Ns3Pedca.BinaryHeap
import Ns3Pedca.Blocks
import Ns3Pedca.ByteMemory
import Ns3Pedca.Bytes
import Ns3Pedca.Circular
import Ns3Pedca.Core
import Ns3Pedca.Countdown
import Ns3Pedca.Fallible
import Ns3Pedca.FixedPoint
import Ns3Pedca.Internet.FragmentList
import Ns3Pedca.Internet.Ipv4EndPointDemux
import Ns3Pedca.Internet.Ipv4Fragmentation
import Ns3Pedca.Internet.Ipv4Reassembly
import Ns3Pedca.Internet.Ipv4Timeouts
import Ns3Pedca.Internet.Ipv6Fragmentation
import Ns3Pedca.Internet.Ipv6Fragments
import Ns3Pedca.Internet.Ipv6Reassembly
import Ns3Pedca.Internet.SequenceNumber
import Ns3Pedca.Internet.TcpBytes
import Ns3Pedca.Internet.TcpCongState
import Ns3Pedca.Internet.TcpFack
import Ns3Pedca.Internet.TcpHeader
import Ns3Pedca.Internet.TcpHeaderRoundTrip
import Ns3Pedca.Internet.TcpHighTxMark
import Ns3Pedca.Internet.TcpHighestSack
import Ns3Pedca.Internet.TcpInitialSequence
import Ns3Pedca.Internet.TcpLossMarks
import Ns3Pedca.Internet.TcpPersist
import Ns3Pedca.Internet.TcpReassembly
import Ns3Pedca.Internet.TcpRxBlocks
import Ns3Pedca.Internet.TcpRxBuffer
import Ns3Pedca.Internet.TcpRxWindow
import Ns3Pedca.Internet.TcpSackList
import Ns3Pedca.Internet.TcpSackRuns
import Ns3Pedca.Internet.TcpScoreboard
import Ns3Pedca.Internet.TcpSearch
import Ns3Pedca.Internet.TcpSender
import Ns3Pedca.Internet.TcpShift
import Ns3Pedca.Internet.TcpSocketBase
import Ns3Pedca.Internet.TcpStream
import Ns3Pedca.Internet.TcpTxBuffer
import Ns3Pedca.Internet.TcpUnacceptable
import Ns3Pedca.Lanes
import Ns3Pedca.Lte.Asn1Header
import Ns3Pedca.Lte.Asn1RoundTrip
import Ns3Pedca.Mpi.DistributedSimulatorImpl
import Ns3Pedca.Mpi.LogicalProcess
import Ns3Pedca.Mpi.NullMessageGuarantees
import Ns3Pedca.Mpi.NullMessageProgress
import Ns3Pedca.Mpi.NullMessageSimulatorImpl
import Ns3Pedca.Mpi.RemoteChannels
import Ns3Pedca.Multimap
import Ns3Pedca.Network.Buffer
import Ns3Pedca.Network.BufferCopies
import Ns3Pedca.Network.BufferOperations
import Ns3Pedca.Network.BufferRuns
import Ns3Pedca.Network.BufferSharing
import Ns3Pedca.Network.DynamicQueueLimits
import Ns3Pedca.Network.Packet
import Ns3Pedca.Network.PacketTagList
import Ns3Pedca.Network.PacketTagLoops
import Ns3Pedca.Network.PacketTagMaps
import Ns3Pedca.Network.PacketTagNodes
import Ns3Pedca.Network.PbbAddressBlock
import Ns3Pedca.Network.PbbHeadTail
import Ns3Pedca.Network.PbbPacket
import Ns3Pedca.Network.PbbTlv
import Ns3Pedca.OctetBits
import Ns3Pedca.Olsr.HnaRoutes
import Ns3Pedca.Olsr.MprComputation
import Ns3Pedca.Olsr.MprSelection
import Ns3Pedca.Olsr.NeighborSet
import Ns3Pedca.Olsr.OlsrState
import Ns3Pedca.Olsr.RoutingProtocol
import Ns3Pedca.PaddedConcat
import Ns3Pedca.Pieces
import Ns3Pedca.Ranges
import Ns3Pedca.Readers
import Ns3Pedca.ReciprocalSqrt
import Ns3Pedca.ReorderBuffer
import Ns3Pedca.Runs
import Ns3Pedca.SharedLists
import Ns3Pedca.Simulator.CalendarQueue
import Ns3Pedca.Simulator.CalendarScheduler
import Ns3Pedca.Simulator.DefaultSimulatorImpl
import Ns3Pedca.Simulator.EventOrder
import Ns3Pedca.Simulator.EventUids
import Ns3Pedca.Simulator.HeapScheduler
import Ns3Pedca.Simulator.PriorityQueueScheduler
import Ns3Pedca.Simulator.Scheduler
import Ns3Pedca.Simulator.Schedulers
import Ns3Pedca.Simulator.SimulatorRuns
import Ns3Pedca.SortedMap
import Ns3Pedca.Time.Int64x64
import Ns3Pedca.Time.Int64x64Invert
import Ns3Pedca.Time.Int64x64Text
import Ns3Pedca.Time.TimeUnits
import Ns3Pedca.TokenBucket
import Ns3Pedca.TrafficControl.CoDelControlLaw
import Ns3Pedca.TrafficControl.CoDelQueueDisc
import Ns3Pedca.TrafficControl.CoDelShift
import Ns3Pedca.TrafficControl.FlowOrder
import Ns3Pedca.TrafficControl.FqCoDelQueueDisc
import Ns3Pedca.TrafficControl.TbfQueueDisc
import Ns3Pedca.Wifi.AccessGrant
import Ns3Pedca.Wifi.AgreementEnd
import Ns3Pedca.Wifi.AmsduInPlace
import Ns3Pedca.Wifi.BlockAckTransport
import Ns3Pedca.Wifi.BlockAckWindow
import Ns3Pedca.Wifi.BlockAckWindowRuns
import Ns3Pedca.Wifi.BlockedQueues
import Ns3Pedca.Wifi.ChannelAccessManager
import Ns3Pedca.Wifi.ContainerInvariant
import Ns3Pedca.Wifi.ContentionWindow
import Ns3Pedca.Wifi.CtrlBAckRequestHeader
import Ns3Pedca.Wifi.CtrlBAckResponseHeader
import Ns3Pedca.Wifi.CtrlTriggerHeader
import Ns3Pedca.Wifi.CtrlTriggerUserInfo
import Ns3Pedca.Wifi.Defragmentation
import Ns3Pedca.Wifi.DisabledEdca
import Ns3Pedca.Wifi.EhtPpeThresholds
import Ns3Pedca.Wifi.ExpectedAccess
import Ns3Pedca.Wifi.Fragmentation
import Ns3Pedca.Wifi.FragmentedMsdu
import Ns3Pedca.Wifi.IdlePeriods
import Ns3Pedca.Wifi.InFlightQueue
import Ns3Pedca.Wifi.InsertPosition
import Ns3Pedca.Wifi.LazyBackoff
import Ns3Pedca.Wifi.MacHeader
import Ns3Pedca.Wifi.MacQueueInvariant
import Ns3Pedca.Wifi.MacQueueRuns
import Ns3Pedca.Wifi.MacQueueSteps
import Ns3Pedca.Wifi.MacRxMiddle
import Ns3Pedca.Wifi.MacTxMiddle
import Ns3Pedca.Wifi.MsduAggregation
import Ns3Pedca.Wifi.OriginatorBlockAckAgreement
import Ns3Pedca.Wifi.PausedTxop
import Ns3Pedca.Wifi.PedcaAccounting
import Ns3Pedca.Wifi.PedcaBudget
import Ns3Pedca.Wifi.PedcaCtsCount
import Ns3Pedca.Wifi.PedcaCtsDuration
import Ns3Pedca.Wifi.PedcaInterference
import Ns3Pedca.Wifi.PedcaLinks
import Ns3Pedca.Wifi.QosFrameExchangeManager
import Ns3Pedca.Wifi.QosTxop
import Ns3Pedca.Wifi.QueueFlush
import Ns3Pedca.Wifi.RecipientBlockAckAgreement
import Ns3Pedca.Wifi.RefusedFrames
import Ns3Pedca.Wifi.Reordering
import Ns3Pedca.Wifi.ReplacedMpdu
import Ns3Pedca.Wifi.Scoreboard
import Ns3Pedca.Wifi.SequenceNumbers
import Ns3Pedca.Wifi.TidToLinkMapping
import Ns3Pedca.Wifi.Tim
import Ns3Pedca.Wifi.TransmitWindow
import Ns3Pedca.Wifi.Txop
import Ns3Pedca.Wifi.WifiContainerQueueId
import Ns3Pedca.Wifi.WifiInformationElement
import Ns3Pedca.Wifi.WifiMacHeader
import Ns3Pedca.Wifi.WifiMacQueue
import Ns3Pedca.Wifi.WifiMacQueueContainer
import Ns3Pedca.Wifi.WifiMpdu
import Ns3Pedca.Wifi.WifiPsdu
import Ns3Pedca.Wifi.WifiTxParameters
