import Usnet.Lib.CInt
import Usnet.Lib.Circular
import Usnet.Lib.Run
import Usnet.Lib.IvList
import Usnet.Mq
import Usnet.MqLayout
import Usnet.MqFifo
import Usnet.MqCounters
import Usnet.Sndbuf
import Usnet.SendQueue
import Usnet.Ringbuf
import Usnet.FragList
import Usnet.Reassembly
import Usnet.Tcb
import Usnet.Lists
import Usnet.TcpOut
import Usnet.Timer
import Usnet.AckIn
import Usnet.TcpOpen
import Usnet.TcpIn
import Usnet.InputSpec
import Usnet.Event
import Usnet.Reset
import Usnet.Life
import Usnet.Core
import Usnet.Flush
import Usnet.Moves
import Usnet.Receive
import Usnet.FinConsume
import Usnet.Window
import Usnet.Backlog
import Usnet.Wakeup
import Usnet.Cache
import Usnet.TcbTable
import Usnet.Lib.FlagList
import Usnet.Links
import Usnet.Host
import Usnet.Queues
import Usnet.TimerLists
import Usnet.Lib.Aging
import Usnet.Idle
import Usnet.Rtm
import Usnet.Lib.Buckets
import Usnet.RtoLists
import Usnet.StoreRuns
import Usnet.Lib.Wheel
import Usnet.Punctual
import Usnet.Pending
import Usnet.PendingRuns
import Usnet.CacheMap
import Usnet.Lib.Chain
import Usnet.Mempool
import Usnet.FragPool
import Usnet.Blocked
import Usnet.Resources
import Usnet.Refused
import Usnet.Lib.Pieces
import Usnet.Drain
import Usnet.Closing
import Usnet.Listen
import Usnet.Lib.Walk
import Usnet.Wire
import Usnet.Lib.OnesComp
import Usnet.Checksum
import Usnet.Icmp
import Usnet.Arp
import Usnet.Options
import Usnet.FrameSizes
import Usnet.FlowVars
import Usnet.AckFlow
import Usnet.Divisors
import Usnet.PeerWindow
import Usnet.Rtt
import Usnet.WindowOrder
import Usnet.DupAcks
import Usnet.AckRequests
import Usnet.Unread
import Usnet.Progress
import Usnet.Growth
import Usnet.Lib.Layout
import Usnet.Context
import Usnet.Stream
import Usnet.Held
import Usnet.SendPosition
import Usnet.SendOrder
import Usnet.Accept
import Usnet.Octets
import Usnet.Sent
import Usnet.Arrivals
import Usnet.ArpNet
import Usnet.Outgoing
import Usnet.Udp
import Usnet.Diagram
import Usnet.Echo
import Usnet.Epoll
import Usnet.Sockets
import Usnet.Stops
import Usnet.Steady
