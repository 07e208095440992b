import UdtGate.Core.Memory
import UdtGate.Core.System
import UdtGate.Core.Ring
import UdtGate.Core.Carry
import UdtGate.Loopbuffer
import UdtGate.Access
import UdtGate.Wire
import UdtGate.Transfer
import UdtGate.Workers
import UdtGate.HalfClose
import UdtGate.AcceptLoop
import UdtGate.StartChild
import UdtGate.Handshake
import UdtGate.Server
import UdtGate.Client
import UdtGate.Policy
import UdtGate.Relay
import UdtGate.Tunnel
import UdtGate.Request
import UdtGate.Reply
import UdtGate.Minisocks
import UdtGate.Socksified
import UdtGate.HeaderLoop
import UdtGate.Errno
import UdtGate.HandshakeEnds
import UdtGate.Leftover
import UdtGate.Core.Program
import UdtGate.SockApi
import UdtGate.Provenance
import UdtGate.Worker
import UdtGate.WorkerExits
import UdtGate.Core.Merge
import UdtGate.WorkerDelivery
import UdtGate.Handling
import UdtGate.Ownership
import UdtGate.LoopbufferSpace
import UdtGate.WorkerSets
import UdtGate.DumpStr
import UdtGate.Polling
import UdtGate.Select
import UdtGate.SelectSets
import UdtGate.SelectWaits
import UdtGate.Core.Search
import UdtGate.Split
import UdtGate.Sockaddr
import UdtGate.Blocking
import UdtGate.Fragments
import UdtGate.UdpLimit
import UdtGate.Core.Cstring
import UdtGate.Core.Scanf
import UdtGate.UdtOption
import UdtGate.Arguments
import UdtGate.Endpoints
import UdtGate.CheckSource
import UdtGate.Core.Refinement
import UdtGate.Core.Stream
import UdtGate.EndToEnd
import UdtGate.InFlight
import UdtGate.Preload
import UdtGate.Supervisor
import UdtGate.SocketOptions
import UdtGate.WorkerBuffers
import UdtGate.Core.Flat
import UdtGate.Proctitle
import UdtGate.Logger
import UdtGate.Admission
