import AsyncRPC.Lib.Run
import AsyncRPC.Lib.Word
import AsyncRPC.Stream
import AsyncRPC.Proof.Stream
import AsyncRPC.ByteArray
import AsyncRPC.ByteArrayCodec
import AsyncRPC.FlatBuffer
import AsyncRPC.Lib.Emplace
import AsyncRPC.Proof.ByteArray
import AsyncRPC.Proof.ByteArrayCodec
import AsyncRPC.Proof.Rpc
import AsyncRPC.Proof.InterestMap
import AsyncRPC.Proof.CoMutexWakeup
import AsyncRPC.Proof.CoCondVar
import AsyncRPC.Proof.Channel
import AsyncRPC.Proof.ServiceRegistry
import AsyncRPC.Proof.RegistryClient
import AsyncRPC.Proof.ConnectionPool
import AsyncRPC.Proof.Discovery
import AsyncRPC.Proof.RpcClient
import AsyncRPC.Proof.RpcClientClose
import AsyncRPC.Proof.PoolFibers
import AsyncRPC.Proof.Publish
import AsyncRPC.Proof.Request
import AsyncRPC.Proof.RpcSession
import AsyncRPC.Proof.HeartTimer
import AsyncRPC.Proof.Heartbeat
import AsyncRPC.Proof.Lifecycle
import AsyncRPC.Proof.PoolCalls
import AsyncRPC.Proof.ChannelQueue
import AsyncRPC.Proof.ChannelWakeup
import AsyncRPC.Proof.Scheduler
import AsyncRPC.Proof.Shutdown
import AsyncRPC.Proof.RegistryIndex
import AsyncRPC.Proof.Hook
import AsyncRPC.Proof.Unregister
import AsyncRPC.Proof.Portable
import AsyncRPC.Proof.RecvRequest
import AsyncRPC.Proof.TypedValue
import AsyncRPC.Proof.Reader
import AsyncRPC.Proof.TimerManager
import AsyncRPC.Proof.CoSemaphore
import AsyncRPC.Proof.KeepAlive
import AsyncRPC.Proof.EpollFailure
import AsyncRPC.Proof.ContextTable
import AsyncRPC.Proof.ScopedLock
import AsyncRPC.Proof.TimerCalls
import AsyncRPC.Proof.Durations
import AsyncRPC.Proof.LengthWord
import AsyncRPC.Proof.ByteArrayFile
import AsyncRPC.Proof.Varint
import AsyncRPC.Proof.ReadBuffersAt
import AsyncRPC.Proof.Subscribe
import AsyncRPC.Proof.ServerLoop
import AsyncRPC.ReceiveLoop
import AsyncRPC.Proof.ReceiveLoop
import AsyncRPC.WaitQueue
import AsyncRPC.Proof.WaitQueue
import AsyncRPC.RouteStrategy
import AsyncRPC.Proof.RouteStrategy
import AsyncRPC.Subnet
import AsyncRPC.Proof.Subnet
import AsyncRPC.Lib.Separated
import AsyncRPC.IPv6Address
import AsyncRPC.Proof.IPv6Address
import AsyncRPC.Lookup
import AsyncRPC.Proof.Lookup
import AsyncRPC.LogFormatter
import AsyncRPC.Proof.LogFormatter
import AsyncRPC.HeartTimer
import AsyncRPC.HookedIO
import AsyncRPC.Proof.HookedSeats
import AsyncRPC.Proof.HookedIO
import AsyncRPC.Proof.HookedResults
import AsyncRPC.Proof.TimerFrames
import AsyncRPC.Proof.HookedTimers
import AsyncRPC.Proof.HookedTimeouts
import AsyncRPC.Socket
import AsyncRPC.Proof.Socket
import AsyncRPC.TcpServer
import AsyncRPC.Proof.TcpServer
import AsyncRPC.Fiber
import AsyncRPC.Proof.Fiber
import AsyncRPC.Lib.Census
import AsyncRPC.Proof.Wakeup
