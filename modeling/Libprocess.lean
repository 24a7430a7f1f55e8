import Libprocess.Future.RecoverOnce
import Libprocess.Future.Answers
import Libprocess.Future.DiscardChain
import Libprocess.Loop.Discard
import Libprocess.Process.SingleConsumer
import Libprocess.Process.Shutdown
import Libprocess.Process.Settlement
import Libprocess.Process.LockFreeEventQueue
import Libprocess.Process.LinkedFifo
import Libprocess.Sockets.Ordering
import Libprocess.Connection.Pipelining
import Libprocess.Connection.Teardown
import Libprocess.Endpoints.Routes
import Libprocess.Endpoints.Assets
import Libprocess.Endpoints.Order
import Libprocess.Server.Shutdown
import Libprocess.Clock.Ticks
import Libprocess.Clock.GlobalTime
import Libprocess.Semaphore.Flushed
import Libprocess.Semaphore.Stranding
import Libprocess.Locks.ReadWriteLock
import Libprocess.Locks.Mutex
import Libprocess.Queue.Conservation
import Libprocess.Queue.Lock
import Libprocess.Http.Negotiation
import Libprocess.Sockets.Receive
import Libprocess.Decoder.HeaderMaps
import Libprocess.Decoder.Failing
import Libprocess.Future.Transparency
import Libprocess.Collect.Variadic
import Libprocess.Messages.Parsing
import Libprocess.Jwt.RoundTrip
import Libprocess.StateMachine.Transitions
import Libprocess.TimeSeries.Retention
import Libprocess.Limiter.Schedule
import Libprocess.Ownership.Disposal
import Libprocess.Process.Reclamation
import Libprocess.Http.ServingOrder
import Libprocess.Io.Transfer
