import Transportx.Lib.Path
import Transportx.Lib.Ledger
import Transportx.Lib.Usize
import Transportx.Lib.Semaphore
import Transportx.Lib.Buffer
import Transportx.Lib.Decimal
import Transportx.Error
import Transportx.Pool.State
import Transportx.Pool.Moves
import Transportx.Pool.Capacity
import Transportx.Pool.Permits
import Transportx.Pool.Wakeup
import Transportx.Pool.Conservation
import Transportx.Pool.Demand
import Transportx.Pool.Erasure
import Transportx.Pool.IdleWait
import Transportx.Pool.Poison
import Transportx.Pool.Atomic
import Transportx.Pool.Semaphore
import Transportx.Pool.Misuse
import Transportx.Pool.Snapshot
import Transportx.Pool.Lifo
import Transportx.Pool.Drain
import Transportx.Pool.Parametric
import Transportx.Pool.InPlace
import Transportx.RetryAfter
import Transportx.RetryAfterGrammar
import Transportx.Http.Boundary
import Transportx.Http.Body
import Transportx.Http.Driver
import Transportx.Http.Stream
import Transportx.Http.Framing
import Transportx.Http.Mock
import Transportx.Tls
import Transportx.Proxy
import Transportx.Http.Builder
import Transportx.Http.Constructors
import Transportx.Fleet
import Transportx.Ws.Connection
import Transportx.Ws.Delivery
import Transportx.Ws.Close
import Transportx.Ws.Duplex
import Transportx.Redaction
