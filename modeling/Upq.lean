import Upq.Foundation.Machine
import Upq.Foundation.Interleave
import Upq.Pool.Machine
import Upq.Pool.Accounting
import Upq.Pool.Wakeup
import Upq.Retry
import Upq.Connection.RunQuery
import Upq.Pool.Run
import Upq.Transaction.Machine
import Upq.Transaction.Ownership
import Upq.RowStream
import Upq.Transaction.Commit
import Upq.Transaction.Effects
import Upq.Transaction.RunTx
import Upq.Foundation.Decimal
import Upq.Params.ArrayText
import Upq.Params.Slots
import Upq.Foundation.Reconcile
import Upq.Notify.Libpq
import Upq.Notify.Multiplexer
import Upq.Notify.Converge
import Upq.Notify.Stranded
import Upq.Routing.Connector
import Upq.Routing.Primary
import Upq.Notify.ChannelQueue
import Upq.Notify.Channels
import Upq.Notify.Backpressure
import Upq.Notify.StartOrder
import Upq.Connection.Watchdog
import Upq.Transaction.Holding
import Upq.Transaction.Borrowed
import Upq.Transaction.Isolation
import Upq.Notify.Calls
import Upq.Notify.Rejected
import Upq.Connection.Copy
import Upq.Pool.Calls
import Upq.RetryDelay
import Upq.RetryLoops
import Upq.Routing.Staleness
import Upq.Transaction.RolledBack
import Upq.Foundation.Endian
import Upq.Params.Integers
import Upq.Reflect.Cells
import Upq.Reflect.Mapping
import Upq.Foundation.Pull
import Upq.Streaming.Rows
import Upq.Streaming.Pipeline
import Upq.Routing.Breaker
import Upq.Routing.Failover
import Upq.Routing.Measurement
import Upq.Connection.CopyLines
import Upq.Params.ArrayOut
import Upq.Connection.CopyIn
import Upq.Transaction.Reuse
import Upq.Pool.Permits
import Upq.Pool.CloseAll
import Upq.Foundation.Savepoint
import Upq.Transaction.Savepoints
import Upq.Connection.Results
import Upq.Routing.Reads
import Upq.Foundation.Access
import Upq.Wire.Frames
import Upq.Wire.Rows
import Upq.Connection.KeywordValue
import Upq.Connection.ConnectTimeout
import Upq.Connection.ConnInfo
import Upq.Notify.Ident
import Upq.Foundation.Descriptors
import Upq.Connection.Handshake
import Upq.Connection.Deadline
import Upq.Pool.Sweep
import Upq.Foundation.Loop
import Upq.Connection.Replies
import Upq.Streaming.Cursors
import Upq.Notify.Listener
