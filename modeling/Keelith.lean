import Keelith.Continuation.Memory.Command
import Keelith.Continuation.Memory.Ready
import Keelith.Continuation.Retention
import Keelith.Continuation.Workflow.Outcome
import Keelith.Continuation.Workflow.Child
import Keelith.Projection.Replica
import Keelith.Outbox.Lease
import Keelith.Saga.Escape
import Keelith.Saga.Lease
import Keelith.Topology.Rollout
import Keelith.Topology.Control.LastGood
import Keelith.Transport.HttpClient
import Keelith.Http.Matching
import Keelith.Cache.Contexts
import Keelith.Config.Convergence
import Keelith.Registration.Manager
import Keelith.Governance.Bulkhead
import Keelith.App.Run
import Keelith.Topology.Control.Document
import Keelith.Selector.Filters
import Keelith.RateLimit.Fallback
import Keelith.Wiring.Calls
import Keelith.Sse.Lossless
import Keelith.Continuation.Paging
import Keelith.Continuation.Timers
import Keelith.Projection.Shard
import Keelith.Projection.Admission
import Keelith.Projection.OwnerLog
import Keelith.Projection.Consume
