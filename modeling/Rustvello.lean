import Rustvello.Proto.Ownership
import Rustvello.Mongo.Status
import Rustvello.Mongo.Slots
import Rustvello.Mem.Delivery
import Rustvello.Mem.TriggerPublication
import Rustvello.Sqlite.Slots
import Rustvello.Mem.CronSlots
import Rustvello.Mem.Recoveries
import Rustvello.Mem.Backoff
import Rustvello.Workflow.Overlap
import Rustvello.Mem.ClaimProtocol
import Rustvello.Mem.RunningLimit
import Rustvello.Mem.Registration
import Rustvello.Mem.RetryBudget
import Rustvello.Mem.SideEffects
import Rustvello.Orchestration.ResolvedConfig
import Rustvello.Backends.Transactions
import Rustvello.Mem.OutboxPasses
import Rustvello.Mem.SharedConditions
import Rustvello.Runner.Subprocess
import Rustvello.Runner.WorkerIdentity
import Rustvello.Mem.ExecutionIdentity
import Rustvello.Mem.Cancellation
import Rustvello.Backends.Rerouting
import Rustvello.Backends.Routes
import Rustvello.Backends.Waiting
import Rustvello.Proto.EnvLayer
import Rustvello.Mem.TriggerIdentity
import Rustvello.Workflow.Handles
import Rustvello.Sqlite.Idempotence
import Rustvello.Mem.FailedRetrieval
import Rustvello.Telemetry.Guarantees
import Rustvello.Proto.PythonDumps
import Rustvello.Core.ClientDataStore
import Rustvello.Redis.SlotIndex
import Rustvello.Backends.MonitoringQueries
import Rustvello.Mem.Wakeups
import Rustvello.Runner.RayonHeartbeats
import Rustvello.Runner.ServiceWindows
import Rustvello.Monitoring.Histogram
import Rustvello.Monitoring.Lanes
import Rustvello.Mem.RacedAttempts
import Rustvello.Mem.IndexMirror
import Rustvello.Proto.IdentifierSlices
import Rustvello.Monitoring.LogRoundTrip
import Rustvello.Redis.Submissions
import Rustvello.Sqlite.Finality
