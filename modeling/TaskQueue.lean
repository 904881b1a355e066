import TaskQueue.Library.Machine
import TaskQueue.Library.Placement
import TaskQueue.Library.ScoreSet
import TaskQueue.Library.Incarnation
import TaskQueue.Library.Coroutine
import TaskQueue.Library.Roster
import TaskQueue.Library.Lineage
import TaskQueue.Library.Clocked
import TaskQueue.Library.Decimal
import TaskQueue.Library.Dict
import TaskQueue.Job
import TaskQueue.Receipt
import TaskQueue.Redis.Store
import TaskQueue.Redis.Scripts
import TaskQueue.Redis.Reaper
import TaskQueue.Redis.Claim
import TaskQueue.Redis.Retention
import TaskQueue.Redis.Server
import TaskQueue.Redis.Liveness
import TaskQueue.Redis.Leases
import TaskQueue.Redis.Outcome
import TaskQueue.Redis.Custody
import TaskQueue.Redis.Notifier
import TaskQueue.Redis.Subscriptions
import TaskQueue.Handle.Calls
import TaskQueue.Handle.Interruption
import TaskQueue.Handle.Tracking
import TaskQueue.Memory.Backend
import TaskQueue.Worker.Loop
import TaskQueue.Worker.Fleet
import TaskQueue.Worker.Delivery
import TaskQueue.Worker.StaleHolders
import TaskQueue.Worker.Abandon
import TaskQueue.Worker.TakeResult
import TaskQueue.Worker.Rerun
import TaskQueue.Worker.Watcher
import TaskQueue.Worker.Cancellation
import TaskQueue.Worker.Process
import TaskQueue.Worker.Attend
import TaskQueue.Worker.Survival
import TaskQueue.Worker.TerminalWrite
import TaskQueue.Worker.Shutdown
import TaskQueue.Worker.Recovery
import TaskQueue.Worker.Backlog
import TaskQueue.Cli.RunWorker
import TaskQueue.Memory.TakeResult
import TaskQueue.Memory.Waiters
import TaskQueue.Memory.Cancellation
import TaskQueue.TakeResult
import TaskQueue.Interface
import TaskQueue.Ledger
import TaskQueue.DeliveryCount
import TaskQueue.Worker.DeliveryCount
import TaskQueue.Memory.DeliveryCount
import TaskQueue.Conformance.Twins
import TaskQueue.Conformance.Values
import TaskQueue.Scope.Group
import TaskQueue.Scope.Steps
import TaskQueue.Scope.FailFast
import TaskQueue.Scope.Orphans
import TaskQueue.Scope.Deadline
import TaskQueue.Scope.Redelivery
import TaskQueue.Scope.ChildIds
import TaskQueue.Scope.Backends
import TaskQueue.Scope.Teardown
import TaskQueue.Scope.EventLoop
import TaskQueue.Scope.Report
import TaskQueue.Wire.Text
import TaskQueue.Wire.Job
import TaskQueue.Wire.Fields
import TaskQueue.Wire.Server
import TaskQueue.Wire.Backend
import TaskQueue.Wire.RoundTrip
import TaskQueue.Library.Simulation
import TaskQueue.Library.Fifo
import TaskQueue.Order
import TaskQueue.Naming
import TaskQueue.Wire.Refinement
import TaskQueue.Wire.Delivery
import TaskQueue.Wire.Poison
