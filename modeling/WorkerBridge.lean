import WorkerBridge.Runs
import WorkerBridge.Table
import WorkerBridge.Text
import WorkerBridge.Json
import WorkerBridge.TaskState
import WorkerBridge.Store
import WorkerBridge.PosixPath
import WorkerBridge.Glob
import WorkerBridge.Config
import WorkerBridge.Permissions
import WorkerBridge.Confinement
import WorkerBridge.Metrics
import WorkerBridge.Manager
import WorkerBridge.Bridge
import WorkerBridge.Coherence
import WorkerBridge.Steps
import WorkerBridge.Preservation
import WorkerBridge.Recovery
import WorkerBridge.Induction
import WorkerBridge.History
import WorkerBridge.Lifecycle
import WorkerBridge.Shutdown
import WorkerBridge.Effects
import WorkerBridge.Dispatch
import WorkerBridge.Idempotency
import WorkerBridge.Admission
import WorkerBridge.Backlog
import WorkerBridge.Registry
import WorkerBridge.Traffic
import WorkerBridge.Circuit
import WorkerBridge.Reload
import WorkerBridge.Lifetime
import WorkerBridge.Shape
import WorkerBridge.Attempts
import WorkerBridge.Tally
import WorkerBridge.Unbound
import WorkerBridge.Watchdog
import WorkerBridge.Matching
import WorkerBridge.Replay
import WorkerBridge.Application
import WorkerBridge.Server
import WorkerBridge.Footprint
import WorkerBridge.Requests
import WorkerBridge.Scopes
import WorkerBridge.Policy
import WorkerBridge.HotReload
import WorkerBridge.FailedReload
import WorkerBridge.Breaker
import WorkerBridge.PolicyErrors
import WorkerBridge.Regex
import WorkerBridge.Lines
import WorkerBridge.Frontmatter
import WorkerBridge.Raising
import WorkerBridge.Submission
import WorkerBridge.Deployment
import WorkerBridge.Cancellation
import WorkerBridge.SyncCalls
import WorkerBridge.Polling
import WorkerBridge.Stopping
import WorkerBridge.Reporting
import WorkerBridge.Occupancy
import WorkerBridge.Outcomes
import WorkerBridge.Outgoing
import WorkerBridge.Timeouts
import WorkerBridge.Authentication
import WorkerBridge.Answers
import WorkerBridge.DefaultDict
import WorkerBridge.Histogram
import WorkerBridge.Health
import WorkerBridge.Urls
import WorkerBridge.HttpUrl
import WorkerBridge.Endpoints
import WorkerBridge.Floats
import WorkerBridge.Numerals
import WorkerBridge.Startup
import WorkerBridge.Bounds
import WorkerBridge.Draining
import WorkerBridge.Wakeups
import WorkerBridge.Progress
import WorkerBridge.Settling
import WorkerBridge.Nesting
import WorkerBridge.Sql
import WorkerBridge.Sqlite
import WorkerBridge.Persistence
import WorkerBridge.Migration
import WorkerBridge.StoreCalls
import WorkerBridge.Bisimulation
import WorkerBridge.Fronts
import WorkerBridge.Watching
import WorkerBridge.Exposition
import WorkerBridge.Rendering
