import Funzzy.Lib.History
import Funzzy.Lib.Board
import Funzzy.Lib.Machine
import Funzzy.Plan
import Funzzy.Executor.World
import Funzzy.Observers
import Funzzy.Executor.Advance
import Funzzy.Executor.TaskMoves
import Funzzy.Executor.Moves
import Funzzy.Executor.Simulation.Services
import Funzzy.Executor.Simulation.Recovery
import Funzzy.Executor.Simulation.Stages
import Funzzy.Executor.Session
import Funzzy.Executor.Entities
import Funzzy.Executor.Conservation
import Funzzy.Executor.Course
import Funzzy.Executor.Alive
import Funzzy.Executor.Barrier
import Funzzy.Executor.Asking
import Funzzy.Executor.Gate
import Funzzy.Executor.Agreement
import Funzzy.Executor.Independence
import Funzzy.Worker.Generation
import Funzzy.Worker.Scheduler
import Funzzy.Worker.Loop
import Funzzy.Worker.Census
import Funzzy.Worker.Orphan
import Funzzy.Worker.Terminal
import Funzzy.Worker.Drain
import Funzzy.Worker.Lifecycle
import Funzzy.Worker.Supersession
import Funzzy.Lib.Path
import Funzzy.Watches
import Funzzy.Subscription
import Funzzy.Worker.Projection
import Funzzy.Await.Coordinator
import Funzzy.Worker.Emission
import Funzzy.Await.Hub
import Funzzy.Await.Conveyance
import Funzzy.Await.Freshness
import Funzzy.Await.Coherence
import Funzzy.Prepare
import Funzzy.Worker.Requests
import Funzzy.Reload.Session
import Funzzy.Reload.Overrides
import Funzzy.Lib.Codec
import Funzzy.Reload.Revision
import Funzzy.Reload.Commit
import Funzzy.Output.Registry
import Funzzy.Lib.SortedMap
import Funzzy.Durations
import Funzzy.Shutdown.Coordinator
import Funzzy.Shutdown.Once
import Funzzy.Lib.Utf8
import Funzzy.Reload.Socket
import Funzzy.Signature
import Funzzy.Routes
import Funzzy.Control.Framing
import Funzzy.Snapshot
import Funzzy.Reload.Roots
import Funzzy.Output.Retrieval
import Funzzy.Output.Paging
import Funzzy.Output.RoundTrip
import Funzzy.Recorder
import Funzzy.Estimates
import Funzzy.Lib.Runs
import Funzzy.Watcher
import Funzzy.Executor.Verdicts
import Funzzy.Reload.Lifecycle
import Funzzy.Config.Readers
import Funzzy.Config.Pipelines
import Funzzy.Config.Files
import Funzzy.Control.Wire
import Funzzy.Control.Client
import Funzzy.Control.Agreement
import Funzzy.Config.Tasks
import Funzzy.Config.Migration
import Funzzy.Occurrences
import Funzzy.Selection
import Funzzy.Discovery
import Funzzy.Lib.Detector
import Funzzy.WatchLoop.Gate
import Funzzy.WatchLoop.Handler
import Funzzy.Executor.Termination
import Funzzy.Executor.Passing
import Funzzy.Executor.Halting
import Funzzy.Executor.FailFast
import Funzzy.Lib.Rollout
import Funzzy.Reload.Services
import Funzzy.Output.Packing
import Funzzy.Output.Budget
import Funzzy.Output.Lookup
import Funzzy.Output.Evidence
import Funzzy.Lib.Ranks
import Funzzy.Percentiles
import Funzzy.Lib.Marks
import Funzzy.Templates
import Funzzy.Lib.ShellWords
import Funzzy.Quoting
import Funzzy.Targets
import Funzzy.Config.Declared
import Funzzy.Lib.Glob
import Funzzy.Exec
import Funzzy.Spelling
import Funzzy.Reload.Trigger
import Funzzy.Lib.Precedence
import Funzzy.Gitignore
import Funzzy.Control.Correlation
import Funzzy.Lib.Edits
import Funzzy.Config.Rewriting
import Funzzy.Diagnostics.Detector
import Funzzy.Diagnostics.Repeats
import Funzzy.Lib.KeyValue
import Funzzy.Diagnostics.Rendering
import Funzzy.Lib.Escapes
import Funzzy.Logging
import Funzzy.Control.Bounds
import Funzzy.Config.Excerpt
import Funzzy.Output.Capture
import Funzzy.Patterns
import Funzzy.Control.Text
import Funzzy.EventStream
import Funzzy.Control.Session
