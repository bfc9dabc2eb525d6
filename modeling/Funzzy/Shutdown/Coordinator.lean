import Funzzy.Lib.Machine

/-! The shutdown coordinator (`shutdown.rs`).

    Signals, the control surface and the watch loop all end up here, from any number of threads. Each
    call is a party of its own with a place in its code; a step is one critical section, one atomic or one
    answer of the process runner, so a run is any interleaving of the calls. The first request, or the
    first `finish` when nothing was requested, freezes the reason and the close hook; one caller of
    `finish` then drives the close sequence and the others wait for what it publishes. -/

namespace Funzzy

namespace ShutdownCoordinator

/-! ### Reasons and outcomes -/

inductive ShutdownReason where
  | normal
  | signal (name : String) (exitCode : Int)
  | fatalConfig (detail : String) (exitCode : Int)
  | operational (detail : String) (exitCode : Int)
  deriving DecidableEq

namespace ShutdownReason

def exitCode : ShutdownReason → Int
  | .normal => 0
  | .signal _ exitCode | .fatalConfig _ exitCode | .operational _ exitCode => exitCode

def isSignal : ShutdownReason → Bool
  | .signal _ _ => true
  | _ => false

end ShutdownReason

inductive CloseHookOutcome where
  | notConfigured
  | skippedBeforeReady
  | passed
  | failed (detail : String)
  | timedOut
  | cancelled
  deriving DecidableEq

structure ShutdownCompletion where
  reason : ShutdownReason
  hook : CloseHookOutcome
  deriving DecidableEq

/-- What the first request freezes. -/
structure Requested where
  reason : ShutdownReason
  hook : Option String
  deriving DecidableEq

inductive Phase where
  | running
  | requested (requested : Requested)
  | finishing
  | finished (completion : ShutdownCompletion)
  deriving DecidableEq

/-! ### The shared state and its log -/

/-- A reason taken up, by which call, and what the coordinator knew then. -/
structure Acceptance where
  caller : Nat
  reason : ShutdownReason
  ready : Bool
  close : Option String
  deriving DecidableEq

/-- The close hook that is due: the committed one, if the watcher was ready. -/
def Acceptance.hook (a : Acceptance) : Option String := if a.ready then a.close else none

/-- What a run does that cannot be undone. -/
inductive Event where
  | accepted (acceptance : Acceptance)
  | reaped
  | removed (path : String)
  | spawned (command : String)
  deriving DecidableEq

/-- The coordinator's fields, and the log of what happened. `committedClose` is the only hook a session
    has. -/
structure Shared where
  phase : Phase
  ready : Bool
  committedClose : Option String
  cleanupPaths : List String
  requested : Bool
  reaped : Bool
  accelerate : Bool
  log : List Event
  deriving DecidableEq

def Event.acceptance? : Event → Option Acceptance
  | .accepted a => some a
  | _ => none

def Event.command? : Event → Option String
  | .spawned command => some command
  | _ => none

namespace Shared

def acceptances (s : Shared) : List Acceptance := s.log.filterMap Event.acceptance?

def reaps (s : Shared) : Nat := s.log.count .reaped

def spawns (s : Shared) : List String := s.log.filterMap Event.command?

def new (hooks : Option String) : Shared := ⟨.running, false, hooks, [], false, false, false, []⟩

def markReady (s : Shared) : Shared := if s.phase = .running then { s with ready := true } else s

def updateHooks (s : Shared) (hooks : Option String) : Shared :=
  if s.phase = .running then { s with committedClose := hooks } else s

def setCleanupPaths (s : Shared) (paths : List String) : Shared := { s with cleanupPaths := paths }

/-- The close hook as `request` and `finish` freeze it. -/
def hook (s : Shared) : Option String := if s.ready then s.committedClose else none

def skipped (s : Shared) : Bool := !s.ready && s.committedClose.isSome

def accept (s : Shared) (caller : Nat) (reason : ShutdownReason) (phase : Phase) : Shared :=
  { s with
    phase
    requested := true
    log := s.log ++ [.accepted ⟨caller, reason, s.ready, s.committedClose⟩] }

/-- The critical section of `request`, and whether this is the first one. -/
def request (s : Shared) (caller : Nat) (reason : ShutdownReason) : Shared × Bool :=
  match s.phase with
  | .running => (s.accept caller reason (.requested ⟨reason, s.hook⟩), true)
  | _ => (if reason.isSignal then { s with accelerate := true } else s, false)

/-- The exchange of `reap_once`, and whether this caller is to reap. -/
def reapOnce (s : Shared) : Shared × Bool :=
  if s.reaped then (s, false) else ({ s with reaped := true, log := s.log ++ [.reaped] }, true)

def write (s : Shared) (event : Event) : Shared := { s with log := s.log ++ [event] }

end Shared

/-! ### Callers -/

inductive Call where
  | markReady
  | updateHooks (hooks : Option String)
  | setCleanupPaths (paths : List String)
  | request (reason : ShutdownReason)
  | finish
  deriving DecidableEq

/-- What the one driving `finish` takes along. -/
structure Work where
  requested : Requested
  cleanupPaths : List String
  skippedBeforeReady : Bool
  deriving DecidableEq

/-- Where the driving `finish` stands. -/
inductive Stage where
  | quiescing (work : Work)
  | reaping (work : Work)
  | cleaning (work : Work)
  | hooking (work : Work)
  | polling (work : Work)
  | publishing (completion : ShutdownCompletion)
  deriving DecidableEq

inductive Value where
  | unit
  | first (first : Bool)
  | completion (completion : ShutdownCompletion)
  deriving DecidableEq

/-- Where a call stands: about to enter, in the reaping of a first request, driving the close sequence,
    or returned. -/
inductive Place where
  | calling (call : Call)
  | quiescing
  | reaping
  | driving (stage : Stage)
  | returned (value : Value)
  deriving DecidableEq

/-- One look at the hook's process. -/
inductive Poll where
  | success
  | exited (status : String)
  | error (error : String)
  | pending (deadlinePassed : Bool)
  deriving DecidableEq

/-- What the process runner answers if this step asks it. -/
structure Answer where
  spawnError : Option String
  poll : Poll
  deriving DecidableEq

/-- `finish` at the lock. In `Finishing` it waits on the condition variable. -/
def enterFinish (s : Shared) (caller : Nat) : Option (Shared × Place) :=
  match s.phase with
  | .running => some (s.accept caller .normal .finishing,
      .driving (.quiescing ⟨⟨.normal, s.hook⟩, s.cleanupPaths, s.skipped⟩))
  | .requested requested => some ({ s with phase := .finishing },
      .driving (.quiescing ⟨requested, s.cleanupPaths, s.skipped⟩))
  | .finishing => none
  | .finished completion => some (s, .returned (.completion completion))

/-- One turn of the loop that waits for the hook. -/
def pollHook (s : Shared) (work : Work) (poll : Poll) : Stage :=
  let outcome (hook : CloseHookOutcome) : Stage := .publishing ⟨work.requested.reason, hook⟩
  if s.accelerate then outcome .cancelled
  else match poll with
  | .success => outcome .passed
  | .exited status => outcome (.failed status)
  | .error error => outcome (.failed error)
  | .pending true => outcome .timedOut
  | .pending false => .polling work

/-- The driving `finish` after the lock: reap, clean up, run the hook, publish. -/
def drive (s : Shared) (answer : Answer) : Stage → Shared × Place
  | .quiescing work =>
    let (s', mine) := s.reapOnce
    (s', .driving (if mine then .reaping work else .cleaning work))
  | .reaping work => (s, .driving (.cleaning work))
  | .cleaning work =>
    (work.cleanupPaths.foldl (fun s path => s.write (.removed path)) s, .driving (.hooking work))
  | .hooking work =>
    if work.skippedBeforeReady then
      (s, .driving (.publishing ⟨work.requested.reason, .skippedBeforeReady⟩))
    else match work.requested.hook with
    | none => (s, .driving (.publishing ⟨work.requested.reason, .notConfigured⟩))
    | some command =>
      (s.write (.spawned command), .driving (match answer.spawnError with
        | some error => .publishing ⟨work.requested.reason, .failed error⟩
        | none => .polling work))
  | .polling work => (s, .driving (pollHook s work answer.poll))
  | .publishing completion =>
    ({ s with phase := .finished completion }, .returned (.completion completion))

/-- One step of one call. -/
def advance (s : Shared) (caller : Nat) (answer : Answer) : Place → Option (Shared × Place)
  | .calling .markReady => some (s.markReady, .returned .unit)
  | .calling (.updateHooks hooks) => some (s.updateHooks hooks, .returned .unit)
  | .calling (.setCleanupPaths paths) => some (s.setCleanupPaths paths, .returned .unit)
  | .calling (.request reason) =>
    let (s', first) := s.request caller reason
    some (s', if first then .quiescing else .returned (.first false))
  | .calling .finish => enterFinish s caller
  | .quiescing =>
    let (s', mine) := s.reapOnce
    some (s', if mine then .reaping else .returned (.first true))
  | .reaping => some (s, .returned (.first true))
  | .driving stage => some (drive s answer stage)
  | .returned _ => none

/-- The shared state and every call made so far. -/
structure State where
  shared : Shared
  callers : List Place
  deriving DecidableEq

/-- A new call, or one step of a call. -/
inductive Label where
  | call (call : Call)
  | move (caller : Nat) (answer : Answer)
  deriving DecidableEq

def init (hooks : Option String) : State := ⟨Shared.new hooks, []⟩

def step (s : State) : Label → Option State
  | .call call => some { s with callers := s.callers ++ [.calling call] }
  | .move i answer => do
    let place ← s.callers[i]?
    let (shared, place') ← advance s.shared i answer place
    return ⟨shared, s.callers.set i place'⟩

end ShutdownCoordinator

end Funzzy
