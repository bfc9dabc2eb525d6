import Funzzy.Executor.World

/-! The bounded task executor (`executor.rs`), function by function.

    `advance` is one call of the executor on a run: it opens the next stage when the current one is
    drained, fills free slots, polls every active task, polls background services, and resolves the
    recoveries of a drained stage. Loops of the source that walk a container are recursions over
    that container. The two waits that only the outside world can end (an approval answer, a
    recovery or verification child) take at most `polls` polls and otherwise leave the call
    `waiting`, with everything that has happened so far in the trace. -/

namespace Funzzy

variable {W : Type}

abbrev Results := List (Except String Unit)

/-- One generation in execution. -/
structure Run where
  stages : List Stage
  queued : List TaskPlan := []
  active : List ActiveTask := []
  pendingRecoveries : List ActiveTask := []
  services : List ActiveTask := []
  stageLimit : Nat := 0
  results : Results := []
  outcomes : List (Nat × String × Option String × TaskOutcome) := []
  taskSnapshots : List TaskSnapshot := []
  metadata : RunMetadata
  supersededBy : Option Nat := none
  started : Nat

/-- Per-executor settings that never change after construction. -/
structure Executor where
  failFast : Bool := false
  approval : RecoveryApproval := denyRecoveryApproval

/-- An executor with one of the ports of the source, or another that answers as they do. -/
structure LawfulExecutor extends Executor where
  lawful : approval.Lawful := by
    first | exact denyRecoveryApproval_lawful | exact ttyRecoveryApproval_lawful

instance : Coe LawfulExecutor Executor := ⟨LawfulExecutor.toExecutor⟩

inductive TaskStep where | running | finished | failedFast
  deriving DecidableEq

inductive Step where | running | finished
  deriving DecidableEq

/-- How a call of `advance` ended: it returned a step, it is still waiting for the outside world
    inside a recovery, or (never, see `advance_not_spinning`) its loop ran out of iterations. -/
inductive Progress where
  | returned (step : Step)
  | waiting
  | spinning
  deriving DecidableEq

def start (env : Env W) (io : Io W) (metadata : RunMetadata) (plan : RunPlan) : Io W × Run :=
  (io.emit (.started metadata (plan.commands.map (·.display))),
    { stages := plan.stages, metadata, started := env.now io.world })

/-! ### One task -/

def ActiveTask.fail (task : ActiveTask) (failure : String) : ActiveTask :=
  { task with failures := task.failures ++ [failure] }

/-- The task after its next command was taken from its list. -/
def ActiveTask.take (task : ActiveTask) (command : CommandLine) (rest : List CommandLine) :
    ActiveTask :=
  { task with commands := rest, currentCommand := some command.display }

/-- The task after the command it took has started; the first start time is kept. -/
def ActiveTask.launched (task : ActiveTask) (now : Nat) : ActiveTask :=
  { task with
    child := true
    commandIndex := task.commandIndex + 1
    started := task.started.or (some now) }

/-- The task after its child is gone. -/
def ActiveTask.reaped (task : ActiveTask) : ActiveTask :=
  { task with child := false, currentCommand := none }

/-- A service queued for another attempt: its command was consumed at spawn and is put back. -/
def ActiveTask.requeued (task : ActiveTask) (command : Option String) : ActiveTask :=
  { task with
    serviceRestartsLeft := task.serviceRestartsLeft - 1
    commands := (command.map CommandLine.shell).toList ++ task.commands }

/-- A failure goes to the run's results unless the task defers its failures. -/
def pushFailure (task : ActiveTask) (results : Results) (failure : String) : Results :=
  if task.deferFailure then results else results ++ [.error failure]

/-- The loop of `advance_task` while the task has no child: take commands until one spawns. -/
def spawnCommands (env : Env W) (phase : Phase) (failFast : Bool) :
    List CommandLine → Io W → ActiveTask → Results → Io W × ActiveTask × Results × TaskStep
  | [], io, task, results => (io, { task with commands := [] }, results, .finished)
  | command :: rest, io, task, results =>
    let task := task.take command rest
    match env.spawn io.world task command with
    | (.ok _, world) =>
      let io := { io with world }.record (.spawned (task.proc phase) command)
      (io.emit (.tick task.name task.groupOccurrence), task.launched (env.now world), results,
        .running)
    | (.error error, world) =>
      let failure := "Command " ++ command.display ++ " failed to start: " ++ error
      let io := { io with world }.record (.spawnFailed (task.proc phase) command error)
      let results := pushFailure task results failure
      let task := task.reaped.fail failure
      if failFast then (io, task, results, .failedFast)
      else spawnCommands env phase failFast rest io task results

/-- What `advance_task` does with a child that exited with `status`. -/
def childExited (env : Env W) (phase : Phase) (failFast : Bool) (io : Io W) (task : ActiveTask)
    (results : Results) (status : ExitStatus) : Io W × ActiveTask × Results × TaskStep :=
  let display := task.currentCommand.getD ""
  let serviceCommand := task.currentCommand
  let io := io.record (.exited (task.proc phase) status)
  let task := task.reaped
  if task.service then
    if status.success then (io, task, results ++ [.ok ()], .finished)
    else if 0 < task.serviceRestartsLeft then
      let task := task.requeued serviceCommand
      spawnCommands env phase failFast task.commands io task results
    else
      let failure := "Service " ++ task.name ++ " has failed after "
        ++ toString serviceMaxRestarts ++ " restarts"
      (io, task.fail failure, results ++ [.error failure], .finished)
  else if status.success then
    spawnCommands env phase failFast task.commands io task (results ++ [.ok ()])
  else
    let failure := "Command " ++ display ++ " has failed with " ++ status.text
    let results := pushFailure task results failure
    let task := task.fail failure
    if failFast then (io, task, results, .failedFast)
    else spawnCommands env phase failFast task.commands io task results

/-- The loop of `advance_task`: at most one poll of the current child, then spawning. -/
def advanceCommands (env : Env W) (phase : Phase) (failFast : Bool) (io : Io W)
    (task : ActiveTask) (results : Results) : Io W × ActiveTask × Results × TaskStep :=
  if task.child then
    match env.tryWait io.world task with
    | (.ok none, world) =>
      ({ io with world }.emit (.tick task.name task.groupOccurrence), task, results, .running)
    | (.ok (some status), world) =>
      childExited env phase failFast { io with world } task results status
    | (.error error, world) =>
      let io := { io with world }.record (.waitFailed (task.proc phase) error)
      let failure := "Command " ++ task.currentCommand.getD "" ++ " has errored with " ++ error
      let results := pushFailure task results failure
      let task := task.reaped.fail failure
      if failFast then (io, task, results, .failedFast)
      else spawnCommands env phase failFast task.commands io task results
  else spawnCommands env phase failFast task.commands io task results

/-- Polls or spawns for one task; its working directory is checked once, before the first spawn. -/
def advanceTask (env : Env W) (phase : Phase) (failFast : Bool) (io : Io W)
    (task : ActiveTask) (results : Results) : Io W × ActiveTask × Results × TaskStep :=
  if task.contextValidated then advanceCommands env phase failFast io task results
  else
    let task := { task with contextValidated := true }
    match task.context.cwd with
    | some cwd =>
      if env.isDir io.world task cwd then advanceCommands env phase failFast io task results
      else
        let failure :=
          "Task '" ++ task.name ++ "' cwd is missing or not a directory: " ++ cwd
        let results := pushFailure task results failure
        let task := { task.fail failure with commands := [] }
        (io.record (.contextInvalid task.position), task, results,
          if failFast then .failedFast else .finished)
    | none => advanceCommands env phase failFast io task results

/-- Stops a task's child and drops its remaining commands; true when the child was force-killed. -/
def shutdownTask (env : Env W) (io : Io W) (task : ActiveTask) : Io W × ActiveTask × Bool :=
  if task.child then
    let (escalated, world) := env.shutdown io.world task
    ({ io with world }.record (.killed task.position task.service),
      { task with child := false, commands := [] }, escalated)
  else (io, { task with commands := [] }, false)

/-! ### Reporting -/

/-- `self.clock.elapsed(started).as_millis()` for a task that has started. -/
def elapsedMs (env : Env W) (io : Io W) (started : Option Nat) : Option Nat :=
  started.map fun s => env.now io.world - s

/-- Emits one per-task terminal record; the id is the group occurrence, else the task name. -/
def recordTaskSnapshot (io : Io W) (run : Run) (position : Nat) (name : String)
    (groupOccurrence : Option String) (state : TaskState) (durationMs : Option Nat) :
    Io W × Run :=
  let task : TaskSnapshot :=
    { position, id := groupOccurrence.getD name, name, state, durationMs }
  (io.emit (.taskTerminal run.metadata.runId task),
    { run with taskSnapshots := run.taskSnapshots ++ [task] })

def Run.pushOutcome (run : Run) (position : Nat) (name : String) (groupOccurrence : Option String)
    (outcome : TaskOutcome) : Run :=
  { run with outcomes := run.outcomes ++ [(position, name, groupOccurrence, outcome)] }

/-- The state and outcome a finished task reports: failed exactly when it has failures. -/
def ActiveTask.verdict (task : ActiveTask) : TaskState × TaskOutcome :=
  if task.failures = [] then (.passed, .passed) else (.failed, .failed task.failures)

def recordTaskOutcome (env : Env W) (io : Io W) (run : Run) (task : ActiveTask) : Io W × Run :=
  let (io, run) := recordTaskSnapshot io run task.position task.name task.groupOccurrence
    task.verdict.1 (elapsedMs env io task.started)
  (io, run.pushOutcome task.position task.name task.groupOccurrence task.verdict.2)

def emitRecoveryPhase (io : Io W) (run : Run) (job phase : String) (outcome : Option String) :
    Io W :=
  io.emit (.recoveryPhase run.metadata.runId job phase outcome)

/-- A failed task with a recovery block waits for its stage; every other task is recorded. -/
def deferOrRecord (env : Env W) (io : Io W) (run : Run) (task : ActiveTask) : Io W × Run :=
  if task.failures ≠ [] ∧ task.recoveryCommands.isSome then
    (emitRecoveryPhase io run task.name "original_failed" none,
      { run with pendingRecoveries := run.pendingRecoveries ++ [task] })
  else recordTaskOutcome env io run task

/-- Fail-fast on the active tasks: each child is stopped and its task reported cancelled. -/
def stopActive (env : Env W) : List ActiveTask → Io W → Run → Io W × Run
  | [], io, run => (io, { run with active := [] })
  | task :: rest, io, run =>
    let (io, task, _) := shutdownTask env io task
    let (io, run) := recordTaskSnapshot io { run with active := rest } task.position task.name
      task.groupOccurrence .cancelled (elapsedMs env io task.started)
    stopActive env rest io
      (run.pushOutcome task.position task.name task.groupOccurrence .cancelled)

/-- Reports tasks that never started as skipped. -/
def skipTasks : List TaskPlan → Io W → Run → Io W × Run
  | [], io, run => (io, run)
  | task :: rest, io, run =>
    let (io, run) := recordTaskSnapshot io run task.position task.name task.groupOccurrence
      .cancelled none
    skipTasks rest io (run.pushOutcome task.position task.name task.groupOccurrence .skipped)

/-- Fail-fast: everything that has not finished is stopped or skipped. Background services and
    recoveries already pending are not touched. -/
def stopAfterFailure (env : Env W) (io : Io W) (run : Run) : Io W × Run :=
  let (io, run) := stopActive env run.active io run
  let (io, run) := skipTasks run.queued io { run with queued := [] }
  skipTasks (run.stages.flatMap stageTasks) io { run with stages := [] }

/-! ### Background services -/

/-- Reports a service that leaves the background set with the given state and outcome. -/
def retireService (env : Env W) (io : Io W) (run : Run) (done : ActiveTask) (state : TaskState)
    (outcome : TaskOutcome) : Io W × Run :=
  let (io, run) := recordTaskSnapshot io run done.position done.name done.groupOccurrence state
    (elapsedMs env io done.started)
  (io, run.pushOutcome done.position done.name done.groupOccurrence outcome)

/-- A service that left the background set after a failure. -/
def failService (env : Env W) (io : Io W) (run : Run) (service : ActiveTask) (failure : String) :
    Io W × Run :=
  let done := service.fail failure
  retireService env io { run with results := run.results ++ [.error failure] } done .failed
    (.failed done.failures)

/-- Respawns a service whose child was reaped and whose command was queued for the next attempt. -/
def respawnService (env : Env W) (io : Io W) (run : Run) (service : ActiveTask) :
    Io W × Run × Option ActiveTask :=
  match service.commands with
  | [] => (io, run, some service)
  | command :: rest =>
    let service := service.take command rest
    match env.spawn io.world service command with
    | (.ok _, world) =>
      ({ io with world }.record (.spawned (service.proc .original) command), run,
        some { service with
          child := true, started := service.started.or (some (env.now world)) })
    | (.error error, world) =>
      let io := { io with world }.record (.spawnFailed (service.proc .original) command error)
      let (io, run) := failService env io run service
        ("Service " ++ service.name ++ " respawn failed: " ++ error)
      (io, run, none)

/-- A service whose child exited: stop, restart within the bound, or failure. -/
def serviceExited (env : Env W) (io : Io W) (run : Run) (service : ActiveTask)
    (status : ExitStatus) : Io W × Run × Option ActiveTask :=
  let command := service.currentCommand
  let io := io.record (.exited (service.proc .original) status)
  let service := service.reaped
  if status.success then
    let (io, run) := retireService env io run service .passed .passed
    (io, run, none)
  else if 0 < service.serviceRestartsLeft then
    (io, run, some (service.requeued command))
  else
    let (io, run) := failService env io run service
      ("Service " ++ service.name ++ " has failed after "
        ++ toString serviceMaxRestarts ++ " restarts")
    (io, run, none)

/-- One iteration of `advance_services`; `none` when the service leaves the background set. -/
def advanceService (env : Env W) (io : Io W) (run : Run) (service : ActiveTask) :
    Io W × Run × Option ActiveTask :=
  if service.child then
    match env.tryWait io.world service with
    | (.ok none, world) => ({ io with world }, run, some service)
    | (.ok (some status), world) => serviceExited env { io with world } run service status
    | (.error _, world) => ({ io with world }, run, some service)
  else respawnService env io run service

/-- The loop of `advance_services` with `kept` already polled: `run.services = kept ++ rest`. -/
def advanceServicesFrom (env : Env W) (kept : List ActiveTask) :
    List ActiveTask → Io W → Run → Io W × Run
  | [], io, run => (io, run)
  | service :: rest, io, run =>
    match advanceService env io { run with services := kept ++ rest } service with
    | (io, run, some service) =>
      advanceServicesFrom env (kept ++ [service]) rest io
        { run with services := kept ++ service :: rest }
    | (io, run, none) => advanceServicesFrom env kept rest io run

def advanceServices (env : Env W) (io : Io W) (run : Run) : Io W × Run :=
  advanceServicesFrom env [] run.services io run

/-! ### Recovery -/

/-- How a bounded wait ended. -/
inductive Awaited where | done | interrupted | waiting
  deriving DecidableEq

/-- `while matches!(advance_task(…), Running)`: drives one task fail-fast until it is done, or the
    token interrupts it. -/
def awaitTask (env : Env W) (phase : Phase) :
    Nat → Io W → ActiveTask → Results → Io W × ActiveTask × Awaited
  | 0, io, task, _ => (io, task, .waiting)
  | polls + 1, io, task, results =>
    match advanceTask env phase true io task results with
    | (io, task, results, .running) =>
      match io.cancellationRequested env with
      | (true, io) =>
        let (io, task, _) := shutdownTask env io task
        (io, task, .interrupted)
      | (false, io) => awaitTask env phase polls io task results
    | (io, task, _, _) => (io, task, .done)

/-- Waits for the approval thread: `some` decision, an interruption, or still waiting. -/
def awaitApproval (ex : Executor) (env : Env W) (requests : List RecoveryRequest) :
    Nat → Io W → Io W × Awaited × ApprovalDecision
  | 0, io => (io, .waiting, .invalid)
  | polls + 1, io =>
    match io.cancellationRequested env with
    | (true, io) => (io, .interrupted, .cancelled)
    | (false, io) =>
      match env.approval io.world requests with
      | (.timeout, world) => awaitApproval ex env requests polls { io with world }
      | (.disconnected, world) => ({ io with world }, .done, .invalid)
      | (.answered input, world) =>
        -- the port reads the same token, at some moment before its answer arrives
        match { io with world }.cancellationRequested env with
        | (set, io) => (io, .done, ex.approval.approve requests set input)

/-- The request for one job's recovery, with its commands rendered for the attached user. -/
def ActiveTask.recoveryRequest (run : Run) (task : ActiveTask) : RecoveryRequest :=
  { generation := run.metadata.runId
    revision := run.metadata.revision
    jobPosition := task.position
    job := task.name
    commands := (task.recoveryCommands.getD []).map (·.display) }

/-- A fresh pass over `commands` by a task that has run before. -/
def ActiveTask.restart (task : ActiveTask) (commands : List CommandLine) : ActiveTask :=
  { task with
    commands
    failures := []
    currentCommand := none
    child := false
    commandIndex := 0
    commandTotal := commands.length
    deferFailure := false }

/-- Why a recovery was not run. -/
def declineReason : RecoveryPolicy → ApprovalDecision → String
  | .skip, _ => "recovery_policy: skip"
  | _, .noTty => "no TTY"
  | _, .eof => "EOF"
  | _, .invalid => "invalid answer"
  | _, .declined => "declined"
  | _, .cancelled => "cancelled"
  | _, .approved => "approved"

/-- The failure a job without a finished recovery is reported with. -/
def ActiveTask.firstFailure (task : ActiveTask) : String :=
  task.failures.head?.getD ("Job '" ++ task.name ++ "' failed")

/-- Records jobs whose recovery is not run, keeping their original failures. -/
def keepFailures (env : Env W) (announce : Io W → Run → ActiveTask → Io W) :
    List ActiveTask → Io W → Run → Io W × Run
  | [], io, run => (io, { run with pendingRecoveries := [] })
  | task :: rest, io, run =>
    let io := announce io run task
    let (io, run) := recordTaskOutcome env io
      { run with
        pendingRecoveries := rest
        results := run.results ++ [.error task.firstFailure] } task
    keepFailures env announce rest io run

/-- Puts an interrupted job back in front of the jobs that had not been resolved yet. -/
def interruptRecovery (run : Run) (task : ActiveTask) (remaining : List ActiveTask) : Run :=
  { run with pendingRecoveries := task :: remaining }

/-- After a passed recovery: the original command set once more, and the job's final record. -/
def verifyRecovery (env : Env W) (polls : Nat) (io : Io W) (run : Run) (task : ActiveTask)
    (remaining : List ActiveTask) : Io W × Run × Awaited :=
  let io := emitRecoveryPhase io run task.name "verification_started" none
  match awaitTask env .verification polls io (task.restart task.originalCommands) [] with
  | (io, task, .waiting) => (io, interruptRecovery run task remaining, .waiting)
  | (io, task, .interrupted) => (io, interruptRecovery run task remaining, .interrupted)
  | (io, task, .done) =>
    let io := emitRecoveryPhase io run task.name "verification_finished"
      (some (if task.failures = [] then "passed" else "failed"))
    let result : Except String Unit :=
      if task.failures = [] then .ok ()
      else .error (task.failures.getLast?.getD ("Verification failed for job '" ++ task.name ++ "'"))
    let (io, run) := recordTaskOutcome env io
      { run with pendingRecoveries := remaining, results := run.results ++ [result] } task
    (io, run, .done)

/-- Runs the approved recoveries one job at a time; the first failed recovery ends the phase. -/
def runRecoveries (env : Env W) (polls : Nat) : List ActiveTask → Io W → Run → Io W × Run × Awaited
  | [], io, run => (io, { run with pendingRecoveries := [] }, .done)
  | task :: remaining, io, run =>
    let io := emitRecoveryPhase io run task.name "approval_decided" (some "approved")
    match task.recoveryCommands with
    | none =>
      let (io, run) := recordTaskOutcome env io { run with pendingRecoveries := remaining } task
      runRecoveries env polls remaining io run
    | some recoveryCommands =>
      let originalFailures := task.failures
      let io := emitRecoveryPhase io run task.name "recovery_started" none
      let recovering := { task with recoveryCommands := none }.restart recoveryCommands
      match awaitTask env .recovery polls io recovering [] with
      | (io, task, .waiting) => (io, interruptRecovery run task remaining, .waiting)
      | (io, task, .interrupted) => (io, interruptRecovery run task remaining, .interrupted)
      | (io, task, .done) =>
        let io := emitRecoveryPhase io run task.name "recovery_finished"
          (some (if task.failures = [] then "passed" else "failed"))
        if task.failures = [] then
          match verifyRecovery env polls io run task remaining with
          | (io, run, .done) => runRecoveries env polls remaining io run
          | (io, run, awaited) => (io, run, awaited)
        else
          let task := { task with failures := originalFailures ++ task.failures }
          let result := task.failures.getLast?.getD ("Recovery failed for job '" ++ task.name ++ "'")
          let (io, run) := recordTaskOutcome env io
            { run with
              pendingRecoveries := remaining
              results := run.results ++ [.error result] } task
          let (io, run) := keepFailures env (fun io _ _ => io) remaining io run
          (io, run, .done)

/-- Emits `approval_requested` for every job in the set. -/
def announceRequests (run : Run) : List RecoveryRequest → Io W → Io W
  | [], io => io
  | request :: rest, io =>
    announceRequests run rest (emitRecoveryPhase io run request.job "approval_requested" none)

/-- Acts on the decision about the stage's pending recoveries. -/
def actOnDecision (env : Env W) (polls : Nat) (io : Io W) (run : Run) (decision : ApprovalDecision) :
    Io W × Run × Awaited :=
  match io.cancellationRequested env with
  | (set, io) =>
    if decision = .cancelled ∨ set = true then (io, run, .interrupted)
    else if decision = .approved then runRecoveries env polls run.pendingRecoveries io run
    else
      let reason := declineReason run.metadata.recoveryPolicy decision
      let (io, run) := keepFailures env
        (fun io run task => emitRecoveryPhase io run task.name "approval_decided" (some reason))
        run.pendingRecoveries io run
      (io, run, .done)

/-- Resolves one bounded recovery pass: `interrupted` when the token stopped it. -/
def resolveRecoveries (ex : Executor) (env : Env W) (polls : Nat) (io : Io W) (run : Run) :
    Io W × Run × Awaited :=
  let run := { run with
    pendingRecoveries := run.pendingRecoveries.insertionSort fun a b => a.position ≤ b.position }
  if run.pendingRecoveries = [] then (io, run, .done)
  else
    match io.cancellationRequested env with
    | (true, io) => (io, run, .interrupted)
    | (false, io) =>
      let requests := run.pendingRecoveries.map (·.recoveryRequest run)
      let io := announceRequests run requests io
      match run.metadata.recoveryPolicy with
      | .prompt =>
        match awaitApproval ex env requests polls (io.record (.asked requests)) with
        | (io, .done, decision) =>
          actOnDecision env polls (io.record (.decided decision)) run decision
        | (io, awaited, _) => (io, run, awaited)
      | .skip => actOnDecision env polls io run .declined

/-! ### The stage loop -/

/-- `fill_available_slots` over the queued tasks that have not been admitted yet. -/
def fillAvailableSlots : List TaskPlan → Run → Run
  | [], run => run
  | task :: rest, run =>
    if run.active.length < run.stageLimit then
      fillAvailableSlots rest
        { run with queued := rest, active := run.active ++ [.ofPlan task] }
    else run

/-- What the pass over the active tasks found. -/
inductive Scanned where
  | polled (taskFinished : Bool)
  | failedFast
  deriving DecidableEq

/-- The pass over the active tasks with `seen` already polled: `run.active = seen ++ rest`. -/
def scanActive (ex : Executor) (env : Env W) (seen : List ActiveTask) :
    List ActiveTask → Bool → Io W → Run → Io W × Run × Scanned
  | [], taskFinished, io, run => (io, run, .polled taskFinished)
  | task :: rest, taskFinished, io, run =>
    match advanceTask env .original ex.failFast io task run.results with
    | (io, task, results, .running) =>
      -- a spawned service never blocks later stages: it moves to the background set
      if task.service then
        scanActive ex env seen rest taskFinished io
          { run with results, active := seen ++ rest, services := run.services ++ [task] }
      else
        scanActive ex env (seen ++ [task]) rest taskFinished io
          { run with results, active := seen ++ task :: rest }
    | (io, task, results, .finished) =>
      let (io, run) := deferOrRecord env io { run with results, active := seen ++ rest } task
      scanActive ex env seen rest true io run
    | (io, task, results, .failedFast) =>
      let (io, run) := deferOrRecord env io { run with results, active := seen ++ rest } task
      (io, run, .failedFast)

/-- Opens the next stage: its concurrency limit is chosen here, once. -/
def beginStage (env : Env W) (io : Io W) (run : Run) (stage : Stage) (rest : List Stage) :
    Io W × Run :=
  let limit := match stage with
    | .serial _ => 1
    | .parallel _ tasks =>
      min (run.metadata.effectiveConcurrency.getD (env.concurrencyLimit io.world)) tasks.length
  (io.record (.stage (stageTasks stage) limit),
    { run with stages := rest, queued := run.queued ++ stageTasks stage, stageLimit := limit })

/-- The head of the loop of `advance`: a drained run opens its next stage, then slots are filled. -/
def openStage (env : Env W) (io : Io W) (run : Run) : Io W × Run :=
  let (io, run) := match run.stages with
    | stage :: rest =>
      if run.active = [] ∧ run.queued = [] then beginStage env io run stage rest else (io, run)
    | [] => (io, run)
  (io, fillAvailableSlots run.queued run)

/-- Fail-fast after a failed command: stop everything, then resolve that job's recovery. -/
def endFailFast (ex : Executor) (env : Env W) (polls : Nat) (io : Io W) (run : Run) :
    Io W × Run × Progress :=
  let (io, run) := stopAfterFailure env io run
  if run.pendingRecoveries = [] then (io, run, .returned .finished)
  else match resolveRecoveries ex env polls io run with
    | (io, run, .done) => (io, run, .returned .finished)
    | (io, run, .interrupted) => (io, run, .returned .running)
    | (io, run, .waiting) => (io, run, .waiting)

/-- The loop of `advance`, for at most `fuel` iterations. -/
def advanceLoop (ex : Executor) (env : Env W) (polls : Nat) :
    Nat → Io W → Run → Io W × Run × Progress
  | 0, io, run => (io, run, .spinning)
  | fuel + 1, io, run =>
    if run.active = [] ∧ run.queued = [] ∧ run.stages = [] then
      -- background services keep the generation alive until they are reaped
      if run.services = [] then (io, run, .returned .finished)
      else
        let (io, run) := advanceServices env io run
        (io, run, .returned .running)
    else
      let (io, run) := openStage env io run
      match scanActive ex env [] run.active false io run with
      | (io, run, .failedFast) => endFailFast ex env polls io run
      | (io, run, .polled taskFinished) =>
        let (io, run) := advanceServices env io run
        if run.active = [] ∧ run.queued = [] then
          if run.pendingRecoveries ≠ [] then
            match resolveRecoveries ex env polls io run with
            | (io, run, .done) => advanceLoop ex env polls fuel io run
            | (io, run, .interrupted) => (io, run, .returned .running)
            | (io, run, .waiting) => (io, run, .waiting)
          else if run.services = [] then advanceLoop ex env polls fuel io run
          else (io, run, .returned .running)
        else if taskFinished ∧ run.active.length < run.stageLimit ∧ run.queued ≠ [] then
          advanceLoop ex env polls fuel io run
        else (io, run, .returned .running)

/-- Stages and tasks that the loop of `advance` still has to move. -/
def Run.work (run : Run) : Nat :=
  run.stages.length + (run.stages.flatMap stageTasks).length + run.queued.length
    + run.active.length

/-- One call of `Executor::advance`. -/
def advance (ex : Executor) (env : Env W) (polls : Nat) (io : Io W) (run : Run) :
    Io W × Run × Progress :=
  match io.cancellationRequested env with
  | (true, io) => (io, run, .returned .running)
  | (false, io) => advanceLoop ex env polls (run.work + 1) io run

/-! ### Ending a run -/

/-- What `finish` hands back to the caller. -/
structure CompletedRun where
  results : Results
  elapsed : Nat
  outcome : RunOutcome
  tasks : List TaskSnapshot

/-- The run's outcome: the recorded task outcomes in plan-position order. -/
def Run.outcome (run : Run) : RunOutcome :=
  { tasks := (run.outcomes.insertionSort fun a b => a.1 ≤ b.1).map (·.2) }

/-- The terminal hook a run outcome selects. -/
def selectedHook (metadata : RunMetadata) (outcome : RunOutcome) : Option String :=
  if outcome.isSuccess then metadata.hooks.success else metadata.hooks.failure

/-- Runs the applicable terminal hook once; its result never changes the run outcome. -/
def runTerminalHook (env : Env W) (io : Io W) (metadata : RunMetadata) (outcome : RunOutcome) :
    Io W :=
  match selectedHook metadata outcome with
  | none => io
  | some command => { io with world := (env.hook io.world command).2 }.record (.hook command)

def finish (env : Env W) (io : Io W) (run : Run) : Io W × CompletedRun :=
  let elapsed := env.now io.world - run.started
  let io := runTerminalHook env io run.metadata run.outcome
  (io.emit (.finished run.metadata.runId run.supersededBy elapsed run.outcome.failures),
    { results := run.results
      elapsed
      outcome := run.outcome
      tasks := run.taskSnapshots.insertionSort fun a b => a.position ≤ b.position })

/-- Cancellation on a container of started tasks: stop each child and report the task cancelled.
    `drop` removes the head of the container the tasks live in. -/
def cancelStarted (env : Env W) (drop : Run → List ActiveTask → Run) :
    List ActiveTask → Io W → Run → Bool → Io W × Run × Bool
  | [], io, run, escalated => (io, drop run [], escalated)
  | task :: rest, io, run, escalated =>
    let (io, task, killed) := shutdownTask env io task
    let (io, run) := recordTaskSnapshot io (drop run rest) task.position task.name
      task.groupOccurrence .cancelled (elapsedMs env io task.started)
    cancelStarted env drop rest io run (escalated || killed)

/-- Cancellation of tasks that never started. -/
def cancelUnstarted : List TaskPlan → Io W → Run → Io W × Run
  | [], io, run => (io, run)
  | task :: rest, io, run =>
    let (io, run) := recordTaskSnapshot io run task.position task.name task.groupOccurrence
      .cancelled none
    cancelUnstarted rest io run

inductive CancelDisposition where | graceful | escalated
  deriving DecidableEq

/-- Cancels the run: every task it still holds is stopped and reported cancelled. -/
def cancel (env : Env W) (io : Io W) (run : Run) (supersededBy : Option Nat) :
    Io W × Run × CancelDisposition :=
  let run := { run with supersededBy }
  let (io, run, escalated) :=
    cancelStarted env (fun run active => { run with active }) run.active io run false
  let (io, run, escalated) :=
    cancelStarted env (fun run services => { run with services }) run.services io run escalated
  let (io, run, escalated) :=
    cancelStarted env (fun run pendingRecoveries => { run with pendingRecoveries })
      run.pendingRecoveries io run escalated
  let (io, run) := cancelUnstarted run.queued io { run with queued := [] }
  let (io, run) := cancelUnstarted (run.stages.flatMap stageTasks) io { run with stages := [] }
  (io.emit (.cancelled run.metadata.runId supersededBy), run,
    if escalated then .escalated else .graceful)

/-! ### Reload operations on a running generation -/

/-- Appends a plan's stages to a running generation. -/
def appendPlan (run : Run) (plan : RunPlan) : Run :=
  { run with stages := run.stages ++ plan.stages }

/-- The loop of `reconcile_services` with `kept` already passed: a named service is stopped and
    its outcome recorded, the others stay. -/
def reconcileFrom (env : Env W) (stopNames : List String) (kept : List ActiveTask) :
    List ActiveTask → Io W → Run → Io W × Run
  | [], io, run => (io, run)
  | service :: rest, io, run =>
    if stopNames.contains service.name then
      let (io, removed, _) := shutdownTask env io service
      reconcileFrom env stopNames kept rest io
        (({ run with services := kept ++ rest }).pushOutcome removed.position removed.name
          removed.groupOccurrence .cancelled)
    else reconcileFrom env stopNames (kept ++ [service]) rest io run

/-- Stops the named background services and returns the names still running. -/
def reconcileServices (env : Env W) (io : Io W) (run : Run) (stopNames : List String) :
    Io W × Run × List String :=
  let (io, run) := reconcileFrom env stopNames [] run.services io run
  (io, run, run.services.map (·.name))

/-! ### Sessions -/

/-- What the owner of a running generation can ask of the executor. -/
inductive Op where
  | advance (polls : Nat)
  | append (plan : RunPlan)
  | reconcile (stopNames : List String)

/-- A generation between two calls of its owner: how its last `advance` ended, if it made one. -/
structure Session (W : Type) where
  io : Io W
  run : Run
  progress : Option Progress := none

def Session.start (env : Env W) (world : W) (metadata : RunMetadata) (plan : RunPlan) : Session W :=
  let (io, run) := Funzzy.start env { world } metadata plan
  { io, run }

/-- The owner may call again until the run has finished or a call does not return. -/
def Session.open (s : Session W) : Bool :=
  s.progress = none || s.progress = some (.returned .running)

def Session.apply (ex : Executor) (env : Env W) (s : Session W) : Op → Session W
  | .advance polls =>
    let (io, run, progress) := Funzzy.advance ex env polls s.io s.run
    { io, run, progress := some progress }
  | .append plan => { s with run := appendPlan s.run plan }
  | .reconcile stopNames =>
    let (io, run, _) := reconcileServices env s.io s.run stopNames
    { s with io, run }

/-- The session after a sequence of calls; calls on a run that has ended do nothing. -/
def Session.after (ex : Executor) (env : Env W) : Session W → List Op → Session W
  | s, [] => s
  | s, op :: ops => Session.after ex env (if s.open then s.apply ex env op else s) ops

end Funzzy
