import Funzzy.Executor.TaskMoves

/-! The moves of a whole run.

    A `View` is a run together with what the recovery pass has taken out of it, the token and the
    trace. `Move` lists everything the executor can do to it in one atomic step, with the conditions
    under which it does it: opening a stage needs the previous one drained and its recoveries
    resolved, a slot is filled only below the stage limit, other work is stopped only after a failure,
    a recovery starts only after an approval. Invariants of a run are proved move by move. The owner's
    reload operations are not moves: sessions treat them next to `advance`. -/

namespace Funzzy

/-- The identity a task is reported under. -/
structure JobId where
  position : Nat
  name : String
  groupOccurrence : Option String
  deriving DecidableEq

def ActiveTask.job (task : ActiveTask) : JobId :=
  ⟨task.position, task.name, task.groupOccurrence⟩

def TaskPlan.job (task : TaskPlan) : JobId := ⟨task.position, task.name, task.groupOccurrence⟩

def JobId.snapshot (job : JobId) (state : TaskState) (durationMs : Option Nat) : TaskSnapshot :=
  { position := job.position, id := job.groupOccurrence.getD job.name, name := job.name, state
    durationMs }

def JobId.entry (job : JobId) (outcome : TaskOutcome) : Nat × String × Option String × TaskOutcome :=
  (job.position, job.name, job.groupOccurrence, outcome)

/-- The run with one terminal snapshot more. -/
def Run.snapshotted (run : Run) (snapshot : TaskSnapshot) : Run :=
  { run with taskSnapshots := run.taskSnapshots ++ [snapshot] }

/-- The run with one terminal snapshot and one outcome more. -/
def Run.reported (run : Run) (job : JobId) (state : TaskState) (durationMs : Option Nat)
    (outcome : TaskOutcome) : Run :=
  { run.snapshotted (job.snapshot state durationMs) with
    outcomes := run.outcomes ++ [job.entry outcome] }

def Run.terminal (run : Run) (snapshot : TaskSnapshot) : Effect :=
  .event (.taskTerminal run.metadata.runId snapshot)

/-- The announcement of a verification's result. -/
def Run.verificationFinished (run : Run) (task : ActiveTask) : Effect :=
  .event (.recoveryPhase run.metadata.runId task.name "verification_finished"
    (some (if task.failures = [] then "passed" else "failed")))

/-- The announcement that a job's recovery starts. -/
def Run.recoveryStarted (run : Run) (task : ActiveTask) : Effect :=
  .event (.recoveryPhase run.metadata.runId task.name "recovery_started" none)

/-- The last decision of the approval port in a trace. -/
def lastDecision (trace : List Effect) : Option ApprovalDecision :=
  (trace.filterMap fun | .decided decision => some decision | _ => none).getLast?

@[simp] theorem lastDecision_event (trace : List Effect) (event : Event) :
    lastDecision (trace ++ [.event event]) = lastDecision trace := by
  simp [lastDecision]

/-- A job taken out of the pending recoveries: the pass it is in, and its original failures. -/
structure Recovering where
  phase : Phase
  task : ActiveTask
  originalFailures : List String
  deriving DecidableEq

structure View where
  run : Run
  recovering : Option Recovering := none
  token : Bool
  trace : List Effect

def view {W : Type} (io : Io W) (run : Run) : View := { run, token := io.token, trace := io.trace }

/-- Stopping a task leaves a kill in the trace exactly when it had a child. -/
def ActiveTask.killEffects (task : ActiveTask) : List Effect :=
  if task.child then [.killed task.position task.service] else []

/-- The task after `shutdown_task`. -/
def ActiveTask.stopped (task : ActiveTask) : ActiveTask :=
  { task with child := false, commands := [] }

/-- No task of the current stage is left to run. -/
def Run.Drained (run : Run) : Prop := run.active = [] ∧ run.queued = []

/-- Some job has failed: it is recorded so, or its recovery is still to be resolved. -/
def Run.Failing (run : Run) : Prop :=
  (∃ job failures, failures ≠ [] ∧ JobId.entry job (.failed failures) ∈ run.outcomes) ∨
    run.pendingRecoveries ≠ []

/-- A limit `advance` may choose for a stage: one for a serial task, else a positive bound cut to
    the number of tasks. -/
def Run.AdmitsLimit (run : Run) : Stage → Nat → Prop
  | .serial _, limit => limit = 1
  | .parallel _ tasks, limit =>
    ∃ bound, 0 < bound ∧ limit = min (run.metadata.effectiveConcurrency.getD bound) tasks.length

theorem ActiveTask.verdict_of_passed {task : ActiveTask} (h : task.failures = []) :
    task.verdict = (.passed, .passed) := if_pos h

theorem ActiveTask.verdict_of_failed {task : ActiveTask} (h : task.failures ≠ []) :
    task.verdict = (.failed, .failed task.failures) := if_neg h

/-- The results and outcome of a job whose last pass ended with `task.failures`. -/
def ActiveTask.result (task : ActiveTask) (fallback : String) : Except String Unit :=
  if task.failures = [] then .ok () else .error (task.failures.getLast?.getD fallback)

/-- One poll of a background service: it stays, changed, or leaves with a report. -/
inductive ServiceMove : ActiveTask → List Effect → Option ActiveTask → Results → TaskState →
    TaskOutcome → Prop
  | spawned (s : ActiveTask) (command : CommandLine) (rest : List CommandLine) (now : Nat) :
      s.child = false → s.commands = command :: rest →
      ServiceMove s [.spawned ((s.take command rest).proc .original) command]
        (some { s.take command rest with child := true, started := s.started.or (some now) })
        [] .passed .passed
  | spawnFailed (s : ActiveTask) (command : CommandLine) (rest : List CommandLine)
      (error failure : String) : s.child = false → s.commands = command :: rest →
      ServiceMove s [.spawnFailed ((s.take command rest).proc .original) command error] none
        [.error failure] .failed (.failed (s.failures ++ [failure]))
  | restarted (s : ActiveTask) (status : ExitStatus) : s.child = true → status.success = false →
      0 < s.serviceRestartsLeft →
      ServiceMove s [.exited (s.proc .original) status]
        (some (s.reaped.requeued s.currentCommand)) [] .passed .passed
  | stopped (s : ActiveTask) (status : ExitStatus) : s.child = true → status.success = true →
      ServiceMove s [.exited (s.proc .original) status] none [] .passed .passed
  | exhausted (s : ActiveTask) (status : ExitStatus) (failure : String) : s.child = true →
      status.success = false →
      ServiceMove s [.exited (s.proc .original) status] none [.error failure] .failed
        (.failed (s.failures ++ [failure]))

inductive Move (failFast : Bool) : View → View → Prop
  -- the stage loop
  | begin (v : View) (stage : Stage) (rest : List Stage) (limit : Nat) : v.run.Drained →
      v.run.pendingRecoveries = [] → v.recovering = none → v.token = false →
      v.run.stages = stage :: rest → v.run.AdmitsLimit stage limit →
      Move failFast v
        { v with
          run := { v.run with
            stages := rest, queued := v.run.queued ++ stageTasks stage, stageLimit := limit }
          trace := v.trace ++ [.stage (stageTasks stage) limit] }
  | fill (v : View) (task : TaskPlan) (rest : List TaskPlan) : v.run.queued = task :: rest →
      v.run.active.length < v.run.stageLimit →
      Move failFast v
        { v with run := { v.run with queued := rest, active := v.run.active ++ [.ofPlan task] } }
  | task (v : View) (seen rest : List ActiveTask) (t t' : ActiveTask) (results : Results)
      (trace : List Effect) : v.run.active = seen ++ t :: rest → v.recovering = none →
      t.Admissible .original failFast →
      TaskMove .original ⟨t, v.run.results, v.trace⟩ ⟨t', results, trace⟩ →
      Move failFast v
        { v with run := { v.run with results, active := seen ++ t' :: rest }, trace }
  | park (v : View) (seen rest : List ActiveTask) (t : ActiveTask) :
      v.run.active = seen ++ t :: rest → t.service = true → t.child = true →
      Move failFast v
        { v with
          run := { v.run with active := seen ++ rest, services := v.run.services ++ [t] } }
  | record (v : View) (seen rest : List ActiveTask) (t : ActiveTask) (durationMs : Option Nat) :
      v.run.active = seen ++ t :: rest → t.child = false →
      (t.commands = [] ∨ t.service = true ∨ (t.failures ≠ [] ∧ failFast = true)) →
      ¬(t.failures ≠ [] ∧ t.recoveryCommands.isSome = true) →
      (t.failures = [] → t.commands = []) →
      Move failFast v
        { v with
          run := { v.run with active := seen ++ rest }.reported t.job t.verdict.1 durationMs
            t.verdict.2
          trace := v.trace ++ [v.run.terminal (t.job.snapshot t.verdict.1 durationMs)] }
  | defer (v : View) (seen rest : List ActiveTask) (t : ActiveTask) :
      v.run.active = seen ++ t :: rest → t.child = false → t.failures ≠ [] →
      t.recoveryCommands.isSome = true →
      Move failFast v
        { v with
          run := { v.run with
            active := seen ++ rest, pendingRecoveries := v.run.pendingRecoveries ++ [t] }
          trace := v.trace ++ [.event (.recoveryPhase v.run.metadata.runId t.name
            "original_failed" none)] }
  -- fail-fast
  | stop (v : View) (t : ActiveTask) (rest : List ActiveTask) (durationMs : Option Nat) :
      failFast = true → v.run.Failing → v.run.active = t :: rest →
      Move failFast v
        { v with
          run := { v.run with active := rest }.reported t.job .cancelled durationMs .cancelled
          trace := v.trace ++ t.killEffects
            ++ [v.run.terminal (t.job.snapshot .cancelled durationMs)] }
  | skipQueued (v : View) : failFast = true → v.run.Failing → v.run.active = [] →
      Move failFast v
        { v with
          run := { v.run with
            queued := []
            taskSnapshots := v.run.taskSnapshots
              ++ v.run.queued.map fun t => t.job.snapshot .cancelled none
            outcomes := v.run.outcomes ++ v.run.queued.map fun t => t.job.entry .skipped }
          trace := v.trace
            ++ v.run.queued.map fun t => v.run.terminal (t.job.snapshot .cancelled none) }
  | skipStages (v : View) : failFast = true → v.run.Failing → v.run.Drained →
      Move failFast v
        { v with
          run := { v.run with
            stages := []
            taskSnapshots := v.run.taskSnapshots
              ++ (v.run.stages.flatMap stageTasks).map fun t => t.job.snapshot .cancelled none
            outcomes := v.run.outcomes
              ++ (v.run.stages.flatMap stageTasks).map fun t => t.job.entry .skipped }
          trace := v.trace ++ (v.run.stages.flatMap stageTasks).map fun t =>
            v.run.terminal (t.job.snapshot .cancelled none) }
  -- background services
  | service (v : View) (kept rest : List ActiveTask) (s s' : ActiveTask) (effects : List Effect)
      (results : Results) (state : TaskState) (outcome : TaskOutcome) :
      v.run.services = kept ++ s :: rest → v.recovering = none →
      ServiceMove s effects (some s') results state outcome →
      Move failFast v
        { v with
          run := { v.run with services := kept ++ s' :: rest }
          trace := v.trace ++ effects }
  | serviceLeft (v : View) (kept rest : List ActiveTask) (s : ActiveTask) (effects : List Effect)
      (results : Results) (state : TaskState) (outcome : TaskOutcome) (durationMs : Option Nat) :
      v.run.services = kept ++ s :: rest → v.recovering = none →
      ServiceMove s effects none results state outcome →
      Move failFast v
        { v with
          run := { v.run with
            services := kept ++ rest, results := v.run.results ++ results }.reported s.job state
              durationMs outcome
          trace := v.trace ++ effects ++ [v.run.terminal (s.job.snapshot state durationMs)] }
  -- recovery
  | sort (v : View) (pending : List ActiveTask) : pending.Perm v.run.pendingRecoveries →
      Move failFast v { v with run := { v.run with pendingRecoveries := pending } }
  | note (v : View) (job phase : String) (outcome : Option String) :
      Move failFast v
        { v with
          trace := v.trace ++ [.event (.recoveryPhase v.run.metadata.runId job phase outcome)] }
  | signal (v : View) : Move failFast v { v with token := true }
  | ask (v : View) : v.run.Drained → v.recovering = none → v.token = false →
      v.run.metadata.recoveryPolicy = .prompt → v.run.pendingRecoveries ≠ [] →
      Move failFast v
        { v with
          trace := v.trace ++ [.asked (v.run.pendingRecoveries.map (·.recoveryRequest v.run))] }
  | decide (v : View) (decision : ApprovalDecision) : v.recovering = none →
      Move failFast v { v with trace := v.trace ++ [.decided decision] }
  | keep (v : View) (t : ActiveTask) (rest : List ActiveTask) (durationMs : Option Nat) :
      v.run.Drained → v.recovering = none → v.token = false →
      v.run.pendingRecoveries = t :: rest → t.failures ≠ [] →
      Move failFast v
        { v with
          run := { v.run with
            pendingRecoveries := rest
            results := v.run.results ++ [Except.error t.firstFailure] }.reported t.job t.verdict.1
              durationMs t.verdict.2
          trace := v.trace ++ [v.run.terminal (t.job.snapshot t.verdict.1 durationMs)] }
  | recover (v : View) (t : ActiveTask) (rest : List ActiveTask) (commands : List CommandLine) :
      v.run.Drained → v.recovering = none → v.token = false →
      v.run.metadata.recoveryPolicy = .prompt → lastDecision v.trace = some .approved →
      v.run.pendingRecoveries = t :: rest → t.recoveryCommands = some commands →
      Move failFast v
        { v with
          run := { v.run with pendingRecoveries := rest }
          recovering := some
            ⟨.recovery, { t with recoveryCommands := none }.restart commands, t.failures⟩
          trace := v.trace ++ [v.run.recoveryStarted t] }
  | recovering (v : View) (r : Recovering) (t' : ActiveTask) (results results' : Results)
      (trace : List Effect) : v.recovering = some r → r.task.Admissible r.phase true →
      TaskMove r.phase ⟨r.task, results, v.trace⟩ ⟨t', results', trace⟩ →
      Move failFast v { v with recovering := some { r with task := t' }, trace }
  | recoveryFailed (v : View) (t : ActiveTask) (original : List String) (failure : String)
      (durationMs : Option Nat) : v.recovering = some ⟨.recovery, t, original⟩ →
      t.child = false → t.failures ≠ [] →
      Move failFast v
        { v with
          recovering := none
          run := { v.run with results := v.run.results ++ [Except.error failure] }.reported t.job .failed
            durationMs (.failed (original ++ t.failures))
          trace := v.trace ++ [v.run.terminal (t.job.snapshot .failed durationMs)] }
  | verify (v : View) (t : ActiveTask) (original : List String) :
      v.recovering = some ⟨.recovery, t, original⟩ → t.child = false → t.failures = [] →
      Move failFast v
        { v with recovering := some ⟨.verification, t.restart t.originalCommands, original⟩ }
  | verified (v : View) (t : ActiveTask) (original : List String) (fallback : String)
      (durationMs : Option Nat) : v.recovering = some ⟨.verification, t, original⟩ →
      t.child = false → (t.failures = [] → t.commands = [] ∨ t.service = true) →
      Move failFast v
        { v with
          recovering := none
          run := { v.run with results := v.run.results ++ [t.result fallback] }.reported t.job
            t.verdict.1 durationMs t.verdict.2
          trace := v.trace ++ [v.run.verificationFinished t,
            v.run.terminal (t.job.snapshot t.verdict.1 durationMs)] }
  | interrupt (v : View) (r : Recovering) : v.recovering = some r → v.token = true →
      Move failFast v
        { v with
          recovering := none
          run := { v.run with
            pendingRecoveries := r.task.stopped :: v.run.pendingRecoveries }
          trace := v.trace ++ r.task.killEffects }

/-- Finite sequences of moves. -/
abbrev Moves (failFast : Bool) : View → View → Prop := Relation.ReflTransGen (Move failFast)

/-- Invariant rule: what every move preserves, every sequence of moves preserves. -/
theorem Moves.invariant {failFast : Bool} {P : View → Prop}
    (hstep : ∀ v v', Move failFast v v' → P v → P v') {v v' : View} (h : Moves failFast v v')
    (hv : P v) : P v' := by
  induction h with
  | refl => exact hv
  | tail _ hmove ih => exact hstep _ _ hmove ih

/-! ### Moves extend the trace -/

theorem TaskMove.trace_extends {phase : Phase} {w w' : Work} (h : TaskMove phase w w') :
    ∃ effects, w'.trace = w.trace ++ effects := by
  cases h with
  | validate => exact ⟨[], (List.append_nil _).symm⟩
  | _ => exact ⟨_, rfl⟩

theorem Move.trace_extends {failFast : Bool} {v v' : View} (h : Move failFast v v') :
    ∃ effects, v'.trace = v.trace ++ effects := by
  cases h with
  | task seen rest t t' results trace _ _ _ hmove => exact hmove.trace_extends
  | recovering r t' results results' trace _ _ hmove => exact hmove.trace_extends
  | fill | park | sort | signal | verify => exact ⟨[], (List.append_nil _).symm⟩
  | stop => exact ⟨_, List.append_assoc _ _ _⟩
  | serviceLeft => exact ⟨_, List.append_assoc _ _ _⟩
  | _ => exact ⟨_, rfl⟩

theorem Move.metadata_eq {failFast : Bool} {v v' : View} (h : Move failFast v v') :
    v'.run.metadata = v.run.metadata := by
  cases h <;> rfl

end Funzzy
