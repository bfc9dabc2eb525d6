import Mathlib.Algebra.Order.Ring.Int
import Funzzy.Executor.Conservation

/-! Concurrency independence.

    A `Script` fixes what every command of a plan does: whether it starts and how it ends. An
    environment plays a script when all its answers come from it, and only the moments at which
    children end are left to the world. What a task will have failed with when it is done (its
    `prospect`) then does not depend on these moments, so neither does what the run will have recorded.
    An effort that every call of `advance` uses up shows that the run gets there. -/

namespace Funzzy

variable {W : Type}

/-! ### Scripts -/

/-- What the commands of a plan do, by the position of their task and their number in it: whether the
    working directory is found, whether the command starts, and how its child ends. -/
structure Script where
  isDir : Nat → Bool
  spawn : Nat → Nat → Except String Unit
  exit : Nat → Nat → Except String ExitStatus

/-- The environment answers by the script. When a child ends is up to the world; `patience` bounds
    how many more polls can find a child running. -/
structure Env.Plays (env : Env W) (script : Script) (patience : W → Nat) : Prop where
  isDir_eq : ∀ w task cwd, env.isDir w task cwd = script.isDir task.position
  spawn_eq : ∀ w task command,
    (env.spawn w task command).1 = script.spawn task.position task.ordinal
  exit_eq : ∀ w task, (env.tryWait w task).1 = .ok none ∨
    (env.tryWait w task).1 = (script.exit task.position task.ordinal).map some
  uncancelled : ∀ w, (env.signal w).1 = false
  waits : ∀ w task, (env.tryWait w task).1 = .ok none →
    patience (env.tryWait w task).2 < patience w
  polls_le : ∀ w task, patience (env.tryWait w task).2 ≤ patience w
  spawns_le : ∀ w task command, patience (env.spawn w task command).2 ≤ patience w
  signals_le : ∀ w, patience (env.signal w).2 ≤ patience w

/-- What a command that has started leaves among its task's failures. -/
def Script.exitFailures (script : Script) (position ordinal : Nat) (display : String) :
    List String :=
  match script.exit position ordinal with
  | .error error => ["Command " ++ display ++ " has errored with " ++ error]
  | .ok status =>
    if status.success then []
    else ["Command " ++ display ++ " has failed with " ++ status.text]

/-- What the last commands of a task with `total` commands leave among its failures. -/
def Script.commandFailures (script : Script) (position total : Nat) :
    List CommandLine → List String
  | [] => []
  | command :: rest =>
    (match script.spawn position (total - rest.length) with
      | .error error => ["Command " ++ command.display ++ " failed to start: " ++ error]
      | .ok _ => script.exitFailures position (total - rest.length) command.display)
      ++ script.commandFailures position total rest

/-- The failures of a task whose directory is found once its child and its commands are done. -/
def ActiveTask.commandProspect (script : Script) (t : ActiveTask) : List String :=
  t.failures
    ++ (if t.child then script.exitFailures t.position t.ordinal (t.currentCommand.getD "") else [])
    ++ script.commandFailures t.position t.commandTotal t.commands

/-- The failures of a task once it is done. -/
def ActiveTask.prospect (script : Script) (t : ActiveTask) : List String :=
  match t.context.cwd, t.contextValidated with
  | some cwd, false =>
    if script.isDir t.position then t.commandProspect script
    else t.failures ++ ["Task '" ++ t.name ++ "' cwd is missing or not a directory: " ++ cwd]
  | _, _ => t.commandProspect script

theorem ActiveTask.prospect_of_validated {script : Script} {t : ActiveTask}
    (h : t.contextValidated = true) : t.prospect script = t.commandProspect script := by
  unfold ActiveTask.prospect
  cases t.context.cwd <;> simp [h]

/-! ### One task under a script -/

/-- Commands still to run, and one more step to be done. -/
def ActiveTask.weight (t : ActiveTask) : Nat :=
  2 * t.commands.length + (if t.child then 1 else 0) + 1

/-- A finite task without a recovery block, whose first spawn comes after its directory check. -/
structure ActiveTask.Plain (t : ActiveTask) : Prop where
  finite : t.service = false
  unrecoverable : t.recoveryCommands = none
  fresh : t.contextValidated = false → t.child = false

/-- From `io` and `t` the executor got to `io'` and `t'`, with the same end in prospect and no more
    to do than before. -/
structure Onward (script : Script) (patience : W → Nat) (io : Io W) (t : ActiveTask) (io' : Io W)
    (t' : ActiveTask) : Prop where
  job_eq : t'.job = t.job
  finite : t'.service = t.service
  unrecoverable : t'.recoveryCommands = t.recoveryCommands
  prospect_eq : t'.prospect script = t.prospect script
  token_eq : io'.token = io.token
  patience_le : patience io'.world ≤ patience io.world
  weight_le : t'.weight ≤ t.weight

theorem Onward.trans {script : Script} {patience : W → Nat} {io io₁ io₂ : Io W}
    {t t₁ t₂ : ActiveTask} (h : Onward script patience io t io₁ t₁)
    (h' : Onward script patience io₁ t₁ io₂ t₂) : Onward script patience io t io₂ t₂ where
  job_eq := h'.job_eq.trans h.job_eq
  finite := h'.finite.trans h.finite
  unrecoverable := h'.unrecoverable.trans h.unrecoverable
  prospect_eq := h'.prospect_eq.trans h.prospect_eq
  token_eq := h'.token_eq.trans h.token_eq
  patience_le := h'.patience_le.trans h.patience_le
  weight_le := h'.weight_le.trans h.weight_le

/-- What a step value promises about the task after a call: a running one has used up something, a
    finished one has exactly the failures it had in prospect. -/
def TaskStep.Played (patience : W → Nat) (io : Io W) (t : ActiveTask) (io' : Io W)
    (t' : ActiveTask) (failures : List String) : TaskStep → Prop
  | .running => patience io'.world + t'.weight < patience io.world + t.weight
  | .finished => t'.failures = failures
  | .failedFast => False

/-- A result of `advance_task` under a script. -/
structure Played (script : Script) (patience : W → Nat) (io : Io W) (t : ActiveTask)
    (r : Io W × ActiveTask × Results × TaskStep) : Prop where
  onward : Onward script patience io t r.1 r.2.1
  validated : r.2.1.contextValidated = true
  step : r.2.2.2.Played patience io t r.1 r.2.1 (t.prospect script)

theorem Played.before {script : Script} {patience : W → Nat} {io io₁ : Io W} {t t₁ : ActiveTask}
    {r : Io W × ActiveTask × Results × TaskStep} (hr : Played script patience io₁ t₁ r)
    (h : Onward script patience io t io₁ t₁) : Played script patience io t r where
  onward := h.trans hr.onward
  validated := hr.validated
  step := by
    obtain ⟨io', t', results, step⟩ := r
    have hstep := hr.step
    cases step with
    | running =>
      have hpatience := h.patience_le
      have hweight := h.weight_le
      simp only [TaskStep.Played] at hstep ⊢
      omega
    | finished => exact hstep.trans h.prospect_eq
    | failedFast => exact hstep

section Task

variable {env : Env W} {script : Script} {patience : W → Nat}

/-- The next commands under a script: those that fail to start are passed over. -/
theorem spawnCommands_played (hplays : env.Plays script patience) (phase : Phase) :
    ∀ (commands : List CommandLine) (io : Io W) (task : ActiveTask) (results : Results),
      task.commands = commands → task.child = false → task.contextValidated = true →
      Played script patience io task (spawnCommands env phase false commands io task results)
  | [], io, task, results, hcommands, hchild, hvalid => by
    rw [spawnCommands]
    have hsame : { task with commands := [] } = task := by cases task; simp_all
    rw [hsame]
    refine ⟨⟨rfl, rfl, rfl, rfl, rfl, le_rfl, le_rfl⟩, hvalid, ?_⟩
    have hend : task.prospect script = task.failures := by
      rw [ActiveTask.prospect_of_validated hvalid]
      simp [ActiveTask.commandProspect, hchild, hcommands, Script.commandFailures]
    exact hend.symm
  | command :: rest, io, task, results, hcommands, hchild, hvalid => by
    rw [spawnCommands]
    have hanswer := hplays.spawn_eq io.world (task.take command rest) command
    have hpatience := hplays.spawns_le io.world (task.take command rest) command
    have hordinal : (task.take command rest).ordinal = task.commandTotal - rest.length := rfl
    have hend : task.prospect script = task.failures
        ++ script.commandFailures task.position task.commandTotal (command :: rest) := by
      rw [ActiveTask.prospect_of_validated hvalid]
      simp [ActiveTask.commandProspect, hchild, hcommands]
    have hweight : task.weight = 2 * rest.length + 3 := by
      simp [ActiveTask.weight, hchild, hcommands]
      omega
    rcases hr : env.spawn io.world (task.take command rest) command with ⟨error | _, world⟩
    · -- the command failed to start: its failure joins the others
      have hscript : script.spawn task.position (task.commandTotal - rest.length) = .error error := by
        rw [← hordinal]; exact (hanswer.symm.trans (congrArg Prod.fst hr))
      have hpatience' : patience world ≤ patience io.world := by simpa [hr] using hpatience
      dsimp only
      rw [if_neg Bool.false_ne_true]
      have hrest := spawnCommands_played hplays phase rest
        ({ io with world }.record (.spawnFailed ((task.take command rest).proc phase) command error))
        ((task.take command rest).reaped.fail
          ("Command " ++ command.display ++ " failed to start: " ++ error))
        (pushFailure (task.take command rest) results
          ("Command " ++ command.display ++ " failed to start: " ++ error)) rfl rfl hvalid
      refine hrest.before ⟨rfl, rfl, rfl, ?_, rfl, hpatience', ?_⟩
      · rw [hend, Script.commandFailures, hscript, ActiveTask.prospect_of_validated]
        · simp [ActiveTask.commandProspect, ActiveTask.fail, ActiveTask.reaped, ActiveTask.take]
        · exact hvalid
      · rw [hweight]
        simp [ActiveTask.weight, ActiveTask.fail, ActiveTask.reaped, ActiveTask.take]
    · have hscript : script.spawn task.position (task.commandTotal - rest.length) = .ok () := by
        rw [← hordinal]; exact (hanswer.symm.trans (congrArg Prod.fst hr))
      have hpatience' : patience world ≤ patience io.world := by simpa [hr] using hpatience
      have hlaunched : ((task.take command rest).launched (env.now world)).weight
          = 2 * rest.length + 2 := by
        simp [ActiveTask.weight, ActiveTask.launched, ActiveTask.take]
      dsimp only
      refine ⟨⟨rfl, rfl, rfl, ?_, rfl, hpatience', hlaunched.le.trans (by omega)⟩, hvalid, ?_⟩
      · rw [hend, Script.commandFailures, hscript, ActiveTask.prospect_of_validated]
        · simp [ActiveTask.commandProspect, ActiveTask.launched, ActiveTask.take, ActiveTask.ordinal]
        · exact hvalid
      · change patience world + ((task.take command rest).launched (env.now world)).weight
          < patience io.world + task.weight
        omega

/-- A task without a child goes on with its next command. -/
theorem next_played (hplays : env.Plays script patience) (phase : Phase) {io io₁ : Io W}
    {task task₁ : ActiveTask} (results : Results) (hchild : task₁.child = false)
    (hvalid : task₁.contextValidated = true) (h : Onward script patience io task io₁ task₁) :
    Played script patience io task
      (spawnCommands env phase false task₁.commands io₁ task₁ results) :=
  (spawnCommands_played hplays phase _ io₁ task₁ results rfl hchild hvalid).before h

/-- A child that is gone leaves its failures, if any, where they were in prospect. -/
theorem reaped_onward {io : Io W} {world : W} {task : ActiveTask} (effect : Effect)
    (failures : List String) (hchild : task.child = true) (hvalid : task.contextValidated = true)
    (hexit : script.exitFailures task.position task.ordinal (task.currentCommand.getD "") = failures)
    (hpatience : patience world ≤ patience io.world) :
    Onward script patience io task ({ io with world }.record effect)
      { task.reaped with failures := task.failures ++ failures } := by
  refine ⟨rfl, rfl, rfl, ?_, rfl, hpatience, ?_⟩
  · rw [ActiveTask.prospect_of_validated hvalid, ActiveTask.prospect_of_validated]
    · simp [ActiveTask.commandProspect, ActiveTask.reaped, hchild, hexit]
    · exact hvalid
  · simp [ActiveTask.weight, ActiveTask.reaped]

theorem childExited_played (hplays : env.Plays script patience) (phase : Phase) {io : Io W}
    {world : W} (task : ActiveTask) (results : Results) (status : ExitStatus)
    (hfinite : task.service = false) (hchild : task.child = true)
    (hvalid : task.contextValidated = true)
    (hscript : script.exit task.position task.ordinal = .ok status)
    (hpatience : patience world ≤ patience io.world) :
    Played script patience io task
      (childExited env phase false { io with world } task results status) := by
  have hsame : task.reaped.service = task.service := rfl
  unfold childExited
  simp only [hsame, hfinite, Bool.false_eq_true, if_false]
  by_cases hok : status.success = true
  · rw [if_pos hok]
    have honward : Onward script patience io task _ _ :=
      reaped_onward (.exited (task.proc phase) status) [] hchild hvalid
        (by simp [Script.exitFailures, hscript, hok]) hpatience
    rw [List.append_nil] at honward
    exact next_played hplays phase _ rfl hvalid honward
  · rw [if_neg hok]
    exact next_played hplays phase _ rfl hvalid
      (reaped_onward (.exited (task.proc phase) status) _ hchild hvalid
        (by simp [Script.exitFailures, hscript, hok]) hpatience)

theorem advanceCommands_played (hplays : env.Plays script patience) (phase : Phase) (io : Io W)
    (task : ActiveTask) (results : Results) (hfinite : task.service = false)
    (hvalid : task.contextValidated = true) :
    Played script patience io task (advanceCommands env phase false io task results) := by
  unfold advanceCommands
  by_cases hchild : task.child = true
  · rw [if_pos hchild]
    have hanswer := hplays.exit_eq io.world task
    have hpatience := hplays.polls_le io.world task
    have hwaits := hplays.waits io.world task
    rcases hr : env.tryWait io.world task with ⟨error | _ | status, world⟩ <;>
      rw [hr] at hanswer hpatience hwaits
    · have hscript : script.exit task.position task.ordinal = .error error := by
        rcases hexit : script.exit task.position task.ordinal with other | status <;>
          simp_all [Except.map]
      exact next_played hplays phase _ rfl hvalid
        (reaped_onward (.waitFailed (task.proc phase) error) _ hchild hvalid
          (by simp [Script.exitFailures, hscript]) hpatience)
    · have hless := hwaits rfl
      refine ⟨⟨rfl, rfl, rfl, rfl, rfl, hless.le, le_rfl⟩, hvalid, ?_⟩
      exact Nat.add_lt_add_right hless _
    · have hscript : script.exit task.position task.ordinal = .ok status := by
        rcases hexit : script.exit task.position task.ordinal with other | status <;>
          simp_all [Except.map]
      exact childExited_played hplays phase task results status hfinite hchild hvalid hscript
        hpatience
  · rw [if_neg hchild]
    exact spawnCommands_played hplays phase _ io task results rfl (by simpa using hchild) hvalid

/-- A call of `advance_task` under a script. -/
theorem advanceTask_played (hplays : env.Plays script patience) (phase : Phase) (io : Io W)
    (task : ActiveTask) (results : Results) (hplain : task.Plain) :
    Played script patience io task (advanceTask env phase false io task results) := by
  unfold advanceTask
  by_cases hvalid : task.contextValidated = true
  · rw [if_pos hvalid]
    exact advanceCommands_played hplays phase io task results hplain.finite hvalid
  · have hnew : task.contextValidated = false := by simpa using hvalid
    have hchild := hplain.fresh hnew
    have hgo := advanceCommands_played hplays phase io { task with contextValidated := true } results
      hplain.finite rfl
    rw [if_neg hvalid]
    rcases hcwd : task.context.cwd with _ | cwd <;> simp only [hcwd]
    · refine hgo.before ⟨rfl, rfl, rfl, ?_, rfl, le_rfl, le_rfl⟩
      simp [ActiveTask.prospect, hcwd, ActiveTask.commandProspect]; rfl
    · rw [hplays.isDir_eq]
      by_cases hdir : script.isDir task.position = true
      · rw [if_pos hdir]
        refine hgo.before ⟨rfl, rfl, rfl, ?_, rfl, le_rfl, le_rfl⟩
        simp [ActiveTask.prospect, hcwd, ActiveTask.commandProspect, hnew, hdir]; rfl
      · rw [if_neg hdir, if_neg Bool.false_ne_true]
        have hend : task.prospect script = task.failures ++
            ["Task '" ++ task.name ++ "' cwd is missing or not a directory: " ++ cwd] := by
          simp [ActiveTask.prospect, hcwd, hnew, hdir]
        refine ⟨⟨rfl, rfl, rfl, ?_, rfl, le_rfl, ?_⟩, rfl, ?_⟩
        · rw [hend, ActiveTask.prospect_of_validated]
          · simp [ActiveTask.commandProspect, ActiveTask.fail, hchild, Script.commandFailures]
          · rfl
        · simp [ActiveTask.weight, ActiveTask.fail, hchild]
        · exact hend.symm

end Task

/-! ### The whole run under a script -/

/-- The outcome a task reports with the given failures. -/
def TaskOutcome.ofFailures (failures : List String) : TaskOutcome :=
  if failures = [] then .passed else .failed failures

/-- What the run will have recorded for a task. -/
def ActiveTask.forecast (script : Script) (t : ActiveTask) :
    Nat × String × Option String × TaskOutcome :=
  t.job.entry (.ofFailures (t.prospect script))

def TaskPlan.forecast (script : Script) (t : TaskPlan) : Nat × String × Option String × TaskOutcome :=
  (ActiveTask.ofPlan t).forecast script

/-- Everything the run has recorded and will have recorded. -/
def Run.forecasts (script : Script) (run : Run) :
    List (Nat × String × Option String × TaskOutcome) :=
  run.outcomes ++ run.active.map (·.forecast script) ++ run.queued.map (·.forecast script)
    ++ (run.stages.flatMap stageTasks).map (·.forecast script)

/-- The identity and state a snapshot reports. -/
def TaskSnapshot.stated (s : TaskSnapshot) : Nat × String × String × TaskState :=
  (s.position, s.id, s.name, s.state)

/-- The identity and state that belong to a recorded outcome. -/
def statedEntry (entry : Nat × String × Option String × TaskOutcome) :
    Nat × String × String × TaskState :=
  (entry.1, entry.2.2.1.getD entry.2.1, entry.2.1,
    match entry.2.2.2 with
    | .passed => .passed
    | .failed _ => .failed
    | .cancelled | .skipped => .cancelled)

/-- A finite task of a plan without a recovery block. -/
def TaskPlan.Plain (t : TaskPlan) : Prop := t.service = false ∧ t.recoveryCommands = none

/-- A run under a script: its tasks are finite and without recovery, a stage with queued tasks has a
    slot, and what it has recorded and will have recorded is what the script says of the plan. -/
structure Run.Playing (script : Script) (tasks : List TaskPlan) (run : Run) : Prop where
  active : ∀ t ∈ run.active, t.Plain
  queued : ∀ t ∈ run.queued, t.Plain
  stages : ∀ t ∈ run.stages.flatMap stageTasks, t.Plain
  services : run.services = []
  pending : run.pendingRecoveries = []
  slots : run.queued ≠ [] → 0 < run.stageLimit
  limit : run.metadata.effectiveConcurrency ≠ some 0
  forecasts : (run.forecasts script).Perm (tasks.map (·.forecast script))
  stated : run.taskSnapshots.map (·.stated) = run.outcomes.map statedEntry

/-- What the run can still use up: polls that find a child running, commands, tasks and stages. -/
def Run.effort (patience : W → Nat) (io : Io W) (run : Run) : Nat :=
  patience io.world + (run.active.map (·.weight)).sum
    + (run.queued.map fun t => (ActiveTask.ofPlan t).weight).sum
    + ((run.stages.flatMap stageTasks).map fun t => (ActiveTask.ofPlan t).weight).sum
    + run.stages.length

theorem ActiveTask.ofPlan_plain {t : TaskPlan} (h : t.Plain) : (ActiveTask.ofPlan t).Plain :=
  ⟨h.1, h.2, fun _ => rfl⟩

theorem fillAvailableSlots_playing {script : Script} {tasks : List TaskPlan} (patience : W → Nat)
    (io : Io W) : ∀ (queued : List TaskPlan) (run : Run), run.queued = queued →
      run.Playing script tasks →
      let run' := fillAvailableSlots queued run
      run'.Playing script tasks ∧ run'.effort patience io = run.effort patience io ∧
        run'.stages = run.stages ∧ (run.queued ≠ [] ∨ run.active ≠ [] → run'.active ≠ [])
  | [], run, hqueued, h => by
    refine ⟨h, rfl, rfl, ?_⟩
    rintro (hne | hne)
    · exact absurd hqueued hne
    · exact hne
  | task :: rest, run, hqueued, h => by
    intro run'
    by_cases hslot : run.active.length < run.stageLimit
    · have hrun' : run' = fillAvailableSlots rest
          { run with queued := rest, active := run.active ++ [.ofPlan task] } := by
        simp only [run', fillAvailableSlots, if_pos hslot]
      have hplain := h.queued
      rw [hqueued] at hplain
      have hlimit : 0 < run.stageLimit := h.slots (by simp [hqueued])
      have hnext : { run with queued := rest, active := run.active ++ [ActiveTask.ofPlan task] }.Playing
          script tasks := by
        refine { h with active := ?_, queued := ?_, slots := fun _ => hlimit, forecasts := ?_ }
        · intro t ht
          rcases List.mem_append.mp ht with ht | ht
          · exact h.active t ht
          · rw [List.mem_singleton.mp ht]
            exact ActiveTask.ofPlan_plain (hplain task List.mem_cons_self)
        · exact fun t ht => hplain t (List.mem_cons_of_mem _ ht)
        · have hsame := h.forecasts
          simpa [Run.forecasts, hqueued, TaskPlan.forecast] using hsame
      obtain ⟨hplaying, heffort, hstages, hactive⟩ :=
        fillAvailableSlots_playing patience io rest _ rfl hnext
      rw [← hrun'] at hplaying heffort hstages hactive
      refine ⟨hplaying, heffort.trans ?_, hstages, fun _ => hactive (.inr (by simp))⟩
      simp [Run.effort, hqueued]
      omega
    · have hrun' : run' = run := by simp only [run', fillAvailableSlots, if_neg hslot]
      rw [hrun']
      refine ⟨h, rfl, rfl, fun _ hnone => ?_⟩
      have hlimit : 0 < run.stageLimit := h.slots (by simp [hqueued])
      rw [hnone] at hslot
      exact hslot hlimit

theorem beginStage_playing {script : Script} {tasks : List TaskPlan} (patience : W → Nat)
    (env : Env W) (io : Io W) {run : Run} (stage : Stage) (rest : List Stage)
    (h : run.Playing script tasks) (hstages : run.stages = stage :: rest)
    (hqueued : run.queued = []) :
    let r := beginStage env io run stage rest
    r.2.Playing script tasks ∧ r.2.effort patience r.1 < run.effort patience io ∧
      r.1.token = io.token := by
  have hplain := h.stages
  rw [hstages, List.flatMap_cons] at hplain
  refine ⟨{ h with queued := ?_, stages := ?_, slots := ?_, forecasts := ?_ }, ?_, rfl⟩
  · intro t ht
    change t ∈ run.queued ++ stageTasks stage at ht
    rw [hqueued, List.nil_append] at ht
    exact hplain t (List.mem_append_left _ ht)
  · exact fun t ht => hplain t (List.mem_append_right _ ht)
  · -- an empty group gets no slot, but then it queues nothing
    intro hne
    cases stage with
    | serial task => exact Nat.one_pos
    | parallel group members =>
      have hmembers : 0 < members.length := by
        refine List.length_pos_of_ne_nil fun hnil => hne ?_
        simp [beginStage, stageTasks, hqueued, hnil]
      have hbound : 0 < run.metadata.effectiveConcurrency.getD (env.concurrencyLimit io.world) := by
        rcases heff : run.metadata.effectiveConcurrency with _ | n
        · exact env.concurrencyLimit_pos io.world
        · have hzero := h.limit
          rw [heff] at hzero
          exact Nat.pos_of_ne_zero fun hn => hzero (congrArg some hn)
      exact lt_min hbound hmembers
  · have hsame := h.forecasts
    simpa [Run.forecasts, beginStage, hqueued, hstages] using hsame
  · simp [Run.effort, beginStage, hqueued, hstages, Io.record]
    omega

/-- Opening a stage and filling its slots leaves a task to poll, or has used up an empty stage. -/
theorem openStage_playing {script : Script} {tasks : List TaskPlan} (patience : W → Nat)
    (env : Env W) (io : Io W) {run : Run} (h : run.Playing script tasks)
    (hsome : ¬(run.active = [] ∧ run.queued = [] ∧ run.stages = [])) :
    let r := openStage env io run
    r.2.Playing script tasks ∧ r.2.effort patience r.1 ≤ run.effort patience io ∧
      r.1.token = io.token ∧ (r.2.active ≠ [] ∨ r.2.effort patience r.1 < run.effort patience io) := by
  have hfilled : ∀ (io₁ : Io W) (run₁ : Run), run₁.Playing script tasks →
      run₁.effort patience io₁ ≤ run.effort patience io →
      (run₁.queued ≠ [] ∨ run₁.active ≠ [] ∨ run₁.effort patience io₁ < run.effort patience io) →
      let run' := fillAvailableSlots run₁.queued run₁
      run'.Playing script tasks ∧ run'.effort patience io₁ ≤ run.effort patience io ∧
        (run'.active ≠ [] ∨ run'.effort patience io₁ < run.effort patience io) := by
    intro io₁ run₁ hplaying hle hgo run'
    obtain ⟨hplaying', heffort, -, hactive⟩ :=
      fillAvailableSlots_playing patience io₁ run₁.queued run₁ rfl hplaying
    refine ⟨hplaying', heffort.trans_le hle, ?_⟩
    rcases hgo with hgo | hgo | hgo
    · exact .inl (hactive (.inl hgo))
    · exact .inl (hactive (.inr hgo))
    · exact .inr (heffort.trans_lt hgo)
  unfold openStage
  rcases hstages : run.stages with _ | ⟨stage, rest⟩
  · have hgo : run.queued ≠ [] ∨ run.active ≠ [] := by
      by_contra hnone
      push Not at hnone
      exact hsome ⟨hnone.2, hnone.1, hstages⟩
    obtain ⟨hplaying, hle, hactive⟩ := hfilled io run h le_rfl (hgo.imp id .inl)
    exact ⟨hplaying, hle, rfl, hactive⟩
  · by_cases hdrained : run.active = [] ∧ run.queued = []
    · obtain ⟨hplaying, hless, htoken⟩ :=
        beginStage_playing patience env io stage rest h hstages hdrained.2
      simp only [if_pos hdrained]
      obtain ⟨hplaying', hle, hactive⟩ := hfilled _ _ hplaying hless.le (.inr (.inr hless))
      exact ⟨hplaying', hle, htoken, hactive⟩
    · have hgo : run.queued ≠ [] ∨ run.active ≠ [] := by
        by_contra hnone
        push Not at hnone
        exact hdrained ⟨hnone.2, hnone.1⟩
      simp only [if_neg hdrained]
      obtain ⟨hplaying, hle, hactive⟩ := hfilled io run h le_rfl (hgo.imp id .inl)
      exact ⟨hplaying, hle, trivial, hactive⟩

theorem statedEntry_forecast (job : JobId) (failures : List String) :
    statedEntry (job.entry (.ofFailures failures)) = (job.snapshot
      (if failures = [] then .passed else .failed) none).stated := by
  by_cases hf : failures = []
  · simp [statedEntry, JobId.entry, TaskOutcome.ofFailures, TaskSnapshot.stated, JobId.snapshot, hf]
  · simp [statedEntry, JobId.entry, TaskOutcome.ofFailures, TaskSnapshot.stated, JobId.snapshot, hf]

/-- A task that is done and has the failures it had in prospect is recorded as forecast. -/
theorem deferOrRecord_playing {script : Script} {tasks : List TaskPlan} (env : Env W) (io : Io W)
    {run : Run} {seen rest : List ActiveTask} {t t' : ActiveTask} (results : Results)
    (h : run.Playing script tasks) (hactive : run.active = seen ++ t :: rest)
    (hjob : t'.job = t.job) (hunrecoverable : t'.recoveryCommands = none)
    (hfailures : t'.failures = t.prospect script) :
    let r := deferOrRecord env io { run with results, active := seen ++ rest } t'
    r.2.Playing script tasks ∧ r.1.world = io.world ∧ r.1.token = io.token ∧
      r.2.active = seen ++ rest ∧ r.2.queued = run.queued ∧ r.2.stages = run.stages := by
  have hoption : ¬(t'.failures ≠ [] ∧ t'.recoveryCommands.isSome = true) := by
    simp [hunrecoverable]
  have hentry : (t'.position, t'.name, t'.groupOccurrence, t'.verdict.2) = t.forecast script := by
    change t'.job.entry t'.verdict.2 = _
    rw [hjob, ActiveTask.forecast, ← hfailures, ActiveTask.verdict, TaskOutcome.ofFailures]
    split <;> rfl
  unfold deferOrRecord
  rw [if_neg hoption]
  refine ⟨{ h with active := ?_, forecasts := ?_, stated := ?_ }, rfl, rfl, rfl, rfl, rfl⟩
  · intro u hu
    refine h.active u ?_
    rw [hactive]
    rcases List.mem_append.mp hu with hu | hu
    · exact List.mem_append_left _ hu
    · exact List.mem_append_right _ (List.mem_cons_of_mem _ hu)
  · refine List.Perm.trans ?_ h.forecasts
    simp only [Run.forecasts, recordTaskOutcome, recordTaskSnapshot, Run.pushOutcome, hactive, hentry,
      List.map_append, List.map_cons, List.append_assoc, List.cons_append, List.nil_append]
    exact List.Perm.append_left _ List.perm_middle.symm
  · have hstate : t'.verdict.1 = if t'.failures = [] then .passed else .failed := by
      rw [ActiveTask.verdict]; split <;> rfl
    simp only [recordTaskOutcome, recordTaskSnapshot, Run.pushOutcome, List.map_append, h.stated,
      List.map_singleton, hentry]
    rw [ActiveTask.forecast, statedEntry_forecast, ← hjob, ← hfailures, hstate]
    rfl

/-- A pass over the active tasks: nothing fails fast, and nothing grows. -/
structure Polled (script : Script) (patience : W → Nat) (tasks : List TaskPlan) (io : Io W)
    (run : Run) (r : Io W × Run × Scanned) : Prop where
  polled : ∃ finished, r.2.2 = .polled finished
  playing : r.2.1.Playing script tasks
  token_eq : r.1.token = io.token
  effort_le : r.2.1.effort patience r.1 ≤ run.effort patience io

/-- A task that is still running after its poll takes the place it had. -/
theorem Run.Playing.running {script : Script} {patience : W → Nat} {tasks : List TaskPlan}
    {io io₁ : Io W} {run : Run} {seen rest : List ActiveTask} {t t' : ActiveTask}
    (h : run.Playing script tasks) (results : Results) (hactive : run.active = seen ++ t :: rest)
    (honward : Onward script patience io t io₁ t') (hvalid : t'.contextValidated = true) :
    { run with results, active := seen ++ t' :: rest }.Playing script tasks := by
  have hplain := h.active t (by rw [hactive]; simp)
  refine { h with active := ?_, forecasts := ?_ }
  · intro u hu
    rcases List.mem_append.mp hu with hu | hu
    · exact h.active u (by rw [hactive]; exact List.mem_append_left _ hu)
    · rcases List.mem_cons.mp hu with rfl | hu
      · exact ⟨honward.finite.trans hplain.finite, honward.unrecoverable.trans hplain.unrecoverable,
          fun hnew => absurd hvalid (by simp [hnew])⟩
      · exact h.active u (by
          rw [hactive]; exact List.mem_append_right _ (List.mem_cons_of_mem _ hu))
  · have hsame : t'.forecast script = t.forecast script := by
      rw [ActiveTask.forecast, ActiveTask.forecast, honward.job_eq, honward.prospect_eq]
    have hforecasts := h.forecasts
    simpa [Run.forecasts, hactive, hsame] using hforecasts

/-- The pass over the active tasks uses something up if it polls a task at all. -/
theorem scanActive_polled {ex : LawfulExecutor} {env : Env W} {script : Script} {patience : W → Nat}
    {tasks : List TaskPlan} (hplays : env.Plays script patience) (hff : ex.failFast = false) :
    ∀ (rest seen : List ActiveTask) (done : Bool) (io : Io W) (run : Run),
      run.active = seen ++ rest → run.Playing script tasks →
      Polled script patience tasks io run (scanActive ex env seen rest done io run) ∧
        (rest ≠ [] → (scanActive ex env seen rest done io run).2.1.effort patience
          (scanActive ex env seen rest done io run).1 < run.effort patience io)
  | [], seen, done, io, run, hactive, h =>
    ⟨⟨⟨done, rfl⟩, h, rfl, le_rfl⟩, fun hne => absurd rfl hne⟩
  | t :: rest, seen, done, io, run, hactive, h => by
    have hplain := h.active t (by rw [hactive]; simp)
    have hplayed := advanceTask_played hplays .original io t run.results hplain
    rw [scanActive, hff]
    rcases hr : advanceTask env .original false io t run.results with ⟨io₁, t', results, step⟩
    rw [hr] at hplayed
    obtain ⟨honward, hvalid, hstep⟩ := hplayed
    have hfinite : t'.service = false := honward.finite.trans hplain.finite
    -- the rest of the pass starts after this poll has used something up
    have hnext : ∀ (seen' : List ActiveTask) (done' : Bool) (io' : Io W) (run' : Run),
        run'.active = seen' ++ rest → run'.Playing script tasks → io'.token = io.token →
        run'.effort patience io' < run.effort patience io →
        Polled script patience tasks io run (scanActive ex env seen' rest done' io' run') ∧
          (t :: rest ≠ [] → (scanActive ex env seen' rest done' io' run').2.1.effort patience
            (scanActive ex env seen' rest done' io' run').1 < run.effort patience io) := by
      intro seen' done' io' run' hactive' hplaying htoken hless
      obtain ⟨hpolled, -⟩ := scanActive_polled hplays hff rest seen' done' io' run' hactive' hplaying
      have hlast := hpolled.effort_le.trans_lt hless
      exact ⟨⟨hpolled.polled, hpolled.playing, hpolled.token_eq.trans htoken, hlast.le⟩, fun _ => hlast⟩
    cases step with
    | running =>
      simp only [hfinite, Bool.false_eq_true, if_false]
      refine hnext _ _ _ _ (by simp) (h.running results hactive honward hvalid) honward.token_eq ?_
      have hless : patience io₁.world + t'.weight < patience io.world + t.weight := hstep
      simp only [Run.effort, hactive, List.map_append, List.map_cons, List.sum_append, List.sum_cons]
      omega
    | finished =>
      have hfailures : t'.failures = t.prospect script := hstep
      have hrecorded := deferOrRecord_playing env io₁ results h hactive honward.job_eq
        (honward.unrecoverable.trans hplain.unrecoverable) hfailures
      simp only at hrecorded ⊢
      rcases hd : deferOrRecord env io₁ { run with results, active := seen ++ rest } t' with
        ⟨io₂, run₂⟩
      rw [hd] at hrecorded
      obtain ⟨hplaying, hworld, htoken, hactive', hqueued, hstages⟩ := hrecorded
      refine hnext _ _ _ _ hactive' hplaying (htoken.trans honward.token_eq) ?_
      have hpatience := honward.patience_le
      have hweight : 0 < t.weight := Nat.succ_pos _
      simp only at hworld hactive' hqueued hstages hpatience
      simp only [Run.effort, hworld, hactive, hactive', hqueued, hstages, List.map_append,
        List.map_cons, List.sum_append, List.sum_cons]
      omega
    | failedFast => exact hstep.elim

/-- How a call of `advance` under a script ends: finished, or running with less left to use up. -/
def Progress.Played (script : Script) (patience : W → Nat) (tasks : List TaskPlan) (io : Io W)
    (run : Run) (io' : Io W) (run' : Run) : Progress → Prop
  | .returned .finished => run'.Playing script tasks
  | .returned .running => run'.Playing script tasks ∧ io'.token = io.token ∧
      run'.effort patience io' < run.effort patience io
  | .waiting => False
  | .spinning => True

theorem Progress.Played.of_less {script : Script} {patience : W → Nat} {tasks : List TaskPlan}
    {io io₁ io' : Io W} {run run₁ run' : Run} {progress : Progress}
    (h : progress.Played script patience tasks io₁ run₁ io' run') (htoken : io₁.token = io.token)
    (hless : run₁.effort patience io₁ ≤ run.effort patience io) :
    progress.Played script patience tasks io run io' run' := by
  rcases progress with (_ | _) | _ | _
  · exact ⟨h.1, h.2.1.trans htoken, h.2.2.trans_le hless⟩
  · exact h
  · exact h
  · exact h

theorem advanceLoop_played {ex : LawfulExecutor} {env : Env W} {script : Script} {patience : W → Nat}
    {tasks : List TaskPlan} (hplays : env.Plays script patience) (hff : ex.failFast = false)
    (polls fuel : Nat) : ∀ (io : Io W) (run : Run), run.Playing script tasks →
      (advanceLoop ex env polls fuel io run).2.2.Played script patience tasks io run
        (advanceLoop ex env polls fuel io run).1 (advanceLoop ex env polls fuel io run).2.1 := by
  induction fuel with
  | zero => exact fun io run _ => trivial
  | succ fuel ih =>
    intro io run h
    rw [advanceLoop]
    by_cases hnone : run.active = [] ∧ run.queued = [] ∧ run.stages = []
    · rw [if_pos hnone, if_pos h.services]
      exact h
    · rw [if_neg hnone]
      obtain ⟨hplaying₁, hle₁, htoken₁, hgo⟩ := openStage_playing patience env io h hnone
      rcases hopen : openStage env io run with ⟨io₁, run₁⟩
      rw [hopen] at hplaying₁ hle₁ htoken₁ hgo
      dsimp only at hplaying₁ hle₁ htoken₁ hgo ⊢
      obtain ⟨hpolled, hused⟩ := scanActive_polled hplays hff run₁.active [] false io₁ run₁ rfl hplaying₁
      rcases hscan : scanActive ex env [] run₁.active false io₁ run₁ with ⟨io₂, run₂, scanned⟩
      rw [hscan] at hpolled hused
      obtain ⟨⟨finished, rfl⟩, hplaying₂, htoken₂, hle₂⟩ := hpolled
      have hless : run₂.effort patience io₂ < run.effort patience io := by
        rcases hgo with hgo | hgo
        · exact (hused hgo).trans_le hle₁
        · exact hle₂.trans_lt hgo
      have hagain := (ih io₂ run₂ hplaying₂).of_less (htoken₂.trans htoken₁) hless.le
      have hservices : advanceServices env io₂ run₂ = (io₂, run₂) := by
        rw [advanceServices, hplaying₂.services, advanceServicesFrom]
      simp only [hservices]
      split
      · rw [if_neg (not_not.mpr hplaying₂.pending), if_pos hplaying₂.services]
        exact hagain
      · split
        · exact hagain
        · exact ⟨hplaying₂, htoken₂.trans htoken₁, hless⟩

theorem advance_played {ex : LawfulExecutor} {env : Env W} {script : Script} {patience : W → Nat}
    {tasks : List TaskPlan} (hplays : env.Plays script patience) (hff : ex.failFast = false)
    (polls : Nat) {io : Io W} {run : Run} (h : run.Playing script tasks) (htoken : io.token = false) :
    (advance ex env polls io run).2.2.Played script patience tasks io run
      (advance ex env polls io run).1 (advance ex env polls io run).2.1 := by
  have hread : io.cancellationRequested env
      = (false, { io with world := (env.signal io.world).2, token := false }) := by
    simp [Io.cancellationRequested, htoken, hplays.uncancelled io.world]
  rw [advance, hread]
  refine (advanceLoop_played hplays hff polls _ _ run h).of_less htoken.symm ?_
  have hsignal := hplays.signals_le io.world
  simp only [Run.effort]
  omega

/-- Calls on a session that has ended do nothing. -/
theorem Session.after_closed (ex : LawfulExecutor) (env : Env W) {s : Session W} (h : s.open = false) :
    ∀ ops : List Op, s.after ex env ops = s
  | [] => rfl
  | op :: ops => by
    rw [Session.after, h]
    exact Session.after_closed ex env h ops

/-- Enough calls of `advance` finish a run under a script. -/
theorem Session.after_finishes {ex : LawfulExecutor} {env : Env W} {script : Script} {patience : W → Nat}
    {tasks : List TaskPlan} (hplays : env.Plays script patience) (hff : ex.failFast = false)
    (polls : List Nat) : ∀ s : Session W, s.open = true → s.run.Playing script tasks →
      s.io.token = false → s.Holds ex.failFast (fun _ => True) →
      s.run.effort patience s.io < polls.length →
      (s.after ex env (polls.map .advance)).progress = some (.returned .finished) ∧
        (s.after ex env (polls.map .advance)).run.Playing script tasks := by
  induction polls with
  | nil => exact fun s _ _ _ _ hlt => absurd hlt (Nat.not_lt_zero _)
  | cons count polls ih =>
    intro s hopen h htoken hholds hlt
    rw [List.map_cons, Session.after, if_pos hopen]
    have hplayed := advance_played hplays hff count h htoken
    have hnext := Session.advance_holds ex env count (P := fun _ => True) (fun _ _ _ _ => trivial)
      hopen hholds
    rcases hs : s.apply ex env (.advance count) with ⟨io, run, progress⟩
    have hprogress : progress = some (advance ex env count s.io s.run).2.2 :=
      (congrArg Session.progress hs).symm
    have hio : io = (advance ex env count s.io s.run).1 := (congrArg Session.io hs).symm
    have hrun : run = (advance ex env count s.io s.run).2.1 := (congrArg Session.run hs).symm
    rw [hs] at hnext
    rw [← hio, ← hrun] at hplayed
    rcases hlast : (advance ex env count s.io s.run).2.2 with (_ | _) | _ | _ <;>
      rw [hlast] at hplayed hprogress <;> subst hprogress
    · obtain ⟨hplaying, htoken', hless⟩ := hplayed
      refine ih _ rfl hplaying (htoken'.trans htoken) hnext ?_
      rw [List.length_cons] at hlt
      exact hless.trans_le (Nat.le_of_lt_succ hlt)
    · rw [Session.after_closed ex env rfl]
      exact ⟨rfl, hplayed⟩
    · exact hplayed.elim
    · exact hnext.elim

/-! ### Two runs of one script -/

/-- What a script makes of a plan: every task's outcome, in plan order. -/
def Script.outcome (script : Script) (plan : RunPlan) : RunOutcome :=
  { tasks := plan.tasks.map fun t =>
      (t.name, t.groupOccurrence, .ofFailures ((ActiveTask.ofPlan t).prospect script)) }

/-- What a script makes every task of a plan report, in plan order. -/
def Script.states (script : Script) (plan : RunPlan) : List (Nat × String × String × TaskState) :=
  plan.tasks.map fun t => statedEntry (t.forecast script)

/-- Entries recorded in any order are sorted into plan order. -/
theorem outcomes_in_order {entries planned : List (Nat × String × Option String × TaskOutcome)}
    (hperm : entries.Perm planned) (hplanned : planned.Pairwise fun a b => a.1 < b.1) :
    entries.insertionSort (fun a b => a.1 ≤ b.1) = planned := by
  have hsorted := outcomes_sorted entries
  have hsame := (List.perm_insertionSort (fun a b => a.1 ≤ b.1) entries).trans hperm
  have hkeys : planned.Pairwise fun a b => a.1 ≤ b.1 := hplanned.imp le_of_lt
  refine List.Perm.eq_of_pairwise (fun a b ha hb hab hba => ?_) hsorted hkeys hsame
  -- two entries of one position are the same entry, since positions are distinct in the plan
  have hdistinct : (planned.map (·.1)).Nodup :=
    List.pairwise_map.mpr (hplanned.imp fun h => h.ne)
  exact List.inj_on_of_nodup_map hdistinct (hsame.subset ha) hb (le_antisymm hab hba)

theorem RunPlan.forecasts_increase (script : Script) {plan : RunPlan} (hplan : Planned plan) :
    (plan.tasks.map (·.forecast script)).Pairwise fun a b => a.1 < b.1 := by
  rw [List.pairwise_map]
  exact List.pairwise_map.mp hplan.positions_increase

/-- A run that is done has recorded what the script makes of its plan. -/
theorem Run.Playing.finish_eq {script : Script} {plan : RunPlan} {run : Run} (env : Env W) (io : Io W)
    (hplan : Planned plan) (h : run.Playing script plan.tasks) (hdrained : run.Drained)
    (hstages : run.stages = []) :
    (finish env io run).2.outcome = script.outcome plan ∧
      (finish env io run).2.tasks.map (·.stated) = script.states plan := by
  have hperm := h.forecasts
  simp only [Run.forecasts, hdrained.1, hdrained.2, hstages, List.map_nil, List.flatMap_nil,
    List.append_nil] at hperm
  have hordered := outcomes_in_order hperm (RunPlan.forecasts_increase script hplan)
  refine ⟨?_, ?_⟩
  · simp only [finish, Run.outcome, Script.outcome, hordered, List.map_map]
    rfl
  · have hsnapshots : (run.taskSnapshots.insertionSort fun a b => a.position ≤ b.position).map
        (·.stated) = (run.outcomes.insertionSort fun a b => a.1 ≤ b.1).map statedEntry := by
      calc (run.taskSnapshots.insertionSort fun a b => a.position ≤ b.position).map (·.stated)
          = (run.taskSnapshots.map (·.stated)).insertionSort fun a b => a.1 ≤ b.1 :=
            List.map_insertionSort _ _ _ _ fun _ _ _ _ => Iff.rfl
        _ = (run.outcomes.map statedEntry).insertionSort fun a b => a.1 ≤ b.1 := by rw [h.stated]
        _ = (run.outcomes.insertionSort fun a b => a.1 ≤ b.1).map statedEntry :=
            (List.map_insertionSort (fun a b => a.1 ≤ b.1) (fun a b => a.1 ≤ b.1) statedEntry _
              fun _ _ _ _ => Iff.rfl).symm
    simp only [finish, hsnapshots, hordered, Script.states, List.map_map]
    rfl

theorem Session.start_playing (script : Script) (env : Env W) (world : W) (metadata : RunMetadata)
    {plan : RunPlan} (hplain : ∀ t ∈ plan.tasks, t.Plain)
    (hlimit : metadata.effectiveConcurrency ≠ some 0) :
    (Session.start env world metadata plan).run.Playing script plan.tasks where
  active := by intro t ht; cases ht
  queued := by intro t ht; cases ht
  stages := hplain
  services := rfl
  pending := rfl
  slots := fun hne => absurd rfl hne
  limit := hlimit
  forecasts := List.Perm.refl _
  stated := rfl

/-- A run finishes as the script says, whatever its limit and its completion order. -/
theorem Session.finishes_as_scripted {ex : LawfulExecutor} {env : Env W} {script : Script}
    {patience : W → Nat} {plan : RunPlan} {metadata : RunMetadata} (world : W)
    (hplays : env.Plays script patience) (hff : ex.failFast = false) (hplan : Planned plan)
    (hplain : ∀ t ∈ plan.tasks, t.Plain) (hlimit : metadata.effectiveConcurrency ≠ some 0) :
    ∃ n, ∀ polls : List Nat, n ≤ polls.length →
      let s := (Session.start env world metadata plan).after ex env (polls.map .advance)
      s.progress = some (.returned .finished) ∧
        (finish env s.io s.run).2.outcome = script.outcome plan ∧
        (finish env s.io s.run).2.tasks.map (·.stated) = script.states plan := by
  let s₀ := Session.start env world metadata plan
  refine ⟨s₀.run.effort patience s₀.io + 1, fun polls hlen => ?_⟩
  have hstart : s₀.Holds ex.failFast (fun _ => True) :=
    Session.start_holds ex.failFast env world metadata plan trivial
  obtain ⟨hprogress, hplaying⟩ := Session.after_finishes hplays hff polls s₀ rfl
    (Session.start_playing script env world metadata hplain hlimit) rfl hstart hlen
  have hholds := Session.after_holds ex env (fun _ _ _ _ => trivial) (fun _ _ _ _ => trivial)
    (fun _ _ _ _ => trivial) (polls.map .advance) s₀ hstart
  rw [Session.Holds, hprogress] at hholds
  exact ⟨hprogress, hplaying.finish_eq env _ hplan hholds.2.1 hholds.2.2.1⟩

/-- Concurrency independence: two runs of one plan in which every command does the same finish with
    the same outcome and the same state for every task, in plan order, whatever the two concurrency
    limits and the two completion orders are. -/
theorem Session.concurrency_independent {W₁ W₂ : Type} (script : Script) (plan : RunPlan)
    (hplan : Planned plan) (hplain : ∀ t ∈ plan.tasks, t.service = false ∧ t.recoveryCommands = none)
    (ex₁ ex₂ : LawfulExecutor) (hff₁ : ex₁.failFast = false) (hff₂ : ex₂.failFast = false)
    (env₁ : Env W₁) (env₂ : Env W₂) (patience₁ : W₁ → Nat) (patience₂ : W₂ → Nat)
    (hplays₁ : env₁.Plays script patience₁) (hplays₂ : env₂.Plays script patience₂)
    (world₁ : W₁) (world₂ : W₂) (metadata₁ metadata₂ : RunMetadata)
    (hlimit₁ : metadata₁.effectiveConcurrency ≠ some 0)
    (hlimit₂ : metadata₂.effectiveConcurrency ≠ some 0) :
    ∃ n, ∀ polls₁ polls₂ : List Nat, n ≤ polls₁.length → n ≤ polls₂.length →
      let s₁ := (Session.start env₁ world₁ metadata₁ plan).after ex₁ env₁ (polls₁.map .advance)
      let s₂ := (Session.start env₂ world₂ metadata₂ plan).after ex₂ env₂ (polls₂.map .advance)
      let c₁ := (finish env₁ s₁.io s₁.run).2
      let c₂ := (finish env₂ s₂.io s₂.run).2
      s₁.progress = some (.returned .finished) ∧ s₂.progress = some (.returned .finished) ∧
        c₁.outcome = c₂.outcome ∧
        c₁.outcome.tasks.map (fun e => (e.1, e.2.1))
          = plan.tasks.map (fun t => (t.name, t.groupOccurrence)) ∧
        c₁.tasks.map (·.stated) = c₂.tasks.map (·.stated) := by
  obtain ⟨n₁, h₁⟩ := Session.finishes_as_scripted world₁ hplays₁ hff₁ hplan hplain hlimit₁
  obtain ⟨n₂, h₂⟩ := Session.finishes_as_scripted world₂ hplays₂ hff₂ hplan hplain hlimit₂
  refine ⟨max n₁ n₂, fun polls₁ polls₂ hlen₁ hlen₂ => ?_⟩
  obtain ⟨hdone₁, houtcome₁, hstates₁⟩ := h₁ polls₁ ((le_max_left _ _).trans hlen₁)
  obtain ⟨hdone₂, houtcome₂, hstates₂⟩ := h₂ polls₂ ((le_max_right _ _).trans hlen₂)
  refine ⟨hdone₁, hdone₂, houtcome₁.trans houtcome₂.symm, ?_, hstates₁.trans hstates₂.symm⟩
  rw [houtcome₁]
  simp [Script.outcome]

/-- An environment that plays a script and answers the next `world` polls with a running child. -/
def scriptedEnv (script : Script) (limit : Nat) : Env Nat where
  isDir _ task _ := script.isDir task.position
  spawn world task _ := (script.spawn task.position task.ordinal, world)
  tryWait world task :=
    match world with
    | 0 => ((script.exit task.position task.ordinal).map some, 0)
    | world + 1 => (.ok none, world)
  shutdown world _ := (false, world)
  signal world := (false, world)
  approval world _ := (.disconnected, world)
  concurrencyLimit _ := limit + 1
  concurrencyLimit_pos _ := Nat.succ_pos limit
  now _ := 0
  hook world _ := (.ok ⟨some 0, "exit status: 0"⟩, world)

theorem scriptedEnv_plays (script : Script) (limit : Nat) :
    (scriptedEnv script limit).Plays script id where
  isDir_eq _ _ _ := rfl
  spawn_eq _ _ _ := rfl
  exit_eq world task := by
    cases world with
    | zero => exact .inr rfl
    | succ world => exact .inl rfl
  uncancelled _ := rfl
  waits world task h := by
    cases world with
    | zero =>
      simp only [scriptedEnv] at h
      cases hexit : script.exit task.position task.ordinal <;> simp [hexit, Except.map] at h
    | succ world => exact Nat.lt_succ_self world
  polls_le world task := by
    cases world with
    | zero => exact le_rfl
    | succ world => exact Nat.le_succ world
  spawns_le _ _ _ := le_rfl
  signals_le _ := le_rfl

/-- Two checks, one of which fails: one at a time, and both at once with late answers. -/
theorem Session.concurrency_independent_at_checks :
    let plan := RunPlan.fromRules
      [{ name := "lint", commands := ["lint"], parallel := some "checks" },
       { name := "test", commands := ["test"], parallel := some "checks" }]
    let script : Script :=
      { isDir := fun _ => true
        spawn := fun _ _ => .ok ()
        exit := fun position _ =>
          .ok (if position = 0 then ⟨some 1, "exit status: 1"⟩ else ⟨some 0, "exit status: 0"⟩) }
    script.outcome plan = { tasks := [
        ("lint", some "checks#1", .failed ["Command lint has failed with exit status: 1"]),
        ("test", some "checks#1", .passed)] } ∧
      ∃ n, ∀ polls₁ polls₂ : List Nat, n ≤ polls₁.length → n ≤ polls₂.length →
        let env₁ := scriptedEnv script 0
        let env₂ := scriptedEnv script 1
        let s₁ := (Session.start env₁ 0 { runId := 1 } plan).after {} env₁ (polls₁.map .advance)
        let s₂ := (Session.start env₂ 7 { runId := 2 } plan).after {} env₂ (polls₂.map .advance)
        (finish env₁ s₁.io s₁.run).2.outcome = (finish env₂ s₂.io s₂.run).2.outcome := by
  intro plan script
  refine ⟨by decide, ?_⟩
  obtain ⟨n, hn⟩ := Session.concurrency_independent script plan
    (.fromRules _ (by simp [Rules.Consistent])) (by decide) {} {} rfl rfl (scriptedEnv script 0)
    (scriptedEnv script 1) id id (scriptedEnv_plays script 0) (scriptedEnv_plays script 1) 0 7
    { runId := 1 } { runId := 2 } (by decide) (by decide)
  refine ⟨n, fun polls₁ polls₂ h₁ h₂ => ?_⟩
  exact (hn polls₁ polls₂ h₁ h₂).2.2.1

end Funzzy
