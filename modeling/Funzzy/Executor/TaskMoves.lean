import Funzzy.Executor.Advance
import Mathlib.Logic.Relation

/-! What one call of `advance_task` can do to a task, as atomic moves.

    Every move is one interaction with the outside world (a working-directory check, a spawn, a poll)
    together with everything the executor does about its answer. `advanceTask_moves` says that a call
    is a finite sequence of such moves and what its step value promises about the task. Later modules
    reason about the moves only and never unfold `advanceTask` again. -/

namespace Funzzy

variable {W : Type}

/-- A task together with the accumulators a call of `advance_task` writes to. -/
structure Work where
  task : ActiveTask
  results : Results
  trace : List Effect

/-- The failure move shared by a failed spawn, a failed exit and a failed poll. -/
def Work.failWith (w : Work) (task : ActiveTask) (failure : String) (effect : Effect) : Work :=
  { task := task.reaped.fail failure
    results := pushFailure task w.results failure
    trace := w.trace ++ [effect] }

inductive TaskMove (phase : Phase) : Work → Work → Prop
  | validate (w : Work) : w.task.contextValidated = false →
      TaskMove phase w { w with task := { w.task with contextValidated := true } }
  | invalid (w : Work) (failure : String) : w.task.contextValidated = false →
      w.task.child = false →
      TaskMove phase w
        { task := { { w.task with contextValidated := true }.fail failure with commands := [] }
          results := pushFailure w.task w.results failure
          trace := w.trace ++ [.contextInvalid w.task.position] }
  | spawned (w : Work) (command : CommandLine) (rest : List CommandLine) (now : Nat) :
      w.task.contextValidated = true → w.task.child = false → w.task.commands = command :: rest →
      TaskMove phase w
        { w with
          task := (w.task.take command rest).launched now
          trace := w.trace ++ [.spawned ((w.task.take command rest).proc phase) command,
            .event (.tick w.task.name w.task.groupOccurrence)] }
  | spawnFailed (w : Work) (command : CommandLine) (rest : List CommandLine) (error : String) :
      w.task.contextValidated = true → w.task.child = false → w.task.commands = command :: rest →
      TaskMove phase w (w.failWith (w.task.take command rest)
        ("Command " ++ command.display ++ " failed to start: " ++ error)
        (.spawnFailed ((w.task.take command rest).proc phase) command error))
  | tick (w : Work) : w.task.child = true →
      TaskMove phase w
        { w with trace := w.trace ++ [.event (.tick w.task.name w.task.groupOccurrence)] }
  | passed (w : Work) (status : ExitStatus) : w.task.child = true → status.success = true →
      w.task.service = false →
      TaskMove phase w
        { task := w.task.reaped
          results := w.results ++ [.ok ()]
          trace := w.trace ++ [.exited (w.task.proc phase) status] }
  | failed (w : Work) (status : ExitStatus) : w.task.child = true → status.success = false →
      w.task.service = false →
      TaskMove phase w (w.failWith w.task
        ("Command " ++ w.task.currentCommand.getD "" ++ " has failed with " ++ status.text)
        (.exited (w.task.proc phase) status))
  | errored (w : Work) (error : String) : w.task.child = true →
      TaskMove phase w (w.failWith w.task
        ("Command " ++ w.task.currentCommand.getD "" ++ " has errored with " ++ error)
        (.waitFailed (w.task.proc phase) error))
  | serviceStopped (w : Work) (status : ExitStatus) : w.task.child = true →
      status.success = true → w.task.service = true →
      TaskMove phase w
        { task := w.task.reaped
          results := w.results ++ [.ok ()]
          trace := w.trace ++ [.exited (w.task.proc phase) status] }
  | serviceRestarted (w : Work) (status : ExitStatus) : w.task.child = true →
      status.success = false → w.task.service = true → 0 < w.task.serviceRestartsLeft →
      TaskMove phase w
        { w with
          task := w.task.reaped.requeued w.task.currentCommand
          trace := w.trace ++ [.exited (w.task.proc phase) status] }
  | serviceExhausted (w : Work) (status : ExitStatus) (failure : String) : w.task.child = true →
      status.success = false → w.task.service = true →
      TaskMove phase w
        { task := w.task.reaped.fail failure
          results := w.results ++ [.error failure]
          trace := w.trace ++ [.exited (w.task.proc phase) status] }

/-- When a task may move at all: under fail-fast only before its first failure, and a service of
    the stage only while it has no child, since a spawned one leaves for the background. -/
structure ActiveTask.Admissible (phase : Phase) (failFast : Bool) (task : ActiveTask) : Prop where
  unfailed : failFast = true → task.failures = []
  unspawned : phase = .original → task.service = true → task.child = false

/-- Finite sequences of moves of a task that may move. -/
abbrev TaskMoves (phase : Phase) (failFast : Bool) : Work → Work → Prop :=
  Relation.ReflTransGen fun w w' => TaskMove phase w w' ∧ w.task.Admissible phase failFast

/-- What a step value of `advance_task` promises about the task it returns. -/
def TaskStep.Describes (failFast : Bool) (task : ActiveTask) : TaskStep → Prop
  | .running =>
    task.child = true ∧ task.contextValidated = true ∧ (failFast = true → task.failures = [])
  | .finished => task.child = false ∧ (task.commands = [] ∨ task.service = true)
  | .failedFast => task.child = false ∧ task.failures ≠ [] ∧ failFast = true

/-- A result of `advance_task` on `work` that is a sequence of moves, described by its step. -/
structure Moved (phase : Phase) (failFast : Bool) (work : Work) (token : Bool)
    (r : Io W × ActiveTask × Results × TaskStep) : Prop where
  moves : TaskMoves phase failFast work ⟨r.2.1, r.2.2.1, r.1.trace⟩
  token_eq : r.1.token = token
  describes : r.2.2.2.Describes failFast r.2.1

theorem Moved.head {phase : Phase} {failFast token : Bool} {w w' : Work}
    {r : Io W × ActiveTask × Results × TaskStep} (h : TaskMove phase w w')
    (hw : w.task.Admissible phase failFast) (hr : Moved phase failFast w' token r) :
    Moved phase failFast w token r :=
  ⟨.head ⟨h, hw⟩ hr.moves, hr.token_eq, hr.describes⟩

theorem spawnCommands_moved (env : Env W) (phase : Phase) (failFast : Bool) :
    ∀ (commands : List CommandLine) (io : Io W) (task : ActiveTask) (results : Results),
      task.commands = commands → task.child = false → task.contextValidated = true →
      (failFast = true → task.failures = []) →
      Moved phase failFast ⟨task, results, io.trace⟩ io.token
        (spawnCommands env phase failFast commands io task results)
  | [], io, task, results, hc, hchild, _, _ => by
    rw [spawnCommands]
    refine ⟨?_, rfl, hchild, .inl rfl⟩
    have hsame : { task with commands := [] } = task := by cases task; simp_all
    rw [hsame]
  | command :: rest, io, task, results, hc, hchild, hvalid, hfailures => by
    have hadm : task.Admissible phase failFast := ⟨hfailures, fun _ _ => hchild⟩
    rw [spawnCommands]
    rcases env.spawn io.world (task.take command rest) command with ⟨answer, world⟩
    cases answer with
    | ok _ =>
      refine ⟨.single ⟨?_, hadm⟩, rfl, rfl, hvalid, hfailures⟩
      have hmove : TaskMove phase ⟨task, results, io.trace⟩ _ := .spawned _ command rest
        (env.now world) hvalid hchild hc
      simpa [Io.emit, Io.record, ActiveTask.take] using hmove
    | error error =>
      have hmove : TaskMove phase ⟨task, results, io.trace⟩ _ := .spawnFailed _ command rest
        error hvalid hchild hc
      by_cases hff : failFast = true
      · simp only [if_pos hff]
        exact ⟨.single ⟨hmove, hadm⟩, rfl, rfl, by simp [ActiveTask.fail], hff⟩
      · simp only [if_neg hff]
        have hrest := spawnCommands_moved env phase failFast rest
          ({ io with world }.record (.spawnFailed ((task.take command rest).proc phase) command error))
          ((task.take command rest).reaped.fail
            ("Command " ++ command.display ++ " failed to start: " ++ error))
          (pushFailure (task.take command rest) results
            ("Command " ++ command.display ++ " failed to start: " ++ error)) rfl rfl hvalid
          fun h => absurd h hff
        exact .head hmove hadm hrest

/-- Moving on to the next command after the current child is gone. -/
theorem respawn_moved (env : Env W) (phase : Phase) (failFast : Bool) (io : Io W)
    (task : ActiveTask) (results : Results) {w : Work} {token : Bool}
    (hmove : TaskMove phase w ⟨task, results, io.trace⟩) (hw : w.task.Admissible phase failFast)
    (htoken : io.token = token) (hchild : task.child = false)
    (hvalid : task.contextValidated = true) (hfailures : failFast = true → task.failures = []) :
    Moved phase failFast w token
      (spawnCommands env phase failFast task.commands io task results) := by
  subst htoken
  exact .head hmove hw
    (spawnCommands_moved env phase failFast _ io task results rfl hchild hvalid hfailures)

/-- A failure ends the call under fail-fast and moves on to the next command otherwise. -/
theorem failed_moved (env : Env W) (phase : Phase) (failFast : Bool) (io : Io W)
    (task : ActiveTask) (results : Results) {w : Work} {token : Bool}
    (hmove : TaskMove phase w ⟨task, results, io.trace⟩) (hw : w.task.Admissible phase failFast)
    (htoken : io.token = token) (hchild : task.child = false)
    (hvalid : task.contextValidated = true) (hfailed : task.failures ≠ []) :
    Moved phase failFast w token
      (if failFast = true then (io, task, results, .failedFast)
        else spawnCommands env phase failFast task.commands io task results) := by
  by_cases hff : failFast = true
  · rw [if_pos hff]
    exact ⟨.single ⟨hmove, hw⟩, htoken, hchild, hfailed, hff⟩
  · rw [if_neg hff]
    exact respawn_moved env phase failFast io task results hmove hw htoken hchild hvalid
      fun h => absurd h hff

theorem childExited_moved (env : Env W) (phase : Phase) (failFast : Bool) (io : Io W)
    (task : ActiveTask) (results : Results) (status : ExitStatus)
    (hchild : task.child = true) (hvalid : task.contextValidated = true)
    (hadm : task.Admissible phase failFast) :
    Moved phase failFast ⟨task, results, io.trace⟩ io.token
      (childExited env phase failFast io task results status) := by
  have hsame : task.reaped.service = task.service := rfl
  have hsame' : task.reaped.serviceRestartsLeft = task.serviceRestartsLeft := rfl
  unfold childExited
  simp only [hsame, hsame']
  by_cases hservice : task.service = true
  · rw [if_pos hservice]
    by_cases hok : status.success = true
    · rw [if_pos hok]
      exact ⟨.single ⟨.serviceStopped _ status hchild hok hservice, hadm⟩, rfl, rfl, .inr hservice⟩
    · have hno : status.success = false := by simpa using hok
      rw [if_neg hok]
      by_cases hleft : 0 < task.serviceRestartsLeft
      · rw [if_pos hleft]
        exact respawn_moved env phase failFast _ _ _
          (.serviceRestarted ⟨task, results, io.trace⟩ status hchild hno hservice hleft) hadm rfl
          rfl hvalid hadm.unfailed
      · rw [if_neg hleft]
        exact ⟨.single ⟨.serviceExhausted _ status _ hchild hno hservice, hadm⟩, rfl, rfl,
          .inr hservice⟩
  · have hfinite : task.service = false := by simpa using hservice
    rw [if_neg hservice]
    by_cases hok : status.success = true
    · rw [if_pos hok]
      exact respawn_moved env phase failFast _ _ _
        (.passed ⟨task, results, io.trace⟩ status hchild hok hfinite) hadm rfl rfl hvalid
        hadm.unfailed
    · have hno : status.success = false := by simpa using hok
      rw [if_neg hok]
      exact failed_moved env phase failFast _ _ _
        (.failed ⟨task, results, io.trace⟩ status hchild hno hfinite) hadm rfl rfl hvalid
        (by simp [ActiveTask.fail])

theorem advanceCommands_moved (env : Env W) (phase : Phase) (failFast : Bool) (io : Io W)
    (task : ActiveTask) (results : Results) (hvalid : task.contextValidated = true)
    (hadm : task.Admissible phase failFast) :
    Moved phase failFast ⟨task, results, io.trace⟩ io.token
      (advanceCommands env phase failFast io task results) := by
  unfold advanceCommands
  by_cases hchild : task.child = true
  · rw [if_pos hchild]
    rcases env.tryWait io.world task with ⟨error | _ | status, world⟩
    · exact failed_moved env phase failFast _ _ _
        (.errored ⟨task, results, io.trace⟩ error hchild) hadm rfl rfl hvalid
        (by simp [ActiveTask.fail])
    · exact ⟨.single ⟨.tick ⟨task, results, io.trace⟩ hchild, hadm⟩, rfl, hchild, hvalid,
        hadm.unfailed⟩
    · exact childExited_moved env phase failFast { io with world } task results status hchild hvalid
        hadm
  · rw [if_neg hchild]
    exact spawnCommands_moved env phase failFast _ _ _ _ rfl (by simpa using hchild) hvalid
      hadm.unfailed

/-- A call of `advance_task` is a finite sequence of moves. -/
theorem advanceTask_moved (env : Env W) (phase : Phase) (failFast : Bool) (io : Io W)
    (task : ActiveTask) (results : Results)
    (hfresh : task.contextValidated = false → task.child = false)
    (hadm : task.Admissible phase failFast) :
    Moved phase failFast ⟨task, results, io.trace⟩ io.token
      (advanceTask env phase failFast io task results) := by
  unfold advanceTask
  by_cases hvalid : task.contextValidated = true
  · rw [if_pos hvalid]
    exact advanceCommands_moved env phase failFast io task results hvalid hadm
  · have hinvalid : task.contextValidated = false := by simpa using hvalid
    have hhead : ∀ r : Io W × ActiveTask × Results × TaskStep, Moved phase failFast ⟨{ task with contextValidated := true }, results,
        io.trace⟩ io.token r → Moved phase failFast ⟨task, results, io.trace⟩ io.token r :=
      fun r hr => .head (.validate ⟨task, results, io.trace⟩ hinvalid) hadm hr
    simp only [if_neg hvalid]
    rcases task.context.cwd with _ | cwd
    · exact hhead _ (advanceCommands_moved env phase failFast io _ results rfl ⟨hadm.1, hadm.2⟩)
    · by_cases hdir : env.isDir io.world { task with contextValidated := true } cwd = true
      · simp only [if_pos hdir]
        exact hhead _ (advanceCommands_moved env phase failFast io _ results rfl ⟨hadm.1, hadm.2⟩)
      · simp only [if_neg hdir]
        refine ⟨.single ⟨.invalid ⟨task, results, io.trace⟩ _ hinvalid (hfresh hinvalid), hadm⟩, rfl, ?_⟩
        by_cases hff : failFast = true
        · simp [hff, TaskStep.Describes, ActiveTask.fail, hfresh hinvalid]
        · simp [hff, TaskStep.Describes, ActiveTask.fail, hfresh hinvalid]

/-- A job that a call has finished has no command left, if its child was not that of a service, and under
    fail-fast it has not failed. -/
theorem advanceTask_finished (env : Env W) (phase : Phase) (failFast : Bool) (io : Io W)
    (task : ActiveTask) (results : Results) (hservice : task.service = true → task.child = false)
    (hunfailed : failFast = true → task.failures = []) :
    (advanceTask env phase failFast io task results).2.2.2 = .finished →
      (advanceTask env phase failFast io task results).2.1.commands = [] ∧
        (failFast = true → (advanceTask env phase failFast io task results).2.1.failures = []) := by
  have hspawn : ∀ (commands : List CommandLine) (io : Io W) (task : ActiveTask) (results : Results),
      (failFast = true → task.failures = []) →
      (spawnCommands env phase failFast commands io task results).2.2.2 = .finished →
        (spawnCommands env phase failFast commands io task results).2.1.commands = [] ∧
          (failFast = true →
            (spawnCommands env phase failFast commands io task results).2.1.failures = []) := by
    intro commands
    induction commands with
    | nil => exact fun _ _ _ hnone _ => ⟨rfl, hnone⟩
    | cons command rest ih =>
      intro io task results hnone
      rw [spawnCommands]
      rcases env.spawn io.world (task.take command rest) command with ⟨error | _, world⟩
      · cases failFast with
        | true => nofun
        | false => exact ih _ _ _ nofun
      · nofun
  have hcommands : ∀ (task : ActiveTask), (task.service = true → task.child = false) →
      (failFast = true → task.failures = []) →
      (advanceCommands env phase failFast io task results).2.2.2 = .finished →
        (advanceCommands env phase failFast io task results).2.1.commands = [] ∧
          (failFast = true →
            (advanceCommands env phase failFast io task results).2.1.failures = []) := by
    intro task hservice hnone
    rw [advanceCommands]
    cases hchild : task.child with
    | false => exact hspawn _ _ _ _ hnone
    | true =>
      have hfinite : task.reaped.service = false := by
        by_contra hno
        have := hservice (Bool.eq_true_of_not_eq_false hno)
        rw [hchild] at this
        cases this
      simp only [if_true]
      rcases env.tryWait io.world task with ⟨error | _ | status, world⟩
      · cases failFast with
        | true => nofun
        | false => exact hspawn _ _ _ _ nofun
      · nofun
      · simp only [childExited, hfinite, Bool.false_eq_true, if_false]
        cases status.success with
        | true => exact hspawn _ _ _ _ hnone
        | false =>
          cases failFast with
          | true => nofun
          | false => exact hspawn _ _ _ _ nofun
  unfold advanceTask
  by_cases hvalid : task.contextValidated = true
  · rw [if_pos hvalid]
    exact hcommands task hservice hunfailed
  · simp only [if_neg hvalid]
    cases task.context.cwd with
    | none => exact hcommands _ hservice hunfailed
    | some cwd =>
      by_cases hdir : env.isDir io.world { task with contextValidated := true } cwd = true
      · simp only [if_pos hdir]
        exact hcommands _ hservice hunfailed
      · simp only [if_neg hdir]
        cases failFast with
        | true => nofun
        | false => exact fun _ => ⟨trivial, nofun⟩

end Funzzy
