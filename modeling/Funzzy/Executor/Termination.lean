import Funzzy.Lib.Loops
import Funzzy.Executor.Simulation.Stages
import Funzzy.Executor.Asking

/-! The loops of `Executor::advance` end (`executor.rs`).

    Each loop is given pass by pass the way the source writes it, with its index where it has one. None of
    them returns at the end of a pass: they go on after a command that could not be started, a child that
    has exited, a task that has finished and a stage that has drained. What gets smaller is, in this order,
    the stages, the tasks in them, the tasks queued and active, and for one task its commands, its child
    and its restarts. -/

namespace Funzzy

open Loops (Computes Ends)

variable {W : Type}

/-! ### One task -/

/-- One pass of the loop of `advance_task`: without a child the next command is spawned, and with one the
    child is polled. -/
def taskPass (env : Env W) (phase : Phase) (failFast : Bool) :
    Io W × ActiveTask × Results → Loops.Pass (Io W × ActiveTask × Results)
      (Io W × ActiveTask × Results × TaskStep)
  | (io, task, results) =>
    if task.child then
      match env.tryWait io.world task with
      | (.ok none, world) =>
        .leave ({ io with world }.emit (.tick task.name task.groupOccurrence), task, results, .running)
      | (.ok (some status), world) =>
        let display := task.currentCommand.getD ""
        let serviceCommand := task.currentCommand
        let io := { io with world }.record (.exited (task.proc phase) status)
        let task := task.reaped
        if task.service then
          if status.success then .leave (io, task, results ++ [.ok ()], .finished)
          else if 0 < task.serviceRestartsLeft then .again (io, task.requeued serviceCommand, results)
          else
            let failure := "Service " ++ task.name ++ " has failed after "
              ++ toString serviceMaxRestarts ++ " restarts"
            .leave (io, task.fail failure, results ++ [.error failure], .finished)
        else if status.success then .again (io, task, results ++ [.ok ()])
        else
          let failure := "Command " ++ display ++ " has failed with " ++ status.text
          let results := pushFailure task results failure
          if failFast then .leave (io, task.fail failure, results, .failedFast)
          else .again (io, task.fail failure, results)
      | (.error error, world) =>
        let io := { io with world }.record (.waitFailed (task.proc phase) error)
        let failure := "Command " ++ task.currentCommand.getD "" ++ " has errored with " ++ error
        let results := pushFailure task results failure
        let task := task.reaped.fail failure
        if failFast then .leave (io, task, results, .failedFast) else .again (io, task, results)
    else
      match task.commands with
      | [] => .leave (io, task, results, .finished)
      | command :: rest =>
        let task := task.take command rest
        match env.spawn io.world task command with
        | (.ok _, world) =>
          let io := { io with world }.record (.spawned (task.proc phase) command)
          .leave (io.emit (.tick task.name task.groupOccurrence), task.launched (env.now world), results,
            .running)
        | (.error error, world) =>
          let failure := "Command " ++ command.display ++ " failed to start: " ++ error
          let io := { io with world }.record (.spawnFailed (task.proc phase) command error)
          let results := pushFailure task results failure
          let task := task.reaped.fail failure
          if failFast then .leave (io, task, results, .failedFast) else .again (io, task, results)

/-- The commands, the child and the restarts that a task has left. -/
def ActiveTask.left (task : ActiveTask) : Nat :=
  task.commands.length + (if task.child then 1 else 0) + task.serviceRestartsLeft

/-- A task whose child is gone goes on by spawning. -/
theorem advanceCommands_of_reaped (env : Env W) (phase : Phase) (failFast : Bool) (io : Io W)
    {task : ActiveTask} (h : task.child = false) (results : Results) :
    advanceCommands env phase failFast io task results
      = spawnCommands env phase failFast task.commands io task results := by
  rw [advanceCommands, if_neg (by rw [h]; decide)]

/-- Nothing is added to a task whose child is gone. -/
theorem ActiveTask.left_reaped {task : ActiveTask} (h : task.child = true) (failure : String) :
    task.reaped.left < task.left ∧ (task.reaped.fail failure).left < task.left := by
  simp only [left, reaped, fail, h, if_true, Bool.false_eq_true, if_false]
  omega

/-- A restart puts a command back and uses up a restart, and the child is gone. -/
theorem ActiveTask.left_requeued {task : ActiveTask} (h : task.child = true)
    (hleft : 0 < task.reaped.serviceRestartsLeft) (command : Option String) :
    (task.reaped.requeued command).left < task.left := by
  have hback : (command.map CommandLine.shell).toList.length ≤ 1 := by cases command <;> simp
  simp only [reaped] at hleft
  simp only [left, requeued, reaped, h, if_true, Bool.false_eq_true, if_false, List.length_append]
  omega

theorem ActiveTask.left_take {task : ActiveTask} {command : CommandLine} {rest : List CommandLine}
    (h : task.commands = command :: rest) (failure : String) :
    ((task.take command rest).reaped.fail failure).left < task.left := by
  simp only [left, take, reaped, fail, h, List.length_cons, Bool.false_eq_true, if_false]
  omega

theorem taskPass_computes (env : Env W) (phase : Phase) (failFast : Bool) :
    Computes (taskPass env phase failFast) (fun s => s.2.1.left)
      fun s => advanceCommands env phase failFast s.1 s.2.1 s.2.2 := by
  rintro ⟨io, task, results⟩
  dsimp only
  have hreaped : ∀ (io : Io W) (task : ActiveTask) (results : Results), task.child = false →
      spawnCommands env phase failFast task.commands io task results
        = advanceCommands env phase failFast io task results :=
    fun io task results h => (advanceCommands_of_reaped env phase failFast io h results).symm
  cases hchild : task.child with
  | true =>
    unfold taskPass
    rw [advanceCommands]
    simp only [hchild, if_true]
    rcases env.tryWait io.world task with ⟨error | (_ | status), world⟩
    · cases failFast with
      | true => rfl
      | false => exact ⟨(task.left_reaped hchild _).2, hreaped _ _ _ rfl⟩
    · rfl
    · simp only [childExited]
      cases hservice : task.reaped.service with
      | true =>
        cases status.success with
        | true => rfl
        | false =>
          by_cases hleft : 0 < task.reaped.serviceRestartsLeft
          · simp only [hleft, if_true, Bool.false_eq_true, if_false]
            exact ⟨task.left_requeued hchild hleft _, hreaped _ _ _ rfl⟩
          · simp only [hleft, if_true, Bool.false_eq_true, if_false]
      | false =>
        cases status.success with
        | true => exact ⟨(task.left_reaped hchild "").1, hreaped _ _ _ rfl⟩
        | false =>
          cases failFast with
          | true => rfl
          | false => exact ⟨(task.left_reaped hchild _).2, hreaped _ _ _ rfl⟩
  | false =>
    rw [← hreaped io task results hchild]
    unfold taskPass
    simp only [hchild, Bool.false_eq_true, if_false]
    cases hcommands : task.commands with
    | nil =>
      simp only [spawnCommands]
      rw [← hcommands]
    | cons command rest =>
      simp only [spawnCommands]
      rcases env.spawn io.world (task.take command rest) command with ⟨error | ⟨⟩, world⟩
      · cases failFast with
        | true => rfl
        | false =>
          exact ⟨task.left_take hcommands _, hreaped _ ((task.take command rest).reaped.fail _) _ rfl⟩
      · rfl

/-! ### The slots and the stage's tasks -/

/-- One pass of the loop of `fill_available_slots`. -/
def fillPass (run : Run) : Loops.Pass Run Run :=
  if run.active.length < run.stageLimit then
    match run.queued with
    | [] => .leave run
    | task :: rest => .again { run with queued := rest, active := run.active ++ [.ofPlan task] }
  else .leave run

theorem fillPass_computes :
    Computes fillPass (fun run => run.queued.length) fun run => fillAvailableSlots run.queued run := by
  intro run
  dsimp only
  unfold fillPass
  by_cases hroom : run.active.length < run.stageLimit
  · rw [if_pos hroom]
    cases hqueued : run.queued with
    | nil => rfl
    | cons task rest =>
      rw [fillAvailableSlots, if_pos hroom]
      exact ⟨Nat.lt_succ_self _, rfl⟩
  · rw [if_neg hroom]
    cases hqueued : run.queued with
    | nil => rfl
    | cons task rest => rw [fillAvailableSlots, if_neg hroom]

/-- One pass of the loop over the active tasks, by its index. -/
def scanPass (ex : Executor) (env : Env W) :
    Nat × Bool × Io W × Run → Loops.Pass (Nat × Bool × Io W × Run) (Io W × Run × Scanned)
  | (index, taskFinished, io, run) =>
    match run.active[index]? with
    | none => .leave (io, run, .polled taskFinished)
    | some task =>
      match advanceTask env .original ex.failFast io task run.results with
      | (io, task, results, .running) =>
        if task.service then
          .again (index, taskFinished, io,
            { run with
              results, active := run.active.eraseIdx index, services := run.services ++ [task] })
        else
          .again (index + 1, taskFinished, io, { run with results, active := run.active.set index task })
      | (io, task, results, .finished) =>
        let (io, run) := deferOrRecord env io
          { run with results, active := run.active.eraseIdx index } task
        .again (index, true, io, run)
      | (io, task, results, .failedFast) =>
        let (io, run) := deferOrRecord env io
          { run with results, active := run.active.eraseIdx index } task
        .leave (io, run, .failedFast)

/-- A list around the element at an index: with it, without it, and with another in its place. -/
theorem around_index {α : Type} {l : List α} {index : Nat} {a : α} (h : l[index]? = some a) :
    ∃ seen rest, seen.length = index ∧ l.length = index + rest.length + 1 ∧ l.take index = seen ∧
      l.drop index = a :: rest ∧ l.eraseIdx index = seen ++ rest ∧
      ∀ b, l.set index b = seen ++ b :: rest := by
  obtain ⟨hindex, rfl⟩ := List.getElem?_eq_some_iff.mp h
  refine ⟨l.take index, l.drop (index + 1), ?_, ?_, rfl, List.drop_eq_getElem_cons hindex,
    List.eraseIdx_eq_take_drop_succ l index, fun b => ?_⟩
  · rw [List.length_take]
    omega
  · rw [List.length_drop]
    omega
  · rw [List.set_eq_take_append_cons_drop, if_pos hindex]

theorem scanPass_computes (ex : LawfulExecutor) (env : Env W) :
    Computes (scanPass ex env) (fun s => s.2.2.2.active.length - s.1) fun s =>
      scanActive ex env (s.2.2.2.active.take s.1) (s.2.2.2.active.drop s.1) s.2.1 s.2.2.1 s.2.2.2 := by
  rintro ⟨index, taskFinished, io, run⟩
  simp only [scanPass]
  cases htask : run.active[index]? with
  | none =>
    simp only
    rw [List.drop_eq_nil_of_le (List.getElem?_eq_none_iff.mp htask), scanActive]
  | some task =>
    obtain ⟨seen, rest, hindex, hlength, htake, hdrop, herase, hset⟩ := around_index htask
    rw [htake, hdrop, scanActive]
    simp only [herase, hset]
    rcases advanceTask env .original ex.failFast io task run.results with
      ⟨io', task', results, _ | _ | _⟩
    · cases hservice : task'.service with
      | true =>
        simp only [hservice, if_true, List.take_left' hindex, List.drop_left' hindex]
        refine ⟨?_, trivial⟩
        rw [List.length_append]
        omega
      | false =>
        have hlater : (seen ++ [task']).length = index + 1 := by simp [hindex]
        have hsplit : seen ++ task' :: rest = (seen ++ [task']) ++ rest := by simp
        simp only [hservice, Bool.false_eq_true, if_false, hsplit, List.take_left' hlater,
          List.drop_left' hlater]
        refine ⟨?_, trivial⟩
        rw [List.length_append]
        omega
    · have hactive := (deferOrRecord_frame env io' { run with results, active := seen ++ rest } task').1
      simp only at hactive ⊢
      rw [hactive, List.take_left' hindex, List.drop_left' hindex]
      refine ⟨?_, rfl⟩
      rw [List.length_append]
      omega
    · rfl

/-! ### Background services -/

/-- One pass of the loop of `advance_services`, by its index. -/
def servicesPass (env : Env W) : Nat × Io W × Run → Loops.Pass (Nat × Io W × Run) (Io W × Run)
  | (index, io, run) =>
    match run.services[index]? with
    | none => .leave (io, run)
    | some service =>
      match advanceService env io { run with services := run.services.eraseIdx index } service with
      | (io, advanced, some service) =>
        .again (index + 1, io, { advanced with services := run.services.set index service })
      | (io, advanced, none) => .again (index, io, advanced)

/-- What is left of the background set is for the loop to say. -/
theorem advanceService_services (env : Env W) (io : Io W) (run : Run) (service : ActiveTask) :
    (advanceService env io run service).2.1.services = run.services := by
  unfold advanceService
  split
  · split
    · rfl
    · unfold serviceExited
      simp only
      split
      · rfl
      · split <;> rfl
    · rfl
  · unfold respawnService
    split
    · rfl
    · simp only
      split <;> rfl

theorem servicesPass_computes (env : Env W) :
    Computes (servicesPass env) (fun s => s.2.2.services.length - s.1) fun s =>
      advanceServicesFrom env (s.2.2.services.take s.1) (s.2.2.services.drop s.1) s.2.1 s.2.2 := by
  rintro ⟨index, io, run⟩
  simp only [servicesPass]
  cases hservice : run.services[index]? with
  | none =>
    simp only
    rw [List.drop_eq_nil_of_le (List.getElem?_eq_none_iff.mp hservice), advanceServicesFrom]
  | some service =>
    obtain ⟨kept, rest, hindex, hlength, htake, hdrop, herase, hset⟩ := around_index hservice
    have hservices := advanceService_services env io { run with services := kept ++ rest } service
    rw [htake, hdrop, advanceServicesFrom]
    simp only [herase, hset]
    rcases hadvanced : advanceService env io { run with services := kept ++ rest } service with
      ⟨io', run', _ | service'⟩
    · rw [hadvanced] at hservices
      simp only at hservices ⊢
      rw [hservices, List.take_left' hindex, List.drop_left' hindex]
      refine ⟨?_, rfl⟩
      rw [List.length_append]
      omega
    · have hlater : (kept ++ [service']).length = index + 1 := by simp [hindex]
      have hsplit : kept ++ service' :: rest = (kept ++ [service']) ++ rest := by simp
      simp only [hsplit, List.take_left' hlater, List.drop_left' hlater]
      refine ⟨?_, trivial⟩
      rw [List.length_append]
      omega

/-! ### The stage loop -/

/-- One pass of the loop of `advance`. -/
def advancePass (ex : Executor) (env : Env W) (polls : Nat) :
    Io W × Run → Loops.Pass (Io W × Run) (Io W × Run × Progress)
  | (io, run) =>
    if run.active = [] ∧ run.queued = [] ∧ run.stages = [] then
      if run.services = [] then .leave (io, run, .returned .finished)
      else
        let (io, run) := advanceServices env io run
        .leave (io, run, .returned .running)
    else
      let (io, run) := openStage env io run
      match scanActive ex env [] run.active false io run with
      | (io, run, .failedFast) => .leave (endFailFast ex env polls io run)
      | (io, run, .polled taskFinished) =>
        let (io, run) := advanceServices env io run
        if run.active = [] ∧ run.queued = [] then
          if run.pendingRecoveries ≠ [] then
            match resolveRecoveries ex env polls io run with
            | (io, run, .done) => .again (io, run)
            | (io, run, .interrupted) => .leave (io, run, .returned .running)
            | (io, run, .waiting) => .leave (io, run, .waiting)
          else if run.services = [] then .again (io, run)
          else .leave (io, run, .returned .running)
        else if taskFinished ∧ run.active.length < run.stageLimit ∧ run.queued ≠ [] then .again (io, run)
        else .leave (io, run, .returned .running)

theorem advanceLoop_succ (ex : LawfulExecutor) (env : Env W) (polls fuel : Nat) (io : Io W) (run : Run) :
    advanceLoop ex env polls (fuel + 1) io run
      = match advancePass ex env polls (io, run) with
        | .leave r => r
        | .again s => advanceLoop ex env polls fuel s.1 s.2 := by
  rw [advanceLoop]
  simp only [advancePass]
  by_cases hend : run.active = [] ∧ run.queued = [] ∧ run.stages = []
  · simp only [if_pos hend]
    by_cases hservices : run.services = []
    · simp only [if_pos hservices]
    · simp only [if_neg hservices]
  · simp only [if_neg hend]
    rcases openStage env io run with ⟨io₁, run₁⟩
    simp only
    rcases scanActive ex env [] run₁.active false io₁ run₁ with ⟨io₂, run₂, taskFinished | _⟩
    · simp only
      rcases advanceServices env io₂ run₂ with ⟨io₃, run₃⟩
      simp only
      by_cases hdrained : run₃.active = [] ∧ run₃.queued = []
      · simp only [if_pos hdrained]
        by_cases hpending : run₃.pendingRecoveries ≠ []
        · simp only [if_pos hpending]
          rcases resolveRecoveries ex env polls io₃ run₃ with ⟨io₄, run₄, _ | _ | _⟩ <;> rfl
        · simp only [if_neg hpending]
          by_cases hservices : run₃.services = []
          · simp only [if_pos hservices]
          · simp only [if_neg hservices]
      · simp only [if_neg hdrained]
        by_cases hroom : taskFinished = true ∧ run₃.active.length < run₃.stageLimit ∧ run₃.queued ≠ []
        · simp only [if_pos hroom]
        · simp only [if_neg hroom]
    · rfl

/-- The fuel of `advanceLoop` bounds the passes: with enough of it the loop is run to its end. -/
theorem advanceLoop_eq (ex : LawfulExecutor) (env : Env W) (polls : Nat) {s : Io W × Run} {k : Nat}
    {r : Io W × Run × Progress} (h : Ends (advancePass ex env polls) s k r) :
    ∀ fuel, k ≤ fuel → advanceLoop ex env polls fuel s.1 s.2 = r := by
  induction h with
  | leave hpass =>
    intro fuel hfuel
    obtain ⟨fuel, rfl⟩ := Nat.exists_eq_add_of_le' hfuel
    rw [advanceLoop_succ, hpass]
  | again hpass _ ih =>
    intro fuel hfuel
    obtain ⟨fuel, rfl⟩ := Nat.exists_eq_add_of_le' (Nat.le_of_add_left_le hfuel)
    rw [advanceLoop_succ, hpass]
    exact ih fuel (by omega)

/-- The pass over the active tasks takes none up, and takes one off when it says so. -/
theorem scanActive_work (ex : LawfulExecutor) (env : Env W) : ∀ (rest seen : List ActiveTask) (finished : Bool)
    (io : Io W) (run : Run), run.active = seen ++ rest →
    let r := scanActive ex env seen rest finished io run
    r.2.1.stages = run.stages ∧ r.2.1.queued = run.queued ∧
      r.2.1.active.length ≤ run.active.length ∧
      (r.2.2 = .polled true → finished = true ∨ r.2.1.active.length < run.active.length) := by
  intro rest
  induction rest with
  | nil =>
    intro seen finished io run _
    refine ⟨rfl, rfl, le_rfl, fun h => .inl ?_⟩
    cases h
    rfl
  | cons task rest ih =>
    intro seen finished io run hactive
    have hlength : run.active.length = seen.length + rest.length + 1 := by
      rw [hactive, List.length_append, List.length_cons]
      omega
    rw [scanActive]
    rcases advanceTask env .original ex.failFast io task run.results with
      ⟨io', task', results, _ | _ | _⟩
    · cases hservice : task'.service with
      | true =>
        simp only [hservice, if_true]
        obtain ⟨hstages, hqueued, hless, hpolled⟩ := ih seen finished io'
          { run with results, active := seen ++ rest, services := run.services ++ [task'] } rfl
        rw [List.length_append] at hless hpolled
        refine ⟨hstages, hqueued, by omega, fun h => (hpolled h).imp_right fun _ => by omega⟩
      | false =>
        simp only [hservice, Bool.false_eq_true, if_false]
        obtain ⟨hstages, hqueued, hless, hpolled⟩ := ih (seen ++ [task']) finished io'
          { run with results, active := seen ++ task' :: rest } (by simp)
        rw [List.length_append, List.length_cons] at hless hpolled
        refine ⟨hstages, hqueued, by omega, fun h => (hpolled h).imp_right fun _ => by omega⟩
    · obtain ⟨hactive', hqueued', hstages', -, -⟩ := deferOrRecord_frame env io'
        { run with results, active := seen ++ rest } task'
      simp only at hactive' hqueued' hstages' ⊢
      obtain ⟨hstages, hqueued, hless, -⟩ := ih seen true
        (deferOrRecord env io' { run with results, active := seen ++ rest } task').1
        (deferOrRecord env io' { run with results, active := seen ++ rest } task').2 hactive'
      rw [hactive', List.length_append] at hless
      exact ⟨hstages.trans hstages', hqueued.trans hqueued', by omega, fun _ => .inr (by omega)⟩
    · obtain ⟨hactive', hqueued', hstages', -, -⟩ := deferOrRecord_frame env io'
        { run with results, active := seen ++ rest } task'
      simp only at hactive' hqueued' hstages' ⊢
      refine ⟨hstages', hqueued', ?_, fun h => by cases h⟩
      rw [hactive', List.length_append]
      omega

/-! ### The recovery pass keeps the stages -/

theorem keepFailures_sameQueue (env : Env W) (announce : Io W → Run → ActiveTask → Io W) :
    ∀ (tasks : List ActiveTask) (io : Io W) (run : Run),
      run.SameQueue (keepFailures env announce tasks io run).2 := by
  intro tasks
  induction tasks with
  | nil => exact fun io run => ⟨rfl, rfl, rfl, rfl, rfl⟩
  | cons task rest ih =>
    intro io run
    rw [keepFailures]
    obtain ⟨hactive, hqueued, hstages, hservices, hmetadata⟩ := ih
      (recordTaskOutcome env (announce io run task) { run with
        pendingRecoveries := rest, results := run.results ++ [.error task.firstFailure] } task).1
      (recordTaskOutcome env (announce io run task) { run with
        pendingRecoveries := rest, results := run.results ++ [.error task.firstFailure] } task).2
    exact ⟨hactive, hqueued, hstages, hservices, hmetadata⟩

theorem verifyRecovery_sameQueue (env : Env W) (polls : Nat) (io : Io W) (run : Run) (task : ActiveTask)
    (remaining : List ActiveTask) :
    run.SameQueue (verifyRecovery env polls io run task remaining).2.1 := by
  unfold verifyRecovery
  simp only
  split <;> exact ⟨rfl, rfl, rfl, rfl, rfl⟩

theorem runRecoveries_sameQueue (env : Env W) (polls : Nat) :
    ∀ (tasks : List ActiveTask) (io : Io W) (run : Run),
      run.SameQueue (runRecoveries env polls tasks io run).2.1 := by
  intro tasks
  induction tasks with
  | nil => exact fun io run => ⟨rfl, rfl, rfl, rfl, rfl⟩
  | cons task remaining ih =>
    intro io run
    rw [runRecoveries]
    simp only
    cases task.recoveryCommands with
    | none =>
      obtain ⟨hactive, hqueued, hstages, hservices, hmetadata⟩ := ih
        (recordTaskOutcome env (emitRecoveryPhase io run task.name "approval_decided" (some "approved"))
          { run with pendingRecoveries := remaining } task).1
        (recordTaskOutcome env (emitRecoveryPhase io run task.name "approval_decided" (some "approved"))
          { run with pendingRecoveries := remaining } task).2
      exact ⟨hactive, hqueued, hstages, hservices, hmetadata⟩
    | some commands =>
      simp only
      split
      · exact ⟨rfl, rfl, rfl, rfl, rfl⟩
      · exact ⟨rfl, rfl, rfl, rfl, rfl⟩
      · next io' recovered _ =>
        split
        · have hsame := verifyRecovery_sameQueue env polls
            (emitRecoveryPhase io' run recovered.name "recovery_finished" (some "passed")) run recovered
            remaining
          split
          · next io'' run'' h =>
            rw [h] at hsame
            exact hsame.trans (ih io'' run'')
          · next h =>
            rwa [h] at hsame
        · obtain ⟨hactive, hqueued, hstages, hservices, hmetadata⟩ :=
            keepFailures_sameQueue env (fun io _ _ => io) remaining
              (recordTaskOutcome env _ _ _).1 (recordTaskOutcome env _ _ _).2
          exact ⟨hactive, hqueued, hstages, hservices, hmetadata⟩

theorem actOnDecision_sameQueue (env : Env W) (polls : Nat) (io : Io W) (run : Run)
    (decision : ApprovalDecision) : run.SameQueue (actOnDecision env polls io run decision).2.1 := by
  unfold actOnDecision
  simp only
  split
  · exact .refl run
  · split
    · exact runRecoveries_sameQueue env polls run.pendingRecoveries _ run
    · exact keepFailures_sameQueue env _ run.pendingRecoveries _ run

theorem resolveRecoveries_sameQueue (ex : LawfulExecutor) (env : Env W) (polls : Nat) (io : Io W) (run : Run) :
    run.SameQueue (resolveRecoveries ex env polls io run).2.1 := by
  unfold resolveRecoveries
  simp only
  split
  · exact ⟨rfl, rfl, rfl, rfl, rfl⟩
  · split
    · exact ⟨rfl, rfl, rfl, rfl, rfl⟩
    · split
      · split
        · obtain ⟨hactive, hqueued, hstages, hservices, hmetadata⟩ :=
            actOnDecision_sameQueue env polls _ _ _
          exact ⟨hactive, hqueued, hstages, hservices, hmetadata⟩
        · exact ⟨rfl, rfl, rfl, rfl, rfl⟩
      · obtain ⟨hactive, hqueued, hstages, hservices, hmetadata⟩ :=
          actOnDecision_sameQueue env polls _ _ .declined
        exact ⟨hactive, hqueued, hstages, hservices, hmetadata⟩

/-! ### The stage loop ends -/

/-- A pass of `advance` that goes on has used up a stage or a task. -/
theorem advancePass_work {ex : LawfulExecutor} {env : Env W} {polls : Nat} {s s' : Io W × Run}
    (h : advancePass ex env polls s = .again s') : s'.2.work < s.2.work := by
  obtain ⟨io, run⟩ := s
  simp only [advancePass] at h
  by_cases hend : run.active = [] ∧ run.queued = [] ∧ run.stages = []
  · rw [if_pos hend] at h
    split at h <;> cases h
  · rw [if_neg hend] at h
    obtain ⟨hwork₁, hless₁, hstages₁⟩ := openStage_work env io run hend
    rcases hr₁ : openStage env io run with ⟨io₁, run₁⟩
    simp only [hr₁] at h hwork₁ hless₁ hstages₁
    obtain ⟨hstages₂, hqueued₂, hlength₂, hfinished⟩ :=
      scanActive_work ex env run₁.active [] false io₁ run₁ rfl
    rcases hr₂ : scanActive ex env [] run₁.active false io₁ run₁ with ⟨io₂, run₂, taskFinished | _⟩
    · simp only [hr₂] at h hstages₂ hqueued₂ hlength₂ hfinished
      obtain ⟨-, -, hsame⟩ := advanceServices_moves true env io₂ run₂
      rcases hr₃ : advanceServices env io₂ run₂ with ⟨io₃, run₃⟩
      simp only [hr₃] at h hsame
      have hwork₃ : run₃.work = run₂.work :=
        Run.work_eq_of_same hsame.stages hsame.queued hsame.active
      have hwork₂ : run₂.work ≤ run₁.work := by
        simp only [Run.work, hstages₂, hqueued₂]
        omega
      have hless : run₃.Drained → run₃.work < run.work := by
        intro hdrained'
        by_cases hdrained : run.Drained
        · have := hless₁ hdrained
          omega
        · exact run.work_lt_of_drained hdrained hdrained'
            (hsame.stages.trans (hstages₂.trans (hstages₁ hdrained)))
      by_cases hdrained₃ : run₃.active = [] ∧ run₃.queued = []
      · rw [if_pos hdrained₃] at h
        by_cases hpending : run₃.pendingRecoveries ≠ []
        · rw [if_pos hpending] at h
          have hqueue := resolveRecoveries_sameQueue ex env polls io₃ run₃
          rcases hr₄ : resolveRecoveries ex env polls io₃ run₃ with ⟨io₄, run₄, _ | _ | _⟩
          · rw [hr₄] at h hqueue
            cases h
            have hwork₄ := Run.work_eq_of_same hqueue.stages hqueue.queued hqueue.active
            have hlt := hless hdrained₃
            simp only at hwork₄ ⊢
            omega
          · rw [hr₄] at h
            cases h
          · rw [hr₄] at h
            cases h
        · rw [if_neg hpending] at h
          by_cases hservices : run₃.services = []
          · rw [if_pos hservices] at h
            cases h
            exact hless hdrained₃
          · rw [if_neg hservices] at h
            cases h
      · rw [if_neg hdrained₃] at h
        by_cases hroom : taskFinished = true ∧ run₃.active.length < run₃.stageLimit ∧ run₃.queued ≠ []
        · rw [if_pos hroom] at h
          cases h
          have hlt : run₂.work < run₁.work := by
            have hone := (hfinished (by rw [hroom.1])).resolve_left (by decide)
            simp only [Run.work, hstages₂, hqueued₂]
            omega
          simp only
          omega
        · rw [if_neg hroom] at h
          cases h
    · rw [hr₂] at h
      cases h

/-- The loop of `advance` leaves, whatever the run holds. -/
theorem advanceLoop_ends (ex : LawfulExecutor) (env : Env W) (polls : Nat) (io : Io W) (run : Run) :
    ∃ k ≤ run.work + 1, Ends (advancePass ex env polls) (io, run) k
      (advanceLoop ex env polls (run.work + 1) io run) := by
  obtain ⟨k, r, hk, hends⟩ := Loops.exists_ends (advancePass ex env polls) (fun s => s.2.work)
    (fun _ _ h => advancePass_work h) (io, run)
  refine ⟨k, hk, ?_⟩
  rw [advanceLoop_eq ex env polls hends _ hk]
  exact hends

/-! ### What the call may still wait for -/

theorem advanceTask_recoveryCommands (env : Env W) (phase : Phase) (failFast : Bool) (io : Io W)
    (task : ActiveTask) (results : Results) :
    (advanceTask env phase failFast io task results).2.1.recoveryCommands = task.recoveryCommands := by
  have hspawn : ∀ (commands : List CommandLine) (io : Io W) (task : ActiveTask) (results : Results),
      (spawnCommands env phase failFast commands io task results).2.1.recoveryCommands
        = task.recoveryCommands := by
    intro commands
    induction commands with
    | nil => exact fun _ _ _ => rfl
    | cons command rest ih =>
      intro io task results
      rw [spawnCommands]
      split
      · rfl
      · simp only
        split
        · rfl
        · exact ih _ _ _
  have hcommands : ∀ (task : ActiveTask),
      (advanceCommands env phase failFast io task results).2.1.recoveryCommands
        = task.recoveryCommands := by
    intro task
    unfold advanceCommands
    split
    · split
      · rfl
      · unfold childExited
        simp only
        split
        · split
          · rfl
          · split
            · exact hspawn _ _ _ _
            · rfl
        · split
          · exact hspawn _ _ _ _
          · split
            · rfl
            · exact hspawn _ _ _ _
      · simp only
        split
        · rfl
        · exact hspawn _ _ _ _
    · exact hspawn _ _ _ _
  unfold advanceTask
  split
  · exact hcommands task
  · simp only
    split
    · split
      · exact hcommands _
      · rfl
    · exact hcommands _

/-- No job that the run still has to end declares a recovery, and none is waiting for one. -/
structure Run.Unrecovered (run : Run) : Prop where
  pending : run.pendingRecoveries = []
  active : ∀ task ∈ run.active, task.recoveryCommands = none
  queued : ∀ task ∈ run.queued, task.recoveryCommands = none
  stages : ∀ task ∈ run.stages.flatMap stageTasks, task.recoveryCommands = none

theorem Run.Unrecovered.fill : ∀ (queued : List TaskPlan) {run : Run}, run.queued = queued →
    run.Unrecovered → (fillAvailableSlots queued run).Unrecovered := by
  intro queued
  induction queued with
  | nil => exact fun _ h => h
  | cons task rest ih =>
    intro run hqueued h
    rw [fillAvailableSlots]
    split
    · refine ih rfl ⟨h.pending, ?_, ?_, h.stages⟩
      · intro t ht
        rcases List.mem_append.mp ht with ht | ht
        · exact h.active t ht
        · rw [List.mem_singleton.mp ht]
          exact h.queued task (by simp [hqueued])
      · exact fun t ht => h.queued t (by rw [hqueued]; exact List.mem_cons_of_mem _ ht)
    · exact h

theorem Run.Unrecovered.openStage {run : Run} (h : run.Unrecovered) (env : Env W) (io : Io W) :
    (Funzzy.openStage env io run).2.Unrecovered := by
  unfold Funzzy.openStage
  dsimp only
  cases hstages : run.stages with
  | nil => exact .fill run.queued rfl h
  | cons stage rest =>
    dsimp only
    split
    · have hall : ∀ task ∈ stageTasks stage ++ rest.flatMap stageTasks, task.recoveryCommands = none := by
        have := h.stages
        rwa [hstages, List.flatMap_cons] at this
      refine .fill _ rfl ⟨h.pending, h.active, fun t ht => ?_,
        fun t ht => hall t (List.mem_append_right _ ht)⟩
      rcases List.mem_append.mp ht with ht | ht
      · exact h.queued t ht
      · exact hall t (List.mem_append_left _ ht)
    · exact .fill run.queued rfl h

theorem Run.Unrecovered.deferOrRecord {run : Run} (h : run.Unrecovered) (env : Env W) (io : Io W)
    {task : ActiveTask} (htask : task.recoveryCommands = none) :
    (Funzzy.deferOrRecord env io run task).2.Unrecovered := by
  unfold Funzzy.deferOrRecord
  rw [if_neg (by simp [htask])]
  exact ⟨h.pending, h.active, h.queued, h.stages⟩

theorem Run.Unrecovered.scanActive (ex : LawfulExecutor) (env : Env W) : ∀ (rest seen : List ActiveTask)
    (finished : Bool) (io : Io W) {run : Run}, run.active = seen ++ rest → run.Unrecovered →
      (Funzzy.scanActive ex env seen rest finished io run).2.1.Unrecovered := by
  intro rest
  induction rest with
  | nil => exact fun _ _ _ _ _ h => h
  | cons task rest ih =>
    intro seen finished io run hactive h
    have htask := h.active task (by simp [hactive])
    have hkeep := advanceTask_recoveryCommands env .original ex.failFast io task run.results
    have hothers : ∀ t ∈ seen ++ rest, t.recoveryCommands = none := by
      intro t ht
      refine h.active t ?_
      rw [hactive]
      simp only [List.mem_append, List.mem_cons] at ht ⊢
      tauto
    rw [Funzzy.scanActive]
    rcases hr : advanceTask env .original ex.failFast io task run.results with
      ⟨io', task', results, _ | _ | _⟩
    · rw [hr] at hkeep
      have htask' : task'.recoveryCommands = none := hkeep.trans htask
      simp only
      split
      · exact ih seen finished io' rfl ⟨h.pending, hothers, h.queued, h.stages⟩
      · refine ih (seen ++ [task']) finished io' (by simp) ⟨h.pending, fun t ht => ?_, h.queued, h.stages⟩
        simp only [List.mem_append, List.mem_cons] at ht
        rcases ht with ht | rfl | ht
        · exact hothers t (List.mem_append_left _ ht)
        · exact htask'
        · exact hothers t (List.mem_append_right _ ht)
    · rw [hr] at hkeep
      have hrest : Run.Unrecovered { run with results, active := seen ++ rest } :=
        ⟨h.pending, hothers, h.queued, h.stages⟩
      have hactive' := (deferOrRecord_frame env io' { run with results, active := seen ++ rest } task').1
      exact ih seen true _ hactive' (hrest.deferOrRecord env io' (hkeep.trans htask))
    · rw [hr] at hkeep
      have hrest : Run.Unrecovered { run with results, active := seen ++ rest } :=
        ⟨h.pending, hothers, h.queued, h.stages⟩
      exact hrest.deferOrRecord env io' (hkeep.trans htask)

/-- Without a recovery to run, a pass of `advance` goes on in the same way or leaves with a step. -/
def Unawaited : Loops.Pass (Io W × Run) (Io W × Run × Progress) → Prop
  | .again s => s.2.Unrecovered
  | .leave r => ∃ step, r.2.2 = .returned step

theorem advancePass_unawaited (ex : LawfulExecutor) (env : Env W) (polls : Nat) (io : Io W) {run : Run}
    (h : run.Unrecovered) : Unawaited (advancePass ex env polls (io, run)) := by
  simp only [advancePass]
  by_cases hend : run.active = [] ∧ run.queued = [] ∧ run.stages = []
  · rw [if_pos hend]
    by_cases hservices : run.services = []
    · rw [if_pos hservices]
      exact ⟨.finished, rfl⟩
    · rw [if_neg hservices]
      exact ⟨.running, rfl⟩
  · rw [if_neg hend]
    have hopen := h.openStage env io
    rcases hr₁ : openStage env io run with ⟨io₁, run₁⟩
    rw [hr₁] at hopen
    have hscan := Run.Unrecovered.scanActive ex env run₁.active [] false io₁ rfl hopen
    simp only
    rcases hr₂ : scanActive ex env [] run₁.active false io₁ run₁ with ⟨io₂, run₂, taskFinished | _⟩
    · rw [hr₂] at hscan
      simp only at hscan ⊢
      obtain ⟨-, -, hsame⟩ := advanceServices_moves true env io₂ run₂
      rcases hr₃ : advanceServices env io₂ run₂ with ⟨io₃, run₃⟩
      rw [hr₃] at hsame
      simp only at hsame ⊢
      have hrun₃ : run₃.Unrecovered := by
        refine ⟨hsame.pending.trans hscan.pending, ?_, ?_, ?_⟩
        · rw [hsame.active]
          exact hscan.active
        · rw [hsame.queued]
          exact hscan.queued
        · rw [hsame.stages]
          exact hscan.stages
      rw [if_neg (not_not.mpr hrun₃.pending)]
      by_cases hdrained : run₃.active = [] ∧ run₃.queued = []
      · rw [if_pos hdrained]
        by_cases hservices : run₃.services = []
        · rw [if_pos hservices]
          exact hrun₃
        · rw [if_neg hservices]
          exact ⟨.running, rfl⟩
      · rw [if_neg hdrained]
        by_cases hroom : taskFinished = true ∧ run₃.active.length < run₃.stageLimit ∧ run₃.queued ≠ []
        · rw [if_pos hroom]
          exact hrun₃
        · rw [if_neg hroom]
          exact ⟨.running, rfl⟩
    · rw [hr₂] at hscan
      have hstop := (stopAfterFailure_aside env io₂ run₂).pending
      simp only [endFailFast]
      rcases hr₃ : stopAfterFailure env io₂ run₂ with ⟨io₃, run₃⟩
      rw [hr₃] at hstop
      simp only
      rw [if_pos (hstop.trans hscan.pending)]
      exact ⟨.finished, rfl⟩

theorem advanceLoop_returned (ex : LawfulExecutor) (env : Env W) (polls : Nat) (io : Io W) {run : Run}
    (h : run.Unrecovered) :
    ∃ step, (advanceLoop ex env polls (run.work + 1) io run).2.2 = .returned step := by
  obtain ⟨k, -, hends⟩ := advanceLoop_ends ex env polls io run
  have hpass : ∀ s : Io W × Run, s.2.Unrecovered → Unawaited (advancePass ex env polls s) :=
    fun s hs => advancePass_unawaited ex env polls s.1 hs
  have hagain : ∀ s s' : Io W × Run, s.2.Unrecovered → advancePass ex env polls s = .again s' →
      s'.2.Unrecovered := by
    intro s s' hs heq
    have hone := hpass s hs
    rwa [heq] at hone
  have hleave : ∀ (s : Io W × Run) (r : Io W × Run × Progress), s.2.Unrecovered →
      advancePass ex env polls s = .leave r → ∃ step, r.2.2 = .returned step := by
    intro s r hs heq
    have hone := hpass s hs
    rwa [heq] at hone
  exact Ends.meets hagain hleave hends h

theorem advancePass_not_spinning {ex : LawfulExecutor} {env : Env W} {polls : Nat} {s : Io W × Run}
    {r : Io W × Run × Progress} (h : advancePass ex env polls s = .leave r) : r.2.2 ≠ .spinning := by
  obtain ⟨io, run⟩ := s
  simp only [advancePass, endFailFast] at h
  intro hspinning
  split at h
  · split at h <;> (cases h; cases hspinning)
  · split at h
    · split at h
      · cases h; cases hspinning
      · split at h <;> (cases h; cases hspinning)
    · split at h
      · split at h
        · split at h <;> (cases h; try cases hspinning)
        · split at h <;> (cases h; try cases hspinning)
      · split at h <;> (cases h; try cases hspinning)

/-! ### What a call comes to -/

/-- Every command starts, the child of a recovery is running at every poll, and nothing cancels. -/
structure Env.Hangs (env : Env W) : Prop where
  spawns : ∀ world task command, (env.spawn world task command).1 = .ok ()
  running : ∀ world task, task.recoveryCommands = none → (env.tryWait world task).1 = .ok none
  unset : ∀ world, (env.signal world).1 = false

/-- A recovery whose child neither ends nor is cancelled is waited for inside the call. -/
theorem Env.Hangs.awaitTask {env : Env W} (h : env.Hangs) (phase : Phase) :
    ∀ (polls : Nat) (io : Io W) (task : ActiveTask) (results : Results), io.token = false →
      task.recoveryCommands = none → task.contextValidated = true →
      (task.child = true ∨ task.commands ≠ []) →
      (Funzzy.awaitTask env phase polls io task results).2.2 = .waiting := by
  intro polls
  induction polls with
  | zero => exact fun _ _ _ _ _ _ _ => rfl
  | succ polls ih =>
    intro io task results htoken hnone hvalidated hgoes
    rw [Funzzy.awaitTask, advanceTask, if_pos hvalidated, advanceCommands]
    cases hchild : task.child with
    | true =>
      have hpoll := h.running io.world task hnone
      rcases hr : env.tryWait io.world task with ⟨answer, world⟩
      rw [hr] at hpoll
      simp only at hpoll
      subst hpoll
      simp only [if_true, Io.cancellationRequested, Io.emit, Io.record, htoken, h.unset, Bool.or_false]
      exact ih _ _ _ (by simp) hnone hvalidated (.inl hchild)
    | false =>
      obtain ⟨command, rest, hcommands⟩ :=
        List.exists_cons_of_ne_nil (hgoes.resolve_left (by rw [hchild]; decide))
      have hstarts := h.spawns io.world (task.take command rest) command
      rcases hr : env.spawn io.world (task.take command rest) command with ⟨answer, world⟩
      rw [hr] at hstarts
      simp only at hstarts
      subst hstarts
      simp only [Bool.false_eq_true, if_false, hcommands, spawnCommands, hr, Io.cancellationRequested,
        Io.emit, Io.record, htoken, h.unset, Bool.or_false]
      exact ih _ _ _ (by simp) hnone hvalidated (.inl rfl)

theorem Env.Hangs.runRecoveries {env : Env W} (h : env.Hangs) (polls : Nat) (io : Io W) (run : Run)
    {task : ActiveTask} {commands : List CommandLine} (remaining : List ActiveTask)
    (htoken : io.token = false) (hcommands : task.recoveryCommands = some commands)
    (hsome : commands ≠ []) (hvalidated : task.contextValidated = true) :
    (Funzzy.runRecoveries env polls (task :: remaining) io run).2.2 = .waiting := by
  have hawait := h.awaitTask .recovery polls
    (emitRecoveryPhase (emitRecoveryPhase io run task.name "approval_decided" (some "approved")) run
      task.name "recovery_started" none)
    ({ task with recoveryCommands := none }.restart commands) [] htoken rfl hvalidated (.inr hsome)
  rw [Funzzy.runRecoveries]
  simp only [hcommands]
  split
  · rfl
  · next hr =>
    rw [hr] at hawait
    cases hawait
  · next hr =>
    rw [hr] at hawait
    cases hawait

/-- A question that is answered with a yes at once. -/
theorem Env.Hangs.awaitApproval {env : Env W} (h : env.Hangs) {ex : LawfulExecutor}
    (happroved : ∀ world requests, ∃ input, (env.approval world requests).1 = .answered input ∧
      ex.approval.approve requests false input = .approved)
    (requests : List RecoveryRequest) (polls : Nat) (io : Io W) (htoken : io.token = false) :
    ∃ io', Funzzy.awaitApproval ex env requests (polls + 1) io = (io', .done, .approved) ∧
      io'.token = false := by
  obtain ⟨input, hinput, hdecision⟩ := happroved (env.signal io.world).2 requests
  rcases hr : env.approval (env.signal io.world).2 requests with ⟨answer, world⟩
  rw [hr] at hinput
  simp only at hinput
  subst hinput
  refine ⟨{ io with world := (env.signal world).2, token := false }, ?_, rfl⟩
  simp only [Funzzy.awaitApproval, Io.cancellationRequested, htoken, h.unset, Bool.or_false, hr, hdecision]

/-- An approved recovery whose child never ends keeps the call in the recovery pass. -/
theorem Env.Hangs.resolveRecoveries {env : Env W} (h : env.Hangs) {ex : LawfulExecutor}
    (happroved : ∀ world requests, ∃ input, (env.approval world requests).1 = .answered input ∧
      ex.approval.approve requests false input = .approved)
    (polls : Nat) (io : Io W) (run : Run) {task : ActiveTask} {commands : List CommandLine}
    (htoken : io.token = false) (hpolicy : run.metadata.recoveryPolicy = .prompt)
    (hpending : run.pendingRecoveries = [task]) (hcommands : task.recoveryCommands = some commands)
    (hsome : commands ≠ []) (hvalidated : task.contextValidated = true) :
    (Funzzy.resolveRecoveries ex env polls io run).2.2 = .waiting := by
  have hread : io.cancellationRequested env = (false, { io with world := (env.signal io.world).2 }) := by
    simp only [Io.cancellationRequested, htoken, h.unset, Bool.or_false]
  unfold Funzzy.resolveRecoveries
  simp only [hpending, List.insertionSort_cons, List.insertionSort_nil, List.orderedInsert_nil,
    List.cons_ne_self, if_false, hread, hpolicy]
  have hasked := (announceRequests_moves false { run with pendingRecoveries := [task] }
    ([task].map (·.recoveryRequest { run with pendingRecoveries := [task] }))
    { io with world := (env.signal io.world).2 }).2
  cases polls with
  | zero => rfl
  | succ polls =>
    obtain ⟨io', hanswer, htoken'⟩ := h.awaitApproval happroved
      ([task].map (·.recoveryRequest { run with pendingRecoveries := [task] })) polls
      ((announceRequests { run with pendingRecoveries := [task] }
        ([task].map (·.recoveryRequest { run with pendingRecoveries := [task] }))
        { io with world := (env.signal io.world).2 }).record (.asked _)) (hasked.trans htoken)
    rw [hanswer]
    simp only [actOnDecision, Io.cancellationRequested, Io.record, htoken', h.unset, Bool.or_false]
    exact h.runRecoveries _ _ _ [] rfl hcommands hsome hvalidated

/-- The loops of a call end, and how many passes they take at most: for a task its commands, its child
    and its restarts, for the slots the queued tasks, for the scans the tasks and services there are, and
    for the call the stages and the tasks that are left. The call returns, and without a recovery block
    among the jobs that are left it does so with a step: only a recovery is waited for inside it. -/
theorem advance_terminates (ex : LawfulExecutor) (env : Env W) (polls : Nat) (io : Io W) (run : Run) :
    (∀ phase failFast task results, ∃ k ≤ task.left + 1, Ends (taskPass env phase failFast)
      (io, task, results) k (advanceCommands env phase failFast io task results)) ∧
    (∃ k ≤ run.queued.length + 1, Ends fillPass run k (fillAvailableSlots run.queued run)) ∧
    (∃ k ≤ run.active.length + 1, Ends (scanPass ex env) (0, false, io, run) k
      (scanActive ex env [] run.active false io run)) ∧
    (∃ k ≤ run.services.length + 1, Ends (servicesPass env) (0, io, run) k
      (advanceServices env io run)) ∧
    (∃ k ≤ run.work + 1, Ends (advancePass ex env polls) (io, run) k
      (advanceLoop ex env polls (run.work + 1) io run)) ∧
    (advance ex env polls io run).2.2 ≠ .spinning ∧
    (run.Unrecovered → ∃ step, (advance ex env polls io run).2.2 = .returned step) := by
  refine ⟨fun phase failFast task results => ?_, ?_, ?_, ?_, advanceLoop_ends ex env polls io run, ?_,
    fun h => ?_⟩
  · exact (taskPass_computes env phase failFast).ends (io, task, results)
  · exact fillPass_computes.ends run
  · exact (scanPass_computes ex env).ends (0, false, io, run)
  · exact (servicesPass_computes env).ends (0, io, run)
  · unfold advance
    rcases io.cancellationRequested env with ⟨_ | _, io'⟩
    · obtain ⟨k, -, hends⟩ := advanceLoop_ends ex env polls io' run
      exact hends.meets (P := fun _ => True) (fun _ _ _ _ => trivial)
        (fun _ _ _ hpass => advancePass_not_spinning hpass) trivial
    · nofun
  · unfold advance
    rcases io.cancellationRequested env with ⟨_ | _, io'⟩
    · exact advanceLoop_returned ex env polls io' h
    · exact ⟨.running, rfl⟩

/-- A call that does not return: the failed job's recovery is approved, and its child is still running
    however often it is polled. -/
theorem advance_waits_for_recovery :
    let env := steadyEnv fun task =>
      if task.recoveryCommands.isSome then some ⟨some 1, "exit status: 1"⟩ else none
    let ex : LawfulExecutor := { approval := ttyRecoveryApproval }
    let s := (Session.start env () { runId := 1 }
      (.fromRules [{ name := "lint", commands := ["lint"], recovery := some ["fix"] }])).after ex env
        [.advance 0]
    ∀ polls, (advance ex env polls s.io s.run).2.2 = .waiting := by
  intro env ex s polls
  have hhangs : env.Hangs := ⟨fun _ _ _ => rfl, fun _ task h => by simp [env, steadyEnv, h], fun _ => rfl⟩
  have happroved : ∀ (world : Unit) (requests : List RecoveryRequest), ∃ input,
      (env.approval world requests).1 = .answered input ∧
        ex.approval.approve requests false input = .approved :=
    fun _ _ => ⟨.line "y", rfl, by simp only [ex, ttyRecoveryApproval]; decide +kernel⟩
  let r := scanActive ex env [] s.run.active false s.io s.run
  have hpass : advancePass ex env polls (s.io, s.run) = .leave
      ((resolveRecoveries ex env polls r.1 r.2.1).1, (resolveRecoveries ex env polls r.1 r.2.1).2.1,
        .waiting) := by
    have hpending : r.2.1.pendingRecoveries = [r.2.1.pendingRecoveries.head (by decide)] := by decide
    have hcommands : (r.2.1.pendingRecoveries.head (by decide)).recoveryCommands
        = some [.shell "fix"] := by decide
    have hwaits := hhangs.resolveRecoveries happroved polls r.1 r.2.1 (by decide) (by decide) hpending
      hcommands (by decide) (by decide)
    have hopen : openStage env s.io s.run = (s.io, s.run) := rfl
    have hscan : scanActive ex env [] s.run.active false s.io s.run = (r.1, r.2.1, .polled true) := rfl
    have hservices : advanceServices env r.1 r.2.1 = (r.1, r.2.1) := rfl
    rw [advancePass, if_neg (by decide), hopen]
    simp only
    rw [hscan]
    simp only
    rw [hservices]
    simp only
    rw [if_pos (by decide), if_pos (by decide)]
    split
    · next h =>
      rw [h] at hwaits
      cases hwaits
    · next h =>
      rw [h] at hwaits
      cases hwaits
    · next h => rw [h]
  have hloop : advance ex env polls s.io s.run
      = advanceLoop ex env polls (s.run.work + 1) s.io s.run := rfl
  rw [hloop, advanceLoop_succ, hpass]

end Funzzy
