import Funzzy.Executor.Session

/-! Task conservation: what a run holds and what it has reported, together, are its tasks.

    Every container of a run (stages to come, the stage queue, active tasks, pending recoveries, the
    job being recovered, background services) counts as holding the task. `Accounts` balances them
    against the terminal snapshots and the outcomes; moves only ever shift a task from one side to
    the other. The one operation that breaks the balance is `reconcile_services`: it drops a service
    with an outcome but no snapshot. -/

namespace Funzzy

variable {W : Type}

/-! ### The balance -/

/-- How a terminal snapshot identifies its task. -/
def JobId.key (job : JobId) : Nat × String × String :=
  (job.position, job.groupOccurrence.getD job.name, job.name)

def TaskSnapshot.key (snapshot : TaskSnapshot) : Nat × String × String :=
  (snapshot.position, snapshot.id, snapshot.name)

/-- The task that an entry of `run.outcomes` belongs to. -/
def entryJob (entry : Nat × String × Option String × TaskOutcome) : JobId :=
  ⟨entry.1, entry.2.1, entry.2.2.1⟩

@[simp] theorem JobId.key_snapshot (job : JobId) (state : TaskState) (durationMs : Option Nat) :
    (job.snapshot state durationMs).key = job.key := rfl

@[simp] theorem JobId.entryJob_entry (job : JobId) (outcome : TaskOutcome) :
    entryJob (job.entry outcome) = job := rfl

/-- The terminal task snapshots emitted in a trace. -/
def terminals (trace : List Effect) : List TaskSnapshot :=
  trace.filterMap fun
    | .event (.taskTerminal _ snapshot) => some snapshot
    | _ => none

@[simp] theorem terminals_append (a b : List Effect) :
    terminals (a ++ b) = terminals a ++ terminals b :=
  List.filterMap_append

/-- Every task a view still holds. -/
def View.held (v : View) : List JobId :=
  (v.run.stages.flatMap stageTasks ++ v.run.queued).map TaskPlan.job
    ++ (v.run.active ++ v.run.pendingRecoveries ++ v.run.services
      ++ (v.recovering.map Recovering.task).toList).map ActiveTask.job

/-- The balance of a run that was given `tasks` and lost `retired` to reconciliation. -/
structure Accounts (tasks retired : List JobId) (v : View) : Prop where
  reported : (v.run.taskSnapshots.map TaskSnapshot.key ++ (v.held ++ retired).map JobId.key).Perm
    (tasks.map JobId.key)
  recorded : (v.run.outcomes.map entryJob ++ v.held).Perm tasks
  emitted : terminals v.trace = v.run.taskSnapshots

/-- Reporting `jobs`, and no others, keeps the balance. -/
theorem Accounts.report {tasks retired : List JobId} {v v' : View} (h : Accounts tasks retired v)
    (jobs : List JobId) (hheld : v.held.Perm (jobs ++ v'.held))
    (hsnapshots : v'.run.taskSnapshots.map TaskSnapshot.key
      = v.run.taskSnapshots.map TaskSnapshot.key ++ jobs.map JobId.key)
    (houtcomes : v'.run.outcomes.map entryJob = v.run.outcomes.map entryJob ++ jobs)
    (hemitted : terminals v.trace = v.run.taskSnapshots → terminals v'.trace = v'.run.taskSnapshots) :
    Accounts tasks retired v' := by
  refine ⟨?_, ?_, hemitted h.emitted⟩
  · refine .trans ?_ h.reported
    rw [hsnapshots, List.append_assoc, ← List.map_append, ← List.append_assoc]
    exact .append_left _ ((hheld.symm.append_right retired).map _)
  · refine .trans ?_ h.recorded
    rw [houtcomes, List.append_assoc]
    exact .append_left _ hheld.symm

/-- Moving tasks between containers keeps the balance. -/
theorem Accounts.shift {tasks retired : List JobId} {v v' : View} (h : Accounts tasks retired v)
    (hheld : v.held.Perm v'.held) (hsnapshots : v'.run.taskSnapshots = v.run.taskSnapshots)
    (houtcomes : v'.run.outcomes = v.run.outcomes) (hemitted : terminals v'.trace = terminals v.trace) :
    Accounts tasks retired v' :=
  h.report [] hheld (by simp [hsnapshots]) (by simp [houtcomes])
    fun he => by rw [hemitted, he, hsnapshots]

/-- Reporting one task keeps the balance. -/
theorem Accounts.reportOne {tasks retired : List JobId} {v v' : View}
    (h : Accounts tasks retired v) (job : JobId) (state : TaskState) (durationMs : Option Nat)
    (outcome : TaskOutcome) (hheld : v.held.Perm (job :: v'.held))
    (hsnapshots : v'.run.taskSnapshots = v.run.taskSnapshots ++ [job.snapshot state durationMs])
    (houtcomes : v'.run.outcomes = v.run.outcomes ++ [job.entry outcome])
    (hemitted : terminals v'.trace = terminals v.trace ++ [job.snapshot state durationMs]) :
    Accounts tasks retired v' :=
  h.report [job] hheld (by simp [hsnapshots]) (by simp [houtcomes])
    fun he => by rw [hemitted, he, hsnapshots]

/-! ### Moves keep the balance -/

theorem TaskMove.job_eq {phase : Phase} {w w' : Work} (h : TaskMove phase w w') :
    w'.task.job = w.task.job := by
  cases h <;> rfl

theorem TaskMove.terminals_eq {phase : Phase} {w w' : Work} (h : TaskMove phase w w') :
    terminals w'.trace = terminals w.trace := by
  cases h <;> simp [Work.failWith] <;> rfl

theorem ServiceMove.terminals_eq {s : ActiveTask} {effects : List Effect} {s' : Option ActiveTask}
    {results : Results} {state : TaskState} {outcome : TaskOutcome}
    (h : ServiceMove s effects s' results state outcome) : terminals effects = [] := by
  cases h <;> rfl

theorem ServiceMove.job_eq {s s' : ActiveTask} {effects : List Effect} {results : Results}
    {state : TaskState} {outcome : TaskOutcome}
    (h : ServiceMove s effects (some s') results state outcome) : s'.job = s.job := by
  cases h <;> rfl

theorem ActiveTask.terminals_killEffects (task : ActiveTask) : terminals task.killEffects = [] := by
  unfold ActiveTask.killEffects
  split <;> rfl

@[simp] theorem terminals_taskTerminal (runId : Nat) (snapshot : TaskSnapshot) :
    terminals [.event (.taskTerminal runId snapshot)] = [snapshot] := rfl

@[simp] theorem terminals_terminal (run : Run) (snapshot : TaskSnapshot) :
    terminals [run.terminal snapshot] = [snapshot] := rfl

theorem terminals_map_terminal (run : Run) (f : TaskPlan → TaskSnapshot) (tasks : List TaskPlan) :
    terminals (tasks.map fun t => run.terminal (f t)) = tasks.map f := by
  simp [terminals, Run.terminal]

theorem Move.accounts {failFast : Bool} {v v' : View} (h : Move failFast v v')
    {tasks retired : List JobId} (hv : Accounts tasks retired v) : Accounts tasks retired v' := by
  cases h with
  | begin stage rest limit _ _ _ _ hstages _ =>
    refine hv.shift ?_ rfl rfl (by simp [terminals])
    simp only [View.held, hstages]
    exact List.perm_iff_count.mpr fun j => by simp; omega
  | fill task rest hqueued _ =>
    refine hv.shift ?_ rfl rfl rfl
    simp only [View.held, hqueued]
    have hjob : (ActiveTask.ofPlan task).job = task.job := rfl
    exact List.perm_iff_count.mpr fun j => by simp [hjob, List.count_cons]; omega
  | task seen rest t t' results trace hactive _ _ hmove =>
    refine hv.shift ?_ rfl rfl hmove.terminals_eq
    have hjob : t'.job = t.job := hmove.job_eq
    simp [View.held, hactive, hjob]
  | park seen rest t hactive _ _ =>
    refine hv.shift ?_ rfl rfl rfl
    simp only [View.held, hactive]
    exact List.perm_iff_count.mpr fun j => by simp [List.count_cons]; omega
  | record seen rest t durationMs hactive _ _ _ =>
    refine hv.reportOne t.job _ durationMs _ ?_ rfl rfl (by simp)
    simp only [View.held, hactive]
    exact List.perm_iff_count.mpr fun j => by
      simp [Run.reported, Run.snapshotted, List.count_cons]; omega
  | defer seen rest t hactive _ _ _ =>
    refine hv.shift ?_ rfl rfl (by simp [terminals])
    simp only [View.held, hactive]
    exact List.perm_iff_count.mpr fun j => by simp [List.count_cons]; omega
  | stop t rest durationMs _ _ hactive =>
    refine hv.reportOne t.job _ durationMs _ ?_ rfl rfl (by simp [t.terminals_killEffects])
    simp only [View.held, hactive]
    exact List.perm_iff_count.mpr fun j => by
      simp [Run.reported, Run.snapshotted, List.count_cons]; omega
  | skipQueued _ _ hactive =>
    refine hv.report (v.run.queued.map TaskPlan.job) ?_ (by simp [Function.comp_def])
      (by simp [Function.comp_def]) fun he => by simp [he, terminals_map_terminal]
    simp only [View.held]
    exact List.perm_iff_count.mpr fun j => by simp; omega
  | skipStages _ _ _ =>
    refine hv.report ((v.run.stages.flatMap stageTasks).map TaskPlan.job) ?_
      (by simp [Function.comp_def, List.map_flatMap]) (by simp [Function.comp_def, List.map_flatMap])
      fun he => by simp only [terminals_append, terminals_map_terminal, he]
    simp only [View.held]
    exact List.perm_iff_count.mpr fun j => by simp
  | service kept rest s s' effects results state outcome hservices _ hmove =>
    refine hv.shift ?_ rfl rfl (by simp [hmove.terminals_eq])
    have hjob : s'.job = s.job := hmove.job_eq
    simp [View.held, hservices, hjob]
  | serviceLeft kept rest s effects results state outcome durationMs hservices _ hmove =>
    refine hv.reportOne s.job state durationMs outcome ?_ rfl rfl (by simp [hmove.terminals_eq])
    simp only [View.held, hservices]
    exact List.perm_iff_count.mpr fun j => by
      simp [Run.reported, Run.snapshotted, List.count_cons]; omega
  | sort pending hperm =>
    refine hv.shift ?_ rfl rfl rfl
    simp only [View.held]
    exact .append_left _ ((((hperm.symm.append_left _).append_right _).append_right _).map _)
  | note | ask | decide => exact hv.shift .rfl rfl rfl (by simp [terminals])
  | signal => exact hv.shift .rfl rfl rfl rfl
  | keep t rest durationMs _ hrec _ hpending =>
    refine hv.reportOne t.job _ durationMs _ ?_ rfl rfl (by simp)
    simp only [View.held, hpending]
    exact List.perm_iff_count.mpr fun j => by
      simp [Run.reported, Run.snapshotted, List.count_cons]; omega
  | recover t rest commands _ hrec _ _ _ hpending _ =>
    refine hv.shift ?_ rfl rfl (by simp [terminals, Run.recoveryStarted])
    have hjob : (({ t with recoveryCommands := none } : ActiveTask).restart commands).job = t.job :=
      rfl
    simp only [View.held, hpending, hrec]
    exact List.perm_iff_count.mpr fun j => by simp [List.count_cons, hjob]; omega
  | recovering r t' results results' trace hrec _ hmove =>
    refine hv.shift ?_ rfl rfl hmove.terminals_eq
    have hjob : t'.job = r.task.job := hmove.job_eq
    simp [View.held, hrec, hjob]
  | recoveryFailed t original failure durationMs hrec _ _ =>
    refine hv.reportOne t.job _ durationMs _ ?_ rfl rfl (by simp)
    simp only [View.held, hrec]
    exact List.perm_iff_count.mpr fun j => by
      simp [Run.reported, Run.snapshotted, List.count_cons]; omega
  | verify t original hrec _ _ =>
    refine hv.shift ?_ rfl rfl rfl
    have hjob : (t.restart t.originalCommands).job = t.job := rfl
    simp [View.held, hrec, hjob]
  | verified t original fallback durationMs hrec _ =>
    refine hv.reportOne t.job _ durationMs _ ?_ rfl rfl (terminals_append _ _)
    simp only [View.held, hrec]
    exact List.perm_iff_count.mpr fun j => by
      simp [Run.reported, Run.snapshotted, List.count_cons]; omega
  | interrupt r hrec _ =>
    refine hv.shift ?_ rfl rfl (by simp [r.task.terminals_killEffects])
    have hjob : r.task.stopped.job = r.task.job := rfl
    simp only [View.held, hrec]
    exact List.perm_iff_count.mpr fun j => by simp [List.count_cons, hjob]; omega

/-! ### Sessions keep the balance -/

/-- The tasks that an operation appends. -/
def Op.appended : Op → List TaskPlan
  | .append plan => plan.tasks
  | .advance _ | .reconcile _ => []

/-- The tasks that the calls of a session append. -/
def Session.appended (ex : Executor) (env : Env W) : Session W → List Op → List TaskPlan
  | _, [] => []
  | s, op :: ops =>
    if s.open then op.appended ++ Session.appended ex env (s.apply ex env op) ops
    else Session.appended ex env s ops

theorem Accounts.append {tasks retired : List JobId} {v : View} (h : Accounts tasks retired v)
    (plan : RunPlan) :
    Accounts (tasks ++ plan.tasks.map TaskPlan.job) retired (v.appended plan.stages) := by
  refine ⟨?_, ?_, h.emitted⟩
  · have hmap : (tasks ++ plan.tasks.map TaskPlan.job).map JobId.key
        = tasks.map JobId.key ++ (plan.tasks.map TaskPlan.job).map JobId.key := List.map_append
    rw [hmap]
    refine .trans ?_ (h.reported.append_right ((plan.tasks.map TaskPlan.job).map JobId.key))
    exact List.perm_iff_count.mpr fun k => by
      simp [View.held, View.appended, RunPlan.tasks, List.map_flatMap, List.map_append]; omega
  · refine .trans ?_ (h.recorded.append_right (plan.tasks.map TaskPlan.job))
    exact List.perm_iff_count.mpr fun k => by
      simp [View.held, View.appended, RunPlan.tasks, List.map_flatMap]; omega

theorem Accounts.reconcile {tasks retired : List JobId} {v : View} (h : Accounts tasks retired v)
    (stopNames : List String) :
    Accounts tasks (retired ++ ((Op.reconcile stopNames).stopped v.run).map ActiveTask.job)
      (v.reconciled stopNames) := by
  have hsplit : (v.run.services.filter (fun t => stopNames.contains t.name)
      ++ v.run.services.filter fun t => !stopNames.contains t.name).Perm v.run.services :=
    List.filter_append_perm _ _
  have hjobs := List.perm_iff_count.mp (hsplit.map ActiveTask.job)
  have hkeys := List.perm_iff_count.mp ((hsplit.map ActiveTask.job).map JobId.key)
  simp only [List.map_append, List.count_append] at hjobs hkeys
  refine ⟨?_, ?_, ?_⟩
  · refine .trans (List.perm_iff_count.mpr fun k => ?_) h.reported
    have := hkeys k
    simp only [View.held, View.reconciled, Op.stopped, List.map_append, List.count_append] at this ⊢
    omega
  · refine .trans (List.perm_iff_count.mpr fun j => ?_) h.recorded
    have := hjobs j
    have hentry : entryJob ∘ (fun t : ActiveTask => t.job.entry .cancelled) = ActiveTask.job := rfl
    simp only [View.held, View.reconciled, List.map_append, List.count_append, List.map_map,
      hentry] at this ⊢
    omega
  · have hnone : ∀ ts : List ActiveTask, terminals (ts.flatMap (·.killEffects)) = [] := by
      intro ts
      induction ts with
      | nil => rfl
      | cons t ts ih => simp [t.terminals_killEffects, ih]
    simp [View.reconciled, hnone, h.emitted]

theorem Session.after_accounts (ex : LawfulExecutor) (env : Env W) :
    ∀ (ops : List Op) (s : Session W) (tasks retired : List JobId),
      s.Holds ex.failFast (Accounts tasks retired) →
      (s.after ex env ops).Holds ex.failFast
        (Accounts (tasks ++ (s.appended ex env ops).map TaskPlan.job)
          (retired ++ (s.stopped ex env ops).map ActiveTask.job))
  | [], s, tasks, retired, hs => by
    simpa [Session.appended, Session.stopped, Session.after] using hs
  | op :: ops, s, tasks, retired, hs => by
    rw [Session.after, Session.appended, Session.stopped]
    by_cases hopen : s.open = true
    · simp only [if_pos hopen, List.map_append, ← List.append_assoc]
      refine Session.after_accounts ex env ops (s.apply ex env op) _ _ ?_
      cases op with
      | advance polls =>
        simpa [Op.stopped, Op.appended] using
          Session.advance_holds ex env polls (fun _ _ hmove => hmove.accounts) hopen hs
      | append plan =>
        rw [Op.stopped, List.map_nil, List.append_nil, Op.appended]
        exact Session.append_holds ex env plan hopen hs fun _ _ h => h.append plan
      | reconcile stopNames =>
        rw [Op.appended, List.map_nil, List.append_nil]
        exact Session.reconcile_holds ex env stopNames hopen hs fun h => h.reconcile stopNames
    · simp only [if_neg hopen]
      exact Session.after_accounts ex env ops s tasks retired hs

theorem Session.start_accounts (failFast : Bool) (env : Env W) (world : W) (metadata : RunMetadata)
    (plan : RunPlan) :
    (Session.start env world metadata plan).Holds failFast
      (Accounts (plan.tasks.map TaskPlan.job) []) := by
  refine Session.start_holds failFast env world metadata plan ⟨?_, ?_, rfl⟩
  · simp [startView, View.held, RunPlan.tasks]
  · simp [startView, View.held, RunPlan.tasks]

/-! ### Ending a run -/

/-- A container operation of `cancel`: it replaces one list of the run and nothing else. -/
structure Container (drop : Run → List ActiveTask → Run) : Prop where
  snapshots : ∀ run rest, (drop run rest).taskSnapshots = run.taskSnapshots
  snapshotted : ∀ run rest snapshot,
    drop (run.snapshotted snapshot) rest = (drop run rest).snapshotted snapshot
  replaced : ∀ run rest rest', drop (drop run rest) rest' = drop run rest'

/-- Cancelling a container reports each of its tasks once and touches nothing else. -/
theorem cancelStarted_eq (env : Env W) {drop : Run → List ActiveTask → Run} (hdrop : Container drop) :
    ∀ (tasks : List ActiveTask) (io : Io W) (run : Run) (escalated : Bool),
      let r := cancelStarted env drop tasks io run escalated
      ∃ snapshots : List TaskSnapshot, snapshots.map TaskSnapshot.key = tasks.map (·.job.key) ∧
        terminals r.1.trace = terminals io.trace ++ snapshots ∧
        r.2.1 = { drop run [] with taskSnapshots := run.taskSnapshots ++ snapshots }
  | [], io, run, escalated => by
    refine ⟨[], rfl, by simp [cancelStarted], ?_⟩
    have hsnapshots := hdrop.snapshots run []
    rcases hr : drop run [] with ⟨⟩
    rw [hr] at hsnapshots
    simp [cancelStarted, hr, ← hsnapshots]
  | task :: rest, io, run, escalated => by
    obtain ⟨htrace, -, htask⟩ := shutdownTask_eq env io task
    simp only [cancelStarted]
    rcases hr : shutdownTask env io task with ⟨io₁, task₁, killed⟩
    simp only [hr] at htrace htask
    subst htask
    set snapshot := task.job.snapshot .cancelled (elapsedMs env io₁ task.started) with hsnapshot
    obtain ⟨snapshots, hkeys, hterminals, hrun⟩ := cancelStarted_eq env hdrop rest
      (io₁.emit (.taskTerminal (drop run rest).metadata.runId snapshot))
      ((drop run rest).snapshotted snapshot) (escalated || killed)
    refine ⟨snapshot :: snapshots, by simp [hkeys, hsnapshot], ?_, ?_⟩
    · refine hterminals.trans ?_
      simp [Io.emit, Io.record, htrace, task.terminals_killEffects]
    · refine hrun.trans ?_
      rw [hdrop.snapshotted, hdrop.replaced]
      simp [Run.snapshotted, hdrop.snapshots]

theorem cancelUnstarted_eq : ∀ (tasks : List TaskPlan) (io : Io W) (run : Run),
    let r := cancelUnstarted tasks io run
    terminals r.1.trace
        = terminals io.trace ++ tasks.map (fun t => t.job.snapshot .cancelled none) ∧
      r.2.stages = run.stages
  | [], io, run => by simp [cancelUnstarted]
  | task :: rest, io, run => by
    obtain ⟨hterminals, hstages⟩ := cancelUnstarted_eq rest
      (io.emit (.taskTerminal run.metadata.runId (task.job.snapshot .cancelled none)))
      (run.snapshotted (task.job.snapshot .cancelled none))
    refine ⟨?_, hstages⟩
    refine hterminals.trans ?_
    simp [Io.emit, Io.record]

/-- Cancelling a run reports everything it holds. -/
theorem cancel_terminals (env : Env W) (io : Io W) (run : Run) (supersededBy : Option Nat) :
    ((terminals (cancel env io run supersededBy).1.trace).map TaskSnapshot.key).Perm
      ((terminals io.trace).map TaskSnapshot.key ++ (view io run).held.map JobId.key) := by
  have hactive : Container fun run active => { run with active } :=
    ⟨fun _ _ => rfl, fun _ _ _ => rfl, fun _ _ _ => rfl⟩
  have hservices : Container fun run services => { run with services } :=
    ⟨fun _ _ => rfl, fun _ _ _ => rfl, fun _ _ _ => rfl⟩
  have hpending : Container fun run pendingRecoveries => { run with pendingRecoveries } :=
    ⟨fun _ _ => rfl, fun _ _ _ => rfl, fun _ _ _ => rfl⟩
  simp only [cancel]
  set run₀ : Run := { run with supersededBy } with hrun₀
  obtain ⟨snaps₁, hkeys₁, hterm₁, hrun₁⟩ := cancelStarted_eq env hactive run₀.active io run₀ false
  rcases hr₁ : cancelStarted env (fun run active => { run with active }) run₀.active io run₀ false
    with ⟨io₁, run₁, escalated₁⟩
  simp only [hr₁] at hterm₁ hrun₁ ⊢
  obtain ⟨snaps₂, hkeys₂, hterm₂, hrun₂⟩ :=
    cancelStarted_eq env hservices run₁.services io₁ run₁ escalated₁
  rcases hr₂ : cancelStarted env (fun run services => { run with services }) run₁.services io₁ run₁
    escalated₁ with ⟨io₂, run₂, escalated₂⟩
  simp only [hr₂] at hterm₂ hrun₂ ⊢
  obtain ⟨snaps₃, hkeys₃, hterm₃, hrun₃⟩ :=
    cancelStarted_eq env hpending run₂.pendingRecoveries io₂ run₂ escalated₂
  rcases hr₃ : cancelStarted env (fun run pendingRecoveries => { run with pendingRecoveries })
    run₂.pendingRecoveries io₂ run₂ escalated₂ with ⟨io₃, run₃, escalated₃⟩
  simp only [hr₃] at hterm₃ hrun₃ ⊢
  obtain ⟨hterm₄, hstages₄⟩ := cancelUnstarted_eq run₃.queued io₃ { run₃ with queued := [] }
  rcases hr₄ : cancelUnstarted run₃.queued io₃ { run₃ with queued := [] } with ⟨io₄, run₄⟩
  simp only [hr₄] at hterm₄ hstages₄ ⊢
  obtain ⟨hterm₅, -⟩ := cancelUnstarted_eq (run₄.stages.flatMap stageTasks) io₄
    { run₄ with stages := [] }
  have hend : ∀ (io : Io W) (runId : Nat),
      terminals (io.emit (.cancelled runId supersededBy)).trace = terminals io.trace := by
    intro io runId; simp [Io.emit, Io.record, terminals]
  have hservices₁ : run₁.services = run.services := by rw [hrun₁]
  have hpending₂ : run₂.pendingRecoveries = run.pendingRecoveries := by rw [hrun₂, hrun₁]
  have hqueued₃ : run₃.queued = run.queued := by rw [hrun₃, hrun₂, hrun₁]
  have hstages₃ : run₄.stages = run.stages := by rw [hstages₄, hrun₃, hrun₂, hrun₁]
  rw [hend, hterm₅, hterm₄, hterm₃, hterm₂, hterm₁, hstages₃, hqueued₃]
  simp only [List.map_append, hkeys₁, hkeys₂, hkeys₃, hservices₁, hpending₂]
  refine List.perm_iff_count.mpr fun k => ?_
  simp [View.held, view, hrun₀, Function.comp_def, List.map_flatMap]
  omega

theorem finish_terminals (env : Env W) (io : Io W) (run : Run) :
    terminals (finish env io run).1.trace = terminals io.trace := by
  simp only [finish, runTerminalHook]
  cases selectedHook run.metadata run.outcome <;> simp [Io.emit, Io.record, terminals]

/-! ### Conservation -/

/-- Every task has been reported in exactly one terminal snapshot. -/
def ReportedOnce (tasks : List TaskPlan) (trace : List Effect) : Prop :=
  ((terminals trace).map TaskSnapshot.key).Perm (tasks.map fun t => t.job.key)

/-- One outcome per task, in the order of their positions. -/
def OutcomePerTask (tasks : List TaskPlan) (outcome : RunOutcome) : Prop :=
  ∃ entries : List (Nat × String × Option String × TaskOutcome),
    (entries.map entryJob).Perm (tasks.map TaskPlan.job) ∧
      entries.Pairwise (fun a b => a.1 ≤ b.1) ∧ outcome.tasks = entries.map (·.2)

/-- The order in which a run's outcome lists its tasks. -/
theorem outcomes_sorted (entries : List (Nat × String × Option String × TaskOutcome)) :
    (entries.insertionSort fun a b => a.1 ≤ b.1).Pairwise fun a b => a.1 ≤ b.1 := by
  have : Std.Total fun a b : Nat × String × Option String × TaskOutcome => a.1 ≤ b.1 :=
    ⟨fun a b => le_total a.1 b.1⟩
  have : IsTrans _ fun a b : Nat × String × Option String × TaskOutcome => a.1 ≤ b.1 :=
    ⟨fun _ _ _ => le_trans⟩
  exact List.pairwise_insertionSort _ entries

/-- A part that balances with the whole leaves nothing over. -/
theorem perm_iff_of_balance {α : Type} {part rest whole : List α}
    (h : (part ++ rest).Perm whole) : part.Perm whole ↔ rest = [] := by
  constructor
  · intro hpart
    have := (h.trans hpart.symm).length_eq
    rw [List.length_append] at this
    exact List.length_eq_zero_iff.mp (by omega)
  · rintro rfl
    simpa using h

theorem Accounts.cancelled {tasks : List TaskPlan} {retired : List ActiveTask} {env : Env W}
    {io : Io W} {run : Run}
    (h : Accounts (tasks.map TaskPlan.job) (retired.map ActiveTask.job) (view io run))
    (supersededBy : Option Nat) :
    ReportedOnce tasks (cancel env io run supersededBy).1.trace ↔ retired = [] := by
  have hbalance : ((terminals (cancel env io run supersededBy).1.trace).map TaskSnapshot.key
      ++ retired.map (·.job.key)).Perm (tasks.map fun t => t.job.key) := by
    have hreported := h.reported
    rw [← h.emitted, List.map_append, ← List.append_assoc] at hreported
    refine ((cancel_terminals env io run supersededBy).append_right _).trans ?_
    simpa [Function.comp_def, view] using hreported
  unfold ReportedOnce
  rw [perm_iff_of_balance hbalance, List.map_eq_nil_iff]

theorem Accounts.finished {tasks : List TaskPlan} {retired : List ActiveTask} {env : Env W}
    {io : Io W} {run : Run}
    (h : Accounts (tasks.map TaskPlan.job) (retired.map ActiveTask.job) (view io run))
    (hdrained : run.Drained) (hstages : run.stages = []) (hpending : run.pendingRecoveries = []) :
    ReportedOnce tasks (finish env io run).1.trace ∧ OutcomePerTask tasks (finish env io run).2.outcome
      ↔ retired = [] ∧ run.services = [] := by
  have hheld : (view io run).held = run.services.map ActiveTask.job := by
    simp [View.held, view, hdrained.1, hdrained.2, hstages, hpending]
  have hreported := h.reported
  have hrecorded := h.recorded
  rw [← h.emitted, hheld] at hreported
  rw [hheld] at hrecorded
  have hfirst : ReportedOnce tasks (finish env io run).1.trace ↔ run.services = [] ∧ retired = [] := by
    have hbalance : ((terminals (finish env io run).1.trace).map TaskSnapshot.key
        ++ (run.services ++ retired).map (·.job.key)).Perm (tasks.map fun t => t.job.key) := by
      rw [finish_terminals]
      simpa [Function.comp_def, view] using hreported
    unfold ReportedOnce
    rw [perm_iff_of_balance hbalance, List.map_eq_nil_iff, List.append_eq_nil_iff]
  have hsecond : run.services = [] → OutcomePerTask tasks (finish env io run).2.outcome := by
    intro hservices
    refine ⟨run.outcomes.insertionSort fun a b => a.1 ≤ b.1, ?_, ?_, rfl⟩
    · refine ((List.perm_insertionSort _ _).map _).trans ?_
      simpa [hservices, view] using hrecorded
    · exact outcomes_sorted run.outcomes
  constructor
  · rintro ⟨hreport, -⟩
    exact (hfirst.mp hreport).symm
  · rintro ⟨hretired, hservices⟩
    exact ⟨hfirst.mpr ⟨hservices, hretired⟩, hsecond hservices⟩

/-- Conservation over whole sessions: a cancelled run has reported every task exactly once iff no
    `reconcile_services` call stopped one of its services, and a finished run has reported and
    recorded every task exactly once iff, besides, no background service was left running. -/
theorem Session.reported_once_iff (ex : LawfulExecutor) (env : Env W) (world : W)
    (metadata : RunMetadata) (plan : RunPlan) (ops : List Op) :
    let s₀ := Session.start env world metadata plan
    let s := s₀.after ex env ops
    let tasks := plan.tasks ++ s₀.appended ex env ops
    (s.open = true → ∀ supersededBy,
      (ReportedOnce tasks (cancel env s.io s.run supersededBy).1.trace
        ↔ s₀.stopped ex env ops = [])) ∧
    (s.progress = some (.returned .finished) →
      (ReportedOnce tasks (finish env s.io s.run).1.trace ∧
          OutcomePerTask tasks (finish env s.io s.run).2.outcome
        ↔ s₀.stopped ex env ops = [] ∧ s.run.services = [])) := by
  intro s₀ s tasks
  have hs := Session.after_accounts ex env ops s₀ _ _
    (Session.start_accounts ex.failFast env world metadata plan)
  rw [← List.map_append, List.nil_append] at hs
  refine ⟨fun hopen supersededBy => ?_, fun hfinished => ?_⟩
  · exact ((Session.holds_of_open hopen).mp hs).1.cancelled supersededBy
  · rw [Session.Holds, hfinished] at hs
    obtain ⟨haccounts, hdrained, hstages, hpending, -⟩ := hs
    exact haccounts.finished hdrained hstages hpending

/-- A service stopped by a reload never gets a terminal snapshot. -/
theorem Session.reconciled_service_unreported :
    let plan := RunPlan.fromRules [{ name := "server", commands := ["serve"], service := true }]
    let s := (Session.start (steadyEnv fun _ => none) () { runId := 1 } plan).after {}
      (steadyEnv fun _ => none) [.advance 1, .reconcile ["server"], .advance 1]
    s.progress = some (.returned .finished) ∧
      ¬ReportedOnce plan.tasks (finish (steadyEnv fun _ => none) s.io s.run).1.trace := by
  refine ⟨by decide, ?_⟩
  unfold ReportedOnce
  decide

/-- A service that exits by itself, a job that recovers and one that fails. -/
def mixedPlan : RunPlan := .fromRules
  [{ name := "server", commands := ["serve"], service := true },
   { name := "lint", commands := ["lint"], recovery := some ["fix"] },
   { name := "test", commands := ["test"] }]

def mixedEnv : Env Unit := steadyEnv fun task =>
  some (if task.recoveryCommands.isSome || task.name = "test" then ⟨some 1, "exit status: 1"⟩
    else ⟨some 0, "exit status: 0"⟩)

/-- A session of that plan whose questions are answered with yes. -/
def mixedRun (ops : List Op) : Session Unit :=
  (Session.start mixedEnv () { runId := 1 } mixedPlan).after { approval := ttyRecoveryApproval } mixedEnv ops

/-- The balance of a run that ends with nothing stopped and no service left, and of the same run cancelled on
    its way. -/
theorem Session.reported_once_at_build :
    let early := mixedRun [.advance 3]
    let s := mixedRun [.advance 3, .advance 3, .advance 3]
    (early.open = true ∧ ReportedOnce mixedPlan.tasks (cancel mixedEnv early.io early.run (some 2)).1.trace) ∧
      s.progress = some (.returned .finished) ∧
        s.run.outcomes.map (fun entry => (entry.2.1, decide (entry.2.2.2 = .passed)))
          = [("server", true), ("lint", true), ("test", false)] ∧
        ReportedOnce mixedPlan.tasks (finish mixedEnv s.io s.run).1.trace ∧
        OutcomePerTask mixedPlan.tasks (finish mixedEnv s.io s.run).2.outcome := by
  have hbalance := fun ops => Session.reported_once_iff { approval := ttyRecoveryApproval } mixedEnv ()
    { runId := 1 } mixedPlan ops
  have hnone : ∀ n, (Session.start mixedEnv () { runId := 1 } mixedPlan).appended
      { approval := ttyRecoveryApproval } mixedEnv (List.replicate n (.advance 3)) = [] := by
    intro n
    generalize Session.start mixedEnv () { runId := 1 } mixedPlan = s
    induction n generalizing s with
    | zero => rfl
    | succ n ih => simp [List.replicate_succ, Session.appended, Op.appended, ih]
  constructor
  · have hopen : (mixedRun [.advance 3]).open = true := by decide
    have h := (hbalance (List.replicate 1 (.advance 3))).1
    rw [hnone, List.append_nil] at h
    exact ⟨hopen, (h hopen (some 2)).mpr (by decide)⟩
  · have hfinished : (mixedRun [.advance 3, .advance 3, .advance 3]).progress
        = some (.returned .finished) := by decide
    have h := (hbalance (List.replicate 3 (.advance 3))).2
    rw [hnone, List.append_nil] at h
    exact ⟨hfinished, by decide, (h hfinished).mpr ⟨by decide, by decide⟩⟩

end Funzzy
