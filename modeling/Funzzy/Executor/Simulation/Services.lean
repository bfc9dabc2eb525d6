import Funzzy.Executor.Moves

/-! Reporting and background services are sequences of moves.

    The simulation has one lemma per function of `Advance`, in the order in which they call each
    other: reports, fail-fast and services here, then the recovery pass, then the stage loop.
    `View.Ready` is what the executor's own guards rely on; every move keeps it. -/

namespace Funzzy

variable {W : Type}

/-! ### What the moves rely on -/

/-- A task whose working directory has not been checked has never been given a child. -/
def ActiveTask.Fresh (task : ActiveTask) : Prop :=
  task.contextValidated = false → task.child = false

/-- Facts about a view that the executor's own guards rely on. -/
structure View.Ready (v : View) : Prop where
  fresh : ∀ t ∈ v.run.active, t.Fresh
  deferred : v.token = false →
    ∀ t ∈ v.run.pendingRecoveries, t.recoveryCommands.isSome = true ∧ t.failures ≠ []

theorem TaskMove.fresh {phase : Phase} {w w' : Work} (h : TaskMove phase w w')
    (hf : w.task.Fresh) : w'.task.Fresh := by
  cases h with
  | validate => intro h; cases h
  | invalid => intro h; cases h
  | spawned _ _ _ hvalid => intro h; exact absurd (hvalid.symm.trans h) (by decide)
  | spawnFailed | passed | failed | errored | serviceStopped | serviceRestarted
  | serviceExhausted => intro _; rfl
  | tick => exact hf

theorem TaskMoves.fresh {phase : Phase} {failFast : Bool} {w w' : Work}
    (h : TaskMoves phase failFast w w') (hf : w.task.Fresh) : w'.task.Fresh := by
  induction h with
  | refl => exact hf
  | tail _ hmove ih => exact hmove.1.fresh ih

theorem Move.ready {failFast : Bool} {v v' : View} (h : Move failFast v v') (hv : v.Ready) :
    v'.Ready := by
  obtain ⟨hfresh, hdeferred⟩ := hv
  cases h with
  | begin stage rest limit => exact ⟨hfresh, hdeferred⟩
  | fill task rest =>
    refine ⟨fun t ht => ?_, hdeferred⟩
    rcases List.mem_append.mp ht with ht | ht
    · exact hfresh t ht
    · rw [List.mem_singleton.mp ht]; intro _; rfl
  | task seen rest t t' results trace hactive _ _ hmove =>
    refine ⟨fun u hu => ?_, hdeferred⟩
    have hold : ∀ u ∈ seen ++ t :: rest, u.Fresh := hactive ▸ hfresh
    simp only [List.mem_append, List.mem_cons] at hu hold
    rcases hu with hu | rfl | hu
    · exact hold u (.inl hu)
    · exact hmove.fresh (hold t (.inr (.inl rfl)))
    · exact hold u (.inr (.inr hu))
  | park seen rest t hactive =>
    refine ⟨fun u hu => hfresh u ?_, hdeferred⟩
    rw [hactive]; simp only [List.mem_append, List.mem_cons] at hu ⊢; tauto
  | record seen rest t durationMs hactive =>
    refine ⟨fun u hu => hfresh u ?_, hdeferred⟩
    have hu : u ∈ seen ++ rest := hu
    rw [hactive]; simp only [List.mem_append, List.mem_cons] at hu ⊢; tauto
  | defer seen rest t hactive _ hfail hsome =>
    refine ⟨fun u hu => hfresh u ?_, fun htoken u hu => ?_⟩
    · rw [hactive]; simp only [List.mem_append, List.mem_cons] at hu ⊢; tauto
    · rcases List.mem_append.mp hu with hu | hu
      · exact hdeferred htoken u hu
      · rw [List.mem_singleton.mp hu]; exact ⟨hsome, hfail⟩
  | stop t rest durationMs _ _ hactive =>
    exact ⟨fun u hu => hfresh u (hactive ▸ List.mem_cons_of_mem _ hu), hdeferred⟩
  | skipQueued | skipStages | service | serviceLeft | note | ask | decide =>
    exact ⟨hfresh, hdeferred⟩
  | sort pending hperm =>
    exact ⟨hfresh, fun htoken t ht => hdeferred htoken t (hperm.mem_iff.mp ht)⟩
  | signal => exact ⟨hfresh, fun htoken => by cases htoken⟩
  | keep t rest durationMs _ _ _ hpending =>
    exact ⟨hfresh, fun htoken u hu => hdeferred htoken u (hpending ▸ List.mem_cons_of_mem _ hu)⟩
  | recover t rest commands _ _ _ _ _ hpending =>
    exact ⟨hfresh, fun htoken u hu => hdeferred htoken u (hpending ▸ List.mem_cons_of_mem _ hu)⟩
  | recovering | recoveryFailed | verify | verified => exact ⟨hfresh, hdeferred⟩
  | interrupt r _ htoken =>
    exact ⟨hfresh, fun hfalse => absurd (htoken.symm.trans hfalse) (by decide)⟩

/-- A task's own moves decide nothing about recoveries. -/
theorem TaskMove.lastDecision_eq {phase : Phase} {w w' : Work} (h : TaskMove phase w w') :
    lastDecision w'.trace = lastDecision w.trace := by
  cases h <;> simp [lastDecision, Work.failWith]

theorem TaskMoves.lastDecision_eq {phase : Phase} {failFast : Bool} {w w' : Work}
    (h : TaskMoves phase failFast w w') : lastDecision w'.trace = lastDecision w.trace := by
  induction h with
  | refl => rfl
  | tail _ hmove ih => exact hmove.1.lastDecision_eq.trans ih

theorem Moves.ready {failFast : Bool} {v v' : View} (h : Moves failFast v v') (hv : v.Ready) :
    v'.Ready :=
  h.invariant (fun _ _ hmove => hmove.ready) hv

/-! ### Reporting -/

theorem shutdownTask_eq (env : Env W) (io : Io W) (task : ActiveTask) :
    (shutdownTask env io task).1.trace = io.trace ++ task.killEffects ∧
      (shutdownTask env io task).1.token = io.token ∧
      (shutdownTask env io task).2.1 = task.stopped := by
  unfold shutdownTask ActiveTask.killEffects
  by_cases hchild : task.child = true
  · simp [hchild, Io.record, ActiveTask.stopped]
  · have hnone : task.child = false := by simpa using hchild
    cases task
    simp_all [ActiveTask.stopped]

theorem deferOrRecord_moves (failFast : Bool) (env : Env W) (io : Io W) (run : Run)
    (seen rest : List ActiveTask) (task : ActiveTask) (hactive : run.active = seen ++ task :: rest)
    (hchild : task.child = false)
    (hdone : task.commands = [] ∨ task.service = true ∨ (task.failures ≠ [] ∧ failFast = true))
    (hleft : task.failures = [] → task.commands = []) :
    let r := deferOrRecord env io { run with active := seen ++ rest } task
    Moves failFast (view io run) (view r.1 r.2) ∧ r.1.token = io.token := by
  unfold deferOrRecord
  by_cases hdefer : task.failures ≠ [] ∧ task.recoveryCommands.isSome = true
  · rw [if_pos hdefer]
    exact ⟨.single (.defer (view io run) seen rest task hactive hchild hdefer.1 hdefer.2), rfl⟩
  · rw [if_neg hdefer]
    exact ⟨.single (.record (view io run) seen rest task _ hactive hchild hdone hdefer hleft),
      rfl⟩

theorem deferOrRecord_frame (env : Env W) (io : Io W) (run : Run) (task : ActiveTask) :
    let r := deferOrRecord env io run task
    r.2.active = run.active ∧ r.2.queued = run.queued ∧ r.2.stages = run.stages ∧
      r.2.stageLimit = run.stageLimit ∧ r.2.metadata = run.metadata := by
  unfold deferOrRecord
  split <;> exact ⟨rfl, rfl, rfl, rfl, rfl⟩

/-- A failed task leaves the run failing, whether it is recorded or deferred. -/
theorem deferOrRecord_failing (env : Env W) (io : Io W) (run : Run) (task : ActiveTask)
    (hfailed : task.failures ≠ []) : (deferOrRecord env io run task).2.Failing := by
  unfold deferOrRecord
  split
  · exact .inr (by simp)
  · refine .inl ⟨task.job, task.failures, hfailed, ?_⟩
    simp [recordTaskOutcome, recordTaskSnapshot, Run.pushOutcome, ActiveTask.verdict, hfailed,
      JobId.entry, ActiveTask.job]

theorem stopActive_moves (env : Env W) : ∀ (active : List ActiveTask) (io : Io W) (run : Run),
    run.active = active → run.Failing →
    let r := stopActive env active io run
    Moves true (view io run) (view r.1 r.2) ∧ r.1.token = io.token ∧ r.2.active = [] ∧
      r.2.Failing
  | [], io, run, hactive, hfailing => by
    have hsame : { run with active := [] } = run := by cases run; simp_all
    simp only [stopActive, hsame]
    exact ⟨.refl, trivial, hactive, hfailing⟩
  | task :: rest, io, run, hactive, hfailing => by
    obtain ⟨htrace, htoken, htask⟩ := shutdownTask_eq env io task
    simp only [stopActive]
    rcases hshut : shutdownTask env io task with ⟨io', task', killed⟩
    simp only [hshut] at htrace htoken htask
    subst htask
    have hfailing' : (({ run with active := rest }).reported task.job .cancelled
        (elapsedMs env io' task.started) .cancelled).Failing := by
      rcases hfailing with ⟨job, failures, hne, hmem⟩ | hpending
      · exact .inl ⟨job, failures, hne, List.mem_append_left _ hmem⟩
      · exact .inr hpending
    have hmove : Move true (view io run) _ := .stop (view io run) task rest
      (elapsedMs env io' task.started) rfl hfailing hactive
    obtain ⟨hrest, htok, hact, hfail⟩ := stopActive_moves env rest
      (io'.emit (.taskTerminal run.metadata.runId
        (task.job.snapshot .cancelled (elapsedMs env io' task.started))))
      (({ run with active := rest }).reported task.job .cancelled
        (elapsedMs env io' task.started) .cancelled) rfl hfailing'
    refine ⟨.head ?_ hrest, htok.trans htoken, hact, hfail⟩
    have hview : view (io'.emit (.taskTerminal run.metadata.runId
        (task.job.snapshot .cancelled (elapsedMs env io' task.started))))
        (({ run with active := rest }).reported task.job .cancelled
          (elapsedMs env io' task.started) .cancelled)
        = { view io run with
            run := ({ run with active := rest }).reported task.job .cancelled
              (elapsedMs env io' task.started) .cancelled
            trace := io.trace ++ task.killEffects ++ [run.terminal (task.job.snapshot .cancelled
              (elapsedMs env io' task.started))] } := by
      simp [view, Io.emit, Io.record, htrace, htoken, Run.terminal]
    rw [hview]; exact hmove

/-- Skipping reports the tasks in order and touches nothing else. -/
theorem skipTasks_eq : ∀ (tasks : List TaskPlan) (io : Io W) (run : Run),
    skipTasks tasks io run
      = ({ io with trace := io.trace ++ tasks.map fun t =>
            run.terminal (t.job.snapshot .cancelled none) },
        { run with
          taskSnapshots := run.taskSnapshots ++ tasks.map fun t => t.job.snapshot .cancelled none
          outcomes := run.outcomes ++ tasks.map fun t => t.job.entry .skipped })
  | [], io, run => by simp [skipTasks]
  | task :: rest, io, run => by
    simp only [skipTasks, recordTaskSnapshot, Run.pushOutcome]
    rw [skipTasks_eq rest]
    simp [Io.emit, Io.record, Run.terminal, JobId.snapshot, JobId.entry, TaskPlan.job]

theorem Run.Failing.mono {run run' : Run} (h : run.Failing)
    (hout : ∀ entry ∈ run.outcomes, entry ∈ run'.outcomes)
    (hpending : run'.pendingRecoveries = run.pendingRecoveries) : run'.Failing := by
  rcases h with ⟨job, failures, hne, hmem⟩ | h
  · exact .inl ⟨job, failures, hne, hout _ hmem⟩
  · exact .inr (hpending ▸ h)

theorem stopAfterFailure_moves (env : Env W) (io : Io W) (run : Run) (hfailing : run.Failing) :
    let r := stopAfterFailure env io run
    Moves true (view io run) (view r.1 r.2) ∧ r.1.token = io.token ∧ r.2.Drained ∧
      r.2.stages = [] := by
  obtain ⟨hstop, htoken, hactive, hfail⟩ := stopActive_moves env run.active io run rfl hfailing
  simp only [stopAfterFailure]
  rcases hr : stopActive env run.active io run with ⟨io₁, run₁⟩
  simp only [hr] at hstop htoken hactive hfail
  simp only [skipTasks_eq]
  have hq : Move true (view io₁ run₁) _ := .skipQueued (view io₁ run₁) rfl hfail hactive
  set v₂ : View := { view io₁ run₁ with
    run := { run₁ with
      queued := []
      taskSnapshots := run₁.taskSnapshots
        ++ run₁.queued.map fun t => t.job.snapshot .cancelled none
      outcomes := run₁.outcomes ++ run₁.queued.map fun t => t.job.entry .skipped }
    trace := io₁.trace ++ run₁.queued.map fun t =>
      run₁.terminal (t.job.snapshot .cancelled none) } with hv₂
  have hfail₂ : v₂.run.Failing := hfail.mono (fun _ h => List.mem_append_left _ h) rfl
  have hs : Move true v₂ _ := .skipStages v₂ rfl hfail₂ ⟨hactive, rfl⟩
  exact ⟨(hstop.tail hq).tail hs, htoken, ⟨hactive, rfl⟩, trivial⟩

/-! ### Background services -/

/-- Nothing but the background services, the results and the reports of a run has changed. -/
structure Run.SameStage (run run' : Run) : Prop where
  active : run'.active = run.active
  queued : run'.queued = run.queued
  stages : run'.stages = run.stages
  stageLimit : run'.stageLimit = run.stageLimit
  pending : run'.pendingRecoveries = run.pendingRecoveries
  metadata : run'.metadata = run.metadata

theorem Run.SameStage.refl (run : Run) : run.SameStage run := ⟨rfl, rfl, rfl, rfl, rfl, rfl⟩

theorem Run.SameStage.trans {a b c : Run} (h : a.SameStage b) (h' : b.SameStage c) :
    a.SameStage c :=
  ⟨h'.active.trans h.active, h'.queued.trans h.queued, h'.stages.trans h.stages,
    h'.stageLimit.trans h.stageLimit, h'.pending.trans h.pending, h'.metadata.trans h.metadata⟩

/-- One polled service: it stays in its place, or has left with a report. -/
def ServicePolled (failFast : Bool) (io : Io W) (run : Run) (kept rest : List ActiveTask) :
    Io W × Run × Option ActiveTask → Prop
  | (io', run', some service) =>
    Moves failFast (view io run) (view io' { run' with services := kept ++ service :: rest }) ∧
      io'.token = io.token ∧ run.SameStage run'
  | (io', run', none) =>
    Moves failFast (view io run) (view io' run') ∧ io'.token = io.token ∧
      run'.services = kept ++ rest ∧ run.SameStage run'

section Services
variable {failFast : Bool} {io : Io W} {run : Run} {kept rest : List ActiveTask}
  {service : ActiveTask} (hservices : run.services = kept ++ service :: rest)
include hservices

theorem failService_moves (env : Env W) {world : W} {effect : Effect} {failure : String}
    {service' : ActiveTask} (hjob : service'.job = service.job)
    (hfailures : service'.failures = service.failures)
    (hmove : ServiceMove service [effect] none [.error failure] .failed
      (.failed (service.failures ++ [failure]))) :
    let r := failService env ({ io with world }.record effect)
      { run with services := kept ++ rest } service' failure
    ServicePolled failFast io run kept rest (r.1, r.2, none) := by
  refine ⟨.single ?_, rfl, rfl, rfl, rfl, rfl, rfl, rfl, rfl⟩
  have h : Move failFast (view io run) _ := .serviceLeft (view io run) kept rest service [effect]
    [Except.error failure] .failed _
    (elapsedMs env ({ io with world }.record effect) (service'.fail failure).started) hservices rfl
    hmove
  rw [← hjob, ← hfailures] at h
  exact h

theorem serviceExited_moves (env : Env W) (world : W) (status : ExitStatus)
    (hchild : service.child = true) :
    ServicePolled failFast io run kept rest
      (serviceExited env { io with world } { run with services := kept ++ rest } service status) := by
  have hleftEq : service.reaped.serviceRestartsLeft = service.serviceRestartsLeft := rfl
  simp only [serviceExited, hleftEq]
  by_cases hok : status.success = true
  · rw [if_pos hok]
    refine ⟨.single ?_, rfl, rfl, rfl, rfl, rfl, rfl, rfl, rfl⟩
    have h : Move failFast (view io run) _ := .serviceLeft (view io run) kept rest service _ [] _ _
      (elapsedMs env ({ io with world }.record (.exited (service.proc .original) status))
        service.started) hservices rfl (.stopped service status hchild hok)
    rw [List.append_nil] at h
    exact h
  · have hno : status.success = false := by simpa using hok
    rw [if_neg hok]
    by_cases hleft : 0 < service.serviceRestartsLeft
    · rw [if_pos hleft]
      refine ⟨.single ?_, rfl, rfl, rfl, rfl, rfl, rfl, rfl⟩
      exact .service (view io run) kept rest service _ _ _ _ _
        hservices rfl (.restarted service status hchild hno hleft)
    · rw [if_neg hleft]
      exact failService_moves hservices env rfl rfl (.exhausted service status _ hchild hno)

theorem unchanged_moves {io' : Io W} (htoken : io'.token = io.token) (htrace : io'.trace = io.trace) :
    ServicePolled failFast io run kept rest
      (io', { run with services := kept ++ rest }, some service) := by
  have hsame : view io' { run with services := kept ++ service :: rest } = view io run := by
    rw [← hservices]; simp [view, htoken, htrace]
  refine ⟨?_, htoken, rfl, rfl, rfl, rfl, rfl, rfl⟩
  simp only [hsame]
  exact .refl

theorem respawnService_moves (env : Env W) (hchild : service.child = false) :
    ServicePolled failFast io run kept rest
      (respawnService env io { run with services := kept ++ rest } service) := by
  unfold respawnService
  rcases hc : service.commands with _ | ⟨command, restCommands⟩
  · exact unchanged_moves hservices rfl rfl
  · simp only
    rcases env.spawn io.world (service.take command restCommands) command with ⟨answer, world⟩
    cases answer with
    | ok _ =>
      refine ⟨.single ?_, rfl, rfl, rfl, rfl, rfl, rfl, rfl⟩
      exact .service (view io run) kept rest service _ _ _ _ _
        hservices rfl (.spawned service command restCommands (env.now world) hchild hc)
    | error error =>
      exact failService_moves hservices env rfl rfl
        (.spawnFailed service command restCommands error _ hchild hc)

theorem advanceService_moves (env : Env W) :
    ServicePolled failFast io run kept rest
      (advanceService env io { run with services := kept ++ rest } service) := by
  unfold advanceService
  by_cases hchild : service.child = true
  · rw [if_pos hchild]
    rcases env.tryWait io.world service with ⟨error | _ | status, world⟩
    · exact unchanged_moves hservices rfl rfl
    · exact unchanged_moves hservices rfl rfl
    · exact serviceExited_moves hservices env world status hchild
  · rw [if_neg hchild]
    exact respawnService_moves hservices env (by simpa using hchild)

end Services

theorem advanceServicesFrom_moves (failFast : Bool) (env : Env W) :
    ∀ (rest kept : List ActiveTask) (io : Io W) (run : Run), run.services = kept ++ rest →
      let r := advanceServicesFrom env kept rest io run
      Moves failFast (view io run) (view r.1 r.2) ∧ r.1.token = io.token ∧ run.SameStage r.2
  | [], kept, io, run, _ => by
    simp only [advanceServicesFrom]
    exact ⟨.refl, trivial, .refl run⟩
  | service :: rest, kept, io, run, hservices => by
    have hpoll : ServicePolled failFast io run kept rest _ := advanceService_moves hservices env
    simp only [advanceServicesFrom]
    rcases hr : advanceService env io { run with services := kept ++ rest } service with
      ⟨io₁, run₁, _ | service₁⟩
    · obtain ⟨hmoves, htoken, hkept, hsame⟩ := hr ▸ hpoll
      obtain ⟨hrest, htoken', hsame'⟩ := advanceServicesFrom_moves failFast env rest kept io₁ run₁
        hkept
      exact ⟨hmoves.trans hrest, htoken'.trans htoken, hsame.trans hsame'⟩
    · obtain ⟨hmoves, htoken, hsame⟩ := hr ▸ hpoll
      obtain ⟨hrest, htoken', hsame'⟩ := advanceServicesFrom_moves failFast env rest
        (kept ++ [service₁]) io₁ { run₁ with services := kept ++ service₁ :: rest } (by simp)
      refine ⟨hmoves.trans hrest, htoken'.trans htoken, .trans ?_ hsame'⟩
      exact ⟨hsame.active, hsame.queued, hsame.stages, hsame.stageLimit, hsame.pending,
        hsame.metadata⟩

theorem advanceServices_moves (failFast : Bool) (env : Env W) (io : Io W) (run : Run) :
    let r := advanceServices env io run
    Moves failFast (view io run) (view r.1 r.2) ∧ r.1.token = io.token ∧ run.SameStage r.2 :=
  advanceServicesFrom_moves failFast env run.services [] io run rfl

end Funzzy
