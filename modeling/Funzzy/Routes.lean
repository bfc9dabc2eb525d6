import Funzzy.Reload.Commit

/-! How plans reach the executor.

    A plan of the configuration is executed because files changed, a target or a path was asked for, the
    watcher starts, a local runner is given it, or a reload starts services. The requests of the worker
    and the local runner resolve the working directories and expand the commands in one place each; the
    services of a reload are sent to the executor as the configuration has them. The executor looks at a
    working directory before the first command, if the task has one. -/

namespace Funzzy

open UnixPath

/-! ### Routes -/

/-- `WorkflowRunner::run` up to the executor. -/
def WorkerContext.localPlan (ctx : WorkerContext) (plan : RunPlan) (filepath : Option String) :
    Except String RunPlan :=
  match plan.resolveContext ctx.fs ctx.root with
  | .error error => .error error
  | .ok plan => .ok (plan.expand { filepath, currentDir := ctx.root }).1

inductive Route where
  | request (origin : Origin)
  | blocking (plan : RunPlan) (filepath : Option String)
  | services (names : List String)

section Executing

variable (ctx : WorkerContext) (M : Matchers) (w : Watches)

/-- The configured plan of a route, with what its commands are to be expanded against. -/
def Route.source : Route → Option (RunPlan × TemplateOptions)
  | .request origin => (origin.route M w).map fun r =>
      (r.plan, { filepath := r.filepath, paths := r.changed, currentDir := ctx.root })
  | .blocking plan filepath => some (plan, { filepath, currentDir := ctx.root })
  | .services names => some (w.servicePlan names, { currentDir := ctx.root })

/-- The plan that reaches the executor, if the route leads there. -/
def Route.executed (cells : WorkerCells) (runId : Nat) : Route → Option RunPlan
  | .request origin => (origin.route M w).bind fun r =>
      (r.request ctx cells runId).toOption.map RunRequest.plan
  | .blocking plan filepath => (ctx.localPlan plan filepath).toOption
  | .services names => some (w.servicePlan names)

end Executing

/-! ### Prepared plans -/

/-- A working directory within the workspace: the root, or the root joined with a relative path that does
    not go up. -/
def InWorkspace (root : String) (cwd : Option String) (directory : String) : Prop :=
  match cwd with
  | none => directory = root
  | some cwd => isAbsolute cwd.toList = false ∧ .parentDir ∉ components cwd.toList
      ∧ directory = String.ofList (join root.toList cwd.toList)

/-- The executor does nothing for the task while its working directory is not there, whatever it runs on:
    the task fails at its first step and no command is spawned. -/
def Checked (task : TaskPlan) (directory : String) : Prop :=
  ∀ (W : Type) (env : Env W) (phase : Phase) (failFast : Bool) (io : Io W) (results : Results),
    env.isDir io.world { ActiveTask.ofPlan task with contextValidated := true } directory = false →
    (advanceTask env phase failFast io (ActiveTask.ofPlan task) results).1
        = io.record (.contextInvalid task.position)
      ∧ (advanceTask env phase failFast io (ActiveTask.ofPlan task) results).2.1.commands = []

/-- A task as it is to be executed: in a working directory of the workspace that is checked, with its
    commands expanded once. -/
structure TaskPlan.Prepared (root : String) (opts : TemplateOptions) (task executed : TaskPlan) :
    Prop where
  directory : ∃ directory, executed.context.cwd = some directory
    ∧ InWorkspace root task.context.cwd directory ∧ Checked executed directory
  commands : executed.commands
    = task.commands.map fun c => ((executed.options opts).templateLine c).1
  recoveryCommands : executed.recoveryCommands
    = task.recoveryCommands.map fun cs => cs.map fun c => ((executed.options opts).templateLine c).1

/-- The executed plan is the configured one with every task prepared. -/
def RunPlan.Prepared (root : String) (opts : TemplateOptions) (plan executed : RunPlan) : Prop :=
  List.Forall₂ (Stage.Alike (TaskPlan.Prepared root opts)) plan.stages executed.stages

/-! ### Resolving and expanding -/

theorem PathResolver.resolveCwd_inWorkspace {fs : PathResolver} {root directory : String}
    {task : TaskPlan} (h : fs.resolveCwd root task = .ok directory) :
    InWorkspace root task.context.cwd directory := by
  rw [PathResolver.resolveCwd] at h
  unfold InWorkspace
  cases hcwd : task.context.cwd with
  | none =>
    rw [hcwd] at h
    cases h
    rfl
  | some cwd =>
    rw [hcwd] at h
    dsimp only at h
    split at h
    · cases h
    · next habsolute =>
      split at h
      · cases h
      · next hparent =>
        refine ⟨by simpa using habsolute, hparent, ?_⟩
        -- every way that succeeds succeeds with the joined path
        split at h
        · split at h
          · cases h
          · split at h
            · cases h
            · split at h
              · cases h
                rfl
              · cases h
        · cases h
          rfl

/-- A task with a working directory has it checked. -/
theorem checked_of_cwd {task : TaskPlan} {directory : String}
    (h : task.context.cwd = some directory) : Checked task directory := by
  intro W env phase failFast io results hmissing
  have hcwd : (ActiveTask.ofPlan task).context.cwd = some directory := h
  have hfresh : (ActiveTask.ofPlan task).contextValidated = false := rfl
  rw [advanceTask, if_neg (by rw [hfresh]; decide)]
  simp only [hcwd, hmissing, Bool.false_eq_true, if_false, and_true]
  rfl

theorem resolveTask_prepared {fs : PathResolver} {root : String} {task resolved : TaskPlan}
    (opts : TemplateOptions) (h : fs.resolveTask root task = .ok resolved) :
    task.Prepared root opts (resolved.expand opts) := by
  obtain ⟨directory, hdirectory, rfl⟩ := PathResolver.resolveTask_eq_ok h
  exact ⟨⟨directory, rfl, PathResolver.resolveCwd_inWorkspace hdirectory, checked_of_cwd rfl⟩, rfl, rfl⟩

theorem resolveStage_prepared {fs : PathResolver} {root : String} {stage resolved : Stage}
    (opts : TemplateOptions) (h : fs.resolveStage root stage = .ok resolved) :
    stage.Alike (TaskPlan.Prepared root opts) (resolved.expand opts) := by
  cases stage with
  | serial task =>
    rw [PathResolver.resolveStage] at h
    split at h
    · cases h
    · next resolved' hresolved =>
      cases h
      exact .serial (resolveTask_prepared opts hresolved)
  | parallel group tasks =>
    rw [PathResolver.resolveStage] at h
    split at h
    · cases h
    · next resolved' hresolved =>
      cases h
      refine .parallel ?_
      rw [List.forall₂_map_right_iff]
      exact (collect_eq_ok hresolved).imp fun _ _ => resolveTask_prepared opts

/-- Resolving and then expanding prepares every task of a plan, in the stages it has. -/
theorem RunPlan.resolveContext_prepared {plan resolved : RunPlan} {fs : PathResolver} {root : String}
    (opts : TemplateOptions) (h : plan.resolveContext fs root = .ok resolved) :
    plan.Prepared root opts (resolved.expand opts).1 := by
  rw [RunPlan.resolveContext] at h
  split at h
  · cases h
  · next stages hstages =>
    cases h
    rw [RunPlan.Prepared, RunPlan.expand, List.forall₂_map_right_iff]
    exact (collect_eq_ok hstages).imp fun _ _ => resolveStage_prepared opts

/-- Every request of a worker is for a prepared plan. -/
theorem Routed.request_prepared {ctx : WorkerContext} {cells : WorkerCells} {runId : Nat} {r : Routed}
    {request : RunRequest} (hexpands : r.target.isSome → r.filepath = none ∧ r.changed = [])
    (h : r.request ctx cells runId = .ok request) :
    r.plan.Prepared ctx.root { filepath := r.filepath, paths := r.changed, currentDir := ctx.root }
      request.plan := by
  have hprepare : ∀ {trigger filepath batch changed revision} {prepared : RunRequest},
      ctx.prepareRequest cells runId r.plan trigger filepath batch changed revision = .ok prepared →
      r.plan.Prepared ctx.root { filepath, paths := changed, currentDir := ctx.root } prepared.plan := by
    intro trigger filepath batch changed revision prepared hprepared
    rw [WorkerContext.prepareRequest] at hprepared
    split at hprepared
    · cases hprepared
    · next resolved hresolved =>
      cases hprepared
      exact RunPlan.resolveContext_prepared _ hresolved
  rw [Routed.request] at h
  split at h
  · next name sequential htarget =>
    rw [WorkerContext.targetRequest] at h
    split at h
    · cases h
    · next prepared hprepared =>
      cases h
      obtain ⟨hfilepath, hchanged⟩ := hexpands (by rw [htarget]; rfl)
      rw [hfilepath, hchanged]
      have hplan := hprepare hprepared
      exact hplan
  · exact hprepare h

/-- A target has no triggering path. -/
theorem Origin.route_target {M : Matchers} {w : Watches} {origin : Origin} {r : Routed}
    (h : origin.route M w = some r) : r.target.isSome → r.filepath = none ∧ r.changed = [] := by
  cases origin with
  | batch id changed =>
    obtain ⟨⟨plan, trigger⟩, -, rfl⟩ := Option.map_eq_some_iff.mp h
    intro htarget
    cases htarget
  | init =>
    obtain ⟨plan, -, rfl⟩ := Option.map_eq_some_iff.mp h
    intro htarget
    cases htarget
  | target name sequential =>
    obtain ⟨plan, -, rfl⟩ := Option.map_eq_some_iff.mp h
    exact fun _ => ⟨rfl, rfl⟩
  | emit path =>
    obtain ⟨plan, -, rfl⟩ := Option.map_eq_some_iff.mp h
    intro htarget
    cases htarget

/-! ### Services -/

/-- A relative path joined to a workspace root is not itself. -/
theorem join_ne_self {root path : List Char} (hroot : isAbsolute root = true)
    (hpath : isAbsolute path = false) : join root path ≠ path := by
  intro h
  have hlength := congrArg List.length h
  have hpos : 0 < root.length := by
    cases root with
    | nil => cases hroot
    | cons c rest => exact Nat.succ_pos _
  rw [join, hpath] at hlength
  simp only [Bool.false_eq_true, if_false] at hlength
  split at hlength
  · rw [List.length_append] at hlength
    omega
  · rw [List.length_append, List.length_cons] at hlength
    omega

/-- A task that is executed as it is configured is not prepared: its working directory would have to be
    the one it is joined to. -/
theorem not_prepared_self {root : String} (hroot : isAbsolute root.toList = true)
    (opts : TemplateOptions) (task : TaskPlan) : ¬task.Prepared root opts task := by
  rintro ⟨⟨directory, hcwd, hinside, -⟩, -, -⟩
  rw [hcwd] at hinside
  obtain ⟨hrelative, -, hjoined⟩ := hinside
  refine join_ne_self hroot hrelative ?_
  have := congrArg String.toList hjoined
  rw [String.toList_ofList] at this
  exact this.symm

theorem prepared_self_iff {root : String} (hroot : isAbsolute root.toList = true)
    (opts : TemplateOptions) (plan : RunPlan) : plan.Prepared root opts plan ↔ plan.tasks = [] := by
  rw [RunPlan.Prepared, List.forall₂_same, RunPlan.tasks, List.flatMap_eq_nil_iff]
  refine forall₂_congr fun stage _ => ?_
  constructor
  · intro h
    cases h with
    | serial htask => exact absurd htask (not_prepared_self hroot opts _)
    | parallel htasks =>
      rw [stageTasks, List.eq_nil_iff_forall_not_mem]
      exact fun task htask =>
        not_prepared_self hroot opts task (List.forall₂_same.mp htasks task htask)
  · intro h
    cases stage with
    | serial task => cases h
    | parallel group tasks =>
      obtain rfl : tasks = [] := h
      exact .parallel .nil

/-- Whatever the route, the plan that reaches the executor is resolved, checked and expanded once, unless
    it is the services that a reload starts. -/
theorem executed_prepared_iff (ctx : WorkerContext) (M : Matchers) (w : Watches) (cells : WorkerCells)
    (runId : Nat) (route : Route) (plan executed : RunPlan) (opts : TemplateOptions)
    (hroot : ctx.root = w.root) (hsource : route.source ctx M w = some (plan, opts))
    (hexecuted : route.executed ctx M w cells runId = some executed) :
    plan.Prepared ctx.root opts executed
      ↔ ∀ names, route = .services names → (w.servicePlan names).tasks = [] := by
  cases route with
  | request origin =>
    refine ⟨fun _ names h => (by cases h), fun _ => ?_⟩
    obtain ⟨r, hroute, hrequest⟩ := Option.bind_eq_some_iff.mp hexecuted
    obtain ⟨request, hok, rfl⟩ := Option.map_eq_some_iff.mp hrequest
    rw [Route.source, hroute] at hsource
    cases hsource
    have hok' : r.request ctx cells runId = .ok request := by
      cases hresult : r.request ctx cells runId with
      | error error =>
        rw [hresult] at hok
        cases hok
      | ok other =>
        rw [hresult] at hok
        cases hok
        rfl
    exact Routed.request_prepared (Origin.route_target hroute) hok'
  | blocking blocked filepath =>
    refine ⟨fun _ names h => (by cases h), fun _ => ?_⟩
    cases hsource
    rw [Route.executed, WorkerContext.localPlan] at hexecuted
    split at hexecuted
    · cases hexecuted
    · next resolved hresolved =>
      cases hexecuted
      exact RunPlan.resolveContext_prepared _ hresolved
  | services names =>
    cases hsource
    cases hexecuted
    rw [prepared_self_iff (by rw [hroot]; exact w.rooted)]
    constructor
    · rintro h _ ⟨⟩
      exact h
    · exact fun h => h names rfl

/-- A service with a working directory of its own and a command that names the triggering path. -/
def serviceWatches : Watches :=
  .withRootAndConcurrency
    [{ name := "api", commands := ["serve \x7b\x7bfilepath\x7d\x7d"], cwd := some "api", service := true,
       runOnInit := true }] "/ws" 1 isAbsolute_ws Nat.one_pos

theorem executed_prepared_on_start :
    ∃ plan executed opts, (Route.request .init).source plainContext noPatterns serviceWatches
        = some (plan, opts)
      ∧ (Route.request .init).executed plainContext noPatterns serviceWatches { concurrency := 1 } 1
        = some executed
      ∧ executed.tasks.map (fun task => (task.context.cwd, task.commands))
        = [(some "/ws/api", [.shell "serve "])]
      ∧ plan.Prepared "/ws" opts executed := by
  refine ⟨_, _, _, rfl, rfl, by decide, ?_⟩
  exact (executed_prepared_iff plainContext noPatterns serviceWatches { concurrency := 1 } 1
    (.request .init) _ _ _ rfl rfl rfl).mpr fun names h => (by cases h)

/-- The same service, started by a reload, is executed where the watcher stands, with its command as it is
    written. -/
theorem reloaded_service_not_prepared :
    ∃ executed opts, (Route.services ["api"]).source plainContext noPatterns serviceWatches
        = some (executed, opts)
      ∧ (Route.services ["api"]).executed plainContext noPatterns serviceWatches { concurrency := 1 } 1
        = some executed
      ∧ executed.tasks.map (fun task => (task.context.cwd, task.commands))
        = [(some "api", [.shell "serve \x7b\x7bfilepath\x7d\x7d"])]
      ∧ ¬executed.Prepared "/ws" opts executed := by
  refine ⟨_, _, rfl, rfl, by decide, fun h => ?_⟩
  rw [prepared_self_iff (by decide)] at h
  revert h
  decide

end Funzzy
