import Funzzy.Watches
import Funzzy.Worker.Scheduler

/-! Preparing a run (`plan.rs`, `template.rs`, `workers.rs`): working directories are resolved against
    the workspace root, templates are expanded, and the request is filled in from the worker's cells.

    Only resolving can fail. It asks the file system, which is a parameter here; what a plan's tasks are
    and where they stand never changes. -/

namespace Funzzy

open UnixPath

/-! ### Templates -/

structure TemplateOptions where
  filepath : Option String := none
  paths : List String := []
  currentDir : String
  deriving DecidableEq

/-- `str::split` by a text: leftmost occurrences that do not overlap. -/
def splitText (sep : List Char) : Nat → List Char → List Char → List (List Char)
  | _, [], acc => [acc.reverse]
  | skip + 1, _ :: rest, acc => splitText sep skip rest acc
  | 0, c :: rest, acc =>
    if sep <+: c :: rest then acc.reverse :: splitText sep (sep.length - 1) rest []
    else splitText sep 0 rest (c :: acc)

/-- The characters `str::trim` removes. -/
def isSpace (c : Char) : Bool :=
  let n := c.toNat
  (9 ≤ n && n ≤ 13) || n = 0x20 || n = 0x85 || n = 0xa0 || n = 0x1680 || (0x2000 ≤ n && n ≤ 0x200a)
    || n = 0x2028 || n = 0x2029 || n = 0x202f || n = 0x205f || n = 0x3000

def trim (t : List Char) : List Char := ((t.dropWhile isSpace).reverse.dropWhile isSpace).reverse

/-- Two opening braces. -/
def openMark : List Char := ['\x7b', '\x7b']

/-- Two closing braces. -/
def closeMark : List Char := ['\x7d', '\x7d']

/-- Single-quotes a path for shell use. -/
def shellEscape (path : List Char) : List Char :=
  let quote := '\x27'
  quote :: path.flatMap (fun c => if c = quote then [quote, '\\', quote, quote] else [c]) ++ [quote]

/-- `render_paths`. -/
def renderPaths (paths : List String) : List Char :=
  [' '].intercalate (paths.map fun path => shellEscape path.toList)

/-- The value of a template variable. -/
def TemplateOptions.value? (opts : TemplateOptions) (name : List Char) : Option (List Char) :=
  let filepath := (opts.filepath.getD "").toList
  if name = "filepath".toList ∨ name = "absolute_path".toList then some filepath
  else if name = "relative_filepath".toList ∨ name = "relative_path".toList then
    some (splitText (opts.currentDir.toList ++ ['/']) 0 filepath []).flatten
  else if name = "paths".toList then some (renderPaths opts.paths)
  else none

/-- One part of a command after an opening mark: what it becomes, and the variable if it is unknown.
    What follows a second closing mark is dropped. -/
def TemplateOptions.expandPart (opts : TemplateOptions) (part : List Char) : List Char × List String :=
  match splitText closeMark 0 part [] with
  | name :: rest :: _ =>
    match opts.value? (trim name) with
    | some value => (value ++ rest, [])
    | none => (openMark ++ name ++ closeMark ++ rest, [String.ofList (trim name)])
  | _ => (part, [])

/-- `expand_command`. -/
def TemplateOptions.expandCommand (opts : TemplateOptions) (command : String) : String × List String :=
  if openMark <:+: command.toList then
    let parts := (splitText openMark 0 command.toList []).map opts.expandPart
    (String.ofList (parts.flatMap (·.1)), parts.flatMap (·.2))
  else (command, [])

/-- `template_line`: each element of an argv is expanded on its own. -/
def TemplateOptions.templateLine (opts : TemplateOptions) : CommandLine → CommandLine × List String
  | .shell command => ((.shell (opts.expandCommand command).1), (opts.expandCommand command).2)
  | .argv argv =>
    (.argv (argv.map fun arg => (opts.expandCommand arg).1), argv.flatMap fun arg => (opts.expandCommand arg).2)

/-! ### Resolving and expanding a plan -/

/-- What resolving asks the file system: whether the path itself exists, and its canonical form, or the
    text of the error. -/
structure PathResolver where
  symlinkMetadata : String → Bool
  canonicalize : String → Except String String

/-- The effective working directory of a task. -/
def PathResolver.resolveCwd (fs : PathResolver) (root : String) (task : TaskPlan) : Except String String :=
  match task.context.cwd with
  | none => .ok root
  | some cwd =>
    if isAbsolute cwd.toList then
      .error ("Task '" ++ task.name ++ "' cwd must be relative to workspace root: " ++ cwd)
    else if .parentDir ∈ components cwd.toList then
      .error ("Task '" ++ task.name ++ "' cwd cannot escape workspace root: " ++ cwd)
    else
      let candidate := String.ofList (join root.toList cwd.toList)
      if fs.symlinkMetadata candidate then
        match fs.canonicalize root with
        | .error error =>
          .error ("Task '" ++ task.name ++ "' workspace root cannot be resolved: " ++ root ++ " ("
            ++ error ++ ")")
        | .ok canonicalRoot =>
          match fs.canonicalize candidate with
          | .error error =>
            .error ("Task '" ++ task.name ++ "' cwd cannot be resolved: " ++ candidate ++ " ("
              ++ error ++ ")")
          | .ok canonical =>
            if startsWith (components canonical.toList) (components canonicalRoot.toList) then
              .ok candidate
            else
              .error ("Task '" ++ task.name ++ "' cwd cannot escape workspace root through a symlink: "
                ++ cwd)
      else .ok candidate

/-- `resolve_task`. -/
def PathResolver.resolveTask (fs : PathResolver) (root : String) (task : TaskPlan) : Except String TaskPlan :=
  match fs.resolveCwd root task with
  | .error error => .error error
  | .ok cwd => .ok { task with context := { task.context with cwd := some cwd } }

/-- The first error ends the collection. -/
def collect {α β : Type} (f : α → Except String β) : List α → Except String (List β)
  | [] => .ok []
  | x :: rest =>
    match f x with
    | .error error => .error error
    | .ok y =>
      match collect f rest with
      | .error error => .error error
      | .ok ys => .ok (y :: ys)

def PathResolver.resolveStage (fs : PathResolver) (root : String) : Stage → Except String Stage
  | .serial task =>
    match fs.resolveTask root task with
    | .error error => .error error
    | .ok task => .ok (.serial task)
  | .parallel group tasks =>
    match collect (fs.resolveTask root) tasks with
    | .error error => .error error
    | .ok tasks => .ok (.parallel group tasks)

/-- `resolve_context`. -/
def RunPlan.resolveContext (plan : RunPlan) (fs : PathResolver) (root : String) : Except String RunPlan :=
  match collect (fs.resolveStage root) plan.stages with
  | .error error => .error error
  | .ok stages => .ok { stages }

/-- The options a task's commands are expanded with. -/
def TaskPlan.options (task : TaskPlan) (opts : TemplateOptions) : TemplateOptions :=
  { opts with currentDir := task.context.cwd.getD opts.currentDir }

def TaskPlan.expand (opts : TemplateOptions) (task : TaskPlan) : TaskPlan :=
  { task with
    commands := task.commands.map fun c => ((task.options opts).templateLine c).1
    recoveryCommands := task.recoveryCommands.map fun commands =>
      commands.map fun c => ((task.options opts).templateLine c).1 }

/-- The unknown variables of a task, which are warned about. -/
def TaskPlan.unknown (opts : TemplateOptions) (task : TaskPlan) : List String :=
  (task.commands ++ task.recoveryCommands.getD []).flatMap fun c => ((task.options opts).templateLine c).2

def Stage.expand (opts : TemplateOptions) : Stage → Stage
  | .serial task => .serial (task.expand opts)
  | .parallel group tasks => .parallel group (tasks.map (TaskPlan.expand opts))

/-- `expand`: the plan, and the unknown variables. -/
def RunPlan.expand (plan : RunPlan) (opts : TemplateOptions) : RunPlan × List String :=
  ({ stages := plan.stages.map (Stage.expand opts) }, plan.tasks.flatMap (TaskPlan.unknown opts))

/-! ### The request -/

/-- The cells of a worker that requests are filled in from. -/
structure WorkerCells where
  concurrency : Nat
  hooks : GenerationHooks := {}
  recoveryPolicy : RecoveryPolicy := .prompt
  revision : Option ConfigRevision := none
  deriving DecidableEq

/-- What stays the same while a worker lives. `signature` stands for the execution signature of a plan
    under a concurrency limit and the fail-fast policy. -/
structure WorkerContext where
  fs : PathResolver
  root : String
  failFast : Bool
  signature : RunPlan → Nat → Bool → String

/-- `prepare_request`, with the run id it has allocated. -/
def WorkerContext.prepareRequest (ctx : WorkerContext) (cells : WorkerCells) (runId : Nat)
    (plan : RunPlan) (trigger : String) (filepath : Option String) (batch : Option Nat)
    (changed : List String) (callerRevision : Option ConfigRevision) : Except String RunRequest :=
  match plan.resolveContext ctx.fs ctx.root with
  | .error error => .error error
  | .ok plan =>
    let revision := callerRevision.or cells.revision
    .ok
      { runId
        plan := (plan.expand { filepath, paths := changed, currentDir := ctx.root }).1
        trigger
        batch
        changed
        hooks := cells.hooks
        recoveryPolicy := cells.recoveryPolicy
        revision := revision.map (·.number)
        revisionHash := revision.map (·.hash) }

/-- The request of `schedule_target`. -/
def WorkerContext.targetRequest (ctx : WorkerContext) (cells : WorkerCells) (runId : Nat)
    (plan : RunPlan) (target : String) (sequential : Bool) (revision : Option ConfigRevision) :
    Except String RunRequest :=
  let effective := if sequential then 1 else cells.concurrency
  match ctx.prepareRequest cells runId plan ("control:" ++ target) none none [] revision with
  | .error error => .error error
  | .ok request =>
    .ok
      { request with
        target := some target
        executionSignature := some (ctx.signature request.plan effective ctx.failFast)
        effectiveConcurrency := some effective
        concurrencySource := if sequential then some "control" else none
        hooks := cells.hooks }

/-! ### What preparing keeps -/

theorem collect_eq_ok {α β : Type} {f : α → Except String β} : ∀ {xs : List α} {ys : List β},
    collect f xs = .ok ys → List.Forall₂ (fun x y => f x = .ok y) xs ys := by
  intro xs
  induction xs with
  | nil =>
    intro ys h
    cases h
    exact .nil
  | cons x rest ih =>
    intro ys h
    rw [collect] at h
    split at h
    · cases h
    · rename_i y hy
      split at h
      · cases h
      · rename_i rest' hrest
        cases h
        exact .cons hy (ih hrest)

theorem collect_eq_error {α β : Type} {f : α → Except String β} {error : String} : ∀ {xs : List α},
    collect f xs = .error error → ∃ x ∈ xs, f x = .error error := by
  intro xs
  induction xs with
  | nil =>
    intro h
    cases h
  | cons x rest ih =>
    intro h
    rw [collect] at h
    split at h
    · rename_i error' hx
      cases h
      exact ⟨x, List.mem_cons_self, hx⟩
    · split at h
      · rename_i error' hrest
        cases h
        obtain ⟨y, hy, herror⟩ := ih hrest
        exact ⟨y, List.mem_cons_of_mem _ hy, herror⟩
      · cases h

/-- A task resolves to itself with a working directory. -/
theorem PathResolver.resolveTask_eq_ok {fs : PathResolver} {root : String} {task task' : TaskPlan}
    (h : fs.resolveTask root task = .ok task') :
    ∃ cwd, fs.resolveCwd root task = .ok cwd ∧
      task' = { task with context := { task.context with cwd := some cwd } } := by
  unfold PathResolver.resolveTask at h
  split at h
  · cases h
  · rename_i cwd hcwd
    cases h
    exact ⟨cwd, hcwd, rfl⟩

theorem PathResolver.resolveTask_eq_error {fs : PathResolver} {root error : String} {task : TaskPlan}
    (h : fs.resolveTask root task = .error error) : fs.resolveCwd root task = .error error := by
  unfold PathResolver.resolveTask at h
  split at h
  · rename_i error' hcwd
    cases h
    exact hcwd
  · cases h

/-- Every error of resolving a plan is the error of one of its tasks. -/
theorem RunPlan.resolveContext_error {plan : RunPlan} {fs : PathResolver} {root error : String}
    (h : plan.resolveContext fs root = .error error) :
    ∃ task ∈ plan.tasks, fs.resolveCwd root task = .error error := by
  unfold RunPlan.resolveContext at h
  split at h
  · rename_i error' hstages
    cases h
    obtain ⟨stage, hstage, hfails⟩ := collect_eq_error hstages
    cases stage with
    | serial task =>
      rw [PathResolver.resolveStage] at hfails
      split at hfails
      · rename_i error' htask
        cases hfails
        exact ⟨task, List.mem_flatMap.mpr ⟨_, hstage, List.mem_singleton.mpr rfl⟩,
          PathResolver.resolveTask_eq_error htask⟩
      · cases hfails
    | parallel group tasks =>
      rw [PathResolver.resolveStage] at hfails
      split at hfails
      · rename_i error' htasks
        cases hfails
        obtain ⟨task, htask, hfails⟩ := collect_eq_error htasks
        exact ⟨task, List.mem_flatMap.mpr ⟨_, hstage, htask⟩, PathResolver.resolveTask_eq_error hfails⟩
      · cases hfails
  · cases h

end Funzzy
