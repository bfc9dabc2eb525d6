import Mathlib.Data.List.Basic
import Mathlib.Data.List.Range
import Mathlib.Data.List.Sort

/-! Execution domain: rules, task plans, stages and run outcomes (`rules.rs`, `plan.rs`).

    A `RunPlan` is an ordered list of stages; a stage is one serial task or one contiguous occurrence
    of a named parallel group. Every task keeps the position of its rule in the configuration, and
    everything the executor reports is keyed by that position. The results of this module say that
    planning keeps positions: `fromRules` numbers the rules `0, 1, 2, …`, and filtering, resolving
    and expanding a plan only ever drop tasks or rewrite their commands. -/

namespace Funzzy

/-! ### Rules -/

/-- One command selected for execution: a shell string or an exact argv vector. -/
inductive CommandLine where
  | shell (command : String)
  | argv (argv : List String)
  deriving DecidableEq

/-- Human-readable form used in logs, control payloads, and summaries. -/
def CommandLine.display : CommandLine → String
  | .shell command => command
  | .argv args => " ".intercalate args

/-- Per-job output policy. -/
inductive OutputPolicy where | inherit | quiet | capture | showOnFailure
  deriving DecidableEq

/-- One configured task. Watch and ignore patterns are read by routing, not by execution. -/
structure Rules where
  name : String
  commands : List String := []
  recovery : Option (List String) := none
  argv : Option (List String) := none
  watchPatterns : List String := []
  ignorePatterns : List String := []
  runOnInit : Bool := false
  parallel : Option String := none
  cwd : Option String := none
  environment : List (String × String) := []
  inherited : List String := []
  output : OutputPolicy := .inherit
  service : Bool := false
  deriving DecidableEq

/-- The commands a rule executes: its shell commands, or its single exact argv. -/
def Rules.commandLines (rule : Rules) : List CommandLine :=
  match rule.argv with
  | some argv => [.argv argv]
  | none => rule.commands.map .shell

/-- Recovery commands as shell command lines, preserving absence. -/
def Rules.recoveryCommandLines (rule : Rules) : Option (List CommandLine) :=
  rule.recovery.map (·.map .shell)

/-! ### Plans -/

/-- Process context applied only to one task's child commands. -/
structure TaskContext where
  cwd : Option String := none
  environment : List (String × String) := []
  deriving DecidableEq

/-- One task selected for execution. -/
structure TaskPlan where
  name : String
  position : Nat
  commands : List CommandLine
  recoveryCommands : Option (List CommandLine) := none
  parallel : Option String := none
  groupOccurrence : Option String := none
  rule : Rules
  context : TaskContext := {}
  output : OutputPolicy := .inherit
  service : Bool := false
  deriving DecidableEq

/-- One stage of a run: a serial task or a named parallel-group occurrence. -/
inductive Stage where
  | serial (task : TaskPlan)
  | parallel (group : String) (tasks : List TaskPlan)
  deriving DecidableEq

/-- `stage_tasks`: the tasks of one stage, in declaration order. -/
def stageTasks : Stage → List TaskPlan
  | .serial task => [task]
  | .parallel _ tasks => tasks

/-- Ordered execution plan preserving barriers and group occurrences. -/
structure RunPlan where
  stages : List Stage := []
  deriving DecidableEq

/-- All tasks of the plan in plan order. -/
def RunPlan.tasks (plan : RunPlan) : List TaskPlan := plan.stages.flatMap stageTasks

/-- The exact command order a concurrency limit of one produces. -/
def RunPlan.commands (plan : RunPlan) : List CommandLine :=
  plan.stages.flatMap fun
    | .serial task => task.commands
    | .parallel _ tasks => tasks.flatMap (·.commands)

theorem RunPlan.commands_eq (plan : RunPlan) :
    plan.commands = plan.tasks.flatMap (·.commands) := by
  simp only [RunPlan.commands, RunPlan.tasks, List.flatMap_assoc]
  congr 1
  funext stage
  cases stage <;> simp [stageTasks]

/-! ### Building a plan -/

/-- Loop state of `from_rules`: closed stages, the open group, and occurrence counts per group. -/
structure PlanBuilder where
  stages : List Stage := []
  openGroup : Option (String × List TaskPlan) := none
  groupCounts : String → Nat := fun _ => 0

/-- Closes one group occurrence: every member gets the identity `name#N`. -/
def PlanBuilder.closeGroup (b : PlanBuilder) (group : String) (tasks : List TaskPlan) :
    PlanBuilder :=
  let occurrence := b.groupCounts group + 1
  { stages := b.stages ++ [.parallel group (tasks.map fun task =>
      { task with groupOccurrence := some (group ++ "#" ++ toString occurrence) })]
    openGroup := none
    groupCounts := Function.update b.groupCounts group occurrence }

/-- Closes the open group, if any. -/
def PlanBuilder.close (b : PlanBuilder) : PlanBuilder :=
  match b.openGroup with
  | some (group, tasks) => b.closeGroup group tasks
  | none => b

/-- The task plan of the rule at `position`, before its group occurrence is known. -/
def TaskPlan.ofRule (position : Nat) (rule : Rules) : TaskPlan :=
  { name := rule.name
    position
    commands := rule.commandLines
    recoveryCommands := rule.recoveryCommandLines
    parallel := rule.parallel
    rule
    context := { cwd := rule.cwd, environment := rule.environment }
    output := rule.output
    service := rule.service }

/-- One iteration of the loop of `from_rules`. -/
def PlanBuilder.push (b : PlanBuilder) (plan : TaskPlan) : PlanBuilder :=
  match plan.parallel, b.openGroup with
  | some group, some (openName, tasks) =>
    if group = openName then { b with openGroup := some (openName, tasks ++ [plan]) }
    else { b.close with openGroup := some (group, [plan]) }
  | some group, none => { b with openGroup := some (group, [plan]) }
  | none, _ => { b.close with stages := b.close.stages ++ [.serial plan] }

/-- Builds the plan from parsed rules, preserving config order and group boundaries. -/
def RunPlan.fromRules (rules : List Rules) : RunPlan :=
  let built := (rules.zipIdx.map fun (rule, position) => TaskPlan.ofRule position rule).foldl
    PlanBuilder.push {}
  { stages := built.close.stages }

/-- One stage of `filter`: an occurrence survives with any member left, even a single one. -/
def Stage.filter (keep : Rules → Bool) : Stage → Option Stage
  | .serial task => if keep task.rule then some (.serial task) else none
  | .parallel group tasks =>
    if (tasks.filter fun task => keep task.rule).isEmpty then none
    else some (.parallel group (tasks.filter fun task => keep task.rule))

/-- Filters tasks by their rule without merging originally separate group occurrences. -/
def RunPlan.filter (keep : Rules → Bool) (plan : RunPlan) : RunPlan :=
  { stages := plan.stages.filterMap (Stage.filter keep) }

/-- Applies a rewriting of single tasks to every task, keeping stages and barriers. -/
def RunPlan.mapTasks (f : TaskPlan → TaskPlan) (plan : RunPlan) : RunPlan :=
  { stages := plan.stages.map fun
      | .serial task => .serial (f task)
      | .parallel group tasks => .parallel group (tasks.map f) }

/-! ### Positions -/

/-- Tasks held by a builder, in rule order: closed stages first, then the open group. -/
def PlanBuilder.tasks (b : PlanBuilder) : List TaskPlan :=
  b.stages.flatMap stageTasks ++ (b.openGroup.map (·.2)).getD []

section Built

variable {α : Type} {f : TaskPlan → α}

theorem PlanBuilder.closeGroup_map
    (hf : ∀ task occurrence, f { task with groupOccurrence := occurrence } = f task)
    (b : PlanBuilder) (group : String) (tasks : List TaskPlan) :
    (b.closeGroup group tasks).tasks.map f
      = (b.stages.flatMap stageTasks).map f ++ tasks.map f := by
  simp [PlanBuilder.closeGroup, PlanBuilder.tasks, stageTasks, Function.comp_def, hf]

theorem PlanBuilder.close_map
    (hf : ∀ task occurrence, f { task with groupOccurrence := occurrence } = f task)
    (b : PlanBuilder) : b.close.tasks.map f = b.tasks.map f := by
  unfold PlanBuilder.close
  split
  · rename_i group tasks hopen
    rw [closeGroup_map hf]; simp [PlanBuilder.tasks, hopen]
  · rfl

theorem PlanBuilder.close_openGroup (b : PlanBuilder) : b.close.openGroup = none := by
  unfold PlanBuilder.close
  split
  · rfl
  · rename_i h; exact h

theorem PlanBuilder.push_map
    (hf : ∀ task occurrence, f { task with groupOccurrence := occurrence } = f task)
    (b : PlanBuilder) (plan : TaskPlan) :
    (b.push plan).tasks.map f = b.tasks.map f ++ [f plan] := by
  have hclose := b.close_map hf
  simp only [PlanBuilder.tasks, close_openGroup, Option.map_none, Option.getD_none,
    List.append_nil] at hclose
  unfold PlanBuilder.push
  split
  · rename_i group openName tasks _ hopen
    split
    · simp [PlanBuilder.tasks, hopen]
    · simp only [PlanBuilder.tasks, Option.map_some, Option.getD_some, List.map_append, hclose]
      simp
  · rename_i group _ hopen
    simp [PlanBuilder.tasks, hopen]
  · simp only [PlanBuilder.tasks, close_openGroup, List.flatMap_append, List.map_append, hclose]
    simp [stageTasks]

theorem PlanBuilder.foldl_push_map
    (hf : ∀ task occurrence, f { task with groupOccurrence := occurrence } = f task) :
    ∀ (plans : List TaskPlan) (b : PlanBuilder),
      (plans.foldl PlanBuilder.push b).tasks.map f = b.tasks.map f ++ plans.map f
  | [], b => by simp
  | plan :: plans, b => by
    rw [List.foldl_cons, foldl_push_map hf plans (b.push plan), push_map hf]
    simp

/-- What does not look at the group occurrence is the same of the built tasks as of the rules. -/
theorem RunPlan.fromRules_map
    (hf : ∀ task occurrence, f { task with groupOccurrence := occurrence } = f task)
    (rules : List Rules) :
    (RunPlan.fromRules rules).tasks.map f
      = rules.zipIdx.map fun (rule, position) => f (TaskPlan.ofRule position rule) := by
  have hbuilt := PlanBuilder.foldl_push_map hf
    (rules.zipIdx.map fun (rule, position) => TaskPlan.ofRule position rule) {}
  set built := (rules.zipIdx.map fun (rule, position) => TaskPlan.ofRule position rule).foldl
    PlanBuilder.push {} with hb
  have hstages : (RunPlan.fromRules rules).tasks = built.close.tasks := by
    simp [RunPlan.fromRules, RunPlan.tasks, PlanBuilder.tasks, built.close_openGroup, ← hb]
  rw [hstages, PlanBuilder.close_map hf, hbuilt]
  simp [PlanBuilder.tasks]

end Built

/-- Planning numbers the rules in configuration order. -/
theorem RunPlan.fromRules_positions (rules : List Rules) :
    (RunPlan.fromRules rules).tasks.map (·.position) = List.range rules.length := by
  rw [RunPlan.fromRules_map (fun _ _ => rfl), List.range_eq_range', ← List.zipIdx_map_snd]
  rfl

/-- Planning keeps the rules in configuration order. -/
theorem RunPlan.fromRules_rules (rules : List Rules) :
    (RunPlan.fromRules rules).tasks.map (·.rule) = rules := by
  rw [RunPlan.fromRules_map (fun _ _ => rfl)]
  exact List.zipIdx_map_fst 0 rules

theorem Stage.filter_tasks (keep : Rules → Bool) (stage : Stage) :
    ((Stage.filter keep stage).map stageTasks).getD []
      = (stageTasks stage).filter fun task => keep task.rule := by
  cases stage with
  | serial task => by_cases hk : keep task.rule <;> simp [Stage.filter, stageTasks, hk]
  | parallel group tasks =>
    simp only [Stage.filter, stageTasks]
    split
    · rename_i h; simpa using h
    · simp [stageTasks]

/-- A filtered plan holds the kept tasks, in order. -/
theorem RunPlan.filter_tasks (keep : Rules → Bool) (plan : RunPlan) :
    (plan.filter keep).tasks = plan.tasks.filter fun task => keep task.rule := by
  obtain ⟨stages⟩ := plan
  simp only [RunPlan.filter, RunPlan.tasks]
  induction stages with
  | nil => rfl
  | cons stage stages ih =>
    rw [List.flatMap_cons, List.filter_append, ← ih, ← Stage.filter_tasks]
    cases hs : Stage.filter keep stage <;> simp [hs]

theorem RunPlan.mapTasks_tasks (f : TaskPlan → TaskPlan) (plan : RunPlan) :
    (plan.mapTasks f).tasks = plan.tasks.map f := by
  simp only [RunPlan.mapTasks, RunPlan.tasks, List.flatMap_map, List.map_flatMap]
  congr 1
  funext stage
  cases stage <;> simp [stageTasks]

/-- A property of tasks that does not look at the group occurrence passes from what is pushed to
    what is built. -/
theorem PlanBuilder.close_forall {Q : TaskPlan → Prop}
    (hQ : ∀ task occurrence, Q task → Q { task with groupOccurrence := occurrence })
    {b : PlanBuilder} (h : ∀ task ∈ b.tasks, Q task) : ∀ task ∈ b.close.tasks, Q task := by
  unfold PlanBuilder.close
  split
  · rename_i group tasks hopen
    intro task htask
    simp only [PlanBuilder.tasks, PlanBuilder.closeGroup, List.flatMap_append, List.flatMap_singleton,
      stageTasks, Option.map_none, Option.getD_none, List.append_nil, List.mem_append,
      List.mem_map] at htask
    rcases htask with htask | ⟨member, hmember, rfl⟩
    · exact h task (List.mem_append_left _ htask)
    · refine hQ member _ (h member ?_)
      simp [PlanBuilder.tasks, hopen, hmember]
  · exact h

theorem PlanBuilder.push_forall {Q : TaskPlan → Prop}
    (hQ : ∀ task occurrence, Q task → Q { task with groupOccurrence := occurrence })
    {b : PlanBuilder} (h : ∀ task ∈ b.tasks, Q task) {plan : TaskPlan} (hplan : Q plan) :
    ∀ task ∈ (b.push plan).tasks, Q task := by
  have hclosed := close_forall hQ h
  have hstages : ∀ task ∈ b.close.stages.flatMap stageTasks, Q task := fun task htask =>
    hclosed task (List.mem_append_left _ htask)
  intro task htask
  unfold PlanBuilder.push at htask
  split at htask
  · rename_i group openName tasks _ hopen
    split at htask
    · simp only [PlanBuilder.tasks, Option.map_some, Option.getD_some, List.mem_append,
        List.mem_singleton] at htask
      rcases htask with htask | htask | rfl
      · exact h task (List.mem_append_left _ htask)
      · exact h task (by simp [PlanBuilder.tasks, hopen, htask])
      · exact hplan
    · simp only [PlanBuilder.tasks, Option.map_some, Option.getD_some, List.mem_append,
        List.mem_singleton] at htask
      rcases htask with htask | rfl
      · exact hstages task htask
      · exact hplan
  · rename_i group _ hopen
    simp only [PlanBuilder.tasks, Option.map_some, Option.getD_some, List.mem_append,
      List.mem_singleton] at htask
    rcases htask with htask | rfl
    · exact h task (List.mem_append_left _ htask)
    · exact hplan
  · simp only [PlanBuilder.tasks, close_openGroup, Option.map_none, Option.getD_none,
      List.append_nil, List.flatMap_append, List.flatMap_singleton, stageTasks, List.mem_append,
      List.mem_singleton] at htask
    rcases htask with htask | rfl
    · exact hstages task htask
    · exact hplan

theorem RunPlan.fromRules_forall {Q : TaskPlan → Prop}
    (hQ : ∀ task occurrence, Q task → Q { task with groupOccurrence := occurrence })
    {rules : List Rules} (h : ∀ rule ∈ rules, ∀ position, Q (TaskPlan.ofRule position rule)) :
    ∀ task ∈ (RunPlan.fromRules rules).tasks, Q task := by
  have hfold : ∀ (plans : List TaskPlan) (b : PlanBuilder), (∀ task ∈ b.tasks, Q task) →
      (∀ plan ∈ plans, Q plan) → ∀ task ∈ (plans.foldl PlanBuilder.push b).tasks, Q task := by
    intro plans
    induction plans with
    | nil => exact fun b hb _ => hb
    | cons plan plans ih =>
      intro b hb hplans
      exact ih (b.push plan) (PlanBuilder.push_forall hQ hb (hplans plan List.mem_cons_self))
        fun other hother => hplans other (List.mem_cons_of_mem _ hother)
  have hbuilt := hfold (rules.zipIdx.map fun (rule, position) => TaskPlan.ofRule position rule) {}
    (by simp [PlanBuilder.tasks]) fun plan hplan => by
      obtain ⟨⟨rule, position⟩, hrule, rfl⟩ := List.mem_map.mp hplan
      exact h rule (List.fst_mem_of_mem_zipIdx hrule) position
  have hclosed := PlanBuilder.close_forall hQ hbuilt
  intro task htask
  exact hclosed task (List.mem_append_left _ htask)

/-- No stage is without tasks, nor is the open group. -/
structure PlanBuilder.Occupied (b : PlanBuilder) : Prop where
  stages : ∀ stage ∈ b.stages, stageTasks stage ≠ []
  openGroup : ∀ group tasks, b.openGroup = some (group, tasks) → tasks ≠ []

theorem PlanBuilder.Occupied.close {b : PlanBuilder} (h : b.Occupied) : b.close.Occupied := by
  unfold PlanBuilder.close
  split
  · rename_i group tasks hopen
    refine ⟨?_, by simp [PlanBuilder.closeGroup]⟩
    intro stage hstage
    rcases List.mem_append.mp hstage with hstage | hstage
    · exact h.stages stage hstage
    · rw [List.mem_singleton.mp hstage]
      simpa [stageTasks] using h.openGroup group tasks hopen
  · exact h

theorem PlanBuilder.Occupied.push {b : PlanBuilder} (h : b.Occupied) (plan : TaskPlan) :
    (b.push plan).Occupied := by
  unfold PlanBuilder.push
  split
  · split
    · exact ⟨h.stages, by simp⟩
    · exact ⟨h.close.stages, by simp⟩
  · exact ⟨h.stages, by simp⟩
  · refine ⟨?_, by simp [PlanBuilder.close_openGroup]⟩
    intro stage hstage
    rcases List.mem_append.mp hstage with hstage | hstage
    · exact h.close.stages stage hstage
    · rw [List.mem_singleton.mp hstage]
      simp [stageTasks]

theorem RunPlan.fromRules_occupied (rules : List Rules) :
    ∀ stage ∈ (RunPlan.fromRules rules).stages, stageTasks stage ≠ [] := by
  have hfold : ∀ (plans : List TaskPlan) (b : PlanBuilder), b.Occupied →
      (plans.foldl PlanBuilder.push b).Occupied := by
    intro plans
    induction plans with
    | nil => exact fun b hb => hb
    | cons plan plans ih => exact fun b hb => ih (b.push plan) (hb.push plan)
  exact (hfold _ {} ⟨by simp, by simp⟩).close.stages

/-- A filter that keeps every task keeps the plan, if no stage is empty. -/
theorem RunPlan.filter_eq_self {keep : Rules → Bool} {plan : RunPlan}
    (hoccupied : ∀ stage ∈ plan.stages, stageTasks stage ≠ [])
    (hkeep : ∀ task ∈ plan.tasks, keep task.rule = true) : plan.filter keep = plan := by
  obtain ⟨stages⟩ := plan
  have hstage : ∀ stage ∈ stages, Stage.filter keep stage = some stage := by
    intro stage hmem
    have hall : ∀ task ∈ stageTasks stage, keep task.rule = true := fun task htask =>
      hkeep task (List.mem_flatMap.mpr ⟨stage, hmem, htask⟩)
    cases stage with
    | serial task => simp [Stage.filter, hall task (List.mem_singleton.mpr rfl)]
    | parallel group tasks =>
      have hfilter : (tasks.filter fun task => keep task.rule) = tasks :=
        List.filter_eq_self.mpr fun task htask => by simpa using hall task htask
      have hne : tasks ≠ [] := hoccupied _ hmem
      simp [Stage.filter, hfilter, hne]
  rw [RunPlan.filter, RunPlan.mk.injEq, List.filterMap_congr hstage]
  exact List.filterMap_some

/-! ### Alike plans -/

/-- Stages of one shape whose tasks are related one by one. -/
inductive Stage.Alike (R : TaskPlan → TaskPlan → Prop) : Stage → Stage → Prop
  | serial {task task'} : R task task' → Alike R (.serial task) (.serial task')
  | parallel {group tasks tasks'} : List.Forall₂ R tasks tasks' →
      Alike R (.parallel group tasks) (.parallel group tasks')

/-- Builders that have read related tasks. -/
structure PlanBuilder.Alike (R : TaskPlan → TaskPlan → Prop) (b b' : PlanBuilder) : Prop where
  stages : List.Forall₂ (Stage.Alike R) b.stages b'.stages
  openGroup : Option.Rel (fun g g' => g.1 = g'.1 ∧ List.Forall₂ R g.2 g'.2) b.openGroup b'.openGroup
  groupCounts : b.groupCounts = b'.groupCounts

section Alike

variable {R : TaskPlan → TaskPlan → Prop}

theorem PlanBuilder.Alike.close
    (hoccurrence : ∀ task task' occurrence, R task task' →
      R { task with groupOccurrence := occurrence } { task' with groupOccurrence := occurrence })
    {b b' : PlanBuilder} (h : Alike R b b') : Alike R b.close b'.close := by
  obtain ⟨stages, openGroup, counts⟩ := b
  obtain ⟨stages', openGroup', counts'⟩ := b'
  obtain ⟨hstages, hopen, hcounts⟩ := h
  subst hcounts
  cases hopen with
  | none => exact ⟨hstages, .none, rfl⟩
  | @some g g' hgroup =>
    obtain ⟨group, tasks⟩ := g
    obtain ⟨group', tasks'⟩ := g'
    obtain ⟨rfl, htasks⟩ := hgroup
    refine ⟨List.rel_append hstages (.cons (.parallel ?_) .nil), .none, rfl⟩
    rw [List.forall₂_map_left_iff, List.forall₂_map_right_iff]
    exact htasks.imp fun task task' htask => hoccurrence task task' _ htask

theorem PlanBuilder.Alike.push
    (hoccurrence : ∀ task task' occurrence, R task task' →
      R { task with groupOccurrence := occurrence } { task' with groupOccurrence := occurrence })
    (hparallel : ∀ task task', R task task' → task.parallel = task'.parallel)
    {b b' : PlanBuilder} (h : Alike R b b') {task task' : TaskPlan} (htask : R task task') :
    Alike R (b.push task) (b'.push task') := by
  have hclose := h.close hoccurrence
  obtain ⟨stages, openGroup, counts⟩ := b
  obtain ⟨stages', openGroup', counts'⟩ := b'
  obtain ⟨hstages, hopen, hcounts⟩ := h
  subst hcounts
  unfold PlanBuilder.push
  rw [← hparallel task task' htask]
  cases task.parallel with
  | none => exact ⟨List.rel_append hclose.stages (.cons (.serial htask) .nil), hclose.openGroup,
      hclose.groupCounts⟩
  | some group =>
    cases hopen with
    | none => exact ⟨hstages, .some ⟨rfl, .cons htask .nil⟩, rfl⟩
    | @some g g' hgroup =>
      obtain ⟨openName, tasks⟩ := g
      obtain ⟨openName', tasks'⟩ := g'
      obtain ⟨rfl, htasks⟩ := hgroup
      by_cases hsame : group = openName
      · simp only [if_pos hsame]
        exact ⟨hstages, .some ⟨rfl, List.rel_append htasks (.cons htask .nil)⟩, rfl⟩
      · simp only [if_neg hsame]
        exact ⟨hclose.stages, .some ⟨rfl, .cons htask .nil⟩, hclose.groupCounts⟩

/-- Rules whose tasks are related one by one are planned alike. -/
theorem RunPlan.fromRules_alike
    (hoccurrence : ∀ task task' occurrence, R task task' →
      R { task with groupOccurrence := occurrence } { task' with groupOccurrence := occurrence })
    (hparallel : ∀ task task', R task task' → task.parallel = task'.parallel) {rules rules' : List Rules}
    (h : List.Forall₂ R (rules.zipIdx.map fun (rule, position) => TaskPlan.ofRule position rule)
      (rules'.zipIdx.map fun (rule, position) => TaskPlan.ofRule position rule)) :
    List.Forall₂ (Stage.Alike R) (RunPlan.fromRules rules).stages (RunPlan.fromRules rules').stages := by
  have hfold : ∀ (plans plans' : List TaskPlan), List.Forall₂ R plans plans' →
      ∀ b b', PlanBuilder.Alike R b b' →
        PlanBuilder.Alike R (plans.foldl PlanBuilder.push b) (plans'.foldl PlanBuilder.push b') := by
    intro plans plans' hplans
    induction hplans with
    | nil => exact fun b b' hb => hb
    | cons htask _ ih => exact fun b b' hb => ih _ _ (hb.push hoccurrence hparallel htask)
  exact ((hfold _ _ h {} {} ⟨.nil, .none, rfl⟩).close hoccurrence).stages

/-- Filters that keep related tasks together keep plans alike, and what is left was kept. -/
theorem RunPlan.filter_alike {keep keep' : Rules → Bool}
    (hkeep : ∀ task task', R task task' → keep task.rule = keep' task'.rule) {plan plan' : RunPlan}
    (h : List.Forall₂ (Stage.Alike R) plan.stages plan'.stages) :
    List.Forall₂ (Stage.Alike fun task task' => R task task' ∧ keep task.rule = true)
      (plan.filter keep).stages (plan'.filter keep').stages := by
  have htasks : ∀ tasks tasks', List.Forall₂ R tasks tasks' →
      List.Forall₂ (fun task task' => R task task' ∧ keep task.rule = true)
        (tasks.filter fun task => keep task.rule) (tasks'.filter fun task => keep' task.rule) := by
    intro tasks tasks' hrelated
    induction hrelated with
    | nil => exact .nil
    | @cons task task' _ _ htask _ ih =>
      cases hkept : keep task.rule with
      | false => simpa [hkept, ← hkeep task task' htask] using ih
      | true => simpa [hkept, ← hkeep task task' htask] using ⟨htask, ih⟩
  obtain ⟨stages⟩ := plan
  obtain ⟨stages'⟩ := plan'
  simp only [RunPlan.filter] at h ⊢
  induction h with
  | nil => exact .nil
  | @cons stage stage' _ _ hstage _ ih =>
    cases hstage with
    | @serial task task' htask =>
      cases hkept : keep task.rule with
      | false => simpa [Stage.filter, hkept, ← hkeep task task' htask] using ih
      | true =>
        simp only [List.filterMap_cons, Stage.filter, hkept, ← hkeep task task' htask, if_true]
        exact .cons (.serial ⟨htask, hkept⟩) ih
    | @parallel group tasks tasks' hrelated =>
      have hleft := htasks tasks tasks' hrelated
      simp only [List.filterMap_cons, Stage.filter]
      cases hkept : tasks.filter fun task => keep task.rule with
      | nil =>
        rw [hkept, List.forall₂_nil_left_iff] at hleft
        simpa [hleft] using ih
      | cons task rest =>
        rw [hkept] at hleft
        cases hkept' : tasks'.filter fun task => keep' task.rule with
        | nil =>
          rw [hkept'] at hleft
          cases hleft
        | cons task' rest' =>
          rw [hkept'] at hleft
          exact .cons (.parallel hleft) ih

theorem RunPlan.tasks_alike {plan plan' : RunPlan}
    (h : List.Forall₂ (Stage.Alike R) plan.stages plan'.stages) : List.Forall₂ R plan.tasks plan'.tasks := by
  obtain ⟨stages⟩ := plan
  obtain ⟨stages'⟩ := plan'
  simp only [RunPlan.tasks] at h ⊢
  induction h with
  | nil => exact .nil
  | cons hstage _ ih =>
    rw [List.flatMap_cons, List.flatMap_cons]
    refine List.rel_append ?_ ih
    cases hstage with
    | serial htask => exact .cons htask .nil
    | parallel htasks => exact htasks

end Alike

/-- What the configuration parser guarantees of a rule: a service declares no recovery. -/
def Rules.Consistent (rule : Rules) : Prop := rule.service = true → rule.recovery = none

/-- Plans that planning can hand to the executor: built from parsed rules, then filtered, and
    rewritten task by task (context resolution and template expansion) without touching positions,
    the service flag or whether there is a recovery. -/
inductive Planned : RunPlan → Prop
  | fromRules (rules : List Rules) (hrules : ∀ rule ∈ rules, rule.Consistent) :
      Planned (.fromRules rules)
  | filter {plan} (keep : Rules → Bool) : Planned plan → Planned (plan.filter keep)
  | mapTasks {plan} (f : TaskPlan → TaskPlan) (hposition : ∀ task, (f task).position = task.position)
      (hservice : ∀ task, (f task).service = task.service)
      (hrecovery : ∀ task, (f task).recoveryCommands.isSome = task.recoveryCommands.isSome) :
      Planned plan → Planned (plan.mapTasks f)

/-- Positions strictly increase in plan order in every planned plan. -/
theorem Planned.positions_increase {plan : RunPlan} (h : Planned plan) :
    (plan.tasks.map (·.position)).Pairwise (· < ·) := by
  induction h with
  | fromRules rules _ => rw [RunPlan.fromRules_positions]; exact List.pairwise_lt_range
  | filter keep _ ih => rw [RunPlan.filter_tasks]; exact ih.sublist (List.filter_sublist.map _)
  | mapTasks f hposition _ _ _ ih =>
    have hcomp : (fun task : TaskPlan => task.position) ∘ f = fun task => task.position := by
      funext task; exact hposition task
    rw [RunPlan.mapTasks_tasks, List.map_map, hcomp]; exact ih

/-- A planned service has no recovery commands. -/
theorem Planned.service_unrecoverable {plan : RunPlan} (h : Planned plan) :
    ∀ task ∈ plan.tasks, task.service = true → task.recoveryCommands = none := by
  induction h with
  | fromRules rules hrules =>
    refine RunPlan.fromRules_forall (fun task occurrence htask => htask) fun rule hrule position => ?_
    intro hservice
    simp [TaskPlan.ofRule, Rules.recoveryCommandLines, hrules rule hrule hservice]
  | filter keep _ ih =>
    intro task htask
    rw [RunPlan.filter_tasks] at htask
    exact ih task (List.mem_filter.mp htask).1
  | mapTasks f _ hservice hrecovery _ ih =>
    intro task htask hflag
    rw [RunPlan.mapTasks_tasks] at htask
    obtain ⟨original, horiginal, rfl⟩ := List.mem_map.mp htask
    rw [hservice] at hflag
    have hnone := hrecovery original
    rw [ih original horiginal hflag] at hnone
    simpa using hnone

/-! ### Outcomes -/

/-- Per-task outcome. -/
inductive TaskOutcome where
  | passed
  | failed (failures : List String)
  | cancelled
  | skipped
  deriving DecidableEq

/-- Overall run outcome: task identity with its parallel group, and the task's outcome. -/
structure RunOutcome where
  tasks : List (String × Option String × TaskOutcome) := []
  deriving DecidableEq

/-- True when every recorded task passed. -/
def RunOutcome.isSuccess (outcome : RunOutcome) : Bool :=
  outcome.tasks.all fun (_, _, task) => task = .passed

/-- All failure messages across tasks, in plan order. -/
def RunOutcome.failures (outcome : RunOutcome) : List String :=
  outcome.tasks.flatMap fun (name, _, task) =>
    match task with
    | .failed failures => failures.map fun f => name ++ ": " ++ f
    | _ => []

end Funzzy
