import Funzzy.Worker.Scheduler
import Funzzy.Lib.Path

/-! Routing (`watches.rs`, and the matchers of `rules.rs`): which rules a changed path selects, and what
    `explain` says about it.

    A `Watches` holds the rules of one configuration and the plan they make; a changed path, a target
    name or the start of the session selects a part of the plan. The globs and the gitignore rules are
    matched by other crates, so they are parameters here. -/

namespace Funzzy

open UnixPath (isAbsolute join stripPrefix)

/-! ### Patterns -/

/-- The matchers of the `glob` and `ignore` crates: a pattern text against a path text, and whether the
    workspace's gitignore files exclude a root-relative path. -/
structure Matchers where
  glob : List Char → List Char → Bool
  gitignored : List Char → Bool

/-- `trim_start_matches("./")`. -/
def trimDotSlash : List Char → List Char
  | '.' :: '/' :: rest => trimDotSlash rest
  | text => text

/-- `trim_start_matches('/')`. -/
def trimSlash (text : List Char) : List Char := text.dropWhile (· = '/')

section Matching

variable (M : Matchers)

/-- The relative patterns that match, each anchored at the workspace root. -/
def relativePatterns (patterns : List String) (path : List Char) : List String :=
  let normalized := if isAbsolute path then path else '/' :: path
  (patterns.filter fun p => !isAbsolute p.toList).filter fun p =>
    M.glob ('/' :: trimDotSlash p.toList) normalized

/-- The absolute patterns that match. -/
def absolutePatterns (patterns : List String) (path : List Char) : List String :=
  (patterns.filter fun p => isAbsolute p.toList).filter fun p => M.glob p.toList path

def Rules.watchRelativePatterns (rule : Rules) (path : List Char) : List String :=
  relativePatterns M rule.watchPatterns path

def Rules.watchAbsolutePatterns (rule : Rules) (path : List Char) : List String :=
  absolutePatterns M rule.watchPatterns path

def Rules.ignoreRelativePatterns (rule : Rules) (path : List Char) : List String :=
  relativePatterns M rule.ignorePatterns path

def Rules.ignoreAbsolutePatterns (rule : Rules) (path : List Char) : List String :=
  absolutePatterns M rule.ignorePatterns path

def Rules.watchRelative (rule : Rules) (path : List Char) : Bool :=
  !(rule.watchRelativePatterns M path).isEmpty

def Rules.watchAbsolute (rule : Rules) (path : List Char) : Bool :=
  !(rule.watchAbsolutePatterns M path).isEmpty

def Rules.ignoreRelative (rule : Rules) (path : List Char) : Bool :=
  !(rule.ignoreRelativePatterns M path).isEmpty

def Rules.ignoreAbsolute (rule : Rules) (path : List Char) : Bool :=
  !(rule.ignoreAbsolutePatterns M path).isEmpty

end Matching

/-! ### Watches -/

/-- Filesystem backend policy; the poll interval is in milliseconds. -/
inductive WatchBackend where
  | native
  | poll (interval : Nat)
  | auto
  deriving DecidableEq

/-- Watcher-session lifecycle hook. -/
structure SessionHooks where
  close : Option String := none
  deriving DecidableEq

/-- One effective watch configuration. The topology plans exactly the rules; the workspace root is the
    process's current directory, hence absolute. -/
structure Watches where
  rules : List Rules
  topology : RunPlan
  root : String
  concurrency : Nat
  debounce : Nat := 1000
  backend : WatchBackend := .auto
  respectGitignore : Bool := false
  recoveryPolicy : RecoveryPolicy := .prompt
  hooks : GenerationHooks := {}
  sessionHooks : SessionHooks := {}
  revision : Option ConfigRevision := none
  rooted : isAbsolute root.toList = true
  positive : 0 < concurrency
  planned : topology.tasks.map (·.rule) = rules
  named : ∀ task ∈ topology.tasks, task.name = task.rule.name
  deriving DecidableEq

theorem RunPlan.fromRules_named (rules : List Rules) :
    ∀ task ∈ (RunPlan.fromRules rules).tasks, task.name = task.rule.name :=
  RunPlan.fromRules_forall (fun _ _ h => h) fun _ _ _ => rfl

/-- `with_root_and_concurrency`. -/
def Watches.withRootAndConcurrency (rules : List Rules) (root : String) (concurrency : Nat)
    (rooted : isAbsolute root.toList = true) (positive : 0 < concurrency) : Watches where
  rules
  topology := .fromRules rules
  root
  concurrency
  rooted
  positive
  planned := RunPlan.fromRules_rules rules
  named := RunPlan.fromRules_named rules

/-- Workspace roots. -/
theorem isAbsolute_w : isAbsolute "/w".toList = true := by decide

theorem isAbsolute_ws : isAbsolute "/ws".toList = true := by decide

/-- `name.contains(target)`. -/
def Rules.nameContains (target : String) (rule : Rules) : Bool := target.toList <:+: rule.name.toList

theorem RunPlan.filter_rules (keep : Rules → Bool) (plan : RunPlan) :
    (plan.filter keep).tasks.map (·.rule) = (plan.tasks.map (·.rule)).filter keep := by
  rw [RunPlan.filter_tasks, List.filter_map]
  rfl

/-- Narrows visible rules while retaining barriers from original topology. -/
def Watches.selectTarget (w : Watches) (target : String) : Option Watches :=
  if (w.rules.filter (Rules.nameContains target)).isEmpty then none
  else some
    { w with
      rules := w.rules.filter (Rules.nameContains target)
      topology := w.topology.filter (Rules.nameContains target)
      planned := by rw [RunPlan.filter_rules, w.planned]
      named := by
        intro task htask
        rw [RunPlan.filter_tasks] at htask
        exact w.named task (List.mem_filter.mp htask).1 }

namespace Watches

variable (M : Matchers) (w : Watches)

/-- The absolute path of a changed path, and its root-relative form when it is below the root. -/
def normalizePaths (path : String) : List Char × Option (List Char) :=
  let absolutePath := if isAbsolute path.toList then path.toList else join w.root.toList path.toList
  (absolutePath, (stripPrefix absolutePath w.root.toList).map ('/' :: ·))

/-- Whether a root-relative path is excluded by workspace gitignore rules; there is a matcher only when
    they are respected. -/
def gitignored (relative : List Char) : Bool := w.respectGitignore && M.gitignored relative

/-- Returns rules whose names contain the requested target. -/
def target (target : String) : Option (List Rules) :=
  if (w.rules.filter (Rules.nameContains target)).isEmpty then none
  else some (w.rules.filter (Rules.nameContains target))

/-- A plan, unless nothing of it is left. -/
def nonempty (plan : RunPlan) : Option RunPlan := if plan.stages.isEmpty then none else some plan

/-- Selects a target without collapsing barriers around unmatched rules. -/
def targetPlan (target : String) : Option RunPlan :=
  nonempty (w.topology.filter (Rules.nameContains target))

/-- Selects init tasks while retaining original stage occurrences. -/
def runOnInitPlan : Option RunPlan := nonempty (w.topology.filter Rules.runOnInit)

/-- The test `watch_plan` makes of a rule: no ignore pattern matches, the path is not gitignored, and a
    change pattern matches. -/
def selects (path : String) (rule : Rules) : Bool :=
  let (absolutePath, relativePath) := w.normalizePaths path
  if rule.ignoreAbsolute M absolutePath || (relativePath.map (rule.ignoreRelative M)).getD false then
    false
  else if w.respectGitignore &&
      (relativePath.map fun relative => w.gitignored M (trimSlash relative)).getD false then
    false
  else rule.watchAbsolute M absolutePath || (relativePath.map (rule.watchRelative M)).getD false

/-- Selects matching tasks while retaining original stage occurrences. -/
def watchPlan (path : String) : Option RunPlan := nonempty (w.topology.filter (w.selects M path))

/-- Routes one event batch: the plan of the first path, in sorted order, that selects anything. -/
def watchPlanBatch (paths : List String) : Option (RunPlan × String) :=
  (paths.mergeSort fun a b => a ≤ b).findSome? fun path =>
    (w.watchPlan M path).map fun plan => (plan, path)

/-- The rules selected for a path; this one never asks for gitignore rules. -/
def watch (path : String) : Option (List Rules) :=
  let (absolutePath, relativePath) := w.normalizePaths path
  let selected := w.rules.filter fun rule =>
    if rule.ignoreAbsolute M absolutePath || (relativePath.map (rule.ignoreRelative M)).getD false then
      false
    else rule.watchAbsolute M absolutePath || (relativePath.map (rule.watchRelative M)).getD false
  if selected.isEmpty then none else some selected

end Watches

/-! ### Explaining -/

/-- Where the effective rule came from: its task, or the group whose `on` section it inherits. -/
inductive RuleOrigin where | task | group
  deriving DecidableEq

/-- Why a configured rule was selected or skipped for an explained path. -/
structure ExplainRule where
  name : String
  changePatterns : List String
  ignorePatterns : List String
  cwd : String
  environmentKeys : List String
  recoveryAvailable : Bool
  origin : RuleOrigin
  deriving DecidableEq

/-- One filtered execution stage for `explain` output. -/
inductive PlanStagePreview where
  | serial (task : String)
  | parallel (group : String) (tasks : List String)
  deriving DecidableEq

def PlanStagePreview.tasks : PlanStagePreview → List String
  | .serial task => [task]
  | .parallel _ tasks => tasks

structure ExplainResult where
  matched : List ExplainRule
  ignored : List ExplainRule
  planStages : List PlanStagePreview
  deriving DecidableEq

/-- What `explain` makes of one rule whose change patterns match. -/
inductive Verdict where
  | matched (rule : ExplainRule)
  | ignored (rule : ExplainRule)
  deriving DecidableEq

def Verdict.matched? : Verdict → Option ExplainRule
  | .matched rule => some rule
  | .ignored _ => none

def Verdict.ignored? : Verdict → Option ExplainRule
  | .matched _ => none
  | .ignored rule => some rule

/-- The origin of the responsible pattern: the first change pattern, or the first ignore pattern when
    the ignore won. -/
def originFor (rule : Rules) (change ignore : Option String) : RuleOrigin :=
  match change.or ignore with
  | some pattern => if rule.inherited.contains pattern then .group else .task
  | none => .task

def Stage.preview : Stage → PlanStagePreview
  | .serial task => .serial task.name
  | .parallel group tasks =>
    .parallel ((tasks.head?.bind (·.groupOccurrence)).getD group) (tasks.map (·.name))

namespace Watches

variable (M : Matchers) (w : Watches)

/-- The change patterns of a rule that match a path. -/
def changePatterns (path : String) (rule : Rules) : List String :=
  let (absolutePath, relativePath) := w.normalizePaths path
  rule.watchAbsolutePatterns M absolutePath
    ++ (relativePath.map (rule.watchRelativePatterns M)).getD []

/-- The ignore patterns of a rule that match a path. -/
def ignorePatterns (path : String) (rule : Rules) : List String :=
  let (absolutePath, relativePath) := w.normalizePaths path
  rule.ignoreAbsolutePatterns M absolutePath
    ++ (relativePath.map (rule.ignoreRelativePatterns M)).getD []

/-- One iteration of the loop of `explain`. -/
def explainRule (path : String) (rule : Rules) : Option Verdict :=
  let relativePath := (w.normalizePaths path).2
  let change := w.changePatterns M path rule
  if change.isEmpty then none
  else
    let ignore := w.ignorePatterns M path rule
    let cwd := String.ofList ((rule.cwd.map fun cwd => join w.root.toList cwd.toList).getD w.root.toList)
    let environmentKeys := rule.environment.map (·.1)
    -- gitignore rules are asked only where no explicit ignore pattern has won already
    let excluded := ignore.isEmpty && w.respectGitignore &&
      (relativePath.map fun relative => w.gitignored M (trimSlash relative)).getD false
    if ignore.isEmpty && !excluded then
      some (.matched
        { name := rule.name
          changePatterns := change
          ignorePatterns := []
          cwd
          environmentKeys
          recoveryAvailable := rule.recovery.isSome
          origin := originFor rule change.head? none })
    else
      let effective := if excluded then ignore ++ [".gitignore"] else ignore
      some (.ignored
        { name := rule.name
          changePatterns := change
          ignorePatterns := effective
          cwd
          environmentKeys
          recoveryAvailable := rule.recovery.isSome
          origin := originFor rule none effective.head? })

/-- Explains which configured rules match, ignore, or miss `path`. -/
def explain (path : String) : ExplainResult where
  matched := w.rules.filterMap fun rule => (w.explainRule M path rule).bind Verdict.matched?
  ignored := w.rules.filterMap fun rule => (w.explainRule M path rule).bind Verdict.ignored?
  planStages := ((w.watchPlan M path).map fun plan => plan.stages.map Stage.preview).getD []

/-! ### What `explain` says is what routing does -/

/-- An entry of `explain` reports the rule at a position of the configuration. -/
def Reports (path : String) (entry : ExplainRule) (position : Nat) : Prop :=
  ∃ rule, w.rules[position]? = some rule ∧ entry.name = rule.name ∧
    entry.changePatterns = w.changePatterns M path rule

theorem isEmpty_append_getD {α β : Type} (xs : List β) (o : Option α) (f : α → List β) :
    (xs ++ (o.map f).getD []).isEmpty = (xs.isEmpty && (o.map fun a => (f a).isEmpty).getD true) := by
  cases o <;> cases xs <;> simp

/-- No ignore pattern is reported exactly where `watch_plan` finds none. -/
theorem ignorePatterns_isEmpty (path : String) (rule : Rules) :
    (w.ignorePatterns M path rule).isEmpty
      = !(rule.ignoreAbsolute M (w.normalizePaths path).1
        || ((w.normalizePaths path).2.map (rule.ignoreRelative M)).getD false) := by
  rw [ignorePatterns, isEmpty_append_getD]
  cases h : (w.normalizePaths path).2 <;> simp [Rules.ignoreAbsolute, Rules.ignoreRelative]

/-- A change pattern is reported exactly where `watch_plan` finds one. -/
theorem changePatterns_isEmpty (path : String) (rule : Rules) :
    (w.changePatterns M path rule).isEmpty
      = !(rule.watchAbsolute M (w.normalizePaths path).1
        || ((w.normalizePaths path).2.map (rule.watchRelative M)).getD false) := by
  rw [changePatterns, isEmpty_append_getD]
  cases h : (w.normalizePaths path).2 <;> simp [Rules.watchAbsolute, Rules.watchRelative]

/-- Whether the workspace's gitignore rules exclude a path, for `watch_plan` as for `explain`. -/
def excluded (path : String) : Bool :=
  w.respectGitignore &&
    ((w.normalizePaths path).2.map fun relative => w.gitignored M (trimSlash relative)).getD false

theorem selects_eq (path : String) (rule : Rules) :
    w.selects M path rule
      = ((w.ignorePatterns M path rule).isEmpty && !w.excluded M path
        && !(w.changePatterns M path rule).isEmpty) := by
  rw [ignorePatterns_isEmpty, changePatterns_isEmpty, Bool.not_not, selects, excluded]
  simp only
  split
  · rename_i hignored
    simp [hignored]
  · rename_i hkept
    split
    · rename_i hexcluded
      simp [hexcluded]
    · rename_i hincluded
      rw [Bool.not_eq_true] at hkept hincluded
      simp [hkept, hincluded]

/-- The verdict on a rule: none without a change pattern, matched where `watch_plan` selects it, ignored
    otherwise. -/
theorem explainRule_cases (path : String) (rule : Rules) :
    (w.explainRule M path rule = none ∧ w.changePatterns M path rule = [] ∧
      w.selects M path rule = false) ∨
    ∃ entry, entry.name = rule.name ∧ entry.changePatterns = w.changePatterns M path rule ∧
      w.changePatterns M path rule ≠ [] ∧
      ((w.explainRule M path rule = some (.matched entry) ∧ w.selects M path rule = true) ∨
        (w.explainRule M path rule = some (.ignored entry) ∧ w.selects M path rule = false)) := by
  rw [selects_eq, excluded]
  unfold explainRule
  simp only
  split
  · rename_i hnone
    exact .inl ⟨rfl, by simpa using hnone, by simp [hnone]⟩
  · rename_i hsome
    rw [Bool.not_eq_true] at hsome
    have hchange : w.changePatterns M path rule ≠ [] := by simpa using hsome
    right
    split
    · rename_i hmatched
      refine ⟨_, ?_, ?_, hchange, .inl ⟨rfl, ?_⟩⟩
      · rfl
      · rfl
      · obtain ⟨hignore, hincluded⟩ := Bool.and_eq_true_iff.mp hmatched
        rw [hignore, Bool.true_and] at hincluded
        rw [hignore, hincluded, hsome]
        rfl
    · rename_i hignored
      refine ⟨_, ?_, ?_, hchange, .inr ⟨rfl, ?_⟩⟩
      · rfl
      · rfl
      · rw [hsome]
        cases hignore : (w.ignorePatterns M path rule).isEmpty with
        | false => rfl
        | true =>
          rw [hignore, Bool.true_and, Bool.true_and, Bool.not_eq_true] at hignored
          rw [hignored]
          rfl

/-- The tasks a path selects are those of the selected rules. -/
theorem watchPlan_rules (path : String) :
    (((w.watchPlan M path).map (·.tasks)).getD []).map (·.rule) = w.rules.filter (w.selects M path) := by
  rw [← w.planned, ← RunPlan.filter_rules, watchPlan, nonempty]
  split
  · rename_i hempty
    rw [List.isEmpty_iff] at hempty
    simp [RunPlan.tasks, hempty]
  · rfl

theorem watchPlan_names (path : String) :
    ((w.watchPlan M path).map fun plan => plan.tasks.map (·.name)).getD []
      = (w.rules.filter (w.selects M path)).map (·.name) := by
  rw [← watchPlan_rules, List.map_map]
  have hnamed : ∀ task ∈ ((w.watchPlan M path).map (·.tasks)).getD [], task.name = task.rule.name := by
    intro task htask
    refine w.named task ?_
    unfold watchPlan nonempty at htask
    split at htask
    · cases htask
    · rw [Option.map_some, Option.getD_some, RunPlan.filter_tasks] at htask
      exact (List.mem_filter.mp htask).1
  have hmap := List.map_congr_left hnamed
  cases hplan : w.watchPlan M path with
  | none => rfl
  | some plan =>
    rw [hplan] at hmap
    exact hmap

theorem preview_tasks (stage : Stage) : stage.preview.tasks = (stageTasks stage).map (·.name) := by
  cases stage <;> rfl

/-- The plan `explain` shows has the names of the plan that would run. -/
theorem explain_planStages (path : String) :
    (w.explain M path).planStages.flatMap PlanStagePreview.tasks
      = ((w.watchPlan M path).map fun plan => plan.tasks.map (·.name)).getD [] := by
  rw [explain]
  cases w.watchPlan M path with
  | none => rfl
  | some plan => simp [RunPlan.tasks, List.flatMap_map, List.map_flatMap, preview_tasks]

/-- The entries a loop makes stand at the positions of the elements it makes them of. -/
theorem forall₂_findIdxs {α β : Type} (f : α → Option β) (xs : List α) :
    List.Forall₂ (fun b i => ∃ a, xs[i]? = some a ∧ f a = some b) (xs.filterMap f)
      (xs.findIdxs fun a => (f a).isSome) := by
  induction xs with
  | nil => exact .nil
  | cons x xs ih =>
    have hrest : List.Forall₂ (fun b i => ∃ a, (x :: xs)[i]? = some a ∧ f a = some b)
        (xs.filterMap f) (xs.findIdxs (fun a => (f a).isSome) 1) := by
      rw [List.findIdxs_start, List.forall₂_map_right_iff]
      exact ih
    cases hx : f x with
    | none => simpa [hx] using hrest
    | some b => simpa [hx] using hrest

theorem filterMap_findIdxs {α : Type} (p : α → Bool) (xs : List α) :
    (xs.findIdxs p).filterMap (fun i => xs[i]?) = xs.filter p := by
  induction xs with
  | nil => rfl
  | cons x xs ih =>
    have hrest : (xs.findIdxs p 1).filterMap (fun i => (x :: xs)[i]?) = xs.filter p := by
      rw [List.findIdxs_start, List.filterMap_map]
      exact ih
    cases hx : p x with
    | false => simpa [hx] using hrest
    | true => simpa [hx] using hrest

/-- With gitignore rules disabled, `watch` selects the same rules. -/
theorem watch_eq (hgitignore : w.respectGitignore = false) (path : String) :
    (w.watch M path).getD [] = w.rules.filter (w.selects M path) := by
  have hsame : ∀ rule, w.selects M path rule =
      if rule.ignoreAbsolute M (w.normalizePaths path).1
        || ((w.normalizePaths path).2.map (rule.ignoreRelative M)).getD false then false
      else rule.watchAbsolute M (w.normalizePaths path).1
        || ((w.normalizePaths path).2.map (rule.watchRelative M)).getD false := by
    intro rule
    simp [selects, hgitignore]
  rw [watch, funext hsame]
  simp only
  split
  · rename_i hempty
    rw [List.isEmpty_iff] at hempty
    rw [hempty]
    rfl
  · rfl

theorem matched_isSome (path : String) (rule : Rules) :
    ((w.explainRule M path rule).bind Verdict.matched?).isSome = w.selects M path rule := by
  rcases w.explainRule_cases M path rule with ⟨hverdict, -, hselects⟩ | ⟨entry, -, -, -, h⟩
  · rw [hverdict, hselects]
    rfl
  · rcases h with ⟨hverdict, hselects⟩ | ⟨hverdict, hselects⟩
    · rw [hverdict, hselects]
      rfl
    · rw [hverdict, hselects]
      rfl

theorem ignored_isSome (path : String) (rule : Rules) :
    ((w.explainRule M path rule).bind Verdict.ignored?).isSome
      = (!(w.changePatterns M path rule).isEmpty && !w.selects M path rule) := by
  rcases w.explainRule_cases M path rule with ⟨hverdict, hchange, -⟩ | ⟨entry, -, -, hchange, h⟩
  · rw [hverdict, hchange]
    rfl
  · rcases h with ⟨hverdict, hselects⟩ | ⟨hverdict, hselects⟩
    · simp [hverdict, hselects, Verdict.ignored?]
    · simp [hverdict, hselects, Verdict.ignored?, hchange]

/-- A verdict's entry reports its rule. -/
theorem reports_of_verdict {path : String} {rule : Rules} {verdict : Verdict} {entry : ExplainRule}
    {position : Nat} (hrule : w.rules[position]? = some rule)
    (hverdict : w.explainRule M path rule = some verdict)
    (hentry : verdict.matched? = some entry ∨ verdict.ignored? = some entry) :
    w.Reports M path entry position := by
  refine ⟨rule, hrule, ?_⟩
  rcases w.explainRule_cases M path rule with ⟨hnone, -⟩ | ⟨other, hname, hchange, -, h⟩
  · rw [hnone] at hverdict
    cases hverdict
  · rcases h with ⟨hsome, -⟩ | ⟨hsome, -⟩ <;>
      rw [hsome] at hverdict <;>
      cases hverdict <;>
      rcases hentry with hentry | hentry <;>
      cases hentry <;>
      exact ⟨hname, hchange⟩

theorem matched_names (path : String) :
    (w.explain M path).matched.map (·.name) = (w.rules.filter (w.selects M path)).map (·.name) := by
  rw [explain]
  simp only
  induction w.rules with
  | nil => rfl
  | cons rule rules ih =>
    rcases w.explainRule_cases M path rule with ⟨hverdict, -, hselects⟩ | ⟨entry, hname, -, -, h⟩
    · simpa [hverdict, hselects] using ih
    · rcases h with ⟨hverdict, hselects⟩ | ⟨hverdict, hselects⟩
      · simpa [hverdict, hselects, Verdict.matched?, hname] using ih
      · simpa [hverdict, hselects, Verdict.matched?] using ih

/-- The names `explain` reports as matched are those of the plan that routing makes and of the stages
    it shows. Each rule with a matching change pattern is reported as matched or as ignored, never as
    both, and without gitignore rules `watch` selects the matched ones. -/
theorem explain_agrees (path : String) :
    (w.explain M path).matched.map (·.name)
      = ((w.watchPlan M path).map fun plan => plan.tasks.map (·.name)).getD [] ∧
    (w.explain M path).matched.map (·.name)
      = (w.explain M path).planStages.flatMap PlanStagePreview.tasks ∧
    ∃ matchedAt ignoredAt : List Nat,
      matchedAt.Pairwise (· < ·) ∧ ignoredAt.Pairwise (· < ·) ∧
      List.Forall₂ (w.Reports M path) (w.explain M path).matched matchedAt ∧
      List.Forall₂ (w.Reports M path) (w.explain M path).ignored ignoredAt ∧
      matchedAt.Disjoint ignoredAt ∧
      (∀ i rule, w.rules[i]? = some rule →
        (w.changePatterns M path rule ≠ [] ↔ i ∈ matchedAt ∨ i ∈ ignoredAt)) ∧
      (w.respectGitignore = false →
        (w.watch M path).getD [] = matchedAt.filterMap fun i => w.rules[i]?) := by
  refine ⟨?_, ?_, w.rules.findIdxs (w.selects M path),
    w.rules.findIdxs (fun rule => !(w.changePatterns M path rule).isEmpty && !w.selects M path rule),
    List.pairwise_findIdxs, List.pairwise_findIdxs, ?_, ?_, ?_, ?_, ?_⟩
  · rw [matched_names, watchPlan_names]
  · rw [explain_planStages, matched_names, watchPlan_names]
  · have hpositions := forall₂_findIdxs
      (fun rule => (w.explainRule M path rule).bind Verdict.matched?) w.rules
    rw [funext (w.matched_isSome M path)] at hpositions
    refine hpositions.imp ?_
    rintro entry i ⟨rule, hrule, hentry⟩
    obtain ⟨verdict, hverdict, hmatched⟩ := Option.bind_eq_some_iff.mp hentry
    exact w.reports_of_verdict M hrule hverdict (.inl hmatched)
  · have hpositions := forall₂_findIdxs
      (fun rule => (w.explainRule M path rule).bind Verdict.ignored?) w.rules
    rw [funext (w.ignored_isSome M path)] at hpositions
    refine hpositions.imp ?_
    rintro entry i ⟨rule, hrule, hentry⟩
    obtain ⟨verdict, hverdict, hignored⟩ := Option.bind_eq_some_iff.mp hentry
    exact w.reports_of_verdict M hrule hverdict (.inr hignored)
  · intro i hmatched hignored
    rw [List.mem_findIdxs_iff_exists_getElem_pos] at hmatched hignored
    obtain ⟨hi, hselects⟩ := hmatched
    obtain ⟨_, hnot⟩ := hignored
    simp [hselects] at hnot
  · intro i rule hrule
    obtain ⟨hi, rfl⟩ := List.getElem?_eq_some_iff.mp hrule
    rw [List.mem_findIdxs_iff_pos_getElem hi, List.mem_findIdxs_iff_pos_getElem hi]
    rcases w.explainRule_cases M path w.rules[i] with ⟨-, hchange, hselects⟩ | ⟨-, -, -, hchange, -⟩
    · simp [hchange, hselects]
    · simp [hchange]
  · intro hgitignore
    rw [w.watch_eq M hgitignore path, filterMap_findIdxs]

end Watches

end Funzzy
