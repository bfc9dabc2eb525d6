import Mathlib.Data.String.Basic
import Funzzy.Lib.Runs
import Funzzy.Occurrences
import Funzzy.Watches

/-! Selecting a plan (`watch_plan_batch` and `run_target_plan` of `watches.rs`): one batch of changed
    paths, or the target of a finite run.

    Both keep a part of the planned tasks. A batch runs the plan of its least path that selects a task,
    so the order in which the operating system tells the paths does not matter. A target that is the name
    of one task is that task; only a group may select several. -/

namespace Funzzy

/-- A filtered plan has no stage exactly when no rule is kept. -/
theorem RunPlan.filter_isEmpty (keep : Rules → Bool) (plan : RunPlan) :
    (plan.filter keep).stages.isEmpty = true ↔ ∀ task ∈ plan.tasks, keep task.rule = false := by
  have htasks : (plan.filter keep).tasks = [] ↔ ∀ task ∈ plan.tasks, keep task.rule = false := by
    rw [RunPlan.filter_tasks, List.filter_eq_nil_iff]
    simp only [Bool.not_eq_true]
  rw [← htasks, List.isEmpty_iff]
  refine ⟨fun hnone => by rw [RunPlan.tasks, hnone, List.flatMap_nil], fun hnone => ?_⟩
  obtain ⟨origins, -, hrest⟩ := plan.filter_rest keep
  cases hstages : (plan.filter keep).stages with
  | nil => rfl
  | cons stage stages =>
    rw [hstages] at hrest
    obtain ⟨origin, others, hstage, -, -⟩ := List.forall₂_cons_left_iff.mp hrest
    rw [RunPlan.tasks, hstages, List.flatMap_cons, List.append_eq_nil_iff] at hnone
    exact absurd hnone.1 hstage.nonempty

namespace Watches

variable (M : Matchers) (w : Watches)

theorem forall_rule_iff {p : Rules → Prop} :
    (∀ task ∈ w.topology.tasks, p task.rule) ↔ ∀ rule ∈ w.rules, p rule := by
  rw [← w.planned]
  simp

theorem nonempty_eq_none {plan : RunPlan} : nonempty plan = none ↔ plan.stages.isEmpty = true := by
  simp [nonempty]

/-! ### Batches -/

/-- A path selects a task when `watch_plan` keeps one of the rules. -/
def Selecting (path : String) : Prop := ∃ rule ∈ w.rules, w.selects M path rule = true

theorem watchPlan_isSome (path : String) : (w.watchPlan M path).isSome ↔ w.Selecting M path := by
  rw [← not_iff_not, Bool.not_eq_true, Option.isSome_eq_false_iff, Option.isNone_iff_eq_none, watchPlan,
    nonempty_eq_none, RunPlan.filter_isEmpty,
    w.forall_rule_iff (p := fun rule => w.selects M path rule = false), Selecting]
  simp only [not_exists, not_and, Bool.not_eq_true]

theorem sorted_mergeSort (paths : List String) :
    (paths.mergeSort fun a b => a ≤ b).Pairwise (· ≤ ·) := by
  have hsorted := @List.pairwise_mergeSort String (fun a b => decide (a ≤ b))
    (fun a b c hab hbc => by
      rw [decide_eq_true_eq] at *
      exact le_trans hab hbc)
    (fun a b => by simpa using le_total a b) paths
  simpa using hsorted

/-- Routing a batch looks only at the set of its paths. It runs the plan of a path that selects a task,
    and nothing where there is none. -/
theorem watchPlanBatch_routes :
    (∀ paths paths' : List String, (∀ path, path ∈ paths ↔ path ∈ paths') →
      w.watchPlanBatch M paths = w.watchPlanBatch M paths') ∧
    (∀ paths, w.watchPlanBatch M paths = none ↔ ∀ path ∈ paths, ¬ w.Selecting M path) ∧
    ∀ paths plan trigger, w.watchPlanBatch M paths = some (plan, trigger) →
      trigger ∈ paths ∧ w.Selecting M trigger ∧ w.watchPlan M trigger = some plan := by
  refine ⟨fun paths paths' hsame => ?_, fun paths => ?_, fun paths plan trigger hrouted => ?_⟩
  · refine Runs.findSome?_congr (sorted_mergeSort paths) (sorted_mergeSort paths') fun path => ?_
    rw [List.mem_mergeSort, List.mem_mergeSort, hsame]
  · simp only [watchPlanBatch, List.findSome?_eq_none_iff, List.mem_mergeSort, Option.map_eq_none_iff,
      ← w.watchPlan_isSome M, Bool.not_eq_true, Option.isSome_eq_false_iff, Option.isNone_iff_eq_none]
  · obtain ⟨path, hpath, hplan⟩ := List.exists_of_findSome?_eq_some hrouted
    obtain ⟨plan', hplan', heq⟩ := Option.map_eq_some_iff.mp hplan
    cases heq
    refine ⟨List.mem_mergeSort.mp hpath, ?_, hplan'⟩
    rw [← w.watchPlan_isSome M, hplan']
    rfl

end Watches

/-! ### Targets -/

/-- `RunTargetError`. -/
inductive RunTargetError where
  | missing (target : String)
  | ambiguous (target : String) (matched : List String)
  deriving DecidableEq

/-- Its `Display`. -/
def RunTargetError.display : RunTargetError → String
  | .missing target => "No target found for '" ++ target ++ "'"
  | .ambiguous target matched =>
    "Target '" ++ target ++ "' is ambiguous; matches: " ++ ", ".intercalate matched

/-- `name == target`. -/
def Rules.named (target : String) (rule : Rules) : Bool := rule.name == target

/-- `target.starts_with('@')`. -/
def isTag (target : String) : Bool := target.toList.head? == some '@'

namespace Watches

variable (w : Watches)

/-- Resolves a finite local-run target: an exact name, or a tag, or the one name that contains it. -/
def runTargetPlan (target : String) : Except RunTargetError RunPlan :=
  let exactMatches := w.rules.filter (Rules.named target)
  if exactMatches.length > 1 then .error (.ambiguous target (exactMatches.map (·.name)))
  else if exactMatches.length = 1 then .ok (w.topology.filter (Rules.named target))
  else
    let matched := w.rules.filter (Rules.nameContains target)
    if matched.isEmpty then .error (.missing target)
    else if matched.length > 1 && !isTag target then
      .error (.ambiguous target (matched.map (·.name)))
    else .ok (w.topology.filter (Rules.nameContains target))

theorem nameContains_of_named {target : String} {rule : Rules} (h : rule.named target = true) :
    rule.nameContains target = true := by
  rw [Rules.named, beq_iff_eq] at h
  simp [Rules.nameContains, h]

theorem length_filter_tasks (keep : Rules → Bool) :
    (w.topology.filter keep).tasks.length = (w.rules.filter keep).length := by
  rw [← w.planned, ← RunPlan.filter_rules, List.length_map]

/-- What a target resolves to. -/
theorem runTargetPlan_ok {target : String} {plan : RunPlan} (h : w.runTargetPlan target = .ok plan) :
    ((w.rules.filter (Rules.named target)).length = 1 ∧
      plan = w.topology.filter (Rules.named target)) ∨
    (w.rules.filter (Rules.named target) = [] ∧ w.rules.filter (Rules.nameContains target) ≠ [] ∧
      (1 < (w.rules.filter (Rules.nameContains target)).length → isTag target = true) ∧
      plan = w.topology.filter (Rules.nameContains target)) := by
  unfold runTargetPlan at h
  simp only at h
  split at h
  · cases h
  · next hfew =>
    split at h
    · next hone =>
      cases h
      exact .inl ⟨hone, rfl⟩
    · next hnone =>
      split at h
      · cases h
      · next hsome =>
        split at h
        · cases h
        · next hclear =>
          cases h
          refine .inr ⟨List.eq_nil_of_length_eq_zero (by omega),
            fun heq => hsome (List.isEmpty_iff.mpr heq), fun hmany => ?_, rfl⟩
          simpa [hmany] using hclear

/-- An error says that no name contains the target, that several tasks have exactly that name, or that
    it is no tag and no task's name but part of several. -/
theorem runTargetPlan_error_iff (target : String) :
    (∃ e, w.runTargetPlan target = .error e) ↔
      (∀ rule ∈ w.rules, rule.nameContains target = false) ∨
      1 < (w.rules.filter (Rules.named target)).length ∨
      (w.rules.filter (Rules.named target) = [] ∧ isTag target = false ∧
        1 < (w.rules.filter (Rules.nameContains target)).length) := by
  have hcontained : w.rules.filter (Rules.nameContains target) = [] ↔
      ∀ rule ∈ w.rules, rule.nameContains target = false := by
    simp [List.filter_eq_nil_iff]
  rw [← hcontained]
  have hexact : w.rules.filter (Rules.nameContains target) = [] →
      w.rules.filter (Rules.named target) = [] := by
    simp only [List.filter_eq_nil_iff]
    exact fun h rule hrule hnamed => h rule hrule (nameContains_of_named hnamed)
  unfold runTargetPlan
  simp only
  split
  · next hmany => exact iff_of_true ⟨_, rfl⟩ (.inr (.inl hmany))
  · next hfew =>
    split
    · next hone =>
      refine iff_of_false (by rintro ⟨e, ⟨⟩⟩) ?_
      rintro (hempty | hmany | ⟨hnone, -⟩)
      · rw [hexact hempty] at hone
        cases hone
      · exact hfew hmany
      · rw [hnone] at hone
        cases hone
    · next hnotOne =>
      have hnone : w.rules.filter (Rules.named target) = [] :=
        List.eq_nil_of_length_eq_zero (by omega)
      split
      · next hempty => exact iff_of_true ⟨_, rfl⟩ (.inl (List.isEmpty_iff.mp hempty))
      · next hsome =>
        rw [List.isEmpty_iff] at hsome
        split
        · next hambiguous =>
          rw [Bool.and_eq_true, decide_eq_true_eq, Bool.not_eq_true'] at hambiguous
          exact iff_of_true ⟨_, rfl⟩ (.inr (.inr ⟨hnone, hambiguous.2, hambiguous.1⟩))
        · next hclear =>
          refine iff_of_false (by rintro ⟨e, ⟨⟩⟩) ?_
          rintro (hempty | hmany | ⟨-, htag, hmany⟩)
          · exact hsome hempty
          · exact hfew hmany
          · simp [htag, hmany] at hclear

theorem filter_tasks_rules (keep : Rules → Bool) :
    (w.topology.filter keep).tasks.map (·.rule) = w.rules.filter keep := by
  rw [RunPlan.filter_rules, w.planned]

/-- A target that resolves selects a task; the name of exactly one task selects that task; several tasks
    are selected by a tag only, and are then those whose names contain it. -/
theorem runTargetPlan_resolves (target : String) :
    (∀ plan, w.runTargetPlan target = .ok plan → plan.tasks ≠ []) ∧
    (∀ rule, w.rules.filter (Rules.named target) = [rule] →
      ∃ plan, w.runTargetPlan target = .ok plan ∧ plan.tasks.map (·.rule) = [rule] ∧
        plan.tasks = w.topology.tasks.filter fun task => task.rule.named target) ∧
    (∀ plan, w.runTargetPlan target = .ok plan → 1 < plan.tasks.length →
      isTag target = true ∧
        plan.tasks = w.topology.tasks.filter fun task => task.rule.nameContains target) ∧
    ((∃ e, w.runTargetPlan target = .error e) ↔
      (∀ rule ∈ w.rules, rule.nameContains target = false) ∨
      1 < (w.rules.filter (Rules.named target)).length ∨
      (w.rules.filter (Rules.named target) = [] ∧ isTag target = false ∧
        1 < (w.rules.filter (Rules.nameContains target)).length)) := by
  have hsome : ∀ keep, w.rules.filter keep ≠ [] → (w.topology.filter keep).tasks ≠ [] := by
    intro keep hrules htasks
    rw [← w.filter_tasks_rules, htasks] at hrules
    exact hrules rfl
  refine ⟨fun plan hok => ?_, fun rule hrule => ?_, fun plan hok hmany => ?_,
    w.runTargetPlan_error_iff target⟩
  · rcases w.runTargetPlan_ok hok with ⟨hone, rfl⟩ | ⟨-, hne, -, rfl⟩
    · exact hsome _ (List.ne_nil_of_length_pos (by omega))
    · exact hsome _ hne
  · have hlength : (w.rules.filter (Rules.named target)).length = 1 := by rw [hrule]; rfl
    refine ⟨w.topology.filter (Rules.named target), ?_, ?_, RunPlan.filter_tasks _ _⟩
    · simp [runTargetPlan, hlength]
    · rw [filter_tasks_rules, hrule]
  · rcases w.runTargetPlan_ok hok with ⟨hone, rfl⟩ | ⟨-, -, htag, rfl⟩
    · rw [length_filter_tasks] at hmany
      omega
    · rw [length_filter_tasks] at hmany
      exact ⟨htag hmany, RunPlan.filter_tasks _ _⟩

/-- Two tasks both called `@quick`: the tag selects neither, though a tag may select several. -/
theorem tag_named_twice :
    ∃ w : Watches, w.rules.map (·.name) = ["@quick", "@quick"] ∧
      (∃ e, w.runTargetPlan "@quick" = .error e) ∧
      ¬ ((∀ rule ∈ w.rules, rule.nameContains "@quick" = false) ∨
        (isTag "@quick" = false ∧ 1 < (w.rules.filter (Rules.nameContains "@quick")).length)) := by
  refine ⟨.withRootAndConcurrency [{ name := "@quick" }, { name := "@quick" }] "/w" 1 (by decide)
    (by decide), rfl, ⟨.ambiguous "@quick" ["@quick", "@quick"], by decide +kernel⟩, by decide +kernel⟩

end Watches

end Funzzy
