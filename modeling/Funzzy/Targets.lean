import Funzzy.Estimates
import Funzzy.Selection
import Funzzy.Worker.Requests

/-! Targets over the control socket (`run_requested_target` of `control.rs`, `run_target` of
    `watch_loop.rs`) beside targets of a finite run (`run_target_plan` of `watches.rs`).

    A finite run takes the task that has the name, a tag, or the one name that contains the target. The
    control socket takes every task whose name contains the target, and so does the listing of the
    targets when it looks for an estimate. The two select the same plan wherever the finite run selects
    one, unless the target is a task's name and part of another's. -/

namespace Funzzy

variable {W : Type}

/-- `run_requested_target`, for a target that is a text: a blank one is refused before the watch loop hears
    of it. -/
def State.runRequestedTarget (ctx : WorkerContext) (cells : WorkerCells) (M : Matchers) (w : Watches)
    (s : State W) (target : String) (sequential : Bool) : State W × Except String RequestOutcome :=
  if (trim target.toList).isEmpty then (s, .error "run requires a non-empty params.target")
  else
    let (s', outcome) := s.serve ctx cells M w (.target target sequential)
    (s', .ok outcome)

/-! ### The tasks of a filter -/

/-- Filters that agree on the tasks of a plan leave the same plan. -/
theorem RunPlan.filter_congr {keep keep' : Rules → Bool} {plan : RunPlan}
    (h : ∀ task ∈ plan.tasks, keep task.rule = keep' task.rule) : plan.filter keep = plan.filter keep' := by
  obtain ⟨stages⟩ := plan
  rw [RunPlan.filter, RunPlan.filter, RunPlan.mk.injEq]
  refine List.filterMap_congr fun stage hstage => ?_
  have htasks : ∀ task ∈ stageTasks stage, keep task.rule = keep' task.rule := fun task hmem =>
    h task (List.mem_flatMap.mpr ⟨stage, hstage, hmem⟩)
  cases stage with
  | serial task => rw [Stage.filter, Stage.filter, htasks task (List.mem_singleton.mpr rfl)]
  | parallel group tasks =>
    have hsame : (tasks.filter fun task => keep task.rule) = tasks.filter fun task => keep' task.rule :=
      List.filter_congr htasks
    rw [Stage.filter, Stage.filter, hsame]

namespace Watches

variable {w : Watches} {target : String}

/-- The target is the name of a task and part of another one's. -/
def Overshadows (w : Watches) (target : String) : Prop :=
  (∃ rule ∈ w.rules, rule.name = target) ∧ ∃ rule ∈ w.rules, rule.name ≠ target ∧ rule.nameContains target = true

theorem targetPlan_eq_none_iff :
    w.targetPlan target = none ↔ ∀ rule ∈ w.rules, rule.nameContains target = false := by
  rw [targetPlan, nonempty_eq_none, RunPlan.filter_isEmpty,
    w.forall_rule_iff (p := fun rule => rule.nameContains target = false)]

theorem targetPlan_eq_some {rule : Rules} (hmem : rule ∈ w.rules) (h : rule.nameContains target = true) :
    w.targetPlan target = some (w.topology.filter (Rules.nameContains target)) := by
  cases hplan : w.targetPlan target with
  | none =>
    rw [targetPlan_eq_none_iff.mp hplan rule hmem] at h
    cases h
  | some plan =>
    rw [targetPlan, nonempty] at hplan
    split at hplan
    · cases hplan
    · exact hplan.symm

/-- The one task that has the name is all that the filter leaves, unless the target is part of another
    name. -/
theorem filter_named_iff (hone : (w.rules.filter (Rules.named target)).length = 1) :
    w.topology.filter (Rules.nameContains target) = w.topology.filter (Rules.named target)
      ↔ ¬ w.Overshadows target := by
  constructor
  · rintro hsame ⟨-, rule, hmem, hname, hcontains⟩
    have hrules := w.filter_tasks_rules (Rules.nameContains target)
    rw [hsame, w.filter_tasks_rules] at hrules
    have hkept : rule ∈ w.rules.filter (Rules.nameContains target) :=
      List.mem_filter.mpr ⟨hmem, hcontains⟩
    rw [← hrules, List.mem_filter, Rules.named, beq_iff_eq] at hkept
    exact hname hkept.2
  · intro hclear
    obtain ⟨named, hnamed⟩ := List.length_eq_one_iff.mp hone
    have hmem : named ∈ w.rules.filter (Rules.named target) := by
      rw [hnamed]
      exact List.mem_singleton_self named
    rw [List.mem_filter, Rules.named, beq_iff_eq] at hmem
    refine RunPlan.filter_congr ?_
    rw [w.forall_rule_iff (p := fun rule => rule.nameContains target = rule.named target)]
    intro rule hrule
    by_cases hname : rule.name = target
    · have h : rule.named target = true := beq_iff_eq.mpr hname
      rw [h, nameContains_of_named h]
    · have hother : rule.named target = false := beq_eq_false_iff_ne.mpr hname
      rw [hother, Bool.eq_false_iff]
      exact fun hcontains => hclear ⟨⟨named, hmem⟩, rule, hrule, hname, hcontains⟩

/-- A target without a match is missing. -/
theorem targetPlan_missing (h : w.runTargetPlan target = .error (.missing target)) :
    w.targetPlan target = none := by
  rw [targetPlan_eq_none_iff]
  simp only [runTargetPlan] at h
  split at h
  · cases h
  · split at h
    · cases h
    · split at h
      · next hempty =>
        intro rule hrule
        exact Bool.eq_false_iff.mpr fun hcontains =>
          absurd (List.mem_filter.mpr ⟨hrule, hcontains⟩) (by rw [List.isEmpty_iff.mp hempty]; simp)
      · split at h <;> cases h

/-- A target that is ambiguous has a match. -/
theorem targetPlan_ambiguous {matched : List String}
    (h : w.runTargetPlan target = .error (.ambiguous target matched)) :
    w.targetPlan target = some (w.topology.filter (Rules.nameContains target)) := by
  simp only [runTargetPlan] at h
  have hsome : ∃ rule ∈ w.rules, rule.nameContains target = true := by
    split at h
    · next hmany =>
      obtain ⟨rule, hrule⟩ := List.exists_mem_of_length_pos (Nat.lt_of_succ_lt hmany)
      obtain ⟨hmem, hnamed⟩ := List.mem_filter.mp hrule
      exact ⟨rule, hmem, nameContains_of_named hnamed⟩
    · split at h
      · cases h
      · split at h
        · cases h
        · next hmatched =>
          obtain ⟨rule, hrule⟩ := List.exists_mem_of_ne_nil _ fun hnil => hmatched (List.isEmpty_iff.mpr hnil)
          exact ⟨rule, List.mem_filter.mp hrule⟩
  obtain ⟨rule, hmem, hcontains⟩ := hsome
  exact targetPlan_eq_some hmem hcontains

/-- What a finite run selects the control socket selects too. -/
theorem targetPlan_ok {plan : RunPlan} (h : w.runTargetPlan target = .ok plan) :
    w.targetPlan target = some (w.topology.filter (Rules.nameContains target)) ∧
      plan.tasks.Sublist (w.topology.filter (Rules.nameContains target)).tasks ∧
      (w.topology.filter (Rules.nameContains target) = plan ↔ ¬ w.Overshadows target) := by
  rcases w.runTargetPlan_ok h with ⟨hone, rfl⟩ | ⟨hnone, hsome, -, rfl⟩
  · obtain ⟨rule, hrule⟩ := List.exists_mem_of_length_pos (by omega : 0 < (w.rules.filter (Rules.named target)).length)
    obtain ⟨hmem, hnamed⟩ := List.mem_filter.mp hrule
    refine ⟨targetPlan_eq_some hmem (nameContains_of_named hnamed), ?_, filter_named_iff hone⟩
    rw [RunPlan.filter_tasks, RunPlan.filter_tasks]
    exact List.monotone_filter_right _ fun task => nameContains_of_named
  · obtain ⟨rule, hrule⟩ := List.exists_mem_of_ne_nil _ hsome
    obtain ⟨hmem, hcontains⟩ := List.mem_filter.mp hrule
    refine ⟨targetPlan_eq_some hmem hcontains, List.Sublist.refl _, iff_of_true rfl ?_⟩
    rintro ⟨⟨rule, hrule, hname⟩, -⟩
    have hnamed : rule ∈ w.rules.filter (Rules.named target) :=
      List.mem_filter.mpr ⟨hrule, beq_iff_eq.mpr hname⟩
    rw [hnone] at hnamed
    cases hnamed

end Watches

/-! ### Control runs and estimates -/

section Control

variable (ctx : WorkerContext) (cells : WorkerCells) (M : Matchers) (s : State W) (serving : Serving)
  (provider : EstimateProvider) (target : String) (sequential : Bool)

/-- A plan is what a control request for a target runs, and what its estimate is looked up by. -/
structure Controlled (plan : RunPlan) : Prop where
  run : s.runRequestedTarget ctx cells M serving.shared target sequential =
    let request := s.request fun runId =>
      ctx.targetRequest cells runId plan target sequential serving.shared.revision
    (request.1, .ok request.2)
  listed : serving.listedSignature ctx provider target =
    match plan.resolveContext ctx.fs provider.root with
    | .error _ => none
    | .ok plan => some (ctx.signature plan provider.concurrency provider.failFast)

/-- A control request for a target is refused and leaves the worker alone, and there is no estimate. -/
structure Refused : Prop where
  run : s.runRequestedTarget ctx cells M serving.shared target sequential = (s, .ok (.targetNotFound target))
  listed : serving.listedSignature ctx provider target = none

variable {ctx cells M s serving provider target sequential}

theorem Controlled.of_targetPlan {plan : RunPlan} (htarget : trim target.toList ≠ [])
    (h : serving.shared.targetPlan target = some plan) :
    Controlled ctx cells M s serving provider target sequential plan where
  run := by
    rw [State.runRequestedTarget, if_neg (by simpa using htarget), State.serve, h]
  listed := by
    cases hresolve : plan.resolveContext ctx.fs provider.root with
    | error => simp [Serving.listedSignature, h, hresolve]
    | ok => simp [Serving.listedSignature, h, hresolve]

theorem Refused.of_targetPlan (htarget : trim target.toList ≠ [])
    (h : serving.shared.targetPlan target = none) :
    Refused ctx cells M s serving provider target sequential where
  run := by
    rw [State.runRequestedTarget, if_neg (by simpa using htarget), State.serve, h]
  listed := by
    rw [Serving.listedSignature, h]

end Control

/-- A control request and the listing use every task whose name contains the target. Where a finite run
    selects a plan, theirs holds its tasks, and is the same unless the target is a task's name and part of
    another's; where the target is missing they refuse it, and where it is ambiguous they do not. -/
theorem control_selection (ctx : WorkerContext) (cells : WorkerCells) (M : Matchers) (s : State W)
    (serving : Serving) (provider : EstimateProvider) (target : String) (sequential : Bool)
    (htarget : trim target.toList ≠ []) :
    let selected := serving.shared.topology.filter (Rules.nameContains target)
    (∀ plan, serving.shared.runTargetPlan target = .ok plan →
      Controlled ctx cells M s serving provider target sequential selected ∧
        plan.tasks.Sublist selected.tasks ∧ (selected = plan ↔ ¬ serving.shared.Overshadows target)) ∧
    (serving.shared.runTargetPlan target = .error (.missing target) →
      Refused ctx cells M s serving provider target sequential) ∧
    ∀ matched, serving.shared.runTargetPlan target = .error (.ambiguous target matched) →
      Controlled ctx cells M s serving provider target sequential selected := by
  intro selected
  refine ⟨fun plan hok => ?_, fun hmissing => ?_, fun matched hambiguous => ?_⟩
  · obtain ⟨hplan, hsublist, hsame⟩ := Watches.targetPlan_ok hok
    exact ⟨.of_targetPlan htarget hplan, hsublist, hsame⟩
  · exact .of_targetPlan htarget (Watches.targetPlan_missing hmissing)
  · exact .of_targetPlan htarget (Watches.targetPlan_ambiguous hambiguous)

/-- Two tasks, one name part of the other. -/
def buildAndDocs : Watches :=
  .withRootAndConcurrency [{ name := "build" }, { name := "build docs" }] "/w" 1 isAbsolute_w Nat.one_pos

/-- The longer name is part of no other: a control run of it is that task, as a finite run is. -/
theorem control_selection_docs :
    Controlled linkedContext { concurrency := 1 } noMatchers (State.initial ()) (Serving.initial buildAndDocs)
      ⟨1, false, "/w"⟩ "build docs" false (buildAndDocs.topology.filter (Rules.named "build docs")) := by
  have h := control_selection linkedContext { concurrency := 1 } noMatchers (State.initial ())
    (Serving.initial buildAndDocs) ⟨1, false, "/w"⟩ "build docs" false (by decide +kernel)
  obtain ⟨hcontrolled, -, -⟩ := h.1 (buildAndDocs.topology.filter (Rules.named "build docs")) (by decide +kernel)
  have hsame : buildAndDocs.topology.filter (Rules.nameContains "build docs")
      = buildAndDocs.topology.filter (Rules.named "build docs") := by
    decide +kernel
  rw [← hsame]
  exact hcontrolled

/-- A finite run of one of them is that task alone, a control run is both. -/
theorem control_runs_more :
    ¬ ∀ (w : Watches) (target : String) (plan : RunPlan),
      w.runTargetPlan target = .ok plan → w.targetPlan target = some plan := by
  intro h
  have hboth := h buildAndDocs "build" (buildAndDocs.topology.filter (Rules.named "build")) (by decide +kernel)
  revert hboth
  decide +kernel

end Funzzy
