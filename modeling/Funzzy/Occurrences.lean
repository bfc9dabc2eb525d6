import Mathlib.Data.List.SplitBy
import Funzzy.Lib.Codec
import Funzzy.Plan

/-! Group occurrences (`from_rules` and `filter` of `plan.rs`): which rules a stage holds, and what
    the occurrence of a group is called.

    Grouping looks at neighbours only, numbering at the whole list: the stages of a plan are the
    longest runs of neighbouring rules with one group name, and the `k`-th run of a name is `name#k`.
    A name may itself hold `#` and digits; what follows the last `#` is the number all the same. -/

namespace Funzzy

/-! ### Occurrence ids -/

/-- The group a stage is an occurrence of; a serial stage is none. -/
def Stage.group? : Stage → Option String
  | .serial _ => none
  | .parallel group _ => some group

/-- `format!("{}#{}", group, occurrence)`. -/
def occurrenceId (group : String) (occurrence : Nat) : String := group ++ "#" ++ toString occurrence

theorem ne_hash_of_mem_digits (n : Nat) : ∀ c ∈ (Nat.toDigits 10 n).reverse, c ≠ '#' := by
  rintro c hc rfl
  have hdigit := Nat.isDigit_of_mem_toDigits (by decide) (by decide) (List.mem_reverse.mp hc)
  exact absurd hdigit (by decide)

/-- An id tells its group from its number, whatever the group is called: read from its end, the digits
    stop at the last `#`. -/
theorem occurrenceId_injective {group group' : String} {k k' : Nat}
    (h : occurrenceId group k = occurrenceId group' k') : group = group' ∧ k = k' := by
  have htexts := congrArg (fun id => id.toList.reverse) h
  simp only [occurrenceId, String.toList_append, Nat.toString_eq_repr, Nat.toList_repr,
    List.reverse_append, String.reduceToList, List.reverse_singleton] at htexts
  rw [← List.append_assoc, ← List.append_assoc] at htexts
  obtain ⟨hnumber, hgroup⟩ := Codec.delimits_text '#' _ _ _ _ (ne_hash_of_mem_digits k)
    (ne_hash_of_mem_digits k') htexts
  exact ⟨String.toList_inj.mp (List.reverse_inj.mp hgroup),
    Codec.toDigits_ten_injective (List.reverse_inj.mp hnumber)⟩

/-! ### Stages -/

/-- Neighbouring rules that `from_rules` puts into one stage. -/
def Rules.joins (rule next : Rules) : Bool := rule.parallel.isSome && rule.parallel == next.parallel

/-- The rules a stage holds. -/
def Stage.rules (stage : Stage) : List Rules := (stageTasks stage).map (·.rule)

/-- A stage that holds at least one task, and only tasks of its group. -/
def Stage.Grouped (stage : Stage) : Prop :=
  stageTasks stage ≠ [] ∧ ∀ task ∈ stageTasks stage, task.rule.parallel = stage.group?

/-- Neighbouring stages that are not one occurrence. -/
def Stage.Apart (stage next : Stage) : Prop := stage.group? = none ∨ stage.group? ≠ next.group?

/-- The tasks of a stage carry the id of their occurrence, counted per group name over the stages
    before; those of a serial stage carry none. -/
def Stage.Numbered (before : List Stage) (stage : Stage) : Prop :=
  ∀ task ∈ stageTasks stage, task.groupOccurrence = stage.group?.map fun group =>
    occurrenceId group ((before.map Stage.group?).count (some group) + 1)

/-- No task of one stage carries an id that a task of the other carries. -/
def Stage.Unlike (stage other : Stage) : Prop :=
  ∀ task ∈ stageTasks stage, ∀ task' ∈ stageTasks other,
    task.groupOccurrence.isSome → task.groupOccurrence ≠ task'.groupOccurrence

/-- Stages laid out the way `from_rules` leaves them. -/
structure Laid (stages : List Stage) : Prop where
  grouped : ∀ stage ∈ stages, stage.Grouped
  apart : stages.IsChain Stage.Apart
  numbered : ∀ before stage after, stages = before ++ stage :: after → stage.Numbered before

theorem Laid.nil : Laid [] where
  grouped := by simp
  apart := List.isChain_nil
  numbered := by simp

theorem Laid.concat {stages : List Stage} (h : Laid stages) {stage : Stage} (hgrouped : stage.Grouped)
    (hapart : ∀ last ∈ stages.getLast?, last.Apart stage) (hnumbered : stage.Numbered stages) :
    Laid (stages ++ [stage]) where
  grouped := by
    intro s hs
    rcases List.mem_append.mp hs with hs | hs
    · exact h.grouped s hs
    · rw [List.mem_singleton.mp hs]
      exact hgrouped
  apart := by
    rw [List.isChain_append]
    refine ⟨h.apart, List.isChain_singleton stage, ?_⟩
    rintro last hlast next hnext
    cases hnext
    exact hapart last hlast
  numbered := by
    intro before s after heq
    rcases List.eq_nil_or_concat after with rfl | ⟨after', last, rfl⟩
    · obtain ⟨rfl, hs⟩ := List.append_inj' heq rfl
      cases hs
      exact hnumbered
    · rw [List.concat_eq_append, ← List.cons_append, ← List.append_assoc] at heq
      exact h.numbered before s after' (List.append_inj' heq rfl).1

/-- Neighbours inside a grouped stage join, since they share its group. -/
theorem Stage.Grouped.joined {stage : Stage} (h : stage.Grouped) :
    stage.rules.IsChain fun rule next => rule.joins next := by
  cases stage with
  | serial task => exact List.isChain_singleton _
  | parallel group tasks =>
    refine List.Pairwise.isChain (List.pairwise_of_forall_mem_list ?_)
    intro rule hrule next hnext
    obtain ⟨task, htask, rfl⟩ := List.mem_map.mp hrule
    obtain ⟨task', htask', rfl⟩ := List.mem_map.mp hnext
    simp [Rules.joins, h.2 task htask, h.2 task' htask', Stage.group?]

theorem Stage.Grouped.rules_ne_nil {stage : Stage} (h : stage.Grouped) : stage.rules ≠ [] := by
  simpa [Stage.rules] using h.1

theorem Stage.Grouped.parallel_of_mem {stage : Stage} (h : stage.Grouped) {rule : Rules}
    (hrule : rule ∈ stage.rules) : rule.parallel = stage.group? := by
  obtain ⟨task, htask, rfl⟩ := List.mem_map.mp hrule
  exact h.2 task htask

/-- Stages laid out so are the longest runs of neighbouring rules that join. -/
theorem Laid.splitBy {stages : List Stage} (h : Laid stages) :
    (stages.flatMap Stage.rules).splitBy Rules.joins = stages.map Stage.rules := by
  rw [List.splitBy_eq_iff]
  refine ⟨List.flatMap_def, ?_, ?_, ?_⟩
  · intro hnil
    obtain ⟨stage, hstage, hempty⟩ := List.mem_map.mp hnil
    exact (h.grouped stage hstage).rules_ne_nil hempty
  · intro rules hrules
    obtain ⟨stage, hstage, rfl⟩ := List.mem_map.mp hrules
    exact (h.grouped stage hstage).joined
  · rw [List.isChain_map]
    refine h.apart.imp_of_mem_imp ?_
    intro stage next hstage hnext hapart
    have hstage := h.grouped stage hstage
    have hnext := h.grouped next hnext
    refine ⟨hstage.rules_ne_nil, hnext.rules_ne_nil, ?_⟩
    rw [Rules.joins, hstage.parallel_of_mem (List.getLast_mem _),
      hnext.parallel_of_mem (List.head_mem _)]
    rcases hapart with hserial | hother
    · simp [hserial]
    · simp [hother]

theorem Laid.numbered_getElem {stages : List Stage} (h : Laid stages) {i : Nat} (hi : i < stages.length) :
    stages[i].Numbered (stages.take i) :=
  h.numbered (stages.take i) stages[i] (stages.drop (i + 1)) (by
    rw [List.getElem_cons_drop, List.take_append_drop])

/-- Distinct occurrences have distinct ids: of one name, the later one has a larger number. -/
theorem Laid.unlike {stages : List Stage} (h : Laid stages) : stages.Pairwise Stage.Unlike := by
  rw [List.pairwise_iff_getElem]
  intro i j hi hj hij task htask task' htask' hsome hsame
  rw [h.numbered_getElem hi task htask] at hsome hsame
  rw [h.numbered_getElem hj task' htask'] at hsame
  obtain ⟨group, hgroup⟩ := Option.isSome_iff_exists.mp (Option.isSome_map ▸ hsome)
  rw [hgroup, Option.map_some, eq_comm, Option.map_eq_some_iff] at hsame
  obtain ⟨group', hgroup', hid⟩ := hsame
  obtain ⟨rfl, hcount⟩ := occurrenceId_injective hid
  have hlater : ((stages.take (i + 1)).map Stage.group?).count (some group')
      ≤ ((stages.take j).map Stage.group?).count (some group') :=
    ((List.take_sublist_take_left hij).map _).count_le _
  rw [List.take_add_one, List.getElem?_eq_getElem hi, Option.toList_some, List.map_append,
    List.count_append, List.map_singleton, hgroup, List.count_singleton_self] at hlater
  omega

/-! ### What the loop of `from_rules` keeps -/

/-- A task the way the loop makes it of a rule. -/
structure TaskPlan.Fresh (task : TaskPlan) : Prop where
  parallel : task.parallel = task.rule.parallel
  unnumbered : task.groupOccurrence = none

/-- The closed stages are laid out, their occurrences are counted, and the open group goes on from none
    of them. -/
structure PlanBuilder.Sound (b : PlanBuilder) : Prop where
  laid : Laid b.stages
  counted : ∀ group, b.groupCounts group = (b.stages.map Stage.group?).count (some group)
  opened : ∀ group tasks, b.openGroup = some (group, tasks) → tasks ≠ [] ∧
    (∀ task ∈ tasks, task.rule.parallel = some group) ∧
    ∀ last ∈ b.stages.getLast?, last.group? = none ∨ last.group? ≠ some group
  barred : b.openGroup = none → ∀ last ∈ b.stages.getLast?, last.group? = none

theorem PlanBuilder.Sound.empty : PlanBuilder.Sound {} where
  laid := .nil
  counted := fun _ => rfl
  opened := by simp
  barred := by simp

/-- What holds once the open group is closed: the last stage, if it is an occurrence, is the one of the
    group that was open. -/
theorem PlanBuilder.Sound.close {b : PlanBuilder} (h : b.Sound) :
    Laid b.close.stages ∧
    (∀ group, b.close.groupCounts group = (b.close.stages.map Stage.group?).count (some group)) ∧
    ∀ last ∈ b.close.stages.getLast?, last.group? = b.openGroup.map (·.1) := by
  unfold PlanBuilder.close
  cases hopen : b.openGroup with
  | none => exact ⟨h.laid, h.counted, h.barred hopen⟩
  | some g =>
    obtain ⟨group, tasks⟩ := g
    obtain ⟨hne, hmembers, hlast⟩ := h.opened group tasks hopen
    simp only [closeGroup]
    refine ⟨h.laid.concat ⟨?_, ?_⟩ hlast ?_, ?_, ?_⟩
    · simpa [stageTasks] using hne
    · simpa [stageTasks, Stage.group?] using hmembers
    · intro task htask
      obtain ⟨member, -, rfl⟩ := List.mem_map.mp htask
      simp [Stage.group?, occurrenceId, h.counted]
    · intro name
      rw [List.map_append, List.count_append, ← h.counted]
      by_cases hname : name = group
      · simp [hname, Stage.group?]
      · have hname' : ¬ group = name := fun heq => hname heq.symm
        simp [hname, hname', Stage.group?]
    · intro last hmem
      rw [List.getLast?_concat] at hmem
      cases hmem
      rfl

theorem PlanBuilder.Sound.push {b : PlanBuilder} (h : b.Sound) {plan : TaskPlan} (hplan : plan.Fresh) :
    (b.push plan).Sound := by
  obtain ⟨hlaid, hcounted, hlast⟩ := h.close
  unfold PlanBuilder.push
  split
  · rename_i group openName tasks hparallel hopen
    split
    · rename_i hsame
      subst hsame
      obtain ⟨-, hmembers, hbefore⟩ := h.opened group tasks hopen
      refine ⟨h.laid, h.counted, ?_, fun hnone => by cases hnone⟩
      intro name members hopened
      obtain ⟨rfl, rfl⟩ := Prod.mk.inj (Option.some.inj hopened)
      refine ⟨by simp, ?_, hbefore⟩
      intro task htask
      rcases List.mem_append.mp htask with htask | htask
      · exact hmembers task htask
      · rw [List.mem_singleton.mp htask, ← hplan.parallel, hparallel]
    · rename_i hother
      refine ⟨hlaid, hcounted, ?_, fun hnone => by cases hnone⟩
      intro name members hopened
      obtain ⟨rfl, rfl⟩ := Prod.mk.inj (Option.some.inj hopened)
      refine ⟨by simp, ?_, fun last hmem => .inr ?_⟩
      · simp [← hplan.parallel, hparallel]
      · rw [hlast last hmem, hopen]
        exact fun heq => hother (Option.some.inj heq).symm
  · rename_i group hparallel hopen
    refine ⟨h.laid, h.counted, ?_, fun hnone => by cases hnone⟩
    intro name members hopened
    obtain ⟨rfl, rfl⟩ := Prod.mk.inj (Option.some.inj hopened)
    refine ⟨by simp, ?_, fun last hmem => .inl (h.barred hopen last hmem)⟩
    simp [← hplan.parallel, hparallel]
  · rename_i hparallel
    have hserial : Stage.Grouped (.serial plan) :=
      ⟨by simp [stageTasks], by simp [stageTasks, Stage.group?, ← hplan.parallel, hparallel]⟩
    have hnumbered : Stage.Numbered b.close.stages (.serial plan) := by
      simp [Stage.Numbered, stageTasks, Stage.group?, hplan.unnumbered]
    refine ⟨hlaid.concat hserial (fun last _ => ?_) hnumbered, fun group => ?_, ?_, fun _ => ?_⟩
    · exact eq_or_ne last.group? none
    · rw [hcounted, List.map_append, List.count_append]
      simp [Stage.group?]
    · intro name members hopened
      rw [b.close_openGroup] at hopened
      cases hopened
    · intro last hmem
      rw [List.getLast?_concat] at hmem
      cases hmem
      rfl

theorem PlanBuilder.Sound.foldl {plans : List TaskPlan} (hplans : ∀ plan ∈ plans, plan.Fresh) :
    ∀ {b : PlanBuilder}, b.Sound → (plans.foldl PlanBuilder.push b).Sound := by
  induction plans with
  | nil => exact fun h => h
  | cons plan plans ih =>
    intro b h
    exact ih (fun p hp => hplans p (List.mem_cons_of_mem _ hp)) (h.push (hplans plan List.mem_cons_self))

/-- The stages of a plan built from rules are laid out. -/
theorem RunPlan.fromRules_laid (rules : List Rules) : Laid (RunPlan.fromRules rules).stages := by
  refine (PlanBuilder.Sound.foldl (fun plan hplan => ?_) .empty).close.1
  obtain ⟨⟨rule, position⟩, -, rfl⟩ := List.mem_map.mp hplan
  exact ⟨rfl, rfl⟩

theorem RunPlan.fromRules_splitBy (rules : List Rules) :
    (RunPlan.fromRules rules).stages.map Stage.rules = rules.splitBy Rules.joins := by
  rw [← (RunPlan.fromRules_laid rules).splitBy]
  congr 1
  have hrules := RunPlan.fromRules_rules rules
  rw [RunPlan.tasks, List.map_flatMap] at hrules
  exact hrules

/-! ### Filtering -/

/-- What is left of a stage: at least one task, and of its tasks exactly the kept ones, under its name. -/
structure Stage.Rest (keep : Rules → Bool) (stage origin : Stage) : Prop where
  nonempty : stageTasks stage ≠ []
  group : stage.group? = origin.group?
  kept : stageTasks stage = (stageTasks origin).filter fun task => keep task.rule

theorem Stage.rest_of_filter {keep : Rules → Bool} {origin stage : Stage}
    (h : Stage.filter keep origin = some stage) : stage.Rest keep origin := by
  have hkept := Stage.filter_tasks keep origin
  rw [h, Option.map_some, Option.getD_some] at hkept
  cases origin with
  | serial task =>
    rw [Stage.filter] at h
    split at h
    · cases h
      exact ⟨by simp [stageTasks], rfl, hkept⟩
    · cases h
  | parallel group tasks =>
    rw [Stage.filter] at h
    split at h
    · cases h
    · rename_i hsome
      cases h
      exact ⟨by simpa [stageTasks] using hsome, rfl, hkept⟩

/-- Each stage of a filtered plan is what is left of one stage of the plan, in order. -/
theorem RunPlan.filter_rest (keep : Rules → Bool) (plan : RunPlan) :
    ∃ origins : List Stage, origins.Sublist plan.stages ∧
      List.Forall₂ (Stage.Rest keep) (plan.filter keep).stages origins := by
  obtain ⟨stages⟩ := plan
  simp only [RunPlan.filter]
  induction stages with
  | nil => exact ⟨[], .slnil, .nil⟩
  | cons origin stages ih =>
    obtain ⟨origins, hsub, hrest⟩ := ih
    cases hfilter : Stage.filter keep origin with
    | none => exact ⟨origins, hsub.cons origin, by simpa [hfilter] using hrest⟩
    | some stage =>
      refine ⟨origin :: origins, hsub.cons_cons origin, ?_⟩
      rw [List.filterMap_cons_some hfilter]
      exact .cons (Stage.rest_of_filter hfilter) hrest

/-- A plan holds the rules in order, each at its index. Its stages are the longest runs of neighbouring
    rules of one group, a rule without a group alone; the `k`-th run of a name is `name#k`, and no two
    stages share an id. A filter leaves the kept tasks as they are, and what it leaves of one stage is a
    stage by itself that is not empty. -/
theorem RunPlan.occurrences_kept :
    (∀ rules : List Rules,
      (RunPlan.fromRules rules).tasks.map (·.rule) = rules ∧
      (RunPlan.fromRules rules).tasks.map (·.position) = List.range rules.length ∧
      (RunPlan.fromRules rules).stages.map Stage.rules = rules.splitBy Rules.joins ∧
      (∀ stage ∈ (RunPlan.fromRules rules).stages, stage.Grouped) ∧
      (∀ before stage after, (RunPlan.fromRules rules).stages = before ++ stage :: after →
        stage.Numbered before) ∧
      (RunPlan.fromRules rules).stages.Pairwise Stage.Unlike) ∧
    ∀ (plan : RunPlan) (keep : Rules → Bool),
      (plan.filter keep).tasks = plan.tasks.filter (fun task => keep task.rule) ∧
      ∃ origins : List Stage, origins.Sublist plan.stages ∧
        List.Forall₂ (Stage.Rest keep) (plan.filter keep).stages origins := by
  refine ⟨fun rules => ?_, fun plan keep => ⟨plan.filter_tasks keep, plan.filter_rest keep⟩⟩
  have hlaid := RunPlan.fromRules_laid rules
  exact ⟨RunPlan.fromRules_rules rules, RunPlan.fromRules_positions rules,
    RunPlan.fromRules_splitBy rules, hlaid.grouped, hlaid.numbered, hlaid.unlike⟩

/-- A group named like an occurrence of another one. -/
example : (RunPlan.fromRules
      [{ name := "x", parallel := some "a" }, { name := "y", parallel := some "a#1" },
        { name := "z", parallel := some "a" }]).tasks.map (·.groupOccurrence)
    = [some "a#1", some "a#1#1", some "a#2"] := by decide +kernel

end Funzzy
