import Funzzy.Exec
import Funzzy.Targets

/-! Spellings of a changed path (`normalize_paths`, `watch_plan`, `explain` and `watch_plan_batch` in
    `watches.rs`).

    A path below the workspace root can be given relative to the root, with `./` before it, or absolute. The
    relative patterns see the same text in all three cases; the absolute patterns see the `./`. -/

namespace Funzzy

open UnixPath (isAbsolute join stripPrefix unparse parts)

namespace Watches

variable (w : Watches) (M : Matchers)

/-- The path with the workspace root before it. -/
def rootedSpelling (path : String) : String := String.ofList (join w.root.toList path.toList)

def dottedSpelling (path : String) : String := "./" ++ path

/-- What relative patterns are matched against. -/
def relativeForm (path : String) : List Char := '/' :: unparse (parts path.toList)

/-- Both spellings select the same tasks: alone, as explained and in a batch. -/
structure SameTasks (path other : String) : Prop where
  plan : w.watchPlan M path = w.watchPlan M other
  explained : (w.explain M path).matched.map (·.name) = (w.explain M other).matched.map (·.name)
  stages : (w.explain M path).planStages = (w.explain M other).planStages
  batch : (w.watchPlanBatch M [path]).map Prod.fst = (w.watchPlanBatch M [other]).map Prod.fst

/-- The absolute patterns of a rule come to the same for two absolute paths. Where a relative change pattern
    matches, only the ignore patterns count. -/
def AbsolutelyAlike (changed : Bool) (rule : Rules) (path other : List Char) : Prop :=
  if changed then rule.ignoreAbsolute M path = rule.ignoreAbsolute M other
  else (rule.watchAbsolute M path && !rule.ignoreAbsolute M path)
    = (rule.watchAbsolute M other && !rule.ignoreAbsolute M other)

instance (changed : Bool) (rule : Rules) (path other : List Char) :
    Decidable (AbsolutelyAlike M changed rule path other) :=
  inferInstanceAs (Decidable (if changed then _ else _))

variable {w M} {path : String}

/-! ### The two forms of a path -/

theorem normalizePaths_relative (hpath : isAbsolute path.toList = false) :
    w.normalizePaths path = (join w.root.toList path.toList, some (relativeForm path)) := by
  rw [normalizePaths]
  simp only [hpath, Bool.false_eq_true, if_false, UnixPath.stripPrefix_join w.rooted hpath, Option.map_some]
  rfl

theorem normalizePaths_rooted (hpath : isAbsolute path.toList = false) :
    w.normalizePaths (w.rootedSpelling path) = w.normalizePaths path := by
  have habsolute : isAbsolute (w.rootedSpelling path).toList = true := by
    have hroot := w.rooted
    rw [rootedSpelling, String.toList_ofList, join, hpath, if_neg Bool.false_ne_true]
    cases hchars : w.root.toList with
    | nil =>
      rw [hchars] at hroot
      cases hroot
    | cons c rest =>
      rw [hchars] at hroot
      split_ifs <;> exact hroot
  rw [normalizePaths, habsolute, normalizePaths, hpath]
  simp [rootedSpelling]

theorem normalizePaths_dotted (path : String) :
    w.normalizePaths (dottedSpelling path)
      = (join w.root.toList (dottedSpelling path).toList, some (relativeForm path)) := by
  have hchars : (dottedSpelling path).toList = '.' :: '/' :: path.toList := by
    simp [dottedSpelling]
  have hdotted : isAbsolute (dottedSpelling path).toList = false := by
    rw [hchars]
    rfl
  rw [normalizePaths_relative hdotted, relativeForm, hchars, UnixPath.unparse_dot]
  rfl

/-! ### Selection -/

/-- Whether a path is selected depends on its two forms alone. -/
theorem selects_of_normalizePaths {other : String} (h : w.normalizePaths other = w.normalizePaths path) :
    w.selects M other = w.selects M path := by
  funext rule
  rw [selects, selects, h]

/-- The tasks are the same exactly if every rule is selected for both or for neither. -/
theorem sameTasks_iff {other : String} :
    w.SameTasks M path other ↔ ∀ rule ∈ w.rules, w.selects M path rule = w.selects M other rule := by
  constructor
  · intro h rule hrule
    have hrules : w.rules.filter (w.selects M path) = w.rules.filter (w.selects M other) := by
      rw [← w.watchPlan_rules, ← w.watchPlan_rules, h.plan]
    rw [Bool.eq_iff_iff]
    constructor
    · intro hselects
      have hin := List.mem_filter.mpr ⟨hrule, hselects⟩
      rw [hrules] at hin
      exact (List.mem_filter.mp hin).2
    · intro hselects
      have hin := List.mem_filter.mpr ⟨hrule, hselects⟩
      rw [← hrules] at hin
      exact (List.mem_filter.mp hin).2
  · intro h
    have hplan : w.watchPlan M path = w.watchPlan M other := by
      rw [watchPlan, watchPlan]
      congr 1
      refine RunPlan.filter_congr fun task htask => h task.rule ?_
      rw [← w.planned]
      exact List.mem_map_of_mem htask
    refine ⟨hplan, ?_, ?_, ?_⟩
    · rw [w.matched_names, w.matched_names, List.filter_congr h]
    · rw [explain, explain, hplan]
    · simp only [watchPlanBatch, List.mergeSort_singleton, List.findSome?_cons, List.findSome?_nil, hplan]
      cases w.watchPlan M other <;> rfl

/-- What a rule comes to for a path with the given forms. -/
theorem selects_forms {absolute relative : List Char} (h : w.normalizePaths path = (absolute, some relative))
    (rule : Rules) : w.selects M path rule
      = (!rule.ignoreRelative M relative && !(w.gitignored M (trimSlash relative))
        && (rule.watchRelative M relative || rule.watchAbsolute M absolute) && !rule.ignoreAbsolute M absolute) := by
  rw [selects_eq, ignorePatterns_isEmpty, changePatterns_isEmpty, excluded, h]
  simp only [Option.map_some, Option.getD_some, gitignored]
  cases rule.ignoreAbsolute M absolute <;> cases rule.ignoreRelative M relative <;>
    cases w.respectGitignore <;> cases M.gitignored (trimSlash relative) <;>
    cases rule.watchAbsolute M absolute <;> cases rule.watchRelative M relative <;> rfl

/-- The three spellings of a path below the root select the same tasks exactly if, for every rule that no
    relative ignore pattern and no gitignore rule keeps from the path, the absolute patterns come to the same
    for `<root>/<path>` and for `<root>/./<path>`. -/
theorem spelling_iff (w : Watches) (M : Matchers) (path : String) (hpath : isAbsolute path.toList = false) :
    w.SameTasks M path (w.rootedSpelling path) ∧ w.SameTasks M path (dottedSpelling path)
      ↔ ∀ rule ∈ w.rules, rule.ignoreRelative M (relativeForm path) = false →
        w.gitignored M (trimSlash (relativeForm path)) = false →
        AbsolutelyAlike M (rule.watchRelative M (relativeForm path)) rule (join w.root.toList path.toList)
          (join w.root.toList (dottedSpelling path).toList) := by
  have hrooted : w.SameTasks M path (w.rootedSpelling path) := by
    refine sameTasks_iff.mpr fun rule _ => ?_
    rw [selects_of_normalizePaths (normalizePaths_rooted hpath)]
  rw [and_iff_right hrooted, sameTasks_iff]
  refine forall_congr' fun rule => imp_congr_right fun _ => ?_
  rw [selects_forms (normalizePaths_relative hpath), selects_forms (normalizePaths_dotted path), AbsolutelyAlike]
  cases rule.ignoreRelative M (relativeForm path) with
  | true => simp
  | false =>
    cases w.gitignored M (trimSlash (relativeForm path)) with
    | true => simp
    | false =>
      cases rule.watchRelative M (relativeForm path) with
      | true => simp
      | false => simp

/-- One rule with an absolute pattern for the files directly in `/w/src`. -/
def sources (pattern : String) : Watches :=
  .withRootAndConcurrency [{ name := "build", commands := ["make"], watchPatterns := [pattern] }] "/w" 1 isAbsolute_w
    Nat.one_pos

theorem spelling_relative : (sources "src/*.rs").SameTasks globs "src/a.rs" "/w/src/a.rs" ∧
    (sources "src/*.rs").SameTasks globs "src/a.rs" "./src/a.rs" := by
  refine (spelling_iff (sources "src/*.rs") globs "src/a.rs" rfl).mpr fun rule hrule _ _ => ?_
  obtain rfl := List.mem_singleton.mp hrule
  decide

/-- With an absolute pattern the path is watched as `src/a.rs` and as `/w/src/a.rs`, not as `./src/a.rs`. -/
theorem dotted_path_unwatched : ((sources "/w/src/*.rs").watchPlan globs "src/a.rs").isSome = true ∧
    (sources "/w/src/*.rs").SameTasks globs "src/a.rs" "/w/src/a.rs" ∧
    (sources "/w/src/*.rs").watchPlan globs "./src/a.rs" = none ∧
    ¬ (sources "/w/src/*.rs").SameTasks globs "src/a.rs" "./src/a.rs" := by
  refine ⟨by decide, sameTasks_iff.mpr fun rule hrule => ?_, by decide, fun h => ?_⟩
  · obtain rfl := List.mem_singleton.mp hrule
    decide
  · have hplan := h.plan
    revert hplan
    decide

end Watches

end Funzzy
