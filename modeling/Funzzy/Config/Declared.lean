import Funzzy.Config.Tasks

/-! What a document declares and what its rules hold (`yaml.rs`, `config.rs`).

    `Rules.Reflects` is the promise of the readers: the commands and the patterns of a rule are the texts the
    job and the `on` section declare, in that order, and the flag is the declared one. The readers keep it
    where every such value has the kind that is expected. A list with another item keeps a mark in its
    place, a value that is no list at all is dropped, and a flag that is none is false. -/

namespace Funzzy

open Fallible

/-! ### Declared values -/

namespace Yaml

/-- The texts a value is made of: one, or a list of them. -/
def texts? : Yaml → Option (List String)
  | .string text => some [text]
  | .array items => items.mapM asStr?
  | _ => none

/-- The value of a key, if the mapping has it. -/
def valueOf? (yaml : Yaml) (key : String) : Option Yaml :=
  match yaml with
  | .hash entries => (entries.find? fun entry => entry.1.isString key).map (·.2)
  | _ => none

/-- The texts a mapping declares under a key; none at all without the key. -/
def declared (yaml : Yaml) (key : String) : Option (List String) :=
  match yaml.valueOf? key with
  | none => some []
  | some value => value.texts?

/-- The flag a mapping declares under a key; without the key it is false. -/
def declaredFlag (yaml : Yaml) (key : String) : Option Bool :=
  match yaml.valueOf? key with
  | none => some false
  | some (.boolean value) => some value
  | some _ => none

/-- The jobs of a document. -/
def jobList (document : Yaml) : List Yaml :=
  match document.get (if (document.get "jobs").isBad = false then "jobs" else "tasks") with
  | .array jobs => jobs
  | _ => []

end Yaml

/-- The common patterns, and behind them the new ones of the job in their order, each once. -/
def Merged (common own merged : List String) : Prop :=
  ∃ added : List String, merged = common ++ added ∧ added.Sublist own ∧ added.Nodup ∧
    (∀ pattern ∈ added, pattern ∉ common) ∧ ∀ pattern ∈ own, pattern ∈ merged

/-- The commands, the patterns and the flag of a rule are what the job and the `on` section declare. -/
structure Rules.Reflects (rule : Rules) (on job : Yaml) : Prop where
  commands : job.declared "run" = some rule.commands
  watchPatterns : ∃ common own, on.declared "change" = some common ∧ job.declared "change" = some own ∧
    Merged common own rule.watchPatterns
  ignorePatterns : ∃ common own, on.declared "ignore" = some common ∧ job.declared "ignore" = some own ∧
    Merged common own rule.ignorePatterns
  runOnInit : job.declaredFlag "run_on_init" = some rule.runOnInit

/-- The rules of a document reflect its jobs, one by one. -/
def Yaml.ReflectedBy (document : Yaml) (rules : List Rules) : Prop :=
  List.Forall₂ (fun job rule => rule.Reflects (document.get "on") job) document.jobList rules

/-- A job declares texts and a flag where they are expected. -/
structure Yaml.LegibleJob (job : Yaml) : Prop where
  run : (job.declared "run").isSome = true
  change : (job.declared "change").isSome = true
  ignore : (job.declared "ignore").isSome = true
  runOnInit : (job.declaredFlag "run_on_init").isSome = true

/-- So do the `on` section and all jobs. -/
structure Yaml.Legible (document : Yaml) : Prop where
  change : ((document.get "on").declared "change").isSome = true
  ignore : ((document.get "on").declared "ignore").isSome = true
  jobs : ∀ job ∈ document.jobList, job.LegibleJob

/-! ### Merging -/

theorem merged_mergePatterns (common own : List String) : Merged common own (mergePatterns common own) := by
  have hadded : ∃ added : List String, mergePatterns common own = common ++ added ∧ added.Sublist own ∧
      added.Nodup ∧ ∀ pattern ∈ added, pattern ∉ common := by
    induction own generalizing common with
    | nil => exact ⟨[], (List.append_nil _).symm, List.Sublist.refl _, List.nodup_nil, fun _ hmem => nomatch hmem⟩
    | cons first rest ih =>
      have hstep : mergePatterns common (first :: rest) =
          mergePatterns (if common.contains first then common else common ++ [first]) rest := rfl
      rw [hstep]
      split
      · obtain ⟨added, hmerged, hsublist, hnodup, hnew⟩ := ih common
        exact ⟨added, hmerged, hsublist.cons first, hnodup, hnew⟩
      · next hfirst =>
        obtain ⟨added, hmerged, hsublist, hnodup, hnew⟩ := ih (common ++ [first])
        have hnew : ∀ pattern ∈ added, pattern ∉ common ∧ pattern ≠ first := by
          intro pattern hmem
          have h := hnew pattern hmem
          rw [List.mem_append, List.mem_singleton, not_or] at h
          exact h
        refine ⟨first :: added, ?_, hsublist.cons_cons first, ?_, ?_⟩
        · rw [hmerged, List.append_assoc, List.singleton_append]
        · exact List.nodup_cons.mpr ⟨fun hmem => (hnew first hmem).2 rfl, hnodup⟩
        · rw [List.forall_mem_cons]
          exact ⟨fun hmem => hfirst (List.contains_iff_mem.mpr hmem), fun pattern hmem => (hnew pattern hmem).1⟩
  obtain ⟨added, hmerged, hsublist, hnodup, hnew⟩ := hadded
  exact ⟨added, hmerged, hsublist, hnodup, hnew, fun pattern hmem => mem_mergePatterns.mpr (.inr hmem)⟩

/-! ### Reading -/

section Reading

variable {yaml job on : Yaml} {key : String}

theorem Yaml.get_eq_valueOf? (yaml : Yaml) (key : String) : yaml.get key = (yaml.valueOf? key).getD .badValue := by
  cases yaml <;> rfl

theorem mapM_asStr? {items : List Yaml} {texts : List String} (h : items.mapM Yaml.asStr? = some texts) :
    (items.map fun item => item.asStr?.getD "_invalid_value_") = texts := by
  induction items generalizing texts with
  | nil =>
    cases h
    rfl
  | cons item items ih =>
    rw [List.mapM_cons] at h
    obtain ⟨text, htext, h⟩ := Option.bind_eq_some_iff.mp h
    obtain ⟨rest, hrest, h⟩ := Option.bind_eq_some_iff.mp h
    cases h
    rw [List.map_cons, htext, ih hrest]
    rfl

/-- Declared texts are extracted as they are, if there are any. -/
theorem extractList_declared {texts : List String} (h : yaml.declared key = some texts) :
    extractList yaml key = .ok texts ∨ (yaml.get key = .badValue ∧ texts = []) := by
  rw [Yaml.declared] at h
  rw [extractList, Yaml.get_eq_valueOf?]
  cases hvalue : yaml.valueOf? key with
  | none =>
    rw [hvalue] at h
    cases h
    exact .inr ⟨rfl, rfl⟩
  | some value =>
    rw [hvalue] at h
    cases value with
    | string text =>
      cases h
      exact .inl rfl
    | array items => exact .inl (congrArg Except.ok (mapM_asStr? h))
    | _ => cases h

theorem orDefault_declared {texts : List String} (h : yaml.declared key = some texts) :
    orDefault (extractList yaml key) = texts := by
  rcases extractList_declared h with hlist | ⟨hbad, rfl⟩
  · rw [hlist]
    rfl
  · rw [extractList, hbad]
    rfl

/-- A list that is required is the declared one. -/
theorem extractList_eq_declared {texts result : List String} (h : yaml.declared key = some texts)
    (hread : extractList yaml key = .ok result) : result = texts := by
  rw [← orDefault_declared h, hread]
  rfl

theorem extractBool_declared {value : Bool} (h : yaml.declaredFlag key = some value) :
    extractBool yaml key = value := by
  rw [Yaml.declaredFlag] at h
  rw [extractBool, Yaml.get_eq_valueOf?]
  split at h
  · next hvalue =>
    cases h
    rw [hvalue]
    rfl
  · next hvalue =>
    cases h
    rw [hvalue]
    rfl
  · cases h

/-- The patterns of the `on` section. -/
theorem extractCommonRules_eq {common : CommonRules} (h : extractCommonRules on = .ok common) :
    common.change = orDefault (extractList on "change") ∧ common.ignore = orDefault (extractList on "ignore") := by
  cases on with
  | badValue =>
    cases h
    exact ⟨rfl, rfl⟩
  | hash entries =>
    simp only [extractCommonRules, bind_eq_ok, ensureGlobOnly_eq_ok] at h
    obtain ⟨_, ⟨-, rfl⟩, _, ⟨-, rfl⟩, ⟨⟩⟩ := h
    exact ⟨rfl, rfl⟩
  | _ => cases h

/-- What a job's rule takes from the job and from the common patterns. -/
theorem ruleFromWithCommon_reads {common : CommonRules} {rule : Rules} (h : ruleFromWithCommon job common = .ok rule) :
    extractList job "run" = .ok rule.commands ∧
      rule.watchPatterns = mergePatterns common.change (orDefault (extractList job "change")) ∧
      rule.ignorePatterns = mergePatterns common.ignore (orDefault (extractList job "ignore")) ∧
      rule.runOnInit = extractBool job "run_on_init" := by
  unfold ruleFromWithCommon at h
  simp only [bind_eq_ok, ensureGlobOnly_eq_ok] at h
  obtain ⟨-, -, name, -, commands, hcommands, _, ⟨-, rfl⟩, _, ⟨-, rfl⟩, parallel, -, cwd, -, environment, -,
    recovery, -, service, -, h⟩ := h
  rw [guard_eq_ok (by rintro ⟨⟩), bind_eq_ok] at h
  obtain ⟨-, output, -, ⟨⟩⟩ := h
  exact ⟨hcommands, rfl, rfl, rfl⟩

theorem parseJobs_reads {hasTasks : Bool} {common : CommonRules} {jobs : List Yaml} {seen : List String}
    {rules : List Rules} (h : parseJobs hasTasks common jobs seen = .ok rules) :
    List.Forall₂ (fun job rule => ruleFromWithCommon job common = .ok rule) jobs rules := by
  induction jobs generalizing seen rules with
  | nil =>
    cases h
    exact .nil
  | cons job jobs ih =>
    obtain ⟨-, rule, hrule, -, others, hothers, rfl⟩ := parseJobs_cons_eq_ok.mp h
    exact .cons hrule (ih hothers)

end Reading

/-! ### A whole document -/

section Document

variable {entries : List (Yaml × Yaml)} {rules : List Rules}

/-- The rules of an accepted mapping are read from its jobs, of which there is one at least. -/
theorem fromDocument_reads (h : fromDocument (.hash entries) = .ok rules) :
    (Yaml.hash entries).jobList ≠ [] ∧ ∃ common : CommonRules,
      common.change = orDefault (extractList ((Yaml.hash entries).get "on") "change") ∧
      common.ignore = orDefault (extractList ((Yaml.hash entries).get "on") "ignore") ∧
      List.Forall₂ (fun job rule => ruleFromWithCommon job common = .ok rule) (Yaml.hash entries).jobList rules := by
  obtain ⟨-, -, jobs, hjobs, -, -, common, hcommon, policy, -, hparse⟩ :=
    (parseHashFormat_eq_ok _ _ _).mp h
  obtain ⟨hget, hne⟩ := jobsOf_eq_ok.mp hjobs
  obtain ⟨hchange, hignore⟩ := extractCommonRules_eq hcommon
  have hlist : (Yaml.hash entries).jobList = jobs := by
    rw [Yaml.jobList, hget]
  rw [hlist]
  exact ⟨hne, { common with outputPolicy := policy }, hchange, hignore, parseJobs_reads hparse⟩

/-- A rule that is read from legible values reflects them. -/
theorem Rules.reflects_of_legible {on job : Yaml} {common : CommonRules} {rule : Rules}
    (hchange : common.change = orDefault (extractList on "change"))
    (hignore : common.ignore = orDefault (extractList on "ignore"))
    (honChange : (on.declared "change").isSome = true) (honIgnore : (on.declared "ignore").isSome = true)
    (hjob : job.LegibleJob) (hrule : ruleFromWithCommon job common = .ok rule) : rule.Reflects on job := by
  obtain ⟨hrun, hwatch, hignored, hinit⟩ := ruleFromWithCommon_reads hrule
  obtain ⟨commands, hcommands⟩ := Option.isSome_iff_exists.mp hjob.run
  obtain ⟨change, hjobChange⟩ := Option.isSome_iff_exists.mp hjob.change
  obtain ⟨ignore, hjobIgnore⟩ := Option.isSome_iff_exists.mp hjob.ignore
  obtain ⟨flag, hflag⟩ := Option.isSome_iff_exists.mp hjob.runOnInit
  obtain ⟨commonChange, honChange⟩ := Option.isSome_iff_exists.mp honChange
  obtain ⟨commonIgnore, honIgnore⟩ := Option.isSome_iff_exists.mp honIgnore
  refine ⟨?_, ⟨commonChange, change, honChange, hjobChange, ?_⟩, ⟨commonIgnore, ignore, honIgnore, hjobIgnore, ?_⟩, ?_⟩
  · rw [hcommands, extractList_eq_declared hcommands hrun]
  · rw [hwatch, hchange, orDefault_declared honChange, orDefault_declared hjobChange]
    exact merged_mergePatterns commonChange change
  · rw [hignored, hignore, orDefault_declared honIgnore, orDefault_declared hjobIgnore]
    exact merged_mergePatterns commonIgnore ignore
  · rw [hflag, hinit, extractBool_declared hflag]

/-- What a rule reflects is legible. -/
theorem Rules.Reflects.legible {on job : Yaml} {rule : Rules} (h : rule.Reflects on job) :
    (on.declared "change").isSome = true ∧ (on.declared "ignore").isSome = true ∧ job.LegibleJob := by
  obtain ⟨common, change, honChange, hchange, -⟩ := h.watchPatterns
  obtain ⟨common', ignore, honIgnore, hignore, -⟩ := h.ignorePatterns
  refine ⟨by rw [honChange]; rfl, by rw [honIgnore]; rfl, ?_, by rw [hchange]; rfl, by rw [hignore]; rfl, ?_⟩
  · rw [h.commands]
    rfl
  · rw [h.runOnInit]
    rfl

/-- What the rules of a document reflect is legible, if it has a job. -/
theorem Yaml.ReflectedBy.legible {document : Yaml} (h : document.ReflectedBy rules) (hne : document.jobList ≠ []) :
    document.Legible := by
  have hall : ∀ job ∈ document.jobList, ((document.get "on").declared "change").isSome = true ∧
      ((document.get "on").declared "ignore").isSome = true ∧ job.LegibleJob :=
    ((List.forall₂_and_left _ _).mp (h.imp fun job rule hrule => ⟨hrule.legible, hrule⟩)).1
  obtain ⟨job, jobs, hjobs⟩ := List.exists_cons_of_ne_nil hne
  have hfirst := hall job (by rw [hjobs]; exact List.mem_cons_self)
  exact ⟨hfirst.1, hfirst.2.1, fun job hmem => (hall job hmem).2.2⟩

end Document

/-- The rules of an accepted document reflect what it declares exactly when every command, pattern and flag
    it declares has the kind that is expected. -/
theorem declared_reflected_iff (entries : List (Yaml × Yaml)) (rules : List Rules)
    (h : fromDocument (.hash entries) = .ok rules) :
    (Yaml.hash entries).ReflectedBy rules ↔ (Yaml.hash entries).Legible := by
  obtain ⟨hne, common, hchange, hignore, hread⟩ := fromDocument_reads h
  constructor
  · intro hreflected
    exact hreflected.legible hne
  · intro hlegible
    refine ((List.forall₂_and_left _ _).mpr ⟨hlegible.jobs, hread⟩).imp ?_
    rintro job rule ⟨hjob, hrule⟩
    exact Rules.reflects_of_legible hchange hignore hlegible.change hlegible.ignore hjob hrule

/-- A job that declares its command and its pattern as texts. -/
def plainRun : List (Yaml × Yaml) :=
  [(.string "jobs", .array [.hash [(.string "name", .string "build"), (.string "run", .string "make"),
    (.string "change", .array [.string "src/**"])]])]

theorem declared_reflected_plain :
    (Yaml.hash plainRun).ReflectedBy [{ name := "build", commands := ["make"], watchPatterns := ["src/**"] }]
      ↔ (Yaml.hash plainRun).Legible :=
  declared_reflected_iff plainRun [{ name := "build", commands := ["make"], watchPatterns := ["src/**"] }]
    (by decide +kernel)

/-- A list of commands with a number in it. -/
def numberedRun : List (Yaml × Yaml) :=
  [(.string "jobs", .array [.hash [(.string "name", .string "build"),
    (.string "run", .array [.string "make", .integer 5]), (.string "change", .string "src/**")]])]

/-- The number becomes a command that nobody has written. -/
theorem placeholder_command :
    ¬ ∀ (entries : List (Yaml × Yaml)) (rules : List Rules), fromDocument (.hash entries) = .ok rules →
      (Yaml.hash entries).ReflectedBy rules := by
  intro h
  have hreflected := h numberedRun
    [{ name := "build", commands := ["make", "_invalid_value_"], watchPatterns := ["src/**"] }] (by decide +kernel)
  have hlegible := hreflected.legible (by decide +kernel)
  have hall : ((Yaml.hash numberedRun).jobList.all fun job => (job.declared "run").isSome) = false := by
    decide +kernel
  rw [List.all_eq_true.mpr fun job hmem => (hlegible.jobs job hmem).run] at hall
  cases hall

end Funzzy
