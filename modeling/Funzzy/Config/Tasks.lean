import Funzzy.Config.Readers

/-! Tasks of a legacy list, read as jobs (`config.rs`).

    `parse_hash_format` reads a job by other rules than `rule_from` a task: it knows its keys, merges its
    patterns with the common ones and takes properties that a task ignores. `Yaml.Portable` is where the two
    agree. -/

namespace Funzzy

open Fallible

/-- Some entry of the mapping has the key, be it without a value. -/
def hasKey (key : String) (entries : List (Yaml × Yaml)) : Bool := entries.any fun entry => entry.1.isString key

/-- The task is read alike as a job: its keys are those of a job, the keys a task ignores say nothing, and no
    pattern stands twice. -/
structure Yaml.Portable (task : Yaml) : Prop where
  keys : ∀ entries, task = .hash entries → unknownKey (propertyNames .job) entries = none
  service : task.get "service" = .badValue ∨ task.get "service" = .boolean false
  output : task.get "output" = .badValue ∨ task.get "output" = .string "inherit"
  change : (orDefault (extractList task "change")).Nodup
  ignore : (orDefault (extractList task "ignore")).Nodup

/-- The names of tasks. -/
def taskNames (tasks : List Yaml) : List String := tasks.filterMap fun task => (task.get "name").asStr?

/-! ### Keys -/

theorem isBad_iff {yaml : Yaml} : yaml.isBad = true ↔ yaml = .badValue := by
  cases yaml with
  | badValue => exact iff_of_true rfl rfl
  | _ => exact iff_of_false (by rintro ⟨⟩) (by rintro ⟨⟩)

theorem hasKey_iff {key : String} {entries : List (Yaml × Yaml)} :
    hasKey key entries = true ↔ ∃ value, (Yaml.string key, value) ∈ entries := by
  unfold hasKey
  rw [List.any_eq_true]
  constructor
  · rintro ⟨⟨name, value⟩, hentry, hkey⟩
    cases name <;> rw [Yaml.isString] at hkey <;> try exact absurd hkey Bool.false_ne_true
    obtain rfl := beq_iff_eq.mp hkey
    exact ⟨value, hentry⟩
  · rintro ⟨value, hentry⟩
    exact ⟨_, hentry, beq_self_eq_true key⟩

theorem unknownKey_eq_none {allowed : List String} {entries : List (Yaml × Yaml)} :
    unknownKey allowed entries = none ↔ ∀ key, hasKey key entries = true → key ∈ allowed := by
  unfold unknownKey
  rw [List.find?_eq_none]
  simp only [Bool.not_eq_true', Bool.not_eq_false, List.contains_iff_mem, List.mem_filterMap, hasKey_iff]
  constructor
  · rintro h key ⟨value, hentry⟩
    exact h key ⟨_, hentry, rfl⟩
  · rintro h key ⟨⟨name, value⟩, hentry, hname⟩
    cases name <;> rw [Yaml.asStr?] at hname <;> cases hname
    exact h key ⟨value, hentry⟩

theorem hasKey_of_get {key : String} {entries : List (Yaml × Yaml)}
    (h : ((Yaml.hash entries).get key).isBad = false) : hasKey key entries = true := by
  cases hfind : entries.find? fun entry => entry.1.isString key with
  | none =>
    rw [Yaml.get, hfind] at h
    exact absurd h.symm Bool.false_ne_true
  | some entry =>
    have hkey : entry.1.isString key = true := List.find?_some (p := fun entry : Yaml × Yaml => entry.1.isString key) hfind
    exact List.any_eq_true.mpr ⟨entry, List.mem_of_find?_eq_some hfind, hkey⟩

theorem get_of_hasKey_false {key : String} {entries : List (Yaml × Yaml)} (h : hasKey key entries = false) :
    (Yaml.hash entries).get key = .badValue := by
  have hfind : (entries.find? fun entry => entry.1.isString key) = none := by
    rw [List.find?_eq_none]
    intro entry hentry
    exact Bool.not_eq_true _ ▸ List.any_eq_false.mp h entry hentry
  rw [Yaml.get, hfind]
  rfl

/-! ### Patterns -/

theorem ensureGlobOnly_eq_ok {patterns result : List String} {fieldName : String} :
    ensureGlobOnly patterns fieldName = .ok result ↔ patterns.any isLua = false ∧ result = patterns := by
  unfold ensureGlobOnly
  rw [guard_eq_ok (by rintro ⟨⟩), Bool.not_eq_true, Except.ok.injEq, eq_comm (a := patterns)]

theorem mem_mergePatterns {common task : List String} {pattern : String} :
    pattern ∈ mergePatterns common task ↔ pattern ∈ common ∨ pattern ∈ task := by
  induction task generalizing common with
  | nil => simp [mergePatterns]
  | cons first rest ih =>
    have hstep : mergePatterns common (first :: rest) =
        mergePatterns (if common.contains first then common else common ++ [first]) rest := rfl
    rw [hstep, ih]
    split
    · next h =>
      have hfirst : first ∈ common := List.contains_iff_mem.mp h
      constructor
      · rintro (h | h)
        · exact .inl h
        · exact .inr (List.mem_cons_of_mem _ h)
      · rintro (h | h)
        · exact .inl h
        · rcases List.mem_cons.mp h with rfl | h
          · exact .inl hfirst
          · exact .inr h
    · rw [List.mem_append, List.mem_singleton, List.mem_cons, or_assoc]

theorem nodup_mergePatterns {common task : List String} (h : common.Nodup) :
    (mergePatterns common task).Nodup := by
  induction task generalizing common with
  | nil => exact h
  | cons first rest ih =>
    refine ih ?_
    change (if common.contains first then common else common ++ [first]).Nodup
    split
    · exact h
    · next hfirst =>
      have hfirst : first ∉ common := fun hmem => hfirst (List.contains_iff_mem.mpr hmem)
      exact List.nodup_append.mpr ⟨h, List.nodup_singleton _, by
        rintro a ha b hb rfl
        exact hfirst (List.mem_singleton.mp hb ▸ ha)⟩

theorem mergePatterns_eq_append {common task : List String} (hnew : ∀ pattern ∈ task, pattern ∉ common)
    (hnodup : task.Nodup) : mergePatterns common task = common ++ task := by
  induction task generalizing common with
  | nil => exact (List.append_nil _).symm
  | cons first rest ih =>
    obtain ⟨hfirst, hrest⟩ := List.nodup_cons.mp hnodup
    have hcontains : common.contains first = false := by
      rw [← Bool.not_eq_true, List.contains_iff_mem]
      exact hnew first List.mem_cons_self
    have hstep : mergePatterns common (first :: rest) = mergePatterns (common ++ [first]) rest := by
      show mergePatterns (if common.contains first then common else common ++ [first]) rest = _
      rw [hcontains]
      rfl
    rw [hstep, ih _ hrest, List.append_assoc, List.singleton_append]
    intro pattern hpattern hmem
    rcases List.mem_append.mp hmem with h | h
    · exact hnew pattern (List.mem_cons_of_mem _ hpattern) h
    · exact hfirst (List.mem_singleton.mp h ▸ hpattern)

/-- Merging keeps a list of patterns exactly when none stands twice. -/
theorem mergePatterns_nil_iff {task : List String} : mergePatterns [] task = task ↔ task.Nodup := by
  constructor
  · intro h
    rw [← h]
    exact nodup_mergePatterns List.nodup_nil
  · intro h
    exact mergePatterns_eq_append (fun _ _ => List.not_mem_nil) h

theorem any_mergePatterns (task : List String) : (mergePatterns [] task).any isLua = task.any isLua := by
  rw [Bool.eq_iff_iff, List.any_eq_true, List.any_eq_true]
  refine exists_congr fun pattern => and_congr_left fun _ => ?_
  rw [mem_mergePatterns, or_iff_right List.not_mem_nil]

/-! ### Tasks and jobs -/

/-- What the readers of a task and of a job take from it alike. -/
structure TaskRead (task : Yaml) (rule : Rules) : Prop where
  name : extractString task "name" = .ok rule.name
  commands : extractList task "run" = .ok rule.commands
  change : (orDefault (extractList task "change")).any isLua = false
  ignore : (orDefault (extractList task "ignore")).any isLua = false
  parallel : extractOptionalString task "parallel" = .ok rule.parallel
  cwd : extractOptionalString task "cwd" = .ok rule.cwd
  environment : ∃ environment, extractOptionalStringMap task "env" = .ok environment ∧
    rule.environment = environment.entries
  runOnInit : rule.runOnInit = extractBool task "run_on_init"
  rest : rule.argv = none ∧ rule.inherited = []

/-- The rule of a task. -/
theorem ruleFrom_eq_ok {task : Yaml} {rule : Rules} :
    ruleFrom task = .ok rule ↔ (task.get "recovery").isBad = true ∧ TaskRead task rule ∧
      rule.watchPatterns = orDefault (extractList task "change") ∧
      rule.ignorePatterns = orDefault (extractList task "ignore") ∧
      rule.recovery = none ∧ rule.service = false ∧ rule.output = .inherit := by
  unfold ruleFrom
  rw [guard_eq_ok (by rintro ⟨⟩)]
  simp only [bind_eq_ok, ensureGlobOnly_eq_ok, Bool.not_eq_true', Bool.not_eq_false]
  refine and_congr_right fun _ => ?_
  constructor
  · rintro ⟨name, hname, commands, hcommands, _, ⟨hchange, rfl⟩, _, ⟨hignore, rfl⟩, parallel, hparallel, cwd, hcwd,
      environment, henvironment, ⟨⟩⟩
    exact ⟨⟨hname, hcommands, hchange, hignore, hparallel, hcwd, ⟨environment, henvironment, rfl⟩, rfl, rfl, rfl⟩,
      rfl, rfl, rfl, rfl, rfl⟩
  · obtain ⟨name, commands, recovery, argv, watchPatterns, ignorePatterns, runOnInit, parallel, cwd, environment,
      inherited, output, service⟩ := rule
    rintro ⟨⟨hname, hcommands, hchange, hignore, hparallel, hcwd, ⟨values, henvironment, rfl⟩, rfl, rfl, rfl⟩,
      rfl, rfl, rfl, rfl, rfl⟩
    exact ⟨name, hname, commands, hcommands, _, ⟨hchange, rfl⟩, _, ⟨hignore, rfl⟩, parallel, hparallel, cwd, hcwd,
      values, henvironment, rfl⟩

/-- The rule of a job that inherits nothing. -/
theorem ruleFromWithCommon_eq_ok {task : Yaml} {rule : Rules} :
    ruleFromWithCommon task {} = .ok rule ↔ validateJob task = .ok () ∧ TaskRead task rule ∧
      rule.watchPatterns = mergePatterns [] (orDefault (extractList task "change")) ∧
      rule.ignorePatterns = mergePatterns [] (orDefault (extractList task "ignore")) ∧
      recoveryCommandsFromYaml task rule.name = .ok rule.recovery ∧
      serviceOf task rule.name = .ok rule.service ∧ ¬ (rule.service = true ∧ rule.recovery.isSome = true) ∧
      outputOf task {} rule.name = .ok rule.output := by
  unfold ruleFromWithCommon
  simp only [bind_eq_ok, ensureGlobOnly_eq_ok, any_mergePatterns, Unique.exists_iff]
  refine and_congr_right fun _ => ?_
  constructor
  · rintro ⟨name, hname, commands, hcommands, _, ⟨hchange, rfl⟩, _, ⟨hignore, rfl⟩, parallel, hparallel, cwd, hcwd,
      environment, henvironment, recovery, hrecovery, service, hservice, hrule⟩
    rw [guard_eq_ok (by rintro ⟨⟩), Bool.and_eq_true, bind_eq_ok] at hrule
    obtain ⟨hservices, output, houtput, ⟨⟩⟩ := hrule
    exact ⟨⟨hname, hcommands, hchange, hignore, hparallel, hcwd, ⟨environment, henvironment, rfl⟩, rfl, rfl, rfl⟩,
      rfl, rfl, hrecovery, hservice, hservices, houtput⟩
  · obtain ⟨name, commands, recovery, argv, watchPatterns, ignorePatterns, runOnInit, parallel, cwd, environment,
      inherited, output, service⟩ := rule
    rintro ⟨⟨hname, hcommands, hchange, hignore, hparallel, hcwd, ⟨values, henvironment, rfl⟩, rfl, rfl, rfl⟩,
      rfl, rfl, hrecovery, hservice, hservices, houtput⟩
    refine ⟨name, hname, commands, hcommands, _, ⟨hchange, rfl⟩, _, ⟨hignore, rfl⟩, parallel, hparallel, cwd, hcwd,
      values, henvironment, recovery, hrecovery, service, hservice, ?_⟩
    rw [guard_eq_ok (by rintro ⟨⟩), Bool.and_eq_true, bind_eq_ok]
    exact ⟨hservices, output, houtput, rfl⟩

theorem validateJob_eq_ok {task : Yaml} : validateJob task = .ok () ↔
    ∀ entries, task = .hash entries → unknownKey (propertyNames .job) entries = none := by
  cases task with
  | hash entries =>
    rw [validateJob]
    constructor
    · rintro h _ ⟨⟩
      revert h
      cases unknownKey (propertyNames .job) entries with
      | none => exact fun _ => rfl
      | some key => rintro ⟨⟩
    · intro h
      rw [h entries rfl]
  | _ => exact iff_of_true rfl (by rintro _ ⟨⟩)

theorem serviceOf_eq_false {task : Yaml} {name : String} : serviceOf task name = .ok false ↔
    task.get "service" = .badValue ∨ task.get "service" = .boolean false := by
  unfold serviceOf
  cases task.get "service" with
  | badValue => exact iff_of_true rfl (.inl rfl)
  | boolean value => cases value <;> simp
  | _ => exact iff_of_false (by rintro ⟨⟩) (by rintro (⟨⟨⟩⟩ | ⟨⟨⟩⟩))

theorem outputPolicyOf_eq_inherit {raw : String} : outputPolicyOf raw = some .inherit ↔ raw = "inherit" := by
  unfold outputPolicyOf
  split
  · exact iff_of_true rfl rfl
  · exact iff_of_false (by rintro ⟨⟩) (by decide)
  · exact iff_of_false (by rintro ⟨⟩) (by decide)
  · exact iff_of_false (by rintro ⟨⟩) (by decide)
  · next hinherit _ _ _ => exact iff_of_false (by rintro ⟨⟩) hinherit

theorem outputOf_eq_inherit {task : Yaml} {name : String} : outputOf task {} name = .ok .inherit ↔
    task.get "output" = .badValue ∨ task.get "output" = .string "inherit" := by
  unfold outputOf extractOptionalString
  rw [bind_eq_ok]
  cases task.get "output" with
  | badValue => exact iff_of_true ⟨none, rfl, rfl⟩ (.inl rfl)
  | string raw =>
    simp only [Yaml.string.injEq, reduceCtorEq, false_or]
    cases hblank : isBlank raw with
    | true =>
      refine iff_of_false (by rintro ⟨_, ⟨⟩, -⟩) ?_
      rintro rfl
      exact absurd hblank (by decide +kernel)
    | false =>
      rw [← outputPolicyOf_eq_inherit]
      constructor
      · rintro ⟨_, ⟨⟩, h⟩
        simp only at h
        cases hpolicy : outputPolicyOf raw with
        | none =>
          rw [hpolicy] at h
          cases h
        | some policy =>
          rw [hpolicy] at h
          cases h
          rfl
      · intro h
        refine ⟨some raw, rfl, ?_⟩
        simp only [h]
        rfl
  | _ => exact iff_of_false (by rintro ⟨_, ⟨⟩, -⟩) (by rintro (⟨⟨⟩⟩ | ⟨⟨⟩⟩))

/-- A task has the same rule as a job exactly when it is portable. -/
theorem portable_iff {task : Yaml} {rule : Rules} (h : ruleFrom task = .ok rule) :
    ruleFromWithCommon task {} = .ok rule ↔ task.Portable := by
  obtain ⟨hrecovery, hread, hchange, hignore, hnone, hservice, houtput⟩ := ruleFrom_eq_ok.mp h
  have hcommands : recoveryCommandsFromYaml task rule.name = .ok rule.recovery := by
    rw [recoveryCommandsFromYaml, isBad_iff.mp hrecovery, hnone]
  rw [ruleFromWithCommon_eq_ok, validateJob_eq_ok, hservice, houtput, hchange, hignore, serviceOf_eq_false,
    outputOf_eq_inherit, eq_comm (b := mergePatterns [] (orDefault (extractList task "change"))),
    eq_comm (b := mergePatterns [] (orDefault (extractList task "ignore"))), mergePatterns_nil_iff,
    mergePatterns_nil_iff]
  constructor
  · rintro ⟨hkeys, -, hchanged, hignored, -, hserved, -, hshown⟩
    exact ⟨hkeys, hserved, hshown, hchanged, hignored⟩
  · rintro ⟨hkeys, hserved, hshown, hchanged, hignored⟩
    exact ⟨hkeys, hread, hchanged, hignored, hcommands, hserved, (fun hboth => nomatch hboth.1), hshown⟩

/-! ### A list of tasks -/

theorem parseItems_cons_eq_ok {item : Yaml} {items : List Yaml} {rules : List Rules} :
    parseItems (item :: items) = .ok rules ↔
      ∃ first, (if item.isHash && !(item.get "tasks").isBad then parseHashFormat item true
        else (ruleFrom item).map fun rule => [rule]) = .ok first ∧
      ∃ others, parseItems items = .ok others ∧ rules = first ++ others := by
  have hpure : ∀ first others : List Rules,
      (pure (first ++ others) : Except FzzError (List Rules)) = .ok rules ↔ rules = first ++ others := by
    intro first others
    exact (Except.ok.injEq _ _).to_iff.trans eq_comm
  rw [parseItems]
  split <;> simp only [bind_eq_ok, hpure]

theorem parseJobs_cons_eq_ok {hasTasks : Bool} {common : CommonRules} {job : Yaml} {jobs : List Yaml}
    {seen : List String} {rules : List Rules} :
    parseJobs hasTasks common (job :: jobs) seen = .ok rules ↔
      ¬ (hasTasks = true ∧ (job.get "recovery").isBad = false) ∧
      ∃ rule, ruleFromWithCommon job common = .ok rule ∧ rule.name ∉ seen ∧
      ∃ others, parseJobs hasTasks common jobs (rule.name :: seen) = .ok others ∧ rules = rule :: others := by
  rw [parseJobs, guard_eq_ok (by rintro ⟨⟩), Bool.and_eq_true, Bool.not_eq_true', bind_eq_ok]
  refine and_congr_right fun _ => exists_congr fun rule => and_congr_right fun _ => ?_
  rw [guard_eq_ok (by rintro ⟨⟩), List.contains_iff_mem, bind_eq_ok]
  refine and_congr_right fun _ => exists_congr fun others => and_congr_right fun _ => ?_
  exact (Except.ok.injEq _ _).to_iff.trans eq_comm

/-- A group has the key `tasks`, which no job has. -/
theorem group_unportable {item : Yaml} (h : (item.isHash && !(item.get "tasks").isBad) = true) :
    ∃ entries, item = .hash entries ∧ unknownKey (propertyNames .job) entries ≠ none := by
  cases item with
  | hash entries =>
    refine ⟨entries, rfl, fun hnone => ?_⟩
    have htasks : hasKey "tasks" entries = true := hasKey_of_get (by simpa [Yaml.isHash] using h)
    exact absurd (unknownKey_eq_none.mp hnone _ htasks) (by decide)
  | _ => cases h

theorem extractString_eq_ok {yaml : Yaml} {prop text : String} :
    extractString yaml prop = .ok text ↔ yaml.get prop = .string text := by
  unfold extractString
  cases yaml.get prop with
  | string item =>
    constructor
    · rintro ⟨⟩
      rfl
    · rintro ⟨⟩
      rfl
  | _ => exact iff_of_false (by rintro ⟨⟩) (by rintro ⟨⟩)

theorem jobsOf_eq_ok {yaml : Yaml} {key : String} {jobs : List Yaml} :
    jobsOf yaml key false = .ok jobs ↔ yaml.get key = .array jobs ∧ jobs ≠ [] := by
  unfold jobsOf
  cases yaml.get key with
  | array items =>
    cases items with
    | nil => exact iff_of_false (by rintro ⟨⟩) (by rintro ⟨⟨⟩, h⟩; exact h rfl)
    | cons item items =>
      constructor
      · rintro ⟨⟩
        exact ⟨rfl, List.cons_ne_nil _ _⟩
      · rintro ⟨⟨⟩, -⟩
        rfl
  | _ => exact iff_of_false (by rintro ⟨⟩) (by rintro ⟨⟨⟩, -⟩)

/-- Read as jobs, items of a legacy list give the same rules exactly when all of them are portable tasks with
    names of their own. -/
theorem parseJobs_of_parseItems {items : List Yaml} {rules : List Rules} {seen : List String}
    (h : parseItems items = .ok rules) : parseJobs false {} items seen = .ok rules ↔
      (∀ item ∈ items, item.Portable) ∧ (taskNames items).Nodup ∧ ∀ name ∈ taskNames items, name ∉ seen := by
  induction items generalizing rules seen with
  | nil =>
    cases h
    exact iff_of_true rfl ⟨by rintro _ ⟨⟩, List.nodup_nil, by rintro _ ⟨⟩⟩
  | cons item items ih =>
    obtain ⟨first, hfirst, others, hothers, rfl⟩ := parseItems_cons_eq_ok.mp h
    rw [parseJobs_cons_eq_ok, List.forall_mem_cons]
    split at hfirst
    · next hgroup =>
      obtain ⟨entries, rfl, hunknown⟩ := group_unportable hgroup
      refine iff_of_false ?_ fun hall => hunknown (hall.1.1.keys entries rfl)
      rintro ⟨-, rule, hrule, -⟩
      exact hunknown (validateJob_eq_ok.mp (ruleFromWithCommon_eq_ok.mp hrule).1 entries rfl)
    · cases hrule : ruleFrom item with
      | error err =>
        rw [hrule] at hfirst
        cases hfirst
      | ok rule =>
        rw [hrule] at hfirst
        cases hfirst
        have hname : (item.get "name").asStr? = some rule.name := by
          rw [extractString_eq_ok.mp (ruleFrom_eq_ok.mp hrule).2.1.name, Yaml.asStr?]
        have hnames : taskNames (item :: items) = rule.name :: taskNames items := List.filterMap_cons_some hname
        rw [hnames, List.nodup_cons, List.forall_mem_cons]
        constructor
        · rintro ⟨-, rule', hjob, hnew, others', hjobs, heq⟩
          obtain ⟨rfl, rfl⟩ := List.cons.inj heq
          obtain ⟨hportable, hnodup, hseen⟩ := (ih hothers).mp hjobs
          refine ⟨⟨(portable_iff hrule).mp hjob, hportable⟩, ⟨fun hmem => ?_, hnodup⟩, hnew, fun name hmem => ?_⟩
          · exact hseen _ hmem List.mem_cons_self
          · exact fun hold => hseen _ hmem (List.mem_cons_of_mem _ hold)
        · rintro ⟨⟨hitem, hportable⟩, ⟨hfresh, hnodup⟩, hnew, hseen⟩
          refine ⟨(fun hboth => nomatch hboth.1), rule, (portable_iff hrule).mpr hitem, hnew, others,
            (ih hothers).mpr ⟨hportable, hnodup, fun name hmem => ?_⟩, rfl⟩
          rw [List.mem_cons, not_or]
          exact ⟨fun heq => hfresh (heq ▸ hmem), hseen name hmem⟩

end Funzzy
