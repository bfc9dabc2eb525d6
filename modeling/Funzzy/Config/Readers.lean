import Funzzy.Config.Yaml
import Funzzy.Lib.Fallible
import Funzzy.Lib.Lines

/-! The readers of a configuration text (`config.rs`, `rules.rs`).

    `fromYaml` reads the rules, and each policy has a reader of its own that loads the text again. The
    scanner, `load`, and the compiler of glob patterns, `compile`, are libraries and parameters here. -/

namespace Funzzy

/-! ### Vocabulary -/

/-- Where a property lives. -/
inductive Owner where | root | on | execution | hooks | job
  deriving DecidableEq

/-- `property_names` -/
def propertyNames : Owner → List String
  | .root => ["on", "execution", "hooks", "jobs"]
  | .on => ["change", "ignore", "socket", "debounce", "watch_backend", "poll_interval", "respect_gitignore"]
  | .execution => ["concurrency", "output", "recovery_policy"]
  | .hooks => ["success", "failure", "close"]
  | .job => ["name", "run", "recovery", "change", "ignore", "run_on_init", "parallel", "cwd", "env", "service",
      "output"]

def invalidConfig {α : Type} (msg : String) (hint : Option String) : Except FzzError α :=
  .error (.invalidConfigError msg none hint)

/-- `unwrap_or_default` -/
def orDefault {ε α : Type} : Except ε (List α) → List α
  | .ok values => values
  | .error _ => []

/-! ### Rules -/

/-- A pattern that asks for the retired scripting language. -/
def isLua (pattern : String) : Bool :=
  let trimmed := trimStart pattern.toList
  trimmed == ":lua".toList || ":lua ".toList.isPrefixOf trimmed

/-- `ensure_glob_only` -/
def ensureGlobOnly (patterns : List String) (fieldName : String) : Except FzzError (List String) :=
  if patterns.any isLua then
    invalidConfig ("Property '" ++ fieldName
      ++ "' no longer accepts ':lua' entries. Only glob patterns are supported.")
      (some "Remove ':lua' entries and use plain glob patterns instead.")
  else .ok patterns

/-- `rule_from`: a task of a legacy list. -/
def ruleFrom (yaml : Yaml) : Except FzzError Rules := do
  if !(yaml.get "recovery").isBad then
    invalidConfig "Property 'recovery' is supported only in preferred V2 jobs"
      (some "Move this task into a `jobs:` configuration before adding recovery.")
  let name ← extractString yaml "name"
  let commands ← extractList yaml "run"
  let watchPatterns ← ensureGlobOnly (orDefault (extractList yaml "change")) "change"
  let ignorePatterns ← ensureGlobOnly (orDefault (extractList yaml "ignore")) "ignore"
  let runOnInit := extractBool yaml "run_on_init"
  let parallel ← extractOptionalString yaml "parallel"
  let cwd ← extractOptionalString yaml "cwd"
  let environment ← extractOptionalStringMap yaml "env"
  pure { name, commands, watchPatterns, ignorePatterns, runOnInit, parallel, cwd,
         environment := environment.entries }

/-- `CommonRules` -/
structure CommonRules where
  change : List String := []
  ignore : List String := []
  outputPolicy : OutputPolicy := .inherit
  deriving DecidableEq

/-- The first text key of a mapping that is not allowed. -/
def unknownKey (allowed : List String) (properties : List (Yaml × Yaml)) : Option String :=
  (properties.filterMap fun entry => entry.1.asStr?).find? fun key => !allowed.contains key

/-- `validate_section`; grouped tasks may still declare policies under `on`. -/
def validateSection (root : Yaml) (name : String) (owner : Owner) : Except FzzError Unit :=
  match root.get name with
  | .badValue => .ok ()
  | .hash properties =>
    let allowed := propertyNames owner ++
      if owner = .on ∧ (root.get "tasks").isBad = false then
        ["concurrency", "output", "success", "failure", "close"]
      else []
    match unknownKey allowed properties with
    | some key => invalidConfig ("Invalid property '" ++ name ++ "." ++ key ++ "'. Only "
        ++ ", ".intercalate allowed ++ " are allowed.") none
    | none => .ok ()
  | _ => invalidConfig ("Property '" ++ name ++ "' must be an object") none

/-- `validate_v2_sections` -/
def validateV2Sections (root : Yaml) : Except FzzError Unit :=
  match root with
  | .hash properties => do
    let rootAllowed := propertyNames .root ++ ["tasks"]
    match unknownKey rootAllowed properties with
    | some key => invalidConfig ("Invalid property '" ++ key ++ "' at configuration root. Only "
        ++ ", ".intercalate rootAllowed ++ " are allowed.") none
    | none => pure ()
    validateSection root "on" .on
    validateSection root "execution" .execution
    validateSection root "hooks" .hooks
  | _ => .ok ()

/-- The section execution policies are read from; that of grouped tasks without one is `on`. -/
def executionSection (root : Yaml) : Yaml :=
  if (root.get "execution").isBad && !(root.get "tasks").isBad then root.get "on" else root.get "execution"

/-- The section hooks are read from, likewise. -/
def hooksSection (root : Yaml) : Yaml :=
  if (root.get "hooks").isBad && !(root.get "tasks").isBad then root.get "on" else root.get "hooks"

/-- The output policy of a name. -/
def outputPolicyOf : String → Option OutputPolicy
  | "inherit" => some .inherit
  | "quiet" => some .quiet
  | "capture" => some .capture
  | "show-on-failure" => some .showOnFailure
  | _ => none

/-- `output_policy_from_root` -/
def outputPolicyFromRoot (root : Yaml) : Except FzzError OutputPolicy :=
  -- an absent section has no `output` either
  match (executionSection root).get "output" with
  | .badValue => .ok .inherit
  | .string raw =>
    match outputPolicyOf raw with
    | some policy => .ok policy
    | none => invalidConfig ("Property 'execution.output' has invalid value '" ++ raw
        ++ "': expected inherit, quiet, capture, or show-on-failure") none
  | _ => invalidConfig "Property 'execution.output' must be a string" none

/-- `extract_common_rules` -/
def extractCommonRules (yaml : Yaml) : Except FzzError CommonRules :=
  match yaml with
  | .badValue => .ok {}
  | .hash _ => do
    let change ← ensureGlobOnly (orDefault (extractList yaml "change")) "on.change"
    let ignore ← ensureGlobOnly (orDefault (extractList yaml "ignore")) "on.ignore"
    pure { change, ignore }
  | _ => invalidConfig ("Configuration file is invalid. 'on' must be a Hash/Object, got: " ++ getType yaml
      ++ "\n```yaml\n" ++ yamlToString yaml 0 ++ "\n```")
      (some "Example:\non:\n  change: [\"src/**\"]\n  ignore: [\"**/*.log\"]")

/-- `merge_patterns`: new patterns behind the common ones, each once. -/
def mergePatterns (common task : List String) : List String :=
  task.foldl (fun merged pattern => if merged.contains pattern then merged else merged ++ [pattern]) common

/-- `inherited_patterns` -/
def inheritedPatterns (common : CommonRules) : List String :=
  mergePatterns common.change common.ignore

/-- The loop of `recovery_commands_from_yaml`, at the command with the number `index`. -/
def recoveryCommands (name : String) : List Yaml → Nat → Except FzzError (List String)
  | [], _ => .ok []
  | command :: rest, index =>
    match command.asStr? with
    | none => invalidConfig ("Job '" ++ name ++ "' recovery command " ++ toString index
        ++ " must be a string") none
    | some command =>
      if isBlank command then
        invalidConfig ("Job '" ++ name ++ "' recovery command " ++ toString index
          ++ " must be non-empty") none
      else do
        let parsed ← recoveryCommands name rest (index + 1)
        pure (command :: parsed)

/-- `recovery_commands_from_yaml` -/
def recoveryCommandsFromYaml (yaml : Yaml) (name : String) : Except FzzError (Option (List String)) :=
  match yaml.get "recovery" with
  | .badValue => .ok none
  | .string command =>
    if isBlank command then
      invalidConfig ("Job '" ++ name ++ "' recovery must be a non-empty command") none
    else .ok (some [command])
  | .array [] => invalidConfig ("Job '" ++ name ++ "' recovery must contain at least one command") none
  | .array commands => do
    let parsed ← recoveryCommands name commands 1
    pure (some parsed)
  | _ => invalidConfig ("Job '" ++ name
      ++ "' recovery must be a command string or ordered string list") none

/-- The job-level allowlist of `rule_from_with_common`. -/
def validateJob (yaml : Yaml) : Except FzzError Unit :=
  match yaml with
  | .hash entries =>
    match unknownKey (propertyNames .job) entries with
    | none => .ok ()
    | some key =>
      let name := match extractString yaml "name" with
        | .ok name => name
        | .error _ => "?"
      invalidConfig ("Invalid property '" ++ key ++ "' in job '" ++ name ++ "'. Only "
        ++ ", ".intercalate (propertyNames .job) ++ " are allowed.")
        (some "Each job needs a unique name and a run command; check the property spelling")
  | _ => .ok ()

/-- The `service` of a job. -/
def serviceOf (yaml : Yaml) (name : String) : Except FzzError Bool :=
  match yaml.get "service" with
  | .badValue => .ok false
  | .boolean value => .ok value
  | _ => invalidConfig ("Invalid 'service' value for job '" ++ name ++ "': must be a boolean") none

/-- The `output` of a job. -/
def outputOf (yaml : Yaml) (common : CommonRules) (name : String) : Except FzzError OutputPolicy := do
  match ← extractOptionalString yaml "output" with
  | none => pure common.outputPolicy
  | some raw =>
    match outputPolicyOf raw with
    | some policy => pure policy
    | none => invalidConfig ("Invalid output policy '" ++ raw ++ "' for job '" ++ name
        ++ "': expected inherit, quiet, capture, or show-on-failure") none

/-- `rule_from_with_common` -/
def ruleFromWithCommon (yaml : Yaml) (common : CommonRules) : Except FzzError Rules := do
  validateJob yaml
  let name ← extractString yaml "name"
  let commands ← extractList yaml "run"
  let taskChange := orDefault (extractList yaml "change")
  let taskIgnore := orDefault (extractList yaml "ignore")
  let watchPatterns ← ensureGlobOnly (mergePatterns common.change taskChange) "change"
  let ignorePatterns ← ensureGlobOnly (mergePatterns common.ignore taskIgnore) "ignore"
  let runOnInit := extractBool yaml "run_on_init"
  let parallel ← extractOptionalString yaml "parallel"
  let cwd ← extractOptionalString yaml "cwd"
  let environment ← extractOptionalStringMap yaml "env"
  let recovery ← recoveryCommandsFromYaml yaml name
  let service ← serviceOf yaml name
  if service && recovery.isSome then
    invalidConfig ("Job '" ++ name ++ "' cannot declare recovery when service is true")
      (some "A service has no finite verification boundary; remove `recovery` or `service`.")
  let output ← outputOf yaml common name
  pure { name, commands, watchPatterns, ignorePatterns, runOnInit, parallel, cwd,
         environment := environment.entries, inherited := inheritedPatterns common, output, service, recovery }

/-- `recovery_policy_from_root` -/
def recoveryPolicyFromRoot (root : Yaml) : Except String RecoveryPolicy :=
  let execution := root.get "execution"
  if execution.isBad then .ok .prompt
  else if !(root.get "tasks").isBad && !(execution.get "recovery_policy").isBad then
    .error "Property 'execution.recovery_policy' is supported only in preferred V2 jobs"
  else if !execution.isHash then .error "Property 'execution' must be an object"
  else match execution.get "recovery_policy" with
    | .badValue => .ok .prompt
    | .string value =>
      if value = "prompt" then .ok .prompt
      else if value = "skip" then .ok .skip
      else .error ("Property 'execution.recovery_policy' has invalid value '" ++ value
        ++ "': expected prompt or skip")
    | _ => .error "Property 'execution.recovery_policy' must be prompt or skip"

/-- The loop of `parse_hash_format` over the jobs; names are distinct. -/
def parseJobs (hasTasks : Bool) (common : CommonRules) : List Yaml → List String →
    Except FzzError (List Rules)
  | [], _ => .ok []
  | job :: rest, seen => do
    if hasTasks && !(job.get "recovery").isBad then
      invalidConfig "Property 'recovery' is supported only in preferred V2 jobs"
        (some "Rename 'tasks' to 'jobs' before declaring a recovery.")
    let rule ← ruleFromWithCommon job common
    if seen.contains rule.name then
      invalidConfig ("Configuration file is invalid. Duplicate " ++ (if hasTasks then "task" else "job")
        ++ " name '" ++ rule.name ++ "'")
        (some "Each job needs a unique name; rename one of the duplicates")
    let rules ← parseJobs hasTasks common rest (rule.name :: seen)
    pure (rule :: rules)

/-- An example that some hints end with. -/
def jobsExample : String := "Example:\non:\n  change: [\"src/**\"]\njobs:\n  - name: build\n    run: cargo build"

/-- The list of jobs of a root mapping. -/
def jobsOf (yaml : Yaml) (key : String) (allowEmpty : Bool) : Except FzzError (List Yaml) :=
  match yaml.get key with
  | .array [] =>
    if allowEmpty then .ok []
    else invalidConfig ("Configuration file is invalid. '" ++ key ++ "' cannot be empty")
      (some "Add at least one job with a name and run command")
  | .array jobs => .ok jobs
  | .badValue => invalidConfig ("Configuration file is invalid. When using the 'on' format, you must provide a '"
      ++ key ++ "' array") (some jobsExample)
  | .hash _ => invalidConfig ("Configuration file is invalid. '" ++ key
      ++ "' must be an ordered list, not a mapping — Funzzy job order is semantic (barriers and group "
      ++ "occurrences derive from declaration order)") (some jobsExample)
  | other => invalidConfig ("Configuration file is invalid. '" ++ key ++ "' must be an Array/List, got: "
      ++ getType other ++ "\n```yaml\n" ++ yamlToString other 0 ++ "\n```")
      (some "Make sure '\x7b\x7d' is defined as a list of job objects")

/-- `parse_hash_format` -/
def parseHashFormat (yaml : Yaml) (allowEmpty : Bool) : Except FzzError (List Rules) := do
  let hasJobs := !(yaml.get "jobs").isBad
  let hasTasks := !(yaml.get "tasks").isBad
  if hasJobs && hasTasks then
    invalidConfig ("Configuration file is invalid: use exactly one of 'jobs' (preferred) or 'tasks' "
      ++ "(compatibility), not both") (some jobsExample)
  if hasTasks && !((yaml.get "execution").get "recovery_policy").isBad then
    invalidConfig "Property 'execution.recovery_policy' is supported only in preferred V2 jobs"
      (some "Rename 'tasks' to 'jobs' before configuring recovery policy.")
  let jobs ← jobsOf yaml (if hasJobs then "jobs" else "tasks") allowEmpty
  validateV2Sections yaml
  match recoveryPolicyFromRoot yaml with
  | .ok _ => pure ()
  | .error error => invalidConfig error none
  let common ← extractCommonRules (yaml.get "on")
  let outputPolicy ← outputPolicyFromRoot yaml
  parseJobs hasTasks { common with outputPolicy } jobs []

/-- What a mapping is read to. -/
theorem parseHashFormat_eq_ok (yaml : Yaml) (allowEmpty : Bool) (rules : List Rules) :
    parseHashFormat yaml allowEmpty = .ok rules ↔
      ¬ ((yaml.get "jobs").isBad = false ∧ (yaml.get "tasks").isBad = false) ∧
      ¬ ((yaml.get "tasks").isBad = false ∧ ((yaml.get "execution").get "recovery_policy").isBad = false) ∧
      ∃ jobs, jobsOf yaml (if (yaml.get "jobs").isBad = false then "jobs" else "tasks") allowEmpty = .ok jobs ∧
      validateV2Sections yaml = .ok () ∧ (∃ policy, recoveryPolicyFromRoot yaml = .ok policy) ∧
      ∃ common, extractCommonRules (yaml.get "on") = .ok common ∧
      ∃ outputPolicy, outputPolicyFromRoot yaml = .ok outputPolicy ∧
      parseJobs (!(yaml.get "tasks").isBad) { common with outputPolicy } jobs [] = .ok rules := by
  unfold parseHashFormat
  simp only
  rw [Fallible.guard_eq_ok (by rintro ⟨⟩), Fallible.guard_eq_ok (by rintro ⟨⟩)]
  simp only [Fallible.bind_eq_ok, Bool.and_eq_true, Bool.not_eq_true', Unique.exists_iff]
  refine and_congr_right fun _ => and_congr_right fun _ => exists_congr fun jobs =>
    and_congr_right fun _ => and_congr_right fun _ => ?_
  cases recoveryPolicyFromRoot yaml with
  | error err => exact iff_of_false (by rintro ⟨⟩) (by rintro ⟨⟨policy, ⟨⟩⟩, -⟩)
  | ok policy =>
    rw [and_iff_right ⟨policy, rfl⟩]
    simp only [Fallible.bind_eq_ok]

/-- The items of a legacy list: tasks, and groups of them. -/
def parseItems : List Yaml → Except FzzError (List Rules)
  | [] => .ok []
  | item :: rest => do
    let rules ← if item.isHash && !(item.get "tasks").isBad then parseHashFormat item true
      else (ruleFrom item).map fun rule => [rule]
    let others ← parseItems rest
    pure (rules ++ others)

section Texts

/-- `str::lines`. -/
def strLines (content : String) : List String :=
  (Lines.inclusive '\n' content.toList).map fun line => String.ofList (Lines.stripEnd '\n' '\r' line)

/-- The lines an error is shown with; an index out of bounds gives nothing. -/
def scanContext (lines : List String) (line : Nat) : Option (String × String × String) := do
  let before ← if 1 < line then lines[line - 2]? else some ""
  let error ← if lines.length < line then (if lines = [] then none else lines[lines.length - 1]?)
    else if line = 0 then none else lines[line - 1]?
  let after ← if line < lines.length then lines[line]? else some ""
  pure (before, error, after)

/-- The error of a text that does not scan. -/
def scanFailure (content : String) (err : ScanError) : FzzError :=
  match scanContext (strLines content) err.line with
  | none => .panicked
  | some (before, error, after) => .invalidConfigError
      ("Failed to load configuration at line:\n| " ++ before ++ "\n|>" ++ error ++ "\n| " ++ after) (some err)
      (some "Check for wrong types, any missing quotes for glob pattern or incorrect identation")

variable (load : String → Except ScanError (List Yaml))

/-- The rules of a document. -/
def fromDocument : Yaml → Except FzzError (List Rules)
  | .array items => parseItems items
  | .hash entries => parseHashFormat (.hash entries) false
  | other => invalidConfig ("Configuration file is invalid. Expected an Array/List of rules got: "
      ++ getType other ++ "\n```yaml\n" ++ yamlToString other 0 ++ "\n```")
      (some "Make sure to declare the rules as a list without any root property")

/-- `from_yaml` -/
def fromYaml (content : String) : Except FzzError (List Rules) :=
  match load content with
  | .error err => .error (scanFailure content err)
  | .ok [] => invalidConfig "Configuration file is invalid! There are no rules to watch"
      (some ("Make sure to declare at least one rule. Try to run `fzz init` to generate a new configuration "
        ++ "from scratch"))
  | .ok (document :: _) => fromDocument document

/-- The document the policy readers look at. -/
def firstDocument (content : String) : Except String Yaml :=
  match load content with
  | .error err => .error err.text
  | .ok [] => .error "Configuration file is empty"
  | .ok (root :: _) => .ok root

end Texts

/-! ### Policies -/

/-- `text.strip_suffix(suffix)` -/
def stripEnding (ending text : List Char) : Option (List Char) :=
  if ending.isSuffixOf text then some (text.take (text.length - ending.length)) else none

/-- `parse::<u64>()` -/
def parseU64 (text : List Char) : Option Nat :=
  let digits := match text with
    | '+' :: rest => rest
    | _ => text
  if digits ≠ [] ∧ digits.all Char.isDigit then
    let value := digits.foldl (fun n c => n * 10 + (c.toNat - '0'.toNat)) 0
    if value < 2 ^ 64 then some value else none
  else none

/-- The digits of a duration and the milliseconds one of it stands for. -/
def durationUnit (raw : List Char) : List Char × Nat :=
  match stripEnding ['m', 's'] raw with
  | some digits => (digits, 1)
  | none =>
    match stripEnding ['s'] raw with
    | some digits => (digits, 1000)
    | none =>
      match stripEnding ['m'] raw with
      | some digits => (digits, 60000)
      | none => (raw, 1000)

/-- `parse_debounce`, in milliseconds. -/
def parseDebounce (raw : String) : Except String (Option Nat) :=
  let raw := trim raw.toList
  let shown := String.ofList raw
  let (digits, multiplier) := durationUnit raw
  match parseU64 (trim digits) with
  | none => .error ("invalid 'on.debounce' duration '" ++ shown
      ++ "': expected <number> with optional ms/s/m suffix (bare number = seconds)")
  | some 0 => .error ("invalid 'on.debounce' duration '" ++ shown ++ "': must be positive")
  | some value =>
    if value * multiplier < 2 ^ 64 then .ok (some (value * multiplier))
    else .error ("invalid 'on.debounce' duration '" ++ shown ++ "': too large")

/-- The `on` section the watch policies are read from. -/
def onSection (root : Yaml) : Except String (Option Yaml) :=
  match root.get "on" with
  | .badValue => .ok none
  | .hash entries => .ok (some (.hash entries))
  | _ => .error "Property 'on' must be an object"

/-- `control_socket_from_yaml`, of the document. -/
def controlSocketFromRoot (root : Yaml) : Except String (Option String) := do
  match ← onSection root with
  | none => pure none
  | some on =>
    match on.get "socket" with
    | .badValue => pure none
    | .string path =>
      if isBlank path then .error "Property 'on.socket' cannot be empty" else pure (some path)
    | _ => .error "Property 'on.socket' must be a string"

/-- `recovery_policy_from_yaml_with_default`, of the document. -/
def recoveryPolicyFromRootWithDefault (default : RecoveryPolicy) (root : Yaml) : Except String RecoveryPolicy :=
  if (root.get "execution").isBad || ((root.get "execution").get "recovery_policy").isBad then .ok default
  else recoveryPolicyFromRoot root

/-- `concurrency_from_yaml`, of the document. -/
def concurrencyFromRoot (root : Yaml) : Except String (Option Nat) :=
  match executionSection root with
  | .badValue => .ok none
  | .hash entries =>
    match (Yaml.hash entries).get "concurrency" with
    | .badValue => .ok none
    | .integer value =>
      if 0 < value then .ok (some value.toNat)
      else .error "Property 'execution.concurrency' must be a positive integer (got zero or negative)"
    | _ => .error "Property 'execution.concurrency' must be a positive integer"
  | _ => .error "Property 'execution' must be an object"

/-- A duration as it is written: a number of seconds or a text. -/
def durationText (error : String) : Yaml → Except String String
  | .integer value => .ok (toString value)
  | .string value => .ok value
  | _ => .error error

/-- `debounce_from_yaml`, of the document. -/
def debounceFromRoot (root : Yaml) : Except String (Option Nat) := do
  match ← onSection root with
  | none => pure none
  | some on =>
    match on.get "debounce" with
    | .badValue => pure none
    | value => parseDebounce (← durationText "Property 'on.debounce' must be a duration string or number" value)

/-- `WatchBackend::parse` -/
def WatchBackend.parse (backend : String) (pollInterval : Option Nat) : Except String WatchBackend :=
  if backend = "auto" then .ok .auto
  else if backend = "native" then .ok .native
  else if backend = "poll" then .ok (.poll (pollInterval.getD 500))
  else .error ("invalid 'on.watch_backend' '" ++ backend ++ "': expected native, poll, or auto")

/-- The `poll_interval` of a section, at least 20 milliseconds. -/
def pollIntervalOf (on : Yaml) : Except String (Option Nat) := do
  match on.get "poll_interval" with
  | .badValue => pure none
  | value =>
    let raw ← durationText "Property 'on.poll_interval' must be a duration" value
    let interval ← parseDebounce raw
    pure (interval.map (max 20))

/-- `watch_backend_from_yaml`, of the document. -/
def watchBackendFromRoot (root : Yaml) : Except String (Option WatchBackend) := do
  match ← onSection root with
  | none => pure none
  | some on =>
    match on.get "watch_backend" with
    | .badValue => pure none
    | .string backend =>
      let pollInterval ← pollIntervalOf on
      let parsed ← WatchBackend.parse backend pollInterval
      pure (some parsed)
    | _ => .error "Property 'on.watch_backend' must be a string"

/-- `respect_gitignore_from_yaml`, of the document. -/
def respectGitignoreFromRoot (root : Yaml) : Except String Bool :=
  match (root.get "on").get "respect_gitignore" with
  | .badValue => .ok false
  | .boolean value => .ok value
  | _ => .error "Property 'on.respect_gitignore' must be a boolean"

/-- A command of the `hooks` section. -/
def readHook (hooks : Yaml) (key : String) : Except String (Option String) :=
  match hooks.get key with
  | .badValue => .ok none
  | .string value => .ok (some value)
  | _ => .error ("Property 'hooks." ++ key ++ "' must be a command string")

/-- `generation_hooks_from_yaml`, of the document. -/
def generationHooksFromRoot (root : Yaml) : Except String GenerationHooks :=
  match hooksSection root with
  | .badValue => .ok {}
  | .hash entries => do
    let success ← readHook (.hash entries) "success"
    let failure ← readHook (.hash entries) "failure"
    pure { success, failure }
  | _ => .error "Property 'hooks' must be an object"

/-- The templates that stand for the trigger of a run. -/
def triggerTemplates : List String :=
  ["\x7b\x7bfilepath\x7d\x7d", "\x7b\x7babsolute_path\x7d\x7d", "\x7b\x7brelative_filepath\x7d\x7d",
    "\x7b\x7brelative_path\x7d\x7d", "\x7b\x7bpaths\x7d\x7d"]

/-- `text.contains(part)` -/
def containsText (text part : List Char) : Bool := text.tails.any fun rest => part.isPrefixOf rest

/-- `session_hooks_from_yaml`, of the document. -/
def sessionHooksFromRoot (root : Yaml) : Except String SessionHooks :=
  match hooksSection root with
  | .badValue => .ok {}
  | .hash entries =>
    match (Yaml.hash entries).get "close" with
    | .badValue => .ok {}
    | .string command =>
      if isBlank command then .error "Property 'hooks.close' must be a non-empty command string"
      else match triggerTemplates.find? fun template => containsText command.toList template.toList with
        | some template => .error ("Property 'hooks.close' cannot use " ++ template
            ++ ": close has no trigger path")
        | none => .ok { close := some command }
    | _ => .error "Property 'hooks.close' must be a command string"
  | _ => .error "Property 'hooks' must be an object"

/-! ### Validation -/

section Validation

variable (compile : String → Except String Unit)

/-- The first pattern that does not compile, as an error. -/
def validatePatterns (name property : String) : List String → Except String Unit
  | [] => .ok ()
  | pattern :: rest =>
    match compile pattern with
    | .ok _ => validatePatterns name property rest
    | .error err => .error ("job '" ++ name ++ "' contains an invalid `" ++ property ++ "` glob pattern '"
        ++ pattern ++ "'.\n  " ++ err
        ++ "\n  Read more: https://en.wikipedia.org/wiki/Glob_(programming)")

/-- `Rules::validate` -/
def Rules.validate (rule : Rules) : Except String Unit :=
  let name := if rule.name = "" then "_unnamed_" else rule.name
  if rule.commandLines = [] then
    .error ("job '" ++ name ++ "' contains no command to run. Empty 'run' property.")
  else if rule.service && rule.recovery.isSome then
    .error ("job '" ++ name ++ "' cannot declare recovery when service is true")
  else if rule.watchPatterns = [] ∧ rule.runOnInit = false then
    .error ("job '" ++ name ++ "' must contain a `change` and/or `run_on_init` property.")
  else do
    validatePatterns compile name "change" rule.watchPatterns
    validatePatterns compile name "ignore" rule.ignorePatterns

/-- `validate_rules` -/
def validateRules : List Rules → Except String Unit
  | [] => .ok ()
  | rule :: rest => do
    rule.validate compile
    validateRules rest

end Validation

end Funzzy
