import Funzzy.Config.Pipelines
import Funzzy.Config.Tasks

/-! `fzz migrate`: a legacy configuration in the preferred form (`cli/migrate.rs`).

    The migration edits the text: the lines of a root list are indented under `jobs:`, and the root key
    `tasks` is renamed. `LaidOut` says of which texts the lines are the structure, and `EditsRead` what the
    scanner makes of such a text when it is edited; what the readers make of that is the subject here, since
    a job is read by other rules than a task. -/

namespace Funzzy

open Fallible

/-! ### The text -/

/-- `split_inclusive('\n')` -/
def inclusiveLines (content : String) : List (List Char) := Lines.inclusive '\n' content.toList

/-- The line starts an item of a block list. -/
def isItemLine (line : String) : Bool :=
  let line := trimStart line.toList
  line == ['-'] || (['-', ' '].isPrefixOf line && line != ['-', '-', '-'])

/-- The number of the first line of the list. -/
def taskStart (legacy : String) : Option Nat := (strLines legacy).findIdx? isItemLine

/-- The line, further in; a blank line stays. -/
def indentLine (line : List Char) : List Char := if line.all isSpace then line else ' ' :: ' ' :: line

/-- The lines from `start` on, under `jobs:`. -/
def wrapTasks (legacy : String) (start : Nat) : String :=
  let lines := inclusiveLines legacy
  String.ofList ((lines.take start).flatten ++ "jobs:\n".toList ++ ((lines.drop start).map indentLine).flatten)

/-- The line is the key at the root. -/
def isKeyLine (key line : String) : Bool :=
  let trimmed := trimStart line.toList
  trimmed == key.toList ++ [':'] && trimmed.isPrefixOf line.toList

/-- `rename_root_key` -/
def renameRootKey (content oldKey newKey : String) : String :=
  "\n".intercalate ((strLines content).map fun line =>
      if isKeyLine oldKey line then
        String.ofList (line.toList.take (line.length - (trimStart line.toList).length)) ++ newKey ++ ":"
      else line)
    ++ if content.toList.getLast? = some '\n' then "\n" else ""

section Migration

variable (colored : Bool) (load : String → Except ScanError (List Yaml))
  (compile : String → Except String Unit)

/-- `migrate_content` -/
def migrateContent (legacy : String) : Except FzzError String :=
  match load legacy with
  | .error err => .error (.invalidConfigError "Invalid legacy .watch.yaml" (some err)
      (some "Fix the YAML syntax before running `fzz migrate`"))
  | .ok [.array _] =>
    match taskStart legacy with
    | some start => .ok (wrapTasks legacy start)
    | none => .error (.genericError "Legacy .watch.yaml does not contain any tasks to migrate")
  | .ok [document] =>
    if !(document.get "jobs").isBad then .ok legacy
    else if !(document.get "tasks").isBad then .ok (renameRootKey legacy "tasks" "jobs")
    else .error (.genericError "Legacy .watch.yaml root must be a task list")
  | .ok _ => .error (.genericError "Legacy .watch.yaml must contain exactly one YAML document")

/-- The decision of `MigrateCommand::execute` about the text of its file: the text to write, if any. -/
def migrateFile (fileName legacy : String) : Except FzzError (Option String) := do
  let migrated ← migrateContent load legacy
  match fromYaml load migrated with
  | .error err => .error (.genericError ("Migrated " ++ fileName ++ " would be invalid: " ++ err.display colored
      ++ ". This is a bug in fzz migrate; the original file was not changed"))
  | .ok _ => pure (if migrated = legacy then none else some migrated)

/-! ### Meaning -/

/-- The policies of two texts are read alike. -/
structure SamePolicies (a b : String) : Prop where
  concurrency : readPolicy load concurrencyFromRoot a = readPolicy load concurrencyFromRoot b
  debounce : readPolicy load debounceFromRoot a = readPolicy load debounceFromRoot b
  backend : readPolicy load watchBackendFromRoot a = readPolicy load watchBackendFromRoot b
  gitignore : readPolicy load respectGitignoreFromRoot a = readPolicy load respectGitignoreFromRoot b
  recovery : ∀ default, readPolicy load (recoveryPolicyFromRootWithDefault default) a =
    readPolicy load (recoveryPolicyFromRootWithDefault default) b
  hooks : readPolicy load generationHooksFromRoot a = readPolicy load generationHooksFromRoot b
  sessionHooks : readPolicy load sessionHooksFromRoot a = readPolicy load sessionHooksFromRoot b
  socket : readPolicy load controlSocketFromRoot a = readPolicy load controlSocketFromRoot b

/-- The root is a list, or a mapping with `tasks`. -/
def Yaml.isLegacy : Yaml → Bool
  | .array _ => true
  | .hash entries => !((Yaml.hash entries).get "tasks").isBad
  | _ => false

/-- The text is an accepted legacy document with these rules. -/
structure Legacy (legacy : String) (rules : List Rules) : Prop where
  read : fromYaml load legacy = .ok rules
  valid : Accepts (validateRules compile rules)
  shape : ∃ document documents, load legacy = .ok (document :: documents) ∧ document.isLegacy = true

/-- The text migrates to one that is accepted with the same rules and policies. -/
def Preserved (legacy : String) (rules : List Rules) : Prop :=
  ∃ migrated, migrateContent load legacy = .ok migrated ∧ fromYaml load migrated = .ok rules ∧
    Accepts (validateRules compile rules) ∧ SamePolicies load legacy migrated

/-! ### When it is preserved -/

/-- A section without a property of another section than `on`. -/
def Undeclared (sect : Yaml) : Prop :=
  sect = .badValue ∨ ∃ entries, sect = .hash entries ∧ unknownKey (propertyNames .on) entries = none

/-- Grouped tasks that may be called jobs: no entry has that name yet, and `on` declares no policy of another
    section. -/
structure Renamable (entries : List (Yaml × Yaml)) : Prop where
  fresh : hasKey "jobs" entries = false
  own : Undeclared ((Yaml.hash entries).get "on")

/-- The documents of the text are one list of portable tasks, below a line that starts it and with names of
    their own, or one mapping: of grouped tasks that may be called jobs, where a line has their key. -/
def Migratable (legacy : String) : Prop :=
  ∃ document, load legacy = .ok [document] ∧
    match document with
    | .array tasks => (taskStart legacy).isSome = true ∧ tasks ≠ [] ∧ (∀ task ∈ tasks, task.Portable) ∧
        (taskNames tasks).Nodup
    | .hash entries => (strLines legacy).any (isKeyLine "tasks") = true → Renamable entries
    | _ => False

/-! ### The scanner -/

/-- The key of an entry, renamed. -/
def renameKey (oldKey newKey : String) (entry : Yaml × Yaml) : Yaml × Yaml :=
  if entry.1.isString oldKey then (.string newKey, entry.2) else entry

/-- The line ends a document. -/
def isDocumentEnd (line : List Char) : Bool := ['.', '.', '.'].isPrefixOf line && (line.drop 3).head?.all isSpace

/-- What may stand above a list and is no part of it: a blank line, a remark, a directive, a document's start. -/
def isPreamble (line : String) : Bool :=
  (trimStart line.toList).head?.all (· == '#') || line.toList.head? == some '%' || line == "---"

/-- A text whose lines are its structure. `listLine` is the line where a block list at the root begins, and
    `keyLine` the one that is the root key `tasks` and its colon. No line is broken but at its end. The list
    begins where the first line starts an item, below lines that are no part of it; from there on no line
    ends the document, and a line is blank only if it is empty, since the spaces of a blank line belong to
    the text of a block scalar. No line but the root key's reads `tasks:`. -/
structure LaidOut (legacy : String) (listLine keyLine : Option Nat) : Prop where
  breaks : ∀ line ∈ strLines legacy, '\r' ∉ line.toList
  list : ∀ tasks start, load legacy = .ok [.array tasks] → taskStart legacy = some start →
    listLine = some start ∧ (∀ line ∈ (strLines legacy).take start, isPreamble line = true) ∧
      (∀ line ∈ (inclusiveLines legacy).drop start, isDocumentEnd line = false) ∧
      ∀ line ∈ (strLines legacy).drop start, isBlank line = true → line = ""
  grouped : ∀ entries, load legacy = .ok [.hash entries] → ∀ i line, (strLines legacy)[i]? = some line →
    isKeyLine "tasks" line = true → keyLine = some i

/-- How the scanner reads a text that is laid out so and has been edited: lines that are further in below a key
    are its value, the key of a root line is a key of the root, no key may stand twice, and a text whose lines
    stay is read as before. -/
structure EditsRead (legacy : String) (listLine keyLine : Option Nat) : Prop where
  wrapped : LaidOut load legacy listLine keyLine → ∀ tasks start, load legacy = .ok [.array tasks] →
    taskStart legacy = some start → load (wrapTasks legacy start) = .ok [.hash [(.string "jobs", .array tasks)]]
  renamed : LaidOut load legacy listLine keyLine → ∀ entries, load legacy = .ok [.hash entries] →
    hasKey "tasks" entries = true → hasKey "jobs" entries = false →
    (strLines legacy).any (isKeyLine "tasks") = true →
    load (renameRootKey legacy "tasks" "jobs") = .ok [.hash (entries.map (renameKey "tasks" "jobs"))]
  clash : LaidOut load legacy listLine keyLine → ∀ entries, load legacy = .ok [.hash entries] →
    hasKey "tasks" entries = true → hasKey "jobs" entries = true →
    (strLines legacy).any (isKeyLine "tasks") = true →
    ∃ err, load (renameRootKey legacy "tasks" "jobs") = .error err
  kept : LaidOut load legacy listLine keyLine → (strLines legacy).any (isKeyLine "tasks") = false →
    load (renameRootKey legacy "tasks" "jobs") = load legacy

end Migration

/-! ### Sections -/

/-- A root whose policies stand where jobs have them: none of another section under `on`, and no recovery policy
    beside tasks. -/
structure Yaml.OwnSections (root : Yaml) : Prop where
  on : Undeclared (root.get "on")
  recovery : (root.get "tasks").isBad = true ∨ ((root.get "execution").get "recovery_policy").isBad = true

/-- A section that grouped tasks may leave to `on`. -/
def legacySection (name : String) (root : Yaml) : Yaml :=
  if (root.get name).isBad && !(root.get "tasks").isBad then root.get "on" else root.get name

theorem Undeclared.get {sect : Yaml} (h : Undeclared sect) (key : String) (hkey : key ∉ propertyNames .on) :
    sect.get key = .badValue := by
  rcases h with rfl | ⟨entries, rfl, hkeys⟩
  · rfl
  · refine get_of_hasKey_false (Bool.not_eq_true _ ▸ fun hhas => ?_)
    exact hkey (unknownKey_eq_none.mp hkeys key hhas)

/-- The section is the declared one, or nothing is declared. -/
theorem Yaml.OwnSections.legacySection_cases {root : Yaml} (own : root.OwnSections) (name : String) :
    legacySection name root = root.get name ∨ root.get name = .badValue ∧ Undeclared (legacySection name root) := by
  unfold legacySection
  split
  · next h => exact .inr ⟨isBad_iff.mp (Bool.and_eq_true_iff.mp h).1, own.on⟩
  · exact .inl rfl

/-- Readers of such a section tell two roots apart by what they declare only. -/
theorem reader_alike {α : Type} {read : Yaml → α} {name : String} (absent : α) {a b : Yaml}
    (hdeclared : ∀ a b, legacySection name a = legacySection name b → read a = read b)
    (habsent : ∀ root sect, legacySection name root = sect → Undeclared sect → read root = absent)
    (owna : a.OwnSections) (ownb : b.OwnSections) (h : a.get name = b.get name) : read a = read b := by
  have hread : ∀ root : Yaml, root.OwnSections → root.get name = .badValue → read root = absent := by
    intro root own hroot
    rcases own.legacySection_cases name with heq | ⟨-, hundeclared⟩
    · exact habsent root _ heq (.inl hroot)
    · exact habsent root _ rfl hundeclared
  rcases owna.legacySection_cases name with ha | ⟨ha, -⟩
  · rcases ownb.legacySection_cases name with hb | ⟨hb, -⟩
    · exact hdeclared a b (ha.trans (h.trans hb.symm))
    · rw [hread a owna (h.trans hb), hread b ownb hb]
  · rw [hread a owna ha, hread b ownb (h.symm.trans ha)]

theorem outputPolicyFromRoot_alike {a b : Yaml} (owna : a.OwnSections) (ownb : b.OwnSections)
    (h : a.get "execution" = b.get "execution") : outputPolicyFromRoot a = outputPolicyFromRoot b := by
  refine reader_alike (.ok .inherit) ?_ ?_ owna ownb h
  · intro a b h
    change executionSection a = executionSection b at h
    rw [outputPolicyFromRoot, outputPolicyFromRoot, h]
  · intro root sect h hundeclared
    change executionSection root = sect at h
    rw [outputPolicyFromRoot, h, hundeclared.get "output" (by decide)]

theorem concurrencyFromRoot_alike {a b : Yaml} (owna : a.OwnSections) (ownb : b.OwnSections)
    (h : a.get "execution" = b.get "execution") : concurrencyFromRoot a = concurrencyFromRoot b := by
  refine reader_alike (.ok none) ?_ ?_ owna ownb h
  · intro a b h
    change executionSection a = executionSection b at h
    rw [concurrencyFromRoot, concurrencyFromRoot, h]
  · intro root sect h hundeclared
    change executionSection root = sect at h
    have hget := hundeclared.get "concurrency" (by decide)
    rw [concurrencyFromRoot, h]
    rcases hundeclared with rfl | ⟨entries, rfl, -⟩
    · rfl
    · simp only [hget]

theorem generationHooksFromRoot_alike {a b : Yaml} (owna : a.OwnSections) (ownb : b.OwnSections)
    (h : a.get "hooks" = b.get "hooks") : generationHooksFromRoot a = generationHooksFromRoot b := by
  refine reader_alike (.ok {}) ?_ ?_ owna ownb h
  · intro a b h
    change hooksSection a = hooksSection b at h
    rw [generationHooksFromRoot, generationHooksFromRoot, h]
  · intro root sect h hundeclared
    change hooksSection root = sect at h
    have hsuccess := hundeclared.get "success" (by decide)
    have hfailure := hundeclared.get "failure" (by decide)
    rw [generationHooksFromRoot, h]
    rcases hundeclared with rfl | ⟨entries, rfl, -⟩
    · rfl
    · simp only [readHook, hsuccess, hfailure]
      rfl

theorem sessionHooksFromRoot_alike {a b : Yaml} (owna : a.OwnSections) (ownb : b.OwnSections)
    (h : a.get "hooks" = b.get "hooks") : sessionHooksFromRoot a = sessionHooksFromRoot b := by
  refine reader_alike (.ok {}) ?_ ?_ owna ownb h
  · intro a b h
    change hooksSection a = hooksSection b at h
    rw [sessionHooksFromRoot, sessionHooksFromRoot, h]
  · intro root sect h hundeclared
    change hooksSection root = sect at h
    have hclose := hundeclared.get "close" (by decide)
    rw [sessionHooksFromRoot, h]
    rcases hundeclared with rfl | ⟨entries, rfl, -⟩
    · rfl
    · simp only [hclose]

/-- The recovery policy beside jobs is the declared one. -/
theorem recoveryPolicyFromRoot_alike {a b : Yaml} (owna : a.OwnSections) (ownb : b.OwnSections)
    (h : a.get "execution" = b.get "execution") : recoveryPolicyFromRoot a = recoveryPolicyFromRoot b := by
  have hguard : ∀ root : Yaml, root.OwnSections →
      (!(root.get "tasks").isBad && !((root.get "execution").get "recovery_policy").isBad) = false := by
    intro root own
    rcases own.recovery with hbad | hbad
    · rw [hbad, Bool.not_true, Bool.false_and]
    · rw [hbad, Bool.not_true, Bool.and_false]
  have ha := hguard a owna
  have hb := hguard b ownb
  rw [h] at ha
  simp only [recoveryPolicyFromRoot, h, ha, hb]

/-- Roots that declare the same sections have the same policies. -/
theorem SamePolicies.of_sections {load : String → Except ScanError (List Yaml)} {x y : String} {a b : Yaml}
    (hx : firstDocument load x = .ok a) (hy : firstDocument load y = .ok b) (owna : a.OwnSections)
    (ownb : b.OwnSections) (hon : a.get "on" = b.get "on") (hexecution : a.get "execution" = b.get "execution")
    (hhooks : a.get "hooks" = b.get "hooks") : SamePolicies load x y := by
  have hread : ∀ {α : Type} (reader : Yaml → Except String α), reader a = reader b →
      readPolicy load reader x = readPolicy load reader y := by
    intro α reader heq
    rw [readPolicy, readPolicy, hx, hy, ok_bind, ok_bind, heq]
  have hsection : onSection a = onSection b := by rw [onSection, onSection, hon]
  refine ⟨hread _ (concurrencyFromRoot_alike owna ownb hexecution), hread _ ?_, hread _ ?_, hread _ ?_,
    fun default => hread _ ?_, hread _ (generationHooksFromRoot_alike owna ownb hhooks),
    hread _ (sessionHooksFromRoot_alike owna ownb hhooks), hread _ ?_⟩
  · rw [debounceFromRoot, debounceFromRoot, hsection]
  · rw [watchBackendFromRoot, watchBackendFromRoot, hsection]
  · rw [respectGitignoreFromRoot, respectGitignoreFromRoot, hon]
  · rw [recoveryPolicyFromRootWithDefault, recoveryPolicyFromRootWithDefault, hexecution,
      recoveryPolicyFromRoot_alike owna ownb hexecution]
  · rw [controlSocketFromRoot, controlSocketFromRoot, hsection]

/-! ### Roots -/

theorem validateSection_eq_ok {root : Yaml} {name : String} {owner : Owner} :
    validateSection root name owner = .ok () ↔ root.get name = .badValue ∨ ∃ entries, root.get name = .hash entries ∧
      unknownKey (propertyNames owner ++ if owner = .on ∧ (root.get "tasks").isBad = false then
        ["concurrency", "output", "success", "failure", "close"] else []) entries = none := by
  unfold validateSection
  cases root.get name with
  | badValue => exact iff_of_true rfl (.inl rfl)
  | hash entries =>
    simp only [Yaml.hash.injEq, reduceCtorEq, false_or, exists_eq_left']
    split
    · next h => exact iff_of_false (by rintro ⟨⟩) (h ▸ by rintro ⟨⟩)
    · next h => exact iff_of_true rfl h
  | _ => exact iff_of_false (by rintro ⟨⟩) (by rintro (⟨⟨⟩⟩ | ⟨_, ⟨⟩, -⟩))

theorem validateV2Sections_eq_ok {entries : List (Yaml × Yaml)} :
    validateV2Sections (.hash entries) = .ok () ↔ unknownKey (propertyNames .root ++ ["tasks"]) entries = none ∧
      validateSection (.hash entries) "on" .on = .ok () ∧
      validateSection (.hash entries) "execution" .execution = .ok () ∧
      validateSection (.hash entries) "hooks" .hooks = .ok () := by
  unfold validateV2Sections
  simp only
  cases unknownKey (propertyNames .root ++ ["tasks"]) entries with
  | none => simp only [bind_eq_ok, Unique.exists_iff, true_and]
  | some key => exact iff_of_false (by rintro ⟨⟩) (by rintro ⟨⟨⟩, -⟩)

theorem isString_unique {yaml : Yaml} {a b : String} (ha : yaml.isString a = true) (hb : yaml.isString b = true) :
    a = b := by
  cases yaml <;> rw [Yaml.isString] at ha hb <;> try exact absurd ha Bool.false_ne_true
  exact (beq_iff_eq.mp ha).symm.trans (beq_iff_eq.mp hb)

/-- Entries under other keys: what is found under a key. -/
theorem get_map {entries : List (Yaml × Yaml)} {f : Yaml × Yaml → Yaml × Yaml} {key key' : String}
    (hkey : ∀ entry ∈ entries, (f entry).1.isString key = entry.1.isString key')
    (hvalue : ∀ entry, (f entry).2 = entry.2) :
    (Yaml.hash (entries.map f)).get key = (Yaml.hash entries).get key' := by
  induction entries with
  | nil => rfl
  | cons entry entries ih =>
    have ih := ih fun entry h => hkey entry (List.mem_cons_of_mem _ h)
    rw [Yaml.get, Yaml.get] at ih ⊢
    rw [List.map_cons, List.find?_cons, List.find?_cons, hkey entry List.mem_cons_self]
    cases entry.1.isString key' with
    | true =>
      change (f entry).2 = entry.2
      exact hvalue entry
    | false => exact ih

section Renamed

variable {entries : List (Yaml × Yaml)}

theorem renameKey_value (entry : Yaml × Yaml) : (renameKey "tasks" "jobs" entry).2 = entry.2 := by
  unfold renameKey
  split <;> rfl

/-- What the renamed entry can be found under. -/
theorem renameKey_isString (entry : Yaml × Yaml) (key : String) :
    (renameKey "tasks" "jobs" entry).1.isString key =
      if entry.1.isString "tasks" then "jobs" == key else entry.1.isString key := by
  unfold renameKey
  split <;> rfl

theorem get_renamed_jobs (fresh : hasKey "jobs" entries = false) :
    (Yaml.hash (entries.map (renameKey "tasks" "jobs"))).get "jobs" = (Yaml.hash entries).get "tasks" := by
  refine get_map (fun entry hentry => ?_) renameKey_value
  rw [renameKey_isString]
  split
  · next h => exact h.symm
  · next h =>
    have hjobs : entry.1.isString "jobs" = false :=
      Bool.eq_false_of_not_eq_true (List.any_eq_false.mp fresh entry hentry)
    rw [hjobs]
    exact (Bool.eq_false_of_not_eq_true h).symm

theorem hasKey_renamed {key : String} (h : hasKey key (entries.map (renameKey "tasks" "jobs")) = true) :
    key = "jobs" ∨ key ≠ "tasks" ∧ hasKey key entries = true := by
  obtain ⟨_, hmem, hkey⟩ := List.any_eq_true.mp h
  obtain ⟨entry, hentry, rfl⟩ := List.mem_map.mp hmem
  rw [renameKey_isString] at hkey
  split at hkey
  · exact .inl (beq_iff_eq.mp hkey).symm
  · next htasks =>
    refine .inr ⟨?_, List.any_eq_true.mpr ⟨entry, hentry, hkey⟩⟩
    rintro rfl
    exact htasks hkey

theorem get_renamed_tasks : (Yaml.hash (entries.map (renameKey "tasks" "jobs"))).get "tasks" = .badValue := by
  refine get_of_hasKey_false (Bool.not_eq_true _ ▸ fun h => ?_)
  rcases hasKey_renamed h with heq | ⟨hne, -⟩
  · exact absurd heq (by decide)
  · exact hne rfl

theorem get_renamed_other {key : String} (htasks : key ≠ "tasks") (hjobs : key ≠ "jobs") :
    (Yaml.hash (entries.map (renameKey "tasks" "jobs"))).get key = (Yaml.hash entries).get key := by
  refine get_map (fun entry _ => ?_) renameKey_value
  rw [renameKey_isString]
  split
  · next h =>
    have hother : entry.1.isString key = false :=
      Bool.eq_false_of_not_eq_true fun hkey => htasks (isString_unique hkey h)
    rw [hother]
    exact beq_eq_false_iff_ne.mpr hjobs.symm
  · rfl

end Renamed

/-- The root that a list of tasks is wrapped into. -/
theorem fromDocument_wrapped {tasks : List Yaml} {rules : List Rules} :
    fromDocument (.hash [(.string "jobs", .array tasks)]) = .ok rules ↔
      tasks ≠ [] ∧ parseJobs false {} tasks [] = .ok rules := by
  have hsections : validateV2Sections (.hash [(.string "jobs", .array tasks)]) = .ok () :=
    validateV2Sections_eq_ok.mpr ⟨rfl, rfl, rfl, rfl⟩
  rw [fromDocument, parseHashFormat_eq_ok]
  constructor
  · rintro ⟨-, -, jobs, hjobs, -, -, common, hcommon, output, houtput, hparse⟩
    cases hcommon
    cases houtput
    cases tasks with
    | nil => cases hjobs
    | cons task tasks =>
      cases hjobs
      exact ⟨List.cons_ne_nil _ _, hparse⟩
  · rintro ⟨hne, hparse⟩
    refine ⟨(fun h => nomatch h.2), (fun h => nomatch h.1), tasks, ?_, hsections, ⟨.prompt, rfl⟩, {}, rfl, .inherit,
      rfl, hparse⟩
    cases tasks with
    | nil => exact absurd rfl hne
    | cons task tasks => rfl

/-- Tasks without a recovery are jobs that read alike. -/
theorem parseJobs_of_tasks {common : CommonRules} {jobs : List Yaml} {seen : List String} {rules : List Rules}
    (h : parseJobs true common jobs seen = .ok rules) : parseJobs false common jobs seen = .ok rules := by
  induction jobs generalizing seen rules with
  | nil => exact h
  | cons job jobs ih =>
    obtain ⟨-, rule, hrule, hnew, others, hothers, rfl⟩ := parseJobs_cons_eq_ok.mp h
    exact parseJobs_cons_eq_ok.mpr ⟨(fun hboth => nomatch hboth.1), rule, hrule, hnew, others, ih hothers, rfl⟩

theorem validateSection_alike {a b : Yaml} {name : String} {owner : Owner} (howner : owner ≠ .on)
    (h : a.get name = b.get name) : validateSection a name owner = validateSection b name owner := by
  simp only [validateSection, h, howner, false_and, if_false]

/-- The sections of renamed tasks are valid when `on` declares nothing else, and only then. -/
theorem validateV2Sections_renamed {entries : List (Yaml × Yaml)}
    (h : validateV2Sections (.hash entries) = .ok ()) :
    validateV2Sections (.hash (entries.map (renameKey "tasks" "jobs"))) = .ok () ↔
      Undeclared ((Yaml.hash entries).get "on") := by
  obtain ⟨hkeys, -, hexecution, hhooks⟩ := validateV2Sections_eq_ok.mp h
  have hroot : unknownKey (propertyNames .root ++ ["tasks"]) (entries.map (renameKey "tasks" "jobs")) = none := by
    rw [unknownKey_eq_none] at hkeys ⊢
    intro key hkey
    rcases hasKey_renamed hkey with rfl | ⟨-, hold⟩
    · decide
    · exact hkeys key hold
  have hsame : ∀ {name : String} {owner : Owner}, owner ≠ .on → name ≠ "tasks" → name ≠ "jobs" →
      validateSection (.hash (entries.map (renameKey "tasks" "jobs"))) name owner =
        validateSection (.hash entries) name owner :=
    fun howner htasks hjobs => validateSection_alike howner (get_renamed_other htasks hjobs)
  have hon : validateSection (.hash (entries.map (renameKey "tasks" "jobs"))) "on" .on = .ok () ↔
      Undeclared ((Yaml.hash entries).get "on") := by
    rw [validateSection_eq_ok, get_renamed_tasks, get_renamed_other (by decide) (by decide)]
    exact Iff.rfl
  rw [validateV2Sections_eq_ok, hon, hsame (by decide) (by decide) (by decide),
    hsame (by decide) (by decide) (by decide)]
  exact ⟨fun hall => hall.2.1, fun hundeclared => ⟨hroot, hundeclared, hexecution, hhooks⟩⟩

theorem ownSections_renamed {entries : List (Yaml × Yaml)} (h : Undeclared ((Yaml.hash entries).get "on")) :
    (Yaml.hash (entries.map (renameKey "tasks" "jobs"))).OwnSections where
  on := by rwa [get_renamed_other (by decide) (by decide)]
  recovery := .inl (isBad_iff.mpr get_renamed_tasks)

theorem ownSections_of_read {entries : List (Yaml × Yaml)} {rules : List Rules}
    (htasks : ((Yaml.hash entries).get "tasks").isBad = false) (h : fromDocument (.hash entries) = .ok rules)
    (hon : Undeclared ((Yaml.hash entries).get "on")) : (Yaml.hash entries).OwnSections where
  on := hon
  recovery := .inr (Bool.not_eq_false _ ▸ fun hdeclared =>
    ((parseHashFormat_eq_ok _ _ _).mp h).2.1 ⟨htasks, hdeclared⟩)

/-- The root that grouped tasks are renamed to is read alike exactly when `on` declares nothing else. -/
theorem fromDocument_renamed {entries : List (Yaml × Yaml)} {rules : List Rules}
    (fresh : hasKey "jobs" entries = false) (htasks : ((Yaml.hash entries).get "tasks").isBad = false)
    (h : fromDocument (.hash entries) = .ok rules) :
    fromDocument (.hash (entries.map (renameKey "tasks" "jobs"))) = .ok rules ↔
      Undeclared ((Yaml.hash entries).get "on") := by
  obtain ⟨-, -, jobs, hjobs, hsections, ⟨policy, hrecovery⟩, common, hcommon, output, houtput, hparse⟩ :=
    (parseHashFormat_eq_ok _ _ _).mp h
  constructor
  · intro h'
    obtain ⟨-, -, -, -, hsections', -⟩ := (parseHashFormat_eq_ok _ _ _).mp h'
    exact (validateV2Sections_renamed hsections).mp hsections'
  · intro hundeclared
    have own := ownSections_of_read htasks h hundeclared
    have own' := ownSections_renamed hundeclared
    have hexecution : (Yaml.hash (entries.map (renameKey "tasks" "jobs"))).get "execution" =
        (Yaml.hash entries).get "execution" := get_renamed_other (by decide) (by decide)
    have hlist : (Yaml.hash entries).get "tasks" = .array jobs ∧ jobs ≠ [] := by
      rw [get_of_hasKey_false fresh] at hjobs
      exact jobsOf_eq_ok.mp hjobs
    have hnew : (Yaml.hash (entries.map (renameKey "tasks" "jobs"))).get "jobs" = .array jobs :=
      (get_renamed_jobs fresh).trans hlist.1
    have hold : ((Yaml.hash (entries.map (renameKey "tasks" "jobs"))).get "tasks").isBad = true :=
      isBad_iff.mpr get_renamed_tasks
    refine (parseHashFormat_eq_ok _ _ _).mpr ⟨?_, ?_, jobs, ?_, (validateV2Sections_renamed hsections).mpr hundeclared,
      ⟨policy, ?_⟩, common, ?_, output, ?_, ?_⟩
    · rintro ⟨-, htasks'⟩
      exact nomatch hold.symm.trans htasks'
    · rintro ⟨htasks', -⟩
      exact nomatch hold.symm.trans htasks'
    · rw [hnew]
      exact jobsOf_eq_ok.mpr ⟨hnew, hlist.2⟩
    · rw [recoveryPolicyFromRoot_alike own' own hexecution, hrecovery]
    · rw [get_renamed_other (by decide) (by decide), hcommon]
    · rw [outputPolicyFromRoot_alike own' own hexecution, houtput]
    · rw [htasks] at hparse
      rw [hold]
      exact parseJobs_of_tasks hparse

/-! ### Whole texts -/

section Texts

variable {load : String → Except ScanError (List Yaml)} {compile : String → Except String Unit}
  {listLine keyLine : Option Nat}

theorem fromYaml_of_load {text : String} {document : Yaml} {documents : List Yaml}
    (h : load text = .ok (document :: documents)) : fromYaml load text = fromDocument document := by
  rw [fromYaml, h]

theorem firstDocument_of_load {text : String} {document : Yaml} {documents : List Yaml}
    (h : load text = .ok (document :: documents)) : firstDocument load text = .ok document := by
  rw [firstDocument, h]

theorem SamePolicies.of_load {x y : String} (h : load x = load y) : SamePolicies load x y := by
  have hfirst : firstDocument load x = firstDocument load y := by rw [firstDocument, firstDocument, h]
  have hread : ∀ {α : Type} (reader : Yaml → Except String α),
      readPolicy load reader x = readPolicy load reader y := by
    intro α reader
    rw [readPolicy, readPolicy, hfirst]
  exact ⟨hread _, hread _, hread _, hread _, fun default => hread _, hread _, hread _, hread _⟩

/-- A list of tasks is wrapped. -/
theorem list_preserved_iff {legacy : String} {rules : List Rules} {tasks : List Yaml}
    (h : EditsRead load legacy listLine keyLine) (hlayout : LaidOut load legacy listLine keyLine)
    (hlegacy : Legacy load compile legacy rules) (hload : load legacy = .ok [.array tasks]) :
    Preserved load compile legacy rules ↔ (taskStart legacy).isSome = true ∧ tasks ≠ [] ∧
      (∀ task ∈ tasks, task.Portable) ∧ (taskNames tasks).Nodup := by
  have hitems : parseItems tasks = .ok rules := (fromYaml_of_load hload).symm.trans hlegacy.read
  cases hstart : taskStart legacy with
  | none =>
    refine iff_of_false ?_ fun hall => nomatch hall.1
    rintro ⟨migrated, hmigrated, -⟩
    rw [migrateContent, hload] at hmigrated
    simp only [hstart] at hmigrated
    cases hmigrated
  | some start =>
    have hmigrate : migrateContent load legacy = .ok (wrapTasks legacy start) := by
      rw [migrateContent, hload]
      simp only [hstart]
    have hwrapped := h.wrapped hlayout tasks start hload hstart
    have hread : fromYaml load (wrapTasks legacy start) = .ok rules ↔
        tasks ≠ [] ∧ (∀ task ∈ tasks, task.Portable) ∧ (taskNames tasks).Nodup := by
      rw [fromYaml_of_load hwrapped, fromDocument_wrapped, parseJobs_of_parseItems hitems]
      refine and_congr_right fun _ => and_congr_right fun _ => and_iff_left fun name _ => List.not_mem_nil
    have hsome : (some start).isSome = true := Option.isSome_some
    rw [← hread, and_iff_right hsome]
    constructor
    · rintro ⟨migrated, hmigrated, hrules, -, -⟩
      rw [hmigrate] at hmigrated
      cases hmigrated
      exact hrules
    · intro hrules
      exact ⟨_, hmigrate, hrules, hlegacy.valid, .of_sections (firstDocument_of_load hload)
        (firstDocument_of_load hwrapped) ⟨.inl rfl, .inl rfl⟩ ⟨.inl rfl, .inl rfl⟩ rfl rfl rfl⟩

/-- Grouped tasks are renamed. -/
theorem grouped_preserved_iff {legacy : String} {rules : List Rules} {entries : List (Yaml × Yaml)}
    (h : EditsRead load legacy listLine keyLine) (hlayout : LaidOut load legacy listLine keyLine)
    (hlegacy : Legacy load compile legacy rules) (hload : load legacy = .ok [.hash entries])
    (htasks : ((Yaml.hash entries).get "tasks").isBad = false) :
    Preserved load compile legacy rules ↔
      ((strLines legacy).any (isKeyLine "tasks") = true → Renamable entries) := by
  have hrules : fromDocument (.hash entries) = .ok rules := (fromYaml_of_load hload).symm.trans hlegacy.read
  have hjobs : ((Yaml.hash entries).get "jobs").isBad = true :=
    Bool.not_eq_false _ ▸ fun hjobs => ((parseHashFormat_eq_ok _ _ _).mp hrules).1 ⟨hjobs, htasks⟩
  have hmigrate : migrateContent load legacy = .ok (renameRootKey legacy "tasks" "jobs") := by
    rw [migrateContent, hload]
    simp only [hjobs, htasks]
    rfl
  have hpreserved : Preserved load compile legacy rules ↔
      fromYaml load (renameRootKey legacy "tasks" "jobs") = .ok rules ∧
        SamePolicies load legacy (renameRootKey legacy "tasks" "jobs") := by
    constructor
    · rintro ⟨migrated, hmigrated, hread, -, hpolicies⟩
      rw [hmigrate] at hmigrated
      cases hmigrated
      exact ⟨hread, hpolicies⟩
    · rintro ⟨hread, hpolicies⟩
      exact ⟨_, hmigrate, hread, hlegacy.valid, hpolicies⟩
  have hkey : hasKey "tasks" entries = true := hasKey_of_get htasks
  rw [hpreserved]
  cases hline : (strLines legacy).any (isKeyLine "tasks") with
  | false =>
    have hkept := h.kept hlayout hline
    refine iff_of_true ⟨?_, .of_load hkept.symm⟩ fun hline => nomatch hline
    rw [fromYaml_of_load (hkept.trans hload), hrules]
  | true =>
    rw [imp_iff_right rfl]
    cases hfresh : hasKey "jobs" entries with
    | true =>
      obtain ⟨err, herr⟩ := h.clash hlayout entries hload hkey hfresh hline
      refine iff_of_false (fun hboth => ?_) fun hrenamable => nomatch hfresh.symm.trans hrenamable.fresh
      rw [fromYaml, herr] at hboth
      cases hboth.1
    | false =>
      have hrenamed := h.renamed hlayout entries hload hkey hfresh hline
      rw [fromYaml_of_load hrenamed, fromDocument_renamed hfresh htasks hrules]
      constructor
      · rintro ⟨hown, -⟩
        exact ⟨hfresh, hown⟩
      · rintro ⟨-, hown⟩
        exact ⟨hown, .of_sections (firstDocument_of_load hload) (firstDocument_of_load hrenamed)
          (ownSections_of_read htasks hrules hown) (ownSections_renamed hown)
          (get_renamed_other (by decide) (by decide)).symm (get_renamed_other (by decide) (by decide)).symm
          (get_renamed_other (by decide) (by decide)).symm⟩

/-- An accepted legacy text whose lines are its structure keeps its meaning exactly when it is migratable. -/
theorem migration_iff {legacy : String} {rules : List Rules} (h : EditsRead load legacy listLine keyLine)
    (hlayout : LaidOut load legacy listLine keyLine) (hlegacy : Legacy load compile legacy rules) :
    Preserved load compile legacy rules ↔ Migratable load legacy := by
  obtain ⟨document, documents, hload, hshape⟩ := hlegacy.shape
  cases documents with
  | cons other documents =>
    refine iff_of_false ?_ ?_
    · rintro ⟨migrated, hmigrated, -⟩
      rw [migrateContent, hload] at hmigrated
      cases document <;> cases hmigrated
    · rintro ⟨document', hload', -⟩
      cases hload.symm.trans hload'
  | nil =>
    have hmigratable : ∀ {P : Yaml → Prop},
        (∃ document', load legacy = .ok [document'] ∧ P document') ↔ P document := by
      intro P
      constructor
      · rintro ⟨document', hload', hP⟩
        cases hload.symm.trans hload'
        exact hP
      · exact fun hP => ⟨document, hload, hP⟩
    rw [Migratable, hmigratable]
    cases document with
    | array tasks => exact list_preserved_iff h hlayout hlegacy hload
    | hash entries => exact grouped_preserved_iff h hlayout hlegacy hload (Bool.not_eq_true' _ ▸ hshape)
    | _ => cases hshape

end Texts

/-! ### The file -/

section File

variable {colored : Bool} {load : String → Except ScanError (List Yaml)} {compile : String → Except String Unit}
  {fileName legacy : String}

/-- A text is written over the file only when it differs from it and is accepted. -/
theorem migrateFile_eq_ok {written : Option String} :
    migrateFile colored load fileName legacy = .ok written ↔ ∃ migrated, migrateContent load legacy = .ok migrated ∧
      Accepts (fromYaml load migrated) ∧ written = if migrated = legacy then none else some migrated := by
  rw [migrateFile, bind_eq_ok]
  refine exists_congr fun migrated => and_congr_right fun _ => ?_
  cases fromYaml load migrated with
  | error err => exact iff_of_false (by rintro ⟨⟩) fun h => not_accepts_error err h.1
  | ok rules =>
    rw [and_iff_right (accepts_ok rules), eq_comm]
    exact (Except.ok.injEq _ _).to_iff

/-- What keeps its meaning is what the file is replaced by. -/
theorem Preserved.migrateFile {rules : List Rules} (h : Preserved load compile legacy rules) :
    ∃ migrated, migrateContent load legacy = .ok migrated ∧ fromYaml load migrated = .ok rules ∧
      Funzzy.migrateFile colored load fileName legacy = .ok (if migrated = legacy then none else some migrated) := by
  obtain ⟨migrated, hmigrated, hrules, -, -⟩ := h
  exact ⟨migrated, hmigrated, hrules, migrateFile_eq_ok.mpr ⟨migrated, hmigrated, ⟨rules, hrules⟩, rfl⟩⟩

end File

/-! ### Two texts -/

/-- A scanner of known texts. -/
def scanning (known : List (String × Yaml)) (text : String) : Except ScanError (List Yaml) :=
  .ok ((known.find? fun entry => entry.1 == text).toList.map (·.2))

theorem scanning_first (text : String) (tree : Yaml) (known : List (String × Yaml)) :
    scanning ((text, tree) :: known) text = .ok [tree] := by
  simp [scanning]

theorem scanning_next {text : String} {entry : String × Yaml} (h : entry.1 ≠ text)
    (known : List (String × Yaml)) : scanning (entry :: known) text = scanning known text := by
  rw [scanning, List.find?_cons_of_neg (by simpa using h), scanning]

/-- A task, and the text of a list of it. -/
def buildTask : Yaml := .hash [(.string "name", .string "build"), (.string "run", .string "make"),
  (.string "change", .string "src/**")]

def buildList : String := "- name: build\n  run: make\n  change: src/**\n"

def buildJobs : String := "jobs:\n  - name: build\n    run: make\n    change: src/**\n"

def buildScanner : String → Except ScanError (List Yaml) :=
  scanning [(buildList, .array [buildTask]), (buildJobs, .hash [(.string "jobs", .array [buildTask])])]

theorem buildScanner_list : buildScanner buildList = .ok [.array [buildTask]] := scanning_first _ _ _

theorem buildScanner_jobs : buildScanner buildJobs = .ok [.hash [(.string "jobs", .array [buildTask])]] :=
  (scanning_next (by decide +kernel) _).trans (scanning_first _ _ _)

theorem buildScanner_laidOut : LaidOut buildScanner buildList (some 0) none where
  breaks := by decide +kernel
  list := by
    intro tasks start _ hstart
    have hzero : taskStart buildList = some 0 := by decide +kernel
    cases hzero.symm.trans hstart
    exact ⟨rfl, by decide +kernel, by decide +kernel, by decide +kernel⟩
  grouped := by
    intro entries hload
    cases buildScanner_list.symm.trans hload

theorem buildScanner_reads : EditsRead buildScanner buildList (some 0) none where
  wrapped := by
    intro _ tasks start hload hstart
    cases buildScanner_list.symm.trans hload
    have hzero : taskStart buildList = some 0 := by decide +kernel
    cases hzero.symm.trans hstart
    have hwrap : wrapTasks buildList 0 = buildJobs := by decide +kernel
    rw [hwrap, buildScanner_jobs]
  renamed := by
    intro _ entries hload
    cases buildScanner_list.symm.trans hload
  clash := by
    intro _ entries hload
    cases buildScanner_list.symm.trans hload
  kept := by
    intro _ _
    have hrename : renameRootKey buildList "tasks" "jobs" = buildList := by decide +kernel
    rw [hrename]

theorem buildScanner_legacy : Legacy buildScanner (fun _ => .ok ()) buildList
    [{ name := "build", commands := ["make"], watchPatterns := ["src/**"] }] where
  read := by
    rw [fromYaml_of_load buildScanner_list]
    decide +kernel
  valid := by decide +kernel
  shape := ⟨_, [], buildScanner_list, rfl⟩

/-- A list of one task keeps its meaning. -/
theorem migration_iff_build : Preserved buildScanner (fun _ => .ok ()) buildList
    [{ name := "build", commands := ["make"], watchPatterns := ["src/**"] }] := by
  refine (migration_iff buildScanner_reads buildScanner_laidOut buildScanner_legacy).mpr ⟨_, buildScanner_list, ?_⟩
  refine ⟨by decide +kernel, List.cons_ne_nil _ _, ?_, by decide +kernel⟩
  intro task htask
  obtain rfl := List.mem_singleton.mp htask
  exact ⟨by rintro _ ⟨⟩; decide +kernel, .inl rfl, .inl rfl, by decide +kernel, by decide +kernel⟩

/-- A group of a list, and the text of it. -/
def buildGroup : Yaml := .hash [(.string "on", .hash [(.string "change", .string "src/**")]),
  (.string "tasks", .array [.hash [(.string "name", .string "build"), (.string "run", .string "make")]])]

def groupList : String := "- on:\n    change: src/**\n  tasks:\n    - name: build\n      run: make\n"

def groupJobs : String := "jobs:\n  - on:\n      change: src/**\n    tasks:\n      - name: build\n        run: make\n"

def groupScanner : String → Except ScanError (List Yaml) :=
  scanning [(groupList, .array [buildGroup]), (groupJobs, .hash [(.string "jobs", .array [buildGroup])])]

/-- The accepted list of a group becomes a text that is not accepted: the group stands where a job is read. -/
theorem group_unmigrated :
    Legacy groupScanner (fun _ => .ok ()) groupList
        [{ name := "build", commands := ["make"], watchPatterns := ["src/**"], inherited := ["src/**"] }] ∧
      migrateContent groupScanner groupList = .ok groupJobs ∧
      ¬ Accepts (fromYaml groupScanner groupJobs) ∧
      ¬ ∀ legacy rules, Legacy groupScanner (fun _ => .ok ()) legacy rules →
        Preserved groupScanner (fun _ => .ok ()) legacy rules := by
  have hlist : groupScanner groupList = .ok [.array [buildGroup]] := scanning_first _ _ _
  have hjobs : groupScanner groupJobs = .ok [.hash [(.string "jobs", .array [buildGroup])]] :=
    (scanning_next (by decide +kernel) _).trans (scanning_first _ _ _)
  have hlegacy : Legacy groupScanner (fun _ => .ok ()) groupList
      [{ name := "build", commands := ["make"], watchPatterns := ["src/**"], inherited := ["src/**"] }] := by
    refine ⟨?_, by decide +kernel, _, [], hlist, rfl⟩
    rw [fromYaml_of_load hlist]
    decide +kernel
  have hmigrate : migrateContent groupScanner groupList = .ok groupJobs := by
    rw [migrateContent, hlist]
    decide +kernel
  have hrefused : ¬ Accepts (fromYaml groupScanner groupJobs) := by
    rw [fromYaml_of_load hjobs]
    decide +kernel
  refine ⟨hlegacy, hmigrate, hrefused, fun hall => ?_⟩
  obtain ⟨migrated, hmigrated, hread, -, -⟩ := hall _ _ hlegacy
  cases hmigrate.symm.trans hmigrated
  exact hrefused ⟨_, hread⟩

end Funzzy
