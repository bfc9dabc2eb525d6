import Funzzy.Config.Pipelines

/-! The file a configuration comes from (`config.rs`, `app.rs`, `cli/control.rs`).

    The rules, each policy and the control client look for the configuration file on their own. A loader
    delivers its value with the file it read for it; `SameFile` says that all of them read one. -/

namespace Funzzy

open Fallible UnixPath

/-! ### Files -/

/-- What a path leads to. A missing entry does not exist; the others do. -/
inductive ConfigEntry where
  | missing (err : IoError)
  | unopened (err : IoError)
  | unread (err : IoError)
  | content (text : String)
  deriving DecidableEq

/-- A value and the file that was read for it. -/
structure Sourced (α : Type) where
  file : Option (List Char)
  value : α
  deriving DecidableEq

/-- `DEFAULT_FILENAME` -/
def defaultFilename : String := ".watch.yaml"

/-- `DEFAULT_FILENAME.replace("yaml", "yml")` -/
def alternativeFilename : String := ".watch.yml"

section Files

variable (colored : Bool) (load : String → Except ScanError (List Yaml)) (host : Host)
  (files : List Char → ConfigEntry) (compile : String → Except String Unit)

/-- The file a name stands for in the working directory. -/
def locate (filename : String) : List Char := join host.root.toList filename.toList

/-- `Path::exists` -/
def fileExists (filename : String) : Bool :=
  match files (locate host filename) with
  | .missing _ => false
  | _ => true

/-- `from_file` -/
def fromFile (filename : String) : Except FzzError (List Rules) :=
  match files (locate host filename) with
  | .missing err | .unopened err =>
    .error (.ioConfigError ("Couldn't open configuration file: '" ++ filename ++ "'") err)
  | .unread err => .error (.ioConfigError ("Couldn't read configuration file: '" ++ filename ++ "'") err)
  | .content text => fromYaml load text

/-- The `from_file` of a policy. -/
def policyFromFile {α : Type} (reader : Yaml → Except String α) (filename : String) : Except String α :=
  match files (locate host filename) with
  | .missing err | .unopened err | .unread err => .error err.text
  | .content text => readPolicy load reader text

/-! ### Rules -/

/-- `from_default_file_config`: any error of the first file leads to the second. -/
def fromDefaultFileConfig : Sourced (Except FzzError (List Rules)) :=
  match fromFile load host files defaultFilename with
  | .ok rules => ⟨some (locate host defaultFilename), .ok rules⟩
  | .error err =>
    match fromFile load host files alternativeFilename with
    | .ok rules => ⟨some (locate host alternativeFilename), .ok rules⟩
    | .error _ => ⟨some (locate host defaultFilename), .error err⟩

/-- `load_rules` -/
def loadRules : Option String → Sourced (Except Failure (List Rules))
  | none =>
    let loaded := fromDefaultFileConfig load host files
    ⟨loaded.file, orFailure "Failed to read default config file"
      (loaded.value.mapError (FzzError.display colored))⟩
  | some config => ⟨some (locate host config), orFailure "Failed to read config file"
      ((fromFile load host files config).mapError (FzzError.display colored))⟩

/-! ### Policies -/

/-- The file a policy is loaded from: the given one, or the first that exists. -/
def policyPath : Option String → Option String
  | some path => some path
  | none =>
    if fileExists host files defaultFilename then some defaultFilename
    else if fileExists host files alternativeFilename then some alternativeFilename
    else none

/-- The loader of a policy. -/
def loadPolicy {α β : Type} (title : String) (reader : Yaml → Except String α) (finish : α → β) (absent : β)
    (config : Option String) : Sourced (Except Failure β) :=
  match policyPath host files config with
  | none => ⟨none, .ok absent⟩
  | some path => ⟨some (locate host path),
      (orFailure title (policyFromFile load host files reader path)).map finish⟩

/-- `load_debounce` -/
def loadDebounce : Option String → Sourced (Except Failure Nat) :=
  loadPolicy load host files "Invalid debounce config" debounceFromRoot (·.getD 1000) 1000

/-- `load_watch_backend` -/
def loadWatchBackend : Option String → Sourced (Except Failure WatchBackend) :=
  loadPolicy load host files "Invalid watch backend config" watchBackendFromRoot (·.getD .auto) .auto

/-- `load_hooks` -/
def loadHooks : Option String → Sourced (Except Failure GenerationHooks) :=
  loadPolicy load host files "Invalid hooks config" generationHooksFromRoot id {}

/-- `load_session_hooks` -/
def loadSessionHooks : Option String → Sourced (Except Failure SessionHooks) :=
  loadPolicy load host files "Invalid session hooks config" sessionHooksFromRoot id {}

/-- `load_respect_gitignore` -/
def loadRespectGitignore : Option String → Sourced (Except Failure Bool) :=
  loadPolicy load host files "Invalid gitignore config" respectGitignoreFromRoot id false

/-- `load_recovery_policy` -/
def loadRecoveryPolicy : Option String → Sourced (Except Failure RecoveryPolicy) :=
  loadPolicy load host files "Invalid recovery policy config" (recoveryPolicyFromRootWithDefault .prompt) id
    .prompt

/-- `load_concurrency` -/
def loadConcurrency : Option String → Sourced (Except Failure Nat) :=
  loadPolicy load host files "Invalid concurrency config" concurrencyFromRoot (·.getD host.parallelism)
    host.parallelism

/-- `config_control_socket` -/
def configControlSocket (config : Option String) : Sourced (Except Failure (Option String)) :=
  let possible := match config with
    | none => [String.ofList (locate host defaultFilename), String.ofList (locate host alternativeFilename)]
    | some configFile => [configFile]
  match possible.find? (fileExists host files) with
  | none => ⟨none, .ok none⟩
  | some path => ⟨some (locate host path), orFailure "Invalid control socket config"
      (policyFromFile load host files controlSocketFromRoot path)⟩

/-! ### The control client -/

/-- `config_candidates` -/
def configCandidates : Option String → List String
  | some path => [path]
  | none => (if fileExists host files defaultFilename then [defaultFilename] else []) ++
      if fileExists host files alternativeFilename then [alternativeFilename] else []

/-- The loop of `resolve_socket` over the candidates. -/
def resolveCandidates : List String → Except String (Sourced String)
  | [] => .error ("no control socket configured: provide `--socket <PATH>`, `--control-socket <PATH>`, or set "
      ++ "`on.socket` in the config file")
  | candidate :: rest =>
    if fileExists host files candidate = false then .error ("config file not found: " ++ candidate)
    else match policyFromFile load host files controlSocketFromRoot candidate with
      | .error err => .error ("invalid control socket config in " ++ candidate ++ ": " ++ err)
      | .ok (some socket) => .ok ⟨some (locate host candidate), socket⟩
      | .ok none => resolveCandidates rest

/-- What the control client is told on its command line. -/
structure ClientArguments where
  socketOverride : Option String := none
  globalSocket : Option String := none
  deriving DecidableEq

/-- The socket of a flag, where one is given. -/
def ClientArguments.given (arguments : ClientArguments) : Option String :=
  (arguments.socketOverride.filter (!isBlank ·)).or (arguments.globalSocket.filter (!isBlank ·))

/-- `resolve_socket` -/
def resolveSocket (arguments : ClientArguments) (config : Option String) : Except String (Sourced String) :=
  match arguments.given with
  | some path => .ok ⟨none, path⟩
  | none => resolveCandidates load host files (configCandidates host files config)

/-! ### One file -/

/-- Everything is read from the one file. -/
structure SameFile (arguments : ClientArguments) (config : Option String) (file : List Char) : Prop where
  rules : (loadRules colored load host files config).file = some file
  debounce : (loadDebounce load host files config).file = some file
  backend : (loadWatchBackend load host files config).file = some file
  hooks : (loadHooks load host files config).file = some file
  sessionHooks : (loadSessionHooks load host files config).file = some file
  gitignore : (loadRespectGitignore load host files config).file = some file
  recoveryPolicy : (loadRecoveryPolicy load host files config).file = some file
  concurrency : (loadConcurrency load host files config).file = some file
  controlSocket : (configControlSocket load host files config).file = some file
  client : ∀ socket, resolveSocket load host files arguments config = .ok socket →
    ∀ source, socket.file = some source → source = file

/-- Where the rules are loaded, everything comes from one file. -/
def OneFile (arguments : ClientArguments) (config : Option String) : Prop :=
  ∀ rules, (loadRules colored load host files config).value = .ok rules →
    ∃ file, SameFile colored load host files arguments config file

/-- The file is given, or `.watch.yaml` does not exist; or the rules of `.watch.yaml` are read, and a client
    that finds no socket in it finds none in `.watch.yml`; or there are no rules at all. -/
def Selected (arguments : ClientArguments) (config : Option String) : Prop :=
  config.isSome = true ∨ fileExists host files defaultFilename = false ∨
  (Accepts (fromFile load host files defaultFilename) ∧
    (arguments.given = none →
      policyFromFile load host files controlSocketFromRoot defaultFilename = .ok none →
      ∀ socket, policyFromFile load host files controlSocketFromRoot alternativeFilename ≠ .ok (some socket))) ∨
  (¬ Accepts (fromFile load host files defaultFilename) ∧
    ¬ Accepts (fromFile load host files alternativeFilename))

/-! ### Looking for the file -/

theorem locate_absolute (filename : String) : isAbsolute (locate host filename) = true := by
  have hrooted := host.rooted
  unfold locate join
  cases hroot : host.root.toList with
  | nil =>
    rw [hroot] at hrooted
    cases hrooted
  | cons c root =>
    rw [hroot] at hrooted
    split
    · next h => exact h
    · split
      · exact hrooted
      · exact hrooted

/-- A located name is located where it is. -/
theorem locate_locate (filename : String) :
    locate host (String.ofList (locate host filename)) = locate host filename := by
  have h := locate_absolute host filename
  rw [locate, String.toList_ofList, join, if_pos h]

theorem locate_ne : locate host defaultFilename ≠ locate host alternativeFilename := by
  have hdefault : isAbsolute defaultFilename.toList = false := by decide
  have halternative : isAbsolute alternativeFilename.toList = false := by decide
  have hne : defaultFilename.toList ≠ alternativeFilename.toList := by decide
  unfold locate join
  rw [hdefault, halternative]
  split
  · next h => cases h
  · split
    · exact fun h => hne (List.append_cancel_left h)
    · exact fun h => hne (List.cons.inj (List.append_cancel_left h)).2

theorem fileExists_of_fromFile {filename : String} (h : Accepts (fromFile load host files filename)) :
    fileExists host files filename = true := by
  unfold fromFile at h
  unfold fileExists
  split at h
  · exact absurd h (not_accepts_error _)
  · next hentry => rw [hentry]
  · next hentry => rw [hentry]
  · next hentry => rw [hentry]

theorem fileExists_of_policy {α : Type} {reader : Yaml → Except String α} {filename : String} {value : α}
    (h : policyFromFile load host files reader filename = .ok value) :
    fileExists host files filename = true := by
  unfold policyFromFile at h
  unfold fileExists
  split at h
  · cases h
  · cases h
  · cases h
  · next hentry => rw [hentry]

theorem loadPolicy_file {α β : Type} (title : String) (reader : Yaml → Except String α) (finish : α → β)
    (absent : β) (config : Option String) :
    (loadPolicy load host files title reader finish absent config).file =
      (policyPath host files config).map (locate host) := by
  unfold loadPolicy
  split
  · next h => rw [h]; rfl
  · next h => rw [h]; rfl

/-- The file of the socket is that of the other policies, if the given one exists. -/
theorem configControlSocket_file {config : Option String}
    (h : ∀ path, config = some path → fileExists host files path = true) :
    (configControlSocket load host files config).file = (policyPath host files config).map (locate host) := by
  cases config with
  | some path => simp [configControlSocket, policyPath, h path rfl]
  | none =>
    have hexists : ∀ filename, fileExists host files (String.ofList (locate host filename)) =
        fileExists host files filename := by
      intro filename
      rw [fileExists, locate_locate, fileExists]
    simp only [configControlSocket, policyPath, List.find?_cons, hexists, List.find?_nil]
    cases fileExists host files defaultFilename with
    | true => simp [locate_locate]
    | false =>
      cases fileExists host files alternativeFilename with
      | true => simp [locate_locate]
      | false => rfl

/-- All loaders of policies look at one file, so one file is left to compare with. -/
theorem sameFile_iff {arguments : ClientArguments} {config : Option String} {file : List Char}
    (h : ∀ path, config = some path → fileExists host files path = true) :
    SameFile colored load host files arguments config file ↔
      (loadRules colored load host files config).file = some file ∧
      (policyPath host files config).map (locate host) = some file ∧
      ∀ socket, resolveSocket load host files arguments config = .ok socket →
        ∀ source, socket.file = some source → source = file := by
  constructor
  · rintro ⟨hrules, hdebounce, -, -, -, -, -, -, -, hclient⟩
    exact ⟨hrules, (loadPolicy_file ..).symm.trans hdebounce, hclient⟩
  · rintro ⟨hrules, hpolicy, hclient⟩
    have hloaded : ∀ {α β : Type} (title : String) (reader : Yaml → Except String α) (finish : α → β)
        (absent : β), (loadPolicy load host files title reader finish absent config).file = some file :=
      fun title reader finish absent => (loadPolicy_file ..).trans hpolicy
    exact ⟨hrules, hloaded .., hloaded .., hloaded .., hloaded .., hloaded .., hloaded .., hloaded ..,
      (configControlSocket_file load host files h).trans hpolicy, hclient⟩

/-- A socket of a file comes from a candidate. -/
theorem resolveCandidates_file {candidates : List String} {socket : Sourced String}
    (h : resolveCandidates load host files candidates = .ok socket) :
    ∃ candidate ∈ candidates, socket.file = some (locate host candidate) := by
  induction candidates with
  | nil => cases h
  | cons candidate rest ih =>
    unfold resolveCandidates at h
    split at h
    · cases h
    · split at h
      · cases h
      · cases h
        exact ⟨candidate, List.mem_cons_self, rfl⟩
      · obtain ⟨found, hfound, hfile⟩ := ih h
        exact ⟨found, List.mem_cons_of_mem _ hfound, hfile⟩

/-- With one candidate the client has no choice. -/
theorem resolveSocket_single {arguments : ClientArguments} {config : Option String} {candidate : String}
    (hcandidates : configCandidates host files config = [candidate]) {socket : Sourced String}
    (h : resolveSocket load host files arguments config = .ok socket) {source : List Char}
    (hsource : socket.file = some source) : source = locate host candidate := by
  unfold resolveSocket at h
  split at h
  · cases h
    cases hsource
  · rw [hcandidates] at h
    obtain ⟨found, hfound, hfile⟩ := resolveCandidates_file load host files h
    rw [List.mem_singleton] at hfound
    rw [hfound, hsource] at hfile
    exact Option.some.inj hfile

theorem accepts_loadRules {config : String} :
    (∃ rules, (loadRules colored load host files (some config)).value = .ok rules) ↔
      Accepts (fromFile load host files config) := by
  unfold loadRules
  simp only [orFailure_eq_ok]
  cases fromFile load host files config with
  | error err => exact iff_of_false (by rintro ⟨rules, ⟨⟩⟩) (not_accepts_error _)
  | ok rules => exact iff_of_true ⟨rules, rfl⟩ (accepts_ok _)

/-- A given file is the only one. -/
theorem oneFile_given (arguments : ClientArguments) (path : String) :
    OneFile colored load host files arguments (some path) := by
  intro rules hrules
  have hexists : fileExists host files path = true :=
    fileExists_of_fromFile load host files ((accepts_loadRules ..).mp ⟨rules, hrules⟩)
  refine ⟨locate host path, (sameFile_iff colored load host files ?_).mpr ⟨rfl, rfl, ?_⟩⟩
  · rintro _ ⟨⟩
    exact hexists
  · intro socket hsocket source hsource
    exact resolveSocket_single load host files rfl hsocket hsource

/-- `.watch.yml` alone gives no socket that it does not declare. -/
theorem not_resolved {socket : Sourced String}
    (h : ∀ socket, policyFromFile load host files controlSocketFromRoot alternativeFilename ≠
      .ok (some socket)) :
    resolveCandidates load host files
      (if fileExists host files alternativeFilename then [alternativeFilename] else []) ≠ .ok socket := by
  intro hsocket
  split at hsocket
  · next hexists =>
    simp only [resolveCandidates, hexists, Bool.true_eq_false, if_false] at hsocket
    split at hsocket
    · cases hsocket
    · next hdeclared => exact h _ hdeclared
    · cases hsocket
  · cases hsocket

/-- The client stays with `.watch.yaml`, unless only `.watch.yml` declares a socket. -/
theorem resolveSocket_default_iff {arguments : ClientArguments}
    (hexists : fileExists host files defaultFilename = true) :
    (∀ socket, resolveSocket load host files arguments none = .ok socket →
        ∀ source, socket.file = some source → source = locate host defaultFilename) ↔
      (arguments.given = none →
        policyFromFile load host files controlSocketFromRoot defaultFilename = .ok none →
        ∀ socket, policyFromFile load host files controlSocketFromRoot alternativeFilename ≠
          .ok (some socket)) := by
  unfold resolveSocket
  constructor
  · intro h hgiven hdefault socket hsocket
    have halternative := fileExists_of_policy load host files hsocket
    refine locate_ne host (h ⟨some (locate host alternativeFilename), socket⟩ ?_ _ rfl).symm
    simp [hgiven, configCandidates, hexists, halternative, resolveCandidates, hdefault, hsocket]
  · intro h socket hsocket source hsource
    split at hsocket
    · cases hsocket
      cases hsource
    · next hgiven =>
      simp only [configCandidates, hexists, if_true, List.singleton_append, resolveCandidates,
        Bool.true_eq_false, if_false] at hsocket
      split at hsocket
      · cases hsocket
      · cases hsocket
        exact (Option.some.inj hsource).symm
      · next hdefault =>
        -- the client has passed on to `.watch.yml`
        exact absurd hsocket (not_resolved load host files (h hgiven hdefault))

/-- The rules of `.watch.yaml` are read, and all but the client stays with it. -/
theorem oneFile_default_iff {arguments : ClientArguments}
    (h : Accepts (fromFile load host files defaultFilename)) :
    OneFile colored load host files arguments none ↔
      ∀ socket, resolveSocket load host files arguments none = .ok socket →
        ∀ source, socket.file = some source → source = locate host defaultFilename := by
  have hexists := fileExists_of_fromFile load host files h
  obtain ⟨rules, hrules⟩ := h
  have hloaded : loadRules colored load host files none =
      ⟨some (locate host defaultFilename), .ok rules⟩ := by
    simp [loadRules, fromDefaultFileConfig, hrules, Except.mapError, orFailure]
  have hpolicy : policyPath host files none = some defaultFilename := if_pos hexists
  constructor
  · intro hone
    obtain ⟨file, hfile⟩ := hone rules (by rw [hloaded])
    obtain ⟨hfile, -, hclient⟩ := (sameFile_iff colored load host files (by rintro _ ⟨⟩)).mp hfile
    rw [hloaded] at hfile
    cases hfile
    exact hclient
  · intro hclient _ _
    refine ⟨locate host defaultFilename, (sameFile_iff colored load host files (by rintro _ ⟨⟩)).mpr ?_⟩
    exact ⟨by rw [hloaded], by rw [hpolicy]; rfl, hclient⟩

/-- The rules are those of `.watch.yml`. -/
theorem loadRules_alternative {rules : List Rules}
    (hdefault : ¬ Accepts (fromFile load host files defaultFilename))
    (halternative : fromFile load host files alternativeFilename = .ok rules) :
    loadRules colored load host files none = ⟨some (locate host alternativeFilename), .ok rules⟩ := by
  cases hfirst : fromFile load host files defaultFilename with
  | ok rules => exact absurd ⟨rules, hfirst⟩ hdefault
  | error err => simp [loadRules, fromDefaultFileConfig, hfirst, halternative, Except.mapError, orFailure]

/-- Rules of `.watch.yml` go with its policies only where there is no `.watch.yaml`. -/
theorem oneFile_alternative_iff {arguments : ClientArguments}
    (hdefault : ¬ Accepts (fromFile load host files defaultFilename))
    (halternative : Accepts (fromFile load host files alternativeFilename)) :
    OneFile colored load host files arguments none ↔ fileExists host files defaultFilename = false := by
  have hexists := fileExists_of_fromFile load host files halternative
  obtain ⟨rules, hrules⟩ := halternative
  have hloaded := loadRules_alternative colored load host files hdefault hrules
  constructor
  · intro hone
    obtain ⟨file, hfile⟩ := hone rules (by rw [hloaded])
    obtain ⟨hfile, hpolicy, -⟩ := (sameFile_iff colored load host files (by rintro _ ⟨⟩)).mp hfile
    rw [hloaded] at hfile
    cases hfile
    rw [← Bool.not_eq_true]
    intro hfirst
    rw [policyPath, if_pos hfirst] at hpolicy
    exact locate_ne host (Option.some.inj hpolicy)
  · intro hmissing _ _
    have hpolicy : policyPath host files none = some alternativeFilename := by
      simp [policyPath, hmissing, hexists]
    have hcandidates : configCandidates host files none = [alternativeFilename] := by
      simp [configCandidates, hmissing, hexists]
    refine ⟨locate host alternativeFilename, (sameFile_iff colored load host files (by rintro _ ⟨⟩)).mpr ?_⟩
    refine ⟨by rw [hloaded], by rw [hpolicy]; rfl, ?_⟩
    intro socket hsocket source hsource
    exact resolveSocket_single load host files hcandidates hsocket hsource

theorem oneFile_unloaded {arguments : ClientArguments}
    (hdefault : ¬ Accepts (fromFile load host files defaultFilename))
    (halternative : ¬ Accepts (fromFile load host files alternativeFilename)) :
    OneFile colored load host files arguments none := by
  intro rules hrules
  unfold loadRules fromDefaultFileConfig at hrules
  cases hfirst : fromFile load host files defaultFilename with
  | ok rules => exact absurd ⟨rules, hfirst⟩ hdefault
  | error err =>
    cases hsecond : fromFile load host files alternativeFilename with
    | ok rules => exact absurd ⟨rules, hsecond⟩ halternative
    | error err' =>
      simp only [hfirst, hsecond] at hrules
      cases hrules

theorem one_file_iff (arguments : ClientArguments) (config : Option String) :
    OneFile colored load host files arguments config ↔ Selected load host files arguments config := by
  cases config with
  | some path => exact iff_of_true (oneFile_given colored load host files arguments path) (.inl rfl)
  | none =>
    by_cases hdefault : Accepts (fromFile load host files defaultFilename)
    · have hexists := fileExists_of_fromFile load host files hdefault
      rw [oneFile_default_iff colored load host files hdefault, resolveSocket_default_iff load host files hexists]
      simp [Selected, hexists, hdefault]
    · by_cases halternative : Accepts (fromFile load host files alternativeFilename)
      · rw [oneFile_alternative_iff colored load host files hdefault halternative]
        simp [Selected, hdefault, halternative]
      · exact iff_of_true (oneFile_unloaded colored load host files hdefault halternative)
          (.inr (.inr (.inr ⟨hdefault, halternative⟩)))

/-! ### Startup -/

/-- `effective_concurrency` -/
def startConcurrency (flags : Flags) (config : Option String) : Except Failure Nat :=
  if flags.sequential then .ok 1 else (loadConcurrency load host files config).value

/-- `effective_recovery_policy` -/
def startRecoveryPolicy (flags : Flags) (config : Option String) : Except Failure RecoveryPolicy :=
  match flags.recoveryPolicy with
  | some policy => .ok policy
  | none => (loadRecoveryPolicy load host files config).value

/-- The socket of the flag, or else `config_control_socket`. -/
def startSocket (flags : Flags) (config : Option String) : Except Failure (Option String) :=
  match flags.controlSocket with
  | some path => .ok (some path)
  | none => (configControlSocket load host files config).value

/-- The start of `fzz watch`, up to the initial revision. -/
def startFromFiles (flags : Flags) (config : Option String) : Except Failure (Watches × Captured) := do
  let rules ← (loadRules colored load host files config).value
  let concurrency ← startConcurrency load host files flags config
  let debounce ← (loadDebounce load host files config).value
  let backend ← (loadWatchBackend load host files config).value
  orFailure "Invalid config file." (validateRules compile rules)
  let respectGitignore ← (loadRespectGitignore load host files config).value
  let recoveryPolicy ← startRecoveryPolicy load host files flags config
  let hooks ← (loadHooks load host files config).value
  let sessionHooks ← (loadSessionHooks load host files config).value
  let controlSocket ← startSocket load host files flags config
  let captured : Captured :=
    { root := host.root, rules, concurrency, debounce, backend, respectGitignore, recoveryPolicy, hooks,
      sessionHooks, controlSocket }
  let watches ← orFailure "panic" (captured.watches host)
  pure (watches, captured)

theorem fromFile_eq_ok {filename : String} {rules : List Rules} :
    fromFile load host files filename = .ok rules ↔
      ∃ text, files (locate host filename) = .content text ∧ fromYaml load text = .ok rules := by
  unfold fromFile
  split
  · next h => simp [h]
  · next h => simp [h]
  · next h => simp [h]
  · next h => simp [h]

/-- Loaded rules are those of the text of their file. -/
theorem loadRules_text {config : Option String} {file : List Char} {rules : List Rules}
    (hrules : (loadRules colored load host files config).value = .ok rules)
    (hfile : (loadRules colored load host files config).file = some file) :
    ∃ text, files file = .content text ∧ readRules colored load text = .ok rules := by
  have hread : ∀ filename, fromFile load host files filename = .ok rules →
      ∃ text, files (locate host filename) = .content text ∧ readRules colored load text = .ok rules := by
    intro filename hfrom
    obtain ⟨text, htext, hyaml⟩ := (fromFile_eq_ok load host files).mp hfrom
    exact ⟨text, htext, mapError_eq_ok.mpr hyaml⟩
  cases config with
  | some config =>
    simp only [loadRules, orFailure_eq_ok, mapError_eq_ok] at hrules
    cases hfile
    exact hread _ hrules
  | none =>
    simp only [loadRules, orFailure_eq_ok, mapError_eq_ok] at hrules hfile
    unfold fromDefaultFileConfig at hrules hfile
    cases hfirst : fromFile load host files defaultFilename with
    | ok first =>
      simp only [hfirst] at hrules hfile
      cases hfile
      exact hread _ (hfirst.trans hrules)
    | error err =>
      cases hsecond : fromFile load host files alternativeFilename with
      | ok second =>
        simp only [hfirst, hsecond] at hrules hfile
        cases hfile
        exact hread _ (hsecond.trans hrules)
      | error err' =>
        simp only [hfirst, hsecond] at hrules
        cases hrules

theorem loadPolicy_value {α β : Type} {title : String} {reader : Yaml → Except String α} {finish : α → β}
    {absent : β} {config : Option String} {file : List Char} {text : String}
    (hfile : (policyPath host files config).map (locate host) = some file)
    (htext : files file = .content text) :
    (loadPolicy load host files title reader finish absent config).value =
      (orFailure title (readPolicy load reader text)).map finish := by
  obtain ⟨path, hpath, rfl⟩ := Option.map_eq_some_iff.mp hfile
  simp only [loadPolicy, hpath, policyFromFile, htext]

theorem configControlSocket_value {config : Option String} {file : List Char} {text : String}
    (hfile : (configControlSocket load host files config).file = some file)
    (htext : files file = .content text) :
    (configControlSocket load host files config).value =
      orFailure "Invalid control socket config" (readPolicy load controlSocketFromRoot text) := by
  unfold configControlSocket at hfile ⊢
  simp only at hfile ⊢
  generalize List.find? (fileExists host files) _ = found at hfile ⊢
  cases found with
  | none => cases hfile
  | some path =>
    cases hfile
    simp only [policyFromFile, htext]

/-- With one file, the start is that of its text. -/
theorem startFromFiles_text {flags : Flags} {arguments : ClientArguments} {config : Option String}
    {file : List Char} {rules : List Rules}
    (hrules : (loadRules colored load host files config).value = .ok rules)
    (hfile : SameFile colored load host files arguments config file) :
    ∃ text, files file = .content text ∧
      startFromFiles colored load host files compile flags config =
        watchStartup colored load compile host flags text := by
  obtain ⟨text, htext, hread⟩ := loadRules_text colored load host files hrules hfile.rules
  refine ⟨text, htext, ?_⟩
  have hpolicy : (policyPath host files config).map (locate host) = some file :=
    (loadPolicy_file ..).symm.trans hfile.debounce
  have hloaded : ∀ {α β : Type} (title : String) (reader : Yaml → Except String α) (finish : α → β)
      (absent : β), (loadPolicy load host files title reader finish absent config).value =
        (orFailure title (readPolicy load reader text)).map finish :=
    fun title reader finish absent => loadPolicy_value load host files hpolicy htext
  have hconcurrency : startConcurrency load host files flags config =
      effectiveConcurrency load host flags text := by
    unfold startConcurrency effectiveConcurrency loadConcurrency
    rw [hloaded, map_eq_bind]
  have hrecovery : startRecoveryPolicy load host files flags config =
      effectiveRecoveryPolicy load flags text := by
    unfold startRecoveryPolicy effectiveRecoveryPolicy loadRecoveryPolicy
    cases flags.recoveryPolicy with
    | some policy => rfl
    | none => exact (hloaded ..).trans (map_id_eq _)
  have hsocket : startSocket load host files flags config = effectiveSocket load flags text := by
    unfold startSocket effectiveSocket
    cases flags.controlSocket with
    | some socket => rfl
    | none => exact configControlSocket_value load host files hfile.controlSocket htext
  have hrules : (loadRules colored load host files config).value =
      orFailure "Failed to read config file" (readRules colored load text) := by
    rw [hrules, hread, orFailure]
  unfold startFromFiles watchStartup
  simp only [hrules, hconcurrency, hrecovery, hsocket, loadDebounce, loadWatchBackend, loadRespectGitignore,
    loadHooks, loadSessionHooks, hloaded, Fallible.map_bind, id]

end Files

/-- A `.watch.yaml` with a policy and no rules. -/
def unlistedJobs : String := "on:\n  debounce: 50ms\njobs: []\n"

def listedJobs : String := "jobs:\n  - name: build\n    run: make\n    change: src/**\n"

/-- The trees of the two texts. -/
def loadJobs (text : String) : Except ScanError (List Yaml) :=
  if text = unlistedJobs then
    .ok [.hash [(.string "on", .hash [(.string "debounce", .string "50ms")]), (.string "jobs", .array [])]]
  else
    .ok [.hash [(.string "jobs", .array [.hash [(.string "name", .string "build"),
      (.string "run", .string "make"), (.string "change", .string "src/**")]])]]

/-- A working directory with both files. -/
def bothFiles (path : List Char) : ConfigEntry :=
  if path = "/ws/.watch.yaml".toList then .content unlistedJobs
  else if path = "/ws/.watch.yml".toList then .content listedJobs
  else .missing ⟨.notFound, "No such file or directory (os error 2)"⟩

/-- The watcher runs the rules of one file under the debounce of the other. -/
theorem rules_and_policies_split : ¬ OneFile false loadJobs workstation bothFiles {} none := by
  have hdefault : ¬ Accepts (fromFile loadJobs workstation bothFiles defaultFilename) := by decide +kernel
  have halternative : Accepts (fromFile loadJobs workstation bothFiles alternativeFilename) := by
    decide +kernel
  have hexists : fileExists workstation bothFiles defaultFilename = true := by decide +kernel
  rw [oneFile_alternative_iff false loadJobs workstation bothFiles hdefault halternative, hexists]
  exact Bool.noConfusion

end Funzzy
