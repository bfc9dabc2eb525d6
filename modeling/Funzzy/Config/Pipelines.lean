import Funzzy.Config.Readers
import Funzzy.Reload.Overrides
import Funzzy.Reload.Revision

/-! The pipelines a configuration text goes through (`app.rs`, `reload.rs`, `reload_session.rs`).

    `fzz check`, the start of a watcher and a reload each call readers of their own choice. What a pipeline
    accepts is read off the readers it calls: `accepts_bind` takes one reader off the front. -/

namespace Funzzy

open Fallible

/-! ### Pipelines -/

section Pipelines

variable (colored : Bool) (load : String → Except ScanError (List Yaml))
  (compile : String → Except String Unit)

/-- A policy reader on a text. -/
def readPolicy {α : Type} (reader : Yaml → Except String α) (content : String) : Except String α := do
  reader (← firstDocument load content)

/-- A failure that ends the command: its title and its reason. -/
abbrev Failure := String × String

/-- `unwrap_or_else(|err| stdout::failure(title, err))` -/
def orFailure {α : Type} (title : String) : Except String α → Except Failure α
  | .ok value => .ok value
  | .error err => .error (title, err)

/-- `from_yaml` with its error as a text. -/
def readRules (content : String) : Except String (List Rules) :=
  (fromYaml load content).mapError (FzzError.display colored)

/-- What `fzz check` says of a valid text. -/
structure CheckReport where
  jobs : Nat
  grouped : Nat
  debounce : Option Nat
  concurrency : Nat
  deriving DecidableEq

/-- `check_config`, less its warning about paths that do not exist. -/
def checkConfig (host : Host) (content : String) : Except Failure CheckReport := do
  let rules ← orFailure "Invalid config file." (readRules colored load content)
  orFailure "Invalid config file." (validateRules compile rules)
  let _ ← orFailure "Invalid watcher close hook." (readPolicy load sessionHooksFromRoot content)
  let debounce ← orFailure "Invalid debounce config" (readPolicy load debounceFromRoot content)
  let _ ← orFailure "Invalid recovery policy config"
    (readPolicy load (recoveryPolicyFromRootWithDefault .prompt) content)
  let concurrency ← orFailure "Invalid concurrency config" (readPolicy load concurrencyFromRoot content)
  pure { jobs := rules.length
         grouped := (rules.filter (·.parallel.isSome)).length
         debounce
         concurrency := concurrency.getD host.parallelism }

/-- The flags that replace a declared policy. -/
structure Flags where
  sequential : Bool := false
  recoveryPolicy : Option RecoveryPolicy := none
  controlSocket : Option String := none
  deriving DecidableEq

/-- `RuntimeConfig::capture` -/
structure Captured where
  root : String
  rules : List Rules
  concurrency : Nat
  debounce : Nat
  backend : WatchBackend
  respectGitignore : Bool
  recoveryPolicy : RecoveryPolicy
  hooks : GenerationHooks
  sessionHooks : SessionHooks
  controlSocket : Option String
  deriving DecidableEq

/-- The configuration of a watcher, with its control socket. -/
def Watches.captured (w : Watches) (controlSocket : Option String) : Captured where
  root := w.root
  rules := w.rules
  concurrency := w.concurrency
  debounce := w.debounce
  backend := w.backend
  respectGitignore := w.respectGitignore
  recoveryPolicy := w.recoveryPolicy
  hooks := w.hooks
  sessionHooks := w.sessionHooks
  controlSocket

/-- The watcher of a captured configuration; a limit of zero fails an assertion. -/
def Captured.watches (host : Host) (c : Captured) : Except String Watches :=
  if h : 0 < c.concurrency then
    .ok { Watches.withRootAndConcurrency c.rules host.root c.concurrency host.rooted h with
          debounce := c.debounce
          backend := c.backend
          respectGitignore := c.respectGitignore
          recoveryPolicy := c.recoveryPolicy
          hooks := c.hooks
          sessionHooks := c.sessionHooks }
  else .error "watch concurrency must be positive"

/-- `effective_concurrency` -/
def effectiveConcurrency (host : Host) (flags : Flags) (content : String) : Except Failure Nat :=
  if flags.sequential then .ok 1
  else do
    let declared ← orFailure "Invalid concurrency config" (readPolicy load concurrencyFromRoot content)
    pure (declared.getD host.parallelism)

/-- `effective_recovery_policy` -/
def effectiveRecoveryPolicy (flags : Flags) (content : String) : Except Failure RecoveryPolicy :=
  match flags.recoveryPolicy with
  | some policy => .ok policy
  | none =>
    orFailure "Invalid recovery policy config"
      (readPolicy load (recoveryPolicyFromRootWithDefault .prompt) content)

/-- The socket of the flag, or else `config_control_socket`. -/
def effectiveSocket (flags : Flags) (content : String) : Except Failure (Option String) :=
  match flags.controlSocket with
  | some path => .ok (some path)
  | none => orFailure "Invalid control socket config" (readPolicy load controlSocketFromRoot content)

/-- The start of `fzz watch` on a text, up to the initial revision. -/
def watchStartup (host : Host) (flags : Flags) (content : String) : Except Failure (Watches × Captured) := do
  let rules ← orFailure "Failed to read config file" (readRules colored load content)
  let concurrency ← effectiveConcurrency load host flags content
  let debounce ← orFailure "Invalid debounce config" (readPolicy load debounceFromRoot content)
  let backend ← orFailure "Invalid watch backend config" (readPolicy load watchBackendFromRoot content)
  orFailure "Invalid config file." (validateRules compile rules)
  let respectGitignore ← orFailure "Invalid gitignore config"
    (readPolicy load respectGitignoreFromRoot content)
  let recoveryPolicy ← effectiveRecoveryPolicy load flags content
  let hooks ← orFailure "Invalid hooks config" (readPolicy load generationHooksFromRoot content)
  let sessionHooks ← orFailure "Invalid session hooks config" (readPolicy load sessionHooksFromRoot content)
  let controlSocket ← effectiveSocket load flags content
  let captured : Captured :=
    { root := host.root, rules, concurrency, debounce := debounce.getD 1000, backend := backend.getD .auto,
      respectGitignore, recoveryPolicy, hooks, sessionHooks, controlSocket }
  let watches ← orFailure "panic" (captured.watches host)
  pure (watches, captured)

/-- `validate_candidate`, with the reason of its error. -/
def validateCandidate (host : Host) (defaults : PolicyDefaults) (content : String) :
    Except String Captured := do
  let rules ← readRules colored load content
  validateRules compile rules
  let concurrency ← readPolicy load concurrencyFromRoot content
  let debounce ← readPolicy load debounceFromRoot content
  let backend ← readPolicy load watchBackendFromRoot content
  let respectGitignore ← readPolicy load respectGitignoreFromRoot content
  let recoveryPolicy ←
    readPolicy load (recoveryPolicyFromRootWithDefault defaults.recoveryPolicy) content
  let hooks ← readPolicy load generationHooksFromRoot content
  let sessionHooks ← readPolicy load sessionHooksFromRoot content
  let controlSocket ← readPolicy load controlSocketFromRoot content
  pure { root := host.root
         rules
         concurrency := concurrency.getD defaults.concurrency
         debounce := debounce.getD defaults.debounce
         backend := backend.getD defaults.backend
         respectGitignore
         recoveryPolicy
         hooks
         sessionHooks
         controlSocket }

/-- `build_watches_from_content` -/
def buildWatches (host : Host) (defaults : PolicyDefaults) (content : String) (revision : ConfigRevision) :
    Except String Watches := do
  let rules ← readRules colored load content
  validateRules compile rules
  let concurrency ← readPolicy load concurrencyFromRoot content
  let debounce ← readPolicy load debounceFromRoot content
  let backend ← readPolicy load watchBackendFromRoot content
  let respectGitignore ← readPolicy load respectGitignoreFromRoot content
  let recoveryPolicy ←
    readPolicy load (recoveryPolicyFromRootWithDefault defaults.recoveryPolicy) content
  let hooks ← readPolicy load generationHooksFromRoot content
  let sessionHooks ← readPolicy load sessionHooksFromRoot content
  let captured : Captured :=
    { root := host.root
      rules
      concurrency := concurrency.getD defaults.concurrency
      debounce := debounce.getD defaults.debounce
      backend := backend.getD defaults.backend
      respectGitignore
      recoveryPolicy
      hooks
      sessionHooks
      controlSocket := none }
  let watches ← captured.watches host
  pure { watches with revision := some revision }

/-! ### Acceptance -/

theorem orFailure_eq_ok {α : Type} (title : String) (result : Except String α) (value : α) :
    orFailure title result = .ok value ↔ result = .ok value := by
  cases result with
  | error err => exact iff_of_false (by rintro ⟨⟩) (by rintro ⟨⟩)
  | ok value' =>
    constructor
    · rintro ⟨⟩
      rfl
    · rintro ⟨⟩
      rfl

theorem accepts_orFailure {α : Type} (title : String) (result : Except String α) :
    Accepts (orFailure title result) ↔ Accepts result :=
  exists_congr fun value => orFailure_eq_ok title result value

/-- A reader whose error ends the command, and whose value does not decide what follows. -/
theorem accepts_orFailure_step {α β : Type} {title : String} {result : Except String α}
    {next : α → Except Failure β} {P : Prop}
    (h : ∀ value, result = .ok value → (Accepts (next value) ↔ P)) :
    Accepts (orFailure title result >>= next) ↔ Accepts result ∧ P := by
  refine (accepts_step fun value hvalue => h value ((orFailure_eq_ok _ _ _).mp hvalue)).trans ?_
  rw [accepts_orFailure]

/-- The rules of the text are read and valid. -/
def ValidRules (content : String) : Prop :=
  ∃ rules, readRules colored load content = .ok rules ∧ Accepts (validateRules compile rules)

/-- The policy of the text is read. -/
def Readable {α : Type} (reader : Yaml → Except String α) (content : String) : Prop :=
  Accepts (readPolicy load reader content)

theorem concurrencyFromRoot_pos {root : Yaml} {declared : Option Nat}
    (h : concurrencyFromRoot root = .ok declared) {default : Nat} (hpos : 0 < default) :
    0 < declared.getD default := by
  unfold concurrencyFromRoot at h
  split at h
  · cases h
    exact hpos
  · split at h
    · cases h
      exact hpos
    · split at h
      · next hvalue =>
        cases h
        rw [Option.getD_some]
        omega
      · cases h
    · cases h
  · cases h

theorem readConcurrency_pos {content : String} {declared : Option Nat}
    (h : readPolicy load concurrencyFromRoot content = .ok declared) {default : Nat} (hpos : 0 < default) :
    0 < declared.getD default := by
  obtain ⟨root, -, hroot⟩ := (bind_eq_ok _ _ _).mp h
  exact concurrencyFromRoot_pos hroot hpos

/-- Whether a recovery policy is read does not depend on the default. -/
theorem readable_recovery (default default' : RecoveryPolicy) (content : String) :
    Readable load (recoveryPolicyFromRootWithDefault default) content ↔
      Readable load (recoveryPolicyFromRootWithDefault default') content := by
  unfold Readable readPolicy
  rw [accepts_bind, accepts_bind]
  refine exists_congr fun root => and_congr_right fun _ => ?_
  unfold recoveryPolicyFromRootWithDefault
  split
  · exact iff_of_true (accepts_ok _) (accepts_ok _)
  · exact Iff.rfl

/-- The rules come first, and are validated somewhere behind. -/
theorem accepts_rules {ε β : Type} {result : Except ε (List Rules)} {read : Except String (List Rules)}
    {next : List Rules → Except ε β} {valid : List Rules → Prop} {P : Prop}
    (hresult : ∀ rules, result = .ok rules ↔ read = .ok rules)
    (h : ∀ rules, Accepts (next rules) ↔ valid rules ∧ P) :
    Accepts (result >>= next) ↔ (∃ rules, read = .ok rules ∧ valid rules) ∧ P := by
  rw [accepts_bind]
  constructor
  · rintro ⟨rules, hrules, haccepts⟩
    obtain ⟨hvalid, hP⟩ := (h rules).mp haccepts
    exact ⟨⟨rules, (hresult rules).mp hrules, hvalid⟩, hP⟩
  · rintro ⟨⟨rules, hrules, hvalid⟩, hP⟩
    exact ⟨rules, (hresult rules).mpr hrules, (h rules).mpr ⟨hvalid, hP⟩⟩

theorem check_accepts_iff (host : Host) (content : String) :
    Accepts (checkConfig colored load compile host content) ↔
      ValidRules colored load compile content ∧ Readable load sessionHooksFromRoot content ∧
      Readable load debounceFromRoot content ∧
      Readable load (recoveryPolicyFromRootWithDefault .prompt) content ∧
      Readable load concurrencyFromRoot content :=
  accepts_rules (fun rules => orFailure_eq_ok _ _ rules) fun _ =>
    accepts_orFailure_step fun _ _ => accepts_orFailure_step fun _ _ => accepts_orFailure_step fun _ _ =>
    accepts_orFailure_step fun _ _ => accepts_last.trans (accepts_orFailure _ _)

theorem parseHashFormat_recovery {yaml : Yaml} {allowEmpty : Bool} {rules : List Rules}
    (h : parseHashFormat yaml allowEmpty = .ok rules) (default : RecoveryPolicy) :
    Accepts (recoveryPolicyFromRootWithDefault default yaml) := by
  obtain ⟨-, -, -, -, -, hpolicy, -⟩ := (parseHashFormat_eq_ok _ _ _).mp h
  unfold recoveryPolicyFromRootWithDefault
  split
  · exact accepts_ok _
  · exact hpolicy

/-- A text whose rules are read declares a recovery policy that is read. -/
theorem readable_recovery_of_valid {content : String} (h : ValidRules colored load compile content)
    (default : RecoveryPolicy) : Readable load (recoveryPolicyFromRootWithDefault default) content := by
  obtain ⟨rules, hrules, -⟩ := h
  have hread : ∃ rules, fromYaml load content = .ok rules := by
    unfold readRules at hrules
    cases hyaml : fromYaml load content with
    | error err =>
      rw [hyaml] at hrules
      cases hrules
    | ok rules => exact ⟨rules, rfl⟩
  obtain ⟨rules, hrules⟩ := hread
  unfold fromYaml at hrules
  split at hrules
  · cases hrules
  · cases hrules
  · next document documents hload =>
    have hdocument : firstDocument load content = .ok document := by simp [firstDocument, hload]
    refine (accepts_bind _ _).mpr ⟨document, hdocument, ?_⟩
    cases document with
    | hash entries => exact parseHashFormat_recovery hrules default
    | array items => exact accepts_ok _
    | _ => cases hrules

/-! ### Startup -/

theorem effectiveConcurrency_pos {host : Host} {flags : Flags} {content : String} {limit : Nat}
    (h : effectiveConcurrency load host flags content = .ok limit) : 0 < limit := by
  unfold effectiveConcurrency at h
  split at h
  · cases h
    exact Nat.one_pos
  · obtain ⟨declared, hdeclared, hlimit⟩ := (bind_eq_ok _ _ _).mp h
    cases hlimit
    exact readConcurrency_pos load ((orFailure_eq_ok _ _ _).mp hdeclared) host.positive

theorem accepts_effectiveConcurrency (host : Host) (flags : Flags) (content : String) :
    Accepts (effectiveConcurrency load host flags content) ↔
      flags.sequential = true ∨ Readable load concurrencyFromRoot content := by
  unfold effectiveConcurrency
  split
  · next hsequential => exact iff_of_true (accepts_ok _) (.inl hsequential)
  · next hsequential =>
    rw [or_iff_right hsequential]
    exact accepts_last.trans (accepts_orFailure _ _)

theorem accepts_effectiveSocket (flags : Flags) (content : String) :
    Accepts (effectiveSocket load flags content) ↔
      flags.controlSocket.isSome = true ∨ Readable load controlSocketFromRoot content := by
  unfold effectiveSocket
  split
  · next path hpath => exact iff_of_true (accepts_ok _) (.inl (by rw [hpath]; rfl))
  · next hnone =>
    rw [or_iff_right (by rw [hnone]; exact Bool.false_ne_true)]
    exact accepts_orFailure _ _

theorem accepts_effectiveRecoveryPolicy (flags : Flags) (content : String) :
    Accepts (effectiveRecoveryPolicy load flags content) ↔ flags.recoveryPolicy.isSome = true ∨
      Readable load (recoveryPolicyFromRootWithDefault .prompt) content := by
  unfold effectiveRecoveryPolicy
  split
  · next policy hpolicy => exact iff_of_true (accepts_ok _) (.inl (by rw [hpolicy]; rfl))
  · next hnone =>
    rw [or_iff_right (by rw [hnone]; exact Bool.false_ne_true)]
    exact accepts_orFailure _ _

theorem Captured.watches_accepts {c : Captured} (host : Host) (h : 0 < c.concurrency) :
    Accepts (c.watches host) := by
  unfold Captured.watches
  rw [dif_pos h]
  exact accepts_ok _

theorem Captured.captured_watches {c : Captured} {host : Host} {w : Watches} (hroot : c.root = host.root)
    (h : c.watches host = .ok w) : w.captured c.controlSocket = c := by
  unfold Captured.watches at h
  split at h
  · cases h
    cases c
    cases hroot
    rfl
  · cases h

theorem startup_accepts_iff (host : Host) (flags : Flags) (content : String) :
    Accepts (watchStartup colored load compile host flags content) ↔
      ValidRules colored load compile content ∧
      (flags.sequential = true ∨ Readable load concurrencyFromRoot content) ∧
      Readable load debounceFromRoot content ∧ Readable load watchBackendFromRoot content ∧
      Readable load respectGitignoreFromRoot content ∧
      (flags.recoveryPolicy.isSome = true ∨
        Readable load (recoveryPolicyFromRootWithDefault .prompt) content) ∧
      Readable load generationHooksFromRoot content ∧
      Readable load sessionHooksFromRoot content ∧
      (flags.controlSocket.isSome = true ∨ Readable load controlSocketFromRoot content) := by
  refine accepts_rules (fun rules => orFailure_eq_ok _ _ rules) fun rules => ?_
  refine (accepts_step fun concurrency hconcurrency => accepts_orFailure_step fun _ _ =>
    accepts_orFailure_step fun _ _ => accepts_orFailure_step fun _ _ =>
    accepts_orFailure_step fun _ _ => accepts_step fun _ _ => accepts_orFailure_step fun _ _ =>
    accepts_orFailure_step fun _ _ => accepts_step fun _ _ => iff_true_intro ?_).trans ?_
  · refine accepts_last.mpr ((accepts_orFailure _ _).mpr ?_)
    exact Captured.watches_accepts host (effectiveConcurrency_pos load hconcurrency)
  · rw [accepts_effectiveConcurrency, accepts_effectiveSocket, accepts_effectiveRecoveryPolicy, and_true]
    simp only [Readable]
    tauto

/-- What startup hashes is the configuration it starts with. -/
theorem startup_captured {host : Host} {flags : Flags} {content : String} {w : Watches} {captured : Captured}
    (h : watchStartup colored load compile host flags content = .ok (w, captured)) :
    w.captured captured.controlSocket = captured := by
  unfold watchStartup at h
  simp only [bind_eq_ok] at h
  obtain ⟨_, -, _, -, _, -, _, -, _, -, _, -, _, -, _, -, _, -, _, -, watches, hwatches, hpure⟩ := h
  cases hpure
  exact Captured.captured_watches rfl ((orFailure_eq_ok _ _ _).mp hwatches)

/-! ### Reloading -/

theorem validate_accepts_iff (host : Host) (defaults : PolicyDefaults) (content : String) :
    Accepts (validateCandidate colored load compile host defaults content) ↔
      ValidRules colored load compile content ∧ Readable load concurrencyFromRoot content ∧
      Readable load debounceFromRoot content ∧ Readable load watchBackendFromRoot content ∧
      Readable load respectGitignoreFromRoot content ∧
      Readable load (recoveryPolicyFromRootWithDefault defaults.recoveryPolicy) content ∧
      Readable load generationHooksFromRoot content ∧ Readable load sessionHooksFromRoot content ∧
      Readable load controlSocketFromRoot content :=
  accepts_rules (fun _ => Iff.rfl) fun _ =>
    accepts_step fun _ _ => accepts_step fun _ _ => accepts_step fun _ _ => accepts_step fun _ _ =>
    accepts_step fun _ _ => accepts_step fun _ _ => accepts_step fun _ _ => accepts_step fun _ _ =>
    accepts_last

/-- The commit of a validated text builds what was validated. -/
theorem build_captured {host : Host} {defaults : PolicyDefaults} {content : String} {captured : Captured}
    (h : validateCandidate colored load compile host defaults content = .ok captured)
    (revision : ConfigRevision) :
    ∃ w, buildWatches colored load compile host defaults content revision = .ok w ∧
      w.revision = some revision ∧ w.captured captured.controlSocket = captured := by
  unfold validateCandidate at h
  simp only [bind_eq_ok] at h
  obtain ⟨rules, hrules, _, hvalid, concurrency, hconcurrency, debounce, hdebounce, backend, hbackend,
    gitignore, hgitignore, recovery, hrecovery, hooks, hhooks, session, hsession, socket, -, hpure⟩ := h
  cases hpure
  have hpos := readConcurrency_pos load hconcurrency defaults.positive
  obtain ⟨w, hw⟩ := Captured.watches_accepts host (c := Captured.mk host.root rules
    (concurrency.getD defaults.concurrency) (debounce.getD defaults.debounce) (backend.getD defaults.backend)
    gitignore recovery hooks session none) hpos
  refine ⟨{ w with revision := some revision }, ?_, rfl, ?_⟩
  · unfold buildWatches
    simp only [bind_eq_ok]
    exact ⟨rules, hrules, (), hvalid, concurrency, hconcurrency, debounce, hdebounce, backend, hbackend,
      gitignore, hgitignore, recovery, hrecovery, hooks, hhooks, session, hsession, w, hw, rfl⟩
  · exact congrArg (fun c : Captured => { c with controlSocket := socket })
      (Captured.captured_watches rfl hw)

/-! ### One configuration -/

section Revisions

open CanonicalEncoder Codec

variable (shown : Char → Bool) (digest : List UInt8 → String)

/-- The bytes `semantic_hash` feeds to the digest. -/
def Captured.preimage (c : Captured) : List UInt8 :=
  u64 2 ++ (string c.root ++ (u64 c.concurrency ++ (u64 c.debounce
    ++ (string (backendTag c.backend) ++ (bool c.respectGitignore
    ++ (string (recoveryTag c.recoveryPolicy) ++ (string (hooksTag shown c.hooks)
    ++ (string (sessionHooksTag shown c.sessionHooks) ++ (optionalString c.controlSocket
    ++ counted u64 encodeRule c.rules)))))))))

def Captured.semanticHash (c : Captured) : String := digest (c.preimage shown)

variable {shown}

/-- A frozen configuration as it was captured. -/
def RuntimeConfig.captured (config : RuntimeConfig shown) : Captured where
  root := config.root
  rules := config.rules
  concurrency := config.concurrency
  debounce := config.debounce
  backend := config.backend
  respectGitignore := config.respectGitignore
  recoveryPolicy := config.recoveryPolicy
  hooks := config.hooks
  sessionHooks := config.sessionHooks
  controlSocket := config.controlSocket

/-- The revision a tracker gives to a frozen configuration carries the hash of what was captured. -/
theorem RevisionTracker.observe_new {tracker : RevisionTracker} {config : RuntimeConfig shown}
    {revision : ConfigRevision} (h : (tracker.observe digest config).1 = .new revision) :
    revision.hash = config.captured.semanticHash shown digest := by
  simp only [RevisionTracker.observe] at h
  split at h
  · cases h
  · cases h
    rfl

end Revisions

/-- A text means one configuration: it is accepted everywhere or nowhere, and what is hashed is what is
    in force, at startup and after a reload. -/
structure Alike (shown : Char → Bool) (digest : List UInt8 → String) (host : Host) (flags : Flags)
    (defaults : PolicyDefaults) (content : String) : Prop where
  checked : Accepts (checkConfig colored load compile host content) ↔
    Accepts (watchStartup colored load compile host flags content)
  reloaded : Accepts (watchStartup colored load compile host flags content) ↔
    Accepts (validateCandidate colored load compile host defaults content)
  started : ∀ w captured, watchStartup colored load compile host flags content = .ok (w, captured) →
    w.captured captured.controlSocket = captured
  committed : ∀ captured, validateCandidate colored load compile host defaults content = .ok captured →
    ∀ number, ∃ w revision,
      buildWatches colored load compile host defaults content
        ⟨number, captured.semanticHash shown digest⟩ = .ok w ∧
      w.captured captured.controlSocket = captured ∧ w.revision = some revision ∧
      revision.hash = (w.captured captured.controlSocket).semanticHash shown digest

/-- The policies that not every pipeline reads are readable where the others are: those `fzz check` leaves
    out, and those that flags of the startup replace. -/
def ReadAlike (flags : Flags) (content : String) : Prop :=
  ValidRules colored load compile content → Readable load sessionHooksFromRoot content →
  Readable load debounceFromRoot content →
    (Readable load concurrencyFromRoot content →
      Readable load watchBackendFromRoot content ∧ Readable load respectGitignoreFromRoot content ∧
      Readable load generationHooksFromRoot content ∧ Readable load controlSocketFromRoot content) ∧
    (Readable load watchBackendFromRoot content → Readable load respectGitignoreFromRoot content →
      Readable load generationHooksFromRoot content →
      flags.sequential = true ∨ Readable load concurrencyFromRoot content →
      flags.controlSocket.isSome = true ∨ Readable load controlSocketFromRoot content →
      Readable load concurrencyFromRoot content ∧ Readable load controlSocketFromRoot content)

theorem configuration_alike_iff (shown : Char → Bool) (digest : List UInt8 → String) (host : Host)
    (flags : Flags) (defaults : PolicyDefaults) (content : String) :
    Alike colored load compile shown digest host flags defaults content ↔
      ReadAlike colored load compile flags content := by
  have hrecovery : ValidRules colored load compile content → ∀ default,
      Readable load (recoveryPolicyFromRootWithDefault default) content :=
    fun hvalid => readable_recovery_of_valid colored load compile hvalid
  constructor
  · rintro ⟨hchecked, hreloaded, -, -⟩ hvalid hsession hdebounce
    rw [check_accepts_iff, startup_accepts_iff] at hchecked
    rw [startup_accepts_iff, validate_accepts_iff] at hreloaded
    refine ⟨fun hconcurrency => ?_, fun hbackend hgitignore hhooks hsequential hsocket => ?_⟩
    · obtain ⟨-, -, -, hbackend, hgitignore, -, hhooks, -, hsocket⟩ := hreloaded.mp
        (hchecked.mp ⟨hvalid, hsession, hdebounce, hrecovery hvalid _, hconcurrency⟩)
      exact ⟨hbackend, hgitignore, hhooks, hsocket⟩
    · obtain ⟨-, hconcurrency, -, -, -, -, -, -, hsocket⟩ := hreloaded.mp ⟨hvalid, hsequential, hdebounce,
        hbackend, hgitignore, .inr (hrecovery hvalid _), hhooks, hsession, hsocket⟩
      exact ⟨hconcurrency, hsocket⟩
  · intro h
    refine ⟨?_, ?_, fun w captured hw => startup_captured colored load compile hw, fun captured hc number => ?_⟩
    · rw [check_accepts_iff, startup_accepts_iff]
      constructor
      · rintro ⟨hvalid, hsession, hdebounce, hpolicy, hconcurrency⟩
        obtain ⟨hbackend, hgitignore, hhooks, hsocket⟩ := (h hvalid hsession hdebounce).1 hconcurrency
        exact ⟨hvalid, .inr hconcurrency, hdebounce, hbackend, hgitignore, .inr hpolicy, hhooks, hsession,
          .inr hsocket⟩
      · rintro ⟨hvalid, hsequential, hdebounce, hbackend, hgitignore, -, hhooks, hsession, hsocket⟩
        obtain ⟨hconcurrency, -⟩ :=
          (h hvalid hsession hdebounce).2 hbackend hgitignore hhooks hsequential hsocket
        exact ⟨hvalid, hsession, hdebounce, hrecovery hvalid _, hconcurrency⟩
    · rw [startup_accepts_iff, validate_accepts_iff]
      constructor
      · rintro ⟨hvalid, hsequential, hdebounce, hbackend, hgitignore, -, hhooks, hsession, hsocket⟩
        obtain ⟨hconcurrency, hsocket⟩ :=
          (h hvalid hsession hdebounce).2 hbackend hgitignore hhooks hsequential hsocket
        exact ⟨hvalid, hconcurrency, hdebounce, hbackend, hgitignore, hrecovery hvalid _, hhooks, hsession,
          hsocket⟩
      · rintro ⟨hvalid, hconcurrency, hdebounce, hbackend, hgitignore, -, hhooks, hsession, hsocket⟩
        exact ⟨hvalid, .inr hconcurrency, hdebounce, hbackend, hgitignore, .inr (hrecovery hvalid _), hhooks,
          hsession, .inr hsocket⟩
    · obtain ⟨w, hw, hrevision, hcaptured⟩ := build_captured colored load compile hc
        ⟨number, captured.semanticHash shown digest⟩
      exact ⟨w, _, hw, hcaptured, hrevision, by rw [hcaptured]⟩

end Pipelines

/-- The tree of `mistypedGitignore`. -/
def mistypedTree : Yaml :=
  .hash [(.string "on", .hash [(.string "respect_gitignore", .string "yes-please")]),
    (.string "jobs", .array [.hash [(.string "name", .string "build"), (.string "run", .string "make"),
      (.string "change", .string "src/**")]])]

/-- A text with a policy that is not a boolean. -/
def mistypedGitignore : String :=
  "on:\n  respect_gitignore: yes-please\njobs:\n  - name: build\n    run: make\n    change: src/**\n"

/-- `fzz check` calls the text valid, and the watcher does not start with it. -/
theorem check_accepts_unusable :
    ¬ Alike false (fun _ => .ok [mistypedTree]) (fun _ => .ok ()) isAsciiShown asText workstation {}
      ⟨8, 1000, .auto, .prompt, by decide⟩ mistypedGitignore := by
  intro h
  have hcheck : Accepts (checkConfig false (fun _ => .ok [mistypedTree]) (fun _ => .ok ()) workstation
      mistypedGitignore) := by decide +kernel
  have hstartup : ¬ Accepts (watchStartup false (fun _ => .ok [mistypedTree]) (fun _ => .ok ()) workstation {}
      mistypedGitignore) := by decide +kernel
  exact hstartup (h.checked.mp hcheck)

end Funzzy
