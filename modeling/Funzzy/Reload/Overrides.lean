import Funzzy.Reload.Session

/-! Command-line choices and reloads (`app.rs`, `reload_session.rs`).

    At startup the choices of the command line are applied to what the configuration file declares: a
    target narrows the rules, `--sequential` fixes the limit, flags win over declared values. A reload
    builds the configuration from the text alone, with the startup values for keys the text does not
    declare. `applied` is a reloaded configuration with the choices applied again, and `Respected` says
    when a text leaves nothing for them to do. -/

namespace Funzzy

open UnixPath SocketSwapper

/-! ### What a configuration declares -/

/-- What the readers of `config.rs` give for an accepted text; missing keys are `none`. -/
structure ConfigContent where
  rules : List Rules
  concurrency : Option Nat := none
  debounce : Option Nat := none
  backend : Option WatchBackend := none
  respectGitignore : Bool := false
  recoveryPolicy : Option RecoveryPolicy := none
  hooks : GenerationHooks := {}
  sessionHooks : SessionHooks := {}
  socket : Option String := none
  positive : ∀ limit, concurrency = some limit → 0 < limit

theorem ConfigContent.limit_pos (c : ConfigContent) {default : Nat} (h : 0 < default) :
    0 < c.concurrency.getD default := by
  cases hlimit : c.concurrency with
  | none => exact h
  | some limit => exact c.positive limit hlimit

/-! ### Choices -/

/-- What the watcher was started for: the rules of the configuration, perhaps narrowed to a target and
    perhaps one task at a time, or a command given on the command line. -/
inductive WatchAction where
  | watch (target : Option String) (sequential : Bool)
  | exec (rules : List Rules)
  deriving DecidableEq

structure Choices where
  action : WatchAction
  recoveryPolicy : Option RecoveryPolicy := none
  controlSocket : Option String := none
  deriving DecidableEq

/-- The process's current directory, and how many threads its machine runs at a time. -/
structure Host where
  root : String
  parallelism : Nat
  rooted : isAbsolute root.toList = true
  positive : 0 < parallelism

theorem Watches.narrow_planned (w : Watches) (target : String) :
    (w.topology.filter (Rules.nameContains target)).tasks.map (·.rule)
      = w.rules.filter (Rules.nameContains target) := by
  rw [RunPlan.filter_rules, w.planned]

theorem Watches.narrow_named (w : Watches) (target : String) :
    ∀ task ∈ (w.topology.filter (Rules.nameContains target)).tasks, task.name = task.rule.name := by
  intro task htask
  rw [RunPlan.filter_tasks] at htask
  exact w.named task (List.mem_filter.mp htask).1

/-- Narrows visible rules while retaining barriers, even to none. -/
def Watches.narrow (w : Watches) (target : String) : Watches :=
  { w with
    rules := w.rules.filter (Rules.nameContains target)
    topology := w.topology.filter (Rules.nameContains target)
    planned := w.narrow_planned target
    named := w.narrow_named target }

theorem Watches.selectTarget_eq_some {w selected : Watches} {target : String}
    (h : w.selectTarget target = some selected) : selected = w.narrow target := by
  unfold Watches.selectTarget at h
  split at h
  · cases h
  · exact (Option.some.inj h).symm

/-- The configuration a session starts with, and none if the target does not exist. -/
def Choices.startup (choices : Choices) (host : Host) (c : ConfigContent)
    (revision : ConfigRevision) : Option Watches :=
  match choices.action with
  | .watch target sequential =>
    let w : Watches :=
      { Watches.withRootAndConcurrency c.rules host.root
          (if sequential then 1 else c.concurrency.getD host.parallelism) host.rooted
          (by split; exacts [Nat.one_pos, c.limit_pos host.positive]) with
        debounce := c.debounce.getD 1000
        backend := c.backend.getD .auto
        respectGitignore := c.respectGitignore
        recoveryPolicy := choices.recoveryPolicy.getD (c.recoveryPolicy.getD .prompt)
        hooks := c.hooks
        sessionHooks := c.sessionHooks
        revision := some revision }
    match target with
    | some target => w.selectTarget target
    | none => some w
  | .exec rules => some (.withRootAndConcurrency rules host.root host.parallelism host.rooted host.positive)

/-! ### Reloading -/

/-- Startup values for keys a candidate does not declare. -/
structure PolicyDefaults where
  concurrency : Nat
  debounce : Nat
  backend : WatchBackend
  recoveryPolicy : RecoveryPolicy
  positive : 0 < concurrency

/-- `ReloadSession::start`; the debounce is that of the configuration file. -/
def Watches.defaults (w : Watches) (debounce : Nat) : PolicyDefaults where
  concurrency := w.concurrency
  debounce
  backend := w.backend
  recoveryPolicy := w.recoveryPolicy
  positive := w.positive

/-- `build_watches_from_content`. -/
def ConfigContent.build (c : ConfigContent) (host : Host) (defaults : PolicyDefaults)
    (revision : ConfigRevision) : Watches :=
  { Watches.withRootAndConcurrency c.rules host.root (c.concurrency.getD defaults.concurrency) host.rooted
      (c.limit_pos defaults.positive) with
    debounce := c.debounce.getD defaults.debounce
    backend := c.backend.getD defaults.backend
    respectGitignore := c.respectGitignore
    recoveryPolicy := c.recoveryPolicy.getD defaults.recoveryPolicy
    hooks := c.hooks
    sessionHooks := c.sessionHooks
    revision := some revision }

/-- The live configuration and the control socket that is bound. -/
structure LiveConfig where
  watches : Watches
  socket : Option String

section Reloading

variable (choices : Choices) (host : Host) (c₀ : ConfigContent) (w₀ : Watches)

/-- The socket at startup: the flag's, or else the declared one. -/
def Choices.startupSocket : Option String := choices.controlSocket.or c₀.socket

/-- One committed reload. A declared socket that is another path than the one at startup is bound and the
    old one retired; otherwise the socket stays. -/
def Choices.reload (live : LiveConfig) (commit : ConfigRevision × ConfigContent) : LiveConfig where
  watches := commit.2.build host (w₀.defaults (c₀.debounce.getD 1000)) commit.1
  socket :=
    match commit.2.socket with
    | some path => if socketChanged (choices.startupSocket c₀) (some path) then some path else live.socket
    | none => live.socket

def Choices.live (commits : List (ConfigRevision × ConfigContent)) : LiveConfig :=
  commits.foldl (choices.reload host c₀ w₀) ⟨w₀, choices.startupSocket c₀⟩

/-- A reloaded configuration with the choices of the command line applied to it. -/
def Choices.applied (revision : ConfigRevision) (c : ConfigContent) : Watches :=
  let w := c.build host (w₀.defaults (c₀.debounce.getD 1000)) revision
  match choices.action with
  | .watch target sequential =>
    let narrowed := (target.map w.narrow).getD w
    { narrowed with
      concurrency := if sequential then 1 else narrowed.concurrency
      positive := by split; exacts [Nat.one_pos, narrowed.positive]
      recoveryPolicy := choices.recoveryPolicy.getD narrowed.recoveryPolicy }
  | .exec rules =>
    { w with
      rules
      topology := .fromRules rules
      planned := RunPlan.fromRules_rules rules
      named := RunPlan.fromRules_named rules
      recoveryPolicy := choices.recoveryPolicy.getD w.recoveryPolicy }

/-- After each of the commits the live configuration is the new content with the choices applied, and the
    socket of the command line is bound. -/
def Choices.Survive (commits : List (ConfigRevision × ConfigContent)) : Prop :=
  ∀ before revision c after, commits = before ++ (revision, c) :: after →
    (choices.live host c₀ w₀ (before ++ [(revision, c)])).watches = choices.applied host c₀ w₀ revision c ∧
      ∀ path, choices.controlSocket = some path →
        (choices.live host c₀ w₀ (before ++ [(revision, c)])).socket = some path

end Reloading

/-- The content leaves nothing for the choices to do. -/
def Choices.Respected (choices : Choices) (c : ConfigContent) : Prop :=
  (match choices.action with
    | .watch target sequential =>
      (∀ name, target = some name → ∀ rule ∈ c.rules, rule.nameContains name = true) ∧
        (sequential = true → c.concurrency = none ∨ c.concurrency = some 1) ∧
        ∀ policy, choices.recoveryPolicy = some policy →
          c.recoveryPolicy = none ∨ c.recoveryPolicy = some policy
    | .exec rules =>
      c.rules = rules ∧ ∀ policy, choices.recoveryPolicy = some policy →
        c.recoveryPolicy.getD .prompt = policy) ∧
  ∀ path, choices.controlSocket = some path → ∀ declared, c.socket = some declared → key path = key declared

/-! ### When the choices survive -/

attribute [ext] Watches

section Startup

variable {choices : Choices} {host : Host} {c₀ : ConfigContent} {revision₀ : ConfigRevision}
  {w₀ : Watches}

/-- The startup limit under `--sequential`, and the startup policy under its flag. -/
theorem Choices.startup_watch {target : Option String} {sequential : Bool}
    (haction : choices.action = .watch target sequential)
    (hstart : choices.startup host c₀ revision₀ = some w₀) :
    (sequential = true → w₀.concurrency = 1) ∧
      ∀ policy, choices.recoveryPolicy = some policy → w₀.recoveryPolicy = policy := by
  simp only [Choices.startup, haction] at hstart
  cases target with
  | none =>
    cases hstart
    exact ⟨fun hsequential => if_pos hsequential, fun policy hpolicy => by simp [hpolicy]⟩
  | some name =>
    rw [Watches.selectTarget_eq_some hstart]
    exact ⟨fun hsequential => if_pos hsequential, fun policy hpolicy => by
      simp [Watches.narrow, hpolicy]⟩

theorem Choices.startup_exec {rules : List Rules} (haction : choices.action = .exec rules)
    (hstart : choices.startup host c₀ revision₀ = some w₀) : w₀.recoveryPolicy = .prompt := by
  simp only [Choices.startup, haction] at hstart
  cases hstart
  rfl

theorem Watches.narrow_eq_self {w : Watches} {target : String}
    (hoccupied : ∀ stage ∈ w.topology.stages, stageTasks stage ≠ [])
    (h : ∀ rule ∈ w.rules, rule.nameContains target = true) : w.narrow target = w := by
  refine Watches.ext ?_ ?_ rfl rfl rfl rfl rfl rfl rfl rfl rfl
  · exact List.filter_eq_self.mpr h
  · refine RunPlan.filter_eq_self hoccupied fun task htask => h task.rule ?_
    rw [← w.planned]
    exact List.mem_map.mpr ⟨task, htask, rfl⟩

/-- A reloaded configuration is as the choices want it exactly when the content respects them; the
    socket apart. -/
theorem Choices.build_eq_applied (hstart : choices.startup host c₀ revision₀ = some w₀)
    (revision : ConfigRevision) (c : ConfigContent) :
    c.build host (w₀.defaults (c₀.debounce.getD 1000)) revision = choices.applied host c₀ w₀ revision c ↔
      match choices.action with
      | .watch target sequential =>
        (∀ name, target = some name → ∀ rule ∈ c.rules, rule.nameContains name = true) ∧
          (sequential = true → c.concurrency = none ∨ c.concurrency = some 1) ∧
          ∀ policy, choices.recoveryPolicy = some policy →
            c.recoveryPolicy = none ∨ c.recoveryPolicy = some policy
      | .exec rules =>
        c.rules = rules ∧ ∀ policy, choices.recoveryPolicy = some policy →
          c.recoveryPolicy.getD .prompt = policy := by
  set w := c.build host (w₀.defaults (c₀.debounce.getD 1000)) revision with hw
  have hlimit : w.concurrency = c.concurrency.getD w₀.concurrency := rfl
  have hpolicy : w.recoveryPolicy = c.recoveryPolicy.getD w₀.recoveryPolicy := rfl
  cases haction : choices.action with
  | watch target sequential =>
    obtain ⟨hone, hflag⟩ := Choices.startup_watch haction hstart
    simp only [Choices.applied, haction, ← hw]
    constructor
    · intro h
      refine ⟨?_, ?_, ?_⟩
      · rintro name rfl
        have hrules : w.rules = w.rules.filter (Rules.nameContains name) := congrArg Watches.rules h
        exact List.filter_eq_self.mp hrules.symm
      · intro hsequential
        have hsame : w.concurrency = 1 := (congrArg Watches.concurrency h).trans (if_pos hsequential)
        rw [hlimit, hone hsequential] at hsame
        cases hdeclared : c.concurrency with
        | none => exact .inl rfl
        | some limit =>
          rw [hdeclared, Option.getD_some] at hsame
          exact .inr (by rw [hsame])
      · intro policy hchoice
        have hsame : w.recoveryPolicy = policy :=
          (congrArg Watches.recoveryPolicy h).trans (by rw [hchoice]; rfl)
        rw [hpolicy] at hsame
        cases hdeclared : c.recoveryPolicy with
        | none => exact .inl rfl
        | some declared =>
          rw [hdeclared, Option.getD_some] at hsame
          exact .inr (by rw [hsame])
    · rintro ⟨htarget, hsequential, hchoice⟩
      have hnarrowed : (target.map w.narrow).getD w = w := by
        cases target with
        | none => rfl
        | some name => exact Watches.narrow_eq_self (RunPlan.fromRules_occupied c.rules) (htarget name rfl)
      simp only [hnarrowed]
      refine Watches.ext rfl rfl rfl ?_ rfl rfl rfl ?_ rfl rfl rfl
      · show w.concurrency = if sequential then 1 else w.concurrency
        split
        · rename_i hon
          rw [hlimit, hone hon]
          rcases hsequential hon with hnone | hsome
          · rw [hnone]
            rfl
          · rw [hsome]
            rfl
        · rfl
      · show w.recoveryPolicy = choices.recoveryPolicy.getD w.recoveryPolicy
        cases hset : choices.recoveryPolicy with
        | none => rfl
        | some policy =>
          rw [hpolicy, hflag policy hset]
          rcases hchoice policy hset with hnone | hsome
          · rw [hnone]
            rfl
          · rw [hsome]
            rfl
  | exec rules =>
    have hprompt := Choices.startup_exec haction hstart
    simp only [Choices.applied, haction, ← hw]
    constructor
    · intro h
      refine ⟨congrArg Watches.rules h, fun policy hchoice => ?_⟩
      have hsame : w.recoveryPolicy = policy :=
        (congrArg Watches.recoveryPolicy h).trans (by rw [hchoice]; rfl)
      rwa [hpolicy, hprompt] at hsame
    · rintro ⟨hrules, hchoice⟩
      refine Watches.ext hrules (congrArg RunPlan.fromRules hrules) rfl rfl rfl rfl rfl ?_ rfl rfl rfl
      show w.recoveryPolicy = choices.recoveryPolicy.getD w.recoveryPolicy
      cases hset : choices.recoveryPolicy with
      | none => rfl
      | some policy =>
        rw [hpolicy, hprompt]
        exact hchoice policy hset

end Startup

section Sockets

variable {choices : Choices} {host : Host} {c₀ : ConfigContent} {w₀ : Watches}

theorem Choices.live_append (commits : List (ConfigRevision × ConfigContent))
    (commit : ConfigRevision × ConfigContent) :
    choices.live host c₀ w₀ (commits ++ [commit])
      = choices.reload host c₀ w₀ (choices.live host c₀ w₀ commits) commit := by
  simp [Choices.live]

/-- One commit and the socket of the command line. -/
theorem Choices.reload_socket {path : String} (hpath : choices.controlSocket = some path)
    (live : LiveConfig) (commit : ConfigRevision × ConfigContent) :
    (choices.reload host c₀ w₀ live commit).socket
      = if ∀ declared, commit.2.socket = some declared → key path = key declared then live.socket
        else commit.2.socket := by
  have hstartup : choices.startupSocket c₀ = some path := by simp [Choices.startupSocket, hpath]
  cases hsocket : commit.2.socket with
  | none => simp [Choices.reload, hsocket]
  | some declared =>
    simp only [Choices.reload, hsocket, hstartup, socketChanged]
    by_cases hsame : key path = key declared <;> simp [hsame]

/-- While every content respects it, the socket of the command line stays bound. -/
theorem Choices.live_socket {path : String} (hpath : choices.controlSocket = some path)
    (commits : List (ConfigRevision × ConfigContent))
    (h : ∀ commit ∈ commits, ∀ declared, commit.2.socket = some declared → key path = key declared) :
    (choices.live host c₀ w₀ commits).socket = some path := by
  induction commits using List.reverseRecOn with
  | nil => simp [Choices.live, Choices.startupSocket, hpath]
  | append_singleton commits commit ih =>
    rw [Choices.live_append, Choices.reload_socket hpath, if_pos (h commit (by simp))]
    exact ih fun other hother => h other (List.mem_append_left _ hother)

end Sockets

/-- The choices of the command line survive a sequence of reloads exactly when every committed content
    respects them. -/
theorem Choices.survive_iff (choices : Choices) (host : Host) (c₀ : ConfigContent)
    (revision₀ : ConfigRevision) (w₀ : Watches) (commits : List (ConfigRevision × ConfigContent))
    (hstart : choices.startup host c₀ revision₀ = some w₀) :
    choices.Survive host c₀ w₀ commits ↔ ∀ commit ∈ commits, choices.Respected commit.2 := by
  have hwatches : ∀ before revision c, (choices.live host c₀ w₀ (before ++ [(revision, c)])).watches
      = c.build host (w₀.defaults (c₀.debounce.getD 1000)) revision := by
    intro before revision c
    rw [Choices.live_append]
    rfl
  constructor
  · rintro h ⟨revision, c⟩ hcommit
    obtain ⟨before, after, hsplit⟩ := List.append_of_mem hcommit
    obtain ⟨happlied, hsocket⟩ := h before revision c after hsplit
    rw [hwatches, Choices.build_eq_applied hstart] at happlied
    refine ⟨happlied, fun path hpath => ?_⟩
    have hbound := hsocket path hpath
    rw [Choices.live_append, Choices.reload_socket hpath] at hbound
    split at hbound
    · assumption
    · intro declared hdeclared
      -- the declared socket is bound, and it is the one of the command line
      rw [hdeclared, Option.some.injEq] at hbound
      rw [hbound]
  · rintro h before revision c after rfl
    have hc := h (revision, c) (by simp)
    refine ⟨?_, fun path hpath => ?_⟩
    · rw [hwatches, Choices.build_eq_applied hstart]
      exact hc.1
    · refine Choices.live_socket hpath _ fun commit hcommit => ?_
      rcases List.mem_append.mp hcommit with hold | hnew
      · exact (h commit (List.mem_append_left _ hold)).2 path hpath
      · rw [List.mem_singleton.mp hnew]
        exact hc.2 path hpath

/-- A workspace on a machine with eight threads. -/
def workstation : Host := ⟨"/ws", 8, isAbsolute_ws, by decide⟩

/-- A content with one rule and, perhaps, a declared limit. -/
def contentOf (name : String) (limit : Option Nat) (positive : ∀ n, limit = some n → 0 < n) : ConfigContent :=
  { rules := [{ name, commands := ["make"] }], concurrency := limit, positive }

/-- A session narrowed to `build`, one task at a time, with a socket of its own: a new content that renames
    the task, declares no limit and spells the socket in another way is applied as it should be. -/
theorem Choices.survive_at_renamed :
    let choices : Choices := { action := .watch (some "build") true, controlSocket := some "/tmp/a.sock" }
    let c₀ := contentOf "build" (some 4) (by decide)
    let c := { contentOf "build all" none (by simp) with socket := some "/tmp//a.sock" }
    ∃ w₀, choices.startup workstation c₀ ⟨1, "a"⟩ = some w₀ ∧ w₀.concurrency = 1 ∧
      choices.Survive workstation c₀ w₀ [(⟨2, "b"⟩, c)] := by
  refine ⟨_, rfl, rfl, (Choices.survive_iff
    { action := .watch (some "build") true, controlSocket := some "/tmp/a.sock" } workstation
    (contentOf "build" (some 4) (by decide)) ⟨1, "a"⟩ _ _ rfl).mpr ?_⟩
  intro commit hcommit
  rw [List.mem_singleton.mp hcommit]
  refine ⟨⟨?_, fun _ => .inl rfl, by simp⟩, ?_⟩
  · rintro name hname rule hrule
    cases hname
    rw [List.mem_singleton.mp hrule]
    decide
  · rintro path hpath declared hdeclared
    cases hpath
    cases hdeclared
    decide

/-- The same session loses its limit to a content that declares one, and its target to a content with
    other tasks. -/
theorem Choices.overrides_lost :
    let choices : Choices := { action := .watch (some "build") true }
    let c₀ := contentOf "build" none (by simp)
    let c := contentOf "deploy" (some 4) (by decide)
    ∃ w₀, choices.startup workstation c₀ ⟨1, "a"⟩ = some w₀ ∧ w₀.concurrency = 1 ∧
      (choices.live workstation c₀ w₀ [(⟨2, "b"⟩, c)]).watches.concurrency = 4 ∧
      (choices.live workstation c₀ w₀ [(⟨2, "b"⟩, c)]).watches.rules.map (·.name) = ["deploy"] ∧
      ¬choices.Survive workstation c₀ w₀ [(⟨2, "b"⟩, c)] := by
  refine ⟨_, rfl, rfl, rfl, rfl, fun h => ?_⟩
  have happlied := (h [] ⟨2, "b"⟩ (contentOf "deploy" (some 4) (by decide)) [] rfl).1
  have hlimit : 4 = 1 := congrArg Watches.concurrency happlied
  revert hlimit
  decide

end Funzzy
