import Funzzy.Recorder
import Funzzy.Reload.Session
import Funzzy.Signature

/-! Target estimates (`watch_loop.rs`, `workers.rs`): the signature the targets listing looks an estimate
    up under, and the signature a run of the target is recorded under.

    A run expands the templates of its commands before it is signed, and is signed with the limit of the
    moment; the listing signs the plan as it is configured, with the limit that was in force when the
    control server was bound. Both read the shared configuration. The digest is a parameter: what is
    decided here is which bytes it is given. -/

namespace Funzzy

/-! ### The two signatures -/

/-- `SIGNATURE_SCHEMA_VERSION` -/
def signatureSchemaVersion : Nat := 2

/-- `execution_signature` -/
def RunPlan.executionSignature (digest : List UInt8 → String) (plan : RunPlan) (jobs : Nat)
    (failFast : Bool) : String :=
  digest (plan.execution signatureSchemaVersion jobs failFast).canonical

/-- A worker that signs plans with a digest. -/
def signing (digest : List UInt8 → String) (fs : PathResolver) (root : String) (failFast : Bool) :
    WorkerContext where
  fs
  root
  failFast
  signature := RunPlan.executionSignature digest

/-- What the estimate provider has captured when its control server was built. -/
structure EstimateProvider where
  concurrency : Nat
  failFast : Bool
  root : String
  deriving DecidableEq

/-- The shared configuration, the limit of the worker, and the provider of the server that is bound. -/
structure Serving where
  shared : Watches
  concurrency : Nat
  provider : Option EstimateProvider := none

namespace Serving

/-- A session starts with the worker of its configuration. -/
def initial (w : Watches) : Serving := { shared := w, concurrency := w.concurrency }

inductive Label where
  | bind
  | commit (next : Watches)

/-- A server is bound at the start and again in front of a commit that moves the socket; a commit swaps
    the configuration and the worker's limit. Every configuration of a session has the same root. -/
def step (failFast : Bool) (s : Serving) : Label → Option Serving
  | .bind => some { s with provider := some ⟨s.concurrency, failFast, s.shared.root⟩ }
  | .commit next =>
    if next.root = s.shared.root then some { s with shared := next, concurrency := next.concurrency }
    else none

section Signatures

variable (ctx : WorkerContext) (s : Serving)

/-- The signature the provider asks the recorder about. -/
def listedSignature (provider : EstimateProvider) (target : String) : Option String :=
  match s.shared.targetPlan target with
  | none => none
  | some plan =>
    match plan.resolveContext ctx.fs provider.root with
    | .error _ => none
    | .ok plan => some (ctx.signature plan provider.concurrency provider.failFast)

/-- The estimate of a target in the listing. -/
def listedEstimate (recorder : Recorder) (provider : EstimateProvider) (target : String) :
    Option RunEstimate :=
  (s.listedSignature ctx provider target).bind fun signature => recorder.history.estimate signature none

/-- The signature of the run that `run_target` schedules, if it schedules one. -/
def recordedSignature (runId : Nat) (target : String) (sequential : Bool) : Option String :=
  match s.shared.targetPlan target with
  | none => none
  | some plan =>
    match ctx.targetRequest { s.shared.cells with concurrency := s.concurrency } runId plan target
        sequential s.shared.revision with
    | .error _ => none
    | .ok request => request.executionSignature

end Signatures

/-- The limit a run of a target is signed with. -/
def effective (s : Serving) (sequential : Bool) : Nat := if sequential then 1 else s.concurrency

end Serving

/-! ### Expanding without a file -/

/-- The options of a run that no file has caused. -/
def TemplateOptions.fileless (currentDir : String) : TemplateOptions := { currentDir }

/-- Without a file every known variable stands for nothing, wherever the task runs. -/
theorem TemplateOptions.fileless_value? (dir dir' : String) (name : List Char) :
    (fileless dir).value? name = (fileless dir').value? name := by
  have hempty : ∀ sep : List Char, (splitText sep 0 [] []).flatten = [] := fun _ => rfl
  have hnone : ∀ dir : String, ((fileless dir).filepath.getD "").toList = [] := fun _ => rfl
  unfold TemplateOptions.value?
  simp only [hnone, hempty]
  rfl

theorem TemplateOptions.fileless_templateLine (dir dir' : String) (line : CommandLine) :
    (fileless dir).templateLine line = (fileless dir').templateLine line := by
  have hpart : (fileless dir).expandPart = (fileless dir').expandPart := by
    funext part
    unfold TemplateOptions.expandPart
    simp only [fileless_value? dir dir']
  have hcommand : (fileless dir).expandCommand = (fileless dir').expandCommand := by
    funext command
    unfold TemplateOptions.expandCommand
    rw [hpart]
  cases line with
  | shell command => rw [templateLine, templateLine, hcommand]
  | argv argv => rw [templateLine, templateLine, hcommand]

/-- A command that expansion leaves alone when there is no file. -/
def CommandLine.Untemplated (line : CommandLine) : Prop :=
  ((TemplateOptions.fileless "").templateLine line).1 = line

instance (line : CommandLine) : Decidable line.Untemplated :=
  inferInstanceAs (Decidable (_ = line))

/-- A task none of whose commands, recovery commands included, is changed by expansion. -/
def TaskPlan.Untemplated (task : TaskPlan) : Prop :=
  ∀ line ∈ task.commands ++ task.recoveryCommands.getD [], line.Untemplated

instance (task : TaskPlan) : Decidable task.Untemplated :=
  inferInstanceAs (Decidable (∀ line ∈ _, CommandLine.Untemplated line))

theorem map_eq_self_iff {α : Type} {f : α → α} {l : List α} : l.map f = l ↔ ∀ x ∈ l, f x = x := by
  constructor
  · intro h
    exact List.map_eq_map_iff.mp (h.trans (List.map_id l).symm)
  · intro h
    exact (List.map_congr_left h).trans (List.map_id l)

/-- Expanding a task without a file changes what is signed of it unless its commands are untemplated. -/
theorem TaskPlan.signed_expand_iff (task : TaskPlan) (dir : String) :
    (task.expand (TemplateOptions.fileless dir)).signed = task.signed ↔ task.Untemplated := by
  have hlines : ∀ lines : List CommandLine,
      lines.map (fun c => ((task.options (TemplateOptions.fileless dir)).templateLine c).1) = lines
        ↔ ∀ line ∈ lines, line.Untemplated := by
    intro lines
    rw [map_eq_self_iff]
    refine forall₂_congr fun line _ => ?_
    have := TemplateOptions.fileless_templateLine (task.context.cwd.getD dir) "" line
    rw [CommandLine.Untemplated, ← this]
    rfl
  unfold TaskPlan.Untemplated
  rw [List.forall_mem_append, ← hlines]
  simp only [TaskPlan.signed, TaskPlan.expand, SignedTask.mk.injEq, true_and, and_true]
  refine and_congr_right fun _ => ?_
  cases task.recoveryCommands with
  | none => simp
  | some lines =>
    rw [Option.map_some, Option.some.injEq, Option.getD_some]
    exact hlines lines

/-- The same for a plan. -/
theorem RunPlan.execution_expand_iff (plan : RunPlan) (dir : String) (version jobs jobs' : Nat)
    (failFast : Bool) :
    (plan.expand (TemplateOptions.fileless dir)).1.execution version jobs failFast
        = plan.execution version jobs' failFast
      ↔ jobs = jobs' ∧ ∀ task ∈ plan.tasks, task.Untemplated := by
  have hstage : ∀ stage : Stage, (stage.expand (TemplateOptions.fileless dir)).signed = stage.signed
      ↔ ∀ task ∈ stageTasks stage, TaskPlan.Untemplated task := by
    intro stage
    cases stage with
    | serial task =>
      rw [Stage.expand, Stage.signed, Stage.signed, SignedStage.serial.injEq, task.signed_expand_iff dir]
      simp [stageTasks]
    | parallel group tasks =>
      rw [Stage.expand, Stage.signed, Stage.signed, SignedStage.parallel.injEq, List.map_map]
      simp only [true_and, List.map_inj_left, Function.comp_apply]
      exact forall₂_congr fun task _ => task.signed_expand_iff dir
  simp only [RunPlan.execution, RunPlan.expand, Execution.mk.injEq, true_and, List.map_map]
  refine and_congr_right fun _ => ?_
  rw [List.map_inj_left]
  simp only [Function.comp_apply, hstage, RunPlan.tasks, List.mem_flatMap]
  constructor
  · rintro h task ⟨stage, hstage, htask⟩
    exact h stage hstage task htask
  · exact fun h stage hstage task htask => h task ⟨stage, hstage, htask⟩

theorem forall_mem_iff_of_forall₂ {α β : Type} {R : α → β → Prop} {P : α → Prop} {Q : β → Prop}
    {l : List α} {l' : List β} (h : List.Forall₂ R l l') (hiff : ∀ x y, R x y → (P x ↔ Q y)) :
    (∀ x ∈ l, P x) ↔ ∀ y ∈ l', Q y := by
  induction h with
  | nil => simp
  | cons hR _ ih => rw [List.forall_mem_cons, List.forall_mem_cons, hiff _ _ hR, ih]

/-- Resolving leaves the commands as they are. -/
theorem RunPlan.resolveContext_untemplated {plan resolved : RunPlan} {fs : PathResolver} {root : String}
    (h : plan.resolveContext fs root = .ok resolved) :
    (∀ task ∈ plan.tasks, task.Untemplated) ↔ ∀ task ∈ resolved.tasks, task.Untemplated := by
  have htask : ∀ task task' : TaskPlan, fs.resolveTask root task = .ok task' →
      (task.Untemplated ↔ task'.Untemplated) := by
    intro task task' hresolve
    obtain ⟨cwd, -, rfl⟩ := PathResolver.resolveTask_eq_ok hresolve
    exact Iff.rfl
  have hstage : ∀ stage stage' : Stage, fs.resolveStage root stage = .ok stage' →
      ((∀ task ∈ stageTasks stage, TaskPlan.Untemplated task)
        ↔ ∀ task ∈ stageTasks stage', TaskPlan.Untemplated task) := by
    intro stage stage' hresolve
    cases stage with
    | serial task =>
      rw [PathResolver.resolveStage] at hresolve
      split at hresolve
      · cases hresolve
      · next task' htask' =>
        cases hresolve
        simpa [stageTasks] using htask task task' htask'
    | parallel group tasks =>
      rw [PathResolver.resolveStage] at hresolve
      split at hresolve
      · cases hresolve
      · next tasks' htasks' =>
        cases hresolve
        exact forall_mem_iff_of_forall₂ (collect_eq_ok htasks') htask
  rw [RunPlan.resolveContext] at h
  split at h
  · cases h
  next stages hstages =>
  cases h
  have hall := forall_mem_iff_of_forall₂ (collect_eq_ok hstages) hstage
  simp only [RunPlan.tasks, List.mem_flatMap]
  constructor
  · rintro hplan task ⟨stage, hmem, htask⟩
    exact hall.mp (fun stage hstage task htask => hplan task ⟨stage, hstage, htask⟩) stage hmem task htask
  · rintro hplan task ⟨stage, hmem, htask⟩
    exact hall.mpr (fun stage hstage task htask => hplan task ⟨stage, hstage, htask⟩) stage hmem task htask

/-! ### When they agree -/

namespace Serving

/-- The provider of a session's server has the session's root and fail-fast policy. -/
theorem provider_of_run {failFast : Bool} {w : Watches} {labels : List Label} {s : Serving}
    (h : Machine.after (step failFast) (initial w) labels = some s) :
    s.shared.root = w.root ∧ ∀ provider, s.provider = some provider →
      provider.root = w.root ∧ provider.failFast = failFast := by
  refine Machine.invariant (step failFast)
    (I := fun s => s.shared.root = w.root ∧ ∀ provider, s.provider = some provider →
      provider.root = w.root ∧ provider.failFast = failFast)
    (fun s l s' hs _ hstep => ?_) labels _ s ⟨rfl, by rintro provider ⟨⟩⟩
    (Machine.meets_true _ labels _) h
  obtain ⟨hroot, hprovider⟩ := hs
  cases l with
  | bind =>
    cases hstep
    refine ⟨hroot, ?_⟩
    rintro provider ⟨⟩
    exact ⟨hroot, rfl⟩
  | commit next =>
    rw [step] at hstep
    split at hstep
    · next hsame =>
      cases hstep
      exact ⟨hsame.trans hroot, hprovider⟩
    · cases hstep

/-- The digest tells the two executions apart, if they are not one: both are values in memory, and their
    encodings do not collide. -/
def Told (digest : List UInt8 → String) (e f : Execution) : Prop :=
  e.InMemory ∧ f.InMemory ∧ (digest e.canonical = digest f.canonical → e.canonical = f.canonical)

/-- In every state of a session, the listing and a run of the target use one signature exactly if
    expansion leaves the target's commands alone and the limit captured with the server is the limit of
    the run. -/
theorem signatures_agree_iff (digest : List UInt8 → String) (fs : PathResolver) (failFast : Bool)
    (w : Watches) (labels : List Label) (s : Serving)
    (hrun : Machine.after (step failFast) (initial w) labels = some s)
    (provider : EstimateProvider) (hprovider : s.provider = some provider) (runId : Nat)
    (target : String) (sequential : Bool)
    (htold : ∀ plan resolved, s.shared.targetPlan target = some plan →
      plan.resolveContext fs w.root = .ok resolved →
        Told digest (resolved.execution signatureSchemaVersion provider.concurrency failFast)
          ((resolved.expand (TemplateOptions.fileless w.root)).1.execution signatureSchemaVersion
            (s.effective sequential) failFast)) :
    s.listedSignature (signing digest fs w.root failFast) provider target
        = s.recordedSignature (signing digest fs w.root failFast) runId target sequential
      ↔ ∀ plan resolved, s.shared.targetPlan target = some plan →
          plan.resolveContext fs w.root = .ok resolved →
            (∀ task ∈ plan.tasks, task.Untemplated)
              ∧ provider.concurrency = s.effective sequential := by
  obtain ⟨hroot, hfailFast⟩ := (provider_of_run hrun).2 provider hprovider
  unfold listedSignature recordedSignature
  cases hplan : s.shared.targetPlan target with
  | none => simp
  | some plan =>
    simp only [WorkerContext.targetRequest, WorkerContext.prepareRequest, signing, hroot, hfailFast]
    cases hresolved : plan.resolveContext fs w.root with
    | error error =>
      refine iff_of_true rfl ?_
      rintro plan' resolved ⟨⟩ hok
      rw [hresolved] at hok
      cases hok
    | ok resolved =>
      obtain ⟨hmemory, hmemory', hdigest⟩ := htold plan resolved hplan hresolved
      have hsigned := RunPlan.execution_expand_iff resolved w.root signatureSchemaVersion
        (s.effective sequential) provider.concurrency failFast
      rw [← RunPlan.resolveContext_untemplated hresolved] at hsigned
      constructor
      · rintro hsame plan' resolved' ⟨⟩ hok
        have hbytes := hdigest (Option.some.inj hsame)
        obtain ⟨hjobs, htasks⟩ := hsigned.mp (RunPlan.canonical_injective hmemory hmemory' hbytes).symm
        exact ⟨htasks, hjobs.symm⟩
      · intro hcondition
        obtain ⟨htasks, hjobs⟩ := hcondition plan resolved rfl hresolved
        have hsame := hsigned.mpr ⟨hjobs.symm, htasks⟩
        exact congrArg (fun e => some (digest (Execution.canonical e))) hsame.symm

/-! ### One job -/

/-- A configuration of one job with one command. -/
def oneJob (command : String) (concurrency : Nat) (positive : 0 < concurrency) : Watches :=
  .withRootAndConcurrency [{ name := "build", commands := [command] }] "/ws" concurrency isAbsolute_ws positive

/-- What is signed of it. -/
def oneJobSigned (command : String) (jobs : Nat) : Execution :=
  ⟨signatureSchemaVersion, jobs, false,
    [.serial { name := "build", commands := [.shell command], cwd := some (bytes "/ws") }]⟩

/-- A file system without any file. -/
def emptyFs : PathResolver where
  symlinkMetadata _ := false
  canonicalize path := .ok path

/-- SHA-256 of the encodings the job is signed with below. -/
def sha256 (content : List UInt8) : String :=
  if content = (oneJobSigned "make" 2).canonical then
    "d94376904e4247175bcf8648e9767a99bed21ae4064b2540a6f005db442d8751"
  else if content = (oneJobSigned "make" 4).canonical then
    "1e91164f8a585b333414e5d2e06a2c5b409e62008877e85c9f6f148c33c6bcf4"
  else if content = (oneJobSigned "cat \x7b\x7bfilepath\x7d\x7d" 2).canonical then
    "024cf5917d58be9e597c5d581e5da7097fc085712922e21a4bfb3decc1f49101"
  else if content = (oneJobSigned "cat " 2).canonical then
    "4ebe474ddbd59c1506b33fe3bde693441b7b7bc51ccda430833beda227347311"
  else ""

theorem oneJobSigned_inMemory {command : String} {jobs : Nat} (hjobs : jobs < 256 ^ 8)
    (hcommand : (bytes command).length < 256 ^ 8) : (oneJobSigned command jobs).InMemory := by
  have hone : 1 < 256 ^ 8 := by decide
  have hversion : signatureSchemaVersion < 256 ^ 8 := by decide
  refine ⟨hversion, hjobs, hone, fun stage hstage => ?_⟩
  rw [List.mem_singleton.mp hstage]
  constructor
  · change (bytes "build").length < 256 ^ 8
    decide
  · intro group hgroup
    cases hgroup
  · intro occurrence hoccurrence
    cases hoccurrence
  · refine ⟨hone, fun line hline => ?_⟩
    rw [List.mem_singleton.mp hline]
    exact hcommand
  · intro commands hcommands
    cases hcommands
  · intro text htext
    cases htext
    decide
  · exact ⟨Nat.lt_trans Nat.one_pos hone, fun entry hentry => absurd hentry List.not_mem_nil⟩

/-- With a plain command and the limit of the start, the listing asks for what a run records. -/
theorem signatures_agree_at_make :
    (oneJob "make" 2 (by decide)).targetPlan "build" ≠ none ∧
    ({ initial (oneJob "make" 2 (by decide)) with provider := some ⟨2, false, "/ws"⟩ }).listedSignature
        (signing sha256 emptyFs "/ws" false) ⟨2, false, "/ws"⟩ "build"
      = ({ initial (oneJob "make" 2 (by decide)) with
          provider := some ⟨2, false, "/ws"⟩ }).recordedSignature
        (signing sha256 emptyFs "/ws" false) 1 "build" false := by
  refine ⟨by decide +kernel, ?_⟩
  refine (signatures_agree_iff sha256 emptyFs false (oneJob "make" 2 (by decide)) [.bind] _ rfl _ rfl 1
    "build" false ?_).mpr ?_
  · rintro plan resolved hplan hresolved
    have hmemory : (oneJobSigned "make" 2).InMemory := oneJobSigned_inMemory (by decide) (by decide)
    cases hplan
    cases hresolved
    exact ⟨hmemory, hmemory, fun _ => rfl⟩
  · rintro plan resolved hplan -
    cases hplan
    exact ⟨by decide +kernel, rfl⟩

/-- A template in the command, and a reload that changes the limit: the listing looks under a signature
    that no run of the target is recorded under. -/
theorem signatures_diverge :
    (∃ s, Machine.after (step false) (initial (oneJob "cat \x7b\x7bfilepath\x7d\x7d" 2 (by decide)))
        [.bind] = some s ∧
      s.listedSignature (signing sha256 emptyFs "/ws" false) ⟨2, false, "/ws"⟩ "build"
        = some "024cf5917d58be9e597c5d581e5da7097fc085712922e21a4bfb3decc1f49101" ∧
      s.recordedSignature (signing sha256 emptyFs "/ws" false) 1 "build" false
        = some "4ebe474ddbd59c1506b33fe3bde693441b7b7bc51ccda430833beda227347311") ∧
    ∃ s, Machine.after (step false) (initial (oneJob "make" 2 (by decide)))
        [.bind, .commit (oneJob "make" 4 (by decide))] = some s ∧
      s.provider = some ⟨2, false, "/ws"⟩ ∧
      s.listedSignature (signing sha256 emptyFs "/ws" false) ⟨2, false, "/ws"⟩ "build"
        = some "d94376904e4247175bcf8648e9767a99bed21ae4064b2540a6f005db442d8751" ∧
      s.recordedSignature (signing sha256 emptyFs "/ws" false) 1 "build" false
        = some "1e91164f8a585b333414e5d2e06a2c5b409e62008877e85c9f6f148c33c6bcf4" := by
  refine ⟨⟨_, rfl, ?_, ?_⟩, _, rfl, rfl, ?_, ?_⟩ <;> decide +kernel

end Serving

end Funzzy
