import Funzzy.Prepare

/-! A watch session and its committed reloads (`app.rs`, `reload_coordinator.rs`, `watch.rs`,
    `watch_non_block.rs`).

    The reload coordinator owns the shared configuration and reaches the worker that has been installed
    in it. The restart command hands the coordinator its worker and routes batches by the shared
    configuration; the wait command has a copy of the startup configuration and a runner of its own.
    `expected` is what the batches should lead to: each is handled under the last committed
    configuration. -/

namespace Funzzy

/-! ### Modes -/

inductive OnBusy where | wait | restart
  deriving DecidableEq

/-- What decides which watch command is executed. -/
structure WatchArguments where
  onBusy : OnBusy := .wait
  nonBlockEnv : Bool := false
  controlSocket : Option String := none
  deriving DecidableEq

def WatchArguments.nonBlock (args : WatchArguments) : Bool :=
  args.onBusy = .restart || args.nonBlockEnv || args.controlSocket.isSome

/-! ### Sockets -/

namespace SocketSwapper

open UnixPath

/-- A path as it is compared. -/
def key (path : String) : List Component := components path.toList

/-- Whether two optional paths differ, as the reload thread asks. -/
def socketChanged : Option String → Option String → Bool
  | some current, some candidate => key current ≠ key candidate
  | none, some _ | some _, none => true
  | none, none => false

end SocketSwapper

/-! ### Handling -/

/-- The settings a configuration gives to what executes its plans. -/
def Watches.cells (w : Watches) : WorkerCells where
  concurrency := w.concurrency
  hooks := w.hooks
  recoveryPolicy := w.recoveryPolicy
  revision := w.revision

/-- What a batch leads to: the plan it is routed to, with its trigger, and the settings it is executed
    under. -/
structure Handled where
  route : Option (RunPlan × String)
  hooks : GenerationHooks
  concurrency : Nat
  recoveryPolicy : RecoveryPolicy
  deriving DecidableEq

/-- The batch handler: routes by a configuration, executes by settings. -/
def handle (M : Matchers) (routing : Watches) (settings : WorkerCells) (paths : List String) : Handled where
  route := routing.watchPlanBatch M paths
  hooks := settings.hooks
  concurrency := settings.concurrency
  recoveryPolicy := settings.recoveryPolicy

/-- A batch handled under one configuration. -/
def Watches.handles (M : Matchers) (w : Watches) (paths : List String) : Handled := handle M w w.cells paths

/-! ### The session -/

/-- What exists in a session: the coordinator's shared configuration and the worker installed in it; or,
    beside the coordinator, the wait command's own copy and the settings of its runner. -/
structure WatchSession where
  shared : Watches
  worker : Option WorkerCells := none
  own : Option (Watches × WorkerCells) := none
  handled : List Handled := []

/-- `execute_watch_command`. -/
def WatchSession.start (args : WatchArguments) (w : Watches) : WatchSession :=
  if args.nonBlock then { shared := w, worker := some w.cells }
  else { shared := w, own := some (w, w.cells) }

inductive SessionStep where
  | commit (revision : ConfigRevision) (candidate : Watches)
  | batch (paths : List String)

/-- `commit`: the shared configuration, then the cells of the installed worker. -/
def WatchSession.commit (s : WatchSession) (revision : ConfigRevision) (candidate : Watches) :
    WatchSession :=
  { s with
    shared := candidate
    worker := s.worker.map fun _ =>
      { revision := some revision
        concurrency := candidate.concurrency
        hooks := candidate.hooks
        recoveryPolicy := candidate.recoveryPolicy } }

/-- The batch handler of the command that runs. -/
def WatchSession.batch (M : Matchers) (s : WatchSession) (paths : List String) : WatchSession :=
  match s.own, s.worker with
  | some (routing, settings), _ => { s with handled := s.handled ++ [handle M routing settings paths] }
  | none, some settings => { s with handled := s.handled ++ [handle M s.shared settings paths] }
  | none, none => s

def WatchSession.step (M : Matchers) (s : WatchSession) : SessionStep → WatchSession
  | .commit revision candidate => s.commit revision candidate
  | .batch paths => s.batch M paths

def WatchSession.run (M : Matchers) (s : WatchSession) (steps : List SessionStep) : WatchSession :=
  steps.foldl (WatchSession.step M) s

/-! ### What the batches should lead to -/

/-- The configuration in force after some steps: the last one committed. -/
def inForce (w : Watches) (steps : List SessionStep) : Watches :=
  steps.foldl
    (fun live step =>
      match step with
      | .commit _ candidate => candidate
      | .batch _ => live)
    w

/-- Every batch handled under the configuration in force. -/
def expected (M : Matchers) : Watches → List SessionStep → List Handled
  | _, [] => []
  | _, .commit _ candidate :: rest => expected M candidate rest
  | live, .batch paths :: rest => live.handles M paths :: expected M live rest

/-- No batch can tell the configuration in force from the one at startup. -/
def Unchanged (M : Matchers) (w : Watches) (steps : List SessionStep) : Prop :=
  ∀ before paths after, steps = before ++ .batch paths :: after →
    (inForce w before).handles M paths = w.handles M paths

/-! ### Both modes -/

section Modes

variable (M : Matchers)

/-- With an installed worker the handler follows every commit. -/
theorem run_restart (steps : List SessionStep) : ∀ (live : Watches) (settings : WorkerCells)
    (handled : List Handled), settings.hooks = live.hooks → settings.concurrency = live.concurrency →
    settings.recoveryPolicy = live.recoveryPolicy →
    (WatchSession.run M ⟨live, some settings, none, handled⟩ steps).handled
      = handled ++ expected M live steps := by
  induction steps with
  | nil =>
    intro live settings handled _ _ _
    exact (List.append_nil _).symm
  | cons step rest ih =>
    intro live settings handled hhooks hconcurrency hpolicy
    cases step with
    | commit revision candidate =>
      rw [WatchSession.run, List.foldl_cons, ← WatchSession.run, WatchSession.step,
        WatchSession.commit, expected]
      exact ih candidate _ handled rfl rfl rfl
    | batch paths =>
      have hhandle : handle M live settings paths = live.handles M paths := by
        simp only [Watches.handles, handle, hhooks, hconcurrency, hpolicy]
        rfl
      rw [WatchSession.run, List.foldl_cons, ← WatchSession.run, WatchSession.step,
        WatchSession.batch, expected]
      simp only
      rw [ih live settings _ hhooks hconcurrency hpolicy, hhandle, List.append_assoc]
      rfl

/-- What the wait command does: every batch is handled under the startup configuration. -/
def frozen (w : Watches) : List SessionStep → List Handled
  | [] => []
  | .commit _ _ :: rest => frozen w rest
  | .batch paths :: rest => w.handles M paths :: frozen w rest

theorem run_wait (w : Watches) (steps : List SessionStep) : ∀ (shared : Watches) (handled : List Handled),
    (WatchSession.run M ⟨shared, none, some (w, w.cells), handled⟩ steps).handled
      = handled ++ frozen M w steps := by
  induction steps with
  | nil =>
    intro shared handled
    exact (List.append_nil _).symm
  | cons step rest ih =>
    intro shared handled
    cases step with
    | commit revision candidate =>
      rw [WatchSession.run, List.foldl_cons, ← WatchSession.run]
      exact ih candidate handled
    | batch paths =>
      rw [WatchSession.run, List.foldl_cons, ← WatchSession.run, WatchSession.step,
        WatchSession.batch]
      simp only
      rw [ih shared, List.append_assoc]
      rfl

/-- The two agree when no batch can tell. The configuration in force may already differ from the one at
    startup when the steps begin. -/
theorem frozen_eq_expected (w : Watches) (steps : List SessionStep) : ∀ live : Watches,
    frozen M w steps = expected M live steps ↔
      ∀ before paths after, steps = before ++ .batch paths :: after →
        (inForce live before).handles M paths = w.handles M paths := by
  induction steps with
  | nil =>
    intro live
    simp [frozen, expected]
  | cons step rest ih =>
    intro live
    cases step with
    | commit revision candidate =>
      rw [frozen, expected, ih candidate]
      constructor
      · rintro h (_ | ⟨first, before⟩) paths after hsplit
        · simp at hsplit
        · obtain ⟨rfl, hrest⟩ := List.cons.inj hsplit
          exact h before paths after hrest
      · intro h before paths after hrest
        exact h (.commit revision candidate :: before) paths after (by rw [hrest]; rfl)
    | batch paths =>
      rw [frozen, expected, List.cons.injEq, ih live]
      constructor
      · rintro ⟨hfirst, h⟩ (_ | ⟨first, before⟩) paths' after hsplit
        · obtain ⟨heq, -⟩ := List.cons.inj hsplit
          cases heq
          exact hfirst.symm
        · obtain ⟨rfl, hrest⟩ := List.cons.inj hsplit
          exact h before paths' after hrest
      · intro h
        refine ⟨(h [] paths rest rfl).symm, fun before paths' after hrest => ?_⟩
        exact h (.batch paths :: before) paths' after (by rw [hrest]; rfl)

end Modes

/-- Every batch is handled under the configuration in force exactly when the session restarts busy runs,
    or no batch can tell the configuration in force from the one at startup. -/
theorem WatchSession.handled_in_force_iff (M : Matchers) (args : WatchArguments) (w : Watches)
    (steps : List SessionStep) :
    ((WatchSession.start args w).run M steps).handled = expected M w steps ↔
      args.nonBlock = true ∨ Unchanged M w steps := by
  unfold WatchSession.start
  split
  · rename_i hmode
    simp only [hmode, true_or, iff_true]
    exact run_restart M steps w w.cells [] rfl rfl rfl
  · rename_i hmode
    rw [run_wait, List.nil_append, frozen_eq_expected]
    simp only [hmode, Bool.false_eq_true, false_or]
    rfl

/-- A reload changes the failure hook; in the wait mode the next batch still runs with the old one. -/
theorem WatchSession.handled_stale :
    let startup : Watches :=
      { Watches.withRootAndConcurrency [{ name := "build", commands := ["make"] }] "/ws" 1 rfl Nat.one_pos with
        hooks := { failure := some "notify old" } }
    let candidate : Watches := { startup with hooks := { failure := some "notify new" } }
    let steps := [.commit ⟨2, "b"⟩ candidate, .batch ["src/a.rs"]]
    let M : Matchers := ⟨fun pattern path => pattern = path, fun _ => false⟩
    (((WatchSession.start {} startup).run M steps).handled.map fun h => h.hooks.failure)
        = [some "notify old"] ∧
      ((WatchSession.start {} startup).run M steps).handled ≠ expected M startup steps := by
  intro startup candidate steps M
  refine ⟨rfl, fun h => ?_⟩
  have hhooks : [some "notify old"] = [some "notify new"] :=
    congrArg (List.map fun h : Handled => h.hooks.failure) h
  revert hhooks
  decide

end Funzzy
