import Funzzy.Reload.Session
import Funzzy.Executor.Advance
import Funzzy.Lib.Machine

/-! Commits beside requests and runs (`reload_coordinator.rs`, `workers.rs`, `watch_loop.rs`,
    `executor.rs`).

    A commit swaps the shared configuration and then writes the worker's cells one after the other. A
    request reads its plan and revision from the shared configuration and the rest from the cells, one
    after the other too; a run reads the limit again for each parallel stage it opens. Every read and
    every write is a step of its own here, so a list of moves is one interleaving. `From` says that all a
    generation has used is what one configuration gives. -/

namespace Funzzy

/-! ### Cells -/

/-- The cells of the worker, each behind a lock of its own. -/
inductive Cell where | revision | concurrency | hooks | recoveryPolicy
  deriving DecidableEq

/-- Copies one cell. -/
def WorkerCells.copy (target source : WorkerCells) : Cell → WorkerCells
  | .revision => { target with revision := source.revision }
  | .concurrency => { target with concurrency := source.concurrency }
  | .hooks => { target with hooks := source.hooks }
  | .recoveryPolicy => { target with recoveryPolicy := source.recoveryPolicy }

/-- The order in which a commit writes the cells. -/
def commitOrder : List Cell := [.revision, .concurrency, .hooks, .recoveryPolicy]

/-- The worker of a configuration; without a revision it has number zero. -/
def Watches.workerCells (w : Watches) : WorkerCells :=
  { w.cells with revision := some (w.revision.getD ⟨0, ""⟩) }

/-! ### Requests -/

inductive Origin where
  | batch (id : Nat) (changed : List String)
  | init
  | target (name : String) (sequential : Bool)
  | emit (path : String)
  deriving DecidableEq

/-- What a request reads under the shared lock. -/
structure Routed where
  plan : RunPlan
  trigger : String
  filepath : Option String
  batch : Option Nat := none
  changed : List String := []
  target : Option (String × Bool) := none
  revision : Option ConfigRevision
  deriving DecidableEq

def Origin.route (M : Matchers) (w : Watches) : Origin → Option Routed
  | .batch id changed =>
    (w.watchPlanBatch M changed).map fun (plan, trigger) =>
      { plan, trigger, filepath := some trigger, batch := some id, changed, revision := w.revision }
  | .init =>
    w.runOnInitPlan.map fun plan => { plan, trigger := "", filepath := some "", revision := w.revision }
  | .target name sequential =>
    (w.targetPlan name).map fun plan =>
      { plan, trigger := "control:" ++ name, filepath := none, target := some (name, sequential),
        revision := w.revision }
  | .emit path =>
    (w.watchPlan M path).map fun plan =>
      { plan, trigger := path, filepath := some path, revision := w.revision }

/-- The cells a request reads, in order: `schedule_target` reads the limit first, unless one task at a
    time is asked for, and the hooks again at the end; the worker's revision is read only if the shared
    configuration had none. -/
def Routed.reads (r : Routed) : List Cell :=
  (match r.target with
    | some (_, false) => [.concurrency]
    | _ => [])
    ++ (if r.revision = none then [.revision] else []) ++ [.hooks, .recoveryPolicy]
    ++ (if r.target = none then [] else [.hooks])

/-- The request made of what has been read. -/
def Routed.request (ctx : WorkerContext) (seen : WorkerCells) (runId : Nat) (r : Routed) :
    Except String RunRequest :=
  match r.target with
  | some (name, sequential) => ctx.targetRequest seen runId r.plan name sequential r.revision
  | none => ctx.prepareRequest seen runId r.plan r.trigger r.filepath r.batch r.changed r.revision

/-- A request under way: what it has read so far, and the cells it still has to read. -/
structure Requester where
  routed : Routed
  seen : WorkerCells
  reads : List Cell
  deriving DecidableEq

/-- A batch keeps the shared lock until it is scheduled; the other requests give it back before. -/
def Requester.locks (r : Requester) : Bool := r.routed.batch.isSome

/-! ### Generations -/

/-- The limit a stage is opened with. -/
def Stage.limit (metadata : RunMetadata) (concurrency : Nat) : Stage → Nat
  | .serial _ => 1
  | .parallel _ tasks => min (metadata.effectiveConcurrency.getD concurrency) tasks.length

def Stage.isParallel : Stage → Bool
  | .serial _ => false
  | .parallel _ _ => true

/-- A scheduled generation: the stages it has still to open, and those it has opened, with their limits.
    Services that a commit starts are appended to the plan of the generation that is active. -/
structure Generation where
  metadata : RunMetadata
  plan : RunPlan
  stages : List Stage
  opened : List (Stage × Nat) := []
  appended : List RunPlan := []
  deriving DecidableEq

/-- A stage that reads the worker's limit is still to be opened. -/
def Generation.awaitsLimit (g : Generation) : Bool :=
  g.metadata.effectiveConcurrency.isNone && g.stages.any Stage.isParallel

/-- The service-only plan of a commit. -/
def Watches.servicePlan (w : Watches) (names : List String) : RunPlan :=
  .fromRules (w.rules.filter fun rule => rule.service && names.contains rule.name)

/-! ### Interleavings -/

/-- A commit under way, and the cells it still has to write. -/
structure Commit where
  candidate : Watches
  writes : List Cell

/-- What the threads share. `services` are the StartServices commands that have been sent and not yet
    taken; `committed` is history: every configuration that has been in force. -/
structure SharedState where
  shared : Watches
  cells : WorkerCells
  commit : Option Commit := none
  requesters : List Requester := []
  services : List (Nat × RunPlan × Option ConfigRevision) := []
  generations : List Generation := []
  nextRunId : Nat := 0
  committed : List Watches

def SharedState.start (w : Watches) : SharedState :=
  { shared := w, cells := w.workerCells, committed := [w] }

/-- The shared lock is held beyond one step. -/
def SharedState.locked (s : SharedState) : Bool := s.requesters.any Requester.locks

/-- One step of one thread. Of the reload thread: `swap`, four times `write`, then `reconcile` with the
    services to start. Of a request: `route`, a `read` for each cell, `dispatch`. Of the worker:
    `startServices`, `openStage`, and `finish` for a generation that opens no more stages. -/
inductive SharedMove where
  | swap (revision : ConfigRevision) (candidate : Watches)
  | write
  | reconcile (toStart : List String)
  | route (origin : Origin)
  | read (requester : Nat)
  | dispatch (requester : Nat)
  | startServices (active : Option Nat)
  | openStage (generation : Nat)
  | finish (generation : Nat)

section Moves

variable (ctx : WorkerContext) (M : Matchers) (s : SharedState)

/-- `swap_config`; the candidate carries the revision of the transaction. -/
def SharedState.swap (revision : ConfigRevision) (candidate : Watches) : Option SharedState :=
  if s.commit.isSome || s.locked then none
  else
    let live : Watches := { candidate with revision := some revision }
    some { s with shared := live, commit := some ⟨live, commitOrder⟩, committed := s.committed ++ [live] }

def SharedState.write : Option SharedState :=
  match s.commit with
  | some ⟨candidate, cell :: rest⟩ =>
    some { s with cells := s.cells.copy candidate.workerCells cell, commit := some ⟨candidate, rest⟩ }
  | _ => none

/-- `reconcile_services` and `start_services`. -/
def SharedState.reconcile (toStart : List String) : Option SharedState :=
  match s.commit with
  | some ⟨candidate, []⟩ =>
    if toStart = [] then some { s with commit := none }
    else
      some { s with
        commit := none
        nextRunId := s.nextRunId + 1
        services := s.services ++ [(s.nextRunId + 1, candidate.servicePlan toStart, s.cells.revision)] }
  | _ => none

def SharedState.route (origin : Origin) : Option SharedState :=
  if s.locked then none
  else
    match origin.route M s.shared with
    | none => some s
    | some routed =>
      some { s with requesters := s.requesters ++ [⟨routed, { concurrency := 1 }, routed.reads⟩] }

def SharedState.read (i : Nat) : Option SharedState :=
  match s.requesters[i]? with
  | some ⟨routed, seen, cell :: rest⟩ =>
    some { s with requesters := s.requesters.set i ⟨routed, seen.copy s.cells cell, rest⟩ }
  | _ => none

def SharedState.dispatch (i : Nat) : Option SharedState :=
  match s.requesters[i]? with
  | some ⟨routed, seen, []⟩ =>
    match routed.request ctx seen (s.nextRunId + 1) with
    | .error _ => some { s with requesters := s.requesters.eraseIdx i }
    | .ok request =>
      some { s with
        requesters := s.requesters.eraseIdx i
        nextRunId := s.nextRunId + 1
        generations := s.generations ++ [⟨request.metadata, request.plan, request.plan.stages, [], []⟩] }
  | _ => none

/-- The worker takes a StartServices command: into the active generation, or as one of its own. -/
def SharedState.startServices (active : Option Nat) : Option SharedState :=
  match s.services with
  | [] => none
  | (runId, plan, revision) :: rest =>
    match active with
    | none =>
      some { s with
        services := rest
        generations := s.generations ++ [⟨servicesMetadata runId revision, plan, plan.stages, [], []⟩] }
    | some i =>
      (s.generations[i]?).map fun g =>
        { s with
          services := rest
          generations := s.generations.set i
            { g with stages := g.stages ++ plan.stages, appended := g.appended ++ [plan] } }

def SharedState.openStage (i : Nat) : Option SharedState :=
  match s.generations[i]? with
  | some ⟨metadata, plan, stage :: rest, opened, appended⟩ =>
    some { s with
      generations := s.generations.set i
        ⟨metadata, plan, rest, opened ++ [(stage, stage.limit metadata s.cells.concurrency)], appended⟩ }
  | _ => none

def SharedState.finish (i : Nat) : Option SharedState :=
  (s.generations[i]?).map fun g => { s with generations := s.generations.set i { g with stages := [] } }

def SharedState.step : SharedMove → Option SharedState
  | .swap revision candidate => s.swap revision candidate
  | .write => s.write
  | .reconcile toStart => s.reconcile toStart
  | .route origin => s.route M origin
  | .read i => s.read i
  | .dispatch i => s.dispatch ctx i
  | .startServices active => s.startServices active
  | .openStage i => s.openStage i
  | .finish i => s.finish i

end Moves

/-! ### One configuration -/

section From

variable (ctx : WorkerContext) (M : Matchers)

/-- All that the generation has used is what one configuration gives: its plan and its metadata are those
    of a request, or of services, under that configuration alone, and every stage was opened with its
    limit. -/
structure Generation.From (w : Watches) (g : Generation) : Prop where
  scheduled : (∃ origin routed request, Origin.route M w origin = some routed ∧
      routed.request ctx w.workerCells g.metadata.runId = .ok request ∧ g.metadata = request.metadata ∧
      g.plan = request.plan) ∨
    ∃ names, g.plan = w.servicePlan names ∧
      g.metadata = { servicesMetadata g.metadata.runId w.workerCells.revision with
        hooks := w.hooks, recoveryPolicy := w.recoveryPolicy }
  appended : ∀ plan ∈ g.appended, ∃ names, plan = w.servicePlan names
  limits : ∀ stage limit, (stage, limit) ∈ g.opened → limit = stage.limit g.metadata w.concurrency

end From

/-- No commit gets between the reads of a generation: the shared configuration is swapped while no request
    is under way and no generation awaits its limit, no request begins before the last cell is written,
    and the commit starts no services. -/
def KeptApart (s : SharedState) : SharedMove → Prop
  | .swap _ _ => s.requesters = [] ∧ ∀ g ∈ s.generations, g.awaitsLimit = false
  | .reconcile toStart => toStart = []
  | .route _ => s.commit = none
  | .write | .read _ | .dispatch _ | .startServices _ | .openStage _ | .finish _ => True

instance (s : SharedState) (move : SharedMove) : Decidable (KeptApart s move) :=
  match move with
  | .swap _ _ => inferInstanceAs (Decidable (s.requesters = [] ∧ ∀ g ∈ s.generations, g.awaitsLimit = false))
  | .reconcile toStart => inferInstanceAs (Decidable (toStart = []))
  | .route _ => decidable_of_iff (s.commit.isNone = true) Option.isNone_iff_eq_none
  | .write | .read _ | .dispatch _ | .startServices _ | .openStage _ | .finish _ =>
    inferInstanceAs (Decidable True)

/-- The executor opens a stage with this limit. -/
theorem beginStage_limit {W : Type} (env : Env W) (io : Io W) (run : Run) (stage : Stage)
    (rest : List Stage) :
    (beginStage env io run stage rest).2.stageLimit
      = stage.limit run.metadata (env.concurrencyLimit io.world) := by
  cases stage <;> rfl

/-! ### What a request depends on -/

def WorkerCells.Agrees (a b : WorkerCells) : Cell → Prop
  | .revision => a.revision = b.revision
  | .concurrency => a.concurrency = b.concurrency
  | .hooks => a.hooks = b.hooks
  | .recoveryPolicy => a.recoveryPolicy = b.recoveryPolicy

theorem WorkerCells.copy_agrees (a b : WorkerCells) (cell : Cell) : (a.copy b cell).Agrees b cell := by
  cases cell <;> rfl

theorem WorkerCells.Agrees.copy {a b : WorkerCells} {cell : Cell} (h : a.Agrees b cell) (other : Cell) :
    (a.copy b other).Agrees b cell := by
  cases other <;> cases cell <;> first | rfl | exact h

/-- Copied one after the other, the cells agree. -/
theorem agrees_copied {a b : WorkerCells} {done : List Cell} (h : ∀ cell ∈ done, a.Agrees b cell)
    (next : Cell) : ∀ cell ∈ done ++ [next], (a.copy b next).Agrees b cell := by
  intro cell hcell
  rcases List.mem_append.mp hcell with hcell | hcell
  · exact (h cell hcell).copy next
  · rw [List.mem_singleton.mp hcell]
    exact a.copy_agrees b next

theorem WorkerCells.eq_of_agrees {a b : WorkerCells} (h : ∀ cell ∈ commitOrder, a.Agrees b cell) :
    a = b := by
  obtain ⟨concurrency, hooks, policy, revision⟩ := a
  obtain ⟨concurrency', hooks', policy', revision'⟩ := b
  have hrevision : revision = revision' := h .revision (by decide)
  have hconcurrency : concurrency = concurrency' := h .concurrency (by decide)
  have hhooks : hooks = hooks' := h .hooks (by decide)
  have hpolicy : policy = policy' := h .recoveryPolicy (by decide)
  rw [hrevision, hconcurrency, hhooks, hpolicy]

theorem prepareRequest_congr (ctx : WorkerContext) {a b : WorkerCells} {revision : Option ConfigRevision}
    (hrevision : revision = none → a.revision = b.revision) (hhooks : a.hooks = b.hooks)
    (hpolicy : a.recoveryPolicy = b.recoveryPolicy) (runId : Nat) (plan : RunPlan) (trigger : String)
    (filepath : Option String) (batch : Option Nat) (changed : List String) :
    ctx.prepareRequest a runId plan trigger filepath batch changed revision
      = ctx.prepareRequest b runId plan trigger filepath batch changed revision := by
  have hbound : revision.or a.revision = revision.or b.revision := by
    cases revision with
    | none => simpa using hrevision rfl
    | some r => rfl
  unfold WorkerContext.prepareRequest
  rw [hbound, hhooks, hpolicy]

/-- A request is made of the cells it reads. -/
theorem Routed.request_congr (ctx : WorkerContext) (r : Routed) {a b : WorkerCells}
    (h : ∀ cell ∈ r.reads, a.Agrees b cell) (runId : Nat) :
    r.request ctx a runId = r.request ctx b runId := by
  have hhooks : a.hooks = b.hooks := h .hooks (by simp [Routed.reads])
  have hpolicy : a.recoveryPolicy = b.recoveryPolicy := h .recoveryPolicy (by simp [Routed.reads])
  have hrevision : r.revision = none → a.revision = b.revision := fun hnone =>
    h .revision (by simp [Routed.reads, hnone])
  unfold Routed.request
  split
  · rename_i name sequential htarget
    have heffective : (if sequential then 1 else a.concurrency) = if sequential then 1 else b.concurrency := by
      cases sequential with
      | true => rfl
      | false => exact h .concurrency (by simp [Routed.reads, htarget])
    unfold WorkerContext.targetRequest
    rw [prepareRequest_congr ctx hrevision hhooks hpolicy, heffective, hhooks]
  · exact prepareRequest_congr ctx hrevision hhooks hpolicy _ _ _ _ _ _

theorem prepareRequest_values {ctx : WorkerContext} {cells : WorkerCells} {runId : Nat} {plan : RunPlan}
    {trigger : String} {filepath : Option String} {batch : Option Nat} {changed : List String}
    {revision : Option ConfigRevision} {request : RunRequest}
    (h : ctx.prepareRequest cells runId plan trigger filepath batch changed revision = .ok request) :
    request.runId = runId ∧ request.revision = (revision.or cells.revision).map (·.number) ∧
      request.revisionHash = (revision.or cells.revision).map (·.hash) ∧ request.hooks = cells.hooks ∧
      request.recoveryPolicy = cells.recoveryPolicy := by
  unfold WorkerContext.prepareRequest at h
  split at h
  · cases h
  · cases h
    exact ⟨rfl, rfl, rfl, rfl, rfl⟩

/-- The values a request carries. -/
theorem Routed.request_values {ctx : WorkerContext} {r : Routed} {cells : WorkerCells} {runId : Nat}
    {request : RunRequest} (h : r.request ctx cells runId = .ok request) :
    request.runId = runId ∧ request.revision = (r.revision.or cells.revision).map (·.number) ∧
      request.revisionHash = (r.revision.or cells.revision).map (·.hash) ∧ request.hooks = cells.hooks ∧
      request.recoveryPolicy = cells.recoveryPolicy := by
  unfold Routed.request at h
  split at h
  · unfold WorkerContext.targetRequest at h
    simp only at h
    split at h
    · cases h
    · rename_i prepared hprepared
      cases h
      obtain ⟨hid, hrevision, hhash, -, hpolicy⟩ := prepareRequest_values hprepared
      exact ⟨hid, hrevision, hhash, rfl, hpolicy⟩
  · exact prepareRequest_values h

/-! ### Interleavings kept apart -/

section KeptApart

variable {ctx : WorkerContext} {M : Matchers} {s t : SharedState}

/-- A request that has read nothing but what one configuration gives. -/
structure Requester.Under (M : Matchers) (w : Watches) (r : Requester) : Prop where
  routed : ∃ origin, Origin.route M w origin = some r.routed
  seen : ∃ done, r.routed.reads = done ++ r.reads ∧ ∀ cell ∈ done, r.seen.Agrees w.workerCells cell

/-- Between commits the cells are those of the shared configuration, requests have read nothing else, and
    a generation that awaits its limit is of the shared configuration. During a commit there is neither a
    request nor such a generation. -/
structure SharedState.Consistent (ctx : WorkerContext) (M : Matchers) (s : SharedState) : Prop where
  shared : s.shared ∈ s.committed
  between : s.commit = none → s.cells = s.shared.workerCells
  during : ∀ candidate writes, s.commit = some ⟨candidate, writes⟩ →
    candidate = s.shared ∧ s.requesters = [] ∧ (∀ g ∈ s.generations, g.awaitsLimit = false) ∧
      ∃ done, commitOrder = done ++ writes ∧ ∀ cell ∈ done, s.cells.Agrees s.shared.workerCells cell
  requesters : ∀ r ∈ s.requesters, r.Under M s.shared
  services : s.services = []
  generations : ∀ g ∈ s.generations, ∃ w ∈ s.committed, g.From ctx M w ∧
    (g.awaitsLimit = true → w = s.shared)

theorem SharedState.start_consistent (w : Watches) : (SharedState.start w).Consistent ctx M where
  shared := List.mem_singleton.mpr rfl
  between := fun _ => rfl
  during := by
    intro candidate writes h
    cases h
  requesters := by
    intro r hr
    cases hr
  services := rfl
  generations := by
    intro g hg
    cases hg

/-- With a request under way there is no commit. -/
theorem SharedState.Consistent.commit_none (h : s.Consistent ctx M) {i : Nat} {r : Requester}
    (hr : s.requesters[i]? = some r) : s.commit = none := by
  cases hcommit : s.commit with
  | none => rfl
  | some c =>
    obtain ⟨-, hempty, -⟩ := h.during c.candidate c.writes hcommit
    rw [hempty] at hr
    cases hr

theorem SharedState.Consistent.swap (h : s.Consistent ctx M) {revision : ConfigRevision}
    {candidate : Watches} (hrequesters : s.requesters = [])
    (hgenerations : ∀ g ∈ s.generations, g.awaitsLimit = false)
    (hstep : s.swap revision candidate = some t) : t.Consistent ctx M := by
  unfold SharedState.swap at hstep
  split at hstep
  · cases hstep
  · cases hstep
    refine ⟨List.mem_append_right _ (List.mem_singleton.mpr rfl), ?_, ?_, ?_, h.services, ?_⟩
    · intro hnone
      cases hnone
    · intro candidate' writes hcommit
      cases hcommit
      exact ⟨rfl, hrequesters, hgenerations, [], rfl, by simp⟩
    · intro r hr
      rw [show s.requesters = [] from hrequesters] at hr
      cases hr
    · intro g hg
      obtain ⟨w, hw, hfrom, -⟩ := h.generations g hg
      refine ⟨w, List.mem_append_left _ hw, hfrom, fun hawaits => ?_⟩
      rw [hgenerations g hg] at hawaits
      cases hawaits

theorem SharedState.Consistent.write (h : s.Consistent ctx M) (hstep : s.write = some t) :
    t.Consistent ctx M := by
  unfold SharedState.write at hstep
  split at hstep
  · rename_i candidate cell rest hcommit
    cases hstep
    obtain ⟨rfl, hrequesters, hgenerations, done, horder, hagrees⟩ := h.during _ _ hcommit
    refine ⟨h.shared, ?_, ?_, h.requesters, h.services, h.generations⟩
    · intro hnone
      cases hnone
    · intro candidate' writes hcommit'
      cases hcommit'
      refine ⟨rfl, hrequesters, hgenerations, done ++ [cell], ?_, agrees_copied hagrees cell⟩
      rw [horder, List.append_assoc]
      rfl
  · cases hstep

theorem SharedState.Consistent.reconcile (h : s.Consistent ctx M) (hstep : s.reconcile [] = some t) :
    t.Consistent ctx M := by
  unfold SharedState.reconcile at hstep
  split at hstep
  · rename_i candidate hcommit
    cases hstep
    obtain ⟨-, -, -, done, horder, hagrees⟩ := h.during _ _ hcommit
    refine ⟨h.shared, fun _ => ?_, ?_, h.requesters, h.services, h.generations⟩
    · refine WorkerCells.eq_of_agrees fun cell hcell => hagrees cell ?_
      rw [horder, List.append_nil] at hcell
      exact hcell
    · intro candidate' writes hcommit'
      cases hcommit'
  · cases hstep

theorem SharedState.Consistent.route (h : s.Consistent ctx M) {origin : Origin} (hcommit : s.commit = none)
    (hstep : s.route M origin = some t) : t.Consistent ctx M := by
  unfold SharedState.route at hstep
  split at hstep
  · cases hstep
  split at hstep
  · cases hstep
    exact h
  · rename_i routed hrouted
    cases hstep
    refine ⟨h.shared, h.between, ?_, ?_, h.services, h.generations⟩
    · intro candidate writes hcommit'
      rw [show s.commit = none from hcommit] at hcommit'
      cases hcommit'
    · intro r hr
      rcases List.mem_append.mp hr with hr | hr
      · exact h.requesters r hr
      · rw [List.mem_singleton.mp hr]
        exact ⟨⟨origin, hrouted⟩, [], rfl, by simp⟩

theorem SharedState.Consistent.read (h : s.Consistent ctx M) {i : Nat} (hstep : s.read i = some t) :
    t.Consistent ctx M := by
  unfold SharedState.read at hstep
  split at hstep
  · rename_i routed seen cell rest hr
    cases hstep
    have hcommit := h.commit_none hr
    refine ⟨h.shared, h.between, ?_, ?_, h.services, h.generations⟩
    · intro candidate writes hcommit'
      rw [show s.commit = none from hcommit] at hcommit'
      cases hcommit'
    · intro r hmem
      rcases List.mem_or_eq_of_mem_set hmem with hmem | rfl
      · exact h.requesters r hmem
      · obtain ⟨horigin, done, hreads, hagrees⟩ := h.requesters _ (List.mem_of_getElem? hr)
        refine ⟨horigin, done ++ [cell], ?_, ?_⟩
        · rw [hreads, List.append_assoc]
          rfl
        · rw [h.between hcommit]
          exact agrees_copied hagrees cell
  · cases hstep

/-- A dispatched generation is what the shared configuration gives. -/
theorem Requester.Under.dispatched {w : Watches} {routed : Routed} {seen : WorkerCells}
    (h : Requester.Under M w ⟨routed, seen, []⟩) {runId : Nat} {request : RunRequest}
    (hrequest : routed.request ctx seen runId = .ok request) :
    Generation.From ctx M w ⟨request.metadata, request.plan, request.plan.stages, [], []⟩ := by
  obtain ⟨⟨origin, horigin⟩, done, hreads, hagrees⟩ := h
  refine ⟨.inl ⟨origin, routed, request, horigin, ?_, rfl, rfl⟩, by simp, by simp⟩
  rw [← routed.request_congr ctx (fun cell hcell => hagrees cell ?_)]
  · rw [show request.metadata.runId = runId from (Routed.request_values hrequest).1]
    exact hrequest
  · rw [hreads, List.append_nil] at hcell
    exact hcell

theorem SharedState.Consistent.dispatch (h : s.Consistent ctx M) {i : Nat}
    (hstep : s.dispatch ctx i = some t) : t.Consistent ctx M := by
  unfold SharedState.dispatch at hstep
  split at hstep
  · rename_i routed seen hr
    have hcommit := h.commit_none hr
    have hrest : ∀ r ∈ s.requesters.eraseIdx i, r.Under M s.shared := fun r hmem =>
      h.requesters r (List.mem_of_mem_eraseIdx hmem)
    have hnever : ∀ {candidate writes}, s.commit ≠ some ⟨candidate, writes⟩ := by
      intro candidate writes hsome
      rw [hcommit] at hsome
      cases hsome
    split at hstep
    · cases hstep
      exact ⟨h.shared, h.between, fun _ _ hsome => absurd hsome hnever, hrest, h.services, h.generations⟩
    · rename_i request hrequest
      cases hstep
      refine ⟨h.shared, h.between, fun _ _ hsome => absurd hsome hnever, hrest, h.services, ?_⟩
      intro g hg
      rcases List.mem_append.mp hg with hg | hg
      · exact h.generations g hg
      · rw [List.mem_singleton.mp hg]
        exact ⟨s.shared, h.shared, (h.requesters _ (List.mem_of_getElem? hr)).dispatched hrequest, fun _ => rfl⟩
  · cases hstep

/-- A generation that moves on within its configuration leaves the rest as it is. -/
theorem SharedState.Consistent.set (h : s.Consistent ctx M) {i : Nat} {g g' : Generation}
    (hg : s.generations[i]? = some g) (hawaits : g'.awaitsLimit = true → g.awaitsLimit = true)
    (hfrom : ∀ w, (g.awaitsLimit = true → w = s.shared) → g.From ctx M w → g'.From ctx M w) :
    SharedState.Consistent ctx M { s with generations := s.generations.set i g' } where
  shared := h.shared
  between := h.between
  during := by
    intro candidate writes hcommit
    obtain ⟨hcandidate, hrequesters, hgenerations, hdone⟩ := h.during candidate writes hcommit
    refine ⟨hcandidate, hrequesters, ?_, hdone⟩
    intro other hother
    rcases List.mem_or_eq_of_mem_set hother with hother | rfl
    · exact hgenerations other hother
    · rw [Bool.eq_false_iff]
      intro htrue
      exact absurd (hawaits htrue) (by simp [hgenerations g (List.mem_of_getElem? hg)])
  requesters := h.requesters
  services := h.services
  generations := by
    intro other hother
    rcases List.mem_or_eq_of_mem_set hother with hother | rfl
    · exact h.generations other hother
    · obtain ⟨w, hw, hg', hshared⟩ := h.generations g (List.mem_of_getElem? hg)
      exact ⟨w, hw, hfrom w hshared hg', fun htrue => hshared (hawaits htrue)⟩

theorem SharedState.Consistent.openStage (h : s.Consistent ctx M) {i : Nat}
    (hstep : s.openStage i = some t) : t.Consistent ctx M := by
  unfold SharedState.openStage at hstep
  split at hstep
  · rename_i metadata plan stage rest opened appended hg
    cases hstep
    refine h.set hg ?_ ?_
    · intro hawaits
      simp only [Generation.awaitsLimit, Bool.and_eq_true, List.any_cons, Bool.or_eq_true] at hawaits ⊢
      exact ⟨hawaits.1, .inr hawaits.2⟩
    · intro w hshared hfrom
      refine ⟨hfrom.scheduled, hfrom.appended, ?_⟩
      intro other limit hmem
      rcases List.mem_append.mp hmem with hmem | hmem
      · exact hfrom.limits other limit hmem
      · cases List.mem_singleton.mp hmem
        -- only a parallel stage without a limit of its own reads the cell
        cases stage with
        | serial task => rfl
        | parallel group tasks =>
          cases hlimit : metadata.effectiveConcurrency with
          | some limit => simp [Stage.limit, hlimit]
          | none =>
            have hawaits : Generation.awaitsLimit ⟨metadata, plan, .parallel group tasks :: rest, opened,
                appended⟩ = true := by simp [Generation.awaitsLimit, hlimit, Stage.isParallel]
            have hcommit : s.commit = none := by
              cases hcommit : s.commit with
              | none => rfl
              | some c =>
                obtain ⟨-, -, hgenerations, -⟩ := h.during c.candidate c.writes hcommit
                rw [hgenerations _ (List.mem_of_getElem? hg)] at hawaits
                cases hawaits
            rw [hshared hawaits, h.between hcommit]
            rfl
  · cases hstep

theorem SharedState.Consistent.finish (h : s.Consistent ctx M) {i : Nat} (hstep : s.finish i = some t) :
    t.Consistent ctx M := by
  unfold SharedState.finish at hstep
  obtain ⟨g, hg, rfl⟩ := Option.map_eq_some_iff.mp hstep
  refine h.set hg ?_ fun w _ hfrom => ⟨hfrom.scheduled, hfrom.appended, hfrom.limits⟩
  intro hawaits
  simp [Generation.awaitsLimit] at hawaits

theorem SharedState.Consistent.step (h : s.Consistent ctx M) {move : SharedMove}
    (hapart : KeptApart s move) (hstep : s.step ctx M move = some t) : t.Consistent ctx M := by
  cases move with
  | swap revision candidate => exact h.swap hapart.1 hapart.2 hstep
  | write => exact h.write hstep
  | reconcile toStart =>
    rw [show toStart = [] from hapart] at hstep
    exact h.reconcile hstep
  | route origin => exact h.route hapart hstep
  | read i => exact h.read hstep
  | dispatch i => exact h.dispatch hstep
  | startServices active =>
    simp only [SharedState.step, SharedState.startServices, h.services] at hstep
    cases hstep
  | openStage i => exact h.openStage hstep
  | finish i => exact h.finish hstep

end KeptApart

/-- In every interleaving in which no commit gets between the reads of a generation, every generation runs
    with the values of one committed configuration. -/
theorem SharedState.one_configuration (ctx : WorkerContext) (M : Matchers) (w : Watches)
    (moves : List SharedMove) (s : SharedState)
    (hapart : Machine.Meets (SharedState.step ctx M) KeptApart (SharedState.start w) moves)
    (hrun : Machine.after (SharedState.step ctx M) (SharedState.start w) moves = some s) :
    ∀ g ∈ s.generations, ∃ v ∈ s.committed, g.From ctx M v := by
  have hconsistent := Machine.invariant (SharedState.step ctx M) (I := SharedState.Consistent ctx M)
    (fun _ _ _ hs hcond hstep => hs.step hcond hstep) moves _ s (SharedState.start_consistent w)
    hapart hrun
  intro g hg
  obtain ⟨v, hv, hfrom, -⟩ := hconsistent.generations g hg
  exact ⟨v, hv, hfrom⟩

/-! ### Disturbed interleavings -/

theorem Origin.route_revision {M : Matchers} {w : Watches} {origin : Origin} {routed : Routed}
    (h : origin.route M w = some routed) : routed.revision = w.revision := by
  cases origin <;> obtain ⟨_, _, rfl⟩ := Option.map_eq_some_iff.mp h <;> rfl

/-- The recorded revision, the hooks and the recovery policy of a generation under one configuration. -/
theorem Generation.From.values {ctx : WorkerContext} {M : Matchers} {w : Watches} {g : Generation}
    (h : g.From ctx M w) :
    g.metadata.revision = some (w.revision.getD ⟨0, ""⟩).number ∧ g.metadata.hooks = w.hooks ∧
      g.metadata.recoveryPolicy = w.recoveryPolicy := by
  rcases h.scheduled with ⟨origin, routed, request, hroute, hrequest, hmetadata, -⟩ | ⟨names, -, hmetadata⟩
  · obtain ⟨-, hrevision, -, hhooks, hpolicy⟩ := Routed.request_values hrequest
    rw [Origin.route_revision hroute] at hrevision
    rw [hmetadata]
    refine ⟨?_, hhooks, hpolicy⟩
    rw [RunRequest.metadata, hrevision, Watches.workerCells]
    cases w.revision <;> rfl
  · rw [hmetadata]
    exact ⟨rfl, rfl, rfl⟩

/-- A file system that has nothing to resolve. -/
def plainContext : WorkerContext where
  fs := ⟨fun _ => false, fun path => .ok path⟩
  root := "/ws"
  failFast := false
  signature := fun _ _ _ => ""

def noPatterns : Matchers := ⟨fun _ _ => false, fun _ => false⟩

/-- Two groups of two tasks, one after the other. -/
def twoGroups (limit : Nat) (hook : String) (hlimit : 0 < limit) : Watches :=
  { Watches.withRootAndConcurrency
      [{ name := "lint", commands := ["lint"], parallel := some "check", runOnInit := true },
        { name := "test", commands := ["test"], parallel := some "check", runOnInit := true },
        { name := "docs", commands := ["docs"], parallel := some "build", runOnInit := true },
        { name := "dist", commands := ["dist"], parallel := some "build", runOnInit := true }]
      "/ws" limit rfl hlimit with
    hooks := { failure := some hook }
    revision := some ⟨1, "a"⟩ }

/-- A target requested between the swap and the write of the hooks. -/
def hookRace : List SharedMove :=
  [.swap ⟨2, "b"⟩ (twoGroups 1 "notify new" Nat.one_pos), .route (.target "lint" true), .read 0, .read 0,
    .read 0, .dispatch 0]

/-- A commit between the two groups of a run. -/
def limitRace : List SharedMove :=
  [.route .init, .read 0, .read 0, .dispatch 0, .openStage 0,
    .swap ⟨2, "b"⟩ (twoGroups 1 "notify new" Nat.one_pos), .write, .write, .write, .write, .reconcile [],
    .openStage 0]

/-- The target of the new configuration runs with the old hook, and the groups of one run are opened with
    the limits of two configurations. -/
theorem SharedState.configurations_mix :
    (∃ s, Machine.after (SharedState.step plainContext noPatterns)
        (SharedState.start (twoGroups 2 "notify old" Nat.two_pos)) hookRace = some s ∧
      ∃ g ∈ s.generations, ∀ v ∈ s.committed, ¬ g.From plainContext noPatterns v) ∧
    ∃ s, Machine.after (SharedState.step plainContext noPatterns)
        (SharedState.start (twoGroups 2 "notify old" Nat.two_pos)) limitRace = some s ∧
      ∃ g ∈ s.generations, ∀ v ∈ s.committed, ¬ g.From plainContext noPatterns v := by
  refine ⟨⟨_, rfl, ?_⟩, _, rfl, ?_⟩
  · refine ⟨_, List.mem_singleton.mpr rfl, ?_⟩
    intro v hv hfrom
    obtain ⟨hrevision, hhooks, -⟩ := hfrom.values
    rcases List.mem_cons.mp hv with rfl | hv
    · exact absurd hrevision (by decide)
    · rw [List.mem_singleton.mp hv] at hhooks
      exact absurd hhooks (by decide)
  · refine ⟨_, List.mem_singleton.mpr rfl, ?_⟩
    intro v hv hfrom
    rcases List.mem_cons.mp hv with rfl | hv
    · have hsecond := hfrom.limits _ _ (List.mem_cons_of_mem _ (List.mem_singleton.mpr rfl))
      exact absurd hsecond (by decide)
    · obtain ⟨hrevision, -, -⟩ := hfrom.values
      rw [List.mem_singleton.mp hv] at hrevision
      exact absurd hrevision (by decide)

/-- A commit between two runs: the first is over and the second has not begun. -/
def reloadBetween : List SharedMove :=
  [.route .init, .read 0, .read 0, .dispatch 0, .openStage 0, .openStage 0, .finish 0,
    .swap ⟨2, "b"⟩ (twoGroups 1 "notify new" Nat.one_pos), .write, .write, .write, .write, .reconcile [],
    .route (.target "lint" false), .read 0, .read 0, .read 0, .read 0, .dispatch 0, .openStage 1]

theorem SharedState.one_configuration_between :
    ∃ s, Machine.after (SharedState.step plainContext noPatterns)
        (SharedState.start (twoGroups 2 "notify old" Nat.two_pos)) reloadBetween = some s ∧
      (s.generations.map fun g => (g.metadata.revision, g.opened.map (·.2))) = [(some 1, [2, 2]), (some 2, [1])] ∧
      ∀ g ∈ s.generations, ∃ v ∈ s.committed, g.From plainContext noPatterns v := by
  refine ⟨_, rfl, by decide, ?_⟩
  exact SharedState.one_configuration plainContext noPatterns (twoGroups 2 "notify old" Nat.two_pos)
    reloadBetween _ (by decide) rfl

end Funzzy
