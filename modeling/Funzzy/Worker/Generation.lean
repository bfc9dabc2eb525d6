import Funzzy.Executor.Conservation

/-! What the worker relies on of the executor.

    The worker sees a generation through five calls: `start`, `advance`, `cancel`, `finish` and the two
    reload operations. Of their effects only the milestones of a generation matter to it, the events
    `Started`, `Finished` and `Cancelled`: starting, cancelling and finishing emit exactly one each, and
    the other calls none. -/

namespace Funzzy

variable {W : Type}

def Event.isMilestone : Event → Bool
  | .started _ _ | .finished _ _ _ _ | .cancelled _ _ => true
  | .tick _ _ | .taskTerminal _ _ | .recoveryPhase _ _ _ _ => false

/-- The milestone an effect is, if it is one. -/
def Effect.milestone? : Effect → Option Event
  | .event e => if e.isMilestone then some e else none
  | _ => none

/-- The events of a trace that begin and end generations. -/
def milestones (trace : List Effect) : List Event := trace.filterMap Effect.milestone?

@[simp] theorem milestones_append (a b : List Effect) :
    milestones (a ++ b) = milestones a ++ milestones b :=
  List.filterMap_append

/-! ### Work on a generation -/

/-- An effect of the work on a generation: no milestone, and the task reports are its own. -/
def Effect.worksFor (id : Nat) : Effect → Prop
  | .event (.taskTerminal runId _) => runId = id
  | .event e => e.isMilestone = false
  | _ => True

/-- The trace has grown by work on the generation. -/
def Works (id : Nat) (trace trace' : List Effect) : Prop :=
  ∃ effects, trace' = trace ++ effects ∧ ∀ x ∈ effects, x.worksFor id

theorem Works.refl (id : Nat) (trace : List Effect) : Works id trace trace :=
  ⟨[], (List.append_nil trace).symm, fun _ hx => absurd hx List.not_mem_nil⟩

theorem Works.append {id : Nat} (trace : List Effect) {effects : List Effect}
    (h : ∀ x ∈ effects, x.worksFor id) : Works id trace (trace ++ effects) :=
  ⟨effects, rfl, h⟩

theorem Works.trans {id : Nat} {a b c : List Effect} (h : Works id a b) (h' : Works id b c) :
    Works id a c := by
  obtain ⟨first, rfl, hfirst⟩ := h
  obtain ⟨second, rfl, hsecond⟩ := h'
  refine ⟨first ++ second, List.append_assoc a first second, fun x hx => ?_⟩
  exact (List.mem_append.mp hx).elim (hfirst x) (hsecond x)

/-- Work on a generation is no milestone. -/
theorem Works.milestones_eq {id : Nat} {trace trace' : List Effect} (h : Works id trace trace') :
    milestones trace' = milestones trace := by
  obtain ⟨effects, rfl, heffects⟩ := h
  have hnone : milestones effects = [] := by
    refine List.filterMap_eq_nil_iff.mpr fun x hx => ?_
    have hwork := heffects x hx
    cases x with
    | event e =>
      cases e with
      | started | finished | cancelled => cases hwork
      | tick | taskTerminal | recoveryPhase => rfl
    | _ => rfl
  rw [milestones_append, hnone, List.append_nil]

theorem TaskMove.works (id : Nat) {phase : Phase} {w w' : Work} (h : TaskMove phase w w') :
    Works id w.trace w'.trace := by
  cases h with
  | validate => exact Works.refl id _
  | _ => exact Works.append _ (by simp [Effect.worksFor, Event.isMilestone])

theorem ServiceMove.works (id : Nat) {s : ActiveTask} {effects : List Effect} {s' : Option ActiveTask}
    {results : Results} {state : TaskState} {outcome : TaskOutcome}
    (h : ServiceMove s effects s' results state outcome) : ∀ x ∈ effects, x.worksFor id := by
  cases h <;> simp [Effect.worksFor]

theorem ActiveTask.killEffects_works (id : Nat) (t : ActiveTask) :
    ∀ x ∈ t.killEffects, x.worksFor id := by
  intro x hx
  unfold ActiveTask.killEffects at hx
  split at hx
  · rw [List.mem_singleton.mp hx]
    trivial
  · cases hx

/-- A move of a run is work on its generation. -/
theorem Move.works {failFast : Bool} {v v' : View} (h : Move failFast v v') :
    Works v.run.metadata.runId v.trace v'.trace := by
  cases h with
  | task seen rest t t' results trace _ _ _ hmove => exact hmove.works _
  | recovering r t' results results' trace _ _ hmove => exact hmove.works _
  | fill | park | sort | signal | verify => exact Works.refl _ _
  | service kept rest s s' effects results state outcome _ _ hmove =>
    exact Works.append _ (hmove.works _)
  | serviceLeft kept rest s effects results state outcome durationMs _ _ hmove =>
    exact (Works.append _ (hmove.works _)).trans
      (Works.append _ (by simp [Run.terminal, Effect.worksFor]))
  | stop t rest durationMs =>
    exact (Works.append _ (t.killEffects_works _)).trans
      (Works.append _ (by simp [Run.terminal, Effect.worksFor]))
  | interrupt r => exact Works.append _ (r.task.killEffects_works _)
  | skipQueued | skipStages =>
    refine Works.append _ fun x hx => ?_
    obtain ⟨t, -, rfl⟩ := List.mem_map.mp hx
    rfl
  | _ =>
    exact Works.append _ (by
      simp [Run.terminal, Run.recoveryStarted, Run.verificationFinished, Effect.worksFor,
        Event.isMilestone])

/-! ### A generation between two calls -/

/-- What the executor's own guards rely on of a run that is handed to `advance` with this token. -/
structure Run.Sound (failFast token : Bool) (run : Run) : Prop where
  ready : ∀ trace, View.Ready { run, token, trace }
  settled : run.Settled failFast
  idle : token = true ∨ (run.Drained → run.pendingRecoveries = [])

/-- A token that is set in the meantime does no harm. -/
theorem Run.Sound.signalled {failFast token token' : Bool} {run : Run} (h : run.Sound failFast token)
    (hmono : token = true → token' = true) : run.Sound failFast token' where
  ready trace :=
    { fresh := (h.ready trace).fresh
      deferred := fun hfalse => (h.ready trace).deferred (by
        cases token with
        | false => rfl
        | true => exact absurd (hmono rfl) (by simpa using hfalse)) }
  settled := h.settled
  idle := h.idle.imp hmono id

theorem start_sound (failFast token : Bool) (env : Env W) (io : Io W) (metadata : RunMetadata)
    (plan : RunPlan) : (start env io metadata plan).2.Sound failFast token where
  ready _ :=
    { fresh := by intro t ht; cases ht
      deferred := by intro _ t ht; cases ht }
  settled := by intro t ht; cases ht
  idle := .inr fun _ => rfl

theorem appendPlan_sound {failFast token : Bool} {run : Run} (plan : RunPlan)
    (h : run.Sound failFast token) : (appendPlan run plan).Sound failFast token :=
  ⟨fun trace => ⟨(h.ready trace).fresh, (h.ready trace).deferred⟩, h.settled, h.idle⟩

@[simp] theorem milestones_start (env : Env W) (io : Io W) (metadata : RunMetadata) (plan : RunPlan) :
    milestones (start env io metadata plan).1.trace
      = milestones io.trace ++ [.started metadata (plan.commands.map (·.display))] := by
  simp [start, Io.emit, Io.record, milestones, Effect.milestone?, Event.isMilestone]

/-- A call of `advance` that returns is work on the generation and leaves it what it was. -/
theorem advance_works {ex : LawfulExecutor} {env : Env W} {polls : Nat} {io io' : Io W}
    {run run' : Run} {step : Step} (h : run.Sound ex.failFast io.token)
    (hr : advance ex env polls io run = (io', run', .returned step)) :
    run'.metadata = run.metadata ∧ Works run.metadata.runId io.trace io'.trace ∧
      (step = .running → run'.Sound ex.failFast io'.token) := by
  have hadvanced := advance_advanced ex env polls io run (h.ready io.trace) h.settled h.idle
  rw [hr] at hadvanced
  have hmoves : Moves ex.failFast (view io run) (view io' run') := by
    cases step <;> exact hadvanced.1
  have hkept := hmoves.invariant
    (P := fun v => v.run.metadata = run.metadata ∧ Works run.metadata.runId io.trace v.trace)
    (fun v v' hmove hv => ⟨hmove.metadata_eq.trans hv.1, hv.2.trans (hv.1 ▸ hmove.works)⟩)
    ⟨rfl, Works.refl _ _⟩
  have hready := Moves.ready hmoves (h.ready io.trace)
  refine ⟨hkept.1, hkept.2, fun hrunning => ?_⟩
  subst hrunning
  exact ⟨fun _ => ⟨hready.fresh, hready.deferred⟩, hadvanced.2.1, hadvanced.2.2⟩

theorem advance_generation {ex : LawfulExecutor} {env : Env W} {polls : Nat} {io io' : Io W}
    {run run' : Run} {step : Step} (h : run.Sound ex.failFast io.token)
    (hr : advance ex env polls io run = (io', run', .returned step)) :
    run'.metadata = run.metadata ∧ milestones io'.trace = milestones io.trace ∧
      (step = .running → run'.Sound ex.failFast io'.token) := by
  obtain ⟨hid, hworks, hsound⟩ := advance_works h hr
  exact ⟨hid, hworks.milestones_eq, hsound⟩

theorem reconcileServices_works (env : Env W) (io : Io W) (run : Run) (stopNames : List String) :
    Works run.metadata.runId io.trace (reconcileServices env io run stopNames).1.trace := by
  obtain ⟨htrace, -, -⟩ := reconcileFrom_eq env stopNames run.services [] io run rfl
  refine ⟨_, htrace, fun x hx => ?_⟩
  obtain ⟨t, -, hx⟩ := List.mem_flatMap.mp hx
  exact t.killEffects_works _ x hx

/-- Stopping services leaves the generation what it was. -/
theorem reconcileServices_generation {failFast token : Bool} (env : Env W) (io : Io W) {run : Run}
    (stopNames : List String) (h : run.Sound failFast token) :
    let r := reconcileServices env io run stopNames
    r.2.1.metadata = run.metadata ∧ milestones r.1.trace = milestones io.trace ∧
      r.2.1.Sound failFast token := by
  obtain ⟨-, -, hrun⟩ := reconcileFrom_eq env stopNames run.services [] io run rfl
  have hfields : (reconcileServices env io run stopNames).2.1
      = { run with
          services := run.services.filter fun t => !stopNames.contains t.name
          outcomes := run.outcomes ++ (run.services.filter fun t => stopNames.contains t.name).map
            fun t => t.job.entry .cancelled } := hrun
  exact ⟨by rw [hfields], (reconcileServices_works env io run stopNames).milestones_eq,
    by rw [hfields]; exact
      ⟨fun trace => ⟨(h.ready trace).fresh, (h.ready trace).deferred⟩, h.settled, h.idle⟩⟩

/-! ### Ending a generation -/

/-- The trace has grown by work on the generation and then by one event. -/
def Ends (id : Nat) (trace trace' : List Effect) (e : Event) : Prop :=
  ∃ worked, Works id trace worked ∧ trace' = worked ++ [.event e]

theorem Ends.milestones_eq {id : Nat} {trace trace' : List Effect} {e : Event}
    (h : Ends id trace trace' e) (he : e.isMilestone = true) :
    milestones trace' = milestones trace ++ [e] := by
  obtain ⟨worked, hworks, rfl⟩ := h
  rw [milestones_append, hworks.milestones_eq]
  simp [milestones, Effect.milestone?, he]

theorem finish_ends (env : Env W) (io : Io W) (run : Run) : ∃ elapsed failures,
    Ends run.metadata.runId io.trace (finish env io run).1.trace
      (.finished run.metadata.runId run.supersededBy elapsed failures) := by
  refine ⟨env.now io.world - run.started, run.outcome.failures, _, ?_, rfl⟩
  unfold runTerminalHook
  split
  · exact Works.refl _ _
  · exact Works.append _ (by simp [Effect.worksFor])

theorem finish_milestones (env : Env W) (io : Io W) (run : Run) : ∃ elapsed failures,
    milestones (finish env io run).1.trace
      = milestones io.trace ++ [.finished run.metadata.runId run.supersededBy elapsed failures] := by
  obtain ⟨elapsed, failures, hends⟩ := finish_ends env io run
  exact ⟨elapsed, failures, hends.milestones_eq rfl⟩

/-- Reporting cancelled tasks is work on the generation, and the run keeps its metadata. -/
theorem cancelStarted_works (env : Env W) (drop : Run → List ActiveTask → Run)
    (hdrop : ∀ run rest, (drop run rest).metadata = run.metadata) :
    ∀ (tasks : List ActiveTask) (io : Io W) (run : Run) (escalated : Bool),
      let r := cancelStarted env drop tasks io run escalated
      Works run.metadata.runId io.trace r.1.trace ∧ r.2.1.metadata = run.metadata := by
  intro tasks
  induction tasks with
  | nil => exact fun io run _ => ⟨Works.refl _ _, hdrop run []⟩
  | cons task rest ih =>
    intro io run escalated
    obtain ⟨htrace, -, -⟩ := shutdownTask_eq env io task
    simp only [cancelStarted]
    rcases hr : shutdownTask env io task with ⟨io₁, task₁, killed⟩
    simp only [hr] at htrace
    obtain ⟨hworks, hmetadata⟩ := ih
      (recordTaskSnapshot io₁ (drop run rest) task₁.position task₁.name task₁.groupOccurrence .cancelled
        (elapsedMs env io₁ task₁.started)).1
      (recordTaskSnapshot io₁ (drop run rest) task₁.position task₁.name task₁.groupOccurrence .cancelled
        (elapsedMs env io₁ task₁.started)).2 (escalated || killed)
    have hid : (drop run rest).metadata.runId = run.metadata.runId := by rw [hdrop]
    have hkill : Works run.metadata.runId io.trace io₁.trace := by
      rw [htrace]
      exact Works.append _ (task.killEffects_works _)
    have hreport : Works run.metadata.runId io₁.trace (recordTaskSnapshot io₁ (drop run rest)
        task₁.position task₁.name task₁.groupOccurrence .cancelled
        (elapsedMs env io₁ task₁.started)).1.trace :=
      Works.append _ (by simp [Effect.worksFor, hid])
    have hrest : (recordTaskSnapshot io₁ (drop run rest) task₁.position task₁.name
        task₁.groupOccurrence .cancelled (elapsedMs env io₁ task₁.started)).2.metadata.runId
        = run.metadata.runId := hid
    rw [hrest] at hworks
    exact ⟨(hkill.trans hreport).trans hworks, hmetadata.trans (hdrop run rest)⟩

theorem cancelUnstarted_works : ∀ (tasks : List TaskPlan) (io : Io W) (run : Run),
    let r := cancelUnstarted tasks io run
    Works run.metadata.runId io.trace r.1.trace ∧ r.2.metadata = run.metadata := by
  intro tasks
  induction tasks with
  | nil => exact fun io run => ⟨Works.refl _ _, rfl⟩
  | cons task rest ih =>
    intro io run
    obtain ⟨hworks, hmetadata⟩ := ih
      (recordTaskSnapshot io run task.position task.name task.groupOccurrence .cancelled none).1
      (recordTaskSnapshot io run task.position task.name task.groupOccurrence .cancelled none).2
    have hreport : Works run.metadata.runId io.trace (recordTaskSnapshot io run task.position task.name
        task.groupOccurrence .cancelled none).1.trace :=
      Works.append _ (by simp [Effect.worksFor])
    exact ⟨hreport.trans hworks, hmetadata⟩

/-- Cancelling a generation reports its tasks and then the generation. -/
theorem cancel_ends (env : Env W) (io : Io W) (run : Run) (supersededBy : Option Nat) :
    Ends run.metadata.runId io.trace (cancel env io run supersededBy).1.trace
      (.cancelled run.metadata.runId supersededBy) := by
  simp only [cancel]
  set run₀ : Run := { run with supersededBy } with hrun₀
  obtain ⟨hw₁, hid₁⟩ := cancelStarted_works env (fun run active => { run with active })
    (fun _ _ => rfl) run₀.active io run₀ false
  rcases hr₁ : cancelStarted env (fun run active => { run with active }) run₀.active io run₀ false
    with ⟨io₁, run₁, escalated₁⟩
  simp only [hr₁] at hw₁ hid₁ ⊢
  obtain ⟨hw₂, hid₂⟩ := cancelStarted_works env
    (fun run services => { run with services }) (fun _ _ => rfl) run₁.services io₁ run₁ escalated₁
  rcases hr₂ : cancelStarted env (fun run services => { run with services }) run₁.services io₁ run₁
    escalated₁ with ⟨io₂, run₂, escalated₂⟩
  simp only [hr₂] at hw₂ hid₂ ⊢
  obtain ⟨hw₃, hid₃⟩ := cancelStarted_works env
    (fun run pendingRecoveries => { run with pendingRecoveries }) (fun _ _ => rfl)
    run₂.pendingRecoveries io₂ run₂ escalated₂
  rcases hr₃ : cancelStarted env (fun run pendingRecoveries => { run with pendingRecoveries })
    run₂.pendingRecoveries io₂ run₂ escalated₂ with ⟨io₃, run₃, escalated₃⟩
  simp only [hr₃] at hw₃ hid₃ ⊢
  obtain ⟨hw₄, hid₄⟩ := cancelUnstarted_works run₃.queued io₃ { run₃ with queued := [] }
  rcases hr₄ : cancelUnstarted run₃.queued io₃ { run₃ with queued := [] } with ⟨io₄, run₄⟩
  simp only [hr₄] at hw₄ hid₄ ⊢
  obtain ⟨hw₅, hid₅⟩ := cancelUnstarted_works (run₄.stages.flatMap stageTasks) io₄
    { run₄ with stages := [] }
  rcases hr₅ : cancelUnstarted (run₄.stages.flatMap stageTasks) io₄ { run₄ with stages := [] } with
    ⟨io₅, run₅⟩
  simp only [hr₅] at hw₅ hid₅ ⊢
  have hm₁ : run₁.metadata = run.metadata := hid₁
  have hm₂ : run₂.metadata = run.metadata := hid₂.trans hm₁
  have hm₃ : run₃.metadata = run.metadata := hid₃.trans hm₂
  have hm₄ : run₄.metadata = run.metadata := hid₄.trans hm₃
  have hm₅ : run₅.metadata = run.metadata := hid₅.trans hm₄
  rw [hm₁] at hw₂
  rw [hm₂] at hw₃
  rw [hm₃] at hw₄
  rw [hm₄] at hw₅
  refine ⟨io₅.trace, hw₁.trans (hw₂.trans (hw₃.trans (hw₄.trans hw₅))), ?_⟩
  rw [hm₅]
  rfl

/-- Cancelling a generation is one milestone of it. -/
theorem cancel_milestones (env : Env W) (io : Io W) (run : Run) (supersededBy : Option Nat) :
    milestones (cancel env io run supersededBy).1.trace
      = milestones io.trace ++ [.cancelled run.metadata.runId supersededBy] :=
  (cancel_ends env io run supersededBy).milestones_eq rfl

end Funzzy
