import Funzzy.Executor.Simulation.Stages

/-! Sessions: a generation under any sequence of calls by its owner.

    `Session.after_holds` is the invariant rule the properties of whole runs are proved by: what the
    moves and the two reload operations preserve holds wherever a session stands. -/

namespace Funzzy

variable {W : Type}

/-- Reconciling stops the named services, records their outcomes and keeps the others. -/
theorem reconcileFrom_eq (env : Env W) (stopNames : List String) :
    ∀ (rest kept : List ActiveTask) (io : Io W) (run : Run), run.services = kept ++ rest →
      let r := reconcileFrom env stopNames kept rest io run
      let stopped := rest.filter fun t => stopNames.contains t.name
      r.1.trace = io.trace ++ stopped.flatMap (·.killEffects) ∧ r.1.token = io.token ∧
        r.2 = { run with
          services := kept ++ rest.filter fun t => !stopNames.contains t.name
          outcomes := run.outcomes ++ stopped.map fun t => t.job.entry .cancelled }
  | [], kept, io, run, hservices => by
    refine ⟨by simp [reconcileFrom], rfl, ?_⟩
    cases run
    simp_all [reconcileFrom]
  | service :: rest, kept, io, run, hservices => by
    simp only [reconcileFrom]
    by_cases hstop : stopNames.contains service.name = true
    · obtain ⟨htrace, htoken, htask⟩ := shutdownTask_eq env io service
      simp only [if_pos hstop]
      rcases hr : shutdownTask env io service with ⟨io₁, removed, killed⟩
      simp only [hr] at htrace htoken htask
      subst htask
      obtain ⟨htrace', htoken', hrun'⟩ := reconcileFrom_eq env stopNames rest kept io₁
        (({ run with services := kept ++ rest }).pushOutcome service.position service.name
          service.groupOccurrence .cancelled) rfl
      refine ⟨?_, htoken'.trans htoken, ?_⟩
      · refine htrace'.trans ?_
        simp only [htrace, List.filter_cons, hstop, if_true, List.flatMap_cons, List.append_assoc]
      · refine hrun'.trans ?_
        simp only [Run.pushOutcome, List.filter_cons, hstop, if_true, Bool.not_true,
          Bool.false_eq_true, if_false, List.map_cons, List.append_assoc, List.singleton_append]
        rfl
    · simp only [if_neg hstop]
      obtain ⟨htrace', htoken', hrun'⟩ := reconcileFrom_eq env stopNames rest (kept ++ [service])
        io run (by simp [hservices])
      refine ⟨?_, htoken', ?_⟩
      · simp only [htrace', List.filter_cons, if_neg hstop]
      · have hkeep : stopNames.contains service.name = false := by simpa using hstop
        rw [hrun']
        simp only [List.filter_cons, hkeep, Bool.not_false, if_true, Bool.false_eq_true, if_false,
          List.append_assoc, List.singleton_append]

/-- The background services that an operation stops. -/
def Op.stopped (run : Run) : Op → List ActiveTask
  | .reconcile stopNames => run.services.filter fun t => stopNames.contains t.name
  | .advance _ | .append _ => []

/-- A session stands at a view with `P`, and with what `advance` promises about how it stands. -/
def Session.Holds (failFast : Bool) (P : View → Prop) (s : Session W) : Prop :=
  match s.progress with
  | some (.returned .finished) =>
    P (view s.io s.run) ∧ s.run.Drained ∧ s.run.stages = [] ∧ s.run.pendingRecoveries = [] ∧
      (failFast = false → s.run.services = [])
  | some .waiting => ∃ v, P v ∧ v.trace = s.io.trace
  | some .spinning => False
  | _ =>
    P (view s.io s.run) ∧ (view s.io s.run).Ready ∧ s.run.Settled failFast ∧
      (s.io.token = true ∨ (s.run.Drained → s.run.pendingRecoveries = []))

theorem Session.holds_of_open {failFast : Bool} {P : View → Prop} {s : Session W}
    (hopen : s.open = true) :
    s.Holds failFast P ↔ P (view s.io s.run) ∧ (view s.io s.run).Ready ∧ s.run.Settled failFast ∧
      (s.io.token = true ∨ (s.run.Drained → s.run.pendingRecoveries = [])) := by
  obtain ⟨io, run, _ | (_ | _) | _ | _⟩ := s <;> simp_all [Session.open, Session.Holds]

theorem Session.Holds.imp {failFast : Bool} {P Q : View → Prop} {s : Session W}
    (h : s.Holds failFast P) (himp : ∀ v, P v → Q v) : s.Holds failFast Q := by
  obtain ⟨io, run, _ | (_ | _) | _ | _⟩ := s
  · exact ⟨himp _ h.1, h.2⟩
  · exact ⟨himp _ h.1, h.2⟩
  · exact ⟨himp _ h.1, h.2⟩
  · obtain ⟨v, hv, htrace⟩ := h
    exact ⟨v, himp v hv, htrace⟩
  · exact h

/-- Wherever a session stands, its trace is the trace of a view with the property. -/
theorem Session.Holds.exists_view {failFast : Bool} {P : View → Prop} {s : Session W}
    (h : s.Holds failFast P) : ∃ v, P v ∧ v.trace = s.io.trace := by
  unfold Session.Holds at h
  split at h
  · exact ⟨_, h.1, rfl⟩
  · exact h
  · exact h.elim
  · exact ⟨_, h.1, rfl⟩

/-- What the moves preserve, a call of `advance` preserves. -/
theorem Session.advance_holds (ex : LawfulExecutor) (env : Env W) (polls : Nat) {P : View → Prop}
    (hmove : ∀ v v', Move ex.failFast v v' → P v → P v') {s : Session W} (hopen : s.open = true)
    (hs : s.Holds ex.failFast P) : (s.apply ex env (.advance polls)).Holds ex.failFast P := by
  obtain ⟨hP, hready, hsettled, hpending⟩ := (Session.holds_of_open hopen).mp hs
  have hadv := advance_advanced ex env polls s.io s.run hready hsettled hpending
  simp only [Session.apply]
  rcases hr : Funzzy.advance ex env polls s.io s.run with ⟨io, run, (_ | _) | _ | _⟩ <;>
    rw [hr] at hadv <;> simp only [Session.Holds]
  · exact ⟨hadv.1.invariant hmove hP, Moves.ready hadv.1 hready, hadv.2⟩
  · exact ⟨hadv.1.invariant hmove hP, hadv.2⟩
  · obtain ⟨v, hv, htrace⟩ := hadv
    exact ⟨v, hv.invariant hmove hP, htrace⟩
  · exact hadv.elim

/-- The view after the owner appended stages. -/
def View.appended (v : View) (stages : List Stage) : View :=
  { v with run := { v.run with stages := v.run.stages ++ stages } }

/-- The view after the owner stopped some background services. -/
def View.reconciled (v : View) (stopNames : List String) : View :=
  let stopped := v.run.services.filter fun t => stopNames.contains t.name
  { v with
    run := { v.run with
      services := v.run.services.filter fun t => !stopNames.contains t.name
      outcomes := v.run.outcomes ++ stopped.map fun t => t.job.entry .cancelled }
    trace := v.trace ++ stopped.flatMap (·.killEffects) }

theorem Session.reconcile_view (ex : LawfulExecutor) (env : Env W) (s : Session W)
    (stopNames : List String) :
    let s' := s.apply ex env (.reconcile stopNames)
    view s'.io s'.run = (view s.io s.run).reconciled stopNames ∧ s'.progress = s.progress := by
  obtain ⟨htrace, htoken, hrun⟩ := reconcileFrom_eq env stopNames s.run.services [] s.io s.run rfl
  refine ⟨?_, rfl⟩
  simp only [Session.apply, reconcileServices, view, View.reconciled]
  rw [hrun, htrace, htoken, List.nil_append]

/-- A reload operation keeps what a session stands on. -/
theorem Session.holds_of_view {failFast : Bool} {P Q : View → Prop} {s s' : Session W}
    (hopen : s.open = true) (hprogress : s'.progress = s.progress) (hs : s.Holds failFast P)
    (hQ : P (view s.io s.run) → Q (view s'.io s'.run)) (hactive : s'.run.active = s.run.active)
    (hqueued : s'.run.queued = s.run.queued)
    (hpending : s'.run.pendingRecoveries = s.run.pendingRecoveries)
    (htoken : s'.io.token = s.io.token) : s'.Holds failFast Q := by
  have hopen' : s'.open = true := by simpa [Session.open, hprogress] using hopen
  obtain ⟨hP, hready, hsettled, hidle⟩ := (Session.holds_of_open hopen).mp hs
  refine (Session.holds_of_open hopen').mpr ⟨hQ hP, ⟨?_, ?_⟩, ?_, ?_⟩
  · simpa [view, hactive] using hready.fresh
  · simpa [view, hpending, htoken] using hready.deferred
  · simpa [Run.Settled, hactive] using hsettled
  · simpa [Run.Drained, hactive, hqueued, hpending, htoken] using hidle

theorem Session.append_holds (ex : LawfulExecutor) (env : Env W) (plan : RunPlan) {P Q : View → Prop}
    {s : Session W} (hopen : s.open = true) (hs : s.Holds ex.failFast P)
    (hQ : ∀ v, v.recovering = none → P v → Q (v.appended plan.stages)) :
    (s.apply ex env (.append plan)).Holds ex.failFast Q :=
  Session.holds_of_view hopen rfl hs (hQ _ rfl) rfl rfl rfl rfl

theorem Session.reconcile_holds (ex : LawfulExecutor) (env : Env W) (stopNames : List String)
    {P Q : View → Prop} {s : Session W} (hopen : s.open = true) (hs : s.Holds ex.failFast P)
    (hQ : P (view s.io s.run) → Q ((view s.io s.run).reconciled stopNames)) :
    (s.apply ex env (.reconcile stopNames)).Holds ex.failFast Q := by
  obtain ⟨hview, hprogress⟩ := Session.reconcile_view ex env s stopNames
  have hactive := congrArg (fun v : View => v.run.active) hview
  have hqueued := congrArg (fun v : View => v.run.queued) hview
  have hpending := congrArg (fun v : View => v.run.pendingRecoveries) hview
  have htoken := congrArg View.token hview
  refine Session.holds_of_view hopen hprogress hs ?_ hactive hqueued hpending htoken
  rw [hview]
  exact hQ

/-- The stages that an operation appends. -/
def Op.stages : Op → List Stage
  | .append plan => plan.stages
  | .advance _ | .reconcile _ => []

/-- The stages that the calls of a session append. -/
def Session.appendedStages (ex : Executor) (env : Env W) : Session W → List Op → List Stage
  | _, [] => []
  | s, op :: ops =>
    if s.open then op.stages ++ Session.appendedStages ex env (s.apply ex env op) ops
    else Session.appendedStages ex env s ops

/-- Invariant rule for sessions, for properties that speak about all stages given to the run: what
    the moves and the reload operations preserve holds wherever a session stands. -/
theorem Session.after_holds_of (ex : LawfulExecutor) (env : Env W) {P : List Stage → View → Prop}
    (hmove : ∀ all v v', Move ex.failFast v v' → P all v → P all v')
    (happend : ∀ all v stages, v.recovering = none → P all v → P (all ++ stages) (v.appended stages))
    (hreconcile : ∀ all v stopNames, v.recovering = none → P all v → P all (v.reconciled stopNames)) :
    ∀ (ops : List Op) (s : Session W) (all : List Stage), s.Holds ex.failFast (P all) →
      (s.after ex env ops).Holds ex.failFast (P (all ++ s.appendedStages ex env ops))
  | [], s, all, hs => by simpa [Session.after, Session.appendedStages] using hs
  | op :: ops, s, all, hs => by
    rw [Session.after, Session.appendedStages]
    by_cases hopen : s.open = true
    · rw [if_pos hopen, if_pos hopen, ← List.append_assoc]
      refine Session.after_holds_of ex env hmove happend hreconcile ops _ _ ?_
      cases op with
      | advance polls =>
        rw [Op.stages, List.append_nil]
        exact Session.advance_holds ex env polls (hmove all) hopen hs
      | append plan => exact Session.append_holds ex env plan hopen hs fun v => happend all v _
      | reconcile stopNames =>
        rw [Op.stages, List.append_nil]
        exact Session.reconcile_holds ex env stopNames hopen hs (hreconcile all _ _ rfl)
    · rw [if_neg hopen, if_neg hopen]
      exact Session.after_holds_of ex env hmove happend hreconcile ops s all hs

/-- Invariant rule for sessions: what the moves and the reload operations preserve holds wherever
    a session stands. -/
theorem Session.after_holds (ex : LawfulExecutor) (env : Env W) {P : View → Prop}
    (hmove : ∀ v v', Move ex.failFast v v' → P v → P v')
    (happend : ∀ v stages, v.recovering = none → P v → P (v.appended stages))
    (hreconcile : ∀ v stopNames, v.recovering = none → P v → P (v.reconciled stopNames))
    (ops : List Op) (s : Session W) (hs : s.Holds ex.failFast P) :
    (s.after ex env ops).Holds ex.failFast P :=
  Session.after_holds_of ex env (P := fun _ => P) (fun _ => hmove) (fun _ => happend)
    (fun _ => hreconcile) ops s [] hs

/-- The background services that the calls of a session stop. -/
def Session.stopped (ex : Executor) (env : Env W) : Session W → List Op → List ActiveTask
  | _, [] => []
  | s, op :: ops =>
    if s.open then op.stopped s.run ++ Session.stopped ex env (s.apply ex env op) ops
    else Session.stopped ex env s ops

/-- Reconciling a run none of whose services is named changes nothing. -/
theorem View.reconciled_eq_self {v : View} {stopNames : List String}
    (h : (Op.reconcile stopNames).stopped v.run = []) : v.reconciled stopNames = v := by
  have hkeep : (v.run.services.filter fun t => !stopNames.contains t.name) = v.run.services := by
    refine List.filter_eq_self.mpr fun t ht => ?_
    have hno := List.filter_eq_nil_iff.mp h t ht
    simpa using hno
  simp only [Op.stopped] at h
  simp only [View.reconciled, h, hkeep]
  simp

/-- Invariant rule for sessions that stop no service: the moves and appending are enough. -/
theorem Session.after_holds_spared (ex : LawfulExecutor) (env : Env W) {P : View → Prop}
    (hmove : ∀ v v', Move ex.failFast v v' → P v → P v')
    (happend : ∀ v stages, v.recovering = none → P v → P (v.appended stages)) :
    ∀ (ops : List Op) (s : Session W), s.stopped ex env ops = [] → s.Holds ex.failFast P →
      (s.after ex env ops).Holds ex.failFast P
  | [], _, _, hs => hs
  | op :: ops, s, hstopped, hs => by
    rw [Session.after]
    rw [Session.stopped] at hstopped
    by_cases hopen : s.open = true
    · rw [if_pos hopen] at hstopped ⊢
      obtain ⟨hop, hrest⟩ := List.append_eq_nil_iff.mp hstopped
      refine Session.after_holds_spared ex env hmove happend ops _ hrest ?_
      cases op with
      | advance polls => exact Session.advance_holds ex env polls hmove hopen hs
      | append plan => exact Session.append_holds ex env plan hopen hs fun v => happend v _
      | reconcile stopNames =>
        refine Session.reconcile_holds ex env stopNames hopen hs ?_
        rw [View.reconciled_eq_self hop]
        exact id
    · rw [if_neg hopen] at hstopped ⊢
      exact Session.after_holds_spared ex env hmove happend ops s hstopped hs

/-- The view in which a session starts. -/
def startView (env : Env W) (world : W) (metadata : RunMetadata) (plan : RunPlan) : View :=
  { run := { stages := plan.stages, metadata, started := env.now world }
    token := false
    trace := [.event (.started metadata (plan.commands.map (·.display)))] }

theorem Session.start_holds (failFast : Bool) (env : Env W) (world : W) (metadata : RunMetadata)
    (plan : RunPlan) {P : View → Prop} (hP : P (startView env world metadata plan)) :
    (Session.start env world metadata plan).Holds failFast P := by
  refine ⟨hP, ⟨?_, ?_⟩, ?_, .inr fun _ => rfl⟩
  · intro t ht; cases ht
  · intro _ t ht; cases ht
  · intro t ht; cases ht

/-- An environment in which every directory exists, every command starts, nothing sets the token,
    and a polled child answers `exit task`. -/
def steadyEnv (exit : ActiveTask → Option ExitStatus) : Env Unit where
  isDir _ _ _ := true
  spawn _ _ _ := (.ok (), ())
  tryWait _ task := (.ok (exit task), ())
  shutdown _ _ := (false, ())
  signal _ := (false, ())
  approval _ _ := (.answered (.line "y"), ())
  concurrencyLimit _ := 2
  concurrencyLimit_pos _ := by decide
  now _ := 0
  hook _ _ := (.ok ⟨some 0, "exit status: 0"⟩, ())

/-- No call of `advance` runs its loop forever. -/
theorem Session.not_spinning (ex : LawfulExecutor) (env : Env W) (world : W) (metadata : RunMetadata)
    (plan : RunPlan) (ops : List Op) :
    ((Session.start env world metadata plan).after ex env ops).progress ≠ some .spinning := by
  have h := Session.after_holds ex env (fun _ _ _ _ => trivial) (fun _ _ _ _ => trivial)
    (fun _ _ _ _ => trivial) ops _
    (Session.start_holds ex.failFast env world metadata plan trivial)
  intro hspin
  rw [Session.Holds, hspin] at h
  exact h

end Funzzy
