import Funzzy.Executor.Simulation.Services

/-! The recovery pass is a sequence of moves.

    A job is taken out of the pending recoveries while it is driven, so the views of this module may
    have a job in `recovering`. `Resolved` says how the pass ends: with nothing pending, interrupted
    by the token, or still waiting for the outside world. -/

namespace Funzzy

variable {W : Type}

/-- Nothing but the pending recoveries, the results and the reports of a run has changed. -/
structure Run.SameQueue (run run' : Run) : Prop where
  active : run'.active = run.active
  queued : run'.queued = run.queued
  stages : run'.stages = run.stages
  services : run'.services = run.services
  metadata : run'.metadata = run.metadata

theorem Run.SameQueue.refl (run : Run) : run.SameQueue run := ⟨rfl, rfl, rfl, rfl, rfl⟩

theorem Run.SameQueue.trans {a b c : Run} (h : a.SameQueue b) (h' : b.SameQueue c) :
    a.SameQueue c :=
  ⟨h'.active.trans h.active, h'.queued.trans h.queued, h'.stages.trans h.stages,
    h'.services.trans h.services, h'.metadata.trans h.metadata⟩

theorem Run.SameQueue.drained {a b : Run} (h : a.SameQueue b) (ha : a.Drained) : b.Drained :=
  ⟨h.active.trans ha.1, h.queued.trans ha.2⟩

theorem cancellationRequested_eq (env : Env W) (io : Io W) :
    (io.cancellationRequested env).2.trace = io.trace ∧
      (io.cancellationRequested env).2.token = (io.cancellationRequested env).1 ∧
      (io.token = true → (io.cancellationRequested env).1 = true) := by
  refine ⟨rfl, rfl, fun h => ?_⟩
  simp [Io.cancellationRequested, h]

/-- Two views that differ in the token only, and not from set to unset. -/
theorem token_moves {failFast : Bool} {v v' : View} (hrun : v'.run = v.run)
    (hrec : v'.recovering = v.recovering) (htrace : v'.trace = v.trace)
    (hmono : v.token = true → v'.token = true) : Moves failFast v v' := by
  obtain ⟨run, recovering, token, trace⟩ := v
  obtain ⟨run', recovering', token', trace'⟩ := v'
  simp only at hrun hrec htrace hmono
  subst hrun hrec htrace
  cases token' with
  | true => exact .single (.signal _)
  | false =>
    cases token with
    | true => exact absurd (hmono rfl) (by decide)
    | false => exact .refl

/-- The view while a job taken from the pending recoveries is being driven. -/
def recoveringView (io : Io W) (run : Run) (phase : Phase) (task : ActiveTask)
    (original : List String) : View :=
  { run, recovering := some ⟨phase, task, original⟩, token := io.token, trace := io.trace }

theorem recovering_moves {failFast : Bool} {v : View} {r : Recovering} (hr : v.recovering = some r)
    {w w' : Work} (hw : w.task = r.task) (htrace : w.trace = v.trace) (h : TaskMoves r.phase true w w') :
    Moves failFast v { v with recovering := some { r with task := w'.task }, trace := w'.trace } := by
  induction h with
  | refl =>
    have hsame : { v with recovering := some { r with task := w.task }, trace := w.trace } = v := by
      cases v; simp_all
    rw [hsame]
  | @tail b c _ hmove ih =>
    exact ih.tail (.recovering _ { r with task := b.task } c.task b.results c.results c.trace rfl
      hmove.2 hmove.1)

/-- How `awaitTask` ends, seen from the run that owns the task. -/
def AwaitedTask (failFast : Bool) (v : View) (run : Run) (phase : Phase) (original : List String) :
    Io W × ActiveTask × Awaited → Prop
  | (io, task, .done) =>
    Moves failFast v (recoveringView io run phase task original) ∧ io.token = false ∧
      task.child = false ∧ lastDecision io.trace = lastDecision v.trace ∧
      (task.failures = [] → task.commands = [] ∨ task.service = true)
  | (io, task, .interrupted) =>
    Moves failFast v (view io (interruptRecovery run task run.pendingRecoveries)) ∧ io.token = true
  | (io, _, .waiting) => ∃ v', Moves failFast v v' ∧ v'.trace = io.trace

theorem awaitTask_moves (failFast : Bool) (env : Env W) (phase : Phase)
    (hphase : phase ≠ .original) (run : Run) (original : List String) :
    ∀ (polls : Nat) (io : Io W) (task : ActiveTask) (results : Results),
      task.Fresh → task.failures = [] → io.token = false →
      AwaitedTask failFast (recoveringView io run phase task original) run phase original
        (awaitTask env phase polls io task results)
  | 0, io, task, results, _, _, _ => ⟨_, .refl, rfl⟩
  | polls + 1, io, task, results, hfresh, hunfailed, htoken => by
    have hmoved := advanceTask_moved env phase true io task results hfresh
      ⟨fun _ => hunfailed, fun h => absurd h hphase⟩
    rw [awaitTask]
    rcases hr : advanceTask env phase true io task results with ⟨io₁, task₁, results₁, step⟩
    rw [hr] at hmoved
    have htoken₁ : io₁.token = false := hmoved.token_eq.trans htoken
    have hmoves : Moves failFast (recoveringView io run phase task original)
        (recoveringView io₁ run phase task₁ original) := by
      have h : Moves failFast (recoveringView io run phase task original) _ :=
        recovering_moves rfl rfl rfl hmoved.moves
      simpa [recoveringView, htoken, htoken₁] using h
    have hdecision : lastDecision io₁.trace = lastDecision io.trace := hmoved.moves.lastDecision_eq
    cases step with
    | finished =>
      exact ⟨hmoves, htoken₁, hmoved.describes.1, hdecision, fun _ => hmoved.describes.2⟩
    | failedFast =>
      exact ⟨hmoves, htoken₁, hmoved.describes.1, hdecision,
        fun hnone => absurd hnone hmoved.describes.2.1⟩
    | running =>
      obtain ⟨htr, htok, -⟩ := cancellationRequested_eq env io₁
      dsimp only
      rcases hc : io₁.cancellationRequested env with ⟨set, io₂⟩
      simp only [hc] at htr htok
      have hread : Moves failFast (recoveringView io run phase task original)
          (recoveringView io₂ run phase task₁ original) :=
        hmoves.trans (token_moves rfl rfl htr (by simp [recoveringView, htoken₁]))
      cases set with
      | true =>
        obtain ⟨hstrace, hstoken, hstask⟩ := shutdownTask_eq env io₂ task₁
        refine ⟨hread.tail ?_, hstoken.trans htok⟩
        have hint : Move failFast (recoveringView io₂ run phase task₁ original) _ :=
          .interrupt _ _ rfl htok
        simpa [view, recoveringView, interruptRecovery, hstrace, hstoken, hstask] using hint
      | false =>
        have hfresh₁ : task₁.Fresh := hmoved.moves.fresh hfresh
        have hrec := awaitTask_moves failFast env phase hphase run original polls io₂ task₁ results₁
          hfresh₁ (hmoved.describes.2.2 rfl) htok
        dsimp only
        rcases hr' : awaitTask env phase polls io₂ task₁ results₁ with ⟨io₃, task₃, _ | _ | _⟩ <;>
          rw [hr'] at hrec
        · obtain ⟨hmoves', htok', hchild', hdecision', hleft'⟩ := hrec
          refine ⟨hread.trans hmoves', htok', hchild', hdecision'.trans ?_, hleft'⟩
          exact (congrArg lastDecision htr).trans hdecision
        · exact ⟨hread.trans hrec.1, hrec.2⟩
        · obtain ⟨v', hv', htr'⟩ := hrec
          exact ⟨v', hread.trans hv', htr'⟩

/-- How a pass over the pending recoveries of `run` ends. -/
def Resolved (failFast : Bool) (v : View) (run : Run) : Io W × Run × Awaited → Prop
  | (io, run', .done) =>
    Moves failFast v (view io run') ∧ io.token = false ∧ run.SameQueue run' ∧
      run'.pendingRecoveries = []
  | (io, run', .interrupted) =>
    Moves failFast v (view io run') ∧ io.token = true ∧ run.SameQueue run'
  | (io, _, .waiting) => ∃ v', Moves failFast v v' ∧ v'.trace = io.trace

theorem Resolved.head {failFast : Bool} {v v' : View} {run run' : Run}
    {r : Io W × Run × Awaited} (hr : Resolved failFast v' run' r) (h : Moves failFast v v')
    (hrun : run.SameQueue run') : Resolved failFast v run r := by
  rcases r with ⟨io, run'', _ | _ | _⟩
  · exact ⟨h.trans hr.1, hr.2.1, hrun.trans hr.2.2.1, hr.2.2.2⟩
  · exact ⟨h.trans hr.1, hr.2.1, hrun.trans hr.2.2⟩
  · obtain ⟨v'', hv, htrace⟩ := hr
    exact ⟨v'', h.trans hv, htrace⟩

theorem keepFailures_resolved (failFast : Bool) (env : Env W)
    (announce : Io W → Run → ActiveTask → Io W)
    (hannounce : ∀ io run task,
      Moves failFast (view io run) (view (announce io run task) run) ∧
        (announce io run task).token = io.token) :
    ∀ (pending : List ActiveTask) (io : Io W) (run : Run), run.Drained → io.token = false →
      run.pendingRecoveries = pending → (∀ t ∈ pending, t.failures ≠ []) →
      Resolved failFast (view io run) run ((keepFailures env announce pending io run).1,
        (keepFailures env announce pending io run).2, .done)
  | [], io, run, _, htoken, hpending, _ => by
    have hsame : { run with pendingRecoveries := [] } = run := by cases run; simp_all
    simp only [keepFailures, hsame]
    exact ⟨.refl, htoken, .refl run, hpending⟩
  | task :: rest, io, run, hdrained, htoken, hpending, hfailed => by
    obtain ⟨hann, htok⟩ := hannounce io run task
    simp only [keepFailures]
    set io₁ := announce io run task
    have hmove : Move failFast (view io₁ run) _ := .keep (view io₁ run) task rest
      (elapsedMs env io₁ task.started) hdrained rfl (htok.trans htoken) hpending
      (hfailed task List.mem_cons_self)
    have hrest := keepFailures_resolved failFast env announce hannounce rest
      (recordTaskOutcome env io₁ { run with
        pendingRecoveries := rest, results := run.results ++ [.error task.firstFailure] } task).1
      (recordTaskOutcome env io₁ { run with
        pendingRecoveries := rest, results := run.results ++ [.error task.firstFailure] } task).2
      hdrained (htok.trans htoken) rfl fun t ht => hfailed t (List.mem_cons_of_mem _ ht)
    exact hrest.head (hann.tail hmove) ⟨rfl, rfl, rfl, rfl, rfl⟩

theorem note_moves {failFast : Bool} (io : Io W) (run : Run) (job phase : String)
    (outcome : Option String) :
    Moves failFast (view io run) (view (emitRecoveryPhase io run job phase outcome) run) :=
  .single (.note (view io run) job phase outcome)

theorem recoveringNote_moves {failFast : Bool} (io : Io W) (run : Run) (phase : Phase)
    (task : ActiveTask) (original : List String) (job label : String) (outcome : Option String) :
    Moves failFast (recoveringView io run phase task original)
      (recoveringView (emitRecoveryPhase io run job label outcome) run phase task original) :=
  .single (.note (recoveringView io run phase task original) job label outcome)

theorem emitRecoveryPhase_lastDecision (io : Io W) (run : Run) (job phase : String)
    (outcome : Option String) :
    lastDecision (emitRecoveryPhase io run job phase outcome).trace = lastDecision io.trace := by
  simp [emitRecoveryPhase, Io.emit, Io.record]

theorem ActiveTask.restart_fresh (task : ActiveTask) (commands : List CommandLine) :
    (task.restart commands).Fresh := fun _ => rfl

/-- A passed recovery is verified: seen from the view in which its job is still being driven. -/
theorem verifyRecovery_resolved (failFast : Bool) (env : Env W) (polls : Nat) (io : Io W)
    (run : Run) (task : ActiveTask) (original : List String) (htoken : io.token = false)
    (hchild : task.child = false) (hpassed : task.failures = []) :
    match verifyRecovery env polls io run task run.pendingRecoveries with
    | (io', run', .done) =>
      Moves failFast (recoveringView io run .recovery task original) (view io' run') ∧
        io'.token = false ∧ run.SameQueue run' ∧
        run'.pendingRecoveries = run.pendingRecoveries ∧
        lastDecision io'.trace = lastDecision io.trace
    | r => Resolved failFast (recoveringView io run .recovery task original) run r := by
  unfold verifyRecovery
  set io₁ := emitRecoveryPhase io run task.name "verification_started" none with hio₁
  have hstart : Moves failFast (recoveringView io run .recovery task original)
      (recoveringView io₁ run .verification (task.restart task.originalCommands) original) :=
    (recoveringNote_moves io run .recovery task original _ _ _).tail
      (.verify _ task original rfl hchild hpassed)
  have hawait := awaitTask_moves failFast env .verification (by decide) run original polls io₁
    (task.restart task.originalCommands) [] (task.restart_fresh _) rfl htoken
  dsimp only
  rcases hr : awaitTask env .verification polls io₁ (task.restart task.originalCommands) [] with
    ⟨io₂, task₂, _ | _ | _⟩ <;> rw [hr] at hawait
  · obtain ⟨hmoves, htoken₂, hchild₂, hdecision, hleft⟩ := hawait
    set io₃ := emitRecoveryPhase io₂ run task₂.name "verification_finished"
      (some (if task₂.failures = [] then "passed" else "failed")) with hio₃
    have hmove : Move failFast (recoveringView io₂ run .verification task₂ original) _ :=
      .verified _ task₂ original ("Verification failed for job '" ++ task₂.name ++ "'")
        (elapsedMs env io₃ task₂.started) rfl hchild₂ hleft
    refine ⟨(hstart.trans hmoves).tail ?_, htoken₂, ⟨rfl, rfl, rfl, rfl, rfl⟩, rfl, ?_⟩
    · simpa [view, recoveringView, hio₃, emitRecoveryPhase, Io.emit, Io.record, recordTaskOutcome,
        recordTaskSnapshot, Run.verificationFinished, Run.reported, Run.snapshotted, Run.terminal,
        Run.pushOutcome, JobId.snapshot, JobId.entry, ActiveTask.job, ActiveTask.result] using hmove
    have hend : lastDecision io₃.trace = lastDecision io.trace := by
      rw [hio₃, emitRecoveryPhase_lastDecision, hdecision]
      exact emitRecoveryPhase_lastDecision io run _ _ _
    rw [← hend]
    exact lastDecision_event io₃.trace _
  · exact ⟨hstart.trans hawait.1, hawait.2, ⟨rfl, rfl, rfl, rfl, rfl⟩⟩
  · obtain ⟨v', hv', htrace⟩ := hawait
    exact ⟨v', hstart.trans hv', htrace⟩

theorem runRecoveries_resolved (failFast : Bool) (env : Env W) (polls : Nat) :
    ∀ (pending : List ActiveTask) (io : Io W) (run : Run), run.Drained → io.token = false →
      run.metadata.recoveryPolicy = .prompt → lastDecision io.trace = some .approved →
      run.pendingRecoveries = pending → (∀ t ∈ pending, t.recoveryCommands.isSome = true ∧ t.failures ≠ []) →
      Resolved failFast (view io run) run (runRecoveries env polls pending io run)
  | [], io, run, _, htoken, _, _, hpending, _ => by
    have hsame : { run with pendingRecoveries := [] } = run := by cases run; simp_all
    simp only [runRecoveries, hsame]
    exact ⟨.refl, htoken, .refl run, hpending⟩
  | task :: rest, io, run, hdrained, htoken, hpolicy, happroved, hpending, hsome => by
    obtain ⟨commands, hcommands⟩ := Option.isSome_iff_exists.mp (hsome task List.mem_cons_self).1
    simp only [runRecoveries, hcommands]
    set io₁ := emitRecoveryPhase io run task.name "approval_decided" (some "approved") with hio₁
    set io₂ := emitRecoveryPhase io₁ run task.name "recovery_started" none with hio₂
    set run₁ : Run := { run with pendingRecoveries := rest } with hrun₁
    set fresh := ({ task with recoveryCommands := none } : ActiveTask).restart commands with hfresh
    have hdecision₁ : lastDecision io₁.trace = some .approved := by
      rw [hio₁, emitRecoveryPhase_lastDecision, happroved]
    have hdecision : lastDecision io₂.trace = some .approved := by
      rw [hio₂, emitRecoveryPhase_lastDecision, hdecision₁]
    have hstart : Moves failFast (view io run)
        (recoveringView io₂ run₁ .recovery fresh task.failures) :=
      (note_moves io run _ _ _).tail
        (.recover (view io₁ run) task rest commands hdrained rfl htoken hpolicy hdecision₁ hpending
          hcommands)
    have hawait := awaitTask_moves failFast env .recovery (by decide) run₁ task.failures polls io₂
      fresh [] (ActiveTask.restart_fresh _ _) rfl htoken
    rcases hr : awaitTask env .recovery polls io₂ fresh [] with ⟨io₃, task₃, _ | _ | _⟩ <;>
      rw [hr] at hawait
    · obtain ⟨hmoves, htoken₃, hchild₃, hdecision₃, -⟩ := hawait
      dsimp only
      set io₄ := emitRecoveryPhase io₃ run task₃.name "recovery_finished"
        (some (if task₃.failures = [] then "passed" else "failed")) with hio₄
      have hnoted : Moves failFast (view io run)
          (recoveringView io₄ run₁ .recovery task₃ task.failures) :=
        (hstart.trans hmoves).trans (recoveringNote_moves io₃ run₁ .recovery task₃ _ _ _ _)
      have hdecision₄ : lastDecision io₄.trace = some .approved := by
        rw [hio₄, emitRecoveryPhase_lastDecision, hdecision₃]; exact hdecision
      by_cases hpassed : task₃.failures = []
      · rw [if_pos hpassed]
        have hverify := verifyRecovery_resolved failFast env polls io₄ run₁ task₃ task.failures
          htoken₃ hchild₃ hpassed
        have hcall : verifyRecovery env polls io₄ run₁ task₃ run₁.pendingRecoveries
            = verifyRecovery env polls io₄ run task₃ rest := rfl
        rw [hcall] at hverify
        rcases hv : verifyRecovery env polls io₄ run task₃ rest with ⟨io₅, run₅, _ | _ | _⟩ <;>
          rw [hv] at hverify
        · obtain ⟨hmoves₅, htoken₅, hqueue₅, hpending₅, hdecision₅⟩ := hverify
          have hqueue : run.SameQueue run₅ :=
            ⟨hqueue₅.active, hqueue₅.queued, hqueue₅.stages, hqueue₅.services, hqueue₅.metadata⟩
          have hrest := runRecoveries_resolved failFast env polls rest io₅ run₅
            (hqueue.drained hdrained) htoken₅ (hqueue.metadata ▸ hpolicy)
            (hdecision₅.trans hdecision₄) hpending₅
            fun t ht => hsome t (List.mem_cons_of_mem _ ht)
          exact hrest.head (hnoted.trans hmoves₅) hqueue
        · exact hverify.head hnoted ⟨rfl, rfl, rfl, rfl, rfl⟩
        · exact hverify.head hnoted ⟨rfl, rfl, rfl, rfl, rfl⟩
      · rw [if_neg hpassed]
        have hverdict : ({ task₃ with failures := task.failures ++ task₃.failures } :
            ActiveTask).verdict = (.failed, .failed (task.failures ++ task₃.failures)) := by
          simp [ActiveTask.verdict, hpassed]
        have hmove : Move failFast (recoveringView io₄ run₁ .recovery task₃ task.failures) _ :=
          .recoveryFailed _ task₃ task.failures
            ((task.failures ++ task₃.failures).getLast?.getD
              ("Recovery failed for job '" ++ task₃.name ++ "'"))
            (elapsedMs env io₄ task₃.started) rfl hchild₃ hpassed
        simp only [recordTaskOutcome, hverdict]
        have hrest := keepFailures_resolved failFast env (fun io _ _ => io)
          (fun _ _ _ => ⟨.refl, rfl⟩) rest
          (io₄.emit (.taskTerminal run.metadata.runId
            (task₃.job.snapshot .failed (elapsedMs env io₄ task₃.started))))
          (({ run₁ with results := run.results ++ [Except.error ((task.failures ++
            task₃.failures).getLast?.getD ("Recovery failed for job '" ++ task₃.name ++ "'"))] }
            ).reported task₃.job .failed (elapsedMs env io₄ task₃.started)
              (.failed (task.failures ++ task₃.failures)))
          hdrained htoken₃ rfl fun t ht => (hsome t (List.mem_cons_of_mem _ ht)).2
        exact hrest.head (hnoted.tail hmove) ⟨rfl, rfl, rfl, rfl, rfl⟩
    · exact ⟨hstart.trans hawait.1, hawait.2, ⟨rfl, rfl, rfl, rfl, rfl⟩⟩
    · obtain ⟨v', hv', htrace⟩ := hawait
      exact ⟨v', hstart.trans hv', htrace⟩

theorem announceRequests_moves (failFast : Bool) (run : Run) :
    ∀ (requests : List RecoveryRequest) (io : Io W),
      Moves failFast (view io run) (view (announceRequests run requests io) run) ∧
        (announceRequests run requests io).token = io.token
  | [], io => ⟨.refl, rfl⟩
  | request :: rest, io => by
    obtain ⟨hrest, htoken⟩ := announceRequests_moves failFast run rest
      (emitRecoveryPhase io run request.job "approval_requested" none)
    exact ⟨(note_moves io run _ _ _).trans hrest, htoken⟩

/-- Waiting for an answer only reads the token; an answer `cancelled` means that it was set. -/
theorem awaitApproval_eq (ex : LawfulExecutor) (env : Env W) (requests : List RecoveryRequest) :
    ∀ (polls : Nat) (io : Io W), io.token = false →
      let r := awaitApproval ex env requests polls io
      r.1.trace = io.trace ∧ (r.2.1 = .interrupted → r.1.token = true) ∧
        (r.2.1 = .done → r.2.2 = .cancelled → r.1.token = true)
  | 0, io, _ => by simp [awaitApproval]
  | polls + 1, io, htoken => by
    obtain ⟨htrace, htok, -⟩ := cancellationRequested_eq env io
    simp only [awaitApproval]
    rcases hc : io.cancellationRequested env with ⟨_ | _, io₁⟩ <;> simp only [hc] at htrace htok ⊢
    · rcases env.approval io₁.world requests with ⟨_ | _ | input, world⟩
      · have hrest := awaitApproval_eq ex env requests polls { io₁ with world } htok
        exact ⟨hrest.1.trans htrace, hrest.2⟩
      · simp [htrace]
      · obtain ⟨htrace₂, htok₂, -⟩ := cancellationRequested_eq env { io₁ with world }
        rcases hc₂ : ({ io₁ with world } : Io W).cancellationRequested env with ⟨set, io₂⟩
        simp only [hc₂] at htrace₂ htok₂ ⊢
        refine ⟨htrace₂.trans htrace, by simp, fun _ hcancelled => ?_⟩
        cases set with
        | true => exact htok₂
        | false => exact absurd hcancelled (ex.lawful requests input)
    · exact ⟨htrace, fun _ => htok, by simp⟩

theorem actOnDecision_resolved (failFast : Bool) (env : Env W) (polls : Nat) (io : Io W)
    (run : Run) (decision : ApprovalDecision) (hdrained : run.Drained)
    (hcancelled : decision = .cancelled → io.token = true)
    (happroved : decision = .approved →
      run.metadata.recoveryPolicy = .prompt ∧ lastDecision io.trace = some .approved)
    (hsome : ∀ t ∈ run.pendingRecoveries, t.recoveryCommands.isSome = true ∧ t.failures ≠ []) :
    Resolved failFast (view io run) run (actOnDecision env polls io run decision) := by
  obtain ⟨htrace, htok, hmono⟩ := cancellationRequested_eq env io
  unfold actOnDecision
  rcases hc : io.cancellationRequested env with ⟨set, io₁⟩
  simp only [hc] at htrace htok hmono ⊢
  have hread : Moves failFast (view io run) (view io₁ run) :=
    token_moves rfl rfl htrace fun h => htok.trans (hmono h)
  by_cases hstop : decision = .cancelled ∨ set = true
  · rw [if_pos hstop]
    refine ⟨hread, ?_, .refl run⟩
    rcases hstop with hstop | rfl
    · exact htok.trans (hmono (hcancelled hstop))
    · exact htok
  · rw [if_neg hstop]
    have htoken₁ : io₁.token = false := by rw [htok]; simpa using fun h => hstop (.inr h)
    by_cases hyes : decision = .approved
    · rw [if_pos hyes]
      obtain ⟨hpolicy, hdecision⟩ := happroved hyes
      exact (runRecoveries_resolved failFast env polls run.pendingRecoveries io₁ run hdrained
        htoken₁ hpolicy (htrace ▸ hdecision) rfl hsome).head hread (.refl run)
    · rw [if_neg hyes]
      exact (keepFailures_resolved failFast env _
        (fun io run task => ⟨note_moves io run _ _ _, rfl⟩) run.pendingRecoveries io₁ run hdrained
        htoken₁ rfl fun t ht => (hsome t ht).2).head hread (.refl run)

theorem resolveRecoveries_resolved (ex : LawfulExecutor) (env : Env W) (polls : Nat) (io : Io W)
    (run : Run) (hdrained : run.Drained) (htoken : io.token = false) (hready : (view io run).Ready) :
    Resolved ex.failFast (view io run) run (resolveRecoveries ex env polls io run) := by
  unfold resolveRecoveries
  set run₁ : Run := { run with pendingRecoveries :=
    run.pendingRecoveries.insertionSort fun a b => a.position ≤ b.position } with hrun₁
  have hperm : run₁.pendingRecoveries.Perm run.pendingRecoveries := List.perm_insertionSort _ _
  have hsort : Moves ex.failFast (view io run) (view io run₁) :=
    .single (.sort (view io run) _ hperm)
  have hqueue : run.SameQueue run₁ := ⟨rfl, rfl, rfl, rfl, rfl⟩
  have hsome : ∀ t ∈ run₁.pendingRecoveries,
      t.recoveryCommands.isSome = true ∧ t.failures ≠ [] :=
    fun t ht => hready.deferred htoken t (hperm.mem_iff.mp ht)
  by_cases hnone : run₁.pendingRecoveries = []
  · rw [if_pos hnone]
    exact ⟨hsort, htoken, hqueue, hnone⟩
  · rw [if_neg hnone]
    obtain ⟨htrace, htok, hmono⟩ := cancellationRequested_eq env io
    rcases hc : io.cancellationRequested env with ⟨set, io₁⟩
    simp only [hc] at htrace htok hmono ⊢
    have hread : Moves ex.failFast (view io run) (view io₁ run₁) :=
      hsort.trans (token_moves rfl rfl htrace fun h => htok.trans (hmono h))
    cases set with
    | true => exact ⟨hread, htok, hqueue⟩
    | false =>
      obtain ⟨hann, htok₂⟩ := announceRequests_moves ex.failFast run₁
        (run₁.pendingRecoveries.map (·.recoveryRequest run₁)) io₁
      dsimp only
      set requests := run₁.pendingRecoveries.map (·.recoveryRequest run₁)
      set io₂ := announceRequests run₁ requests io₁
      cases hpolicy : run₁.metadata.recoveryPolicy with
      | skip =>
        exact (actOnDecision_resolved ex.failFast env polls io₂ run₁ .declined hdrained
          (fun h => by cases h) (fun h => by cases h) hsome).head (hread.trans hann) hqueue
      | prompt =>
        have hask : Moves ex.failFast (view io run) (view (io₂.record (.asked requests)) run₁) :=
          (hread.trans hann).tail
            (.ask (view io₂ run₁) hdrained rfl (htok₂.trans htok) hpolicy hnone)
        obtain ⟨htrace₃, hint, hcanc⟩ := awaitApproval_eq ex env requests polls
          (io₂.record (.asked requests)) (htok₂.trans htok)
        dsimp only
        rcases hr : awaitApproval ex env requests polls (io₂.record (.asked requests)) with
          ⟨io₃, awaited, decision⟩
        simp only [hr] at htrace₃ hint hcanc
        have hwait : Moves ex.failFast (view io run) (view io₃ run₁) :=
          hask.trans (token_moves rfl rfl htrace₃ fun h =>
            absurd ((htok₂.trans htok).symm.trans h) (by decide))
        cases awaited with
        | done =>
          have hdecide : Moves ex.failFast (view io run)
              (view (io₃.record (.decided decision)) run₁) :=
            hwait.tail (.decide (view io₃ run₁) decision rfl)
          refine (actOnDecision_resolved ex.failFast env polls (io₃.record (.decided decision)) run₁
            decision hdrained (fun h => hcanc rfl h) (fun h => ⟨hpolicy, ?_⟩) hsome).head hdecide
            hqueue
          rw [h]; simp [Io.record, lastDecision]
        | interrupted => exact ⟨hwait, hint rfl, hqueue⟩
        | waiting => exact ⟨_, hwait, rfl⟩

end Funzzy
