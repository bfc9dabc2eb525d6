import Funzzy.Executor.Session
import Funzzy.Lib.History

/-! How often a generation asks for approval.

    Only `resolve_recoveries` asks, and it returns with no recovery pending, or with the token set.
    So a second question needs a job that failed after the first one. This is a property of call
    boundaries, not of single moves, and is proved along the functions: each of them but
    `resolve_recoveries` asks nothing, and a recovery becomes pending only with its `original_failed`
    announcement. -/

namespace Funzzy

open History

variable {W : Type}

def Effect.isAsked : Effect → Bool
  | .asked _ => true
  | _ => false

/-- The announcement that a job with a recovery block has failed. -/
def Effect.isDeferral : Effect → Bool
  | .event (.recoveryPhase _ _ phase _) => phase = "original_failed"
  | _ => false

/-- The number of approval questions in a trace. -/
def asks (trace : List Effect) : Nat := trace.countP Effect.isAsked

/-- No job with a recovery block fails after the generation has asked. -/
def DefersFirst (trace : List Effect) : Prop :=
  Whenever (fun past x => x.isDeferral = true → asks past = 0) trace

@[simp] theorem asks_append (a b : List Effect) : asks (a ++ b) = asks a + asks b :=
  List.countP_append

/-- The trace has grown without a question. -/
def Quietly (io io' : Io W) : Prop := ∃ effects, io'.trace = io.trace ++ effects ∧ asks effects = 0

theorem Quietly.refl (io : Io W) : Quietly io io := ⟨[], (List.append_nil _).symm, rfl⟩

theorem Quietly.trans {a b c : Io W} (h : Quietly a b) (h' : Quietly b c) : Quietly a c := by
  obtain ⟨l, hl, hnone⟩ := h
  obtain ⟨l', hl', hnone'⟩ := h'
  exact ⟨l ++ l', by rw [hl', hl, List.append_assoc], by simp [hnone, hnone']⟩

theorem quietly_record {io io' : Io W} {x : Effect} (hx : x.isAsked = false)
    (htrace : io'.trace = io.trace ++ [x]) : Quietly io io' :=
  ⟨[x], htrace, by simp [asks, hx]⟩

theorem quietly_emit {io io' : Io W} {event : Event}
    (htrace : io'.trace = io.trace ++ [.event event]) : Quietly io io' :=
  quietly_record rfl htrace

theorem Quietly.asks_eq {io io' : Io W} (h : Quietly io io') :
    asks io'.trace = asks io.trace := by
  obtain ⟨effects, htrace, hnone⟩ := h
  rw [htrace, asks_append, hnone, Nat.add_zero]

theorem Quietly.defersFirst {io io' : Io W} (h : Quietly io io') (hfirst : DefersFirst io'.trace) :
    DefersFirst io.trace := by
  obtain ⟨effects, htrace, -⟩ := h
  rw [htrace] at hfirst
  exact hfirst.of_append

/-! ### Functions that ask nothing -/

theorem spawnCommands_quietly (env : Env W) (phase : Phase) (failFast : Bool) :
    ∀ (commands : List CommandLine) (io : Io W) (task : ActiveTask) (results : Results),
      Quietly io (spawnCommands env phase failFast commands io task results).1
  | [], io, task, results => by rw [spawnCommands]; exact .refl io
  | command :: rest, io, task, results => by
    rw [spawnCommands]
    rcases env.spawn io.world (task.take command rest) command with ⟨error | _, world⟩
    · by_cases hff : failFast = true
      · simp only [if_pos hff]
        exact quietly_record rfl rfl
      · simp only [if_neg hff]
        exact .trans (quietly_record rfl rfl) (spawnCommands_quietly env phase failFast rest _ _ _)
    · exact .trans (quietly_record rfl rfl) (quietly_emit rfl)

theorem childExited_quietly (env : Env W) (phase : Phase) (failFast : Bool) (io : Io W)
    (task : ActiveTask) (results : Results) (status : ExitStatus) :
    Quietly io (childExited env phase failFast io task results status).1 := by
  have hexit : Quietly io (io.record (.exited (task.proc phase) status)) := quietly_record rfl rfl
  unfold childExited
  dsimp only
  split
  · split
    · exact hexit
    · split
      · exact hexit.trans (spawnCommands_quietly env phase failFast _ _ _ _)
      · exact hexit
  · split
    · exact hexit.trans (spawnCommands_quietly env phase failFast _ _ _ _)
    · split
      · exact hexit
      · exact hexit.trans (spawnCommands_quietly env phase failFast _ _ _ _)

theorem advanceCommands_quietly (env : Env W) (phase : Phase) (failFast : Bool) (io : Io W)
    (task : ActiveTask) (results : Results) :
    Quietly io (advanceCommands env phase failFast io task results).1 := by
  unfold advanceCommands
  by_cases hchild : task.child = true
  · rw [if_pos hchild]
    rcases env.tryWait io.world task with ⟨error | _ | status, world⟩
    · dsimp only
      split
      · exact quietly_record rfl rfl
      · exact .trans (quietly_record rfl rfl) (spawnCommands_quietly env phase failFast _ _ _ _)
    · exact quietly_emit rfl
    · exact childExited_quietly env phase failFast { io with world } task results status
  · rw [if_neg hchild]
    exact spawnCommands_quietly env phase failFast _ _ _ _

theorem advanceTask_quietly (env : Env W) (phase : Phase) (failFast : Bool) (io : Io W)
    (task : ActiveTask) (results : Results) :
    Quietly io (advanceTask env phase failFast io task results).1 := by
  unfold advanceTask
  split
  · exact advanceCommands_quietly env phase failFast io task results
  · dsimp only
    split
    · split
      · exact advanceCommands_quietly env phase failFast io _ results
      · exact quietly_record rfl rfl
    · exact advanceCommands_quietly env phase failFast io _ results

theorem shutdownTask_quietly (env : Env W) (io : Io W) (task : ActiveTask) :
    Quietly io (shutdownTask env io task).1 := by
  unfold shutdownTask
  split
  · exact quietly_record rfl rfl
  · exact .refl io

/-! ### Between two questions -/

/-- A run in which at most one question has been asked, and none is open: whoever asked has left no
    recovery pending. -/
def Calm (io : Io W) (run : Run) : Prop :=
  DefersFirst io.trace →
    asks io.trace ≤ 1 ∧ (asks io.trace = 0 ∨ run.pendingRecoveries = [])

/-- Steps that ask nothing and leave the pending recoveries alone keep the run calm. -/
theorem Calm.quietly {io io' : Io W} {run run' : Run} (h : Calm io run) (hquiet : Quietly io io')
    (hpending : run'.pendingRecoveries = run.pendingRecoveries) : Calm io' run' := by
  intro hfirst
  rw [hquiet.asks_eq, hpending]
  exact h (hquiet.defersFirst hfirst)

theorem deferOrRecord_calm (env : Env W) (io : Io W) (run : Run) (task : ActiveTask)
    (h : Calm io run) :
    Calm (deferOrRecord env io run task).1 (deferOrRecord env io run task).2 := by
  unfold deferOrRecord
  split
  · intro hfirst
    obtain ⟨hbefore, hdefer⟩ := whenever_concat.mp hfirst
    have hnone : asks io.trace = 0 := hdefer rfl
    have hsame : asks (emitRecoveryPhase io run task.name "original_failed" none).trace
        = asks io.trace := Quietly.asks_eq (quietly_emit rfl)
    rw [hsame, hnone]
    exact ⟨Nat.zero_le 1, .inl rfl⟩
  · exact h.quietly (quietly_emit rfl) rfl

theorem scanActive_calm (ex : Executor) (env : Env W) :
    ∀ (rest seen : List ActiveTask) (taskFinished : Bool) (io : Io W) (run : Run), Calm io run →
      Calm (scanActive ex env seen rest taskFinished io run).1
        (scanActive ex env seen rest taskFinished io run).2.1
  | [], seen, taskFinished, io, run, h => by rw [scanActive]; exact h
  | task :: rest, seen, taskFinished, io, run, h => by
    have hquiet := advanceTask_quietly env .original ex.failFast io task run.results
    rw [scanActive]
    rcases hr : advanceTask env .original ex.failFast io task run.results with
      ⟨io₁, task₁, results, step⟩
    rw [hr] at hquiet
    have hcalm : ∀ run' : Run, run'.pendingRecoveries = run.pendingRecoveries → Calm io₁ run' :=
      fun run' hpending => h.quietly hquiet hpending
    cases step with
    | running =>
      dsimp only
      split
      · exact scanActive_calm ex env rest _ _ _ _ (hcalm _ rfl)
      · exact scanActive_calm ex env rest _ _ _ _ (hcalm _ rfl)
    | finished =>
      exact scanActive_calm ex env rest _ _ _ _ (deferOrRecord_calm env io₁ _ task₁ (hcalm _ rfl))
    | failedFast => exact deferOrRecord_calm env io₁ _ task₁ (hcalm _ rfl)

/-- What a step on a run does to questions and pending recoveries: nothing. -/
structure Aside (io : Io W) (run : Run) (io' : Io W) (run' : Run) : Prop where
  quietly : Quietly io io'
  pending : run'.pendingRecoveries = run.pendingRecoveries
  token : io'.token = io.token

theorem Aside.trans {io io' io'' : Io W} {run run' run'' : Run} (h : Aside io run io' run')
    (h' : Aside io' run' io'' run'') : Aside io run io'' run'' :=
  ⟨h.quietly.trans h'.quietly, h'.pending.trans h.pending, h'.token.trans h.token⟩

theorem failService_aside (env : Env W) (io : Io W) (run : Run) (service : ActiveTask)
    (failure : String) :
    Aside io run (failService env io run service failure).1
      (failService env io run service failure).2 :=
  ⟨quietly_emit rfl, rfl, rfl⟩

theorem respawnService_aside (env : Env W) (io : Io W) (run : Run) (service : ActiveTask) :
    Aside io run (respawnService env io run service).1 (respawnService env io run service).2.1 := by
  unfold respawnService
  split
  · exact ⟨.refl io, rfl, rfl⟩
  · rename_i command rest _
    dsimp only
    rcases env.spawn io.world (service.take command rest) command with ⟨error | _, world⟩
    · have hfailed : Aside io run ({ io with world }.record
          (.spawnFailed ((service.take command rest).proc .original) command error)) run :=
        ⟨quietly_record rfl rfl, rfl, rfl⟩
      exact hfailed.trans (failService_aside env _ _ _ _)
    · exact ⟨quietly_record rfl rfl, rfl, rfl⟩

theorem serviceExited_aside (env : Env W) (io : Io W) (run : Run) (service : ActiveTask)
    (status : ExitStatus) :
    Aside io run (serviceExited env io run service status).1
      (serviceExited env io run service status).2.1 := by
  have hexit : Aside io run (io.record (.exited (service.proc .original) status)) run :=
    ⟨quietly_record rfl rfl, rfl, rfl⟩
  unfold serviceExited
  dsimp only
  split
  · exact hexit.trans ⟨quietly_emit rfl, rfl, rfl⟩
  · split
    · exact hexit
    · exact hexit.trans (failService_aside env _ _ _ _)

theorem advanceService_aside (env : Env W) (io : Io W) (run : Run) (service : ActiveTask) :
    Aside io run (advanceService env io run service).1 (advanceService env io run service).2.1 := by
  unfold advanceService
  split
  · rcases env.tryWait io.world service with ⟨error | _ | status, world⟩
    · exact ⟨.refl io, rfl, rfl⟩
    · exact ⟨.refl io, rfl, rfl⟩
    · obtain ⟨hquiet, hpending, htoken⟩ :=
        serviceExited_aside env { io with world } run service status
      exact ⟨hquiet, hpending, htoken⟩
  · exact respawnService_aside env io run service

theorem advanceServicesFrom_aside (env : Env W) :
    ∀ (rest kept : List ActiveTask) (io : Io W) (run : Run),
      Aside io run (advanceServicesFrom env kept rest io run).1
        (advanceServicesFrom env kept rest io run).2
  | [], kept, io, run => ⟨.refl io, rfl, rfl⟩
  | service :: rest, kept, io, run => by
    have hone := advanceService_aside env io { run with services := kept ++ rest } service
    rw [advanceServicesFrom]
    rcases hr : advanceService env io { run with services := kept ++ rest } service with
      ⟨io₁, run₁, _ | service₁⟩
    · rw [hr] at hone
      have hrun : Aside io run io₁ run₁ := ⟨hone.quietly, hone.pending, hone.token⟩
      exact hrun.trans (advanceServicesFrom_aside env rest kept io₁ run₁)
    · rw [hr] at hone
      have hrun : Aside io run io₁ { run₁ with services := kept ++ service₁ :: rest } :=
        ⟨hone.quietly, hone.pending, hone.token⟩
      exact hrun.trans (advanceServicesFrom_aside env rest _ io₁ _)

theorem stopActive_aside (env : Env W) :
    ∀ (tasks : List ActiveTask) (io : Io W) (run : Run),
      Aside io run (stopActive env tasks io run).1 (stopActive env tasks io run).2
  | [], io, run => ⟨.refl io, rfl, rfl⟩
  | task :: rest, io, run => by
    have hquiet := shutdownTask_quietly env io task
    obtain ⟨-, htoken, -⟩ := shutdownTask_eq env io task
    rw [stopActive]
    rcases hr : shutdownTask env io task with ⟨io₁, task₁, killed⟩
    rw [hr] at hquiet htoken
    have hhead : Aside io run (io₁.emit (.taskTerminal run.metadata.runId
        (task₁.job.snapshot .cancelled (elapsedMs env io₁ task₁.started))))
        ({ run with active := rest }.reported task₁.job .cancelled
          (elapsedMs env io₁ task₁.started) .cancelled) :=
      ⟨hquiet.trans (quietly_emit rfl), rfl, htoken⟩
    exact hhead.trans (stopActive_aside env rest _ _)

theorem skipTasks_aside : ∀ (tasks : List TaskPlan) (io : Io W) (run : Run),
    Aside io run (skipTasks tasks io run).1 (skipTasks tasks io run).2
  | [], io, run => ⟨.refl io, rfl, rfl⟩
  | task :: rest, io, run => by
    have hhead : Aside io run (io.emit (.taskTerminal run.metadata.runId
        (task.job.snapshot .cancelled none))) (run.reported task.job .cancelled none .skipped) :=
      ⟨quietly_emit rfl, rfl, rfl⟩
    exact hhead.trans (skipTasks_aside rest _ _)

theorem stopAfterFailure_aside (env : Env W) (io : Io W) (run : Run) :
    Aside io run (stopAfterFailure env io run).1 (stopAfterFailure env io run).2 := by
  unfold stopAfterFailure
  have hstop := stopActive_aside env run.active io run
  rcases hr : stopActive env run.active io run with ⟨io₁, run₁⟩
  rw [hr] at hstop
  have hqueued := skipTasks_aside run₁.queued io₁ { run₁ with queued := [] }
  dsimp only
  rcases hr' : skipTasks run₁.queued io₁ { run₁ with queued := [] } with ⟨io₂, run₂⟩
  rw [hr'] at hqueued
  have hmiddle : Aside io₁ run₁ io₂ { run₂ with stages := [] } :=
    ⟨hqueued.quietly, hqueued.pending, hqueued.token⟩
  exact (hstop.trans hmiddle).trans (skipTasks_aside _ _ _)

theorem fillAvailableSlots_pending : ∀ (tasks : List TaskPlan) (run : Run),
    (fillAvailableSlots tasks run).pendingRecoveries = run.pendingRecoveries
  | [], run => rfl
  | task :: rest, run => by
    rw [fillAvailableSlots]
    split
    · exact fillAvailableSlots_pending rest _
    · rfl

theorem openStage_aside (env : Env W) (io : Io W) (run : Run) :
    Aside io run (openStage env io run).1 (openStage env io run).2 := by
  unfold openStage
  dsimp only
  cases run.stages with
  | nil => exact ⟨.refl io, fillAvailableSlots_pending _ _, rfl⟩
  | cons stage rest =>
    dsimp only
    split
    · exact ⟨quietly_record rfl rfl, fillAvailableSlots_pending _ _, rfl⟩
    · exact ⟨.refl io, fillAvailableSlots_pending _ _, rfl⟩

/-! ### Resolving recoveries -/

/-- The end of a recovery pass that has asked nothing more: nothing is pending, or the token is set,
    or the call still waits. -/
structure PassedQuietly (io : Io W) (r : Io W × Run × Awaited) : Prop where
  quietly : Quietly io r.1
  done : r.2.2 = .done → r.2.1.pendingRecoveries = []
  interrupted : r.2.2 = .interrupted → r.1.token = true

theorem PassedQuietly.head {io io' : Io W} {r : Io W × Run × Awaited} (hquiet : Quietly io io')
    (h : PassedQuietly io' r) : PassedQuietly io r :=
  ⟨hquiet.trans h.quietly, h.done, h.interrupted⟩

theorem awaitTask_quietly (env : Env W) (phase : Phase) :
    ∀ (polls : Nat) (io : Io W) (task : ActiveTask) (results : Results),
      let r := awaitTask env phase polls io task results
      Quietly io r.1 ∧ (r.2.2 = .interrupted → r.1.token = true)
  | 0, io, task, results => ⟨.refl io, by simp [awaitTask]⟩
  | polls + 1, io, task, results => by
    have hquiet := advanceTask_quietly env phase true io task results
    simp only [awaitTask]
    rcases hr : advanceTask env phase true io task results with ⟨io₁, task₁, results₁, step⟩
    rw [hr] at hquiet
    cases step with
    | running =>
      obtain ⟨htrace, htok, -⟩ := cancellationRequested_eq env io₁
      dsimp only
      rcases hc : io₁.cancellationRequested env with ⟨_ | _, io₂⟩ <;> simp only [hc] at htrace htok ⊢
      · obtain ⟨hrest, hint⟩ := awaitTask_quietly env phase polls io₂ task₁ results₁
        have hread : Quietly io₁ io₂ := ⟨[], by rw [htrace, List.append_nil], rfl⟩
        exact ⟨hquiet.trans (hread.trans hrest), hint⟩
      · have hstop := shutdownTask_quietly env io₂ task₁
        obtain ⟨-, htoken, -⟩ := shutdownTask_eq env io₂ task₁
        have hread : Quietly io₁ io₂ := ⟨[], by rw [htrace, List.append_nil], rfl⟩
        exact ⟨hquiet.trans (hread.trans hstop), fun _ => htoken.trans htok⟩
    | finished => exact ⟨hquiet, by simp⟩
    | failedFast => exact ⟨hquiet, by simp⟩

theorem keepFailures_passed (env : Env W) (announce : Io W → Run → ActiveTask → Io W)
    (hannounce : ∀ io run task, Quietly io (announce io run task)) :
    ∀ (tasks : List ActiveTask) (io : Io W) (run : Run),
      let r := keepFailures env announce tasks io run
      PassedQuietly io (r.1, r.2, .done)
  | [], io, run => ⟨.refl io, fun _ => rfl, by simp⟩
  | task :: rest, io, run => by
    have hrest := keepFailures_passed env announce hannounce rest
      (recordTaskOutcome env (announce io run task)
        { run with
          pendingRecoveries := rest
          results := run.results ++ [.error task.firstFailure] } task).1
      (recordTaskOutcome env (announce io run task)
        { run with
          pendingRecoveries := rest
          results := run.results ++ [.error task.firstFailure] } task).2
    exact hrest.head ((hannounce io run task).trans (quietly_emit rfl))

theorem verifyRecovery_passed (env : Env W) (polls : Nat) (io : Io W) (run : Run)
    (task : ActiveTask) (remaining : List ActiveTask) :
    let r := verifyRecovery env polls io run task remaining
    Quietly io r.1 ∧ (r.2.2 = .interrupted → r.1.token = true) := by
  simp only [verifyRecovery]
  have hnote : Quietly io (emitRecoveryPhase io run task.name "verification_started" none) :=
    quietly_emit rfl
  obtain ⟨hquiet, hint⟩ := awaitTask_quietly env .verification polls
    (emitRecoveryPhase io run task.name "verification_started" none)
    (task.restart task.originalCommands) []
  rcases hr : awaitTask env .verification polls
    (emitRecoveryPhase io run task.name "verification_started" none)
    (task.restart task.originalCommands) [] with ⟨io₁, task₁, awaited⟩
  simp only [hr] at hquiet hint
  cases awaited with
  | waiting => exact ⟨hnote.trans hquiet, by simp⟩
  | interrupted => exact ⟨hnote.trans hquiet, hint⟩
  | done =>
    exact ⟨(hnote.trans hquiet).trans (.trans (quietly_emit rfl) (quietly_emit rfl)), by simp⟩

theorem runRecoveries_passed (env : Env W) (polls : Nat) :
    ∀ (tasks : List ActiveTask) (io : Io W) (run : Run),
      PassedQuietly io (runRecoveries env polls tasks io run)
  | [], io, run => ⟨.refl io, fun _ => rfl, by simp [runRecoveries]⟩
  | task :: remaining, io, run => by
    have happroved : Quietly io
        (emitRecoveryPhase io run task.name "approval_decided" (some "approved")) := quietly_emit rfl
    rw [runRecoveries]
    cases task.recoveryCommands with
    | none =>
      exact (runRecoveries_passed env polls remaining _ _).head
        (happroved.trans (quietly_emit rfl))
    | some commands =>
      dsimp only
      set io₁ := emitRecoveryPhase
        (emitRecoveryPhase io run task.name "approval_decided" (some "approved")) run task.name
        "recovery_started" none
      set fresh := ({ task with recoveryCommands := none } : ActiveTask).restart commands
      have hstarted : Quietly io io₁ := happroved.trans (quietly_emit rfl)
      have hawait := awaitTask_quietly env .recovery polls io₁ fresh []
      rcases hr : awaitTask env .recovery polls io₁ fresh [] with ⟨io₂, task₂, awaited⟩
      rw [hr] at hawait
      obtain ⟨hquiet, hint⟩ := hawait
      cases awaited with
      | waiting => exact ⟨hstarted.trans hquiet, by simp, by simp⟩
      | interrupted => exact ⟨hstarted.trans hquiet, by simp, hint⟩
      | done =>
        dsimp only
        set io₃ := emitRecoveryPhase io₂ run task₂.name "recovery_finished"
          (some (if task₂.failures = [] then "passed" else "failed"))
        have hfinished : Quietly io io₃ := (hstarted.trans hquiet).trans (quietly_emit rfl)
        by_cases hpassed : task₂.failures = []
        · rw [if_pos hpassed]
          have hverify := verifyRecovery_passed env polls io₃ run task₂ remaining
          rcases hv : verifyRecovery env polls io₃ run task₂ remaining with ⟨io₄, run₄, awaited₄⟩
          rw [hv] at hverify
          obtain ⟨hquiet₄, hint₄⟩ := hverify
          cases awaited₄ with
          | done => exact (runRecoveries_passed env polls remaining io₄ run₄).head (hfinished.trans hquiet₄)
          | interrupted => exact ⟨hfinished.trans hquiet₄, by simp, hint₄⟩
          | waiting => exact ⟨hfinished.trans hquiet₄, by simp, by simp⟩
        · rw [if_neg hpassed]
          exact (keepFailures_passed env (fun io _ _ => io) (fun io _ _ => .refl io) remaining _ _).head
            (hfinished.trans (quietly_emit rfl))

theorem announceRequests_quietly (run : Run) :
    ∀ (requests : List RecoveryRequest) (io : Io W), Quietly io (announceRequests run requests io)
  | [], io => .refl io
  | _ :: rest, _ => .trans (quietly_emit rfl) (announceRequests_quietly run rest _)

theorem actOnDecision_passed (env : Env W) (polls : Nat) (io : Io W) (run : Run)
    (decision : ApprovalDecision) (hcancelled : decision = .cancelled → io.token = true) :
    PassedQuietly io (actOnDecision env polls io run decision) := by
  obtain ⟨htrace, htok, hmono⟩ := cancellationRequested_eq env io
  unfold actOnDecision
  rcases hc : io.cancellationRequested env with ⟨set, io₁⟩
  simp only [hc] at htrace htok hmono ⊢
  have hread : Quietly io io₁ := ⟨[], by rw [htrace, List.append_nil], rfl⟩
  by_cases hstop : decision = .cancelled ∨ set = true
  · rw [if_pos hstop]
    refine ⟨hread, by simp, fun _ => ?_⟩
    rcases hstop with hstop | rfl
    · exact htok.trans (hmono (hcancelled hstop))
    · exact htok
  · rw [if_neg hstop]
    split
    · exact (runRecoveries_passed env polls run.pendingRecoveries io₁ run).head hread
    · exact (keepFailures_passed env _ (fun io run task => quietly_emit rfl) run.pendingRecoveries io₁
        run).head hread

/-- A recovery pass from a calm run asks at most the one question of the generation. -/
theorem resolveRecoveries_asks (ex : LawfulExecutor) (env : Env W) (polls : Nat) (io : Io W) (run : Run)
    (h : Calm io run) :
    let r := resolveRecoveries ex env polls io run
    DefersFirst r.1.trace → asks r.1.trace ≤ 1 ∧
      (r.2.2 = .done → r.2.1.pendingRecoveries = []) ∧ (r.2.2 = .interrupted → r.1.token = true) := by
  simp only [resolveRecoveries]
  set run₁ : Run := { run with pendingRecoveries :=
    run.pendingRecoveries.insertionSort fun a b => a.position ≤ b.position }
  have hperm : run₁.pendingRecoveries.Perm run.pendingRecoveries := List.perm_insertionSort _ _
  by_cases hnone : run₁.pendingRecoveries = []
  · rw [if_pos hnone]
    exact fun hfirst => ⟨(h hfirst).1, fun _ => hnone, by simp⟩
  · rw [if_neg hnone]
    have hpending : run.pendingRecoveries ≠ [] := fun hnil => hnone (List.perm_nil.mp (hnil ▸ hperm))
    obtain ⟨htrace, htok, -⟩ := cancellationRequested_eq env io
    rcases hc : io.cancellationRequested env with ⟨set, io₁⟩
    simp only [hc] at htrace htok ⊢
    have hread : Quietly io io₁ := ⟨[], by rw [htrace, List.append_nil], rfl⟩
    cases set with
    | true =>
      intro hfirst
      rw [htrace]
      exact ⟨(h (hread.defersFirst hfirst)).1, by simp, fun _ => htok⟩
    | false =>
      dsimp only
      set requests := run₁.pendingRecoveries.map (·.recoveryRequest run₁)
      have hannounce := hread.trans (announceRequests_quietly run₁ requests io₁)
      obtain ⟨-, htok₂⟩ := announceRequests_moves ex.failFast run₁ requests io₁
      set io₂ := announceRequests run₁ requests io₁
      -- nothing has been asked yet, since a recovery is pending
      have hzero : DefersFirst io₂.trace → asks io₂.trace = 0 := fun hfirst => by
        rw [hannounce.asks_eq]
        exact (h (hannounce.defersFirst hfirst)).2.resolve_right hpending
      cases hpolicy : run₁.metadata.recoveryPolicy with
      | skip =>
        have hact := actOnDecision_passed env polls io₂ run₁ .declined (by simp)
        intro hfirst
        refine ⟨?_, hact.done, hact.interrupted⟩
        rw [hact.quietly.asks_eq, hzero (hact.quietly.defersFirst hfirst)]
        exact Nat.zero_le 1
      | prompt =>
        obtain ⟨htrace₃, hint, hcanc⟩ := awaitApproval_eq ex env requests polls
          (io₂.record (.asked requests)) (htok₂.trans htok)
        dsimp only
        rcases hr : awaitApproval ex env requests polls (io₂.record (.asked requests)) with
          ⟨io₃, awaited, decision⟩
        simp only [hr] at htrace₃ hint hcanc
        have hone : DefersFirst io₃.trace → asks io₃.trace ≤ 1 := fun hfirst => by
          rw [htrace₃] at hfirst ⊢
          have hbefore := hzero (hfirst.of_append)
          simp [Io.record, asks, Effect.isAsked] at hbefore ⊢
          exact hbefore
        cases awaited with
        | done =>
          have hact := actOnDecision_passed env polls (io₃.record (.decided decision)) run₁ decision
            fun hcancelled => hcanc rfl hcancelled
          have hquiet : Quietly io₃ (actOnDecision env polls (io₃.record (.decided decision)) run₁
              decision).1 := .trans (quietly_record rfl rfl) hact.quietly
          intro hfirst
          refine ⟨?_, hact.done, hact.interrupted⟩
          rw [hquiet.asks_eq]
          exact hone (hquiet.defersFirst hfirst)
        | interrupted => exact fun hfirst => ⟨hone hfirst, by simp, hint⟩
        | waiting => exact fun hfirst => ⟨hone hfirst, by simp, by simp⟩

/-! ### Calls and sessions -/

/-- Between two calls: calm, or stopped by the token. -/
def Composed (io : Io W) (run : Run) : Prop :=
  DefersFirst io.trace →
    asks io.trace ≤ 1 ∧ (asks io.trace = 0 ∨ run.pendingRecoveries = [] ∨ io.token = true)

theorem Calm.composed {io : Io W} {run : Run} (h : Calm io run) : Composed io run := fun hfirst =>
  ⟨(h hfirst).1, (h hfirst).2.imp_right .inl⟩

/-- What a call leaves behind; a call that does not return has asked at most once. -/
def ComposedAfter (r : Io W × Run × Progress) : Prop :=
  (DefersFirst r.1.trace → asks r.1.trace ≤ 1) ∧
    (∀ step, r.2.2 = .returned step → Composed r.1 r.2.1)

theorem ComposedAfter.of_calm {io : Io W} {run : Run} (h : Calm io run) (progress : Progress) :
    ComposedAfter (io, run, progress) :=
  ⟨fun hfirst => (h hfirst).1, fun _ _ => h.composed⟩

theorem endFailFast_composed (ex : LawfulExecutor) (env : Env W) (polls : Nat) (io : Io W) (run : Run)
    (h : Calm io run) : ComposedAfter (endFailFast ex env polls io run) := by
  have hstop := stopAfterFailure_aside env io run
  unfold endFailFast
  rcases hr : stopAfterFailure env io run with ⟨io₁, run₁⟩
  rw [hr] at hstop
  have hcalm : Calm io₁ run₁ := h.quietly hstop.quietly hstop.pending
  dsimp only
  by_cases hnone : run₁.pendingRecoveries = []
  · rw [if_pos hnone]
    exact .of_calm hcalm _
  · rw [if_neg hnone]
    have hresolve := resolveRecoveries_asks ex env polls io₁ run₁ hcalm
    rcases hv : resolveRecoveries ex env polls io₁ run₁ with ⟨io₂, run₂, awaited⟩
    rw [hv] at hresolve
    cases awaited with
    | done =>
      exact ⟨fun hfirst => (hresolve hfirst).1, fun _ _ hfirst =>
        ⟨(hresolve hfirst).1, .inr (.inl ((hresolve hfirst).2.1 rfl))⟩⟩
    | interrupted =>
      exact ⟨fun hfirst => (hresolve hfirst).1, fun _ _ hfirst =>
        ⟨(hresolve hfirst).1, .inr (.inr ((hresolve hfirst).2.2 rfl))⟩⟩
    | waiting => exact ⟨fun hfirst => (hresolve hfirst).1, by simp⟩

theorem advanceLoop_composed (ex : LawfulExecutor) (env : Env W) (polls : Nat) :
    ∀ (fuel : Nat) (io : Io W) (run : Run), Calm io run →
      ComposedAfter (advanceLoop ex env polls fuel io run)
  | 0, io, run, h => .of_calm h _
  | fuel + 1, io, run, h => by
    rw [advanceLoop]
    by_cases hover : run.active = [] ∧ run.queued = [] ∧ run.stages = []
    · rw [if_pos hover]
      by_cases hservices : run.services = []
      · rw [if_pos hservices]
        exact .of_calm h _
      · rw [if_neg hservices]
        have haside := advanceServicesFrom_aside env run.services [] io run
        exact .of_calm (h.quietly haside.quietly haside.pending) _
    · rw [if_neg hover]
      have hopen := openStage_aside env io run
      rcases hr : openStage env io run with ⟨io₁, run₁⟩
      rw [hr] at hopen
      have hscan := scanActive_calm ex env run₁.active [] false io₁ run₁
        (h.quietly hopen.quietly hopen.pending)
      dsimp only
      rcases hs : scanActive ex env [] run₁.active false io₁ run₁ with
        ⟨io₂, run₂, taskFinished | _⟩ <;> rw [hs] at hscan
      · have haside := advanceServicesFrom_aside env run₂.services [] io₂ run₂
        dsimp only
        rcases hv : advanceServices env io₂ run₂ with ⟨io₃, run₃⟩
        rw [advanceServices] at hv
        rw [hv] at haside
        have hcalm : Calm io₃ run₃ := hscan.quietly haside.quietly haside.pending
        dsimp only
        split
        · split
          · have hresolve := resolveRecoveries_asks ex env polls io₃ run₃ hcalm
            rcases hw : resolveRecoveries ex env polls io₃ run₃ with ⟨io₄, run₄, awaited⟩
            rw [hw] at hresolve
            cases awaited with
            | done =>
              exact advanceLoop_composed ex env polls fuel io₄ run₄ fun hfirst =>
                ⟨(hresolve hfirst).1, .inr ((hresolve hfirst).2.1 rfl)⟩
            | interrupted =>
              exact ⟨fun hfirst => (hresolve hfirst).1, fun _ _ hfirst =>
                ⟨(hresolve hfirst).1, .inr (.inr ((hresolve hfirst).2.2 rfl))⟩⟩
            | waiting => exact ⟨fun hfirst => (hresolve hfirst).1, by simp⟩
          · split
            · exact advanceLoop_composed ex env polls fuel io₃ run₃ hcalm
            · exact .of_calm hcalm _
        · split
          · exact advanceLoop_composed ex env polls fuel io₃ run₃ hcalm
          · exact .of_calm hcalm _
      · exact endFailFast_composed ex env polls io₂ run₂ hscan

theorem advance_composed (ex : LawfulExecutor) (env : Env W) (polls : Nat) (io : Io W) (run : Run)
    (h : Composed io run) : ComposedAfter (advance ex env polls io run) := by
  obtain ⟨htrace, htok, hmono⟩ := cancellationRequested_eq env io
  unfold advance
  rcases hc : io.cancellationRequested env with ⟨set, io₁⟩
  simp only [hc] at htrace htok hmono ⊢
  have hsame : DefersFirst io₁.trace → asks io₁.trace ≤ 1 ∧
      (asks io₁.trace = 0 ∨ run.pendingRecoveries = [] ∨ io.token = true) := htrace ▸ h
  cases set with
  | true =>
    exact ⟨fun hfirst => (hsame hfirst).1, fun _ _ hfirst =>
      ⟨(hsame hfirst).1, .inr (.inr htok)⟩⟩
  | false =>
    refine advanceLoop_composed ex env polls _ io₁ run fun hfirst => ⟨(hsame hfirst).1, ?_⟩
    rcases (hsame hfirst).2 with hzero | hnone | htoken
    · exact .inl hzero
    · exact .inr hnone
    · exact absurd (hmono htoken) (by simp)

/-- A session that has asked at most once, and may go on. -/
def Session.Composed (s : Session W) : Prop :=
  (DefersFirst s.io.trace → asks s.io.trace ≤ 1) ∧ (s.open = true → Funzzy.Composed s.io s.run)

theorem Session.apply_composed (ex : LawfulExecutor) (env : Env W) {s : Session W} (hopen : s.open = true)
    (h : s.Composed) (op : Op) : (s.apply ex env op).Composed := by
  have hnow := h.2 hopen
  cases op with
  | advance polls =>
    have hafter := advance_composed ex env polls s.io s.run hnow
    simp only [Session.apply]
    rcases hr : Funzzy.advance ex env polls s.io s.run with ⟨io, run, progress⟩
    rw [hr] at hafter
    refine ⟨hafter.1, fun hopen' => ?_⟩
    cases progress with
    | returned step => exact hafter.2 step rfl
    | waiting => simp [Session.open] at hopen'
    | spinning => simp [Session.open] at hopen'
  | append plan => exact h
  | reconcile stopNames =>
    obtain ⟨htrace, htoken, hrun⟩ := reconcileFrom_eq env stopNames s.run.services [] s.io s.run rfl
    have hquiet : Quietly s.io (s.apply ex env (.reconcile stopNames)).io := by
      refine ⟨_, htrace, ?_⟩
      refine List.countP_eq_zero.mpr fun x hx => ?_
      obtain ⟨t, -, hx⟩ := List.mem_flatMap.mp hx
      unfold ActiveTask.killEffects at hx
      split at hx
      · rw [List.mem_singleton.mp hx]; simp [Effect.isAsked]
      · cases hx
    have hpending : (s.apply ex env (.reconcile stopNames)).run.pendingRecoveries
        = s.run.pendingRecoveries := by
      have hsame := congrArg Run.pendingRecoveries hrun
      exact hsame
    have htoken' : (s.apply ex env (.reconcile stopNames)).io.token = s.io.token := htoken
    refine ⟨fun hfirst => ?_, fun _ hfirst => ?_⟩
    · rw [hquiet.asks_eq]
      exact h.1 (hquiet.defersFirst hfirst)
    · rw [hquiet.asks_eq, hpending, htoken']
      exact hnow (hquiet.defersFirst hfirst)

/-- A generation in which no job fails after the question asks at most once. -/
theorem Session.after_composed (ex : LawfulExecutor) (env : Env W) :
    ∀ (ops : List Op) (s : Session W), s.Composed → (s.after ex env ops).Composed
  | [], _, h => h
  | op :: ops, s, h => by
    rw [Session.after]
    by_cases hopen : s.open = true
    · rw [if_pos hopen]
      exact Session.after_composed ex env ops _ (Session.apply_composed ex env hopen h op)
    · rw [if_neg hopen]
      exact Session.after_composed ex env ops s h

theorem Session.start_composed (env : Env W) (world : W) (metadata : RunMetadata)
    (plan : RunPlan) : (Session.start env world metadata plan).Composed :=
  ⟨fun _ => Nat.zero_le 1, fun _ _ => ⟨Nat.zero_le 1, .inl rfl⟩⟩

end Funzzy
