import Funzzy.Executor.Entities

/-! What the recovery of one job adds to the trace (`executor.rs`).

    `Adds Q` says that a step has only added effects with `Q` to the trace. `Recovers Q position` lists
    the effects a recovery pass can have for the job at the position; whatever allows them all is kept by
    the whole pass, however it ends. -/

namespace Funzzy

variable {W : Type} {Q : Effect → Prop}

/-- The trace has grown by effects with `Q`. -/
def Adds (Q : Effect → Prop) (io io' : Io W) : Prop :=
  ∃ effects, io'.trace = io.trace ++ effects ∧ ∀ x ∈ effects, Q x

theorem Adds.same {io io' : Io W} (h : io'.trace = io.trace) : Adds Q io io' :=
  ⟨[], by rw [h, List.append_nil], by simp⟩

theorem Adds.trans {a b c : Io W} (h : Adds Q a b) (h' : Adds Q b c) : Adds Q a c := by
  obtain ⟨l, hl, hq⟩ := h
  obtain ⟨l', hl', hq'⟩ := h'
  refine ⟨l ++ l', by rw [hl', hl, List.append_assoc], fun x hx => ?_⟩
  exact (List.mem_append.mp hx).elim (hq x) (hq' x)

theorem Adds.one {io io' : Io W} {x : Effect} (hx : Q x) (h : io'.trace = io.trace ++ [x]) :
    Adds Q io io' :=
  ⟨[x], h, fun y hy => by rw [List.mem_singleton.mp hy]; exact hx⟩

/-- Everything that the recovery of the job at the position may have as an effect has `Q`. -/
structure Recovers (Q : Effect → Prop) (position : Nat) : Prop where
  note : ∀ runId job phase outcome, Q (.event (.recoveryPhase runId job phase outcome))
  asked : ∀ requests, Q (.asked requests)
  decided : ∀ decision, Q (.decided decision)
  task : ∀ {phase t effects t'}, phase ≠ .original → TaskChange phase t effects t' →
    ∀ x ∈ effects, Q x
  killed : ∀ position service, Q (.killed position service)
  report : ∀ runId (snapshot : TaskSnapshot), snapshot.position = position →
    Q (.event (.taskTerminal runId snapshot))

variable {position : Nat} (hQ : Recovers Q position)
include hQ

theorem TaskMoves.adds {phase : Phase} (hphase : phase ≠ .original) {failFast : Bool} {w w' : Work}
    (h : TaskMoves phase failFast w w') : w'.task.position = w.task.position ∧
      ∃ effects, w'.trace = w.trace ++ effects ∧ ∀ x ∈ effects, Q x := by
  induction h with
  | refl => exact ⟨rfl, [], (List.append_nil _).symm, by simp⟩
  | tail _ hmove ih =>
    obtain ⟨hposition, l, hl, hq⟩ := ih
    obtain ⟨effects, htrace, hchange⟩ := hmove.1.change
    refine ⟨hchange.position_eq.trans hposition, l ++ effects, ?_, fun x hx => ?_⟩
    · rw [htrace, hl, List.append_assoc]
    · exact (List.mem_append.mp hx).elim (hq x) (hQ.task hphase hchange x)

/-- Driving the job until it is done, interrupted or still waiting. -/
theorem awaitTask_adds (env : Env W) {phase : Phase} (hphase : phase ≠ .original) :
    ∀ (polls : Nat) (io : Io W) (task : ActiveTask) (results : Results), task.Fresh →
      task.failures = [] →
      Adds Q io (awaitTask env phase polls io task results).1 ∧
        (awaitTask env phase polls io task results).2.1.position = task.position
  | 0, io, task, results, _, _ => ⟨.same rfl, rfl⟩
  | polls + 1, io, task, results, hfresh, hnone => by
    have hmoved := advanceTask_moved env phase true io task results hfresh
      ⟨fun _ => hnone, fun h => absurd h hphase⟩
    rw [awaitTask]
    rcases hr : advanceTask env phase true io task results with ⟨io₁, task₁, results₁, step⟩
    rw [hr] at hmoved
    obtain ⟨hposition, hdriven⟩ := TaskMoves.adds hQ hphase hmoved.moves
    cases step with
    | finished | failedFast => exact ⟨hdriven, hposition⟩
    | running =>
      obtain ⟨htrace, -, -⟩ := cancellationRequested_eq env io₁
      dsimp only
      rcases hc : io₁.cancellationRequested env with ⟨_ | _, io₂⟩ <;> simp only [hc] at htrace ⊢
      · obtain ⟨hrest, hsame⟩ := awaitTask_adds env hphase polls io₂ task₁ results₁
          (hmoved.moves.fresh hfresh) (hmoved.describes.2.2 rfl)
        exact ⟨.trans hdriven (.trans (.same htrace) hrest), hsame.trans hposition⟩
      · obtain ⟨hstop, -, htask⟩ := shutdownTask_eq env io₂ task₁
        refine ⟨.trans hdriven (.trans (.same htrace) ⟨_, hstop, ?_⟩), ?_⟩
        · unfold ActiveTask.killEffects
          split
          · exact fun x hx => by rw [List.mem_singleton.mp hx]; exact hQ.killed _ _
          · simp
        · rw [htask]
          exact hposition

theorem keepFailures_adds (env : Env W) (announce : Io W → Run → ActiveTask → Io W)
    (hannounce : ∀ io run task, Adds Q io (announce io run task)) :
    ∀ (tasks : List ActiveTask) (io : Io W) (run : Run), (∀ t ∈ tasks, t.position = position) →
      Adds Q io (keepFailures env announce tasks io run).1
  | [], _, _, _ => .same rfl
  | task :: rest, io, run, htasks => by
    have hreport : ∀ (io : Io W) (run : Run), Adds Q io (recordTaskOutcome env io run task).1 :=
      fun io run => .one (hQ.report _ _ (htasks task List.mem_cons_self)) rfl
    rw [keepFailures]
    exact (hannounce io run task).trans ((hreport _ _).trans (keepFailures_adds env announce hannounce
      rest _ _ fun t ht => htasks t (List.mem_cons_of_mem _ ht)))

theorem verifyRecovery_adds (env : Env W) (polls : Nat) (io : Io W) (run : Run) (task : ActiveTask)
    (remaining : List ActiveTask) (htask : task.position = position) :
    Adds Q io (verifyRecovery env polls io run task remaining).1 := by
  have hnote : ∀ (io : Io W) (job phase : String) (outcome : Option String),
      Adds Q io (emitRecoveryPhase io run job phase outcome) :=
    fun io job phase outcome => .one (hQ.note _ _ _ _) rfl
  obtain ⟨hawait, hposition⟩ := awaitTask_adds hQ env (by decide : Phase.verification ≠ .original) polls
    (emitRecoveryPhase io run task.name "verification_started" none)
    (task.restart task.originalCommands) [] (fun _ => rfl) rfl
  rw [verifyRecovery]
  dsimp only
  rcases hr : awaitTask env .verification polls
    (emitRecoveryPhase io run task.name "verification_started" none)
    (task.restart task.originalCommands) [] with ⟨io₁, task₁, _ | _ | _⟩ <;>
    rw [hr] at hawait hposition
  · refine (hnote io _ _ _).trans (hawait.trans ((hnote io₁ _ _ _).trans (.one (hQ.report _ _ ?_) rfl)))
    exact hposition.trans htask
  · exact (hnote io _ _ _).trans hawait
  · exact (hnote io _ _ _).trans hawait

theorem runRecoveries_adds (env : Env W) (polls : Nat) :
    ∀ (tasks : List ActiveTask) (io : Io W) (run : Run), (∀ t ∈ tasks, t.position = position) →
      Adds Q io (runRecoveries env polls tasks io run).1
  | [], _, _, _ => .same rfl
  | task :: remaining, io, run, htasks => by
    have hnote : ∀ (io : Io W) (run : Run) (job phase : String) (outcome : Option String),
        Adds Q io (emitRecoveryPhase io run job phase outcome) :=
      fun io run job phase outcome => .one (hQ.note _ _ _ _) rfl
    have hreport : ∀ (io : Io W) (run : Run) (task : ActiveTask), task.position = position →
        Adds Q io (recordTaskOutcome env io run task).1 :=
      fun io run task htask => .one (hQ.report _ _ htask) rfl
    have htask : task.position = position := htasks task List.mem_cons_self
    have hremaining : ∀ t ∈ remaining, t.position = position :=
      fun t ht => htasks t (List.mem_cons_of_mem _ ht)
    rw [runRecoveries]
    rcases task.recoveryCommands with _ | commands
    · exact (hnote io run _ _ _).trans ((hreport _ _ task htask).trans
        (runRecoveries_adds env polls remaining _ _ hremaining))
    · dsimp only
      set io₁ := emitRecoveryPhase
        (emitRecoveryPhase io run task.name "approval_decided" (some "approved")) run task.name
        "recovery_started" none
      set fresh := ({ task with recoveryCommands := none } : ActiveTask).restart commands
      have hstarted : Adds Q io io₁ := (hnote io run _ _ _).trans (hnote _ run _ _ _)
      obtain ⟨hawait, hposition⟩ := awaitTask_adds hQ env (by decide : Phase.recovery ≠ .original) polls
        io₁ fresh [] (fun _ => rfl) rfl
      rcases hr : awaitTask env .recovery polls io₁ fresh [] with ⟨io₂, task₂, _ | _ | _⟩ <;>
        rw [hr] at hawait hposition
      · have htask₂ : task₂.position = position := hposition.trans htask
        dsimp only
        set io₃ := emitRecoveryPhase io₂ run task₂.name "recovery_finished"
          (some (if task₂.failures = [] then "passed" else "failed"))
        have hfinished : Adds Q io io₃ := (hstarted.trans hawait).trans (hnote io₂ run _ _ _)
        by_cases hpassed : task₂.failures = []
        · rw [if_pos hpassed]
          have hverify := verifyRecovery_adds hQ env polls io₃ run task₂ remaining htask₂
          rcases hv : verifyRecovery env polls io₃ run task₂ remaining with ⟨io₄, run₄, _ | _ | _⟩ <;>
            rw [hv] at hverify
          · exact hfinished.trans (hverify.trans
              (runRecoveries_adds env polls remaining io₄ run₄ hremaining))
          · exact hfinished.trans hverify
          · exact hfinished.trans hverify
        · rw [if_neg hpassed]
          exact hfinished.trans ((hreport _ _ { task₂ with failures := task.failures ++ task₂.failures }
            htask₂).trans (keepFailures_adds hQ env
            (fun io _ _ => io) (fun _ _ _ => .same rfl) remaining _ _ hremaining))
      · exact hstarted.trans hawait
      · exact hstarted.trans hawait

theorem announceRequests_adds (run : Run) :
    ∀ (requests : List RecoveryRequest) (io : Io W), Adds Q io (announceRequests run requests io)
  | [], _ => .same rfl
  | _ :: rest, _ => .trans (.one (hQ.note _ _ _ _) rfl) (announceRequests_adds run rest _)

theorem actOnDecision_adds (env : Env W) (polls : Nat) (io : Io W) (run : Run)
    (decision : ApprovalDecision) (hpending : ∀ t ∈ run.pendingRecoveries, t.position = position) :
    Adds Q io (actOnDecision env polls io run decision).1 := by
  obtain ⟨htrace, -, -⟩ := cancellationRequested_eq env io
  unfold actOnDecision
  rcases hc : io.cancellationRequested env with ⟨set, io₁⟩
  simp only [hc] at htrace ⊢
  refine .trans (.same htrace) ?_
  split
  · exact .same rfl
  · split
    · exact runRecoveries_adds hQ env polls run.pendingRecoveries io₁ run hpending
    · exact keepFailures_adds hQ env _ (fun io run task => .one (hQ.note _ _ _ _) rfl)
        run.pendingRecoveries io₁ run hpending

/-- The whole pass over the pending recoveries of one job. -/
theorem resolveRecoveries_adds (ex : LawfulExecutor) (env : Env W) (polls : Nat) (io : Io W) {run : Run}
    (hpending : ∀ t ∈ run.pendingRecoveries, t.position = position) :
    Adds Q io (resolveRecoveries ex env polls io run).1 := by
  simp only [resolveRecoveries]
  set run₁ : Run := { run with pendingRecoveries :=
    run.pendingRecoveries.insertionSort fun a b => a.position ≤ b.position }
  have hsorted : ∀ t ∈ run₁.pendingRecoveries, t.position = position :=
    fun t ht => hpending t ((List.perm_insertionSort _ _).mem_iff.mp ht)
  by_cases hnone : run₁.pendingRecoveries = []
  · rw [if_pos hnone]
    exact .same rfl
  · rw [if_neg hnone]
    obtain ⟨htrace, htok, -⟩ := cancellationRequested_eq env io
    rcases hc : io.cancellationRequested env with ⟨_ | _, io₁⟩ <;> simp only [hc] at htrace htok ⊢
    · set requests := run₁.pendingRecoveries.map (·.recoveryRequest run₁)
      obtain ⟨-, htok₂⟩ := announceRequests_moves ex.failFast run₁ requests io₁
      have hannounced : Adds Q io (announceRequests run₁ requests io₁) :=
        .trans (.same htrace) (announceRequests_adds hQ run₁ requests io₁)
      set io₂ := announceRequests run₁ requests io₁
      cases run₁.metadata.recoveryPolicy with
      | skip => exact hannounced.trans (actOnDecision_adds hQ env polls io₂ run₁ .declined hsorted)
      | prompt =>
        obtain ⟨htrace₃, -, -⟩ := awaitApproval_eq ex env requests polls
          (io₂.record (.asked requests)) (htok₂.trans htok)
        dsimp only
        rcases hr : awaitApproval ex env requests polls (io₂.record (.asked requests)) with
          ⟨io₃, awaited, decision⟩
        simp only [hr] at htrace₃
        have hasked : Adds Q io io₃ :=
          hannounced.trans (.trans (.one (hQ.asked requests) rfl) (.same htrace₃))
        cases awaited with
        | done =>
          exact hasked.trans (.trans (.one (hQ.decided decision) rfl)
            (actOnDecision_adds hQ env polls (io₃.record (.decided decision)) run₁ decision hsorted))
        | interrupted | waiting => exact hasked
    · exact .same htrace

end Funzzy
