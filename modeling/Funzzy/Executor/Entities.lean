import Funzzy.Executor.Session
import Funzzy.Lib.Board

/-! A run as an interleaving of independent jobs.

    Every task a run holds is an `Entity` in one of six roles, at the position of its task. Effects
    name the position of the job they belong to, so what a job has done is its restricted history. A
    move of the run opens a stage, or is a sequence of moves of single entities (`Move.entities`), so a
    property of one job is proved by looking at the moves of that job alone. -/

namespace Funzzy

open History Board

/-- A task in the run: in a stage to come, in the queue of the current stage, active in it, in the
    background, failed and waiting for its recovery, or in it. -/
inductive Entity where
  | planned (task : TaskPlan)
  | queued (task : TaskPlan)
  | active (task : ActiveTask)
  | service (task : ActiveTask)
  | pending (task : ActiveTask)
  | recovering (job : Recovering)
  deriving DecidableEq

def Entity.position : Entity → Nat
  | .planned task | .queued task => task.position
  | .active task | .service task | .pending task => task.position
  | .recovering job => job.task.position

def View.entities (v : View) : List Entity :=
  (v.run.stages.flatMap stageTasks).map .planned ++ v.run.queued.map .queued
    ++ v.run.active.map .active ++ v.run.services.map .service
    ++ v.run.pendingRecoveries.map .pending ++ (v.recovering.map Entity.recovering).toList

/-- The job an effect belongs to, by its position. -/
def Effect.position? : Effect → Option Nat
  | .event (.taskTerminal _ snapshot) => some snapshot.position
  | .spawned proc _ | .spawnFailed proc _ _ | .exited proc _ | .waitFailed proc _ =>
    some proc.position
  | .killed position _ | .contextInvalid position => some position
  | _ => none

/-- What has happened to the job at a position. -/
abbrev historyAt (position : Nat) (trace : List Effect) : List Effect :=
  restrict Effect.position? position trace

/-! ### Changes of one task -/

/-- What a move of `advance_task` does to the task, with the effects it has. -/
inductive TaskChange (phase : Phase) : ActiveTask → List Effect → ActiveTask → Prop
  | validate (t : ActiveTask) : TaskChange phase t [] { t with contextValidated := true }
  | invalid (t : ActiveTask) (failure : String) : t.child = false →
      TaskChange phase t [.contextInvalid t.position]
        { { t with contextValidated := true }.fail failure with commands := [] }
  | spawned (t : ActiveTask) (command : CommandLine) (rest : List CommandLine) (now : Nat) :
      t.contextValidated = true → t.child = false → t.commands = command :: rest →
      TaskChange phase t [.spawned ((t.take command rest).proc phase) command,
        .event (.tick t.name t.groupOccurrence)] ((t.take command rest).launched now)
  | spawnFailed (t : ActiveTask) (command : CommandLine) (rest : List CommandLine)
      (error failure : String) : t.child = false → t.commands = command :: rest →
      TaskChange phase t [.spawnFailed ((t.take command rest).proc phase) command error]
        ((t.take command rest).reaped.fail failure)
  | tick (t : ActiveTask) :
      TaskChange phase t [.event (.tick t.name t.groupOccurrence)] t
  | exited (t : ActiveTask) (status : ExitStatus) : t.child = true → status.success = true →
      TaskChange phase t [.exited (t.proc phase) status] t.reaped
  | failed (t : ActiveTask) (effect : Effect) (failure : String) : t.child = true →
      ((∃ status, effect = .exited (t.proc phase) status) ∨
        ∃ error, effect = .waitFailed (t.proc phase) error) →
      TaskChange phase t [effect] (t.reaped.fail failure)
  | restarted (t : ActiveTask) (status : ExitStatus) : t.child = true → t.service = true →
      TaskChange phase t [.exited (t.proc phase) status] (t.reaped.requeued t.currentCommand)

theorem TaskMove.change {phase : Phase} {w w' : Work} (h : TaskMove phase w w') :
    ∃ effects, w'.trace = w.trace ++ effects ∧ TaskChange phase w.task effects w'.task := by
  cases h with
  | validate => exact ⟨[], (List.append_nil _).symm, .validate _⟩
  | invalid failure _ hchild => exact ⟨_, rfl, .invalid _ failure hchild⟩
  | spawned command rest now hvalid hchild hcommands =>
    exact ⟨_, rfl, .spawned _ command rest now hvalid hchild hcommands⟩
  | spawnFailed command rest error _ hchild hcommands =>
    exact ⟨_, rfl, .spawnFailed _ command rest error _ hchild hcommands⟩
  | tick => exact ⟨_, rfl, .tick _⟩
  | passed status hchild hok => exact ⟨_, rfl, .exited _ status hchild hok⟩
  | failed status hchild => exact ⟨_, rfl, .failed _ _ _ hchild (.inl ⟨status, rfl⟩)⟩
  | errored error hchild => exact ⟨_, rfl, .failed _ _ _ hchild (.inr ⟨error, rfl⟩)⟩
  | serviceStopped status hchild hok => exact ⟨_, rfl, .exited _ status hchild hok⟩
  | serviceRestarted status hchild _ hservice =>
    exact ⟨_, rfl, .restarted _ status hchild hservice⟩
  | serviceExhausted status failure hchild =>
    exact ⟨_, rfl, .failed _ _ failure hchild (.inl ⟨status, rfl⟩)⟩

theorem TaskChange.position_eq {phase : Phase} {t t' : ActiveTask} {effects : List Effect}
    (h : TaskChange phase t effects t') : t'.position = t.position := by
  cases h <;> rfl

theorem TaskChange.owns {phase : Phase} {t t' : ActiveTask} {effects : List Effect}
    (h : TaskChange phase t effects t') :
    ∀ x ∈ effects, x.position? = none ∨ x.position? = some t.position := by
  cases h with
  | failed effect failure _ heffect =>
    rcases heffect with ⟨status, rfl⟩ | ⟨error, rfl⟩ <;> simp [Effect.position?, ActiveTask.proc]
  | _ => simp [Effect.position?, ActiveTask.proc, ActiveTask.take]

/-! ### Moves of one entity -/

/-- The moves of one job; `none` when it leaves the run. -/
inductive EntityMove (failFast : Bool) : Entity → List Effect → Option Entity → Prop
  | fill (task : TaskPlan) : EntityMove failFast (.queued task) [] (some (.active (.ofPlan task)))
  | task (t t' : ActiveTask) (effects : List Effect) : t.Admissible .original failFast →
      TaskChange .original t effects t' →
      EntityMove failFast (.active t) effects (some (.active t'))
  | park (t : ActiveTask) : t.service = true → t.child = true →
      EntityMove failFast (.active t) [] (some (.service t))
  | record (t : ActiveTask) (run : Run) (durationMs : Option Nat) : t.child = false →
      (t.failures = [] → t.commands = []) →
      EntityMove failFast (.active t) [run.terminal (t.job.snapshot t.verdict.1 durationMs)] none
  | defer (t : ActiveTask) (effect : Effect) : t.child = false → effect.position? = none →
      t.recoveryCommands.isSome = true → EntityMove failFast (.active t) [effect] (some (.pending t))
  | stop (t : ActiveTask) (run : Run) (durationMs : Option Nat) :
      EntityMove failFast (.active t)
        (t.killEffects ++ [run.terminal (t.job.snapshot .cancelled durationMs)]) none
  | skip (e : Entity) (task : TaskPlan) (run : Run) : e = .planned task ∨ e = .queued task →
      EntityMove failFast e [run.terminal (task.job.snapshot .cancelled none)] none
  | service (s s' : ActiveTask) (effects : List Effect) (results : Results) (state : TaskState)
      (outcome : TaskOutcome) : ServiceMove s effects (some s') results state outcome →
      EntityMove failFast (.service s) effects (some (.service s'))
  | serviceLeft (s : ActiveTask) (effects : List Effect) (results : Results) (state : TaskState)
      (outcome : TaskOutcome) (run : Run) (durationMs : Option Nat) :
      ServiceMove s effects none results state outcome →
      EntityMove failFast (.service s)
        (effects ++ [run.terminal (s.job.snapshot state durationMs)]) none
  | retire (s : ActiveTask) : EntityMove failFast (.service s) s.killEffects none
  | keep (t : ActiveTask) (run : Run) (durationMs : Option Nat) : t.failures ≠ [] →
      EntityMove failFast (.pending t) [run.terminal (t.job.snapshot t.verdict.1 durationMs)] none
  | recover (t : ActiveTask) (commands : List CommandLine) (run : Run) :
      t.recoveryCommands = some commands →
      EntityMove failFast (.pending t) [run.recoveryStarted t] (some (.recovering
        ⟨.recovery, { t with recoveryCommands := none }.restart commands, t.failures⟩))
  | recovering (r : Recovering) (t' : ActiveTask) (effects : List Effect) :
      r.task.Admissible r.phase true → TaskChange r.phase r.task effects t' →
      EntityMove failFast (.recovering r) effects (some (.recovering { r with task := t' }))
  | recoveryFailed (t : ActiveTask) (original : List String) (run : Run) (durationMs : Option Nat) :
      t.child = false →
      EntityMove failFast (.recovering ⟨.recovery, t, original⟩)
        [run.terminal (t.job.snapshot .failed durationMs)] none
  | verify (t : ActiveTask) (original : List String) : t.child = false → t.failures = [] →
      EntityMove failFast (.recovering ⟨.recovery, t, original⟩) []
        (some (.recovering ⟨.verification, t.restart t.originalCommands, original⟩))
  | verified (t : ActiveTask) (original : List String) (run : Run) (durationMs : Option Nat) :
      t.child = false → (t.failures = [] → t.commands = [] ∨ t.service = true) →
      EntityMove failFast (.recovering ⟨.verification, t, original⟩)
        [run.verificationFinished t, run.terminal (t.job.snapshot t.verdict.1 durationMs)] none
  | interrupt (r : Recovering) :
      EntityMove failFast (.recovering r) r.task.killEffects (some (.pending r.task.stopped))

theorem ActiveTask.killEffects_owned (t : ActiveTask) :
    ∀ x ∈ t.killEffects, x.position? = some t.position := by
  unfold ActiveTask.killEffects
  split <;> simp [Effect.position?]

theorem ServiceMove.owns {s : ActiveTask} {effects : List Effect} {s' : Option ActiveTask}
    {results : Results} {state : TaskState} {outcome : TaskOutcome}
    (h : ServiceMove s effects s' results state outcome) :
    ∀ x ∈ effects, x.position? = some s.position := by
  cases h <;> simp [Effect.position?, ActiveTask.proc, ActiveTask.take]

theorem EntityMove.position_eq {failFast : Bool} {e e' : Entity} {effects : List Effect}
    (h : EntityMove failFast e effects (some e')) : e'.position = e.position := by
  cases h with
  | task t t' _ _ hchange => exact hchange.position_eq
  | recovering r t' _ _ hchange => exact hchange.position_eq
  | service s s' _ _ _ _ hmove => cases hmove <;> rfl
  | _ => rfl

theorem EntityMove.owns {failFast : Bool} {e : Entity} {effects : List Effect} {e' : Option Entity}
    (h : EntityMove failFast e effects e') :
    ∀ x ∈ effects, x.position? = none ∨ x.position? = some e.position := by
  have hlast : ∀ (run : Run) (job : JobId) state durationMs,
      (run.terminal (job.snapshot state durationMs)).position? = some job.position := by
    intros; rfl
  cases h with
  | task t t' _ _ hchange => exact hchange.owns
  | recovering r t' _ _ hchange => exact hchange.owns
  | service s s' _ _ _ _ hmove => exact fun x hx => .inr (hmove.owns x hx)
  | serviceLeft s _ _ _ _ run durationMs hmove =>
    intro x hx
    rcases List.mem_append.mp hx with hx | hx
    · exact .inr (hmove.owns x hx)
    · rw [List.mem_singleton.mp hx]; exact .inr (hlast _ _ _ _)
  | stop t run durationMs =>
    intro x hx
    rcases List.mem_append.mp hx with hx | hx
    · exact .inr (t.killEffects_owned x hx)
    · rw [List.mem_singleton.mp hx]; exact .inr (hlast _ _ _ _)
  | retire s => exact fun x hx => .inr (s.killEffects_owned x hx)
  | interrupt r => exact fun x hx => .inr (r.task.killEffects_owned x hx)
  | defer t effect _ hnone _ => exact fun x hx => .inl (by rw [List.mem_singleton.mp hx, hnone])
  | skip _ task run he =>
    intro x hx
    rw [List.mem_singleton.mp hx]
    rcases he with rfl | rfl <;> exact .inr (hlast _ _ _ _)
  | verified t original run durationMs _ =>
    intro x hx
    rcases List.mem_pair.mp hx with rfl | rfl
    · exact .inl rfl
    · exact .inr (hlast _ _ _ _)
  | record | keep | recoveryFailed =>
    exact fun x hx => .inr (by rw [List.mem_singleton.mp hx]; exact hlast _ _ _ _)
  | recover t commands run _ => exact fun x hx => .inl (by rw [List.mem_singleton.mp hx]; rfl)
  | fill | park | verify => simp

/-- The jobs of a run as the parts of a system. -/
def jobs (failFast : Bool) : Cast Entity Effect Nat where
  place := Entity.position
  key := Effect.position?
  Move := EntityMove failFast
  stays h := h.position_eq
  owns h := h.owns

def View.board (v : View) : Board.State Entity Effect := ⟨v.entities, v.trace⟩

/-! ### Moves of the run -/

/-- The view after the next stage was opened. -/
def View.begun (v : View) (stage : Stage) (rest : List Stage) (limit : Nat) : View :=
  { v with
    run := { v.run with
      stages := rest, queued := v.run.queued ++ stageTasks stage, stageLimit := limit }
    trace := v.trace ++ [.stage (stageTasks stage) limit] }

/-- When a stage may be opened: the one before it has nothing left, not even a recovery. -/
structure View.Begins (v : View) (stage : Stage) (rest : List Stage) (limit : Nat) : Prop where
  drained : v.run.Drained
  resolved : v.run.pendingRecoveries = []
  idle : v.recovering = none
  next : v.run.stages = stage :: rest
  admits : v.run.AdmitsLimit stage limit

/-- The entities of the run with some of its containers replaced. -/
def View.without (v : View) (queued : List TaskPlan) (active services pending : List ActiveTask)
    (recovering : Option Recovering) : List Entity :=
  ({ v with
    run := { v.run with queued, active, services, pendingRecoveries := pending }
    recovering } : View).entities

/-- A silent move: the entities are the same up to order, and the effect belongs to no job. -/
theorem View.steps_noise {failFast : Bool} {v v' : View} (hentities : v'.entities.Perm v.entities)
    (htrace : v'.trace = v.trace ∨ ∃ x : Effect, x.position? = none ∧ v'.trace = v.trace ++ [x]) :
    Steps (jobs failFast) v.board v'.board := by
  have hshuffle : ∀ trace, Board.Step (jobs failFast) ⟨v.entities, trace⟩ ⟨v'.entities, trace⟩ :=
    fun trace => .shuffle _ _ hentities
  rcases htrace with heq | ⟨x, hx, heq⟩
  · simp only [View.board, heq]
    exact .single (hshuffle _)
  · simp only [View.board, heq]
    exact .tail (.single (.noise ⟨v.entities, v.trace⟩ x hx)) (hshuffle _)

/-- A move of the run opens a stage or is a sequence of moves of single entities. -/
theorem Move.entities {failFast : Bool} {v v' : View} (h : Move failFast v v') :
    (∃ stage rest limit, v.Begins stage rest limit ∧ v' = v.begun stage rest limit) ∨
      Steps (jobs failFast) v.board v'.board := by
  cases h with
  | begin stage rest limit hdrained hresolved hidle _ hnext hadmits =>
    exact .inl ⟨stage, rest, limit, ⟨hdrained, hresolved, hidle, hnext, hadmits⟩, rfl⟩
  | note | ask | decide => exact .inr (View.steps_noise .rfl (.inr ⟨_, rfl, rfl⟩))
  | signal => exact .inr (View.steps_noise .rfl (.inl rfl))
  | sort pending hperm =>
    exact .inr (View.steps_noise (((hperm.map _).append_left _).append_right _) (.inl rfl))
  | fill task rest hqueued _ =>
    refine .inr (Steps.move (b := v.board) (EntityMove.fill task)
      (v.without rest v.run.active v.run.services v.run.pendingRecoveries v.recovering) ?_ ?_ (List.append_nil _).symm)
    · simp only [View.board, View.without, View.entities, hqueued]
      exact List.perm_iff_count.mpr fun e => by simp [List.count_cons]; omega
    · simp only [View.board, View.without, View.entities]
      exact List.perm_iff_count.mpr fun e => by simp [List.count_cons]; omega
  | task seen rest t t' results trace hactive _ hadm hmove =>
    obtain ⟨effects, htrace, hchange⟩ := hmove.change
    refine .inr (Steps.move (b := v.board) (EntityMove.task t t' effects hadm hchange)
      (v.without v.run.queued (seen ++ rest) v.run.services v.run.pendingRecoveries v.recovering) ?_ ?_ htrace)
    · simp only [View.board, View.without, View.entities, hactive]
      exact List.perm_iff_count.mpr fun e => by simp [List.count_cons]; omega
    · simp only [View.board, View.without, View.entities]
      exact List.perm_iff_count.mpr fun e => by simp [List.count_cons]; omega
  | park seen rest t hactive hservice hchild =>
    refine .inr (Steps.move (b := v.board) (EntityMove.park t hservice hchild)
      (v.without v.run.queued (seen ++ rest) v.run.services v.run.pendingRecoveries v.recovering) ?_ ?_ (List.append_nil _).symm)
    · simp only [View.board, View.without, View.entities, hactive]
      exact List.perm_iff_count.mpr fun e => by simp [List.count_cons]; omega
    · simp only [View.board, View.without, View.entities]
      exact List.perm_iff_count.mpr fun e => by simp [List.count_cons]; omega
  | record seen rest t durationMs hactive hchild _ _ hleft =>
    refine .inr (Steps.move (b := v.board) (EntityMove.record t v.run durationMs hchild hleft)
      (v.without v.run.queued (seen ++ rest) v.run.services v.run.pendingRecoveries v.recovering) ?_ ?_ rfl)
    · simp only [View.board, View.without, View.entities, hactive]
      exact List.perm_iff_count.mpr fun e => by simp [List.count_cons]; omega
    · exact .rfl
  | defer seen rest t hactive hchild _ hsome =>
    refine .inr (Steps.move (b := v.board) (EntityMove.defer t _ hchild rfl hsome)
      (v.without v.run.queued (seen ++ rest) v.run.services v.run.pendingRecoveries v.recovering) ?_ ?_ rfl)
    · simp only [View.board, View.without, View.entities, hactive]
      exact List.perm_iff_count.mpr fun e => by simp [List.count_cons]; omega
    · simp only [View.board, View.without, View.entities]
      exact List.perm_iff_count.mpr fun e => by simp [List.count_cons]; omega
  | stop t rest durationMs _ _ hactive =>
    refine .inr (Steps.move (b := v.board) (EntityMove.stop t v.run durationMs)
      (v.without v.run.queued rest v.run.services v.run.pendingRecoveries v.recovering) ?_ ?_ (List.append_assoc _ _ _))
    · simp only [View.board, View.without, View.entities, hactive]
      exact List.perm_iff_count.mpr fun e => by simp [List.count_cons]; omega
    · exact .rfl
  | service kept rest s s' effects results state outcome hservices _ hmove =>
    refine .inr (Steps.move (b := v.board) (EntityMove.service s s' effects results state outcome hmove)
      (v.without v.run.queued v.run.active (kept ++ rest) v.run.pendingRecoveries v.recovering) ?_ ?_ rfl)
    · simp only [View.board, View.without, View.entities, hservices]
      exact List.perm_iff_count.mpr fun e => by simp [List.count_cons]; omega
    · simp only [View.board, View.without, View.entities]
      exact List.perm_iff_count.mpr fun e => by simp [List.count_cons]; omega
  | serviceLeft kept rest s effects results state outcome durationMs hservices _ hmove =>
    refine .inr (Steps.move (b := v.board) (EntityMove.serviceLeft s effects results state outcome v.run durationMs hmove)
      (v.without v.run.queued v.run.active (kept ++ rest) v.run.pendingRecoveries v.recovering) ?_ ?_ (List.append_assoc _ _ _))
    · simp only [View.board, View.without, View.entities, hservices]
      exact List.perm_iff_count.mpr fun e => by simp [List.count_cons]; omega
    · exact .rfl
  | keep t rest durationMs _ _ _ hpending hfailed =>
    refine .inr (Steps.move (b := v.board) (EntityMove.keep t v.run durationMs hfailed)
      (v.without v.run.queued v.run.active v.run.services rest v.recovering) ?_ ?_ rfl)
    · simp only [View.board, View.without, View.entities, hpending]
      exact List.perm_iff_count.mpr fun e => by simp [List.count_cons]; omega
    · exact .rfl
  | recover t rest commands _ hrec _ _ _ hpending hcommands =>
    refine .inr (Steps.move (b := v.board) (EntityMove.recover t commands v.run hcommands)
      (v.without v.run.queued v.run.active v.run.services rest none) ?_ ?_ rfl)
    · simp only [View.board, View.without, View.entities, hpending, hrec]
      exact List.perm_iff_count.mpr fun e => by simp [List.count_cons]; omega
    · simp only [View.board, View.without, View.entities]
      exact List.perm_iff_count.mpr fun e => by simp [List.count_cons]; omega
  | recovering r t' results results' trace hrec hadm hmove =>
    obtain ⟨effects, htrace, hchange⟩ := hmove.change
    refine .inr (Steps.move (b := v.board) (EntityMove.recovering r t' effects hadm hchange)
      (v.without v.run.queued v.run.active v.run.services v.run.pendingRecoveries none) ?_ ?_ htrace)
    · simp only [View.board, View.without, View.entities, hrec]
      exact List.perm_iff_count.mpr fun e => by simp [List.count_cons]; omega
    · simp only [View.board, View.without, View.entities]
      exact List.perm_iff_count.mpr fun e => by simp [List.count_cons]; omega
  | recoveryFailed t original failure durationMs hrec hchild _ =>
    refine .inr (Steps.move (b := v.board) (EntityMove.recoveryFailed t original v.run durationMs hchild)
      (v.without v.run.queued v.run.active v.run.services v.run.pendingRecoveries none) ?_ ?_ rfl)
    · simp only [View.board, View.without, View.entities, hrec]
      exact List.perm_iff_count.mpr fun e => by simp [List.count_cons]; omega
    · exact .rfl
  | verify t original hrec hchild hpassed =>
    refine .inr (Steps.move (b := v.board) (EntityMove.verify t original hchild hpassed)
      (v.without v.run.queued v.run.active v.run.services v.run.pendingRecoveries none) ?_ ?_ (List.append_nil _).symm)
    · simp only [View.board, View.without, View.entities, hrec]
      exact List.perm_iff_count.mpr fun e => by simp [List.count_cons]; omega
    · simp only [View.board, View.without, View.entities]
      exact List.perm_iff_count.mpr fun e => by simp [List.count_cons]; omega
  | verified t original fallback durationMs hrec hchild hleft =>
    refine .inr (Steps.move (b := v.board) (EntityMove.verified t original v.run durationMs hchild hleft)
      (v.without v.run.queued v.run.active v.run.services v.run.pendingRecoveries none) ?_ ?_ rfl)
    · simp only [View.board, View.without, View.entities, hrec]
      exact List.perm_iff_count.mpr fun e => by simp [List.count_cons]; omega
    · exact .rfl
  | interrupt r hrec _ =>
    refine .inr (Steps.move (b := v.board) (EntityMove.interrupt r)
      (v.without v.run.queued v.run.active v.run.services v.run.pendingRecoveries none) ?_ ?_ rfl)
    · simp only [View.board, View.without, View.entities, hrec]
      exact List.perm_iff_count.mpr fun e => by simp [List.count_cons]; omega
    · simp only [View.board, View.without, View.entities]
      exact List.perm_iff_count.mpr fun e => by simp [List.count_cons]; omega
  | skipQueued _ _ _ =>
    refine .inr (Steps.leave Entity.queued
      (fun t : TaskPlan => [v.run.terminal (t.job.snapshot .cancelled none)]) v.run.queued
      (fun t _ => EntityMove.skip _ t v.run (.inr rfl)) ?_ ?_)
    · simp only [View.board, View.entities]
      exact List.perm_iff_count.mpr fun e => by simp; omega
    · exact congrArg (v.trace ++ ·) List.map_eq_flatMap
  | skipStages _ _ _ =>
    refine .inr (Steps.leave Entity.planned
      (fun t : TaskPlan => [v.run.terminal (t.job.snapshot .cancelled none)])
      (v.run.stages.flatMap stageTasks)
      (fun t _ => EntityMove.skip _ t v.run (.inl rfl)) ?_ ?_)
    · simp only [View.board, View.entities]
      exact List.perm_iff_count.mpr fun e => by simp
    · exact congrArg (v.trace ++ ·) List.map_eq_flatMap

/-- Stopping services by a reload is a sequence of moves of those services. -/
theorem View.steps_reconciled (failFast : Bool) (v : View) (stopNames : List String) :
    Steps (jobs failFast) v.board (v.reconciled stopNames).board := by
  refine Steps.leave Entity.service ActiveTask.killEffects
    (v.run.services.filter fun t => stopNames.contains t.name) (fun s _ => EntityMove.retire s) ?_ rfl
  have hsplit : (v.run.services.filter (fun t => stopNames.contains t.name)
      ++ v.run.services.filter fun t => !stopNames.contains t.name).Perm v.run.services :=
    List.filter_append_perm _ _
  have hcount := List.perm_iff_count.mp (hsplit.map Entity.service)
  simp only [List.map_append, List.count_append] at hcount
  refine List.perm_iff_count.mpr fun e => ?_
  have := hcount e
  simp only [View.board, View.entities, View.reconciled, List.count_append] at this ⊢
  omega

theorem View.entities_appended (v : View) (stages : List Stage) :
    (v.appended stages).entities.Perm
      ((stages.flatMap stageTasks).map .planned ++ v.entities) := by
  simp only [View.entities, View.appended]
  exact List.perm_iff_count.mpr fun e => by simp; omega

end Funzzy
