import Funzzy.Executor.Gate

/-! The final verdicts on recovered jobs (`executor.rs`, `approval.rs`).

    A recovery and its verification are passes over a list of commands that stop at the first command
    that does not exit with zero. What a pass leaves of a job is a function of its commands and of how
    they ended; `resolveRecoveries` is described by one attempt for each pending job, tied to the trace by
    the endings and the decision in it and to the run by the outcomes it records. -/

namespace Funzzy

variable {W : Type}

/-! ### Passes -/

/-- How a command ended. -/
inductive Ending where
  | exited (status : ExitStatus)
  | notStarted (error : String)
  | waitFailed (error : String)
  deriving DecidableEq

def Ending.exitedZero : Ending → Bool
  | .exited status => status.success
  | .notStarted _ | .waitFailed _ => false

/-- The failure a command is reported with. -/
def Ending.failure (command : CommandLine) : Ending → String
  | .exited status => "Command " ++ command.display ++ " has failed with " ++ status.text
  | .notStarted error => "Command " ++ command.display ++ " failed to start: " ++ error
  | .waitFailed error => "Command " ++ command.display ++ " has errored with " ++ error

/-- The pass, the job and the ending an effect is about. -/
def Effect.ending? : Effect → Option (Phase × Nat × Ending)
  | .exited proc status => some (proc.phase, proc.position, .exited status)
  | .spawnFailed proc _ error => some (proc.phase, proc.position, .notStarted error)
  | .waitFailed proc error => some (proc.phase, proc.position, .waitFailed error)
  | _ => none

def endingsOf (trace : List Effect) : List (Phase × Nat × Ending) := trace.filterMap Effect.ending?

/-- Every command of a list was run and exited with zero. -/
def AllExitedZero (commands : List CommandLine) (endings : List Ending) : Prop :=
  endings.length = commands.length ∧ ∀ ending ∈ endings, ending.exitedZero = true

instance (commands : List CommandLine) (endings : List Ending) :
    Decidable (AllExitedZero commands endings) :=
  inferInstanceAs (Decidable (_ ∧ _))

/-- The failures of a pass: that of the first command that did not exit with zero. -/
def passFailures : List CommandLine → List Ending → List String
  | command :: commands, ending :: endings =>
    if ending.exitedZero then passFailures commands endings else [ending.failure command]
  | _, _ => []

theorem passFailures_append (done left : List CommandLine) : ∀ (endings rest : List Ending),
    endings.length = done.length → (∀ ending ∈ endings, ending.exitedZero = true) →
    passFailures (done ++ left) (endings ++ rest) = passFailures left rest := by
  induction done with
  | nil =>
    intro endings rest hlength _
    rw [List.length_eq_zero_iff.mp hlength]
    rfl
  | cons command done ih =>
    intro endings rest hlength hzero
    cases endings with
    | nil => cases hlength
    | cons ending endings =>
      rw [List.cons_append, List.cons_append, passFailures, if_pos (hzero _ List.mem_cons_self)]
      exact ih endings rest (Nat.succ.inj hlength) fun e he => hzero e (List.mem_cons_of_mem _ he)

/-- Where a pass stands: between two commands, in a command, or behind one that did not exit with zero. -/
inductive PassState (commands : List CommandLine) : List Ending → ActiveTask → Prop
  | between (done : List CommandLine) (endings : List Ending) (task : ActiveTask) :
      commands = done ++ task.commands → endings.length = done.length →
      (∀ ending ∈ endings, ending.exitedZero = true) → task.failures = [] → task.child = false →
      PassState commands endings task
  | within (done : List CommandLine) (command : CommandLine) (endings : List Ending)
      (task : ActiveTask) :
      commands = done ++ command :: task.commands → endings.length = done.length →
      (∀ ending ∈ endings, ending.exitedZero = true) → task.failures = [] → task.child = true →
      task.currentCommand = some command.display → PassState commands endings task
  | failed (done : List CommandLine) (command : CommandLine) (left : List CommandLine)
      (endings : List Ending) (ending : Ending) (task : ActiveTask) :
      commands = done ++ command :: left → endings.length = done.length →
      (∀ ending ∈ endings, ending.exitedZero = true) → ending.exitedZero = false →
      task.failures = [ending.failure command] → task.child = false →
      PassState commands (endings ++ [ending]) task

/-- The failures are those of the pass so far, whatever has ended. -/
theorem PassState.failures_eq {commands : List CommandLine} {endings : List Ending} {task : ActiveTask}
    (h : PassState commands endings task) : task.failures = passFailures commands endings := by
  cases h with
  | between done _ _ hcommands hlength hzero hfailures =>
    have := passFailures_append done task.commands endings [] hlength hzero
    rw [List.append_nil] at this
    rw [hfailures, hcommands, this]
    cases task.commands <;> rfl
  | within done command _ _ hcommands hlength hzero hfailures =>
    have := passFailures_append done (command :: task.commands) endings [] hlength hzero
    rw [List.append_nil] at this
    rw [hfailures, hcommands, this]
    rfl
  | failed done command left endings ending _ hcommands hlength hzero hnot hfailures =>
    rw [hfailures, hcommands, passFailures_append done _ endings _ hlength hzero, passFailures,
      if_neg (by rw [hnot]; decide)]

/-- A pass that has ended has no failure exactly if all its commands exited with zero. -/
theorem PassState.passed_iff {commands : List CommandLine} {endings : List Ending} {task : ActiveTask}
    (h : PassState commands endings task) (hended : task.commands = [] ∧ task.child = false ∨
      task.failures ≠ []) : passFailures commands endings = [] ↔ AllExitedZero commands endings := by
  have hfailures := h.failures_eq
  cases h with
  | between done _ _ hcommands hlength hzero hnone =>
    refine iff_of_true (hfailures.symm.trans hnone) ⟨?_, hzero⟩
    rcases hended with ⟨hempty, -⟩ | hfailed
    · rw [hcommands, hempty, List.append_nil]
      exact hlength
    · exact absurd hnone hfailed
  | within done command _ _ hcommands hlength hzero hnone hchild =>
    rcases hended with ⟨-, hno⟩ | hfailed
    · rw [hchild] at hno
      cases hno
    · exact absurd hnone hfailed
  | failed done command left endings ending _ hcommands hlength hzero hnot hone =>
    refine iff_of_false ?_ fun hall => ?_
    · rw [← hfailures, hone]
      exact List.cons_ne_nil _ _
    · have := hall.2 ending (List.mem_append_right _ (List.mem_singleton.mpr rfl))
      rw [hnot] at this
      cases this

/-- What a pass leaves alone of its job. -/
structure ActiveTask.SameJob (task job : ActiveTask) : Prop where
  name : task.name = job.name
  position : task.position = job.position
  groupOccurrence : task.groupOccurrence = job.groupOccurrence
  originalCommands : task.originalCommands = job.originalCommands
  service : task.service = job.service
  contextValidated : task.contextValidated = job.contextValidated

theorem ActiveTask.SameJob.refl (task : ActiveTask) : task.SameJob task := ⟨rfl, rfl, rfl, rfl, rfl, rfl⟩

theorem ActiveTask.SameJob.trans {a b c : ActiveTask} (h : a.SameJob b) (h' : b.SameJob c) :
    a.SameJob c :=
  ⟨h.name.trans h'.name, h.position.trans h'.position, h.groupOccurrence.trans h'.groupOccurrence,
    h.originalCommands.trans h'.originalCommands, h.service.trans h'.service,
    h.contextValidated.trans h'.contextValidated⟩

theorem ActiveTask.SameJob.reporting {task job : ActiveTask} (h : task.SameJob job)
    (failures : List String) : ActiveTask.SameJob { task with failures } job :=
  ⟨h.name, h.position, h.groupOccurrence, h.originalCommands, h.service, h.contextValidated⟩

/-- A job in a pass over `commands`, with the endings of the pass behind those of `base`. -/
structure InPass (phase : Phase) (commands : List CommandLine) (job : ActiveTask)
    (base : List (Phase × Nat × Ending)) (w : Work) : Prop where
  stands : ∃ endings, PassState commands endings w.task ∧
    endingsOf w.trace = base ++ endings.map fun ending => (phase, job.position, ending)
  same : w.task.SameJob job

theorem endingsOf_append (a b : List Effect) : endingsOf (a ++ b) = endingsOf a ++ endingsOf b :=
  List.filterMap_append

/-- Step lemma: a move of a finite job that has been checked keeps it in its pass. -/
theorem TaskMove.inPass {phase : Phase} {commands : List CommandLine} {job : ActiveTask}
    {base : List (Phase × Nat × Ending)} {w w' : Work} (h : TaskMove phase w w')
    (hfailures : w.task.failures = []) (hservice : job.service = false)
    (hvalid : job.contextValidated = true) (hpass : InPass phase commands job base w) :
    InPass phase commands job base w' := by
  obtain ⟨⟨endings, hstate, htrace⟩, hsame⟩ := hpass
  have hchecked : w.task.contextValidated = true := hsame.contextValidated.trans hvalid
  have hfinite : w.task.service = false := hsame.service.trans hservice
  have hkeeps : ∀ task : ActiveTask, task.SameJob w.task → task.SameJob job := fun _ h => h.trans hsame
  -- a command of the pass ends without an exit code of zero
  have hfails : ∀ (ending : Ending) (left : List CommandLine) {done : List CommandLine}
      {command : CommandLine} {task : ActiveTask} {effect : Effect} {results : Results},
      commands = done ++ command :: left → endings.length = done.length →
      (∀ e ∈ endings, e.exitedZero = true) → ending.exitedZero = false →
      task.failures = [ending.failure command] → task.child = false → task.SameJob w.task →
      effect.ending? = some (phase, w.task.position, ending) →
      InPass phase commands job base ⟨task, results, w.trace ++ [effect]⟩ := by
    intro ending left done command task effect results hcommands hlength hzero hnot hfailed hchild
      htask heffect
    refine ⟨⟨endings ++ [ending], .failed done command left endings ending task hcommands hlength hzero
      hnot hfailed hchild, ?_⟩, hkeeps task htask⟩
    rw [endingsOf_append, htrace, endingsOf, List.filterMap_cons, heffect, List.map_append,
      List.append_assoc, hsame.position]
    rfl
  cases h with
  | validate hfresh => rw [hchecked] at hfresh; cases hfresh
  | invalid failure hfresh => rw [hchecked] at hfresh; cases hfresh
  | spawned command rest now _ hchild hcommands =>
    refine ⟨⟨endings, ?_, ?_⟩, hkeeps _ ⟨rfl, rfl, rfl, rfl, rfl, rfl⟩⟩
    · cases hstate with
      | between done _ _ hall hlength hzero hnone =>
        exact .within done command endings _ (by rw [hall, hcommands]; rfl) hlength hzero hnone rfl rfl
      | within done _ _ _ _ _ _ _ hbusy => rw [hchild] at hbusy; cases hbusy
      | failed done _ _ _ _ _ _ _ _ _ hfailed => rw [hfailures] at hfailed; cases hfailed
    · rw [endingsOf_append, htrace]
      exact List.append_nil _
  | spawnFailed command rest error _ hchild hcommands =>
    cases hstate with
    | between done _ _ hall hlength hzero hnone =>
      refine hfails (.notStarted error) rest (hall.trans (by rw [hcommands])) hlength hzero rfl ?_ rfl
        ⟨rfl, rfl, rfl, rfl, rfl, rfl⟩ rfl
      change w.task.failures ++ [_] = _
      rw [hnone]
      rfl
    | within done _ _ _ _ _ _ _ hbusy => rw [hchild] at hbusy; cases hbusy
    | failed done _ _ _ _ _ _ _ _ _ hfailed => rw [hfailures] at hfailed; cases hfailed
  | tick hchild =>
    refine ⟨⟨endings, hstate, ?_⟩, hsame⟩
    rw [endingsOf_append, htrace]
    exact List.append_nil _
  | passed status hchild hstatus =>
    cases hstate with
    | between done _ _ _ _ _ _ hidle => rw [hchild] at hidle; cases hidle
    | within done command _ _ hall hlength hzero hnone =>
      refine ⟨⟨endings ++ [.exited status], .between (done ++ [command]) _ _ ?_ ?_ ?_ hnone rfl, ?_⟩,
        hkeeps _ ⟨rfl, rfl, rfl, rfl, rfl, rfl⟩⟩
      · rw [hall, List.append_assoc]
        rfl
      · simp [hlength]
      · intro ending hending
        rcases List.mem_append.mp hending with hold | hnew
        · exact hzero ending hold
        · rw [List.mem_singleton.mp hnew]
          exact hstatus
      · rw [endingsOf_append, htrace, List.map_append, List.append_assoc, ← hsame.position]
        rfl
    | failed done _ _ _ _ _ _ _ _ _ hfailed => rw [hfailures] at hfailed; cases hfailed
  | failed status hchild hstatus =>
    cases hstate with
    | between done _ _ _ _ _ _ hidle => rw [hchild] at hidle; cases hidle
    | within done command _ _ hall hlength hzero hnone _ hcurrent =>
      refine hfails (.exited status) w.task.commands hall hlength hzero hstatus ?_ rfl
        ⟨rfl, rfl, rfl, rfl, rfl, rfl⟩ rfl
      change w.task.failures ++ [_] = _
      rw [hnone, hcurrent]
      rfl
    | failed done _ _ _ _ _ _ _ _ _ hfailed => rw [hfailures] at hfailed; cases hfailed
  | errored error hchild =>
    cases hstate with
    | between done _ _ _ _ _ _ hidle => rw [hchild] at hidle; cases hidle
    | within done command _ _ hall hlength hzero hnone _ hcurrent =>
      refine hfails (.waitFailed error) w.task.commands hall hlength hzero rfl ?_ rfl
        ⟨rfl, rfl, rfl, rfl, rfl, rfl⟩ rfl
      change w.task.failures ++ [_] = _
      rw [hnone, hcurrent]
      rfl
    | failed done _ _ _ _ _ _ _ _ _ hfailed => rw [hfailures] at hfailed; cases hfailed
  | serviceStopped status _ _ hyes => rw [hfinite] at hyes; cases hyes
  | serviceRestarted status _ _ hyes => rw [hfinite] at hyes; cases hyes
  | serviceExhausted status failure _ _ hyes => rw [hfinite] at hyes; cases hyes

/-- Run lemma: so do all the moves of a call. -/
theorem TaskMoves.inPass {phase : Phase} {commands : List CommandLine} {job : ActiveTask}
    {base : List (Phase × Nat × Ending)} {w w' : Work} (h : TaskMoves phase true w w')
    (hservice : job.service = false) (hvalid : job.contextValidated = true)
    (hpass : InPass phase commands job base w) : InPass phase commands job base w' := by
  induction h with
  | refl => exact hpass
  | tail _ hmove ih => exact hmove.1.inPass (hmove.2.unfailed rfl) hservice hvalid ih

/-- What a pass that is done leaves of its job. -/
structure PassDone (phase : Phase) (commands : List CommandLine) (job task : ActiveTask)
    (trace trace' : List Effect) (endings : List Ending) : Prop where
  failures : task.failures = passFailures commands endings
  passed : passFailures commands endings = [] ↔ AllExitedZero commands endings
  traced : endingsOf trace' = endingsOf trace ++ endings.map fun e => (phase, job.position, e)
  undecided : lastDecision trace' = lastDecision trace
  same : task.SameJob job

theorem awaitTask_inPass (env : Env W) {phase : Phase} (hphase : phase ≠ .original)
    {commands : List CommandLine} {job : ActiveTask} {trace : List Effect}
    (hservice : job.service = false) (hvalid : job.contextValidated = true) :
    ∀ (polls : Nat) (io io' : Io W) (task task' : ActiveTask) (results : Results),
      InPass phase commands job (endingsOf trace) ⟨task, results, io.trace⟩ → task.failures = [] →
      lastDecision io.trace = lastDecision trace →
      awaitTask env phase polls io task results = (io', task', .done) →
      ∃ endings, PassDone phase commands job task' trace io'.trace endings := by
  intro polls
  induction polls with
  | zero =>
    intro io io' task task' results _ _ _ h
    cases h
  | succ polls ih =>
    intro io io' task task' results hpass hfailures hundecided h
    have hchecked : task.contextValidated = true := hpass.same.contextValidated.trans hvalid
    have hmoved := advanceTask_moved env phase true io task results
      (fun h => by rw [hchecked] at h; cases h) ⟨fun _ => hfailures, fun h => absurd h hphase⟩
    rw [awaitTask] at h
    rcases hr : advanceTask env phase true io task results with ⟨io₁, task₁, results₁, step⟩
    rw [hr] at hmoved h
    have hnext := hmoved.moves.inPass hservice hvalid hpass
    have hundecided₁ : lastDecision io₁.trace = lastDecision trace :=
      hmoved.moves.lastDecision_eq.trans hundecided
    have hended : task₁.commands = [] ∧ task₁.child = false ∨ task₁.failures ≠ [] →
        ∃ endings, PassDone phase commands job task₁ trace io₁.trace endings := by
      intro hdone
      obtain ⟨⟨endings, hstate, htrace⟩, hsame⟩ := hnext
      exact ⟨endings, hstate.failures_eq, hstate.passed_iff hdone, htrace, hundecided₁, hsame⟩
    cases step with
    | finished =>
      cases h
      obtain ⟨hchild, hempty | hyes⟩ := hmoved.describes
      · exact hended (.inl ⟨hempty, hchild⟩)
      · rw [hnext.same.service, hservice] at hyes
        cases hyes
    | failedFast =>
      cases h
      exact hended (.inr hmoved.describes.2.1)
    | running =>
      dsimp only at h
      have htrace : (io₁.cancellationRequested env).2.trace = io₁.trace := rfl
      rcases hc : io₁.cancellationRequested env with ⟨set, io₂⟩
      rw [hc] at h htrace
      cases set with
      | true => cases h
      | false =>
        have htrace₂ : io₂.trace = io₁.trace := htrace
        refine ih io₂ io' task₁ task' results₁ ?_ (hmoved.describes.2.2 rfl) ?_ h
        · rwa [htrace₂]
        · rwa [htrace₂]

/-! ### Recoveries -/

/-- A failed job whose recovery is pending. -/
structure ActiveTask.AwaitsRecovery (task : ActiveTask) : Prop where
  failed : task.failures ≠ []
  recoverable : task.recoveryCommands.isSome = true
  finite : task.service = false
  checked : task.contextValidated = true

/-- A job that has failed has been checked, and a job with a recovery is finite. -/
structure ActiveTask.Vetted (task : ActiveTask) : Prop where
  finite : task.recoveryCommands.isSome = true → task.service = false
  checked : task.contextValidated = false → task.failures = [] ∧ task.child = false

theorem TaskMove.vetted {phase : Phase} {w w' : Work} (h : TaskMove phase w w')
    (hw : w.task.Vetted) : w'.task.Vetted := by
  have hrunning : w.task.child = true → w.task.contextValidated = true := by
    intro hchild
    by_contra hnot
    have := (hw.checked (Bool.eq_false_of_not_eq_true hnot)).2
    rw [hchild] at this
    cases this
  have hvalid : ∀ {P : Prop}, w.task.contextValidated = true → w.task.contextValidated = false → P := by
    intro P hyes hno
    rw [hyes] at hno
    cases hno
  cases h with
  | validate | invalid => exact ⟨hw.finite, fun h => by cases h⟩
  | spawned _ _ _ hchecked => exact ⟨hw.finite, hvalid hchecked⟩
  | spawnFailed _ _ _ hchecked => exact ⟨hw.finite, hvalid hchecked⟩
  | tick => exact hw
  | passed _ hchild | failed _ hchild | errored _ hchild | serviceStopped _ hchild
  | serviceRestarted _ hchild | serviceExhausted _ _ hchild =>
    exact ⟨hw.finite, hvalid (hrunning hchild)⟩

/-- Every job of the run is vetted, and so is every job it has not started. -/
structure View.Vetted (v : View) : Prop where
  planned : ∀ plan ∈ v.run.stages.flatMap stageTasks ++ v.run.queued,
    plan.recoveryCommands.isSome = true → plan.service = false
  tasks : ∀ task ∈ v.run.active ++ v.run.pendingRecoveries, task.Vetted
  recovering : ∀ r, v.recovering = some r → r.task.Vetted

theorem Move.vetted {failFast : Bool} {v v' : View} (h : Move failFast v v') (hv : v.Vetted) :
    v'.Vetted := by
  obtain ⟨hplanned, htasks, hrecovering⟩ := hv
  -- a job may leave either list, or move from the first to the second
  have hkeep : ∀ active pending : List ActiveTask, active ++ pending ⊆
      v.run.active ++ v.run.pendingRecoveries → ∀ task ∈ active ++ pending, task.Vetted :=
    fun _ _ hsub task htask => htasks task (hsub htask)
  cases h with
  | begin stage rest limit _ _ _ _ hstages =>
    refine ⟨fun plan hplan => hplanned plan ?_, htasks, hrecovering⟩
    rw [hstages]
    simp only [List.flatMap_cons, List.mem_append] at hplan ⊢
    tauto
  | fill task rest hqueued =>
    refine ⟨fun plan hplan => hplanned plan ?_, ?_, hrecovering⟩
    · rw [hqueued]
      simp only [List.mem_append, List.mem_cons] at hplan ⊢
      tauto
    · intro t ht
      simp only [List.mem_append, List.mem_singleton] at ht
      rcases ht with (ht | rfl) | ht
      · exact htasks t (List.mem_append_left _ ht)
      · exact ⟨hplanned task (List.mem_append_right _ (by simp [hqueued])), fun _ => ⟨rfl, rfl⟩⟩
      · exact htasks t (List.mem_append_right _ ht)
  | task seen rest t t' results trace hactive _ _ hmove =>
    refine ⟨hplanned, ?_, hrecovering⟩
    rw [hactive] at htasks
    intro u hu
    simp only [List.mem_append, List.mem_cons] at hu htasks
    rcases hu with (hu | rfl | hu) | hu
    · exact htasks u (.inl (.inl hu))
    · exact hmove.vetted (htasks t (.inl (.inr (.inl rfl))))
    · exact htasks u (.inl (.inr (.inr hu)))
    · exact htasks u (.inr hu)
  | park seen rest t hactive | record seen rest t durationMs hactive =>
    refine ⟨hplanned, hkeep (seen ++ rest) v.run.pendingRecoveries ?_, hrecovering⟩
    rw [hactive]
    intro u hu
    simp only [List.mem_append, List.mem_cons] at hu ⊢
    tauto
  | defer seen rest t hactive =>
    refine ⟨hplanned, hkeep (seen ++ rest) (v.run.pendingRecoveries ++ [t]) ?_, hrecovering⟩
    rw [hactive]
    intro u hu
    simp only [List.mem_append, List.mem_cons] at hu ⊢
    tauto
  | stop t rest durationMs _ _ hactive =>
    refine ⟨hplanned, hkeep rest v.run.pendingRecoveries ?_, hrecovering⟩
    rw [hactive]
    exact List.subset_cons_self _ _
  | skipQueued =>
    exact ⟨fun plan hplan => hplanned plan (by simp_all), htasks, hrecovering⟩
  | skipStages =>
    exact ⟨fun plan hplan => hplanned plan (List.mem_append_right _ hplan), htasks, hrecovering⟩
  | service | serviceLeft | note | signal | ask | decide => exact ⟨hplanned, htasks, hrecovering⟩
  | sort pending hperm =>
    exact ⟨hplanned, hkeep _ pending (hperm.append_left _).subset, hrecovering⟩
  | keep t rest durationMs _ _ _ hpending =>
    refine ⟨hplanned, hkeep v.run.active rest ?_, hrecovering⟩
    rw [hpending]
    intro u hu
    simp only [List.mem_append, List.mem_cons] at hu ⊢
    tauto
  | recover t rest commands _ _ _ _ _ hpending =>
    refine ⟨hplanned, hkeep v.run.active rest ?_, ?_⟩
    · rw [hpending]
      intro u hu
      simp only [List.mem_append, List.mem_cons] at hu ⊢
      tauto
    · rintro r hr
      cases hr
      refine ⟨?_, fun _ => ⟨rfl, rfl⟩⟩
      rintro ⟨⟩
  | recovering r t' results results' trace hr _ hmove =>
    refine ⟨hplanned, htasks, ?_⟩
    rintro r' hr'
    cases hr'
    exact hmove.vetted (hrecovering r hr)
  | recoveryFailed | verified => exact ⟨hplanned, htasks, fun r hr => by cases hr⟩
  | verify t original hr =>
    refine ⟨hplanned, htasks, ?_⟩
    rintro r hr'
    cases hr'
    exact ⟨(hrecovering _ hr).finite, fun _ => ⟨rfl, rfl⟩⟩
  | interrupt r hr =>
    refine ⟨hplanned, ?_, fun r hr => by cases hr⟩
    intro u hu
    simp only [List.mem_append, List.mem_cons] at hu htasks
    rcases hu with hu | rfl | hu
    · exact htasks u (.inl hu)
    · exact ⟨(hrecovering r hr).finite, fun h => ⟨((hrecovering r hr).checked h).1, rfl⟩⟩
    · exact htasks u (.inr hu)

/-- Wherever a run that is not cancelled gets to, its pending jobs await their recovery. -/
theorem Moves.awaitsRecovery {failFast : Bool} {v v' : View} (h : Moves failFast v v')
    (hvetted : v.Vetted) (hready : v.Ready) (htoken : v'.token = false) :
    ∀ task ∈ v'.run.pendingRecoveries, task.AwaitsRecovery := by
  intro task htask
  have hv' : v'.Vetted := h.invariant (fun _ _ hmove => hmove.vetted) hvetted
  obtain ⟨hsome, hfailed⟩ := (Moves.ready h hready).deferred htoken task htask
  have htask' := hv'.tasks task (List.mem_append_right _ htask)
  refine ⟨hfailed, hsome, htask'.finite hsome, ?_⟩
  by_contra hnot
  exact hfailed (htask'.checked (Bool.eq_false_of_not_eq_true hnot)).1

/-- No service of the stages declares a recovery. -/
def FiniteRecoveries (stages : List Stage) : Prop :=
  ∀ plan ∈ stages.flatMap stageTasks, plan.recoveryCommands.isSome = true → plan.service = false

theorem finiteRecoveries_append (first second : List Stage) :
    FiniteRecoveries (first ++ second) ↔ FiniteRecoveries first ∧ FiniteRecoveries second := by
  unfold FiniteRecoveries
  rw [List.flatMap_append]
  exact List.forall_mem_append

theorem View.Vetted.appended {v : View} {stages : List Stage} (h : v.Vetted)
    (hstages : FiniteRecoveries stages) : (v.appended stages).Vetted := by
  refine ⟨fun plan hplan => ?_, h.tasks, h.recovering⟩
  simp only [View.appended, List.flatMap_append, List.mem_append] at hplan
  rcases hplan with (hold | hnew) | hqueued
  · exact h.planned plan (List.mem_append_left _ hold)
  · exact hstages plan hnew
  · exact h.planned plan (List.mem_append_right _ hqueued)

/-- So, in every session of planned plans: wherever the call to `advance` that comes next gets to with
    the token unset, the pending jobs are as `recovery_outcomes_iff` assumes them. -/
theorem Session.awaitsRecovery (ex : LawfulExecutor) (env : Env W) (world : W) (metadata : RunMetadata)
    (plan : RunPlan) (ops : List Op) (hplan : Planned plan) (hops : ∀ op ∈ ops, op.Planned) :
    let s := (Session.start env world metadata plan).after ex env ops
    s.open = true → ∀ v, Moves ex.failFast (view s.io s.run) v → v.token = false →
      ∀ task ∈ v.run.pendingRecoveries, task.AwaitsRecovery := by
  intro s hopen v hmoves htoken
  have hstart : FiniteRecoveries plan.stages → (startView env world metadata plan).Vetted := fun hall =>
    ⟨fun u hu => hall u (by simpa [startView] using hu), fun _ ht => (by cases ht),
      fun _ hr => (by cases hr)⟩
  have hs := Session.after_holds_of ex env (P := fun all v => FiniteRecoveries all → v.Vetted)
    (fun _ _ _ hmove hv hall => hmove.vetted (hv hall))
    (fun all v stages _ hv hall => by
      obtain ⟨hold, hnew⟩ := (finiteRecoveries_append all stages).mp hall
      exact (hv hold).appended hnew)
    (fun _ _ _ _ hv hall => ⟨(hv hall).planned, (hv hall).tasks, (hv hall).recovering⟩)
    ops (Session.start env world metadata plan) plan.stages
    (Session.start_holds ex.failFast env world metadata plan hstart)
  obtain ⟨hvetted, hready, -⟩ := (Session.holds_of_open hopen).mp hs
  refine hmoves.awaitsRecovery (hvetted fun u hu hsome => ?_) hready htoken
  by_contra hservice
  have hnone := hplan.unrecoverable hops _ u hu (by simpa using hservice)
  rw [hnone] at hsome
  cases hsome

/-- What became of a pending job: how the commands of its two passes ended, as far as the passes were
    started, and what the job is reported with. -/
structure RecoveryAttempt where
  task : ActiveTask
  recovery : Option (List Ending)
  verification : Option (List Ending)
  outcome : TaskOutcome

/-- The entry of the run's outcomes for the job. -/
def RecoveryAttempt.entry (attempt : RecoveryAttempt) : Nat × String × Option String × TaskOutcome :=
  (attempt.task.position, attempt.task.name, attempt.task.groupOccurrence, attempt.outcome)

def RecoveryAttempt.endings (attempt : RecoveryAttempt) : List (Phase × Nat × Ending) :=
  ((attempt.recovery.getD []).map fun e => (.recovery, attempt.task.position, e)) ++
    (attempt.verification.getD []).map fun e => (.verification, attempt.task.position, e)

/-- A job whose recovery is not run, reported with its own failures. -/
def ActiveTask.kept (task : ActiveTask) : RecoveryAttempt := ⟨task, none, none, .failed task.failures⟩

def outcomeOf (failures : List String) : TaskOutcome :=
  if failures = [] then .passed else .failed failures

theorem outcomeOf_passed (failures : List String) : outcomeOf failures = .passed ↔ failures = [] := by
  unfold outcomeOf
  split <;> simp_all

theorem outcomeOf_failed {failures : List String} (h : failures ≠ []) :
    outcomeOf failures = .failed failures :=
  if_neg h

/-- The run is left with the outcomes of the attempts, and the trace with their endings and no further
    decision. -/
structure Leaves (io : Io W) (run : Run) (io' : Io W) (run' : Run) (attempts : List RecoveryAttempt) :
    Prop where
  outcomes : run'.outcomes = run.outcomes ++ attempts.map RecoveryAttempt.entry
  endings : endingsOf io'.trace = endingsOf io.trace ++ attempts.flatMap RecoveryAttempt.endings
  undecided : lastDecision io'.trace = lastDecision io.trace

theorem Leaves.trans {io io₁ io₂ : Io W} {run run₁ run₂ : Run} {first second : List RecoveryAttempt}
    (h : Leaves io run io₁ run₁ first) (h' : Leaves io₁ run₁ io₂ run₂ second) :
    Leaves io run io₂ run₂ (first ++ second) := by
  refine ⟨?_, ?_, h'.undecided.trans h.undecided⟩
  · rw [h'.outcomes, h.outcomes, List.map_append, List.append_assoc]
  · rw [h'.endings, h.endings, List.flatMap_append, List.append_assoc]

/-- A read of the token may come first. -/
theorem Leaves.after {io io₁ io₂ : Io W} {run run' : Run} {attempts : List RecoveryAttempt}
    (h : Leaves io₁ run io₂ run' attempts) (htrace : io₁.trace = io.trace) :
    Leaves io run io₂ run' attempts :=
  ⟨h.outcomes, htrace ▸ h.endings, htrace ▸ h.undecided⟩

theorem lastDecision_emit (io : Io W) (event : Event) :
    lastDecision (io.emit event).trace = lastDecision io.trace :=
  lastDecision_event io.trace event

theorem endingsOf_emit (io : Io W) (event : Event) :
    endingsOf (io.emit event).trace = endingsOf io.trace :=
  (endingsOf_append _ _).trans (List.append_nil _)

/-- The record of a job whose passes have ended. -/
theorem recordTaskOutcome_leaves (env : Env W) (io₀ io : Io W) (run₀ run : Run) {task : ActiveTask}
    {attempt : RecoveryAttempt} (hsame : task.SameJob attempt.task)
    (houtcome : outcomeOf task.failures = attempt.outcome) (houtcomes : run.outcomes = run₀.outcomes)
    (hendings : endingsOf io.trace = endingsOf io₀.trace ++ attempt.endings)
    (hundecided : lastDecision io.trace = lastDecision io₀.trace) :
    Leaves io₀ run₀ (recordTaskOutcome env io run task).1 (recordTaskOutcome env io run task).2
      [attempt] := by
  have hverdict : task.verdict.2 = attempt.outcome := by
    rw [← houtcome, ActiveTask.verdict, outcomeOf]
    split <;> rfl
  refine ⟨?_, ?_, (lastDecision_emit io _).trans hundecided⟩
  · change run.outcomes ++ [(task.position, task.name, task.groupOccurrence, task.verdict.2)] = _
    rw [houtcomes, hverdict, hsame.position, hsame.name, hsame.groupOccurrence]
    rfl
  · change endingsOf (io.emit _).trace = _
    rw [endingsOf_emit, hendings, List.flatMap_singleton]

theorem keepFailures_leaves (env : Env W) (announce : Io W → Run → ActiveTask → Io W)
    (hannounce : ∀ io run task, endingsOf (announce io run task).trace = endingsOf io.trace ∧
      lastDecision (announce io run task).trace = lastDecision io.trace) :
    ∀ (tasks : List ActiveTask) (io : Io W) (run : Run), (∀ task ∈ tasks, task.failures ≠ []) →
      Leaves io run (keepFailures env announce tasks io run).1
        (keepFailures env announce tasks io run).2 (tasks.map ActiveTask.kept) := by
  intro tasks
  induction tasks with
  | nil =>
    intro io run _
    exact ⟨(List.append_nil _).symm, (List.append_nil _).symm, rfl⟩
  | cons task rest ih =>
    intro io run hfailed
    have hone : Leaves io run _ _ [task.kept] :=
      recordTaskOutcome_leaves env io (announce io run task) run
        { run with
          pendingRecoveries := rest
          results := run.results ++ [.error task.firstFailure] } (.refl task)
        (outcomeOf_failed (hfailed task List.mem_cons_self)) rfl
        ((hannounce io run task).1.trans (List.append_nil _).symm) (hannounce io run task).2
    exact hone.trans (ih _ _ fun t ht => hfailed t (List.mem_cons_of_mem _ ht))

theorem map_kept_task (tasks : List ActiveTask) :
    (tasks.map ActiveTask.kept).map RecoveryAttempt.task = tasks := by
  rw [List.map_map]
  exact List.map_id tasks

/-- How approved recoveries go: one job at a time, up to the first recovery that fails. -/
inductive RecoveryCourse : List ActiveTask → List RecoveryAttempt → Prop
  | done : RecoveryCourse [] []
  | recovered (task : ActiveTask) (rest : List ActiveTask) (attempts : List RecoveryAttempt)
      (commands : List CommandLine) (endings verified : List Ending) :
      task.recoveryCommands = some commands → AllExitedZero commands endings →
      (passFailures task.originalCommands verified = [] ↔
        AllExitedZero task.originalCommands verified) →
      RecoveryCourse rest attempts →
      RecoveryCourse (task :: rest) (⟨task, some endings, some verified,
        outcomeOf (passFailures task.originalCommands verified)⟩ :: attempts)
  | stopped (task : ActiveTask) (rest : List ActiveTask) (commands : List CommandLine)
      (endings : List Ending) :
      task.recoveryCommands = some commands → ¬AllExitedZero commands endings →
      RecoveryCourse (task :: rest) (⟨task, some endings, none,
        .failed (task.failures ++ passFailures commands endings)⟩ :: rest.map ActiveTask.kept)

/-- A restarted job stands at the beginning of its pass. -/
theorem ActiveTask.restart_inPass {phase : Phase} {job task : ActiveTask} (commands : List CommandLine)
    {trace trace' : List Effect} (hsame : task.SameJob job) (htrace : endingsOf trace' = endingsOf trace) :
    InPass phase commands job (endingsOf trace) ⟨task.restart commands, [], trace'⟩ :=
  ⟨⟨[], .between [] [] _ rfl rfl (fun _ h => by cases h) rfl rfl,
    htrace.trans (List.append_nil _).symm⟩,
    ⟨hsame.name, hsame.position, hsame.groupOccurrence, hsame.originalCommands, hsame.service,
      hsame.contextValidated⟩⟩

theorem verifyRecovery_leaves (env : Env W) (polls : Nat) {io₀ io io' : Io W} {run run' : Run}
    {job task : ActiveTask} (remaining : List ActiveTask) (endings : List Ending)
    (hjob : job.AwaitsRecovery) (hsame : task.SameJob job)
    (htrace : endingsOf io.trace = endingsOf io₀.trace ++
      endings.map fun e => (Phase.recovery, job.position, e))
    (hundecided : lastDecision io.trace = lastDecision io₀.trace)
    (h : verifyRecovery env polls io run task remaining = (io', run', .done)) :
    ∃ verified, (passFailures job.originalCommands verified = [] ↔
        AllExitedZero job.originalCommands verified) ∧
      Leaves io₀ run io' run' [⟨job, some endings, some verified,
        outcomeOf (passFailures job.originalCommands verified)⟩] := by
  rw [verifyRecovery] at h
  rcases hr : awaitTask env .verification polls
    (emitRecoveryPhase io run task.name "verification_started" none)
    (task.restart task.originalCommands) [] with ⟨io₁, task₁, awaited⟩
  simp only [hr] at h
  cases awaited with
  | waiting => cases h
  | interrupted => cases h
  | done =>
    cases h
    rw [hsame.originalCommands] at hr
    obtain ⟨verified, hdone⟩ := awaitTask_inPass env (by decide) hjob.finite hjob.checked polls _ io₁ _
      task₁ [] (ActiveTask.restart_inPass job.originalCommands hsame (endingsOf_emit io _)) rfl
      (lastDecision_emit io _) hr
    refine ⟨verified, hdone.passed, ?_⟩
    refine recordTaskOutcome_leaves env io₀ _ run _ hdone.same (congrArg outcomeOf hdone.failures) rfl ?_ ?_
    · refine (endingsOf_emit io₁ _).trans ?_
      rw [hdone.traced, htrace, List.append_assoc]
      rfl
    · exact (lastDecision_emit io₁ _).trans (hdone.undecided.trans hundecided)

/-- Approved recoveries follow the course and leave its attempts. -/
theorem runRecoveries_leaves (env : Env W) (polls : Nat) :
    ∀ (tasks : List ActiveTask) (io io' : Io W) (run run' : Run),
      (∀ task ∈ tasks, task.AwaitsRecovery) →
      runRecoveries env polls tasks io run = (io', run', .done) →
      ∃ attempts, RecoveryCourse tasks attempts ∧ Leaves io run io' run' attempts := by
  intro tasks
  induction tasks with
  | nil =>
    intro io io' run run' _ h
    cases h
    exact ⟨[], .done, (List.append_nil _).symm, (List.append_nil _).symm, rfl⟩
  | cons task remaining ih =>
    intro io io' run run' hwaits h
    have htask := hwaits task List.mem_cons_self
    have hrest : ∀ t ∈ remaining, t.AwaitsRecovery := fun t ht => hwaits t (List.mem_cons_of_mem _ ht)
    obtain ⟨commands, hcommands⟩ := Option.isSome_iff_exists.mp htask.recoverable
    rw [runRecoveries] at h
    simp only [hcommands] at h
    generalize hstart : emitRecoveryPhase (emitRecoveryPhase io run task.name "approval_decided"
      (some "approved")) run task.name "recovery_started" none = io₁ at h
    have hquiet : endingsOf io₁.trace = endingsOf io.trace := by
      rw [← hstart]
      exact (endingsOf_emit _ _).trans (endingsOf_emit _ _)
    have hundecided : lastDecision io₁.trace = lastDecision io.trace := by
      rw [← hstart]
      exact (lastDecision_emit _ _).trans (lastDecision_emit _ _)
    rcases hr : awaitTask env .recovery polls io₁
      (ActiveTask.restart { task with recoveryCommands := none } commands) [] with
      ⟨io₂, task₂, awaited⟩
    simp only [hr] at h
    cases awaited with
    | waiting => cases h
    | interrupted => cases h
    | done =>
      have hsame : ActiveTask.SameJob { task with recoveryCommands := none } task :=
        ⟨rfl, rfl, rfl, rfl, rfl, rfl⟩
      obtain ⟨endings, hdone⟩ := awaitTask_inPass env (by decide) htask.finite htask.checked polls _ io₂
        _ task₂ [] (ActiveTask.restart_inPass commands hsame hquiet) rfl hundecided hr
      have htraced : endingsOf (emitRecoveryPhase io₂ run task₂.name "recovery_finished"
          (some (if task₂.failures = [] then "passed" else "failed"))).trace =
          endingsOf io.trace ++ endings.map fun e => (Phase.recovery, task.position, e) :=
        (endingsOf_emit io₂ _).trans hdone.traced
      have hundecided₂ : lastDecision (emitRecoveryPhase io₂ run task₂.name "recovery_finished"
          (some (if task₂.failures = [] then "passed" else "failed"))).trace = lastDecision io.trace :=
        (lastDecision_emit io₂ _).trans hdone.undecided
      by_cases hpassed : task₂.failures = []
      · simp only [if_pos hpassed] at h htraced hundecided₂
        rcases hv : verifyRecovery env polls (emitRecoveryPhase io₂ run task₂.name
          "recovery_finished" (some "passed")) run task₂ remaining with ⟨io₃, run₃, awaited⟩
        simp only [hv] at h
        cases awaited with
        | waiting => cases h
        | interrupted => cases h
        | done =>
          obtain ⟨verified, hverdict, hone⟩ := verifyRecovery_leaves env polls remaining endings htask
            hdone.same htraced hundecided₂ hv
          obtain ⟨attempts, hcourse, hleaves⟩ := ih io₃ io' run₃ run' hrest h
          have hzero : AllExitedZero commands endings := hdone.passed.mp (hdone.failures.symm.trans hpassed)
          exact ⟨_, .recovered task remaining attempts commands endings verified hcommands hzero hverdict
            hcourse, hone.trans hleaves⟩
      · simp only [if_neg hpassed] at h htraced hundecided₂
        have hfails : passFailures commands endings ≠ [] := by rwa [← hdone.failures]
        refine ⟨_, .stopped task remaining commands endings hcommands
          (fun hall => hfails (hdone.passed.mpr hall)), ?_⟩
        cases h
        refine Leaves.trans (?_ : Leaves io run _ _ [⟨task, some endings, none, _⟩])
          (keepFailures_leaves env (fun io _ _ => io) (fun _ _ _ => ⟨rfl, rfl⟩) remaining _ _
            fun t ht => (hrest t ht).failed)
        refine recordTaskOutcome_leaves env io _ run _
          (hdone.same.reporting (task.failures ++ task₂.failures)) ?_ rfl ?_ hundecided₂
        · rw [← hdone.failures]
          exact outcomeOf_failed (List.append_ne_nil_of_left_ne_nil htask.failed _)
        · exact htraced.trans (by simp [RecoveryAttempt.endings])

theorem RecoveryCourse.tasks {tasks : List ActiveTask} {attempts : List RecoveryAttempt}
    (h : RecoveryCourse tasks attempts) : attempts.map RecoveryAttempt.task = tasks := by
  induction h with
  | done => rfl
  | recovered task rest attempts commands endings verified _ _ _ _ ih => rw [List.map_cons, ih]
  | stopped task rest commands endings _ _ => rw [List.map_cons, map_kept_task]

/-- The three ways a job of the course ends. -/
inductive RecoveryAttempt.Shape (attempt : RecoveryAttempt) : Prop
  | recovered (commands : List CommandLine) (endings verified : List Ending) :
      attempt.task.recoveryCommands = some commands → AllExitedZero commands endings →
      (passFailures attempt.task.originalCommands verified = [] ↔
        AllExitedZero attempt.task.originalCommands verified) →
      attempt.recovery = some endings → attempt.verification = some verified →
      attempt.outcome = outcomeOf (passFailures attempt.task.originalCommands verified) →
      attempt.Shape
  | stopped (commands : List CommandLine) (endings : List Ending) :
      attempt.task.recoveryCommands = some commands → ¬AllExitedZero commands endings →
      attempt.recovery = some endings → attempt.verification = none →
      attempt.outcome = .failed (attempt.task.failures ++ passFailures commands endings) →
      attempt.Shape
  | kept : attempt = attempt.task.kept → attempt.Shape

theorem shape_of_mem_kept {tasks : List ActiveTask} {attempt : RecoveryAttempt}
    (h : attempt ∈ tasks.map ActiveTask.kept) : attempt = attempt.task.kept := by
  obtain ⟨task, -, rfl⟩ := List.mem_map.mp h
  rfl

theorem RecoveryCourse.shape {tasks : List ActiveTask} {attempts : List RecoveryAttempt}
    (h : RecoveryCourse tasks attempts) : ∀ attempt ∈ attempts, attempt.Shape := by
  induction h with
  | done =>
    intro attempt h
    cases h
  | recovered task rest attempts commands endings verified hcommands hzero hverdict _ ih =>
    intro attempt h
    rcases List.mem_cons.mp h with rfl | h
    · exact .recovered commands endings verified hcommands hzero hverdict rfl rfl rfl
    · exact ih attempt h
  | stopped task rest commands endings hcommands hnot =>
    intro attempt h
    rcases List.mem_cons.mp h with rfl | h
    · exact .stopped commands endings hcommands hnot rfl rfl rfl
    · exact .kept (shape_of_mem_kept h)

/-- A recovery that was started and did not pass. -/
def RecoveryAttempt.RecoveryFailed (attempt : RecoveryAttempt) : Prop :=
  ∃ endings, attempt.recovery = some endings ∧
    ¬AllExitedZero (attempt.task.recoveryCommands.getD []) endings

/-- Behind a failed recovery nothing is started. -/
theorem RecoveryCourse.later {tasks : List ActiveTask} {attempts : List RecoveryAttempt}
    (h : RecoveryCourse tasks attempts) : ∀ before attempt after,
      attempts = before ++ attempt :: after → attempt.RecoveryFailed →
      ∀ other ∈ after, other = other.task.kept := by
  induction h with
  | done =>
    intro before attempt after h
    cases before <;> cases h
  | recovered task rest attempts commands endings verified hcommands hzero _ _ ih =>
    intro before attempt after h hfailed
    cases before with
    | nil =>
      cases h
      obtain ⟨endings', hendings, hnot⟩ := hfailed
      cases hendings
      rw [hcommands] at hnot
      exact absurd hzero hnot
    | cons first before =>
      cases h
      exact ih before attempt after rfl hfailed
  | stopped task rest commands endings hcommands hnot =>
    intro before attempt after h _ other hother
    cases before with
    | nil =>
      cases h
      exact shape_of_mem_kept hother
    | cons first before =>
      obtain ⟨-, hrest⟩ := List.cons.inj h
      refine shape_of_mem_kept (?_ : other ∈ rest.map ActiveTask.kept)
      rw [hrest]
      exact List.mem_append_right _ (List.mem_cons_of_mem _ hother)

/-! ### Final outcomes -/

/-- Where the decision on a run's pending recoveries comes from: the policy, or the approval port. -/
inductive DecidedBy (ex : Executor) (env : Env W) (policy : RecoveryPolicy)
    (requests : List RecoveryRequest) : ApprovalDecision → Prop
  | skipped : policy = .skip → DecidedBy ex env policy requests .declined
  | disconnected (world : W) : policy = .prompt → (env.approval world requests).1 = .disconnected →
      DecidedBy ex env policy requests .invalid
  | answered (world : W) (input : TtyInput) (cancellation : Bool) : policy = .prompt →
      (env.approval world requests).1 = .answered input →
      DecidedBy ex env policy requests (ex.approval.approve requests cancellation input)

/-- The pending recoveries in the order they are resolved in. -/
def Run.sortedRecoveries (run : Run) : List ActiveTask :=
  run.pendingRecoveries.insertionSort fun a b => a.position ≤ b.position

/-- What resolving the pending recoveries of a run comes to. -/
structure Recoveries (ex : Executor) (env : Env W) (io : Io W) (run : Run) (io' : Io W) (run' : Run)
    (decision : ApprovalDecision) (attempts : List RecoveryAttempt) : Prop where
  decided : DecidedBy ex env run.metadata.recoveryPolicy
    (run.sortedRecoveries.map (·.recoveryRequest run)) decision
  recorded : run.metadata.recoveryPolicy = .prompt → lastDecision io'.trace = some decision
  jobs : attempts.map RecoveryAttempt.task = run.sortedRecoveries
  outcomes : run'.outcomes = run.outcomes ++ attempts.map RecoveryAttempt.entry
  endings : endingsOf io'.trace = endingsOf io.trace ++ attempts.flatMap RecoveryAttempt.endings

/-- What jobs with a recovery are promised. -/
structure FinalOutcome (decision : ApprovalDecision) (attempts : List RecoveryAttempt) : Prop where
  passed_iff : ∀ attempt ∈ attempts, attempt.outcome = .passed ↔ decision = .approved ∧
    (∃ endings, attempt.recovery = some endings ∧
      AllExitedZero (attempt.task.recoveryCommands.getD []) endings) ∧
    ∃ verified, attempt.verification = some verified ∧
      AllExitedZero attempt.task.originalCommands verified
  declined : decision ≠ .approved → ∀ attempt ∈ attempts, attempt.outcome = .failed attempt.task.failures
  later : ∀ before attempt after, attempts = before ++ attempt :: after → attempt.RecoveryFailed →
    ∀ other ∈ after, other.recovery = none ∧ other.outcome = .failed other.task.failures
  retained : ∀ attempt ∈ attempts, attempt.outcome ≠ .passed →
    ∃ failures, attempt.outcome = .failed failures ∧ attempt.task.failures ⊆ failures

theorem awaitApproval_decided (ex : Executor) (env : Env W) (requests : List RecoveryRequest) :
    ∀ (polls : Nat) (io io' : Io W) (decision : ApprovalDecision),
      awaitApproval ex env requests polls io = (io', .done, decision) →
      io'.trace = io.trace ∧ DecidedBy ex env .prompt requests decision := by
  intro polls
  induction polls with
  | zero =>
    intro io io' decision h
    cases h
  | succ polls ih =>
    intro io io' decision h
    rw [awaitApproval] at h
    rcases hc : io.cancellationRequested env with ⟨set, io₁⟩
    have htrace : io₁.trace = io.trace := (congrArg (fun r => r.2.trace) hc).symm
    rw [hc] at h
    cases set with
    | true => cases h
    | false =>
      rcases ha : env.approval io₁.world requests with ⟨poll, world⟩
      simp only [ha] at h
      cases poll with
      | timeout =>
        obtain ⟨htrace', hdecided⟩ := ih _ io' decision h
        exact ⟨htrace'.trans htrace, hdecided⟩
      | disconnected =>
        cases h
        exact ⟨htrace, .disconnected io₁.world rfl (by rw [ha])⟩
      | answered input =>
        cases h
        exact ⟨htrace, .answered io₁.world input _ rfl (by rw [ha])⟩

theorem announceRequests_endings (run : Run) : ∀ (requests : List RecoveryRequest) (io : Io W),
    endingsOf (announceRequests run requests io).trace = endingsOf io.trace := by
  intro requests
  induction requests with
  | nil => intro io; rfl
  | cons request rest ih =>
    intro io
    exact (ih _).trans (endingsOf_emit io _)

/-- The attempts a decision leads to. -/
def Heeded (decision : ApprovalDecision) (tasks : List ActiveTask) (attempts : List RecoveryAttempt) :
    Prop :=
  (decision = .approved → RecoveryCourse tasks attempts) ∧
    (decision ≠ .approved → attempts = tasks.map ActiveTask.kept)

theorem Heeded.tasks {decision : ApprovalDecision} {tasks : List ActiveTask}
    {attempts : List RecoveryAttempt} (h : Heeded decision tasks attempts) :
    attempts.map RecoveryAttempt.task = tasks := by
  by_cases happroved : decision = .approved
  · exact (h.1 happroved).tasks
  · rw [h.2 happroved, map_kept_task]

theorem actOnDecision_leaves (env : Env W) (polls : Nat) {io io' : Io W} {run run' : Run}
    {decision : ApprovalDecision} (hwaits : ∀ task ∈ run.pendingRecoveries, task.AwaitsRecovery)
    (h : actOnDecision env polls io run decision = (io', run', .done)) :
    ∃ attempts, Heeded decision run.pendingRecoveries attempts ∧ Leaves io run io' run' attempts := by
  rw [actOnDecision] at h
  rcases hc : io.cancellationRequested env with ⟨set, io₁⟩
  have htrace : io₁.trace = io.trace := (congrArg (fun r => r.2.trace) hc).symm
  rw [hc] at h
  by_cases hstop : decision = .cancelled ∨ set = true
  · simp only [if_pos hstop] at h
    cases h
  · simp only [if_neg hstop] at h
    by_cases happroved : decision = .approved
    · simp only [if_pos happroved] at h
      obtain ⟨attempts, hcourse, hleaves⟩ := runRecoveries_leaves env polls _ io₁ io' run run' hwaits h
      exact ⟨attempts, ⟨fun _ => hcourse, fun hnot => absurd happroved hnot⟩,
        hleaves.after htrace⟩
    · simp only [if_neg happroved] at h
      cases h
      refine ⟨_, ⟨fun hyes => absurd hyes happroved, fun _ => rfl⟩, ?_⟩
      exact (keepFailures_leaves env _
        (fun io run task => ⟨endingsOf_emit io _, lastDecision_emit io _⟩) run.pendingRecoveries io₁ run
        fun t ht => (hwaits t ht).failed).after htrace

theorem resolveRecoveries_heeded (ex : Executor) (env : Env W) (polls : Nat) {io io' : Io W}
    {run run' : Run} (hpending : run.pendingRecoveries ≠ [])
    (hwaits : ∀ task ∈ run.pendingRecoveries, task.AwaitsRecovery)
    (h : resolveRecoveries ex env polls io run = (io', run', .done)) :
    ∃ decision attempts, Recoveries ex env io run io' run' decision attempts ∧
      Heeded decision run.sortedRecoveries attempts := by
  have hsorted : run.sortedRecoveries ≠ [] := by
    intro hnil
    exact hpending (List.perm_nil.mp (hnil ▸ (List.perm_insertionSort _ _).symm))
  have hwaits' : ∀ task ∈ run.sortedRecoveries, task.AwaitsRecovery := by
    intro task htask
    exact hwaits task ((List.perm_insertionSort _ _).subset htask)
  rw [resolveRecoveries] at h
  simp only [← Run.sortedRecoveries.eq_1 run, if_neg hsorted] at h
  rcases hc : io.cancellationRequested env with ⟨set, io₁⟩
  have htrace : io₁.trace = io.trace := (congrArg (fun r => r.2.trace) hc).symm
  rw [hc] at h
  cases set with
  | true => cases h
  | false =>
    dsimp only at h
    generalize hrequests : run.sortedRecoveries.map (·.recoveryRequest
      { run with pendingRecoveries := run.sortedRecoveries }) = requests at h
    generalize hannounced : announceRequests { run with pendingRecoveries := run.sortedRecoveries }
      requests io₁ = io₂ at h
    have hquiet : endingsOf io₂.trace = endingsOf io.trace := by
      rw [← hannounced, announceRequests_endings, htrace]
    -- the sorted run has the metadata and the outcomes of the run
    have hsum : ∀ {io₃ : Io W} {decision : ApprovalDecision} {attempts : List RecoveryAttempt},
        DecidedBy ex env run.metadata.recoveryPolicy requests decision →
        endingsOf io₃.trace = endingsOf io₂.trace →
        (run.metadata.recoveryPolicy = .prompt → lastDecision io₃.trace = some decision) →
        Heeded decision run.sortedRecoveries attempts →
        Leaves io₃ { run with pendingRecoveries := run.sortedRecoveries } io' run' attempts →
        ∃ decision attempts, Recoveries ex env io run io' run' decision attempts ∧
          Heeded decision run.sortedRecoveries attempts := by
      intro io₃ decision attempts hdecided htrace₃ hrecorded hheeded hleaves
      rw [← hrequests] at hdecided
      refine ⟨decision, attempts, ⟨hdecided, fun hpolicy => ?_, hheeded.tasks, hleaves.outcomes, ?_⟩,
        hheeded⟩
      · exact hleaves.undecided.trans (hrecorded hpolicy)
      · rw [hleaves.endings, htrace₃, hquiet]
    cases hpolicy : run.metadata.recoveryPolicy with
    | prompt =>
      simp only [hpolicy] at h
      rcases ha : awaitApproval ex env requests polls (io₂.record (.asked requests)) with
        ⟨io₃, awaited, decision⟩
      simp only [ha] at h
      cases awaited with
      | waiting => cases h
      | interrupted => cases h
      | done =>
        obtain ⟨htrace₃, hdecided⟩ := awaitApproval_decided ex env requests polls _ io₃ decision ha
        obtain ⟨attempts, hheeded, hleaves⟩ := actOnDecision_leaves env polls hwaits' h
        refine hsum (hpolicy ▸ hdecided) ?_ (fun _ => ?_) hheeded hleaves
        · change endingsOf (io₃.trace ++ [_]) = _
          rw [htrace₃, endingsOf_append]
          refine (List.append_nil _).trans ?_
          exact (endingsOf_append _ _).trans (List.append_nil _)
        · simp [Io.record, lastDecision]
    | skip =>
      simp only [hpolicy] at h
      obtain ⟨attempts, hheeded, hleaves⟩ := actOnDecision_leaves env polls hwaits' h
      refine hsum (.skipped hpolicy) rfl (fun hprompt => ?_) hheeded hleaves
      rw [hpolicy] at hprompt
      cases hprompt

/-- A verification that fails does so with the failures its job already had. -/
def RecoveryAttempt.FailsAlike (attempt : RecoveryAttempt) : Prop :=
  ∀ verified, attempt.verification = some verified →
    ¬AllExitedZero attempt.task.originalCommands verified →
    attempt.task.failures ⊆ passFailures attempt.task.originalCommands verified

theorem RecoveryAttempt.Shape.passed_iff {attempt : RecoveryAttempt} (h : attempt.Shape) :
    attempt.outcome = .passed ↔
      (∃ endings, attempt.recovery = some endings ∧
        AllExitedZero (attempt.task.recoveryCommands.getD []) endings) ∧
      ∃ verified, attempt.verification = some verified ∧
        AllExitedZero attempt.task.originalCommands verified := by
  cases h with
  | recovered commands endings verified hcommands hzero hverdict hrecovery hverification houtcome =>
    rw [houtcome, outcomeOf_passed, hverdict, hrecovery, hverification, hcommands]
    constructor
    · intro hall
      exact ⟨⟨endings, rfl, hzero⟩, verified, rfl, hall⟩
    · rintro ⟨-, _, heq, hall⟩
      cases heq
      exact hall
  | stopped commands endings _ _ _ hverification houtcome =>
    rw [houtcome, hverification]
    refine iff_of_false (by simp) ?_
    rintro ⟨-, _, heq, -⟩
    cases heq
  | kept heq =>
    rw [heq]
    refine iff_of_false (by simp [ActiveTask.kept]) ?_
    rintro ⟨⟨_, heq, -⟩, -⟩
    cases heq

/-- The one way to lose an original failure is a verification that fails otherwise. -/
theorem RecoveryAttempt.Shape.retained_iff {attempt : RecoveryAttempt} (h : attempt.Shape) :
    (attempt.outcome ≠ .passed →
      ∃ failures, attempt.outcome = .failed failures ∧ attempt.task.failures ⊆ failures) ↔
      attempt.FailsAlike := by
  cases h with
  | recovered commands endings verified hcommands hzero hverdict hrecovery hverification houtcome =>
    rw [houtcome, Ne, outcomeOf_passed]
    constructor
    · intro hretained verified' hverified hnot
      rw [hverification] at hverified
      cases hverified
      have hfails := fun hnil => hnot (hverdict.mp hnil)
      obtain ⟨failures, heq, hsub⟩ := hretained hfails
      rw [outcomeOf_failed hfails] at heq
      cases heq
      exact hsub
    · intro halike hfails
      exact ⟨_, outcomeOf_failed hfails,
        halike verified hverification fun hall => hfails (hverdict.mpr hall)⟩
  | stopped commands endings _ _ _ hverification houtcome =>
    refine iff_of_true (fun _ => ⟨_, houtcome, List.subset_append_left _ _⟩) ?_
    intro verified hverified
    rw [hverification] at hverified
    cases hverified
  | kept heq =>
    rw [heq]
    refine iff_of_true (fun _ => ⟨_, rfl, fun _ h => h⟩) ?_
    intro verified hverified
    cases hverified

theorem Heeded.shape {decision : ApprovalDecision} {tasks : List ActiveTask}
    {attempts : List RecoveryAttempt} (h : Heeded decision tasks attempts) :
    ∀ attempt ∈ attempts, attempt.Shape := by
  by_cases happroved : decision = .approved
  · exact (h.1 happroved).shape
  · rw [h.2 happroved]
    exact fun attempt hattempt => .kept (shape_of_mem_kept hattempt)

/-- The promises are kept exactly if no verification fails with anything new. -/
theorem Heeded.finalOutcome_iff {decision : ApprovalDecision} {tasks : List ActiveTask}
    {attempts : List RecoveryAttempt} (h : Heeded decision tasks attempts) :
    FinalOutcome decision attempts ↔ ∀ attempt ∈ attempts, attempt.FailsAlike := by
  constructor
  · intro hfinal attempt hattempt
    exact (h.shape attempt hattempt).retained_iff.mp (hfinal.retained attempt hattempt)
  · intro halike
    by_cases happroved : decision = .approved
    · refine ⟨?_, fun hnot => absurd happroved hnot, ?_, ?_⟩
      · intro attempt hattempt
        rw [(h.shape attempt hattempt).passed_iff]
        exact (and_iff_right happroved).symm
      · intro before attempt after hsplit hfailed other hother
        rw [(h.1 happroved).later before attempt after hsplit hfailed other hother]
        exact ⟨rfl, rfl⟩
      · intro attempt hattempt
        exact (h.shape attempt hattempt).retained_iff.mpr (halike attempt hattempt)
    · have hkept : ∀ attempt ∈ attempts, attempt = attempt.task.kept := by
        rw [h.2 happroved]
        exact fun attempt hattempt => shape_of_mem_kept hattempt
      refine ⟨?_, ?_, ?_, ?_⟩
      · intro attempt hattempt
        rw [hkept attempt hattempt]
        exact iff_of_false (by simp [ActiveTask.kept]) fun hyes => happroved hyes.1
      · intro _ attempt hattempt
        rw [hkept attempt hattempt]
        rfl
      · intro before attempt after hsplit _ other hother
        have hmem : other ∈ attempts := by
          rw [hsplit]
          exact List.mem_append_right _ (List.mem_cons_of_mem _ hother)
        rw [hkept other hmem]
        exact ⟨rfl, rfl⟩
      · intro attempt hattempt
        exact (h.shape attempt hattempt).retained_iff.mpr (halike attempt hattempt)

/-- The attached user approves with `y` or `yes` only, and only while nothing is cancelled. -/
theorem ttyRecoveryApproval_approves_iff (requests : List RecoveryRequest) (cancellation : Bool)
    (input : TtyInput) : ttyRecoveryApproval.approve requests cancellation input = .approved ↔
      cancellation = false ∧ ∃ answer, input = .line answer ∧
        (normalizedAnswer answer = ['y'] ∨ normalizedAnswer answer = ['y', 'e', 's']) := by
  cases input with
  | noTty => simp [ttyRecoveryApproval]
  | pollFailed => cases cancellation <;> simp [ttyRecoveryApproval]
  | readFailed => cases cancellation <;> simp [ttyRecoveryApproval]
  | line answer =>
    cases cancellation with
    | true => simp [ttyRecoveryApproval]
    | false =>
      simp only [ttyRecoveryApproval, Bool.false_eq_true, if_false]
      split <;> simp_all

/-- The final outcomes of failed jobs with a recovery block. -/
theorem recovery_outcomes_iff (ex : Executor) (env : Env W) (polls : Nat) {io io' : Io W}
    {run run' : Run} (hpending : run.pendingRecoveries ≠ [])
    (hwaits : ∀ task ∈ run.pendingRecoveries, task.AwaitsRecovery)
    (h : resolveRecoveries ex env polls io run = (io', run', .done)) :
    ∃ decision attempts, Recoveries ex env io run io' run' decision attempts ∧
      (FinalOutcome decision attempts ↔ ∀ attempt ∈ attempts, attempt.FailsAlike) := by
  obtain ⟨decision, attempts, hrecoveries, hheeded⟩ :=
    resolveRecoveries_heeded ex env polls hpending hwaits h
  exact ⟨decision, attempts, hrecoveries, hheeded.finalOutcome_iff⟩

/-- A job `make` that failed with one status, and will fail its verification with another. -/
def flakyMake : ActiveTask :=
  { name := "make"
    position := 0
    commands := []
    originalCommands := [.shell "make"]
    recoveryCommands := some [.shell "fix"]
    failures := ["Command make has failed with exit status: 2"]
    context := {}
    contextValidated := true
    groupOccurrence := none
    commandTotal := 1
    service := false
    deferFailure := true }

def flakyRun : Run :=
  { stages := [], pendingRecoveries := [flakyMake], metadata := { runId := 1 }, started := 0 }

/-- `fix` exits with zero and everything else with one; the attached user answers `y`. -/
def flakyEnv : Env Unit :=
  steadyEnv fun task =>
    if task.currentCommand = some "fix" then some ⟨some 0, "exit status: 0"⟩
    else some ⟨some 1, "exit status: 1"⟩

theorem recovery_outcomes_at_make :
    ∃ io' run' decision attempts,
      resolveRecoveries ⟨false, ttyRecoveryApproval⟩ flakyEnv 4 ⟨(), false, []⟩ flakyRun =
        (io', run', .done) ∧
      Recoveries ⟨false, ttyRecoveryApproval⟩ flakyEnv ⟨(), false, []⟩ flakyRun io' run' decision
        attempts ∧
      (FinalOutcome decision attempts ↔ ∀ attempt ∈ attempts, attempt.FailsAlike) := by
  have hdone : ∃ io' run', resolveRecoveries ⟨false, ttyRecoveryApproval⟩ flakyEnv 4 ⟨(), false, []⟩
      flakyRun = (io', run', .done) := ⟨_, _, rfl⟩
  obtain ⟨io', run', h⟩ := hdone
  have hwaits : ∀ task ∈ flakyRun.pendingRecoveries, task.AwaitsRecovery := by
    intro task htask
    rw [List.mem_singleton.mp htask]
    exact ⟨List.cons_ne_nil _ _, rfl, rfl, rfl⟩
  obtain ⟨decision, attempts, hrecoveries, hiff⟩ :=
    recovery_outcomes_iff _ flakyEnv 4 (List.cons_ne_nil _ _) hwaits h
  exact ⟨io', run', decision, attempts, h, hrecoveries, hiff⟩

/-- The recovery passes, the verification fails, and the report has lost the original failure. -/
theorem verification_drops_failure : ∃ io' run',
    resolveRecoveries ⟨false, ttyRecoveryApproval⟩ flakyEnv 4 ⟨(), false, []⟩ flakyRun =
      (io', run', .done) ∧
    run'.outcomes = [(0, "make", none, .failed ["Command make has failed with exit status: 1"])] ∧
    ∀ decision attempts, Recoveries ⟨false, ttyRecoveryApproval⟩ flakyEnv ⟨(), false, []⟩ flakyRun io'
      run' decision attempts → ¬FinalOutcome decision attempts := by
  have hdone : ∃ io' run', resolveRecoveries ⟨false, ttyRecoveryApproval⟩ flakyEnv 4 ⟨(), false, []⟩
      flakyRun = (io', run', .done) ∧ run'.outcomes =
        [(0, "make", none, .failed ["Command make has failed with exit status: 1"])] :=
    ⟨_, _, rfl, by decide +kernel⟩
  obtain ⟨io', run', h, houtcomes⟩ := hdone
  refine ⟨io', run', h, houtcomes, fun decision attempts hrecoveries hfinal => ?_⟩
  obtain ⟨attempt, rfl⟩ : ∃ attempt, attempts = [attempt] := by
    have hlength := congrArg List.length hrecoveries.jobs
    rw [List.length_map] at hlength
    exact List.length_eq_one_iff.mp hlength
  have htask : attempt.task = flakyMake := List.head_eq_of_cons_eq hrecoveries.jobs
  have hentry := hrecoveries.outcomes
  rw [houtcomes] at hentry
  have houtcome : attempt.outcome = .failed ["Command make has failed with exit status: 1"] :=
    (congrArg (fun entry => entry.2.2.2) (List.head_eq_of_cons_eq hentry)).symm
  obtain ⟨failures, heq, hsub⟩ := hfinal.retained attempt (List.mem_singleton.mpr rfl)
    (by rw [houtcome]; exact TaskOutcome.noConfusion)
  rw [houtcome] at heq
  cases heq
  rw [htask] at hsub
  exact absurd (hsub List.mem_cons_self) (by decide +kernel)

end Funzzy
