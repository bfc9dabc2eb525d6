import Funzzy.Executor.Conservation
import Funzzy.Observers

/-! Success agreement: the outcome, the failures and the results of a finished run.

    A run keeps its verdict in three places: the task outcomes, the failures derived from them, and
    the command results. `Sound` is the invariant that ties them together, with the tasks whose
    verdict is still open in the middle. Three things break it: a service stopped by a reload, a job
    that recovers after fail-fast has stopped other work, and a service that exits with success after
    one of its commands failed to start. -/

namespace Funzzy

variable {W : Type}

/-! ### Verdicts of a run -/

abbrev Outcomes := List (Nat × String × Option String × TaskOutcome)

/-- Some task is recorded as failed. -/
def HasFailed (outcomes : Outcomes) : Prop :=
  ∃ entry ∈ outcomes, ∃ failures, entry.2.2.2 = .failed failures

/-- Some task is recorded as cancelled or skipped. -/
def HasStopped (outcomes : Outcomes) : Prop :=
  ∃ entry ∈ outcomes, entry.2.2.2 = .cancelled ∨ entry.2.2.2 = .skipped

/-- Some command result is an error. -/
def HasError (results : Results) : Prop := ∃ failure, Except.error failure ∈ results

@[simp] theorem hasFailed_append (a b : Outcomes) :
    HasFailed (a ++ b) ↔ HasFailed a ∨ HasFailed b := by
  simp [HasFailed, or_and_right, exists_or]

@[simp] theorem hasStopped_append (a b : Outcomes) :
    HasStopped (a ++ b) ↔ HasStopped a ∨ HasStopped b := by
  simp [HasStopped, or_and_right, exists_or]

@[simp] theorem hasError_append (a b : Results) : HasError (a ++ b) ↔ HasError a ∨ HasError b := by
  simp [HasError, exists_or]

@[simp] theorem hasFailed_entry (job : JobId) (outcome : TaskOutcome) :
    HasFailed [job.entry outcome] ↔ ∃ failures, outcome = .failed failures := by
  simp [HasFailed, JobId.entry]

@[simp] theorem hasStopped_entry (job : JobId) (outcome : TaskOutcome) :
    HasStopped [job.entry outcome] ↔ outcome = .cancelled ∨ outcome = .skipped := by
  simp [HasStopped, JobId.entry]

@[simp] theorem hasError_ok : ¬HasError [.ok ()] := by
  rintro ⟨failure, h⟩; simp at h

@[simp] theorem hasError_error (failure : String) : HasError [.error failure] := ⟨failure, by simp⟩

@[simp] theorem not_hasError_nil : ¬HasError [] := by
  rintro ⟨failure, h⟩; cases h

/-- A failed job still waits for its recovery, or is in it. -/
def View.Unresolved (v : View) : Prop := v.run.pendingRecoveries ≠ [] ∨ v.recovering ≠ none

/-- A task whose failures are in the results already. -/
def ActiveTask.Blamed (task : ActiveTask) : Prop := task.failures ≠ [] ∧ task.deferFailure = false

/-! ### What breaks the agreement -/

/-- Other work was stopped or skipped: a task is reported cancelled. -/
def StoppedWork (trace : List Effect) : Prop := ∃ snapshot ∈ terminals trace, snapshot.state = .cancelled

/-- A job passed its verification after other work had been stopped. -/
def RecoversAfterStop (trace : List Effect) : Prop :=
  ∃ before after runId job, trace = before
    ++ .event (.recoveryPhase runId job "verification_finished" (some "passed")) :: after ∧
    StoppedWork before

/-- A command of the service at this position failed to start. -/
def FailedToStart (trace : List Effect) (position : Nat) (name : String) : Prop :=
  ∃ proc command error, Effect.spawnFailed proc command error ∈ trace ∧ proc.position = position ∧
    proc.name = name ∧ proc.service = true ∧ proc.phase = .original

/-- A service exited with success after one of its commands had failed to start. -/
def MasksFailure (trace : List Effect) : Prop :=
  ∃ before after proc status, trace = before ++ .exited proc status :: after ∧
    proc.service = true ∧ proc.phase = .original ∧ status.success = true ∧
    FailedToStart before proc.position proc.name

/-- Neither of the two happened. -/
structure Untroubled (trace : List Effect) : Prop where
  recovery : ¬RecoversAfterStop trace
  services : ¬MasksFailure trace

theorem StoppedWork.mono {a b : List Effect} (h : StoppedWork a) : StoppedWork (a ++ b) := by
  obtain ⟨snapshot, hmem, hstate⟩ := h
  exact ⟨snapshot, by simp [hmem], hstate⟩

theorem FailedToStart.mono {a b : List Effect} {position : Nat} {name : String}
    (h : FailedToStart a position name) : FailedToStart (a ++ b) position name := by
  obtain ⟨proc, command, error, hmem, hrest⟩ := h
  exact ⟨proc, command, error, List.mem_append_left _ hmem, hrest⟩

theorem Untroubled.of_append {a b : List Effect} (h : Untroubled (a ++ b)) : Untroubled a := by
  constructor
  · rintro ⟨before, after, runId, job, rfl, hstopped⟩
    exact h.recovery ⟨before, after ++ b, runId, job, by simp, hstopped⟩
  · rintro ⟨before, after, proc, status, rfl, hrest⟩
    exact h.services ⟨before, after ++ b, proc, status, by simp, hrest⟩

/-! ### The invariant -/

/-- A failure of a service is in the trace, unless the service has nothing left to run. -/
def ActiveTask.Traced (trace : List Effect) (task : ActiveTask) : Prop :=
  task.service = true → task.failures ≠ [] →
    FailedToStart trace task.position task.name ∨ (task.commands = [] ∧ task.child = false)

/-- How the verdicts of a run hang together while tasks are still open. -/
structure Sound (failFast : Bool) (v : View) : Prop where
  ready : v.Ready
  deferral : ∀ t ∈ v.run.active, t.deferFailure = t.recoveryCommands.isSome
  traced : ∀ t ∈ v.run.active, t.Traced v.trace
  halted : failFast = true → ∀ t ∈ v.run.active, t.failures ≠ [] → t.child = false
  unfailed : failFast = true → ∀ t ∈ v.run.services, t.failures = []
  masked : ∀ t ∈ v.run.services, t.service = true ∧
    (t.failures ≠ [] → FailedToStart v.trace t.position t.name)
  nonempty : ∀ entry ∈ v.run.outcomes, entry.2.2.2 ≠ .failed []
  failedError : HasFailed v.run.outcomes → HasError v.run.results
  blamedError : ∀ t ∈ v.run.active, t.Blamed → HasError v.run.results
  errorBlames : HasError v.run.results → HasFailed v.run.outcomes ∨ (∃ t ∈ v.run.active, t.Blamed) ∨
    (∃ t ∈ v.run.services, t.Blamed) ∨ (HasStopped v.run.outcomes ∧ v.Unresolved)
  stoppedFailed : HasStopped v.run.outcomes → HasFailed v.run.outcomes ∨ v.Unresolved
  stoppedTraced : HasStopped v.run.outcomes → StoppedWork v.trace

/-- A move of a task of the stage adds no failure, or one that also ends its current child. -/
theorem TaskMove.failure_cases {failFast : Bool} {w w' : Work} (h : TaskMove .original w w')
    (hadm : w.task.Admissible .original failFast) :
    (w'.task.failures = w.task.failures ∧ (HasError w'.results ↔ HasError w.results)) ∨
      ∃ failure, w'.task.failures = w.task.failures ++ [failure] ∧ w'.task.child = false ∧
        w'.results = pushFailure w.task w.results failure := by
  have hservice : w.task.child = true → w.task.service = true → False := by
    intro hchild hservice
    exact absurd (hchild.symm.trans (hadm.unspawned rfl hservice)) (by decide)
  cases h with
  | validate | spawned | tick => exact .inl ⟨rfl, .rfl⟩
  | invalid failure _ hchild => exact .inr ⟨failure, rfl, hchild, rfl⟩
  | spawnFailed command rest error => exact .inr ⟨_, rfl, rfl, rfl⟩
  | passed => exact .inl ⟨rfl, by simp⟩
  | failed | errored => exact .inr ⟨_, rfl, rfl, rfl⟩
  | serviceStopped status hchild _ hs => exact (hservice hchild hs).elim
  | serviceRestarted status hchild _ hs => exact (hservice hchild hs).elim
  | serviceExhausted status failure hchild _ hs => exact (hservice hchild hs).elim

theorem TaskMove.traced {failFast : Bool} {w w' : Work} (h : TaskMove .original w w')
    (hadm : w.task.Admissible .original failFast)
    (ht : w.task.Traced w.trace) : w'.task.Traced w'.trace := by
  have hservice : w.task.child = true → w.task.service = true → False := by
    intro hchild hservice
    exact absurd (hchild.symm.trans (hadm.unspawned rfl hservice)) (by decide)
  cases h with
  | validate => exact ht
  | invalid failure _ hchild => exact fun _ _ => .inr ⟨rfl, hchild⟩
  | spawned command rest now _ hchild hcommands =>
    intro hs hfailed
    refine .inl ((ht hs hfailed).resolve_right ?_).mono
    rintro ⟨hnone, -⟩
    exact absurd (hcommands.symm.trans hnone) (List.cons_ne_nil _ _)
  | spawnFailed command rest error =>
    intro hs _
    exact .inl ⟨_, command, error, List.mem_append_right _ (List.mem_singleton_self _), rfl, rfl, hs,
      rfl⟩
  | passed status _ _ hs => exact fun hs' => absurd (hs.symm.trans hs') (by decide)
  | failed status _ _ hs => exact fun hs' => absurd (hs.symm.trans hs') (by decide)
  | tick hchild => exact fun hs => (hservice hchild hs).elim
  | errored error hchild => exact fun hs => (hservice hchild hs).elim
  | serviceStopped status hchild _ hs => exact (hservice hchild hs).elim
  | serviceRestarted status hchild _ hs => exact (hservice hchild hs).elim
  | serviceExhausted status failure hchild _ hs => exact (hservice hchild hs).elim

theorem TaskMove.deferral_eq {phase : Phase} {w w' : Work} (h : TaskMove phase w w') :
    w'.task.deferFailure = w.task.deferFailure ∧
      w'.task.recoveryCommands = w.task.recoveryCommands := by
  cases h <;> exact ⟨rfl, rfl⟩

theorem ActiveTask.Traced.mono {a b : List Effect} {task : ActiveTask} (h : task.Traced a) :
    task.Traced (a ++ b) :=
  fun hs hf => (h hs hf).imp FailedToStart.mono id

section Steps
variable {failFast : Bool} {v v' : View} (hv : Sound failFast v) (hready : v'.Ready)
  (hactive : ∀ t ∈ v'.run.active, t ∈ v.run.active)
  (hservices : ∀ t ∈ v'.run.services, t ∈ v.run.services)
  (htrace : ∃ effects, v'.trace = v.trace ++ effects)
include hv hready hactive hservices htrace

/-- A task ends as failed, with an error among the results. -/
theorem Sound.failed (job : JobId) {failures : List String} (hne : failures ≠ [])
    (houtcomes : v'.run.outcomes = v.run.outcomes ++ [job.entry (.failed failures)])
    (herror : HasError v'.run.results) : Sound failFast v' := by
  obtain ⟨effects, htrace⟩ := htrace
  have hfailed : HasFailed v'.run.outcomes := by rw [houtcomes]; simp
  refine ⟨hready, fun t ht => hv.deferral t (hactive t ht), fun t ht => ?_,
    fun hff t ht => hv.halted hff t (hactive t ht), fun hff t ht => hv.unfailed hff t (hservices t ht),
    fun t ht => ⟨(hv.masked t (hservices t ht)).1, fun hf => ?_⟩, ?_, fun _ => herror,
    fun _ _ _ => herror, fun _ => .inl hfailed, fun _ => .inl hfailed, fun hstopped => ?_⟩
  · rw [htrace]; exact (hv.traced t (hactive t ht)).mono
  · rw [htrace]; exact ((hv.masked t (hservices t ht)).2 hf).mono
  · intro entry hentry
    rw [houtcomes] at hentry
    rcases List.mem_append.mp hentry with hentry | hentry
    · exact hv.nonempty entry hentry
    · rw [List.mem_singleton.mp hentry]
      simpa [JobId.entry] using hne
  · rw [houtcomes, hasStopped_append] at hstopped
    rw [htrace]
    exact (hv.stoppedTraced (hstopped.resolve_right (by simp))).mono

/-- Tasks end without a failure, or none ends: blame and open recoveries stay where they were. -/
theorem Sound.unfailing {entries : Outcomes} (houtcomes : v'.run.outcomes = v.run.outcomes ++ entries)
    (hentries : ¬HasFailed entries) (hresults : HasError v'.run.results ↔ HasError v.run.results)
    (hblame : ((∃ t ∈ v.run.active, t.Blamed) ∨ ∃ t ∈ v.run.services, t.Blamed) →
      (∃ t ∈ v'.run.active, t.Blamed) ∨ (∃ t ∈ v'.run.services, t.Blamed) ∨
        HasStopped entries)
    (hopen : HasStopped v'.run.outcomes → v.Unresolved → v'.Unresolved)
    (hstopped : HasStopped entries → HasFailed v.run.outcomes ∨ v'.Unresolved)
    (hreported : HasStopped entries → StoppedWork v'.trace) : Sound failFast v' := by
  obtain ⟨effects, htrace⟩ := htrace
  have hfailed : HasFailed v'.run.outcomes ↔ HasFailed v.run.outcomes := by
    rw [houtcomes, hasFailed_append]; exact ⟨fun h => h.resolve_right hentries, .inl⟩
  have hold : HasStopped v.run.outcomes → HasStopped v'.run.outcomes := by
    rw [houtcomes, hasStopped_append]; exact .inl
  have hnew : HasStopped entries → HasStopped v'.run.outcomes := by
    rw [houtcomes, hasStopped_append]; exact .inr
  refine ⟨hready, fun t ht => hv.deferral t (hactive t ht), fun t ht => ?_,
    fun hff t ht => hv.halted hff t (hactive t ht), fun hff t ht => hv.unfailed hff t (hservices t ht),
    fun t ht => ⟨(hv.masked t (hservices t ht)).1, fun hf => ?_⟩, ?_, fun h => ?_,
    fun t ht hb => hresults.mpr (hv.blamedError t (hactive t ht) hb), fun h => ?_, fun h => ?_,
    fun h => ?_⟩
  · rw [htrace]; exact (hv.traced t (hactive t ht)).mono
  · rw [htrace]; exact ((hv.masked t (hservices t ht)).2 hf).mono
  · intro entry hentry
    rw [houtcomes] at hentry
    rcases List.mem_append.mp hentry with hentry | hentry
    · exact hv.nonempty entry hentry
    · exact fun h => hentries ⟨entry, hentry, [], h⟩
  · exact hresults.mpr (hv.failedError (hfailed.mp h))
  · rcases hv.errorBlames (hresults.mp h) with hf | hb | hb | ⟨hs, hu⟩
    · exact .inl (hfailed.mpr hf)
    · rcases hblame (.inl hb) with hb | hb | hs
      · exact .inr (.inl hb)
      · exact .inr (.inr (.inl hb))
      · exact (hstopped hs).imp hfailed.mpr fun hu => .inr (.inr ⟨hnew hs, hu⟩)
    · rcases hblame (.inr hb) with hb | hb | hs
      · exact .inr (.inl hb)
      · exact .inr (.inr (.inl hb))
      · exact (hstopped hs).imp hfailed.mpr fun hu => .inr (.inr ⟨hnew hs, hu⟩)
    · exact .inr (.inr (.inr ⟨hold hs, hopen (hold hs) hu⟩))
  · rw [houtcomes, hasStopped_append] at h
    rcases h with hs | hs
    · exact (hv.stoppedFailed hs).imp hfailed.mpr (hopen (hold hs))
    · exact (hstopped hs).imp hfailed.mpr id
  · rw [houtcomes, hasStopped_append] at h
    rcases h with hs | hs
    · rw [htrace]; exact (hv.stoppedTraced hs).mono
    · exact hreported hs

/-- Nothing ends. -/
theorem Sound.still (houtcomes : v'.run.outcomes = v.run.outcomes)
    (hresults : v'.run.results = v.run.results)
    (hblame : ((∃ t ∈ v.run.active, t.Blamed) ∨ ∃ t ∈ v.run.services, t.Blamed) →
      (∃ t ∈ v'.run.active, t.Blamed) ∨ ∃ t ∈ v'.run.services, t.Blamed)
    (hopen : v.Unresolved → v'.Unresolved) : Sound failFast v' := by
  have hnone : v'.run.outcomes = v.run.outcomes ++ [] := by rw [houtcomes, List.append_nil]
  refine Sound.unfailing hv hready hactive hservices htrace hnone (by simp [HasFailed])
    (by rw [hresults]) (fun h => (hblame h).imp id .inl) (fun _ => hopen) ?_ ?_
  · rintro ⟨_, h, _⟩; cases h
  · rintro ⟨_, h, _⟩; cases h

end Steps

/-- A task of the stage moves. -/
theorem Sound.moved {failFast : Bool} {v : View} (hv : Sound failFast v)
    {seen rest : List ActiveTask} {t t' : ActiveTask} {results : Results} {trace : List Effect}
    (hactive : v.run.active = seen ++ t :: rest) (hadm : t.Admissible .original failFast)
    (hmove : TaskMove .original ⟨t, v.run.results, v.trace⟩ ⟨t', results, trace⟩)
    (hready : View.Ready { v with
      run := { v.run with results, active := seen ++ t' :: rest }, trace }) :
    Sound failFast { v with
      run := { v.run with results, active := seen ++ t' :: rest }, trace } := by
  obtain ⟨effects, heffects⟩ := hmove.trace_extends
  have ht : t ∈ v.run.active := by rw [hactive]; simp
  have hcases := hmove.failure_cases hadm
  have hdefer := hmove.deferral_eq
  have htraced := hmove.traced hadm (hv.traced t ht)
  dsimp only at heffects hcases hdefer htraced
  have hothers : ∀ u ∈ seen ++ t' :: rest, u = t' ∨ u ∈ v.run.active := by
    intro u hu
    rw [hactive]
    simp only [List.mem_append, List.mem_cons] at hu ⊢
    tauto
  -- an error that is new comes from this task, which then takes the blame
  have hnew : HasError results → HasError v.run.results ∨ t'.Blamed := by
    intro herror
    rcases hcases with ⟨-, hsame⟩ | ⟨failure, hfailures, -, hpush⟩
    · exact .inl (hsame.mp herror)
    · cases hdeferred : t.deferFailure with
      | true => rw [hpush, pushFailure, if_pos hdeferred] at herror; exact .inl herror
      | false => exact .inr ⟨by rw [hfailures]; simp, hdefer.1.trans hdeferred⟩
  have hgrow : HasError v.run.results → HasError results := by
    intro herror
    rcases hcases with ⟨-, hsame⟩ | ⟨failure, -, -, hpush⟩
    · exact hsame.mpr herror
    · rw [hpush, pushFailure]
      split
      · exact herror
      · simp [herror]
  have hblamed : t.Blamed → t'.Blamed := by
    rintro ⟨hfailures, hdeferred⟩
    refine ⟨?_, hdefer.1.trans hdeferred⟩
    rcases hcases with ⟨hsame, -⟩ | ⟨failure, hnew, -, -⟩
    · rw [hsame]; exact hfailures
    · rw [hnew]; simp
  have hkept : (∃ u ∈ v.run.active, u.Blamed) → ∃ u ∈ seen ++ t' :: rest, u.Blamed := by
    rintro ⟨u, hu, hb⟩
    rw [hactive] at hu
    simp only [List.mem_append, List.mem_cons] at hu
    rcases hu with hu | rfl | hu
    · exact ⟨u, by simp [hu], hb⟩
    · exact ⟨t', by simp, hblamed hb⟩
    · exact ⟨u, by simp [hu], hb⟩
  refine ⟨hready, fun u hu => ?_, fun u hu => ?_, fun hff u hu hf => ?_, hv.unfailed, fun u hu => ?_,
    hv.nonempty, fun h => hgrow (hv.failedError h), fun u hu hb => ?_, fun h => ?_,
    hv.stoppedFailed, fun h => ?_⟩
  · rcases hothers u hu with rfl | hu
    · rw [hdefer.1, hdefer.2]; exact hv.deferral t ht
    · exact hv.deferral u hu
  · rcases hothers u hu with rfl | hu
    · exact htraced
    · dsimp only; rw [heffects]; exact (hv.traced u hu).mono
  · rcases hothers u hu with rfl | hu
    · rcases hcases with ⟨hsame, -⟩ | ⟨failure, -, hchild, -⟩
      · exact absurd (hsame.trans (hadm.unfailed hff)) hf
      · exact hchild
    · exact hv.halted hff u hu hf
  · refine ⟨(hv.masked u hu).1, fun hf => ?_⟩
    dsimp only; rw [heffects]; exact ((hv.masked u hu).2 hf).mono
  · rcases hothers u hu with rfl | hu
    · obtain ⟨hfailures, hdeferred⟩ := hb
      rcases hcases with ⟨hsame, herr⟩ | ⟨failure, -, -, hpush⟩
      · exact herr.mpr (hv.blamedError t ht ⟨hsame ▸ hfailures, hdefer.1 ▸ hdeferred⟩)
      · dsimp only
        rw [hpush, pushFailure, if_neg (by rw [← hdefer.1, hdeferred]; decide)]
        simp
    · exact hgrow (hv.blamedError u hu hb)
  · rcases hnew h with h | hb
    · rcases hv.errorBlames h with hf | hb | hb | hs
      · exact .inl hf
      · exact .inr (.inl (hkept hb))
      · exact .inr (.inr (.inl hb))
      · exact .inr (.inr (.inr hs))
    · exact .inr (.inl ⟨t', by simp, hb⟩)
  · dsimp only; rw [heffects]; exact (hv.stoppedTraced h).mono

theorem ServiceMove.identity {s s' : ActiveTask} {effects : List Effect} {results : Results}
    {state : TaskState} {outcome : TaskOutcome}
    (h : ServiceMove s effects (some s') results state outcome) :
    s'.failures = s.failures ∧ s'.deferFailure = s.deferFailure ∧ s'.service = s.service ∧
      s'.position = s.position ∧ s'.name = s.name := by
  cases h <;> exact ⟨rfl, rfl, rfl, rfl, rfl⟩

theorem mem_of_mem_remove {α : Type} {a b : List α} {x y : α} (h : y ∈ a ++ b) :
    y ∈ a ++ x :: b := by
  simp only [List.mem_append, List.mem_cons] at h ⊢
  tauto

/-- Taking a task that carries no blame out of a container leaves the blame where it was. -/
theorem exists_blamed_remove {a b : List ActiveTask} {t : ActiveTask} (ht : ¬t.Blamed)
    (h : ∃ u ∈ a ++ t :: b, u.Blamed) : ∃ u ∈ a ++ b, u.Blamed := by
  obtain ⟨u, hu, hb⟩ := h
  simp only [List.mem_append, List.mem_cons] at hu
  rcases hu with hu | rfl | hu
  · exact ⟨u, by simp [hu], hb⟩
  · exact absurd hb ht
  · exact ⟨u, by simp [hu], hb⟩

theorem Run.Failing.hasFailed_or {v : View} (h : v.run.Failing) :
    HasFailed v.run.outcomes ∨ v.Unresolved := by
  rcases h with ⟨job, failures, -, hmem⟩ | h
  · exact .inl ⟨_, hmem, failures, rfl⟩
  · exact .inr (.inl h)

/-- Every move that troubles nobody keeps the verdicts together. -/
theorem Move.sound {failFast : Bool} {v v' : View} (h : Move failFast v v')
    (hclean : Untroubled v'.trace) (hv : Sound failFast v) : Sound failFast v' := by
  have hready := h.ready hv.ready
  have htrace := h.trace_extends
  have hsame : ∀ u : ActiveTask, u ∈ v.run.active → u ∈ v.run.active := fun _ h => h
  have hsame' : ∀ u : ActiveTask, u ∈ v.run.services → u ∈ v.run.services := fun _ h => h
  cases h with
  | begin | note | ask | decide | signal =>
    exact hv.still hready hsame hsame' htrace rfl rfl id id
  | recover | recovering | verify =>
    exact hv.still hready hsame hsame' htrace rfl rfl id fun _ => .inr (Option.some_ne_none _)
  | interrupt =>
    exact hv.still hready hsame hsame' htrace rfl rfl id fun _ => .inl (List.cons_ne_nil _ _)
  | sort pending hperm =>
    refine hv.still hready hsame hsame' htrace rfl rfl id fun h => h.imp ?_ id
    intro hne hnil
    have hnil : pending = [] := hnil
    rw [hnil] at hperm
    exact hne hperm.nil_eq.symm
  | fill task rest hqueued _ =>
    have hnew : ∀ u ∈ v.run.active ++ [ActiveTask.ofPlan task], u = .ofPlan task ∨ u ∈ v.run.active := by
      intro u hu
      simp only [List.mem_append, List.mem_singleton] at hu
      tauto
    have hfresh : (ActiveTask.ofPlan task).failures = [] := rfl
    refine ⟨hready, fun u hu => ?_, fun u hu => ?_, fun hff u hu hf => ?_, hv.unfailed, hv.masked,
      hv.nonempty, hv.failedError, fun u hu hb => ?_, fun h => ?_, hv.stoppedFailed,
      hv.stoppedTraced⟩
    · rcases hnew u hu with rfl | hu
      · rfl
      · exact hv.deferral u hu
    · rcases hnew u hu with rfl | hu
      · exact fun _ hf => absurd hfresh hf
      · exact hv.traced u hu
    · rcases hnew u hu with rfl | hu
      · exact absurd hfresh hf
      · exact hv.halted hff u hu hf
    · rcases hnew u hu with rfl | hu
      · exact absurd hfresh hb.1
      · exact hv.blamedError u hu hb
    · refine (hv.errorBlames h).imp id (Or.imp ?_ id)
      rintro ⟨u, hu, hb⟩
      exact ⟨u, List.mem_append_left _ hu, hb⟩
  | task seen rest t t' results trace hactive _ hadm hmove =>
    exact hv.moved hactive hadm hmove hready
  | park seen rest t hactive hservice hchild =>
    have ht : t ∈ v.run.active := by rw [hactive]; simp
    have hothers : ∀ u ∈ seen ++ rest, u ∈ v.run.active := by
      intro u hu; rw [hactive]; exact mem_of_mem_remove hu
    refine ⟨hready, fun u hu => hv.deferral u (hothers u hu), fun u hu => hv.traced u (hothers u hu),
      fun hff u hu => hv.halted hff u (hothers u hu), fun hff u hu => ?_, fun u hu => ?_,
      hv.nonempty, hv.failedError, fun u hu => hv.blamedError u (hothers u hu), fun h => ?_,
      hv.stoppedFailed, hv.stoppedTraced⟩
    · rcases List.mem_append.mp hu with hu | hu
      · exact hv.unfailed hff u hu
      · rw [List.mem_singleton.mp hu]
        by_contra hf
        exact absurd (hchild.symm.trans (hv.halted hff t ht hf)) (by decide)
    · rcases List.mem_append.mp hu with hu | hu
      · exact hv.masked u hu
      · rw [List.mem_singleton.mp hu]
        refine ⟨hservice, fun hf => (hv.traced t ht hservice hf).resolve_right ?_⟩
        rintro ⟨-, hno⟩
        exact absurd (hchild.symm.trans hno) (by decide)
    · rcases hv.errorBlames h with hf | ⟨u, hu, hb⟩ | ⟨u, hu, hb⟩ | hs
      · exact .inl hf
      · rw [hactive] at hu
        simp only [List.mem_append, List.mem_cons] at hu
        rcases hu with hu | rfl | hu
        · exact .inr (.inl ⟨u, by simp [hu], hb⟩)
        · exact .inr (.inr (.inl ⟨u, by simp, hb⟩))
        · exact .inr (.inl ⟨u, by simp [hu], hb⟩)
      · exact .inr (.inr (.inl ⟨u, by simp [hu], hb⟩))
      · exact .inr (.inr (.inr hs))
  | record seen rest t durationMs hactive hchild _ hkeep =>
    have hothers : ∀ u ∈ seen ++ rest, u ∈ v.run.active := by
      intro u hu; rw [hactive]; exact mem_of_mem_remove hu
    have ht : t ∈ v.run.active := by rw [hactive]; simp
    by_cases hfailed : t.failures = []
    · simp only [ActiveTask.verdict_of_passed hfailed] at hready htrace ⊢
      refine hv.unfailing hready hothers hsame' htrace rfl (by simp) .rfl ?_ (fun _ h => h) (by simp)
        (by simp)
      rintro (hb | hb)
      · rw [hactive] at hb
        exact .inl (exists_blamed_remove (fun hb => hb.1 hfailed) hb)
      · exact .inr (.inl hb)
    · have hnone : t.recoveryCommands.isSome = false := by
        simpa using fun h => hkeep ⟨hfailed, h⟩
      have hblamed : t.Blamed := ⟨hfailed, (hv.deferral t ht).trans hnone⟩
      simp only [ActiveTask.verdict_of_failed hfailed] at hready htrace ⊢
      exact hv.failed hready hothers hsame' htrace t.job hfailed rfl (hv.blamedError t ht hblamed)
  | defer seen rest t hactive hchild hfailed hsome =>
    have hothers : ∀ u ∈ seen ++ rest, u ∈ v.run.active := by
      intro u hu; rw [hactive]; exact mem_of_mem_remove hu
    have ht : t ∈ v.run.active := by rw [hactive]; simp
    refine hv.still hready hothers hsame' htrace rfl rfl ?_ fun _ => .inl (by simp)
    rintro (hb | hb)
    · rw [hactive] at hb
      refine .inl (exists_blamed_remove (fun hb => ?_) hb)
      exact absurd (((hv.deferral t ht).trans hsome).symm.trans hb.2) (by decide)
    · exact .inr hb
  | stop t rest durationMs hff hfailing hactive =>
    have hothers : ∀ u ∈ rest, u ∈ v.run.active := by
      intro u hu; rw [hactive]; exact List.mem_cons_of_mem _ hu
    refine hv.unfailing hready hothers hsame' htrace rfl (by simp) .rfl (fun _ => .inr (.inr (by simp)))
      (fun _ h => h) (fun _ => hfailing.hasFailed_or) fun _ => ?_
    exact ⟨t.job.snapshot .cancelled durationMs, by simp, rfl⟩
  | skipQueued hff hfailing hactive =>
    refine hv.unfailing hready hsame hsame' htrace rfl ?_ .rfl (fun h => h.imp id .inl)
      (fun _ h => h) (fun _ => hfailing.hasFailed_or) ?_
    · rintro ⟨entry, hentry, failures, hoc⟩
      obtain ⟨t, -, rfl⟩ := List.mem_map.mp hentry
      cases hoc
    · rintro ⟨entry, hentry, -⟩
      obtain ⟨t, ht, -⟩ := List.mem_map.mp hentry
      refine ⟨t.job.snapshot .cancelled none, ?_, rfl⟩
      rw [terminals_append, terminals_map_terminal]
      exact List.mem_append_right _ (List.mem_map.mpr ⟨t, ht, rfl⟩)
  | skipStages hff hfailing hdrained =>
    refine hv.unfailing hready hsame hsame' htrace rfl ?_ .rfl (fun h => h.imp id .inl)
      (fun _ h => h) (fun _ => hfailing.hasFailed_or) ?_
    · rintro ⟨entry, hentry, failures, hoc⟩
      obtain ⟨t, -, rfl⟩ := List.mem_map.mp hentry
      cases hoc
    · rintro ⟨entry, hentry, -⟩
      obtain ⟨t, ht, -⟩ := List.mem_map.mp hentry
      refine ⟨t.job.snapshot .cancelled none, ?_, rfl⟩
      rw [terminals_append, terminals_map_terminal]
      exact List.mem_append_right _ (List.mem_map.mpr ⟨t, ht, rfl⟩)
  | service kept rest s s' effects results state outcome hservices _ hmove =>
    have hs : s ∈ v.run.services := by rw [hservices]; simp
    obtain ⟨hfailures, hdefer, hservice, hposition, hname⟩ := hmove.identity
    have hothers : ∀ u ∈ kept ++ s' :: rest, u = s' ∨ u ∈ v.run.services := by
      intro u hu
      rw [hservices]
      simp only [List.mem_append, List.mem_cons] at hu ⊢
      tauto
    refine ⟨hready, hv.deferral, fun u hu => (hv.traced u hu).mono, hv.halted, fun hff u hu => ?_,
      fun u hu => ?_, hv.nonempty, hv.failedError, hv.blamedError, fun h => ?_, hv.stoppedFailed,
      fun h => (hv.stoppedTraced h).mono⟩
    · rcases hothers u hu with rfl | hu
      · rw [hfailures]; exact hv.unfailed hff s hs
      · exact hv.unfailed hff u hu
    · rcases hothers u hu with rfl | hu
      · rw [hfailures, hservice, hposition, hname]
        exact ⟨(hv.masked s hs).1, fun hf => ((hv.masked s hs).2 hf).mono⟩
      · exact ⟨(hv.masked u hu).1, fun hf => ((hv.masked u hu).2 hf).mono⟩
    · refine (hv.errorBlames h).imp id (Or.imp id (Or.imp ?_ id))
      rintro ⟨u, hu, hb⟩
      rw [hservices] at hu
      simp only [List.mem_append, List.mem_cons] at hu
      rcases hu with hu | rfl | hu
      · exact ⟨u, by simp [hu], hb⟩
      · exact ⟨s', by simp, hfailures ▸ hb.1, hdefer ▸ hb.2⟩
      · exact ⟨u, by simp [hu], hb⟩
  | serviceLeft kept rest s effects results state outcome durationMs hservices _ hmove =>
    have hs : s ∈ v.run.services := by rw [hservices]; simp
    have hothers : ∀ u ∈ kept ++ rest, u ∈ v.run.services := by
      intro u hu; rw [hservices]; exact mem_of_mem_remove hu
    cases hmove with
    | spawnFailed command restCommands error failure =>
      exact hv.failed hready hsame hothers htrace s.job (List.append_ne_nil_of_right_ne_nil _ (by simp))
        rfl (by simp [Run.reported, Run.snapshotted])
    | exhausted status failure =>
      exact hv.failed hready hsame hothers htrace s.job (List.append_ne_nil_of_right_ne_nil _ (by simp))
        rfl (by simp [Run.reported, Run.snapshotted])
    | stopped status hchild hok =>
      -- a failure of this service would be masked by its exit
      have hunblamed : ¬s.Blamed := by
        rintro ⟨hfailed, -⟩
        exact hclean.services ⟨v.trace, [v.run.terminal (s.job.snapshot .passed durationMs)],
          s.proc .original, status, List.append_assoc _ _ _, (hv.masked s hs).1, rfl, hok,
          (hv.masked s hs).2 hfailed⟩
      refine hv.unfailing hready hsame hothers htrace rfl (by simp)
        (by simp [Run.reported, Run.snapshotted]) ?_ (fun _ h => h) (by simp) (by simp)
      rintro (hb | hb)
      · exact .inl hb
      · rw [hservices] at hb
        exact .inr (.inl (exists_blamed_remove hunblamed hb))
  | keep t rest durationMs hdrained hrec htoken hpending =>
    have hfailed : t.failures ≠ [] := (hv.ready.deferred htoken t (by rw [hpending]; simp)).2
    simp only [ActiveTask.verdict_of_failed hfailed] at hready htrace ⊢
    exact hv.failed hready hsame hsame' htrace t.job hfailed rfl (by simp [Run.reported, Run.snapshotted])
  | recoveryFailed t original failure durationMs hrec hchild hfailed =>
    exact hv.failed hready hsame hsame' htrace t.job (by simp [hfailed]) rfl
      (by simp [Run.reported, Run.snapshotted])
  | verified t original fallback durationMs hrec hchild =>
    by_cases hfailed : t.failures = []
    · have hunstopped : ¬HasStopped v.run.outcomes := by
        intro hstopped
        refine hclean.recovery ⟨v.trace, [v.run.terminal (t.job.snapshot t.verdict.1 durationMs)],
          v.run.metadata.runId, t.name, ?_, hv.stoppedTraced hstopped⟩
        simp only [Run.verificationFinished, if_pos hfailed]
      simp only [ActiveTask.verdict_of_passed hfailed] at hready htrace ⊢
      refine hv.unfailing hready hsame hsame' htrace rfl (by simp) ?_ (fun h => h.imp id .inl) ?_
        (by simp) (by simp)
      · simp [Run.reported, Run.snapshotted, ActiveTask.result, hfailed]
      · intro hstopped
        have hold := (hasStopped_append v.run.outcomes [t.job.entry .passed]).mp hstopped
        exact absurd (hold.resolve_right (by simp)) hunstopped
    · simp only [ActiveTask.verdict_of_failed hfailed] at hready htrace ⊢
      exact hv.failed hready hsame hsame' htrace t.job hfailed rfl
        (by simp [Run.reported, Run.snapshotted, ActiveTask.result, hfailed])

/-! ### Finished runs -/

theorem Run.outcome_isSuccess (run : Run) :
    run.outcome.isSuccess = true ↔ ¬HasFailed run.outcomes ∧ ¬HasStopped run.outcomes := by
  have hmem : ∀ entry, entry ∈ (run.outcomes.insertionSort fun a b => a.1 ≤ b.1)
      ↔ entry ∈ run.outcomes := fun _ => (List.perm_insertionSort _ _).mem_iff
  simp only [RunOutcome.isSuccess, Run.outcome, List.all_map, List.all_eq_true, Function.comp_apply,
    decide_eq_true_eq, hmem]
  constructor
  · intro hall
    refine ⟨?_, ?_⟩
    · rintro ⟨entry, hentry, failures, hoc⟩
      exact absurd (hoc.symm.trans (hall entry hentry)) (by simp)
    · rintro ⟨entry, hentry, hoc | hoc⟩
      · exact absurd (hoc.symm.trans (hall entry hentry)) (by simp)
      · exact absurd (hoc.symm.trans (hall entry hentry)) (by simp)
  · rintro ⟨hfailed, hstopped⟩ entry hentry
    cases hoc : entry.2.2.2 with
    | passed => rfl
    | failed failures => exact absurd ⟨entry, hentry, failures, hoc⟩ hfailed
    | cancelled => exact absurd ⟨entry, hentry, .inl hoc⟩ hstopped
    | skipped => exact absurd ⟨entry, hentry, .inr hoc⟩ hstopped

theorem Run.outcome_failures {run : Run} (hne : ∀ entry ∈ run.outcomes, entry.2.2.2 ≠ .failed []) :
    run.outcome.failures = [] ↔ ¬HasFailed run.outcomes := by
  have hmem : ∀ entry, entry ∈ (run.outcomes.insertionSort fun a b => a.1 ≤ b.1)
      ↔ entry ∈ run.outcomes := fun _ => (List.perm_insertionSort _ _).mem_iff
  simp only [RunOutcome.failures, Run.outcome, List.flatMap_map, List.flatMap_eq_nil_iff, hmem]
  constructor
  · rintro hnone ⟨entry, hentry, failures, hoc⟩
    have hnil := hnone entry hentry
    simp only [hoc, List.map_eq_nil_iff] at hnil
    exact hne entry hentry (hnil ▸ hoc)
  · intro hfailed entry hentry
    cases hoc : entry.2.2.2 with
    | failed failures => exact absurd ⟨entry, hentry, failures, hoc⟩ hfailed
    | _ => rfl

/-- Everything that reports on a finished run says the same: the emitted failures, the results, the
    hook that was run, and what every listener makes of the event. -/
def VerdictsAgree (env : Env W) (io : Io W) (run : Run) : Prop :=
  ∃ supersededBy elapsed failures,
    let event := Event.finished run.metadata.runId supersededBy elapsed failures
    let done := (finish env io run).2
    let success := done.outcome.isSuccess
    (finish env io run).1.trace.getLast? = some (.event event) ∧
    (failures = [] ↔ success = true) ∧
    (¬HasError done.results ↔ success = true) ∧
    selectedHook run.metadata done.outcome
      = (if failures = [] then run.metadata.hooks.success else run.metadata.hooks.failure) ∧
    (∀ state : WatcherState, (state.apply event).state = if success then .passed else .failed) ∧
    (∀ inner : AwaitInner, (inner.observe event).terminal.getLast?
      = some ⟨run.metadata.runId, if success then .passed else .failed, supersededBy⟩) ∧
    (∀ (recorder : DurationRecorder) (signature : String),
      recorder.associations.get? run.metadata.runId = some signature →
      (recorder.observe event).history = recorder.history
        ++ [(signature, if success then .success (elapsed % 2 ^ 64) else .failure (elapsed % 2 ^ 64))])

theorem AwaitInner.record_getLast (inner : AwaitInner) (record : TerminalRecord) :
    (inner.record record).terminal.getLast? = some record := by
  simp only [AwaitInner.record]
  rw [List.getLast?_drop, if_neg]
  · simp
  · simp only [List.length_append, List.length_singleton, terminalHistoryBound, not_le]
    omega

/-- The two facts about a run on which every report of it hangs. -/
theorem verdictsAgree_of {env : Env W} {io : Io W} {run : Run}
    (hfailures : run.outcome.failures = [] ↔ run.outcome.isSuccess = true)
    (hresults : ¬HasError run.results ↔ run.outcome.isSuccess = true)
    (hsuperseded : run.supersededBy = none) : VerdictsAgree env io run := by
  refine ⟨run.supersededBy, env.now io.world - run.started, run.outcome.failures, ?_, hfailures,
    hresults, ?_, fun state => ?_, fun inner => ?_, fun recorder signature hlookup => ?_⟩
  · simp [finish, Io.emit, Io.record]
  · simp only [selectedHook, finish, hfailures]; rfl
  · simp only [WatcherState.apply, hfailures]; rfl
  · rw [AwaitInner.observe, AwaitInner.record_getLast]
    simp only [hfailures]; rfl
  · simp only [DurationRecorder.observe, DurationRecorder.settle, hlookup, finishedSample, hsuperseded,
      hfailures]
    rfl

theorem Move.supersededBy_eq {failFast : Bool} {v v' : View} (h : Move failFast v v') :
    v'.run.supersededBy = v.run.supersededBy := by
  cases h <;> rfl

/-- What sessions keep for the agreement: soundness as long as nothing troubled the run. -/
structure Agreeable (failFast : Bool) (v : View) : Prop where
  sound : Untroubled v.trace → Sound failFast v
  superseded : v.run.supersededBy = none

theorem Move.agreeable {failFast : Bool} {v v' : View} (h : Move failFast v v')
    (hv : Agreeable failFast v) : Agreeable failFast v' := by
  refine ⟨fun hclean => ?_, h.supersededBy_eq.trans hv.superseded⟩
  obtain ⟨effects, htrace⟩ := h.trace_extends
  exact h.sound hclean (hv.sound (htrace ▸ hclean).of_append)

theorem Agreeable.append {failFast : Bool} {v : View} (hv : Agreeable failFast v)
    (stages : List Stage) : Agreeable failFast (v.appended stages) := by
  refine ⟨fun hclean => ?_, hv.superseded⟩
  have hsound := hv.sound hclean
  exact hsound.still ⟨hsound.ready.fresh, hsound.ready.deferred⟩ (fun _ h => h) (fun _ h => h)
    ⟨[], (List.append_nil _).symm⟩ rfl rfl id id

theorem startView_agreeable (failFast : Bool) (env : Env W) (world : W) (metadata : RunMetadata)
    (plan : RunPlan) : Agreeable failFast (startView env world metadata plan) := by
  refine ⟨fun _ => ⟨⟨?_, ?_⟩, ?_, ?_, ?_, ?_, ?_, ?_, ?_, ?_, ?_, ?_, ?_⟩, rfl⟩
  · intro t ht; cases ht
  · intro _ t ht; cases ht
  · intro t ht; cases ht
  · intro t ht; cases ht
  · intro _ t ht; cases ht
  · intro _ t ht; cases ht
  · intro t ht; cases ht
  · intro t ht; cases ht
  · rintro ⟨_, h, _⟩; cases h
  · intro t ht; cases ht
  · rintro ⟨_, h⟩; cases h
  · rintro ⟨_, h, _⟩; cases h
  · rintro ⟨_, h, _⟩; cases h

/-- The finished run of a session that stopped no service by a reload, in which no job recovered
    after fail-fast had stopped other work and no service masked a failed start, is reported alike
    everywhere. -/
theorem Session.verdicts_agree (ex : LawfulExecutor) (env : Env W) (world : W) (metadata : RunMetadata)
    (plan : RunPlan) (ops : List Op)
    (hfinished : ((Session.start env world metadata plan).after ex env ops).progress
      = some (.returned .finished))
    (hstopped : (Session.start env world metadata plan).stopped ex env ops = [])
    (hclean : Untroubled ((Session.start env world metadata plan).after ex env ops).io.trace) :
    VerdictsAgree env ((Session.start env world metadata plan).after ex env ops).io
      ((Session.start env world metadata plan).after ex env ops).run := by
  have hs := Session.after_holds_spared ex env (fun _ _ hmove => hmove.agreeable)
    (fun _ stages _ hv => hv.append stages) ops _ hstopped
    (Session.start_holds ex.failFast env world metadata plan
      (startView_agreeable ex.failFast env world metadata plan))
  rw [Session.Holds, hfinished] at hs
  obtain ⟨hagree, ⟨hactive, -⟩, -, hpending, hservices⟩ := hs
  set s := (Session.start env world metadata plan).after ex env ops
  have hsound := hagree.sound hclean
  have hne : ∀ entry ∈ s.run.outcomes, entry.2.2.2 ≠ .failed [] := hsound.nonempty
  have hfailed : HasFailed s.run.outcomes → HasError s.run.results := hsound.failedError
  have hresolved : ¬(view s.io s.run).Unresolved := by
    rintro (h | h)
    · exact h hpending
    · exact h rfl
  have hstop : HasStopped s.run.outcomes → HasFailed s.run.outcomes :=
    fun h => (hsound.stoppedFailed h).resolve_right hresolved
  have herror : HasError s.run.results → HasFailed s.run.outcomes := by
    intro h
    rcases hsound.errorBlames h with hf | ⟨t, ht, -⟩ | ⟨t, ht, hb⟩ | ⟨-, hu⟩
    · exact hf
    · exact absurd (hactive ▸ ht) List.not_mem_nil
    · cases hff : ex.failFast with
      | true => exact absurd (hsound.unfailed hff t ht) hb.1
      | false => exact absurd (hservices hff ▸ ht) List.not_mem_nil
    · exact absurd hu hresolved
  refine verdictsAgree_of ?_ ?_ hagree.superseded
  · rw [Run.outcome_failures hne, Run.outcome_isSuccess]
    exact ⟨fun h => ⟨h, fun hs => h (hstop hs)⟩, And.left⟩
  · rw [Run.outcome_isSuccess]
    exact ⟨fun h => ⟨fun hf => h (hfailed hf), fun hs => h (hfailed (hstop hs))⟩,
      fun h he => h.1 (herror he)⟩

/-- An effect that takes part in neither kind of trouble. -/
def Effect.calm : Effect → Bool
  | .event (.recoveryPhase _ _ _ _) => false
  | .spawnFailed _ _ _ => false
  | _ => true

theorem untroubled_of_calm {trace : List Effect} (h : trace.all Effect.calm = true) :
    Untroubled trace := by
  rw [List.all_eq_true] at h
  constructor
  · rintro ⟨before, after, runId, job, rfl, -⟩
    exact absurd (h _ (List.mem_append_right _ List.mem_cons_self)) (by simp [Effect.calm])
  · rintro ⟨before, after, proc, status, rfl, -, -, -, proc', command, error, hmem, -⟩
    exact absurd (h _ (List.mem_append_left _ hmem)) (by simp [Effect.calm])

/-- A finished run of a service and of a failing job, whose reports agree. -/
theorem Session.verdicts_agree_at_build :
    let plan := RunPlan.fromRules
      [{ name := "server", commands := ["serve"], service := true }, { name := "build", commands := ["make"] }]
    let env := steadyEnv fun task =>
      some (if task.service then ⟨some 0, "exit status: 0"⟩ else ⟨some 1, "exit status: 1"⟩)
    let s := (Session.start env () { runId := 1 } plan).after {} env [.advance 1, .advance 1, .advance 1]
    VerdictsAgree env s.io s.run ∧ (finish env s.io s.run).2.outcome.isSuccess = false := by
  intro plan env s
  exact ⟨Session.verdicts_agree {} env () { runId := 1 } plan [.advance 1, .advance 1, .advance 1]
    (by decide) (by decide) (untroubled_of_calm (by decide)), by decide⟩

/-- Every command starts; the child polled first exits with 1, every later one with 0. -/
def firstExitFails : Env Nat where
  isDir _ _ _ := true
  spawn w _ _ := (.ok (), w)
  tryWait w _ := (.ok (some ⟨some (if w = 0 then 1 else 0), "exit status: 1"⟩), w + 1)
  shutdown w _ := (false, w)
  signal w := (false, w)
  approval w _ := (.answered (.line "y"), w)
  concurrencyLimit _ := 2
  concurrencyLimit_pos _ := by decide
  now _ := 0
  hook w _ := (.ok ⟨some 0, "exit status: 0"⟩, w)

/-- Under fail-fast a recovered job leaves a run without failures that is not a success. -/
theorem Session.recovered_run_disagrees :
    let plan := RunPlan.fromRules
      [{ name := "lint", commands := ["lint"], recovery := some ["fix"] },
        { name := "test", commands := ["test"] }]
    let ex : LawfulExecutor := { failFast := true, approval := ttyRecoveryApproval }
    let s := (Session.start firstExitFails 0 { runId := 1 } plan).after ex firstExitFails
      [.advance 9, .advance 9]
    s.progress = some (.returned .finished) ∧ ¬VerdictsAgree firstExitFails s.io s.run := by
  intro plan ex s
  refine ⟨by decide, ?_⟩
  rintro ⟨supersededBy, elapsed, failures, hlast, hfailures, -⟩
  have hevent : (finish firstExitFails s.io s.run).1.trace.getLast?
      = some (.event (.finished 1 none 0 [])) := by decide
  have hsuccess : (finish firstExitFails s.io s.run).2.outcome.isSuccess = false := by decide
  obtain ⟨-, -, -, hnone⟩ :=
    Event.finished.inj (Effect.event.inj (Option.some.inj (hevent.symm.trans hlast)))
  exact absurd (hsuccess.symm.trans (hfailures.mp hnone.symm)) (by decide)

end Funzzy
