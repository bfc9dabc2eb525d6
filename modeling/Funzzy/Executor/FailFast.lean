import Funzzy.Executor.Halting

/-! Fail-fast stops new work (`executor.rs`).

    The pass over the active tasks, the background services and the recovery of the failed job are put
    together to calls of `advance` and to sessions. A call that meets a failure ends the run or leaves it
    cancelled, so the trace of a run under fail-fast has at most one failure of the stage, and after it
    only what `Stopping` permits. -/

namespace Funzzy

open History

variable {W : Type}

/-! ### The recovery of the failed job -/

/-- The recovery of the failed job starts no process of an original pass and reports no other job. -/
theorem stopping_recovers (position : Nat) : Recovers (Effect.StopsFor position) position where
  note _ _ _ _ := ⟨rfl, rfl, by simp [terminals]⟩
  asked _ := ⟨rfl, rfl, by simp [terminals]⟩
  decided _ := ⟨rfl, rfl, by simp [terminals]⟩
  killed _ _ := ⟨rfl, rfl, by simp [terminals]⟩
  report _ snapshot hposition := by
    refine ⟨rfl, rfl, fun other hother => .inr ?_⟩
    rw [List.mem_singleton.mp hother, hposition]
  task {phase t effects t'} hphase hchange := by
    have hevent : ∀ x : Effect, x.isStart = false → x.failure? = none → terminals [x] = [] →
        x.StopsFor position := fun x hstart hfailure hnone => ⟨hstart, hfailure, by simp [hnone]⟩
    have hother : ∀ s : ActiveTask, (s.proc phase).phase ≠ .original := fun _ => hphase
    intro x hx
    cases hchange with
    | validate => cases hx
    | invalid | tick =>
      rw [List.mem_singleton.mp hx]
      exact hevent _ rfl rfl rfl
    | spawned command rest now =>
      rcases List.mem_pair.mp hx with rfl | rfl
      · exact hevent _ (decide_eq_false (hother _)) rfl rfl
      · exact hevent _ rfl rfl rfl
    | spawnFailed command rest =>
      rw [List.mem_singleton.mp hx]
      exact hevent _ rfl (if_neg (hother _)) rfl
    | exited status | restarted status =>
      rw [List.mem_singleton.mp hx]
      exact hevent _ rfl (if_neg fun h => hother _ h.1) rfl
    | failed effect failure _ heffect =>
      rw [List.mem_singleton.mp hx]
      rcases heffect with ⟨status, rfl⟩ | ⟨error, rfl⟩
      · exact hevent _ rfl (if_neg fun h => hother _ h.1) rfl
      · exact hevent _ rfl (if_neg (hother _)) rfl

/-! ### Calls of `advance` -/

/-- What a call leaves: a smooth run, or one that has failed and is over or cancelled. -/
def AdvancedFast (r : Io W × Run × Progress) : Prop :=
  Smooth r.1 r.2.1 ∨
    ((∃ position, FailedOnly position r.1.trace) ∧ (r.2.2 = .returned .running → r.1.token = true))

theorem endFailFast_fast (ex : LawfulExecutor) (env : Env W) (polls : Nat) {io : Io W} {run : Run}
    {position : Nat} (h : Halted position io run) (hfailing : run.Failing) (htoken : io.token = false)
    (hready : (view io run).Ready) : AdvancedFast (endFailFast ex env polls io run) := by
  obtain ⟨hmoves, htok, hdrained, -⟩ := stopAfterFailure_moves env io run hfailing
  obtain ⟨hstopped, -, -⟩ := stopAfterFailure_halted env h
  unfold endFailFast
  rcases hr : stopAfterFailure env io run with ⟨io₁, run₁⟩
  rw [hr] at hmoves htok hdrained hstopped
  dsimp only at hmoves htok hdrained hstopped ⊢
  by_cases hnone : run₁.pendingRecoveries = []
  · rw [if_pos hnone]
    exact .inr ⟨⟨position, hstopped.failed⟩, nofun⟩
  · rw [if_neg hnone]
    obtain ⟨l, htrace, hl⟩ := resolveRecoveries_adds (stopping_recovers position) ex env polls io₁
      hstopped.pending
    have hres := resolveRecoveries_resolved ex env polls io₁ run₁ hdrained (htok.trans htoken)
      (Moves.ready hmoves hready)
    rcases hr' : resolveRecoveries ex env polls io₁ run₁ with ⟨io₂, run₂, _ | _ | _⟩ <;>
      rw [hr'] at hres htrace <;> have hfailed := htrace ▸ hstopped.failed.append hl
    · exact .inr ⟨⟨position, hfailed⟩, nofun⟩
    · exact .inr ⟨⟨position, hfailed⟩, fun _ => hres.2.1⟩
    · exact .inr ⟨⟨position, hfailed⟩, nofun⟩

theorem fillAvailableSlots_services : ∀ (tasks : List TaskPlan) (run : Run),
    (fillAvailableSlots tasks run).services = run.services
  | [], _ => rfl
  | task :: rest, run => by
    rw [fillAvailableSlots]
    split
    · exact fillAvailableSlots_services rest _
    · rfl

theorem openStage_smooth (env : Env W) {io : Io W} {run : Run} (h : Smooth io run) :
    Smooth (openStage env io run).1 (openStage env io run).2 := by
  obtain ⟨hsilent, hpending, hbackground⟩ := h
  have hfill : ∀ (io : Io W) (run : Run), Smooth io run →
      Smooth io (fillAvailableSlots run.queued run) := by
    intro io run h
    refine ⟨h.silent, (fillAvailableSlots_pending _ _).trans h.pending, fun s hs => ?_⟩
    rw [fillAvailableSlots_services] at hs
    exact h.background s hs
  unfold openStage
  cases run.stages with
  | nil => exact hfill io run ⟨hsilent, hpending, hbackground⟩
  | cons stage rest =>
    dsimp only
    split
    · refine hfill _ _ ⟨silent_quiet hsilent fun y hy => ?_, hpending, fun s hs => ?_⟩
      · rw [List.mem_singleton.mp hy]
        rfl
      · exact ⟨(hbackground s hs).1, (hbackground s hs).2.mono⟩
    · exact hfill io run ⟨hsilent, hpending, hbackground⟩

theorem advanceLoop_fast (ex : LawfulExecutor) (env : Env W) (polls : Nat) (hff : ex.failFast = true) :
    ∀ (fuel : Nat) (io : Io W) (run : Run), io.token = false → (view io run).Ready →
      run.Settled ex.failFast → Smooth io run → AdvancedFast (advanceLoop ex env polls fuel io run)
  | 0, _, _, _, _, _, hsmooth => .inl hsmooth
  | fuel + 1, io, run, htoken, hready, hsettled, hsmooth => by
    rw [advanceLoop]
    split
    · split
      · exact .inl hsmooth
      · exact .inl (advanceServicesFrom_smooth env run.services [] io run rfl hsmooth)
    · obtain ⟨hopen, htoken₁, hsettled₁⟩ :=
        openStage_moves ex.failFast env io run htoken (fun _ => hsmooth.pending) hsettled
      have hsmooth₁ := openStage_smooth env hsmooth
      rcases hr₁ : openStage env io run with ⟨io₁, run₁⟩
      rw [hr₁] at hopen htoken₁ hsettled₁ hsmooth₁
      dsimp only at hopen htoken₁ hsettled₁ hsmooth₁ ⊢
      have hready₁ := Moves.ready hopen hready
      have hscan := scanActive_scanned ex env run₁.active [] false io₁ run₁ rfl hready₁ hsettled₁
      have hfast := scanActive_fast ex env hff run₁.active [] false io₁ run₁
        (fun t ht => ⟨hready₁.fresh t ht, hff ▸ hsettled₁ t ht⟩) hsmooth₁
      rcases hr₂ : scanActive ex env [] run₁.active false io₁ run₁ with ⟨io₂, run₂, scanned⟩
      rw [hr₂] at hscan hfast
      have hready₂ := Moves.ready hscan.moves hready₁
      have htoken₂ : io₂.token = false := hscan.token_eq.trans htoken₁
      cases scanned with
      | failedFast =>
        obtain ⟨position, hhalted⟩ := hfast
        exact endFailFast_fast ex env polls hhalted hscan.describes.2 htoken₂ hready₂
      | polled taskFinished =>
        have hsmooth₃ := advanceServicesFrom_smooth env run₂.services [] io₂ run₂ rfl hfast
        obtain ⟨hserv, htoken₃, hsame₃⟩ := advanceServices_moves ex.failFast env io₂ run₂
        rw [← advanceServices] at hsmooth₃
        rcases hr₃ : advanceServices env io₂ run₂ with ⟨io₃, run₃⟩
        simp only [hr₃] at hserv htoken₃ hsame₃ hsmooth₃ ⊢
        have hagain := advanceLoop_fast ex env polls hff fuel io₃ run₃ (htoken₃.trans htoken₂)
          (Moves.ready hserv hready₂) (hscan.settled.of_active hsame₃.active) hsmooth₃
        split
        · -- under fail-fast no recovery is pending while the run is smooth
          rw [if_neg (not_not.mpr hsmooth₃.pending)]
          split
          · exact hagain
          · exact .inl hsmooth₃
        · split
          · exact hagain
          · exact .inl hsmooth₃

/-! ### Sessions -/

/-- Where a session under fail-fast stands: nothing has failed, or one job has, and the run is over or
    cancelled. -/
def Session.Fast (s : Session W) : Prop :=
  Smooth s.io s.run ∨
    ((∃ position, FailedOnly position s.io.trace) ∧ (s.open = true → s.io.token = true))

theorem Session.apply_fast (ex : LawfulExecutor) (env : Env W) (hff : ex.failFast = true) {s : Session W}
    (hopen : s.open = true) {P : View → Prop} (hs : s.Holds ex.failFast P) (h : s.Fast) (op : Op) :
    (s.apply ex env op).Fast := by
  obtain ⟨-, hready, hsettled, -⟩ := (Session.holds_of_open hopen).mp hs
  cases op with
  | append plan =>
    rcases h with hsmooth | hfailed
    · exact .inl ⟨hsmooth.silent, hsmooth.pending, hsmooth.background⟩
    · exact .inr hfailed
  | reconcile stopNames =>
    obtain ⟨hview, hprogress⟩ := Session.reconcile_view ex env s stopNames
    have htrace : (s.apply ex env (.reconcile stopNames)).io.trace = _ := congrArg View.trace hview
    have htoken : (s.apply ex env (.reconcile stopNames)).io.token = s.io.token :=
      congrArg View.token hview
    have hservices : (s.apply ex env (.reconcile stopNames)).run.services = _ :=
      congrArg (fun v : View => v.run.services) hview
    have hpending : (s.apply ex env (.reconcile stopNames)).run.pendingRecoveries = _ :=
      congrArg (fun v : View => v.run.pendingRecoveries) hview
    have hkills : ∀ position, ∀ y ∈ (s.run.services.filter fun t => stopNames.contains t.name).flatMap
        (·.killEffects), y.StopsFor position := by
      intro position y hy
      obtain ⟨t, -, hy⟩ := List.mem_flatMap.mp hy
      exact t.killEffects_stopping position y hy
    rcases h with hsmooth | ⟨⟨position, hfailed⟩, htok⟩
    · refine .inl ⟨?_, hpending.trans hsmooth.pending, fun t ht => ?_⟩
      · rw [htrace]
        exact silent_quiet hsmooth.silent fun y hy => (hkills 0 y hy).2.1
      · rw [hservices] at ht
        rw [htrace]
        obtain ⟨hservice, hstarted⟩ := hsmooth.background t (List.mem_filter.mp ht).1
        exact ⟨hservice, hstarted.mono⟩
    · refine .inr ⟨⟨position, ?_⟩, fun _ => htoken.trans (htok hopen)⟩
      rw [htrace]
      exact hfailed.append (hkills position)
  | advance polls =>
    obtain ⟨htrace, htok, hmono⟩ := cancellationRequested_eq env s.io
    simp only [Session.apply, Funzzy.advance]
    rcases hc : s.io.cancellationRequested env with ⟨_ | _, io₁⟩ <;>
      simp only [hc] at htrace htok hmono ⊢
    · rcases h with hsmooth | ⟨-, htoken⟩
      · have hread : Moves ex.failFast (view s.io s.run) (view io₁ s.run) :=
          token_moves rfl rfl htrace fun h => htok.trans (hmono h)
        have hloop := advanceLoop_fast ex env polls hff (s.run.work + 1) io₁ s.run htok
          (Moves.ready hread hready) hsettled
          ⟨htrace ▸ hsmooth.silent, hsmooth.pending, fun t ht => htrace ▸ hsmooth.background t ht⟩
        refine hloop.imp id fun hend => ⟨hend.1, fun hopen' => hend.2 ?_⟩
        simpa [Session.open] using hopen'
      · exact absurd (hmono (htoken hopen)) (by decide)
    · rcases h with hsmooth | ⟨hfailed, -⟩
      · exact .inl ⟨htrace ▸ hsmooth.silent, hsmooth.pending,
          fun t ht => htrace ▸ hsmooth.background t ht⟩
      · exact .inr ⟨htrace ▸ hfailed, fun _ => htok⟩

theorem Session.after_fast (ex : LawfulExecutor) (env : Env W) (hff : ex.failFast = true) :
    ∀ (ops : List Op) (s : Session W), s.Holds ex.failFast (fun _ => True) → s.Fast →
      (s.after ex env ops).Fast
  | [], _, _, h => h
  | op :: ops, s, hs, h => by
    rw [Session.after]
    by_cases hopen : s.open = true
    · rw [if_pos hopen]
      refine Session.after_fast ex env hff ops _ ?_ (Session.apply_fast ex env hff hopen hs h op)
      cases op with
      | advance polls => exact Session.advance_holds ex env polls (fun _ _ _ _ => trivial) hopen hs
      | append plan => exact Session.append_holds ex env plan hopen hs fun _ _ _ => trivial
      | reconcile stopNames =>
        exact Session.reconcile_holds ex env stopNames hopen hs fun _ => trivial
    · rw [if_neg hopen]
      exact Session.after_fast ex env hff ops s hs h

theorem Session.start_fast (env : Env W) (world : W) (metadata : RunMetadata) (plan : RunPlan) :
    (Session.start env world metadata plan).Fast := by
  refine .inl ⟨?_, rfl, by simp [Session.start, Funzzy.start]⟩
  have hone : Silent Fails ([] ++ (Session.start env world metadata plan).io.trace) :=
    silent_quiet silent_nil fun y hy => by
      rw [List.mem_singleton.mp hy]
      rfl
  exact hone

/-! ### Who is reported -/

/-- A job that is gone has been reported, but for a service that has been started. -/
structure Answerable (u : TaskPlan) (e : Option Entity) (h : List Effect) : Prop where
  course : Course u e h
  child : ∀ t, e = some (.active t) → t.child = true → Started h u.position
  service : ∀ s, e = some (.service s) → Started h u.position
  gone : e = none → (u.service = true → ¬Started h u.position) →
    u.job.key ∈ (terminals h).map TaskSnapshot.key

theorem Started.historyAt {position : Nat} {l : List Effect} (h : Started l position) :
    Started (historyAt position l) position := by
  obtain ⟨y, hy, hstart, hposition⟩ := h
  exact ⟨y, List.mem_filter.mpr ⟨hy, decide_eq_true hposition⟩, hstart, hposition⟩

theorem Started.of_historyAt {position : Nat} {l : List Effect}
    (h : Started (Funzzy.historyAt position l) position) : Started l position := by
  obtain ⟨y, hy, hstart⟩ := h
  exact ⟨y, (List.mem_filter.mp hy).1, hstart⟩

/-- A job that stays, in a role in which nothing is claimed of it. -/
theorem Answerable.stay {u : TaskPlan} {e : Entity} {h : List Effect} (hc : Course u (some e) h)
    (hchild : ∀ t, e = .active t → t.child = true → Started h u.position)
    (hservice : ∀ s, e = .service s → Started h u.position) : Answerable u (some e) h :=
  ⟨hc, fun t he => hchild t (Option.some.inj he), fun s he => hservice s (Option.some.inj he),
    by simp⟩

theorem EntityMove.answerable {failFast : Bool} {e : Entity} {effects : List Effect}
    {e' : Option Entity} (hmove : EntityMove failFast e effects e') {u : TaskPlan} {h : List Effect}
    (ha : Answerable u (some e) h) : Answerable u e' (h ++ historyAt u.position effects) := by
  obtain ⟨hfollows, -, -⟩ := ha.course.present e rfl
  have hc' := hmove.course ha.course
  have howns := hmove.owns
  rw [hfollows.position_eq] at howns
  -- a job that leaves with a report has been reported
  have hleave : ∀ (run : Run) (job : JobId) (first : List Effect) (state : TaskState)
      (durationMs : Option Nat), effects = first ++ [run.terminal (job.snapshot state durationMs)] →
      job = u.job → e' = none → Answerable u e' (h ++ historyAt u.position effects) := by
    rintro run job first state durationMs heffects rfl hnone
    refine ⟨hc', fun t he => ?_, fun s he => ?_, fun _ _ => ?_⟩
    · rw [hnone] at he
      cases he
    · rw [hnone] at he
      cases he
    · rw [terminals_append, terminals_historyAt howns, heffects, terminals_append, List.map_append,
        List.map_append]
      exact List.mem_append_right _ (List.mem_append_right _ List.mem_cons_self)
  cases hmove with
  | fill task => exact .stay hc' (by rintro t ⟨⟩ hchild; cases hchild) (by simp)
  | task t t' _ _ hchange =>
    refine .stay hc' ?_ (by simp)
    rintro _ ⟨⟩ hbusy
    by_cases hchild : t.child = true
    · exact (ha.child t rfl hchild).mono
    · have hstarted := hchange.started (by simpa using hchild) hbusy
      have hposition : t.position = u.position := congrArg JobId.position hfollows.1.job
      rw [hposition] at hstarted
      exact hstarted.historyAt.append_right
  | park t _ hchild => exact .stay hc' (by simp) fun s _ => (ha.child t rfl hchild).mono
  | record t run durationMs => exact hleave run t.job [] _ durationMs rfl hfollows.1.job rfl
  | stop t run durationMs => exact hleave run t.job t.killEffects _ durationMs rfl hfollows.1.job rfl
  | skip _ task run he =>
    have hjob : task.job = u.job := by
      rcases he with rfl | rfl <;> rw [hfollows.1]
    exact hleave run task.job [] .cancelled none rfl hjob rfl
  | service s s' => exact .stay hc' (by simp) fun _ _ => (ha.service s rfl).mono
  | serviceLeft s inner results state outcome run durationMs =>
    exact hleave run s.job inner state durationMs rfl hfollows.1.job rfl
  | retire s =>
    refine ⟨hc', by simp, by simp, fun _ hunstarted => ?_⟩
    have hflag : u.service = true := hfollows.1.service.symm.trans hfollows.2.1
    exact absurd (ha.service s rfl).mono (hunstarted hflag)
  | keep t run durationMs | recoveryFailed t original run durationMs =>
    exact hleave run t.job [] _ durationMs rfl hfollows.1.job rfl
  | verified t original run durationMs =>
    exact hleave run t.job [run.verificationFinished t] _ durationMs rfl hfollows.1.job rfl
  | defer | recover | recovering | verify | interrupt =>
    exact .stay hc' (by simp) (by simp)

theorem answerable_claim (failFast : Bool) : JobClaim failFast Answerable where
  planned u := .stay (Course.planned u) (by simp) (by simp)
  opened h := .stay ((course_claim failFast).opened h.course) (by simp) (by simp)
  moved hmove h := hmove.answerable h

/-! ### Whole sessions -/

/-- What fail-fast promises about a trace of the jobs of a plan: after an effect that `fails`, no process
    of an original pass is started, and at the end every other job that had not been reported, and that
    the promise `covers`, has been reported as cancelled. -/
structure StopsNewWork (fails : List Effect → Effect → Prop) (covers : TaskPlan → List Effect → Prop)
    (all : List Stage) (finished : Prop) (trace : List Effect) : Prop where
  stopped : ∀ past x future, trace = past ++ x :: future → fails past x →
    ∀ y ∈ future, y.isStart = false
  reported : finished → ∀ past x future, trace = past ++ x :: future → fails past x →
    ∀ u ∈ all.flatMap stageTasks, x.position? ≠ some u.position →
      u.job.key ∉ (terminals past).map TaskSnapshot.key → covers u past →
      ∃ snapshot ∈ terminals future, snapshot.key = u.job.key ∧ snapshot.state = .cancelled

/-- The job is not a service that is up. -/
def NotUp (u : TaskPlan) (past : List Effect) : Prop := u.service = true → ¬Started past u.position

theorem Session.Fast.respected {s : Session W} (h : s.Fast) :
    Respected Fails Stopping s.io.trace := by
  rcases h with hsmooth | ⟨⟨position, hfailed⟩, -⟩
  · exact hsmooth.silent.respected
  · exact hfailed.respected

/-- A job that a finished run still has is a background service. -/
theorem Run.Drained.services_only {io : Io W} {run : Run} (hdrained : run.Drained)
    (hstages : run.stages = []) (hpending : run.pendingRecoveries = []) :
    ∀ e ∈ (view io run).entities, ∃ s, e = .service s := by
  intro e he
  simp only [View.entities, view, hstages, hdrained.1, hdrained.2, hpending, List.flatMap_nil,
    List.map_nil, List.nil_append, List.append_nil, Option.map_none, Option.toList_none,
    List.mem_map] at he
  obtain ⟨s, -, rfl⟩ := he
  exact ⟨s, rfl⟩

/-- Fail-fast stops new work in every session. A job is known by its position, so appended plans have positions
    of their own. -/
theorem Session.stops_new_work (ex : LawfulExecutor) (env : Env W) (world : W) (metadata : RunMetadata)
    (plan : RunPlan) (ops : List Op) (hff : ex.failFast = true) (hplan : Planned plan)
    (hfresh : FreshPositions plan
      ((Session.start env world metadata plan).appendedStages ex env ops)) :
    let s₀ := Session.start env world metadata plan
    let s := s₀.after ex env ops
    StopsNewWork Fails NotUp (plan.stages ++ s₀.appendedStages ex env ops)
      (s.progress = some (.returned .finished)) s.io.trace := by
  intro s₀ s
  have hdistinct := hplan.distinct hfresh
  have hstart : s₀.Holds ex.failFast (fun _ => True) :=
    Session.start_holds ex.failFast env world metadata plan trivial
  have hrespected := (Session.after_fast ex env hff ops s₀ hstart
    (Session.start_fast env world metadata plan)).respected
  have hs : s.Holds ex.failFast fun v => v.Keeps ex.failFast Answerable
      (plan.stages ++ s₀.appendedStages ex env ops) :=
    Session.run_holds ex env world metadata plan ops (P := fun all v => v.Keeps ex.failFast Answerable all)
    hplan hfresh
    (View.start_keeps (answerable_claim _) env world metadata plan)
    (fun _ _ _ _ hmove hv => hv.move (answerable_claim _) hmove)
    (fun _ _ _ hall hv => hv.appended (answerable_claim _) hall)
    (fun _ _ stopNames _ hv => hv.reconciled (answerable_claim _) stopNames)
  refine ⟨fun past x future hsplit hfails y hy => (hrespected past x future hsplit hfails y hy).1, ?_⟩
  intro hfinished past x future hsplit hfails u hu hother hunreported hdown
  rw [Session.Holds, hfinished] at hs
  obtain ⟨hjobs, hdrained, hstages, hpending, -⟩ := hs
  obtain ⟨e, he, ha⟩ := hjobs.job hdistinct hu
  -- a process that was started has been started before the failure
  have hbefore : Started s.io.trace u.position → Started past u.position := by
    rintro ⟨y, hy, hstart, hposition⟩
    rw [hsplit] at hy
    rcases List.mem_append.mp hy with hy | hy
    · exact ⟨y, hy, hstart, hposition⟩
    · rcases List.mem_cons.mp hy with rfl | hy
      · exact absurd hposition hother
      · rw [(hrespected past x future hsplit hfails y hy).1] at hstart
        cases hstart
  have hgone : e = none := by
    cases e with
    | none => rfl
    | some job =>
      obtain ⟨service, rfl⟩ := hdrained.services_only hstages hpending job (he job rfl)
      obtain ⟨hfollows, -, -⟩ := ha.course.present _ rfl
      have hflag : u.service = true := hfollows.1.service.symm.trans hfollows.2.1
      exact absurd (hbefore (ha.service service rfl).of_historyAt) (hdown hflag)
  have hkey : u.job.key ∈ (terminals s.io.trace).map TaskSnapshot.key := by
    obtain ⟨snapshot, hsnapshot, hkey⟩ := List.mem_map.mp
      (ha.gone hgone fun hservice hstarted => hdown hservice (hbefore hstarted.of_historyAt))
    obtain ⟨y, hy, hterminal⟩ := List.mem_filterMap.mp hsnapshot
    exact List.mem_map.mpr ⟨snapshot,
      List.mem_filterMap.mpr ⟨y, (List.mem_filter.mp hy).1, hterminal⟩, hkey⟩
  rw [hsplit, terminals_append, List.map_append, List.mem_append] at hkey
  obtain ⟨snapshot, hsnapshot, hsame⟩ := List.mem_map.mp (hkey.resolve_left hunreported)
  obtain ⟨y, hy, hterminal⟩ := List.mem_filterMap.mp hsnapshot
  have hfuture : y ∈ future := by
    refine (List.mem_cons.mp hy).resolve_left ?_
    rintro rfl
    obtain ⟨proc, hfailure, -⟩ := hfails
    split at hterminal
    · cases hfailure
    · cases hterminal
  have hlast : snapshot ∈ terminals [y] := List.mem_filterMap.mpr ⟨y, List.mem_singleton_self y, hterminal⟩
  refine ⟨snapshot, List.mem_filterMap.mpr ⟨y, hfuture, hterminal⟩, hsame, ?_⟩
  refine ((hrespected past x future hsplit hfails y hfuture).2.2 snapshot hlast).resolve_right ?_
  rw [show snapshot.position = u.position from congrArg Prod.fst hsame]
  exact hother

/-- Three serial jobs, of which the second fails. -/
theorem Session.stops_new_work_at_checks :
    let plan := RunPlan.fromRules
      [{ name := "lint", commands := ["lint"] }, { name := "build", commands := ["build", "link"] },
       { name := "test", commands := ["test"] }]
    let env := steadyEnv fun task =>
      some (if task.name = "build" then ⟨some 1, "exit status: 1"⟩ else ⟨some 0, "exit status: 0"⟩)
    let s := (Session.start env () { runId := 1 } plan).after { failFast := true } env
      [.advance 1, .advance 1, .advance 1, .advance 1]
    s.progress = some (.returned .finished) ∧
      spawnedCommands s.io.trace = [.shell "lint", .shell "build"] ∧
      (terminals s.io.trace).map (·.state) = [.passed, .failed, .cancelled] ∧
      StopsNewWork Fails NotUp plan.stages (s.progress = some (.returned .finished)) s.io.trace := by
  intro plan env s
  have hs : (Session.start env () { runId := 1 } plan).after { failFast := true } env
      [.advance 1, .advance 1, .advance 1, .advance 1] = s := rfl
  have hnone : (Session.start env () { runId := 1 } plan).appendedStages { failFast := true } env
      [.advance 1, .advance 1, .advance 1, .advance 1] = [] := by decide
  have hstops := Session.stops_new_work { failFast := true } env () { runId := 1 } plan
    [.advance 1, .advance 1, .advance 1, .advance 1] rfl (.fromRules _ (by simp [Rules.Consistent]))
    (by rw [hnone]; exact ⟨.nil, by simp⟩)
  simp only [hnone, List.append_nil, hs] at hstops
  exact ⟨by decide, by decide, by decide, hstops⟩

/-- A service that is up is started again after it has failed, and it is neither stopped nor reported when
    a job fails next to it. -/
theorem Session.service_goes_on :
    (let plan := RunPlan.fromRules [{ name := "server", commands := ["serve"], service := true }]
      let env := steadyEnv fun task =>
        if task.serviceRestartsLeft = serviceMaxRestarts then some ⟨some 1, "exit status: 1"⟩ else none
      let s := (Session.start env () { runId := 1 } plan).after { failFast := true } env
        [.advance 1, .advance 1]
      spawnedCommands s.io.trace = [.shell "serve", .shell "serve"] ∧
        ¬StopsNewWork (fun _ x => x.failure?.isSome = true) (fun _ _ => True) plan.stages
          (s.progress = some (.returned .finished)) s.io.trace) ∧
    (let plan := RunPlan.fromRules
        [{ name := "server", commands := ["serve"], service := true }, { name := "lint", commands := ["lint"] }]
      let env := steadyEnv fun task => if task.service then none else some ⟨some 1, "exit status: 1"⟩
      let s := (Session.start env () { runId := 1 } plan).after { failFast := true } env
        [.advance 1, .advance 1, .advance 1]
      s.progress = some (.returned .finished) ∧ (alive s.io.trace).map (·.name) = ["server"] ∧
        ¬StopsNewWork (fun _ x => x.failure?.isSome = true) (fun _ _ => True) plan.stages
          (s.progress = some (.returned .finished)) s.io.trace) := by
  refine ⟨?_, ?_⟩
  · intro plan env s
    refine ⟨by decide, fun hstops => ?_⟩
    obtain ⟨x, hx, hfails⟩ : ∃ x, s.io.trace.drop 4 = x :: s.io.trace.drop 5 ∧
        x.failure?.isSome = true :=
      ⟨_, (List.getElem_cons_drop (by decide)).symm, by decide⟩
    obtain ⟨y, hy, hstart⟩ : ∃ y ∈ s.io.trace.drop 5, y.isStart = true := by decide
    have hsplit := (List.take_append_drop 4 s.io.trace).symm
    rw [hx] at hsplit
    exact absurd (hstops.stopped _ x _ hsplit hfails y hy) (by simp [hstart])
  · intro plan env s
    refine ⟨by decide, by decide, fun hstops => ?_⟩
    obtain ⟨x, hx, hfails, hother⟩ : ∃ x, s.io.trace.drop 7 = x :: s.io.trace.drop 8 ∧
        x.failure?.isSome = true ∧ x.position? ≠ some 0 :=
      ⟨_, (List.getElem_cons_drop (by decide)).symm, by decide, by decide⟩
    obtain ⟨u, hu, hposition, hkey⟩ : ∃ u ∈ plan.stages.flatMap stageTasks,
        u.position = 0 ∧ u.job.key ∉ (terminals (s.io.trace.take 7)).map TaskSnapshot.key :=
      ⟨_, .head _, by decide, by decide⟩
    have hsplit := (List.take_append_drop 7 s.io.trace).symm
    rw [hx] at hsplit
    obtain ⟨snapshot, hmem, -, hcancelled⟩ := hstops.reported (by decide) _ x _ hsplit hfails u hu
      (by rwa [hposition]) hkey trivial
    have hnone : ∀ snapshot ∈ terminals (s.io.trace.drop 8), snapshot.state ≠ .cancelled := by decide
    exact hnone snapshot hmem hcancelled

end Funzzy
