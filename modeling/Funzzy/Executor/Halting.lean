import Funzzy.Executor.Emissions
import Funzzy.Executor.Passing
import Funzzy.Lib.Alarm

/-! What a call of `advance` does around the first failed command under fail-fast (`executor.rs`).

    A command fails when its process cannot be started, exits with an error or cannot be waited for. The
    failures of a background service are its own: it is started again, or leaves by itself, so the alarm
    is a failure of a job of the stage (`Fails`). Up to the alarm a run is `Smooth`; after it, only what
    `Stopping` permits happens: no process of an original pass is started, and no other job is reported but
    as cancelled. -/

namespace Funzzy

open History

variable {W : Type}

/-! ### The alarm -/

/-- The process of an original pass whose command the effect shows to have failed. -/
def Effect.failure? : Effect → Option Proc
  | .spawnFailed proc _ _ | .waitFailed proc _ => if proc.phase = .original then some proc else none
  | .exited proc status =>
    if proc.phase = .original ∧ status.success = false then some proc else none
  | _ => none

/-- A process of the original pass of the job at the position has been started. -/
def Started (past : List Effect) (position : Nat) : Prop :=
  ∃ y ∈ past, y.isStart = true ∧ y.position? = some position

/-- A command of the stage fails: one of a finite job, or one of a service that is not up yet. -/
def Fails (past : List Effect) (x : Effect) : Prop :=
  ∃ proc, x.failure? = some proc ∧ (proc.service = true → ¬Started past proc.position)

/-- What may happen after `x` has failed. -/
def Stopping (x y : Effect) : Prop :=
  y.isStart = false ∧ y.failure? = none ∧
    ∀ snapshot ∈ terminals [y], snapshot.state = .cancelled ∨ x.position? = some snapshot.position

/-- What may happen after the job at the position has failed. -/
def Effect.StopsFor (position : Nat) (y : Effect) : Prop :=
  y.isStart = false ∧ y.failure? = none ∧
    ∀ snapshot ∈ terminals [y], snapshot.state = .cancelled ∨ snapshot.position = position

theorem Started.mono {a b : List Effect} {position : Nat} (h : Started a position) :
    Started (a ++ b) position := by
  obtain ⟨y, hy, hstart⟩ := h
  exact ⟨y, List.mem_append_left _ hy, hstart⟩

theorem Started.append_right {a b : List Effect} {position : Nat} (h : Started b position) :
    Started (a ++ b) position := by
  obtain ⟨y, hy, hstart⟩ := h
  exact ⟨y, List.mem_append_right _ hy, hstart⟩

theorem not_fails {past : List Effect} {x : Effect} (hx : x.failure? = none) : ¬Fails past x := by
  rintro ⟨proc, hproc, -⟩
  rw [hx] at hproc
  cases hproc

/-- Only the job at the position has failed, and it has been respected. -/
structure FailedOnly (position : Nat) (trace : List Effect) : Prop where
  respected : Respected Fails Stopping trace
  only : ∀ x, Sounded Fails trace x → x.position? = some position

theorem FailedOnly.append {position : Nat} {a l : List Effect} (h : FailedOnly position a)
    (hl : ∀ y ∈ l, y.StopsFor position) : FailedOnly position (a ++ l) := by
  obtain ⟨hrespected, hsame⟩ := h.respected.append (l := l) (fun y hy past => not_fails (hl y hy).2.1)
    fun y hy x hx => by
      obtain ⟨hstart, hfailure, hreported⟩ := hl y hy
      refine ⟨hstart, hfailure, fun snapshot hsnapshot => ?_⟩
      refine (hreported snapshot hsnapshot).imp id fun hposition => ?_
      rw [h.only x hx, hposition]
  exact ⟨hrespected, fun x hx => h.only x ((hsame x).mp hx)⟩

/-- The first failure is the only one. -/
theorem FailedOnly.first {position : Nat} {a : List Effect} {x : Effect} (h : Silent Fails a)
    (hx : x.position? = some position) : FailedOnly position (a ++ [x]) :=
  ⟨respected_concat.mpr ⟨h.respected, fun y hy => absurd hy (h y)⟩, fun y hy => by
    rw [h.sounded_concat hy, hx]⟩

/-- Events that are no failures of the stage leave a silent trace silent. -/
theorem silent_more {a l : List Effect} (h : Silent Fails a)
    (hl : ∀ y ∈ l, ∀ proc, y.failure? = some proc → proc.service = true ∧ Started a proc.position) :
    Silent Fails (a ++ l) := by
  refine h.append fun y hy more => ?_
  rintro ⟨proc, hproc, hfresh⟩
  obtain ⟨hservice, hstarted⟩ := hl y hy proc hproc
  exact hfresh hservice hstarted.mono

theorem silent_quiet {a l : List Effect} (h : Silent Fails a) (hl : ∀ y ∈ l, y.failure? = none) :
    Silent Fails (a ++ l) :=
  silent_more h fun y hy proc hproc => by
    rw [hl y hy] at hproc
    cases hproc

/-! ### One job of the stage -/

theorem TaskChange.service_eq {phase : Phase} {t t' : ActiveTask} {effects : List Effect}
    (h : TaskChange phase t effects t') : t'.service = t.service := by
  cases h <;> rfl

/-- A change of a job that may move: it has not failed, or the only effect is its failure. -/
theorem TaskChange.failing {t t' : ActiveTask} {effects : List Effect}
    (h : TaskChange .original t effects t') (hadm : t.Admissible .original true) :
    (t'.failures = [] ∧ ∀ y ∈ effects, y.failure? = none) ∨
      (t'.failures ≠ [] ∧ ∃ x, effects = [x] ∧ x.position? = some t.position) := by
  have hnone := hadm.unfailed rfl
  cases h with
  | validate => exact .inl ⟨hnone, by simp⟩
  | invalid => exact .inr ⟨by simp [ActiveTask.fail], _, rfl, rfl⟩
  | spawned => exact .inl ⟨hnone, by simp [Effect.failure?]⟩
  | spawnFailed => exact .inr ⟨by simp [ActiveTask.fail], _, rfl, rfl⟩
  | tick => exact .inl ⟨hnone, by simp [Effect.failure?]⟩
  | exited status _ hok => exact .inl ⟨hnone, by simp [Effect.failure?, hok]⟩
  | failed effect failure _ heffect =>
    refine .inr ⟨by simp [ActiveTask.fail], effect, rfl, ?_⟩
    rcases heffect with ⟨status, rfl⟩ | ⟨error, rfl⟩ <;> rfl
  | restarted status hchild hservice =>
    rw [hadm.unspawned rfl hservice] at hchild
    cases hchild

/-- A change that gives the job a process starts it. -/
theorem TaskChange.started {t t' : ActiveTask} {effects : List Effect}
    (h : TaskChange .original t effects t') (hidle : t.child = false) (hbusy : t'.child = true) :
    Started effects t.position := by
  cases h with
  | spawned command rest now => exact ⟨_, List.mem_cons_self, rfl, rfl⟩
  | validate | tick | invalid =>
    have hsame : t.child = true := hbusy
    rw [hidle] at hsame
    cases hsame
  | spawnFailed | exited | failed | restarted => cases hbusy

/-- What the moves of one job under fail-fast leave behind. -/
structure Driven (w w' : Work) : Prop where
  position : w'.task.position = w.task.position
  service : w'.task.service = w.task.service
  started : w.task.child = false → w'.task.child = true → Started w'.trace w.task.position
  effects : ∃ l, (∀ y ∈ l, y.failure? = none) ∧
    ((w'.task.failures = [] ∧ w'.trace = w.trace ++ l) ∨
      (w'.task.failures ≠ [] ∧ ∃ x, x.position? = some w.task.position ∧
        w'.trace = w.trace ++ l ++ [x]))

theorem TaskMoves.driven {w w' : Work} (h : TaskMoves .original true w w')
    (hnone : w.task.failures = []) : Driven w w' := by
  induction h with
  | refl =>
    refine ⟨rfl, rfl, fun hidle hbusy => ?_, [], by simp, .inl ⟨hnone, by simp⟩⟩
    rw [hidle] at hbusy
    cases hbusy
  | @tail b c _ hmove ih =>
    obtain ⟨hposition, hservice, hstarted, l, hl, hbefore⟩ := ih
    obtain ⟨effects, htrace, hchange⟩ := hmove.1.change
    have hb : b.trace = w.trace ++ l := by
      rcases hbefore with ⟨-, hb⟩ | ⟨hfailed, -⟩
      · exact hb
      · exact absurd (hmove.2.unfailed rfl) hfailed
    refine ⟨hchange.position_eq.trans hposition, hchange.service_eq.trans hservice,
      fun hidle hbusy => ?_, ?_⟩
    · by_cases hchild : b.task.child = true
      · rw [htrace]
        exact (hstarted hidle hchild).mono
      · rw [htrace, ← hposition]
        exact (hchange.started (by simpa using hchild) hbusy).append_right
    · rcases hchange.failing hmove.2 with ⟨hsound, hquiet⟩ | ⟨hfailed, x, rfl, hx⟩
      · refine ⟨l ++ effects, fun y hy => ?_, .inl ⟨hsound, ?_⟩⟩
        · exact (List.mem_append.mp hy).elim (hl y) (hquiet y)
        · rw [htrace, hb, List.append_assoc]
      · exact ⟨l, hl, .inr ⟨hfailed, x, hposition ▸ hx, by rw [htrace, hb]⟩⟩

/-! ### Up to the first failure -/

/-- No job of the stage has failed, and none waits for its recovery. -/
structure Smooth (io : Io W) (run : Run) : Prop where
  silent : Silent Fails io.trace
  pending : run.pendingRecoveries = []
  background : ∀ s ∈ run.services, s.service = true ∧ Started io.trace s.position

/-- Only the job at the position has failed and may wait for its recovery. -/
structure Halted (position : Nat) (io : Io W) (run : Run) : Prop where
  failed : FailedOnly position io.trace
  pending : ∀ t ∈ run.pendingRecoveries, t.position = position

/-- Recording or deferring a job adds one effect, which is about that job. -/
theorem deferOrRecord_effect (env : Env W) (io : Io W) (run : Run) (task : ActiveTask) :
    let r := deferOrRecord env io run task
    (∃ y, r.1.trace = io.trace ++ [y] ∧ y.StopsFor task.position) ∧
      (∀ t ∈ r.2.pendingRecoveries, t ∈ run.pendingRecoveries ∨ t = task) ∧
      (task.failures = [] → r.2.pendingRecoveries = run.pendingRecoveries) ∧
      r.2.services = run.services := by
  unfold deferOrRecord
  split
  · rename_i hdefer
    refine ⟨⟨_, rfl, rfl, rfl, by simp [terminals]⟩, fun t ht => ?_, fun h => absurd h hdefer.1, rfl⟩
    exact (List.mem_append.mp ht).imp id List.mem_singleton.mp
  · refine ⟨⟨_, rfl, rfl, rfl, fun snapshot hsnapshot => .inr ?_⟩, fun t ht => .inl ht, fun _ => rfl, rfl⟩
    rw [List.mem_singleton.mp hsnapshot]

/-- What the pass over the active tasks leaves: a smooth run, or one that has just failed. -/
def ScannedFast : Io W × Run × Scanned → Prop
  | (io, run, .polled _) => Smooth io run
  | (io, run, .failedFast) => ∃ position, Halted position io run

theorem scanActive_fast (ex : LawfulExecutor) (env : Env W) (hff : ex.failFast = true) :
    ∀ (rest seen : List ActiveTask) (finished : Bool) (io : Io W) (run : Run),
      (∀ t ∈ rest, t.Fresh ∧ t.Admissible .original true) → Smooth io run →
      ScannedFast (scanActive ex env seen rest finished io run)
  | [], seen, finished, io, run, _, hsmooth => hsmooth
  | task :: rest, seen, finished, io, run, hrest, hsmooth => by
    obtain ⟨hfresh, hadm⟩ := hrest task List.mem_cons_self
    have hrest' : ∀ t ∈ rest, t.Fresh ∧ t.Admissible .original true :=
      fun t ht => hrest t (List.mem_cons_of_mem _ ht)
    have hmoved := advanceTask_moved env .original ex.failFast io task run.results hfresh (hff ▸ hadm)
    have hfinished := advanceTask_finished env .original ex.failFast io task run.results
      (hadm.unspawned rfl) fun _ => hadm.unfailed rfl
    rw [scanActive]
    rcases hr : advanceTask env .original ex.failFast io task run.results with
      ⟨io₁, task₁, results₁, step⟩
    rw [hr] at hmoved hfinished
    obtain ⟨hmoves, -, hdescribes⟩ := hmoved
    rw [hff] at hmoves
    obtain ⟨hposition, hservice, hstarted, l, hl, heffects⟩ := hmoves.driven (hadm.unfailed rfl)
    -- a job that has not failed keeps the run smooth
    have hsound : task₁.failures = [] → Silent Fails io₁.trace ∧ io₁.trace = io.trace ++ l := by
      intro hnone
      rcases heffects with ⟨-, htrace⟩ | ⟨hfailed, -⟩
      · have htrace' : io₁.trace = io.trace ++ l := htrace
        exact ⟨htrace' ▸ silent_quiet hsmooth.silent hl, htrace'⟩
      · exact absurd hnone hfailed
    cases step with
    | running =>
      obtain ⟨hchild, -, hunfailed⟩ := hdescribes
      obtain ⟨hsilent, htrace⟩ := hsound (hunfailed hff)
      have hbackground : ∀ s ∈ run.services, s.service = true ∧ Started io₁.trace s.position :=
        fun s hs => ⟨(hsmooth.background s hs).1, htrace ▸ (hsmooth.background s hs).2.mono⟩
      dsimp only
      by_cases hflag : task₁.service = true
      · rw [if_pos hflag]
        refine scanActive_fast ex env hff rest seen finished io₁ _ hrest'
          ⟨hsilent, hsmooth.pending, fun s hs => ?_⟩
        rcases List.mem_append.mp hs with hs | hs
        · exact hbackground s hs
        · rw [List.mem_singleton.mp hs]
          have hidle : task.child = false := hadm.unspawned rfl (hservice.symm.trans hflag)
          exact ⟨hflag, hposition ▸ hstarted hidle hchild⟩
      · rw [if_neg hflag]
        exact scanActive_fast ex env hff rest (seen ++ [task₁]) finished io₁ _ hrest'
          ⟨hsilent, hsmooth.pending, hbackground⟩
    | finished =>
      have hnone : task₁.failures = [] := (hfinished rfl).2 hff
      obtain ⟨hsilent, htrace⟩ := hsound hnone
      have hdefer := deferOrRecord_effect env io₁
        { run with results := results₁, active := seen ++ rest } task₁
      dsimp only
      rcases hd : deferOrRecord env io₁ { run with results := results₁, active := seen ++ rest } task₁
        with ⟨io₂, run₂⟩
      rw [hd] at hdefer
      obtain ⟨⟨y, hy, hquiet⟩, -, hpending, hservices⟩ := hdefer
      dsimp only at hy hpending hservices ⊢
      refine scanActive_fast ex env hff rest seen true io₂ run₂ hrest' ⟨?_, ?_, fun s hs => ?_⟩
      · rw [hy]
        exact silent_quiet hsilent fun z hz => by rw [List.mem_singleton.mp hz]; exact hquiet.2.1
      · exact (hpending hnone).trans hsmooth.pending
      · rw [hservices] at hs
        rw [hy, htrace]
        exact ⟨(hsmooth.background s hs).1, (hsmooth.background s hs).2.mono.mono⟩
    | failedFast =>
      obtain ⟨-, hfailed, -⟩ := hdescribes
      obtain ⟨x, hx, htrace⟩ := (heffects.resolve_left fun h => hfailed h.1).2
      have htrace' : io₁.trace = io.trace ++ l ++ [x] := htrace
      obtain ⟨⟨y, hy, hquiet⟩, hpending, -, -⟩ := deferOrRecord_effect env io₁
        { run with results := results₁, active := seen ++ rest } task₁
      have hfirst : FailedOnly task.position io₁.trace :=
        htrace' ▸ .first (silent_quiet hsmooth.silent hl) hx
      refine ⟨task.position, hy ▸ hfirst.append fun z hz => ?_, fun t ht => ?_⟩
      · rw [List.mem_singleton.mp hz, ← hposition]
        exact hquiet
      · rcases hpending t ht with ht | rfl
        · rw [hsmooth.pending] at ht
          cases ht
        · exact hposition

/-! ### Background services -/

theorem Effect.failure?_spawnFailed {proc other : Proc} {command : CommandLine} {error : String}
    (h : (Effect.spawnFailed proc command error).failure? = some other) : other = proc := by
  simp only [Effect.failure?] at h
  split at h
  · exact (Option.some.inj h).symm
  · cases h

theorem Effect.failure?_exited {proc other : Proc} {status : ExitStatus}
    (h : (Effect.exited proc status).failure? = some other) : other = proc := by
  simp only [Effect.failure?] at h
  split at h
  · exact (Option.some.inj h).symm
  · cases h

/-- The failures among the effects are those of the service. -/
def OwnFailures (service : ActiveTask) (l : List Effect) : Prop :=
  ∀ y ∈ l, ∀ proc, y.failure? = some proc →
    proc.service = service.service ∧ proc.position = service.position

/-- An exit or a failed start of the service, and then its report. -/
theorem ownFailures_cons {service : ActiveTask} {x : Effect} {l : List Effect}
    (hx : ∀ proc, x.failure? = some proc → ∃ s : ActiveTask, proc = s.proc .original ∧
      s.service = service.service ∧ s.position = service.position)
    (hl : ∀ y ∈ l, y.failure? = none) : OwnFailures service (x :: l) := by
  intro y hy proc hproc
  rcases List.mem_cons.mp hy with rfl | hy
  · obtain ⟨s, rfl, hservice, hposition⟩ := hx proc hproc
    exact ⟨hservice, hposition⟩
  · rw [hl y hy] at hproc
    cases hproc

/-- One poll of a background service: it stays as it is, or its own events happen. -/
theorem advanceService_effects (env : Env W) (io : Io W) (run : Run) (service : ActiveTask) :
    let r := advanceService env io run service
    (∃ l, r.1.trace = io.trace ++ l ∧ OwnFailures service l) ∧
      r.2.1.pendingRecoveries = run.pendingRecoveries ∧ r.2.1.services = run.services ∧
      ∀ s, r.2.2 = some s → s.service = service.service ∧ s.position = service.position := by
  have hsame : ∀ s, some service = some s →
      s.service = service.service ∧ s.position = service.position := by
    rintro s ⟨⟩
    exact ⟨rfl, rfl⟩
  have hgone : ∀ s : ActiveTask, none = some s →
      s.service = service.service ∧ s.position = service.position := by
    rintro s ⟨⟩
  have hnothing : ∃ l, io.trace = io.trace ++ l ∧ OwnFailures service l :=
    ⟨[], (List.append_nil _).symm, by simp [OwnFailures]⟩
  have hreport : ∀ event : Event, ∀ y ∈ [Effect.event event], y.failure? = none := by
    intro event y hy
    rw [List.mem_singleton.mp hy]
    rfl
  unfold advanceService
  by_cases hchild : service.child = true
  · rw [if_pos hchild]
    rcases env.tryWait io.world service with ⟨error | _ | status, world⟩
    · exact ⟨hnothing, rfl, rfl, hsame⟩
    · exact ⟨hnothing, rfl, rfl, hsame⟩
    · have hexit : ∀ proc, (Effect.exited (service.proc .original) status).failure? = some proc →
          ∃ s : ActiveTask, proc = s.proc .original ∧ s.service = service.service ∧
            s.position = service.position :=
        fun proc h => ⟨service, Effect.failure?_exited h, rfl, rfl⟩
      simp only [serviceExited]
      by_cases hok : status.success = true
      · rw [if_pos hok]
        exact ⟨⟨_, List.append_assoc _ _ _, ownFailures_cons hexit (hreport _)⟩, rfl, rfl, hgone⟩
      · rw [if_neg hok]
        by_cases hleft : 0 < service.reaped.serviceRestartsLeft
        · rw [if_pos hleft]
          exact ⟨⟨_, rfl, ownFailures_cons hexit (by simp)⟩, rfl, rfl, by rintro s ⟨⟩; exact ⟨rfl, rfl⟩⟩
        · rw [if_neg hleft]
          exact ⟨⟨_, List.append_assoc _ _ _, ownFailures_cons hexit (hreport _)⟩, rfl, rfl, hgone⟩
  · rw [if_neg hchild, respawnService]
    rcases service.commands with _ | ⟨command, rest⟩
    · exact ⟨hnothing, rfl, rfl, hsame⟩
    · dsimp only
      rcases env.spawn io.world (service.take command rest) command with ⟨error | _, world⟩
      · refine ⟨⟨_, List.append_assoc _ _ _, ownFailures_cons (fun proc h => ?_) (hreport _)⟩, rfl, rfl, hgone⟩
        exact ⟨service.take command rest, Effect.failure?_spawnFailed h, rfl, rfl⟩
      · exact ⟨⟨_, rfl, ownFailures_cons (fun proc h => by cases h) (by simp)⟩, rfl, rfl,
          by rintro s ⟨⟩; exact ⟨rfl, rfl⟩⟩

/-- Polling the background services keeps a run smooth. -/
theorem advanceServicesFrom_smooth (env : Env W) :
    ∀ (rest kept : List ActiveTask) (io : Io W) (run : Run), run.services = kept ++ rest →
      Smooth io run →
      Smooth (advanceServicesFrom env kept rest io run).1 (advanceServicesFrom env kept rest io run).2
  | [], kept, io, run, _, hsmooth => hsmooth
  | service :: rest, kept, io, run, hservices, hsmooth => by
    have hup := hsmooth.background service (by simp [hservices])
    have hpoll := advanceService_effects env io { run with services := kept ++ rest } service
    rw [advanceServicesFrom]
    rcases hr : advanceService env io { run with services := kept ++ rest } service with
      ⟨io₁, run₁, stays⟩
    rw [hr] at hpoll
    obtain ⟨⟨l, htrace, howned⟩, hpending, hkept, hstays⟩ := hpoll
    dsimp only at htrace hpending hkept hstays
    have hsilent : Silent Fails io₁.trace := by
      rw [htrace]
      refine silent_more hsmooth.silent fun y hy proc hproc => ?_
      obtain ⟨hservice, hposition⟩ := howned y hy proc hproc
      exact ⟨hservice.trans hup.1, hposition ▸ hup.2⟩
    have hothers : ∀ s ∈ kept ++ rest, s.service = true ∧ Started io₁.trace s.position := by
      intro s hs
      obtain ⟨hservice, hstarted⟩ := hsmooth.background s (by
        rw [hservices]
        simp only [List.mem_append, List.mem_cons] at hs ⊢
        tauto)
      exact ⟨hservice, htrace ▸ hstarted.mono⟩
    cases stays with
    | none =>
      exact advanceServicesFrom_smooth env rest kept io₁ run₁ hkept
        ⟨hsilent, hpending.trans hsmooth.pending, fun t ht => hothers t (hkept ▸ ht)⟩
    | some s =>
      obtain ⟨hservice, hposition⟩ := hstays s rfl
      refine advanceServicesFrom_smooth env rest (kept ++ [s]) io₁ _ (by simp)
        ⟨hsilent, hpending.trans hsmooth.pending, fun t ht => ?_⟩
      have ht' : t ∈ kept ++ rest ∨ t = s := by
        simp only [List.mem_append, List.mem_cons] at ht ⊢
        tauto
      rcases ht' with ht | rfl
      · exact hothers t ht
      · exact ⟨hservice.trans hup.1, by rw [hposition, htrace]; exact hup.2.mono⟩

/-! ### After the first failure -/

theorem ActiveTask.killEffects_stopping (t : ActiveTask) (position : Nat) :
    ∀ y ∈ t.killEffects, y.StopsFor position := by
  unfold ActiveTask.killEffects
  split
  · intro y hy
    rw [List.mem_singleton.mp hy]
    exact ⟨rfl, rfl, by simp [terminals]⟩
  · simp

/-- A report as cancelled. -/
theorem Run.terminal_stopping (run : Run) (job : JobId) (durationMs : Option Nat) (position : Nat) :
    (run.terminal (job.snapshot .cancelled durationMs)).StopsFor position := by
  refine ⟨rfl, rfl, fun snapshot hsnapshot => .inl ?_⟩
  rw [List.mem_singleton.mp hsnapshot]
  rfl

theorem stopActive_halted (env : Env W) {position : Nat} :
    ∀ (active : List ActiveTask) (io : Io W) (run : Run), Halted position io run →
      let r := stopActive env active io run
      Halted position r.1 r.2 ∧ r.2.active = []
  | [], io, run, h => ⟨⟨h.failed, h.pending⟩, rfl⟩
  | task :: rest, io, run, h => by
    obtain ⟨htrace, -, htask⟩ := shutdownTask_eq env io task
    simp only [stopActive]
    rcases hshut : shutdownTask env io task with ⟨io', task', killed⟩
    simp only [hshut] at htrace htask
    subst htask
    refine stopActive_halted env rest _ _ ⟨?_, h.pending⟩
    have hkilled : FailedOnly position io'.trace :=
      htrace ▸ h.failed.append (task.killEffects_stopping position)
    refine hkilled.append fun y hy => ?_
    rw [List.mem_singleton.mp hy]
    exact run.terminal_stopping task.job _ position

theorem skipTasks_halted {position : Nat} (tasks : List TaskPlan) {io : Io W} {run : Run}
    (h : Halted position io run) :
    Halted position (skipTasks tasks io run).1 (skipTasks tasks io run).2 := by
  rw [skipTasks_eq]
  refine ⟨h.failed.append fun y hy => ?_, h.pending⟩
  obtain ⟨t, -, rfl⟩ := List.mem_map.mp hy
  exact run.terminal_stopping t.job none position

/-- Stopping after the failure leaves nothing of the run to start. -/
theorem stopAfterFailure_halted (env : Env W) {position : Nat} {io : Io W} {run : Run}
    (h : Halted position io run) :
    let r := stopAfterFailure env io run
    Halted position r.1 r.2 ∧ r.2.Drained ∧ r.2.stages = [] := by
  obtain ⟨hstopped, hactive⟩ := stopActive_halted env run.active io run h
  simp only [stopAfterFailure]
  rcases hr : stopActive env run.active io run with ⟨io₁, run₁⟩
  rw [hr] at hstopped hactive
  dsimp only at hstopped hactive ⊢
  have hemptied : Halted position io₁ { run₁ with queued := [] } :=
    ⟨hstopped.failed, hstopped.pending⟩
  have hqueued := skipTasks_halted run₁.queued hemptied
  have hframe : ∀ (tasks : List TaskPlan) (io : Io W) (run : Run),
      (skipTasks tasks io run).2.active = run.active ∧ (skipTasks tasks io run).2.queued = run.queued ∧
        (skipTasks tasks io run).2.stages = run.stages := by
    intro tasks io run
    rw [skipTasks_eq]
    exact ⟨rfl, rfl, rfl⟩
  rcases hq : skipTasks run₁.queued io₁ { run₁ with queued := [] } with ⟨io₂, run₂⟩
  have hq' := hframe run₁.queued io₁ { run₁ with queued := [] }
  rw [hq] at hqueued hq'
  obtain ⟨hact, hque, hsta⟩ := hframe (run₂.stages.flatMap stageTasks) io₂ { run₂ with stages := [] }
  refine ⟨skipTasks_halted _ ⟨hqueued.failed, hqueued.pending⟩, ⟨?_, ?_⟩, hsta⟩
  · exact hact.trans (hq'.1.trans hactive)
  · exact hque.trans hq'.2.1

end Funzzy
