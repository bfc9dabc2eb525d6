import Funzzy.Executor.Asking
import Funzzy.Executor.Barrier

/-! The recovery gate.

    A recovery starts only after an approval under the prompt policy, while its stage is drained, and
    no decision is made while it runs, so every process of a recovery or a verification is approved
    (`View.Gate`). It is alone among the finite tasks; it is alone altogether when no background
    service had a process at the moment it was started (`View.Secluded`). The question is asked once
    per stage that needs it, so it is asked once per generation only when no job fails after it. -/

namespace Funzzy

open History Board

variable {W : Type}

/-! ### Approval -/

/-- A process of a recovery or a verification starts only under the prompt policy, approved. -/
def Approved (policy : RecoveryPolicy) (past : List Effect) : Effect → Prop
  | .spawned proc _ =>
    proc.phase ≠ .original → policy = .prompt ∧ lastDecision past = some .approved
  | _ => True

structure View.Gate (metadata : RunMetadata) (v : View) : Prop where
  metadata_eq : v.run.metadata = metadata
  admitted : v.recovering ≠ none →
    metadata.recoveryPolicy = .prompt ∧ lastDecision v.trace = some .approved
  gated : Whenever (Approved metadata.recoveryPolicy) v.trace

def Effect.isDecision : Effect → Bool
  | .decided _ => true
  | _ => false

theorem lastDecision_append (trace : List Effect) {l : List Effect}
    (hl : ∀ x ∈ l, x.isDecision = false) : lastDecision (trace ++ l) = lastDecision trace := by
  have hnone : ∀ f : Effect → Option ApprovalDecision,
      (∀ x : Effect, x.isDecision = false → f x = none) → l.filterMap f = [] := fun f hf =>
    List.filterMap_eq_nil_iff.mpr fun x hx => hf x (hl x hx)
  rw [lastDecision, List.filterMap_append, hnone, List.append_nil, lastDecision]
  intro x hx
  cases x <;> simp_all [Effect.isDecision]

theorem ActiveTask.killEffects_undecided (t : ActiveTask) :
    ∀ x ∈ t.killEffects, x.isDecision = false := by
  unfold ActiveTask.killEffects
  split <;> simp [Effect.isDecision]

/-- While a recovery runs, no decision is made. -/
theorem Move.lastDecision_eq {failFast : Bool} {v v' : View} (h : Move failFast v v')
    (hr : v.recovering ≠ none) : lastDecision v'.trace = lastDecision v.trace := by
  cases h with
  | begin | note | recover | record | keep | recoveryFailed | defer | verified =>
    exact lastDecision_append _ (by
      simp [Effect.isDecision, Run.recoveryStarted, Run.terminal, Run.verificationFinished])
  | ask _ hidle => exact absurd hidle hr
  | decide _ hidle => exact absurd hidle hr
  | task _ _ _ _ _ _ _ hidle => exact absurd hidle hr
  | service _ _ _ _ _ _ _ _ _ hidle => exact absurd hidle hr
  | serviceLeft _ _ _ _ _ _ _ _ _ hidle => exact absurd hidle hr
  | recovering r t' results results' trace _ _ hmove => exact hmove.lastDecision_eq
  | stop t rest durationMs =>
    rw [List.append_assoc]
    refine lastDecision_append _ fun x hx => ?_
    rcases List.mem_append.mp hx with hx | hx
    · exact t.killEffects_undecided x hx
    · rw [List.mem_singleton.mp hx]; rfl
  | interrupt r => exact lastDecision_append _ r.task.killEffects_undecided
  | skipQueued | skipStages =>
    refine lastDecision_append _ fun x hx => ?_
    obtain ⟨t, -, rfl⟩ := List.mem_map.mp hx
    rfl
  | fill | park | sort | signal | verify => rfl

/-- Only an approved recovery under the prompt policy enters. -/
theorem Move.admitted {failFast : Bool} {v v' : View} (h : Move failFast v v')
    (hr : v'.recovering ≠ none) : v.recovering ≠ none ∨
      (v.run.metadata.recoveryPolicy = .prompt ∧ lastDecision v'.trace = some .approved) := by
  cases h with
  | recover t rest commands _ _ _ hpolicy happroved =>
    refine .inr ⟨hpolicy, ?_⟩
    exact (lastDecision_append _ (by simp [Effect.isDecision, Run.recoveryStarted])).trans happroved
  | recovering r _ _ _ _ hrec => exact .inl (by simp [hrec])
  | verify _ _ hrec => exact .inl (by simp [hrec])
  | recoveryFailed | verified | interrupt => exact absurd rfl hr
  | _ => exact .inl hr

theorem View.Gate.move {failFast : Bool} {metadata : RunMetadata} {v v' : View}
    (hv : v.Gate metadata) (h : Move failFast v v') : v'.Gate metadata := by
  refine ⟨h.metadata_eq.trans hv.metadata_eq, fun hr => ?_, ?_⟩
  · rcases h.admitted hr with hbefore | ⟨hpolicy, happroved⟩
    · rw [h.lastDecision_eq hbefore]
      exact hv.admitted hbefore
    · exact ⟨hv.metadata_eq ▸ hpolicy, happroved⟩
  · rcases h.uneventful with ⟨stage, rest, limit, -, rfl⟩ | ⟨effects, heffects⟩
    · exact whenever_concat.mpr ⟨hv.gated, trivial⟩
    · rw [heffects.trace]
      rcases heffects.orderly with hnone | ⟨proc, command, rest, rfl, hrest⟩
      · refine hv.gated.extend fun x hx past => ?_
        cases x with
        | spawned => exact absurd (hnone _ hx) (by simp [Effect.spawns])
        | _ => trivial
      · have hfirst : Whenever (Approved metadata.recoveryPolicy)
            (v.trace ++ [.spawned proc command]) :=
          whenever_concat.mpr ⟨hv.gated, fun hne =>
            hv.admitted (heffects.phased proc command List.mem_cons_self hne)⟩
        have hall := hfirst.extend (l := rest) fun x hx past => by
          cases x with
          | spawned => exact absurd (hrest _ hx) (by simp [Effect.position?])
          | _ => trivial
        simpa using hall

/-! ### Seclusion -/

/-- The announcement that a job's recovery starts. -/
def Effect.startsRecovery : Effect → Bool
  | .event (.recoveryPhase _ _ phase _) => phase = "recovery_started"
  | _ => false

/-- No process of a background service is alive when a recovery starts. -/
def StartsUnserved (trace : List Effect) : Prop :=
  Whenever (fun past x => x.startsRecovery = true → ∀ proc ∈ alive past, proc.service = false) trace

/-- A process of a recovery or a verification is the only one. -/
def Alone (past : List Effect) : Prop :=
  ∀ proc ∈ alive past, proc.phase ≠ .original → alive past = [proc]

structure View.Secluded (v : View) : Prop where
  unserved : v.recovering ≠ none → ∀ s ∈ v.run.services, s.child = false
  alone : Throughout Alone v.trace

theorem ActiveTask.childProc_eq_some {t : ActiveTask} {phase : Phase} {proc : Proc}
    (h : t.childProc phase = some proc) : t.child = true ∧ proc = t.proc phase := by
  unfold ActiveTask.childProc at h
  split at h
  · rename_i hchild; exact ⟨hchild, (Option.some.inj h).symm⟩
  · cases h

/-- At a view, a process of a later pass is the one of the job being recovered. -/
theorem View.Accounted.alone {failFast : Bool} {all : List Stage} {v : View}
    (h : v.Accounted failFast all) (hslots : v.Slots)
    (hunserved : v.recovering ≠ none → ∀ s ∈ v.run.services, s.child = false) : Alone v.trace := by
  intro proc hproc hphase
  obtain ⟨e, he, hchild⟩ := List.mem_filterMap.mp (h.living.mem_iff.mp hproc)
  have hjob : ∃ r, v.recovering = some r ∧ e = .recovering r := by
    cases e with
    | planned | queued | pending => cases hchild
    | active t => exact absurd (by rw [(ActiveTask.childProc_eq_some hchild).2]; rfl) hphase
    | service t => exact absurd (by rw [(ActiveTask.childProc_eq_some hchild).2]; rfl) hphase
    | recovering r =>
      refine ⟨r, ?_, rfl⟩
      simpa [View.board, View.entities] using he
  obtain ⟨r, hr, rfl⟩ := hjob
  have hdrained := hslots.alone (by simp [hr])
  have hservices : (v.run.services.map Entity.service).filterMap Entity.proc? = [] := by
    refine List.filterMap_eq_nil_iff.mpr fun e he => ?_
    obtain ⟨s, hs, rfl⟩ := List.mem_map.mp he
    exact ActiveTask.childProc_of_no_child (hunserved (by simp [hr]) s hs) _
  have hidle : ∀ {ι : Type} (f : ι → Entity) (items : List ι), (∀ i, (f i).proc? = none) →
      (items.map f).filterMap Entity.proc? = [] := fun f items hf => by
    simp [List.filterMap_map, hf]
  have honly : v.entities.filterMap Entity.proc? = [proc] := by
    simp only [View.entities, List.filterMap_append, hservices, hdrained.1, hr,
      hidle Entity.planned _ fun _ => rfl, hidle Entity.queued _ fun _ => rfl,
      hidle Entity.pending _ fun _ => rfl]
    simp [hchild]
  have hliving := h.living
  rw [Living] at hliving
  simp only [View.board, honly] at hliving
  exact List.perm_singleton.mp hliving

/-- A service with a child has its process among those alive. -/
theorem View.Accounted.service_alive {failFast : Bool} {all : List Stage} {v : View}
    (h : v.Accounted failFast all) {s : ActiveTask} (hs : s ∈ v.run.services)
    (hchild : s.child = true) : s.proc .original ∈ alive v.trace ∧ s.service = true := by
  have hmem : Entity.service s ∈ v.entities := by simp [View.entities, hs]
  refine ⟨h.living.mem_iff.mpr (List.mem_filterMap.mpr ⟨_, hmem, if_pos hchild⟩), ?_⟩
  rcases h.tracked.held _ hmem with ⟨u, -, -, hc⟩ | ⟨-, hnone, -⟩
  · exact (hc.present _ rfl).1.2.1
  · cases hnone

theorem Move.unserved {failFast : Bool} {all : List Stage} {v v' : View} (h : Move failFast v v')
    (hv : v.recovering ≠ none → ∀ s ∈ v.run.services, s.child = false)
    (haccounted : v.Accounted failFast all) (hslots : v.Slots) (hstarts : StartsUnserved v'.trace) :
    v'.recovering ≠ none → ∀ s ∈ v'.run.services, s.child = false := by
  cases h with
  | begin _ _ _ _ _ hidle => exact fun hr => absurd hidle hr
  | park seen rest t hactive =>
    exact fun hr => absurd (hslots.alone hr).1 (by simp [hactive])
  | service _ _ _ _ _ _ _ _ _ hidle => exact fun hr => absurd hidle hr
  | serviceLeft _ _ _ _ _ _ _ _ _ hidle => exact fun hr => absurd hidle hr
  | recover t rest commands =>
    intro _ s hs
    by_contra hchild
    obtain ⟨halive, hservice⟩ := haccounted.service_alive hs (by simpa using hchild)
    have hnone := (whenever_concat.mp hstarts).2 rfl _ halive
    simp [ActiveTask.proc, hservice] at hnone
  | recovering r _ _ _ _ hr => exact fun _ => hv (by simp [hr])
  | verify _ _ hr => exact fun _ => hv (by simp [hr])
  | recoveryFailed | verified | interrupt => exact fun hr => absurd rfl hr
  | _ => exact hv

theorem Alone.subperm {past past' : List Effect} (h : Alone past)
    (hsub : (alive past').Subperm (alive past)) : Alone past' := by
  intro proc hproc hphase
  have honly := h proc (hsub.subset hproc) hphase
  rw [honly] at hsub
  obtain ⟨l, hperm, hl⟩ := hsub
  rcases List.sublist_singleton.mp hl with rfl | rfl
  · exact absurd (hperm.symm.mem_iff.mp hproc) (by simp)
  · exact List.perm_singleton.mp hperm.symm

theorem View.Secluded.move {failFast : Bool} {all : List Stage} {v v' : View} (hv : v.Secluded)
    (h : Move failFast v v') (hbefore : v.Disciplined failFast all)
    (hafter : v'.Disciplined failFast all) (hstarts : StartsUnserved v'.trace) : v'.Secluded := by
  have hunserved := h.unserved hv.unserved hbefore.accounted hbefore.slots hstarts
  have hnow := hafter.accounted.alone hafter.slots hunserved
  refine ⟨hunserved, ?_⟩
  obtain ⟨effects, htrace, horderly⟩ : ∃ effects, v'.trace = v.trace ++ effects ∧ Orderly effects := by
    rcases h.uneventful with ⟨stage, rest, limit, -, rfl⟩ | ⟨effects, heffects⟩
    · exact ⟨_, rfl, .inl (by simp [Effect.spawns])⟩
    · exact ⟨effects, heffects.trace, heffects.orderly⟩
  rw [htrace] at hnow ⊢
  refine horderly.throughout hv.alone (fun l _ hsub => hv.alone.now.subperm hsub) fun l _ heq => ?_
  exact hnow.subperm (by rw [heq])

/-! ### Whole sessions -/

/-- Everything a view knows about its recoveries. -/
structure View.Guarded (failFast : Bool) (metadata : RunMetadata) (all : List Stage) (v : View) :
    Prop where
  disciplined : v.Disciplined failFast all
  gate : v.Gate metadata
  secluded : StartsUnserved v.trace → v.Secluded

theorem View.Guarded.move {failFast : Bool} {metadata : RunMetadata} {all : List Stage}
    {v v' : View} (h : v.Guarded failFast metadata all) (hmove : Move failFast v v')
    (hdistinct : ((all.flatMap stageTasks).map (·.position)).Nodup) :
    v'.Guarded failFast metadata all := by
  have hafter := h.disciplined.move hmove hdistinct
  refine ⟨hafter, h.gate.move hmove, fun hstarts => ?_⟩
  obtain ⟨effects, htrace⟩ := hmove.trace_extends
  have hbefore := h.secluded (Whenever.of_append (htrace ▸ hstarts))
  exact hbefore.move hmove h.disciplined hafter hstarts

theorem View.Guarded.appended {failFast : Bool} {metadata : RunMetadata} {all stages : List Stage}
    {v : View} (h : v.Guarded failFast metadata all)
    (hdistinct : (((all ++ stages).flatMap stageTasks).map (·.position)).Nodup) :
    (v.appended stages).Guarded failFast metadata (all ++ stages) where
  disciplined := h.disciplined.appended hdistinct
  gate := ⟨h.gate.metadata_eq, h.gate.admitted, h.gate.gated⟩
  secluded hstarts := ⟨(h.secluded hstarts).unserved, (h.secluded hstarts).alone⟩

theorem View.Guarded.reconciled {failFast : Bool} {metadata : RunMetadata} {all : List Stage}
    {v : View} (h : v.Guarded failFast metadata all) (hidle : v.recovering = none)
    (stopNames : List String) : (v.reconciled stopNames).Guarded failFast metadata all := by
  have hidle' : (v.reconciled stopNames).recovering = none := hidle
  obtain ⟨effects, heffects⟩ := v.reconciled_uneventful stopNames
  have hquiet : ∀ x ∈ effects, x.spawns = false := by
    have hsame : effects = _ := List.append_cancel_left (heffects.trace.symm)
    rw [hsame]
    intro x hx
    obtain ⟨t, -, hx⟩ := List.mem_flatMap.mp hx
    exact (t.killEffects_orderly x hx).1
  refine ⟨h.disciplined.reconciled stopNames, ⟨h.gate.metadata_eq, fun hr => absurd hidle' hr, ?_⟩,
    fun hstarts => ⟨fun hr => absurd hidle' hr, ?_⟩⟩
  · rw [heffects.trace]
    refine h.gate.gated.extend fun x hx past => ?_
    cases x with
    | spawned => exact absurd (hquiet _ hx) (by simp [Effect.spawns])
    | _ => trivial
  · rw [heffects.trace] at hstarts ⊢
    have hsecluded := h.secluded hstarts.of_append
    refine throughout_append.mpr ⟨hsecluded.alone, fun l hl => ?_⟩
    exact hsecluded.alone.now.subperm (alive_subperm _ fun x hx => hquiet x (hl.subset hx))

theorem View.start_guarded (failFast : Bool) (env : Env W) (world : W) (metadata : RunMetadata)
    (plan : RunPlan) (hdistinct : (plan.tasks.map (·.position)).Nodup) :
    (startView env world metadata plan).Guarded failFast metadata plan.stages := by
  have hdisciplined := View.start_disciplined failFast env world metadata plan hdistinct
  refine ⟨hdisciplined, ⟨rfl, fun hr => absurd rfl hr, ?_⟩, fun _ => ⟨fun hr => absurd rfl hr, ?_⟩⟩
  · exact (whenever_concat (h := [])).mpr ⟨whenever_nil, trivial⟩
  · intro past hpast proc hproc
    have hnone : alive past = [] := by
      refine (alive_unowned [] fun x hx => ?_).trans rfl
      have := hpast.subset hx
      simp only [startView, List.mem_singleton] at this
      rw [this]; rfl
    simp [hnone] at hproc

/-- A reload appends a planned plan. -/
def Op.Planned : Op → Prop
  | .append plan => Funzzy.Planned plan
  | .advance _ | .reconcile _ => True

theorem Session.appended_unrecoverable (ex : Executor) (env : Env W) :
    ∀ (ops : List Op) (s : Session W), (∀ op ∈ ops, op.Planned) →
      ∀ u ∈ (s.appendedStages ex env ops).flatMap stageTasks,
        u.service = true → u.recoveryCommands = none
  | [], _, _, u, hu => by cases hu
  | op :: ops, s, hops, u, hu => by
    have hrest : ∀ op ∈ ops, op.Planned := fun other h => hops other (List.mem_cons_of_mem _ h)
    rw [Session.appendedStages] at hu
    split at hu
    · rw [List.flatMap_append, List.mem_append] at hu
      rcases hu with hu | hu
      · cases op with
        | append plan => exact (hops _ List.mem_cons_self : Funzzy.Planned plan).service_unrecoverable u hu
        | advance | reconcile => cases hu
      · exact Session.appended_unrecoverable ex env ops _ hrest u hu
    · exact Session.appended_unrecoverable ex env ops s hrest u hu

/-- No service of a planned run, or of a plan appended to it, declares a recovery. -/
theorem Planned.unrecoverable {ex : Executor} {env : Env W} {plan : RunPlan}
    (hplan : Planned plan) {ops : List Op} (hops : ∀ op ∈ ops, op.Planned) (s : Session W) :
    ∀ u ∈ (plan.stages ++ s.appendedStages ex env ops).flatMap stageTasks,
      u.service = true → u.recoveryCommands = none := by
  intro u hu hservice
  rw [List.flatMap_append, List.mem_append] at hu
  rcases hu with hu | hu
  · exact hplan.service_unrecoverable u hu hservice
  · exact Session.appended_unrecoverable ex env ops s hops u hu hservice

/-- Recovery is bounded and gated: one question, each job's recovery and verification run at most
    once, no process of them without approval under the prompt policy, and none next to another
    process. -/
structure RecoveryBounded (policy : RecoveryPolicy) (all : List Stage) (trace : List Effect) :
    Prop where
  asked : asks trace ≤ 1
  once : ∀ u ∈ all.flatMap stageTasks, u.recoveryCommands ≠ none → ∀ phase,
    (attempts phase (historyAt u.position trace)).map Prod.snd <+: u.declared phase
  gated : Whenever (Approved policy) trace
  alone : Throughout Alone trace

/-- Whatever the port, as long as it answers `cancelled` only after it has read the token as set, every
    session keeps its recoveries bounded and gated if no job with a recovery block fails after the
    generation has asked, and no process of a service is alive when a recovery starts. A job is known by
    its position, so appended plans have positions of their own. -/
theorem Session.recovery_bounded (ex : Executor) (hport : ex.approval.Lawful) (env : Env W) (world : W)
    (metadata : RunMetadata) (plan : RunPlan) (ops : List Op) (hplan : Planned plan)
    (hops : ∀ op ∈ ops, op.Planned)
    (hfresh : FreshPositions plan
      ((Session.start env world metadata plan).appendedStages ex env ops)) :
    let s₀ := Session.start env world metadata plan
    let s := s₀.after ex env ops
    let all := plan.stages ++ s₀.appendedStages ex env ops
    DefersFirst s.io.trace → StartsUnserved s.io.trace →
      RecoveryBounded metadata.recoveryPolicy all s.io.trace := by
  intro s₀ s all hfirst hstarts
  have hdistinct := hplan.distinct hfresh
  have hs : s.Holds ex.failFast fun v => v.Guarded ex.failFast metadata all :=
    Session.run_holds ⟨ex, hport⟩ env world metadata plan ops
    (P := fun all v => v.Guarded ex.failFast metadata all) hplan hfresh
    (View.start_guarded ex.failFast env world metadata plan)
    (fun _ _ _ hall hmove hv => hv.move hmove hall)
    (fun _ _ _ hall hv => hv.appended hall)
    (fun _ _ stopNames hidle hv => hv.reconciled hidle stopNames)
  obtain ⟨v, hguarded, htrace⟩ := hs.exists_view
  have hcomposed := Session.after_composed ⟨ex, hport⟩ env ops s₀
    (Session.start_composed env world metadata plan)
  refine ⟨hcomposed.1 hfirst, fun u hu hsome phase => ?_, htrace ▸ hguarded.gate.gated, ?_⟩
  · have hfinite : u.service = false := by
      by_contra hservice
      exact hsome (hplan.unrecoverable hops s₀ u hu (by simpa using hservice))
    have hbarrier := hguarded.disciplined.barrierAndBound hdistinct
    rw [htrace] at hbarrier
    exact (hbarrier.inOrder u hu phase).finite hfinite
  · rw [← htrace] at hstarts ⊢
    exact (hguarded.secluded hstarts).alone

/-- Two failing jobs next to a service: the port is asked twice, and each recovery runs next to the
    service's process. -/
theorem Session.recovery_asked_twice :
    let plan := RunPlan.fromRules
      [{ name := "server", commands := ["serve"], service := true },
       { name := "lint", commands := ["lint"], recovery := some ["fix"] },
       { name := "test", commands := ["test"], recovery := some ["repair"] }]
    let env := steadyEnv fun task =>
      if task.service then none else some ⟨some 1, "exit status: 1"⟩
    let s := (Session.start env () { runId := 1 } plan).after { approval := ttyRecoveryApproval } env
      [.advance 2, .advance 2, .advance 2, .advance 2, .advance 2]
    asks s.io.trace = 2 ∧ ¬Throughout Alone s.io.trace ∧
      ¬RecoveryBounded .prompt plan.stages s.io.trace := by
  intro plan env s
  have hasks : asks s.io.trace = 2 := by decide
  refine ⟨hasks, fun halone => ?_, fun hbounded => ?_⟩
  · have hnow := halone (s.io.trace.take 15) (List.take_prefix _ _)
    have hlint : (alive (s.io.trace.take 15)).map (fun proc => (proc.name, proc.phase))
        = [("server", .original), ("lint", .recovery)] := by decide
    obtain ⟨server, lint, hprocs, -, hphase⟩ : ∃ server lint,
        alive (s.io.trace.take 15) = [server, lint] ∧ server.phase = .original ∧
          lint.phase = .recovery := by
      rcases hp : alive (s.io.trace.take 15) with _ | ⟨a, _ | ⟨b, _ | _⟩⟩ <;> simp_all
    have hone := hnow lint (by rw [hprocs]; simp) (by simp [hphase])
    rw [hprocs] at hone
    cases hone
  · have := hbounded.asked
    omega

/-- One failing job, recovered and verified. -/
theorem Session.recovery_bounded_at_lint :
    let plan := RunPlan.fromRules
      [{ name := "lint", commands := ["lint"], recovery := some ["fix"] }]
    let env := steadyEnv fun task =>
      some (if task.recoveryCommands.isSome then ⟨some 1, "exit status: 1"⟩
        else ⟨some 0, "exit status: 0"⟩)
    let s := (Session.start env () { runId := 1 } plan).after { approval := ttyRecoveryApproval } env
      [.advance 3, .advance 3]
    asks s.io.trace = 1 ∧ RecoveryBounded .prompt plan.stages s.io.trace := by
  intro plan env s
  have hs : (Session.start env () { runId := 1 } plan).after { approval := ttyRecoveryApproval } env
      [.advance 3, .advance 3] = s := rfl
  have hnone : (Session.start env () { runId := 1 } plan).appendedStages
      { approval := ttyRecoveryApproval } env [.advance 3, .advance 3] = [] := by decide
  have hfresh : FreshPositions plan ((Session.start env () { runId := 1 } plan).appendedStages
      { approval := ttyRecoveryApproval } env [.advance 3, .advance 3]) := by
    rw [hnone]
    exact ⟨.nil, by simp⟩
  have hfirst : DefersFirst s.io.trace := by unfold DefersFirst; decide
  have hstarts : StartsUnserved s.io.trace := by unfold StartsUnserved; decide
  have hbounded := Session.recovery_bounded { approval := ttyRecoveryApproval } ttyRecoveryApproval_lawful env ()
    { runId := 1 } plan [.advance 3, .advance 3] (.fromRules _ (by simp [Rules.Consistent]))
    (by simp [Op.Planned]) hfresh
  dsimp only at hbounded
  rw [hnone, List.append_nil, hs] at hbounded
  exact ⟨by decide, hbounded hfirst hstarts⟩

end Funzzy
