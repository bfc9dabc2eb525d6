import Funzzy.Executor.Alive

/-! Stages as barriers with a bounded number of slots.

    `Slots` ties the active tasks to the limit chosen for the stage, so that at every moment of a
    trace at most that many finite processes are alive. `Staged` says which jobs may run at all: a
    stage is opened only after every finite task of the stages before it has been reported, so a job
    that is past its `planned` role has nothing unreported before it. `InTurn` is the run at one slot
    without failures: what was spawned, followed by what is left, is the plan. -/

namespace Funzzy

open History Board

variable {W : Type}

/-! ### The slots of a stage -/

/-- The concurrency limit chosen last. -/
def stageLimitOf (trace : List Effect) : Nat := (trace.filterMap Effect.limit?).getLast?.getD 0

/-- The processes of finite tasks that are alive. -/
def finiteAlive (trace : List Effect) : List Proc := (alive trace).filter fun proc => !proc.service

/-- At most as many finite processes are alive as the current stage has slots. -/
def WithinLimit (trace : List Effect) : Prop := (finiteAlive trace).length ≤ stageLimitOf trace

theorem stageLimitOf_append (trace : List Effect) {l : List Effect}
    (hl : ∀ x ∈ l, x.limit? = none) : stageLimitOf (trace ++ l) = stageLimitOf trace := by
  have hnone : l.filterMap Effect.limit? = [] := List.filterMap_eq_nil_iff.mpr hl
  rw [stageLimitOf, List.filterMap_append, hnone, List.append_nil, stageLimitOf]

/-- How the tasks of the current stage fill its slots; a recovery has the stage to itself. -/
structure View.Slots (v : View) : Prop where
  limit : stageLimitOf v.trace = v.run.stageLimit
  filled : v.run.active.length ≤ v.run.stageLimit
  reserved : v.run.pendingRecoveries ≠ [] ∨ v.recovering ≠ none → 0 < v.run.stageLimit
  alone : v.recovering ≠ none → v.run.Drained

theorem Uneventful.limit_eq {v v' : View} {effects : List Effect} (h : Uneventful v v' effects)
    (hlimit : stageLimitOf v.trace = v.run.stageLimit) :
    stageLimitOf v'.trace = v'.run.stageLimit := by
  rw [h.trace, stageLimitOf_append _ h.unlimited, hlimit, h.limit]

theorem Move.slots {failFast : Bool} {v v' : View} (h : Move failFast v v') (hv : v.Slots) :
    v'.Slots := by
  have hlimit : stageLimitOf v'.trace = v'.run.stageLimit := by
    rcases h.uneventful with ⟨stage, rest, limit, -, rfl⟩ | ⟨effects, heffects⟩
    · simp [View.begun, stageLimitOf, Effect.limit?]
    · exact heffects.limit_eq hv.limit
  refine ⟨hlimit, ?_, ?_, ?_⟩
  · have hfilled := hv.filled
    cases h with
    | begin _ _ _ hdrained => simp [hdrained.1]
    | fill task rest _ hfree => simpa [Nat.succ_le_iff] using hfree
    | task seen rest t t' results trace hactive => simpa [hactive] using hfilled
    | park seen rest t hactive | record seen rest t durationMs hactive | defer seen rest t hactive =>
      have hlength : (seen ++ rest).length ≤ v.run.stageLimit := by
        simp only [hactive, List.length_append, List.length_cons] at hfilled ⊢
        omega
      exact hlength
    | stop t rest durationMs _ _ hactive =>
      rw [hactive, List.length_cons] at hfilled
      exact (Nat.le_succ _).trans hfilled
    | _ => exact hfilled
  · have hreserved := hv.reserved
    cases h with
    | begin _ _ _ _ hresolved hidle => simp [hresolved, hidle]
    | defer seen rest t hactive =>
      intro _
      have hfilled := hv.filled
      simp only [hactive, List.length_append, List.length_cons] at hfilled ⊢
      omega
    | sort pending hperm =>
      rintro (hne | hne)
      · exact hreserved (.inl fun hnil => hne (List.perm_nil.mp (hnil ▸ hperm)))
      · exact hreserved (.inr hne)
    | keep t rest durationMs _ _ _ hp | recover t rest commands _ _ _ _ _ hp _ =>
      exact fun _ => hreserved (.inl (by simp [hp]))
    | recovering r _ _ _ _ hr | recoveryFailed _ _ _ _ hr | verify _ _ hr | verified _ _ _ _ hr
    | interrupt _ hr => exact fun _ => hreserved (.inr (by simp [hr]))
    | _ => exact hreserved
  · have halone := hv.alone
    cases h with
    | begin _ _ _ _ _ hidle => simp [hidle]
    | fill task rest hqueued _ =>
      intro hne
      exact absurd (halone hne).2 (by simp [hqueued])
    | task seen rest t t' results trace hactive hidle => simp [hidle]
    | park seen rest t hactive | record seen rest t _ hactive | defer seen rest t hactive =>
      intro hne
      exact absurd (halone hne).1 (by simp [hactive])
    | stop t rest _ _ _ hactive =>
      intro hne
      exact absurd (halone hne).1 (by simp [hactive])
    | recover t rest commands hdrained => exact fun _ => hdrained
    | skipQueued _ _ _ => exact fun hne => ⟨(halone hne).1, rfl⟩
    | recovering r _ _ _ _ hr => exact fun _ => halone (by simp [hr])
    | verify _ _ hr => exact fun _ => halone (by simp [hr])
    | recoveryFailed | verified | interrupt => simp
    | _ => exact halone

/-- The finite processes of some entities. -/
def finiteProcs (parts : List Entity) : List Proc :=
  (parts.filterMap Entity.proc?).filter fun proc => !proc.service

theorem finiteProcs_append (a b : List Entity) :
    finiteProcs (a ++ b) = finiteProcs a ++ finiteProcs b := by
  simp [finiteProcs]

theorem finiteProcs_length_le (parts : List Entity) : (finiteProcs parts).length ≤ parts.length :=
  (List.length_filter_le _ _).trans (List.length_filterMap_le _ _)

theorem finiteProcs_eq_nil {ι : Type} {f : ι → Entity} {items : List ι}
    (hf : ∀ i ∈ items, ∀ proc, (f i).proc? = some proc → proc.service = true) :
    finiteProcs (items.map f) = [] := by
  refine List.filter_eq_nil_iff.mpr fun proc hproc => ?_
  obtain ⟨e, he, hchild⟩ := List.mem_filterMap.mp hproc
  obtain ⟨i, hi, rfl⟩ := List.mem_map.mp he
  simp [hf i hi proc hchild]

/-- At every view the finite processes fit into the slots of the stage. -/
theorem View.Accounted.finite_le {failFast : Bool} {all : List Stage} {v : View}
    (h : v.Accounted failFast all) (hslots : v.Slots) :
    (finiteAlive v.trace).length ≤ v.run.stageLimit := by
  have hservices : finiteProcs (v.run.services.map Entity.service) = [] := by
    refine finiteProcs_eq_nil fun s hs proc hproc => ?_
    have hmem : Entity.service s ∈ v.entities := by simp [View.entities, hs]
    rcases h.tracked.held _ hmem with ⟨u, -, -, hc⟩ | ⟨-, hnone, -⟩
    · obtain ⟨⟨-, hservice, -⟩, -⟩ := hc.present _ rfl
      simp only [Entity.proc?, ActiveTask.childProc] at hproc
      split at hproc
      · cases hproc; exact hservice
      · cases hproc
    · cases hnone
  have hidle : ∀ {ι : Type} (f : ι → Entity) (items : List ι), (∀ i, (f i).proc? = none) →
      finiteProcs (items.map f) = [] := fun f items hf =>
    finiteProcs_eq_nil fun i _ proc hproc => by simp [hf i] at hproc
  have hlength : (finiteAlive v.trace).length
      = (finiteProcs (v.run.active.map .active)).length
        + (finiteProcs (v.recovering.map Entity.recovering).toList).length := by
    have hperm := (h.living.filter fun proc => !proc.service).length_eq
    refine hperm.trans ?_
    change (finiteProcs v.entities).length = _
    simp only [View.entities, finiteProcs_append, hservices, hidle Entity.planned _ fun _ => rfl,
      hidle Entity.queued _ fun _ => rfl, hidle Entity.pending _ fun _ => rfl]
    simp
  have hactive := (finiteProcs_length_le (v.run.active.map .active)).trans_eq (List.length_map _)
  have hfilled := hslots.filled
  rw [hlength]
  cases hr : v.recovering with
  | none => simpa [finiteProcs] using hactive.trans hfilled
  | some r =>
    have hpos := hslots.reserved (.inr (by simp [hr]))
    have hnone := (hslots.alone (by simp [hr])).1
    have hone := finiteProcs_length_le [Entity.recovering r]
    simp only [hnone, List.map_nil, Option.map_some, Option.toList_some, finiteProcs,
      List.filterMap_nil, List.filter_nil, List.length_nil, List.length_singleton] at hone ⊢
    omega

/-- At every moment of a trace the limit is kept, and every job has one process at most. -/
structure View.Bounded (v : View) : Prop where
  within : Throughout WithinLimit v.trace
  single : Throughout (fun past => ((alive past).map Proc.position).Nodup) v.trace

theorem Uneventful.bounded {failFast : Bool} {all : List Stage} {v v' : View}
    {effects : List Effect} (h : Uneventful v v' effects) (hv : v.Bounded) (hslots : v.Slots)
    (hbefore : v.Accounted failFast all) (hafter : v'.Accounted failFast all) (hslots' : v'.Slots) :
    v'.Bounded := by
  have hinit : ∀ l, l <+: effects → stageLimitOf (v.trace ++ l) = v.run.stageLimit := by
    intro l hl
    rw [stageLimitOf_append _ fun x hx => h.unlimited x (hl.subset hx), hslots.limit]
  refine ⟨?_, ?_⟩
  · rw [h.trace]
    refine h.orderly.throughout hv.within (fun l hl hsub => ?_) fun l hl heq => ?_
    · rw [WithinLimit, hinit l hl]
      exact (hsub.filter _).length_le.trans (hbefore.finite_le hslots)
    · have hle := hafter.finite_le hslots'
      rw [h.trace, h.limit] at hle
      rw [WithinLimit, hinit l hl, finiteAlive, heq]
      exact hle
  · rw [h.trace]
    refine h.orderly.throughout hv.single (fun l hl hsub => ?_) fun l hl heq => ?_
    · obtain ⟨procs, hperm, hsublist⟩ := hsub
      exact ((hperm.map Proc.position).nodup_iff).mp
        ((hsublist.map Proc.position).nodup hbefore.one_each)
    · rw [heq, ← h.trace]
      exact hafter.one_each

theorem View.Bounded.begun {failFast : Bool} {all : List Stage} {v : View} (hv : v.Bounded)
    {stage : Stage} {rest : List Stage} {limit : Nat}
    (hafter : (v.begun stage rest limit).Accounted failFast all)
    (hslots : (v.begun stage rest limit).Slots) :
    (v.begun stage rest limit).Bounded := by
  have hnow : WithinLimit (v.begun stage rest limit).trace := by
    rw [WithinLimit, hslots.limit]
    exact hafter.finite_le hslots
  have hconcat : ∀ P : List Effect → Prop, Throughout P v.trace →
      P (v.begun stage rest limit).trace → Throughout P (v.begun stage rest limit).trace := by
    intro P hP hlast
    refine throughout_append.mpr ⟨hP, fun l hl => ?_⟩
    rcases List.prefix_cons_iff.mp hl with rfl | ⟨m, rfl, hm⟩
    · simpa using hP.now
    · rw [List.prefix_nil.mp hm]; exact hlast
  exact ⟨hconcat _ hv.within hnow, hconcat _ hv.single hafter.one_each⟩

/-! ### Barriers between stages -/

/-- The task has been reported. -/
def Terminal (u : TaskPlan) (trace : List Effect) : Prop :=
  u.job.key ∈ (terminals trace).map TaskSnapshot.key

theorem Terminal.mono {u : TaskPlan} {trace : List Effect} (h : Terminal u trace)
    (l : List Effect) : Terminal u (trace ++ l) := by
  rw [Terminal, terminals_append, List.map_append]
  exact List.mem_append_left _ h

/-- Every finite task of a stage before the job's own has been reported. -/
def Cleared (all : List Stage) (trace : List Effect) (position : Nat) : Prop :=
  ∀ before stage after, all = before ++ stage :: after → ∀ t ∈ stageTasks stage,
    t.position = position → ∀ u ∈ before.flatMap stageTasks, u.service = false → Terminal u trace

theorem Cleared.mono {all : List Stage} {trace : List Effect} {position : Nat}
    (h : Cleared all trace position) (l : List Effect) : Cleared all (trace ++ l) position :=
  fun before stage after hall t ht hposition u hu hfinite =>
    (h before stage after hall t ht hposition u hu hfinite).mono l

/-- A process may be started: it belongs to a job of the plan and everything before is reported. -/
def MayStart (all : List Stage) (past : List Effect) : Effect → Prop
  | .spawned proc _ =>
    (∃ u ∈ all.flatMap stageTasks, u.position = proc.position) ∧ Cleared all past proc.position
  | _ => True

def Entity.Opened : Entity → Prop
  | .planned _ => False
  | _ => True

/-- Jobs of opened stages have nothing unreported before them, nor had any process when it started. -/
structure Ordered (all : List Stage) (b : Board.State Entity Effect) : Prop where
  cleared : ∀ e ∈ b.parts, e.Opened → Cleared all b.history e.position
  started : Whenever (MayStart all) b.history

theorem EntityMove.opened {failFast : Bool} {e e' : Entity} {effects : List Effect}
    (h : EntityMove failFast e effects (some e')) : e.Opened := by
  cases h <;> trivial

theorem EntityMove.spawned_opened {failFast : Bool} {e : Entity} {effects : List Effect}
    {e' : Option Entity} (h : EntityMove failFast e effects e') {proc : Proc} {command : CommandLine}
    (hx : .spawned proc command ∈ effects) : e.Opened ∧ proc.position = e.position := by
  have hposition : proc.position = e.position := by
    rcases h.owns _ hx with hnone | hsome
    · cases hnone
    · exact Option.some.inj hsome
  refine ⟨?_, hposition⟩
  cases h with
  | skip _ task run he =>
    rw [List.mem_singleton] at hx
    cases hx
  | _ => trivial

theorem Ordered.step {failFast : Bool} {all : List Stage} {b b' : Board.State Entity Effect}
    (hstep : Board.Step (jobs failFast) b b')
    (hclaims : Claims (jobs failFast) (Tracks (all.flatMap stageTasks)) b) (h : Ordered all b) :
    Ordered all b' := by
  cases hstep with
  | noise _ x hx =>
    refine ⟨fun e he hopened => (h.cleared e he hopened).mono _,
      whenever_concat.mpr ⟨h.started, ?_⟩⟩
    cases x with
    | spawned proc command => cases hx
    | _ => trivial
  | shuffle _ parts hperm =>
    exact ⟨fun e he hopened => h.cleared e (hperm.mem_iff.mp he) hopened, h.started⟩
  | move history e effects e' rest hmove =>
    refine ⟨fun x hx hopened => ?_, h.started.append fun l x hl => ?_⟩
    · rcases List.mem_append.mp hx with hx | hx
      · cases e' with
        | none => cases hx
        | some e' =>
          rw [Option.toList_some, List.mem_singleton] at hx
          rw [hx, EntityMove.position_eq hmove]
          exact (h.cleared e List.mem_cons_self hmove.opened).mono _
      · exact (h.cleared x (List.mem_cons_of_mem _ hx) hopened).mono _
    · cases x with
      | spawned proc command =>
        have hmem : Effect.spawned proc command ∈ effects := hl.subset (by simp)
        obtain ⟨hopened, hposition⟩ := EntityMove.spawned_opened hmove hmem
        refine ⟨?_, hposition ▸ (h.cleared e List.mem_cons_self hopened).mono _⟩
        rcases hclaims.held e List.mem_cons_self with ⟨u, hu, hsame, -⟩ | ⟨-, hnone, -⟩
        · exact ⟨u, hu, hsame.trans hposition.symm⟩
        · cases hnone
      | _ => trivial

/-- With distinct positions a task's own stage is where it stands: what comes before a later
    occurrence of its position comes before it. -/
theorem before_of_split {pre rest before after : List Stage} {stage stage' : Stage}
    (hdistinct : (((pre ++ stage :: rest).flatMap stageTasks).map (·.position)).Nodup)
    (hsplit : pre ++ stage :: rest = before ++ stage' :: after) {t t' : TaskPlan}
    (ht : t ∈ stageTasks stage) (ht' : t' ∈ stageTasks stage') (hposition : t'.position = t.position) :
    before.flatMap stageTasks ⊆ pre.flatMap stageTasks := by
  rcases List.append_eq_append_iff.mp hsplit with ⟨mid, rfl, hmid⟩ | ⟨mid, rfl, hmid⟩
  · cases mid with
    | nil => simp
    | cons first mid =>
      -- the task would stand in both stages
      obtain ⟨rfl, rfl⟩ := List.cons.inj hmid
      rw [List.flatMap_append, List.map_append, List.nodup_append] at hdistinct
      have hnodup := hdistinct.2.1
      rw [List.flatMap_cons, List.map_append, List.nodup_append] at hnodup
      refine absurd hposition.symm (hnodup.2.2 _ (List.mem_map_of_mem ht) _ (List.mem_map_of_mem ?_))
      simp [ht']
  · exact fun u hu => by simp [hu]

/-- What a run knows about its stages. -/
structure View.Staged (all : List Stage) (v : View) : Prop where
  suffix : v.run.stages <:+ all
  ordered : Ordered all v.board

/-- When a stage may be opened, every finite task of the stages before it has been reported. -/
theorem View.Begins.reported {failFast : Bool} {all pre : List Stage} {v : View} {stage : Stage}
    {rest : List Stage} {limit : Nat} (h : v.Begins stage rest limit)
    (hdistinct : ((all.flatMap stageTasks).map (·.position)).Nodup)
    (htracked : v.Tracked failFast all) (hall : all = pre ++ stage :: rest) :
    ∀ u ∈ pre.flatMap stageTasks, u.service = false → Terminal u v.trace := by
  intro u hu hfinite
  have hmem : u ∈ all.flatMap stageTasks := by rw [hall]; simp [List.mem_flatMap.mp hu]
  have hsame : ∀ u' ∈ all.flatMap stageTasks, u'.position = u.position → u' = u :=
    fun u' hu' heq => List.inj_on_of_nodup_map hdistinct hu' hmem heq
  -- nothing in the run stands at the position of the task
  have hgone : u.position ∉ v.entities.map Entity.position := by
    intro hin
    obtain ⟨e, he, hposition⟩ := List.mem_map.mp hin
    have hrole : (∃ t ∈ (stage :: rest).flatMap stageTasks, e = .planned t) ∨
        ∃ s ∈ v.run.services, e = .service s := by
      simp only [View.entities, h.next, h.drained.1, h.drained.2, h.resolved, h.idle, List.map_nil,
        List.append_nil, Option.map_none, Option.toList_none, List.mem_append, List.mem_map] at he
      rcases he with ⟨t, ht, rfl⟩ | ⟨s, hs, rfl⟩
      · exact .inl ⟨t, ht, rfl⟩
      · exact .inr ⟨s, hs, rfl⟩
    rcases hrole with ⟨t, ht, rfl⟩ | ⟨s, hs, rfl⟩
    · rw [hall, List.flatMap_append, List.map_append, List.nodup_append] at hdistinct
      exact hdistinct.2.2 _ (List.mem_map_of_mem hu) _ (List.mem_map_of_mem ht) hposition.symm
    · rcases htracked.held _ he with ⟨u', hu', hposition', hc⟩ | ⟨-, hnone, -⟩
      · obtain rfl := hsame u' hu' (hposition'.trans hposition)
        obtain ⟨⟨hs, hservice, -⟩, -⟩ := hc.present _ rfl
        simp [hs.service, hfinite] at hservice
      · cases hnone
  rcases htracked.empty u.position hgone with ⟨u', hu', hposition, hc⟩ | ⟨hother, -, -⟩
  · obtain rfl := hsame u' hu' hposition
    have hsub : (terminals (historyAt u'.position v.trace)).Sublist (terminals v.trace) :=
      List.filter_sublist.filterMap _
    exact (hsub.map _).subset (hc.gone rfl hfinite)
  · exact absurd rfl (hother u hmem)

/-- A move takes the next stage, drops them all, or leaves them. -/
theorem Move.stages_eq {failFast : Bool} {v v' : View} (h : Move failFast v v') :
    v'.run.stages = v.run.stages ∨ v'.run.stages = [] ∨
      ∃ stage, v.run.stages = stage :: v'.run.stages := by
  cases h with
  | begin stage rest limit _ _ _ _ hnext _ => exact .inr (.inr ⟨stage, hnext⟩)
  | skipStages => exact .inr (.inl rfl)
  | _ => exact .inl rfl

theorem View.Staged.move {failFast : Bool} {all : List Stage} {v v' : View}
    (hmove : Move failFast v v') (hdistinct : ((all.flatMap stageTasks).map (·.position)).Nodup)
    (htracked : v.Tracked failFast all) (h : v.Staged all) : v'.Staged all := by
  rcases hmove.entities with ⟨stage, rest, limit, hbegins, rfl⟩ | hsteps
  · obtain ⟨pre, hpre⟩ := h.suffix
    rw [hbegins.next] at hpre
    have hreported := hbegins.reported hdistinct htracked hpre.symm
    refine ⟨⟨pre ++ [stage], by simpa [View.begun] using hpre⟩, fun e he hopened => ?_, ?_⟩
    · rcases List.mem_append.mp ((v.begun_entities stage rest limit).mem_iff.mp he) with hnew | hold
      · obtain ⟨t, ht, rfl⟩ := List.mem_map.mp hnew
        rintro before stage' after hall t' ht' hposition u hu hfinite
        have hsub := before_of_split (hpre ▸ hdistinct) (hpre.trans hall) ht ht' hposition
        exact (hreported u (hsub hu) hfinite).mono _
      · refine (h.ordered.cleared e ?_ hopened).mono _
        exact hbegins.entities.mem_iff.mpr (List.mem_append_right _ hold)
    · exact whenever_concat.mpr ⟨h.ordered.started, trivial⟩
  · obtain ⟨-, hordered⟩ := Claims.steps_with (I := Ordered all) (tracks_preserved failFast _)
      (fun b b' hstep hclaims => Ordered.step hstep hclaims) hsteps htracked h.ordered
    refine ⟨?_, hordered⟩
    rcases hmove.stages_eq with heq | heq | ⟨stage, heq⟩
    · rw [heq]; exact h.suffix
    · rw [heq]; exact List.nil_suffix
    · refine .trans ?_ h.suffix
      rw [heq]
      exact List.suffix_cons _ _

theorem View.Staged.reconciled {failFast : Bool} {all : List Stage} {v : View}
    (h : v.Staged all) (htracked : v.Tracked failFast all) (stopNames : List String) :
    (v.reconciled stopNames).Staged all :=
  ⟨h.suffix, (Claims.steps_with (I := Ordered all) (tracks_preserved failFast _)
    (fun _ _ hstep hclaims => Ordered.step hstep hclaims) (v.steps_reconciled failFast stopNames)
    htracked h.ordered).2⟩

/-- New stages at the end do not come before a job that is already in the plan. -/
theorem Cleared.extend {all stages : List Stage} {trace : List Effect} {position : Nat}
    (h : Cleared all trace position)
    (hdistinct : (((all ++ stages).flatMap stageTasks).map (·.position)).Nodup)
    (hknown : ∃ u ∈ all.flatMap stageTasks, u.position = position) :
    Cleared (all ++ stages) trace position := by
  intro before stage after hsplit t ht hposition u hu hfinite
  obtain ⟨w, hw, hsame⟩ := hknown
  rcases List.append_eq_append_iff.mp hsplit with ⟨mid, rfl, hmid⟩ | ⟨mid, rfl, hmid⟩
  · rw [List.flatMap_append, List.map_append, List.nodup_append] at hdistinct
    refine absurd (hsame.trans hposition.symm)
      (hdistinct.2.2 _ (List.mem_map_of_mem hw) _ (List.mem_map_of_mem ?_))
    rw [hmid]
    simp [ht]
  · cases mid with
    | nil =>
      rw [List.append_nil] at hdistinct hw
      rw [List.flatMap_append, List.map_append, List.nodup_append] at hdistinct
      refine absurd (hsame.trans hposition.symm)
        (hdistinct.2.2 _ (List.mem_map_of_mem hw) _ (List.mem_map_of_mem ?_))
      rw [List.nil_append] at hmid
      rw [← hmid]
      simp [ht]
    | cons first mid =>
      obtain ⟨rfl, rfl⟩ := List.cons.inj hmid
      exact h before stage mid rfl t ht hposition u hu hfinite

theorem View.Staged.appended {failFast : Bool} {all stages : List Stage} {v : View}
    (h : v.Staged all) (htracked : v.Tracked failFast all)
    (hdistinct : (((all ++ stages).flatMap stageTasks).map (·.position)).Nodup) :
    (v.appended stages).Staged (all ++ stages) := by
  obtain ⟨pre, hpre⟩ := h.suffix
  refine ⟨⟨pre, by simp [View.appended, ← hpre]⟩, fun e he hopened => ?_, ?_⟩
  · rcases List.mem_append.mp ((v.entities_appended stages).mem_iff.mp he) with hnew | hold
    · obtain ⟨t, -, rfl⟩ := List.mem_map.mp hnew
      cases hopened
    · refine (h.ordered.cleared e hold hopened).extend hdistinct ?_
      rcases htracked.held e hold with ⟨u, hu, hposition, -⟩ | ⟨-, hnone, -⟩
      · exact ⟨u, hu, hposition⟩
      · cases hnone
  · intro before x hx
    have hstarted := h.ordered.started before x hx
    cases x with
    | spawned proc command =>
      obtain ⟨⟨u, hu, hposition⟩, hcleared⟩ := hstarted
      refine ⟨⟨u, ?_, hposition⟩, hcleared.extend hdistinct ⟨u, hu, hposition⟩⟩
      rw [List.flatMap_append]
      exact List.mem_append_left _ hu
    | _ => trivial

/-! ### One slot, in turn -/

/-- The effect is a failure of some command or of a working directory. -/
def Effect.isFailure : Effect → Bool
  | .spawnFailed _ _ _ | .waitFailed _ _ | .contextInvalid _ => true
  | .exited _ status => !status.success
  | _ => false

/-- The commands spawned in a trace, in order. -/
def spawnedCommands (trace : List Effect) : List CommandLine :=
  trace.filterMap fun
    | .spawned _ command => some command
    | _ => none

@[simp] theorem spawnedCommands_append (a b : List Effect) :
    spawnedCommands (a ++ b) = spawnedCommands a ++ spawnedCommands b :=
  List.filterMap_append

/-- No stage had more than one slot and nothing failed. -/
def OneByOne (trace : List Effect) : Prop :=
  (∀ limit ∈ trace.filterMap Effect.limit?, limit ≤ 1) ∧ ∀ x ∈ trace, x.isFailure = false

theorem OneByOne.of_append {a b : List Effect} (h : OneByOne (a ++ b)) : OneByOne a := by
  refine ⟨fun limit hlimit => h.1 limit ?_, fun x hx => h.2 x (List.mem_append_left _ hx)⟩
  rw [List.filterMap_append]
  exact List.mem_append_left _ hlimit

/-- The commands a run has still to spawn, in the order of the plan. -/
def View.remaining (v : View) : List CommandLine :=
  v.run.active.flatMap (·.commands) ++ v.run.queued.flatMap (·.commands)
    ++ (v.run.stages.flatMap stageTasks).flatMap (·.commands)

/-- A run of finite tasks at one slot without failures: its tasks take their turns. -/
structure View.InTurn (all : List Stage) (v : View) : Prop where
  turns : spawnedCommands v.trace ++ v.remaining = (RunPlan.mk all).commands
  finite : ∀ t ∈ v.run.stages.flatMap stageTasks ++ v.run.queued, t.service = false
  unfailed : ∀ t ∈ v.run.active, t.failures = [] ∧ t.service = false
  unserved : v.run.services = []
  resolved : v.run.pendingRecoveries = []
  idle : v.recovering = none
  passed : ∀ job failures, JobId.entry job (.failed failures) ∉ v.run.outcomes

theorem View.InTurn.not_failing {all : List Stage} {v : View} (h : v.InTurn all) :
    ¬v.run.Failing := by
  rintro (⟨job, failures, -, hmem⟩ | hpending)
  · exact h.passed job failures hmem
  · exact hpending h.resolved

theorem OneByOne.limit_le {trace : List Effect} (h : OneByOne trace) : stageLimitOf trace ≤ 1 := by
  rw [stageLimitOf]
  cases hlast : (trace.filterMap Effect.limit?).getLast? with
  | none => simp
  | some limit => exact h.1 limit (List.mem_of_getLast? hlast)

/-- A finite task that meets no failure spawns its next command, or none. -/
theorem TaskMove.in_turn {w w' : Work} (h : TaskMove .original w w') (hfinite : w.task.service = false)
    (hunfailed : w.task.failures = []) (hcalm : ∀ x ∈ w'.trace, x.isFailure = false) :
    spawnedCommands w'.trace ++ w'.task.commands = spawnedCommands w.trace ++ w.task.commands ∧
      w'.task.failures = [] ∧ w'.task.service = false := by
  have hfailure : ∀ x, w'.trace = w.trace ++ [x] → x.isFailure = true → False := by
    intro x htrace hx
    have := hcalm x (by rw [htrace]; simp)
    simp [hx] at this
  cases h with
  | validate | tick => exact ⟨by simp [spawnedCommands], hunfailed, hfinite⟩
  | spawned command rest now _ _ hcommands =>
    refine ⟨?_, hunfailed, hfinite⟩
    simp [spawnedCommands, ActiveTask.launched, ActiveTask.take, hcommands]
  | passed status => exact ⟨by simp [spawnedCommands, ActiveTask.reaped], hunfailed, hfinite⟩
  | invalid | spawnFailed | errored => exact (hfailure _ rfl rfl).elim
  | failed status _ hfailed => exact (hfailure _ rfl (by simp [Effect.isFailure, hfailed])).elim
  | serviceStopped _ _ _ hservice => simp [hfinite] at hservice
  | serviceRestarted _ _ _ hservice => simp [hfinite] at hservice
  | serviceExhausted _ _ _ _ hservice => simp [hfinite] at hservice

/-- A run at one slot has at most one active task. -/
theorem active_singleton {seen rest : List ActiveTask} {t : ActiveTask}
    (h : (seen ++ t :: rest).length ≤ 1) : seen = [] ∧ rest = [] := by
  simp only [List.length_append, List.length_cons] at h
  exact ⟨List.length_eq_zero_iff.mp (by omega), List.length_eq_zero_iff.mp (by omega)⟩

theorem View.InTurn.move {failFast : Bool} {all : List Stage} {v v' : View} (h : v.InTurn all)
    (hmove : Move failFast v v') (hslots : v.Slots) (hcalm : OneByOne v'.trace) : v'.InTurn all := by
  have hone : v.run.active.length ≤ 1 ∧ v.run.stageLimit ≤ 1 := by
    obtain ⟨effects, htrace⟩ := hmove.trace_extends
    rw [htrace] at hcalm
    have := hcalm.of_append.limit_le
    rw [hslots.limit] at this
    exact ⟨hslots.filled.trans this, this⟩
  obtain ⟨hlength, hlimit⟩ := hone
  have hturns := h.turns
  cases hmove with
  | begin stage rest limit hdrained _ _ _ hnext _ =>
    have hfinite := h.finite
    simp only [hnext, hdrained.2, List.append_nil] at hfinite
    refine ⟨?_, ?_, h.unfailed, h.unserved, h.resolved, h.idle, h.passed⟩
    · simp only [View.remaining, hnext, hdrained.1, hdrained.2] at hturns ⊢
      simpa [spawnedCommands] using hturns
    · simp only [hdrained.2, List.nil_append]
      intro t ht
      refine hfinite t ?_
      rw [List.flatMap_cons]
      exact List.mem_append.mpr (List.mem_append.mp ht).symm
  | fill task rest hqueued hfree =>
    have hnone : v.run.active = [] := List.length_eq_zero_iff.mp (by omega)
    have hfinite := h.finite
    rw [hqueued] at hfinite
    refine ⟨?_, fun t ht => hfinite t ?_, fun t ht => ?_, h.unserved, h.resolved, h.idle, h.passed⟩
    · simp only [View.remaining, hqueued, hnone] at hturns ⊢
      simpa [ActiveTask.ofPlan] using hturns
    · rcases List.mem_append.mp ht with ht | ht
      · exact List.mem_append_left _ ht
      · exact List.mem_append_right _ (List.mem_cons_of_mem _ ht)
    · simp only [hnone, List.nil_append, List.mem_singleton] at ht
      rw [ht]
      exact ⟨rfl, hfinite task (by simp)⟩
  | task seen rest t t' results trace hactive _ _ htask =>
    obtain ⟨rfl, rfl⟩ := active_singleton (hactive ▸ hlength)
    obtain ⟨hunfailed, hfinite⟩ := h.unfailed t (by simp [hactive])
    obtain ⟨hsame, hunfailed', hfinite'⟩ := htask.in_turn hfinite hunfailed hcalm.2
    refine ⟨?_, h.finite, fun u hu => ?_, h.unserved, h.resolved, h.idle, h.passed⟩
    · rw [← hturns]
      simp only [View.remaining, hactive] at hsame ⊢
      simp only [List.nil_append, List.flatMap_singleton, ← List.append_assoc, hsame]
    · rw [List.mem_singleton.mp hu]
      exact ⟨hunfailed', hfinite'⟩
  | park seen rest t hactive hservice _ =>
    exact absurd (h.unfailed t (by simp [hactive])).2 (by simp [hservice])
  | record seen rest t durationMs hactive _ hdone _ =>
    obtain ⟨rfl, rfl⟩ := active_singleton (hactive ▸ hlength)
    obtain ⟨hunfailed, hfinite⟩ := h.unfailed t (by simp [hactive])
    have hcommands : t.commands = [] := by
      rcases hdone with hnil | hservice | ⟨hfailed, -⟩
      · exact hnil
      · simp [hfinite] at hservice
      · exact absurd hunfailed hfailed
    refine ⟨?_, h.finite, by simp [Run.reported, Run.snapshotted], h.unserved, h.resolved, h.idle,
      fun job failures => ?_⟩
    · rw [← hturns]
      simp [View.remaining, hactive, hcommands, spawnedCommands, Run.reported, Run.snapshotted,
        Run.terminal]
    · have hverdict := ActiveTask.verdict_of_passed hunfailed
      simp only [Run.reported, hverdict, List.mem_append, List.mem_singleton]
      rintro (hmem | heq)
      · exact h.passed job failures hmem
      · simp [JobId.entry] at heq
  | defer seen rest t hactive _ hfailed _ =>
    exact absurd (h.unfailed t (by simp [hactive])).1 hfailed
  | stop _ _ _ _ hfailing => exact absurd hfailing h.not_failing
  | skipQueued _ hfailing => exact absurd hfailing h.not_failing
  | skipStages _ hfailing => exact absurd hfailing h.not_failing
  | service kept rest s s' _ _ _ _ hservices => simp [h.unserved] at hservices
  | serviceLeft kept rest s _ _ _ _ _ hservices => simp [h.unserved] at hservices
  | sort pending hperm =>
    exact ⟨h.turns, h.finite, h.unfailed, h.unserved, List.perm_nil.mp (h.resolved ▸ hperm), h.idle,
      h.passed⟩
  | note | ask | decide =>
    refine ⟨?_, h.finite, h.unfailed, h.unserved, h.resolved, h.idle, h.passed⟩
    rw [← hturns]
    simp [spawnedCommands, View.remaining]
  | signal => exact ⟨h.turns, h.finite, h.unfailed, h.unserved, h.resolved, h.idle, h.passed⟩
  | keep t rest _ _ _ _ hpending => simp [h.resolved] at hpending
  | recover t rest _ _ _ _ _ _ hpending => simp [h.resolved] at hpending
  | recovering r _ _ _ _ hr => simp [h.idle] at hr
  | recoveryFailed _ _ _ _ hr => simp [h.idle] at hr
  | verify _ _ hr => simp [h.idle] at hr
  | verified _ _ _ _ hr => simp [h.idle] at hr
  | interrupt r hr => simp [h.idle] at hr

/-! ### The limits of stages -/

/-- Each stage is opened with one slot if it is a serial task, else with the limit of the run, or what the host
    gives, cut to the number of its tasks. -/
def Chosen (metadata : RunMetadata) (all : List Stage) (trace : List Effect) : Prop :=
  ∀ tasks limit, .stage tasks limit ∈ trace →
    (limit = 1 ∧ ∃ task, .serial task ∈ all ∧ tasks = [task]) ∨
      ∃ group, .parallel group tasks ∈ all ∧
        ∃ host, 0 < host ∧ limit = min (metadata.effectiveConcurrency.getD host) tasks.length

theorem Chosen.unlimited {metadata : RunMetadata} {all : List Stage} {trace effects : List Effect}
    (h : Chosen metadata all trace) (heffects : ∀ x ∈ effects, x.limit? = none) :
    Chosen metadata all (trace ++ effects) := by
  intro tasks limit hmem
  rcases List.mem_append.mp hmem with hmem | hmem
  · exact h tasks limit hmem
  · cases heffects _ hmem

theorem Chosen.appended {metadata : RunMetadata} {all : List Stage} {trace : List Effect}
    (h : Chosen metadata all trace) (stages : List Stage) : Chosen metadata (all ++ stages) trace := by
  intro tasks limit hmem
  rcases h tasks limit hmem with ⟨hone, task, hstage, htasks⟩ | ⟨group, hstage, hhost⟩
  · exact .inl ⟨hone, task, List.mem_append_left _ hstage, htasks⟩
  · exact .inr ⟨group, List.mem_append_left _ hstage, hhost⟩

theorem Chosen.begun {all rest : List Stage} {v : View} {stage : Stage} {limit : Nat}
    (h : Chosen v.run.metadata all v.trace) (hsuffix : v.run.stages <:+ all) (hbegins : v.Begins stage rest limit) :
    Chosen v.run.metadata all (v.begun stage rest limit).trace := by
  intro tasks limit' hmem
  rcases List.mem_append.mp hmem with hmem | hmem
  · exact h tasks limit' hmem
  · cases List.mem_singleton.mp hmem
    have hstage : stage ∈ all := hsuffix.subset (hbegins.next ▸ List.mem_cons_self)
    have hadmits := hbegins.admits
    cases stage with
    | serial task => exact .inl ⟨hadmits, task, hstage, rfl⟩
    | parallel group tasks => exact .inr ⟨group, hstage, hadmits⟩

/-! ### Whole sessions -/

/-- Everything a view knows about its stages. -/
structure View.Disciplined (failFast : Bool) (all : List Stage) (v : View) : Prop where
  accounted : v.Accounted failFast all
  slots : v.Slots
  bounded : v.Bounded
  staged : v.Staged all
  chosen : Chosen v.run.metadata all v.trace
  inTurn : (∀ u ∈ all.flatMap stageTasks, u.service = false) → OneByOne v.trace → v.InTurn all

theorem View.Disciplined.move {failFast : Bool} {all : List Stage} {v v' : View}
    (h : v.Disciplined failFast all) (hmove : Move failFast v v')
    (hdistinct : ((all.flatMap stageTasks).map (·.position)).Nodup) : v'.Disciplined failFast all where
  accounted := h.accounted.move hmove
  slots := hmove.slots h.slots
  bounded := by
    have hafter := h.accounted.move hmove
    have hslots := hmove.slots h.slots
    rcases hmove.uneventful with ⟨stage, rest, limit, -, rfl⟩ | ⟨effects, heffects⟩
    · exact h.bounded.begun hafter hslots
    · exact heffects.bounded h.bounded h.slots h.accounted hafter hslots
  staged := h.staged.move hmove hdistinct h.accounted.tracked
  chosen := by
    rw [hmove.metadata_eq]
    rcases hmove.uneventful with ⟨stage, rest, limit, hbegins, rfl⟩ | ⟨effects, heffects⟩
    · exact h.chosen.begun h.staged.suffix hbegins
    · exact heffects.trace ▸ h.chosen.unlimited heffects.unlimited
  inTurn hfinite hcalm := by
    obtain ⟨effects, htrace⟩ := hmove.trace_extends
    exact (h.inTurn hfinite (OneByOne.of_append (htrace ▸ hcalm))).move hmove h.slots hcalm

theorem View.Disciplined.reconciled {failFast : Bool} {all : List Stage} {v : View}
    (h : v.Disciplined failFast all) (stopNames : List String) :
    (v.reconciled stopNames).Disciplined failFast all := by
  obtain ⟨effects, heffects⟩ := v.reconciled_uneventful stopNames
  have hslots : (v.reconciled stopNames).Slots :=
    ⟨heffects.limit_eq h.slots.limit, h.slots.filled, h.slots.reserved, h.slots.alone⟩
  have hafter := h.accounted.reconciled stopNames
  refine ⟨hafter, hslots, heffects.bounded h.bounded h.slots h.accounted hafter hslots,
    h.staged.reconciled h.accounted.tracked stopNames,
    heffects.trace ▸ h.chosen.unlimited heffects.unlimited, fun hfinite hcalm => ?_⟩
  have hturn := h.inTurn hfinite (OneByOne.of_append hcalm)
  have hself : v.reconciled stopNames = v :=
    View.reconciled_eq_self (by simp [Op.stopped, hturn.unserved])
  rw [hself]
  exact hturn

theorem View.Disciplined.appended {failFast : Bool} {all stages : List Stage} {v : View}
    (h : v.Disciplined failFast all)
    (hdistinct : (((all ++ stages).flatMap stageTasks).map (·.position)).Nodup) :
    (v.appended stages).Disciplined failFast (all ++ stages) where
  accounted := h.accounted.appended hdistinct
  slots := ⟨h.slots.limit, h.slots.filled, h.slots.reserved, h.slots.alone⟩
  bounded := ⟨h.bounded.within, h.bounded.single⟩
  staged := h.staged.appended h.accounted.tracked hdistinct
  chosen := h.chosen.appended stages
  inTurn hfinite hcalm := by
    rw [List.flatMap_append] at hfinite
    have hturn := h.inTurn (fun u hu => hfinite u (List.mem_append_left _ hu)) hcalm
    refine ⟨?_, fun t ht => ?_, hturn.unfailed, hturn.unserved, hturn.resolved, hturn.idle,
      hturn.passed⟩
    · have hturns := hturn.turns
      rw [RunPlan.commands_eq] at hturns ⊢
      simp only [RunPlan.tasks, List.flatMap_append] at hturns ⊢
      rw [← hturns]
      simp [View.remaining, View.appended]
    · simp only [View.appended, List.flatMap_append, List.mem_append] at ht
      rcases ht with (ht | ht) | ht
      · exact hturn.finite t (List.mem_append_left _ ht)
      · exact hfinite t (List.mem_append_right _ ht)
      · exact hturn.finite t (List.mem_append_right _ ht)

theorem View.start_disciplined (failFast : Bool) (env : Env W) (world : W) (metadata : RunMetadata)
    (plan : RunPlan) (hdistinct : (plan.tasks.map (·.position)).Nodup) :
    (startView env world metadata plan).Disciplined failFast plan.stages where
  accounted := View.start_accounted failFast env world metadata plan hdistinct
  slots := ⟨rfl, Nat.le_refl 0, by simp [startView], by simp [startView]⟩
  bounded := by
    have hquiet : ∀ past, past <+: (startView env world metadata plan).trace → alive past = [] := by
      intro past hpast
      refine (alive_unowned [] fun x hx => ?_).trans rfl
      have := hpast.subset hx
      simp only [startView, List.mem_singleton] at this
      rw [this]; rfl
    exact ⟨fun past hpast => by simp [WithinLimit, finiteAlive, hquiet past hpast],
      fun past hpast => by simp [hquiet past hpast]⟩
  staged := by
    refine ⟨List.suffix_refl _, fun e he hopened => ?_, ?_⟩
    · have hmem : e ∈ plan.tasks.map Entity.planned := by
        simpa [View.board, View.entities, startView, RunPlan.tasks] using he
      obtain ⟨t, -, rfl⟩ := List.mem_map.mp hmem
      cases hopened
    · exact (whenever_concat (h := [])).mpr ⟨whenever_nil, trivial⟩
  chosen := by simp [Chosen, startView]
  inTurn hfinite _ := by
    refine ⟨?_, fun t ht => hfinite t (by simpa [startView] using ht), by simp [startView], rfl, rfl,
      rfl, by simp [startView]⟩
    rw [RunPlan.commands_eq]
    simp [spawnedCommands, View.remaining, startView, RunPlan.tasks]

/-- Positions that reloads append next to a plan are new. A plan that a reload starts services with is numbered
    from zero again, so this leaves out the sessions in which such a plan meets a position of the run; a
    session that appends none has it. -/
def FreshPositions (plan : RunPlan) (appended : List Stage) : Prop :=
  ((appended.flatMap stageTasks).map (·.position)).Nodup ∧
    ∀ t ∈ appended.flatMap stageTasks, ∀ u ∈ plan.tasks, u.position ≠ t.position

theorem Planned.distinct {plan : RunPlan} (h : Planned plan) {appended : List Stage}
    (hfresh : FreshPositions plan appended) :
    (((plan.stages ++ appended).flatMap stageTasks).map (·.position)).Nodup := by
  rw [List.flatMap_append, List.map_append, List.nodup_append]
  refine ⟨h.positions_increase.imp ne_of_lt, hfresh.1, ?_⟩
  rintro k hk k' hk' heq
  obtain ⟨u, hu, rfl⟩ := List.mem_map.mp hk
  obtain ⟨t, ht, rfl⟩ := List.mem_map.mp hk'
  exact hfresh.2 t ht u hu heq

theorem distinct_of_append {all stages : List Stage}
    (h : (((all ++ stages).flatMap stageTasks).map (·.position)).Nodup) :
    ((all.flatMap stageTasks).map (·.position)).Nodup := by
  rw [List.flatMap_append, List.map_append] at h
  exact (List.nodup_append.mp h).1

/-- Run rule for properties of views whose positions are distinct: what holds at the start of a planned run,
    and is kept by the moves, by stages appended at new positions and by stopped services, holds wherever
    a session stands. -/
theorem Session.run_holds (ex : LawfulExecutor) (env : Env W) (world : W) (metadata : RunMetadata)
    (plan : RunPlan) (ops : List Op) {P : List Stage → View → Prop} (hplan : Planned plan)
    (hfresh : FreshPositions plan
      ((Session.start env world metadata plan).appendedStages ex env ops))
    (hstart : (plan.tasks.map (·.position)).Nodup → P plan.stages (startView env world metadata plan))
    (hmove : ∀ all v v', ((all.flatMap stageTasks).map (·.position)).Nodup → Move ex.failFast v v' →
      P all v → P all v')
    (happend : ∀ all v stages, (((all ++ stages).flatMap stageTasks).map (·.position)).Nodup →
      P all v → P (all ++ stages) (v.appended stages))
    (hreconcile : ∀ all v stopNames, v.recovering = none → P all v → P all (v.reconciled stopNames)) :
    let s₀ := Session.start env world metadata plan
    (s₀.after ex env ops).Holds ex.failFast (P (plan.stages ++ s₀.appendedStages ex env ops)) := by
  intro s₀
  have hdistinct := hplan.distinct hfresh
  have hs := Session.after_holds_of ex env
    (P := fun all v => ((all.flatMap stageTasks).map fun t : TaskPlan => t.position).Nodup → P all v)
    (fun all v v' hmoved hv hall => hmove all v v' hall hmoved (hv hall))
    (fun all v stages _ hv hall => happend all v stages hall (hv (distinct_of_append hall)))
    (fun all v stopNames hidle hv hall => hreconcile all v stopNames hidle (hv hall))
    ops s₀ plan.stages (Session.start_holds ex.failFast env world metadata plan hstart)
  exact hs.imp fun v hv => hv hdistinct

/-- What every trace of a run over the stages `all` satisfies: the slots of the stage bound the finite
    processes and are chosen when it is opened, earlier stages are reported (for good) before a later one
    spawns, every job runs its commands in order with one process at a time, and one slot without failures
    or services follows the plan. -/
structure BarrierAndBound (metadata : RunMetadata) (all : List Stage) (trace : List Effect) : Prop where
  bounded : Throughout WithinLimit trace
  chosen : Chosen metadata all trace
  barrier : ∀ before stage after, all = before ++ stage :: after → ∀ t ∈ stageTasks stage,
    ∀ u ∈ before.flatMap stageTasks, u.service = false →
      Whenever (fun past x => ∀ proc command, x = .spawned proc command →
        proc.position = t.position → Terminal u past) trace
  final : ∀ u ∈ all.flatMap stageTasks,
    Whenever (fun past _ => terminals past = []) (historyAt u.position trace)
  inOrder : ∀ u ∈ all.flatMap stageTasks, ∀ phase,
    InOrder u.service (u.declared phase) (attempts phase (historyAt u.position trace))
  single : Throughout (fun past => ((alive past).map Proc.position).Nodup) trace
  inTurn : (∀ u ∈ all.flatMap stageTasks, u.service = false) → OneByOne trace →
    spawnedCommands trace <+: (RunPlan.mk all).commands

theorem View.Disciplined.barrierAndBound {failFast : Bool} {all : List Stage} {v : View}
    (h : v.Disciplined failFast all)
    (hdistinct : ((all.flatMap stageTasks).map (·.position)).Nodup) :
    BarrierAndBound v.run.metadata all v.trace := by
  have hcourse : ∀ u ∈ all.flatMap stageTasks, ∃ e, Course u e (historyAt u.position v.trace) :=
    fun u hu => (View.Keeps.job h.accounted.tracked hdistinct hu).imp fun _ hc => hc.2
  refine ⟨h.bounded.within, h.chosen, ?_, fun u hu => ?_, fun u hu phase => ?_, h.bounded.single,
    fun hfinite hcalm => ?_⟩
  · rintro before stage after hall t ht u hu hfinite past x hx proc command rfl hposition
    have hcleared := (h.staged.ordered.started past _ hx).2
    exact hcleared before stage after hall t ht hposition.symm u hu hfinite
  · obtain ⟨e, hc⟩ := hcourse u hu
    exact hc.final
  · obtain ⟨e, hc⟩ := hcourse u hu
    exact hc.inOrder phase
  · exact ⟨_, (h.inTurn hfinite hcalm).turns⟩

/-- Barrier and bound, over every session: any environment, any calls of the owner. A session that
    finishes at one slot without failures or services has spawned exactly the commands of the plan. A job is
    known by its position, so appended plans have positions of their own. -/
theorem Session.barrier_and_bound (ex : LawfulExecutor) (env : Env W) (world : W)
    (metadata : RunMetadata) (plan : RunPlan) (ops : List Op) (hplan : Planned plan)
    (hfresh : FreshPositions plan
      ((Session.start env world metadata plan).appendedStages ex env ops)) :
    let s₀ := Session.start env world metadata plan
    let s := s₀.after ex env ops
    let all := plan.stages ++ s₀.appendedStages ex env ops
    BarrierAndBound metadata all s.io.trace ∧
      (s.progress = some (.returned .finished) →
        (∀ u ∈ all.flatMap stageTasks, u.service = false) → OneByOne s.io.trace →
          spawnedCommands s.io.trace = (RunPlan.mk all).commands) := by
  intro s₀ s all
  have hdistinct := hplan.distinct hfresh
  have hs : s.Holds ex.failFast fun v => v.Disciplined ex.failFast all ∧ v.run.metadata = metadata :=
    Session.run_holds ex env world metadata plan ops
    (P := fun all v => v.Disciplined ex.failFast all ∧ v.run.metadata = metadata) hplan hfresh
    (fun hall => ⟨View.start_disciplined ex.failFast env world metadata plan hall, rfl⟩)
    (fun _ _ _ hall hmove hv => ⟨hv.1.move hmove hall, hmove.metadata_eq.trans hv.2⟩)
    (fun _ _ _ hall hv => ⟨hv.1.appended hall, hv.2⟩)
    (fun _ _ stopNames _ hv => ⟨hv.1.reconciled stopNames, hv.2⟩)
  refine ⟨?_, fun hfinished hfinite hcalm => ?_⟩
  · obtain ⟨v, ⟨hv, hmetadata⟩, htrace⟩ := hs.exists_view
    exact hmetadata ▸ htrace ▸ hv.barrierAndBound hdistinct
  · rw [Session.Holds, hfinished] at hs
    obtain ⟨⟨hv, -⟩, hdrained, hstages, -⟩ := hs
    have hturns := (hv.inTurn hfinite hcalm).turns
    have hnone : (view s.io s.run).remaining = [] := by
      simp [View.remaining, view, hdrained.1, hdrained.2, hstages]
    rw [hnone, List.append_nil] at hturns
    exact hturns

/-- Two serial tasks, run to the end in the order of the plan; and a group of three with two slots, two of which
    run next to each other. -/
theorem Session.barrier_and_bound_at_checks :
    let env := steadyEnv fun _ => some ⟨some 0, "exit status: 0"⟩
    let ex : LawfulExecutor := {}
    (let plan := RunPlan.fromRules
        [{ name := "lint", commands := ["lint"] }, { name := "test", commands := ["build", "test"] }]
      let s := (Session.start env () { runId := 1 } plan).after ex env
        [.advance 1, .advance 1, .advance 1, .advance 1]
      s.progress = some (.returned .finished) ∧ BarrierAndBound { runId := 1 } plan.stages s.io.trace ∧
        spawnedCommands s.io.trace = plan.commands) ∧
      let plan := RunPlan.fromRules
        [{ name := "lint", commands := ["lint"], parallel := some "checks" },
         { name := "test", commands := ["test"], parallel := some "checks" },
         { name := "docs", commands := ["docs"], parallel := some "checks" },
         { name := "pack", commands := ["pack"] }]
      let metadata : RunMetadata := { runId := 1, effectiveConcurrency := some 2 }
      let s := (Session.start env () metadata plan).after ex env [.advance 1, .advance 1, .advance 1]
      ((alive (s.io.trace.take 6)).map Proc.name = ["lint", "test"]) ∧
        BarrierAndBound metadata plan.stages s.io.trace := by
  intro env ex
  have hfresh : ∀ {metadata : RunMetadata} {plan : RunPlan} {ops : List Op},
      (Session.start env () metadata plan).appendedStages ex env ops = [] →
      FreshPositions plan ((Session.start env () metadata plan).appendedStages ex env ops) := by
    intro metadata plan ops hnone
    rw [hnone]
    exact ⟨.nil, by simp⟩
  constructor
  · intro plan s
    have hs : (Session.start env () { runId := 1 } plan).after ex env
        [.advance 1, .advance 1, .advance 1, .advance 1] = s := rfl
    have hfinished : s.progress = some (.returned .finished) := by decide
    have hnone : (Session.start env () { runId := 1 } plan).appendedStages ex env
        [.advance 1, .advance 1, .advance 1, .advance 1] = [] := by decide
    have hcalm : OneByOne s.io.trace := ⟨by decide, by decide⟩
    obtain ⟨hbarrier, hturns⟩ := Session.barrier_and_bound ex env () { runId := 1 } plan
      [.advance 1, .advance 1, .advance 1, .advance 1] (.fromRules _ (by simp [Rules.Consistent]))
      (hfresh hnone)
    rw [hnone, List.append_nil, hs] at hbarrier hturns
    have hfinite : ∀ u ∈ plan.stages.flatMap stageTasks, u.service = false := by decide
    exact ⟨hfinished, hbarrier, hturns hfinished hfinite hcalm⟩
  · intro plan metadata s
    have hs : (Session.start env () metadata plan).after ex env [.advance 1, .advance 1, .advance 1] = s := rfl
    have hnone : (Session.start env () metadata plan).appendedStages ex env
        [.advance 1, .advance 1, .advance 1] = [] := by decide
    obtain ⟨hbarrier, -⟩ := Session.barrier_and_bound ex env () metadata plan
      [.advance 1, .advance 1, .advance 1] (.fromRules _ (by simp [Rules.Consistent])) (hfresh hnone)
    rw [hnone, List.append_nil, hs] at hbarrier
    exact ⟨by decide, hbarrier⟩

end Funzzy
