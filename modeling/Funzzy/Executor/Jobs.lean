import Funzzy.Executor.Entities

/-! Claims about single jobs, kept by the moves of that job.

    `JobClaim` says what a claim about one job and its history must keep: the opening of its stage and
    every move of the job. It then holds at every position of a run, through the moves of the run, the
    stages a reload appends and the services it stops. -/

namespace Funzzy

open History Board

/-- What stands at a position: a job of the plan with the claim, or nothing at all. -/
def StandsAt (J : TaskPlan → Option Entity → List Effect → Prop) (tasks : List TaskPlan)
    (position : Nat) (e : Option Entity) (h : List Effect) : Prop :=
  (∃ u ∈ tasks, u.position = position ∧ J u e h) ∨
    ((∀ u ∈ tasks, u.position ≠ position) ∧ e = none ∧ h = [])

/-- A claim about a job and its history that holds of a planned job and is kept by its moves. -/
structure JobClaim (failFast : Bool) (J : TaskPlan → Option Entity → List Effect → Prop) : Prop where
  planned : ∀ u, J u (some (.planned u)) []
  opened : ∀ {u task h}, J u (some (.planned task)) h → J u (some (.queued task)) h
  moved : ∀ {u e effects e' h}, EntityMove failFast e effects e' → J u (some e) h →
    J u e' (h ++ historyAt u.position effects)

theorem View.begun_entities (v : View) (stage : Stage) (rest : List Stage) (limit : Nat) :
    (v.begun stage rest limit).entities.Perm ((stageTasks stage).map .queued
      ++ ({ v with run := { v.run with stages := rest } } : View).entities) := by
  simp only [View.entities, View.begun]
  exact List.perm_iff_count.mpr fun e => by simp; omega

theorem View.Begins.entities {v : View} {stage : Stage} {rest : List Stage} {limit : Nat}
    (h : v.Begins stage rest limit) :
    v.entities.Perm ((stageTasks stage).map .planned
      ++ ({ v with run := { v.run with stages := rest } } : View).entities) := by
  simp only [View.entities, h.next]
  exact List.perm_iff_count.mpr fun e => by simp

variable {failFast : Bool} {J : TaskPlan → Option Entity → List Effect → Prop}

theorem JobClaim.preserves (hJ : JobClaim failFast J) (tasks : List TaskPlan) :
    Preserves (jobs failFast) (StandsAt J tasks) := by
  rintro e effects e' h hmove (⟨u, hu, hposition, hc⟩ | ⟨-, hnone, -⟩)
  · refine .inl ⟨u, hu, hposition, ?_⟩
    rw [← hposition]
    exact hJ.moved hmove hc
  · cases hnone

/-- Every job of the run keeps the claim. -/
def View.Keeps (failFast : Bool) (J : TaskPlan → Option Entity → List Effect → Prop)
    (all : List Stage) (v : View) : Prop :=
  Claims (jobs failFast) (StandsAt J (all.flatMap stageTasks)) v.board

theorem View.Keeps.move (hJ : JobClaim failFast J) {all : List Stage} {v v' : View}
    (h : v.Keeps failFast J all) (hmove : Move failFast v v') : v'.Keeps failFast J all := by
  rcases hmove.entities with ⟨stage, rest, limit, hbegins, rfl⟩ | hsteps
  · refine Claims.relabel h Entity.planned Entity.queued (stageTasks stage) _ (fun _ _ => rfl) ?_
      hbegins.entities (v.begun_entities stage rest limit) fun k => ?_
    · rintro t - l (⟨u, hu, hposition, hc⟩ | ⟨-, hnone, -⟩)
      · exact .inl ⟨u, hu, hposition, hJ.opened hc⟩
      · cases hnone
    · exact restrict_noise (S := jobs failFast) rfl
  · exact h.steps (hJ.preserves _) hsteps

theorem View.Keeps.reconciled (hJ : JobClaim failFast J) {all : List Stage} {v : View}
    (h : v.Keeps failFast J all) (stopNames : List String) :
    (v.reconciled stopNames).Keeps failFast J all :=
  h.steps (hJ.preserves _) (v.steps_reconciled failFast stopNames)

/-- New stages join the run when their positions are new. -/
theorem View.Keeps.appended (hJ : JobClaim failFast J) {all stages : List Stage} {v : View}
    (h : v.Keeps failFast J all)
    (hdistinct : (((all ++ stages).flatMap stageTasks).map (·.position)).Nodup) :
    (v.appended stages).Keeps failFast J (all ++ stages) := by
  have hentities := v.entities_appended stages
  rw [List.flatMap_append, List.map_append, List.nodup_append] at hdistinct
  obtain ⟨-, hnew, hapart⟩ := hdistinct
  have hknown : ∀ e ∈ v.entities, ∃ u ∈ all.flatMap stageTasks, u.position = e.position := by
    intro e he
    rcases h.held e he with ⟨u, hu, hposition, -⟩ | ⟨-, hnone, -⟩
    · exact ⟨u, hu, hposition⟩
    · cases hnone
  have hfresh : ∀ t ∈ stages.flatMap stageTasks, t.position ∉ v.entities.map Entity.position := by
    intro t ht hmem
    obtain ⟨e, he, hposition⟩ := List.mem_map.mp hmem
    obtain ⟨u, hu, hsame⟩ := hknown e he
    exact hapart _ (List.mem_map_of_mem hu) _ (List.mem_map_of_mem ht) (hsame.trans hposition)
  have hmore : ∀ k e l, (∃ u ∈ all.flatMap stageTasks, u.position = k ∧ J u e l) →
      StandsAt J ((all ++ stages).flatMap stageTasks) k e l := by
    rintro k e l ⟨u, hu, hposition, hc⟩
    rw [List.flatMap_append]
    exact .inl ⟨u, List.mem_append_left _ hu, hposition, hc⟩
  refine ⟨?_, fun e he => ?_, fun k hk => ?_⟩
  · refine (hentities.map Entity.position).nodup_iff.mpr ?_
    rw [List.map_append, List.map_map]
    refine List.nodup_append.mpr ⟨hnew, h.distinct, ?_⟩
    rintro k hk k' hk' rfl
    obtain ⟨t, ht, rfl⟩ := List.mem_map.mp hk
    exact hfresh t ht hk'
  · rcases List.mem_append.mp (hentities.mem_iff.mp he) with he | he
    · obtain ⟨t, ht, rfl⟩ := List.mem_map.mp he
      rcases h.empty t.position (hfresh t ht) with ⟨u, hu, hposition, -⟩ | ⟨-, -, hnil⟩
      · exact absurd hposition
          (hapart _ (List.mem_map_of_mem hu) _ (List.mem_map_of_mem ht))
      · refine .inl ⟨t, by rw [List.flatMap_append]; exact List.mem_append_right _ ht, rfl, ?_⟩
        have hhistory : restrict (jobs failFast).key t.position v.trace = [] := hnil
        have hplanned := hJ.planned t
        rwa [← hhistory] at hplanned
    · rcases h.held e he with htrack | ⟨-, hnone, -⟩
      · exact hmore _ _ _ htrack
      · cases hnone
  · have hk' : k ∉ v.entities.map Entity.position := fun hmem => hk
      ((hentities.map Entity.position).mem_iff.mpr (by
        rw [List.map_append]; exact List.mem_append_right _ hmem))
    rcases h.empty k hk' with htrack | ⟨hother, -, hnil⟩
    · exact hmore _ _ _ htrack
    · refine .inr ⟨fun u hu hposition => ?_, rfl, hnil⟩
      rw [List.flatMap_append] at hu
      rcases List.mem_append.mp hu with hu | hu
      · exact hother u hu hposition
      · refine hk ((hentities.map Entity.position).mem_iff.mpr ?_)
        rw [List.map_append, List.map_map]
        exact List.mem_append_left _ (List.mem_map.mpr ⟨u, hu, hposition⟩)

/-- A session with distinct positions starts with the claim at every job. -/
theorem View.start_keeps {W : Type} (hJ : JobClaim failFast J) (env : Env W) (world : W)
    (metadata : RunMetadata) (plan : RunPlan)
    (hdistinct : (plan.tasks.map (·.position)).Nodup) :
    (startView env world metadata plan).Keeps failFast J plan.stages := by
  have hentities : (startView env world metadata plan).entities = plan.tasks.map .planned := by
    simp [View.entities, startView, RunPlan.tasks]
  have hhistory : ∀ k, historyAt k (startView env world metadata plan).trace = [] := fun k => by
    simp [startView, historyAt, restrict, Effect.position?]
  refine ⟨?_, fun e he => ?_, fun k hk => ?_⟩
  · simp only [View.board, hentities, List.map_map]
    exact hdistinct
  · simp only [View.board, hentities] at he
    obtain ⟨t, ht, rfl⟩ := List.mem_map.mp he
    refine .inl ⟨t, ht, rfl, ?_⟩
    have hplanned := hJ.planned t
    rwa [← hhistory t.position] at hplanned
  · refine .inr ⟨fun u hu hposition => hk ?_, rfl, hhistory k⟩
    simp only [View.board, hentities, List.map_map]
    exact List.mem_map.mpr ⟨u, hu, hposition⟩

/-- At every position of a run stands a job with the claim, which the run may still hold, or nothing. -/
theorem View.Keeps.stands {all : List Stage} {v : View} (h : v.Keeps failFast J all)
    (position : Nat) : ∃ e, (∀ x, e = some x → x ∈ v.entities) ∧
      StandsAt J (all.flatMap stageTasks) position e (historyAt position v.trace) := by
  by_cases hmem : position ∈ v.entities.map Entity.position
  · obtain ⟨e, he, rfl⟩ := List.mem_map.mp hmem
    exact ⟨some e, fun x hx => Option.some.inj hx ▸ he, h.held e he⟩
  · exact ⟨none, by simp, h.empty _ hmem⟩

/-- With distinct positions every job of the plan has the claim, with its own history. -/
theorem View.Keeps.job {all : List Stage} {v : View} (h : v.Keeps failFast J all)
    (hdistinct : ((all.flatMap stageTasks).map (·.position)).Nodup) {u : TaskPlan}
    (hu : u ∈ all.flatMap stageTasks) :
    ∃ e, (∀ x, e = some x → x ∈ v.entities) ∧ J u e (historyAt u.position v.trace) := by
  obtain ⟨e, he, ⟨u', hu', hposition, hc⟩ | ⟨hother, -, -⟩⟩ := h.stands u.position
  · obtain rfl := List.inj_on_of_nodup_map hdistinct hu' hu hposition
    exact ⟨e, he, hc⟩
  · exact absurd rfl (hother u hu)

end Funzzy
