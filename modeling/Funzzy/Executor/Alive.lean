import Funzzy.Executor.Course

/-! Which processes of a run are alive.

    `alive` reads them off the trace: a process lives from its spawn to its exit, to a failed wait
    (the executor drops the child then) or to the kill of its job. At every view the processes alive
    are those of the tasks that hold a child (`View.Living`), one per job. Between two views a move
    only ends processes, or starts a single one first (`Orderly`), so what holds of the processes at
    both ends holds at every moment in between. -/

namespace Funzzy

open History Board

/-- The processes alive after one more effect. -/
def Effect.revise (alive : List Proc) : Effect → List Proc
  | .spawned proc _ => alive ++ [proc]
  | .exited proc _ | .waitFailed proc _ => alive.erase proc
  | .killed position _ => alive.filter fun proc => proc.position ≠ position
  | _ => alive

/-- The processes alive after a trace. -/
def alive (trace : List Effect) : List Proc := trace.foldl Effect.revise []

theorem alive_append (trace l : List Effect) :
    alive (trace ++ l) = l.foldl Effect.revise (alive trace) :=
  List.foldl_append

theorem alive_concat (trace : List Effect) (x : Effect) :
    alive (trace ++ [x]) = x.revise (alive trace) := by
  simp [alive_append]

def Effect.spawns : Effect → Bool
  | .spawned _ _ => true
  | _ => false

/-- Only a spawn adds a process. -/
theorem Effect.revise_subperm (procs : List Proc) {x : Effect} (hx : x.spawns = false) :
    (x.revise procs).Subperm procs := by
  cases x with
  | spawned => simp [Effect.spawns] at hx
  | exited | waitFailed => exact List.erase_subperm _ _
  | killed => exact List.filter_sublist.subperm
  | _ => exact List.Subperm.refl _

theorem alive_subperm (trace : List Effect) :
    ∀ {l : List Effect}, (∀ x ∈ l, x.spawns = false) →
      (alive (trace ++ l)).Subperm (alive trace)
  | [], _ => by simpa using List.Subperm.refl _
  | x :: l, hl => by
    have hrest := alive_subperm (trace ++ [x]) (l := l) fun y hy => hl y (List.mem_cons_of_mem _ hy)
    rw [List.append_assoc, List.singleton_append, alive_concat] at hrest
    exact hrest.trans (Effect.revise_subperm _ (hl x List.mem_cons_self))

/-- Effects of one move: no spawn at all, or one spawn and then nothing that touches a process. -/
def Orderly (effects : List Effect) : Prop :=
  (∀ x ∈ effects, x.spawns = false) ∨
    ∃ proc command rest, effects = .spawned proc command :: rest ∧ ∀ x ∈ rest, x.position? = none

theorem Effect.revise_of_unowned (procs : List Proc) {x : Effect} (hx : x.position? = none) :
    x.revise procs = procs := by
  cases x <;> simp_all [Effect.position?, Effect.revise]

theorem alive_unowned (trace : List Effect) :
    ∀ {l : List Effect}, (∀ x ∈ l, x.position? = none) → alive (trace ++ l) = alive trace
  | [], _ => by simp
  | x :: l, hl => by
    have hrest := alive_unowned (trace ++ [x]) (l := l) fun y hy => hl y (List.mem_cons_of_mem _ hy)
    rw [List.append_assoc, List.singleton_append, alive_concat] at hrest
    rw [hrest, Effect.revise_of_unowned _ (hl x List.mem_cons_self)]

/-- At every moment of a move the processes alive are among those before it, or those after it. -/
theorem Orderly.between {effects : List Effect} (h : Orderly effects) (trace : List Effect)
    {l : List Effect} (hl : l <+: effects) :
    (alive (trace ++ l)).Subperm (alive trace) ∨
      alive (trace ++ l) = alive (trace ++ effects) := by
  rcases h with hnone | ⟨proc, command, rest, rfl, hrest⟩
  · exact .inl (alive_subperm trace fun x hx => hnone x (hl.subset hx))
  · rcases List.prefix_cons_iff.mp hl with rfl | ⟨l', rfl, hl'⟩
    · exact .inl (by simpa using List.Subperm.refl _)
    · have hsame : ∀ m : List Effect, (∀ x ∈ m, x.position? = none) →
          alive (trace ++ .spawned proc command :: m) = alive (trace ++ [.spawned proc command]) := by
        intro m hm
        have := alive_unowned (trace ++ [.spawned proc command]) hm
        simpa using this
      refine .inr ?_
      rw [hsame l' fun x hx => hrest x (hl'.subset hx), hsame rest hrest]

/-- What holds of the processes before and after an orderly move, and of fewer processes, holds at
    every moment of it. -/
theorem Orderly.throughout {effects : List Effect} (h : Orderly effects) {trace : List Effect}
    {P : List Effect → Prop} (hbefore : Throughout P trace)
    (hsub : ∀ l, l <+: effects → (alive (trace ++ l)).Subperm (alive trace) → P (trace ++ l))
    (hafter : ∀ l, l <+: effects → alive (trace ++ l) = alive (trace ++ effects) →
      P (trace ++ l)) : Throughout P (trace ++ effects) := by
  refine throughout_append.mpr ⟨hbefore, fun l hl => ?_⟩
  rcases h.between trace hl with hle | heq
  · exact hsub l hl hle
  · exact hafter l hl heq

/-! ### The processes of the entities -/

/-- The child a task holds in a pass. -/
def ActiveTask.childProc (t : ActiveTask) (phase : Phase) : Option Proc :=
  if t.child then some (t.proc phase) else none

/-- The process of a job. -/
def Entity.proc? : Entity → Option Proc
  | .planned _ | .queued _ | .pending _ => none
  | .active t | .service t => t.childProc .original
  | .recovering r => r.task.childProc r.phase

theorem Entity.proc?_position {e : Entity} {proc : Proc} (h : e.proc? = some proc) :
    proc.position = e.position := by
  cases e <;> simp only [Entity.proc?, ActiveTask.childProc] at h <;>
    first
    | cases h
    | (split at h
       · cases h; rfl
       · cases h)

theorem ActiveTask.childProc_of_child {t : ActiveTask} (h : t.child = true) (phase : Phase) :
    t.childProc phase = some (t.proc phase) := if_pos h

theorem ActiveTask.childProc_of_no_child {t : ActiveTask} (h : t.child = false) (phase : Phase) :
    t.childProc phase = none := by
  simp [ActiveTask.childProc, h]

section Living

variable {procs rest : List Proc}

theorem TaskChange.living {phase : Phase} {t t' : ActiveTask} {effects : List Effect}
    (h : TaskChange phase t effects t')
    (hprocs : procs.Perm ((t.childProc phase).toList ++ rest)) :
    (effects.foldl Effect.revise procs).Perm ((t'.childProc phase).toList ++ rest) := by
  have hexit : t.child = true → (procs.erase (t.proc phase)).Perm rest := fun hchild => by
    have := hprocs.erase (t.proc phase)
    simpa [ActiveTask.childProc_of_child hchild phase] using this
  cases h with
  | validate | tick => exact hprocs
  | invalid failure hchild =>
    have hsame : ({ { t with contextValidated := true }.fail failure with commands := [] }
        : ActiveTask).childProc phase = none := by
      simp [ActiveTask.childProc, ActiveTask.fail, hchild]
    rw [hsame]
    rw [ActiveTask.childProc_of_no_child hchild phase] at hprocs
    exact hprocs
  | spawned command rest' now _ hchild _ =>
    rw [ActiveTask.childProc_of_no_child hchild phase] at hprocs
    have hnew : ((t.take command rest').launched now).childProc phase
        = some ((t.take command rest').proc phase) := if_pos rfl
    rw [hnew]
    exact (hprocs.append_right _).trans List.perm_append_comm
  | spawnFailed command rest' error failure hchild _ =>
    rw [ActiveTask.childProc_of_no_child hchild phase] at hprocs
    exact hprocs
  | exited status hchild => exact hexit hchild
  | failed effect failure hchild heffect =>
    rcases heffect with ⟨status, rfl⟩ | ⟨error, rfl⟩
    · exact hexit hchild
    · exact hexit hchild
  | restarted status hchild _ => exact hexit hchild

theorem ActiveTask.killEffects_living (t : ActiveTask) (phase : Phase)
    (hprocs : procs.Perm ((t.childProc phase).toList ++ rest))
    (hrest : ∀ p ∈ rest, p.position ≠ t.position) :
    (t.killEffects.foldl Effect.revise procs).Perm rest := by
  unfold ActiveTask.killEffects
  by_cases hchild : t.child = true
  · rw [ActiveTask.childProc_of_child hchild phase] at hprocs
    rw [if_pos hchild]
    have hkept : rest.filter (fun p => p.position ≠ t.position) = rest :=
      List.filter_eq_self.mpr fun p hp => by simpa using hrest p hp
    have hfilter := hprocs.filter fun p => p.position ≠ t.position
    rw [List.filter_append, hkept] at hfilter
    simpa [ActiveTask.proc, Effect.revise] using hfilter
  · rw [ActiveTask.childProc_of_no_child (by simpa using hchild) phase] at hprocs
    rw [if_neg hchild]
    exact hprocs

theorem ServiceMove.living {s : ActiveTask} {effects : List Effect} {s' : Option ActiveTask}
    {results : Results} {state : TaskState} {outcome : TaskOutcome}
    (h : ServiceMove s effects s' results state outcome)
    (hprocs : procs.Perm ((s.childProc .original).toList ++ rest)) :
    (effects.foldl Effect.revise procs).Perm
      ((s'.bind fun t => t.childProc .original).toList ++ rest) := by
  have hexit : s.child = true → (procs.erase (s.proc .original)).Perm rest := fun hchild => by
    have := hprocs.erase (s.proc .original)
    simpa [ActiveTask.childProc_of_child hchild] using this
  cases h with
  | spawned command rest' now hchild _ =>
    rw [ActiveTask.childProc_of_no_child hchild] at hprocs
    exact (hprocs.append_right _).trans List.perm_append_comm
  | spawnFailed command rest' error failure hchild _ =>
    rw [ActiveTask.childProc_of_no_child hchild] at hprocs
    exact hprocs
  | restarted status hchild _ _ => exact hexit hchild
  | stopped status hchild _ => exact hexit hchild
  | exhausted status failure hchild _ => exact hexit hchild

/-- A move of a job keeps its process in step with the processes alive. -/
theorem EntityMove.living {failFast : Bool} {e : Entity} {effects : List Effect}
    {e' : Option Entity} (h : EntityMove failFast e effects e')
    (hprocs : procs.Perm (e.proc?.toList ++ rest)) (hrest : ∀ p ∈ rest, p.position ≠ e.position) :
    (effects.foldl Effect.revise procs).Perm ((e'.bind Entity.proc?).toList ++ rest) := by
  cases h with
  | fill | park => exact hprocs
  | task t t' _ _ hchange => exact hchange.living hprocs
  | record t run durationMs hchild =>
    rw [Entity.proc?, ActiveTask.childProc_of_no_child hchild] at hprocs
    exact hprocs
  | defer t effect hchild heffect _ =>
    rw [Entity.proc?, ActiveTask.childProc_of_no_child hchild] at hprocs
    rw [List.foldl_cons, Effect.revise_of_unowned _ heffect]
    exact hprocs
  | stop t run durationMs =>
    rw [List.foldl_append]
    exact t.killEffects_living .original hprocs hrest
  | skip _ task run he =>
    rcases he with rfl | rfl
    · exact hprocs
    · exact hprocs
  | service s s' _ _ _ _ hmove => exact hmove.living hprocs
  | serviceLeft s _ _ _ _ run durationMs hmove =>
    rw [List.foldl_append]
    exact hmove.living hprocs
  | retire s => exact s.killEffects_living .original hprocs hrest
  | keep | recover => exact hprocs
  | recovering r t' _ _ hchange => exact hchange.living hprocs
  | recoveryFailed t original run durationMs hchild =>
    rw [Entity.proc?, ActiveTask.childProc_of_no_child hchild] at hprocs
    exact hprocs
  | verify t original hchild _ =>
    rw [Entity.proc?, ActiveTask.childProc_of_no_child hchild] at hprocs
    exact hprocs
  | verified t original run durationMs hchild =>
    rw [Entity.proc?, ActiveTask.childProc_of_no_child hchild] at hprocs
    exact hprocs
  | interrupt r => exact r.task.killEffects_living r.phase hprocs hrest

end Living

/-- The processes alive are those of the entities. -/
def Living (b : Board.State Entity Effect) : Prop :=
  (alive b.history).Perm (b.parts.filterMap Entity.proc?)

theorem Living.step {failFast : Bool} {b b' : Board.State Entity Effect}
    (hstep : Board.Step (jobs failFast) b b') (hdistinct : (b.parts.map Entity.position).Nodup)
    (h : Living b) : Living b' := by
  cases hstep with
  | noise _ x hx =>
    rw [Living, alive_concat, Effect.revise_of_unowned _ hx]
    exact h
  | shuffle _ parts hperm => exact h.trans (hperm.symm.filterMap _)
  | move history e effects e' rest hmove =>
    have hprocs : (alive history).Perm (e.proc?.toList ++ rest.filterMap Entity.proc?) := by
      refine h.trans (.of_eq ?_)
      cases he : e.proc? <;> simp [he]
    rw [List.map_cons, List.nodup_cons] at hdistinct
    have hrest : ∀ p ∈ rest.filterMap Entity.proc?, p.position ≠ e.position := by
      intro p hp heq
      obtain ⟨x, hx, hproc⟩ := List.mem_filterMap.mp hp
      refine hdistinct.1 (List.mem_map.mpr ⟨x, hx, ?_⟩)
      rw [← Entity.proc?_position hproc, heq]
    have hafter := hmove.living hprocs hrest
    rw [Living, alive_append]
    refine hafter.trans (.of_eq ?_)
    cases e' with
    | none => rfl
    | some x => cases hx : x.proc? <;> simp [hx]

/-! ### Every job is on its course and the processes are theirs -/

/-- Every job of the run is on its course, and the processes alive are the jobs' children. -/
structure View.Accounted (failFast : Bool) (all : List Stage) (v : View) : Prop where
  tracked : v.Tracked failFast all
  living : Living v.board

theorem View.Accounted.steps {failFast : Bool} {all : List Stage} {v v' : View}
    (h : v.Accounted failFast all) (hsteps : Steps (jobs failFast) v.board v'.board) :
    v'.Accounted failFast all := by
  obtain ⟨htracked, hliving⟩ := Claims.steps_with (I := Living) (tracks_preserved failFast _)
    (fun b b' hstep hclaims => Living.step hstep hclaims.distinct) hsteps h.tracked h.living
  exact ⟨htracked, hliving⟩

theorem View.Accounted.move {failFast : Bool} {all : List Stage} {v v' : View}
    (h : v.Accounted failFast all) (hmove : Move failFast v v') : v'.Accounted failFast all := by
  rcases hmove.entities with ⟨stage, rest, limit, hbegins, rfl⟩ | hsteps
  · refine ⟨h.tracked.move hmove, ?_⟩
    have hbefore := hbegins.entities.filterMap Entity.proc?
    have hafter := (v.begun_entities stage rest limit).filterMap Entity.proc?
    have hidle : ∀ (f : TaskPlan → Entity), (∀ t, (f t).proc? = none) →
        ((stageTasks stage).map f).filterMap Entity.proc? = [] := fun f hf => by
      simp [List.filterMap_map, hf]
    rw [List.filterMap_append, hidle _ fun _ => rfl] at hbefore hafter
    have hsame : alive (v.begun stage rest limit).trace = alive v.trace :=
      alive_unowned v.trace (by simp [Effect.position?])
    rw [Living]
    simp only [View.board, hsame]
    exact (h.living.trans hbefore).trans hafter.symm
  · exact h.steps hsteps

theorem View.Accounted.reconciled {failFast : Bool} {all : List Stage} {v : View}
    (h : v.Accounted failFast all) (stopNames : List String) :
    (v.reconciled stopNames).Accounted failFast all :=
  h.steps (v.steps_reconciled failFast stopNames)

theorem View.Accounted.appended {failFast : Bool} {all stages : List Stage} {v : View}
    (h : v.Accounted failFast all)
    (hdistinct : (((all ++ stages).flatMap stageTasks).map (·.position)).Nodup) :
    (v.appended stages).Accounted failFast (all ++ stages) := by
  refine ⟨h.tracked.appended hdistinct, h.living.trans ?_⟩
  have hentities := (v.entities_appended stages).filterMap Entity.proc?
  have hidle : ((stages.flatMap stageTasks).map Entity.planned).filterMap Entity.proc? = [] := by
    simp [List.filterMap_map, Function.comp_def, Entity.proc?]
  rw [List.filterMap_append, hidle] at hentities
  exact hentities.symm

theorem View.start_accounted {W : Type} (failFast : Bool) (env : Env W) (world : W)
    (metadata : RunMetadata) (plan : RunPlan) (hdistinct : (plan.tasks.map (·.position)).Nodup) :
    (startView env world metadata plan).Accounted failFast plan.stages := by
  refine ⟨View.start_tracked failFast env world metadata plan hdistinct, ?_⟩
  have hnone : (startView env world metadata plan).entities.filterMap Entity.proc? = [] := by
    simp [View.entities, startView, List.filterMap_map, Function.comp_def, Entity.proc?]
  rw [Living]
  simp only [View.board, hnone]
  exact .rfl

/-- The processes alive at a view belong to different jobs. -/
theorem View.Accounted.one_each {failFast : Bool} {all : List Stage} {v : View}
    (h : v.Accounted failFast all) : ((alive v.trace).map Proc.position).Nodup := by
  refine ((h.living.map Proc.position).nodup_iff).mpr ?_
  have hsub : ∀ parts : List Entity,
      ((parts.filterMap Entity.proc?).map Proc.position).Sublist (parts.map Entity.position) := by
    intro parts
    induction parts with
    | nil => exact .slnil
    | cons e parts ih =>
      cases he : e.proc? with
      | none => rw [List.filterMap_cons_none he]; exact ih.cons _
      | some proc =>
        rw [List.filterMap_cons_some he, List.map_cons, List.map_cons, Entity.proc?_position he]
        exact ih.cons_cons _
  exact (hsub _).nodup h.tracked.distinct

/-! ### Moves are orderly -/

/-- The concurrency limit an effect chooses. -/
def Effect.limit? : Effect → Option Nat
  | .stage _ limit => some limit
  | _ => none

/-- The effects of a move that does not open a stage; only a job in its recovery starts a process
    of a later pass. -/
structure Uneventful (v v' : View) (effects : List Effect) : Prop where
  trace : v'.trace = v.trace ++ effects
  orderly : Orderly effects
  unlimited : ∀ x ∈ effects, x.limit? = none
  limit : v'.run.stageLimit = v.run.stageLimit
  phased : ∀ proc command, .spawned proc command ∈ effects → proc.phase ≠ .original →
    v.recovering ≠ none

theorem TaskChange.orderly {phase : Phase} {t t' : ActiveTask} {effects : List Effect}
    (h : TaskChange phase t effects t') : Orderly effects ∧ ∀ x ∈ effects, x.limit? = none := by
  cases h with
  | spawned command rest now _ _ _ =>
    exact ⟨.inr ⟨_, _, _, rfl, by simp [Effect.position?]⟩, by simp [Effect.limit?]⟩
  | failed effect failure _ heffect =>
    rcases heffect with ⟨status, rfl⟩ | ⟨error, rfl⟩ <;>
      exact ⟨.inl (by simp [Effect.spawns]), by simp [Effect.limit?]⟩
  | _ => exact ⟨.inl (by simp [Effect.spawns]), by simp [Effect.limit?]⟩

theorem ServiceMove.orderly {s : ActiveTask} {effects : List Effect} {s' : Option ActiveTask}
    {results : Results} {state : TaskState} {outcome : TaskOutcome}
    (h : ServiceMove s effects s' results state outcome) :
    Orderly effects ∧ ∀ x ∈ effects, x.limit? = none := by
  cases h with
  | spawned => exact ⟨.inr ⟨_, _, _, rfl, by simp⟩, by simp [Effect.limit?]⟩
  | _ => exact ⟨.inl (by simp [Effect.spawns]), by simp [Effect.limit?]⟩

theorem TaskChange.spawned_phase {phase : Phase} {t t' : ActiveTask} {effects : List Effect}
    (h : TaskChange phase t effects t') {proc : Proc} {command : CommandLine}
    (hx : .spawned proc command ∈ effects) : proc.phase = phase := by
  cases h with
  | spawned command' rest now _ _ _ =>
    simp only [List.mem_cons, Effect.spawned.injEq] at hx
    rcases hx with ⟨rfl, -⟩ | hx
    · rfl
    · simp at hx
  | failed effect failure _ heffect =>
    rcases heffect with ⟨status, rfl⟩ | ⟨error, rfl⟩ <;> simp at hx
  | _ => simp at hx

theorem ServiceMove.spawned_phase {s : ActiveTask} {effects : List Effect} {s' : Option ActiveTask}
    {results : Results} {state : TaskState} {outcome : TaskOutcome}
    (h : ServiceMove s effects s' results state outcome) {proc : Proc} {command : CommandLine}
    (hx : .spawned proc command ∈ effects) : proc.phase = .original := by
  cases h with
  | spawned =>
    simp only [List.mem_singleton, Effect.spawned.injEq] at hx
    rw [hx.1]; rfl
  | _ => simp at hx

theorem ServiceMove.left_unspawned {s : ActiveTask} {effects : List Effect} {results : Results}
    {state : TaskState} {outcome : TaskOutcome}
    (h : ServiceMove s effects none results state outcome) : ∀ x ∈ effects, x.spawns = false := by
  cases h <;> simp [Effect.spawns]

theorem ActiveTask.killEffects_orderly (t : ActiveTask) :
    ∀ x ∈ t.killEffects, x.spawns = false ∧ x.limit? = none := by
  unfold ActiveTask.killEffects
  split <;> simp [Effect.spawns, Effect.limit?]

theorem Uneventful.quiet {v v' : View} {effects : List Effect}
    (htrace : v'.trace = v.trace ++ effects) (hlimit : v'.run.stageLimit = v.run.stageLimit)
    (h : ∀ x ∈ effects, x.spawns = false ∧ x.limit? = none) : Uneventful v v' effects :=
  ⟨htrace, .inl fun x hx => (h x hx).1, fun x hx => (h x hx).2, hlimit,
    fun _ _ hx => by simpa [Effect.spawns] using (h _ hx).1⟩

/-- A move opens a stage, or is orderly and leaves the limit alone. -/
theorem Move.uneventful {failFast : Bool} {v v' : View} (h : Move failFast v v') :
    (∃ stage rest limit, v.Begins stage rest limit ∧ v' = v.begun stage rest limit) ∨
      ∃ effects, Uneventful v v' effects := by
  have hlast : ∀ (run : Run) snapshot, ∀ x ∈ [run.terminal snapshot],
      x.spawns = false ∧ x.limit? = none := by
    intro run snapshot x hx
    rw [List.mem_singleton.mp hx]; exact ⟨rfl, rfl⟩
  cases h with
  | begin stage rest limit hdrained hresolved hidle _ hnext hadmits =>
    exact .inl ⟨stage, rest, limit, ⟨hdrained, hresolved, hidle, hnext, hadmits⟩, rfl⟩
  | task seen rest t t' results trace _ _ _ hmove =>
    obtain ⟨effects, htrace, hchange⟩ := hmove.change
    exact .inr ⟨effects, htrace, hchange.orderly.1, hchange.orderly.2, rfl,
      fun _ _ hx hne => absurd (hchange.spawned_phase hx) hne⟩
  | recovering r t' results results' trace hr _ hmove =>
    obtain ⟨effects, htrace, hchange⟩ := hmove.change
    exact .inr ⟨effects, htrace, hchange.orderly.1, hchange.orderly.2, rfl,
      fun _ _ _ _ => by simp [hr]⟩
  | service kept rest s s' effects results state outcome _ _ hmove =>
    exact .inr ⟨effects, rfl, hmove.orderly.1, hmove.orderly.2, rfl,
      fun _ _ hx hne => absurd (hmove.spawned_phase hx) hne⟩
  | serviceLeft kept rest s effects results state outcome durationMs _ _ hmove =>
    refine .inr ⟨_, .quiet (List.append_assoc _ _ _) rfl fun x hx => ?_⟩
    rcases List.mem_append.mp hx with hx | hx
    · exact ⟨hmove.left_unspawned x hx, hmove.orderly.2 x hx⟩
    · exact hlast _ _ x hx
  | stop t rest durationMs _ _ _ =>
    refine .inr ⟨_, .quiet (List.append_assoc _ _ _) rfl fun x hx => ?_⟩
    rcases List.mem_append.mp hx with hx | hx
    · exact t.killEffects_orderly x hx
    · exact hlast _ _ x hx
  | interrupt r _ _ => exact .inr ⟨_, .quiet rfl rfl r.task.killEffects_orderly⟩
  | record | keep | recoveryFailed => exact .inr ⟨_, .quiet rfl rfl (hlast _ _)⟩
  | skipQueued | skipStages =>
    refine .inr ⟨_, .quiet rfl rfl fun x hx => ?_⟩
    obtain ⟨t, -, rfl⟩ := List.mem_map.mp hx
    exact ⟨rfl, rfl⟩
  | verified =>
    refine .inr ⟨_, .quiet rfl rfl ?_⟩
    simp [Run.verificationFinished, Run.terminal, Effect.spawns, Effect.limit?]
  | defer | note | ask | decide =>
    exact .inr ⟨_, .quiet rfl rfl (by simp [Effect.spawns, Effect.limit?])⟩
  | recover =>
    exact .inr ⟨_, .quiet rfl rfl (by simp [Run.recoveryStarted, Effect.spawns, Effect.limit?])⟩
  | fill | park | sort | signal | verify =>
    exact .inr ⟨[], .quiet (List.append_nil _).symm rfl (by simp)⟩

theorem View.reconciled_uneventful (v : View) (stopNames : List String) :
    ∃ effects, Uneventful v (v.reconciled stopNames) effects := by
  refine ⟨_, .quiet rfl rfl fun x hx => ?_⟩
  obtain ⟨t, -, hx⟩ := List.mem_flatMap.mp hx
  exact t.killEffects_orderly x hx

end Funzzy
