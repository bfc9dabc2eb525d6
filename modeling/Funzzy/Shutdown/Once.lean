import Funzzy.Shutdown.Sound

/-! Shutdown happens once.

    The driver of the close sequence is never blocked and the others wait for it, so every caller of
    `finish` can come back; and what they come back with is one completion, after one reaping, with the
    first reason and its hook. -/

namespace Funzzy

namespace ShutdownCoordinator

/-! ### No caller of `finish` is left waiting -/

/-- From here, call `i` can come back with the completion that is then published, the others standing
    still. -/
def Completes (i : Nat) (s : State) : Prop :=
  ∃ ls s' completion, Machine.after ShutdownCoordinator.step s ls = some s'
    ∧ s'.shared.phase = .finished completion
    ∧ s'.callers = s.callers.set i (.returned (.completion completion))

/-- How many stages are before the driver, if the hook ends at the first look. -/
def Stage.rank : Stage → Nat
  | .quiescing _ => 5
  | .reaping _ => 4
  | .cleaning _ => 3
  | .hooking _ => 2
  | .polling _ => 1
  | .publishing _ => 0

/-- A runner that starts the hook and finds it ended. -/
def promptly : Answer := ⟨none, .success⟩

theorem drive_descends (s : Shared) (stage : Stage) :
    (∃ completion, stage = .publishing completion)
      ∨ ∃ stage', (drive s promptly stage).2 = .driving stage' ∧ stage'.rank < stage.rank := by
  cases stage with
  | quiescing work =>
    refine Or.inr ⟨_, rfl, ?_⟩
    split <;> simp [Stage.rank]
  | reaping work => exact Or.inr ⟨_, rfl, by simp [Stage.rank]⟩
  | cleaning work => exact Or.inr ⟨_, rfl, by simp [Stage.rank]⟩
  | hooking work =>
    unfold drive
    dsimp only
    split
    · exact Or.inr ⟨_, rfl, by simp [Stage.rank]⟩
    · split
      · exact Or.inr ⟨_, rfl, by simp [Stage.rank]⟩
      · exact Or.inr ⟨_, rfl, by simp [Stage.rank, promptly]⟩
  | polling work =>
    refine Or.inr ⟨_, rfl, ?_⟩
    unfold pollHook
    dsimp only
    split <;> simp [Stage.rank, promptly]
  | publishing completion => exact Or.inl ⟨completion, rfl⟩

theorem step_driving {s : State} {i : Nat} {stage : Stage} (answer : Answer)
    (hi : s.callers[i]? = some (.driving stage)) :
    ShutdownCoordinator.step s (.move i answer)
      = some ⟨(drive s.shared answer stage).1, s.callers.set i (drive s.shared answer stage).2⟩ := by
  rw [ShutdownCoordinator.step, hi]
  rfl

/-- The driver is never blocked: it gets to the end of the close sequence by itself. -/
theorem driver_completes (n : Nat) : ∀ (s : State) (i : Nat) (stage : Stage),
    s.callers[i]? = some (.driving stage) → stage.rank ≤ n → Completes i s := by
  induction n with
  | zero =>
    intro s i stage hi hrank
    rcases drive_descends s.shared stage with ⟨completion, rfl⟩ | ⟨stage', -, hlt⟩
    · refine ⟨[.move i promptly], ⟨{ s.shared with phase := .finished completion },
        s.callers.set i (.returned (.completion completion))⟩, completion, ?_, rfl, rfl⟩
      rw [Machine.after, step_driving promptly hi]
      rfl
    · omega
  | succ n ih =>
    intro s i stage hi hrank
    rcases drive_descends s.shared stage with ⟨completion, rfl⟩ | ⟨stage', hnext, hlt⟩
    · exact ih s i (.publishing completion) hi (Nat.zero_le _)
    · have hlength := (List.getElem?_eq_some_iff.mp hi).1
      have hstep := step_driving promptly hi
      rw [hnext] at hstep
      obtain ⟨ls, s', completion, hafter, hphase, hcallers⟩ :=
        ih ⟨(drive s.shared promptly stage).1, s.callers.set i (.driving stage')⟩ i stage'
          (List.getElem?_set_self hlength) (by omega)
      refine ⟨.move i promptly :: ls, s', completion, ?_, hphase, ?_⟩
      · rw [Machine.after, hstep]
        exact hafter
      · rw [hcallers, List.set_set]

/-- A call that is inside `finish`. -/
def Finishing (place : Place) : Prop := place = .calling .finish ∨ ∃ stage, place = .driving stage

theorem step_finish {s : State} {i : Nat} {shared : Shared} {place' : Place}
    (hi : s.callers[i]? = some (.calling .finish))
    (henter : enterFinish s.shared i = some (shared, place')) :
    ShutdownCoordinator.step s (.move i promptly) = some ⟨shared, s.callers.set i place'⟩ := by
  rw [ShutdownCoordinator.step, hi]
  change (enterFinish s.shared i).bind _ = _
  rw [henter]
  rfl

/-- Once a completion is published, `finish` returns it. -/
theorem step_finished {s : State} {i : Nat} {completion : ShutdownCompletion}
    (hi : s.callers[i]? = some (.calling .finish)) (hphase : s.shared.phase = .finished completion) :
    ∃ s', Machine.after ShutdownCoordinator.step s [.move i promptly] = some s'
      ∧ s'.callers[i]? = some (.returned (.completion completion)) := by
  refine ⟨⟨s.shared, s.callers.set i (.returned (.completion completion))⟩, ?_, ?_⟩
  · rw [Machine.after, step_finish hi (by rw [enterFinish, hphase])]
    rfl
  · exact List.getElem?_set_self (List.getElem?_eq_some_iff.mp hi).1

/-- Every caller of `finish` can come back, whoever drives. -/
theorem Sound.finish_returns {s : State} (h : Sound s) {i : Nat} {place : Place}
    (hi : s.callers[i]? = some place) (hfinishing : Finishing place) :
    ∃ ls s' completion, Machine.after ShutdownCoordinator.step s ls = some s'
      ∧ s'.callers[i]? = some (.returned (.completion completion)) := by
  have hlength := (List.getElem?_eq_some_iff.mp hi).1
  rcases hfinishing with rfl | ⟨stage, rfl⟩
  · -- at the lock: become the driver, read the result, or let the driver end first
    have hdriven : ∀ shared stage, enterFinish s.shared i = some (shared, .driving stage) →
        ∃ ls s' completion, Machine.after ShutdownCoordinator.step s ls = some s'
          ∧ s'.callers[i]? = some (.returned (.completion completion)) := by
      intro shared stage henter
      obtain ⟨ls, s', completion, hafter, -, hcallers⟩ := driver_completes stage.rank
        ⟨shared, s.callers.set i (.driving stage)⟩ i stage (List.getElem?_set_self hlength)
        (Nat.le_refl _)
      refine ⟨.move i promptly :: ls, s', completion, ?_, ?_⟩
      · rw [Machine.after, step_finish hi henter]
        exact hafter
      · rw [hcallers, List.set_set]
        exact List.getElem?_set_self hlength
    cases hphase : s.shared.phase with
    | running => exact hdriven _ _ (by rw [enterFinish, hphase])
    | requested requested => exact hdriven _ _ (by rw [enterFinish, hphase])
    | finished completion =>
      obtain ⟨s', hafter, hreturned⟩ := step_finished hi hphase
      exact ⟨_, s', completion, hafter, hreturned⟩
    | finishing =>
      have hagrees := h.agrees
      unfold Agrees at hagrees
      rw [hphase] at hagrees
      obtain ⟨a, stage, -, hstages, -⟩ := hagrees
      have hmem : stage ∈ drivers s.callers := hstages ▸ List.mem_singleton_self stage
      obtain ⟨driver, hdriver, hstage⟩ := List.mem_filterMap.mp hmem
      obtain ⟨j, hj⟩ := List.mem_iff_getElem?.mp hdriver
      have hplace : driver = .driving stage := by
        cases driver <;> cases hstage
        rfl
      rw [hplace] at hj
      have hij : j ≠ i := by
        rintro rfl
        rw [hi] at hj
        cases hj
      obtain ⟨ls, t, completion, hafter, hfinished, hcallers⟩ :=
        driver_completes stage.rank s j stage hj (Nat.le_refl _)
      have hti : t.callers[i]? = some (.calling .finish) := by
        rw [hcallers, List.getElem?_set_ne hij]
        exact hi
      obtain ⟨s', hlast, hreturned⟩ := step_finished hti hfinished
      refine ⟨ls ++ [.move i promptly], s', completion, ?_, hreturned⟩
      rw [Machine.after_append, hafter]
      exact hlast
  · obtain ⟨ls, s', completion, hafter, -, hcallers⟩ :=
      driver_completes stage.rank s i stage hi (Nat.le_refl _)
    refine ⟨ls, s', completion, hafter, ?_⟩
    rw [hcallers]
    exact List.getElem?_set_self hlength

/-! ### Once only -/

/-- One reason, one reaping, one hook: a first request is the accepted one and has been reaped for; a
    returned completion carries the accepted reason, after one reaping and with the due hook spawned, and
    all returned completions are the same. -/
structure Once (s : State) : Prop where
  accepted : s.shared.acceptances.length ≤ 1
  reaped : s.shared.reaps ≤ 1
  spawned : s.shared.spawns.length ≤ 1
  first : ∀ i : Nat, s.callers[i]? = some (.returned (.first true)) →
    ∃ a, s.shared.acceptances = [a] ∧ a.caller = i ∧ s.shared.reaps = 1
  completed : ∀ (i : Nat) (completion : ShutdownCompletion),
    s.callers[i]? = some (.returned (.completion completion)) → ∃ a, s.shared.acceptances = [a] ∧ completion.reason = a.reason
      ∧ completion.reason.exitCode = a.reason.exitCode ∧ s.shared.reaps = 1
      ∧ s.shared.spawns = a.hook.toList
  same : ∀ (i j : Nat) (c c' : ShutdownCompletion), s.callers[i]? = some (.returned (.completion c)) →
    s.callers[j]? = some (.returned (.completion c')) → c = c'

theorem hook_toList_length (a : Acceptance) : a.hook.toList.length ≤ 1 := by
  cases a.hook <;> simp

theorem Agrees.once {s : Shared} {stages : List Stage} (h : Agrees s stages) :
    s.acceptances.length ≤ 1 ∧ s.spawns.length ≤ 1 := by
  unfold Agrees at h
  split at h
  · rw [h.1, h.2.1]
    exact ⟨Nat.zero_le _, Nat.zero_le _⟩
  · obtain ⟨a, hone, -, -, -, hspawns, -⟩ := h
    rw [hone, hspawns]
    exact ⟨Nat.le_refl _, Nat.zero_le _⟩
  · obtain ⟨a, stage, hone, -, hfits⟩ := h
    have hspawns : s.spawns = [] ∨ s.spawns = a.hook.toList := by
      cases stage with
      | quiescing work => exact Or.inl hfits.2
      | reaping work => exact Or.inl hfits.2.1
      | cleaning work => exact Or.inl hfits.2.1
      | hooking work => exact Or.inl hfits.2.1
      | polling work => exact Or.inr hfits.2.1
      | publishing completion => exact Or.inr hfits.2.1
    rw [hone]
    refine ⟨Nat.le_refl _, ?_⟩
    rcases hspawns with hspawns | hspawns
    · rw [hspawns]
      exact Nat.zero_le _
    · rw [hspawns]
      exact hook_toList_length a
  · obtain ⟨a, hone, -, hspawns, -, -⟩ := h
    rw [hone, hspawns]
    exact ⟨Nat.le_refl _, hook_toList_length a⟩

theorem Sound.once {s : State} (h : Sound s) : Once s := by
  obtain ⟨haccepted, hspawned⟩ := h.agrees.once
  refine ⟨haccepted, ?_, hspawned, ?_, ?_, ?_⟩
  · rw [h.reaps]
    split <;> decide
  · intro i hi
    obtain ⟨hcaller, hreaped⟩ := h.places i _ hi
    obtain ⟨a, hone, hcaller⟩ := List.map_eq_singleton_iff.mp hcaller
    exact ⟨a, hone, hcaller, h.reaps.trans (if_pos hreaped)⟩
  · intro i completion hi
    have hphase : s.shared.phase = .finished completion := h.places i _ hi
    have hagrees := h.agrees
    unfold Agrees at hagrees
    rw [hphase] at hagrees
    obtain ⟨a, hone, hreason, hspawns, hreaped, -⟩ := hagrees
    exact ⟨a, hone, hreason, congrArg _ hreason, h.reaps.trans (if_pos hreaped), hspawns⟩
  · intro i j c c' hi hj
    have hc : s.shared.phase = .finished c := h.places i _ hi
    have hc' : s.shared.phase = .finished c' := h.places j _ hj
    rw [hc] at hc'
    cases hc'
    rfl

/-- In every interleaving, shutdown happens once; the accepted reason stays the accepted one whatever
    follows, and from wherever it stands every caller of `finish` can come back with a completion. -/
theorem shutdown_once (hooks : Option String) (ls : List Label) (s : State)
    (hrun : Machine.after step (init hooks) ls = some s) :
    Once s
      ∧ (∀ ls' s', Machine.after step s ls' = some s' → s.shared.acceptances ≠ [] →
          s'.shared.acceptances = s.shared.acceptances)
      ∧ ∀ (i : Nat) (place : Place), s.callers[i]? = some place → Finishing place →
          ∃ ls' s' completion, Machine.after step s ls' = some s'
            ∧ s'.callers[i]? = some (.returned (.completion completion)) := by
  obtain ⟨hsound, -⟩ := (sound_init hooks).after ls hrun
  refine ⟨hsound.once, ?_, ?_⟩
  · intro ls' s' hafter hne
    obtain ⟨-, honward⟩ := hsound.after ls' hafter
    exact honward.acceptances hne
  · intro i place hi hfinishing
    exact hsound.finish_returns hi hfinishing

/-- Two signals race two callers of `finish` over a ready watcher with a hook. -/
def contested : List Label :=
  [.call .markReady, .move 0 promptly, .call (.request (.signal "SIGINT" 130)), .call .finish,
    .call .finish, .move 1 promptly, .call (.request (.signal "SIGTERM" 143)), .move 2 promptly,
    .move 2 promptly, .move 1 promptly, .move 2 promptly, .move 2 promptly, .move 4 promptly,
    .move 2 promptly, .move 2 promptly, .move 2 promptly, .move 3 promptly]

theorem shutdown_once_contested :
    ∃ s, Machine.after step (init (some "echo bye")) contested = some s ∧ Once s
      ∧ s.callers[2]? = some (.returned (.completion ⟨.signal "SIGINT" 130, .cancelled⟩))
      ∧ s.callers[3]? = some (.returned (.completion ⟨.signal "SIGINT" 130, .cancelled⟩))
      ∧ s.shared.spawns = ["echo bye"] := by
  have hrun : (Machine.after step (init (some "echo bye")) contested).isSome = true := by decide
  obtain ⟨s, hs⟩ := Option.isSome_iff_exists.mp hrun
  have hshared : (Machine.after step (init (some "echo bye")) contested).map
      (fun s => (s.callers[2]?, s.callers[3]?, s.shared.spawns))
      = some (some (.returned (.completion ⟨.signal "SIGINT" 130, .cancelled⟩)),
          some (.returned (.completion ⟨.signal "SIGINT" 130, .cancelled⟩)), ["echo bye"]) := by
    decide
  rw [hs, Option.map_some, Option.some.injEq, Prod.mk.injEq, Prod.mk.injEq] at hshared
  exact ⟨s, hs, (shutdown_once _ _ s hs).1, hshared⟩

end ShutdownCoordinator

end Funzzy
