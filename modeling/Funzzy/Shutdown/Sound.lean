import Funzzy.Shutdown.Coordinator

/-! What every interleaving of shutdown calls keeps.

    The phase, the log and the one caller that drives the close sequence say the same thing: before a
    reason is accepted there is neither; afterwards there is one acceptance, one driver at most, and its
    stage says how much of the close sequence is in the log. Each step of each call keeps this and takes
    nothing back. -/

namespace Funzzy

namespace ShutdownCoordinator

/-! ### What holds at every moment -/

/-- The work of a driving `finish` is what was frozen. -/
def Work.Of (work : Work) (a : Acceptance) : Prop :=
  work.requested = ⟨a.reason, a.hook⟩ ∧ work.skippedBeforeReady = (!a.ready && a.close.isSome)

/-- Each stage of the close sequence against the acceptance it carries out. -/
def Stage.Fits (s : Shared) (a : Acceptance) : Stage → Prop
  | .quiescing work => work.Of a ∧ s.spawns = []
  | .reaping work | .cleaning work | .hooking work => work.Of a ∧ s.spawns = [] ∧ s.reaped = true
  | .polling work => work.Of a ∧ s.spawns = a.hook.toList ∧ s.reaped = true
  | .publishing completion =>
    completion.reason = a.reason ∧ s.spawns = a.hook.toList ∧ s.reaped = true

/-- The phase against the log and the callers that drive the close sequence. -/
def Agrees (s : Shared) (stages : List Stage) : Prop :=
  match s.phase with
  | .running => s.acceptances = [] ∧ s.spawns = [] ∧ stages = []
  | .requested requested => ∃ a, s.acceptances = [a] ∧ requested = ⟨a.reason, a.hook⟩
      ∧ a.ready = s.ready ∧ a.close = s.committedClose ∧ s.spawns = [] ∧ stages = []
  | .finishing => ∃ a stage, s.acceptances = [a] ∧ stages = [stage] ∧ stage.Fits s a
  | .finished completion => ∃ a, s.acceptances = [a] ∧ completion.reason = a.reason
      ∧ s.spawns = a.hook.toList ∧ s.reaped = true ∧ stages = []

/-- What a call's place says of the log: a first request is the one that was accepted, and it has been
    reaped for once it gets past that; a completion is the published one. -/
def Place.Fits (s : Shared) (i : Nat) : Place → Prop
  | .quiescing => s.acceptances.map Acceptance.caller = [i]
  | .reaping | .returned (.first true) =>
    s.acceptances.map Acceptance.caller = [i] ∧ s.reaped = true
  | .returned (.completion completion) => s.phase = .finished completion
  | _ => True

def Place.stage? : Place → Option Stage
  | .driving stage => some stage
  | _ => none

/-- The stages of the callers that drive. -/
def drivers (callers : List Place) : List Stage := callers.filterMap Place.stage?

structure Sound (s : State) : Prop where
  reaps : s.shared.reaps = if s.shared.reaped then 1 else 0
  agrees : Agrees s.shared (drivers s.callers)
  places : ∀ i (place : Place), s.callers[i]? = some place → place.Fits s.shared i

/-! ### Nothing is taken back -/

/-- What no step of any call undoes. -/
structure Onward (s s' : Shared) : Prop where
  acceptances : s.acceptances ≠ [] → s'.acceptances = s.acceptances
  reaped : s.reaped = true → s'.reaped = true
  finished : ∀ completion, s.phase = .finished completion → s'.phase = .finished completion

theorem Onward.refl (s : Shared) : Onward s s := ⟨fun _ => rfl, id, fun _ => id⟩

theorem Onward.trans {s s' s'' : Shared} (h : Onward s s') (h' : Onward s' s'') : Onward s s'' :=
  ⟨fun ha => by rw [h'.acceptances (h.acceptances ha ▸ ha), h.acceptances ha],
    fun hr => h'.reaped (h.reaped hr), fun c hc => h'.finished c (h.finished c hc)⟩

/-- The other calls stand as they stood. -/
theorem Place.Fits.onward {s s' : Shared} (h : Onward s s') {i : Nat} {place : Place}
    (hfits : place.Fits s i) : place.Fits s' i := by
  have hmap : s.acceptances.map Acceptance.caller = [i] →
      s'.acceptances.map Acceptance.caller = [i] := by
    intro hone
    rw [h.acceptances, hone]
    rintro hnil
    rw [hnil] at hone
    cases hone
  match place, hfits with
  | .quiescing, hfits => exact hmap hfits
  | .reaping, hfits => exact ⟨hmap hfits.1, h.reaped hfits.2⟩
  | .returned (.first true), hfits => exact ⟨hmap hfits.1, h.reaped hfits.2⟩
  | .returned (.completion completion), hfits => exact h.finished completion hfits
  | .returned (.first false), _ => trivial
  | .returned .unit, _ => trivial
  | .calling _, _ => trivial
  | .driving _, _ => trivial

/-! ### One step of one call -/

/-- What a step of a call achieves: counted reaping, a phase that agrees with the log and the drivers,
    and a new place that fits. The other drivers are `before` and `behind`. -/
structure Moved (s s' : Shared) (caller : Nat) (place' : Place) (before behind : List Stage) :
    Prop where
  onward : Onward s s'
  reaps : s'.reaps = if s'.reaped then 1 else 0
  agrees : Agrees s' (before ++ place'.stage?.toList ++ behind)
  place : place'.Fits s' caller

theorem acceptances_accept (s : Shared) (caller : Nat) (reason : ShutdownReason) (phase : Phase) :
    (s.accept caller reason phase).acceptances
      = s.acceptances ++ [⟨caller, reason, s.ready, s.committedClose⟩] := by
  simp [Shared.acceptances, Shared.accept, Event.acceptance?]

theorem spawns_accept (s : Shared) (caller : Nat) (reason : ShutdownReason) (phase : Phase) :
    (s.accept caller reason phase).spawns = s.spawns := by
  simp [Shared.spawns, Shared.accept, Event.command?]

theorem reaps_accept (s : Shared) (caller : Nat) (reason : ShutdownReason) (phase : Phase) :
    (s.accept caller reason phase).reaps = s.reaps := by
  simp [Shared.reaps, Shared.accept]

/-- After `reap_once` the reaping is in the log once, whoever does it, and nothing else moved. -/
theorem reapOnce_spec (s : Shared) (hreaps : s.reaps = if s.reaped then 1 else 0) :
    s.reapOnce.1.reaped = true ∧ s.reapOnce.1.reaps = 1 ∧ s.reapOnce.1.phase = s.phase
      ∧ s.reapOnce.1.acceptances = s.acceptances ∧ s.reapOnce.1.spawns = s.spawns
      ∧ s.reapOnce.1.ready = s.ready ∧ s.reapOnce.1.committedClose = s.committedClose := by
  unfold Shared.reapOnce
  split
  · next h => exact ⟨h, by rw [hreaps, if_pos h], rfl, rfl, rfl, rfl, rfl⟩
  · next h =>
    rw [if_neg h] at hreaps
    refine ⟨rfl, ?_, rfl, ?_, ?_, rfl, rfl⟩
    · change (s.log ++ [Event.reaped]).count .reaped = 1
      rw [List.count_append, List.count_singleton_self]
      exact congrArg (· + 1) hreaps
    · simp [Shared.acceptances, Event.acceptance?]
    · simp [Shared.spawns, Event.command?]

/-! ### Agreement under each kind of change -/

theorem Stage.Fits.mono {s s' : Shared} {a : Acceptance} {stage : Stage} (h : stage.Fits s a)
    (hspawns : s'.spawns = s.spawns) (hreaped : s.reaped = true → s'.reaped = true) :
    stage.Fits s' a := by
  cases stage with
  | quiescing work => exact ⟨h.1, hspawns ▸ h.2⟩
  | reaping work => exact ⟨h.1, hspawns ▸ h.2.1, hreaped h.2.2⟩
  | cleaning work => exact ⟨h.1, hspawns ▸ h.2.1, hreaped h.2.2⟩
  | hooking work => exact ⟨h.1, hspawns ▸ h.2.1, hreaped h.2.2⟩
  | polling work => exact ⟨h.1, hspawns ▸ h.2.1, hreaped h.2.2⟩
  | publishing completion => exact ⟨h.1, hspawns ▸ h.2.1, hreaped h.2.2⟩

/-- A step that accepts, spawns and publishes nothing. Readiness and hooks may change while running. -/
structure Quiet (s s' : Shared) : Prop where
  phase : s'.phase = s.phase
  acceptances : s'.acceptances = s.acceptances
  spawns : s'.spawns = s.spawns
  reaped : s.reaped = true → s'.reaped = true
  frozen : s.phase = .running ∨ s'.ready = s.ready ∧ s'.committedClose = s.committedClose

theorem Quiet.onward {s s' : Shared} (h : Quiet s s') : Onward s s' :=
  ⟨fun _ => h.acceptances, h.reaped, fun _ hc => h.phase.trans hc⟩

theorem Quiet.agrees {s s' : Shared} (h : Quiet s s') {stages : List Stage}
    (hagrees : Agrees s stages) : Agrees s' stages := by
  unfold Agrees at hagrees ⊢
  rw [h.phase, h.acceptances, h.spawns]
  cases hphase : s.phase with
  | running => rwa [hphase] at hagrees
  | requested requested =>
    rw [hphase] at hagrees
    obtain ⟨a, hone, hrequested, hready, hclose, hrest⟩ := hagrees
    rcases h.frozen with hrunning | ⟨hr, hc⟩
    · rw [hphase] at hrunning
      cases hrunning
    · exact ⟨a, hone, hrequested, hready.trans hr.symm, hclose.trans hc.symm, hrest⟩
  | finishing =>
    rw [hphase] at hagrees
    obtain ⟨a, stage, hone, hstages, hfits⟩ := hagrees
    exact ⟨a, stage, hone, hstages, hfits.mono h.spawns h.reaped⟩
  | finished completion =>
    rw [hphase] at hagrees
    obtain ⟨a, hone, hreason, hspawns, hreaped, hstages⟩ := hagrees
    exact ⟨a, hone, hreason, hspawns, h.reaped hreaped, hstages⟩

/-- A driving caller is the only one, and the phase is its own. -/
theorem Agrees.driver {s : Shared} {before behind : List Stage} {stage : Stage}
    (h : Agrees s (before ++ [stage] ++ behind)) :
    s.phase = .finishing ∧ before = [] ∧ behind = [] ∧ ∃ a, s.acceptances = [a] ∧ stage.Fits s a := by
  have hne : before ++ [stage] ++ behind ≠ [] := by simp
  unfold Agrees at h
  cases hphase : s.phase with
  | running =>
    rw [hphase] at h
    exact absurd h.2.2 hne
  | requested requested =>
    rw [hphase] at h
    obtain ⟨a, -, -, -, -, -, hstages⟩ := h
    exact absurd hstages hne
  | finishing =>
    rw [hphase] at h
    obtain ⟨a, stage', hone, hstages, hfits⟩ := h
    have hlength := congrArg List.length hstages
    simp only [List.length_append, List.length_singleton] at hlength
    obtain rfl : before = [] := List.length_eq_zero_iff.mp (by omega)
    obtain rfl : behind = [] := List.length_eq_zero_iff.mp (by omega)
    cases hstages
    exact ⟨rfl, rfl, rfl, a, hone, hfits⟩
  | finished completion =>
    rw [hphase] at h
    obtain ⟨a, -, -, -, -, hstages⟩ := h
    exact absurd hstages hne

theorem Agrees.of_driver {s : Shared} {a : Acceptance} {stage : Stage}
    (hphase : s.phase = .finishing) (hone : s.acceptances = [a]) (hfits : stage.Fits s a) :
    Agrees s ([] ++ [stage] ++ []) := by
  unfold Agrees
  rw [hphase]
  exact ⟨a, stage, hone, rfl, hfits⟩

theorem reapOnce_quiet (s : Shared) (hreaps : s.reaps = if s.reaped then 1 else 0) :
    Quiet s s.reapOnce.1 := by
  obtain ⟨hreaped, -, hphase, hacc, hspawns, hready, hclose⟩ := reapOnce_spec s hreaps
  exact ⟨hphase, hacc, hspawns, fun _ => hreaped, Or.inr ⟨hready, hclose⟩⟩

/-! ### The driver's steps -/

/-- Between stages of the close sequence the phase stays, and the driver goes on alone. -/
theorem Moved.driven {s s' : Shared} {a : Acceptance} {caller : Nat} {stage' : Stage}
    (hphase : s.phase = .finishing) (hphase' : s'.phase = .finishing) (hone : s.acceptances = [a])
    (hone' : s'.acceptances = [a]) (hreaped : s.reaped = true → s'.reaped = true)
    (hreaps : s'.reaps = if s'.reaped then 1 else 0) (hfits : stage'.Fits s' a) :
    Moved s s' caller (.driving stage') [] [] where
  onward := by
    refine ⟨fun _ => by rw [hone', hone], hreaped, fun completion hfinished => ?_⟩
    rw [hphase] at hfinished
    cases hfinished
  reaps := hreaps
  agrees := Agrees.of_driver hphase' hone' hfits
  place := trivial

/-- Cleaning up only removes files. -/
theorem cleaned_spec (paths : List String) : ∀ s : Shared,
    let s' := paths.foldl (fun s path => s.write (.removed path)) s
    s'.phase = s.phase ∧ s'.reaped = s.reaped ∧ s'.acceptances = s.acceptances
      ∧ s'.spawns = s.spawns ∧ s'.reaps = s.reaps := by
  induction paths with
  | nil => exact fun s => ⟨rfl, rfl, rfl, rfl, rfl⟩
  | cons path paths ih =>
    intro s
    obtain ⟨hphase, hreaped, hacc, hspawns, hreaps⟩ := ih (s.write (.removed path))
    refine ⟨hphase, hreaped, hacc.trans ?_, hspawns.trans ?_, hreaps.trans ?_⟩
    · simp [Shared.acceptances, Shared.write, Event.acceptance?]
    · simp [Shared.spawns, Shared.write, Event.command?]
    · simp [Shared.reaps, Shared.write]

theorem Work.Of.hook_skipped {work : Work} {a : Acceptance} (h : work.Of a)
    (hskipped : work.skippedBeforeReady = true) : a.hook = none := by
  rw [h.2, Bool.and_eq_true, Bool.not_eq_true'] at hskipped
  rw [Acceptance.hook, hskipped.1]
  rfl

/-- One step of the close sequence. -/
theorem drive_moved {s : Shared} {caller : Nat} {before behind : List Stage} {stage : Stage}
    (answer : Answer) (hreaps : s.reaps = if s.reaped then 1 else 0)
    (hagrees : Agrees s (before ++ [stage] ++ behind)) :
    Moved s (drive s answer stage).1 caller (drive s answer stage).2 before behind := by
  obtain ⟨hphase, rfl, rfl, a, hone, hfits⟩ := hagrees.driver
  cases stage with
  | quiescing work =>
    obtain ⟨hreaped, hcount, hphase', hacc, hspawns, -, -⟩ := reapOnce_spec s hreaps
    refine Moved.driven hphase (hphase'.trans hphase) hone (hacc.trans hone) (fun _ => hreaped) ?_ ?_
    · exact hcount.trans (if_pos hreaped).symm
    · have hrest : work.Of a ∧ s.reapOnce.1.spawns = [] ∧ s.reapOnce.1.reaped = true :=
        ⟨hfits.1, hspawns.trans hfits.2, hreaped⟩
      change Stage.Fits s.reapOnce.1 a (if s.reapOnce.2 then .reaping work else .cleaning work)
      split
      · exact hrest
      · exact hrest
  | reaping work => exact Moved.driven hphase hphase hone hone id hreaps hfits
  | cleaning work =>
    obtain ⟨hphase', hreaped, hacc, hspawns, hcount⟩ := cleaned_spec work.cleanupPaths s
    refine Moved.driven hphase (hphase'.trans hphase) hone (hacc.trans hone) (fun h => hreaped.trans h)
      ?_ ⟨hfits.1, hspawns.trans hfits.2.1, hreaped.trans hfits.2.2⟩
    rw [if_pos hfits.2.2] at hreaps
    exact (hcount.trans hreaps).trans (if_pos (hreaped.trans hfits.2.2)).symm
  | hooking work =>
    obtain ⟨hwork, hspawns, hreaped⟩ := hfits
    have hreason : work.requested.reason = a.reason := by rw [hwork.1]
    have hhook : work.requested.hook = a.hook := by rw [hwork.1]
    unfold drive
    dsimp only
    split
    · next hskipped =>
      refine Moved.driven hphase hphase hone hone id hreaps ⟨hreason, ?_, hreaped⟩
      rw [hspawns, hwork.hook_skipped hskipped]
      rfl
    · split
      · next hnone =>
        refine Moved.driven hphase hphase hone hone id hreaps ⟨hreason, ?_, hreaped⟩
        rw [hspawns, ← hhook, hnone]
        rfl
      · next command hcommand =>
        have hspawned : (s.write (.spawned command)).spawns = a.hook.toList := by
          rw [← hhook, hcommand]
          simp only [Shared.spawns, Shared.write, List.filterMap_append] at hspawns ⊢
          rw [hspawns]
          rfl
        have hacc : (s.write (.spawned command)).acceptances = [a] := by
          rw [← hone]
          simp [Shared.acceptances, Shared.write, Event.acceptance?]
        have hcount : (s.write (.spawned command)).reaps = s.reaps := by
          simp [Shared.reaps, Shared.write]
        refine Moved.driven hphase hphase hone hacc id (hcount.trans hreaps) ?_
        cases answer.spawnError with
        | some error => exact ⟨hreason, hspawned, hreaped⟩
        | none => exact ⟨hwork, hspawned, hreaped⟩
  | polling work =>
    obtain ⟨hwork, hspawns, hreaped⟩ := hfits
    have hreason : work.requested.reason = a.reason := by rw [hwork.1]
    refine Moved.driven hphase hphase hone hone id hreaps ?_
    unfold pollHook
    dsimp only
    -- every outcome but a pending one publishes the frozen reason
    split
    · exact ⟨hreason, hspawns, hreaped⟩
    · split
      · exact ⟨hreason, hspawns, hreaped⟩
      · exact ⟨hreason, hspawns, hreaped⟩
      · exact ⟨hreason, hspawns, hreaped⟩
      · exact ⟨hreason, hspawns, hreaped⟩
      · exact ⟨hwork, hspawns, hreaped⟩
  | publishing completion =>
    obtain ⟨hreason, hspawns, hreaped⟩ := hfits
    refine ⟨⟨fun _ => rfl, id, fun completion' hfinished => ?_⟩, hreaps, ?_, rfl⟩
    · rw [hphase] at hfinished
      cases hfinished
    · exact ⟨a, hone, hreason, hspawns, hreaped, rfl⟩

/-! ### Every call's steps -/

/-- A step that does not drive, on a state that only changed quietly. -/
theorem Moved.quiet {s s' : Shared} {caller : Nat} {place' : Place} {before behind : List Stage}
    (h : Quiet s s') (hreaps : s'.reaps = if s'.reaped then 1 else 0)
    (hagrees : Agrees s (before ++ [] ++ behind)) (hstage : place'.stage? = none)
    (hplace : place'.Fits s' caller) : Moved s s' caller place' before behind where
  onward := h.onward
  reaps := hreaps
  agrees := by
    rw [hstage]
    exact h.agrees hagrees
  place := hplace

/-- Nothing has been accepted exactly as long as the coordinator runs. -/
theorem Agrees.running {s : Shared} {stages : List Stage} (h : Agrees s stages)
    (hphase : s.phase = .running) : s.acceptances = [] ∧ s.spawns = [] ∧ stages = [] := by
  unfold Agrees at h
  rwa [hphase] at h

/-- Taking up a reason: the coordinator runs no longer, and this call is the one accepted. -/
theorem accept_onward {s : Shared} {stages : List Stage} (caller : Nat) (reason : ShutdownReason)
    (phase : Phase) (hagrees : Agrees s stages) (hphase : s.phase = .running) :
    Onward s (s.accept caller reason phase) := by
  refine ⟨fun hne => absurd (hagrees.running hphase).1 hne, id, fun completion hfinished => ?_⟩
  rw [hphase] at hfinished
  cases hfinished

theorem request_moved {s : Shared} {caller : Nat} {before behind : List Stage}
    (reason : ShutdownReason) (hreaps : s.reaps = if s.reaped then 1 else 0)
    (hagrees : Agrees s (before ++ [] ++ behind)) :
    Moved s (s.request caller reason).1 caller
      (if (s.request caller reason).2 then .quiescing else .returned (.first false))
      before behind := by
  unfold Shared.request
  split
  · next hphase =>
    -- the first request
    obtain ⟨hnone, hspawns, hstages⟩ := hagrees.running hphase
    have hone : (s.accept caller reason (.requested ⟨reason, s.hook⟩)).acceptances
        = [⟨caller, reason, s.ready, s.committedClose⟩] := by
      rw [acceptances_accept, hnone, List.nil_append]
    refine ⟨accept_onward caller reason _ hagrees hphase, ?_, ?_, ?_⟩
    · rw [reaps_accept]
      exact hreaps
    · exact ⟨_, hone, rfl, rfl, rfl, (spawns_accept ..).trans hspawns, hstages⟩
    · change List.map _ _ = _
      rw [hone]
      rfl
  · -- a later one at most hurries the hook
    refine Moved.quiet ?_ ?_ hagrees rfl trivial
    · dsimp only
      split <;> exact ⟨rfl, rfl, rfl, id, Or.inr ⟨rfl, rfl⟩⟩
    · dsimp only
      split <;> exact hreaps

theorem enterFinish_moved {s s' : Shared} {caller : Nat} {place' : Place}
    {before behind : List Stage} (hreaps : s.reaps = if s.reaped then 1 else 0)
    (hagrees : Agrees s (before ++ [] ++ behind)) (h : enterFinish s caller = some (s', place')) :
    Moved s s' caller place' before behind := by
  unfold enterFinish at h
  split at h
  · next hphase =>
    -- nothing was requested: the close is a normal one
    cases h
    obtain ⟨hnone, hspawns, hstages⟩ := hagrees.running hphase
    have hone : (s.accept caller .normal .finishing).acceptances
        = [⟨caller, .normal, s.ready, s.committedClose⟩] := by
      rw [acceptances_accept, hnone, List.nil_append]
    rw [List.append_nil, List.append_eq_nil_iff] at hstages
    obtain ⟨rfl, rfl⟩ := hstages
    refine ⟨accept_onward caller _ _ hagrees hphase, ?_, ?_, trivial⟩
    · rw [reaps_accept]
      exact hreaps
    · exact Agrees.of_driver rfl hone ⟨⟨rfl, rfl⟩, (spawns_accept ..).trans hspawns⟩
  · next requested hphase =>
    cases h
    have hopen := hagrees
    unfold Agrees at hopen
    rw [hphase] at hopen
    obtain ⟨a, hone, rfl, hready, hclose, hspawns, hstages⟩ := hopen
    rw [List.append_nil, List.append_eq_nil_iff] at hstages
    obtain ⟨rfl, rfl⟩ := hstages
    refine ⟨⟨fun _ => rfl, id, fun completion hfinished => ?_⟩, hreaps, ?_, trivial⟩
    · rw [hphase] at hfinished
      cases hfinished
    · refine Agrees.of_driver rfl hone ⟨⟨rfl, ?_⟩, hspawns⟩
      rw [hready, hclose]
      rfl
  · cases h
  · next completion hphase =>
    cases h
    exact Moved.quiet ⟨rfl, rfl, rfl, id, Or.inr ⟨rfl, rfl⟩⟩ hreaps hagrees rfl hphase

/-- Step lemma for one call. -/
theorem advance_moved {s s' : Shared} {caller : Nat} {answer : Answer} {place place' : Place}
    {before behind : List Stage} (hreaps : s.reaps = if s.reaped then 1 else 0)
    (hagrees : Agrees s (before ++ place.stage?.toList ++ behind)) (hplace : place.Fits s caller)
    (h : advance s caller answer place = some (s', place')) :
    Moved s s' caller place' before behind := by
  match place, hagrees, hplace, h with
  | .calling .markReady, hagrees, _, h =>
    cases h
    refine Moved.quiet ?_ ?_ hagrees rfl trivial
    · unfold Shared.markReady
      split
      · next hphase => exact ⟨rfl, rfl, rfl, id, Or.inl hphase⟩
      · exact ⟨rfl, rfl, rfl, id, Or.inr ⟨rfl, rfl⟩⟩
    · unfold Shared.markReady
      split <;> exact hreaps
  | .calling (.updateHooks hooks), hagrees, _, h =>
    cases h
    refine Moved.quiet ?_ ?_ hagrees rfl trivial
    · unfold Shared.updateHooks
      split
      · next hphase => exact ⟨rfl, rfl, rfl, id, Or.inl hphase⟩
      · exact ⟨rfl, rfl, rfl, id, Or.inr ⟨rfl, rfl⟩⟩
    · unfold Shared.updateHooks
      split <;> exact hreaps
  | .calling (.setCleanupPaths paths), hagrees, _, h =>
    cases h
    exact Moved.quiet ⟨rfl, rfl, rfl, id, Or.inr ⟨rfl, rfl⟩⟩ hreaps hagrees rfl trivial
  | .calling (.request reason), hagrees, _, h =>
    cases h
    exact request_moved reason hreaps hagrees
  | .calling .finish, hagrees, _, h => exact enterFinish_moved hreaps hagrees h
  | .quiescing, hagrees, hplace, h =>
    cases h
    obtain ⟨hreaped, hcount, -, hacc, -⟩ := reapOnce_spec s hreaps
    have hone : s.reapOnce.1.acceptances.map Acceptance.caller = [caller] := by
      rw [hacc]
      exact hplace
    refine Moved.quiet (reapOnce_quiet s hreaps) (hcount.trans (if_pos hreaped).symm) hagrees ?_ ?_
    · split <;> rfl
    · split <;> exact ⟨hone, hreaped⟩
  | .reaping, hagrees, hplace, h =>
    cases h
    exact Moved.quiet ⟨rfl, rfl, rfl, id, Or.inr ⟨rfl, rfl⟩⟩ hreaps hagrees rfl hplace
  | .driving stage, hagrees, _, h =>
    have hmoved : Moved s _ caller _ before behind := drive_moved answer hreaps hagrees
    rwa [show drive s answer stage = (s', place') from Option.some.inj h] at hmoved

/-! ### Whole runs -/

/-- Step lemma: whatever call moves, the coordinator stays sound. -/
theorem Sound.step {s s' : State} {label : Label} (h : Sound s)
    (hstep : ShutdownCoordinator.step s label = some s') :
    Sound s' ∧ Onward s.shared s'.shared := by
  cases label with
  | call call =>
    cases hstep
    refine ⟨⟨h.reaps, ?_, ?_⟩, Onward.refl _⟩
    · have hdrivers : drivers (s.callers ++ [.calling call]) = drivers s.callers := by
        simp [drivers, Place.stage?]
      rw [hdrivers]
      exact h.agrees
    · intro i place hi
      rcases Nat.lt_or_ge i s.callers.length with hlt | hge
      · rw [List.getElem?_append_left hlt] at hi
        exact h.places i place hi
      · rw [List.getElem?_append_right hge] at hi
        have hmem := List.mem_of_getElem? hi
        rw [List.mem_singleton.mp hmem]
        trivial
  | move i answer =>
    obtain ⟨place, hplace, hrest⟩ := Option.bind_eq_some_iff.mp hstep
    obtain ⟨⟨shared, place'⟩, hadvance, hstate⟩ := Option.bind_eq_some_iff.mp hrest
    cases hstate
    obtain ⟨before, behind, hsplit, hset, -⟩ := Machine.exists_split hplace
    have hdrivers : ∀ p : Place, drivers (before ++ p :: behind)
        = drivers before ++ p.stage?.toList ++ drivers behind := by
      intro p
      unfold drivers
      rw [List.filterMap_append, List.filterMap_cons, List.append_assoc]
      cases p.stage? <;> rfl
    have hagrees := h.agrees
    rw [hsplit, hdrivers place] at hagrees
    have hmoved := advance_moved h.reaps hagrees (h.places i place hplace) hadvance
    refine ⟨⟨hmoved.reaps, ?_, ?_⟩, hmoved.onward⟩
    · change Agrees shared (drivers (s.callers.set i place'))
      rw [hset place', hdrivers place']
      exact hmoved.agrees
    · intro j other hj
      change (s.callers.set i place')[j]? = some other at hj
      by_cases hij : i = j
      · subst hij
        rw [List.getElem?_set_self (List.getElem?_eq_some_iff.mp hplace).1] at hj
        cases hj
        exact hmoved.place
      · rw [List.getElem?_set_ne hij] at hj
        exact (h.places j other hj).onward hmoved.onward

theorem sound_init (hooks : Option String) : Sound (init hooks) := by
  refine ⟨rfl, ⟨rfl, rfl, rfl⟩, ?_⟩
  intro i place h
  cases h

/-- Run lemma: sound at the end, and nothing of the start taken back. -/
theorem Sound.after (ls : List Label) : ∀ {s s' : State}, Sound s →
    Machine.after ShutdownCoordinator.step s ls = some s' → Sound s' ∧ Onward s.shared s'.shared := by
  induction ls with
  | nil =>
    rintro s s' h hafter
    cases hafter
    exact ⟨h, Onward.refl _⟩
  | cons l ls ih =>
    rintro s s' h hafter
    obtain ⟨t, hl, hrest⟩ := Option.bind_eq_some_iff.mp hafter
    obtain ⟨ht, honward⟩ := h.step hl
    obtain ⟨hs', honward'⟩ := ih ht hrest
    exact ⟨hs', honward.trans honward'⟩

end ShutdownCoordinator

end Funzzy
