import Funzzy.Await.Conveyance

/-! When an await may say `Current`.

    The coordinator learns of a generation when its Started event is observed, not when it is scheduled,
    and of a batch when the handler notes it, not when it is received. `Timely` keeps answers out of
    these two windows; outside them `Current` means that nothing newer is under way. -/

namespace Funzzy

variable {W : Type}

/-- The generations between their dispatch and the observation of their Started event. -/
def Hub.unseen (h : Hub W) : List Nat := h.worker.waiting ++ begunOf h.consumer.unobserved

/-- No answer is built while a generation stands between its dispatch and the observation of its Started
    event, or a batch between its receipt and `note_batch`. -/
def Hub.Timely (h : Hub W) : HubLabel → Prop
  | .answer _ => h.unseen = [] ∧ ∀ batchId, h.batch ≠ .received batchId
  | _ => True

instance (h : Hub W) : ∀ l : HubLabel, Decidable (h.Timely l)
  | .answer _ =>
    match hbatch : h.batch with
    | .received batchId => isFalse fun htimely => htimely.2 batchId hbatch
    | .idle | .noted | .routed _ =>
      decidable_of_iff (h.unseen = []) ⟨fun hunseen => ⟨hunseen, by simp [hbatch]⟩, fun htimely => htimely.1⟩
  | .worker _ | .callback _ | .client _ | .receive _ | .note | .unchanged | .route _ | .complete =>
    inferInstanceAs (Decidable True)

/-- What the coordinator knows. -/
structure Hub.Informed (h : Hub W) : Prop where
  latest : ∀ id ∈ begunOf h.coordinator.observed, id ≤ h.coordinator.inner.latestGeneration
  noted : h.batch = .noted → h.coordinator.inner.pendingWork.debounceActive = true

/-- Nothing newer than what the answer shows is scheduled, and no batch waits. -/
def Answered.Fresh (a : Answered) : Prop :=
  a.result.freshness = .current →
    (∀ id ∈ a.outstanding, id ≤ a.result.snapshot.generation) ∧ a.batch.waits = false

theorem AwaitInner.observe_latest (inner : AwaitInner) (e : Event) :
    inner.latestGeneration ≤ (inner.observe e).latestGeneration ∧
      (∀ id, e.begun? = some id → id ≤ (inner.observe e).latestGeneration) ∧
      (inner.observe e).pendingWork = inner.pendingWork := by
  cases e with
  | started metadata commands =>
    refine ⟨le_max_left _ _, fun id hid => ?_, rfl⟩
    cases hid
    exact le_max_right _ _
  | finished | cancelled =>
    refine ⟨?_, fun id hid => (by cases hid), rfl⟩
    exact (le_max_left _ _).trans (le_max_left _ _)
  | tick | taskTerminal | recoveryPhase => exact ⟨le_refl _, fun id hid => (by cases hid), rfl⟩

theorem Proceeds.informed {ex : LawfulExecutor} {env : Env W} {h h' : Hub W} {l : HubLabel}
    (hstep : Proceeds ex env h l h') (hs : h.Informed) : h'.Informed := by
  cases hstep with
  | worked l worker =>
    cases l <;> exact ⟨hs.latest, hs.noted⟩
  | recorded thread | published thread =>
    cases thread <;> exact ⟨hs.latest, hs.noted⟩
  | applied thread =>
    cases thread <;> exact ⟨hs.latest, hs.noted⟩
  | observed thread e rest hlane =>
    obtain ⟨hmono, hbegun, hpending⟩ := h.coordinator.inner.observe_latest e
    have hlatest : ∀ id ∈ begunOf (h.coordinator.observe e).observed,
        id ≤ (h.coordinator.observe e).inner.latestGeneration := by
      intro id hid
      rw [Coordinator.observe, begunOf_append, List.mem_append] at hid
      rcases hid with hid | hid
      · exact (hs.latest id hid).trans hmono
      · refine hbegun id ?_
        obtain ⟨x, hx, hid⟩ := List.mem_filterMap.mp hid
        rwa [List.mem_singleton.mp hx] at hid
    have hnoted : h.batch = .noted →
        (h.coordinator.observe e).inner.pendingWork.debounceActive = true := by
      intro hbatch
      rw [Coordinator.observe, hpending]
      exact hs.noted hbatch
    cases thread <;> exact ⟨hlatest, hnoted⟩
  | asked l c hc hkept =>
    refine ⟨?_, ?_⟩
    · rw [hkept.1, hkept.2]
      exact hs.latest
    · rw [hkept.1]
      exact hs.noted
  | answered i c mode seen reason generation hi hc hkept =>
    refine ⟨?_, ?_⟩
    · rw [hkept.1, hkept.2]
      exact hs.latest
    · rw [hkept.1]
      exact hs.noted
  | received | unchanged | unmatched => exact ⟨hs.latest, by simp⟩
  | routed => exact ⟨hs.latest, by simp⟩
  | noted batchId c hbatch hc heq =>
    rw [heq]
    exact ⟨hs.latest, fun _ => rfl⟩
  | completed request c hbatch hc heq =>
    rw [heq]
    exact ⟨hs.latest, by simp⟩

theorem Hub.initial_informed (world : W) : (Hub.initial world).Informed :=
  ⟨by simp [Hub.initial, begunOf], by simp [Hub.initial]⟩

/-- An answer built outside the windows. -/
theorem Hub.answer_fresh {failFast : Bool} {h : Hub W} {i : Nat} (hs : h.Conveyed failFast)
    (hinformed : h.Informed) (htimely : h.Timely (.answer i)) (reason : TerminalReason)
    (generation : Option Nat) :
    Answered.Fresh
      { result := h.coordinator.inner.build h.state reason generation
        generation
        outstanding := h.worker.waiting ++ h.worker.running
        batch := h.batch
        emitted := h.emitted } := by
  intro hcurrent
  have hclassified : classify h.state h.coordinator.inner.latestGeneration
      h.coordinator.inner.pendingWork = .current := hcurrent
  unfold classify at hclassified
  split at hclassified
  · rename_i hall
    obtain ⟨hlatest, hterminal, hempty⟩ := hall
    obtain ⟨hwindow, hreceived⟩ := htimely
    obtain ⟨hwaiting, hunobserved⟩ := List.append_eq_nil_iff.mp hwindow
    refine ⟨?_, ?_⟩
    · intro id hid
      have hshown : (h.coordinator.inner.build h.state reason generation).snapshot = h.state := rfl
      rw [hshown, hlatest]
      rcases List.mem_append.mp hid with hid | hid
      · rw [hwaiting] at hid
        cases hid
      · -- the Started event of what runs has been observed
        have hbegun := List.mem_of_getLast? (hs.streams.running id hid)
        rw [← hs.streams.begun] at hbegun
        obtain ⟨metadata, commands, hevent, rfl⟩ := mem_begunOf.mp hbegun
        rcases hs.seen _ hevent with hobserved | hmem
        · exact hinformed.latest _ (mem_begunOf.mpr ⟨metadata, commands, hobserved, rfl⟩)
        · have hopen := mem_begunOf.mpr ⟨metadata, commands, hmem, rfl⟩
          rw [hunobserved] at hopen
          cases hopen
    · -- a batch that waits has been noted, and then it is pending
      cases hbatch : h.batch with
      | idle | routed => simp [BatchPc.waits]
      | received batchId => exact absurd hbatch (hreceived batchId)
      | noted =>
        have hactive := hinformed.noted hbatch
        simp [PendingWork.isEmpty, hactive] at hempty
  · split at hclassified <;> cases hclassified

/-- In every run that answers outside the windows, whatever is reported as current is: nothing newer is
    queued or active, and no received batch waits to be routed. -/
theorem Hub.current_fresh (ex : LawfulExecutor) (env : Env W) (world : W) (labels : List HubLabel)
    (htimely : Machine.Meets (Hub.step ex env) Hub.Timely (Hub.initial world) labels)
    (h : Hub W) (hrun : Machine.after (Hub.step ex env) (Hub.initial world) labels = some h) :
    ∀ a ∈ h.answers, a.result.freshness = .current →
      (∀ id ∈ a.outstanding, id ≤ a.result.snapshot.generation) ∧ a.batch.waits = false := by
  have hinvariant := Machine.invariant (Hub.step ex env)
    (I := fun h => h.Conveyed ex.failFast ∧ h.Informed ∧ ∀ a ∈ h.answers, a.Fresh)
    (fun h l h' hs htimely hstep => by
      obtain ⟨hconveyed, hinformed, hfresh⟩ := hs
      have hproceeds := Hub.step_proceeds hstep
      refine ⟨hproceeds.conveyed hconveyed, hproceeds.informed hinformed, ?_⟩
      rcases hproceeds.answers with hsame | ⟨i, mode, seen, reason, generation, rfl, -, hanswers⟩
      · rw [hsame]
        exact hfresh
      · rw [hanswers]
        intro a ha
        rcases List.mem_append.mp ha with ha | ha
        · exact hfresh a ha
        · rw [List.mem_singleton.mp ha]
          exact Hub.answer_fresh hconveyed hinformed htimely reason generation)
    labels (Hub.initial world) h
    ⟨Hub.initial_conveyed ex.failFast world, Hub.initial_informed world, by simp [Hub.initial]⟩
    htimely hrun
  exact hinvariant.2.2

/-- A generation is awaited after its end: the answer is current, and nothing else is under way. -/
theorem Hub.current_fresh_at_passed :
    ∃ h, Machine.after (Hub.step {} (steadyEnv fun _ => some ⟨some 0, "exit status: 0"⟩))
        (Hub.initial ()) (concluded "build" ++ awaited 1) = some h ∧
      (h.answers.map fun a => a.result.freshness) = [.current] ∧
      ∀ a ∈ h.answers, a.result.freshness = .current →
        (∀ id ∈ a.outstanding, id ≤ a.result.snapshot.generation) ∧ a.batch.waits = false :=
  ⟨_, rfl, by decide, Hub.current_fresh {} (steadyEnv fun _ => some ⟨some 0, "exit status: 0"⟩) ()
    (concluded "build" ++ awaited 1) (by decide) _ rfl⟩

/-- A second generation is queued and the first, which has passed, is reported as current. -/
theorem Hub.current_stale :
    ∃ h, Machine.after (Hub.step {} (steadyEnv fun _ => some ⟨some 0, "exit status: 0"⟩))
        (Hub.initial ()) (concluded "build" ++ (scheduled "test").map .worker ++ awaited 1) = some h ∧
      ¬∀ a ∈ h.answers, a.result.freshness = .current →
        (∀ id ∈ a.outstanding, id ≤ a.result.snapshot.generation) ∧ a.batch.waits = false :=
  ⟨_, rfl, by decide⟩

end Funzzy
