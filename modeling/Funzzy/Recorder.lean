import Funzzy.Durations
import Funzzy.Await.Conveyance

/-! The duration recorder in full, `duration_recorder.rs`: run ids associated with the signatures they
    started under, the outcome of each run handed to the history, and the estimates frozen at the starts.

    Notices are the worker's events and the timeouts an await reports. An association is consumed by the
    first notice that settles its run, so a run gives the history one outcome as long as it is started
    once, and a worker starts no generation twice. The events may otherwise be dropped, repeated or
    reordered on their way. -/

namespace Funzzy

variable {W : Type}

/-! ### The recorder -/

/-- `MAX_CAPTURED_ESTIMATES` -/
def maxCapturedEstimates : Nat := 256

/-- What reaches the recorder. -/
inductive Notice where
  | event (e : Event)
  | timeout (runId : Nat)

def Notice.event? : Notice → Option Event
  | .event e => some e
  | .timeout _ => none

structure Recorder where
  history : DurationHistory
  associations : SortedMap Nat String
  capturedEstimates : SortedMap Nat RunEstimate

namespace Recorder

/-- A recorder on the history the store has loaded. -/
def new (loaded : DurationHistory) : Recorder := ⟨loaded, SortedMap.empty, SortedMap.empty⟩

/-- A target run starts: the estimate is frozen and the run associated with its signature. -/
def associate (r : Recorder) (runId : Nat) (signature : String) : Recorder :=
  { r with
    capturedEstimates := match r.history.estimate signature none with
      | none => r.capturedEstimates
      | some estimate => r.capturedEstimates.insertBounded maxCapturedEstimates runId estimate
    associations := r.associations.insertBounded maxAssociations runId signature }

/-- The association of a run is removed and its sample recorded; without one nothing happens. -/
def settle (r : Recorder) (runId : Nat) (sample : Sample) : Recorder :=
  match r.associations.get? runId with
  | none => r
  | some signature =>
    { r with
      history := r.history.recording (signature, sample)
      associations := r.associations.erase runId }

def observe (r : Recorder) : Event → Recorder
  | .started metadata _ =>
    match metadata.executionSignature with
    | none => r
    | some signature => r.associate metadata.runId signature
  | .finished runId supersededBy elapsed failures =>
    r.settle runId (finishedSample supersededBy elapsed failures)
  | .cancelled runId supersededBy => r.settle runId (cancelledSample supersededBy)
  | .tick _ _ | .taskTerminal _ _ | .recoveryPhase _ _ _ _ => r

def noteTimeout (r : Recorder) (runId : Nat) : Recorder := r.settle runId (.excluded .timedOut)

def estimateAtStart (r : Recorder) (runId : Nat) : Option RunEstimate := r.capturedEstimates.get? runId

def notice (r : Recorder) : Notice → Recorder
  | .event e => r.observe e
  | .timeout runId => r.noteTimeout runId

/-- The recorder after a sequence of notices. -/
def noticed (r : Recorder) (notices : List Notice) : Recorder := notices.foldl notice r

/-- A recorder on a loaded history, and what the listener that only keeps the calls has made of the same
    events: one set of associations, and the calls made into the history. -/
structure Mirrors (loaded : DurationHistory) (d : DurationRecorder) (r : Recorder) : Prop where
  associations : r.associations = d.associations
  history : r.history = d.history.foldl DurationHistory.recording loaded

theorem Mirrors.settle {loaded : DurationHistory} {d : DurationRecorder} {r : Recorder}
    (h : Mirrors loaded d r) (runId : Nat) (sample : Sample) :
    Mirrors loaded (d.settle runId sample) (r.settle runId sample) := by
  rw [DurationRecorder.settle, Recorder.settle, h.associations]
  cases d.associations.get? runId with
  | none => exact h
  | some signature =>
    refine ⟨rfl, ?_⟩
    rw [List.foldl_append, ← h.history]
    rfl

/-- Step lemma: an event keeps them so. -/
theorem Mirrors.observe {loaded : DurationHistory} {d : DurationRecorder} {r : Recorder}
    (h : Mirrors loaded d r) (e : Event) : Mirrors loaded (d.observe e) (r.observe e) := by
  cases e with
  | started metadata commands =>
    rw [DurationRecorder.observe, Recorder.observe]
    cases metadata.executionSignature with
    | none => exact h
    | some signature =>
      refine ⟨?_, h.history⟩
      exact congrArg (SortedMap.insertBounded · maxAssociations metadata.runId signature) h.associations
  | finished runId supersededBy elapsed failures => exact h.settle runId _
  | cancelled runId supersededBy => exact h.settle runId _
  | tick | taskTerminal | recoveryPhase => exact h

/-- Run lemma: what the worker's listener keeps is the recorder's part of the same events. -/
theorem noticed_mirrors (loaded : DurationHistory) (events : List Event) :
    Mirrors loaded (events.foldl DurationRecorder.observe {}) ((new loaded).noticed (events.map .event)) := by
  suffices hrun : ∀ (d : DurationRecorder) (r : Recorder), Mirrors loaded d r →
      Mirrors loaded (events.foldl DurationRecorder.observe d) (r.noticed (events.map .event)) from
    hrun {} (new loaded) ⟨rfl, rfl⟩
  induction events with
  | nil => exact fun d r h => h
  | cons e events ih => exact fun d r h => ih (d.observe e) (r.observe e) (h.observe e)

end Recorder

/-! ### What is recorded -/

/-- One outcome given to the history, with the run it stems from. -/
structure Recorded where
  runId : Nat
  signature : String
  sample : Sample
  deriving DecidableEq

def Recorded.call (o : Recorded) : String × Sample := (o.signature, o.sample)

/-- The run a notice settles, and as what. -/
def Notice.settles? : Notice → Option (Nat × Sample)
  | .event (.finished runId supersededBy elapsed failures) =>
    some (runId, finishedSample supersededBy elapsed failures)
  | .event (.cancelled runId supersededBy) => some (runId, cancelledSample supersededBy)
  | .timeout runId => some (runId, .excluded .timedOut)
  | .event _ => none

/-- The run a notice starts, with its signature. -/
def Notice.starts? : Notice → Option (Nat × String)
  | .event (.started metadata _) => metadata.executionSignature.map fun signature =>
      (metadata.runId, signature)
  | _ => none

namespace Recorder

/-- The outcome a notice gives to the history. -/
def outcome? (r : Recorder) (n : Notice) : Option Recorded :=
  match n.settles? with
  | none => none
  | some (runId, sample) => (r.associations.get? runId).map fun signature => ⟨runId, signature, sample⟩

/-- The outcomes of a sequence of notices. -/
def outcomes : Recorder → List Notice → List Recorded
  | _, [] => []
  | r, n :: notices => (r.outcome? n).toList ++ (r.notice n).outcomes notices

theorem outcomes_append (notices notices' : List Notice) :
    ∀ r : Recorder, r.outcomes (notices ++ notices')
      = r.outcomes notices ++ (r.noticed notices).outcomes notices' := by
  induction notices with
  | nil => exact fun r => rfl
  | cons n notices ih =>
    intro r
    rw [List.cons_append, outcomes, ih, outcomes, List.append_assoc]
    rfl

theorem outcomes_concat (r : Recorder) (notices : List Notice) (n : Notice) :
    r.outcomes (notices ++ [n])
      = r.outcomes notices ++ ((r.noticed notices).outcome? n).toList := by
  rw [outcomes_append, outcomes, outcomes, List.append_nil]

theorem noticed_concat (r : Recorder) (notices : List Notice) (n : Notice) :
    r.noticed (notices ++ [n]) = (r.noticed notices).notice n := by
  simp [noticed]

/-- What one notice does: it starts a run, settles one that is associated, or leaves the recorder
    alone. -/
inductive Notes (r : Recorder) (n : Notice) : Recorder → Option Recorded → Prop
  | started (runId : Nat) (signature : String) : n.starts? = some (runId, signature) →
      Notes r n (r.associate runId signature) none
  | settled (runId : Nat) (sample : Sample) (signature : String) : n.starts? = none →
      n.settles? = some (runId, sample) → r.associations.get? runId = some signature →
      Notes r n
        { r with
          history := r.history.recording (signature, sample)
          associations := r.associations.erase runId }
        (some ⟨runId, signature, sample⟩)
  | passed : n.starts? = none → Notes r n r none

theorem settle_notes (r : Recorder) {n : Notice} {runId : Nat} {sample : Sample}
    (hstarts : n.starts? = none) (hsettles : n.settles? = some (runId, sample)) :
    Notes r n (r.settle runId sample) (r.outcome? n) := by
  rw [settle, outcome?, hsettles]
  cases hfound : r.associations.get? runId with
  | none =>
    simp only [hfound, Option.map_none]
    exact .passed hstarts
  | some signature =>
    simp only [hfound, Option.map_some]
    exact .settled runId sample signature hstarts hsettles hfound

theorem notice_notes (r : Recorder) (n : Notice) : Notes r n (r.notice n) (r.outcome? n) := by
  cases n with
  | timeout runId => exact r.settle_notes rfl rfl
  | event e =>
    cases e with
    | started metadata commands =>
      cases hsignature : metadata.executionSignature with
      | none =>
        rw [notice, observe, hsignature]
        exact .passed (by rw [Notice.starts?, hsignature, Option.map_none])
      | some signature =>
        rw [notice, observe, hsignature]
        exact .started metadata.runId signature (by rw [Notice.starts?, hsignature, Option.map_some])
    | finished runId supersededBy elapsed failures => exact r.settle_notes rfl rfl
    | cancelled runId supersededBy => exact r.settle_notes rfl rfl
    | tick | taskTerminal | recoveryPhase => exact .passed rfl

/-! ### The invariant -/

/-- The runs started under a signature. -/
def startedBy (notices : List Notice) : List (Nat × String) := notices.filterMap Notice.starts?

/-- What the recorder holds after some notices: associations of runs that started and gave no outcome
    yet, and at most one outcome for each run that started. -/
structure Tracked (loaded : DurationHistory) (notices : List Notice) : Prop where
  associated : ∀ runId signature,
    ((new loaded).noticed notices).associations.get? runId = some signature →
      (runId, signature) ∈ startedBy notices
        ∧ runId ∉ ((new loaded).outcomes notices).map Recorded.runId
  captured : ∀ runId estimate,
    ((new loaded).noticed notices).capturedEstimates.get? runId = some estimate →
      ∃ signature, (runId, signature) ∈ startedBy notices
  outcome : ∀ o ∈ (new loaded).outcomes notices, (o.runId, o.signature) ∈ startedBy notices
    ∧ ∃ n ∈ notices, n.settles? = some (o.runId, o.sample)
  once : (((new loaded).outcomes notices).map Recorded.runId).Nodup

theorem startedBy_concat (notices : List Notice) (n : Notice) :
    startedBy (notices ++ [n]) = startedBy notices ++ n.starts?.toList := by
  rw [startedBy, List.filterMap_append]
  cases h : n.starts? <;> simp [startedBy, h]

theorem startedBy_mono {notices : List Notice} {start : Nat × String} (n : Notice)
    (h : start ∈ startedBy notices) : start ∈ startedBy (notices ++ [n]) := by
  rw [startedBy_concat]
  exact List.mem_append_left _ h

/-- Step lemma: a notice keeps the recorder tracked unless it starts a run once more. -/
theorem Tracked.concat {loaded : DurationHistory} {notices : List Notice} (h : Tracked loaded notices)
    (n : Notice) (hfresh : ∀ start, n.starts? = some start →
      start.1 ∉ (startedBy notices).map Prod.fst) : Tracked loaded (notices ++ [n]) := by
  have hnotes := ((new loaded).noticed notices).notice_notes n
  have houtcome : ∀ o ∈ (new loaded).outcomes notices,
      (o.runId, o.signature) ∈ startedBy (notices ++ [n])
        ∧ ∃ n' ∈ notices ++ [n], n'.settles? = some (o.runId, o.sample) := by
    intro o ho
    obtain ⟨hstarted, n', hn', hsettles⟩ := h.outcome o ho
    exact ⟨startedBy_mono n hstarted, n', List.mem_append_left _ hn', hsettles⟩
  have hcaptured : ∀ runId estimate,
      ((new loaded).noticed notices).capturedEstimates.get? runId = some estimate →
        ∃ signature, (runId, signature) ∈ startedBy (notices ++ [n]) := by
    intro runId estimate hget
    obtain ⟨signature, hmem⟩ := h.captured runId estimate hget
    exact ⟨signature, startedBy_mono n hmem⟩
  generalize hnext : ((new loaded).noticed notices).notice n = next at hnotes
  generalize hgiven : ((new loaded).noticed notices).outcome? n = given at hnotes
  cases hnotes with
  | started runId signature hstarts =>
    have hnew := hfresh _ hstarts
    have hmem : (runId, signature) ∈ startedBy (notices ++ [n]) := by
      rw [startedBy_concat, hstarts]
      exact List.mem_append_right _ (List.mem_singleton.mpr rfl)
    have hnone : runId ∉ ((new loaded).outcomes notices).map Recorded.runId := by
      intro hrun
      obtain ⟨o, ho, rfl⟩ := List.mem_map.mp hrun
      exact hnew (List.mem_map.mpr ⟨_, (h.outcome o ho).1, rfl⟩)
    refine ⟨?_, ?_, ?_, ?_⟩ <;> simp only [noticed_concat, outcomes_concat, hnext, hgiven,
      Option.toList_none, List.append_nil]
    · intro other found hget
      rcases SortedMap.get?_insertBounded hget with ⟨rfl, rfl⟩ | ⟨-, hold⟩
      · exact ⟨hmem, hnone⟩
      · obtain ⟨hin, hout⟩ := h.associated other found hold
        exact ⟨startedBy_mono n hin, hout⟩
    · intro other estimate hget
      rw [associate] at hget
      dsimp only at hget
      split at hget
      · exact hcaptured other estimate hget
      · rcases SortedMap.get?_insertBounded hget with ⟨rfl, -⟩ | ⟨-, hold⟩
        · exact ⟨signature, hmem⟩
        · exact hcaptured other estimate hold
    · exact houtcome
    · exact h.once
  | settled runId sample signature hstarts hsettles hfound =>
    obtain ⟨hin, hout⟩ := h.associated runId signature hfound
    refine ⟨?_, ?_, ?_, ?_⟩ <;> simp only [noticed_concat, outcomes_concat, hnext, hgiven,
      Option.toList_some]
    · intro other found hget
      rw [SortedMap.get?_erase] at hget
      split at hget
      · cases hget
      next hother =>
      obtain ⟨hstarted, hnot⟩ := h.associated other found hget
      refine ⟨startedBy_mono n hstarted, ?_⟩
      rw [List.map_append, List.mem_append]
      rintro (hold | hnow)
      · exact hnot hold
      · exact hother (by simpa using hnow)
    · exact hcaptured
    · intro o ho
      rcases List.mem_append.mp ho with ho | ho
      · exact houtcome o ho
      · rw [List.mem_singleton.mp ho]
        exact ⟨startedBy_mono n hin, n, List.mem_append_right _ (List.mem_singleton.mpr rfl), hsettles⟩
    · rw [List.map_append, List.map_singleton, ← List.concat_eq_append]
      exact h.once.concat hout
  | passed hstarts =>
    refine ⟨?_, ?_, ?_, ?_⟩ <;> simp only [noticed_concat, outcomes_concat, hnext, hgiven,
      Option.toList_none, List.append_nil]
    · intro other found hget
      obtain ⟨hin, hout⟩ := h.associated other found hget
      exact ⟨startedBy_mono n hin, hout⟩
    · exact hcaptured
    · exact houtcome
    · exact h.once

/-- Run lemma: while no run is started twice, the recorder stays tracked. -/
theorem tracked (loaded : DurationHistory) (notices : List Notice)
    (honce : ((startedBy notices).map Prod.fst).Nodup) : Tracked loaded notices := by
  induction notices using List.reverseRecOn with
  | nil =>
    refine ⟨?_, ?_, by simp [outcomes], by simp [outcomes]⟩ <;>
    · intro runId found hget
      cases hget
  | append_singleton notices n ih =>
    rw [startedBy_concat, List.map_append] at honce
    obtain ⟨hold, -, hdisjoint⟩ := List.nodup_append.mp honce
    refine (ih hold).concat n fun start hstart hmem => ?_
    exact hdisjoint _ hmem _ (List.mem_map.mpr ⟨start, by simp [hstart], rfl⟩) rfl

/-! ### What holds of every sequence of notices -/

/-- The history is what was loaded and the outcomes recorded since. -/
theorem noticed_history (loaded : DurationHistory) (notices : List Notice) :
    ((new loaded).noticed notices).history
      = (((new loaded).outcomes notices).map Recorded.call).foldl DurationHistory.recording loaded := by
  induction notices using List.reverseRecOn with
  | nil => rfl
  | append_singleton notices n ih =>
    rw [noticed_concat, outcomes_concat, List.map_append, List.foldl_append, ← ih]
    have hnotes := ((new loaded).noticed notices).notice_notes n
    generalize ((new loaded).noticed notices).notice n = next at hnotes ⊢
    generalize ((new loaded).noticed notices).outcome? n = given at hnotes ⊢
    cases hnotes with
    | started | settled | passed => rfl

theorem noticed_bounded (loaded : DurationHistory) (notices : List Notice) :
    ((new loaded).noticed notices).associations.entries.length ≤ maxAssociations
      ∧ ((new loaded).noticed notices).capturedEstimates.entries.length ≤ maxCapturedEstimates := by
  induction notices using List.reverseRecOn with
  | nil => exact ⟨Nat.zero_le _, Nat.zero_le _⟩
  | append_singleton notices n ih =>
    rw [noticed_concat]
    obtain ⟨hassociations, hcaptured⟩ := ih
    have hnotes := ((new loaded).noticed notices).notice_notes n
    generalize ((new loaded).noticed notices).notice n = next at hnotes ⊢
    generalize ((new loaded).noticed notices).outcome? n = given at hnotes
    cases hnotes with
    | started runId signature =>
      refine ⟨SortedMap.length_insertBounded _ _ (by decide) hassociations, ?_⟩
      rw [associate]
      dsimp only
      split
      · exact hcaptured
      · exact SortedMap.length_insertBounded _ _ (by decide) hcaptured
    | settled runId => exact ⟨(SortedMap.length_erase _ _).trans hassociations, hcaptured⟩
    | passed => exact ⟨hassociations, hcaptured⟩

/-- A notice that does not start the run leaves its estimate as it is, or evicts it. -/
theorem notice_estimateAtStart (r : Recorder) (n : Notice) {runId : Nat} {estimate : RunEstimate}
    (hother : ∀ start, n.starts? = some start → start.1 ≠ runId)
    (h : (r.notice n).estimateAtStart runId = some estimate) :
    r.estimateAtStart runId = some estimate := by
  have hnotes := r.notice_notes n
  generalize r.notice n = next at hnotes h
  generalize r.outcome? n = given at hnotes
  cases hnotes with
  | started started signature hstarts =>
    have hne := hother _ hstarts
    rw [estimateAtStart, associate] at h
    dsimp only at h
    split at h
    · exact h
    · rcases SortedMap.get?_insertBounded h with ⟨heq, -⟩ | ⟨-, hold⟩
      · exact absurd heq.symm hne
      · exact hold
  | settled | passed => exact h

theorem noticed_estimateAtStart (notices : List Notice) {runId : Nat} {estimate : RunEstimate} :
    ∀ r : Recorder, runId ∉ (startedBy notices).map Prod.fst →
      (r.noticed notices).estimateAtStart runId = some estimate →
      r.estimateAtStart runId = some estimate := by
  induction notices with
  | nil => exact fun r _ h => h
  | cons n notices ih =>
    intro r hnot h
    have hrest : runId ∉ (startedBy notices).map Prod.fst := by
      intro hmem
      obtain ⟨start, hstart, heq⟩ := List.mem_map.mp hmem
      obtain ⟨n', hn', hstarts⟩ := List.mem_filterMap.mp hstart
      exact hnot (List.mem_map.mpr
        ⟨start, List.mem_filterMap.mpr ⟨n', List.mem_cons_of_mem _ hn', hstarts⟩, heq⟩)
    refine r.notice_estimateAtStart n (fun start hstarts heq => ?_) (ih _ hrest h)
    exact hnot (List.mem_map.mpr
      ⟨start, List.mem_filterMap.mpr ⟨n, List.mem_cons_self, hstarts⟩, heq⟩)

end Recorder

/-! ### The worker's events -/

/-- Notices made of a worker's events: events may be dropped, repeated and reordered and timeouts may come
    at any time, but a run is not started more often than the worker started it. -/
def Fed (emitted : List Event) (notices : List Notice) : Prop :=
  (∀ e, Notice.event e ∈ notices → e ∈ emitted) ∧
    ∀ runId, (begunOf (notices.filterMap Notice.event?)).count runId ≤ (begunOf emitted).count runId

/-- The events as the worker emits them, with timeouts anywhere between them. -/
theorem Fed.of_events {emitted : List Event} {notices : List Notice}
    (h : notices.filterMap Notice.event? = emitted) : Fed emitted notices := by
  subst h
  exact ⟨fun e he => List.mem_filterMap.mpr ⟨_, he, rfl⟩, fun _ => Nat.le_refl _⟩

/-- A worker starts no generation twice. -/
theorem Happens.begun_nodup {ex : LawfulExecutor} {env : Env W} {s s' : State W} {l : Label}
    (h : Happens ex env s l s') (hcensus : Census ex.failFast s) (hheld : s.BegunHeld)
    (honce : s.begun.Nodup) : s'.begun.Nodup := by
  obtain ⟨events, hevents, hlife⟩ := h.lives hcensus.sound hcensus.shaped
  rw [State.begun, hevents, List.filterMap_append]
  cases hlife with
  | discarded m hm hrunning =>
    rw [discarded_not_begun, List.append_nil]
    exact honce
  | turn events hturn =>
    cases hturn with
    | begun metadata commands hnone hrunning hwaiting =>
      have hnew := hcensus.waiting_not_begun hheld hwaiting
      change (s.begun ++ [metadata.runId]).Nodup
      rw [← List.concat_eq_append]
      exact honce.concat hnew
    | quiet | finished | cancelled =>
      change (s.begun ++ []).Nodup
      rwa [List.append_nil]

/-- In every run of a worker each generation is started once at most and ended once at most. -/
theorem once_of_run {ex : LawfulExecutor} {env : Env W} {world : W} {labels : List Label} {s : State W}
    (h : Machine.after (State.step ex env) (State.initial world) labels = some s) :
    Census ex.failFast s ∧ s.begun.Nodup := by
  have hinv := Machine.invariant (State.step ex env)
    (I := fun s => Census ex.failFast s ∧ s.BegunHeld ∧ s.begun.Nodup)
    (fun s l s' ⟨hcensus, hheld, honce⟩ _ hstep =>
      have hhappens := step_happens hstep
      ⟨hhappens.census hcensus, (hhappens.lives hcensus.sound hcensus.shaped).begunHeld hheld,
        hhappens.begun_nodup hcensus hheld honce⟩)
    labels _ s ⟨State.initial_census ex.failFast world, (by intro id hid; cases hid), List.nodup_nil⟩
    (Machine.meets_true _ labels _) h
  exact ⟨hinv.1, hinv.2.2⟩

/-- The recorder's starts are the starts among the events. -/
theorem startedBy_sublist (notices : List Notice) :
    ((Recorder.startedBy notices).map Prod.fst).Sublist
      (begunOf (notices.filterMap Notice.event?)) := by
  induction notices with
  | nil => exact List.Sublist.slnil
  | cons n notices ih =>
    cases n with
    | timeout runId => exact ih
    | event e =>
      cases e with
      | started metadata commands =>
        rw [Recorder.startedBy, List.filterMap_cons]
        cases hsignature : metadata.executionSignature with
        | none =>
          simp only [Notice.starts?, hsignature, Option.map_none]
          exact ih.cons _
        | some signature =>
          simp only [Notice.starts?, hsignature, Option.map_some]
          exact ih.cons_cons _
      | finished | cancelled | tick | taskTerminal | recoveryPhase => exact ih

theorem Fed.nodup {emitted : List Event} {notices : List Notice} (h : Fed emitted notices)
    (honce : (begunOf emitted).Nodup) : ((Recorder.startedBy notices).map Prod.fst).Nodup := by
  refine (startedBy_sublist notices).nodup (List.nodup_iff_count_le_one.mpr fun runId => ?_)
  exact (h.2 runId).trans (List.nodup_iff_count_le_one.mp honce runId)

/-- Two events that end one generation are the same event. -/
theorem ended_unique {events : List Event} {id : Nat} (honce : (endedOf events).count id ≤ 1)
    {e e' : Event} (he : e ∈ events) (he' : e' ∈ events) (hid : e.ended? = some id)
    (hid' : e'.ended? = some id) : e = e' := by
  induction events with
  | nil => cases he
  | cons first events ih =>
    have hrest : ∀ x ∈ events, x.ended? = some id → 0 < (endedOf events).count id := fun x hx hxid =>
      List.count_pos_iff.mpr (List.mem_filterMap.mpr ⟨x, hx, hxid⟩)
    by_cases hfirst : first.ended? = some id
    · rw [endedOf, List.filterMap_cons, hfirst] at honce
      have hnone : (endedOf events).count id = 0 := by simpa [endedOf] using honce
      have hall : ∀ x ∈ first :: events, x.ended? = some id → x = first := by
        intro x hx hxid
        rcases List.mem_cons.mp hx with rfl | hx
        · rfl
        · exact absurd (hrest x hx hxid) (by omega)
      rw [hall e he hid, hall e' he' hid']
    · have hcount : (endedOf events).count id ≤ 1 := by
        refine (List.Sublist.count_le id ?_).trans honce
        exact (List.sublist_cons_self first events).filterMap _
      have htail : ∀ x ∈ first :: events, x.ended? = some id → x ∈ events := by
        intro x hx hxid
        rcases List.mem_cons.mp hx with rfl | hx
        · exact absurd hxid hfirst
        · exact hx
      exact ih hcount (htail e he hid) (htail e' he' hid')

/-- A success comes from a Finished event without failures and without a successor. -/
theorem Notice.settles_success {n : Notice} {runId durationMs : Nat}
    (h : n.settles? = some (runId, .success durationMs)) :
    ∃ elapsed, n = .event (.finished runId none elapsed []) ∧ durationMs = elapsed % 2 ^ 64 := by
  cases n with
  | timeout id => cases h
  | event e =>
    cases e with
    | finished id supersededBy elapsed failures =>
      obtain ⟨rfl, hsample⟩ := Prod.mk.inj (Option.some.inj h)
      unfold finishedSample at hsample
      split at hsample
      · cases hsample
      next hnone =>
      split at hsample
      · next hempty =>
        obtain rfl : supersededBy = none := by simpa using hnone
        cases hsample
        exact ⟨elapsed, by rw [hempty], rfl⟩
      · cases hsample
    | cancelled id supersededBy => cases h
    | started | tick | taskTerminal | recoveryPhase => cases h

/-! ### Soundness -/

/-- What the recorder has made of the notices, on a history loaded before them. -/
structure SoundlyRecorded (loaded : DurationHistory) (emitted : List Event) (notices : List Notice) :
    Prop where
  /-- The history holds the outcomes, and no run has given two. -/
  history : ((Recorder.new loaded).noticed notices).history
    = (((Recorder.new loaded).outcomes notices).map Recorded.call).foldl DurationHistory.recording loaded
  once : (((Recorder.new loaded).outcomes notices).map Recorded.runId).Nodup
  /-- A success stems from a run that started under the signature and finished, and whose only terminal
      event reports no failure and no successor. -/
  success : ∀ o ∈ (Recorder.new loaded).outcomes notices, ∀ durationMs,
    o.sample = .success durationMs →
      (∃ metadata commands, Notice.event (.started metadata commands) ∈ notices ∧
        metadata.runId = o.runId ∧ metadata.executionSignature = some o.signature) ∧
      ∃ elapsed, durationMs = elapsed % 2 ^ 64 ∧
        Event.finished o.runId none elapsed [] ∈ emitted ∧
        ∀ e ∈ emitted, e.ended? = some o.runId → e = .finished o.runId none elapsed []
  associations : ((Recorder.new loaded).noticed notices).associations.entries.length ≤ maxAssociations
  captured : ((Recorder.new loaded).noticed notices).capturedEstimates.entries.length
    ≤ maxCapturedEstimates
  /-- At the start of a run its estimate is that of the history then; afterwards it is the same until it
      is evicted. -/
  frozen : ∀ before metadata commands later signature,
    notices = before ++ Notice.event (.started metadata commands) :: later →
    metadata.executionSignature = some signature →
      (((Recorder.new loaded).noticed before).observe
          (.started metadata commands)).estimateAtStart metadata.runId
        = ((Recorder.new loaded).noticed before).history.estimate signature none ∧
      ∀ estimate, ((Recorder.new loaded).noticed notices).estimateAtStart metadata.runId = some estimate →
        ((Recorder.new loaded).noticed before).history.estimate signature none = some estimate

theorem starts_of_started {n : Notice} {runId : Nat} {signature : String}
    (h : n.starts? = some (runId, signature)) :
    ∃ metadata commands, n = .event (.started metadata commands) ∧ metadata.runId = runId ∧
      metadata.executionSignature = some signature := by
  cases n with
  | timeout id => cases h
  | event e =>
    cases e with
    | started metadata commands =>
      obtain ⟨found, hfound, heq⟩ := Option.map_eq_some_iff.mp h
      cases heq
      exact ⟨metadata, commands, rfl, rfl, hfound⟩
    | finished | cancelled | tick | taskTerminal | recoveryPhase => cases h

namespace Recorder

/-- The estimate frozen at a start, in a sequence that starts no run twice. -/
theorem frozen_of_once (loaded : DurationHistory) {before later : List Notice} {metadata : RunMetadata}
    {commands : List String} {signature : String}
    (honce : ((startedBy (before ++ Notice.event (.started metadata commands) :: later)).map
      Prod.fst).Nodup)
    (hsignature : metadata.executionSignature = some signature) :
    (((new loaded).noticed before).observe (.started metadata commands)).estimateAtStart metadata.runId
        = ((new loaded).noticed before).history.estimate signature none ∧
      ∀ estimate, ((new loaded).noticed
          (before ++ Notice.event (.started metadata commands) :: later)).estimateAtStart metadata.runId
        = some estimate →
        ((new loaded).noticed before).history.estimate signature none = some estimate := by
  have hsplit : (startedBy (before ++ Notice.event (.started metadata commands) :: later)).map Prod.fst
      = (startedBy before).map Prod.fst ++ metadata.runId :: (startedBy later).map Prod.fst := by
    simp [startedBy, Notice.starts?, hsignature]
  rw [hsplit] at honce
  obtain ⟨hold, hnew, hdisjoint⟩ := List.nodup_append.mp honce
  have hlater := (List.nodup_cons.mp hnew).1
  have hbefore : metadata.runId ∉ (startedBy before).map Prod.fst := fun hmem =>
    hdisjoint _ hmem _ List.mem_cons_self rfl
  -- the run has no estimate before it starts
  have hnone : ((new loaded).noticed before).estimateAtStart metadata.runId = none := by
    cases hget : ((new loaded).noticed before).estimateAtStart metadata.runId with
    | none => rfl
    | some estimate =>
      obtain ⟨found, hfound⟩ := (tracked loaded before hold).captured _ _ hget
      exact absurd (List.mem_map.mpr ⟨_, hfound, rfl⟩) hbefore
  have hstart : (((new loaded).noticed before).observe (.started metadata commands)).estimateAtStart
      metadata.runId = ((new loaded).noticed before).history.estimate signature none := by
    rw [observe, hsignature]
    cases hestimate : ((new loaded).noticed before).history.estimate signature none with
    | none =>
      simp only [estimateAtStart, associate, hestimate]
      exact hnone
    | some estimate =>
      simp only [estimateAtStart, associate, hestimate]
      exact SortedMap.get?_insertBounded_self ..
  refine ⟨hstart, fun estimate hget => ?_⟩
  rw [← hstart]
  refine noticed_estimateAtStart later _ hlater ?_
  rw [noticed, List.foldl_append, List.foldl_cons] at hget
  exact hget

end Recorder

/-- Whatever a worker does, and whatever becomes of its events on their way, the recorder records them
    soundly. -/
theorem durations_recorded_soundly (ex : LawfulExecutor) (env : Env W) (world : W) (labels : List Label)
    (s : State W) (hrun : Machine.after (State.step ex env) (State.initial world) labels = some s)
    (loaded : DurationHistory) (notices : List Notice) (hfed : Fed s.events notices) :
    SoundlyRecorded loaded s.events notices := by
  obtain ⟨hcensus, hbegun⟩ := once_of_run hrun
  rw [s.begun_eq] at hbegun
  have honce := hfed.nodup hbegun
  have htracked := Recorder.tracked loaded notices honce
  obtain ⟨hassociations, hcaptured⟩ := Recorder.noticed_bounded loaded notices
  refine ⟨Recorder.noticed_history loaded notices, htracked.once, ?_, hassociations, hcaptured, ?_⟩
  · intro o ho durationMs hsample
    obtain ⟨hstarted, n, hn, hsettles⟩ := htracked.outcome o ho
    rw [hsample] at hsettles
    obtain ⟨elapsed, rfl, hduration⟩ := Notice.settles_success hsettles
    obtain ⟨start, hstart, hstarts⟩ := List.mem_filterMap.mp hstarted
    obtain ⟨metadata, commands, rfl, hid, hsignature⟩ := starts_of_started hstarts
    have hfinished := hfed.1 _ hn
    have hended : (endedOf s.events).count o.runId ≤ 1 := by
      have := hcensus.once o.runId
      rw [State.count_census, s.ended_eq] at this
      omega
    exact ⟨⟨metadata, commands, hstart, hid, hsignature⟩, elapsed, hduration, hfinished,
      fun e he hends => ended_unique hended he hfinished hends rfl⟩
  · rintro before metadata commands later signature rfl hsignature
    exact Recorder.frozen_of_once loaded honce hsignature

/-- One client runs a target whose command passes. -/
def targeted : List Label :=
  [.call (.schedule
      { runId := 0
        plan := .fromRules [{ name := "build", commands := ["make"] }]
        target := some "build"
        executionSignature := some "sha256:make" }),
    .prepare 0 true, .signal 0, .enqueue 0] ++ List.replicate 8 (.consume 1)

/-- The target's run is recorded as a success, and a timeout that comes after its end changes nothing. -/
theorem durations_recorded_at_build :
    ∃ s, Machine.after (State.step {} (steadyEnv fun _ => some ⟨some 0, "exit status: 0"⟩))
        (State.initial ()) targeted = some s ∧
      (Recorder.new DurationHistory.new).outcomes (s.events.map Notice.event ++ [.timeout 1])
        = [⟨1, "sha256:make", .success 0⟩] ∧
      SoundlyRecorded DurationHistory.new s.events (s.events.map Notice.event ++ [.timeout 1]) := by
  have hoccurs : ∃ s, Machine.after (State.step {} (steadyEnv fun _ => some ⟨some 0, "exit status: 0"⟩))
      (State.initial ()) targeted = some s ∧
      (Recorder.new DurationHistory.new).outcomes (s.events.map Notice.event ++ [.timeout 1])
        = [⟨1, "sha256:make", .success 0⟩] :=
    ⟨_, rfl, by decide⟩
  obtain ⟨s, hrun, houtcomes⟩ := hoccurs
  refine ⟨s, hrun, houtcomes, ?_⟩
  refine durations_recorded_soundly {} _ () targeted s hrun DurationHistory.new _ (Fed.of_events ?_)
  rw [List.filterMap_append, List.filterMap_map]
  exact (List.append_nil _).trans List.filterMap_some

end Funzzy
