import Funzzy.Await.Conveyance

/-! Whether an await answer fits the snapshot it carries.

    The coordinator and the watcher state learn of an event one after the other, and the watcher state
    shows one generation only. An answer for a generation is `Settled` when the watcher state has applied
    that generation's end and nothing over it, or, for any reason but a failure, when it has moved on to
    a later generation. -/

namespace Funzzy

variable {W : Type}

/-! ### The events of the slot -/

/-- The generation that began last, and what has happened since. -/
def lastRun (events : List Event) : Option (Nat × List Event) :=
  events.foldl
    (fun run e =>
      match e with
      | .started metadata _ => some (metadata.runId, [])
      | e => run.map fun run => (run.1, run.2 ++ [e]))
    none

/-- The last terminal event. -/
def lastEnd (events : List Event) : Option Event := events.reverse.find? fun e => e.ended?.isSome

theorem lastRun_started (events : List Event) (metadata : RunMetadata) (commands : List String) :
    lastRun (events ++ [.started metadata commands]) = some (metadata.runId, []) := by
  simp [lastRun]

theorem lastRun_other (events : List Event) {e : Event} (he : e.begun? = none) :
    lastRun (events ++ [e]) = (lastRun events).map fun run => (run.1, run.2 ++ [e]) := by
  cases e with
  | started => cases he
  | finished | cancelled | tick | taskTerminal | recoveryPhase => simp [lastRun]

theorem lastEnd_append (events : List Event) (e : Event) :
    lastEnd (events ++ [e]) = if e.ended?.isSome then some e else lastEnd events := by
  rw [lastEnd, List.reverse_append, List.reverse_singleton, List.singleton_append, List.find?_cons]
  cases e.ended?.isSome <;> rfl

theorem lastEnd_mem {events : List Event} {e : Event} (h : lastEnd events = some e) :
    e ∈ events ∧ e.ended?.isSome = true := by
  have hended := List.find?_some h
  exact ⟨List.mem_reverse.mp (List.mem_of_find?_eq_some h), hended⟩

theorem lastEnd_isSome {events : List Event} {id : Nat} (h : id ∈ endedOf events) :
    ∃ e, lastEnd events = some e := by
  obtain ⟨e, he, hended⟩ := mem_endedOf.mp h
  rw [← Option.isSome_iff_exists, lastEnd, List.find?_isSome]
  exact ⟨e, List.mem_reverse.mpr he, by simp [hended]⟩

/-- Where the last run stands in the stream. -/
theorem lastRun_split {events : List Event} : ∀ {n : Nat} {since : List Event},
    lastRun events = some (n, since) →
    ∃ before metadata commands, events = before ++ .started metadata commands :: since ∧
      metadata.runId = n ∧ begunOf since = [] := by
  induction events using List.reverseRecOn with
  | nil =>
    intro n since h
    cases h
  | append_singleton events e ih =>
    intro n since h
    cases he : e.begun? with
    | some id =>
      cases e with
      | started metadata commands =>
        rw [lastRun_started] at h
        cases h
        exact ⟨events, metadata, commands, rfl, rfl, rfl⟩
      | finished | cancelled | tick | taskTerminal | recoveryPhase => cases he
    | none =>
      rw [lastRun_other events he] at h
      obtain ⟨⟨m, rest⟩, hrun, heq⟩ := Option.map_eq_some_iff.mp h
      cases heq
      obtain ⟨before, metadata, commands, rfl, hid, hnone⟩ := ih hrun
      refine ⟨before, metadata, commands, by simp, hid, ?_⟩
      rw [begunOf_append, hnone]
      simp [begunOf, he]

/-- The task an event reports for a generation. -/
def Event.report? (n : Nat) : Event → Option TaskSnapshot
  | .taskTerminal runId task => if runId = n then some task else none
  | _ => none

theorem Event.report?_eq_some {n : Nat} {e : Event} {task : TaskSnapshot} :
    e.report? n = some task ↔ e = .taskTerminal n task := by
  cases e with
  | taskTerminal runId t =>
    rw [Event.report?]
    split
    · rename_i heq
      simp [heq]
    · rename_i hne
      simp [hne]
  | started | finished | cancelled | tick | recoveryPhase => simp [Event.report?]

/-- The slot shows the last run: its end, if there was one since, and its reported tasks. -/
structure WatcherState.Shows (s : WatcherState) (n : Nat) (since : List Event) : Prop where
  generation : s.generation = n
  state : s.state = ((lastEnd since).bind Event.status?).getD .running
  tasks : s.tasks.Perm (since.filterMap (Event.report? n))

theorem filterMap_report?_append (n : Nat) (events : List Event) (e : Event) :
    (events ++ [e]).filterMap (Event.report? n)
      = events.filterMap (Event.report? n) ++ (e.report? n).toList := by
  rw [List.filterMap_append]
  cases he : e.report? n <;> simp [he]

/-- Whatever begins nothing is added to the run that is shown. -/
theorem WatcherState.Shows.next {s : WatcherState} {n : Nat} {since : List Event} (h : s.Shows n since)
    {e : Event} (he : e.begun? = none) : (s.apply e).Shows n (since ++ [e]) := by
  have hunreported : e.report? n = none →
      s.tasks.Perm ((since ++ [e]).filterMap (Event.report? n)) := by
    intro hnone
    rw [filterMap_report?_append, hnone, Option.toList_none, List.append_nil]
    exact h.tasks
  have hgoing : e.ended? = none →
      s.state = ((lastEnd (since ++ [e])).bind Event.status?).getD .running := by
    intro hnone
    rw [lastEnd_append, hnone]
    exact h.state
  cases e with
  | started => cases he
  | finished | cancelled =>
    refine ⟨h.generation, ?_, hunreported rfl⟩
    rw [lastEnd_append]
    rfl
  | tick | recoveryPhase => exact ⟨h.generation, hgoing rfl, hunreported rfl⟩
  | taskTerminal runId task =>
    rw [WatcherState.apply]
    split
    · rename_i hown
      rw [h.generation] at hown
      refine ⟨h.generation, hgoing rfl, (List.perm_insertionSort _ _).trans ?_⟩
      rw [filterMap_report?_append, Event.report?, if_pos hown]
      exact h.tasks.append_right [task]
    · rename_i hother
      rw [h.generation] at hother
      exact ⟨h.generation, hgoing rfl, hunreported (by rw [Event.report?, if_neg hother])⟩

theorem shown_lastRun {events : List Event} : ∀ {n : Nat} {since : List Event},
    lastRun events = some (n, since) → (shown events).Shows n since := by
  induction events using List.reverseRecOn with
  | nil =>
    intro n since h
    cases h
  | append_singleton events e ih =>
    intro n since h
    rw [shown_append]
    cases he : e.begun? with
    | some id =>
      cases e with
      | started metadata commands =>
        rw [lastRun_started] at h
        cases h
        exact ⟨rfl, rfl, List.Perm.nil⟩
      | finished | cancelled | tick | taskTerminal | recoveryPhase => cases he
    | none =>
      rw [lastRun_other events he] at h
      obtain ⟨⟨m, rest⟩, hrun, heq⟩ := Option.map_eq_some_iff.mp h
      cases heq
      exact (ih hrun).next he

/-! ### The last run and its events -/

/-- A generation ends once. -/
theorem Census.end_unique {failFast : Bool} {s : State W} (h : Census failFast s) {e e' : Event} {g : Nat}
    (he : e ∈ s.events) (he' : e' ∈ s.events) (hended : e.ended? = some g) (hended' : e'.ended? = some g) :
    e = e' := by
  have honce : (endedOf s.events).count g ≤ 1 := by
    have hcensus := h.once g
    simp only [State.census, List.count_append] at hcensus
    rw [← s.ended_eq]
    omega
  by_contra hne
  obtain ⟨before, after, hsplit⟩ := List.append_of_mem he
  have hother : g ∈ endedOf (before ++ after) := by
    rw [hsplit, List.mem_append, List.mem_cons] at he'
    refine mem_endedOf.mpr ⟨e', List.mem_append.mpr ?_, hended'⟩
    exact he'.imp_right fun hrest => hrest.resolve_left (Ne.symm hne)
  have hcount := List.count_pos_iff.mpr hother
  rw [hsplit] at honce
  simp only [endedOf, List.filterMap_append, List.filterMap_cons, hended, List.count_append,
    List.count_cons_self] at honce hcount
  omega

/-- The last run as the callbacks applied it: the consumer applied its beginning. -/
structure Hub.Running (h : Hub W) (n : Nat) (since : List Event) (early late : List (Thread × Event)) :
    Prop where
  began : ∃ metadata commands, metadata.runId = n ∧
    h.applied = early ++ (.consumer, .started metadata commands) :: late
  late : since = late.map (·.2)
  single : begunOf since = []

theorem Hub.Conveyed.lastRun {failFast : Bool} {h : Hub W} (hs : h.Conveyed failFast) {n : Nat}
    {since : List Event} (hrun : Funzzy.lastRun (h.applied.map (·.2)) = some (n, since)) :
    ∃ early late, h.Running n since early late := by
  obtain ⟨before, metadata, commands, hsplit, hid, hsingle⟩ := lastRun_split hrun
  obtain ⟨early, rest, happlied, -, hrest⟩ := List.map_eq_append_iff.mp hsplit
  obtain ⟨⟨thread, e⟩, late, rfl, he, hlate⟩ := List.map_eq_cons_iff.mp hrest
  simp only at he
  subst he
  refine ⟨early, late, ⟨metadata, commands, hid, ?_⟩, hlate.symm, hsingle⟩
  cases thread with
  | consumer => exact happlied
  | sender =>
    obtain ⟨d, successor, heq, -⟩ := hs.sent (.started metadata commands) (.inr (by simp [happlied]))
    cases heq

/-- The consumer's events around the beginning of the last run. -/
theorem Hub.Running.emitted {failFast : Bool} {h : Hub W} {n : Nat} {since : List Event}
    {early late : List (Thread × Event)} (hr : h.Running n since early late)
    (hs : h.Conveyed failFast) :
    ∃ e, e.begun? = some n ∧
      h.emitted = consumerEvents early ++ e :: (consumerEvents late ++ h.consumer.unapplied) := by
  obtain ⟨metadata, commands, hid, happlied⟩ := hr.began
  refine ⟨.started metadata commands, congrArg some hid, ?_⟩
  rw [hs.order, happlied]
  simp [consumerEvents]

theorem mem_consumerEvents {applied : List (Thread × Event)} {e : Event} :
    e ∈ consumerEvents applied ↔ (.consumer, e) ∈ applied := by
  simp [consumerEvents]

theorem Hub.Running.begun {failFast : Bool} {h : Hub W} {n : Nat} {since : List Event}
    {early late : List (Thread × Event)} (hr : h.Running n since early late)
    (hs : h.Conveyed failFast) : n ∈ h.worker.begun := by
  obtain ⟨e, he, hemitted⟩ := hr.emitted hs
  rw [← hs.streams.begun, hemitted]
  exact List.mem_filterMap.mpr ⟨e, by simp, he⟩

/-- The events applied since are about the last run, the discards of senders apart. -/
theorem Hub.Running.own {failFast : Bool} {h : Hub W} {n : Nat} {since : List Event}
    {early late : List (Thread × Event)} (hr : h.Running n since early late)
    (hs : h.Conveyed failFast) {e : Event} {d : Nat} (he : (.consumer, e) ∈ late)
    (hd : e.about? = some d) : d = n := by
  obtain ⟨start, hstart, hemitted⟩ := hr.emitted hs
  obtain ⟨before, after, hsplit⟩ := List.append_of_mem (mem_consumerEvents.mpr he)
  have hbefore : begunOf before = [] := by
    have hnone : begunOf (consumerEvents late) = [] := by
      refine List.filterMap_eq_nil_iff.mpr fun x hx => ?_
      have hmem : x ∈ since := by
        rw [hr.late]
        exact List.mem_map.mpr ⟨_, mem_consumerEvents.mp hx, rfl⟩
      exact List.filterMap_eq_nil_iff.mp hr.single x hmem
    rw [hsplit, begunOf_append] at hnone
    exact (List.append_eq_nil_iff.mp hnone).1
  have hwhole : h.emitted = (consumerEvents early ++ start :: before) ++ e
      :: (after ++ h.consumer.unapplied) := by
    rw [hemitted, hsplit]
    simp
  have hlast := (hs.streams.attributed _ e _ d hwhole hd).1
  have hbegun : begunOf (consumerEvents early ++ start :: before) = begunOf (consumerEvents early) ++ [n] := by
    rw [begunOf_append, begunOf, begunOf, List.filterMap_cons, hstart, ← begunOf, ← begunOf, hbefore]
  rw [hbegun, List.getLast?_concat] at hlast
  exact (Option.some.inj hlast).symm

/-- Its end is the consumer's. -/
theorem Hub.Running.end_mem {failFast : Bool} {h : Hub W} {n : Nat} {since : List Event}
    {early late : List (Thread × Event)} (hr : h.Running n since early late)
    (hs : h.Conveyed failFast) {e : Event} (he : e ∈ since) (hended : e.ended? = some n) :
    (.consumer, e) ∈ late := by
  rw [hr.late] at he
  obtain ⟨⟨thread, x⟩, hx, rfl⟩ := List.mem_map.mp he
  cases thread with
  | consumer => exact hx
  | sender =>
    obtain ⟨metadata, commands, -, happlied⟩ := hr.began
    obtain ⟨d, successor, rfl, -, hbegun⟩ := hs.sent x (.inr (by simp [happlied, hx]))
    cases hended
    exact absurd (hr.begun hs) hbegun

/-- Once its end is applied, the reports applied since are all the reports of the last run. -/
theorem Hub.Running.reports {failFast : Bool} {h : Hub W} {n : Nat} {since : List Event}
    {early late : List (Thread × Event)} (hr : h.Running n since early late)
    (hs : h.Conveyed failFast) {e : Event} (he : e ∈ since) (hended : e.ended? = some n)
    (task : TaskSnapshot) : .taskTerminal n task ∈ since ↔ .taskTerminal n task ∈ h.emitted := by
  obtain ⟨start, hstart, hemitted⟩ := hr.emitted hs
  have hend : e ∈ consumerEvents late := mem_consumerEvents.mpr (hr.end_mem hs he hended)
  constructor
  · intro hreport
    rw [hr.late] at hreport
    obtain ⟨⟨thread, x⟩, hx, heq⟩ := List.mem_map.mp hreport
    simp only at heq
    subst heq
    obtain ⟨metadata, commands, -, happlied⟩ := hr.began
    cases thread with
    | consumer =>
      rw [hemitted]
      simp [mem_consumerEvents.mpr hx]
    | sender =>
      obtain ⟨d, successor, heq, -⟩ := hs.sent (.taskTerminal n task) (.inr (by simp [happlied, hx]))
      cases heq
  · intro hreport
    rw [hemitted, List.mem_append, List.mem_cons, List.mem_append] at hreport
    rcases hreport with hearly | hstarts | hlate | hunapplied
    · -- a generation begins once
      obtain ⟨before, after, hsplit⟩ := List.append_of_mem hearly
      have hwhole : h.emitted = before ++ .taskTerminal n task
          :: (after ++ start :: (consumerEvents late ++ h.consumer.unapplied)) := by
        rw [hemitted, hsplit]
        simp
      have hbefore := List.mem_of_getLast? (hs.streams.attributed _ _ _ n hwhole rfl).1
      have honce := hs.streams.once
      rw [← hs.streams.begun, hemitted, begunOf_append, begunOf, begunOf, List.filterMap_cons, hstart]
        at honce
      refine absurd (List.mem_cons_self) (List.disjoint_of_nodup_append honce ?_)
      rw [hsplit, ← begunOf, begunOf_append]
      exact List.mem_append_left _ hbefore
    · rw [← hstarts] at hstart
      cases hstart
    · rw [hr.late]
      exact List.mem_map.mpr ⟨_, mem_consumerEvents.mp hlate, rfl⟩
    · -- nothing is reported after the end
      obtain ⟨before, after, hsplit⟩ := List.append_of_mem hunapplied
      have hwhole : h.emitted = (consumerEvents early ++ start :: (consumerEvents late ++ before))
          ++ .taskTerminal n task :: after := by
        rw [hemitted, hsplit]
        simp
      refine absurd ?_ (hs.streams.attributed _ _ _ n hwhole rfl).2
      exact mem_endedOf.mpr ⟨e, by simp [hend], hended⟩

/-! ### Answers -/

/-- The status a reason stands for. -/
def TerminalReason.status? : TerminalReason → Option WatcherExecutionState
  | .passed => some .passed
  | .failed => some .failed
  | .cancelled | .superseded => some .cancelled
  | .timeout | .disconnected | .restarted => none

theorem Event.reason_status {e : Event} {reason : TerminalReason} (h : e.reason? = some reason) :
    reason.status? = e.status? := by
  cases e with
  | finished runId supersededBy elapsed failures =>
    cases h
    rw [Event.status?]
    split <;> rfl
  | cancelled runId supersededBy =>
    cases h
    split <;> rfl
  | started | tick | taskTerminal | recoveryPhase => cases h

/-- The watcher state has applied the end of the generation and shows it, or shows a later generation
    and there is no failure to explain. -/
def Shown (events : List Event) (reason : TerminalReason) (g : Nat) : Prop :=
  match lastRun events with
  | some (n, since) =>
    (g = n ∧ ((lastEnd since).bind Event.ended? = some g ∨
      (g ∈ endedOf since ∧ reason.status? = some .cancelled))) ∨ (g < n ∧ reason ≠ .failed)
  | none => False

instance (events : List Event) (reason : TerminalReason) (g : Nat) : Decidable (Shown events reason g) := by
  unfold Shown
  split <;> infer_instance

/-- No answer for a generation is built before the watcher state has applied that generation's end, or
    after it has applied another end over it, or, for a failure, after a later generation began. -/
def Hub.Settled (h : Hub W) : HubLabel → Prop
  | .answer i =>
    match h.coordinator.waiters[i]? with
    | some { pc := .answering reason (some g), .. } => Shown (h.applied.map (·.2)) reason g
    | _ => True
  | _ => True

instance (h : Hub W) (l : HubLabel) : Decidable (h.Settled l) := by
  unfold Hub.Settled
  split
  · split <;> infer_instance
  · infer_instance

/-- The snapshot is not older than the end the answer gives, and the evidence is asked for the failed
    tasks of the answer's own generation. -/
structure Answered.Coherent (a : Answered) (g : Nat) : Prop where
  newer : g ≤ a.result.snapshot.generation
  agrees : a.result.snapshot.generation = g →
    a.result.snapshot.state.isTerminal = true ∧
      a.result.terminalReason.status? = some a.result.snapshot.state
  evidence : ∀ generation names, a.result.evidence = some (generation, names) → generation = g ∧
    ∀ name, name ∈ names ↔
      ∃ task, .taskTerminal g task ∈ a.emitted ∧ task.state = .failed ∧ task.name = name

theorem Event.status_terminal {e : Event} {status : WatcherExecutionState} (h : e.status? = some status) :
    status.isTerminal = true := by
  cases e with
  | finished runId supersededBy elapsed failures =>
    cases h
    split <;> rfl
  | cancelled =>
    cases h
    rfl
  | started | tick | taskTerminal | recoveryPhase => cases h

/-- The status that is shown for the last run after its end. -/
theorem Hub.Running.status {failFast : Bool} {h : Hub W} {n : Nat} {since : List Event}
    {early late : List (Thread × Event)} (hr : h.Running n since early late)
    (hs : h.Conveyed failFast) (hshows : h.state.Shows n since) {e : Event} {reason : TerminalReason}
    (he : e ∈ h.worker.events) (hended : e.ended? = some n) (hreason : e.reason? = some reason)
    (hlast : (lastEnd since).bind Event.ended? = some n ∨
      (n ∈ endedOf since ∧ reason.status? = some .cancelled)) :
    reason.status? = some h.state.state := by
  obtain ⟨metadata, commands, -, happlied⟩ := hr.began
  have harrived : ∀ x ∈ since, x ∈ h.worker.events := by
    intro x hx
    rw [hr.late] at hx
    obtain ⟨y, hy, rfl⟩ := List.mem_map.mp hx
    exact hs.arrived y (by simp [happlied, hy])
  -- the last end since: the run's own, or a discard over its cancellation
  obtain ⟨last, hfound, hstatus⟩ : ∃ last, lastEnd since = some last ∧ last.status? = reason.status? := by
    rcases hlast with hown | ⟨hsome, hcancelled⟩
    · obtain ⟨last, hfound, hlast⟩ := Option.bind_eq_some_iff.mp hown
      have hsame := hs.streams.census.end_unique (harrived last (lastEnd_mem hfound).1) he hlast hended
      exact ⟨last, hfound, by rw [hsame, Event.reason_status hreason]⟩
    · obtain ⟨last, hfound⟩ := lastEnd_isSome hsome
      obtain ⟨hmem, hisSome⟩ := lastEnd_mem hfound
      obtain ⟨d, hd⟩ := Option.isSome_iff_exists.mp hisSome
      refine ⟨last, hfound, ?_⟩
      have hlate := hmem
      rw [hr.late] at hlate
      obtain ⟨⟨thread, x⟩, hx, rfl⟩ := List.mem_map.mp hlate
      cases thread with
      | consumer =>
        have hsame : d = n := hr.own hs hx (Event.about?_of_ended hd)
        rw [hsame] at hd
        rw [hs.streams.census.end_unique (harrived x hmem) he hd hended, Event.reason_status hreason]
      | sender =>
        obtain ⟨d', successor, rfl, -⟩ := hs.sent x (.inr (by simp [happlied, hx]))
        rw [hcancelled]
        rfl
  obtain ⟨status, hsome⟩ : ∃ status, last.status? = some status := by
    obtain ⟨d, hd⟩ := Option.isSome_iff_exists.mp (lastEnd_mem hfound).2
    exact ⟨_, (WatcherState.apply_ended hd h.state).2⟩
  rw [hshows.state, hfound, Option.bind_some, hsome, ← hstatus, hsome]
  rfl

/-- The failed tasks that are shown for the last run after its end. -/
theorem Hub.Running.failed {failFast : Bool} {h : Hub W} {n : Nat} {since : List Event}
    {early late : List (Thread × Event)} (hr : h.Running n since early late)
    (hs : h.Conveyed failFast) (hshows : h.state.Shows n since) (hsome : n ∈ endedOf since)
    (name : String) :
    name ∈ h.state.failedTasks ↔
      ∃ task, .taskTerminal n task ∈ h.emitted ∧ task.state = .failed ∧ task.name = name := by
  obtain ⟨e, he, hended⟩ := mem_endedOf.mp hsome
  have htasks : ∀ task, task ∈ h.state.tasks ↔ .taskTerminal n task ∈ h.emitted := by
    intro task
    rw [hshows.tasks.mem_iff, List.mem_filterMap, ← hr.reports hs he hended task]
    constructor
    · rintro ⟨x, hx, hreport⟩
      rwa [← Event.report?_eq_some.mp hreport]
    · intro hx
      exact ⟨_, hx, Event.report?_eq_some.mpr rfl⟩
  simp only [WatcherState.failedTasks, List.mem_map, List.mem_filter, htasks, decide_eq_true_eq,
    and_assoc]

/-- What is answered when it is settled fits. -/
theorem Hub.answer_coherent {failFast : Bool} {h : Hub W} {i : Nat} {mode : AwaitMode}
    {seen : List TerminalRecord} {reason : TerminalReason} {g : Nat} (hs : h.Conveyed failFast)
    (hsound : h.coordinator.Sound) (hstate : h.state = shown (h.applied.map (·.2)))
    (hi : h.coordinator.waiters[i]? = some ⟨mode, .answering reason (some g), seen⟩)
    (hsettled : h.Settled (.answer i)) :
    Answered.Coherent
      { result := h.coordinator.inner.build h.state reason (some g)
        generation := some g
        outstanding := h.worker.waiting ++ h.worker.running
        batch := h.batch
        emitted := h.emitted } g := by
  obtain ⟨-, before, hbefore, e, hlast, hreason⟩ :=
    hsound.answers _ (List.mem_of_getElem? hi) reason g (.inl rfl)
  obtain ⟨hobserved, hended⟩ := lastEnded_eq_some hlast
  have he := hs.observed e (hbefore.subset hobserved)
  simp only [Hub.Settled, hi, Shown] at hsettled
  split at hsettled
  · rename_i n since hrun
    have hshows : h.state.Shows n since := hstate ▸ shown_lastRun hrun
    obtain ⟨early, late, hr⟩ := hs.lastRun hrun
    rcases hsettled with ⟨rfl, hlast⟩ | ⟨hnewer, hexplained⟩
    · have hstatus := hr.status hs hshows he hended hreason hlast
      have hsome : g ∈ endedOf since := by
        rcases hlast with hown | ⟨hsome, -⟩
        · obtain ⟨last, hfound, hlast⟩ := Option.bind_eq_some_iff.mp hown
          exact mem_endedOf.mpr ⟨last, (lastEnd_mem hfound).1, hlast⟩
        · exact hsome
      refine ⟨hshows.generation.ge, fun _ => ⟨?_, hstatus⟩, ?_⟩
      · rw [Event.reason_status hreason] at hstatus
        exact Event.status_terminal hstatus
      · intro generation names hevidence
        simp only [AwaitInner.build, Option.getD_some] at hevidence
        split at hevidence
        · cases hevidence
          exact ⟨rfl, hr.failed hs hshows hsome⟩
        · cases hevidence
    · refine ⟨?_, ?_, ?_⟩
      · exact hshows.generation ▸ hnewer.le
      · intro hsame
        have hgeneration : h.state.generation = g := hsame
        rw [hshows.generation] at hgeneration
        exact absurd hgeneration hnewer.ne'
      · intro generation names hevidence
        simp [AwaitInner.build, hexplained] at hevidence
  · cases hsettled

/-! ### Runs -/

/-- The watcher state is what the applied events show. -/
theorem Proceeds.state {ex : LawfulExecutor} {env : Env W} {h h' : Hub W} {l : HubLabel}
    (hstep : Proceeds ex env h l h') (hs : h.state = shown (h.applied.map (·.2))) :
    h'.state = shown (h'.applied.map (·.2)) := by
  cases hstep with
  | worked l worker => cases l <;> exact hs
  | recorded thread | observed thread | published thread => cases thread <;> exact hs
  | applied thread e =>
    have hnext : h.state.apply e = shown ((h.applied ++ [(thread, e)]).map (·.2)) := by
      rw [List.map_append, List.map_singleton, shown_append, hs]
    cases thread <;> exact hnext
  | asked | answered | received | noted | unchanged | routed | unmatched | completed => exact hs

theorem Proceeds.coordinator {ex : LawfulExecutor} {env : Env W} {h h' : Hub W} {l : HubLabel}
    (hstep : Proceeds ex env h l h') (hs : h.coordinator.Sound) : h'.coordinator.Sound := by
  cases hstep with
  | worked l worker => cases l <;> exact hs
  | recorded thread | applied thread | published thread => cases thread <;> exact hs
  | observed thread e rest hlane hfree => cases thread <;> exact hs.observe hfree e
  | asked l c hc | answered i c mode seen reason generation hi hc | noted batchId c hbatch hc
  | completed request c hbatch hc => exact (Coordinator.step_awaits hc).sound hs
  | received | unchanged | routed | unmatched => exact hs

/-- In every run that answers only what is settled, every answer for a generation fits its snapshot. -/
theorem Hub.answers_coherent (ex : LawfulExecutor) (env : Env W) (world : W) (labels : List HubLabel)
    (hsettled : Machine.Meets (Hub.step ex env) Hub.Settled (Hub.initial world) labels)
    (h : Hub W) (hrun : Machine.after (Hub.step ex env) (Hub.initial world) labels = some h) :
    ∀ a ∈ h.answers, ∀ g, a.generation = some g → a.Coherent g := by
  have hinvariant := Machine.invariant (Hub.step ex env)
    (I := fun h => h.Conveyed ex.failFast ∧ h.coordinator.Sound ∧
      h.state = shown (h.applied.map (·.2)) ∧ ∀ a ∈ h.answers, ∀ g, a.generation = some g → a.Coherent g)
    (fun h l h' hs hsettled hstep => by
      obtain ⟨hconveyed, hsound, hstate, hanswers⟩ := hs
      have hproceeds := Hub.step_proceeds hstep
      refine ⟨hproceeds.conveyed hconveyed, hproceeds.coordinator hsound, hproceeds.state hstate, ?_⟩
      rcases hproceeds.answers with hsame | ⟨i, mode, seen, reason, generation, rfl, hi, hnew⟩
      · rw [hsame]
        exact hanswers
      · rw [hnew]
        intro a ha g hg
        rcases List.mem_append.mp ha with ha | ha
        · exact hanswers a ha g hg
        · rw [List.mem_singleton.mp ha] at hg ⊢
          subst hg
          exact Hub.answer_coherent hconveyed hsound hstate hi hsettled)
    labels (Hub.initial world) h
    ⟨Hub.initial_conveyed ex.failFast world, Coordinator.initial_sound, rfl, by simp [Hub.initial]⟩
    hsettled hrun
  exact hinvariant.2.2.2

/-- A failing generation is awaited after its end: the answer says so, and asks for the evidence of its
    one failed task. -/
theorem Hub.answers_coherent_at_failed :
    ∃ h, Machine.after (Hub.step {} (steadyEnv fun _ => some ⟨some 1, "exit status: 1"⟩))
        (Hub.initial ()) (concluded "build" ++ awaited 1) = some h ∧
      (h.answers.map fun a => (a.generation, a.result.evidence)) = [(some 1, some (1, ["build"]))] ∧
      ∀ a ∈ h.answers, ∀ g, a.generation = some g → a.Coherent g :=
  ⟨_, rfl, by decide, Hub.answers_coherent {} (steadyEnv fun _ => some ⟨some 1, "exit status: 1"⟩) ()
    (concluded "build" ++ awaited 1) (by decide) _ rfl⟩

/-- The coordinator has observed the end of a generation and the watcher state has not applied it: the
    answer says that the generation passed and carries a snapshot that says that it runs. -/
theorem Hub.answers_incoherent :
    ∃ h, Machine.after (Hub.step {} (steadyEnv fun _ => some ⟨some 0, "exit status: 0"⟩))
        (Hub.initial ()) (finishing "build" ++ callbacks.take 2 ++ awaited 1) = some h ∧
      (h.answers.map fun a => (a.result.terminalReason, a.result.snapshot.generation,
        a.result.snapshot.state)) = [(.passed, 1, .running)] ∧
      ¬∀ a ∈ h.answers, ∀ g, a.generation = some g → a.Coherent g := by
  refine ⟨_, rfl, by decide, fun h => ?_⟩
  have hterminal := ((h _ List.mem_cons_self 1 rfl).agrees rfl).1
  revert hterminal
  decide

end Funzzy
