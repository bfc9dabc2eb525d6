import Funzzy.Worker.Lifecycle
import Funzzy.Observers

/-! The watcher state as a projection of the worker's events.

    `WatcherState.apply` keeps one slot: a terminal event ends whatever the slot shows, whichever
    generation it names. The worker also ends generations that never began, when a rewrite of the queue
    discards them. `Undisturbed` steps discard nothing unless the last milestone was a cancellation, so
    that the slot shows that status already; then the slot only ever shows the end of its own
    generation. -/

namespace Funzzy

variable {W : Type}

/-! ### The slot -/

def Effect.event? : Effect → Option Event
  | .event e => some e
  | _ => none

/-- The events a worker has emitted. -/
def State.events (s : State W) : List Event := s.io.trace.filterMap Effect.event?

/-- What the events show. -/
def shown (events : List Event) : WatcherState := events.foldl WatcherState.apply {}

def WatcherExecutionState.isTerminal : WatcherExecutionState → Bool
  | .passed | .failed | .cancelled => true
  | .idle | .running => false

/-- The status a terminal event carries. -/
def Event.status? : Event → Option WatcherExecutionState
  | .finished _ _ _ failures => some (if failures = [] then .passed else .failed)
  | .cancelled _ _ => some .cancelled
  | _ => none

@[simp] theorem shown_append (events : List Event) (e : Event) :
    shown (events ++ [e]) = (shown events).apply e := by
  simp [shown]

/-- A terminal event sets the status and leaves the generation. -/
theorem WatcherState.apply_ended {e : Event} {id : Nat} (h : e.ended? = some id) (s : WatcherState) :
    (s.apply e).generation = s.generation ∧ e.status? = some (s.apply e).state := by
  cases e with
  | finished | cancelled => exact ⟨rfl, rfl⟩
  | started | tick | taskTerminal | recoveryPhase => cases h

/-- Only milestones move the slot. -/
theorem WatcherState.apply_quiet {e : Event} (h : e.isMilestone = false) (s : WatcherState) :
    (s.apply e).generation = s.generation ∧ (s.apply e).state = s.state := by
  cases e with
  | started | finished | cancelled => cases h
  | tick | recoveryPhase => exact ⟨rfl, rfl⟩
  | taskTerminal runId task =>
    rw [WatcherState.apply]
    split <;> exact ⟨rfl, rfl⟩

theorem WatcherState.apply_congr {s t : WatcherState} (e : Event)
    (h : s.generation = t.generation ∧ s.state = t.state) :
    (s.apply e).generation = (t.apply e).generation ∧ (s.apply e).state = (t.apply e).state := by
  cases e with
  | started => exact ⟨rfl, rfl⟩
  | finished | cancelled => exact ⟨h.1, rfl⟩
  | tick | recoveryPhase => exact h
  | taskTerminal runId task =>
    have hs := WatcherState.apply_quiet (e := .taskTerminal runId task) rfl s
    have ht := WatcherState.apply_quiet (e := .taskTerminal runId task) rfl t
    exact ⟨hs.1.trans (h.1.trans ht.1.symm), hs.2.trans (h.2.trans ht.2.symm)⟩

/-- The slot after a stream is the slot after its milestones. -/
theorem shown_milestones (events : List Event) :
    (shown events).generation = (shown (events.filter Event.isMilestone)).generation ∧
      (shown events).state = (shown (events.filter Event.isMilestone)).state := by
  induction events using List.reverseRecOn with
  | nil => exact ⟨rfl, rfl⟩
  | append_singleton events e ih =>
    rw [List.filter_append, shown_append]
    cases he : e.isMilestone with
    | false =>
      have hquiet := WatcherState.apply_quiet he (shown events)
      rw [List.filter_cons_of_neg (by simp [he]), List.filter_nil, List.append_nil]
      exact ⟨hquiet.1.trans ih.1, hquiet.2.trans ih.2⟩
    | true =>
      rw [List.filter_cons_of_pos he, List.filter_nil, shown_append]
      exact WatcherState.apply_congr e ih

theorem milestones_eq_filter (trace : List Effect) :
    milestones trace = (trace.filterMap Effect.event?).filter Event.isMilestone := by
  induction trace with
  | nil => rfl
  | cons x trace ih =>
    cases x with
    | event e =>
      cases he : e.isMilestone <;>
        simpa [milestones, Effect.milestone?, Effect.event?, he] using ih
    | _ => exact ih

/-! ### What the slot shows -/

/-- The slot is about its own generation: it shows a terminal status only after that generation's
    terminal event and as this event carries it, and no other terminal event moves it. -/
structure Faithful (events : List Event) : Prop where
  own : (shown events).state.isTerminal = true →
    (∃ e ∈ events, e.ended? = some (shown events).generation) ∧
      ∀ e ∈ events, e.ended? = some (shown events).generation → e.status? = some (shown events).state
  other : ∀ before e after id, events = before ++ e :: after → e.ended? = some id →
    id ≠ (shown before).generation → (shown (before ++ [e])).state = (shown before).state

theorem append_singleton_eq_split {α : Type} {xs before after : List α} {x y : α}
    (h : xs ++ [x] = before ++ y :: after) :
    (xs = before ∧ x = y) ∨ ∃ rest, xs = before ++ y :: rest := by
  rcases List.eq_nil_or_concat after with rfl | ⟨rest, last, rfl⟩
  · obtain ⟨hxs, hx⟩ := List.append_inj' h rfl
    exact .inl ⟨hxs, List.singleton_inj.mp hx⟩
  · rw [List.concat_eq_append, ← List.cons_append, ← List.append_assoc] at h
    exact .inr ⟨rest, (List.append_inj' h rfl).1⟩

theorem Faithful.nil : Faithful [] where
  own h := by cases h
  other before e after id h := by simp at h

/-- Beginning a generation. -/
theorem Faithful.started {events : List Event} (h : Faithful events) (metadata : RunMetadata)
    (commands : List String) : Faithful (events ++ [.started metadata commands]) where
  own hterminal := by
    rw [shown_append] at hterminal
    cases hterminal
  other before e after id hsplit hended hother := by
    rcases append_singleton_eq_split hsplit with ⟨-, rfl⟩ | ⟨rest, hrest⟩
    · cases hended
    · exact h.other before e rest id hrest hended hother

/-- Ending the generation that is shown, for the first time. -/
theorem Faithful.ended {events : List Event} (h : Faithful events) {e : Event} {id : Nat}
    (hended : e.ended? = some id) (hshown : (shown events).generation = id)
    (hfirst : ∀ other ∈ events, other.ended? ≠ some id) : Faithful (events ++ [e]) where
  own _ := by
    obtain ⟨hgeneration, hstatus⟩ := WatcherState.apply_ended hended (shown events)
    rw [shown_append, hgeneration, hshown]
    refine ⟨⟨e, by simp, hended⟩, fun other hother hsame => ?_⟩
    rcases List.mem_append.mp hother with hother | hother
    · exact absurd hsame (hfirst other hother)
    · rw [List.mem_singleton.mp hother]
      exact hstatus
  other before other after id' hsplit hended' hne := by
    rcases append_singleton_eq_split hsplit with ⟨rfl, rfl⟩ | ⟨rest, hrest⟩
    · rw [hended] at hended'
      exact absurd (Option.some.inj hended' ▸ hshown) (Ne.symm hne)
    · exact h.other before other rest id' hrest hended' hne

/-- Discarding a generation that is not shown, while a cancellation is. -/
theorem Faithful.discarded {events : List Event} (h : Faithful events) {id : Nat}
    (successor : Option Nat) (hcancelled : (shown events).state = .cancelled)
    (hother : id ≠ (shown events).generation) : Faithful (events ++ [.cancelled id successor]) where
  own _ := by
    rw [shown_append]
    obtain ⟨⟨e, he, hended⟩, hown⟩ := h.own (by rw [hcancelled]; rfl)
    refine ⟨⟨e, List.mem_append_left _ he, hended⟩, fun e' he' hsame => ?_⟩
    rcases List.mem_append.mp he' with he' | he'
    · rw [hown e' he' hsame, hcancelled]
      rfl
    · rw [List.mem_singleton.mp he'] at hsame
      exact absurd (Option.some.inj hsame) hother
  other before e after id' hsplit hended hne := by
    rcases append_singleton_eq_split hsplit with ⟨rfl, rfl⟩ | ⟨rest, hrest⟩
    · rw [shown_append, hcancelled]
      rfl
    · exact h.other before e rest id' hrest hended hne

theorem Faithful.discards {discarded : List (Nat × Option Nat)} : ∀ {events : List Event},
    Faithful events → (shown events).state = .cancelled →
    (∀ d ∈ discarded, d.1 ≠ (shown events).generation) →
    Faithful (events ++ discarded.map fun d => .cancelled d.1 d.2) := by
  induction discarded with
  | nil =>
    intro events h _ _
    simpa using h
  | cons d discarded ih =>
    intro events h hcancelled hother
    have hfirst := h.discarded d.2 hcancelled (hother d List.mem_cons_self)
    have hrest := ih hfirst (by rw [shown_append]; rfl) (by
      intro d' hd'
      rw [shown_append]
      exact hother d' (List.mem_cons_of_mem _ hd'))
    simpa using hrest

/-- What holds of the milestones of a stream holds of the stream. -/
theorem Faithful.of_milestones {events : List Event} (h : Faithful (events.filter Event.isMilestone)) :
    Faithful events := by
  have hmilestone : ∀ {e : Event} {id : Nat}, e.ended? = some id → e.isMilestone = true := by
    intro e id he
    cases e with
    | started | finished | cancelled => rfl
    | tick | taskTerminal | recoveryPhase => cases he
  obtain ⟨hgeneration, hstate⟩ := shown_milestones events
  constructor
  · intro hterminal
    rw [hstate] at hterminal
    obtain ⟨⟨e, he, hended⟩, hown⟩ := h.own hterminal
    rw [hgeneration, hstate]
    refine ⟨⟨e, (List.mem_filter.mp he).1, hended⟩, fun e' he' hsame => ?_⟩
    exact hown e' (List.mem_filter.mpr ⟨he', hmilestone hsame⟩) hsame
  · rintro before e after id rfl hended hother
    obtain ⟨hgeneration, hstate⟩ := shown_milestones before
    have hafter := (shown_milestones (before ++ [e])).2
    rw [List.filter_append, List.filter_cons_of_pos (hmilestone hended), List.filter_nil] at hafter
    rw [hafter, hstate]
    refine h.other (before.filter Event.isMilestone) e (after.filter Event.isMilestone) id ?_ hended ?_
    · rw [List.filter_append, List.filter_cons_of_pos (hmilestone hended)]
    · rwa [← hgeneration]

/-! ### Runs -/

def Event.isCancelled : Event → Bool
  | .cancelled _ _ => true
  | _ => false

/-- A rewrite of the queue discards no generation, unless the last milestone is a cancellation. -/
def State.Undisturbed (s : State W) : Label → Prop
  | .enqueue i =>
    match s.senders[i]? with
    | some (.signalled m _) => (Funzzy.enqueue s.queue m).discarded = [] ∨
        (milestones s.io.trace).getLast?.map Event.isCancelled = some true
    | _ => True
  | _ => True

instance (s : State W) (l : Label) : Decidable (s.Undisturbed l) := by
  unfold State.Undisturbed
  split
  · split <;> infer_instance
  · infer_instance

/-- The slot is faithful, and it shows the generation that runs. -/
structure State.Projects (s : State W) : Prop where
  faithful : Faithful (milestones s.io.trace)
  running : ∀ id ∈ s.running, (shown (milestones s.io.trace)).generation = id

theorem shown_of_last_cancelled {events : List Event}
    (h : events.getLast?.map Event.isCancelled = some true) : (shown events).state = .cancelled := by
  obtain ⟨last, hlast, hcancelled⟩ := Option.map_eq_some_iff.mp h
  obtain ⟨before, rfl⟩ := List.getLast?_eq_some_iff.mp hlast
  rw [shown_append]
  cases last with
  | cancelled => rfl
  | started | finished | tick | taskTerminal | recoveryPhase => cases hcancelled

theorem Census.running_not_ended {failFast : Bool} {s : State W} (h : Census failFast s) {id : Nat}
    (hrunning : id ∈ s.running) : id ∉ s.ended := by
  intro hended
  have honce := h.once id
  simp only [State.census, List.count_append] at honce
  have hruns := List.count_pos_iff.mpr hrunning
  have hends := List.count_pos_iff.mpr hended
  omega

theorem Census.waiting_not_ended {failFast : Bool} {s : State W} (h : Census failFast s) {id : Nat}
    (hwaiting : id ∈ s.waiting) : id ∉ s.ended := by
  intro hended
  have honce := h.once id
  simp only [State.census, List.count_append] at honce
  have hwaits := List.count_pos_iff.mpr hwaiting
  have hends := List.count_pos_iff.mpr hended
  omega

/-- A turn of the consumer ends the generation that is shown, or shows another one. -/
theorem Turns.projects {failFast : Bool} {s s' : State W} (h : Turns s s')
    (hcensus : Census failFast s) (hs : s.Projects) : s'.Projects := by
  obtain ⟨events, hevents, hturn⟩ := h
  -- the generation in the consumer's hand has no terminal event yet
  have hends : ∀ (e : Event) (id : Nat), e.ended? = some id → s.running = [id] → s'.running = [] →
      events = [e] → s'.Projects := by
    rintro e id hended hrunning hnone rfl
    have hid : id ∈ s.running := by simp [hrunning]
    have hfirst : ∀ other ∈ milestones s.io.trace, other.ended? ≠ some id := by
      intro other hother hsame
      exact hcensus.running_not_ended hid (List.mem_filterMap.mpr ⟨other, hother, hsame⟩)
    refine ⟨?_, by simp [hnone]⟩
    rw [hevents]
    exact hs.faithful.ended hended (hs.running id hid) hfirst
  cases hturn with
  | quiet hrunning =>
    rw [List.append_nil] at hevents
    exact ⟨by rw [hevents]; exact hs.faithful, by rw [hevents, hrunning]; exact hs.running⟩
  | begun metadata commands hnone hrunning =>
    refine ⟨by rw [hevents]; exact hs.faithful.started metadata commands, ?_⟩
    rw [hevents, hrunning, shown_append]
    intro id hid
    rw [List.mem_singleton.mp hid]
    rfl
  | finished id supersededBy elapsed failures hrunning hnone =>
    exact hends _ id rfl hrunning hnone rfl
  | cancelled id successor hrunning hnone => exact hends _ id rfl hrunning hnone rfl

theorem enqueue_projects {failFast : Bool} {s s' : State W} {m : Message} (hcensus : Census failFast s)
    (hs : s.Projects) (hrunning : s'.running = s.running)
    (hevents : milestones s'.io.trace = milestones s.io.trace
      ++ (enqueue s.queue m).discarded.map fun d => Event.cancelled d.1 d.2)
    (hcond : (enqueue s.queue m).discarded = [] ∨
      (milestones s.io.trace).getLast?.map Event.isCancelled = some true) : s'.Projects := by
  rcases hcond with hnone | hlast
  · rw [hnone, List.map_nil, List.append_nil] at hevents
    exact ⟨by rw [hevents]; exact hs.faithful, by rw [hevents, hrunning]; exact hs.running⟩
  · have hcancelled := shown_of_last_cancelled hlast
    -- what is shown has ended, so it is not in the queue
    obtain ⟨⟨e, he, hended⟩, -⟩ := hs.faithful.own (by rw [hcancelled]; rfl)
    have hshown : (shown (milestones s.io.trace)).generation ∈ s.ended :=
      List.mem_filterMap.mpr ⟨e, he, hended⟩
    have hother : ∀ d ∈ (enqueue s.queue m).discarded,
        d.1 ≠ (shown (milestones s.io.trace)).generation := by
      intro d hd heq
      have hqueued := (enqueue_rewrites s.queue m).discarded_queued d hd
      have hwaiting : d.1 ∈ s.waiting := by simp [State.waiting, hqueued]
      exact hcensus.waiting_not_ended hwaiting (heq ▸ hshown)
    refine ⟨by rw [hevents]; exact hs.faithful.discards hcancelled hother, ?_⟩
    intro id hid
    rw [hrunning] at hid
    exact absurd (hs.running id hid ▸ hshown) (hcensus.running_not_ended hid)

theorem Happens.projects {ex : LawfulExecutor} {env : Env W} {s s' : State W} {l : Label}
    (h : Happens ex env s l s') (hcensus : Census ex.failFast s) (hcond : s.Undisturbed l)
    (hs : s.Projects) : s'.Projects := by
  rcases h.turns_or_discards hcensus.sound hcensus.shaped with
    hturns | ⟨i, m, next, rfl, hi, hrunning, hmilestones⟩
  · exact hturns.projects hcensus hs
  · simp only [State.Undisturbed, hi] at hcond
    exact enqueue_projects hcensus hs hrunning hmilestones hcond

/-- In every state reached by undisturbed steps the watcher state is faithful to the events. -/
theorem State.projection_faithful (ex : LawfulExecutor) (env : Env W) (world : W) (labels : List Label)
    (hcond : Machine.Meets (State.step ex env) State.Undisturbed (State.initial world) labels)
    (s : State W) (h : Machine.after (State.step ex env) (State.initial world) labels = some s) :
    Faithful s.events := by
  have hinvariant := Machine.invariant (State.step ex env)
    (I := fun s => Census ex.failFast s ∧ s.Projects)
    (fun s l s' hs hcond hstep => by
      have hhappens := step_happens hstep
      exact ⟨hhappens.census hs.1, hhappens.projects hs.1 hcond hs.2⟩)
    labels (State.initial world) s
    ⟨State.initial_census ex.failFast world, Faithful.nil, by intro id hid; cases hid⟩ hcond h
  refine Faithful.of_milestones ?_
  rw [State.events, ← milestones_eq_filter]
  exact hinvariant.2.faithful

/-- A generation that is replaced while it runs, and its successor: both ends are shown as their own. -/
theorem State.projection_faithful_at_build :
    ∃ s, Machine.after (State.step {} (steadyEnv fun _ => none)) (State.initial ())
        (scheduled "build" ++ List.replicate 4 (.consume 0) ++ scheduled "test"
          ++ List.replicate 2 (.consume 0)) = some s ∧
      (shown s.events).state = .cancelled ∧ Faithful s.events :=
  ⟨_, rfl, by decide, State.projection_faithful {} (steadyEnv fun _ => none) ()
    (scheduled "build" ++ List.replicate 4 (.consume 0) ++ scheduled "test"
      ++ List.replicate 2 (.consume 0)) (by decide) _ rfl⟩

/-- A queued generation is discarded while another one runs: the slot shows the running one as
    cancelled. -/
theorem State.projection_overwritten :
    ∃ s, Machine.after (State.step {} (steadyEnv fun _ => none)) (State.initial ())
        (scheduled "build" ++ List.replicate 4 (.consume 0) ++ scheduled "test" ++ scheduled "lint")
        = some s ∧
      s.running = [1] ∧ (shown s.events).generation = 1 ∧ (shown s.events).state = .cancelled ∧
      ¬Faithful s.events := by
  refine ⟨_, rfl, by decide, by decide, by decide, fun h => ?_⟩
  obtain ⟨e, he, hended⟩ := (h.own (by decide)).1
  revert e
  decide

end Funzzy
