import Funzzy.Await.Coordinator
import Funzzy.Worker.Emission

/-! The non-blocking session as one machine (`watch_non_block.rs`, `watch_loop.rs`, `awaiting.rs`): the
    worker, the event callback with what listens to it, the watch loop's batch handler and the clients
    that await.

    An event is handed to the recorder, the coordinator, the watcher state and the snapshot broker one
    after the other, by the thread that emits it: the consumer, or a sender that discards queued
    generations. A thread goes on only when its callbacks are done, and a sender makes its callbacks
    while it holds the queue's lock. What the broker publishes is read by no client modelled here. -/

namespace Funzzy

variable {W : Type}

/-! ### Answers -/

/-- Freshness classification. -/
inductive Freshness where | current | stale | unknown
  deriving DecidableEq

/-- Current only when the snapshot is the latest generation, terminal, and no debounce work is
    pending. -/
def classify (snapshot : WatcherState) (latestGeneration : Nat) (pending : PendingWork) : Freshness :=
  if snapshot.generation = latestGeneration ∧ snapshot.state.isTerminal = true ∧ pending.isEmpty = true then
    .current
  else if snapshot.generation < latestGeneration ∨ pending.isEmpty = false then .stale
  else .unknown

/-- The names of the failed tasks a snapshot shows. -/
def WatcherState.failedTasks (s : WatcherState) : List String :=
  (s.tasks.filter fun task => task.state = .failed).map (·.name)

/-- One await observation. `evidence` is what the output registry is asked for: a generation, and the
    failed tasks it should prefer. -/
structure AwaitResult where
  snapshot : WatcherState
  terminalReason : TerminalReason
  latestGeneration : Nat
  latestBatch : Option Nat
  pendingWork : PendingWork
  freshness : Freshness
  evidence : Option (Nat × List String)
  deriving DecidableEq

/-- `build`, reading the snapshot while the observation is locked. -/
def AwaitInner.build (inner : AwaitInner) (snapshot : WatcherState) (reason : TerminalReason)
    (generation : Option Nat) : AwaitResult where
  snapshot
  terminalReason := reason
  latestGeneration := inner.latestGeneration
  latestBatch := inner.latestBatch
  pendingWork := inner.pendingWork
  freshness := classify snapshot inner.latestGeneration inner.pendingWork
  evidence := if reason = .failed then some (generation.getD 0, snapshot.failedTasks) else none

/-! ### The machine -/

/-- Which part of the callback comes next for an event. -/
inductive CallbackPc where | record | observe | apply | publish
  deriving DecidableEq

/-- The callbacks a thread has to make before it goes on, oldest event first. -/
structure Lane where
  pc : CallbackPc := .record
  events : List Event := []
  deriving DecidableEq

/-- Events the coordinator has yet to observe. -/
def Lane.unobserved (lane : Lane) : List Event :=
  match lane.pc with
  | .record | .observe => lane.events
  | .apply | .publish => lane.events.tail

/-- Events the watcher state has yet to apply. -/
def Lane.unapplied (lane : Lane) : List Event :=
  match lane.pc with
  | .record | .observe | .apply => lane.events
  | .publish => lane.events.tail

/-- The batch handler: idle, entered, with the batch noted, or with the batch routed and the scheduling
    request it made, if a task matched. -/
inductive BatchPc where
  | idle
  | received (batchId : Nat)
  | noted
  | routed (request : Option Nat)
  deriving DecidableEq

/-- A batch has been received and not yet routed. -/
def BatchPc.waits : BatchPc → Bool
  | .received _ | .noted => true
  | .idle | .routed _ => false

/-- An answer, and what was the case when it was built: the generation it is for, the generations
    scheduled and not ended, the batch handler, and the events the consumer has emitted. -/
structure Answered where
  result : AwaitResult
  generation : Option Nat
  outstanding : List Nat
  batch : BatchPc
  emitted : List Event

/-- The threads that emit events. -/
inductive Thread where | consumer | sender
  deriving DecidableEq

/-- The session. `emitted` and `applied` are history: the consumer's events, and the events the watcher
    state has applied, each with the thread whose callback did it. -/
structure Hub (W : Type) where
  worker : State W
  consumer : Lane := {}
  sender : Lane := {}
  recorder : DurationRecorder := {}
  coordinator : Coordinator := {}
  state : WatcherState := {}
  batch : BatchPc := .idle
  answers : List Answered := []
  emitted : List Event := []
  applied : List (Thread × Event) := []

def Hub.initial (world : W) : Hub W := { worker := State.initial world }

/-- The consumer's next step takes a command from the queue. -/
def State.readsQueue (s : State W) : Bool :=
  match s.pc with
  | .top => s.active.isNone && s.pending.isNone
  | .stepped | .draining => true
  | .registering | .advancing _ | .replacing _ _ _ | .retiring _ _ | .finishing _ | .exited => false

/-- The thread of a worker step has made its callbacks, and holds the queue's lock where it needs it. -/
def Hub.ready (h : Hub W) : Label → Prop
  | .consume _ => h.consumer.events = [] ∧ (h.worker.readsQueue = true → h.sender.events = [])
  | .enqueue _ => h.sender.events = []
  | _ => True

instance (h : Hub W) : ∀ l : Label, Decidable (h.ready l)
  | .consume _ =>
    inferInstanceAs (Decidable (h.consumer.events = [] ∧ (h.worker.readsQueue = true → h.sender.events = [])))
  | .enqueue _ => inferInstanceAs (Decidable (h.sender.events = []))
  | .call _ | .prepare _ _ | .signal _ | .close => inferInstanceAs (Decidable True)

/-- A step of the worker hands the events it emits to its thread's callbacks. -/
def Hub.advance (h : Hub W) (l : Label) (worker : State W) : Hub W :=
  let new := worker.events.drop h.worker.events.length
  match l with
  | .consume _ => { h with worker, consumer := { events := new }, emitted := h.emitted ++ new }
  | .enqueue _ => { h with worker, sender := { events := new } }
  | _ => { h with worker }

def Hub.lane (h : Hub W) : Thread → Lane
  | .consumer => h.consumer
  | .sender => h.sender

def Hub.setLane (h : Hub W) (thread : Thread) (lane : Lane) : Hub W :=
  match thread with
  | .consumer => { h with consumer := lane }
  | .sender => { h with sender := lane }

/-- The next part of a thread's first callback. -/
def Hub.callback (h : Hub W) (thread : Thread) : Option (Hub W) :=
  let lane := h.lane thread
  match lane.events, lane.pc with
  | [], _ => none
  | e :: _, .record =>
    some { h.setLane thread { lane with pc := .observe } with recorder := h.recorder.observe e }
  | e :: _, .observe =>
    (h.coordinator.step (.observe e)).map fun coordinator =>
      { h.setLane thread { lane with pc := .apply } with coordinator }
  | e :: _, .apply =>
    some { h.setLane thread { lane with pc := .publish } with
      state := h.state.apply e
      applied := h.applied ++ [(thread, e)] }
  | _ :: rest, .publish => some (h.setLane thread { events := rest })

/-- The scheduling request a client thread inside the worker belongs to. -/
def Sender.request? : Sender → Option Nat
  | .preparing _ request => request
  | .sending m _ | .signalled m _ => m.request

/-- The steps a client makes by itself. -/
def AwaitLabel.isClient : AwaitLabel → Bool
  | .arrive _ | .evaluate _ | .expire _ | .wait _ | .wake _ | .relock _ | .probe _ _ => true
  | .observe _ | .noteBatch _ | .noteBatchComplete | .answer _ => false

inductive HubLabel where
  | worker (l : Label)
  | callback (thread : Thread)
  | client (l : AwaitLabel)
  | answer (i : Nat)
  | receive (batchId : Nat)
  | note
  | unchanged
  | route (draft : Option RunRequest)
  | complete
  deriving DecidableEq

/-- A waiter that holds the observation builds its answer and leaves. -/
def Hub.answer (h : Hub W) (i : Nat) : Option (Hub W) :=
  match h.coordinator.waiters[i]? with
  | some { pc := .answering reason generation, .. } =>
    (h.coordinator.step (.answer i)).map fun coordinator =>
      { h with
        coordinator
        answers := h.answers ++
          [{ result := h.coordinator.inner.build h.state reason generation
             generation
             outstanding := h.worker.waiting ++ h.worker.running
             batch := h.batch
             emitted := h.emitted }] }
  | _ => none

def Hub.step (ex : Executor) (env : Env W) (h : Hub W) : HubLabel → Option (Hub W)
  | .worker l => if h.ready l then (h.worker.step ex env l).map (h.advance l) else none
  | .callback thread => h.callback thread
  | .client l =>
    if l.isClient then (h.coordinator.step l).map fun coordinator => { h with coordinator } else none
  | .answer i => h.answer i
  | .receive batchId => if h.batch = .idle then some { h with batch := .received batchId } else none
  | .note =>
    match h.batch with
    | .received batchId =>
      (h.coordinator.step (.noteBatch batchId)).map fun coordinator =>
        { h with coordinator, batch := .noted }
    | _ => none
  -- no path of the batch was really modified: the handler returns early
  | .unchanged => if h.batch = .noted then some { h with batch := .idle } else none
  | .route draft =>
    if h.batch = .noted then
      match draft with
      | some draft =>
        (h.worker.step ex env (.call (.request draft))).map fun worker =>
          { h with worker, batch := .routed (some h.worker.calls) }
      | none => some { h with batch := .routed none }
    else none
  -- the handler's own request has left the worker by then
  | .complete =>
    match h.batch with
    | .routed request =>
      if request.isSome ∧ (∃ sender ∈ h.worker.senders, sender.request? = request) then none
      else (h.coordinator.step .noteBatchComplete).map fun coordinator =>
        { h with coordinator, batch := .idle }
    | _ => none

/-! ### What a step can do -/

/-- A step that leaves the observation as it is. -/
def Coordinator.Keeps (c c' : Coordinator) : Prop := c'.inner = c.inner ∧ c'.observed = c.observed

theorem Coordinator.step_client {c c' : Coordinator} {l : AwaitLabel} (h : c.step l = some c')
    (hl : l.isClient = true ∨ ∃ i, l = .answer i) : c.Keeps c' := by
  have hmove : ∀ i w locked, c.Keeps (c.move i w locked) := fun i w locked => ⟨rfl, rfl⟩
  cases l with
  | observe | noteBatch | noteBatchComplete => simp [AwaitLabel.isClient] at hl
  | arrive mode =>
    cases h
    exact ⟨rfl, rfl⟩
  | evaluate i | expire i | wait i | wake i | relock i =>
    simp only [step] at h
    split at h
    · split at h
      · cases h
        exact hmove _ _ _
      · cases h
    · cases h
  | probe i gone =>
    simp only [step] at h
    split at h
    · split at h
      · split at h <;> cases h <;> exact hmove _ _ _
      · cases h
    · cases h
  | answer i =>
    simp only [step] at h
    split at h
    · split at h
      · cases h
        exact hmove _ _ _
      · cases h
    · cases h

/-- The steps of the session. -/
inductive Proceeds (ex : Executor) (env : Env W) (h : Hub W) : HubLabel → Hub W → Prop
  | worked (l : Label) (worker : State W) : h.ready l → Happens ex env h.worker l worker →
      Proceeds ex env h (.worker l) (h.advance l worker)
  | recorded (thread : Thread) (e : Event) (rest : List Event) :
      h.lane thread = ⟨.record, e :: rest⟩ →
      Proceeds ex env h (.callback thread)
        { h.setLane thread ⟨.observe, e :: rest⟩ with recorder := h.recorder.observe e }
  | observed (thread : Thread) (e : Event) (rest : List Event) :
      h.lane thread = ⟨.observe, e :: rest⟩ → h.coordinator.locked = false →
      Proceeds ex env h (.callback thread)
        { h.setLane thread ⟨.apply, e :: rest⟩ with coordinator := h.coordinator.observe e }
  | applied (thread : Thread) (e : Event) (rest : List Event) :
      h.lane thread = ⟨.apply, e :: rest⟩ →
      Proceeds ex env h (.callback thread)
        { h.setLane thread ⟨.publish, e :: rest⟩ with
          state := h.state.apply e
          applied := h.applied ++ [(thread, e)] }
  | published (thread : Thread) (e : Event) (rest : List Event) :
      h.lane thread = ⟨.publish, e :: rest⟩ →
      Proceeds ex env h (.callback thread) (h.setLane thread ⟨.record, rest⟩)
  | asked (l : AwaitLabel) (c : Coordinator) : h.coordinator.step l = some c →
      h.coordinator.Keeps c → Proceeds ex env h (.client l) { h with coordinator := c }
  | answered (i : Nat) (c : Coordinator) (mode : AwaitMode) (seen : List TerminalRecord)
      (reason : TerminalReason) (generation : Option Nat) :
      h.coordinator.waiters[i]? = some ⟨mode, .answering reason generation, seen⟩ →
      h.coordinator.step (.answer i) = some c → h.coordinator.Keeps c →
      Proceeds ex env h (.answer i)
        { h with
          coordinator := c
          answers := h.answers ++
            [{ result := h.coordinator.inner.build h.state reason generation
               generation
               outstanding := h.worker.waiting ++ h.worker.running
               batch := h.batch
               emitted := h.emitted }] }
  | received (batchId : Nat) : h.batch = .idle →
      Proceeds ex env h (.receive batchId) { h with batch := .received batchId }
  | noted (batchId : Nat) (c : Coordinator) : h.batch = .received batchId →
      h.coordinator.step (.noteBatch batchId) = some c →
      c = { h.coordinator with inner := h.coordinator.inner.noteBatch batchId } →
      Proceeds ex env h .note { h with coordinator := c, batch := .noted }
  | unchanged : h.batch = .noted → Proceeds ex env h .unchanged { h with batch := .idle }
  | routed (draft : RunRequest) : h.batch = .noted → h.worker.closed = false →
      Proceeds ex env h (.route (some draft))
        { h with
          worker := h.worker.call (.request draft)
          batch := .routed (some h.worker.calls) }
  | unmatched : h.batch = .noted → Proceeds ex env h (.route none) { h with batch := .routed none }
  | completed (request : Option Nat) (c : Coordinator) : h.batch = .routed request →
      h.coordinator.step .noteBatchComplete = some c →
      c = { h.coordinator with inner := h.coordinator.inner.noteBatchComplete } →
      Proceeds ex env h .complete { h with coordinator := c, batch := .idle }

theorem callback_proceeds {ex : LawfulExecutor} {env : Env W} {h h' : Hub W} {thread : Thread}
    (hstep : h.callback thread = some h') : Proceeds ex env h (.callback thread) h' := by
  unfold Hub.callback at hstep
  rcases hlane : h.lane thread with ⟨pc, events⟩
  simp only [hlane] at hstep
  split at hstep
  · cases hstep
  · cases hstep
    exact .recorded thread _ _ hlane
  · rename_i e rest
    obtain ⟨c, hc, rfl⟩ := Option.map_eq_some_iff.mp hstep
    simp only [Coordinator.step] at hc
    split at hc
    · cases hc
    · rename_i hfree
      cases hc
      exact .observed thread e rest hlane (by simpa using hfree)
  · cases hstep
    exact .applied thread _ _ hlane
  · cases hstep
    exact .published thread _ _ hlane

theorem answer_proceeds {ex : LawfulExecutor} {env : Env W} {h h' : Hub W} {i : Nat}
    (hstep : h.answer i = some h') : Proceeds ex env h (.answer i) h' := by
  unfold Hub.answer at hstep
  split at hstep
  · rename_i mode reason generation seen hi
    obtain ⟨c, hc, rfl⟩ := Option.map_eq_some_iff.mp hstep
    exact .answered i c _ _ _ _ hi hc (Coordinator.step_client hc (.inr ⟨i, rfl⟩))
  · cases hstep

theorem Hub.step_proceeds {ex : LawfulExecutor} {env : Env W} {h h' : Hub W} {l : HubLabel}
    (hstep : h.step ex env l = some h') : Proceeds ex env h l h' := by
  cases l with
  | worker l =>
    simp only [Hub.step] at hstep
    split at hstep
    · rename_i hready
      obtain ⟨worker, hworker, rfl⟩ := Option.map_eq_some_iff.mp hstep
      exact .worked l worker hready (step_happens hworker)
    · cases hstep
  | callback thread => exact callback_proceeds hstep
  | client l =>
    simp only [Hub.step] at hstep
    split at hstep
    · rename_i hclient
      obtain ⟨c, hc, rfl⟩ := Option.map_eq_some_iff.mp hstep
      exact .asked l c hc (Coordinator.step_client hc (.inl hclient))
    · cases hstep
  | answer i => exact answer_proceeds hstep
  | receive batchId =>
    simp only [Hub.step] at hstep
    split at hstep
    · rename_i hidle
      cases hstep
      exact .received batchId hidle
    · cases hstep
  | note =>
    simp only [Hub.step] at hstep
    split at hstep
    · rename_i batchId hbatch
      obtain ⟨c, hc, rfl⟩ := Option.map_eq_some_iff.mp hstep
      refine .noted batchId c hbatch hc ?_
      simp only [Coordinator.step] at hc
      split at hc
      · cases hc
      · exact (Option.some.inj hc).symm
    · cases hstep
  | unchanged =>
    simp only [Hub.step] at hstep
    split at hstep
    · rename_i hnoted
      cases hstep
      exact .unchanged hnoted
    · cases hstep
  | route draft =>
    simp only [Hub.step] at hstep
    split at hstep
    · rename_i hnoted
      cases draft with
      | none =>
        cases hstep
        exact .unmatched hnoted
      | some draft =>
        obtain ⟨worker, hworker, rfl⟩ := Option.map_eq_some_iff.mp hstep
        simp only [State.step] at hworker
        split at hworker
        · cases hworker
        · rename_i hopen
          cases hworker
          exact .routed draft hnoted (by simpa using hopen)
    · cases hstep
  | complete =>
    simp only [Hub.step] at hstep
    split at hstep
    · rename_i request hbatch
      split at hstep
      · cases hstep
      · obtain ⟨c, hc, rfl⟩ := Option.map_eq_some_iff.mp hstep
        refine .completed request c hbatch hc ?_
        simp only [Coordinator.step] at hc
        split at hc
        · cases hc
        · exact (Option.some.inj hc).symm
    · cases hstep

/-- What a step adds to the answers. -/
theorem Proceeds.answers {ex : LawfulExecutor} {env : Env W} {h h' : Hub W} {l : HubLabel}
    (hstep : Proceeds ex env h l h') :
    h'.answers = h.answers ∨ ∃ i mode seen reason generation, l = .answer i ∧
      h.coordinator.waiters[i]? = some ⟨mode, .answering reason generation, seen⟩ ∧
      h'.answers = h.answers ++
        [{ result := h.coordinator.inner.build h.state reason generation
           generation
           outstanding := h.worker.waiting ++ h.worker.running
           batch := h.batch
           emitted := h.emitted }] := by
  cases hstep with
  | worked l worker => cases l <;> exact .inl rfl
  | recorded thread | observed thread | applied thread | published thread =>
    cases thread <;> exact .inl rfl
  | answered i c mode seen reason generation hi =>
    exact .inr ⟨i, mode, seen, reason, generation, rfl, hi, rfl⟩
  | asked | received | unchanged | unmatched | routed | noted | completed => exact .inl rfl

/-! ### Runs of one generation -/

/-- Steps of the consumer, with one poll where it waits. -/
def consumes (steps : Nat) : List HubLabel := List.replicate steps (.worker (.consume 1))

/-- The consumer's callbacks for one event. -/
def callbacks : List HubLabel := List.replicate 4 (.callback .consumer)

/-- A generation of one task is scheduled and runs to its end, short of the callbacks for its Finished
    event. -/
def finishing (name : String) : List HubLabel :=
  (scheduled name).map .worker ++ consumes 1 ++ callbacks ++ consumes 3 ++ callbacks ++ consumes 3
    ++ callbacks ++ consumes 1

/-- The generation has ended and everyone knows. -/
def concluded (name : String) : List HubLabel := finishing name ++ callbacks

/-- A client awaits a generation and is answered at once. -/
def awaited (generation : Nat) : List HubLabel :=
  [.client (.arrive (.exact generation)), .client (.evaluate 0), .answer 0]

end Funzzy
