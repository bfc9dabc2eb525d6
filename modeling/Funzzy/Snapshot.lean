import Funzzy.Await.Hub
import Funzzy.Lib.Machine
import Mathlib.Data.List.Chain

/-! The snapshot broker (`snapshot.rs`) and the threads that publish through it (`watch_non_block.rs`).

    A snapshot is built from five sources that are read one after the other, each under its own lock; the
    broker's lock is taken only when it is built. The publishers are the worker's event callback and the
    reload thread's lifecycle watcher: each changes some of the sources and then calls `publish`. The
    batch handler changes the coordinator's facts and publishes nothing. -/

namespace Funzzy

/-- `ConfigPhase` -/
inductive ConfigPhase where | idle | configReloading | configReloaded | configInvalid
  deriving DecidableEq

/-- `ConfigTransition` -/
structure ConfigTransition where
  phase : ConfigPhase := .idle
  revision : Option Nat := none
  revisionHash : Option String := none
  reason : Option String := none
  ordinal : Nat := 0
  atEpochMs : Nat := 0
  deriving DecidableEq

/-- `WatcherInstance` -/
structure WatcherInstance where
  token : String
  startedAtEpochMs : Nat
  deriving DecidableEq

/-- `CorrelatedSnapshot`. Estimates and failure evidence are carried and compared, never looked into. -/
structure CorrelatedSnapshot (E F : Type) where
  watcherInstance : WatcherInstance
  generation : Nat
  batchId : String
  state : WatcherExecutionState
  trigger : Option String
  commands : List String
  tasks : List TaskSnapshot
  pending : Nat
  freshness : Freshness
  durationMs : Option Nat
  failures : List String
  paths : List String
  estimate : Option E
  configuredConcurrency : Nat
  effectiveConcurrency : Nat
  concurrencySource : Option String
  revision : Option Nat
  revisionHash : Option String
  configLifecycle : Option ConfigTransition
  failureEvidence : Option F
  deriving DecidableEq

namespace SnapshotBroker

/-- `AwaitCoordinator::snapshot_facts`, read under one lock. -/
structure Facts where
  latestGeneration : Nat := 0
  latestBatch : Option Nat := none
  pendingWork : PendingWork := {}
  deriving DecidableEq

/-- What a snapshot is built from: the coordinator's facts, the watcher state, the recorder's estimates,
    the retained output and the configuration lifecycle. -/
structure Sources (E F : Type) where
  facts : Facts
  state : WatcherState
  estimates : Nat → Option E
  failureEvidence : Nat → List String → Option F
  lifecycle : Option ConfigTransition

/-- What a broker is made with. -/
structure Settings where
  watcherInstance : WatcherInstance
  configuredConcurrency : Nat
  deriving DecidableEq

variable {E F : Type} (config : Settings)

/-- `build`, from what it has read. -/
def build (s : Sources E F) : CorrelatedSnapshot E F where
  watcherInstance := config.watcherInstance
  generation := s.state.generation
  batchId := (s.state.batch.map fun batch => s!"b-{batch}").getD ""
  state := s.state.state
  trigger := s.state.trigger
  commands := s.state.commands
  tasks := s.state.tasks
  pending := s.facts.pendingWork.queuedBatches
  freshness := classify s.state s.facts.latestGeneration s.facts.pendingWork
  durationMs := s.state.durationMs
  failures := s.state.failures
  paths := s.state.changed
  estimate := s.estimates s.state.generation
  configuredConcurrency := config.configuredConcurrency
  effectiveConcurrency := s.state.effectiveConcurrency.getD config.configuredConcurrency
  concurrencySource := some (s.state.concurrencySource.getD "config")
  revision := s.state.revision
  revisionHash := s.state.revisionHash
  configLifecycle := s.lifecycle
  failureEvidence :=
    if s.state.state = .failed then s.failureEvidence s.state.generation s.state.failedTasks else none

/-! ### Subscribers -/

/-- `SUBSCRIBER_BUFFER` -/
def subscriberBuffer : Nat := 16

/-- A subscriber with its channel: how many snapshots had been published when it subscribed, the snapshot
    it got at once, what it has received since, what is in its channel, whether the broker still holds the
    sender, and whether the receiver is still there. -/
structure Subscriber (S : Type) where
  start : Nat
  first : S
  received : List S := []
  queue : List S := []
  connected : Bool := true
  listening : Bool := true
  deriving DecidableEq

namespace Subscriber

variable {S : Type}

/-- What has been delivered after the immediate snapshot. -/
def delivered (c : Subscriber S) : List S := c.received ++ c.queue

/-- The last snapshot delivered. -/
def latest (c : Subscriber S) : S := c.delivered.getLastD c.first

/-- `try_send`, and `retain` by its result: a channel that is full or has no receiver is let go. -/
def trySend (snapshot : S) (c : Subscriber S) : Subscriber S :=
  if c.connected then
    if c.listening && c.queue.length < subscriberBuffer then { c with queue := c.queue ++ [snapshot] }
    else { c with connected := false }
  else c

end Subscriber

/-! ### The machine -/

/-- What a publish call does next: one of the reads of `build`, or the section under the broker's lock. -/
inductive Stage where | facts | state | estimates | failureEvidence | lifecycle | store | done
  deriving DecidableEq

/-- A publish call. What it has not read yet is overwritten when it reads it. `fresh` is history: no source
    has changed since the call began. -/
structure Call (E F : Type) where
  stage : Stage := .facts
  reads : Sources E F
  fresh : Bool := true

/-- The next read of `build`. -/
def Call.read (call : Call E F) (s : Sources E F) : Option (Call E F) :=
  match call.stage with
  | .facts => some { call with stage := .state, reads := { call.reads with facts := s.facts } }
  | .state => some { call with stage := .estimates, reads := { call.reads with state := s.state } }
  | .estimates =>
    some { call with stage := .failureEvidence, reads := { call.reads with estimates := s.estimates } }
  | .failureEvidence =>
    some { call with stage := .lifecycle
                     reads := { call.reads with failureEvidence := s.failureEvidence } }
  | .lifecycle => some { call with stage := .store, reads := { call.reads with lifecycle := s.lifecycle } }
  | .store | .done => none

/-- The broker with its surroundings. `publishing` counts the publishers that are changing sources and
    have yet to call `publish`. History: every snapshot published, the seed first, and whether a source
    has changed since the last publish call began. -/
structure Broker (E F : Type) where
  sources : Sources E F
  last : CorrelatedSnapshot E F
  subscribers : List (Subscriber (CorrelatedSnapshot E F)) := []
  calls : List (Call E F) := []
  publishing : Nat := 0
  published : List (CorrelatedSnapshot E F)
  dirty : Bool := false

/-- A new broker is seeded with the snapshot of its sources. -/
def new (sources : Sources E F) : Broker E F where
  sources
  last := build config sources
  published := [build config sources]

inductive Label (E F : Type) where
  /-- A publisher's callback begins. -/
  | enter
  /-- A source changes, by a publisher or by the batch handler. -/
  | change (sources : Sources E F)
  /-- A publisher calls `publish`. -/
  | publish
  /-- A publish call makes its next read. -/
  | read (i : Nat)
  /-- A publish call takes the broker's lock with what it has built. -/
  | store (i : Nat)
  | subscribe
  /-- A subscriber takes the next snapshot from its channel. -/
  | receive (j : Nat)
  /-- A subscriber's receiver is dropped. -/
  | leave (j : Nat)

/-- The section of `publish` under the lock. -/
def Broker.store [DecidableEq E] [DecidableEq F] (b : Broker E F) (snapshot : CorrelatedSnapshot E F) :
    Broker E F :=
  if b.last = snapshot then b
  else
    { b with last := snapshot
             subscribers := b.subscribers.map (Subscriber.trySend snapshot)
             published := b.published ++ [snapshot] }

def step [DecidableEq E] [DecidableEq F] (b : Broker E F) : Label E F → Option (Broker E F)
  | .enter => some { b with publishing := b.publishing + 1 }
  | .change sources =>
    some { b with sources, calls := b.calls.map fun call => { call with fresh := false }, dirty := true }
  | .publish =>
    if 0 < b.publishing then
      some { b with calls := b.calls ++ [{ reads := b.sources }]
                    publishing := b.publishing - 1, dirty := false }
    else none
  | .read i =>
    (b.calls[i]?).bind fun call => (call.read b.sources).map fun call' =>
      { b with calls := b.calls.set i call' }
  | .store i =>
    (b.calls[i]?).bind fun call =>
      if call.stage = .store then
        some { b.store (build config call.reads) with calls := b.calls.set i { call with stage := .done } }
      else none
  | .subscribe =>
    some { b with subscribers := b.subscribers ++ [{ start := b.published.length, first := b.last }] }
  | .receive j =>
    (b.subscribers[j]?).bind fun c =>
      match c.queue with
      | [] => none
      | snapshot :: rest =>
        if c.listening then
          some { b with subscribers := b.subscribers.set j
                          { c with received := c.received ++ [snapshot], queue := rest } }
        else none
  | .leave j =>
    (b.subscribers[j]?).map fun c =>
      { b with subscribers := b.subscribers.set j { c with listening := false } }

/-! ### What should hold -/

/-- Delivery to one subscriber. The number of a snapshot is its place among those published: the
    immediate snapshot is the one published last before the subscription, and those delivered since bear
    the numbers `start`, `start + 1` and so on, up to the last one published as long as the broker holds
    the subscriber. -/
structure Delivered {S : Type} (published : List S) (c : Subscriber S) : Prop where
  immediate : 0 < c.start ∧ published[c.start - 1]? = some c.first
  numbered : c.delivered.map some
    = (List.range' c.start c.delivered.length).map fun number => published[number]?
  complete : c.connected = true → c.start + c.delivered.length = published.length

/-- A publisher has yet to call `publish`, or a call that may bring the latest change is under way: one
    begun since, or any one when none was begun since. -/
def Broker.Waits (b : Broker E F) : Prop :=
  0 < b.publishing ∨ ∃ call ∈ b.calls, call.stage ≠ .done ∧ (call.fresh = true ∨ b.dirty = true)

/-- The broker delivers: every subscriber has its run of the published snapshots, of which no two
    neighbours are equal, and once the publish calls are through, the last snapshot delivered is that of
    the sources as the latest change left them. -/
structure Delivers (b : Broker E F) : Prop where
  runs : ∀ c ∈ b.subscribers, Delivered b.published c
  distinct : b.published.IsChain (· ≠ ·)
  last : ¬b.Waits → b.last = build config b.sources
  latest : ¬b.Waits → ∀ c ∈ b.subscribers, c.connected = true → c.latest = build config b.sources

/-- The step leaves no stale snapshot behind. A publish call stores what the sources give now, or a call
    that may bring the latest change is still to store; a source changes while a publisher or a publish
    call is under way, or what the snapshot shows does not change. -/
def InTime (b : Broker E F) : Label E F → Prop
  | .store i => ∀ call, b.calls[i]? = some call →
      build config call.reads = build config b.sources ∨ 0 < b.publishing
        ∨ ∃ j other, j ≠ i ∧ b.calls[j]? = some other ∧ other.stage ≠ .done
            ∧ (other.fresh = true ∨ b.dirty = true)
  | .change sources =>
    0 < b.publishing ∨ (∃ call ∈ b.calls, call.stage ≠ .done) ∨ b.last = build config sources
  | _ => True

/-! ### Delivery -/

section Delivery

variable {S : Type} {published : List S} {c : Subscriber S}

theorem numbered_iff (n : Nat) (xs ys : List S) :
    xs.map some = (List.range' n xs.length).map (fun number => ys[number]?) ↔ xs <+: ys.drop n := by
  rw [List.prefix_iff_getElem?]
  constructor
  · intro h i hi
    have hget := congrArg (fun zs => zs[i]?) h
    simp only [List.getElem?_map, List.getElem?_range' hi, List.getElem?_eq_getElem hi, Option.map_some,
      Option.some.injEq] at hget
    rw [List.getElem?_drop]
    simpa using hget.symm
  · intro h
    refine List.ext_getElem (by simp) fun i hi _ => ?_
    rw [List.length_map] at hi
    have hget := h i hi
    rw [List.getElem?_drop] at hget
    simp [hget]

theorem Delivered.isPrefix (h : Delivered published c) : c.delivered <+: published.drop c.start :=
  (numbered_iff _ _ _).mp h.numbered

/-- While the broker holds a subscriber, it has everything published since it subscribed. -/
theorem Delivered.eq_drop (h : Delivered published c) (hconnected : c.connected = true) :
    c.delivered = published.drop c.start := by
  refine h.isPrefix.eq_of_length ?_
  rw [List.length_drop, ← h.complete hconnected]
  omega

/-- So the last snapshot delivered is the last one published. -/
theorem Delivered.latest_eq (h : Delivered published c) (hconnected : c.connected = true) :
    published.getLast? = some c.latest := by
  obtain ⟨hpos, hfirst⟩ := h.immediate
  have hdelivered := h.eq_drop hconnected
  rw [Subscriber.latest, List.getLastD_eq_getLast?]
  cases hlast : c.delivered.getLast? with
  | none =>
    rw [List.getLast?_eq_none_iff] at hlast
    have hlength := h.complete hconnected
    rw [hlast, List.length_nil, Nat.add_zero] at hlength
    rw [List.getLast?_eq_getElem?, ← hlength, hfirst]
    rfl
  | some snapshot =>
    rw [hdelivered, List.getLast?_drop] at hlast
    split at hlast
    · cases hlast
    · exact hlast

theorem Delivered.start_le (h : Delivered published c) : c.start ≤ published.length := by
  obtain ⟨hpos, hfirst⟩ := h.immediate
  have hbound := (List.getElem?_eq_some_iff.mp hfirst).1
  omega

/-- A subscriber that gets nothing more keeps its run. -/
theorem Delivered.miss (h : Delivered published c) (snapshot : S) {c' : Subscriber S}
    (hconnected : c'.connected = false) (hstart : c'.start = c.start) (hfirst : c'.first = c.first)
    (hdelivered : c'.delivered = c.delivered) : Delivered (published ++ [snapshot]) c' where
  immediate := by
    rw [hstart, hfirst, List.getElem?_append_left (List.getElem?_eq_some_iff.mp h.immediate.2).1]
    exact h.immediate
  numbered := by
    rw [numbered_iff, hdelivered, hstart, List.drop_append_of_le_length h.start_le]
    exact List.prefix_append_of_prefix h.isPrefix
  complete hheld := by
    rw [hconnected] at hheld
    cases hheld

/-- One more snapshot is published. -/
theorem Delivered.trySend (h : Delivered published c) (snapshot : S) :
    Delivered (published ++ [snapshot]) (c.trySend snapshot) := by
  rw [Subscriber.trySend]
  by_cases hconnected : c.connected = true
  · rw [if_pos hconnected]
    split
    · have hdelivered : Subscriber.delivered { c with queue := c.queue ++ [snapshot] }
          = (published ++ [snapshot]).drop c.start := by
        rw [List.drop_append_of_le_length h.start_le, ← h.eq_drop hconnected]
        exact (List.append_assoc ..).symm
      refine ⟨?_, (numbered_iff _ _ _).mpr (hdelivered ▸ List.prefix_refl _), fun _ => ?_⟩
      · rw [List.getElem?_append_left (List.getElem?_eq_some_iff.mp h.immediate.2).1]
        exact h.immediate
      · have hle := h.start_le
        rw [hdelivered, List.length_drop, List.length_append, List.length_singleton]
        show c.start + (published.length + 1 - c.start) = published.length + 1
        omega
    · exact h.miss snapshot rfl rfl rfl rfl
  · rw [if_neg hconnected]
    exact h.miss snapshot (Bool.not_eq_true _ ▸ hconnected) rfl rfl rfl

/-- A subscriber that only takes from its channel, or goes away, keeps its run. -/
theorem Delivered.congr (h : Delivered published c) {c' : Subscriber S}
    (hconnected : c'.connected = c.connected) (hstart : c'.start = c.start) (hfirst : c'.first = c.first)
    (hdelivered : c'.delivered = c.delivered) : Delivered published c' where
  immediate := by
    rw [hstart, hfirst]
    exact h.immediate
  numbered := by
    rw [hdelivered, hstart]
    exact h.numbered
  complete hheld := by
    rw [hstart, hdelivered]
    exact h.complete (hconnected ▸ hheld)

end Delivery

/-! ### Runs -/

/-- What holds of every run: the subscribers' runs, neighbours that differ, and `last`. -/
structure Ordered (b : Broker E F) : Prop where
  tracked : b.published.getLast? = some b.last
  runs : ∀ c ∈ b.subscribers, Delivered b.published c
  distinct : b.published.IsChain (· ≠ ·)

theorem ordered_new (sources : Sources E F) : Ordered (new config sources) where
  tracked := rfl
  runs c hc := by cases hc
  distinct := List.isChain_singleton _

theorem Ordered.congr {b b' : Broker E F} (h : Ordered b) (hlast : b'.last = b.last)
    (hsubscribers : b'.subscribers = b.subscribers) (hpublished : b'.published = b.published) :
    Ordered b' := by
  refine ⟨?_, ?_, ?_⟩
  · rw [hpublished, hlast]
    exact h.tracked
  · rw [hsubscribers, hpublished]
    exact h.runs
  · rw [hpublished]
    exact h.distinct

theorem Call.read_eq_some {call call' : Call E F} {s : Sources E F} (h : call.read s = some call') :
    call'.stage ≠ .done ∧ call'.fresh = call.fresh ∧ (call.reads = s → call'.reads = s) := by
  rw [Call.read] at h
  split at h <;> cases h <;> refine ⟨by simp, rfl, ?_⟩ <;> rintro rfl <;> rfl

theorem mem_set_iff {α : Type} {xs : List α} {i : Nat} {x : α} (hx : xs[i]? = some x) (y : α)
    (p : α → Prop) :
    (∃ z ∈ xs.set i y, p z) ↔ p y ∨ ∃ j z, j ≠ i ∧ xs[j]? = some z ∧ p z := by
  have hi : i < xs.length := (List.getElem?_eq_some_iff.mp hx).1
  constructor
  · rintro ⟨z, hz, hp⟩
    obtain ⟨j, hj⟩ := List.mem_iff_getElem?.mp hz
    by_cases heq : i = j
    · subst heq
      rw [List.getElem?_set_self hi] at hj
      cases hj
      exact .inl hp
    · rw [List.getElem?_set_ne heq] at hj
      exact .inr ⟨j, z, Ne.symm heq, hj, hp⟩
  · rintro (hp | ⟨j, z, hne, hz, hp⟩)
    · exact ⟨y, List.mem_iff_getElem?.mpr ⟨i, List.getElem?_set_self hi⟩, hp⟩
    · exact ⟨z, List.mem_iff_getElem?.mpr ⟨j, by rw [List.getElem?_set_ne (Ne.symm hne), hz]⟩, hp⟩

/-- Some call other than the `i`-th may still bring the latest change. -/
def Broker.otherWaits (b : Broker E F) (i : Nat) : Bool :=
  (List.range b.calls.length).any fun j => j != i && (b.calls[j]?).any fun other =>
    other.stage != .done && (other.fresh || b.dirty)

theorem otherWaits_iff (b : Broker E F) (i : Nat) : b.otherWaits i = true
    ↔ ∃ j other, j ≠ i ∧ b.calls[j]? = some other ∧ other.stage ≠ .done
        ∧ (other.fresh = true ∨ b.dirty = true) := by
  simp only [Broker.otherWaits, List.any_eq_true, List.mem_range, Bool.and_eq_true, bne_iff_ne,
    Option.any_eq_true, Bool.or_eq_true]
  constructor
  · rintro ⟨j, _, hne, other, hother, hwaits⟩
    exact ⟨j, other, hne, hother, hwaits⟩
  · rintro ⟨j, other, hne, hother, hwaits⟩
    exact ⟨j, (List.getElem?_eq_some_iff.mp hother).1, hne, other, hother, hwaits⟩

/-- An ordered broker delivers exactly when, once the publish calls are through, `last` is what the
    sources give. -/
theorem delivers_iff {b : Broker E F} (h : Ordered b) :
    Delivers config b ↔ (b.Waits ∨ b.last = build config b.sources) := by
  constructor
  · intro hdelivers
    by_cases hwaits : b.Waits
    · exact .inl hwaits
    · exact .inr (hdelivers.last hwaits)
  · intro hlast
    have hsettled : ¬b.Waits → b.last = build config b.sources := hlast.resolve_left
    refine ⟨h.runs, h.distinct, hsettled, fun hwaits c hc hconnected => ?_⟩
    have hlatest := (h.runs c hc).latest_eq hconnected
    rw [h.tracked, Option.some.injEq] at hlatest
    rw [← hlatest, hsettled hwaits]

variable [DecidableEq E] [DecidableEq F]

theorem Ordered.store {b : Broker E F} (h : Ordered b) (snapshot : CorrelatedSnapshot E F) :
    Ordered (b.store snapshot) := by
  rw [Broker.store]
  split
  · exact h
  · rename_i hne
    refine ⟨List.getLast?_concat .., fun c hc => ?_, ?_⟩
    · obtain ⟨d, hd, rfl⟩ := List.mem_map.mp hc
      exact (h.runs d hd).trySend snapshot
    · refine h.distinct.append (List.isChain_singleton _) ?_
      intro x hx y hy
      rw [h.tracked, Option.mem_some_iff] at hx
      rw [List.head?_cons, Option.mem_some_iff] at hy
      rw [← hx, ← hy]
      exact hne

@[simp] theorem store_last (b : Broker E F) (snapshot : CorrelatedSnapshot E F) :
    (b.store snapshot).last = snapshot := by
  rw [Broker.store]
  split
  · assumption
  · rfl

@[simp] theorem store_sources (b : Broker E F) (snapshot : CorrelatedSnapshot E F) :
    (b.store snapshot).sources = b.sources := by
  rw [Broker.store]
  split <;> rfl

@[simp] theorem store_publishing (b : Broker E F) (snapshot : CorrelatedSnapshot E F) :
    (b.store snapshot).publishing = b.publishing := by
  rw [Broker.store]
  split <;> rfl

@[simp] theorem store_dirty (b : Broker E F) (snapshot : CorrelatedSnapshot E F) :
    (b.store snapshot).dirty = b.dirty := by
  rw [Broker.store]
  split <;> rfl

/-- What a step can do. -/
inductive Stepped (b : Broker E F) : Label E F → Broker E F → Prop
  | enter : Stepped b .enter { b with publishing := b.publishing + 1 }
  | change (sources : Sources E F) : Stepped b (.change sources)
      { b with sources, calls := b.calls.map fun call => { call with fresh := false }, dirty := true }
  | publish (hpublishing : 0 < b.publishing) : Stepped b .publish
      { b with calls := b.calls ++ [{ reads := b.sources }]
               publishing := b.publishing - 1, dirty := false }
  | read {i : Nat} {call call' : Call E F} (hcall : b.calls[i]? = some call)
      (hread : call.read b.sources = some call') :
      Stepped b (.read i) { b with calls := b.calls.set i call' }
  | store {i : Nat} {call : Call E F} (hcall : b.calls[i]? = some call) (hstage : call.stage = .store) :
      Stepped b (.store i)
        { b.store (build config call.reads) with calls := b.calls.set i { call with stage := .done } }
  | subscribe : Stepped b .subscribe
      { b with subscribers := b.subscribers ++ [{ start := b.published.length, first := b.last }] }
  | receive {j : Nat} {c : Subscriber (CorrelatedSnapshot E F)} {snapshot : CorrelatedSnapshot E F}
      {rest : List (CorrelatedSnapshot E F)} (hc : b.subscribers[j]? = some c)
      (hqueue : c.queue = snapshot :: rest) :
      Stepped b (.receive j) { b with subscribers := b.subscribers.set j
                                        { c with received := c.received ++ [snapshot], queue := rest } }
  | leave {j : Nat} {c : Subscriber (CorrelatedSnapshot E F)} (hc : b.subscribers[j]? = some c) :
      Stepped b (.leave j) { b with subscribers := b.subscribers.set j { c with listening := false } }

theorem step_stepped {b b' : Broker E F} {l : Label E F} (h : step config b l = some b') :
    Stepped config b l b' := by
  cases l with
  | enter =>
    cases h
    exact .enter
  | change sources =>
    cases h
    exact .change sources
  | publish =>
    rw [step] at h
    split at h
    · next hpublishing =>
      cases h
      exact .publish hpublishing
    · cases h
  | read i =>
    obtain ⟨call, hcall, hread⟩ := Option.bind_eq_some_iff.mp h
    obtain ⟨call', hnext, rfl⟩ := Option.map_eq_some_iff.mp hread
    exact .read hcall hnext
  | store i =>
    obtain ⟨call, hcall, hstored⟩ := Option.bind_eq_some_iff.mp h
    split at hstored
    · next hstage =>
      cases hstored
      exact .store hcall hstage
    · cases hstored
  | subscribe =>
    cases h
    exact .subscribe
  | receive j =>
    obtain ⟨c, hc, htaken⟩ := Option.bind_eq_some_iff.mp h
    split at htaken
    · cases htaken
    · next snapshot rest hqueue =>
      split at htaken
      · cases htaken
        exact .receive hc hqueue
      · cases htaken
  | leave j =>
    obtain ⟨c, hc, rfl⟩ := Option.map_eq_some_iff.mp h
    exact .leave hc

theorem ordered_step {b b' : Broker E F} {l : Label E F} (h : Ordered b)
    (hstep : step config b l = some b') : Ordered b' := by
  cases step_stepped config hstep with
  | enter | change | publish | read => exact h.congr rfl rfl rfl
  | store => exact (h.store _).congr rfl rfl rfl
  | subscribe =>
    refine ⟨h.tracked, fun c hc => ?_, h.distinct⟩
    rcases List.mem_append.mp hc with hc | hc
    · exact h.runs c hc
    · rw [List.mem_singleton.mp hc]
      have htracked := h.tracked
      rw [List.getLast?_eq_getElem?] at htracked
      have hbound : b.published.length - 1 < b.published.length :=
        (List.getElem?_eq_some_iff.mp htracked).1
      exact ⟨⟨Nat.zero_lt_of_lt hbound, htracked⟩, rfl, fun _ => rfl⟩
  | @receive j c snapshot rest hc hqueue =>
    refine ⟨h.tracked, fun d hd => ?_, h.distinct⟩
    rcases List.mem_or_eq_of_mem_set hd with hd | rfl
    · exact h.runs d hd
    · refine (h.runs c (List.mem_of_getElem? hc)).congr rfl rfl rfl ?_
      rw [Subscriber.delivered, Subscriber.delivered, hqueue, List.append_assoc]
      rfl
  | @leave j c hc =>
    refine ⟨h.tracked, fun d hd => ?_, h.distinct⟩
    rcases List.mem_or_eq_of_mem_set hd with hd | rfl
    · exact h.runs d hd
    · exact (h.runs c (List.mem_of_getElem? hc)).congr rfl rfl rfl rfl

theorem delivers_step_iff {b b' : Broker E F} {l : Label E F} (h : Ordered b)
    (hdelivers : Delivers config b) (hstep : step config b l = some b') :
    Delivers config b' ↔ InTime config b l := by
  have h' := ordered_step config h hstep
  rw [delivers_iff config h']
  have hbefore := (delivers_iff config h).mp hdelivers
  cases step_stepped config hstep with
  | enter => exact iff_of_true (.inl (.inl (Nat.succ_pos _))) trivial
  | change sources => simp [Broker.Waits, InTime, or_assoc]
  | publish =>
    refine iff_of_true (.inl (.inr ⟨_, List.mem_append_right _ (List.mem_singleton.mpr rfl), ?_⟩)) trivial
    exact ⟨by simp, .inl rfl⟩
  | @read i call call' hcall hread =>
    obtain ⟨hstage, hfresh, _⟩ := Call.read_eq_some hread
    refine iff_of_true (hbefore.imp_left fun hwaits => ?_) trivial
    rcases hwaits with hpublishing | ⟨other, hother, hwaits⟩
    · exact .inl hpublishing
    · refine .inr ((mem_set_iff hcall call' _).mpr ?_)
      obtain ⟨j, hj⟩ := List.mem_iff_getElem?.mp hother
      by_cases heq : j = i
      · subst heq
        rw [hcall] at hj
        cases hj
        exact .inl ⟨hstage, hfresh ▸ hwaits.2⟩
      · exact .inr ⟨j, other, heq, hj, hwaits⟩
  | @store i call hcall hstage =>
    have hwaits : (∃ other ∈ b.calls.set i { call with stage := .done }, other.stage ≠ .done
          ∧ (other.fresh = true ∨ b.dirty = true))
        ↔ ∃ j other, j ≠ i ∧ b.calls[j]? = some other ∧ other.stage ≠ .done
          ∧ (other.fresh = true ∨ b.dirty = true) := by
      rw [mem_set_iff hcall]
      simp
    simp only [Broker.Waits, InTime, store_publishing, store_dirty, store_last, store_sources, hwaits,
      hcall, Option.some.injEq, forall_eq']
    exact or_comm
  | subscribe | receive | leave => exact iff_of_true hbefore trivial

/-- The broker delivers all along a run exactly when every step of the run is in time. -/
theorem broker_delivery_iff (sources : Sources E F) (labels : List (Label E F)) (b : Broker E F)
    (hrun : Machine.after (step config) (new config sources) labels = some b) :
    (∀ k d, Machine.after (step config) (new config sources) (labels.take k) = some d →
        Delivers config d)
      ↔ Machine.Meets (step config) (InTime config) (new config sources) labels :=
  Machine.always_iff_meets _ (fun _ _ _ => ordered_step config)
    (fun _ _ _ => delivers_step_iff config) labels _ b (ordered_new config sources)
    ((delivers_iff config (ordered_new config sources)).mpr (.inr rfl)) hrun

/-- What a publish call has read is still the case as long as no source has changed. -/
theorem reads_step {b b' : Broker E F} {l : Label E F}
    (h : ∀ call ∈ b.calls, call.fresh = true → call.reads = b.sources)
    (hstep : step config b l = some b') :
    ∀ call ∈ b'.calls, call.fresh = true → call.reads = b'.sources := by
  intro call hmem hfresh
  cases step_stepped config hstep with
  | enter | subscribe | receive | leave => exact h call hmem hfresh
  | change =>
    obtain ⟨other, _, rfl⟩ := List.mem_map.mp hmem
    cases hfresh
  | publish =>
    rcases List.mem_append.mp hmem with hmem | hmem
    · exact h call hmem hfresh
    · rw [List.mem_singleton.mp hmem]
  | @read i other other' hother hread =>
    obtain ⟨_, hsame, hreads⟩ := Call.read_eq_some hread
    rcases List.mem_or_eq_of_mem_set hmem with hmem | rfl
    · exact h call hmem hfresh
    · exact hreads (h other (List.mem_of_getElem? hother) (hsame ▸ hfresh))
  | @store i other hother hstage =>
    simp only [store_sources]
    rcases List.mem_or_eq_of_mem_set hmem with hmem | rfl
    · exact h call hmem hfresh
    · exact h other (List.mem_of_getElem? hother) hfresh

/-- A publish call that no change has overtaken is in time. -/
theorem inTime_of_fresh {sources : Sources E F} {labels : List (Label E F)} {b : Broker E F}
    (hrun : Machine.after (step config) (new config sources) labels = some b) {i : Nat}
    (hfresh : ∀ call, b.calls[i]? = some call → call.fresh = true) : InTime config b (.store i) := by
  have hreads := Machine.invariant (step config)
    (fun _ _ _ h _ hstep => reads_step config h hstep) labels _ b (by simp [new])
    (Machine.meets_true _ labels _) hrun
  intro call hcall
  rw [hreads call (List.mem_of_getElem? hcall) (hfresh call hcall)]
  exact .inl rfl

instance (b : Broker E F) : ∀ l : Label E F, Decidable (InTime config b l)
  | .store i =>
    match hcall : b.calls[i]? with
    | none => isTrue fun call h => by
        rw [hcall] at h
        cases h
    | some call => decidable_of_iff
        (build config call.reads = build config b.sources ∨ 0 < b.publishing ∨ b.otherWaits i = true)
        (by simp only [InTime, hcall, Option.some.injEq, forall_eq', otherWaits_iff])
  | .change sources => inferInstanceAs (Decidable
      (0 < b.publishing ∨ (∃ call ∈ b.calls, call.stage ≠ .done) ∨ b.last = build config sources))
  | .enter | .publish | .read _ | .subscribe | .receive _ | .leave _ => isTrue trivial

/-! ### A reload and an event -/

def idleSources : Sources Unit Unit where
  facts := {}
  state := {}
  estimates := fun _ => none
  failureEvidence := fun _ _ => none
  lifecycle := some {}

/-- The reload thread has recorded its transition. -/
def reloadingSources : Sources Unit Unit :=
  { idleSources with lifecycle := some { phase := .configReloading, revision := some 2, ordinal := 1 } }

/-- The coordinator has observed the start of generation 1. -/
def observedSources : Sources Unit Unit := { reloadingSources with facts := { latestGeneration := 1 } }

/-- The watcher state shows generation 1 as well. -/
def startedSources : Sources Unit Unit :=
  { observedSources with
    state := observedSources.state.apply (.started { runId := 1, trigger := "src/main.rs" } ["make"]) }

/-- All the reads of a publish call. -/
def reads (i : Nat) : List (Label Unit Unit) := List.replicate 5 (.read i)

def plainSettings : Settings where
  watcherInstance := { token := "fz-1", startedAtEpochMs := 1 }
  configuredConcurrency := 1

/-- An event's callback after a reload transition: both publish, one after the other. -/
def serialRun : List (Label Unit Unit) :=
  [.subscribe, .enter, .change reloadingSources, .publish] ++ reads 0 ++ [.store 0, .receive 0, .enter,
    .change observedSources, .change startedSources, .publish] ++ reads 1 ++ [.store 1]

theorem broker_delivery_serial :
    (Machine.after (step plainSettings) (new plainSettings idleSources) serialRun).isSome = true
      ∧ ∀ b, Machine.after (step plainSettings) (new plainSettings idleSources) serialRun = some b →
          Delivers plainSettings b := by
  have hrun : (Machine.after (step plainSettings) (new plainSettings idleSources) serialRun).isSome
      = true := by
    decide +kernel
  refine ⟨hrun, fun b hb => (broker_delivery_iff plainSettings idleSources serialRun b hb).mpr ?_
    serialRun.length b (by rwa [List.take_length])⟩
  decide +kernel

/-- The reload thread has built its snapshot when the event's callback changes the sources, publishes and
    stores; then the reload thread stores. -/
def overtakenRun : List (Label Unit Unit) :=
  [.subscribe, .enter, .change reloadingSources, .publish] ++ reads 0 ++ [.enter,
    .change observedSources, .change startedSources, .publish] ++ reads 1 ++ [.store 1, .store 0]

/-- All publish calls are through, generation 1 is running, and the last snapshot delivered shows the
    watcher idle. -/
theorem stale_snapshot_last :
    ∃ b, Machine.after (step plainSettings) (new plainSettings idleSources) overtakenRun = some b
      ∧ ¬b.Waits ∧ b.sources.state.generation = 1
      ∧ b.subscribers.map (fun c => c.latest.generation) = [0] ∧ ¬Delivers plainSettings b := by
  have hrun : (Machine.after (step plainSettings) (new plainSettings idleSources) overtakenRun).map
      (fun b => (b.publishing, b.calls.map Call.stage, b.sources.state.generation, b.last.generation,
        b.subscribers.map fun c => c.latest.generation)) = some (0, [.done, .done], 1, 0, [0]) := by
    decide +kernel
  obtain ⟨b, hb, heq⟩ := Option.map_eq_some_iff.mp hrun
  simp only [Prod.mk.injEq] at heq
  obtain ⟨hpublishing, hstages, hgeneration, hlast, hlatest⟩ := heq
  have hwaits : ¬b.Waits := by
    rintro (hpos | ⟨call, hcall, hstage, _⟩)
    · omega
    · have hmem := List.mem_map_of_mem (f := Call.stage) hcall
      rw [hstages] at hmem
      simp [hstage] at hmem
  refine ⟨b, hb, hwaits, hgeneration, hlatest, fun hdelivers => ?_⟩
  have hcurrent := congrArg CorrelatedSnapshot.generation (hdelivers.last hwaits)
  rw [hlast] at hcurrent
  exact absurd (hcurrent.trans hgeneration) (by decide)

end SnapshotBroker

end Funzzy
