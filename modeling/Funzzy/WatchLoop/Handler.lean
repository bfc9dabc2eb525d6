import Mathlib.Data.String.Basic
import Funzzy.Lib.Machine
import Funzzy.Observers
import Funzzy.Watches
import Funzzy.WatchLoop.Gate

/-! The batch handler of the watch loop (`watch_loop.rs`, `identity.rs`): what it calls of its strategy,
    and the debounce flag that the calls set and clear.

    A batch is announced before it is routed and completed after. The handler of the restart command passes
    both on to the await coordinator, where a flag stands in between; nothing else writes it. A batch that
    the modification gate holds back completely is announced and not completed. -/

namespace Funzzy.WatchLoop

/-! ### The handler -/

/-- One normalized event batch: its identity and the changed paths, sorted and without repetitions. -/
structure Batch where
  batchId : Nat
  changed : List String
  deriving DecidableEq

def Batch.normalized (batchId : Nat) (paths : List String) : Batch := ⟨batchId, Runs.sortDedup id paths⟩

/-- The calls of the handler to its strategy. -/
inductive StrategyCall where
  | onBatch (batch : Batch)
  | runChange (plan : RunPlan) (filepath : String) (batch : Batch) (revision : Option ConfigRevision)
  | onBatchComplete
  deriving DecidableEq

/-- The handler: the gate afterwards, and the calls it makes. -/
def handleBatch {P : Type} (M : Matchers) (T : Paths P) (disk : Disk P) (watches : Watches)
    (gate : ModificationGate) (batchId : Nat) (events : List FileEvent) :
    ModificationGate × List StrategyCall :=
  let batch := Batch.normalized batchId (events.map FileEvent.path)
  if batch.changed.isEmpty then (gate, [])
  else
    let (gate, changedPaths) := gate.changed T disk batch.changed
    if changedPaths.isEmpty then (gate, [.onBatch batch])
    else
      let routed := Batch.normalized batch.batchId changedPaths
      match watches.watchPlanBatch M routed.changed with
      | some (plan, trigger) =>
        (gate, [.onBatch batch, .runChange plan trigger routed watches.revision, .onBatchComplete])
      | none => (gate, [.onBatch batch, .onBatchComplete])

/-! ### The loop and the coordinator -/

/-- What a call of the restart command's strategy does to the coordinator. A run is scheduled, or fails to
    be, without a word to it: it is told of runs by the worker's events. -/
def StrategyCall.perform (inner : AwaitInner) : StrategyCall → AwaitInner
  | .onBatch batch => inner.noteBatch batch.batchId
  | .runChange _ _ _ _ => inner
  | .onBatchComplete => inner.noteBatchComplete

/-- The watch loop between two batches: the shared configuration, its gate, and the coordinator. -/
structure Loop where
  watches : Watches
  gate : ModificationGate
  inner : AwaitInner := {}

/-- What can happen: a batch is handled, while the worker's events are observed behind any of the calls;
    the worker's events are observed; or a reload puts another configuration in place. -/
inductive Label (P : Type) where
  | batch (batchId : Nat) (events : List FileEvent) (disk : Disk P) (during : StrategyCall → List Event)
  | observe (event : Event)
  | commit (candidate : Watches)

section Native

variable {P : Type} (M : Matchers) (T : Paths P)

/-- The calls of one batch, with the events observed behind each. -/
def performAll (during : StrategyCall → List Event) (calls : List StrategyCall) (inner : AwaitInner) :
    AwaitInner :=
  calls.foldl (fun inner call => (during call).foldl AwaitInner.observe (call.perform inner)) inner

def Loop.step (s : Loop) : Label P → Option Loop
  | .batch batchId events disk during =>
    let handled := handleBatch M T disk s.watches s.gate batchId events
    some { s with gate := handled.1, inner := performAll during handled.2 s.inner }
  | .observe event => some { s with inner := s.inner.observe event }
  | .commit candidate => some { s with watches := candidate }

/-- The loop as it starts: the gate is seeded, and no batch has been announced. -/
def Loop.start (watches : Watches) (disk : BoundedDisk P) (paths : List String) : Loop :=
  { watches, gate := ModificationGate.new.seed T disk paths }

/-! ### The debounce flag -/

def Loop.debounceActive (s : Loop) : Bool := s.inner.pendingWork.debounceActive

/-- A batch that the gate does not hold back completely: it is empty, or one of its paths exists with a
    modified time other than the one seen last. -/
def Passes (s : Loop) : Label P → Prop
  | .batch _ events disk _ => events = [] ∨ ∃ event ∈ events, ∃ mtime,
      disk.mtime (T.ofText event.path) = some mtime ∧ s.gate.lastSeen event.path ≠ some (some mtime)
  | .observe _ | .commit _ => True

theorem observe_pendingWork (inner : AwaitInner) (event : Event) :
    (inner.observe event).pendingWork = inner.pendingWork := by
  cases event <;> rfl

theorem foldl_observe_pendingWork (events : List Event) : ∀ inner : AwaitInner,
    (events.foldl AwaitInner.observe inner).pendingWork = inner.pendingWork := by
  induction events with
  | nil => exact fun inner => rfl
  | cons event rest ih => exact fun inner => (ih _).trans (observe_pendingWork inner event)

/-- The last call that says something of the flag decides it. -/
theorem performAll_concat (during : StrategyCall → List Event) (calls : List StrategyCall)
    (call : StrategyCall) (inner : AwaitInner) :
    (performAll during (calls ++ [call]) inner).pendingWork
      = (call.perform (performAll during calls inner)).pendingWork := by
  rw [performAll, List.foldl_append, List.foldl_cons, List.foldl_nil, foldl_observe_pendingWork]
  rfl

theorem normalized_isEmpty (batchId : Nat) (paths : List String) :
    (Batch.normalized batchId paths).changed.isEmpty = true ↔ paths = [] := by
  rw [List.isEmpty_iff, List.eq_nil_iff_forall_not_mem, List.eq_nil_iff_forall_not_mem]
  simp only [Batch.normalized, Runs.mem_sortDedup]

theorem changed_isEmpty (disk : Disk P) (gate : ModificationGate) (batchId : Nat)
    (events : List FileEvent) :
    (gate.changed T disk (Batch.normalized batchId (events.map FileEvent.path)).changed).2.isEmpty = false
      ↔ ∃ event ∈ events, ∃ mtime, disk.mtime (T.ofText event.path) = some mtime ∧
          gate.lastSeen event.path ≠ some (some mtime) := by
  rw [List.isEmpty_eq_false_iff_exists_mem]
  simp only [ModificationGate.mem_changed_iff, Batch.normalized, Runs.mem_sortDedup, List.mem_map]
  constructor
  · rintro ⟨_, ⟨event, hevent, rfl⟩, hrouted⟩
    exact ⟨event, hevent, hrouted⟩
  · rintro ⟨event, hevent, hrouted⟩
    exact ⟨event.path, ⟨event, hevent, rfl⟩, hrouted⟩

/-- What the handler calls: nothing for an empty batch; the announcement only of a batch that is held
    back; and the completion last of any other. -/
theorem handleBatch_calls (disk : Disk P) (watches : Watches) (gate : ModificationGate) (batchId : Nat)
    (events : List FileEvent) :
    (events = [] ∧ (handleBatch M T disk watches gate batchId events).2 = []) ∨
    (events ≠ [] ∧ (¬ ∃ event ∈ events, ∃ mtime, disk.mtime (T.ofText event.path) = some mtime ∧
        gate.lastSeen event.path ≠ some (some mtime)) ∧
      ∃ batch, (handleBatch M T disk watches gate batchId events).2 = [.onBatch batch]) ∨
    ((∃ event ∈ events, ∃ mtime, disk.mtime (T.ofText event.path) = some mtime ∧
        gate.lastSeen event.path ≠ some (some mtime)) ∧
      ∃ calls, (handleBatch M T disk watches gate batchId events).2 = calls ++ [.onBatchComplete]) := by
  have hpasses := changed_isEmpty T disk gate batchId events
  rw [← hpasses]
  unfold handleBatch
  by_cases hempty : events = []
  · subst hempty
    exact .inl ⟨rfl, rfl⟩
  · have hsome : (Batch.normalized batchId (events.map FileEvent.path)).changed.isEmpty = false := by
      rw [← Bool.not_eq_true, normalized_isEmpty, List.map_eq_nil_iff]
      exact hempty
    simp only [hsome, Bool.false_eq_true, if_false]
    right
    split
    · next hheld => exact .inl ⟨hempty, by simp [hheld], _, rfl⟩
    · next hchanged =>
      rw [Bool.not_eq_true] at hchanged
      refine .inr ⟨hchanged, ?_⟩
      split
      · exact ⟨[_, _], rfl⟩
      · exact ⟨[_], rfl⟩

/-- From a flag that is cleared, a step leaves it cleared exactly if it is no batch that the gate holds
    back. -/
theorem debounce_step_iff {s s' : Loop} {l : Label P} (hcleared : s.debounceActive = false)
    (hstep : s.step M T l = some s') : s'.debounceActive = false ↔ Passes T s l := by
  cases l with
  | observe event =>
    cases hstep
    refine iff_of_true ?_ trivial
    rw [Loop.debounceActive, observe_pendingWork]
    exact hcleared
  | commit candidate =>
    cases hstep
    exact iff_of_true hcleared trivial
  | batch batchId events disk during =>
    rw [Loop.step, Option.some.injEq] at hstep
    subst hstep
    simp only [Loop.debounceActive, Passes]
    rcases handleBatch_calls M T disk s.watches s.gate batchId events with
      ⟨hnone, hcalls⟩ | ⟨hsome, hheld, batch, hcalls⟩ | ⟨hpass, calls, hcalls⟩
    · rw [hcalls]
      exact iff_of_true hcleared (.inl hnone)
    · rw [hcalls, ← List.nil_append [StrategyCall.onBatch batch], performAll_concat]
      refine iff_of_false (fun hflag => by cases hflag) ?_
      rintro (hnone | hpass)
      · exact hsome hnone
      · exact hheld hpass
    · rw [hcalls, performAll_concat]
      exact iff_of_true rfl (.inr hpass)

theorem after_isSome (labels : List (Label P)) : ∀ s : Loop,
    ∃ s', Machine.after (Loop.step M T) s labels = some s' := by
  induction labels with
  | nil => exact fun s => ⟨s, rfl⟩
  | cons l rest ih =>
    intro s
    cases l <;> exact ih _

/-- Over any batches, reloads and events of the worker, the flag is cleared whenever no batch is being
    handled, exactly if the gate holds no batch back completely. -/
theorem debounce_cleared_iff (watches : Watches) (disk : BoundedDisk P) (paths : List String)
    (labels : List (Label P)) :
    (∀ k s, Machine.after (Loop.step M T) (.start T watches disk paths) (labels.take k) = some s →
        s.debounceActive = false)
      ↔ Machine.Meets (Loop.step M T) (Passes T) (.start T watches disk paths) labels := by
  obtain ⟨last, hlast⟩ := after_isSome M T labels (.start T watches disk paths)
  exact Machine.always_iff_meets (Loop.step M T) (I := fun _ => True) (fun _ _ _ _ _ => trivial)
    (fun _ _ _ _ => debounce_step_iff M T) labels _ last trivial rfl hlast

end Native

/-- The file is told as changed though nothing wrote it: the batch is held back, and the flag stays. -/
theorem held_back_batch_stays :
    ((Machine.after (Loop.step ⟨fun _ _ => false, fun _ => false⟩ textPaths)
        (.start textPaths (.withRootAndConcurrency [] "/w" 1 (by decide) (by decide)) (oneFile 0) ["/w"])
        [.batch 1 [⟨"/w/a", true⟩] (oneFile 0).toDisk fun _ => []]).map Loop.debounceActive)
      = some true := by
  decide +kernel

end Funzzy.WatchLoop
