import Mathlib.Algebra.Order.Ring.Int
import Funzzy.Executor.World
import Funzzy.Lib.SortedMap

/-! What listens to the worker's events: the watcher state (`watcher_state.rs`), the await
    coordinator (`awaiting.rs`) and the duration recorder (`duration_recorder.rs`).

    Each is a fold over the event stream. Of the recorder this is the part that listens: the calls it makes
    into its history, whatever the history makes of them. -/

namespace Funzzy

/-! ### Watcher state -/

inductive WatcherExecutionState where | idle | running | passed | failed | cancelled
  deriving DecidableEq

structure WatcherState where
  generation : Nat := 0
  state : WatcherExecutionState := .idle
  trigger : Option String := none
  commands : List String := []
  durationMs : Option Nat := none
  failures : List String := []
  batch : Option Nat := none
  changed : List String := []
  predecessor : Option Nat := none
  supersededBy : Option Nat := none
  tasks : List TaskSnapshot := []
  effectiveConcurrency : Option Nat := none
  concurrencySource : Option String := none
  revision : Option Nat := none
  revisionHash : Option String := none
  deriving DecidableEq

def WatcherState.apply (s : WatcherState) : Event → WatcherState
  | .started metadata commands =>
    { generation := metadata.runId
      state := .running
      trigger := some metadata.trigger
      batch := metadata.batch
      changed := metadata.changed
      predecessor := metadata.predecessor
      supersededBy := none
      commands
      durationMs := none
      failures := []
      tasks := []
      effectiveConcurrency := metadata.effectiveConcurrency
      concurrencySource := metadata.concurrencySource
      revision := metadata.revision
      revisionHash := metadata.revisionHash }
  | .finished _ supersededBy elapsed failures =>
    { s with
      state := if failures = [] then .passed else .failed
      durationMs := some elapsed
      failures
      supersededBy }
  | .cancelled _ supersededBy => { s with state := .cancelled, durationMs := none, supersededBy }
  | .tick _ _ => s
  | .taskTerminal runId task =>
    if runId = s.generation then
      { s with tasks := (s.tasks ++ [task]).insertionSort fun a b => a.position ≤ b.position }
    else s
  | .recoveryPhase _ _ _ _ => s

/-! ### Await coordinator -/

/-- Bounded retention of terminal records. -/
def terminalHistoryBound : Nat := 256

/-- Why an await returned. -/
inductive TerminalReason where
  | passed | failed | cancelled | superseded | timeout | disconnected | restarted
  deriving DecidableEq

structure TerminalRecord where
  generation : Nat
  reason : TerminalReason
  supersededBy : Option Nat
  deriving DecidableEq

/-- Pending debounce work. -/
structure PendingWork where
  debounceActive : Bool := false
  queuedBatches : Nat := 0
  deriving DecidableEq

def PendingWork.isEmpty (pending : PendingWork) : Bool :=
  !pending.debounceActive && pending.queuedBatches = 0

structure AwaitInner where
  latestGeneration : Nat := 0
  latestBatch : Option Nat := none
  terminal : List TerminalRecord := []
  pendingWork : PendingWork := {}
  deriving DecidableEq

/-- Appends a record and drops the oldest ones beyond the bound. -/
def AwaitInner.record (inner : AwaitInner) (record : TerminalRecord) : AwaitInner :=
  let terminal := inner.terminal ++ [record]
  { inner with terminal := terminal.drop (terminal.length - terminalHistoryBound) }

def AwaitInner.observe (inner : AwaitInner) : Event → AwaitInner
  | .started metadata _ =>
    { inner with
      latestGeneration := max inner.latestGeneration metadata.runId
      latestBatch := metadata.batch.or inner.latestBatch }
  | .finished runId supersededBy _ failures =>
    { inner with
      latestGeneration := max (max inner.latestGeneration runId) (supersededBy.getD 0) }.record
      ⟨runId, if failures = [] then .passed else .failed, supersededBy⟩
  | .cancelled runId supersededBy =>
    { inner with
      latestGeneration := max (max inner.latestGeneration runId) (supersededBy.getD 0) }.record
      ⟨runId, if supersededBy.isSome then .superseded else .cancelled, supersededBy⟩
  | .tick _ _ | .taskTerminal _ _ | .recoveryPhase _ _ _ _ => inner

/-- A debounce batch opened. -/
def AwaitInner.noteBatch (inner : AwaitInner) (batchId : Nat) : AwaitInner :=
  { inner with
    latestBatch := some batchId
    pendingWork := { inner.pendingWork with debounceActive := true } }

/-- The batch finished routing. -/
def AwaitInner.noteBatchComplete (inner : AwaitInner) : AwaitInner :=
  { inner with pendingWork := { inner.pendingWork with debounceActive := false } }

/-! ### Duration recorder -/

/-- Upper bound on in-flight associations. -/
def maxAssociations : Nat := 64

inductive ExcludedKind where | cancelled | superseded | timedOut
  deriving DecidableEq

/-- One call into the duration history. -/
inductive Sample where
  | success (durationMs : Nat)
  | failure (durationMs : Nat)
  | excluded (kind : ExcludedKind)
  deriving DecidableEq

/-- What a Finished event counts as; the milliseconds are cut to 64 bits. -/
def finishedSample (supersededBy : Option Nat) (elapsed : Nat) (failures : List String) : Sample :=
  if supersededBy.isSome then .excluded .superseded
  else if failures = [] then .success (elapsed % 2 ^ 64) else .failure (elapsed % 2 ^ 64)

def cancelledSample (supersededBy : Option Nat) : Sample :=
  .excluded (if supersededBy.isSome then .superseded else .cancelled)

/-- The listening part of the recorder: its calls into the history, and the signatures of the runs. -/
structure DurationRecorder where
  history : List (String × Sample) := []
  associations : SortedMap Nat String := SortedMap.empty
  deriving DecidableEq

/-- Removes the association of a run and records the sample for its signature, if it has one. -/
def DurationRecorder.settle (r : DurationRecorder) (runId : Nat) (sample : Sample) :
    DurationRecorder :=
  match r.associations.get? runId with
  | none => r
  | some signature =>
    { history := r.history ++ [(signature, sample)]
      associations := r.associations.erase runId }

def DurationRecorder.observe (r : DurationRecorder) : Event → DurationRecorder
  | .started metadata _ =>
    match metadata.executionSignature with
    | none => r
    | some signature =>
      { r with
        associations := r.associations.insertBounded maxAssociations metadata.runId signature }
  | .finished runId supersededBy elapsed failures =>
    r.settle runId (finishedSample supersededBy elapsed failures)
  | .cancelled runId supersededBy => r.settle runId (cancelledSample supersededBy)
  | .tick _ _ | .taskTerminal _ _ | .recoveryPhase _ _ _ _ => r

end Funzzy
