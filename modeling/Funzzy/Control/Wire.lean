import Funzzy.Control.Protocol
import Funzzy.Durations
import Funzzy.Output.Retrieval
import Funzzy.Snapshot

/-! What the control server sends (`control.rs`, `watcher_state.rs`, `awaiting.rs`, `output.rs`,
    `duration_history.rs`, `config_lifecycle.rs`).

    `ControlResult` holds every value a method answers with, and `encode` is its serialization. A missing
    optional value is `null` or skipped, as its type is annotated. -/

namespace Funzzy

namespace Control

/-! ### Objects -/

namespace Json

/-- `as_bool` -/
def asBool : Json → Option Bool
  | .bool value => some value
  | _ => none

/-- `as_array` -/
def asArray : Json → Option (List Json)
  | .array elements => some elements
  | _ => none

/-- A number of a machine. -/
def nat (value : Nat) : Json := .number (.int value)

/-- A list of texts. -/
def strings (values : List String) : Json := .array (values.map .string)

/-- An optional value of a field that is never skipped. -/
def orNull : Option Json → Json
  | some value => value
  | none => .null

/-- An object; a field without a value is skipped. -/
def build (fields : List (String × Option Json)) : Json :=
  .object (fields.filterMap fun field => field.2.map fun value => (field.1, value))

theorem get_build_nil (key : String) : (build []).get key = none := rfl

/-- A skipped field hides nothing behind it. -/
theorem get_build_cons (key name : String) (value : Option Json) (rest : List (String × Option Json)) :
    (build ((name, value) :: rest)).get key =
      if key = name then value.or ((build rest).get key) else (build rest).get key := by
  cases value with
  | none => simp [build]
  | some value =>
    by_cases h : key = name
    · simp [build, get, h]
    · have hbeq : (key == name) = false := beq_false_of_ne h
      simp [build, get, h, List.lookup_cons, hbeq]

theorem isObject_build (fields : List (String × Option Json)) : (build fields).isObject = true := rfl

/-- A number of a machine word is read back. -/
theorem asU64_nat {value : Nat} (h : value < 2 ^ 64) : (nat value).asU64 = some value := by
  have hrange : 0 ≤ (value : Int) ∧ (value : Int) < 2 ^ 64 := ⟨Int.natCast_nonneg value, by exact_mod_cast h⟩
  simp only [nat, asU64, if_pos hrange, Int.toNat_natCast]

end Json

end Control

open Control (Json)
open Control.Json (build nat orNull strings)

/-! ### Texts of the enumerations -/

/-- `rename_all = "lowercase"` -/
def WatcherExecutionState.text : WatcherExecutionState → String
  | .idle => "idle"
  | .running => "running"
  | .passed => "passed"
  | .failed => "failed"
  | .cancelled => "cancelled"

/-- The same names as those of the states they lead to. -/
def TaskState.text : TaskState → String
  | .passed => "passed"
  | .failed => "failed"
  | .cancelled => "cancelled"

/-- Why an await ended, as the protocol says it. -/
def TerminalReason.text : TerminalReason → String
  | .passed => "passed"
  | .failed => "failed"
  | .cancelled => "cancelled"
  | .superseded => "superseded"
  | .timeout => "timeout"
  | .disconnected => "disconnected"
  | .restarted => "restarted"

/-- Whether the answer is about the latest work. -/
def Freshness.text : Freshness → String
  | .current => "current"
  | .stale => "stale"
  | .unknown => "unknown"

/-- How many samples an estimate rests on, as a word. -/
def EstimateConfidence.text : EstimateConfidence → String
  | .none => "none"
  | .low => "low"
  | .medium => "medium"
  | .high => "high"

/-- Whether the duration was measured or configured. -/
def EstimateSource.text : EstimateSource → String
  | .measured => "measured"
  | .configured => "configured"

/-- `rename_all = "camelCase"` -/
def ConfigPhase.text : ConfigPhase → String
  | .idle => "idle"
  | .configReloading => "configReloading"
  | .configReloaded => "configReloaded"
  | .configInvalid => "configInvalid"

/-! ### Values -/

/-- A task without a duration says `null`. -/
def TaskSnapshot.toJson (task : TaskSnapshot) : Json :=
  build [("id", some (.string task.id)), ("name", some (.string task.name)),
    ("state", some (.string task.state.text)), ("durationMs", some (orNull (task.durationMs.map nat)))]

/-- The fields of a `WatcherState`. -/
def WatcherState.fields (s : WatcherState) : List (String × Option Json) :=
  [("generation", some (nat s.generation)), ("state", some (.string s.state.text)),
    ("trigger", some (orNull (s.trigger.map .string))), ("commands", some (strings s.commands)),
    ("durationMs", some (orNull (s.durationMs.map nat))), ("failures", some (strings s.failures)),
    ("batch", some (orNull (s.batch.map nat))), ("changed", some (strings s.changed)),
    ("predecessor", some (orNull (s.predecessor.map nat))),
    ("supersededBy", some (orNull (s.supersededBy.map nat))),
    ("tasks", some (.array (s.tasks.map TaskSnapshot.toJson))),
    ("effectiveConcurrency", some (orNull (s.effectiveConcurrency.map nat))),
    ("concurrencySource", some (orNull (s.concurrencySource.map .string))),
    ("revision", some (orNull (s.revision.map nat))),
    ("revisionHash", some (orNull (s.revisionHash.map .string)))]

/-- No field of a state is skipped. -/
def WatcherState.toJson (s : WatcherState) : Json := build s.fields

/-- What is still to come: an open debounce window, and batches behind it. -/
def PendingWork.toJson (pending : PendingWork) : Json :=
  build [("debounceActive", some (.bool pending.debounceActive)),
    ("queuedBatches", some (nat pending.queuedBatches))]

/-- `OutputRef` -/
structure OutputRef where
  instanceToken : String
  generation : Nat
  task : String
  mode : String
  tail : Nat
  maxBytes : Nat
  retrieve : String
  deriving DecidableEq

/-- A reference has no optional field. -/
def OutputRef.toJson (r : OutputRef) : Json :=
  build [("instanceToken", some (.string r.instanceToken)), ("generation", some (nat r.generation)),
    ("task", some (.string r.task)), ("mode", some (.string r.mode)), ("tail", some (nat r.tail)),
    ("maxBytes", some (nat r.maxBytes)), ("retrieve", some (.string r.retrieve))]

/-- `FailureEvidence` -/
structure FailureEvidence where
  excerpt : String
  lines : Nat
  truncated : Bool
  totalObservedBytes : Nat
  retainedBytes : Nat
  retrieve : String
  outputRef : Option OutputRef
  additionalFailedTasks : Nat
  deriving DecidableEq

/-- The reference is skipped if there is none. -/
def FailureEvidence.toJson (e : FailureEvidence) : Json :=
  build [("excerpt", some (.string e.excerpt)), ("lines", some (nat e.lines)),
    ("truncated", some (.bool e.truncated)), ("totalObservedBytes", some (nat e.totalObservedBytes)),
    ("retainedBytes", some (nat e.retainedBytes)), ("retrieve", some (.string e.retrieve)),
    ("outputRef", e.outputRef.map OutputRef.toJson),
    ("additionalFailedTasks", some (nat e.additionalFailedTasks))]

/-- The fields of a `ConfigTransition`. -/
def ConfigTransition.fields (t : ConfigTransition) : List (String × Option Json) :=
  [("phase", some (.string t.phase.text)), ("revision", some (orNull (t.revision.map nat))),
    ("revisionHash", some (orNull (t.revisionHash.map .string))), ("reason", t.reason.map .string),
    ("ordinal", some (nat t.ordinal)), ("atEpochMs", some (nat t.atEpochMs))]

/-- A transition by itself, as an await sends it. -/
def ConfigTransition.toJson (t : ConfigTransition) : Json := build t.fields

/-- `AwaitResult` with what was read for its request of evidence, and the lifecycle. -/
structure AwaitAnswer where
  result : AwaitResult
  failureEvidence : Option FailureEvidence
  configLifecycle : Option ConfigTransition
  deriving DecidableEq

/-- Evidence and lifecycle are skipped when there are none. -/
def AwaitAnswer.toJson (a : AwaitAnswer) : Json :=
  build [("snapshot", some a.result.snapshot.toJson),
    ("terminalReason", some (.string a.result.terminalReason.text)),
    ("latestGeneration", some (nat a.result.latestGeneration)),
    ("latestBatch", some (orNull (a.result.latestBatch.map nat))),
    ("pendingWork", some a.result.pendingWork.toJson), ("freshness", some (.string a.result.freshness.text)),
    ("failureEvidence", a.failureEvidence.map FailureEvidence.toJson),
    ("configLifecycle", a.configLifecycle.map ConfigTransition.toJson)]

/-- The text that the bytes of a stream spell. -/
def StreamOutput.text (s : StreamOutput) : String := (String.fromUTF8? ⟨s.content.toArray⟩).getD ""

/-- A stream is sent as text; the counts tell what the text leaves out. -/
def StreamOutput.toJson (s : StreamOutput) : Json :=
  build [("content", some (.string s.text)), ("lines", some (nat s.lines)),
    ("retainedBytes", some (nat s.retainedBytes)), ("observedBytes", some (nat s.observedBytes)),
    ("truncated", some (.bool s.truncated))]

/-- A stream that was not asked for is `null`. -/
def RetrievedTask.toJson (t : RetrievedTask) : Json :=
  build [("id", some (.string t.id)), ("stdout", some (orNull (t.stdout.map StreamOutput.toJson))),
    ("stderr", some (orNull (t.stderr.map StreamOutput.toJson)))]

/-- The last three fields are those of a page; a tail has none of them. -/
def RetrievedOutput.toJson (o : RetrievedOutput) : Json :=
  build [("generation", some (nat o.generation)), ("revision", o.revision.map nat),
    ("revisionHash", o.revisionHash.map .string), ("resolvedTask", o.resolvedTask.map .string),
    ("tasks", some (.array (o.tasks.map RetrievedTask.toJson))), ("nextCursor", o.nextCursor.map .string),
    ("returnedBytes", o.returnedBytes.map nat), ("truncated", o.truncated.map .bool)]

/-- An estimate has no optional field. -/
def RunEstimate.toJson (e : RunEstimate) : Json :=
  build [("typicalMs", some (nat e.typicalMs)), ("upperMs", some (nat e.upperMs)),
    ("recommendedTimeoutMs", some (nat e.recommendedTimeoutMs)), ("samples", some (nat e.samples)),
    ("confidence", some (.string e.confidence.text)), ("source", some (.string e.source.text))]

/-- `ControlTarget` -/
structure ControlTarget where
  name : String
  commands : List String
  deriving DecidableEq

/-- `EmitOutcome`; its outcome is that of the constructor. -/
structure EmitOutcome where
  matched : List String
  runId : Option Nat
  outcome : String
  revision : Option Nat
  revisionHash : Option String
  known : outcome = "scheduled" ∨ outcome = "unmatched" ∨ outcome = "ignored"
  deriving DecidableEq

namespace EmitOutcome

/-- `scheduled_at` -/
def scheduledAt (matched : List String) (runId : Nat) (revision : Option ConfigRevision) : EmitOutcome where
  matched
  runId := some runId
  outcome := "scheduled"
  revision := revision.map (·.number)
  revisionHash := revision.map (·.hash)
  known := .inl rfl

/-- `EmitOutcome::unmatched` -/
def unmatched : EmitOutcome := ⟨[], none, "unmatched", none, none, .inr (.inl rfl)⟩

/-- `EmitOutcome::ignored` -/
def ignored : EmitOutcome := ⟨[], none, "ignored", none, none, .inr (.inr rfl)⟩

/-- An emit that started nothing has no run, and its revision is skipped. -/
def toJson (e : EmitOutcome) : Json :=
  build [("matched", some (strings e.matched)), ("runId", some (orNull (e.runId.map nat))),
    ("outcome", some (.string e.outcome)), ("revision", e.revision.map nat),
    ("revisionHash", e.revisionHash.map .string)]

end EmitOutcome

/-- `ScheduledRun` -/
structure ScheduledRun where
  runId : Nat
  revision : Option Nat
  revisionHash : Option String
  deriving DecidableEq

/-- The revision is skipped if there is none. -/
def ScheduledRun.toJson (r : ScheduledRun) : Json :=
  build [("runId", some (nat r.runId)), ("revision", r.revision.map nat),
    ("revisionHash", r.revisionHash.map .string)]

/-- `CancelResult` -/
inductive CancelResult where
  | cancelled (disposition : CancelDisposition) (revision : Option Nat) (revisionHash : Option String)
  | noop
  deriving DecidableEq

/-! ### Results -/

/-- `targets_result`, of one target. -/
def targetToJson (target : ControlTarget × Option RunEstimate) : Json :=
  build [("name", some (.string target.1.name)), ("commands", some (strings target.1.commands)),
    ("estimate", target.2.map RunEstimate.toJson)]

/-- `status_result`: the evidence is one more field. -/
def statusToJson (s : WatcherState) (evidence : Option FailureEvidence) : Json :=
  build (s.fields ++ [("failureEvidence", evidence.map FailureEvidence.toJson)])

/-- `config_result`: the history is one more field. -/
def configToJson (current : ConfigTransition) (history : List ConfigTransition) : Json :=
  build (current.fields ++ [("history", some (.array (history.map ConfigTransition.toJson)))])

/-- `cancel_requested_generation`, with what the cancellation gave. -/
def cancelRequestedGeneration (generation : Nat) : CancelResult → Control.MethodResult
  | .cancelled .graceful revision revisionHash => .ok
    (build [("cancelled", some (.bool true)), ("generation", some (nat generation)),
      ("revision", revision.map nat), ("revisionHash", revisionHash.map .string)])
  | .cancelled .escalated _ _ => .error (-32021, "Cancellation escalated",
    some (build [("escalation", some (.bool true)), ("generation", some (nat generation))]))
  | .noop => .ok (build [("cancelled", some (.bool false)), ("generation", some (nat generation))])

/-- What a method computes for its answer. -/
inductive ControlResult where
  | status (state : WatcherState) (evidence : Option FailureEvidence)
  | await (answer : AwaitAnswer)
  | output (retrieved : RetrievedOutput)
  | targets (list : List (ControlTarget × Option RunEstimate))
  | emit (outcome : EmitOutcome)
  | run (scheduled : ScheduledRun)
  | cancel (generation : Nat) (result : CancelResult)
  | config (current : ConfigTransition) (history : List ConfigTransition)
  deriving DecidableEq

/-- The serialization of an answer; an escalated cancellation is an error with data. -/
def ControlResult.encode : ControlResult → Control.MethodResult
  | .status state evidence => .ok (statusToJson state evidence)
  | .await answer => .ok answer.toJson
  | .output retrieved => .ok retrieved.toJson
  | .targets list => .ok (.array (list.map targetToJson))
  | .emit outcome => .ok outcome.toJson
  | .run scheduled => .ok scheduled.toJson
  | .cancel generation result => cancelRequestedGeneration generation result
  | .config current history => .ok (configToJson current history)

/-- The response to the request `id`. -/
def ControlResult.response (id : Nat) (result : ControlResult) : Json :=
  match result.encode with
  | .ok value => Control.rpcResult (nat id) value
  | .error (code, message, data) => Control.rpcError (nat id) code message data

end Funzzy
