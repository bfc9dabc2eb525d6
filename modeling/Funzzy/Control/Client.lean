import Funzzy.Control.Wire

/-! What the control client makes of a response (`control_client.rs`).

    Each snapshot has a decoder of its own, built from a few ways to read a field: `required`, `optional`
    with its complaints, or lenient. -/

namespace Funzzy

open Control (Json)
open Control.Json (build nat orNull strings asStr asU64 asBool asArray)

namespace ControlClient

/-! ### Snapshots -/

/-- `TerminalTaskSnapshot` -/
structure TerminalTaskSnapshot where
  id : String
  name : String
  state : String
  durationMs : Option Nat
  deriving DecidableEq

/-- `StatusSnapshot` -/
structure StatusSnapshot where
  generation : Nat
  state : String
  trigger : Option String
  commands : List String
  durationMs : Option Nat
  failures : List String
  tasks : Option (List TerminalTaskSnapshot)
  effectiveConcurrency : Option Nat
  concurrencySource : Option String
  revision : Option Nat
  revisionHash : Option String
  deriving DecidableEq

/-- `TargetSnapshot` -/
structure TargetSnapshot where
  name : String
  commands : List String
  estimate : Option RunEstimate
  deriving DecidableEq

/-- `PendingWorkSnapshot` -/
structure PendingWorkSnapshot where
  debounceActive : Bool
  queuedBatches : Nat
  deriving DecidableEq

/-- `FailureEvidenceSnapshot`; its reference has the fields of the server's. -/
structure FailureEvidenceSnapshot where
  excerpt : String
  lines : Nat
  truncated : Bool
  totalObservedBytes : Nat
  retainedBytes : Nat
  retrieve : String
  outputRef : Option OutputRef
  additionalFailedTasks : Nat
  deriving DecidableEq

/-- `AwaitSnapshot` -/
structure AwaitSnapshot where
  terminalReason : String
  latestGeneration : Nat
  latestBatch : Option Nat
  pendingWork : PendingWorkSnapshot
  freshness : String
  snapshot : StatusSnapshot
  failureEvidence : Option FailureEvidenceSnapshot
  deriving DecidableEq

/-- `StreamSnapshot` -/
structure StreamSnapshot where
  content : String
  lines : Nat
  retainedBytes : Nat
  observedBytes : Nat
  truncated : Bool
  deriving DecidableEq

/-- `RetrievedTaskSnapshot` -/
structure RetrievedTaskSnapshot where
  id : String
  stdout : Option StreamSnapshot
  stderr : Option StreamSnapshot
  deriving DecidableEq

/-- `OutputSnapshot` -/
structure OutputSnapshot where
  generation : Nat
  resolvedTask : Option String
  tasks : List RetrievedTaskSnapshot
  nextCursor : Option String
  returnedBytes : Option Nat
  truncated : Option Bool
  deriving DecidableEq

/-- `EmitSnapshot` -/
structure EmitSnapshot where
  matched : List String
  runId : Option Nat
  outcome : String
  revision : Option Nat
  revisionHash : Option String
  deriving DecidableEq

/-- `ScheduledRunSnapshot` -/
structure ScheduledRunSnapshot where
  runId : Nat
  revision : Option Nat
  revisionHash : Option String
  deriving DecidableEq

/-- `CancelSnapshot` -/
structure CancelSnapshot where
  cancelled : Bool
  generation : Nat
  deriving DecidableEq

/-- `ConfigTransitionSnapshot` -/
structure ConfigTransitionSnapshot where
  phase : String
  revision : Option Nat
  revisionHash : Option String
  reason : Option String
  ordinal : Nat
  atEpochMs : Nat
  deriving DecidableEq

/-- `ConfigSnapshot` -/
structure ConfigSnapshot where
  current : ConfigTransitionSnapshot
  history : List ConfigTransitionSnapshot
  deriving DecidableEq

/-! ### Fields -/

section Fields

variable {α : Type} (value : Json) (key : String)

/-- `value.get(key).and_then(read).ok_or_else(error)` -/
def required (read : Json → Option α) (error : String) : Except String α :=
  match (value.get key).bind read with
  | some a => .ok a
  | none => .error error

/-- `value.get(key).and_then(read)` -/
def lenient (read : Json → Option α) : Option α := (value.get key).bind read

/-- A number that may be missing or null, with the complaint about one that does not fit and the one about
    another type. -/
def optionalNumber (misfit mismatch : String) : Except String (Option Nat) :=
  match value.get key with
  | none | some .null => .ok none
  | some (.number number) =>
    match asU64 (.number number) with
    | some n => .ok (some n)
    | none => .error misfit
  | some _ => .error mismatch

/-- A number or null, which may not be missing. -/
def numberOrNull (error : String) : Except String (Option Nat) :=
  match value.get key with
  | some .null => .ok none
  | some (.number number) =>
    match asU64 (.number number) with
    | some n => .ok (some n)
    | none => .error error
  | _ => .error error

/-- A number that may be missing or null; one that does not fit is missing. -/
def fittingNumber (mismatch : String) : Except String (Option Nat) :=
  match value.get key with
  | none | some .null => .ok none
  | some (.number number) => .ok (asU64 (.number number))
  | some _ => .error mismatch

/-- A value that may be missing or null. -/
def optionalValue (decode : Json → Except String α) : Except String (Option α) :=
  match value.get key with
  | none | some .null => .ok none
  | some found => (decode found).map some

/-- A text that may be missing or null. -/
def optionalString (mismatch : String) : Except String (Option String) :=
  match value.get key with
  | none | some .null => .ok none
  | some (.string text) => .ok (some text)
  | some _ => .error mismatch

/-- One value of `read_string_array`. -/
def readString (value : Json) : Except String String :=
  match asStr value with
  | some text => .ok text
  | none => .error (key ++ " must contain only strings")

/-- `read_string_array` -/
def readStringArray : Except String (List String) :=
  match value.get key with
  | none => .ok []
  | some (.array values) => values.mapM (readString key)
  | some _ => .error (key ++ " must be an array of strings")

/-- `value.as_object().ok_or_else(error)` -/
def requireObject (error : String) : Except String Unit := if value.isObject then .ok () else .error error

end Fields

/-! ### Decoders -/

/-- One task of `read_optional_terminal_tasks`. -/
def terminalTask (value : Json) (index : Nat) : Except String TerminalTaskSnapshot := do
  let place := "status result task at index " ++ toString index
  requireObject value (place ++ " must be an object")
  let id ← required value "id" asStr (place ++ " field \"id\" must be a string")
  let name ← required value "name" asStr (place ++ " field \"name\" must be a string")
  let state ← required value "state"
    (fun state => (asStr state).filter fun text => ["passed", "failed", "cancelled"].contains text)
    (place ++ " field \"state\" is invalid")
  let durationMs ← numberOrNull value "durationMs"
    (place ++ " field \"durationMs\" must be a number or null")
  pure { id, name, state, durationMs }

/-- `read_optional_terminal_tasks` -/
def readOptionalTerminalTasks (value : Json) : Except String (Option (List TerminalTaskSnapshot)) :=
  match value.get "tasks" with
  | none => .ok none
  | some values =>
    match asArray values with
    | none => .error "status result field \"tasks\" must be an array"
    | some values => do
      let tasks ← values.zipIdx.mapM fun entry => terminalTask entry.1 entry.2
      pure (some tasks)

/-- `StatusSnapshot::from_value` -/
def StatusSnapshot.fromValue (value : Json) : Except String StatusSnapshot := do
  requireObject value "status result must be an object"
  let generation ← required value "generation" asU64 "status result field \"generation\" must be a number"
  let state ← required value "state" asStr "status result field \"state\" must be a string"
  let trigger ← optionalString value "trigger" "status result field \"trigger\" must be a string or null"
  let commands ← readStringArray value "commands"
  let durationMs ← optionalNumber value "durationMs" "status result field \"durationMs\" must be a number"
    "status result field \"durationMs\" must be a number or null"
  let failures ← readStringArray value "failures"
  let tasks ← readOptionalTerminalTasks value
  let effectiveConcurrency ← optionalNumber value "effectiveConcurrency"
    "status result field \"effectiveConcurrency\" must be a number"
    "status result field \"effectiveConcurrency\" must be a number"
  let concurrencySource ← optionalString value "concurrencySource"
    "status result field \"concurrencySource\" must be a string"
  let revision ← optionalNumber value "revision" "status result field \"revision\" must be a number"
    "status result field \"revision\" must be a number"
  let revisionHash ← optionalString value "revisionHash"
    "status result field \"revisionHash\" must be a string"
  pure { generation, state, trigger, commands, durationMs, failures, tasks, effectiveConcurrency,
         concurrencySource, revision, revisionHash }

/-- The estimate of a target; a number that is missing is zero. -/
def estimateFrom (value : Json) : RunEstimate where
  typicalMs := (lenient value "typicalMs" asU64).getD 0
  upperMs := (lenient value "upperMs" asU64).getD 0
  recommendedTimeoutMs := (lenient value "recommendedTimeoutMs" asU64).getD 0
  samples := (lenient value "samples" asU64).getD 0
  confidence :=
    match lenient value "confidence" asStr with
    | some "low" => .low
    | some "medium" => .medium
    | some "high" => .high
    | _ => .none
  source := if lenient value "source" asStr = some "configured" then .configured else .measured

/-- `TargetSnapshot::from_value` -/
def TargetSnapshot.fromValue (value : Json) : Except String TargetSnapshot := do
  requireObject value "target entry must be an object"
  let name ← required value "name" asStr "target entry field \"name\" must be a string"
  let commands ← readStringArray value "commands"
  let estimate := ((value.get "estimate").filter Json.isObject).map estimateFrom
  pure { name, commands, estimate }

/-- `OutputRefSnapshot::from_value` -/
def outputRefFrom (value : Json) : Except String OutputRef := do
  requireObject value "outputRef must be an object"
  let instanceToken ← required value "instanceToken" asStr "outputRef must carry \"instanceToken\""
  let generation ← required value "generation" asU64 "outputRef must carry a numeric \"generation\""
  let task ← required value "task" asStr "outputRef must carry \"task\""
  pure { instanceToken, generation, task
         mode := (lenient value "mode" asStr).getD "tail"
         tail := (lenient value "tail" asU64).getD 80
         maxBytes := (lenient value "maxBytes" asU64).getD 0
         retrieve := (lenient value "retrieve" asStr).getD "" }

/-- `FailureEvidenceSnapshot::from_value` -/
def FailureEvidenceSnapshot.fromValue (value : Json) : Except String FailureEvidenceSnapshot := do
  requireObject value "failureEvidence must be an object"
  let excerpt ← required value "excerpt" asStr "failureEvidence must carry \"excerpt\""
  let lines ← required value "lines" asU64 "failureEvidence must carry a numeric \"lines\""
  let truncated ← required value "truncated" asBool "failureEvidence must carry \"truncated\""
  let totalObservedBytes ← required value "totalObservedBytes" asU64
    "failureEvidence must carry \"totalObservedBytes\""
  let retainedBytes ← required value "retainedBytes" asU64 "failureEvidence must carry \"retainedBytes\""
  let retrieve ← required value "retrieve" asStr "failureEvidence must carry \"retrieve\""
  let outputRef ←
    match value.get "outputRef" with
    | none => pure none
    | some ref => (outputRefFrom ref).map some
  pure { excerpt, lines, truncated, totalObservedBytes, retainedBytes, retrieve, outputRef
         additionalFailedTasks := (lenient value "additionalFailedTasks" asU64).getD 0 }

/-- A reason or a freshness the client knows. -/
def knownText (known : List String) (value : Json) : Option String :=
  (asStr value).filter fun text => known.contains text

/-- `count as u32` -/
def asU32 (count : Nat) : Nat := count % 2 ^ 32

/-- `AwaitSnapshot::from_value` -/
def AwaitSnapshot.fromValue (value : Json) : Except String AwaitSnapshot := do
  requireObject value "await result must be an object"
  let terminalReason ← required value "terminalReason"
    (knownText ["passed", "failed", "cancelled", "superseded", "timeout", "disconnected", "restarted"])
    "await result field \"terminalReason\" is invalid"
  let latestGeneration ← required value "latestGeneration" asU64
    "await result field \"latestGeneration\" must be a number"
  let latestBatch ← fittingNumber value "latestBatch"
    "await result field \"latestBatch\" must be a number or null"
  let pending ← required value "pendingWork" (fun pending => if pending.isObject then some pending else none)
    "await result must carry a \"pendingWork\" object"
  let debounceActive ← required pending "debounceActive" asBool
    "pendingWork.debounceActive must be a boolean"
  let queuedBatches ← required pending "queuedBatches" asU64 "pendingWork.queuedBatches must be a number"
  let freshness ← required value "freshness" (knownText ["current", "stale", "unknown"])
    "await result field \"freshness\" is invalid"
  let snapshot ← required value "snapshot" some "await result must carry a \"snapshot\" object"
  let snapshot ← StatusSnapshot.fromValue snapshot
  let failureEvidence ← optionalValue value "failureEvidence" FailureEvidenceSnapshot.fromValue
  pure { terminalReason, latestGeneration, latestBatch
         pendingWork := { debounceActive, queuedBatches := asU32 queuedBatches }
         freshness, snapshot, failureEvidence }

/-- `StreamSnapshot::from_value` -/
def StreamSnapshot.fromValue (value : Json) : Except String StreamSnapshot := do
  requireObject value "output stream must be an object"
  let content ← required value "content" asStr "output stream must carry \"content\""
  let lines ← required value "lines" asU64 "output stream must carry a numeric \"lines\""
  let retainedBytes ← required value "retainedBytes" asU64 "output stream must carry \"retainedBytes\""
  let observedBytes ← required value "observedBytes" asU64 "output stream must carry \"observedBytes\""
  let truncated ← required value "truncated" asBool "output stream must carry \"truncated\""
  pure { content, lines, retainedBytes, observedBytes, truncated }

/-- One task of `OutputSnapshot::from_value`. -/
def RetrievedTaskSnapshot.fromValue (value : Json) : Except String RetrievedTaskSnapshot := do
  requireObject value "task must be an object"
  let id ← required value "id" asStr "task must carry \"id\""
  let stdout ← optionalValue value "stdout" StreamSnapshot.fromValue
  let stderr ← optionalValue value "stderr" StreamSnapshot.fromValue
  pure { id, stdout, stderr }

/-- `OutputSnapshot::from_value` -/
def OutputSnapshot.fromValue (value : Json) : Except String OutputSnapshot := do
  requireObject value "output result must be an object"
  let generation ← required value "generation" asU64 "output result must carry a numeric \"generation\""
  let tasks ← required value "tasks" asArray "output result must carry a \"tasks\" array"
  let tasks ← tasks.mapM RetrievedTaskSnapshot.fromValue
  pure { generation
         resolvedTask := lenient value "resolvedTask" asStr
         tasks
         nextCursor := lenient value "nextCursor" asStr
         returnedBytes := lenient value "returnedBytes" asU64
         truncated := lenient value "truncated" asBool }

/-- `EmitSnapshot::from_value` -/
def EmitSnapshot.fromValue (value : Json) : Except String EmitSnapshot := do
  requireObject value "emit result must be an object"
  let outcome ← required value "outcome" asStr "emit result field \"outcome\" must be a string"
  if ["scheduled", "unmatched", "ignored"].contains outcome = false then
    .error ("emit result field \"outcome\" must be scheduled, unmatched, or ignored, got " ++ outcome)
  let matched ← readStringArray value "matched"
  let runId ← optionalNumber value "runId" "emit result field \"runId\" must be a number"
    "emit result field \"runId\" must be a number or null"
  let revision ← optionalNumber value "revision" "emit result field \"revision\" must be a number"
    "emit result field \"revision\" must be a number"
  let revisionHash ← optionalString value "revisionHash" "emit result field \"revisionHash\" must be a string"
  pure { matched, runId, outcome, revision, revisionHash }

/-- `ScheduledRunSnapshot::from_value` -/
def ScheduledRunSnapshot.fromValue (value : Json) : Except String ScheduledRunSnapshot := do
  requireObject value "run result must be an object"
  let runId ← required value "runId" asU64 "run result must carry a numeric \"runId\""
  let revision ← optionalNumber value "revision" "run result field \"revision\" must be a number"
    "run result field \"revision\" must be a number"
  let revisionHash ← optionalString value "revisionHash" "run result field \"revisionHash\" must be a string"
  pure { runId, revision, revisionHash }

/-- `CancelSnapshot::from_value` -/
def CancelSnapshot.fromValue (value : Json) : Except String CancelSnapshot := do
  requireObject value "cancel result must be an object"
  let cancelled ← required value "cancelled" asBool "cancel result field \"cancelled\" must be a boolean"
  let generation ← required value "generation" asU64 "cancel result field \"generation\" must be a number"
  pure { cancelled, generation }

/-- `ConfigTransitionSnapshot::from_value` -/
def ConfigTransitionSnapshot.fromValue (value : Json) : Except String ConfigTransitionSnapshot := do
  requireObject value "config transition must be an object"
  let phase ← required value "phase" asStr "config transition field \"phase\" must be a string"
  pure { phase
         revision := lenient value "revision" asU64
         revisionHash := lenient value "revisionHash" asStr
         reason := lenient value "reason" asStr
         ordinal := (lenient value "ordinal" asU64).getD 0
         atEpochMs := (lenient value "atEpochMs" asU64).getD 0 }

/-- `ConfigSnapshot::from_value` -/
def ConfigSnapshot.fromValue (value : Json) : Except String ConfigSnapshot := do
  requireObject value "config result must be an object"
  let current ← ConfigTransitionSnapshot.fromValue value
  let history ← ((lenient value "history" asArray).getD []).mapM ConfigTransitionSnapshot.fromValue
  pure { current, history }

/-! ### Responses -/

/-- What a response may be refused for. -/
inductive ControlClientError where
  | malformed (reason : String)
  | server (code : Int) (message : String) (data : Option Json)

/-- `Value::as_i64` -/
def asI64 : Json → Option Int
  | .number (.int value) => if -2 ^ 63 ≤ value ∧ value < 2 ^ 63 then some value else none
  | _ => none

/-- The id of the request. -/
def isNumber (id : Nat) : Json → Bool
  | .number (.int value) => value == id
  | _ => false

/-- `call` behind the parser: the result of the response. -/
def receive (id : Nat) (response : Json) : Except ControlClientError Json :=
  if response.isObject = false then .error (.malformed "response must be a JSON object")
  else if Control.isVersion2 response = false then .error (.malformed "response is not jsonrpc 2.0")
  else if (response.get "id").any (isNumber id) = false then
    .error (.malformed "response id does not match the request id")
  else
    match response.get "error" with
    | some error =>
      match (error.get "code").bind asI64 with
      | none => .error (.malformed "error object must carry a numeric \"code\"")
      | some code => .error (.server code (((error.get "message").bind asStr).getD "") (error.get "data"))
    | none =>
      match response.get "result" with
      | some result => .ok result
      | none => .error (.malformed "response lacks result")

/-- The methods a client calls for a snapshot. -/
inductive ClientMethod where | status | await | output | targets | emit | run | cancel | config
  deriving DecidableEq

inductive Snapshot where
  | status (snapshot : StatusSnapshot)
  | await (snapshot : AwaitSnapshot)
  | output (snapshot : OutputSnapshot)
  | targets (snapshots : List TargetSnapshot)
  | emit (snapshot : EmitSnapshot)
  | run (snapshot : ScheduledRunSnapshot)
  | cancel (snapshot : CancelSnapshot)
  | config (snapshot : ConfigSnapshot)
  deriving DecidableEq

def ClientMethod.decode (method : ClientMethod) (value : Json) : Except String Snapshot :=
  match method with
  | .status => (StatusSnapshot.fromValue value).map .status
  | .await => (AwaitSnapshot.fromValue value).map .await
  | .output => (OutputSnapshot.fromValue value).map .output
  | .targets => do
    let values ← match asArray value with
      | some values => pure values
      | none => .error "targets result must be an array"
    let targets ← values.mapM TargetSnapshot.fromValue
    pure (.targets targets)
  | .emit => (EmitSnapshot.fromValue value).map .emit
  | .run => (ScheduledRunSnapshot.fromValue value).map .run
  | .cancel => (CancelSnapshot.fromValue value).map .cancel
  | .config => (ConfigSnapshot.fromValue value).map .config

/-- A call of the method, given the response to its request. -/
def call (method : ClientMethod) (id : Nat) (response : Json) : Except ControlClientError Snapshot := do
  let value ← receive id response
  (method.decode value).mapError .malformed

end ControlClient

end Funzzy
