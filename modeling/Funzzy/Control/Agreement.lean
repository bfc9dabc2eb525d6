import Funzzy.Control.Client
import Funzzy.Lib.Fallible

/-! The client reads what the server sends (`control.rs`, `control_client.rs`).

    `ControlResult.seen` is what a client should know after a method has answered: of every field its
    snapshot declares, the server's value. `call_response` says that it does. -/

namespace Funzzy

open Control (Json)
open Control.Json Fallible

namespace ControlClient

/-! ### What a client should know -/

/-- The texts of the state and the duration as the server has them; a missing duration stays missing. -/
def seenTask (task : TaskSnapshot) : TerminalTaskSnapshot := ⟨task.id, task.name, task.state.text, task.durationMs⟩

/-- Of a state a client is told everything but its batch, its paths and its neighbours among the runs. -/
def seenStatus (s : WatcherState) : StatusSnapshot where
  generation := s.generation
  state := s.state.text
  trigger := s.trigger
  commands := s.commands
  durationMs := s.durationMs
  failures := s.failures
  tasks := some (s.tasks.map seenTask)
  effectiveConcurrency := s.effectiveConcurrency
  concurrencySource := s.concurrencySource
  revision := s.revision
  revisionHash := s.revisionHash

/-- Evidence is taken over field by field. -/
def seenEvidence (e : FailureEvidence) : FailureEvidenceSnapshot where
  excerpt := e.excerpt
  lines := e.lines
  truncated := e.truncated
  totalObservedBytes := e.totalObservedBytes
  retainedBytes := e.retainedBytes
  retrieve := e.retrieve
  outputRef := e.outputRef
  additionalFailedTasks := e.additionalFailedTasks

/-- An await answers with the snapshot it ended on; the lifecycle that is sent with it is not declared. -/
def seenAwait (a : AwaitAnswer) : AwaitSnapshot where
  terminalReason := a.result.terminalReason.text
  latestGeneration := a.result.latestGeneration
  latestBatch := a.result.latestBatch
  pendingWork := ⟨a.result.pendingWork.debounceActive, a.result.pendingWork.queuedBatches⟩
  freshness := a.result.freshness.text
  snapshot := seenStatus a.result.snapshot
  failureEvidence := a.failureEvidence.map seenEvidence

/-- The content of a stream as text, with the counts of its buffer. -/
def seenStream (s : StreamOutput) : StreamSnapshot :=
  ⟨s.text, s.lines, s.retainedBytes, s.observedBytes, s.truncated⟩

/-- A task of a page, with the streams that are there. -/
def seenRetrieved (t : RetrievedTask) : RetrievedTaskSnapshot :=
  ⟨t.id, t.stdout.map seenStream, t.stderr.map seenStream⟩

/-- A page of output; the revision it is sent with is not declared. -/
def seenOutput (o : RetrievedOutput) : OutputSnapshot where
  generation := o.generation
  resolvedTask := o.resolvedTask
  tasks := o.tasks.map seenRetrieved
  nextCursor := o.nextCursor
  returnedBytes := o.returnedBytes
  truncated := o.truncated

/-- A target with its estimate, if it has one. -/
def seenTarget (target : ControlTarget × Option RunEstimate) : TargetSnapshot :=
  ⟨target.1.name, target.1.commands, target.2⟩

/-- What an emit has come to, under the run it started. -/
def seenEmit (e : EmitOutcome) : EmitSnapshot := ⟨e.matched, e.runId, e.outcome, e.revision, e.revisionHash⟩

/-- A run that was scheduled. -/
def seenRun (r : ScheduledRun) : ScheduledRunSnapshot := ⟨r.runId, r.revision, r.revisionHash⟩

/-- A phase of the configuration's lifecycle. -/
def seenTransition (t : ConfigTransition) : ConfigTransitionSnapshot :=
  ⟨t.phase.text, t.revision, t.revisionHash, t.reason, t.ordinal, t.atEpochMs⟩

end ControlClient

open ControlClient

/-- The method that is answered. -/
def ControlResult.method : ControlResult → ClientMethod
  | .status .. => .status
  | .await .. => .await
  | .output .. => .output
  | .targets .. => .targets
  | .emit .. => .emit
  | .run .. => .run
  | .cancel .. => .cancel
  | .config .. => .config

/-- What a client should know after the answer. -/
def ControlResult.seen : ControlResult → Except ControlClientError ControlClient.Snapshot
  | .status state _ => .ok (.status (seenStatus state))
  | .await answer => .ok (.await (seenAwait answer))
  | .output retrieved => .ok (.output (seenOutput retrieved))
  | .targets list => .ok (.targets (list.map seenTarget))
  | .emit outcome => .ok (.emit (seenEmit outcome))
  | .run scheduled => .ok (.run (seenRun scheduled))
  | .cancel generation (.cancelled .graceful _ _) => .ok (.cancel ⟨true, generation⟩)
  | .cancel generation (.cancelled .escalated _ _) => .error (.server (-32021) "Cancellation escalated"
      (some (build [("escalation", some (.bool true)), ("generation", some (nat generation))])))
  | .cancel generation .noop => .ok (.cancel ⟨false, generation⟩)
  | .config current history => .ok (.config ⟨seenTransition current, history.map seenTransition⟩)

/-! ### Values in memory -/

/-- A machine word. -/
def IsWord (value : Nat) : Prop := value < 2 ^ 64

instance (value : Nat) : Decidable (IsWord value) := inferInstanceAs (Decidable (value < 2 ^ 64))

/-- A machine word, if there is one. -/
def IsWord? (value : Option Nat) : Prop := ∀ n, value = some n → IsWord n

theorem isWord_none : IsWord? none := by
  rintro n ⟨⟩

theorem isWord_some {value : Nat} (h : IsWord value) : IsWord? (some value) := by
  rintro n ⟨⟩
  exact h

/-- The numbers of a state are those of a machine. -/
structure WatcherState.InMemory (s : WatcherState) : Prop where
  generation : IsWord s.generation
  durationMs : IsWord? s.durationMs
  batch : IsWord? s.batch
  predecessor : IsWord? s.predecessor
  supersededBy : IsWord? s.supersededBy
  tasks : ∀ task ∈ s.tasks, IsWord? task.durationMs
  effectiveConcurrency : IsWord? s.effectiveConcurrency
  revision : IsWord? s.revision

/-- So are those of the evidence, and of what it refers to. -/
structure FailureEvidence.InMemory (e : FailureEvidence) : Prop where
  lines : IsWord e.lines
  totalObservedBytes : IsWord e.totalObservedBytes
  retainedBytes : IsWord e.retainedBytes
  outputRef : ∀ ref, e.outputRef = some ref → IsWord ref.generation ∧ IsWord ref.tail ∧ IsWord ref.maxBytes
  additionalFailedTasks : IsWord e.additionalFailedTasks

/-- The revision, the ordinal and the time of a transition are words. -/
structure ConfigTransition.InMemory (t : ConfigTransition) : Prop where
  revision : IsWord? t.revision
  ordinal : IsWord t.ordinal
  atEpochMs : IsWord t.atEpochMs

/-- The queued batches are a `u32`, everything else is words. -/
structure AwaitAnswer.InMemory (a : AwaitAnswer) : Prop where
  snapshot : a.result.snapshot.InMemory
  latestGeneration : IsWord a.result.latestGeneration
  latestBatch : IsWord? a.result.latestBatch
  queuedBatches : a.result.pendingWork.queuedBatches < 2 ^ 32
  failureEvidence : ∀ evidence, a.failureEvidence = some evidence → evidence.InMemory
  configLifecycle : ∀ transition, a.configLifecycle = some transition → transition.InMemory

/-- The counts of a stream are words. -/
structure StreamOutput.InMemory (s : StreamOutput) : Prop where
  lines : IsWord s.lines
  retainedBytes : IsWord s.retainedBytes
  observedBytes : IsWord s.observedBytes

/-- The generation, the revision and the counts of a page are words. -/
structure RetrievedOutput.InMemory (o : RetrievedOutput) : Prop where
  generation : IsWord o.generation
  revision : IsWord? o.revision
  tasks : ∀ task ∈ o.tasks, (∀ stream, task.stdout = some stream → stream.InMemory) ∧
    ∀ stream, task.stderr = some stream → stream.InMemory
  returnedBytes : IsWord? o.returnedBytes

/-- The milliseconds and the samples of an estimate are words. -/
structure RunEstimate.InMemory (e : RunEstimate) : Prop where
  typicalMs : IsWord e.typicalMs
  upperMs : IsWord e.upperMs
  recommendedTimeoutMs : IsWord e.recommendedTimeoutMs
  samples : IsWord e.samples

/-- Only the revision of a cancelled run is a number. -/
def CancelResult.InMemory : CancelResult → Prop
  | .cancelled _ revision _ => IsWord? revision
  | .noop => True

/-- The numbers of the value are those of a machine. -/
def ControlResult.InMemory : ControlResult → Prop
  | .status state evidence => state.InMemory ∧ ∀ e, evidence = some e → e.InMemory
  | .await answer => answer.InMemory
  | .output retrieved => retrieved.InMemory
  | .targets list => ∀ target ∈ list, ∀ estimate, target.2 = some estimate → estimate.InMemory
  | .emit outcome => IsWord? outcome.runId ∧ IsWord? outcome.revision
  | .run scheduled => IsWord scheduled.runId ∧ IsWord? scheduled.revision
  | .cancel generation result => IsWord generation ∧ result.InMemory
  | .config current history => current.InMemory ∧ ∀ transition ∈ history, transition.InMemory

namespace ControlClient

/-! ### Fields -/

section Fields

variable {α β : Type} {value : Json} {key : String}

/-- A required field is read if it is there and of its kind. -/
theorem required_eq {read : Json → Option α} {error : String} {a : α}
    (h : (value.get key).bind read = some a) : required value key read error = .ok a := by
  rw [required, h]

theorem required_nat {error : String} {n : Nat} (hget : value.get key = some (nat n)) (h : IsWord n) :
    required value key asU64 error = .ok n :=
  required_eq (by rw [hget, Option.bind_some, asU64_nat h])

theorem required_string {error : String} {text : String} (hget : value.get key = some (.string text)) :
    required value key asStr error = .ok text :=
  required_eq (by rw [hget]; rfl)

theorem required_bool {error : String} {flag : Bool} (hget : value.get key = some (.bool flag)) :
    required value key asBool error = .ok flag :=
  required_eq (by rw [hget]; rfl)

/-- A lenient field gives what it holds, if that is of its kind. -/
theorem lenient_string {text : String} (hget : value.get key = some (.string text)) :
    lenient value key asStr = some text := by
  rw [lenient, hget]
  rfl

/-- A skipped text is missing. -/
theorem lenient_text {text : Option String} (hget : value.get key = text.map .string) :
    lenient value key asStr = text := by
  rw [lenient, hget]
  cases text <;> rfl

/-- So is one that is sent as `null`. -/
theorem lenient_textOrNull {text : Option String} (hget : value.get key = some (orNull (text.map .string))) :
    lenient value key asStr = text := by
  rw [lenient, hget]
  cases text <;> rfl

theorem lenient_flag {flag : Option Bool} (hget : value.get key = flag.map .bool) :
    lenient value key asBool = flag := by
  rw [lenient, hget]
  cases flag <;> rfl

theorem lenient_nat {n : Nat} (hget : value.get key = some (nat n)) (h : IsWord n) :
    lenient value key asU64 = some n := by
  rw [lenient, hget, Option.bind_some, asU64_nat h]

/-- A skipped number is missing. -/
theorem lenient_skipped {n : Option Nat} (hget : value.get key = n.map nat) (h : IsWord? n) :
    lenient value key asU64 = n := by
  rw [lenient, hget]
  cases n with
  | none => rfl
  | some n => rw [Option.map_some, Option.bind_some, asU64_nat (h n rfl)]

/-- `null` is no number, so a number sent as `null` is missing as well. -/
theorem lenient_orNull {n : Option Nat} (hget : value.get key = some (orNull (n.map nat))) (h : IsWord? n) :
    lenient value key asU64 = n := by
  rw [lenient, hget]
  cases n with
  | none => rfl
  | some n => rw [Option.map_some, orNull, Option.bind_some, asU64_nat (h n rfl)]

/-- The three readers of numbers agree on a number that is a word; they differ in what they refuse. -/
theorem optionalNumber_number {misfit mismatch : String} {number : Control.Number} {n : Nat}
    (hget : value.get key = some (.number number)) (hread : asU64 (.number number) = some n) :
    optionalNumber value key misfit mismatch = .ok (some n) := by
  rw [optionalNumber, hget]
  simp only [hread]

theorem numberOrNull_number {error : String} {number : Control.Number} {n : Nat}
    (hget : value.get key = some (.number number)) (hread : asU64 (.number number) = some n) :
    numberOrNull value key error = .ok (some n) := by
  rw [numberOrNull, hget]
  simp only [hread]

theorem fittingNumber_number {mismatch : String} {number : Control.Number} {n : Nat}
    (hget : value.get key = some (.number number)) (hread : asU64 (.number number) = some n) :
    fittingNumber value key mismatch = .ok (some n) := by
  rw [fittingNumber, hget]
  simp only [hread]

theorem optionalNumber_some {misfit mismatch : String} {n : Nat} (hget : value.get key = some (nat n))
    (h : IsWord n) : optionalNumber value key misfit mismatch = .ok (some n) :=
  optionalNumber_number hget (asU64_nat h)

/-- A number that may be `null` is read back as it was sent. -/
theorem optionalNumber_orNull {misfit mismatch : String} {n : Option Nat}
    (hget : value.get key = some (orNull (n.map nat))) (h : IsWord? n) :
    optionalNumber value key misfit mismatch = .ok n := by
  cases n with
  | none => rw [optionalNumber, hget]; rfl
  | some n => exact optionalNumber_some hget (h n rfl)

/-- So is a number that may be skipped. -/
theorem optionalNumber_skipped {misfit mismatch : String} {n : Option Nat}
    (hget : value.get key = n.map nat) (h : IsWord? n) :
    optionalNumber value key misfit mismatch = .ok n := by
  cases n with
  | none => rw [optionalNumber, hget]; rfl
  | some n => exact optionalNumber_some hget (h n rfl)

theorem numberOrNull_orNull {error : String} {n : Option Nat}
    (hget : value.get key = some (orNull (n.map nat))) (h : IsWord? n) :
    numberOrNull value key error = .ok n := by
  cases n with
  | none => rw [numberOrNull, hget]; rfl
  | some n => exact numberOrNull_number hget (asU64_nat (h n rfl))

theorem fittingNumber_orNull {mismatch : String} {n : Option Nat}
    (hget : value.get key = some (orNull (n.map nat))) (h : IsWord? n) :
    fittingNumber value key mismatch = .ok n := by
  cases n with
  | none => rw [fittingNumber, hget]; rfl
  | some n => exact fittingNumber_number hget (asU64_nat (h n rfl))

/-- A text that may be `null` is read back as it was sent. -/
theorem optionalString_orNull {mismatch : String} {text : Option String}
    (hget : value.get key = some (orNull (text.map .string))) :
    optionalString value key mismatch = .ok text := by
  rw [optionalString, hget]
  cases text <;> rfl

theorem optionalString_skipped {mismatch : String} {text : Option String}
    (hget : value.get key = text.map .string) : optionalString value key mismatch = .ok text := by
  rw [optionalString, hget]
  cases text <;> rfl

/-- An object that is there is decoded. -/
theorem optionalValue_some {decode : Json → Except String β} {found : Json} {b : β}
    (hget : value.get key = some found) (hobject : found.isObject = true) (h : decode found = .ok b) :
    optionalValue value key decode = .ok (some b) := by
  rw [optionalValue, hget]
  cases found with
  | object fields => simp only [h]; rfl
  | _ => cases hobject

/-- An object that may be `null` is decoded if it is there. -/
theorem optionalValue_orNull {encode : α → Json} {decode : Json → Except String β} {seen : α → β}
    {a : Option α} (hget : value.get key = some (orNull (a.map encode)))
    (hobject : ∀ a, (encode a).isObject = true) (h : ∀ x, a = some x → decode (encode x) = .ok (seen x)) :
    optionalValue value key decode = .ok (a.map seen) := by
  cases a with
  | none => rw [optionalValue, hget]; rfl
  | some a => exact optionalValue_some hget (hobject a) (h a rfl)

theorem optionalValue_skipped {encode : α → Json} {decode : Json → Except String β} {seen : α → β}
    {a : Option α} (hget : value.get key = a.map encode) (hobject : ∀ a, (encode a).isObject = true)
    (h : ∀ x, a = some x → decode (encode x) = .ok (seen x)) :
    optionalValue value key decode = .ok (a.map seen) := by
  cases a with
  | none => rw [optionalValue, hget]; rfl
  | some a => exact optionalValue_some hget (hobject a) (h a rfl)

/-- A list is decoded as each of its elements is. -/
theorem mapM_eq_ok {encode : α → Json} {decode : Json → Except String β} {seen : α → β} {l : List α}
    (h : ∀ a ∈ l, decode (encode a) = .ok (seen a)) : (l.map encode).mapM decode = .ok (l.map seen) := by
  induction l with
  | nil => rfl
  | cons a l ih =>
    have ha := h a List.mem_cons_self
    have hl := ih fun b hb => h b (List.mem_cons_of_mem a hb)
    simp only [List.map_cons, List.mapM_cons, ha, hl]
    rfl

/-- A list of texts is read back as it was sent. -/
theorem readStringArray_strings {texts : List String} (hget : value.get key = some (strings texts)) :
    readStringArray value key = .ok texts := by
  rw [readStringArray, hget, strings]
  have hmap := mapM_eq_ok fun text (_ : text ∈ texts) =>
    (rfl : readString key (.string text) = Except.ok (id text))
  rw [List.map_id'] at hmap
  exact hmap

end Fields

/-! ### Messages -/

theorem requireObject_eq {value : Json} {error : String} (h : value.isObject = true) :
    requireObject value error = .ok () := by
  rw [requireObject, if_pos h]

/-- The fields of a reference are found under their names. -/
theorem get_outputRef (r : OutputRef) :
    r.toJson.get "instanceToken" = some (.string r.instanceToken) ∧
    r.toJson.get "generation" = some (nat r.generation) ∧ r.toJson.get "task" = some (.string r.task) ∧
    r.toJson.get "mode" = some (.string r.mode) ∧ r.toJson.get "tail" = some (nat r.tail) ∧
    r.toJson.get "maxBytes" = some (nat r.maxBytes) ∧
    r.toJson.get "retrieve" = some (.string r.retrieve) := by
  simp only [OutputRef.toJson, get_build_cons, String.reduceEq, if_true, if_false, Option.some_or, and_self]

/-- A reference comes back as it was sent. -/
theorem outputRefFrom_toJson {r : OutputRef} (hgeneration : IsWord r.generation) (htail : IsWord r.tail)
    (hmax : IsWord r.maxBytes) : outputRefFrom r.toJson = .ok r := by
  obtain ⟨htoken, hgen, htask, hmode, htail', hmax', hretrieve⟩ := get_outputRef r
  unfold outputRefFrom
  rw [requireObject_eq rfl]
  simp only [ok_bind, required_string htoken, required_nat hgen hgeneration, required_string htask,
    lenient_string hmode, lenient_nat htail' htail, lenient_nat hmax' hmax, lenient_string hretrieve,
    Option.getD_some]
  rfl

/-- The fields of evidence are found under their names; the reference may be skipped. -/
theorem get_failureEvidence (e : FailureEvidence) :
    e.toJson.get "excerpt" = some (.string e.excerpt) ∧ e.toJson.get "lines" = some (nat e.lines) ∧
    e.toJson.get "truncated" = some (.bool e.truncated) ∧
    e.toJson.get "totalObservedBytes" = some (nat e.totalObservedBytes) ∧
    e.toJson.get "retainedBytes" = some (nat e.retainedBytes) ∧
    e.toJson.get "retrieve" = some (.string e.retrieve) ∧
    e.toJson.get "outputRef" = e.outputRef.map OutputRef.toJson ∧
    e.toJson.get "additionalFailedTasks" = some (nat e.additionalFailedTasks) := by
  simp only [FailureEvidence.toJson, get_build_cons, get_build_nil, String.reduceEq, if_true, if_false,
    Option.some_or, Option.or_none, and_self]

/-- A client sees the server's evidence, with the reference in it if there is one. -/
theorem failureEvidence_toJson {e : FailureEvidence} (h : e.InMemory) :
    FailureEvidenceSnapshot.fromValue e.toJson = .ok (seenEvidence e) := by
  obtain ⟨hexcerpt, hlines, htruncated, hobserved, hretained, hretrieve, href, hadditional⟩ :=
    get_failureEvidence e
  unfold FailureEvidenceSnapshot.fromValue
  rw [requireObject_eq rfl, href]
  simp only [ok_bind, required_string hexcerpt, required_nat hlines h.lines, required_bool htruncated,
    required_nat hobserved h.totalObservedBytes, required_nat hretained h.retainedBytes,
    required_string hretrieve, lenient_nat hadditional h.additionalFailedTasks, Option.getD_some]
  cases hcase : e.outputRef with
  | none =>
    rw [seenEvidence, hcase]
    rfl
  | some ref =>
    obtain ⟨hgeneration, htail, hmax⟩ := h.outputRef ref hcase
    rw [Option.map_some]
    simp only [outputRefFrom_toJson hgeneration htail hmax, ok_map, ok_bind]
    rw [seenEvidence, hcase]
    rfl

/-- The fields of a task are found under their names. -/
theorem get_task (task : TaskSnapshot) :
    task.toJson.get "id" = some (.string task.id) ∧ task.toJson.get "name" = some (.string task.name) ∧
    task.toJson.get "state" = some (.string task.state.text) ∧
    task.toJson.get "durationMs" = some (orNull (task.durationMs.map nat)) := by
  simp only [TaskSnapshot.toJson, get_build_cons, String.reduceEq, if_true, if_false, Option.some_or, and_self]

/-- A client sees a task, wherever it stands in the list. -/
theorem terminalTask_toJson {task : TaskSnapshot} (h : IsWord? task.durationMs) (index : Nat) :
    terminalTask task.toJson index = .ok (seenTask task) := by
  obtain ⟨hid, hname, hstate, hduration⟩ := get_task task
  have hknown : ∀ error, required task.toJson "state"
      (fun state => (asStr state).filter fun text => ["passed", "failed", "cancelled"].contains text) error =
        .ok task.state.text := by
    intro error
    refine required_eq ?_
    rw [hstate]
    cases task.state <;> rfl
  unfold terminalTask
  simp only [requireObject_eq (rfl : task.toJson.isObject = true), ok_bind, required_string hid, required_string hname,
    hknown, numberOrNull_orNull hduration h]
  rfl

/-- Tasks are decoded with their place in the list. -/
theorem terminalTasks_toJson {tasks : List TaskSnapshot} (h : ∀ task ∈ tasks, IsWord? task.durationMs) :
    ∀ first, ((tasks.map TaskSnapshot.toJson).zipIdx first).mapM (fun entry => terminalTask entry.1 entry.2) =
      .ok (tasks.map seenTask) := by
  induction tasks with
  | nil => exact fun _ => rfl
  | cons task tasks ih =>
    intro first
    have htask := terminalTask_toJson (h task List.mem_cons_self) first
    have htasks := ih (fun other hother => h other (List.mem_cons_of_mem task hother)) (first + 1)
    simp only [List.map_cons, List.zipIdx_cons, List.mapM_cons, htask, htasks]
    rfl

/-- The fields of a state that a client reads; `status` has one more field behind them. -/
theorem get_status (s : WatcherState) (extra : List (String × Option Json)) :
    (build (s.fields ++ extra)).get "generation" = some (nat s.generation) ∧
    (build (s.fields ++ extra)).get "state" = some (.string s.state.text) ∧
    (build (s.fields ++ extra)).get "trigger" = some (orNull (s.trigger.map .string)) ∧
    (build (s.fields ++ extra)).get "commands" = some (strings s.commands) ∧
    (build (s.fields ++ extra)).get "durationMs" = some (orNull (s.durationMs.map nat)) ∧
    (build (s.fields ++ extra)).get "failures" = some (strings s.failures) ∧
    (build (s.fields ++ extra)).get "tasks" = some (.array (s.tasks.map TaskSnapshot.toJson)) ∧
    (build (s.fields ++ extra)).get "effectiveConcurrency" = some (orNull (s.effectiveConcurrency.map nat)) ∧
    (build (s.fields ++ extra)).get "concurrencySource" = some (orNull (s.concurrencySource.map .string)) ∧
    (build (s.fields ++ extra)).get "revision" = some (orNull (s.revision.map nat)) ∧
    (build (s.fields ++ extra)).get "revisionHash" = some (orNull (s.revisionHash.map .string)) := by
  simp only [WatcherState.fields, List.cons_append, get_build_cons, String.reduceEq, if_true, if_false,
    Option.some_or, and_self]

/-- A client sees a state, whatever stands behind the state's own fields. -/
theorem status_fields {s : WatcherState} (h : s.InMemory) (extra : List (String × Option Json)) :
    StatusSnapshot.fromValue (build (s.fields ++ extra)) = .ok (seenStatus s) := by
  obtain ⟨hgeneration, hstate, htrigger, hcommands, hduration, hfailures, htasks, hlimit, hsource, hrevision,
    hhash⟩ := get_status s extra
  have htasks : readOptionalTerminalTasks (build (s.fields ++ extra)) = .ok (some (s.tasks.map seenTask)) := by
    rw [readOptionalTerminalTasks, htasks]
    simp only [asArray, terminalTasks_toJson h.tasks 0, ok_bind]
    rfl
  unfold StatusSnapshot.fromValue
  simp only [requireObject_eq (isObject_build _), ok_bind, required_nat hgeneration h.generation,
    required_string hstate, optionalString_orNull htrigger, readStringArray_strings hcommands,
    optionalNumber_orNull hduration h.durationMs, readStringArray_strings hfailures, htasks,
    optionalNumber_orNull hlimit h.effectiveConcurrency, optionalString_orNull hsource,
    optionalNumber_orNull hrevision h.revision, optionalString_orNull hhash]
  rfl

/-- In particular when nothing does. -/
theorem status_toJson {s : WatcherState} (h : s.InMemory) :
    StatusSnapshot.fromValue s.toJson = .ok (seenStatus s) := by
  have hfields := status_fields h []
  rw [List.append_nil] at hfields
  exact hfields

/-- The fields of an await are found under their names; evidence and lifecycle may be skipped. -/
theorem get_await (a : AwaitAnswer) :
    a.toJson.get "snapshot" = some a.result.snapshot.toJson ∧
    a.toJson.get "terminalReason" = some (.string a.result.terminalReason.text) ∧
    a.toJson.get "latestGeneration" = some (nat a.result.latestGeneration) ∧
    a.toJson.get "latestBatch" = some (orNull (a.result.latestBatch.map nat)) ∧
    a.toJson.get "pendingWork" = some a.result.pendingWork.toJson ∧
    a.toJson.get "freshness" = some (.string a.result.freshness.text) ∧
    a.toJson.get "failureEvidence" = a.failureEvidence.map FailureEvidence.toJson := by
  simp only [AwaitAnswer.toJson, get_build_cons, get_build_nil, String.reduceEq, if_true, if_false,
    Option.some_or, Option.or_none, and_self]

theorem get_pendingWork (pending : PendingWork) :
    pending.toJson.get "debounceActive" = some (.bool pending.debounceActive) ∧
    pending.toJson.get "queuedBatches" = some (nat pending.queuedBatches) := by
  simp only [PendingWork.toJson, get_build_cons, String.reduceEq, if_true, if_false, Option.some_or, and_self]

/-- A client sees an await's answer: the reason, the facts of the coordinator, the snapshot and the
    evidence. -/
theorem await_toJson {a : AwaitAnswer} (h : a.InMemory) :
    AwaitSnapshot.fromValue a.toJson = .ok (seenAwait a) := by
  obtain ⟨hsnapshot, hreason, hlatest, hbatch, hpending, hfreshness, hevidence⟩ := get_await a
  obtain ⟨hactive, hqueued⟩ := get_pendingWork a.result.pendingWork
  have hreason : ∀ error, required a.toJson "terminalReason" (knownText ["passed", "failed", "cancelled",
      "superseded", "timeout", "disconnected", "restarted"]) error = .ok a.result.terminalReason.text := by
    intro error
    refine required_eq ?_
    rw [hreason]
    cases a.result.terminalReason <;> rfl
  have hfreshness : ∀ error, required a.toJson "freshness" (knownText ["current", "stale", "unknown"]) error =
      .ok a.result.freshness.text := by
    intro error
    refine required_eq ?_
    rw [hfreshness]
    cases a.result.freshness <;> rfl
  have hpending : ∀ error, required a.toJson "pendingWork"
      (fun pending => if pending.isObject then some pending else none) error =
        .ok a.result.pendingWork.toJson := by
    intro error
    refine required_eq ?_
    rw [hpending]
    rfl
  have hsnapshot : ∀ error, required a.toJson "snapshot" some error = .ok a.result.snapshot.toJson := by
    intro error
    refine required_eq ?_
    rw [hsnapshot]
    rfl
  have hword : IsWord a.result.pendingWork.queuedBatches := by
    unfold IsWord
    have := h.queuedBatches
    omega
  have hcast : asU32 a.result.pendingWork.queuedBatches = a.result.pendingWork.queuedBatches :=
    Nat.mod_eq_of_lt h.queuedBatches
  unfold AwaitSnapshot.fromValue
  simp only [requireObject_eq (rfl : a.toJson.isObject = true), ok_bind, hreason,
    required_nat hlatest h.latestGeneration, fittingNumber_orNull hbatch h.latestBatch, hpending,
    required_bool hactive, required_nat hqueued hword, hfreshness, hsnapshot, status_toJson h.snapshot,
    optionalValue_skipped hevidence (fun _ => rfl)
      (fun e he => failureEvidence_toJson (h.failureEvidence e he)),
    hcast]
  rfl

theorem get_stream (s : StreamOutput) :
    s.toJson.get "content" = some (.string s.text) ∧ s.toJson.get "lines" = some (nat s.lines) ∧
    s.toJson.get "retainedBytes" = some (nat s.retainedBytes) ∧
    s.toJson.get "observedBytes" = some (nat s.observedBytes) ∧
    s.toJson.get "truncated" = some (.bool s.truncated) := by
  simp only [StreamOutput.toJson, get_build_cons, String.reduceEq, if_true, if_false, Option.some_or, and_self]

/-- A client sees a stream. -/
theorem stream_toJson {s : StreamOutput} (h : s.InMemory) :
    StreamSnapshot.fromValue s.toJson = .ok (seenStream s) := by
  obtain ⟨hcontent, hlines, hretained, hobserved, htruncated⟩ := get_stream s
  unfold StreamSnapshot.fromValue
  simp only [requireObject_eq (rfl : s.toJson.isObject = true), ok_bind, required_string hcontent,
    required_nat hlines h.lines, required_nat hretained h.retainedBytes,
    required_nat hobserved h.observedBytes, required_bool htruncated]
  rfl

/-- Both streams are sent, the missing one as `null`. -/
theorem get_retrievedTask (t : RetrievedTask) :
    t.toJson.get "id" = some (.string t.id) ∧
    t.toJson.get "stdout" = some (orNull (t.stdout.map StreamOutput.toJson)) ∧
    t.toJson.get "stderr" = some (orNull (t.stderr.map StreamOutput.toJson)) := by
  simp only [RetrievedTask.toJson, get_build_cons, String.reduceEq, if_true, if_false, Option.some_or, and_self]

/-- A client sees a task of a page. -/
theorem retrievedTask_toJson {t : RetrievedTask} (hstdout : ∀ stream, t.stdout = some stream → stream.InMemory)
    (hstderr : ∀ stream, t.stderr = some stream → stream.InMemory) :
    RetrievedTaskSnapshot.fromValue t.toJson = .ok (seenRetrieved t) := by
  obtain ⟨hid, hout, herr⟩ := get_retrievedTask t
  unfold RetrievedTaskSnapshot.fromValue
  simp only [requireObject_eq (rfl : t.toJson.isObject = true), ok_bind, required_string hid,
    optionalValue_orNull hout (fun _ => rfl) (fun s hs => stream_toJson (hstdout s hs)),
    optionalValue_orNull herr (fun _ => rfl) (fun s hs => stream_toJson (hstderr s hs))]
  rfl

theorem get_output (o : RetrievedOutput) :
    o.toJson.get "generation" = some (nat o.generation) ∧
    o.toJson.get "resolvedTask" = o.resolvedTask.map .string ∧
    o.toJson.get "tasks" = some (.array (o.tasks.map RetrievedTask.toJson)) ∧
    o.toJson.get "nextCursor" = o.nextCursor.map .string ∧
    o.toJson.get "returnedBytes" = o.returnedBytes.map nat ∧
    o.toJson.get "truncated" = o.truncated.map .bool := by
  simp only [RetrievedOutput.toJson, get_build_cons, get_build_nil, String.reduceEq, if_true, if_false,
    Option.some_or, Option.or_none, and_self]

/-- A client sees a page, its cursor included. -/
theorem output_toJson {o : RetrievedOutput} (h : o.InMemory) :
    OutputSnapshot.fromValue o.toJson = .ok (seenOutput o) := by
  obtain ⟨hgeneration, hresolved, htasks, hcursor, hreturned, htruncated⟩ := get_output o
  have htasks : ∀ error, required o.toJson "tasks" asArray error = .ok (o.tasks.map RetrievedTask.toJson) := by
    intro error
    refine required_eq ?_
    rw [htasks]
    rfl
  have hdecoded : (o.tasks.map RetrievedTask.toJson).mapM RetrievedTaskSnapshot.fromValue =
      .ok (o.tasks.map seenRetrieved) :=
    mapM_eq_ok fun t ht => retrievedTask_toJson (h.tasks t ht).1 (h.tasks t ht).2
  unfold OutputSnapshot.fromValue
  simp only [requireObject_eq (rfl : o.toJson.isObject = true), ok_bind, required_nat hgeneration h.generation,
    htasks, hdecoded, lenient_text hresolved, lenient_text hcursor, lenient_skipped hreturned h.returnedBytes,
    lenient_flag htruncated]
  rfl

theorem get_estimate (e : RunEstimate) :
    e.toJson.get "typicalMs" = some (nat e.typicalMs) ∧ e.toJson.get "upperMs" = some (nat e.upperMs) ∧
    e.toJson.get "recommendedTimeoutMs" = some (nat e.recommendedTimeoutMs) ∧
    e.toJson.get "samples" = some (nat e.samples) ∧
    e.toJson.get "confidence" = some (.string e.confidence.text) ∧
    e.toJson.get "source" = some (.string e.source.text) := by
  simp only [RunEstimate.toJson, get_build_cons, String.reduceEq, if_true, if_false, Option.some_or, and_self]

/-- An estimate comes back as it was sent: the texts of its confidence and its source are told apart. -/
theorem estimate_toJson {e : RunEstimate} (h : e.InMemory) : estimateFrom e.toJson = e := by
  obtain ⟨htypical, hupper, hrecommended, hsamples, hconfidence, hsource⟩ := get_estimate e
  unfold estimateFrom
  rw [lenient_nat htypical h.typicalMs, lenient_nat hupper h.upperMs,
    lenient_nat hrecommended h.recommendedTimeoutMs, lenient_nat hsamples h.samples,
    lenient_string hconfidence, lenient_string hsource]
  obtain ⟨typicalMs, upperMs, recommendedTimeoutMs, samples, confidence, source⟩ := e
  cases confidence <;> cases source <;> rfl

theorem get_target (target : ControlTarget × Option RunEstimate) :
    (targetToJson target).get "name" = some (.string target.1.name) ∧
    (targetToJson target).get "commands" = some (strings target.1.commands) ∧
    (targetToJson target).get "estimate" = target.2.map RunEstimate.toJson := by
  simp only [targetToJson, get_build_cons, get_build_nil, String.reduceEq, if_true, if_false, Option.some_or,
    Option.or_none, and_self]

/-- A client sees a target, with its estimate if one was sent. -/
theorem target_toJson {target : ControlTarget × Option RunEstimate}
    (h : ∀ estimate, target.2 = some estimate → estimate.InMemory) :
    TargetSnapshot.fromValue (targetToJson target) = .ok (seenTarget target) := by
  obtain ⟨hname, hcommands, hestimate⟩ := get_target target
  have hestimate : (((targetToJson target).get "estimate").filter Json.isObject).map estimateFrom = target.2 := by
    rw [hestimate]
    cases hcase : target.2 with
    | none => rfl
    | some estimate => exact congrArg some (estimate_toJson (h estimate hcase))
  unfold TargetSnapshot.fromValue
  simp only [requireObject_eq (rfl : (targetToJson target).isObject = true), ok_bind, required_string hname,
    readStringArray_strings hcommands, hestimate]
  rfl

theorem get_emit (e : EmitOutcome) :
    e.toJson.get "matched" = some (strings e.matched) ∧
    e.toJson.get "runId" = some (orNull (e.runId.map nat)) ∧
    e.toJson.get "outcome" = some (.string e.outcome) ∧ e.toJson.get "revision" = e.revision.map nat ∧
    e.toJson.get "revisionHash" = e.revisionHash.map .string := by
  simp only [EmitOutcome.toJson, get_build_cons, get_build_nil, String.reduceEq, if_true, if_false,
    Option.some_or, Option.or_none, and_self]

/-- A client knows the outcome of an emit, and sees what it matched and started. -/
theorem emit_toJson {e : EmitOutcome} (hrun : IsWord? e.runId) (hrevision : IsWord? e.revision) :
    EmitSnapshot.fromValue e.toJson = .ok (seenEmit e) := by
  obtain ⟨hmatched, hrunId, houtcome, hrevisionGet, hhash⟩ := get_emit e
  have hknown : ¬ ["scheduled", "unmatched", "ignored"].contains e.outcome = false := by
    rcases e.known with h | h | h <;> rw [h] <;> decide
  unfold EmitSnapshot.fromValue
  simp only [requireObject_eq (rfl : e.toJson.isObject = true), ok_bind, required_string houtcome, if_neg hknown,
    readStringArray_strings hmatched, optionalNumber_orNull hrunId hrun,
    optionalNumber_skipped hrevisionGet hrevision, optionalString_skipped hhash]
  rfl

theorem get_run (r : ScheduledRun) :
    r.toJson.get "runId" = some (nat r.runId) ∧ r.toJson.get "revision" = r.revision.map nat ∧
    r.toJson.get "revisionHash" = r.revisionHash.map .string := by
  simp only [ScheduledRun.toJson, get_build_cons, get_build_nil, String.reduceEq, if_true, if_false,
    Option.some_or, Option.or_none, and_self]

/-- A client sees a scheduled run. -/
theorem run_toJson {r : ScheduledRun} (hrun : IsWord r.runId) (hrevision : IsWord? r.revision) :
    ScheduledRunSnapshot.fromValue r.toJson = .ok (seenRun r) := by
  obtain ⟨hrunId, hrevisionGet, hhash⟩ := get_run r
  unfold ScheduledRunSnapshot.fromValue
  simp only [requireObject_eq (rfl : r.toJson.isObject = true), ok_bind, required_nat hrunId hrun,
    optionalNumber_skipped hrevisionGet hrevision, optionalString_skipped hhash]
  rfl

/-- Whatever follows the first two fields of a cancellation is not read. -/
theorem cancel_fields {cancelled : Bool} {generation : Nat} (h : IsWord generation)
    (rest : List (String × Option Json)) :
    CancelSnapshot.fromValue
        (build (("cancelled", some (.bool cancelled)) :: ("generation", some (nat generation)) :: rest)) =
      .ok ⟨cancelled, generation⟩ := by
  have hget : ∀ value : Json,
      value = build (("cancelled", some (.bool cancelled)) :: ("generation", some (nat generation)) :: rest) →
      value.get "cancelled" = some (.bool cancelled) ∧ value.get "generation" = some (nat generation) := by
    rintro _ rfl
    simp only [get_build_cons, String.reduceEq, if_true, if_false, Option.some_or, and_self]
  obtain ⟨hcancelled, hgeneration⟩ := hget _ rfl
  unfold CancelSnapshot.fromValue
  simp only [requireObject_eq (isObject_build _), ok_bind, required_bool hcancelled, required_nat hgeneration h]
  rfl

/-- The fields of a transition; those of the current one have the history behind them. -/
theorem get_transition (t : ConfigTransition) (history : Option Json) :
    (build (t.fields ++ [("history", history)])).get "phase" = some (.string t.phase.text) ∧
    (build (t.fields ++ [("history", history)])).get "revision" = some (orNull (t.revision.map nat)) ∧
    (build (t.fields ++ [("history", history)])).get "revisionHash" =
      some (orNull (t.revisionHash.map .string)) ∧
    (build (t.fields ++ [("history", history)])).get "reason" = t.reason.map .string ∧
    (build (t.fields ++ [("history", history)])).get "ordinal" = some (nat t.ordinal) ∧
    (build (t.fields ++ [("history", history)])).get "atEpochMs" = some (nat t.atEpochMs) ∧
    (build (t.fields ++ [("history", history)])).get "history" = history := by
  simp only [ConfigTransition.fields, List.cons_append, List.nil_append, get_build_cons, get_build_nil,
    String.reduceEq, if_true, if_false, Option.some_or, Option.or_none, and_self]

/-- A client sees a transition, with or without a history behind it. -/
theorem transition_fields {t : ConfigTransition} (h : t.InMemory) (history : Option Json) :
    ConfigTransitionSnapshot.fromValue (build (t.fields ++ [("history", history)])) =
      .ok (seenTransition t) := by
  obtain ⟨hphase, hrevision, hhash, hreason, hordinal, hat, -⟩ := get_transition t history
  unfold ConfigTransitionSnapshot.fromValue
  simp only [requireObject_eq (isObject_build _), ok_bind, required_string hphase,
    lenient_orNull hrevision h.revision, lenient_textOrNull hhash, lenient_text hreason,
    lenient_nat hordinal h.ordinal, lenient_nat hat h.atEpochMs, Option.getD_some]
  rfl

theorem transition_toJson {t : ConfigTransition} (h : t.InMemory) :
    ConfigTransitionSnapshot.fromValue t.toJson = .ok (seenTransition t) := by
  have hbuild : t.toJson = build (t.fields ++ [("history", none)]) := by
    simp [ConfigTransition.toJson, build]
  rw [hbuild, transition_fields h]

/-- A client sees the current transition and the history in its order. -/
theorem config_toJson {current : ConfigTransition} {history : List ConfigTransition} (hcurrent : current.InMemory)
    (hhistory : ∀ t ∈ history, t.InMemory) :
    ConfigSnapshot.fromValue (configToJson current history) =
      .ok ⟨seenTransition current, history.map seenTransition⟩ := by
  obtain ⟨-, -, -, -, -, -, hget⟩ :=
    get_transition current (some (.array (history.map ConfigTransition.toJson)))
  have hlist : (lenient (configToJson current history) "history" asArray).getD [] =
      history.map ConfigTransition.toJson := by
    rw [lenient, configToJson, hget]
    rfl
  have hdecoded : (history.map ConfigTransition.toJson).mapM ConfigTransitionSnapshot.fromValue =
      .ok (history.map seenTransition) :=
    mapM_eq_ok fun t ht => transition_toJson (hhistory t ht)
  have hfirst := transition_fields hcurrent (some (.array (history.map ConfigTransition.toJson)))
  rw [← configToJson] at hfirst
  unfold ConfigSnapshot.fromValue
  simp only [requireObject_eq (rfl : (configToJson current history).isObject = true), ok_bind, hfirst, hlist,
    hdecoded]
  rfl

/-! ### Responses -/

/-- A response carries the number of its request. -/
theorem isNumber_nat (id : Nat) : isNumber id (nat id) = true := beq_self_eq_true (id : Int)

/-- The result of a response with the request's number is taken. -/
theorem receive_result (id : Nat) (value : Json) : receive id (Control.rpcResult (nat id) value) = .ok value := by
  have hid : (Control.rpcResult (nat id) value).get "id" = some (nat id) := rfl
  unfold receive
  rw [hid, Option.any_some, isNumber_nat]
  rfl

/-- An escalation is the one error a method answers with; it reaches the caller with its data. -/
theorem receive_escalation (id : Nat) (data : Json) :
    receive id (Control.rpcError (nat id) (-32021) "Cancellation escalated" (some data)) =
      .error (.server (-32021) "Cancellation escalated" (some data)) := by
  have hid : (Control.rpcError (nat id) (-32021) "Cancellation escalated" (some data)).get "id" =
      some (nat id) := rfl
  unfold receive
  rw [hid, Option.any_some, isNumber_nat]
  rfl

/-- The call of a method that is answered with a result. -/
theorem call_decoded (id : Nat) {method : ClientMethod} {value : Json} {snapshot : Snapshot}
    (h : method.decode value = .ok snapshot) : call method id (Control.rpcResult (nat id) value) = .ok snapshot := by
  rw [call, receive_result, ok_bind, h]
  rfl

end ControlClient

/-- A call yields what the method answered with: every field of its snapshot is the server's, and a missing one
    is missing. -/
theorem call_response (id : Nat) (result : ControlResult) (h : result.InMemory) :
    call result.method id (result.response id) = result.seen := by
  cases result with
  | status state evidence =>
    refine call_decoded id ?_
    rw [statusToJson, ControlResult.method, ClientMethod.decode, status_fields h.1, ok_map]
  | await answer =>
    refine call_decoded id ?_
    rw [ControlResult.method, ClientMethod.decode, await_toJson h, ok_map]
  | output retrieved =>
    refine call_decoded id ?_
    rw [ControlResult.method, ClientMethod.decode, output_toJson h, ok_map]
  | targets list =>
    have hlist : (list.map targetToJson).mapM TargetSnapshot.fromValue = .ok (list.map seenTarget) :=
      mapM_eq_ok fun target htarget => target_toJson (h target htarget)
    refine call_decoded id ?_
    simp only [ControlResult.method, ClientMethod.decode, asArray, pure_bind, hlist, ok_bind]
    rfl
  | emit outcome =>
    refine call_decoded id ?_
    rw [ControlResult.method, ClientMethod.decode, emit_toJson h.1 h.2, ok_map]
  | run scheduled =>
    refine call_decoded id ?_
    rw [ControlResult.method, ClientMethod.decode, run_toJson h.1 h.2, ok_map]
  | config current history =>
    refine call_decoded id ?_
    rw [ControlResult.method, ClientMethod.decode, config_toJson h.1 h.2, ok_map]
  | cancel generation outcome =>
    cases outcome with
    | noop =>
      refine call_decoded id ?_
      rw [ControlResult.method, ClientMethod.decode, cancel_fields h.1, ok_map]
    | cancelled disposition revision revisionHash =>
      cases disposition with
      | graceful =>
        refine call_decoded id ?_
        rw [ControlResult.method, ClientMethod.decode, cancel_fields h.1, ok_map]
      | escalated =>
        have hreceived := receive_escalation id
          (build [("escalation", some (.bool true)), ("generation", some (nat generation))])
        rw [call, ControlResult.response, ControlResult.encode, cancelRequestedGeneration]
        simp only [hreceived]
        rfl

/-- An await whose run has failed, with its evidence. -/
def failedAwait : AwaitAnswer where
  result :=
    { snapshot := { generation := 4, state := .failed, trigger := some "src/main.rs", commands := ["make"],
                    durationMs := some 120, tasks := [⟨0, "build", "build", .failed, none⟩] }
      terminalReason := .failed
      latestGeneration := 4
      latestBatch := none
      pendingWork := {}
      freshness := .current
      evidence := some (4, ["build"]) }
  failureEvidence := some ⟨"error", 1, false, 5, 5, "fzz control output 4", none, 0⟩
  configLifecycle := none

theorem failedAwait_inMemory : failedAwait.InMemory where
  snapshot :=
    { generation := by decide
      durationMs := isWord_some (by decide)
      batch := isWord_none
      predecessor := isWord_none
      supersededBy := isWord_none
      tasks := by
        intro task htask
        rw [List.mem_singleton.mp htask]
        exact isWord_none
      effectiveConcurrency := isWord_none
      revision := isWord_none }
  latestGeneration := by decide
  latestBatch := isWord_none
  queuedBatches := by decide
  failureEvidence := by
    rintro _ ⟨⟩
    exact ⟨by decide, by decide, by decide, by rintro _ ⟨⟩, by decide⟩
  configLifecycle := by rintro _ ⟨⟩

/-- The missing duration of the task stays missing. -/
theorem call_response_at_failure :
    ∃ snapshot, call .await 3 ((ControlResult.await failedAwait).response 3) = .ok (.await snapshot) ∧
      snapshot.snapshot.tasks = some [⟨"build", "build", "failed", none⟩] ∧
      snapshot.snapshot.durationMs = some 120 ∧ snapshot.latestBatch = none :=
  ⟨_, call_response 3 (.await failedAwait) failedAwait_inMemory, rfl, rfl, rfl⟩

/-- The revision of a cancelled run is sent, and no snapshot tells it. -/
theorem cancelled_revision_unread :
    ((ControlResult.cancel 7 (.cancelled .graceful (some 3) none)).response 1 |>.get "result").bind
        (Json.get "revision") = some (nat 3) ∧
      call .cancel 1 ((ControlResult.cancel 7 (.cancelled .graceful (some 3) none)).response 1) =
        call .cancel 1 ((ControlResult.cancel 7 (.cancelled .graceful none none)).response 1) := by
  have hcall : ∀ revision,
      call .cancel 1 ((ControlResult.cancel 7 (.cancelled .graceful revision none)).response 1) =
        .ok (.cancel ⟨true, 7⟩) := by
    intro revision
    refine call_decoded 1 ?_
    rw [ClientMethod.decode, cancel_fields (by decide), ok_map]
  exact ⟨rfl, (hcall (some 3)).trans (hcall none).symm⟩

end Funzzy
