import Funzzy.Control.Text
import Funzzy.Control.Wire
import Funzzy.Executor.World
import Funzzy.Lib.SortedMap

/-! The event file (`event_stream.rs`): one JSON object per line for each event.

    The writer is behind a lock, so a run is the list of the calls of `emit` in the order they took it,
    from whatever threads. A failed write leaves a part of the record's line in the file, warns, and
    closes the writer. Each call carries the clock's milliseconds and how its write ended. -/

namespace Funzzy

open Control (Json newline)
open Control.Json (nat orNull strings line)

/-- Schema version of the event records. -/
def eventSchemaVersion : Nat := 1

namespace Event

def kind : Event → String
  | .started _ _ => "started"
  | .tick _ _ => "tick"
  | .taskTerminal _ _ => "task_terminal"
  | .finished _ _ _ _ => "finished"
  | .cancelled _ _ => "cancelled"
  | .recoveryPhase _ _ _ _ => "recovery_phase"

/-- The run an event belongs to; ticks belong to none. -/
def run : Event → Option Nat
  | .started metadata _ => some metadata.runId
  | .tick _ _ => none
  | .taskTerminal runId _ | .finished runId _ _ _ | .cancelled runId _ | .recoveryPhase runId _ _ _ => some runId

/-- The fields of a record that its kind has. -/
def details : Event → List (String × Json)
  | .started metadata commands =>
    [("trigger", .string metadata.trigger), ("batch", orNull (metadata.batch.map nat)),
      ("predecessor", orNull (metadata.predecessor.map nat)), ("changed", strings metadata.changed),
      ("commands", strings commands), ("target", orNull (metadata.target.map .string)),
      ("effectiveConcurrency", orNull (metadata.effectiveConcurrency.map nat)),
      ("concurrencySource", orNull (metadata.concurrencySource.map .string))]
  | .tick task groupOccurrence =>
    [("task", .string task), ("group", orNull (groupOccurrence.map .string))]
  | .taskTerminal _ task =>
    [("task", .string task.name), ("group", .string task.id), ("state", .string task.state.text),
      ("durationMs", orNull (task.durationMs.map nat))]
  | .finished _ supersededBy elapsed failures =>
    [("elapsedMs", nat (elapsed % 2 ^ 64)), ("failures", strings failures),
      ("supersededBy", orNull (supersededBy.map nat))]
  | .cancelled _ supersededBy => [("supersededBy", orNull (supersededBy.map nat))]
  | .recoveryPhase _ job phase outcome =>
    [("job", .string job), ("phase", .string phase), ("outcome", orNull (outcome.map .string))]

end Event

namespace EventStream

/-- The fields of the record of an event, as they are written in the source. -/
def fields (tsMs : Nat) (event : Event) : List (String × Json) :=
  [("schemaVersion", nat eventSchemaVersion), ("event", .string event.kind),
    ("runId", orNull (event.run.map nat)), ("tsMs", nat tsMs)] ++ event.details

def serialize (tsMs : Nat) (event : Event) : Json := .ordered (fields tsMs event)

/-! ### What a record keeps -/

/-- No field of a record is written over. -/
theorem nodup_fields (tsMs : Nat) (event : Event) : ((fields tsMs event).map Prod.fst).Nodup := by
  cases event <;> simp [fields, Event.details]

/-- Records are equal only if they are of one kind, with the same fields. -/
theorem fields_of_serialize {tsMs tsMs' : Nat} {event event' : Event}
    (h : serialize tsMs event = serialize tsMs' event') :
    event.kind = event'.kind ∧ fields tsMs event = fields tsMs' event' := by
  have hget : ∀ (tsMs : Nat) (event : Event), (serialize tsMs event).get "event" = some (.string event.kind) :=
    fun tsMs event => Json.get_ordered_of_mem (nodup_fields tsMs event) (by simp [fields])
  have hkind : event.kind = event'.kind := by
    have := (hget tsMs event).symm.trans (h ▸ hget tsMs' event')
    injection this with this
    injection this
  refine ⟨hkind, Json.ordered_injective (nodup_fields tsMs event) ?_ h⟩
  cases event <;> cases event' <;> simp_all [Event.kind, fields, Event.details]

end EventStream

/-- What the record of an event keeps of it. -/
def Event.kept : Event → Event
  | .started metadata commands =>
    .started { metadata with executionSignature := none, hooks := {}, recoveryPolicy := .prompt,
                             revision := none, revisionHash := none } commands
  | .tick task groupOccurrence => .tick task groupOccurrence
  | .taskTerminal runId task => .taskTerminal runId { task with position := 0 }
  | .finished runId supersededBy elapsed failures => .finished runId supersededBy (elapsed % 2 ^ 64) failures
  | .cancelled runId supersededBy => .cancelled runId supersededBy
  | .recoveryPhase runId job phase outcome => .recoveryPhase runId job phase outcome

namespace EventStream

variable {α : Type}

@[simp] theorem nat_inj {a b : Nat} : nat a = nat b ↔ a = b := by
  simp [nat]

@[simp] theorem strings_inj {a b : List String} : strings a = strings b ↔ a = b := by
  rw [strings, strings, Json.array.injEq]
  exact (List.map_injective_iff.mpr fun s t h => by injection h).eq_iff

/-- A missing value is `null`, which no value is. -/
theorem orNull_inj {f : α → Json} (hf : Function.Injective f) (hnull : ∀ a, f a ≠ .null) {x y : Option α} :
    orNull (x.map f) = orNull (y.map f) ↔ x = y := by
  cases x with
  | none =>
    cases y with
    | none => simp
    | some b => simpa [orNull] using (hnull b).symm
  | some a =>
    cases y with
    | none => simpa [orNull] using hnull a
    | some b => simpa [orNull] using hf.eq_iff

@[simp] theorem orNull_nat_inj {x y : Option Nat} : orNull (x.map nat) = orNull (y.map nat) ↔ x = y :=
  orNull_inj (fun _ _ => nat_inj.mp) fun _ => nofun

@[simp] theorem orNull_string_inj {x y : Option String} :
    orNull (x.map .string) = orNull (y.map Json.string) ↔ x = y :=
  orNull_inj (f := Json.string) (fun _ _ h => by injection h) fun _ => nofun

@[simp] theorem orNull_some {value : Json} : orNull (some value) = value := rfl

@[simp] theorem text_inj {a b : TaskState} : a.text = b.text ↔ a = b := by
  cases a <;> cases b <;> decide

theorem fields_eq_iff {tsMs tsMs' : Nat} {event event' : Event} (hkind : event.kind = event'.kind) :
    fields tsMs event = fields tsMs' event' ↔ tsMs = tsMs' ∧ event.kept = event'.kept := by
  cases event <;> cases event'
  case tick.tick => simp [fields, Event.kind, Event.run, Event.details, Event.kept]
  case started.started | finished.finished | cancelled.cancelled | taskTerminal.taskTerminal
      | recoveryPhase.recoveryPhase =>
    simp only [fields, Event.kind, Event.run, Event.details, Event.kept, Option.map_some, orNull_some,
      List.cons_append, List.nil_append, List.cons.injEq, Prod.mk.injEq, true_and, and_true, nat_inj,
      strings_inj, orNull_nat_inj, orNull_string_inj, Json.string.injEq, text_inj, Event.cancelled.injEq,
      Event.recoveryPhase.injEq, Event.taskTerminal.injEq, Event.finished.injEq, Event.started.injEq,
      RunMetadata.mk.injEq, TaskSnapshot.mk.injEq]
    tauto
  all_goals simp [Event.kind] at hkind

/-- Two records are equal exactly if their times are and what they keep of their events. -/
theorem serialize_eq_iff (tsMs tsMs' : Nat) (event event' : Event) :
    serialize tsMs event = serialize tsMs' event' ↔ tsMs = tsMs' ∧ event.kept = event'.kept := by
  have hkept : event.kept = event'.kept → event.kind = event'.kind := by
    cases event <;> cases event' <;> simp [Event.kept, Event.kind]
  constructor
  · intro h
    obtain ⟨hkind, hfields⟩ := fields_of_serialize h
    exact (fields_eq_iff hkind).mp hfields
  · intro h
    rw [serialize, serialize, (fields_eq_iff (hkept h.2)).mpr h]

/-! ### Records are texts on one line -/

theorem written_nat (value : Nat) : (nat value).Written := by simp [nat, Json.Written, Control.Number.Written]

theorem written_strings (values : List String) : (strings values).Written := by
  rw [strings, Json.Written, Json.writtenElements_iff]
  intro element helement
  obtain ⟨value, -, rfl⟩ := List.mem_map.mp helement
  simp [Json.Written]

theorem written_orNull {f : α → Json} (hf : ∀ a, (f a).Written) (x : Option α) : (orNull (x.map f)).Written := by
  cases x with
  | none => simp [orNull, Json.Written]
  | some a => exact hf a

theorem written_serialize (tsMs : Nat) (event : Event) : (serialize tsMs event).Written := by
  have hnat := written_orNull written_nat
  have hstring := written_orNull (f := Json.string) fun _ => by simp [Json.Written]
  refine Json.written_ordered fun field hfield => ?_
  rcases List.mem_append.mp hfield with hhead | hdetail
  · simp only [List.mem_cons, List.not_mem_nil, or_false] at hhead
    rcases hhead with rfl | rfl | rfl | rfl
    · exact written_nat _
    · simp [Json.Written]
    · exact hnat _
    · exact written_nat _
  · cases event <;> simp only [Event.details, List.mem_cons, List.not_mem_nil, or_false] at hdetail <;>
      rcases hdetail with rfl | rfl | rfl | rfl | rfl | rfl | rfl | rfl <;>
      first
        | exact written_nat _ | exact hnat _ | exact hstring _ | exact written_strings _
        | simp [Json.Written]

end EventStream

/-! ### The stream -/

/-- How the write of a line ends: with all of it in the file, or with a part of it and an error. -/
inductive Delivery where
  | whole
  | cut (written : Nat) (error : String)
  deriving DecidableEq

/-- A call of `emit`. -/
structure EventStream.Call where
  event : Event
  tsMs : Nat
  delivery : Delivery
  deriving DecidableEq

def EventStream.Call.record (call : EventStream.Call) : Json := EventStream.serialize call.tsMs call.event

/-- The bytes of the file, whether the writer is still there, and what was warned about it. -/
structure EventStream where
  content : List UInt8
  active : Bool := true
  warnings : List String := []
  deriving DecidableEq

namespace EventStream

/-- `open`: the file is appended to. -/
def opened (content : List UInt8) : EventStream := { content }

def emit (stream : EventStream) (call : Call) : EventStream :=
  if stream.active then
    match call.delivery with
    | .whole => { stream with content := stream.content ++ line call.record }
    | .cut written error =>
      { content := stream.content ++ (line call.record).take written
        active := false
        warnings := stream.warnings ++ ["run event stream disabled: " ++ error] }
  else stream

/-- Nothing is written any more when the writer is gone. -/
theorem foldl_emit_closed (calls : List Call) {stream : EventStream} (h : stream.active = false) :
    calls.foldl emit stream = stream := by
  induction calls with
  | nil => rfl
  | cons call rest ih =>
    rw [List.foldl_cons, show stream.emit call = stream by simp [emit, h]]
    exact ih

/-- A run writes the lines of its calls, all of them or up to somewhere in the line of the first call whose
    write fails. -/
theorem foldl_emit (calls : List Call) : ∀ stream : EventStream, stream.active = true →
    ((∀ call ∈ calls, call.delivery = .whole) ∧ calls.foldl emit stream
        = { stream with content := stream.content ++ calls.flatMap fun call => line call.record })
    ∨ ((∃ call ∈ calls, call.delivery ≠ .whole) ∧ ∃ part error,
        part <+: (calls.flatMap fun call => line call.record)
        ∧ calls.foldl emit stream
          = ⟨stream.content ++ part, false, stream.warnings ++ ["run event stream disabled: " ++ error]⟩) := by
  induction calls with
  | nil =>
    intro stream _
    exact .inl ⟨by simp, by simp⟩
  | cons call rest ih =>
    intro stream hactive
    rw [List.foldl_cons, List.flatMap_cons]
    cases hdelivery : call.delivery with
    | whole =>
      have hemit : stream.emit call = { stream with content := stream.content ++ line call.record } := by
        simp [emit, hactive, hdelivery]
      rw [hemit]
      rcases ih { stream with content := stream.content ++ line call.record } hactive with
        ⟨hall, hfold⟩ | ⟨⟨other, hmem, hcut⟩, part, error, hpart, hfold⟩
      · refine .inl ⟨List.forall_mem_cons.mpr ⟨hdelivery, hall⟩, ?_⟩
        rw [hfold, List.append_assoc]
      · refine .inr ⟨⟨other, List.mem_cons_of_mem _ hmem, hcut⟩, line call.record ++ part, error, ?_, ?_⟩
        · exact (List.prefix_append_right_inj _).mpr hpart
        · rw [hfold, List.append_assoc]
    | cut written error =>
      have hemit : stream.emit call = ⟨stream.content ++ (line call.record).take written, false,
          stream.warnings ++ ["run event stream disabled: " ++ error]⟩ := by
        simp [emit, hactive, hdelivery]
      rw [hemit, foldl_emit_closed rest rfl]
      refine .inr ⟨⟨call, List.mem_cons_self, by simp [hdelivery]⟩, _, error, ?_, rfl⟩
      exact (List.take_prefix ..).trans (List.prefix_append ..)

/-- Whatever of the file a reader has seen, behind complete lines it is complete records of the calls in
    their order, and a part of the next record's text. All of them are written unless a write fails; then
    there is one warning, and nothing more is written. -/
theorem reads_records (old : List UInt8) (hold : Lines.pending newline old = []) (calls : List Call) :
    ((calls.foldl emit (opened old)).active = true ↔ ∀ call ∈ calls, call.delivery = .whole)
    ∧ ((calls.foldl emit (opened old)).active = true →
        (calls.foldl emit (opened old)).content = old ++ calls.flatMap fun call => line call.record)
    ∧ (calls.foldl emit (opened old)).warnings.length
        = (if (calls.foldl emit (opened old)).active then 0 else 1)
    ∧ ∀ seen, old <+: seen → seen <+: (calls.foldl emit (opened old)).content →
        ∃ j ≤ calls.length, ∃ part,
          Lines.split newline seen
            = (Lines.lines newline old ++ (calls.take j).map fun call => line call.record, part)
          ∧ (part = [] ∨ ∃ call, calls[j]? = some call ∧ part <+: call.record.text) := by
  have hreads : ∀ seen written, written <+: (calls.flatMap fun call => line call.record) → old <+: seen →
      seen <+: old ++ written → ∃ j ≤ calls.length, ∃ part,
        Lines.split newline seen
          = (Lines.lines newline old ++ (calls.take j).map fun call => line call.record, part)
        ∧ (part = [] ∨ ∃ call, calls[j]? = some call ∧ part <+: call.record.text) := by
    rintro seen written hwritten ⟨new, rfl⟩ hseen
    obtain ⟨j, hj, part, rfl, hpart⟩ := Lines.prefix_flatMap (fun call : Call => line call.record)
      (((List.prefix_append_right_inj old).mp hseen).trans hwritten)
    -- a part of a line that is not all of it is a part of the text
    have htext : part = [] ∨ ∃ call, calls[j]? = some call ∧ part <+: call.record.text := by
      rcases hpart with rfl | ⟨call, hcall, hpart, hne⟩
      · exact .inl rfl
      · rw [line] at hpart hne
        exact .inr ⟨call, hcall, (List.prefix_concat_iff.mp hpart).resolve_left hne⟩
    have hopen : newline ∉ part := by
      rcases htext with rfl | ⟨call, -, hpart⟩
      · exact List.not_mem_nil
      · exact fun hmem => Json.newline_not_mem_text (written_serialize _ _) (hpart.subset hmem)
    refine ⟨j, hj, part, ?_, htext⟩
    have hmap : ((calls.take j).flatMap fun call => line call.record)
        = ((calls.take j).map Call.record).flatMap line := by rw [List.flatMap_map]
    rw [hmap, Json.split_flatMap_line _ _ hopen old hold, List.map_map]
    · rfl
    · intro value hvalue
      obtain ⟨call, -, rfl⟩ := List.mem_map.mp hvalue
      exact written_serialize _ _
  rcases foldl_emit calls (opened old) rfl with
    ⟨hall, hfold⟩ | ⟨⟨call, hmem, hcut⟩, part, error, hpart, hfold⟩
  · rw [hfold]
    exact ⟨iff_of_true rfl hall, fun _ => rfl, rfl, fun seen => hreads seen _ (List.prefix_refl _)⟩
  · rw [hfold]
    refine ⟨iff_of_false Bool.false_ne_true fun hall => hcut (hall call hmem), fun hactive => ?_, rfl,
      fun seen => hreads seen part hpart⟩
    cases hactive

/-- A file with an unfinished line, a record that is written and one of which nine bytes are. -/
theorem reads_records_cut :
    ∃ j ≤ 2, ∃ part, Lines.split newline ("ready\n".toByteArray.data.toList ++ line (serialize 5 (.cancelled 3 none)))
        = (Lines.lines newline "ready\n".toByteArray.data.toList
            ++ (([⟨.cancelled 3 none, 5, .whole⟩, ⟨.tick "build" none, 6, .cut 9 "Broken pipe"⟩] : List Call).take j).map
              (fun call => line call.record), part)
      ∧ (part = [] ∨ ∃ call, ([⟨.cancelled 3 none, 5, .whole⟩, ⟨.tick "build" none, 6, .cut 9 "Broken pipe"⟩]
            : List Call)[j]? = some call ∧ part <+: call.record.text) := by
  refine (reads_records "ready\n".toByteArray.data.toList (by decide)
    [⟨.cancelled 3 none, 5, .whole⟩, ⟨.tick "build" none, 6, .cut 9 "Broken pipe"⟩]).2.2.2 _ (List.prefix_append ..) ?_
  refine ⟨(line (serialize 6 (.tick "build" none))).take 9, ?_⟩
  rw [List.append_assoc]
  rfl

/-- Runs that write everything leave the same file exactly if their calls had the same times and events,
    but for what no record keeps. -/
theorem content_eq_iff (old : List UInt8) {calls others : List Call} (hcalls : ∀ call ∈ calls, call.delivery = .whole)
    (hothers : ∀ call ∈ others, call.delivery = .whole) :
    (calls.foldl emit (opened old)).content = (others.foldl emit (opened old)).content
      ↔ (calls.map fun call => (call.tsMs, call.event.kept)) = others.map fun call => (call.tsMs, call.event.kept) := by
  have hcontent : ∀ calls : List Call, (∀ call ∈ calls, call.delivery = .whole) →
      (calls.foldl emit (opened old)).content = old ++ (calls.map Call.record).flatMap line := by
    intro calls hcalls
    rcases foldl_emit calls (opened old) rfl with ⟨-, hfold⟩ | ⟨⟨call, hmem, hcut⟩, -⟩
    · rw [hfold, List.flatMap_map]
      rfl
    · exact absurd (hcalls call hmem) hcut
  have hwritten : ∀ calls : List Call, ∀ value ∈ calls.map Call.record, value.Written := by
    intro calls value hvalue
    obtain ⟨call, -, rfl⟩ := List.mem_map.mp hvalue
    exact written_serialize _ _
  rw [hcontent calls hcalls, hcontent others hothers, List.append_cancel_left_eq]
  have hrecords : (calls.map Call.record).flatMap line = (others.map Call.record).flatMap line
      ↔ calls.map Call.record = others.map Call.record :=
    ⟨Json.line_delimits.flatMap_injective (fun value => by simp [line]) _ _ (hwritten calls) (hwritten others),
      fun h => by rw [h]⟩
  rw [hrecords, ← List.forall₂_eq_eq_eq, List.forall₂_map_left_iff, List.forall₂_map_right_iff,
    ← List.forall₂_eq_eq_eq, List.forall₂_map_left_iff, List.forall₂_map_right_iff]
  simp only [Call.record, serialize_eq_iff, Prod.mk.injEq]

/-- The hash of a revision is in no record. -/
theorem content_eq_unkept :
    ([⟨.started { runId := 1, revisionHash := some "a" } ["make"], 5, .whole⟩].foldl emit (opened [])).content
      = ([⟨.started { runId := 1, revisionHash := some "b" } ["make"], 5, .whole⟩].foldl emit (opened [])).content :=
  (content_eq_iff [] (by simp) (by simp)).mpr rfl

end EventStream
end Funzzy
