import Funzzy.Output.Registry
import Funzzy.Prepare
import Funzzy.Lib.Utf8
import Mathlib.Data.Prod.Lex
import Mathlib.Data.String.Basic
import Mathlib.Data.List.Sort

/-! Paged retrieval of retained output (`retrieve_page` of `output.rs`).

    Texts are their UTF-8 bytes: `from_utf8_lossy` is `Utf8.lossy` and a character boundary is a byte that
    continues nothing. A page is measured by the length of the document `serde_json` writes for it. An
    index out of range, which the source would panic on, has no result. -/

namespace Funzzy

/-! ### Pages -/

/-- `StreamOutput` -/
structure StreamOutput where
  content : List UInt8
  lines : Nat
  retainedBytes : Nat
  observedBytes : Nat
  truncated : Bool
  deriving DecidableEq

/-- `RetrievedTask` -/
structure RetrievedTask where
  id : String
  stdout : Option StreamOutput
  stderr : Option StreamOutput
  deriving DecidableEq

/-- `RetrievedOutput` -/
structure RetrievedOutput where
  generation : Nat
  revision : Option Nat
  revisionHash : Option String
  resolvedTask : Option String
  tasks : List RetrievedTask
  nextCursor : Option String
  returnedBytes : Option Nat
  truncated : Option Bool
  deriving DecidableEq

/-- `RetrievalError` -/
inductive RetrievalError where
  | generationNotFound (retained : List Nat)
  | taskNotFound (task : String) (candidates : List String) (ambiguous : Bool)
  | invalidCursor (reason : String)
  deriving DecidableEq

/-- The pieces of `split_inclusive('\n')`. -/
def lineCount (content : List UInt8) : Nat :=
  content.count 0x0A + if content.getLast?.any (· != 0x0A) then 1 else 0

/-- `stream_output` -/
def streamOutput (content : List UInt8) (buffer : CaptureBuffer) : StreamOutput where
  content
  lines := lineCount content
  retainedBytes := buffer.retainedBytes
  observedBytes := buffer.observed
  truncated := buffer.truncated

/-- One stream of a task is set. -/
def RetrievedTask.set (task : RetrievedTask) (isStderr : Bool) (output : StreamOutput) : RetrievedTask :=
  if isStderr then { task with stderr := some output } else { task with stdout := some output }

/-- `set_stream`: on the first task of that id, or on a new last one. -/
def setStream (id : String) (isStderr : Bool) (output : StreamOutput) :
    List RetrievedTask → List RetrievedTask
  | [] => [RetrievedTask.set ⟨id, none, none⟩ isStderr output]
  | task :: rest =>
    if task.id = id then task.set isStderr output :: rest else task :: setStream id isStderr output rest

/-! ### The length of a document -/

/-- A string with its quotes, escaped as `serde_json` escapes. -/
def jsonString (text : List UInt8) : Nat :=
  2 + (text.map fun b =>
    if b = 0x22 ∨ b = 0x5C ∨ b = 0x08 ∨ b = 0x09 ∨ b = 0x0A ∨ b = 0x0C ∨ b = 0x0D then 2
    else if b < 0x20 then 6 else 1).sum

def jsonText (text : String) : Nat := jsonString text.toByteArray.data.toList

def jsonNat (n : Nat) : Nat := (Nat.toDigits 10 n).length

def jsonBool (b : Bool) : Nat := if b then 4 else 5

/-- The length of an object with fields of these names and value lengths. -/
def jsonObject (fields : List (String × Nat)) : Nat :=
  2 + (fields.map fun field => field.1.length + 3 + field.2).sum + (fields.length - 1)

def jsonArray (elements : List Nat) : Nat := 2 + elements.sum + (elements.length - 1)

def StreamOutput.jsonLength (s : StreamOutput) : Nat :=
  jsonObject [("content", jsonString s.content), ("lines", jsonNat s.lines),
    ("retainedBytes", jsonNat s.retainedBytes), ("observedBytes", jsonNat s.observedBytes),
    ("truncated", jsonBool s.truncated)]

/-- A stream that is not there is `null`. -/
def RetrievedTask.jsonLength (t : RetrievedTask) : Nat :=
  jsonObject [("id", jsonText t.id), ("stdout", (t.stdout.map StreamOutput.jsonLength).getD 4),
    ("stderr", (t.stderr.map StreamOutput.jsonLength).getD 4)]

/-- The other fields that are not there are left out. -/
def RetrievedOutput.jsonLength (page : RetrievedOutput) : Nat :=
  jsonObject ([("generation", jsonNat page.generation)]
    ++ (page.revision.map fun n => ("revision", jsonNat n)).toList
    ++ (page.revisionHash.map fun text => ("revisionHash", jsonText text)).toList
    ++ (page.resolvedTask.map fun text => ("resolvedTask", jsonText text)).toList
    ++ [("tasks", jsonArray (page.tasks.map RetrievedTask.jsonLength))]
    ++ (page.nextCursor.map fun text => ("nextCursor", jsonText text)).toList
    ++ (page.returnedBytes.map fun n => ("returnedBytes", jsonNat n)).toList
    ++ (page.truncated.map fun b => ("truncated", jsonBool b)).toList)

/-! ### The plan of a retrieval -/

/-- One stream of one task, as the plan visits it. -/
structure Position where
  task : String
  isStderr : Bool
  buffer : CaptureBuffer
  deriving DecidableEq

/-- The tasks of a page with one more piece of a stream. -/
def Position.put (position : Position) (content : List UInt8) (tasks : List RetrievedTask) :
    List RetrievedTask :=
  setStream position.task position.isStderr (streamOutput content position.buffer) tasks

namespace OutputRegistry

/-- The task a query names: an exact id, or the only one it is a beginning of. With the resolved id when
    it was not exact, and the ids that remain. -/
def resolveTask (taskIds : List String) (task : Option String) :
    Except RetrievalError (Option String × List String) :=
  match (task.map fun task => String.ofList (trim task.toList)).filter (· != "") with
  | none => .ok (none, taskIds)
  | some wanted =>
    if taskIds.any (· == wanted) then .ok (none, taskIds.filter (· == wanted))
    else
      match taskIds.filter fun id => wanted.toList.isPrefixOf id.toList with
      | [single] => .ok (some single, taskIds.filter (· == single))
      | [] => .error (.taskNotFound wanted taskIds false)
      | canonical => .error (.taskNotFound wanted canonical true)

/-- Whether a stream filter lets a stream through. -/
def admitsStream (stream : Option String) (isStderr : Bool) : Bool :=
  match stream with
  | none => true
  | some wanted => isStderr == (wanted == "stderr")

/-- The page plan: by task id in string order, stdout before stderr. -/
def pagePlan (entry : GenerationOutput) (taskIds : List String) (stream : Option String) :
    List Position :=
  (taskIds.insertionSort (· ≤ ·)).flatMap fun id =>
    ([false, true].filter (admitsStream stream)).filterMap fun isStderr =>
      (entry.tasks.find? fun output => output.task == id).map fun output =>
        ⟨id, isStderr, if isStderr then output.stderr else output.stdout⟩

/-! ### Cursors -/

def streamIndex (isStderr : Bool) : Nat := if isStderr then 1 else 0

/-- `<generation>|<plan index>|<stream>|<byte offset>` -/
def renderCursor (generation planIdx : Nat) (isStderr : Bool) (offset : Nat) : String :=
  String.ofList (['|'].intercalate
    [Nat.toDigits 10 generation, Nat.toDigits 10 planIdx, Nat.toDigits 10 (streamIndex isStderr),
      Nat.toDigits 10 offset])

/-- `parse` of an unsigned number of a type with so many values. -/
def parseUnsigned (values : Nat) (text : List Char) : Option Nat :=
  let digits := match text with
    | '+' :: rest => rest
    | _ => text
  if digits.isEmpty || !digits.all Char.isDigit then none
  else (some (Nat.ofDigitChars 10 digits 0)).filter (· < values)

/-- The values of `u64` and `usize`. Nothing bounds the model's numbers, so a known one that is larger
    counts as one of them. -/
def wordValues (known : Nat) : Nat := max (2 ^ 64) (known + 1)

def planBytes (plan : List Position) : Nat := (plan.map fun position => position.buffer.retainedBytes).sum

/-- The place in the plan a cursor stands for. In the texts `{raw:?}` is `String.quote`, which escapes
    unprintable characters in its own way. -/
def startOf (generation : Nat) (plan : List Position) (cursor : Option String) :
    Except RetrievalError (Nat × Nat) :=
  match cursor with
  | none => .ok (0, 0)
  | some raw =>
    match raw.toList.splitOn '|' with
    | [first, second, third, fourth] =>
      match parseUnsigned (wordValues generation) first, parseUnsigned (wordValues plan.length) second,
        parseUnsigned (wordValues 0) third, parseUnsigned (wordValues (planBytes plan)) fourth with
      | some gen, some planIdx, some streamIdx, some offset =>
        if gen ≠ generation then .error (.invalidCursor
          s!"cursor generation {gen} does not match requested generation {generation}")
        else
          match plan[planIdx]? with
          | none => .error (.invalidCursor
              s!"cursor plan index {planIdx} out of range ({plan.length} positions)")
          | some position =>
            if streamIdx ≠ streamIndex position.isStderr then .error (.invalidCursor
              s!"cursor stream index {streamIdx} does not match position {planIdx}")
            else if position.buffer.retainedBytes < offset then .error (.invalidCursor
              s!"cursor byte offset {offset} beyond retained {position.buffer.retainedBytes} bytes")
            else .ok (planIdx, offset)
      | _, _, _, _ => .error (.invalidCursor s!"cursor is not numeric: {raw.quote}")
    | _ => .error (.invalidCursor
        s!"cursor must be '<gen>|<plan>|<stream>|<offset>', got {raw.quote}")

/-! ### The walk -/

/-- The character boundaries of a text, its end included. -/
def boundariesFrom (offset : Nat) : List UInt8 → List Nat
  | [] => [offset]
  | b :: rest =>
    if Utf8.isContinuation b then boundariesFrom (offset + 1) rest
    else offset :: boundariesFrom (offset + 1) rest

def boundaries (text : List UInt8) : List Nat := boundariesFrom 0 text

/-- The search for the number of characters to keep, between `lo`, and `hi` at most. `fits` is the test of
    one candidate; the fuel bounds the rounds. -/
def search (fits : Nat → Option Bool) : Nat → Nat → Nat → Option Nat
  | 0, lo, _ => some lo
  | fuel + 1, lo, hi =>
    if lo < hi then
      let mid := (lo + hi + 1) / 2
      (fits mid).bind fun fit => if fit then search fits fuel mid hi else search fits fuel lo (mid - 1)
    else some lo

/-- What a retrieval is about. -/
structure PageRequest where
  entry : GenerationOutput
  resolvedTask : Option String
  maxBytes : Nat

/-- A page that is measured before it is known to be the one. -/
def PageRequest.draft (request : PageRequest) (tasks : List RetrievedTask) (returned : Nat) :
    RetrievedOutput where
  generation := request.entry.generation
  revision := request.entry.revision
  revisionHash := request.entry.revisionHash
  resolvedTask := request.resolvedTask
  tasks
  nextCursor := some "cursor"
  returnedBytes := some returned
  truncated := some true

/-- What the walk has gathered, and the cursor where it stopped. -/
structure Walked where
  tasks : List RetrievedTask
  returned : Nat
  nextCursor : Option String

/-- The number of bytes of `text` that still fit the page. -/
def PageRequest.keep (request : PageRequest) (position : Position) (text : List UInt8)
    (tasks : List RetrievedTask) (returned : Nat) : Option Nat :=
  let bounds := boundaries text
  let fits (mid : Nat) : Option Bool := (bounds[mid]?).map fun keep =>
    decide ((request.draft (position.put (text.take keep) tasks) (returned + keep)).jsonLength
      ≤ request.maxBytes)
  (search fits bounds.length 0 bounds.length).bind fun lo => bounds[lo]?

/-- The loop over the plan, from the place a cursor stands for. -/
def PageRequest.walk (request : PageRequest) (start : Nat × Nat) :
    List (Position × Nat) → List RetrievedTask → Nat → Option Walked
  | [], tasks, returned => some ⟨tasks, returned, none⟩
  | (position, planIdx) :: rest, tasks, returned =>
    if planIdx < start.1 then request.walk start rest tasks returned
    else
      let offset := if planIdx = start.1 then start.2 else 0
      let bytes := position.buffer.bytes
      if bytes.length ≤ offset then request.walk start rest tasks returned
      else
        let text := Utf8.lossy (bytes.drop offset)
        let whole := position.put text tasks
        if (request.draft whole (returned + text.length)).jsonLength ≤ request.maxBytes
            ∨ text.isEmpty then
          request.walk start rest whole (returned + text.length)
        else
          (request.keep position text tasks returned).map fun keep =>
            { tasks := if 0 < keep then position.put (text.take keep) tasks else tasks
              returned := returned + keep
              nextCursor :=
                if 0 < keep ∨ offset + keep < bytes.length then
                  some (renderCursor request.entry.generation planIdx position.isStderr (offset + keep))
                else none }

/-- The page of a finished walk. -/
def PageRequest.page (request : PageRequest) (walked : Walked) : RetrievedOutput where
  generation := request.entry.generation
  revision := request.entry.revision
  revisionHash := request.entry.revisionHash
  resolvedTask := request.resolvedTask
  tasks := walked.tasks
  nextCursor := walked.nextCursor
  returnedBytes := some walked.returned
  truncated := some walked.nextCursor.isSome

/-- The entry, the resolved task and the plan of a query. -/
def query (registry : OutputRegistry) (generation : Nat) (task stream : Option String) :
    Except RetrievalError (GenerationOutput × Option String × List Position) :=
  match registry.generations.find? fun entry => entry.generation == generation with
  | none => .error (.generationNotFound (registry.generations.map GenerationOutput.generation))
  | some entry =>
    match resolveTask (entry.tasks.map TaskOutput.task) task with
    | .error error => .error error
    | .ok (resolved, taskIds) => .ok (entry, resolved, pagePlan entry taskIds stream)

/-- `retrieve_page` -/
def retrievePage (registry : OutputRegistry) (generation : Nat) (task stream : Option String)
    (maxBytes : Nat) (cursor : Option String) : Option (Except RetrievalError RetrievedOutput) :=
  match registry.query generation task stream with
  | .error error => some (.error error)
  | .ok (entry, resolved, plan) =>
    match startOf generation plan cursor with
    | .error error => some (.error error)
    | .ok start =>
      let request : PageRequest := ⟨entry, resolved, maxBytes⟩
      (request.walk start plan.zipIdx [] 0).map fun walked => .ok (request.page walked)

/-- The pages a client gets that follows the cursors, as long as every call answers with a page. -/
def follow (registry : OutputRegistry) (generation : Nat) (task stream : Option String)
    (maxBytes : Nat) : Nat → Option String → Option (List RetrievedOutput)
  | 0, _ => none
  | fuel + 1, cursor =>
    match registry.retrievePage generation task stream maxBytes cursor with
    | some (.ok page) =>
      match page.nextCursor with
      | none => some [page]
      | some next => (follow registry generation task stream maxBytes fuel (some next)).map (page :: ·)
    | _ => none

end OutputRegistry

/-! ### What the pages should carry -/

/-- A stream in the order of the plan. -/
def Position.key (position : Position) : String ×ₗ Bool := toLex (position.task, position.isStderr)

/-- A text, byte by byte, with the stream it is from. -/
def tag (key : String ×ₗ Bool) (text : List UInt8) : List ((String ×ₗ Bool) × UInt8) :=
  text.map fun b => (key, b)

/-- What a task of a page carries: its stdout before its stderr. -/
def RetrievedTask.carried (task : RetrievedTask) : List ((String ×ₗ Bool) × UInt8) :=
  (task.stdout.map fun s => tag (toLex (task.id, false)) s.content).getD []
    ++ (task.stderr.map fun s => tag (toLex (task.id, true)) s.content).getD []

def RetrievedOutput.carried (page : RetrievedOutput) : List ((String ×ₗ Bool) × UInt8) :=
  page.tasks.flatMap RetrievedTask.carried

/-- The full rendering of a stream. -/
def Position.rendering (position : Position) : List ((String ×ₗ Bool) × UInt8) :=
  tag position.key (Utf8.lossy position.buffer.bytes)

/-- The rendering of what stands before a place in the plan. -/
def before (plan : List Position) (place : Nat × Nat) : List ((String ×ₗ Bool) × UInt8) :=
  plan.zipIdx.flatMap fun (position, planIdx) =>
    if planIdx < place.1 then position.rendering
    else if planIdx = place.1 then tag position.key (Utf8.lossy (position.buffer.bytes.take place.2))
    else []

/-- The pages a client has got, and the cursor it asks with next. -/
inductive Followed (registry : OutputRegistry) (generation : Nat) (task stream : Option String)
    (maxBytes : Nat) : List RetrievedOutput → Option String → Prop
  | first : Followed registry generation task stream maxBytes [] none
  | next {pages cursor page raw} : Followed registry generation task stream maxBytes pages cursor →
      registry.retrievePage generation task stream maxBytes cursor = some (.ok page) →
      page.nextCursor = some raw →
      Followed registry generation task stream maxBytes (pages ++ [page]) (some raw)

/-- Every page the client has to go on from carries something. -/
def Roomy (registry : OutputRegistry) (generation : Nat) (task stream : Option String)
    (maxBytes : Nat) : Prop :=
  ∀ pages cursor page, Followed registry generation task stream maxBytes pages cursor →
    registry.retrievePage generation task stream maxBytes cursor = some (.ok page) →
    page.nextCursor ≠ none → page.returnedBytes ≠ some 0

/-- Following the cursors is a round trip: it comes to an end with all the streams rendered, every cursor
    on the way is accepted and goes on just behind what the pages have carried, and the streams come in
    the order of their keys. -/
structure RoundTrip (registry : OutputRegistry) (generation : Nat) (task stream : Option String)
    (maxBytes : Nat) (plan : List Position) : Prop where
  complete : ∃ fuel pages, registry.follow generation task stream maxBytes fuel none = some pages
    ∧ pages.flatMap RetrievedOutput.carried = plan.flatMap Position.rendering
  accepted : ∀ pages cursor, Followed registry generation task stream maxBytes pages cursor →
    ∃ page, registry.retrievePage generation task stream maxBytes cursor = some (.ok page)
  contiguous : ∀ pages planIdx position offset, plan[planIdx]? = some position →
    Followed registry generation task stream maxBytes pages
      (some (OutputRegistry.renderCursor generation planIdx position.isStderr offset)) →
    pages.flatMap RetrievedOutput.carried = before plan (planIdx, offset)
  ordered : (plan.map Position.key).Pairwise (· < ·)

/-- Every ill-formed sequence is as long as its replacement. -/
def Aligned (bytes : List UInt8) : Prop :=
  ∀ chunk ∈ Utf8.chunks bytes, chunk.valid = true ∨ chunk.raw.length = 3

instance (bytes : List UInt8) : Decidable (Aligned bytes) :=
  inferInstanceAs (Decidable (∀ chunk ∈ Utf8.chunks bytes, chunk.valid = true ∨ chunk.raw.length = 3))

end Funzzy
