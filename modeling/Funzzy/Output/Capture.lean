import Mathlib.Data.List.DropRight
import Funzzy.Lib.Edits
import Funzzy.Lib.Utf8
import Funzzy.Output.Registry

/-! What is captured of a task's output (`CaptureHandle` and `spawn_forwarding_thread` of `cmd.rs`).

    A thread for each pipe of the child reads it line by line, prints the line unless the run is quiet, and
    appends its raw bytes to the buffer of its stream. A buffer is determined by the stream it has been
    given: it holds the stream's last bytes, however the stream was cut into chunks and whatever the other
    thread did in between. -/

namespace Funzzy

/-! ### A buffer and its stream -/

/-- The end of a stream is found from the end of its first part. -/
theorem rtake_rtake_append {α : Type} (n : Nat) (front behind : List α) :
    (front.rtake n ++ behind).rtake n = (front ++ behind).rtake n := by
  have hcut : front.length - n ≤ (front ++ behind).length - n := by
    rw [List.length_append]
    omega
  have hjoin : front.rtake n ++ behind = (front ++ behind).drop (front.length - n) := by
    rw [List.rtake, List.drop_append_of_le_length (Nat.sub_le ..)]
  rw [hjoin, List.rtake, List.rtake, List.drop_drop, List.length_drop]
  congr 1
  omega

namespace CaptureBuffer

/-- The buffer of a stream: its last bytes, as many as the bound allows. -/
def ofStream (bound : Nat) (stream : List UInt8) : CaptureBuffer where
  bound
  bytes := stream.rtake bound
  observed := stream.length
  truncated := decide (bound < stream.length)

theorem ofStream_nil (bound : Nat) : ofStream bound [] = new bound := by
  simp [ofStream, new]

/-- What a chunk does to each field. -/
theorem append_eq (buffer : CaptureBuffer) (chunk : List UInt8) :
    buffer.append chunk =
      { bound := buffer.bound
        bytes := (buffer.bytes ++ chunk).rtake buffer.bound
        observed := buffer.observed + chunk.length
        truncated := buffer.truncated || decide (buffer.bound < (buffer.bytes ++ chunk).length) } := by
  have hbytes := append_bytes buffer chunk
  unfold append at hbytes ⊢
  dsimp only at hbytes ⊢
  split
  · next hexcess =>
    have hlong : buffer.bound < (buffer.bytes ++ chunk).length := by omega
    rw [decide_eq_true hlong, Bool.or_true, List.rtake]
  · next hexcess =>
    have hshort : ¬ buffer.bound < (buffer.bytes ++ chunk).length := by omega
    rw [if_neg hexcess] at hbytes
    rw [decide_eq_false hshort, Bool.or_false, List.rtake, ← hbytes]

theorem length_rtake_stream (bound : Nat) (stream : List UInt8) :
    (stream.rtake bound).length = min bound stream.length := by
  rw [List.rtake, List.length_drop]
  omega

/-- A chunk appended to the buffer of a stream gives the buffer of the longer stream. -/
theorem append_ofStream (bound : Nat) (stream chunk : List UInt8) :
    (ofStream bound stream).append chunk = ofStream bound (stream ++ chunk) := by
  -- what is too long stays too long, and before that the buffer is the whole stream
  have hlong : (bound < stream.length ∨ bound < (stream.rtake bound ++ chunk).length)
      ↔ bound < (stream ++ chunk).length := by
    rw [List.length_append, List.length_append, length_rtake_stream]
    omega
  have hmarked : (decide (bound < stream.length) || decide (bound < (stream.rtake bound ++ chunk).length))
      = decide (bound < (stream ++ chunk).length) := by
    rw [← Bool.decide_or, decide_eq_decide.mpr hlong]
  rw [append_eq]
  exact (CaptureBuffer.mk.injEq ..).mpr
    ⟨rfl, rtake_rtake_append bound stream chunk, List.length_append.symm, hmarked⟩

theorem foldl_append_ofStream (bound : Nat) (chunks : List (List UInt8)) : ∀ stream,
    chunks.foldl append (ofStream bound stream) = ofStream bound (stream ++ chunks.flatten) := by
  induction chunks with
  | nil => exact fun stream => by rw [List.foldl_nil, List.flatten_nil, List.append_nil]
  | cons chunk chunks ih =>
    intro stream
    rw [List.foldl_cons, append_ofStream, ih, List.flatten_cons, List.append_assoc]

/-- However a stream is cut into chunks, its buffer is the buffer of the stream. -/
theorem foldl_append_new (bound : Nat) (chunks : List (List UInt8)) :
    chunks.foldl append (new bound) = ofStream bound chunks.flatten := by
  rw [← ofStream_nil, foldl_append_ofStream, List.nil_append]

/-- The buffer holds the last bytes of a stream, as many as the bound allows, has counted all of it, and is
    marked as truncated exactly if there was more. -/
structure HoldsLast (bound : Nat) (stream : List UInt8) (buffer : CaptureBuffer) : Prop where
  bytes : buffer.bytes = stream.drop (stream.length - min bound stream.length)
  length : buffer.bytes.length = min bound stream.length
  observed : buffer.observed = stream.length
  truncated_iff : buffer.truncated = true ↔ bound < stream.length

theorem ofStream_holdsLast (bound : Nat) (stream : List UInt8) :
    HoldsLast bound stream (ofStream bound stream) where
  bytes := by
    have hcut : stream.length - min bound stream.length = stream.length - bound := by omega
    rw [hcut]
    rfl
  length := length_rtake_stream bound stream
  observed := rfl
  truncated_iff := decide_eq_true_iff

/-- For every bound and all chunks: the buffer holds the last bytes of what was appended, it has counted
    all of it, and it is marked as truncated exactly if there was more than the bound allows. -/
theorem last_of_chunks (bound : Nat) (chunks : List (List UInt8)) :
    let buffer := chunks.foldl append (new bound)
    let stream := chunks.flatten
    buffer.bytes = stream.drop (stream.length - min bound stream.length)
      ∧ buffer.bytes.length = min bound stream.length
      ∧ buffer.observed = stream.length
      ∧ (buffer.truncated = true ↔ bound < stream.length) := by
  intro buffer stream
  have hbuffer : buffer = ofStream bound stream := foldl_append_new bound chunks
  have hlast : HoldsLast bound stream buffer := hbuffer ▸ ofStream_holdsLast bound stream
  exact ⟨hlast.bytes, hlast.length, hlast.observed, hlast.truncated_iff⟩

end CaptureBuffer

/-! ### The threads of a child -/

namespace Capture

open Lines

def newline : UInt8 := 0x0A

/-- What a pipe of the child delivers, and whether the read behind it fails. -/
structure Pipe where
  input : List UInt8
  fails : Bool
  deriving DecidableEq

/-- `read_until`: the bytes up to a newline and with it, or up to the end of the pipe. An error that comes
    first takes the bytes in front of it along. -/
def readUntil (fails : Bool) : List UInt8 → Option (List UInt8 × List UInt8)
  | [] => if fails then none else some ([], [])
  | byte :: input =>
    if byte = newline then some ([byte], input)
    else (readUntil fails input).map fun (line, rest) => (byte :: line, rest)

theorem readUntil_closed (fails : Bool) {body : List UInt8} (h : newline ∉ body) (rest : List UInt8) :
    readUntil fails (body ++ newline :: rest) = some (body ++ [newline], rest) := by
  induction body with
  | nil => rw [List.nil_append, readUntil, if_pos rfl, List.nil_append]
  | cons byte body ih =>
    rw [List.mem_cons, not_or] at h
    rw [List.cons_append, readUntil, if_neg (Ne.symm h.1), ih h.2]
    rfl

theorem readUntil_open (fails : Bool) {body : List UInt8} (h : newline ∉ body) :
    readUntil fails body = if fails then none else some (body, []) := by
  induction body with
  | nil => rfl
  | cons byte body ih =>
    rw [List.mem_cons, not_or] at h
    rw [readUntil, if_neg (Ne.symm h.1), ih h.2]
    cases fails <;> rfl

theorem readUntil_append {fails : Bool} {input line rest : List UInt8}
    (h : readUntil fails input = some (line, rest)) : line ++ rest = input := by
  induction input generalizing line rest with
  | nil =>
    rw [readUntil] at h
    split at h
    · exact absurd h (by simp)
    · obtain ⟨rfl, rfl⟩ : [] = line ∧ [] = rest := by simpa using h
      rfl
  | cons byte input ih =>
    rw [readUntil] at h
    split at h
    · obtain ⟨rfl, rfl⟩ : [byte] = line ∧ input = rest := by simpa using h
      rfl
    · obtain ⟨⟨front, behind⟩, hread, heq⟩ := Option.map_eq_some_iff.mp h
      obtain ⟨rfl, rfl⟩ : byte :: front = line ∧ behind = rest := by simpa using heq
      rw [List.cons_append, ih hread]

/-- The lines that the loop of `spawn_forwarding_thread` handles: it ends with the pipe or with an error. -/
def forwarded (pipe : Pipe) : List (List UInt8) :=
  match _h : readUntil pipe.fails pipe.input with
  | some ([], _) | none => []
  | some (byte :: line, rest) => (byte :: line) :: forwarded ⟨rest, pipe.fails⟩
termination_by pipe.input.length
decreasing_by
  rw [← readUntil_append _h, List.length_append, List.length_cons]
  omega

theorem forwarded_cons {pipe : Pipe} {byte : UInt8} {line rest : List UInt8}
    (h : readUntil pipe.fails pipe.input = some (byte :: line, rest)) :
    forwarded pipe = (byte :: line) :: forwarded ⟨rest, pipe.fails⟩ := by
  rw [forwarded]
  split
  · next heq => exact absurd (h.symm.trans heq) (by simp)
  · next heq => exact absurd (h.symm.trans heq) (by simp)
  · next heq =>
    obtain ⟨⟨rfl, rfl⟩, rfl⟩ := by simpa using h.symm.trans heq
    rfl

theorem forwarded_end {pipe : Pipe}
    (h : ∀ byte line rest, readUntil pipe.fails pipe.input ≠ some (byte :: line, rest)) :
    forwarded pipe = [] := by
  rw [forwarded]
  split
  · rfl
  · rfl
  · next heq => exact absurd heq (h _ _ _)

/-- All lines of the pipe are handled, a last one without its end only if the pipe ends without an error. -/
theorem forwarded_eq (fails : Bool) (input : List UInt8) :
    forwarded ⟨input, fails⟩ = if fails then lines newline input else inclusive newline input := by
  induction input using line_induction newline with
  | hclose body rest h ih =>
    have hne : body ++ [newline] ≠ [] := by simp
    obtain ⟨byte, line, hline⟩ := List.exists_cons_of_ne_nil hne
    have hread := readUntil_closed fails h rest
    rw [hline] at hread
    rw [forwarded_cons hread, ih, (lines_cons newline h rest).1, inclusive_close newline h, hline]
    split <;> rfl
  | hopen body h =>
    have hread := readUntil_open fails h
    have hlines : lines newline body = [] := lines_open newline [] h
    cases fails with
    | true =>
      rw [if_pos rfl, hlines]
      exact forwarded_end fun byte line rest => by simp [hread]
    | false =>
      rw [if_neg Bool.false_ne_true]
      rw [if_neg Bool.false_ne_true] at hread
      cases body with
      | nil => exact forwarded_end fun byte line rest => by simp [hread]
      | cons byte line =>
        rw [forwarded_cons hread, inclusive_open newline h (List.cons_ne_nil _ _)]
        rw [forwarded_end (by simp [readUntil])]

/-- The bytes that the thread of a pipe gets to handle: without an error all of them. -/
def arrived (pipe : Pipe) : List UInt8 := (forwarded pipe).flatten

theorem arrived_eq (pipe : Pipe) :
    arrived pipe = if pipe.fails then (lines newline pipe.input).flatten else pipe.input := by
  rw [arrived, forwarded_eq]
  split
  · rfl
  · exact inclusive_flatten newline pipe.input

theorem areLines_forwarded (pipe : Pipe) : AreLines newline (forwarded pipe) := by
  have hclosed : ∀ ls : List (List UInt8), (∀ line ∈ ls, Closed newline line) → AreLines newline ls := by
    intro ls h
    induction ls with
    | nil => trivial
    | cons line ls ih =>
      rw [List.forall_mem_cons] at h
      exact areLines_cons newline h.1 (ih h.2)
  rw [forwarded_eq]
  split
  · exact hclosed _ (closed_of_mem_lines newline pipe.input)
  · exact areLines_inclusive newline pipe.input

/-- What a forwarding thread is started with besides its pipe. -/
structure Forwarding where
  captured : Bool
  label : Option (List UInt8)
  quiet : Bool
  deriving DecidableEq

/-- What a forwarding thread does to the outside. -/
inductive Effect where
  | print (text : List UInt8)
  | log (text : List UInt8)
  | append (chunk : List UInt8)
  deriving DecidableEq

def Effect.chunk? : Effect → Option (List UInt8)
  | .append chunk => some chunk
  | .print _ | .log _ => none

def Effect.text? : Effect → Option (List UInt8)
  | .print text => some text
  | .log _ | .append _ => none

/-- `render_live_line` -/
def renderLiveLine (raw : List UInt8) (label : Option (List UInt8)) : List UInt8 :=
  match label with
  | some label => [0x5B] ++ label ++ [0x5D, 0x20] ++ Utf8.lossy raw
  | none => Utf8.lossy raw

def lineEffects (forwarding : Forwarding) (line : List UInt8) : List Effect :=
  let attributed := renderLiveLine line forwarding.label
  (if forwarding.quiet then [] else [.print attributed, .log attributed])
    ++ (if forwarding.captured then [.append line] else [])

/-- Everything the thread of a pipe does, in its order. -/
def spawnForwardingThread (forwarding : Forwarding) (pipe : Pipe) : List Effect :=
  (forwarded pipe).flatMap (lineEffects forwarding)

theorem chunks_spawn {forwarding : Forwarding} (h : forwarding.captured = true) (pipe : Pipe) :
    (spawnForwardingThread forwarding pipe).filterMap Effect.chunk? = forwarded pipe := by
  have hline : ∀ line, (lineEffects forwarding line).filterMap Effect.chunk? = [line] := fun line => by
    rw [lineEffects, if_pos h, List.filterMap_append]
    cases forwarding.quiet <;> rfl
  rw [spawnForwardingThread, List.filterMap_flatMap, List.flatMap_congr fun line _ => hline line,
    List.flatMap_singleton']

/-- Lines that are rendered one by one give the text of all of them: no ill-formed sequence goes on behind
    a newline. -/
theorem flatMap_lossy {ls : List (List UInt8)} (h : AreLines newline ls) :
    ls.flatMap Utf8.lossy = Utf8.lossy ls.flatten := by
  induction ls with
  | nil => rfl
  | cons line ls ih =>
    cases ls with
    | nil => rw [List.flatMap_singleton, List.flatten_singleton]
    | cons next ls =>
      obtain ⟨⟨body, -, rfl⟩, hrest⟩ := h
      have hflat : ((body ++ [newline]) :: next :: ls).flatten = body ++ newline :: (next :: ls).flatten := by
        rw [List.flatten_cons, List.append_assoc, List.singleton_append]
      rw [List.flatMap_cons, ih hrest, hflat, Utf8.lossy_append_ascii rfl body (next :: ls).flatten]

/-- Without a label what is printed live is the lossy text of the pipe: that it is rendered line by line
    makes no difference. -/
theorem texts_spawn {forwarding : Forwarding} (hquiet : forwarding.quiet = false)
    (hlabel : forwarding.label = none) (pipe : Pipe) :
    ((spawnForwardingThread forwarding pipe).filterMap Effect.text?).flatten = Utf8.lossy (arrived pipe) := by
  have hline : ∀ line, (lineEffects forwarding line).filterMap Effect.text? = [Utf8.lossy line] := by
    intro line
    rw [lineEffects, hquiet, hlabel, List.filterMap_append]
    cases forwarding.captured <;> rfl
  rw [spawnForwardingThread, List.filterMap_flatMap, List.flatMap_congr fun line _ => hline line,
    ← List.map_eq_flatMap, ← List.flatMap_def, arrived, flatMap_lossy (areLines_forwarded pipe)]

end Capture

/-! ### The handle between the threads -/

def CaptureData.new (stdoutBound stderrBound : Nat) : CaptureData :=
  ⟨.new stdoutBound, .new stderrBound⟩

structure CaptureHandle where
  data : CaptureData
  deriving DecidableEq

namespace CaptureHandle

open Capture Lines

def new : CaptureHandle := ⟨.new captureStreamBytes captureStreamBytes⟩

def append (handle : CaptureHandle) (bytes : List UInt8) (isStderr : Bool) : CaptureHandle :=
  if isStderr then ⟨{ handle.data with stderr := handle.data.stderr.append bytes }⟩
  else ⟨{ handle.data with stdout := handle.data.stdout.append bytes }⟩

def finish (handle : CaptureHandle) : CaptureData := handle.data

/-- What one of the threads does, under the lock of the handle. -/
def step (handle : CaptureHandle) (act : Bool × Effect) : CaptureHandle :=
  match act.2.chunk? with
  | some chunk => handle.append chunk act.1
  | none => handle

/-- What the thread of one stream did in a run of both. -/
def ofThread (isStderr : Bool) (run : List (Bool × Effect)) : List Effect :=
  (run.filter fun act => act.1 == isStderr).map Prod.snd

def chunksOf (isStderr : Bool) (run : List (Bool × Effect)) : List (List UInt8) :=
  (ofThread isStderr run).filterMap Effect.chunk?

/-- A stream's buffer is touched by its own thread only. -/
theorem foldl_step (run : List (Bool × Effect)) : ∀ handle : CaptureHandle,
    (run.foldl step handle).data =
      { stdout := (chunksOf false run).foldl CaptureBuffer.append handle.data.stdout
        stderr := (chunksOf true run).foldl CaptureBuffer.append handle.data.stderr } := by
  induction run with
  | nil => exact fun _ => rfl
  | cons act run ih =>
    intro handle
    obtain ⟨isStderr, effect⟩ := act
    rw [List.foldl_cons, ih]
    cases isStderr <;> cases effect <;> rfl

/-- However the two threads take turns, the finished capture is made of what arrived on the two pipes. -/
theorem finish_of_run {forwarding : Forwarding} (h : forwarding.captured = true) (stdout stderr : Pipe)
    (run : List (Bool × Effect))
    (hstdout : ofThread false run = spawnForwardingThread forwarding stdout)
    (hstderr : ofThread true run = spawnForwardingThread forwarding stderr) :
    (run.foldl step new).finish =
      { stdout := .ofStream captureStreamBytes (arrived stdout)
        stderr := .ofStream captureStreamBytes (arrived stderr) } := by
  rw [finish, foldl_step, chunksOf, chunksOf, hstdout, hstderr, chunks_spawn h, chunks_spawn h]
  exact (CaptureData.mk.injEq ..).mpr
    ⟨CaptureBuffer.foldl_append_new .., CaptureBuffer.foldl_append_new ..⟩

/-- Of each stream the finished capture holds the last of what arrived on its pipe, whether or not the
    other pipe fails: the whole lines in front of a failed read, or everything. Unless the run is quiet,
    the same has been printed, as the text that a retrieval renders. -/
theorem captured_of_run {forwarding : Forwarding} (h : forwarding.captured = true) (pipe : Bool → Pipe)
    (run : List (Bool × Effect))
    (hrun : ∀ isStderr, ofThread isStderr run = spawnForwardingThread forwarding (pipe isStderr))
    (isStderr : Bool) :
    let capture := (run.foldl step new).finish
    let input := (pipe isStderr).input
    let stream := if (pipe isStderr).fails then (lines newline input).flatten else input
    CaptureBuffer.HoldsLast captureStreamBytes stream (if isStderr then capture.stderr else capture.stdout)
      ∧ (forwarding.quiet = false → forwarding.label = none →
        ((ofThread isStderr run).filterMap Effect.text?).flatten = Utf8.lossy stream) := by
  intro capture input stream
  have hstream : arrived (pipe isStderr) = stream := arrived_eq (pipe isStderr)
  have hcapture := finish_of_run h (pipe false) (pipe true) run (hrun false) (hrun true)
  refine ⟨?_, fun hquiet hlabel => ?_⟩
  · have hlast := CaptureBuffer.ofStream_holdsLast captureStreamBytes (arrived (pipe isStderr))
    rw [hstream] at hlast
    cases isStderr <;> simpa [capture, hcapture, ← hstream] using hlast
  · rw [hrun, texts_spawn hquiet hlabel, hstream]

end CaptureHandle
end Funzzy
