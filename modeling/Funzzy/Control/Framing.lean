import Funzzy.Control.Protocol
import Funzzy.Lib.Lines
import Funzzy.Lib.Machine
import Funzzy.Lib.Utf8

/-! One control connection (`handle_client`): how the bytes a client sends become requests.

    Every turn of the loop makes its own `BufReader` over the socket and reads one line with it; what
    that reader took from the socket behind the line goes away with it. While an await is pending, a
    probe reads the socket to see whether the client is still there, and drops what it reads.

    A run is a list of events, one for each read of the socket and each answer. The reads take the
    client's bytes in pieces of any size the buffers hold, so the runs of a stream are all the ways of
    splitting it. The decoder `serde_json::from_str` is a parameter. -/

namespace Funzzy

namespace Control

def newline : UInt8 := 0x0A

/-- The capacity of a `BufReader`. -/
def bufferSize : Nat := 8192

/-- The length of the probe's buffer. -/
def probeSize : Nat := 16

/-- A request as it was read, with the response that was written for it. -/
structure Exchange where
  request : List UInt8
  response : Option Json

/-- Where `handle_client` stands: in `read_line`, with the line it returned, waiting in
    `await_generation`, or past its last request. -/
inductive Phase where
  | reading (line : List UInt8)
  | received (request : List UInt8)
  | awaiting (request : List UInt8) (id : Json)
  | closed

/-- A connection: what the client sends that has not been read, what has been read, whether a read
    reported the end of the stream, and what has been handled and written. -/
structure Connection where
  rest : List UInt8
  seen : List UInt8
  eof : Bool
  phase : Phase
  exchanges : List Exchange
  written : List Json

def connect (stream : List UInt8) : Connection :=
  { rest := stream, seen := [], eof := false, phase := .reading [], exchanges := [], written := [] }

/-- What happens on the connection: a read of the loop's buffered reader that gives `n` bytes, the end
    of the stream or an error; the handling of the line that was read; and, while an await is pending, a
    probe that would block, one that reads `n` bytes, one that sees the end of the stream or an error,
    and the end of the wait by itself. -/
inductive Event where
  | read (n : Nat)
  | eof
  | fail
  | handle (results : Nat → Json → MethodResult) (snapshot : Json)
  | quiet
  | probe (n : Nat) (result : Json)
  | hangup (result : Json)
  | settle (result : Json)

/-- `read_line` on the bytes of one read: the line goes to its newline, and what follows is dropped. -/
def readUntil (line piece : List UInt8) : Phase :=
  match piece.dropWhile (· != newline) with
  | [] => .reading (line ++ piece)
  | nl :: _ => .received (line ++ piece.takeWhile (· != newline) ++ [nl])

variable (parse : List UInt8 → Except String Json) (api : Api)

/-- `read_line` gives a `String`. -/
def isUtf8 (line : List UInt8) : Bool := (Utf8.chunks line).all Utf8.Chunk.valid

/-- One turn of `handle_client` behind the read. -/
def handleLine (results : Nat → Json → MethodResult) (snapshot : Json) (line : List UInt8) : Outcome :=
  if !isUtf8 line then .last none
  else
    match parse line with
    | .error error => .last (some (rpcError .null (-32700) "Parse error" (some (.string error))))
    | .ok request => handleRequest api results snapshot request

namespace Connection

/-- The socket gives its next `n` bytes. -/
def take (c : Connection) (n : Nat) : Connection :=
  { c with rest := c.rest.drop n, seen := c.seen ++ c.rest.take n }

/-- A request is done: its response is written and the loop goes to `phase`. -/
def finish (c : Connection) (request : List UInt8) (response : Option Json) (phase : Phase) :
    Connection :=
  { c with phase, exchanges := c.exchanges ++ [⟨request, response⟩],
           written := c.written ++ response.toList }

def step (c : Connection) : Event → Option Connection
  | .read n =>
    match c.phase with
    | .reading line =>
      if 1 ≤ n ∧ n ≤ bufferSize ∧ n ≤ c.rest.length then
        some { c.take n with phase := readUntil line (c.rest.take n) }
      else none
    | _ => none
  | .eof =>
    match c.phase with
    | .reading line =>
      if c.rest = [] then
        some { c with eof := true, phase := if line.isEmpty then .closed else .received line }
      else none
    | _ => none
  | .fail =>
    match c.phase with
    | .reading _ => some { c with phase := .closed }
    | _ => none
  | .handle results snapshot =>
    match c.phase with
    | .received request =>
      some <| match handleLine parse api results snapshot request with
        | .reply response => c.finish request response (.reading [])
        | .pending id => { c with phase := .awaiting request id }
        | .last response => c.finish request response .closed
    | _ => none
  | .quiet =>
    match c.phase with
    | .awaiting _ _ => some c
    | _ => none
  | .probe n result =>
    match c.phase with
    | .awaiting request id =>
      if 1 ≤ n ∧ n ≤ probeSize ∧ n ≤ c.rest.length then
        some ((c.take n).finish request (some (rpcResult id result)) (.reading []))
      else none
    | _ => none
  | .hangup result | .settle result =>
    match c.phase with
    | .awaiting request id => some (c.finish request (some (rpcResult id result)) (.reading []))
    | _ => none

/-- The requests the loop has taken from the socket, in order. -/
def requests (c : Connection) : List (List UInt8) :=
  c.exchanges.map Exchange.request ++ match c.phase with
    | .received request | .awaiting request _ => [request]
    | .reading _ | .closed => []

/-- What is held of a request still to come. -/
def held (c : Connection) : List UInt8 :=
  match c.phase with
  | .reading line => line
  | _ => []

end Connection

/-! ### What the framing should be -/

/-- The request is complete: it goes up to a newline. -/
def isComplete (request : List UInt8) : Bool := request.getLast? == some newline

/-- The request is the last one its connection serves: it is not text, not JSON, or a subscription. -/
def endsConnection (line : List UInt8) : Bool :=
  !isUtf8 line || match parse line with
    | .error _ => true
    | .ok request => (request.get "method").bind Json.asStr == some "subscribe"

/-- The connection goes on to further requests. -/
def Connection.isServing (c : Connection) : Bool :=
  match c.phase with
  | .received request => !endsConnection parse request
  | .reading _ | .awaiting _ _ => true
  | .closed => false

/-- The response is the one the request's handling gave. -/
def Exchange.IsAnswered (e : Exchange) : Prop :=
  ∃ results snapshot, match handleLine parse api results snapshot e.request with
    | .reply response | .last response => e.response = response
    | .pending id => ∃ result, e.response = some (rpcResult id result)

/-- The framing of a connection: the complete requests taken are the complete lines of what has been
    read, each once and in order, up to the one that ends the connection; while it goes on, what has
    been read of the next request is still held; and the responses written are those of the requests
    handled, in their order. -/
structure Framed (c : Connection) : Prop where
  processed : c.requests.filter isComplete = Lines.upTo (endsConnection parse) (Lines.lines newline c.seen)
  kept : c.eof = false → c.isServing parse = true → c.held = Lines.pending newline c.seen
  written : c.written = c.exchanges.filterMap Exchange.response
  answered : ∀ e ∈ c.exchanges, e.IsAnswered parse api

/-- The step mixes no requests: a read of the loop gives no bytes behind the newline of the request it
    completes (unless that request ends the connection), and a probe gives no bytes. -/
def Unmixed (c : Connection) : Event → Prop
  | .read n =>
    match c.phase with
    | .reading line =>
      ((c.rest.take n).dropWhile (· != newline)).tail = []
        ∨ endsConnection parse (line ++ (c.rest.take n).takeWhile (· != newline) ++ [newline]) = true
    | _ => True
  | .probe _ _ => False
  | _ => True

instance (c : Connection) : ∀ e : Event, Decidable (Unmixed parse c e)
  | .read n =>
    match hphase : c.phase with
    | .reading line => decidable_of_iff
        (((c.rest.take n).dropWhile (· != newline)).tail = []
          ∨ endsConnection parse (line ++ (c.rest.take n).takeWhile (· != newline) ++ [newline]) = true)
        (by simp only [Unmixed, hphase])
    | .received _ | .awaiting _ _ | .closed => isTrue (by simp only [Unmixed, hphase])
  | .probe _ _ => isFalse id
  | .eof | .fail | .handle _ _ | .quiet | .hangup _ | .settle _ => isTrue trivial

/-! ### Lemmas of the reader and the dispatcher -/

theorem readUntil_open {piece : List UInt8} (h : newline ∉ piece) (line : List UInt8) :
    readUntil line piece = .reading (line ++ piece) := by
  have hall : ∀ b ∈ piece, (b != newline) = true := by
    intro b hb
    exact bne_iff_ne.mpr fun heq => h (heq ▸ hb)
  rw [readUntil, List.dropWhile_eq_nil_iff.mpr hall]

theorem span_newline {before : List UInt8} (h : newline ∉ before) (behind : List UInt8) :
    (before ++ newline :: behind).takeWhile (· != newline) = before
      ∧ (before ++ newline :: behind).dropWhile (· != newline) = newline :: behind := by
  have hall : ∀ b ∈ before, (b != newline) = true := by
    intro b hb
    exact bne_iff_ne.mpr fun heq => h (heq ▸ hb)
  rw [List.takeWhile_append_of_pos hall, List.dropWhile_append_of_pos hall]
  simp

theorem readUntil_close {before : List UInt8} (h : newline ∉ before) (line behind : List UInt8) :
    readUntil line (before ++ newline :: behind) = .received (line ++ before ++ [newline]) := by
  obtain ⟨htake, hdrop⟩ := span_newline h behind
  rw [readUntil, hdrop, htake]

theorem isComplete_concat (line : List UInt8) : isComplete (line ++ [newline]) = true := by
  simp [isComplete]

theorem isComplete_open {line : List UInt8} (h : newline ∉ line) : isComplete line = false := by
  rw [isComplete, beq_eq_false_iff_ne]
  exact fun hlast => h (List.mem_of_getLast? hlast)

theorem handleAwait_ne_last (request : Json) (response : Option Json) :
    handleAwait api request ≠ .last response := by
  rw [handleAwait]
  split
  · simp
  · split
    · simp
    · split <;> simp

/-- The connection ends with a request exactly when its line says so, whatever the methods give. -/
theorem endsConnection_iff (results : Nat → Json → MethodResult) (snapshot : Json)
    (line : List UInt8) : endsConnection parse line = true
      ↔ ∃ response, handleLine parse api results snapshot line = .last response := by
  rw [endsConnection, handleLine]
  cases hutf : isUtf8 line with
  | false => simp
  | true =>
    cases hparse : parse line with
    | error error => simp
    | ok request =>
      simp only [handleRequest, Bool.not_true, Bool.false_or, beq_iff_eq, Bool.false_eq_true, if_false]
      split
      · simp_all
      · split
        · simp_all [handleAwait_ne_last]
        · simp_all

/-! ### What holds of every run -/

/-- Facts of every connection, however its stream is split. -/
structure Sound (c : Connection) : Prop where
  written : c.written = c.exchanges.filterMap Exchange.response
  answered : ∀ e ∈ c.exchanges, e.IsAnswered parse api
  drained : c.eof = true → c.rest = []
  unbroken : newline ∉ c.held
  served : c.phase ≠ .closed → ∀ e ∈ c.exchanges, endsConnection parse e.request = false
  awaited : ∀ request id, c.phase = .awaiting request id →
    ∃ results snapshot, handleLine parse api results snapshot request = .pending id

theorem sound_connect (stream : List UInt8) : Sound parse api (connect stream) := by
  refine ⟨rfl, ?_, ?_, ?_, ?_, ?_⟩ <;> simp [connect, Connection.held]

/-- What each step does. -/
inductive Moved (c : Connection) : Event → Connection → Prop where
  | read {line : List UInt8} {n : Nat} (hphase : c.phase = .reading line) (hpos : 1 ≤ n)
      (hlen : n ≤ c.rest.length) :
      Moved c (.read n) { c.take n with phase := readUntil line (c.rest.take n) }
  | eof {line : List UInt8} (hphase : c.phase = .reading line) (hrest : c.rest = []) :
      Moved c .eof { c with eof := true, phase := if line.isEmpty then .closed else .received line }
  | fail {line : List UInt8} (hphase : c.phase = .reading line) :
      Moved c .fail { c with phase := .closed }
  | reply {request : List UInt8} {results : Nat → Json → MethodResult} {snapshot : Json}
      {response : Option Json} (hphase : c.phase = .received request)
      (hreply : handleLine parse api results snapshot request = .reply response) :
      Moved c (.handle results snapshot) (c.finish request response (.reading []))
  | pending {request : List UInt8} {results : Nat → Json → MethodResult} {snapshot id : Json}
      (hphase : c.phase = .received request)
      (hpending : handleLine parse api results snapshot request = .pending id) :
      Moved c (.handle results snapshot) { c with phase := .awaiting request id }
  | last {request : List UInt8} {results : Nat → Json → MethodResult} {snapshot : Json}
      {response : Option Json} (hphase : c.phase = .received request)
      (hlast : handleLine parse api results snapshot request = .last response) :
      Moved c (.handle results snapshot) (c.finish request response .closed)
  | quiet : Moved c .quiet c
  | probe {request : List UInt8} {id result : Json} {n : Nat} (hphase : c.phase = .awaiting request id)
      (hpos : 1 ≤ n) (hlen : n ≤ c.rest.length) :
      Moved c (.probe n result) ((c.take n).finish request (some (rpcResult id result)) (.reading []))
  | settled {request : List UInt8} {id result : Json} {e : Event}
      (hphase : c.phase = .awaiting request id) (he : e = .hangup result ∨ e = .settle result) :
      Moved c e (c.finish request (some (rpcResult id result)) (.reading []))

theorem step_moved {c c' : Connection} {e : Event} (h : c.step parse api e = some c') :
    Moved parse api c e c' := by
  cases hphase : c.phase with
  | reading line =>
    cases e <;> simp only [Connection.step, hphase, Option.some.injEq, reduceCtorEq] at h
    · split at h
      · rename_i hn
        cases h
        exact .read hphase hn.1 hn.2.2
      · cases h
    · split at h
      · rename_i hrest
        cases h
        exact .eof hphase hrest
      · cases h
    · subst h
      exact .fail hphase
  | received request =>
    cases e <;> simp only [Connection.step, hphase, Option.some.injEq, reduceCtorEq] at h
    split at h <;> subst h
    · exact .reply hphase ‹_›
    · exact .pending hphase ‹_›
    · exact .last hphase ‹_›
  | awaiting request id =>
    cases e <;> simp only [Connection.step, hphase, Option.some.injEq, reduceCtorEq] at h
    · subst h
      exact .quiet
    · split at h
      · rename_i hn
        cases h
        exact .probe hphase hn.1 hn.2.2
      · cases h
    · subst h
      exact .settled hphase (.inl rfl)
    · subst h
      exact .settled hphase (.inr rfl)
  | closed =>
    cases e <;> simp only [Connection.step, hphase, reduceCtorEq] at h

variable {parse api}

theorem not_endsConnection {results : Nat → Json → MethodResult} {snapshot : Json}
    {line : List UInt8} {outcome : Outcome}
    (h : handleLine parse api results snapshot line = outcome)
    (hlast : ∀ response, outcome ≠ .last response) : endsConnection parse line = false := by
  rw [← Bool.not_eq_true, endsConnection_iff parse api results snapshot line, h]
  rintro ⟨response, heq⟩
  exact hlast response heq

theorem Sound.finish {c : Connection} (h : Sound parse api c) {request : List UInt8}
    {response : Option Json} {phase : Phase} (hopen : c.phase ≠ .closed)
    (hanswered : Exchange.IsAnswered parse api ⟨request, response⟩)
    (hphase : phase = .closed ∨ phase = .reading [] ∧ endsConnection parse request = false) :
    Sound parse api (c.finish request response phase) := by
  refine ⟨?_, ?_, h.drained, ?_, ?_, ?_⟩
  · rw [Connection.finish, h.written, List.filterMap_append]
    cases response <;> rfl
  · intro e he
    rcases List.mem_append.mp he with he | he
    · exact h.answered e he
    · rw [List.mem_singleton.mp he]
      exact hanswered
  · rcases hphase with rfl | ⟨rfl, _⟩ <;> simp [Connection.held, Connection.finish]
  · intro hnot e he
    rcases hphase with rfl | ⟨rfl, hends⟩
    · exact absurd rfl hnot
    · rcases List.mem_append.mp he with he | he
      · exact h.served hopen e he
      · rw [List.mem_singleton.mp he]
        exact hends
  · rcases hphase with rfl | ⟨rfl, _⟩ <;> simp [Connection.finish]

/-- Reading the socket changes nothing that has been handled. -/
theorem Sound.take {c : Connection} (h : Sound parse api c) (n : Nat) :
    Sound parse api (c.take n) where
  written := h.written
  answered := h.answered
  drained heof := by rw [Connection.take, h.drained heof, List.drop_nil]
  unbroken := h.unbroken
  served := h.served
  awaited := h.awaited

theorem Sound.rephase {c : Connection} (h : Sound parse api c) {phase : Phase}
    (hopen : c.phase ≠ .closed) (hheld : newline ∉ { c with phase }.held)
    (hawaited : ∀ request id, phase = .awaiting request id →
      ∃ results snapshot, handleLine parse api results snapshot request = .pending id) :
    Sound parse api { c with phase } where
  written := h.written
  answered := h.answered
  drained := h.drained
  unbroken := hheld
  served _ := h.served hopen
  awaited := hawaited

theorem readUntil_held {line : List UInt8} (piece : List UInt8) (h : newline ∉ line) (c : Connection) :
    newline ∉ { c with phase := readUntil line piece }.held
      ∧ ∀ request id, readUntil line piece ≠ .awaiting request id := by
  by_cases hmem : newline ∈ piece
  · obtain ⟨before, behind, rfl, hopen⟩ := List.eq_append_cons_of_mem hmem
    rw [readUntil_close hopen]
    simp [Connection.held]
  · rw [readUntil_open hmem]
    simp [Connection.held, h, hmem]

theorem sound_step {c c' : Connection} {e : Event} (h : Sound parse api c)
    (hstep : c.step parse api e = some c') : Sound parse api c' := by
  cases step_moved parse api hstep with
  | @read line n hphase =>
    have hline : newline ∉ line := by simpa [Connection.held, hphase] using h.unbroken
    obtain ⟨hheld, hnot⟩ := readUntil_held (c.rest.take n) hline (c.take n)
    exact (h.take n).rephase (by simp [Connection.take, hphase]) hheld
      fun request id heq => absurd heq (hnot request id)
  | eof hphase hrest =>
    have hended : Sound parse api { c with eof := true } :=
      ⟨h.written, h.answered, fun _ => hrest, h.unbroken, h.served, h.awaited⟩
    refine hended.rephase (by simp [hphase]) ?_ ?_ <;> split <;> simp [Connection.held]
  | fail hphase =>
    exact h.rephase (by simp [hphase]) (by simp [Connection.held]) (by simp)
  | @reply request results snapshot response hphase hreply =>
    refine h.finish (by simp [hphase]) ⟨results, snapshot, ?_⟩ (.inr ⟨rfl, ?_⟩)
    · simp only [hreply]
    · exact not_endsConnection hreply (by simp)
  | @pending request results snapshot id hphase hpending =>
    refine h.rephase (by simp [hphase]) (by simp [Connection.held]) ?_
    rintro _ _ ⟨⟩
    exact ⟨results, snapshot, hpending⟩
  | @last request results snapshot response hphase hlast =>
    refine h.finish (by simp [hphase]) ⟨results, snapshot, ?_⟩ (.inl rfl)
    simp only [hlast]
  | quiet => exact h
  | @probe request id result n hphase =>
    obtain ⟨results, snapshot, hpending⟩ := h.awaited request id hphase
    refine (h.take n).finish (by simp [Connection.take, hphase]) ⟨results, snapshot, ?_⟩
      (.inr ⟨rfl, not_endsConnection hpending (by simp)⟩)
    simp only [hpending]
    exact ⟨result, rfl⟩
  | @settled request id result _ hphase =>
    obtain ⟨results, snapshot, hpending⟩ := h.awaited request id hphase
    refine h.finish (by simp [hphase]) ⟨results, snapshot, ?_⟩
      (.inr ⟨rfl, not_endsConnection hpending (by simp)⟩)
    simp only [hpending]
    exact ⟨result, rfl⟩

/-! ### One step -/

theorem Sound.requests_served {c : Connection} (h : Sound parse api c) (hopen : c.phase ≠ .closed)
    (hreceived : ∀ request, c.phase ≠ .received request) :
    ∀ request ∈ c.requests, endsConnection parse request = false := by
  intro request hmem
  rcases List.mem_append.mp hmem with hmem | hmem
  · obtain ⟨e, he, rfl⟩ := List.mem_map.mp hmem
    exact h.served hopen e he
  · cases hphase : c.phase with
    | reading | closed => simp [hphase] at hmem
    | received other => exact absurd hphase (hreceived other)
    | awaiting other id =>
      obtain ⟨results, snapshot, hpending⟩ := h.awaited other id hphase
      have heq : request = other := by simpa [hphase] using hmem
      rw [heq]
      exact not_endsConnection hpending (by simp)

/-- Where bytes are left to read, no read has reported the end of the stream. -/
theorem Sound.not_eof {c : Connection} (h : Sound parse api c) {n : Nat} (hpos : 1 ≤ n)
    (hlen : n ≤ c.rest.length) : c.eof = false := by
  rw [← Bool.not_eq_true]
  intro heof
  rw [h.drained heof, List.length_nil] at hlen
  omega

/-- As long as no request has ended the connection, the complete requests are all the lines read. -/
theorem Framed.lines_eq {c : Connection} (h : Framed parse api c)
    (hserved : ∀ request ∈ c.requests, endsConnection parse request = false) :
    c.requests.filter isComplete = Lines.lines newline c.seen
      ∧ ∀ line ∈ Lines.lines newline c.seen, endsConnection parse line = false := by
  have hkept : ∀ line ∈ Lines.upTo (endsConnection parse) (Lines.lines newline c.seen),
      endsConnection parse line = false := by
    intro line hline
    rw [← h.processed] at hline
    exact hserved line (List.mem_of_mem_filter hline)
  have hall := Lines.upTo_of_kept _ hkept
  exact ⟨h.processed.trans hall, hall ▸ hkept⟩

/-- A step that reads nothing keeps the framing when it keeps the requests and what is held. -/
theorem Framed.still {c c' : Connection} (h : Framed parse api c) (hsound : Sound parse api c')
    (hrequests : c'.requests.filter isComplete = c.requests.filter isComplete)
    (hseen : c'.seen = c.seen)
    (hkept : c'.eof = false → c'.isServing parse = true →
      c.eof = false ∧ c.isServing parse = true ∧ c'.held = c.held) : Framed parse api c' where
  processed := by rw [hrequests, hseen, h.processed]
  kept heof hserving := by
    obtain ⟨heof', hserving', hheld⟩ := hkept heof hserving
    rw [hheld, hseen, h.kept heof' hserving']
  written := hsound.written
  answered := hsound.answered

/-- Handling a request moves it from the open one to the exchanges. -/
theorem Framed.finish {c : Connection} (h : Framed parse api c) {request : List UInt8}
    {response : Option Json} {phase : Phase} (hsound : Sound parse api (c.finish request response phase))
    (hopen : c.requests = c.exchanges.map Exchange.request ++ [request])
    (hphase : phase = .closed ∨ phase = .reading [] ∧ c.isServing parse = true ∧ c.held = []) :
    Framed parse api (c.finish request response phase) := by
  have hrequests : (c.finish request response phase).requests = c.requests := by
    rw [hopen, Connection.requests, Connection.finish]
    rcases hphase with rfl | ⟨rfl, _⟩ <;> simp
  refine h.still hsound (by rw [hrequests]) rfl fun heof hserving => ?_
  rcases hphase with rfl | ⟨rfl, hbefore, hheld⟩
  · cases hserving
  · exact ⟨heof, hbefore, hheld.symm⟩

/-- Bytes that were read and dropped are missed at once: as a line, or else as the start of the next
    request. -/
theorem Framed.nothing_lost {c : Connection} (h : Framed parse api c) {known : List (List UInt8)}
    {lost : List UInt8} (hserved : ∀ line ∈ known, endsConnection parse line = false)
    (hrequests : c.requests.filter isComplete = known)
    (hsplit : Lines.split newline c.seen
      = (known ++ Lines.lines newline lost, Lines.pending newline lost))
    (heof : c.eof = false) (hserving : c.isServing parse = true) (hheld : c.held = []) : lost = [] := by
  have hlines : Lines.lines newline c.seen = known ++ Lines.lines newline lost := by
    rw [Lines.lines, hsplit]
  have hpending : Lines.pending newline c.seen = Lines.pending newline lost := by
    rw [Lines.pending, hsplit]
  have hprocessed := h.processed
  rw [hrequests, hlines, Lines.upTo_append _ hserved] at hprocessed
  refine Lines.eq_nil_of_lines_nil newline (Lines.upTo_eq_nil _ (List.self_eq_append_right.mp hprocessed))
    ?_
  rw [← hpending, ← h.kept heof hserving, hheld]

/-- A read keeps the framing exactly when nothing stands behind the newline of the request it completes,
    or that request ends the connection. -/
theorem framed_read_iff {c : Connection} {line : List UInt8} {n : Nat} (hs : Sound parse api c)
    (hf : Framed parse api c) (hphase : c.phase = .reading line) (hpos : 1 ≤ n)
    (hlen : n ≤ c.rest.length)
    (hs' : Sound parse api { c.take n with phase := readUntil line (c.rest.take n) }) :
    Framed parse api { c.take n with phase := readUntil line (c.rest.take n) }
      ↔ Unmixed parse c (.read n) := by
  have heof := hs.not_eof hpos hlen
  have hline : line = Lines.pending newline c.seen := by
    have hkept := hf.kept heof (by simp [Connection.isServing, hphase])
    rwa [Connection.held, hphase] at hkept
  obtain ⟨hlines, hserved⟩ := hf.lines_eq
    (hs.requests_served (by simp [hphase]) (by simp [hphase]))
  have hrequests : c.requests = c.exchanges.map Exchange.request := by
    simp [Connection.requests, hphase]
  rw [hrequests] at hlines
  simp only [Unmixed, hphase]
  have hseen : (c.take n).seen = c.seen ++ c.rest.take n := rfl
  by_cases hmem : newline ∈ c.rest.take n
  · obtain ⟨before, behind, hpiece, hopen⟩ := List.eq_append_cons_of_mem hmem
    obtain ⟨htake, hdrop⟩ := span_newline hopen behind
    rw [hpiece] at hs' hseen ⊢
    rw [readUntil_close hopen] at hs' ⊢
    rw [htake, hdrop, List.tail_cons]
    have hfilter : ((c.exchanges.map Exchange.request) ++ [line ++ before ++ [newline]]).filter isComplete
        = Lines.lines newline c.seen ++ [line ++ before ++ [newline]] := by
      rw [List.filter_append, hlines, List.filter_singleton, isComplete_concat]
      rfl
    have hsplit := Lines.split_close newline c.seen hopen behind
    have hclose := Lines.lines_close newline c.seen hopen behind
    rw [← hline] at hsplit hclose
    have hserving : ∀ c' : Connection, c'.phase = .received (line ++ before ++ [newline]) →
        c'.isServing parse = !endsConnection parse (line ++ before ++ [newline]) := by
      intro c' hreceived
      rw [Connection.isServing, hreceived]
    cases hends : endsConnection parse (line ++ before ++ [newline]) with
    | true =>
      refine iff_of_true ⟨hfilter.trans ?_, ?_, hs'.written, hs'.answered⟩ (.inr rfl)
      · rw [hseen, hclose, List.append_assoc (Lines.lines newline c.seen), Lines.upTo_append _ hserved,
          List.singleton_append, Lines.upTo, if_pos hends]
      · intro _ hgoes
        rw [hserving _ rfl, hends] at hgoes
        cases hgoes
    | false =>
      have hknown : ∀ l ∈ Lines.lines newline c.seen ++ [line ++ before ++ [newline]],
          endsConnection parse l = false := by
        intro l hl
        rcases List.mem_append.mp hl with hl | hl
        · exact hserved l hl
        · rw [List.mem_singleton.mp hl]
          exact hends
      rw [or_iff_left (by simp)]
      constructor
      · intro hframed
        exact hframed.nothing_lost hknown hfilter (hseen ▸ hsplit) heof
          (by rw [hserving _ rfl, hends]; rfl) rfl
      · rintro rfl
        refine ⟨hfilter.trans ?_, fun _ _ => ?_, hs'.written, hs'.answered⟩
        · rw [hseen, hclose, Lines.upTo_append _ hknown]
          exact (List.append_nil _).symm
        · rw [hseen, Lines.pending_close newline c.seen hopen]
          rfl
  · rw [readUntil_open hmem] at hs' ⊢
    have hall : ∀ b ∈ c.rest.take n, (b != newline) = true := by
      intro b hb
      exact bne_iff_ne.mpr fun heq => hmem (heq ▸ hb)
    rw [List.dropWhile_eq_nil_iff.mpr hall]
    refine iff_of_true ⟨?_, fun _ _ => ?_, hs'.written, hs'.answered⟩ (.inl rfl)
    · rw [hseen, Lines.lines_open newline c.seen hmem, ← hf.processed, hrequests]
      simp [Connection.requests, Connection.take]
    · rw [hseen, Lines.pending_open newline c.seen hmem, ← hline]
      rfl

/-- A probe that reads bytes breaks the framing. -/
theorem not_framed_probe {c : Connection} {request : List UInt8} {id result : Json} {n : Nat}
    (hs : Sound parse api c) (hf : Framed parse api c) (hphase : c.phase = .awaiting request id)
    (hpos : 1 ≤ n) (hlen : n ≤ c.rest.length) :
    ¬Framed parse api ((c.take n).finish request (some (rpcResult id result)) (.reading [])) := by
  intro hframed
  have heof := hs.not_eof hpos hlen
  have hpending : Lines.pending newline c.seen = [] := by
    rw [← hf.kept heof (by simp [Connection.isServing, hphase]), Connection.held, hphase]
  obtain ⟨hlines, hserved⟩ := hf.lines_eq
    (hs.requests_served (by simp [hphase]) (by simp [hphase]))
  have hrequests : ((c.take n).finish request (some (rpcResult id result)) (.reading [])).requests
      = c.requests := by
    simp [Connection.requests, Connection.finish, Connection.take, hphase]
  rw [← hrequests] at hlines
  have hnil := hframed.nothing_lost hserved hlines
    (Lines.split_append_of_pending newline hpending (c.rest.take n)) heof rfl rfl
  rw [List.take_eq_nil_iff] at hnil
  rcases hnil with rfl | hrest
  · omega
  · rw [hrest, List.length_nil] at hlen
    omega

theorem framed_step_iff {c c' : Connection} {e : Event} (hs : Sound parse api c)
    (hf : Framed parse api c) (hstep : c.step parse api e = some c') :
    Framed parse api c' ↔ Unmixed parse c e := by
  have hs' := sound_step hs hstep
  cases step_moved parse api hstep with
  | read hphase hpos hlen => exact framed_read_iff hs hf hphase hpos hlen hs'
  | @eof line hphase hrest =>
    have hline : newline ∉ line := by simpa [Connection.held, hphase] using hs.unbroken
    refine iff_of_true (hf.still hs' ?_ rfl ?_) trivial
    · cases hempty : line.isEmpty
      · simp [Connection.requests, hphase, isComplete_open hline]
      · simp [Connection.requests, hphase]
    · intro heof
      cases heof
  | fail hphase =>
    refine iff_of_true (hf.still hs' ?_ rfl ?_) trivial
    · simp [Connection.requests, hphase]
    · intro _ hserving
      cases hserving
  | reply hphase hreply =>
    refine iff_of_true (hf.finish hs' ?_ (.inr ⟨rfl, ?_, ?_⟩)) trivial
    · simp [Connection.requests, hphase]
    · simp [Connection.isServing, hphase, not_endsConnection hreply (by simp)]
    · simp [Connection.held, hphase]
  | pending hphase hpending =>
    refine iff_of_true (hf.still hs' ?_ rfl fun heof _ => ⟨heof, ?_, ?_⟩) trivial
    · simp [Connection.requests, hphase]
    · simp [Connection.isServing, hphase, not_endsConnection hpending (by simp)]
    · simp [Connection.held, hphase]
  | last hphase hlast =>
    refine iff_of_true (hf.finish hs' ?_ (.inl rfl)) trivial
    simp [Connection.requests, hphase]
  | quiet => exact iff_of_true hf trivial
  | probe hphase hpos hlen => exact iff_of_false (not_framed_probe hs hf hphase hpos hlen) id
  | settled hphase he =>
    have hcond : Unmixed parse c e := by
      rcases he with rfl | rfl <;> trivial
    refine iff_of_true (hf.finish hs' ?_ (.inr ⟨rfl, ?_, ?_⟩)) hcond
    · simp [Connection.requests, hphase]
    · simp [Connection.isServing, hphase]
    · simp [Connection.held, hphase]

/-! ### Whole runs -/

theorem framed_connect (stream : List UInt8) : Framed parse api (connect stream) where
  processed := rfl
  kept _ _ := rfl
  written := rfl
  answered e he := by cases he

variable (parse api)

/-- A connection is framed all along a run exactly when no read of the loop gives bytes behind the newline
    of a request that does not end the connection, and no probe of a pending await gives bytes. -/
theorem framing_iff (stream : List UInt8) (events : List Event) (c : Connection)
    (hrun : Machine.after (Connection.step parse api) (connect stream) events = some c) :
    (∀ k d, Machine.after (Connection.step parse api) (connect stream) (events.take k) = some d →
        Framed parse api d)
      ↔ Machine.Meets (Connection.step parse api) (Unmixed parse) (connect stream) events :=
  Machine.always_iff_meets _ (fun _ _ _ => sound_step) (fun _ _ _ => framed_step_iff) events _ c
    (sound_connect parse api stream) (framed_connect stream) hrun

/-! ### Runs on two requests -/

/-- The status request with id 1 and a newline. -/
def statusLine : List UInt8 :=
  "\x7b\"jsonrpc\":\"2.0\",\"id\":1,\"method\":\"status\"\x7d\n".toByteArray.data.toList

/-- An await request with id 2 and a newline. -/
def awaitLine : List UInt8 :=
  ("\x7b\"jsonrpc\":\"2.0\",\"id\":2,\"method\":\"await\",\"params\":"
    ++ "\x7b\"after\":0,\"timeoutMs\":9\x7d\x7d\n").toByteArray.data.toList

/-- What `serde_json` makes of these lines. -/
def parseSample (line : List UInt8) : Except String Json :=
  if line = statusLine then
    .ok (.object [("jsonrpc", .string "2.0"), ("id", .number (.int 1)), ("method", .string "status")])
  else if line = awaitLine then
    .ok (.object [("jsonrpc", .string "2.0"), ("id", .number (.int 2)), ("method", .string "await"),
      ("params", .object [("after", .number (.int 0)), ("timeoutMs", .number (.int 9))])])
  else .error "expected value at line 1 column 1"

def fullApi : Api := { coordinator := true, broker := true }

def answerNull : Event := .handle (fun _ _ => .ok .null) .null

/-- Two requests, the second in two reads behind the answer to the first. -/
theorem framing_two_requests :
    ∃ c, Machine.after (Connection.step parseSample fullApi) (connect (awaitLine ++ statusLine))
          [.read 77, answerNull, .quiet, .settle .null, .read 20, .read 23, answerNull] = some c
      ∧ c.requests = [awaitLine, statusLine]
      ∧ Framed parseSample fullApi c := by
  have hrequests : (Machine.after (Connection.step parseSample fullApi)
      (connect (awaitLine ++ statusLine))
      [.read 77, answerNull, .quiet, .settle .null, .read 20, .read 23, answerNull]).map
        Connection.requests = some [awaitLine, statusLine] := by
    decide +kernel
  obtain ⟨c, hc, heq⟩ := Option.map_eq_some_iff.mp hrequests
  refine ⟨c, hc, heq, (framing_iff parseSample fullApi _ _ c hc).mpr ?_ 7 c hc⟩
  decide +kernel

/-- A request behind another one in the same read is lost: the connection comes to the end of the stream
    with only the first one processed. -/
theorem pipelined_request_lost :
    (∃ c, Machine.after (Connection.step parseSample fullApi) (connect (statusLine ++ statusLine))
          [.read 86, answerNull, .eof] = some c
        ∧ c.requests = [statusLine] ∧ Lines.lines newline c.seen = [statusLine, statusLine]
        ∧ ¬Framed parseSample fullApi c)
      ∧ ∃ c, Machine.after (Connection.step parseSample fullApi) (connect (awaitLine ++ statusLine))
          [.read 77, answerNull, .probe 16 .null, .read 27, answerNull] = some c
        ∧ c.requests = [awaitLine, statusLine.drop 16]
        ∧ Lines.lines newline c.seen = [awaitLine, statusLine]
        ∧ ¬Framed parseSample fullApi c := by
  have hpiped : (Machine.after (Connection.step parseSample fullApi) (connect (statusLine ++ statusLine))
      [.read 86, answerNull, .eof]).map (fun c => (c.requests, Lines.lines newline c.seen))
        = some ([statusLine], [statusLine, statusLine]) := by
    decide +kernel
  have hprobed : (Machine.after (Connection.step parseSample fullApi) (connect (awaitLine ++ statusLine))
      [.read 77, answerNull, .probe 16 .null, .read 27, answerNull]).map
        (fun c => (c.requests, Lines.lines newline c.seen))
        = some ([awaitLine, statusLine.drop 16], [awaitLine, statusLine]) := by
    decide +kernel
  obtain ⟨c, hc, heq⟩ := Option.map_eq_some_iff.mp hpiped
  obtain ⟨d, hd, heq'⟩ := Option.map_eq_some_iff.mp hprobed
  obtain ⟨hrequests, hlines⟩ := Prod.mk.inj heq
  obtain ⟨hrequests', hlines'⟩ := Prod.mk.inj heq'
  refine ⟨⟨c, hc, hrequests, hlines, fun hframed => ?_⟩, d, hd, hrequests', hlines', fun hframed => ?_⟩
  · have hprocessed := hframed.processed
    rw [hrequests, hlines] at hprocessed
    revert hprocessed
    decide +kernel
  · have hprocessed := hframed.processed
    rw [hrequests', hlines'] at hprocessed
    revert hprocessed
    decide +kernel

end Control

end Funzzy
