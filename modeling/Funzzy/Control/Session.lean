import Funzzy.Control.Client
import Funzzy.Control.Framing
import Funzzy.Control.Text

/-! A client and the server at the two ends of a connection (`control_client.rs`, `control.rs`).

    A call writes its request as one line and reads one line; the next call begins when it has returned.
    Both ends write and read in pieces of any size, and the server reads as `handle_client` does. A run
    is a list of labels, one for each write, read, handling or failure, so it is any interleaving of the
    two.

    The sessions here are those of a client that stops at its first call without a response: one that timed
    out, could not be written or read, or lost the connection. An error response does not end a session. A
    client that calls again on the same connection reads what is left of the call before, and the server
    may handle a request that was cut off; neither is followed here. -/

namespace Funzzy

namespace Control

open Json (line nat)
open ControlClient (receive ControlClientError)

/-- Why a call has no result. -/
inductive CallError where
  | timeout
  | io (error : String)
  | disconnected
  | notJson (error : String)
  | refused (error : ControlClientError)

/-- There was no response. -/
def CallError.isLost : CallError → Bool
  | .timeout | .io _ | .disconnected => true
  | .notJson _ | .refused _ => false

/-- Where the client stands: between calls, with what of a request is still to be written, with what of a
    response has been read, or behind a call without a response, after which it makes no other. -/
inductive CallPhase where
  | idle
  | writing (todo : List UInt8)
  | waiting (response : List UInt8)
  | gone

/-- Both ends. `taken` counts the bytes the client has read; `requests` and `returns` are the calls so far
    and what they returned. -/
structure Link where
  server : Connection
  taken : Nat
  phase : CallPhase
  nextId : Nat
  requests : List Json
  returns : List (Except CallError Json)

inductive LinkLabel where
  | call (method : String) (params : Json)
  | write (n : Nat)
  | server (e : Event)
  | read (n : Nat)
  | fail (error : Option String)
  | disconnect

/-- The methods a client calls. -/
def clientMethods : List String := "await" :: methods

def callRequest (id : Nat) (method : String) (params : Json) : Json :=
  .ordered [("jsonrpc", .string "2.0"), ("id", nat id), ("method", .string method), ("params", params)]

variable (parse : List UInt8 → Except String Json) (api : Api)

/-- `call` behind `read_line`. -/
def answer (id : Nat) (response : List UInt8) : Except CallError Json :=
  if !isUtf8 response then .error (.io "stream did not contain valid UTF-8")
  else
    match parse response with
    | .error error => .error (.notJson error)
    | .ok value => (receive id value).mapError .refused

/-- The bytes the server has written. -/
def Connection.output (c : Connection) : List UInt8 := c.written.flatMap fun response => line response.canonical

namespace Link

def start : Link :=
  { server := connect [], taken := 0, phase := .idle, nextId := 0, requests := [], returns := [] }

def returning (l : Link) (r : Except CallError Json) (phase : CallPhase) : Link :=
  { l with phase, returns := l.returns ++ [r] }

/-- A step of either end, while the client has not lost a call. -/
def step (l : Link) : LinkLabel → Option Link
  | .call method params =>
    match l.phase with
    | .idle =>
      if method ∈ clientMethods ∧ params.isObject then
        some { l with phase := .writing (line (callRequest (l.nextId + 1) method params))
                      nextId := l.nextId + 1
                      requests := l.requests ++ [callRequest (l.nextId + 1) method params] }
      else none
    | _ => none
  | .write n =>
    match l.phase with
    | .writing todo =>
      if 1 ≤ n ∧ n ≤ todo.length then
        some { l with server := { l.server with rest := l.server.rest ++ todo.take n }
                      phase := if n = todo.length then .waiting [] else .writing (todo.drop n) }
      else none
    | _ => none
  | .server e =>
    match l.phase, e with
    | .gone, _ | _, .eof | _, .hangup _ => none
    | _, e => (l.server.step parse api e).map fun server => { l with server }
  | .read n =>
    match l.phase with
    | .waiting response =>
      if 1 ≤ n ∧ l.taken + n ≤ l.server.output.length ∧ newline ∉ ((l.server.output.drop l.taken).take n).dropLast then
        some <|
          if ((l.server.output.drop l.taken).take n).getLast? = some newline then
            { l with taken := l.taken + n }.returning
              (answer parse l.nextId (response ++ (l.server.output.drop l.taken).take n)) .idle
          else
            { l with taken := l.taken + n, phase := .waiting (response ++ (l.server.output.drop l.taken).take n) }
      else none
    | _ => none
  | .fail error =>
    match l.phase with
    | .writing _ | .waiting _ => some (l.returning (.error ((error.map .io).getD .timeout)) .gone)
    | _ => none
  | .disconnect =>
    match l.phase, l.server.phase with
    | .waiting response, .closed =>
      if l.server.output.length ≤ l.taken then
        some (l.returning (if response = [] then .error .disconnected else answer parse l.nextId response) .gone)
      else none
    | _, _ => none

end Link

/-! ### A request and its response -/

/-- The decoder gives back a value whose line it reads. -/
structure ReadBack (value : Json) : Prop where
  written : value.Written
  utf8 : isUtf8 (line value) = true
  parsed : parse (line value) = .ok value

/-- A request of a client's call. -/
def IsCall (id : Nat) (request : Json) : Prop :=
  ∃ method params, method ∈ clientMethods ∧ params.isObject = true ∧ request = callRequest id method params

/-- A response that carries the id, with a result or an error. -/
def Responds (id : Nat) (response : Json) : Prop :=
  (∃ result, response = rpcResult (nat id) result)
    ∨ ∃ code message data, response = rpcError (nat id) code message data

theorem get_callRequest (id : Nat) (method : String) (params : Json) :
    (callRequest id method params).get "jsonrpc" = some (.string "2.0")
      ∧ (callRequest id method params).get "id" = some (nat id)
      ∧ (callRequest id method params).get "method" = some (.string method)
      ∧ (callRequest id method params).get "params" = some params := by
  refine ⟨?_, ?_, ?_, ?_⟩ <;> exact Json.get_ordered_of_mem (by simp) (by simp)

theorem requestId_callRequest (id : Nat) (method : String) (params : Json) :
    requestId (callRequest id method params) = nat id := by
  rw [requestId, (get_callRequest id method params).2.1]
  rfl

theorem isVersion2_callRequest (id : Nat) (method : String) (params : Json) :
    isVersion2 (callRequest id method params) = true := by
  rw [isVersion2, (get_callRequest id method params).1]
  rfl

theorem responds_processRequest {id : Nat} {method : String} {params : Json} (hparams : params.isObject = true)
    (result : MethodResult) :
    ∃ response, processRequest result (callRequest id method params) = some response ∧ Responds id response := by
  obtain ⟨-, hid, hmethod, hget⟩ := get_callRequest id method params
  have hversion := isVersion2_callRequest id method params
  have hrequestId := requestId_callRequest id method params
  obtain ⟨fields, hfields⟩ : ∃ fields, callRequest id method params = .object fields := ⟨_, rfl⟩
  rw [hfields] at hid hmethod hget hversion hrequestId ⊢
  have hlookup : fields.lookup "id" = some (nat id) := hid
  simp only [processRequest, hrequestId, hmethod, hversion, hget, hlookup, Option.bind_some, Json.asStr,
    Option.any_some, hparams, Bool.not_true, Bool.false_and, Option.isNone_some, Bool.false_eq_true, if_false]
  cases (if method ∈ methods then result else .error (-32601, "Method not found", none)) with
  | ok value => exact ⟨_, rfl, .inl ⟨value, rfl⟩⟩
  | error error => exact ⟨_, rfl, .inr ⟨error.1, error.2.1, error.2.2, rfl⟩⟩

/-- What becomes of a client's request: a response with its id, or an await with its id. -/
theorem handleLine_call {id : Nat} {request : Json} (hcall : IsCall id request) (hread : ReadBack parse request)
    (results : Nat → Json → MethodResult) (snapshot : Json) :
    (∃ response, handleLine parse api results snapshot (line request) = .reply (some response)
        ∧ Responds id response)
      ∨ handleLine parse api results snapshot (line request) = .pending (nat id) := by
  obtain ⟨method, params, hmember, hparams, rfl⟩ := hcall
  obtain ⟨-, -, hmethod, hget⟩ := get_callRequest id method params
  have hsubscribe : method ≠ "subscribe" := by
    rintro rfl
    exact absurd hmember (by decide)
  rw [handleLine, hread.utf8, hread.parsed]
  simp only [Bool.not_true, Bool.false_eq_true, if_false, handleRequest, hmethod, hget, Option.bind_some, Json.asStr,
    Option.some.injEq, hsubscribe, Option.any_some, hparams, and_true]
  split
  · rw [handleAwait, isVersion2_callRequest, requestId_callRequest]
    simp only [Bool.not_true, Bool.false_eq_true, if_false]
    split
    · exact .inl ⟨_, rfl, .inr ⟨_, _, _, rfl⟩⟩
    · split
      · exact .inl ⟨_, rfl, .inr ⟨_, _, _, rfl⟩⟩
      · exact .inr rfl
  · obtain ⟨response, hresponse, hresponds⟩ := responds_processRequest hparams (results 0 (callRequest id method params))
    refine .inl ⟨response, congrArg Outcome.reply ?_, hresponds⟩
    exact hresponse

theorem isNumber_nat (id : Nat) : ControlClient.isNumber id (nat id) = true := by
  simp [ControlClient.isNumber, nat]

/-- The client takes the result of its call out of the response. -/
theorem receive_result (id : Nat) (result : Json) :
    receive id (rpcResult (nat id) result).canonical = .ok result.canonical := by
  have hversion : isVersion2 (rpcResult (nat id) result).canonical = true := by
    rw [isVersion2, Json.get_canonical]
    rfl
  have hid : ((rpcResult (nat id) result).canonical.get "id").any (ControlClient.isNumber id) = true := by
    rw [Json.get_canonical]
    exact isNumber_nat id
  have hobject : (rpcResult (nat id) result).canonical.isObject = true := by
    rw [rpcResult, Json.canonical]
    rfl
  have herror : (rpcResult (nat id) result).canonical.get "error" = none := by
    rw [Json.get_canonical]
    rfl
  have hresult : (rpcResult (nat id) result).canonical.get "result" = some result.canonical := by
    rw [Json.get_canonical]
    rfl
  simp [receive, hobject, hversion, hid, herror, hresult]

/-- And so it does with the server's error. -/
theorem receive_error (id : Nat) {code : Int} (hlow : -2 ^ 63 ≤ code) (hhigh : code < 2 ^ 63) (message : String)
    (data : Option Json) : receive id (rpcError (nat id) code message data).canonical
      = .error (.server code message (data.map Json.canonical)) := by
  have hversion : isVersion2 (rpcError (nat id) code message data).canonical = true := by
    rw [isVersion2, Json.get_canonical]
    rfl
  have hid : ((rpcError (nat id) code message data).canonical.get "id").any (ControlClient.isNumber id) = true := by
    rw [Json.get_canonical]
    exact isNumber_nat id
  have hobject : (rpcError (nat id) code message data).canonical.isObject = true := by
    rw [rpcError, Json.canonical]
    rfl
  have herror : (rpcError (nat id) code message data).canonical.get "error"
      = some (Json.canonical (.object ([("code", .number (.int code)), ("message", .string message)]
          ++ (data.map fun d => ("data", d)).toList))) := by
    rw [Json.get_canonical]
    rfl
  have hcode : ControlClient.asI64 (.number (.int code)) = some code := by
    rw [ControlClient.asI64, if_pos ⟨hlow, hhigh⟩]
  simp only [receive, hobject, hversion, hid, herror, Bool.true_eq_false, if_false]
  simp only [Json.get_canonical]
  cases data <;> simp [Json.get, List.lookup_cons, Json.canonical, Json.asStr, hcode]

/-! ### What holds of every session -/

namespace Link

/-- What the call of the index returned: that there was no response, and then it is the last one, or what
    the response of the server's exchange of that index amounts to. -/
def Returned (l : Link) (i : Nat) (r : Except CallError Json) : Prop :=
  (∃ error : CallError, error.isLost = true ∧ r = .error error ∧ l.phase = .gone ∧ i + 1 = l.requests.length)
    ∨ ∃ exchange response, l.server.exchanges[i]? = some exchange ∧ exchange.response = some response
      ∧ r = (receive (i + 1) response.canonical).mapError .refused

/-- The request that is made has not been answered: it is on its way to the server, or there. -/
def Outstanding (l : Link) (request : Json) : Prop :=
  l.server.phase = .closed
    ∨ (∃ held, l.server.phase = .reading held ∧ l.server.rest ≠ [] ∧ held ++ l.server.rest = line request)
    ∨ (l.server.rest = [] ∧ l.server.phase = .received (line request))
    ∨ (l.server.rest = [] ∧ l.server.phase = .awaiting (line request) (nat l.requests.length)
      ∧ ∃ results snapshot, handleLine parse api results snapshot (line request) = .pending (nat l.requests.length))

/-- Nothing is on its way to the server, which reads its next request or is gone. -/
def Quiet (l : Link) : Prop :=
  l.server.rest = [] ∧ (l.server.phase = .reading [] ∨ l.server.phase = .closed)

/-- How the two ends stand to each other. -/
def Stage (l : Link) : Prop :=
  match l.phase with
  | .idle =>
    l.returns.length = l.requests.length ∧ l.server.exchanges.length = l.requests.length
      ∧ l.server.output.length = l.taken ∧ l.Quiet
  | .writing todo =>
    ∃ before request, l.requests = before ++ [request] ∧ l.returns.length = before.length
      ∧ l.server.exchanges.length = before.length ∧ l.server.output.length = l.taken ∧ todo ≠ []
      ∧ (l.server.phase = .closed
        ∨ ∃ held, l.server.phase = .reading held ∧ held ++ l.server.rest ++ todo = line request)
  | .waiting got =>
    ∃ before request, l.requests = before ++ [request] ∧ l.returns.length = before.length
      ∧ (l.server.exchanges.length = before.length ∧ l.server.output.length = l.taken ∧ got = []
          ∧ l.Outstanding parse api request
        ∨ ∃ earlier response, l.server.exchanges = earlier ++ [⟨line request, some response⟩]
          ∧ earlier.length = before.length ∧ got ++ l.server.output.drop l.taken = line response.canonical
          ∧ l.taken < l.server.output.length ∧ l.Quiet)
  | .gone =>
    l.returns.length = l.requests.length ∧ l.server.exchanges.length ≤ l.requests.length
      ∧ l.requests.length ≤ l.server.exchanges.length + 1

structure Sane (l : Link) : Prop where
  ids : l.nextId = l.requests.length
  called : ∀ i request, l.requests[i]? = some request → IsCall (i + 1) request
  exchanged : ∀ i exchange, l.server.exchanges[i]? = some exchange → ∃ request response,
    l.requests[i]? = some request ∧ exchange = ⟨line request, some response⟩ ∧ Responds (i + 1) response
      ∧ exchange.IsAnswered parse api
  written : l.server.written = l.server.exchanges.filterMap Exchange.response
  returned : ∀ i r, l.returns[i]? = some r → l.Returned i r
  stage : l.Stage parse api

/-- Everything that was sent over the connection is read back. -/
def Legible (l : Link) : Prop :=
  (∀ request ∈ l.requests, ReadBack parse request)
    ∧ ∀ response ∈ l.server.written, ReadBack parse response.canonical

variable {parse api} {l l' : Link}

theorem sane_start : start.Sane parse api := by
  refine ⟨rfl, ?_, ?_, rfl, ?_, rfl, rfl, rfl, rfl, .inl rfl⟩ <;> simp [start, connect]

theorem getElem?_of_prefix {α : Type} {xs ys : List α} (h : xs <+: ys) {i : Nat} {x : α} (hi : xs[i]? = some x) :
    ys[i]? = some x := by
  obtain ⟨zs, rfl⟩ := h
  rw [List.getElem?_append_left (List.getElem?_eq_some_iff.mp hi).1, hi]

/-- What a call returned stays so, also when there are more exchanges. -/
theorem Returned.keep {i : Nat} {r : Except CallError Json} (h : l.Returned i r) (hphase : l.phase ≠ .gone)
    (hexchanges : l.server.exchanges <+: l'.server.exchanges) : l'.Returned i r := by
  rcases h with ⟨error, -, -, hgone, -⟩ | ⟨exchange, response, hexchange, hresponse⟩
  · exact absurd hgone hphase
  · exact .inr ⟨exchange, response, getElem?_of_prefix hexchanges hexchange, hresponse⟩

/-- A step of the client that makes no call changes no exchange and returns nothing. -/
theorem Sane.move (h : l.Sane parse api) (hphase : l.phase ≠ .gone) (hids : l'.nextId = l.nextId)
    (hrequests : l'.requests = l.requests) (hreturns : l'.returns = l.returns)
    (hexchanges : l'.server.exchanges = l.server.exchanges) (hwritten : l'.server.written = l.server.written)
    (hstage : l'.Stage parse api) : l'.Sane parse api where
  ids := by rw [hids, hrequests, h.ids]
  called := by rw [hrequests]; exact h.called
  exchanged := by rw [hrequests, hexchanges]; exact h.exchanged
  written := by rw [hwritten, hexchanges, h.written]
  returned := by
    rw [hreturns]
    exact fun i r hr => (h.returned i r hr).keep hphase (hexchanges ▸ List.prefix_refl _)
  stage := hstage

theorem Sane.call (h : l.Sane parse api) {method : String} {params : Json}
    (hstep : l.step parse api (.call method params) = some l') : l'.Sane parse api := by
  have hstage := h.stage
  simp only [step] at hstep
  cases hphase : l.phase with
  | idle =>
    simp only [hphase] at hstep
    split at hstep
    · rename_i hvalid
      cases hstep
      simp only [Stage, hphase] at hstage
      obtain ⟨hreturns, hexchanges, houtput, hrest, hserver⟩ := hstage
      have hgone : l.phase ≠ .gone := by simp [hphase]
      refine ⟨?_, ?_, ?_, h.written, fun i r hr => (h.returned i r hr).keep hgone (List.prefix_refl _), ?_⟩
      · rw [List.length_append]
        exact congrArg (· + 1) h.ids
      · intro i request hrequest
        rcases Machine.getElem?_concat_some hrequest with hold | ⟨rfl, rfl⟩
        · exact h.called i request hold
        · exact ⟨method, params, hvalid.1, hvalid.2, by rw [h.ids]⟩
      · intro i exchange hexchange
        obtain ⟨request, response, hrequest, hrest⟩ := h.exchanged i exchange hexchange
        exact ⟨request, response, getElem?_of_prefix (List.prefix_append ..) hrequest, hrest⟩
      · refine ⟨l.requests, _, rfl, hreturns, hexchanges, houtput, by simp [line], ?_⟩
        refine hserver.symm.imp_right fun hserver => ⟨[], hserver, ?_⟩
        rw [hrest]
        rfl
    · cases hstep
  | _ => simp only [hphase] at hstep; cases hstep

theorem Sane.write (h : l.Sane parse api) {n : Nat} (hstep : l.step parse api (.write n) = some l') :
    l'.Sane parse api := by
  have hstage := h.stage
  simp only [step] at hstep
  cases hphase : l.phase with
  | writing todo =>
    simp only [hphase] at hstep
    split at hstep
    · rename_i hn
      cases hstep
      simp only [Stage, hphase] at hstage
      obtain ⟨before, request, hrequests, hreturns, hexchanges, houtput, htodo, hserver⟩ := hstage
      refine h.move (by simp [hphase]) rfl rfl rfl rfl rfl ?_
      by_cases hall : n = todo.length
      · simp only [Stage, if_pos hall]
        refine ⟨before, request, hrequests, hreturns, .inl ⟨hexchanges, houtput, trivial, ?_⟩⟩
        rcases hserver with hclosed | ⟨held, hheld, hline⟩
        · exact .inl hclosed
        · refine .inr (.inl ⟨held, hheld, ?_, ?_⟩)
          · rw [hall, List.take_length]
            exact fun hnil => htodo (List.append_eq_nil_iff.mp hnil).2
          · rw [← List.append_assoc, hall, List.take_length, hline]
      · simp only [Stage, if_neg hall]
        refine ⟨before, request, hrequests, hreturns, hexchanges, houtput, ?_, ?_⟩
        · rw [ne_eq, List.drop_eq_nil_iff]
          omega
        · refine hserver.imp_right ?_
          rintro ⟨held, hheld, hline⟩
          refine ⟨held, hheld, ?_⟩
          rw [← List.append_assoc, List.append_assoc, List.take_append_drop, hline]
    · cases hstep
  | _ => simp only [hphase] at hstep; cases hstep

/-- The response to the outstanding request is written. -/
theorem Sane.answered (h : l.Sane parse api) {before : List Json} {request response : Json}
    (hphase : l.phase = .waiting []) (hrequests : l.requests = before ++ [request])
    (hreturns : l.returns.length = before.length) (hexchanges : l.server.exchanges.length = before.length)
    (houtput : l.server.output.length = l.taken) (hrest : l.server.rest = [])
    (hresponds : Responds (before.length + 1) response)
    (hanswered : Exchange.IsAnswered parse api ⟨line request, some response⟩) :
    { l with server := l.server.finish (line request) (some response) (.reading []) }.Sane parse api := by
  have hwritten : (l.server.finish (line request) (some response) (.reading [])).written
      = l.server.written ++ [response] := rfl
  refine ⟨h.ids, h.called, ?_, ?_, ?_, ?_⟩
  · intro i exchange hexchange
    rcases Machine.getElem?_concat_some hexchange with hold | ⟨rfl, rfl⟩
    · exact h.exchanged i exchange hold
    · refine ⟨request, response, ?_, rfl, ?_, hanswered⟩
      · rw [hrequests, hexchanges, List.getElem?_concat_length]
      · rw [hexchanges]
        exact hresponds
  · rw [hwritten, h.written, Connection.finish, List.filterMap_append]
    rfl
  · exact fun i r hr => (h.returned i r hr).keep (by simp [hphase]) (List.prefix_append ..)
  · simp only [Stage, hphase]
    have hout : (l.server.finish (line request) (some response) (.reading [])).output
        = l.server.output ++ line response.canonical := by
      rw [Connection.output, hwritten, List.flatMap_append, List.flatMap_singleton]
      rfl
    refine ⟨before, request, hrequests, hreturns, .inr ⟨l.server.exchanges, response, rfl, hexchanges, ?_, ?_, hrest,
      .inl rfl⟩⟩
    · rw [hout, ← houtput, List.drop_left, List.nil_append]
    · rw [hout, List.length_append, ← houtput]
      simp [line]

/-- The last read of a request's line completes it, and the reads before it do not. -/
theorem readUntil_line {held piece behind : List UInt8} {request : Json} (hwritten : request.Written)
    (hline : held ++ piece ++ behind = line request) (hpiece : piece ≠ []) :
    readUntil held piece = if behind = [] then .received (line request) else .reading (held ++ piece) := by
  have hopen : ∀ part, newline ∈ part → ¬part <+: request.text := fun part hmem hpart =>
    Json.newline_not_mem_text hwritten (hpart.subset hmem)
  split
  · rename_i hbehind
    subst hbehind
    obtain ⟨before, last, rfl⟩ := (List.eq_nil_or_concat' piece).resolve_left hpiece
    rw [line, List.append_nil, ← List.append_assoc] at hline
    obtain ⟨htext, hlast⟩ := List.append_inj' hline rfl
    cases hlast
    have hbefore : newline ∉ before := fun hmem => hopen (held ++ before) (List.mem_append_right _ hmem) (htext ▸ List.prefix_refl _)
    rw [readUntil_close hbefore held [], htext]
    rfl
  · rename_i hbehind
    refine readUntil_open (fun hmem => hopen (held ++ piece) (List.mem_append_right _ hmem) ?_) held
    have hpart : held ++ piece <+: request.text ++ [newline] := ⟨behind, hline⟩
    refine (List.prefix_concat_iff.mp hpart).resolve_left fun heq => hbehind ?_
    rw [heq, line] at hline
    exact List.append_right_eq_self.mp hline

/-- A server to which nothing is on its way stays so. -/
theorem Quiet.moved (h : l.Quiet) {e : Event} {server : Connection} (hmoved : Moved parse api l.server e server)
    (heof : e ≠ .eof) : server.exchanges = l.server.exchanges ∧ server.written = l.server.written
      ∧ server.rest = [] ∧ (server.phase = .reading [] ∨ server.phase = .closed) := by
  obtain ⟨hrest, hserver⟩ := h
  cases hmoved with
  | read _ hpos hlen =>
    rw [hrest, List.length_nil] at hlen
    omega
  | eof => exact absurd rfl heof
  | fail => exact ⟨rfl, rfl, hrest, .inr rfl⟩
  | quiet => exact ⟨rfl, rfl, hrest, hserver⟩
  | reply hphase | pending hphase | last hphase | probe hphase | settled hphase =>
    rw [hphase] at hserver
    rcases hserver with hserver | hserver <;> cases hserver

/-- A server that has a part of a request goes on reading, unless its connection breaks. -/
theorem reading_moved {c server : Connection} {e : Event} {held : List UInt8} (hheld : c.phase = .reading held)
    (hmoved : Moved parse api c e server) (heof : e ≠ .eof) :
    server.exchanges = c.exchanges ∧ server.written = c.written
      ∧ (server.phase = .closed ∨ server.phase = .reading held ∧ server.rest = c.rest
        ∨ ∃ n, 1 ≤ n ∧ n ≤ c.rest.length ∧ server.rest = c.rest.drop n
          ∧ server.phase = readUntil held (c.rest.take n)) := by
  cases hmoved with
  | read hphase hpos hlen =>
    rw [hheld] at hphase
    cases hphase
    exact ⟨rfl, rfl, .inr (.inr ⟨_, hpos, hlen, rfl, rfl⟩)⟩
  | eof => exact absurd rfl heof
  | fail => exact ⟨rfl, rfl, .inl rfl⟩
  | quiet => exact ⟨rfl, rfl, .inr (.inl ⟨hheld, rfl⟩)⟩
  | reply hphase | pending hphase | last hphase | probe hphase | settled hphase =>
    rw [hheld] at hphase
    cases hphase

theorem closed_moved {c server : Connection} {e : Event} (hclosed : c.phase = .closed)
    (hmoved : Moved parse api c e server) : server = c := by
  cases hmoved with
  | quiet => rfl
  | read hphase | eof hphase | fail hphase | reply hphase | pending hphase | last hphase | probe hphase
  | settled hphase =>
    rw [hclosed] at hphase
    cases hphase

/-- A step of the server that changes no exchange leaves the session sane if the stage stays right. -/
theorem Sane.serverMove (h : l.Sane parse api) (hphase : l.phase ≠ .gone) {server : Connection}
    (hexchanges : server.exchanges = l.server.exchanges) (hwritten : server.written = l.server.written)
    (hstage : { l with server }.Stage parse api) : { l with server }.Sane parse api :=
  h.move hphase rfl rfl rfl hexchanges hwritten hstage

theorem output_eq {c server : Connection} (hwritten : server.written = c.written) : server.output = c.output := by
  rw [Connection.output, Connection.output, hwritten]

theorem Sane.server_writing (h : l.Sane parse api) (hread : ∀ request ∈ l.requests, ReadBack parse request)
    {todo : List UInt8} (hphase : l.phase = .writing todo) {e : Event} {server : Connection}
    (hmoved : Moved parse api l.server e server) (heof : e ≠ .eof) : { l with server }.Sane parse api := by
  have hstage := h.stage
  have hgone : l.phase ≠ .gone := by simp [hphase]
  simp only [Stage, hphase] at hstage
  obtain ⟨before, request, hrequests, hreturns, hexchanges, houtput, htodo, hserver⟩ := hstage
  rcases hserver with hclosed | ⟨held, hheld, hline⟩
  · rw [closed_moved hclosed hmoved]
    exact h
  obtain ⟨hsame, hwritten, hnow⟩ := reading_moved hheld hmoved heof
  refine h.serverMove hgone hsame hwritten ?_
  simp only [Stage, hphase, output_eq hwritten, hsame]
  refine ⟨before, request, hrequests, hreturns, hexchanges, houtput, htodo, ?_⟩
  rcases hnow with hclosed | ⟨hheld', hrest⟩ | ⟨n, hpos, hlen, hrest, hphase'⟩
  · exact .inl hclosed
  · exact .inr ⟨held, hheld', by rw [hrest, hline]⟩
  · have hrequest : request ∈ l.requests := by rw [hrequests]; exact List.mem_concat_self
    have hbehind : l.server.rest.drop n ++ todo ≠ [] := fun hnil => htodo (List.append_eq_nil_iff.mp hnil).2
    have hsplit : held ++ l.server.rest.take n ++ (l.server.rest.drop n ++ todo) = line request := by
      rw [← hline, List.append_assoc, ← List.append_assoc (l.server.rest.take n), List.take_append_drop,
        List.append_assoc]
    have hpiece : l.server.rest.take n ≠ [] := fun hnil => by
      have := congrArg List.length hnil
      rw [List.length_take, List.length_nil] at this
      omega
    rw [readUntil_line (hread request hrequest).written hsplit hpiece, if_neg hbehind] at hphase'
    exact .inr ⟨_, hphase', by rw [hrest, List.append_assoc, ← hsplit, List.append_assoc]⟩

theorem Sane.server_outstanding (h : l.Sane parse api) (hread : ∀ request ∈ l.requests, ReadBack parse request)
    {before : List Json} {request : Json} (hphase : l.phase = .waiting [])
    (hrequests : l.requests = before ++ [request]) (hreturns : l.returns.length = before.length)
    (hexchanges : l.server.exchanges.length = before.length) (houtput : l.server.output.length = l.taken)
    (houtstanding : l.Outstanding parse api request) {e : Event} {server : Connection}
    (hmoved : Moved parse api l.server e server) (heof : e ≠ .eof) (hhangup : ∀ result, e ≠ .hangup result) :
    { l with server }.Sane parse api := by
  have hgone : l.phase ≠ .gone := by simp [hphase]
  have hrequest : request ∈ l.requests := by rw [hrequests]; exact List.mem_concat_self
  have hlength : l.requests.length = before.length + 1 := by rw [hrequests, List.length_append]; rfl
  have hcall : IsCall (before.length + 1) request :=
    h.called before.length request (by rw [hrequests, List.getElem?_concat_length])
  -- as long as there is no exchange for it, the request stays outstanding
  have hstays : server.exchanges = l.server.exchanges → server.written = l.server.written →
      { l with server }.Outstanding parse api request → { l with server }.Sane parse api := by
    intro hsame hwritten hnow
    refine h.serverMove hgone hsame hwritten ?_
    simp only [Stage, hphase, output_eq hwritten, hsame]
    refine ⟨before, request, hrequests, hreturns, .inl ⟨hexchanges, houtput, trivial, ?_⟩⟩
    rw [← hphase]
    exact hnow
  rcases houtstanding with hclosed | ⟨held, hheld, hne, hline⟩ | ⟨hrest, hreceived⟩ | ⟨hrest, hawaiting, hpending⟩
  · rw [closed_moved hclosed hmoved]
    exact h
  · obtain ⟨hsame, hwritten, hnow⟩ := reading_moved hheld hmoved heof
    refine hstays hsame hwritten ?_
    rcases hnow with hclosed | ⟨hheld', hrest⟩ | ⟨n, hpos, hlen, hrest, hphase'⟩
    · exact .inl hclosed
    · exact .inr (.inl ⟨held, hheld', by rw [hrest]; exact hne, by rw [hrest, hline]⟩)
    · have hsplit : held ++ l.server.rest.take n ++ l.server.rest.drop n = line request := by
        rw [List.append_assoc, List.take_append_drop, hline]
      have hpiece : l.server.rest.take n ≠ [] := fun hnil => by
        have := congrArg List.length hnil
        rw [List.length_take, List.length_nil] at this
        omega
      rw [readUntil_line (hread request hrequest).written hsplit hpiece] at hphase'
      split at hphase'
      · rename_i hempty
        exact .inr (.inr (.inl ⟨by rw [hrest, hempty], hphase'⟩))
      · rename_i hmore
        exact .inr (.inl ⟨_, hphase', by rw [hrest]; exact hmore, by rw [hrest, hsplit]⟩)
  · cases hmoved with
    | reply hphase' hreply =>
      rw [hreceived] at hphase'
      cases hphase'
      rcases handleLine_call parse api hcall (hread request hrequest) _ _ with ⟨response, heq, hresponds⟩ | heq
      · rw [heq] at hreply
        cases hreply
        exact h.answered hphase hrequests hreturns hexchanges houtput hrest hresponds ⟨_, _, by rw [heq]⟩
      · rw [heq] at hreply
        cases hreply
    | pending hphase' hpending =>
      rw [hreceived] at hphase'
      cases hphase'
      rcases handleLine_call parse api hcall (hread request hrequest) _ _ with ⟨response, heq, -⟩ | heq
      · rw [heq] at hpending
        cases hpending
      · rw [heq] at hpending
        cases hpending
        refine hstays rfl rfl (.inr (.inr (.inr ⟨hrest, ?_, _, _, heq.trans ?_⟩)))
        · exact congrArg (fun k => Phase.awaiting (line request) (nat k)) hlength.symm
        · exact congrArg (fun k => Outcome.pending (nat k)) hlength.symm
    | last hphase' hlast =>
      rw [hreceived] at hphase'
      cases hphase'
      rcases handleLine_call parse api hcall (hread request hrequest) _ _ with ⟨response, heq, -⟩ | heq <;>
        rw [heq] at hlast <;> cases hlast
    | quiet => exact h
    | eof => exact absurd rfl heof
    | read hphase' | fail hphase' | probe hphase' | settled hphase' =>
      rw [hreceived] at hphase'
      cases hphase'
  · cases hmoved with
    | settled hphase' =>
      rw [hawaiting] at hphase'
      cases hphase'
      obtain ⟨results, snapshot, hpending⟩ := hpending
      rw [hlength]
      refine h.answered hphase hrequests hreturns hexchanges houtput hrest (.inl ⟨_, rfl⟩) ⟨results, snapshot, ?_⟩
      rw [hpending, hlength]
      exact ⟨_, rfl⟩
    | probe hphase' hpos hlen =>
      rw [hrest, List.length_nil] at hlen
      omega
    | quiet => exact h
    | eof => exact absurd rfl heof
    | read hphase' | fail hphase' | reply hphase' | pending hphase' | last hphase' =>
      rw [hawaiting] at hphase'
      cases hphase'

theorem Sane.server (h : l.Sane parse api) (hread : ∀ request ∈ l.requests, ReadBack parse request) {e : Event}
    (hstep : l.step parse api (.server e) = some l') : l'.Sane parse api := by
  obtain ⟨hgone, heof, hhangup, server, hserver, rfl⟩ : l.phase ≠ .gone ∧ e ≠ .eof ∧ (∀ result, e ≠ .hangup result)
      ∧ ∃ server, l.server.step parse api e = some server ∧ l' = { l with server } := by
    simp only [step] at hstep
    split at hstep
    · cases hstep
    · cases hstep
    · cases hstep
    · rename_i heof hhangup hgone
      obtain ⟨server, hserver, rfl⟩ := Option.map_eq_some_iff.mp hstep
      exact ⟨hgone, heof, hhangup, server, hserver, rfl⟩
  have hmoved := step_moved parse api hserver
  have hstage := h.stage
  cases hphase : l.phase with
  | gone => exact absurd hphase hgone
  | idle =>
    simp only [Stage, hphase] at hstage
    obtain ⟨hreturns, hexchanges, houtput, hquiet⟩ := hstage
    obtain ⟨hsame, hwritten, hrest, hserving⟩ := hquiet.moved hmoved heof
    rw [← hphase]
    refine h.serverMove hgone hsame hwritten ?_
    simp only [Stage, hphase, output_eq hwritten, hsame]
    exact ⟨hreturns, hexchanges, houtput, hrest, hserving⟩
  | writing todo =>
    rw [← hphase]
    exact h.server_writing hread hphase hmoved heof
  | waiting got =>
    rw [← hphase]
    simp only [Stage, hphase] at hstage
    obtain ⟨before, request, hrequests, hreturns, hnow⟩ := hstage
    rcases hnow with ⟨hexchanges, houtput, rfl, houtstanding⟩
      | ⟨earlier, response, hexchanges, hearlier, hgot, htaken, hquiet⟩
    · exact h.server_outstanding hread hphase hrequests hreturns hexchanges houtput houtstanding hmoved heof hhangup
    · obtain ⟨hsame, hwritten, hrest, hserving⟩ := hquiet.moved hmoved heof
      refine h.serverMove hgone hsame hwritten ?_
      simp only [Stage, hphase, output_eq hwritten, hsame]
      exact ⟨before, request, hrequests, hreturns,
        .inr ⟨earlier, response, hexchanges, hearlier, hgot, htaken, hrest, hserving⟩⟩

/-- A call returns: the response of the exchange it belongs to, or nothing and the session is over. -/
theorem Sane.returning (h : l.Sane parse api) (hphase : l.phase ≠ .gone) {taken : Nat}
    {r : Except CallError Json} {phase : CallPhase}
    (hreturned : ({ l with taken }.returning r phase).Returned l.returns.length r)
    (hstage : ({ l with taken }.returning r phase).Stage parse api) :
    ({ l with taken }.returning r phase).Sane parse api where
  ids := h.ids
  called := h.called
  exchanged := h.exchanged
  written := h.written
  returned i r' hr := by
    rcases Machine.getElem?_concat_some hr with hold | ⟨rfl, rfl⟩
    · exact (h.returned i r' hold).keep hphase (List.prefix_refl _)
    · exact hreturned
  stage := hstage

theorem Sane.fail (h : l.Sane parse api) {error : Option String}
    (hstep : l.step parse api (.fail error) = some l') : l'.Sane parse api := by
  have hstage := h.stage
  have hlost : ∀ (hphase : l.phase ≠ .gone), l.returns.length + 1 = l.requests.length →
      l.server.exchanges.length ≤ l.requests.length → l.requests.length ≤ l.server.exchanges.length + 1 →
      (l.returning (.error ((error.map .io).getD .timeout)) .gone).Sane parse api := by
    intro hphase hlength hle hge
    refine h.returning hphase (.inl ⟨_, ?_, rfl, rfl, hlength⟩) ?_
    · cases error <;> rfl
    · exact ⟨by rw [Link.returning, List.length_append]; exact hlength, hle, hge⟩
  simp only [step] at hstep
  cases hphase : l.phase with
  | writing todo =>
    simp only [hphase, Option.some.injEq] at hstep
    subst hstep
    simp only [Stage, hphase] at hstage
    obtain ⟨before, request, hrequests, hreturns, hexchanges, -⟩ := hstage
    have hlength : l.requests.length = before.length + 1 := by rw [hrequests, List.length_append]; rfl
    exact hlost (by simp [hphase]) (by omega) (by omega) (by omega)
  | waiting got =>
    simp only [hphase, Option.some.injEq] at hstep
    subst hstep
    simp only [Stage, hphase] at hstage
    obtain ⟨before, request, hrequests, hreturns, hnow⟩ := hstage
    have hlength : l.requests.length = before.length + 1 := by rw [hrequests, List.length_append]; rfl
    have hexchanges : l.server.exchanges.length = before.length ∨ l.server.exchanges.length = before.length + 1 := by
      rcases hnow with ⟨hexchanges, -⟩ | ⟨earlier, response, hexchanges, hearlier, -⟩
      · exact .inl hexchanges
      · exact .inr (by rw [hexchanges, List.length_append, hearlier]; rfl)
    exact hlost (by simp [hphase]) (by omega) (by omega) (by omega)
  | _ => simp only [hphase] at hstep; cases hstep

theorem Sane.disconnect (h : l.Sane parse api) (hstep : l.step parse api .disconnect = some l') :
    l'.Sane parse api := by
  have hstage := h.stage
  simp only [step] at hstep
  cases hphase : l.phase with
  | waiting got =>
    cases hclosed : l.server.phase with
    | closed =>
      simp only [hphase, hclosed] at hstep
      split at hstep
      · rename_i hall
        cases hstep
        simp only [Stage, hphase] at hstage
        obtain ⟨before, request, hrequests, hreturns, hnow⟩ := hstage
        have hlength : l.requests.length = before.length + 1 := by rw [hrequests, List.length_append]; rfl
        rcases hnow with ⟨hexchanges, -, rfl, -⟩ | ⟨earlier, response, -, -, -, htaken, -⟩
        · rw [if_pos rfl]
          refine h.returning (by simp [hphase]) (.inl ⟨_, rfl, rfl, rfl, ?_⟩) ⟨?_, ?_, ?_⟩
          · exact (congrArg (· + 1) hreturns).trans hlength.symm
          · rw [Link.returning, List.length_append]
            exact (congrArg (· + 1) hreturns).trans hlength.symm
          · exact (hexchanges.trans_le (Nat.le_succ _)).trans_eq hlength.symm
          · exact (hlength.trans (congrArg (· + 1) hexchanges.symm)).le
        · omega
      · cases hstep
    | _ => simp only [hphase, hclosed] at hstep; cases hstep
  | _ => simp only [hphase] at hstep; cases hstep

/-- A piece of a line that stands on its last byte ends the line exactly if it is the last piece. -/
theorem getLast?_piece {value : Json} (hwritten : value.Written) {got piece behind : List UInt8}
    (hline : got ++ (piece ++ behind) = line value) (hpiece : piece ≠ []) :
    piece.getLast? = some newline ↔ behind = [] := by
  obtain ⟨before, last, rfl⟩ := (List.eq_nil_or_concat' piece).resolve_left hpiece
  rw [List.getLast?_concat, Option.some.injEq]
  constructor
  · rintro rfl
    rcases List.eq_nil_or_concat' behind with hnil | ⟨others, final, rfl⟩
    · exact hnil
    · rw [line, ← List.append_assoc, ← List.append_assoc] at hline
      obtain ⟨htext, -⟩ := List.append_inj' hline rfl
      refine absurd ?_ (Json.newline_not_mem_text hwritten)
      rw [← htext]
      simp
  · rintro rfl
    rw [List.append_nil, line, ← List.append_assoc] at hline
    exact (List.cons.inj (List.append_inj' hline rfl).2).1

theorem Sane.read (h : l.Sane parse api) {n : Nat}
    (hread : ∀ response ∈ l.server.written, ReadBack parse response.canonical)
    (hstep : l.step parse api (.read n) = some l') : l'.Sane parse api := by
  have hstage := h.stage
  simp only [step] at hstep
  cases hphase : l.phase with
  | waiting got =>
    have hgone : l.phase ≠ .gone := by simp [hphase]
    simp only [hphase] at hstep
    split at hstep
    · rename_i hn
      obtain ⟨hpos, hlen, -⟩ := hn
      simp only [Stage, hphase] at hstage
      obtain ⟨before, request, hrequests, hreturns, hnow⟩ := hstage
      have hlength : l.requests.length = before.length + 1 := by rw [hrequests, List.length_append]; rfl
      rcases hnow with ⟨-, houtput, -⟩ | ⟨earlier, response, hexchanges, hearlier, hgot, htaken, hquiet⟩
      · omega
      have hresponse : ReadBack parse response.canonical := by
        refine hread response ?_
        rw [h.written, hexchanges, List.filterMap_append]
        exact List.mem_append_right _ (List.mem_singleton.mpr rfl)
      have hpieces : (l.server.output.drop l.taken).take n ++ l.server.output.drop (l.taken + n)
          = l.server.output.drop l.taken := by
        rw [← List.drop_drop, List.take_append_drop]
      have hpiece : (l.server.output.drop l.taken).take n ≠ [] := fun hnil => by
        have := congrArg List.length hnil
        rw [List.length_take, List.length_drop, List.length_nil] at this
        omega
      rw [← hpieces] at hgot
      have hends := getLast?_piece hresponse.written hgot hpiece
      split at hstep
      · rename_i hlast
        have hbehind := hends.mp hlast
        rw [hbehind, List.append_nil] at hgot
        have hindex : before.length = l.returns.length := hreturns.symm
        cases hstep
        refine h.returning hgone (.inr ⟨⟨line request, some response⟩, response, ?_, rfl, ?_⟩) ⟨?_, ?_, ?_, hquiet⟩
        · rw [← hindex, ← hearlier]
          exact (congrArg (·[earlier.length]?) hexchanges).trans List.getElem?_concat_length
        · rw [answer, hgot, hresponse.utf8, hresponse.parsed, h.ids, hlength, hindex]
          rfl
        · rw [Link.returning, List.length_append]
          exact (congrArg (· + 1) hreturns).trans hlength.symm
        · refine (congrArg List.length hexchanges).trans ?_
          rw [List.length_append, hearlier]
          exact hlength.symm
        · exact Nat.le_antisymm (List.drop_eq_nil_iff.mp hbehind) hlen
      · rename_i hlast
        cases hstep
        refine h.move hgone rfl rfl rfl rfl rfl ?_
        simp only [Stage]
        refine ⟨before, request, hrequests, hreturns,
          .inr ⟨earlier, response, hexchanges, hearlier, ?_, ?_, hquiet⟩⟩
        · rw [List.append_assoc, hgot]
        · exact lt_of_le_of_ne hlen fun heq => hlast (hends.mpr (List.drop_eq_nil_iff.mpr heq.ge))
    · cases hstep
  | _ => simp only [hphase] at hstep; cases hstep

theorem sane_step (h : l.Sane parse api) (hlegible : l.Legible parse) {label : LinkLabel}
    (hstep : l.step parse api label = some l') : l'.Sane parse api := by
  cases label with
  | call method params => exact h.call hstep
  | write n => exact h.write hstep
  | server e => exact h.server hlegible.1 hstep
  | read n => exact h.read hlegible.2 hstep
  | fail error => exact h.fail hstep
  | disconnect => exact h.disconnect hstep

theorem moved_written {c server : Connection} {e : Event} (hmoved : Moved parse api c e server) :
    c.written <+: server.written := by
  cases hmoved with
  | read | eof | fail | pending | quiet => exact List.prefix_refl _
  | reply | last | probe | settled => exact List.prefix_append ..

/-- What has been sent stays sent. -/
theorem step_sends {label : LinkLabel} (hstep : l.step parse api label = some l') :
    l.requests <+: l'.requests ∧ l.server.written <+: l'.server.written := by
  have hsame : l.requests <+: l.requests ∧ l.server.written <+: l.server.written :=
    ⟨List.prefix_refl _, List.prefix_refl _⟩
  cases label <;> simp only [step] at hstep
  case server e =>
    split at hstep
    case h_4 =>
      obtain ⟨server, hserver, rfl⟩ := Option.map_eq_some_iff.mp hstep
      exact ⟨List.prefix_refl _, moved_written (step_moved parse api hserver)⟩
    all_goals cases hstep
  case call =>
    split at hstep
    · split at hstep
      · cases hstep
        exact ⟨List.prefix_append .., List.prefix_refl _⟩
      · cases hstep
    · cases hstep
  case write =>
    split at hstep
    · split at hstep
      · cases hstep
        exact hsame
      · cases hstep
    · cases hstep
  case read =>
    split at hstep
    · split at hstep
      · split at hstep <;> cases hstep <;> exact hsame
      · cases hstep
    · cases hstep
  case fail => split at hstep <;> cases hstep <;> exact hsame
  case disconnect =>
    split at hstep
    · split at hstep <;> cases hstep
      exact hsame
    · cases hstep

theorem legible_of_step {label : LinkLabel} (hstep : l.step parse api label = some l') (h : l'.Legible parse) :
    l.Legible parse := by
  obtain ⟨hrequests, hwritten⟩ := step_sends hstep
  exact ⟨fun request hrequest => h.1 request (hrequests.subset hrequest),
    fun response hresponse => h.2 response (hwritten.subset hresponse)⟩

theorem sane_run (labels : List LinkLabel) {l : Link} (hrun : Machine.after (step parse api) start labels = some l)
    (hlegible : l.Legible parse) : l.Sane parse api := by
  have hinv : l.Legible parse → l.Sane parse api :=
    Machine.invariant (step parse api) (I := fun l => l.Legible parse → l.Sane parse api)
      (fun l label l' hsane _ hstep hlegible => sane_step (hsane (legible_of_step hstep hlegible))
        (legible_of_step hstep hlegible) hstep)
      labels start l (fun _ => sane_start) (Machine.meets_true _ labels start) hrun
  exact hinv hlegible

/-- What the server answered to the call of the index is what the call returns: the result, or the error
    (with a code the client can hold). -/
def Delivered (id : Nat) (response : Option Json) (r : Except CallError Json) : Prop :=
  (∃ result, response = some (rpcResult (nat id) result) ∧ r = .ok result.canonical)
    ∨ ∃ code message data, response = some (rpcError (nat id) code message data)
      ∧ (-2 ^ 63 ≤ code → code < 2 ^ 63 → r = .error (.refused (.server code message (data.map Json.canonical))))

theorem delivered_of_responds {id : Nat} {response : Json} (h : Responds id response) :
    Delivered id (some response) ((receive id response.canonical).mapError .refused) := by
  rcases h with ⟨result, rfl⟩ | ⟨code, message, data, rfl⟩
  · exact .inl ⟨result, rfl, by rw [receive_result]; rfl⟩
  · exact .inr ⟨code, message, data, rfl, fun hlow hhigh => by rw [receive_error id hlow hhigh]; rfl⟩

theorem Sane.at_most_one_open (h : l.Sane parse api) : l.requests.length ≤ l.server.exchanges.length + 1 := by
  have hstage := h.stage
  have hlast : ∀ {before : List Json} {request : Json}, l.requests = before ++ [request] →
      before.length ≤ l.server.exchanges.length → l.requests.length ≤ l.server.exchanges.length + 1 := by
    intro before request hrequests hle
    rw [hrequests, List.length_append]
    exact Nat.succ_le_succ hle
  cases hphase : l.phase <;> simp only [Stage, hphase] at hstage
  case idle => omega
  case gone => exact hstage.2.2
  case writing =>
    obtain ⟨before, request, hrequests, -, hexchanges, -⟩ := hstage
    exact hlast hrequests hexchanges.ge
  case waiting =>
    obtain ⟨before, request, hrequests, -, hnow⟩ := hstage
    refine hlast hrequests ?_
    rcases hnow with ⟨hexchanges, -⟩ | ⟨earlier, response, hexchanges, hearlier, -⟩
    · exact hexchanges.ge
    · rw [hexchanges, List.length_append, hearlier]
      exact Nat.le_add_right ..

/-- In every session of a client that stops at its first lost call, and over which everything is read back, the
    server handles the requests of the client's calls whole, once and in their order, all of them but at
    most the last; and every call but a last one without response returns what the server answered to it. -/
theorem calls_answered (labels : List LinkLabel) (l : Link) (hrun : Machine.after (step parse api) start labels = some l)
    (hlegible : l.Legible parse) :
    l.server.exchanges.map Exchange.request <+: l.requests.map line
    ∧ l.requests.length ≤ l.server.exchanges.length + 1
    ∧ ∀ i r, l.returns[i]? = some r →
        (∃ error : CallError, error.isLost = true ∧ r = .error error ∧ i + 1 = l.requests.length)
        ∨ ∃ exchange, l.server.exchanges[i]? = some exchange ∧ exchange.IsAnswered parse api
          ∧ Delivered (i + 1) exchange.response r := by
  have h := sane_run labels hrun hlegible
  refine ⟨?_, h.at_most_one_open, ?_⟩
  · rw [List.prefix_iff_getElem?]
    intro i hi
    rw [List.length_map] at hi
    obtain ⟨request, response, hrequest, hexchange, -⟩ := h.exchanged i _ (List.getElem?_eq_getElem hi)
    rw [List.getElem?_map, hrequest, List.getElem_map, hexchange]
    rfl
  · intro i r hr
    rcases h.returned i r hr with ⟨error, hlost, rfl, -, hlast⟩ | ⟨exchange, response, hexchange, hresponse, rfl⟩
    · exact .inl ⟨error, hlost, rfl, hlast⟩
    · obtain ⟨request, response', -, rfl, hresponds, hanswered⟩ := h.exchanged i exchange hexchange
      cases hresponse
      exact .inr ⟨_, hexchange, hanswered, delivered_of_responds hresponds⟩

/-! ### A call that waits can return -/

variable (parse api) in
/-- Byte by byte the client comes to the end of what is written. -/
theorem read_returns : ∀ (m : Nat) (l : Link) (got : List UInt8), l.phase = .waiting got →
    l.server.output.length = l.taken + m + 1 → l.server.output.getLast? = some newline →
    ∃ labels l', Machine.after (step parse api) l labels = some l' ∧ l'.phase = .idle
      ∧ l'.returns.length = l.returns.length + 1 := by
  intro m
  induction m with
  | zero =>
    intro l got hphase hlength hlast
    have hpiece : (l.server.output.drop l.taken).take 1 = [newline] := by
      obtain ⟨before, hbefore⟩ := List.getLast?_eq_some_iff.mp hlast
      have htaken : before.length = l.taken := by
        rw [hbefore, List.length_append] at hlength
        exact Nat.succ.inj hlength
      rw [hbefore, ← htaken, List.drop_left]
      rfl
    have hstep : l.step parse api (.read 1) = some ({ l with taken := l.taken + 1 }.returning
        (answer parse l.nextId (got ++ [newline])) .idle) := by
      simp [step, hphase, hpiece, hlength]
    refine ⟨[.read 1], _, by rw [Machine.after, hstep]; rfl, rfl, ?_⟩
    rw [Link.returning, List.length_append]
    rfl
  | succ m ih =>
    intro l got hphase hlength hlast
    obtain ⟨b, hpiece⟩ : ∃ b, (l.server.output.drop l.taken).take 1 = [b] := by
      rw [← List.length_eq_one_iff, List.length_take, List.length_drop]
      omega
    by_cases hb : b = newline
    · have hstep : l.step parse api (.read 1) = some ({ l with taken := l.taken + 1 }.returning
          (answer parse l.nextId (got ++ [b])) .idle) := by
        simp [step, hphase, hpiece, hlength, hb]
      refine ⟨[.read 1], _, by rw [Machine.after, hstep]; rfl, rfl, ?_⟩
      rw [Link.returning, List.length_append]
      rfl
    · have hstep : l.step parse api (.read 1)
          = some { l with taken := l.taken + 1, phase := .waiting (got ++ [b]) } := by
        simp [step, hphase, hpiece, hlength, hb]
      obtain ⟨labels, l', hafter, hresult⟩ := ih { l with taken := l.taken + 1, phase := .waiting (got ++ [b]) } _ rfl
        (hlength.trans (by omega : l.taken + (m + 1) + 1 = l.taken + 1 + m + 1)) hlast
      exact ⟨.read 1 :: labels, l', by rw [Machine.after, hstep]; exact hafter, hresult⟩

/-- An event of the server's own, not the client's leaving. -/
def isOwn : Event → Bool
  | .eof | .hangup _ => false
  | _ => true

theorem step_server {e : Event} {server : Connection} {got : List UInt8} (hphase : l.phase = .waiting got)
    (hserver : l.server.step parse api e = some server) (hown : isOwn e = true) :
    l.step parse api (.server e) = some { l with server } := by
  cases e with
  | eof | hangup result => cases hown
  | _ => simp only [step, hphase, hserver]; rfl

variable (parse api) in
/-- Byte by byte the server comes to the end of the request. -/
theorem server_reads {request : Json} (hwritten : request.Written) : ∀ (rest : List UInt8) (l : Link)
    (held : List UInt8), l.phase = .waiting [] → l.server.phase = .reading held → l.server.rest = rest → rest ≠ [] →
    held ++ rest = line request →
    ∃ labels server, Machine.after (step parse api) l labels = some { l with server }
      ∧ server.phase = .received (line request) ∧ server.written = l.server.written := by
  intro rest
  induction rest with
  | nil => exact fun _ _ _ _ _ hne => absurd rfl hne
  | cons b rest ih =>
    intro l held hphase hheld hrest _ hline
    have hnext : readUntil held [b] = if rest = [] then .received (line request) else .reading (held ++ [b]) :=
      readUntil_line hwritten (by rw [List.append_assoc]; exact hline) (List.cons_ne_nil b [])
    have hread : l.server.step parse api (.read 1)
        = some { l.server.take 1 with phase := readUntil held [b] } := by
      simp [Connection.step, hheld, hrest, bufferSize]
    have hstep := step_server hphase hread rfl
    by_cases hempty : rest = []
    · rw [hnext, if_pos hempty] at hstep
      exact ⟨[.server (.read 1)], { l.server.take 1 with phase := .received (line request) },
        by rw [Machine.after, hstep]; rfl, rfl, rfl⟩
    · rw [hnext, if_neg hempty] at hstep
      have htake : (l.server.take 1).rest = rest := by rw [Connection.take, hrest]; rfl
      obtain ⟨labels, server, hafter, hserver⟩ := ih
        { l with server := { l.server.take 1 with phase := .reading (held ++ [b]) } } (held ++ [b]) hphase rfl htake
        hempty (by rw [List.append_assoc]; exact hline)
      exact ⟨.server (.read 1) :: labels, server, by rw [Machine.after, hstep]; exact hafter, hserver⟩

/-- Once it has the request, the server can write a response. -/
theorem server_writes (api : Api) {id : Nat} {request : Json} (hcall : IsCall id request)
    (hread : ReadBack parse request) (l : Link) (hphase : l.phase = .waiting [])
    (hserver : l.server.phase = .received (line request) ∨ ∃ id, l.server.phase = .awaiting (line request) id) :
    ∃ labels server response, Machine.after (step parse api) l labels = some { l with server }
      ∧ server.written = l.server.written ++ [response] := by
  have hsettles : ∀ (l : Link) (id : Json), l.phase = .waiting [] → l.server.phase = .awaiting (line request) id →
      ∃ server, l.step parse api (.server (.settle .null)) = some { l with server }
        ∧ server.written = l.server.written ++ [rpcResult id .null] := by
    intro l id hphase hawaiting
    have hsettle : l.server.step parse api (.settle .null)
        = some (l.server.finish (line request) (some (rpcResult id .null)) (.reading [])) := by
      simp [Connection.step, hawaiting]
    exact ⟨_, step_server hphase hsettle rfl, rfl⟩
  rcases hserver with hreceived | ⟨id', hawaiting⟩
  · rcases handleLine_call parse api hcall hread (fun _ _ => .ok .null) .null with ⟨response, hreply, -⟩ | hpending
    · have hhandle : l.server.step parse api (.handle (fun _ _ => .ok .null) .null)
          = some (l.server.finish (line request) (some response) (.reading [])) := by
        simp [Connection.step, hreceived, hreply]
      exact ⟨[.server (.handle (fun _ _ => .ok .null) .null)], _, response,
        by rw [Machine.after, step_server hphase hhandle rfl]; rfl, rfl⟩
    · have hhandle : l.server.step parse api (.handle (fun _ _ => .ok .null) .null)
          = some { l.server with phase := .awaiting (line request) (nat id) } := by
        simp [Connection.step, hreceived, hpending]
      obtain ⟨server, hsettle, hwritten⟩ :=
        hsettles { l with server := { l.server with phase := .awaiting (line request) (nat id) } } _ hphase rfl
      refine ⟨[.server (.handle (fun _ _ => .ok .null) .null), .server (.settle .null)], server, _, ?_, hwritten⟩
      rw [Machine.after, step_server hphase hhandle rfl, Option.bind_some, Machine.after, hsettle]
      rfl
  · obtain ⟨server, hsettle, hwritten⟩ := hsettles l id' hphase hawaiting
    exact ⟨[.server (.settle .null)], server, _, by rw [Machine.after, hsettle]; rfl, hwritten⟩

/-- No such session is stuck: while no call has been lost, everything sent is read back and the server serves
    the connection, a call that waits can still return with a response. -/
theorem can_return (labels : List LinkLabel) (l : Link) (got : List UInt8)
    (hrun : Machine.after (step parse api) start labels = some l) (hlegible : l.Legible parse)
    (hphase : l.phase = .waiting got) (hserving : l.server.phase ≠ .closed) :
    ∃ more l', Machine.after (step parse api) l more = some l' ∧ l'.phase = .idle
      ∧ l'.returns.length = l.returns.length + 1 := by
  have h := sane_run labels hrun hlegible
  have hstage := h.stage
  simp only [Stage, hphase] at hstage
  obtain ⟨before, request, hrequests, -, hnow⟩ := hstage
  have hread : ReadBack parse request := hlegible.1 request (by rw [hrequests]; exact List.mem_concat_self)
  have hcall : IsCall (before.length + 1) request :=
    h.called before.length request (by rw [hrequests, List.getElem?_concat_length])
  rcases hnow with ⟨-, houtput, rfl, houtstanding⟩ | ⟨earlier, response, -, -, hgot, htaken, -⟩
  · have hwrites : ∀ (more : List LinkLabel) (server : Connection),
        Machine.after (step parse api) l more = some { l with server } → server.written = l.server.written →
        (server.phase = .received (line request) ∨ ∃ id, server.phase = .awaiting (line request) id) →
        ∃ more l', Machine.after (step parse api) l more = some l' ∧ l'.phase = .idle
          ∧ l'.returns.length = l.returns.length + 1 := by
      intro more server hmore hsame hserver
      obtain ⟨next, server', response, hnext, hwritten⟩ :=
        server_writes api hcall hread { l with server } hphase hserver
      have hout : server'.output = l.server.output ++ response.canonical.text ++ [newline] := by
        rw [Connection.output, hwritten]
        change (server.written ++ [response]).flatMap _ = _
        rw [hsame, List.flatMap_append, List.flatMap_singleton, line, ← List.append_assoc]
        rfl
      obtain ⟨last, l', hlast, hresult⟩ := read_returns parse api response.canonical.text.length
        { l with server := server' } [] hphase
        (by rw [hout, List.length_append, List.length_append, houtput]; rfl) (by rw [hout, List.getLast?_concat])
      refine ⟨more ++ (next ++ last), l', ?_, hresult⟩
      rw [Machine.after_append, hmore, Option.bind_some, Machine.after_append, hnext, Option.bind_some, hlast]
    rcases houtstanding with hclosed | ⟨held, hheld, hne, hline⟩ | ⟨-, hreceived⟩ | ⟨-, hawaiting, -⟩
    · exact absurd hclosed hserving
    · obtain ⟨more, server, hmore, hreceived, hsame⟩ :=
        server_reads parse api hread.written l.server.rest l held hphase hheld rfl hne hline
      exact hwrites more server hmore hsame (.inl hreceived)
    · exact hwrites [] l.server rfl rfl (.inl hreceived)
    · exact hwrites [] l.server rfl rfl (.inr ⟨_, hawaiting⟩)
  · have hlength : l.server.output.length = l.taken + (l.server.output.length - l.taken - 1) + 1 := by omega
    refine read_returns parse api _ l got hphase hlength ?_
    have hdrop : l.server.output.drop l.taken ≠ [] := by
      rw [ne_eq, List.drop_eq_nil_iff]
      omega
    rw [← List.take_append_drop l.taken l.server.output, List.getLast?_append_of_ne_nil _ hdrop,
      ← List.getLast?_append_of_ne_nil got hdrop, hgot, line, List.getLast?_concat]

/-! ### One call -/

def statusRequest : Json := callRequest 1 "status" (.object [])

def statusResponse : Json := rpcResult (nat 1) .null

/-- A decoder of these two lines. -/
def decodeStatus (bytes : List UInt8) : Except String Json :=
  if bytes = line statusRequest then .ok statusRequest
  else if bytes = line statusResponse.canonical then .ok statusResponse.canonical
  else .error "expected value at line 1 column 1"

theorem readBack_statusRequest : ReadBack decodeStatus statusRequest where
  written := Json.written_ordered (by simp [nat, Json.Written, Number.Written, Json.WrittenFields])
  utf8 := by decide +kernel
  parsed := if_pos rfl

theorem readBack_statusResponse : ReadBack decodeStatus statusResponse.canonical where
  written := by
    have hfields : statusResponse.canonical
        = .object [("id", nat 1), ("jsonrpc", .string "2.0"), ("result", .null)] := by rfl
    rw [hfields]
    simp [nat, Json.Written, Number.Written, Json.WrittenFields]
  utf8 := by decide +kernel
  parsed := by
    rw [decodeStatus, if_neg (by decide +kernel), if_pos rfl]

/-- The client asks for the status, and the server answers null. -/
def statusLabels : List LinkLabel :=
  [.call "status" (.object []), .write 55, .server (.read 55), .server (.handle (fun _ _ => .ok .null) .null),
    .read 39]

def statusAsked : Link :=
  { start with server := connect (line statusRequest), phase := .waiting [], nextId := 1
               requests := [statusRequest] }

def statusAnswered : Link :=
  { statusAsked with
      server := { connect [] with seen := line statusRequest
                                  exchanges := [⟨line statusRequest, some statusResponse⟩]
                                  written := [statusResponse] } }

theorem length_statusRequest : (line statusRequest).length = 55 := by decide +kernel

theorem status_asked : Machine.after (step decodeStatus fullApi) start (statusLabels.take 2) = some statusAsked := by
  have hcall : start.step decodeStatus fullApi (.call "status" (.object []))
      = some { start with phase := .writing (line statusRequest), nextId := 1, requests := [statusRequest] } :=
    rfl
  have hwrite : step decodeStatus fullApi
      { start with phase := .writing (line statusRequest), nextId := 1, requests := [statusRequest] } (.write 55)
      = some statusAsked := by
    have hline : line statusRequest ≠ [] := by simp [line]
    simp [step, statusAsked, start, connect, ← length_statusRequest, hline]
  rw [statusLabels, List.take_succ_cons, Machine.after, hcall, Option.bind_some, List.take_succ_cons, Machine.after,
    hwrite]
  rfl

theorem status_answered :
    Machine.after (step decodeStatus fullApi) statusAsked (statusLabels.drop 2)
      = some ({ statusAnswered with taken := 39 }.returning
          (answer decodeStatus 1 (line statusResponse.canonical)) .idle) := by
  have hread : statusAsked.step decodeStatus fullApi (.server (.read 55))
      = some { statusAsked with server := { connect [] with seen := line statusRequest
                                                            phase := .received (line statusRequest) } } := by
    have hserver : statusAsked.server.step decodeStatus fullApi (.read 55)
        = some { connect [] with seen := line statusRequest, phase := .received (line statusRequest) } := by
      have hbound : 1 ≤ (line statusRequest).length ∧ (line statusRequest).length ≤ 8192 := by
        rw [length_statusRequest]
        decide
      have hreceived : readUntil [] (line statusRequest) = .received (line statusRequest) :=
        readUntil_line readBack_statusRequest.written (List.append_nil _) (by simp)
      simp [Connection.step, statusAsked, connect, Connection.take, bufferSize, ← length_statusRequest, hbound,
        hreceived]
    exact step_server rfl hserver rfl
  have hhandle : step decodeStatus fullApi
      { statusAsked with server := { connect [] with seen := line statusRequest
                                                     phase := .received (line statusRequest) } }
      (.server (.handle (fun _ _ => .ok .null) .null)) = some statusAnswered := by
    have hline : handleLine decodeStatus fullApi (fun _ _ => .ok .null) .null (line statusRequest)
        = .reply (some statusResponse) := by
      rw [handleLine, readBack_statusRequest.utf8, readBack_statusRequest.parsed]
      rfl
    refine step_server rfl ?_ rfl
    simp only [Connection.step, hline]
    rfl
  have hanswer : statusAnswered.step decodeStatus fullApi (.read 39)
      = some ({ statusAnswered with taken := 39 }.returning
          (answer decodeStatus 1 (line statusResponse.canonical)) .idle) := by
    have hlength : (line statusResponse.canonical).length = 39 := by decide +kernel
    have houtput : statusAnswered.server.output = line statusResponse.canonical := List.append_nil _
    have hopen : newline ∉ (line statusResponse.canonical).dropLast := by
      rw [line, List.dropLast_concat]
      exact Json.newline_not_mem_text readBack_statusResponse.written
    have hlast : (line statusResponse.canonical).getLast? = some newline := List.getLast?_concat
    have htake : ((line statusResponse.canonical).drop 0).take 39 = line statusResponse.canonical := by
      rw [List.drop_zero, ← hlength, List.take_length]
    have hphase : statusAnswered.phase = .waiting [] := rfl
    have htaken : statusAnswered.taken = 0 := rfl
    simp only [step, hphase, htaken, houtput, htake]
    rw [if_pos ⟨by decide, by rw [hlength], hopen⟩, if_pos hlast]
    rfl
  rw [statusLabels, List.drop_succ_cons, List.drop_succ_cons, List.drop_zero, Machine.after, hread, Option.bind_some,
    Machine.after, hhandle, Option.bind_some, Machine.after, hanswer]
  rfl

theorem legible_status {l : Link} (hrequests : l.requests = [statusRequest])
    (hwritten : l.server.written = [] ∨ l.server.written = [statusResponse]) : l.Legible decodeStatus := by
  refine ⟨fun request hrequest => ?_, fun response hresponse => ?_⟩
  · rw [hrequests, List.mem_singleton] at hrequest
    exact hrequest ▸ readBack_statusRequest
  · rcases hwritten with hwritten | hwritten
    · rw [hwritten] at hresponse
      exact absurd hresponse List.not_mem_nil
    · rw [hwritten, List.mem_singleton] at hresponse
      exact hresponse ▸ readBack_statusResponse

/-- The call returns null, as the server answered. -/
theorem calls_answered_status : ∃ exchange, statusAnswered.server.exchanges[0]? = some exchange
    ∧ exchange.IsAnswered decodeStatus fullApi
    ∧ Delivered 1 exchange.response (answer decodeStatus 1 (line statusResponse.canonical)) := by
  have hrun : Machine.after (step decodeStatus fullApi) start (statusLabels.take 2 ++ statusLabels.drop 2)
      = some ({ statusAnswered with taken := 39 }.returning
          (answer decodeStatus 1 (line statusResponse.canonical)) .idle) := by
    rw [Machine.after_append, status_asked, Option.bind_some, status_answered]
  obtain ⟨-, -, hreturns⟩ := calls_answered _ _ hrun (legible_status rfl (.inr rfl))
  rcases hreturns 0 _ rfl with ⟨error, hlost, herror, -⟩ | hanswered
  · rw [answer, readBack_statusResponse.utf8, readBack_statusResponse.parsed] at herror
    rw [show statusResponse.canonical = (rpcResult (nat 1) .null).canonical from rfl] at herror
    simp [receive_result, Except.mapError] at herror
  · exact hanswered

/-- When the request has been written, the call can still return. -/
theorem can_return_status : ∃ more l', Machine.after (step decodeStatus fullApi) statusAsked more = some l'
    ∧ l'.phase = .idle ∧ l'.returns.length = 1 :=
  can_return (statusLabels.take 2) statusAsked [] status_asked (legible_status rfl (.inl rfl)) rfl fun h => by cases h

end Link
end Control
end Funzzy
