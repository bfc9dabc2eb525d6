import Mathlib.Algebra.Order.Ring.Int
import Mathlib.Data.List.Basic

/-! The control socket's JSON-RPC dispatcher (`control.rs`): from one decoded request to its response.

    What a method computes (`status_result`, `run_requested_target` and the others) reads the shared
    watcher state, which other threads change, so it is an argument of the dispatcher: `results i v` is
    what the method of the `i`-th element of the payload gives at that moment. -/

namespace Funzzy

namespace Control

/-- `serde_json::Number`: an integer, or anything else with the text it was written with. -/
inductive Number where
  | int (value : Int)
  | float (text : String)
  deriving DecidableEq

/-- `serde_json::Value`. -/
inductive Json where
  | null
  | bool (value : Bool)
  | number (value : Number)
  | string (value : String)
  | array (elements : List Json)
  | object (fields : List (String × Json))

namespace Json

/-- `Value::get` with a key: a field of an object. -/
def get (key : String) : Json → Option Json
  | .object fields => fields.lookup key
  | _ => none

def asStr : Json → Option String
  | .string value => some value
  | _ => none

/-- `Value::as_u64`: an integer that a `u64` holds. -/
def asU64 : Json → Option Nat
  | .number (.int value) => if 0 ≤ value ∧ value < 2 ^ 64 then some value.toNat else none
  | _ => none

def isObject : Json → Bool
  | .object _ => true
  | _ => false

def isArray : Json → Bool
  | .array _ => true
  | _ => false

/-- What a request's `id` may be. -/
def isId : Json → Bool
  | .null | .string _ | .number _ => true
  | _ => false

end Json

/-- `request_id`: the request's own id when it is null, a string or a number, and null otherwise. -/
def requestId (request : Json) : Json :=
  ((request.get "id").filter Json.isId).getD .null

/-- `request.get("jsonrpc") == Some("2.0")` -/
def isVersion2 (request : Json) : Bool :=
  (request.get "jsonrpc").bind Json.asStr == some "2.0"

/-- `rpc_error` -/
def rpcError (id : Json) (code : Int) (message : String) (data : Option Json) : Json :=
  .object [("jsonrpc", .string "2.0"), ("id", id),
    ("error", .object ([("code", .number (.int code)), ("message", .string message)]
      ++ (data.map fun d => ("data", d)).toList))]

/-- A response that carries a result. -/
def rpcResult (id result : Json) : Json :=
  .object [("jsonrpc", .string "2.0"), ("id", id), ("result", result)]

/-! ### The dispatcher -/

/-- What a method gives: its result, or the code, message and data of its error. -/
abbrev MethodResult := Except (Int × String × Option Json) Json

/-- The methods `process_request` knows. -/
def methods : List String :=
  ["status", "targets", "run", "emit", "cancel", "output", "config", "capabilities"]

/-- `process_request`, with what the request's method gives. A request without an id is a notification:
    its method runs and nothing is sent back. -/
def processRequest (result : MethodResult) (request : Json) : Option Json :=
  let id := requestId request
  match request with
  | .object fields =>
    match (request.get "method").bind Json.asStr with
    | none => some (rpcError id (-32600) "Invalid Request" none)
    | some method =>
      if !isVersion2 request then some (rpcError id (-32600) "Invalid Request" none)
      else if ((request.get "params").any fun params => !params.isObject && !params.isArray) then
        some (rpcError id (-32602) "Invalid params" none)
      else if (fields.lookup "id").isNone then none
      else
        some <| match if method ∈ methods then result else .error (-32601, "Method not found", none) with
          | .ok value => rpcResult id value
          | .error (code, message, data) => rpcError id code message data
  | _ => some (rpcError id (-32600) "Invalid Request" none)

/-- `process_payload`: a batch is answered by the array of its elements' responses. -/
def processPayload (results : Nat → Json → MethodResult) : Json → Option Json
  | .array requests =>
    if requests.isEmpty then some (rpcError .null (-32600) "Invalid Request" none)
    else
      let responses := (requests.zipIdx.filterMap fun (request, i) =>
        processRequest (results i request) request)
      if responses.isEmpty then none else some (.array responses)
  | request => processRequest (results 0 request) request

/-! ### `await` -/

/-- `AwaitMode` of an await request. -/
inductive AwaitParams where
  | after (generation timeoutMs : Nat)
  | exact (generation timeoutMs : Nat)
  deriving DecidableEq

/-- `await_params`: exactly one of `after` and `generation`, with a positive `timeoutMs`. -/
def awaitParams (request : Json) : Except String AwaitParams :=
  let params := (request.get "params").filter Json.isObject
  let after := (params.bind (Json.get "after")).bind Json.asU64
  let generation := (params.bind (Json.get "generation")).bind Json.asU64
  let timeoutMs := ((params.bind (Json.get "timeoutMs")).bind Json.asU64).filter (0 < ·)
  match after, generation, timeoutMs with
  | some after, none, some timeout => .ok (.after after timeout)
  | none, some generation, some timeout => .ok (.exact generation timeout)
  | some _, some _, _ =>
    .error "await requires exactly one of params.after or params.generation"
  | _, _, none => .error "await requires a positive numeric params.timeoutMs"
  | _, _, _ => .error
      "await requires exactly one of params.after or params.generation and a positive params.timeoutMs"

/-- What of `ControlApi` decides how a request is routed. -/
structure Api where
  coordinator : Bool
  broker : Bool
  deriving DecidableEq

/-- What becomes of the connection with one request: it is answered (or not) and the next one is read,
    it is an await whose answer is still to come, or the connection serves no further request. -/
inductive Outcome where
  | reply (response : Option Json)
  | pending (id : Json)
  | last (response : Option Json)

/-- `handle_subscribe`: one answer, and the connection is a notification stream or closed. -/
def handleSubscribe (api : Api) (request snapshot : Json) : Json :=
  let id := requestId request
  if !isVersion2 request then rpcError id (-32600) "Invalid Request" none
  else if !api.broker then
    rpcError id (-32000) "Server error" (some (.string "subscription is unavailable"))
  else rpcResult id snapshot

/-- `handle_await` up to its wait. -/
def handleAwait (api : Api) (request : Json) : Outcome :=
  let id := requestId request
  if !isVersion2 request then .reply (some (rpcError id (-32600) "Invalid Request" none))
  else if !api.coordinator then
    .reply (some (rpcError id (-32000) "Server error" (some (.string "await is unavailable"))))
  else
    match awaitParams request with
    | .error data => .reply (some (rpcError id (-32602) "Invalid params" (some (.string data))))
    | .ok _ => .pending id

/-- The loop body of `handle_client` behind `from_str`. -/
def handleRequest (api : Api) (results : Nat → Json → MethodResult) (snapshot request : Json) :
    Outcome :=
  let method := (request.get "method").bind Json.asStr
  if method = some "subscribe" then .last (some (handleSubscribe api request snapshot))
  else if method = some "await" ∧ (request.get "params").any Json.isObject then handleAwait api request
  else .reply (processPayload results request)

end Control

end Funzzy
