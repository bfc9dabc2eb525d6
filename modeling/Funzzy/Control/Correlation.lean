import Mathlib.Data.List.Forall2
import Funzzy.Control.Protocol

/-! Which requests of a payload are answered (`handle_client`, `process_payload`, `process_request`,
    `handle_await` and `handle_subscribe` in `control.rs`).

    A payload is one request or a batch of them. Everything but a notification, a valid request without an
    id, is to be answered once, in order, under its own id. The dispatcher does so; `await` with its
    params and `subscribe` are served beside it and do not ask whether there is an id. -/

namespace Funzzy

namespace Control

namespace Json

/-- The requests of a payload; an empty batch is one invalid request. -/
def elements : Json → List Json
  | .array (first :: rest) => first :: rest
  | request => [request]

/-- A valid request object, its id apart. -/
def isRequest (request : Json) : Bool :=
  request.isObject && ((request.get "method").bind asStr).isSome && isVersion2 request
    && !(request.get "params").any fun params => !params.isObject && !params.isArray

/-- A valid request without an id. -/
def isNotification (request : Json) : Bool := request.isRequest && (request.get "id").isNone

end Json

open Json

/-- A response to the request, under its id. A request that has none that can be read is answered under null. -/
def Answers (request response : Json) : Prop :=
  (∃ result, response = rpcResult (requestId request) result) ∨
    ∃ code message data, response = rpcError (requestId request) code message data

/-- What is sent for the responses to a payload's requests: one array for a batch, nothing for none. -/
def pack : Json → List Json → Option Json
  | .array (_ :: _), responses => if responses.isEmpty then none else some (.array responses)
  | _, responses => responses.head?

/-- What is sent for a payload, an await's answer once its wait is over. -/
def Outcome.sent (waited : Json) : Outcome → Option Json
  | .reply response | .last response => response
  | .pending id => some (rpcResult id waited)

/-- What is sent answers every request but the notifications, in order, once and under its id. -/
def Correlated (payload : Json) (sent : Option Json) : Prop :=
  ∃ responses, sent = pack payload responses ∧
    List.Forall₂ Answers (payload.elements.filter fun request => !request.isNotification) responses

/-- The method is served beside the dispatcher. -/
def isDedicated (request : Json) : Bool :=
  let method := (request.get "method").bind asStr
  method == some "subscribe" || method == some "await" && (request.get "params").any isObject

variable (results : Nat → Json → MethodResult)

/-! ### The dispatcher -/

/-- A request of the dispatcher: nothing for a notification, one response for anything else. -/
theorem processRequest_answers (result : MethodResult) (request : Json) :
    if request.isNotification then processRequest result request = none
    else ∃ response, processRequest result request = some response ∧ Answers request response := by
  have herror : ∀ code message data, Answers request (rpcError (requestId request) code message data) :=
    fun code message data => .inr ⟨code, message, data, rfl⟩
  cases request with
  | object fields =>
    rw [processRequest]
    cases hmethod : (get "method" (.object fields)).bind asStr with
    | none =>
      rw [isNotification, isRequest, hmethod, if_neg (by simp)]
      exact ⟨_, rfl, herror _ _ _⟩
    | some method =>
      cases hversion : isVersion2 (.object fields) with
      | false =>
        rw [isNotification, isRequest, hversion, if_neg (by simp)]
        exact ⟨_, rfl, herror _ _ _⟩
      | true =>
        cases hparams : (get "params" (.object fields)).any fun params => !params.isObject && !params.isArray with
        | true =>
          rw [isNotification, isRequest, hparams, if_neg (by simp)]
          exact ⟨_, rfl, herror _ _ _⟩
        | false =>
          cases hid : get "id" (.object fields) with
          | none =>
            have hlookup : fields.lookup "id" = none := hid
            rw [isNotification, isRequest, hmethod, hversion, hparams, hid, if_pos (by rfl), hlookup]
            rfl
          | some id =>
            have hlookup : fields.lookup "id" = some id := hid
            rw [isNotification, hid, if_neg (by simp), hlookup]
            refine ⟨_, rfl, ?_⟩
            split
            · exact .inl ⟨_, rfl⟩
            · exact herror _ _ _
  | _ => exact ⟨_, rfl, herror _ _ _⟩

/-- The responses of a batch. -/
theorem batch_answers : ∀ (requests : List Json) (start : Nat),
    List.Forall₂ Answers (requests.filter fun request => !request.isNotification)
      ((requests.zipIdx start).filterMap fun (request, i) => processRequest (results i request) request)
  | [], _ => .nil
  | request :: rest, start => by
    have hrequest := processRequest_answers (results start request) request
    rw [List.zipIdx_cons, List.filterMap_cons]
    cases hnote : request.isNotification with
    | true =>
      rw [hnote, if_pos rfl] at hrequest
      rw [List.filter_cons_of_neg (by simp [hnote])]
      simp only [hrequest]
      exact batch_answers rest (start + 1)
    | false =>
      rw [hnote, if_neg Bool.false_ne_true] at hrequest
      obtain ⟨response, hresponse, hanswers⟩ := hrequest
      rw [List.filter_cons_of_pos (by simp [hnote])]
      simp only [hresponse]
      exact .cons hanswers (batch_answers rest (start + 1))

/-- A payload that is one request. -/
def isSingle : Json → Bool
  | .array (_ :: _) => false
  | _ => true

theorem correlated_single {payload : Json} (h : isSingle payload = true) {sent : Option Json} :
    Correlated payload sent ↔ if payload.isNotification then sent = none
      else ∃ response, sent = some response ∧ Answers payload response := by
  have helements : payload.elements = [payload] ∧ ∀ responses, pack payload responses = responses.head? := by
    unfold isSingle at h
    split at h
    · cases h
    · exact ⟨by rw [elements]; assumption, fun responses => by rw [pack]; assumption⟩
  rw [Correlated, helements.1]
  simp only [helements.2]
  cases hnote : payload.isNotification with
  | true =>
    rw [if_pos rfl, List.filter_cons_of_neg (by simp [hnote]), List.filter_nil]
    constructor
    · rintro ⟨responses, rfl, hresponses⟩
      rw [List.forall₂_nil_left_iff.mp hresponses]
      rfl
    · rintro rfl
      exact ⟨[], rfl, .nil⟩
  | false =>
    rw [if_neg Bool.false_ne_true, List.filter_cons_of_pos (by simp [hnote]), List.filter_nil]
    constructor
    · rintro ⟨responses, rfl, hresponses⟩
      obtain ⟨response, rest, hanswers, -, rfl⟩ := List.forall₂_cons_left_iff.mp hresponses
      exact ⟨response, rfl, hanswers⟩
    · rintro ⟨response, rfl, hanswers⟩
      exact ⟨[response], rfl, .cons hanswers .nil⟩

theorem processPayload_correlated (payload : Json) : Correlated payload (processPayload results payload) := by
  cases payload with
  | array requests =>
    cases requests with
    | nil => exact (correlated_single rfl).mpr ⟨_, rfl, .inr ⟨_, _, _, rfl⟩⟩
    | cons first rest => exact ⟨_, rfl, batch_answers results (first :: rest) 0⟩
  | _ =>
    unfold processPayload
    exact (correlated_single rfl).mpr (processRequest_answers (results 0 _) _)

/-! ### The methods beside it -/

theorem handleSubscribe_answers (api : Api) (request snapshot : Json) :
    Answers request (handleSubscribe api request snapshot) := by
  rw [handleSubscribe]
  split_ifs
  · exact .inr ⟨_, _, _, rfl⟩
  · exact .inr ⟨_, _, _, rfl⟩
  · exact .inl ⟨_, rfl⟩

theorem handleAwait_answers (api : Api) (request waited : Json) :
    ∃ response, (handleAwait api request).sent waited = some response ∧ Answers request response := by
  rw [handleAwait]
  split_ifs
  · exact ⟨_, rfl, .inr ⟨_, _, _, rfl⟩⟩
  · exact ⟨_, rfl, .inr ⟨_, _, _, rfl⟩⟩
  · cases awaitParams request with
    | error data => exact ⟨_, rfl, .inr ⟨_, _, _, rfl⟩⟩
    | ok params => exact ⟨_, rfl, .inl ⟨_, rfl⟩⟩

/-- A dedicated method always answers. -/
theorem dedicated_answers {payload : Json} (h : isDedicated payload = true) (api : Api)
    (snapshot waited : Json) : ∃ response,
      (handleRequest api results snapshot payload).sent waited = some response ∧ Answers payload response := by
  rw [handleRequest]
  split_ifs with hsubscribe hawait
  · exact ⟨_, rfl, handleSubscribe_answers api payload snapshot⟩
  · exact handleAwait_answers api payload waited
  · simp [isDedicated] at h
    exact absurd h (by tauto)

/-- What is sent for a payload answers its requests exactly when the payload is no notification of a
    dedicated method. -/
theorem correlated_iff (api : Api) (snapshot waited payload : Json) :
    Correlated payload ((handleRequest api results snapshot payload).sent waited)
      ↔ ¬ (payload.isNotification = true ∧ isDedicated payload = true) := by
  cases hdedicated : isDedicated payload with
  | true =>
    obtain ⟨response, hsent, hanswers⟩ := dedicated_answers results hdedicated api snapshot waited
    have hsingle : isSingle payload = true := by
      cases payload <;> first | rfl | simp [isDedicated, Json.get] at hdedicated
    rw [correlated_single hsingle, hsent]
    cases payload.isNotification with
    | true => simp
    | false => simpa using hanswers
  | false =>
    have hreply : handleRequest api results snapshot payload = .reply (processPayload results payload) := by
      rw [handleRequest]
      simp [isDedicated] at hdedicated
      rw [if_neg hdedicated.1, if_neg fun hawait => by simp [hdedicated.2 hawait.1] at hawait]
    rw [hreply, Outcome.sent]
    exact iff_of_true (processPayload_correlated results payload) (by simp)

/-- An `await` for the next generation, sent as a notification. -/
def awaitNotification : Json :=
  .object [("jsonrpc", .string "2.0"), ("method", .string "await"),
    ("params", .object [("after", .number (.int 1)), ("timeoutMs", .number (.int 1000))])]

theorem await_notification_answered :
    ¬ Correlated awaitNotification ((handleRequest { coordinator := true, broker := true }
      (fun _ _ => .ok .null) .null awaitNotification).sent .null) := by
  rw [correlated_single rfl, show awaitNotification.isNotification = true by decide +kernel, if_pos rfl]
  exact Option.some_ne_none _

end Control

end Funzzy
