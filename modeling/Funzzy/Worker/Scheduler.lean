import Funzzy.Worker.Generation
import Mathlib.Data.List.DropRight

/-! The worker's command queue (`workers.rs`): commands, and how `send` rewrites the queue.

    Scheduling, replacement and cancellation go through one ordered queue. `enqueue` is the part of
    `Scheduler::send` under the queue's lock: it returns the new queue, the queued generations it has
    discarded with the successor it reports for each, and the reply it gives. The lemmas at the end say
    what a rewrite keeps; later modules never unfold `enqueue` again. -/

namespace Funzzy

/-! ### Commands -/

/-- Immutable config revision. -/
structure ConfigRevision where
  number : Nat
  hash : String
  deriving DecidableEq

/-- A run requested through the worker's command stream. -/
structure RunRequest where
  runId : Nat
  plan : RunPlan
  trigger : String := ""
  batch : Option Nat := none
  changed : List String := []
  predecessor : Option Nat := none
  target : Option String := none
  executionSignature : Option String := none
  effectiveConcurrency : Option Nat := none
  concurrencySource : Option String := none
  hooks : GenerationHooks := {}
  recoveryPolicy : RecoveryPolicy := .prompt
  revision : Option Nat := none
  revisionHash : Option String := none
  deriving DecidableEq

/-- The metadata the consumer starts a requested run with. -/
def RunRequest.metadata (req : RunRequest) : RunMetadata :=
  { runId := req.runId
    trigger := req.trigger
    batch := req.batch
    predecessor := req.predecessor
    changed := req.changed
    target := req.target
    executionSignature := req.executionSignature
    effectiveConcurrency := req.effectiveConcurrency
    concurrencySource := req.concurrencySource
    hooks := req.hooks
    recoveryPolicy := req.recoveryPolicy
    revision := some (req.revision.getD 0)
    revisionHash := some (req.revisionHash.getD "") }

/-- The metadata of a service plan that becomes its own generation. -/
def servicesMetadata (runId : Nat) (revision : Option ConfigRevision) : RunMetadata :=
  { runId
    trigger := "reload:services"
    revision := some ((revision.map (·.number)).getD 0)
    revisionHash := some ((revision.map (·.hash)).getD "") }

/-- One command of the worker's stream. `cancel none` cancels whatever is active; a reply channel is
    the number of the call that waits on it. -/
inductive WorkerCommand where
  | run (request : RunRequest)
  | cancel (generation : Option Nat) (reply : Option Nat)
  | reconcileServices (stopNames : List String) (reply : Nat)
  | startServices (runId : Nat) (plan : RunPlan) (revision : Option ConfigRevision)
  deriving DecidableEq

/-- A command in the stream. `request` is history: the scheduling request (`run_change`, `run_target`
    or `emit_path`) that sent it; no step reads it. -/
structure Message where
  command : WorkerCommand
  request : Option Nat := none
  deriving DecidableEq

def WorkerCommand.isRun : WorkerCommand → Bool
  | .run _ => true
  | .cancel _ _ | .reconcileServices _ _ | .startServices _ _ _ => false

def WorkerCommand.isBareCancel : WorkerCommand → Bool
  | .cancel none _ => true
  | .cancel (some _) _ | .run _ | .reconcileServices _ _ | .startServices _ _ _ => false

/-- What a call that waits for a reply gets. -/
inductive Reply where
  | cancelled (disposition : CancelDisposition) (revision : Option Nat) (revisionHash : Option String)
  | noop
  | services (stillRunning : List String)
  deriving DecidableEq

/-! ### The rewrite -/

/-- Puts the new Run in the place of the last queued one; the Run it replaced, if there was one. -/
def replaceLastRun (new : Message) : List Message → Option (RunRequest × List Message)
  | [] => none
  | m :: rest =>
    match replaceLastRun new rest with
    | some (old, rest) => some (old, m :: rest)
    | none =>
      match m.command with
      | .run old => some (old, new :: rest)
      | _ => none

/-- Removes the first queued Run with the given id. -/
def removeRun (id : Nat) : List Message → Option (RunRequest × List Message)
  | [] => none
  | m :: rest =>
    match m.command with
    | .run req =>
      if req.runId = id then some (req, rest)
      else (removeRun id rest).map fun (found, rest) => (found, m :: rest)
    | _ => (removeRun id rest).map fun (found, rest) => (found, m :: rest)

/-- The id of the Run a message carries. -/
def Message.runId? (m : Message) : Option Nat :=
  match m.command with
  | .run req => some req.runId
  | _ => none

/-- What a rewrite of the queue does: the queue after it, the queued generations it discards with
    their reported successors, and the reply it gives. -/
structure Rewrite where
  queue : List Message
  discarded : List (Nat × Option Nat) := []
  reply : Option (Nat × Reply) := none
  deriving DecidableEq

/-- `Scheduler::send` under the queue's lock. -/
def enqueue (queue : List Message) (m : Message) : Rewrite :=
  match m.command with
  | .run new =>
    -- a Run subsumes the bare cancels right before it
    let queue := queue.rdropWhile fun other => other.command.isBareCancel
    match replaceLastRun m queue with
    | some (old, queue) => { queue, discarded := [(old.runId, some new.runId)] }
    | none => { queue := queue ++ [m] }
  | .cancel (some id) reply =>
    match removeRun id queue with
    | some (queued, queue) =>
      { queue
        discarded := [(id, none)]
        reply := reply.map fun ticket =>
          (ticket, .cancelled .graceful queued.revision queued.revisionHash) }
    | none => { queue := queue ++ [m] }
  | .cancel none _ =>
    { queue := (queue.filter fun other => !other.command.isRun) ++ [m]
      discarded := (queue.filterMap Message.runId?).map fun id => (id, none) }
  | .reconcileServices _ _ | .startServices _ _ _ => { queue := queue ++ [m] }

/-! ### What a rewrite does -/

/-- The four ways in which a queue is rewritten for a message. -/
inductive Rewrites (queue : List Message) (m : Message) : Rewrite → Prop
  | replaced (new old : RunRequest) (before after bares : List Message) (oldMessage : Message) :
      m.command = .run new → queue = before ++ oldMessage :: after ++ bares →
      oldMessage.command = .run old → (∀ other ∈ bares, other.command.isBareCancel = true) →
      (∀ other ∈ after, other.command.isRun = false) →
      Rewrites queue m
        { queue := before ++ m :: after, discarded := [(old.runId, some new.runId)] }
  | pushed (kept bares : List Message) : queue = kept ++ bares →
      (∀ other ∈ bares, other.command.isBareCancel = true) → m.command.isBareCancel = false →
      (bares ≠ [] → m.command.isRun = true) →
      (m.command.isRun = true → ∀ other ∈ kept, other.command.isRun = false) →
      Rewrites queue m { queue := kept ++ [m] }
  | removed (id : Nat) (ticket : Option Nat) (queued : RunRequest) (before after : List Message)
      (message : Message) : m.command = .cancel (some id) ticket →
      queue = before ++ message :: after → message.command = .run queued → queued.runId = id →
      Rewrites queue m
        { queue := before ++ after
          discarded := [(id, none)]
          reply := ticket.map fun ticket =>
            (ticket, .cancelled .graceful queued.revision queued.revisionHash) }
  | cleared (ticket : Option Nat) : m.command = .cancel none ticket →
      Rewrites queue m
        { queue := (queue.filter fun other => !other.command.isRun) ++ [m]
          discarded := (queue.filterMap Message.runId?).map fun id => (id, none) }

theorem replaceLastRun_eq_none {new : Message} {queue : List Message}
    (h : replaceLastRun new queue = none) : ∀ m ∈ queue, m.command.isRun = false := by
  induction queue with
  | nil => intro m hm; cases hm
  | cons m rest ih =>
    rw [replaceLastRun] at h
    rcases hr : replaceLastRun new rest with _ | ⟨found, rest'⟩ <;> rw [hr] at h
    · intro other hother
      rcases List.mem_cons.mp hother with rfl | hother
      · rcases hm : other.command with _ | _ | _ | _ <;> rw [hm] at h
        · cases h
        all_goals rfl
      · exact ih hr other hother
    · cases h

theorem replaceLastRun_eq_some {new : Message} {queue : List Message} :
    ∀ {old : RunRequest} {queue' : List Message}, replaceLastRun new queue = some (old, queue') →
      ∃ before m after, queue = before ++ m :: after ∧ m.command = .run old ∧
        queue' = before ++ new :: after ∧ ∀ other ∈ after, other.command.isRun = false := by
  induction queue with
  | nil => intro old queue' h; cases h
  | cons m rest ih =>
    intro old queue' h
    rw [replaceLastRun] at h
    rcases hr : replaceLastRun new rest with _ | ⟨found, rest'⟩ <;> rw [hr] at h
    · rcases hm : m.command with req | _ | _ | _ <;> rw [hm] at h <;> cases h
      exact ⟨[], m, rest, rfl, hm, rfl, replaceLastRun_eq_none hr⟩
    · cases h
      obtain ⟨before, found', after, rfl, hcommand, rfl, hafter⟩ := ih hr
      exact ⟨m :: before, found', after, rfl, hcommand, rfl, hafter⟩

theorem removeRun_eq_some {id : Nat} {queue : List Message} :
    ∀ {req : RunRequest} {queue' : List Message}, removeRun id queue = some (req, queue') →
      ∃ before m after, queue = before ++ m :: after ∧ m.command = .run req ∧ req.runId = id ∧
        queue' = before ++ after := by
  induction queue with
  | nil => intro req queue' h; cases h
  | cons m rest ih =>
    intro req queue' h
    -- the message is passed over unless it is the Run in question
    have hlater : (removeRun id rest).map (fun (found, rest) => (found, m :: rest))
        = some (req, queue') → ∃ before found after, m :: rest = before ++ found :: after ∧
          found.command = .run req ∧ req.runId = id ∧ queue' = before ++ after := by
      intro hmap
      obtain ⟨⟨found, rest'⟩, hfound, heq⟩ := Option.map_eq_some_iff.mp hmap
      cases heq
      obtain ⟨before, message, after, rfl, hcommand, hid, rfl⟩ := ih hfound
      exact ⟨m :: before, message, after, rfl, hcommand, hid, rfl⟩
    rw [removeRun] at h
    rcases hm : m.command with queued | _ | _ | _ <;> simp only [hm] at h
    · by_cases hid : queued.runId = id
      · rw [if_pos hid] at h
        cases h
        exact ⟨[], m, rest, rfl, hm, hid, rfl⟩
      · rw [if_neg hid] at h
        exact hlater h
    all_goals exact hlater h

/-- `enqueue` rewrites the queue in one of the four ways. -/
theorem enqueue_rewrites (queue : List Message) (m : Message) :
    Rewrites queue m (enqueue queue m) := by
  rcases hm : m.command with new | ⟨_ | id, ticket⟩ | ⟨stopNames, ticket⟩ | ⟨runId, plan, revision⟩ <;>
    simp only [enqueue, hm]
  · obtain ⟨bares, hqueue, hbares⟩ : ∃ bares,
        queue = queue.rdropWhile (fun other => other.command.isBareCancel) ++ bares ∧
          ∀ other ∈ bares, other.command.isBareCancel = true := by
      refine ⟨queue.rtakeWhile fun other => other.command.isBareCancel,
        List.rdropWhile_append_rtakeWhile.symm, fun other hother => ?_⟩
      exact List.mem_rtakeWhile_imp (p := fun other : Message => other.command.isBareCancel) hother
    rcases hr : replaceLastRun m (queue.rdropWhile fun other => other.command.isBareCancel) with
      _ | ⟨old, queue'⟩
    · exact .pushed _ bares hqueue hbares (by simp [hm, WorkerCommand.isBareCancel])
        (fun _ => by simp [hm, WorkerCommand.isRun]) fun _ => replaceLastRun_eq_none hr
    · obtain ⟨before, oldMessage, after, hkept, hold, rfl, hafter⟩ := replaceLastRun_eq_some hr
      exact .replaced new old before after bares oldMessage hm (hkept ▸ hqueue) hold hbares hafter
  · exact .cleared ticket hm
  · rcases hr : removeRun id queue with _ | ⟨queued, queue'⟩
    · exact .pushed queue [] (List.append_nil _).symm (by simp)
        (by simp [hm, WorkerCommand.isBareCancel]) (fun h => absurd rfl h)
        (by simp [hm, WorkerCommand.isRun])
    · obtain ⟨before, message, after, hqueue, hcommand, hid, rfl⟩ := removeRun_eq_some hr
      exact .removed id ticket queued before after message hm hqueue hcommand hid
  · exact .pushed queue [] (List.append_nil _).symm (by simp)
      (by simp [hm, WorkerCommand.isBareCancel]) (fun h => absurd rfl h)
      (by simp [hm, WorkerCommand.isRun])
  · exact .pushed queue [] (List.append_nil _).symm (by simp)
      (by simp [hm, WorkerCommand.isBareCancel]) (fun h => absurd rfl h)
      (by simp [hm, WorkerCommand.isRun])

end Funzzy
