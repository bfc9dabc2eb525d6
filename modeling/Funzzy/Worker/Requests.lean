import Funzzy.Prepare
import Funzzy.Worker.Census

/-! The scheduling requests of the watch loop (`watch_loop.rs`): a batch of changes, a control target, an
    emitted path.

    Each finds its plan, cancels what runs, and only then prepares the run, which may fail. `request` is
    the course of one request while no other thread is in the worker; `request_runs` says that the
    machine takes these steps. -/

namespace Funzzy

variable {W : Type}

/-! ### Requests -/

inductive Request where
  | change (plan : RunPlan) (filepath : String) (batch : Nat) (changed : List String)
      (revision : Option ConfigRevision)
  | target (target : String) (sequential : Bool)
  | emit (path : String)
  deriving DecidableEq

/-- What the requester is told. -/
inductive RequestOutcome where
  | scheduled (runId : Nat)
  | targetNotFound (target : String)
  | unmatched
  | ignored
  | failed (error : String)
  deriving DecidableEq

/-- The request has been refused with an error. -/
def RequestOutcome.rejected : RequestOutcome → Bool
  | .targetNotFound _ | .failed _ => true
  | .scheduled _ | .unmatched | .ignored => false

/-- `send`, with no other thread between its two parts. -/
def State.send (s : State W) (m : Message) : State W := (s.signal m.command).enqueue m

/-- Cancels what runs, then prepares and dispatches. -/
def State.request (s : State W) (prepare : Nat → Except String RunRequest) : State W × RequestOutcome :=
  let cancelled := { s with calls := s.calls + 1 }.send ⟨.cancel none none, some s.calls⟩
  match prepare (s.nextRunId + 1) with
  | .error error => (cancelled, .failed error)
  | .ok req =>
    ({ cancelled with
        nextRunId := s.nextRunId + 1
        log := cancelled.log ++ [Deed.dispatched req.runId] }.send ⟨.run req, some s.calls⟩,
      .scheduled req.runId)

/-- `run_change`, `run_target` and `emit_path`. -/
def State.serve (ctx : WorkerContext) (cells : WorkerCells) (M : Matchers) (w : Watches) (s : State W) :
    Request → State W × RequestOutcome
  | .change plan filepath batch changed revision =>
    s.request fun runId =>
      ctx.prepareRequest cells runId plan filepath (some filepath) (some batch) changed revision
  | .target target sequential =>
    match w.targetPlan target with
    | none => (s, .targetNotFound target)
    | some plan =>
      s.request fun runId => ctx.targetRequest cells runId plan target sequential w.revision
  | .emit path =>
    match w.watchPlan M path with
    | none => (s, if (w.explain M path).ignored.isEmpty then .unmatched else .ignored)
    | some plan =>
      s.request fun runId => ctx.prepareRequest cells runId plan path (some path) none [] w.revision

/-! ### Requests as runs of the machine -/

section Machine

variable (ex : LawfulExecutor) (env : Env W) (s : State W) (draft : RunRequest)

/-- The steps of a request up to its preparation, when no other thread moves. -/
def State.cancelling : List Label :=
  [.call (.request draft), .signal s.senders.length, .enqueue s.senders.length]

theorem State.cancelling_runs (hopen : s.closed = false) :
    Machine.after (State.step ex env) s (s.cancelling draft)
      = some { { s with calls := s.calls + 1 }.send ⟨.cancel none none, some s.calls⟩ with
          senders := s.senders ++ [.preparing draft (some s.calls)] } := by
  simp [State.cancelling, Machine.after, State.step, hopen, State.call, State.signalSender, State.signal,
    State.cancelActive, State.enqueueSender, State.send, State.enqueue]

theorem eraseIdx_last (senders : List Sender) (sender : Sender) :
    (senders ++ [sender]).eraseIdx senders.length = senders := by
  rw [List.eraseIdx_append_of_length_le le_rfl, Nat.sub_self]
  simp

/-- A request whose preparation fails is a run of the machine. -/
theorem State.request_fails (hopen : s.closed = false) (error : String) :
    Machine.after (State.step ex env) s (s.cancelling draft ++ [.prepare s.senders.length false])
      = some (s.request fun _ => .error error).1 := by
  rw [Machine.after_append, State.cancelling_runs ex env s draft hopen]
  simp [Machine.after, State.step, State.prepare, State.request, State.send, State.enqueue,
    State.signal, State.cancelActive, eraseIdx_last]

/-- A request that is scheduled is a run of the machine. -/
theorem State.request_succeeds (hopen : s.closed = false) :
    Machine.after (State.step ex env) s (s.cancelling draft
        ++ [.prepare s.senders.length true, .signal s.senders.length, .enqueue s.senders.length])
      = some (s.request fun runId => .ok { draft with runId, predecessor := none }).1 := by
  rw [Machine.after_append, State.cancelling_runs ex env s draft hopen]
  simp [Machine.after, State.step, State.prepare, State.request, State.send, State.enqueue,
    State.signal, State.cancelActive, State.signalSender, State.enqueueSender, eraseIdx_last]

end Machine

/-! ### What a rejected request leaves -/

/-- Generations that run or wait inside the worker. -/
def State.held (s : State W) : List Nat :=
  s.running ++ generations s.queue ++ (s.pending.map (·.runId)).toList ++ s.pc.successor

/-- A bare cancel stands behind everything that is queued, and nothing is pending: another one behind it
    ends nothing more. -/
def State.Dismissed (s : State W) : Prop :=
  s.pending = none ∧ s.pc.successor = [] ∧
    (s.queue.getLast?.any fun m => m.command.isBareCancel) = true

/-- The active generation, its token and the queued generations are as they were, and no cancel is left
    behind for them. -/
structure Untouched (s s' : State W) : Prop where
  active : s'.active = s.active ∧ s'.pending = s.pending ∧ s'.pc = s.pc
  token : ∀ id ∈ s.running, id ∈ s'.cancelled ↔ id ∈ s.cancelled
  queued : generations s'.queue = generations s.queue
  spared : s'.queue ≠ s.queue → s.held = [] ∨ s.Dismissed

/-- There is nothing to cancel: nothing runs or waits, or what runs is being cancelled already and no Run
    is queued. -/
def State.Spent (s : State W) : Prop :=
  s.held = [] ∨ (s.Dismissed ∧ (∀ m ∈ s.queue, m.command.isRun = false) ∧
    ∀ id ∈ s.running, id ∈ s.registry → id ∈ s.cancelled)

/-- Clearing the queue of its Runs drops exactly these generations. -/
theorem generations_clear (queue : List Message) :
    (generations (queue.filter fun m => !m.command.isRun)).length
        + (queue.filter fun m => m.command.isRun).length
      = (generations queue).length := by
  induction queue with
  | nil => rfl
  | cons m rest ih =>
    rcases hm : m.command with req | ⟨generation, reply⟩ | ⟨names, reply⟩ | ⟨runId, plan, revision⟩ <;>
      simp [generations, Message.generation?, hm, WorkerCommand.isRun] at ih ⊢ <;> omega

theorem generations_clear_eq {queue : List Message} :
    generations (queue.filter fun m => !m.command.isRun) = generations queue
      ↔ ∀ m ∈ queue, m.command.isRun = false := by
  constructor
  · intro h
    have hlength := generations_clear queue
    rw [h] at hlength
    have hnone : (queue.filter fun m => m.command.isRun).length = 0 := by omega
    rw [List.length_eq_zero_iff, List.filter_eq_nil_iff] at hnone
    exact fun m hm => by simpa using hnone m hm
  · intro h
    rw [List.filter_eq_self.mpr]
    exact fun m hm => by simp [h m hm]

/-- The worker after the cancel of a request. -/
theorem State.cancelled_untouched (s : State W) :
    Untouched s ({ s with calls := s.calls + 1 }.send ⟨.cancel none none, some s.calls⟩) ↔ s.Spent := by
  set m : Message := ⟨.cancel none none, some s.calls⟩ with hm
  set s' := { s with calls := s.calls + 1 }.send m with hs'
  have hqueue : s'.queue = (s.queue.filter fun other => !other.command.isRun) ++ [m] := rfl
  have hcancelled : s'.cancelled = s.cancelled ++ s.registry := rfl
  have hgenerations : generations s'.queue
      = generations (s.queue.filter fun other => !other.command.isRun) := by
    rw [hqueue]
    simp [generations, Message.generation?, hm]
  constructor
  · intro h
    have hruns := generations_clear_eq.mp (hgenerations ▸ h.queued)
    have hchanged : s'.queue ≠ s.queue := by
      intro heq
      rw [hqueue, List.filter_eq_self.mpr (fun other hother => by simp [hruns other hother])] at heq
      simpa using congrArg List.length heq
    refine (h.spared hchanged).imp id fun hdismissed => ⟨hdismissed, hruns, ?_⟩
    intro id hid hregistered
    refine (h.token id hid).mp ?_
    rw [hcancelled]
    exact List.mem_append_right _ hregistered
  · intro h
    have hruns : ∀ other ∈ s.queue, other.command.isRun = false := by
      rcases h with hnone | ⟨-, hruns, -⟩
      · have hempty : generations s.queue = [] := by
          simp only [State.held, List.append_eq_nil_iff] at hnone
          exact hnone.1.1.2
        have hlength := generations_clear s.queue
        rw [hempty, List.length_nil] at hlength
        refine generations_clear_eq.mp ?_
        rw [hempty]
        exact List.length_eq_zero_iff.mp (by omega)
      · exact hruns
    refine ⟨⟨rfl, rfl, rfl⟩, ?_, ?_, fun _ => h.imp id fun hspent => hspent.1⟩
    · intro id hid
      rw [hcancelled, List.mem_append]
      refine ⟨?_, .inl⟩
      rintro (hold | hregistered)
      · exact hold
      · rcases h with hnone | ⟨-, -, htokens⟩
        · simp only [State.held, List.append_eq_nil_iff] at hnone
          rw [hnone.1.1.1] at hid
          cases hid
        · exact htokens id hid hregistered
    · rw [hgenerations]
      exact generations_clear_eq.mpr hruns

theorem State.request_rejected {s : State W} {prepare : Nat → Except String RunRequest}
    (h : (s.request prepare).2.rejected = true) :
    (s.request prepare).1 = { s with calls := s.calls + 1 }.send ⟨.cancel none none, some s.calls⟩ := by
  unfold State.request at h ⊢
  split
  · rfl
  · rename_i req hreq
    rw [hreq] at h
    cases h

theorem Untouched.refl (s : State W) : Untouched s s :=
  ⟨⟨rfl, rfl, rfl⟩, fun _ _ => Iff.rfl, rfl, fun h => absurd rfl h⟩

/-- A rejected request leaves the work of the worker untouched exactly when the target does not exist, or
    when there was nothing to cancel. -/
theorem State.rejected_untouched_iff (ctx : WorkerContext) (cells : WorkerCells) (M : Matchers)
    (w : Watches) (s : State W) (request : Request)
    (hrejected : (s.serve ctx cells M w request).2.rejected = true) :
    Untouched s (s.serve ctx cells M w request).1 ↔
      (∃ target sequential, request = .target target sequential ∧ w.targetPlan target = none) ∨
        s.Spent := by
  cases request with
  | change plan filepath batch changed revision =>
    simp only [State.serve] at hrejected ⊢
    rw [State.request_rejected hrejected, State.cancelled_untouched]
    simp
  | target target sequential =>
    simp only [State.serve] at hrejected ⊢
    cases hplan : w.targetPlan target with
    | none =>
      simp only [Untouched.refl, true_iff]
      exact .inl ⟨target, sequential, rfl, hplan⟩
    | some plan =>
      simp only [hplan] at hrejected
      simp only
      rw [State.request_rejected hrejected, State.cancelled_untouched]
      refine ⟨.inr, ?_⟩
      rintro (⟨target', sequential', heq, hnone⟩ | hspent)
      · cases heq
        rw [hplan] at hnone
        cases hnone
      · exact hspent
  | emit path =>
    simp only [State.serve] at hrejected ⊢
    cases hplan : w.watchPlan M path with
    | none =>
      simp only [hplan] at hrejected
      split at hrejected <;> cases hrejected
    | some plan =>
      simp only [hplan] at hrejected
      simp only
      rw [State.request_rejected hrejected, State.cancelled_untouched]
      simp

/-! ### A working directory outside the workspace -/

/-- A workspace with a symbolic link that leads out of it. -/
def linkedContext : WorkerContext where
  fs :=
    { symlinkMetadata := fun path => path = "/ws/link"
      canonicalize := fun path => .ok (if path = "/ws/link" then "/etc" else path) }
  root := "/ws"
  failFast := false
  signature := fun _ _ _ => ""

/-- A change that selects a task whose working directory is that link. -/
def linkedChange : Request :=
  .change (.fromRules [{ name := "lint", commands := ["lint"], cwd := some "link" }]) "src/a.rs" 1
    ["src/a.rs"] none

/-- A configuration without tasks, and matchers that match nothing. -/
def noTasks : Watches := .withRootAndConcurrency [] "/ws" 1 isAbsolute_ws Nat.one_pos

def noMatchers : Matchers where
  glob := fun _ _ => false
  gitignored := fun _ => false

/-- A generation that runs is left alone by a request for a target that does not exist, and an idle worker
    loses nothing to the rejected change. -/
theorem State.rejected_untouched_beside_run :
    (∃ s, Machine.after (State.step {} (steadyEnv fun _ => none)) (State.initial ())
        (scheduled "build" ++ List.replicate 2 (.consume 0)) = some s ∧ s.running = [1] ∧
      let served := s.serve linkedContext { concurrency := 1 } noMatchers noTasks (.target "deploy" false)
      served.2 = .targetNotFound "deploy" ∧ Untouched s served.1) ∧
      let served := (State.initial ()).serve linkedContext { concurrency := 1 } noMatchers noTasks linkedChange
      served.2 = .failed "Task 'lint' cwd cannot escape workspace root through a symlink: link" ∧
        Untouched (State.initial ()) served.1 := by
  refine ⟨⟨_, rfl, by decide, by decide, ?_⟩, by decide, ?_⟩
  · exact (State.rejected_untouched_iff linkedContext { concurrency := 1 } noMatchers noTasks _
      (.target "deploy" false) (by decide)).mpr (.inl ⟨"deploy", false, rfl, by decide⟩)
  · exact (State.rejected_untouched_iff linkedContext { concurrency := 1 } noMatchers noTasks
      (State.initial ()) linkedChange (by decide)).mpr (.inr (.inl rfl))

/-- The rejected change has set the token of the generation that runs, and has queued its cancel. -/
theorem State.rejected_cancels_running :
    ∃ s, Machine.after (State.step {} (steadyEnv fun _ => none)) (State.initial ())
        (scheduled "build" ++ List.replicate 2 (.consume 0)) = some s ∧
      s.running = [1] ∧ s.cancelled = [] ∧
      let served := s.serve linkedContext { concurrency := 1 } noMatchers noTasks linkedChange
      served.2 = .failed "Task 'lint' cwd cannot escape workspace root through a symlink: link" ∧
        served.1.cancelled = [1] ∧ ¬Untouched s served.1 := by
  refine ⟨_, rfl, by decide, by decide, by decide, by decide, fun h => ?_⟩
  have htoken := (h.token 1 (by decide)).mp (by decide)
  revert htoken
  decide

end Funzzy
