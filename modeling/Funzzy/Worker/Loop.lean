import Funzzy.Worker.Scheduler
import Funzzy.Lib.Machine

/-! The worker as a machine (`workers.rs`): client threads that send, and the consumer loop.

    Every access to shared state is a step of its own. A client call allocates its run id, sets the
    tokens of the runs it will end, and rewrites the queue in separate steps, so other threads come in
    between; a scheduling request of the watch loop is a bare cancel followed by a schedule. The
    consumer's program counter stands between two accesses of its loop. `advance` is entered with the
    token as it is then, and returns later: the token may be set by other threads in between. -/

namespace Funzzy

variable {W : Type}

/-! ### State -/

/-- What the worker has done beyond emitting events: history, except for the replies. A displaced
    generation has lost its place to `cause`, with the successor that is reported for it. -/
inductive Deed where
  | dispatched (runId : Nat)
  | replied (ticket : Nat) (reply : Reply)
  | servicesAppended (runId generation : Nat)
  | servicesStarted (runId : Nat)
  | displaced (generation : Nat) (cause : Message) (supersededBy : Option Nat)
  deriving DecidableEq

/-- A client thread inside the worker: about to prepare a request, about to signal, or about to
    rewrite the queue. `next` is what the same call schedules afterwards. -/
inductive Sender where
  | preparing (draft : RunRequest) (request : Option Nat)
  | sending (message : Message) (next : Option RunRequest)
  | signalled (message : Message) (next : Option RunRequest)
  deriving DecidableEq

/-- Where the consumer stands: at the head of its loop, between starting and registering a run, inside
    `advance`, after a step that left the run running, holding a run it is about to replace, cancel or
    finish, in the burst drain, or gone. -/
inductive Pc where
  | top
  | registering
  | advancing (token : Bool)
  | stepped
  | replacing (old : Run) (req : RunRequest) (request : Option Nat)
  | retiring (old : Run) (message : Message)
  | finishing (old : Run)
  | draining
  | exited

structure State (W : Type) where
  nextRunId : Nat := 0
  calls : Nat := 0
  senders : List Sender := []
  queue : List Message := []
  closed : Bool := false
  registry : List Nat := []
  cancelled : List Nat := []
  active : Option Run := none
  pending : Option RunRequest := none
  pc : Pc := .top
  io : Io W
  log : List Deed := []

/-- The worker when its consumer thread starts. -/
def State.initial (world : W) : State W := { io := { world } }

/-! ### Client threads -/

/-- The calls a client can make. `request` is a scheduling request of the watch loop. -/
inductive Call where
  | schedule (draft : RunRequest)
  | request (draft : RunRequest)
  | cancelGeneration (generation : Nat)
  | cancelRunningTasks
  | reconcileServices (stopNames : List String)
  | startServices (plan : RunPlan) (revision : Option ConfigRevision)
  deriving DecidableEq

/-- `cancel_active`: sets the token of the named registered run, or of every one. -/
def State.cancelActive (s : State W) (generation : Option Nat) : State W :=
  { s with cancelled := s.cancelled ++
      match generation with
      | some id => s.registry.filter fun active => active = id
      | none => s.registry }

/-- The part of `send` before the queue's lock. -/
def State.signal (s : State W) : WorkerCommand → State W
  | .run _ => s.cancelActive none
  | .cancel generation _ => s.cancelActive generation
  | .reconcileServices _ _ | .startServices _ _ _ => s

/-- The part of `send` under the queue's lock. -/
def State.enqueue (s : State W) (m : Message) : State W :=
  let r := Funzzy.enqueue s.queue m
  { s with
    queue := r.queue
    io := r.discarded.foldl (fun io (id, successor) => io.emit (.cancelled id successor)) s.io
    log := s.log ++ r.discarded.map (fun (id, successor) => .displaced id m successor)
      ++ (r.reply.map fun (ticket, reply) => Deed.replied ticket reply).toList }

/-- A client thread enters the worker. Starting services allocates its run id here. -/
def State.call (s : State W) : Call → State W
  | .schedule draft => { s with senders := s.senders ++ [.preparing draft none] }
  | .request draft =>
    { s with
      calls := s.calls + 1
      senders := s.senders ++ [.sending ⟨.cancel none none, some s.calls⟩ (some draft)] }
  | .cancelGeneration generation =>
    { s with
      calls := s.calls + 1
      senders := s.senders ++ [.sending ⟨.cancel (some generation) (some s.calls), none⟩ none] }
  | .cancelRunningTasks =>
    { s with senders := s.senders ++ [.sending ⟨.cancel none none, none⟩ none] }
  | .reconcileServices stopNames =>
    { s with
      calls := s.calls + 1
      senders := s.senders ++ [.sending ⟨.reconcileServices stopNames s.calls, none⟩ none] }
  | .startServices plan revision =>
    { s with
      nextRunId := s.nextRunId + 1
      senders := s.senders ++ [.sending ⟨.startServices (s.nextRunId + 1) plan revision, none⟩ none] }

/-- `prepare_request` of the sender at an index: it fails, or allocates the run id and dispatches. -/
def State.prepare (s : State W) (i : Nat) (prepared : Bool) : Option (State W) :=
  match s.senders[i]? with
  | some (.preparing draft request) =>
    if prepared then
      let req := { draft with runId := s.nextRunId + 1, predecessor := none }
      some { s with
        nextRunId := s.nextRunId + 1
        senders := s.senders.set i (.sending ⟨.run req, request⟩ none)
        log := s.log ++ [.dispatched req.runId] }
    else some { s with senders := s.senders.eraseIdx i }
  | _ => none

def State.signalSender (s : State W) (i : Nat) : Option (State W) :=
  match s.senders[i]? with
  | some (.sending m next) =>
    some { s.signal m.command with senders := s.senders.set i (.signalled m next) }
  | _ => none

def State.enqueueSender (s : State W) (i : Nat) : Option (State W) :=
  match s.senders[i]? with
  | some (.signalled m next) =>
    some { s.enqueue m with
      senders := match next with
        | some draft => s.senders.set i (.preparing draft m.request)
        | none => s.senders.eraseIdx i }
  | _ => none

/-! ### The consumer -/

def State.reply (s : State W) (ticket : Nat) (reply : Reply) : State W :=
  { s with log := s.log ++ [.replied ticket reply] }

/-- The reply to an exact cancel, if somebody waits for it. -/
def State.replyCancel (s : State W) (ticket : Option Nat) (reply : Reply) : State W :=
  match ticket with
  | some ticket => s.reply ticket reply
  | none => s

def State.start (env : Env W) (s : State W) (metadata : RunMetadata) (plan : RunPlan) : State W :=
  let (io, run) := Funzzy.start env s.io metadata plan
  { s with io, active := some run, pc := .registering }

/-- A command received while no run is active. -/
def State.handleIdle (env : Env W) (s : State W) (m : Message) : State W :=
  match m.command with
  | .run req => s.start env req.metadata req.plan
  | .cancel (some _) reply => s.replyCancel reply .noop
  | .cancel none _ => s
  | .reconcileServices _ reply => s.reply reply (.services [])
  | .startServices runId plan revision =>
    { s.start env (servicesMetadata runId revision) plan with
      log := s.log ++ [.servicesStarted runId] }

/-- A command received after a step that left `run` running. -/
def State.handleBusy (env : Env W) (s : State W) (run : Run) (m : Message) : State W :=
  match m.command with
  | .run req => { s with active := none, pc := .replacing run req m.request }
  | .cancel (some id) reply =>
    if run.metadata.runId = id then { s with active := none, pc := .retiring run m }
    else { s.replyCancel reply .noop with pc := .top }
  | .cancel none _ => { s with active := none, pc := .retiring run m }
  | .reconcileServices stopNames reply =>
    let (io, run, still) := Funzzy.reconcileServices env s.io run stopNames
    { { s with io, active := some run }.reply reply (.services still) with pc := .top }
  | .startServices runId plan _ =>
    { s with
      active := some (appendPlan run plan)
      log := s.log ++ [.servicesAppended runId run.metadata.runId]
      pc := .top }

/-- A command received by the burst drain. -/
def State.handleDrain (s : State W) (m : Message) : State W :=
  match m.command with
  | .run later =>
    { s with
      pending := some later
      log := s.log ++ (s.pending.map fun req => Deed.displaced req.runId m none).toList }
  | .cancel (some id) reply =>
    match s.pending with
    | some req =>
      if req.runId = id then
        { s with pending := none }.replyCancel reply
          (.cancelled .graceful req.revision req.revisionHash)
      else s.replyCancel reply .noop
    | none => s.replyCancel reply .noop
  -- the catch-all arm: the command has been taken and is forgotten
  | .cancel none _ | .reconcileServices _ _ | .startServices _ _ _ => { s with pc := .top }

def State.unregister (s : State W) (run : Run) : State W :=
  { s with registry := s.registry.filter fun id => id ≠ run.metadata.runId }

/-- `Run::revision`: only a run frozen under a revision and its hash has one. -/
def Run.revision (run : Run) : Option Nat × Option String :=
  match run.metadata.revision, run.metadata.revisionHash with
  | some number, some hash => (some number, some hash)
  | _, _ => (none, none)

/-- The reply channel of an exact cancel. -/
def WorkerCommand.exactReply : WorkerCommand → Option Nat
  | .cancel (some _) reply => reply
  | .cancel none _ | .run _ | .reconcileServices _ _ | .startServices _ _ _ => none

/-- The run is cancelled for the successor; the successor waits in the pending slot. -/
def State.replace (env : Env W) (s : State W) (old : Run) (req : RunRequest)
    (request : Option Nat) : State W :=
  { s.unregister old with
    io := (Funzzy.cancel env s.io old (some req.runId)).1
    pending := some { req with predecessor := some old.metadata.runId }
    log := s.log ++ [.displaced old.metadata.runId ⟨.run req, request⟩ (some req.runId)]
    pc := .draining }

/-- The run is cancelled without a successor. -/
def State.retire (env : Env W) (s : State W) (old : Run) (m : Message) : State W :=
  let (io, _, disposition) := Funzzy.cancel env s.io old none
  { { s.unregister old with
      io
      log := s.log ++ [Deed.displaced old.metadata.runId m none] }.replyCancel m.command.exactReply
        (.cancelled disposition old.revision.1 old.revision.2) with
    pc := .top }

def State.finish (env : Env W) (s : State W) (old : Run) : State W :=
  { s.unregister old with io := (Funzzy.finish env s.io old).1, pc := .top }

/-- Inside `advance`, entered with `token`: the call returns and has read no token that is not set. -/
def State.leaveAdvance (ex : Executor) (env : Env W) (polls : Nat) (s : State W) (token : Bool)
    (run : Run) : Option (State W) :=
  match Funzzy.advance ex env polls { s.io with token } run with
  | (io, run', .returned step) =>
    if io.token = true ∧ run.metadata.runId ∉ s.cancelled then none
    else match step with
      | .running => some { s with io, active := some run', pc := .stepped }
      | .finished => some { s with io, active := none, pc := .finishing run' }
  | (_, _, .waiting) | (_, _, .spinning) => none

/-- One step of the consumer thread. -/
def State.consume (ex : Executor) (env : Env W) (polls : Nat) (s : State W) : Option (State W) :=
  match s.pc, s.active, s.pending with
  | .top, none, some req => some ({ s with pending := none }.start env req.metadata req.plan)
  | .top, none, none =>
    match s.queue with
    | m :: rest => some ({ s with queue := rest }.handleIdle env m)
    | [] => if s.closed then some { s with pc := .exited } else none
  | .top, some run, _ => some { s with pc := .advancing (s.cancelled.contains run.metadata.runId) }
  | .registering, some run, _ =>
    some { s with registry := s.registry.insert run.metadata.runId, pc := .top }
  | .advancing token, some run, _ => s.leaveAdvance ex env polls token run
  | .stepped, some run, _ =>
    match s.queue with
    | m :: rest => some ({ s with queue := rest }.handleBusy env run m)
    | [] => some { s with pc := .top }
  | .replacing old req request, _, _ => some (s.replace env old req request)
  | .retiring old m, _, _ => some (s.retire env old m)
  | .finishing old, _, _ => some (s.finish env old)
  | .draining, _, _ =>
    match s.queue with
    | m :: rest => some ({ s with queue := rest }.handleDrain m)
    | [] => some { s with pc := .top }
  | .registering, none, _ | .advancing _, none, _ | .stepped, none, _ | .exited, _, _ => none

/-! ### The machine -/

inductive Label where
  | call (c : Call)
  | prepare (i : Nat) (prepared : Bool)
  | signal (i : Nat)
  | enqueue (i : Nat)
  | close
  | consume (polls : Nat)
  deriving DecidableEq

/-- One step of the worker. Dropping the worker needs it exclusively, so no call is under way when the
    queue is closed and none begins afterwards. -/
def State.step (ex : Executor) (env : Env W) (s : State W) : Label → Option (State W)
  | .call c => if s.closed then none else some (s.call c)
  | .prepare i prepared => s.prepare i prepared
  | .signal i => s.signalSender i
  | .enqueue i => s.enqueueSender i
  | .close => if s.senders = [] then some { s with closed := true } else none
  | .consume polls => s.consume ex env polls

/-! ### What a step can do -/

theorem State.replyCancel_eq (s : State W) (ticket : Option Nat) (reply : Reply) :
    s.replyCancel ticket reply
      = { s with log := s.log ++ (ticket.map fun ticket => Deed.replied ticket reply).toList } := by
  cases ticket with
  | none => simp [State.replyCancel]
  | some ticket => rfl

theorem State.retire_eq (env : Env W) (s : State W) (old : Run) (m : Message) :
    s.retire env old m =
      { s with
        registry := s.registry.filter fun id => id ≠ old.metadata.runId
        io := (Funzzy.cancel env s.io old none).1
        log := s.log ++ [.displaced old.metadata.runId m none]
          ++ (m.command.exactReply.map fun ticket => Deed.replied ticket
            (.cancelled (Funzzy.cancel env s.io old none).2.2 old.revision.1 old.revision.2)).toList
        pc := .top } := by
  unfold State.retire
  rcases Funzzy.cancel env s.io old none with ⟨io, run, disposition⟩
  simp only [State.replyCancel_eq]
  rfl

@[simp] theorem State.replyCancel_queue (s : State W) (ticket : Option Nat) (reply : Reply) :
    (s.replyCancel ticket reply).queue = s.queue := by
  rw [State.replyCancel_eq]

theorem handleIdle_queue (env : Env W) (s : State W) (m : Message) :
    (s.handleIdle env m).queue = s.queue := by
  unfold State.handleIdle
  split <;> simp [State.start, State.reply]

theorem handleBusy_queue (env : Env W) (s : State W) (run : Run) (m : Message) :
    (s.handleBusy env run m).queue = s.queue := by
  unfold State.handleBusy
  split
  · rfl
  · split <;> simp
  all_goals rfl

/-- The burst drain touches the pending slot, the replies and its own program counter. -/
theorem State.handleDrain_eq (s : State W) (m : Message) :
    ∃ pending pc log, s.handleDrain m = { s with pending, pc, log } ∧ (pc = s.pc ∨ pc = .top) := by
  unfold State.handleDrain
  split
  · exact ⟨_, s.pc, _, rfl, .inl rfl⟩
  · split
    · split
      · exact ⟨none, s.pc, _, State.replyCancel_eq _ _ _, .inl rfl⟩
      · exact ⟨s.pending, s.pc, _, State.replyCancel_eq _ _ _, .inl rfl⟩
    · exact ⟨s.pending, s.pc, _, State.replyCancel_eq _ _ _, .inl rfl⟩
  all_goals exact ⟨s.pending, .top, s.log, rfl, .inr rfl⟩

/-- The steps of the consumer. -/
inductive Consumed (ex : Executor) (env : Env W) (s : State W) : State W → Prop
  | promoted (req : RunRequest) : s.pc = .top → s.active = none → s.pending = some req →
      Consumed ex env s ({ s with pending := none }.start env req.metadata req.plan)
  | received (m : Message) (rest : List Message) : s.pc = .top → s.active = none →
      s.pending = none → s.queue = m :: rest →
      Consumed ex env s ({ s with queue := rest }.handleIdle env m)
  | exited : s.pc = .top → s.active = none → s.pending = none → s.queue = [] → s.closed = true →
      Consumed ex env s { s with pc := .exited }
  | entered (run : Run) : s.pc = .top → s.active = some run →
      Consumed ex env s { s with pc := .advancing (s.cancelled.contains run.metadata.runId) }
  | registered (run : Run) : s.pc = .registering → s.active = some run →
      Consumed ex env s { s with registry := s.registry.insert run.metadata.runId, pc := .top }
  | running (token : Bool) (polls : Nat) (run run' : Run) (io : Io W) : s.pc = .advancing token →
      s.active = some run →
      advance ex env polls { s.io with token } run = (io, run', .returned .running) →
      (io.token = true → run.metadata.runId ∈ s.cancelled) →
      Consumed ex env s { s with io, active := some run', pc := .stepped }
  | finished (token : Bool) (polls : Nat) (run run' : Run) (io : Io W) : s.pc = .advancing token →
      s.active = some run →
      advance ex env polls { s.io with token } run = (io, run', .returned .finished) →
      Consumed ex env s { s with io, active := none, pc := .finishing run' }
  | taken (run : Run) (m : Message) (rest : List Message) : s.pc = .stepped → s.active = some run →
      s.queue = m :: rest → Consumed ex env s ({ s with queue := rest }.handleBusy env run m)
  | waited (run : Run) : s.pc = .stepped → s.active = some run → s.queue = [] →
      Consumed ex env s { s with pc := .top }
  | replaced (old : Run) (req : RunRequest) (request : Option Nat) :
      s.pc = .replacing old req request → Consumed ex env s (s.replace env old req request)
  | retired (old : Run) (m : Message) : s.pc = .retiring old m → Consumed ex env s (s.retire env old m)
  | completed (old : Run) : s.pc = .finishing old → Consumed ex env s (s.finish env old)
  | drained (m : Message) (rest : List Message) : s.pc = .draining → s.queue = m :: rest →
      Consumed ex env s ({ s with queue := rest }.handleDrain m)
  | left : s.pc = .draining → s.queue = [] → Consumed ex env s { s with pc := .top }

/-- With a Run in its hand the consumer can only replace the run it holds. -/
theorem Consumed.of_replacing {ex : LawfulExecutor} {env : Env W} {s s' : State W} {old : Run}
    {req : RunRequest} {request : Option Nat} (h : Consumed ex env s s')
    (hpc : s.pc = .replacing old req request) : s' = s.replace env old req request := by
  cases h with
  | replaced old' req' request' hpc' =>
    cases hpc.symm.trans hpc'
    rfl
  | promoted _ hpc' | received _ _ hpc' | exited hpc' | entered _ hpc' | registered _ hpc'
  | running _ _ _ _ _ hpc' | finished _ _ _ _ _ hpc' | taken _ _ _ hpc' | waited _ hpc'
  | retired _ _ hpc' | completed _ hpc' | drained _ _ hpc' | left hpc' =>
    rw [hpc] at hpc'
    cases hpc'

theorem leaveAdvance_consumed {ex : LawfulExecutor} {env : Env W} {polls : Nat} {s s' : State W}
    {token : Bool} {run : Run} (hpc : s.pc = .advancing token) (hactive : s.active = some run)
    (h : s.leaveAdvance ex env polls token run = some s') : Consumed ex env s s' := by
  unfold State.leaveAdvance at h
  rcases hr : advance ex env polls { s.io with token } run with ⟨io, run', (_ | _) | _ | _⟩ <;>
    simp only [hr] at h
  · split at h
    · cases h
    · rename_i hread
      cases h
      exact .running token polls run run' io hpc hactive hr fun hset => by
        by_contra hunset
        exact hread ⟨hset, hunset⟩
  · split at h
    · cases h
    · cases h
      exact .finished token polls run run' io hpc hactive hr
  · cases h
  · cases h

theorem consume_consumed {ex : LawfulExecutor} {env : Env W} {polls : Nat} {s s' : State W}
    (h : s.consume ex env polls = some s') : Consumed ex env s s' := by
  unfold State.consume at h
  split at h
  · rename_i req hpc hactive hpending
    cases h
    exact .promoted req hpc hactive hpending
  · rename_i hpc hactive hpending
    split at h
    · rename_i m rest hqueue
      cases h
      exact .received m rest hpc hactive hpending hqueue
    · rename_i hqueue
      split at h
      · rename_i hclosed
        cases h
        exact .exited hpc hactive hpending hqueue hclosed
      · cases h
  · rename_i run hpc hactive
    cases h
    exact .entered run hpc hactive
  · rename_i run hpc hactive
    cases h
    exact .registered run hpc hactive
  · rename_i token run hpc hactive
    exact leaveAdvance_consumed hpc hactive h
  · rename_i run hpc hactive
    split at h
    · rename_i m rest hqueue
      cases h
      exact .taken run m rest hpc hactive hqueue
    · rename_i hqueue
      cases h
      exact .waited run hpc hactive hqueue
  · rename_i old req request hpc
    cases h
    exact .replaced old req request hpc
  · rename_i old m hpc
    cases h
    exact .retired old m hpc
  · rename_i old hpc
    cases h
    exact .completed old hpc
  · rename_i hpc
    split at h
    · rename_i m rest hqueue
      cases h
      exact .drained m rest hpc hqueue
    · rename_i hqueue
      cases h
      exact .left hpc hqueue
  all_goals cases h

/-- The steps of the worker. -/
inductive Happens (ex : Executor) (env : Env W) (s : State W) : Label → State W → Prop
  | called (c : Call) : s.closed = false → Happens ex env s (.call c) (s.call c)
  | prepared (i : Nat) (draft : RunRequest) (request : Option Nat) (l₁ l₂ : List Sender) :
      s.senders[i]? = some (.preparing draft request) → s.senders = l₁ ++ .preparing draft request :: l₂ →
      Happens ex env s (.prepare i true)
        { s with
          nextRunId := s.nextRunId + 1
          senders := l₁ ++ .sending
            ⟨.run { draft with runId := s.nextRunId + 1, predecessor := none }, request⟩ none :: l₂
          log := s.log ++ [.dispatched (s.nextRunId + 1)] }
  | failed (i : Nat) (draft : RunRequest) (request : Option Nat) (l₁ l₂ : List Sender) :
      s.senders[i]? = some (.preparing draft request) → s.senders = l₁ ++ .preparing draft request :: l₂ →
      Happens ex env s (.prepare i false) { s with senders := l₁ ++ l₂ }
  | signalled (i : Nat) (m : Message) (next : Option RunRequest) (l₁ l₂ : List Sender) :
      s.senders[i]? = some (.sending m next) → s.senders = l₁ ++ .sending m next :: l₂ →
      Happens ex env s (.signal i)
        { s.signal m.command with senders := l₁ ++ .signalled m next :: l₂ }
  | enqueued (i : Nat) (m : Message) (next : Option RunRequest) (l₁ l₂ : List Sender) :
      s.senders[i]? = some (.signalled m next) → s.senders = l₁ ++ .signalled m next :: l₂ →
      s.senders.eraseIdx i = l₁ ++ l₂ →
      Happens ex env s (.enqueue i)
        { s.enqueue m with
          senders := l₁ ++ (next.map fun draft => Sender.preparing draft m.request).toList ++ l₂ }
  | closed : s.senders = [] → Happens ex env s .close { s with closed := true }
  | consumed (polls : Nat) (s' : State W) : Consumed ex env s s' →
      Happens ex env s (.consume polls) s'

theorem step_happens {ex : LawfulExecutor} {env : Env W} {s s' : State W} {l : Label}
    (h : s.step ex env l = some s') : Happens ex env s l s' := by
  cases l with
  | call c =>
    simp only [State.step] at h
    split at h
    · cases h
    · rename_i hopen
      cases h
      exact .called c (by simpa using hopen)
  | prepare i prepared =>
    simp only [State.step, State.prepare] at h
    split at h
    · rename_i draft request hi
      obtain ⟨l₁, l₂, hsplit, hset, herase⟩ := Machine.exists_split hi
      cases prepared with
      | true =>
        rw [if_pos rfl, hset] at h
        cases h
        exact .prepared i draft request l₁ l₂ hi hsplit
      | false =>
        rw [if_neg Bool.false_ne_true, herase] at h
        cases h
        exact .failed i draft request l₁ l₂ hi hsplit
    · cases h
  | signal i =>
    simp only [State.step, State.signalSender] at h
    split at h
    · rename_i m next hi
      obtain ⟨l₁, l₂, hsplit, hset, -⟩ := Machine.exists_split hi
      rw [hset] at h
      cases h
      exact .signalled i m next l₁ l₂ hi hsplit
    · cases h
  | enqueue i =>
    simp only [State.step, State.enqueueSender] at h
    split at h
    · rename_i m next hi
      obtain ⟨l₁, l₂, hsplit, hset, herase⟩ := Machine.exists_split hi
      have hhappens : Happens ex env s (.enqueue i) _ := .enqueued i m next l₁ l₂ hi hsplit herase
      cases next with
      | none =>
        simp only [herase] at h
        cases h
        simpa using hhappens
      | some draft =>
        simp only [hset] at h
        cases h
        simpa using hhappens
    · cases h
  | close =>
    simp only [State.step] at h
    split at h
    · rename_i hnone
      cases h
      exact .closed hnone
    · cases h
  | consume polls => exact .consumed polls s' (consume_consumed h)

/-! ### Concrete runs -/

/-- One client schedules a generation of one task while no other call is under way. -/
def scheduled (name : String) : List Label :=
  [.call (.schedule { runId := 0, plan := .fromRules [{ name, commands := [name] }] }), .prepare 0 true,
    .signal 0, .enqueue 0]

end Funzzy
