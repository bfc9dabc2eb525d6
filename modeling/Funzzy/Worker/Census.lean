import Funzzy.Worker.Loop

/-! Where the generations of a worker are.

    A generation waits (being sent, queued, pending, or in the consumer's hand), runs, or has ended.
    `Happens.keeps` is the balance of one step: the ids in the census after it, with those the step
    forfeits, are those before it, with those it allocates. From it the census has no id twice
    (`Census`), so no generation ends twice, none that waits has a token, and none that has ended comes
    back. -/

namespace Funzzy

variable {W : Type}

/-! ### The census -/

/-- The generation a message asks for: a Run, or services that may become their own generation. -/
def Message.generation? (m : Message) : Option Nat :=
  match m.command with
  | .run req => some req.runId
  | .startServices runId _ _ => some runId
  | .cancel _ _ | .reconcileServices _ _ => none

/-- The message of a client thread that has one to send. -/
def Sender.message? : Sender → Option Message
  | .preparing _ _ => none
  | .sending m _ | .signalled m _ => some m

/-- The messages that are being sent. -/
def messagesOf (senders : List Sender) : List Message := senders.filterMap Sender.message?

@[simp] theorem messagesOf_append (a b : List Sender) :
    messagesOf (a ++ b) = messagesOf a ++ messagesOf b :=
  List.filterMap_append

@[simp] theorem messagesOf_preparing (draft : RunRequest) (request : Option Nat) (rest : List Sender) :
    messagesOf (.preparing draft request :: rest) = messagesOf rest := rfl

@[simp] theorem messagesOf_sending (m : Message) (next : Option RunRequest) (rest : List Sender) :
    messagesOf (.sending m next :: rest) = m :: messagesOf rest := rfl

@[simp] theorem messagesOf_signalled (m : Message) (next : Option RunRequest) (rest : List Sender) :
    messagesOf (.signalled m next :: rest) = m :: messagesOf rest := rfl

@[simp] theorem messagesOf_nil : messagesOf [] = [] := rfl

@[simp] theorem messagesOf_next (next : Option RunRequest) (request : Option Nat) :
    messagesOf (next.map fun draft => Sender.preparing draft request).toList = [] := by
  cases next <;> rfl

def generations (messages : List Message) : List Nat := messages.filterMap Message.generation?

/-- The request the consumer has taken and not yet put into the pending slot. -/
def Pc.successor : Pc → List Nat
  | .replacing _ req _ => [req.runId]
  | _ => []

/-- The run the consumer has taken out of the active slot and not yet ended. -/
def Pc.leaving : Pc → List Nat
  | .replacing old _ _ | .retiring old _ | .finishing old => [old.metadata.runId]
  | _ => []

/-- Generations that have not started. -/
def State.waiting (s : State W) : List Nat :=
  generations (messagesOf s.senders) ++ generations s.queue
    ++ (s.pending.map (·.runId)).toList ++ s.pc.successor

/-- Generations that have started and not ended. -/
def State.running (s : State W) : List Nat :=
  (s.active.map (·.metadata.runId)).toList ++ s.pc.leaving

/-- The generation a terminal event ends. -/
def Event.ended? : Event → Option Nat
  | .finished runId _ _ _ => some runId
  | .cancelled runId _ => some runId
  | _ => none

/-- The generations whose terminal event has been emitted, once for each such event. -/
def State.ended (s : State W) : List Nat := (milestones s.io.trace).filterMap Event.ended?

def State.census (s : State W) : List Nat := s.waiting ++ s.running ++ s.ended

/-- The ids a step allocates. -/
def State.allocates (s : State W) : Label → List Nat
  | .call (.startServices _ _) | .prepare _ true => [s.nextRunId + 1]
  | _ => []

/-- The id of a service plan. -/
def Message.services? (m : Message) : Option Nat :=
  match m.command with
  | .startServices runId _ _ => some runId
  | .run _ | .cancel _ _ | .reconcileServices _ _ => none

/-- The waiting generations that the burst drain forgets when it takes a message. -/
def State.drainForfeits (s : State W) (m : Message) : List Nat :=
  match m.command with
  | .run _ => (s.pending.map (·.runId)).toList
  | .cancel (some id) _ => ((s.pending.map (·.runId)).filter fun pending => pending = id).toList
  | .cancel none _ | .reconcileServices _ _ => []
  | .startServices runId _ _ => [runId]

/-- The waiting generations that leave the worker in a step without having run or ended: services
    appended to the active run, and what the burst drain forgets. -/
def State.forfeits (s : State W) : Label → List Nat
  | .consume _ =>
    match s.pc, s.queue with
    | .stepped, m :: _ => m.services?.toList
    | .draining, m :: _ => s.drainForfeits m
    | _, _ => []
  | _ => []

/-! ### Sound runs -/

/-- The active run may be advanced: with the token it was entered with, or with a token that has been
    set only if the worker has set it. -/
def State.Sound (failFast : Bool) (s : State W) : Prop :=
  ∀ run, s.active = some run →
    match s.pc with
    | .advancing token => run.Sound failFast token
    | _ => ∃ token, (token = true → run.metadata.runId ∈ s.cancelled) ∧ run.Sound failFast token

theorem State.Sound.of_pc {failFast : Bool} {s s' : State W} (h : s.Sound failFast)
    (hactive : s'.active = s.active) (hpc : s'.pc = s.pc)
    (hcancelled : ∀ id ∈ s.cancelled, id ∈ s'.cancelled) : s'.Sound failFast := by
  intro run hrun
  have hold := h run (hactive ▸ hrun)
  rw [hpc]
  cases hp : s.pc with
  | advancing token => simpa [hp] using hold
  | _ =>
    simp only [hp] at hold
    obtain ⟨token, htoken, hsound⟩ := hold
    exact ⟨token, fun hset => hcancelled _ (htoken hset), hsound⟩

/-- Outside of `advance` it is enough that the run is sound for some token that has been set only if
    the worker has set it. -/
theorem State.sound_of_active {failFast : Bool} {s : State W} {run : Run}
    (hactive : s.active = some run) (hpc : ∀ token, s.pc ≠ .advancing token)
    (h : ∃ token, (token = true → run.metadata.runId ∈ s.cancelled) ∧ run.Sound failFast token) :
    s.Sound failFast := by
  intro other hother
  cases Option.some.inj (hactive.symm.trans hother)
  cases hp : s.pc with
  | advancing token => exact absurd hp (hpc token)
  | _ => exact h

theorem State.sound_of_none {failFast : Bool} {s : State W} (h : s.active = none) :
    s.Sound failFast := by
  intro run hrun
  rw [h] at hrun
  cases hrun

theorem State.Sound.token {failFast : Bool} {s : State W} {run : Run} (h : s.Sound failFast)
    (hactive : s.active = some run) (hpc : ∀ token, s.pc ≠ .advancing token) :
    ∃ token, (token = true → run.metadata.runId ∈ s.cancelled) ∧ run.Sound failFast token := by
  have hrun := h run hactive
  cases hp : s.pc with
  | advancing token => exact absurd hp (hpc token)
  | _ => simpa [hp] using hrun

theorem State.start_active_sound (failFast : Bool) (env : Env W) (s : State W) (metadata : RunMetadata)
    (plan : RunPlan) : (s.start env metadata plan).Sound failFast :=
  State.sound_of_active rfl (by intro token h; cases h)
    ⟨false, fun h => (Bool.false_ne_true h).elim, start_sound failFast false env s.io metadata plan⟩

/-- A step outside of `advance` that leaves the active run alone. -/
theorem State.Sound.shift {failFast : Bool} {s s' : State W} (h : s.Sound failFast)
    (hpc : ∀ token, s.pc ≠ .advancing token) (hpc' : ∀ token, s'.pc ≠ .advancing token)
    (hactive : s'.active = s.active) (hcancelled : s'.cancelled = s.cancelled) :
    s'.Sound failFast := by
  cases hrun : s.active with
  | none => exact State.sound_of_none (hactive.trans hrun)
  | some run =>
    obtain ⟨token, htoken, hsound⟩ := h.token hrun hpc
    exact State.sound_of_active (hactive.trans hrun) hpc' ⟨token, hcancelled ▸ htoken, hsound⟩

theorem handleIdle_sound {failFast : Bool} {env : Env W} {s : State W} (m : Message)
    (hactive : s.active = none) : (s.handleIdle env m).Sound failFast := by
  unfold State.handleIdle
  split
  · exact State.start_active_sound failFast env s _ _
  · rw [State.replyCancel_eq]
    exact State.sound_of_none hactive
  · exact State.sound_of_none hactive
  · exact State.sound_of_none hactive
  · exact (State.start_active_sound failFast env s _ _).of_pc rfl rfl fun _ hid => hid

theorem handleBusy_sound {failFast : Bool} {env : Env W} {s : State W} {run : Run} (m : Message)
    (h : s.Sound failFast) (hactive : s.active = some run) (hpc : ∀ token, s.pc ≠ .advancing token) :
    (s.handleBusy env run m).Sound failFast := by
  obtain ⟨token, htoken, hsound⟩ := h.token hactive hpc
  unfold State.handleBusy
  split
  · exact State.sound_of_none rfl
  · split
    · exact State.sound_of_none rfl
    · rw [State.replyCancel_eq]
      exact h.shift hpc (by intro _ h'; cases h') rfl rfl
  · exact State.sound_of_none rfl
  · rename_i stopNames ticket _
    obtain ⟨hid, -, hsound'⟩ := reconcileServices_generation env s.io stopNames hsound
    rcases hr : reconcileServices env s.io run stopNames with ⟨io, run', still⟩
    rw [hr] at hid hsound'
    refine State.sound_of_active rfl (by intro _ h'; cases h') ⟨token, fun hset => ?_, hsound'⟩
    simp only at hid
    rw [hid]
    exact htoken hset
  · rename_i runId plan revision _
    exact State.sound_of_active rfl (by intro _ h'; cases h')
      ⟨token, htoken, appendPlan_sound plan hsound⟩

theorem handleDrain_sound {failFast : Bool} {s : State W} (m : Message) (h : s.Sound failFast)
    (hpc : ∀ token, s.pc ≠ .advancing token) : (s.handleDrain m).Sound failFast := by
  unfold State.handleDrain
  split
  · exact h.of_pc rfl rfl fun _ hid => hid
  · split
    · split
      · rw [State.replyCancel_eq]
        exact h.of_pc rfl rfl fun _ hid => hid
      · rw [State.replyCancel_eq]
        exact h.of_pc rfl rfl fun _ hid => hid
    · rw [State.replyCancel_eq]
      exact h.of_pc rfl rfl fun _ hid => hid
  all_goals exact h.shift hpc (by intro _ h'; cases h') rfl rfl

/-- What a call of `advance` that returns leaves of the run and of the milestones. -/
theorem State.advance_generation {ex : LawfulExecutor} {env : Env W} {polls : Nat} {s : State W}
    {token : Bool} {run run' : Run} {io : Io W} {step : Step} (h : run.Sound ex.failFast token)
    (hr : advance ex env polls { s.io with token } run = (io, run', .returned step)) :
    run'.metadata = run.metadata ∧ milestones io.trace = milestones s.io.trace ∧
      (step = .running → run'.Sound ex.failFast io.token) :=
  @Funzzy.advance_generation W ex env polls { s.io with token } io run run' step h hr

/-- Every step of the consumer leaves it with a run it may advance. -/
theorem Consumed.sound {ex : LawfulExecutor} {env : Env W} {s s' : State W} (h : Consumed ex env s s')
    (hs : s.Sound ex.failFast) : s'.Sound ex.failFast := by
  cases h with
  | promoted req => exact State.start_active_sound ex.failFast env _ _ _
  | received m rest hpc hactive => exact handleIdle_sound m hactive
  | exited hpc hactive => exact State.sound_of_none hactive
  | entered run hpc hactive =>
    obtain ⟨token, htoken, hsound⟩ := hs.token hactive (by simp [hpc])
    intro other hother
    cases Option.some.inj (hactive.symm.trans hother)
    exact hsound.signalled fun hset => by simpa using htoken hset
  | registered run hpc => exact hs.shift (by simp [hpc]) (by simp) rfl rfl
  | running token polls run run' io hpc hactive hr hread =>
    have hrun := hs run hactive
    simp only [hpc] at hrun
    obtain ⟨hid, -, hsound⟩ := State.advance_generation hrun hr
    refine State.sound_of_active rfl (by intro _ h'; cases h')
      ⟨io.token, fun hset => ?_, hsound rfl⟩
    rw [hid]
    exact hread hset
  | finished => exact State.sound_of_none rfl
  | completed old hpc => exact hs.shift (by simp [hpc]) (by intro _ h'; cases h') rfl rfl
  | taken run m rest hpc hactive =>
    exact handleBusy_sound m (hs.of_pc rfl rfl fun _ hid => hid) hactive (by simp [hpc])
  | waited run hpc => exact hs.shift (by simp [hpc]) (by simp) rfl rfl
  | replaced old req request hpc => exact hs.shift (by simp [hpc]) (by intro _ h'; cases h') rfl rfl
  | retired old m hpc =>
    rw [State.retire_eq]
    exact hs.shift (by simp [hpc]) (by simp) rfl rfl
  | drained m rest hpc =>
    exact handleDrain_sound m (hs.of_pc rfl rfl fun _ hid => hid) (by simp [hpc])
  | left hpc => exact hs.shift (by simp [hpc]) (by simp) rfl rfl

theorem Happens.sound {ex : LawfulExecutor} {env : Env W} {s s' : State W} {l : Label}
    (h : Happens ex env s l s') (hs : s.Sound ex.failFast) : s'.Sound ex.failFast := by
  cases h with
  | called c => cases c <;> exact hs.of_pc rfl rfl fun _ hid => hid
  | prepared | failed | enqueued | closed => exact hs.of_pc rfl rfl fun _ hid => hid
  | signalled i m next l₁ l₂ =>
    cases hm : m.command <;> simp only [State.signal] <;>
      exact hs.of_pc rfl rfl fun _ hid => by simp [State.cancelActive, hid]
  | consumed polls s' hstep => exact hstep.sound hs

/-! ### One slot at a time -/

/-- At most one of the active run, the pending request and the run in the consumer's hand is there. -/
structure State.Shaped (s : State W) : Prop where
  alone : s.active ≠ none → s.pending = none
  leaving : s.pc.leaving ≠ [] → s.active = none ∧ s.pending = none
  draining : s.pc = .draining → s.active = none

/-- Steps that leave both slots and the program counter alone. -/
theorem State.Shaped.of_eq {s s' : State W} (h : s.Shaped) (hactive : s'.active = s.active)
    (hpending : s'.pending = s.pending) (hpc : s'.pc = s.pc) : s'.Shaped where
  alone := by rw [hactive, hpending]; exact h.alone
  leaving := by rw [hactive, hpending, hpc]; exact h.leaving
  draining := by rw [hactive, hpc]; exact h.draining

/-- A program counter at which the consumer holds nothing. -/
theorem State.Shaped.of_idle {s s' : State W} (h : s.Shaped) (hactive : s'.active = s.active)
    (hpending : s'.pending = s.pending) (hpc : s'.pc.leaving = []) (hdrain : s'.pc ≠ .draining) :
    s'.Shaped where
  alone := by rw [hactive, hpending]; exact h.alone
  leaving hne := absurd hpc hne
  draining heq := absurd heq hdrain

theorem State.shaped_of_none {s : State W} (hactive : s.active = none) (hpending : s.pending = none) :
    s.Shaped where
  alone hne := absurd hactive hne
  leaving _ := ⟨hactive, hpending⟩
  draining _ := hactive

theorem State.shaped_of_active {s : State W} (hpending : s.pending = none)
    (hpc : s.pc.leaving = []) (hdrain : s.pc ≠ .draining) : s.Shaped where
  alone _ := hpending
  leaving hne := absurd hpc hne
  draining heq := absurd heq hdrain

theorem handleIdle_shaped {env : Env W} {s : State W} (m : Message) (hactive : s.active = none)
    (hpending : s.pending = none) : (s.handleIdle env m).Shaped := by
  unfold State.handleIdle
  split
  · exact State.shaped_of_active hpending rfl (by intro h; cases h)
  · rw [State.replyCancel_eq]
    exact State.shaped_of_none hactive hpending
  · exact State.shaped_of_none hactive hpending
  · exact State.shaped_of_none hactive hpending
  · exact State.shaped_of_active hpending rfl (by intro h; cases h)

theorem handleBusy_shaped {env : Env W} {s : State W} {run : Run} (m : Message)
    (hpending : s.pending = none) : (s.handleBusy env run m).Shaped := by
  unfold State.handleBusy
  split
  · exact State.shaped_of_none rfl hpending
  · split
    · exact State.shaped_of_none rfl hpending
    · rw [State.replyCancel_eq]
      exact State.shaped_of_active hpending rfl (by intro h; cases h)
  · exact State.shaped_of_none rfl hpending
  · exact State.shaped_of_active hpending rfl (by intro h; cases h)
  · exact State.shaped_of_active hpending rfl (by intro h; cases h)

theorem handleDrain_shaped {s : State W} (m : Message) (hactive : s.active = none)
    (hpc : s.pc = .draining) : (s.handleDrain m).Shaped := by
  have hempty : ∀ s' : State W, s'.active = none → s'.pc = .draining ∨ s'.pc = .top → s'.Shaped := by
    intro s' hnone hpc'
    refine ⟨fun hne => absurd hnone hne, fun hne => ?_, fun _ => hnone⟩
    rcases hpc' with hpc' | hpc' <;> exact absurd (by rw [hpc']; rfl) hne
  unfold State.handleDrain
  split
  · exact hempty _ hactive (.inl hpc)
  · split
    · split
      · rw [State.replyCancel_eq]
        exact hempty _ hactive (.inl hpc)
      · rw [State.replyCancel_eq]
        exact hempty _ hactive (.inl hpc)
    · rw [State.replyCancel_eq]
      exact hempty _ hactive (.inl hpc)
  all_goals exact hempty _ hactive (.inr rfl)

theorem Consumed.shaped {ex : LawfulExecutor} {env : Env W} {s s' : State W} (h : Consumed ex env s s')
    (hs : s.Shaped) : s'.Shaped := by
  cases h with
  | promoted req => exact State.shaped_of_active rfl rfl (by intro h; cases h)
  | received m rest hpc hactive hpending => exact handleIdle_shaped m hactive hpending
  | exited hpc hactive hpending => exact State.shaped_of_none hactive hpending
  | entered | registered | waited => exact hs.of_idle rfl rfl rfl (by intro h; cases h)
  | running token polls run run' io hpc hactive =>
    exact State.shaped_of_active (hs.alone (by simp [hactive])) rfl (by intro h; cases h)
  | finished token polls run run' io hpc hactive =>
    exact State.shaped_of_none rfl (hs.alone (by simp [hactive]))
  | taken run m rest hpc hactive => exact handleBusy_shaped m (hs.alone (by simp [hactive]))
  | replaced old req request hpc =>
    have hnone := hs.leaving (by simp [hpc, Pc.leaving])
    exact ⟨fun hne => absurd hnone.1 hne, fun hne => absurd rfl hne, fun _ => hnone.1⟩
  | retired old m hpc =>
    have hnone := hs.leaving (by simp [hpc, Pc.leaving])
    rw [State.retire_eq]
    exact State.shaped_of_none hnone.1 hnone.2
  | completed old hpc =>
    have hnone := hs.leaving (by simp [hpc, Pc.leaving])
    exact State.shaped_of_none hnone.1 hnone.2
  | drained m rest hpc => exact handleDrain_shaped m (hs.draining hpc) hpc
  | left hpc => exact hs.of_idle rfl rfl rfl (by intro h; cases h)

theorem Happens.shaped {ex : LawfulExecutor} {env : Env W} {s s' : State W} {l : Label}
    (h : Happens ex env s l s') (hs : s.Shaped) : s'.Shaped := by
  cases h with
  | called c => cases c <;> exact hs.of_eq rfl rfl rfl
  | prepared | failed | enqueued | closed => exact hs.of_eq rfl rfl rfl
  | signalled i m next l₁ l₂ => cases hm : m.command <;> exact hs.of_eq rfl rfl rfl
  | consumed polls s' hstep => exact hstep.shaped hs

/-! ### The balance of a step -/

@[simp] theorem generations_nil : generations [] = [] := rfl

@[simp] theorem generations_append (a b : List Message) :
    generations (a ++ b) = generations a ++ generations b :=
  List.filterMap_append

@[simp] theorem generations_cons (m : Message) (rest : List Message) :
    generations (m :: rest) = m.generation?.toList ++ generations rest := by
  unfold generations
  rw [List.filterMap_cons]
  cases m.generation? <;> rfl

theorem generations_bares {bares : List Message}
    (h : ∀ m ∈ bares, m.command.isBareCancel = true) : generations bares = [] := by
  refine List.filterMap_eq_nil_iff.mpr fun m hm => ?_
  have hbare := h m hm
  unfold Message.generation?
  rcases hc : m.command with _ | ⟨_ | _, _⟩ | _ | _ <;> simp_all [WorkerCommand.isBareCancel]

theorem Message.generation?_of_run {m : Message} {req : RunRequest} (h : m.command = .run req) :
    m.generation? = some req.runId := by
  simp [Message.generation?, h]

theorem Message.generation?_of_cancel {m : Message} {id ticket : Option Nat}
    (h : m.command = .cancel id ticket) : m.generation? = none := by
  simp [Message.generation?, h]

/-- Dropping the Runs of a queue drops their generations and no others. -/
theorem count_generations_filter (id : Nat) (queue : List Message) :
    (generations (queue.filter fun m => !m.command.isRun)).count id
      + (queue.filterMap Message.runId?).count id = (generations queue).count id := by
  induction queue with
  | nil => rfl
  | cons m rest ih =>
    rcases hm : m.command with req | _ | _ | _ <;>
      simp [WorkerCommand.isRun, Message.runId?, Message.generation?, hm, List.count_cons, ← ih] <;>
      omega

/-- A rewrite of the queue loses no generation: those that leave the queue are discarded. -/
theorem Rewrites.count_generations {queue : List Message} {m : Message} {r : Rewrite}
    (h : Rewrites queue m r) (id : Nat) :
    (generations r.queue).count id + (r.discarded.map Prod.fst).count id
      = (generations queue).count id + m.generation?.toList.count id := by
  cases h with
  | replaced new old before after bares oldMessage hm hqueue hold hbares =>
    simp [hqueue, Message.generation?_of_run hm, Message.generation?_of_run hold,
      generations_bares hbares, List.count_cons]
    omega
  | pushed kept bares hqueue hbares =>
    simp [hqueue, generations_bares hbares]
  | removed target ticket queued before after message hm hqueue hmessage hid =>
    simp [hqueue, Message.generation?_of_cancel hm, Message.generation?_of_run hmessage, hid,
      List.count_cons]
    omega
  | cleared ticket hm =>
    simp [Message.generation?_of_cancel hm, count_generations_filter, Function.comp_def]

theorem State.count_census (s : State W) (id : Nat) :
    s.census.count id = (generations (messagesOf s.senders)).count id
      + (generations s.queue).count id + (s.pending.map (·.runId)).toList.count id
      + s.pc.successor.count id + (s.active.map (·.metadata.runId)).toList.count id
      + s.pc.leaving.count id + s.ended.count id := by
  simp only [State.census, State.waiting, State.running, List.count_append]
  omega

theorem emitCancelled_milestones (discarded : List (Nat × Option Nat)) : ∀ io : Io W,
    milestones (discarded.foldl (fun io (id, successor) => io.emit (.cancelled id successor)) io).trace
      = milestones io.trace ++ discarded.map fun (id, successor) => Event.cancelled id successor := by
  induction discarded with
  | nil => intro io; simp
  | cons first rest ih =>
    intro io
    rw [List.foldl_cons, ih]
    simp [Io.emit, Io.record, milestones, Effect.milestone?, Event.isMilestone]

theorem State.enqueue_ended (s : State W) (m : Message) :
    (s.enqueue m).ended = s.ended ++ (Funzzy.enqueue s.queue m).discarded.map Prod.fst := by
  have hmilestones := emitCancelled_milestones (Funzzy.enqueue s.queue m).discarded s.io
  simp only [State.ended, State.enqueue]
  rw [hmilestones, List.filterMap_append, List.filterMap_map]
  congr 1
  induction (Funzzy.enqueue s.queue m).discarded with
  | nil => rfl
  | cons first rest ih => simp [Event.ended?, ih]

theorem State.start_ended (env : Env W) (s : State W) (metadata : RunMetadata) (plan : RunPlan) :
    (s.start env metadata plan).ended = s.ended := by
  simp [State.ended, State.start, Event.ended?]

theorem State.replace_ended (env : Env W) (s : State W) (old : Run) (req : RunRequest)
    (request : Option Nat) :
    (s.replace env old req request).ended = s.ended ++ [old.metadata.runId] := by
  simp [State.ended, State.replace, cancel_milestones, Event.ended?]

theorem State.retire_ended (env : Env W) (s : State W) (old : Run) (m : Message) :
    (s.retire env old m).ended = s.ended ++ [old.metadata.runId] := by
  rw [State.retire_eq]
  simp [State.ended, cancel_milestones, Event.ended?]

theorem State.finish_ended (env : Env W) (s : State W) (old : Run) :
    (s.finish env old).ended = s.ended ++ [old.metadata.runId] := by
  obtain ⟨elapsed, failures, hfinish⟩ := finish_milestones env s.io old
  simp [State.ended, State.finish, hfinish, Event.ended?]

/-- Taking a message from the queue leaves its generation in the consumer's hand. -/
theorem State.count_pop {s : State W} {m : Message} {rest : List Message} (hqueue : s.queue = m :: rest)
    (id : Nat) : s.census.count id
      = ({ s with queue := rest } : State W).census.count id + m.generation?.toList.count id := by
  simp only [State.count_census, hqueue, generations_cons, List.count_append]
  simp only [State.ended]
  omega

theorem State.count_start (env : Env W) {s : State W} (metadata : RunMetadata) (plan : RunPlan)
    (hpc : s.pc = .top) (hactive : s.active = none) (id : Nat) :
    (s.start env metadata plan).census.count id = s.census.count id + [metadata.runId].count id := by
  simp only [State.count_census, State.start_ended, hpc, hactive]
  simp [State.start, Funzzy.start, Pc.successor, Pc.leaving]
  omega

/-- A step that changes only the log keeps the census. -/
theorem State.census_logged (s : State W) (log : List Deed) : { s with log }.census = s.census := rfl

theorem handleIdle_keeps (env : Env W) {s : State W} (m : Message) (hpc : s.pc = .top)
    (hactive : s.active = none) (id : Nat) :
    (s.handleIdle env m).census.count id = s.census.count id + m.generation?.toList.count id := by
  rcases hm : m.command with req | ⟨_ | target, ticket⟩ | ⟨names, ticket⟩ | ⟨runId, plan, revision⟩ <;>
    simp only [State.handleIdle, Message.generation?, hm, State.replyCancel_eq, State.reply,
      State.census_logged, Option.toList_none, Option.toList_some, List.count_nil, Nat.add_zero]
  · exact State.count_start env req.metadata req.plan hpc hactive id
  · exact State.count_start env (servicesMetadata runId revision) plan hpc hactive id

theorem handleBusy_keeps {failFast : Bool} (env : Env W) {s : State W} {run : Run} (m : Message)
    (hs : s.Sound failFast) (hpc : s.pc = .stepped) (hactive : s.active = some run) (id : Nat) :
    (s.handleBusy env run m).census.count id + m.services?.toList.count id
      = s.census.count id + m.generation?.toList.count id := by
  simp only [State.count_census, Message.services?]
  rcases hm : m.command with req | ⟨_ | target, ticket⟩ | ⟨names, ticket⟩ | ⟨runId, plan, revision⟩ <;>
    simp only [State.handleBusy, hm, State.replyCancel_eq, State.reply]
  · simp [Message.generation?, hm, hpc, hactive, Pc.successor, Pc.leaving, State.ended]
    omega
  · simp [Message.generation?, hm, hpc, hactive, Pc.successor, Pc.leaving, State.ended]
  · split
    · simp [Message.generation?, hm, hpc, hactive, Pc.successor, Pc.leaving, State.ended]
    · simp [Message.generation?, hm, hpc, hactive, Pc.successor, Pc.leaving, State.ended]
  · obtain ⟨token, -, hsound⟩ := hs.token hactive (by simp [hpc])
    obtain ⟨hid, hmilestones, -⟩ := reconcileServices_generation env s.io names hsound
    rcases hr : reconcileServices env s.io run names with ⟨io, run', still⟩
    rw [hr] at hid hmilestones
    simp only at hid hmilestones
    simp [Message.generation?, hm, hid, hpc, hactive, Pc.successor, Pc.leaving, State.ended,
      hmilestones]
  · simp [Message.generation?, hm, appendPlan, hpc, hactive, Pc.successor, Pc.leaving, State.ended]

theorem handleDrain_keeps {s : State W} (m : Message) (hpc : s.pc = .draining) (id : Nat) :
    (s.handleDrain m).census.count id + (s.drainForfeits m).count id
      = s.census.count id + m.generation?.toList.count id := by
  simp only [State.count_census]
  rcases hm : m.command with req | ⟨_ | target, ticket⟩ | ⟨names, ticket⟩ | ⟨runId, plan, revision⟩ <;>
    simp only [State.handleDrain, State.drainForfeits, hm]
  · simp [Message.generation?, hm, State.ended]
    omega
  · simp [Message.generation?, hm, hpc, Pc.successor, Pc.leaving, State.ended]
  · rcases hpending : s.pending with _ | req
    · simp [State.replyCancel_eq, Message.generation?, hm, hpending, State.ended]
    · by_cases htarget : req.runId = target
      · simp [State.replyCancel_eq, Message.generation?, hm, htarget, State.ended, Option.filter_some]
        omega
      · simp [State.replyCancel_eq, Message.generation?, hm, hpending, htarget, State.ended,
          Option.filter_some]
  · simp [Message.generation?, hm, hpc, Pc.successor, Pc.leaving, State.ended]
  · simp [Message.generation?, hm, hpc, Pc.successor, Pc.leaving, State.ended]

theorem Consumed.keeps {ex : LawfulExecutor} {env : Env W} {s s' : State W} (h : Consumed ex env s s')
    (hs : s.Sound ex.failFast) (hshape : s.Shaped) (polls id : Nat) :
    s'.census.count id + (s.forfeits (.consume polls)).count id = s.census.count id := by
  cases h with
  | promoted req hpc hactive hpending =>
    have hstart := State.count_start env (s := { s with pending := none }) req.metadata req.plan hpc
      hactive id
    rw [hstart]
    simp only [State.count_census, State.forfeits, hpc, hpending]
    simp [RunRequest.metadata, State.ended]
    omega
  | received m rest hpc hactive hpending hqueue =>
    rw [handleIdle_keeps env (s := { s with queue := rest }) m hpc hactive id,
      ← State.count_pop hqueue]
    simp [State.forfeits, hpc]
  | exited hpc hactive hpending hqueue =>
    simp [State.count_census, State.forfeits, hpc, Pc.successor, Pc.leaving, State.ended]
  | entered run hpc =>
    simp [State.count_census, State.forfeits, hpc, Pc.successor, Pc.leaving, State.ended]
  | registered run hpc =>
    simp [State.count_census, State.forfeits, hpc, Pc.successor, Pc.leaving, State.ended]
  | running token polls' run run' io hpc hactive hr =>
    have hrun := hs run hactive
    simp only [hpc] at hrun
    obtain ⟨hid, hmilestones, -⟩ := State.advance_generation hrun hr
    simp [State.count_census, State.forfeits, hpc, hactive, hid, Pc.successor, Pc.leaving, State.ended,
      hmilestones]
  | finished token polls' run run' io hpc hactive hr =>
    have hrun := hs run hactive
    simp only [hpc] at hrun
    obtain ⟨hid, hmilestones, -⟩ := State.advance_generation hrun hr
    simp [State.count_census, State.forfeits, hpc, hactive, hid, Pc.successor, Pc.leaving, State.ended,
      hmilestones]
  | taken run m rest hpc hactive hqueue =>
    have hpopped : ({ s with queue := rest } : State W).Sound ex.failFast :=
      hs.of_pc rfl rfl fun _ hid => hid
    rw [State.count_pop hqueue, ← handleBusy_keeps env m hpopped hpc hactive id]
    simp [State.forfeits, hpc, hqueue]
  | waited run hpc hactive hqueue =>
    simp [State.count_census, State.forfeits, hpc, hqueue, Pc.successor, Pc.leaving, State.ended]
  | replaced old req request hpc =>
    have hnone := hshape.leaving (by simp [hpc, Pc.leaving])
    rw [State.count_census, State.count_census, State.replace_ended]
    simp [State.replace, State.unregister, State.forfeits, hpc, hnone.1, hnone.2, Pc.successor,
      Pc.leaving]
    omega
  | retired old m hpc =>
    rw [State.count_census, State.count_census, State.retire_ended, State.retire_eq]
    simp [State.forfeits, hpc, Pc.successor, Pc.leaving]
    omega
  | completed old hpc =>
    rw [State.count_census, State.count_census, State.finish_ended]
    simp [State.finish, State.unregister, State.forfeits, hpc, Pc.successor, Pc.leaving]
    omega
  | drained m rest hpc hqueue =>
    rw [State.count_pop hqueue, ← handleDrain_keeps (s := { s with queue := rest }) m hpc id]
    simp [State.forfeits, hpc, hqueue, State.drainForfeits]
  | left hpc hqueue =>
    simp [State.count_census, State.forfeits, hpc, hqueue, Pc.successor, Pc.leaving, State.ended]

/-- Signalling sets tokens and nothing else. -/
theorem State.signal_eq (s : State W) (command : WorkerCommand) :
    ∃ tokens, s.signal command = { s with cancelled := s.cancelled ++ tokens } ∧
      ∀ id ∈ tokens, id ∈ s.registry := by
  rcases command with _ | ⟨_ | id, _⟩ | _ | _
  · exact ⟨s.registry, rfl, fun _ hid => hid⟩
  · exact ⟨s.registry, rfl, fun _ hid => hid⟩
  · exact ⟨_, rfl, fun _ hid => (List.mem_filter.mp hid).1⟩
  · exact ⟨[], by simp [State.signal], fun _ hid => by cases hid⟩
  · exact ⟨[], by simp [State.signal], fun _ hid => by cases hid⟩

/-- The census after a step, with what it forfeits, is the census before it, with what it allocates. -/
theorem Happens.keeps {ex : LawfulExecutor} {env : Env W} {s s' : State W} {l : Label}
    (h : Happens ex env s l s') (hs : s.Sound ex.failFast) (hshape : s.Shaped) (id : Nat) :
    s'.census.count id + (s.forfeits l).count id = s.census.count id + (s.allocates l).count id := by
  cases h with
  | called c =>
    cases c <;> simp [State.count_census, State.call, State.forfeits, State.allocates, State.ended,
      Message.generation?]
    omega
  | prepared i draft request l₁ l₂ hi hsplit =>
    simp only [State.count_census, hsplit]
    simp [State.forfeits, State.allocates, State.ended, Message.generation?, List.count_cons]
    omega
  | failed i draft request l₁ l₂ hi hsplit =>
    simp only [State.count_census, hsplit]
    simp [State.forfeits, State.allocates, State.ended]
  | signalled i m next l₁ l₂ hi hsplit =>
    obtain ⟨tokens, hsignal, -⟩ := s.signal_eq m.command
    simp only [State.count_census, hsplit, hsignal]
    simp [State.forfeits, State.allocates, State.ended]
  | enqueued i m next l₁ l₂ hi hsplit =>
    have hbalance := (enqueue_rewrites s.queue m).count_generations id
    have hended := congrArg (List.count id) (State.enqueue_ended s m)
    simp only [State.ended, List.count_append] at hended
    simp only [State.count_census, hsplit, State.ended, hended]
    simp [State.forfeits, State.allocates, State.enqueue] at hbalance ⊢
    omega
  | closed => simp [State.count_census, State.forfeits, State.allocates, State.ended]
  | consumed polls s' hstep =>
    rw [hstep.keeps hs hshape polls id]
    simp [State.allocates]

/-! ### Tokens -/

/-- Tokens belong to generations that have started: a registered one has not ended. -/
structure State.Tokens (s : State W) : Prop where
  registered : ∀ id ∈ s.registry, id ∈ s.running
  signalled : ∀ id ∈ s.cancelled, id ∈ s.running ∨ id ∈ s.ended

/-- Steps that end nothing and keep what runs. -/
theorem State.Tokens.of_running {s s' : State W} (h : s.Tokens) (hregistry : s'.registry = s.registry)
    (hcancelled : s'.cancelled = s.cancelled) (hrunning : ∀ id ∈ s.running, id ∈ s'.running)
    (hended : ∀ id ∈ s.ended, id ∈ s'.ended) : s'.Tokens where
  registered := by
    intro id hid
    rw [hregistry] at hid
    exact hrunning id (h.registered id hid)
  signalled := by
    intro id hid
    rw [hcancelled] at hid
    exact (h.signalled id hid).imp (hrunning id) (hended id)

/-- Ending the run in the consumer's hand takes its token out of the registry. -/
theorem State.Tokens.of_leaving {s s' : State W} {old : Run} (h : s.Tokens)
    (hrunning : s.running = [old.metadata.runId])
    (hregistry : s'.registry = s.registry.filter fun id => id ≠ old.metadata.runId)
    (hcancelled : s'.cancelled = s.cancelled) (hended : s'.ended = s.ended ++ [old.metadata.runId]) :
    s'.Tokens where
  registered := by
    intro id hid
    rw [hregistry, List.mem_filter] at hid
    have hrun := h.registered id hid.1
    rw [hrunning] at hrun
    simp_all
  signalled := by
    intro id hid
    rw [hcancelled] at hid
    rw [hended]
    rcases h.signalled id hid with hrun | hend
    · rw [hrunning] at hrun
      exact .inr (List.mem_append_right _ hrun)
    · exact .inr (List.mem_append_left _ hend)

theorem State.running_of_active {s : State W} {run : Run} (h : s.active = some run) :
    run.metadata.runId ∈ s.running := by
  simp [State.running, h]

theorem State.start_ended_mem (env : Env W) (s : State W) (metadata : RunMetadata) (plan : RunPlan) :
    ∀ id ∈ s.ended, id ∈ (s.start env metadata plan).ended := by
  rw [State.start_ended]
  exact fun _ hid => hid

theorem handleIdle_tokens {env : Env W} {s : State W} (m : Message) (h : s.Tokens)
    (hpc : s.pc = .top) (hactive : s.active = none) : (s.handleIdle env m).Tokens := by
  have hidle : s.running = [] := by simp [State.running, hactive, hpc, Pc.leaving]
  have hnone : ∀ s' : State W, ∀ id ∈ s.running, id ∈ s'.running := by
    intro s' id hid
    rw [hidle] at hid
    cases hid
  unfold State.handleIdle
  split
  · exact h.of_running rfl rfl (hnone _) (State.start_ended_mem env s _ _)
  · rw [State.replyCancel_eq]
    exact h.of_running rfl rfl (fun _ hid => hid) fun _ hid => hid
  · exact h
  · exact h.of_running rfl rfl (fun _ hid => hid) fun _ hid => hid
  · exact h.of_running rfl rfl (hnone _) (State.start_ended_mem env s _ _)

theorem handleBusy_tokens {failFast : Bool} {env : Env W} {s : State W} {run : Run} (m : Message)
    (h : s.Tokens) (hs : s.Sound failFast) (hpc : s.pc = .stepped) (hactive : s.active = some run) :
    (s.handleBusy env run m).Tokens := by
  have hkeep : ∀ s' : State W, run.metadata.runId ∈ s'.running → ∀ id ∈ s.running, id ∈ s'.running := by
    intro s' hrun id hid
    simp only [State.running, hactive, hpc, Pc.leaving, Option.map_some, Option.toList_some,
      List.append_nil, List.mem_singleton] at hid
    rw [hid]
    exact hrun
  unfold State.handleBusy
  split
  · exact h.of_running rfl rfl (hkeep _ (by simp [State.running, Pc.leaving])) fun _ hid => hid
  · split
    · exact h.of_running rfl rfl (hkeep _ (by simp [State.running, Pc.leaving])) fun _ hid => hid
    · rw [State.replyCancel_eq]
      exact h.of_running rfl rfl (hkeep _ (by simp [State.running, hactive])) fun _ hid => hid
  · exact h.of_running rfl rfl (hkeep _ (by simp [State.running, Pc.leaving])) fun _ hid => hid
  · rename_i names ticket _
    obtain ⟨token, -, hsound⟩ := hs.token hactive (by simp [hpc])
    obtain ⟨hid, hmilestones, -⟩ := reconcileServices_generation env s.io names hsound
    rcases hr : reconcileServices env s.io run names with ⟨io, run', still⟩
    rw [hr] at hid hmilestones
    simp only at hid hmilestones
    refine h.of_running rfl rfl (hkeep _ (by simp [State.running, State.reply, hid])) fun other hother => ?_
    simpa [State.ended, State.reply, hmilestones] using hother
  · exact h.of_running rfl rfl (hkeep _ (by simp [State.running, appendPlan])) fun _ hid => hid

theorem handleDrain_tokens {s : State W} (m : Message) (h : s.Tokens) (hpc : s.pc = .draining) :
    (s.handleDrain m).Tokens := by
  have hsame : ∀ s' : State W, s'.registry = s.registry → s'.cancelled = s.cancelled →
      s'.active = s.active → s'.pc.leaving = [] → s'.io = s.io → s'.Tokens := by
    intro s' hregistry hcancelled hactive hleaving hio
    refine h.of_running hregistry hcancelled ?_ ?_
    · have hsame' : s'.running = s.running := by
        rw [State.running, State.running, hactive, hleaving, hpc]
        rfl
      rw [hsame']
      exact fun _ hid => hid
    · simp [State.ended, hio]
  have hpc' : s.pc.leaving = [] := by rw [hpc]; rfl
  unfold State.handleDrain
  split
  · exact hsame _ rfl rfl rfl hpc' rfl
  · split
    · split
      · rw [State.replyCancel_eq]
        exact hsame _ rfl rfl rfl hpc' rfl
      · rw [State.replyCancel_eq]
        exact hsame _ rfl rfl rfl hpc' rfl
    · rw [State.replyCancel_eq]
      exact hsame _ rfl rfl rfl hpc' rfl
  all_goals exact hsame _ rfl rfl rfl rfl rfl

theorem Consumed.tokens {ex : LawfulExecutor} {env : Env W} {s s' : State W} (h : Consumed ex env s s')
    (hs : s.Sound ex.failFast) (hshape : s.Shaped) (ht : s.Tokens) : s'.Tokens := by
  -- the run in the consumer's hand is the only one that has started
  have hleaving : ∀ old : Run, s.pc.leaving = [old.metadata.runId] →
      s.running = [old.metadata.runId] := by
    intro old hpc
    have hnone := hshape.leaving (by simp [hpc])
    simp [State.running, hnone.1, hpc]
  cases h with
  | promoted req hpc hactive =>
    refine ht.of_running rfl rfl ?_
      (State.start_ended_mem env { s with pending := none } req.metadata req.plan)
    simp [State.running, hactive, hpc, Pc.leaving]
  | received m rest hpc hactive =>
    exact handleIdle_tokens m (ht.of_running rfl rfl (fun _ hid => hid) fun _ hid => hid) hpc hactive
  | exited hpc | entered run hpc | waited run hpc | left hpc =>
    exact ht.of_running rfl rfl (by simp [State.running, hpc, Pc.leaving]) fun _ hid => hid
  | registered run hpc hactive =>
    refine ⟨fun id hid => ?_, fun id hid => (ht.signalled id hid).imp ?_ fun hend => hend⟩
    · have hrun := State.running_of_active hactive
      rcases List.mem_insert_iff.mp hid with rfl | hid
      · simpa [State.running, hpc, Pc.leaving] using hrun
      · simpa [State.running, hpc, Pc.leaving] using ht.registered id hid
    · simp [State.running, hpc, Pc.leaving]
  | running token polls run run' io hpc hactive hr =>
    have hrun := hs run hactive
    simp only [hpc] at hrun
    obtain ⟨hid, hmilestones, -⟩ := State.advance_generation hrun hr
    exact ht.of_running rfl rfl (by simp [State.running, hactive, hpc, Pc.leaving, hid])
      (by simp [State.ended, hmilestones])
  | finished token polls run run' io hpc hactive hr =>
    have hrun := hs run hactive
    simp only [hpc] at hrun
    obtain ⟨hid, hmilestones, -⟩ := State.advance_generation hrun hr
    exact ht.of_running rfl rfl (by simp [State.running, hactive, hpc, Pc.leaving, hid])
      (by simp [State.ended, hmilestones])
  | taken run m rest hpc hactive =>
    have hpopped : ({ s with queue := rest } : State W).Sound ex.failFast :=
      hs.of_pc rfl rfl fun _ hid => hid
    exact handleBusy_tokens m (ht.of_running rfl rfl (fun _ hid => hid) fun _ hid => hid) hpopped hpc
      hactive
  | replaced old req request hpc =>
    exact ht.of_leaving (hleaving old (by rw [hpc]; rfl)) rfl rfl (State.replace_ended env s old req request)
  | retired old m hpc =>
    refine ht.of_leaving (hleaving old (by rw [hpc]; rfl)) ?_ ?_ (State.retire_ended env s old m)
    · rw [State.retire_eq]
    · rw [State.retire_eq]
  | completed old hpc =>
    exact ht.of_leaving (hleaving old (by rw [hpc]; rfl)) rfl rfl (State.finish_ended env s old)
  | drained m rest hpc =>
    exact handleDrain_tokens m (ht.of_running rfl rfl (fun _ hid => hid) fun _ hid => hid) hpc

theorem Happens.tokens {ex : LawfulExecutor} {env : Env W} {s s' : State W} {l : Label}
    (h : Happens ex env s l s') (hs : s.Sound ex.failFast) (hshape : s.Shaped) (ht : s.Tokens) :
    s'.Tokens := by
  cases h with
  | called c => cases c <;> exact ht.of_running rfl rfl (fun _ hid => hid) fun _ hid => hid
  | prepared | failed | closed => exact ht.of_running rfl rfl (fun _ hid => hid) fun _ hid => hid
  | signalled i m next l₁ l₂ =>
    obtain ⟨tokens, hsignal, htokens⟩ := s.signal_eq m.command
    rw [hsignal]
    refine ⟨ht.registered, fun id hid => ?_⟩
    rcases List.mem_append.mp hid with hid | hid
    · exact ht.signalled id hid
    · exact .inl (ht.registered id (htokens id hid))
  | enqueued i m =>
    refine ht.of_running rfl rfl (fun _ hid => hid) fun id hid => ?_
    have hended := State.enqueue_ended s m
    simp only [State.ended] at hended hid ⊢
    rw [hended]
    exact List.mem_append_left _ hid
  | consumed polls s' hstep => exact hstep.tokens hs hshape ht

/-! ### The invariant -/

/-- No generation is anywhere twice, and tokens belong to generations that have started. -/
structure Census (failFast : Bool) (s : State W) : Prop where
  sound : s.Sound failFast
  shaped : s.Shaped
  tokens : s.Tokens
  once : ∀ id, s.census.count id ≤ 1
  bounded : ∀ id, s.nextRunId < id → s.census.count id = 0

theorem Consumed.nextRunId_eq {ex : LawfulExecutor} {env : Env W} {s s' : State W}
    (h : Consumed ex env s s') : s'.nextRunId = s.nextRunId := by
  cases h with
  | received m =>
    unfold State.handleIdle
    split <;> simp only [State.replyCancel_eq, State.start, State.reply]
  | taken run m =>
    unfold State.handleBusy
    split
    · rfl
    · split <;> simp only [State.replyCancel_eq]
    all_goals rfl
  | retired old m => rw [State.retire_eq]
  | drained m =>
    unfold State.handleDrain
    split
    · rfl
    · split
      · split <;> simp only [State.replyCancel_eq]
      · simp only [State.replyCancel_eq]
    all_goals rfl
  | _ => rfl

theorem Happens.nextRunId_eq {ex : LawfulExecutor} {env : Env W} {s s' : State W} {l : Label}
    (h : Happens ex env s l s') :
    (s'.nextRunId = s.nextRunId ∧ s.allocates l = []) ∨
      (s'.nextRunId = s.nextRunId + 1 ∧ s.allocates l = [s.nextRunId + 1]) := by
  cases h with
  | called c => cases c <;> simp [State.call, State.allocates]
  | prepared => exact .inr ⟨rfl, rfl⟩
  | signalled i m =>
    obtain ⟨tokens, hsignal, -⟩ := s.signal_eq m.command
    rw [hsignal]
    exact .inl ⟨rfl, rfl⟩
  | consumed polls s' hstep => exact .inl ⟨hstep.nextRunId_eq, rfl⟩
  | _ => exact .inl ⟨rfl, rfl⟩

/-- Every step of the worker keeps the census. -/
theorem Happens.census {ex : LawfulExecutor} {env : Env W} {s s' : State W} {l : Label}
    (h : Happens ex env s l s') (hs : Census ex.failFast s) : Census ex.failFast s' := by
  have hkeeps := h.keeps hs.sound hs.shaped
  refine ⟨h.sound hs.sound, h.shaped hs.shaped, h.tokens hs.sound hs.shaped hs.tokens, ?_, ?_⟩
  · intro id
    have honce := hs.once id
    have hbounded := hs.bounded id
    have hbalance := hkeeps id
    rcases h.nextRunId_eq with ⟨-, hnone⟩ | ⟨-, hnew⟩
    · rw [hnone, List.count_nil] at hbalance
      omega
    · rw [hnew, List.count_singleton] at hbalance
      by_cases hid : s.nextRunId + 1 = id
      · have hzero := hbounded (by omega)
        simp only [hid, beq_self_eq_true, if_true] at hbalance
        omega
      · simp only [beq_iff_eq, hid, if_false] at hbalance
        omega
  · intro id hlt
    have hbalance := hkeeps id
    rcases h.nextRunId_eq with ⟨hsame, hnone⟩ | ⟨hsucc, hnew⟩
    · rw [hnone, List.count_nil] at hbalance
      have hzero := hs.bounded id (by omega)
      omega
    · rw [hnew, List.count_singleton] at hbalance
      have hzero := hs.bounded id (by omega)
      have hid : ¬s.nextRunId + 1 = id := by omega
      simp only [beq_iff_eq, hid, if_false] at hbalance
      omega

theorem State.initial_census (failFast : Bool) (world : W) : Census failFast (State.initial world) where
  sound := State.sound_of_none rfl
  shaped := State.shaped_of_none rfl rfl
  tokens :=
    { registered := by intro id hid; cases hid
      signalled := by intro id hid; cases hid }
  once _ := by simp [State.initial, State.count_census, Pc.successor, Pc.leaving, State.ended, milestones]
  bounded _ _ := by
    simp [State.initial, State.count_census, Pc.successor, Pc.leaving, State.ended, milestones]

end Funzzy
