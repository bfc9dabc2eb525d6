import Funzzy.Worker.Lifecycle
import Funzzy.Executor.Session

/-! No command is dropped.

    Here commands are placed in the worker's queue as they come, in any order, and tokens are set at any
    time; only the consumer works on the queue. `Acted` relates what the consumer has done to the
    messages it has taken: replies and service plans in order, and nothing alive that a bare cancel
    came after. The one place where a message is taken and not acted on is the catch-all arm of the
    burst drain. -/

namespace Funzzy

variable {W : Type}

/-! ### The command stream -/

/-- The worker with every message that was ever placed in its queue. -/
structure Stream (W : Type) where
  worker : State W
  placed : List Message := []

inductive StreamLabel where
  | place (m : Message)
  | signal (generation : Option Nat)
  | close
  | consume (polls : Nat)
  deriving DecidableEq

def Stream.step (ex : Executor) (env : Env W) (stream : Stream W) : StreamLabel → Option (Stream W)
  | .place m =>
    some { worker := { stream.worker with queue := stream.worker.queue ++ [m] }
           placed := stream.placed ++ [m] }
  | .signal generation => some { stream with worker := stream.worker.cancelActive generation }
  | .close => some { stream with worker := { stream.worker with closed := true } }
  | .consume polls => (stream.worker.consume ex env polls).map fun worker => { stream with worker }

def Stream.initial (world : W) : Stream W := { worker := State.initial world }

/-- The reply channel of a message that has one. -/
def Message.ticket? (m : Message) : Option Nat :=
  match m.command with
  | .cancel (some _) reply => reply
  | .reconcileServices _ reply => some reply
  | .cancel none _ | .run _ | .startServices _ _ _ => none

/-- The call a reply went to. -/
def Deed.ticket? : Deed → Option Nat
  | .replied ticket _ => some ticket
  | _ => none

/-- The service plan that was appended to the active run or started. -/
def Deed.plan? : Deed → Option Nat
  | .servicesAppended runId _ => some runId
  | .servicesStarted runId => some runId
  | _ => none

/-- The messages after the last bare cancel. -/
def sinceCancel (messages : List Message) : List Message :=
  messages.rtakeWhile fun m => !m.command.isBareCancel

/-- The generations that are active or wait in the consumer's pending slot. -/
def State.alive (s : State W) : List Nat :=
  (s.active.map (·.metadata.runId)).toList ++ (s.pending.map (·.runId)).toList ++ s.pc.successor

/-- The burst drain takes only messages that it acts on: Runs, exact cancels, and a bare cancel when
    no request is pending. -/
def Stream.DrainActs (stream : Stream W) : StreamLabel → Prop
  | .consume _ =>
    match stream.worker.pc, stream.worker.queue with
    | .draining, m :: _ =>
      match m.command with
      | .run _ | .cancel (some _) _ => True
      | .cancel none _ => stream.worker.pending = none
      | .reconcileServices _ _ | .startServices _ _ _ => False
    | _, _ => True
  | _ => True

instance (stream : Stream W) (l : StreamLabel) : Decidable (stream.DrainActs l) := by
  unfold Stream.DrainActs
  split
  · split
    · split <;> infer_instance
    · infer_instance
  · infer_instance

/-! ### What the consumer has acted on -/

/-- The reply the consumer still has to give for the message in its hand. -/
def Pc.owes : Pc → List Nat
  | .retiring _ m => m.command.exactReply.toList
  | _ => []

/-- The consumer has acted on the messages it has taken. -/
structure State.Acted (s : State W) (taken : List Message) : Prop where
  replies : s.log.filterMap Deed.ticket? ++ s.pc.owes = taken.filterMap Message.ticket?
  plans : s.log.filterMap Deed.plan? = taken.filterMap Message.services?
  recent : ∀ id ∈ s.alive, id ∈ generations (sinceCancel taken)

/-- A step that takes no message. -/
theorem State.Acted.quiet {s s' : State W} {taken : List Message} (h : s.Acted taken)
    (hreplies : s'.log.filterMap Deed.ticket? ++ s'.pc.owes
      = s.log.filterMap Deed.ticket? ++ s.pc.owes)
    (hplans : s'.log.filterMap Deed.plan? = s.log.filterMap Deed.plan?)
    (halive : ∀ id ∈ s'.alive, id ∈ s.alive) : s'.Acted taken where
  replies := hreplies.trans h.replies
  plans := hplans.trans h.plans
  recent id hid := h.recent id (halive id hid)

/-- A step that takes a message and acts on it. -/
theorem State.Acted.take {s s' : State W} {taken : List Message} (h : s.Acted taken) (m : Message)
    (hreplies : s'.log.filterMap Deed.ticket? ++ s'.pc.owes
      = s.log.filterMap Deed.ticket? ++ s.pc.owes ++ m.ticket?.toList)
    (hplans : s'.log.filterMap Deed.plan? = s.log.filterMap Deed.plan? ++ m.services?.toList)
    (halive : ∀ id ∈ s'.alive,
      m.command.isBareCancel = false ∧ (id ∈ s.alive ∨ m.generation? = some id)) :
    s'.Acted (taken ++ [m]) where
  replies := by
    rw [hreplies, h.replies, List.filterMap_append]
    cases hm : m.ticket? <;> simp [hm]
  plans := by
    rw [hplans, h.plans, List.filterMap_append]
    cases hm : m.services? <;> simp [hm]
  recent := by
    intro id hid
    obtain ⟨hbare, hsource⟩ := halive id hid
    rw [sinceCancel, List.rtakeWhile_concat_pos _ _ _ (by simp [hbare]), generations_append,
      List.mem_append]
    rcases hsource with hold | hnew
    · exact .inl (h.recent id hold)
    · exact .inr (by simp [hnew])

theorem handleIdle_acted (env : Env W) {s : State W} {m : Message} {rest taken : List Message}
    (hpc : s.pc = .top) (hactive : s.active = none) (hpending : s.pending = none)
    (h : s.Acted taken) :
    ({ s with queue := rest }.handleIdle env m).Acted (taken ++ [m]) := by
  have hnone : s.alive = [] := by simp [State.alive, hactive, hpending, hpc, Pc.successor]
  rcases hm : m.command with req | ⟨_ | id, ticket⟩ | ⟨names, ticket⟩ | ⟨runId, plan, revision⟩ <;>
    simp only [State.handleIdle, hm]
  · refine h.take m ?_ ?_ fun id hid => ?_
    · simp [State.start, Message.ticket?, hm, hpc, Pc.owes]
    · simp [State.start, Message.services?, hm]
    · have hid : id = req.runId := by
        simpa [State.alive, State.start, Funzzy.start, hpending, Pc.successor, RunRequest.metadata]
          using hid
      simp [hm, WorkerCommand.isBareCancel, Message.generation?, hid]
  · refine h.take m ?_ ?_ fun id hid => ?_
    · simp [Message.ticket?, hm]
    · simp [Message.services?, hm]
    · simp [State.alive, hactive, hpending, hpc, Pc.successor] at hid
  · rw [State.replyCancel_eq]
    refine h.take m ?_ ?_ fun id hid => ?_
    · cases ticket <;> simp [Message.ticket?, hm, hpc, Pc.owes, Deed.ticket?]
    · cases ticket <;> simp [Message.services?, hm, Deed.plan?]
    · simp [State.alive, hactive, hpending, hpc, Pc.successor] at hid
  · refine h.take m ?_ ?_ fun id hid => ?_
    · simp [State.reply, Message.ticket?, hm, hpc, Pc.owes, Deed.ticket?]
    · simp [State.reply, Message.services?, hm, Deed.plan?]
    · simp [State.alive, State.reply, hactive, hpending, hpc, Pc.successor] at hid
  · refine h.take m ?_ ?_ fun id hid => ?_
    · simp [State.start, Message.ticket?, hm, hpc, Pc.owes, Deed.ticket?]
    · simp [Message.services?, hm, Deed.plan?]
    · have hid : id = runId := by
        simpa [State.alive, State.start, Funzzy.start, hpending, Pc.successor, servicesMetadata]
          using hid
      simp [hm, WorkerCommand.isBareCancel, Message.generation?, hid]

theorem handleBusy_acted {failFast : Bool} (env : Env W) {s : State W} {run : Run} {m : Message}
    {rest taken : List Message} (hs : s.Sound failFast) (hpc : s.pc = .stepped)
    (hactive : s.active = some run) (hpending : s.pending = none) (h : s.Acted taken) :
    ({ s with queue := rest }.handleBusy env run m).Acted (taken ++ [m]) := by
  have halive : s.alive = [run.metadata.runId] := by
    simp [State.alive, hactive, hpending, hpc, Pc.successor]
  rcases hm : m.command with req | ⟨_ | id, ticket⟩ | ⟨names, ticket⟩ | ⟨runId, plan, revision⟩ <;>
    simp only [State.handleBusy, hm]
  · refine h.take m ?_ ?_ fun id hid => ?_
    · simp [Message.ticket?, hm, hpc, Pc.owes]
    · simp [Message.services?, hm]
    · have hid : id = req.runId := by simpa [State.alive, hpending, Pc.successor] using hid
      simp [hm, WorkerCommand.isBareCancel, Message.generation?, hid]
  · refine h.take m ?_ ?_ fun id hid => ?_
    · simp [Message.ticket?, hm, hpc, Pc.owes, WorkerCommand.exactReply]
    · simp [Message.services?, hm]
    · simp [State.alive, hpending, Pc.successor] at hid
  · split
    · refine h.take m ?_ ?_ fun id hid => ?_
      · simp [Message.ticket?, hm, hpc, Pc.owes, WorkerCommand.exactReply]
      · simp [Message.services?, hm]
      · simp [State.alive, hpending, Pc.successor] at hid
    · rw [State.replyCancel_eq]
      refine h.take m ?_ ?_ fun id hid => ?_
      · cases ticket <;> simp [Message.ticket?, hm, hpc, Pc.owes, Deed.ticket?]
      · cases ticket <;> simp [Message.services?, hm, Deed.plan?]
      · refine ⟨by simp [hm, WorkerCommand.isBareCancel], .inl ?_⟩
        simpa [State.alive, hpc, Pc.successor] using hid
  · obtain ⟨token, -, hsound⟩ := hs.token hactive (by simp [hpc])
    obtain ⟨hrun, -, -⟩ := reconcileServices_generation env s.io names hsound
    rcases hr : reconcileServices env s.io run names with ⟨io, run', still⟩
    rw [hr] at hrun
    simp only at hrun
    refine h.take m ?_ ?_ fun id hid => ?_
    · simp [State.reply, Message.ticket?, hm, hpc, Pc.owes, Deed.ticket?]
    · simp [State.reply, Message.services?, hm, Deed.plan?]
    · refine ⟨by simp [hm, WorkerCommand.isBareCancel], .inl ?_⟩
      rw [halive]
      simpa [State.alive, State.reply, hpending, Pc.successor, hrun] using hid
  · refine h.take m ?_ ?_ fun id hid => ?_
    · simp [Message.ticket?, hm, hpc, Pc.owes, Deed.ticket?]
    · simp [Message.services?, hm, Deed.plan?]
    · refine ⟨by simp [hm, WorkerCommand.isBareCancel], .inl ?_⟩
      rw [halive]
      simpa [State.alive, hpending, Pc.successor, appendPlan] using hid

theorem handleDrain_acted {s : State W} {m : Message} {rest taken : List Message}
    (hpc : s.pc = .draining) (hactive : s.active = none) (hqueue : s.queue = m :: rest)
    {polls : Nat} {placed : List Message}
    (hdrain : Stream.DrainActs { worker := s, placed } (.consume polls)) (h : s.Acted taken) :
    ({ s with queue := rest }.handleDrain m).Acted (taken ++ [m]) := by
  simp only [Stream.DrainActs, hpc, hqueue] at hdrain
  have halive : s.alive = (s.pending.map (·.runId)).toList := by
    simp [State.alive, hactive, hpc, Pc.successor]
  rcases hm : m.command with req | ⟨_ | id, ticket⟩ | ⟨names, ticket⟩ | ⟨runId, plan, revision⟩ <;>
    simp only [hm] at hdrain <;> simp only [State.handleDrain, hm]
  · refine h.take m ?_ ?_ fun id hid => ?_
    · cases s.pending <;> simp [Message.ticket?, hm, hpc, Pc.owes, Deed.ticket?]
    · cases s.pending <;> simp [Message.services?, hm, Deed.plan?]
    · have hid : id = req.runId := by simpa [State.alive, hactive, hpc, Pc.successor] using hid
      simp [hm, WorkerCommand.isBareCancel, Message.generation?, hid]
  · refine h.take m ?_ ?_ fun id hid => ?_
    · simp [Message.ticket?, hm, hpc, Pc.owes]
    · simp [Message.services?, hm]
    · simp [State.alive, hactive, hdrain, Pc.successor] at hid
  · -- an exact cancel is answered, whether or not it takes the pending request
    have hanswered : ∀ (pending : Option RunRequest) (reply : Reply),
        (pending = none ∨ pending = s.pending) →
        (({ s with queue := rest, pending } : State W).replyCancel ticket reply).Acted
          (taken ++ [m]) := by
      intro pending reply hkept
      rw [State.replyCancel_eq]
      refine h.take m ?_ ?_ fun id hid => ?_
      · cases ticket <;> simp [Message.ticket?, hm, hpc, Pc.owes, Deed.ticket?]
      · cases ticket <;> simp [Message.services?, hm, Deed.plan?]
      · refine ⟨by simp [hm, WorkerCommand.isBareCancel], .inl ?_⟩
        rw [halive]
        rcases hkept with rfl | rfl
        · simp [State.alive, hactive, hpc, Pc.successor] at hid
        · simpa [State.alive, hactive, hpc, Pc.successor] using hid
    split
    · split
      · exact hanswered none _ (.inl rfl)
      · exact hanswered s.pending _ (.inr rfl)
    · exact hanswered s.pending _ (.inr rfl)

/-- A step of the consumer takes no message, or takes the first one and acts on it. -/
theorem Consumed.acted {ex : LawfulExecutor} {env : Env W} {s s' : State W} (h : Consumed ex env s s')
    (hs : s.Sound ex.failFast) (hshape : s.Shaped) {polls : Nat} {placed : List Message}
    (hdrain : Stream.DrainActs { worker := s, placed } (.consume polls)) {taken : List Message}
    (ha : s.Acted taken) :
    (s'.queue = s.queue ∧ s'.Acted taken) ∨
      ∃ m, s.queue = m :: s'.queue ∧ s'.Acted (taken ++ [m]) := by
  cases h with
  | promoted req hpc hactive hpending =>
    refine .inl ⟨rfl, ha.quiet ?_ rfl ?_⟩
    · simp [State.start, hpc, Pc.owes]
    · simp [State.alive, State.start, Funzzy.start, hactive, hpending, hpc, Pc.successor,
        RunRequest.metadata]
  | received m rest hpc hactive hpending hqueue =>
    refine .inr ⟨m, ?_, handleIdle_acted env hpc hactive hpending ha⟩
    rw [handleIdle_queue, hqueue]
  | exited hpc | entered run hpc | registered run hpc | waited run hpc | left hpc =>
    refine .inl ⟨rfl, ha.quiet ?_ rfl ?_⟩
    · simp [hpc, Pc.owes]
    · simp [State.alive, hpc, Pc.successor]
  | running token polls run run' io hpc hactive hr =>
    have hrun := hs run hactive
    simp only [hpc] at hrun
    obtain ⟨hid, -, -⟩ := State.advance_generation hrun hr
    refine .inl ⟨rfl, ha.quiet ?_ rfl ?_⟩
    · simp [hpc, Pc.owes]
    · simp [State.alive, hactive, hid, hpc, Pc.successor]
  | finished token polls run run' io hpc =>
    refine .inl ⟨rfl, ha.quiet ?_ rfl ?_⟩
    · simp [hpc, Pc.owes]
    · simp +contextual [State.alive, hpc, Pc.successor]
  | taken run m rest hpc hactive hqueue =>
    refine .inr ⟨m, ?_, handleBusy_acted env hs hpc hactive (hshape.alone (by simp [hactive])) ha⟩
    rw [handleBusy_queue, hqueue]
  | replaced old req request hpc =>
    refine .inl ⟨rfl, ha.quiet ?_ ?_ ?_⟩
    · simp [State.replace, hpc, Pc.owes, Deed.ticket?]
    · simp [State.replace, Deed.plan?]
    · have hnone := hshape.leaving (by simp [hpc, Pc.leaving])
      simp [State.alive, State.replace, State.unregister, hnone.1, hpc, Pc.successor]
  | retired old m hpc =>
    rw [State.retire_eq]
    refine .inl ⟨rfl, ha.quiet ?_ ?_ ?_⟩
    · cases hticket : m.command.exactReply <;>
        simp [hpc, Pc.owes, Deed.ticket?, hticket, List.filterMap_cons]
    · cases m.command.exactReply <;> simp [Deed.plan?, List.filterMap_cons]
    · simp [State.alive, hpc, Pc.successor]
  | completed old hpc =>
    refine .inl ⟨rfl, ha.quiet ?_ rfl ?_⟩
    · simp [State.finish, State.unregister, hpc, Pc.owes]
    · simp [State.alive, State.finish, State.unregister, hpc, Pc.successor]
  | drained m rest hpc hqueue =>
    refine .inr ⟨m, ?_, handleDrain_acted hpc (hshape.draining hpc) hqueue hdrain ha⟩
    obtain ⟨pending, pc, log, heq, -⟩ := ({ s with queue := rest } : State W).handleDrain_eq m
    rw [heq, hqueue]

/-! ### The turn of a message -/

/-- A reply to the call is given behind `s`. -/
def State.Answers (s last : State W) (ticket : Nat) : Prop :=
  ∃ deeds answer, last.log = s.log ++ deeds ∧ Deed.replied ticket answer ∈ deeds

/-- The Cancelled event of the run is emitted behind `s`. -/
def State.Cancels (s last : State W) (run : Run) : Prop :=
  ∃ events, milestones last.io.trace = milestones s.io.trace ++ events ∧
    Event.cancelled run.metadata.runId none ∈ events

/-- The cancel is meant for the generation. -/
def cancelsGeneration (generation : Option Nat) (id : Nat) : Prop := generation = none ∨ generation = some id

/-- The worker acts on a message that it takes in a step from `s` to `s'`; `last` is a later state. -/
def Message.ActedOn (m : Message) (s s' last : State W) : Prop :=
  match m.command with
  | .run req => req.runId ∈ s'.alive
  | .cancel generation reply =>
    (∀ run ∈ s.active, cancelsGeneration generation run.metadata.runId → s'.Cancels last run) ∧
    (∀ req ∈ s.pending, cancelsGeneration generation req.runId → s'.pending = none) ∧
    (generation ≠ none → ∀ ticket ∈ reply, s.Answers last ticket)
  | .reconcileServices stopNames ticket =>
    s'.active.map (·.services)
      = (s.active.map fun run => run.services.filter fun t => !stopNames.contains t.name) ∧
    s'.log = s.log ++
      [.replied ticket (.services ((s'.active.map fun run => run.services.map (·.name)).getD []))]
  | .startServices runId plan revision =>
    match s.active with
    | some run => s'.active = some { run with stages := run.stages ++ plan.stages }
    | none => ∃ run, s'.active = some run ∧ run.stages = plan.stages ∧
        run.metadata = servicesMetadata runId revision ∧
        s'.io.trace = s.io.trace ++ [.event (.started run.metadata (plan.commands.map (·.display)))]

/-- Deeds and milestones are only ever added. -/
structure State.Grows (s s' : State W) : Prop where
  log : s.log <+: s'.log
  milestones : milestones s.io.trace <+: milestones s'.io.trace

theorem State.Grows.refl (s : State W) : s.Grows s := ⟨List.prefix_rfl, List.prefix_rfl⟩

theorem State.Grows.trans {s t u : State W} (h : s.Grows t) (h' : t.Grows u) : s.Grows u :=
  ⟨h.log.trans h'.log, h.milestones.trans h'.milestones⟩

theorem State.Answers.grow {s t last : State W} {ticket : Nat} (h : s.Answers t ticket)
    (hgrows : t.Grows last) : s.Answers last ticket := by
  obtain ⟨deeds, answer, hlog, hmem⟩ := h
  obtain ⟨more, hmore⟩ := hgrows.log
  refine ⟨deeds ++ more, answer, ?_, List.mem_append_left _ hmem⟩
  rw [← hmore, hlog, List.append_assoc]

theorem State.Cancels.grow {s t last : State W} {run : Run} (h : s.Cancels t run)
    (hgrows : t.Grows last) : s.Cancels last run := by
  obtain ⟨events, hevents, hmem⟩ := h
  obtain ⟨more, hmore⟩ := hgrows.milestones
  refine ⟨events ++ more, ?_, List.mem_append_left _ hmem⟩
  rw [← hmore, hevents, List.append_assoc]

/-- What a later state holds of a message, a still later one does. -/
theorem Message.ActedOn.grow {m : Message} {s s' last last' : State W} (h : m.ActedOn s s' last)
    (hgrows : last.Grows last') : m.ActedOn s s' last' := by
  unfold Message.ActedOn at h ⊢
  rcases hm : m.command with req | ⟨generation, reply⟩ | ⟨names, ticket⟩ | ⟨runId, plan, revision⟩ <;>
    simp only [hm] at h ⊢
  · exact h
  · obtain ⟨hactive, hpending, hanswers⟩ := h
    exact ⟨fun run hrun hmeant => (hactive run hrun hmeant).grow hgrows, hpending,
      fun hexact ticket hticket => (hanswers hexact ticket hticket).grow hgrows⟩
  · exact h
  · exact h

theorem Consumed.grows {ex : LawfulExecutor} {env : Env W} {s s' : State W} (h : Consumed ex env s s')
    (hs : s.Sound ex.failFast) (hshape : s.Shaped) : s.Grows s' := by
  obtain ⟨events, hevents, -⟩ := h.turns hs hshape
  refine ⟨?_, events, hevents.symm⟩
  cases h with
  | received m rest =>
    unfold State.handleIdle
    split
    all_goals first | exact List.prefix_rfl | exact List.prefix_append .. | skip
    rw [State.replyCancel_eq]
    exact List.prefix_append ..
  | taken run m rest =>
    unfold State.handleBusy
    split
    · exact List.prefix_rfl
    · split
      · exact List.prefix_rfl
      · rw [State.replyCancel_eq]
        exact List.prefix_append ..
    · exact List.prefix_rfl
    · exact List.prefix_append ..
    · exact List.prefix_append ..
  | drained m rest =>
    unfold State.handleDrain
    split
    · exact List.prefix_append ..
    · split
      · split
        all_goals
          rw [State.replyCancel_eq]
          exact List.prefix_append ..
      · rw [State.replyCancel_eq]
        exact List.prefix_append ..
    all_goals exact List.prefix_rfl
  | replaced => exact List.prefix_append ..
  | retired =>
    rw [State.retire_eq]
    exact (List.prefix_append ..).trans (List.prefix_append ..)
  | _ => exact List.prefix_rfl

/-- A run that the consumer holds for a cancel is cancelled in its next step, and an exact cancel is
    answered there. -/
theorem State.retire_acts (env : Env W) (s : State W) (old : Run) (m : Message) :
    s.Cancels (s.retire env old m) old ∧
      ∀ ticket ∈ m.command.exactReply, s.Answers (s.retire env old m) ticket := by
  rw [State.retire_eq]
  refine ⟨⟨_, cancel_milestones env s.io old none, List.mem_singleton_self _⟩, fun ticket hticket => ?_⟩
  refine ⟨_, (.cancelled (Funzzy.cancel env s.io old none).2.2 old.revision.1 old.revision.2),
    List.append_assoc .., ?_⟩
  rw [Option.mem_def.mp hticket]
  simp

/-- With a cancel in its hand the consumer can only retire the run it holds. -/
theorem Consumed.of_retiring {ex : LawfulExecutor} {env : Env W} {s s' : State W} {old : Run} {m : Message}
    (h : Consumed ex env s s') (hpc : s.pc = .retiring old m) : s' = s.retire env old m := by
  cases h with
  | retired old' m' hpc' =>
    cases hpc.symm.trans hpc'
    rfl
  | promoted _ hpc' | received _ _ hpc' | exited hpc' | entered _ hpc' | registered _ hpc'
  | running _ _ _ _ _ hpc' | finished _ _ _ _ _ hpc' | taken _ _ _ hpc' | waited _ hpc'
  | replaced _ _ _ hpc' | completed _ hpc' | drained _ _ hpc' | left hpc' =>
    rw [hpc] at hpc'
    cases hpc'

theorem handleIdle_actedOn (env : Env W) {s : State W} {m : Message} {rest : List Message}
    (hactive : s.active = none) (hpending : s.pending = none) :
    m.ActedOn s ({ s with queue := rest }.handleIdle env m) ({ s with queue := rest }.handleIdle env m) := by
  rcases hm : m.command with req | ⟨_ | id, reply⟩ | ⟨names, ticket⟩ | ⟨runId, plan, revision⟩ <;>
    simp only [Message.ActedOn, State.handleIdle, hm, hactive, hpending]
  · simp [State.alive, State.start, Funzzy.start, RunRequest.metadata]
  · simp
  · refine ⟨by simp, by simp, fun _ ticket hticket => ?_⟩
    rw [Option.mem_def.mp hticket]
    exact ⟨_, _, rfl, List.mem_singleton_self _⟩
  · exact ⟨by simp [State.reply], by simp [State.reply]⟩
  · exact ⟨_, rfl, rfl, rfl, rfl⟩

/-- A command received beside an active run is acted on at once, but for a cancel of that run: the
    consumer takes the run out of the active slot first. -/
theorem handleBusy_actedOn (env : Env W) {s : State W} {run : Run} {m : Message}
    {rest : List Message} (hactive : s.active = some run)
    (hpending : s.pending = none) :
    m.ActedOn s ({ s with queue := rest }.handleBusy env run m) ({ s with queue := rest }.handleBusy env run m)
    ∨ (∃ generation reply, m.command = .cancel generation reply) ∧
      { s with queue := rest }.handleBusy env run m
        = { s with queue := rest, active := none, pc := .retiring run m } := by
  rcases hm : m.command with req | ⟨_ | id, reply⟩ | ⟨names, ticket⟩ | ⟨runId, plan, revision⟩ <;>
    simp only [Message.ActedOn, State.handleBusy, hm, hactive, hpending]
  · exact .inl (by simp [State.alive, Pc.successor])
  · exact .inr ⟨⟨none, reply, rfl⟩, trivial⟩
  · split
    · exact .inr ⟨⟨some id, reply, rfl⟩, rfl⟩
    next hother =>
      refine .inl ⟨fun old hold hmeant => ?_, by simp, fun _ ticket hticket => ?_⟩
      · cases hold
        rcases hmeant with hmeant | hmeant <;> cases hmeant
        exact absurd rfl hother
      · rw [Option.mem_def.mp hticket]
        exact ⟨_, _, rfl, List.mem_singleton_self _⟩
  · obtain ⟨-, -, hrun⟩ := reconcileFrom_eq env names run.services [] s.io run rfl
    have hservices : (reconcileServices env s.io run names).2.1.services
        = run.services.filter fun t => !names.contains t.name := congrArg Run.services hrun
    rcases hr : reconcileServices env s.io run names with ⟨io, run', still⟩
    rw [hr] at hservices
    have hstill : still = run'.services.map (·.name) := by
      cases hr
      rfl
    refine .inl ⟨?_, ?_⟩
    · simpa [State.reply] using hservices
    · simp [State.reply, hstill]
  · exact .inl rfl

theorem handleDrain_actedOn {s : State W} {m : Message} {rest : List Message} (hpc : s.pc = .draining)
    (hactive : s.active = none) (hqueue : s.queue = m :: rest) {polls : Nat} {placed : List Message}
    (hdrain : Stream.DrainActs { worker := s, placed } (.consume polls)) :
    m.ActedOn s ({ s with queue := rest }.handleDrain m) ({ s with queue := rest }.handleDrain m) := by
  simp only [Stream.DrainActs, hpc, hqueue] at hdrain
  rcases hm : m.command with req | ⟨_ | id, reply⟩ | ⟨names, ticket⟩ | ⟨runId, plan, revision⟩ <;>
    simp only [hm] at hdrain <;> simp only [Message.ActedOn, State.handleDrain, hm, hactive]
  · simp [State.alive]
  · simp [hdrain]
  · have hreplied : ∀ (t : State W) (answer : Reply), t.log = s.log → ∀ ticket ∈ reply,
        s.Answers (t.replyCancel reply answer) ticket := by
      intro t answer hlog ticket hticket
      rw [Option.mem_def.mp hticket]
      exact ⟨_, answer, congrArg (· ++ _) hlog, List.mem_singleton_self _⟩
    cases hpending : s.pending with
    | none =>
      dsimp only
      exact ⟨by simp, by simp, fun _ => hreplied _ _ rfl⟩
    | some req =>
      dsimp only
      split
      · refine ⟨by simp, fun _ _ _ => ?_, fun _ => hreplied _ _ rfl⟩
        rw [State.replyCancel_eq]
      next hother =>
        refine ⟨by simp, fun other hsome hmeant => ?_, fun _ => hreplied _ _ rfl⟩
        cases hsome
        rcases hmeant with hmeant | hmeant <;> cases hmeant
        exact absurd rfl hother

/-- A step that takes a message acts on it, or holds the active run to cancel it. -/
theorem Consumed.actedOn {ex : LawfulExecutor} {env : Env W} {s s' : State W} (h : Consumed ex env s s')
    (hshape : s.Shaped) {polls : Nat} {placed : List Message}
    (hdrain : Stream.DrainActs { worker := s, placed } (.consume polls)) {m : Message}
    (hqueue : s.queue = m :: s'.queue) :
    m.ActedOn s s' s' ∨ ∃ run rest, s.active = some run ∧ s.pending = none ∧
      (∃ generation reply, m.command = .cancel generation reply) ∧
      s' = { s with queue := rest, active := none, pc := .retiring run m } := by
  -- the other steps leave the queue as it is
  have hkept : s'.queue ≠ s.queue := by
    intro hsame
    rw [hsame] at hqueue
    exact absurd (congrArg List.length hqueue) (by simp)
  cases h with
  | received m' rest hpc hactive hpending hqueue' =>
    obtain ⟨rfl, -⟩ := List.cons.inj (hqueue'.symm.trans hqueue)
    exact .inl (handleIdle_actedOn env hactive hpending)
  | taken run m' rest hpc hactive hqueue' =>
    obtain ⟨rfl, -⟩ := List.cons.inj (hqueue'.symm.trans hqueue)
    have hpending := hshape.alone (by simp [hactive])
    rcases handleBusy_actedOn env hactive hpending with hacted | ⟨hcancel, heq⟩
    · exact .inl hacted
    · exact .inr ⟨run, rest, hactive, hpending, hcancel, heq⟩
  | drained m' rest hpc hqueue' =>
    obtain ⟨rfl, -⟩ := List.cons.inj (hqueue'.symm.trans hqueue)
    exact .inl (handleDrain_actedOn hpc (hshape.draining hpc) hqueue' hdrain)
  | retired =>
    rw [State.retire_eq] at hkept
    exact absurd rfl hkept
  | _ => exact absurd rfl hkept

/-- A step of the consumer takes no message or the first one. -/
theorem Consumed.takes_first {ex : LawfulExecutor} {env : Env W} {s s' : State W} (h : Consumed ex env s s') :
    s'.queue = s.queue ∨ ∃ m, s.queue = m :: s'.queue := by
  cases h with
  | received m rest _ _ _ hqueue => exact .inr ⟨m, by rw [handleIdle_queue, hqueue]⟩
  | taken run m rest _ _ hqueue => exact .inr ⟨m, by rw [handleBusy_queue, hqueue]⟩
  | drained m rest _ hqueue =>
    obtain ⟨pending, pc, log, heq, -⟩ := ({ s with queue := rest } : State W).handleDrain_eq m
    exact .inr ⟨m, by rw [heq, hqueue]⟩
  | retired => exact .inl (by rw [State.retire_eq])
  | _ => exact .inl rfl

/-! ### Runs -/

/-- What the steps of the stream rely on. -/
structure Stream.Formed (failFast : Bool) (stream : Stream W) : Prop where
  sound : stream.worker.Sound failFast
  shaped : stream.worker.Shaped

theorem Stream.initial_formed (failFast : Bool) (world : W) : (Stream.initial world).Formed failFast :=
  ⟨State.sound_of_none rfl, State.shaped_of_none rfl rfl⟩

theorem Stream.step_formed {ex : LawfulExecutor} {env : Env W} {stream stream' : Stream W} {l : StreamLabel}
    (h : stream.Formed ex.failFast) (hstep : stream.step ex env l = some stream') :
    stream'.Formed ex.failFast ∧ stream.worker.Grows stream'.worker := by
  cases l with
  | place m =>
    cases hstep
    exact ⟨⟨h.sound.of_pc rfl rfl fun _ hid => hid, h.shaped.of_eq rfl rfl rfl⟩,
      List.prefix_rfl, List.prefix_rfl⟩
  | signal generation =>
    cases hstep
    exact ⟨⟨h.sound.of_pc rfl rfl fun _ => List.mem_append_left _, h.shaped.of_eq rfl rfl rfl⟩,
      List.prefix_rfl, List.prefix_rfl⟩
  | close =>
    cases hstep
    exact ⟨⟨h.sound.of_pc rfl rfl fun _ hid => hid, h.shaped.of_eq rfl rfl rfl⟩,
      List.prefix_rfl, List.prefix_rfl⟩
  | consume polls =>
    obtain ⟨worker, hworker, rfl⟩ := Option.map_eq_some_iff.mp hstep
    have hconsumed := consume_consumed hworker
    exact ⟨⟨hconsumed.sound h.sound, hconsumed.shaped h.shaped⟩, hconsumed.grows h.sound h.shaped⟩

theorem Stream.after_formed {ex : LawfulExecutor} {env : Env W} {stream stream' : Stream W}
    (labels : List StreamLabel) (h : stream.Formed ex.failFast)
    (hrun : Machine.after (Stream.step ex env) stream labels = some stream') :
    stream'.Formed ex.failFast ∧ stream.worker.Grows stream'.worker :=
  Machine.invariant (Stream.step ex env)
    (I := fun other => other.Formed ex.failFast ∧ stream.worker.Grows other.worker)
    (fun _ _ _ hother _ hstep => by
      obtain ⟨hformed, hgrows⟩ := Stream.step_formed hother.1 hstep
      exact ⟨hformed, hother.2.trans hgrows⟩)
    labels stream stream' ⟨h, .refl _⟩ (Machine.meets_true _ labels stream) hrun

/-- A cancel in the consumer's hand has been carried out when it is back at the head of its loop. -/
theorem Stream.retires {ex : LawfulExecutor} {env : Env W} {old : Run} {m : Message} (labels : List StreamLabel) :
    ∀ {stream last : Stream W}, stream.Formed ex.failFast → stream.worker.pc = .retiring old m →
      Machine.after (Stream.step ex env) stream labels = some last → last.worker.pc = .top →
      stream.worker.Cancels last.worker old ∧
        ∀ ticket ∈ m.command.exactReply, stream.worker.Answers last.worker ticket := by
  induction labels with
  | nil =>
    intro stream last _ hpc hrun htop
    cases hrun
    rw [hpc] at htop
    cases htop
  | cons l labels ih =>
    intro stream last hformed hpc hrun htop
    obtain ⟨next, hstep, hrest⟩ := Option.bind_eq_some_iff.mp hrun
    have hnext := (Stream.step_formed hformed hstep).1
    cases l with
    | place | signal | close =>
      cases hstep
      have hlater := ih hnext hpc hrest htop
      exact ⟨hlater.1, hlater.2⟩
    | consume polls =>
      obtain ⟨worker, hworker, rfl⟩ := Option.map_eq_some_iff.mp hstep
      obtain rfl := (consume_consumed hworker).of_retiring hpc
      obtain ⟨hcancels, hanswers⟩ := stream.worker.retire_acts env old m
      have hgrows := (Stream.after_formed labels hnext hrest).2
      exact ⟨hcancels.grow hgrows, fun ticket hticket => (hanswers ticket hticket).grow hgrows⟩

/-- The message is taken in a step of the run, when the ones placed before it have been, and the worker
    acts on it. -/
def Stream.Acts (ex : Executor) (env : Env W) (world : W) (labels : List StreamLabel) (last : Stream W)
    (before : List Message) (m : Message) : Prop :=
  ∃ earlier polls later stream stream', labels = earlier ++ .consume polls :: later ∧
    Machine.after (Stream.step ex env) (Stream.initial world) earlier = some stream ∧
    stream.step ex env (.consume polls) = some stream' ∧
    stream.placed = before ++ stream.worker.queue ∧ stream.worker.queue = m :: stream'.worker.queue ∧
    m.ActedOn stream.worker stream'.worker last.worker

/-- The messages the consumer has taken are the placed ones that are no longer queued, and it has
    acted on them. -/
structure Stream.Acted (failFast : Bool) (stream : Stream W) : Prop where
  formed : stream.Formed failFast
  acted : ∃ taken, stream.placed = taken ++ stream.worker.queue ∧ stream.worker.Acted taken

theorem Stream.step_acted {ex : LawfulExecutor} {env : Env W} {stream stream' : Stream W} {l : StreamLabel}
    (h : Stream.Acted ex.failFast stream) (hdrain : stream.DrainActs l)
    (hstep : stream.step ex env l = some stream') : Stream.Acted ex.failFast stream' := by
  obtain ⟨taken, hplaced, hacted⟩ := h.acted
  refine ⟨(Stream.step_formed h.formed hstep).1, ?_⟩
  cases l with
  | place m =>
    cases hstep
    refine ⟨taken, ?_, ?_⟩
    · simp [hplaced]
    · exact hacted.quiet rfl rfl fun _ hid => hid
  | signal generation | close =>
    cases hstep
    exact ⟨taken, hplaced, hacted.quiet rfl rfl fun _ hid => hid⟩
  | consume polls =>
    obtain ⟨worker, hworker, rfl⟩ := Option.map_eq_some_iff.mp hstep
    rcases (consume_consumed hworker).acted h.formed.sound h.formed.shaped hdrain hacted with
      ⟨hqueue, hacted⟩ | ⟨m, hqueue, hacted⟩
    · exact ⟨taken, by rw [hplaced, hqueue], hacted⟩
    · exact ⟨taken ++ [m], by simp [hplaced, hqueue], hacted⟩

theorem Stream.initial_acted (failFast : Bool) (world : W) :
    Stream.Acted failFast (Stream.initial world) :=
  ⟨Stream.initial_formed failFast world, [], rfl, ⟨rfl, rfl, fun _ hid => absurd hid List.not_mem_nil⟩⟩

/-- What is alive was asked for after every bare cancel. -/
theorem generations_of_sinceCancel {before after : List Message} {m : Message}
    (hm : m.command.isBareCancel = true) {id : Nat}
    (hid : id ∈ generations (sinceCancel (before ++ m :: after))) : id ∈ generations after := by
  obtain ⟨other, hother, hgeneration⟩ := List.mem_filterMap.mp hid
  refine List.mem_filterMap.mpr ⟨other, ?_, hgeneration⟩
  clear hid
  induction after using List.reverseRecOn with
  | nil =>
    rw [sinceCancel, List.rtakeWhile_concat_neg _ _ _ (by simp [hm])] at hother
    cases hother
  | append_singleton after last ih =>
    rw [← List.cons_append, ← List.append_assoc, sinceCancel, List.rtakeWhile_concat] at hother
    split at hother
    · rcases List.mem_append.mp hother with hother | hother
      · exact List.mem_append_left _ (ih hother)
      · exact List.mem_append_right _ hother
    · cases hother

/-- The message is taken in a step of the run, when the ones placed before it have been. -/
def Stream.Takes (ex : Executor) (env : Env W) (world : W) (labels : List StreamLabel) (before : List Message)
    (m : Message) : Prop :=
  ∃ earlier polls later stream stream', labels = earlier ++ .consume polls :: later ∧
    Machine.after (Stream.step ex env) (Stream.initial world) earlier = some stream ∧
    stream.step ex env (.consume polls) = some stream' ∧
    stream.placed = before ++ stream.worker.queue ∧ stream.worker.queue = m :: stream'.worker.queue

theorem Stream.Takes.longer {ex : Executor} {env : Env W} {world : W} {labels : List StreamLabel}
    {before : List Message} {m : Message} (h : Stream.Takes ex env world labels before m) (l : StreamLabel) :
    Stream.Takes ex env world (labels ++ [l]) before m := by
  obtain ⟨earlier, polls, later, s, s', rfl, hrest⟩ := h
  exact ⟨earlier, polls, later ++ [l], s, s', by simp, hrest⟩

/-- Each message that has left the queue was taken in a step of the run, in the order of their places. -/
theorem Stream.taken_in_turn {ex : LawfulExecutor} {env : Env W} {world : W} (labels : List StreamLabel) :
    ∀ {last : Stream W}, Machine.after (Stream.step ex env) (Stream.initial world) labels = some last →
      ∃ taken, last.placed = taken ++ last.worker.queue ∧
        ∀ before m after, taken = before ++ m :: after → Stream.Takes ex env world labels before m := by
  induction labels using List.reverseRecOn with
  | nil =>
    intro last hrun
    cases hrun
    exact ⟨[], rfl, fun before m after h => by simp at h⟩
  | append_singleton labels l ih =>
    intro last hrun
    rw [Machine.after_append] at hrun
    obtain ⟨stream, hbefore, hlast⟩ := Option.bind_eq_some_iff.mp hrun
    obtain ⟨next, hstep, hnext⟩ := Option.bind_eq_some_iff.mp hlast
    cases hnext
    obtain ⟨taken, hplaced, hturns⟩ := ih hbefore
    have hearlier : ∀ before m after, taken = before ++ m :: after →
        Stream.Takes ex env world (labels ++ [l]) before m :=
      fun before m after hsplit => (hturns before m after hsplit).longer l
    cases l with
    | place m =>
      cases hstep
      exact ⟨taken, by simp [hplaced], hearlier⟩
    | signal | close =>
      cases hstep
      exact ⟨taken, hplaced, hearlier⟩
    | consume polls =>
      obtain ⟨worker, hworker, rfl⟩ := Option.map_eq_some_iff.mp hstep
      rcases (consume_consumed hworker).takes_first with hqueue | ⟨m, hqueue⟩
      · exact ⟨taken, by rw [hplaced, hqueue], hearlier⟩
      · refine ⟨taken ++ [m], by simp [hplaced, hqueue], fun before m' after hsplit => ?_⟩
        rcases List.eq_nil_or_concat after with rfl | ⟨after, last, rfl⟩
        · obtain ⟨rfl, heq⟩ := List.append_inj' hsplit rfl
          cases heq
          exact ⟨labels, polls, [], stream, _, rfl, hbefore, hstep, hplaced, hqueue⟩
        · rw [List.concat_eq_append, ← List.cons_append, ← List.append_assoc] at hsplit
          exact hearlier before m' after (List.append_inj' hsplit rfl).1

/-- Whenever the queue is empty and the consumer is back at the head of its loop, every message that was
    placed has been taken in a step of its own, in their order, and acted on: a service plan's stages
    stand behind those of the active run, or its run was started; a ReconcileServices has stopped the
    named services and got its reply; a cancel's run has emitted its Cancelled event, and who waits for
    an exact one has got a reply. Replies and service plans are one for each message, and nothing that
    was asked for before a bare cancel is active or pending. -/
theorem Stream.all_acted (ex : LawfulExecutor) (env : Env W) (world : W) (labels : List StreamLabel)
    (hdrain : Machine.Meets (Stream.step ex env) Stream.DrainActs (Stream.initial world) labels)
    (stream : Stream W)
    (h : Machine.after (Stream.step ex env) (Stream.initial world) labels = some stream)
    (hqueue : stream.worker.queue = []) (hpc : stream.worker.pc = .top) :
    (∀ before m after, stream.placed = before ++ m :: after →
      Stream.Acts ex env world labels stream before m) ∧
    stream.worker.log.filterMap Deed.ticket? = stream.placed.filterMap Message.ticket? ∧
    stream.worker.log.filterMap Deed.plan? = stream.placed.filterMap Message.services? ∧
    ∀ before m after, stream.placed = before ++ m :: after → m.command.isBareCancel = true →
      ∀ id ∈ stream.worker.alive, id ∈ generations after := by
  have hacted := Machine.invariant (Stream.step ex env) (I := Stream.Acted ex.failFast)
    (fun _ _ _ hs hdrain hstep => Stream.step_acted hs hdrain hstep) labels (Stream.initial world)
    stream (Stream.initial_acted ex.failFast world) hdrain h
  obtain ⟨taken, hplaced, hacted⟩ := hacted.acted
  refine ⟨?_, ?_⟩
  · obtain ⟨taken, hplaced, hturns⟩ := Stream.taken_in_turn labels h
    rw [hqueue, List.append_nil] at hplaced
    intro before m after hsplit
    obtain ⟨earlier, polls, later, s, s', rfl, hearlier, hstep, hbefore, hfirst⟩ :=
      hturns before m after (hplaced ▸ hsplit)
    refine ⟨earlier, polls, later, s, s', rfl, hearlier, hstep, hbefore, hfirst, ?_⟩
    have hformed := (Stream.after_formed earlier (Stream.initial_formed ex.failFast world) hearlier).1
    have hformed' := (Stream.step_formed hformed hstep).1
    rw [Machine.after_append, hearlier, Option.bind_some, Machine.after, hstep, Option.bind_some] at h
    have hgrows := (Stream.after_formed later hformed' h).2
    have hcond := hdrain.step_of_append _ earlier hearlier
    obtain ⟨worker, hworker, rfl⟩ := Option.map_eq_some_iff.mp hstep
    rcases (consume_consumed hworker).actedOn hformed.shaped hcond hfirst with
      hnow | ⟨run, rest, hactive, hpending, ⟨generation, reply, hcancel⟩, rfl⟩
    · exact hnow.grow hgrows
    · -- the active run is cancelled in the consumer's next step
      obtain ⟨hcancels, hanswers⟩ := Stream.retires later hformed' rfl h hpc
      simp only [Message.ActedOn, hcancel]
      refine ⟨fun old hold _ => ?_, fun req hreq => ?_, fun hexact ticket hticket => ?_⟩
      · cases hactive.symm.trans hold
        exact hcancels
      · cases hpending.symm.trans hreq
      · refine hanswers ticket ?_
        cases generation with
        | none => exact absurd rfl hexact
        | some id => rw [hcancel]; exact hticket
  · rw [hqueue, List.append_nil] at hplaced
    rw [hplaced]
    refine ⟨?_, hacted.plans, fun before m after hsplit hbare id hid => ?_⟩
    · simpa [hpc, Pc.owes] using hacted.replies
    · exact generations_of_sinceCancel hbare (hsplit ▸ hacted.recent id hid)

/-- A service plan and a bare cancel that find a running generation. -/
theorem Stream.all_acted_at_build :
    let build : Message :=
      ⟨.run { runId := 1, plan := .fromRules [{ name := "build", commands := ["build"] }] }, none⟩
    let server : Message :=
      ⟨.startServices 2 (.fromRules [{ name := "server", commands := ["serve"], service := true }]) none, none⟩
    let stop : Message := ⟨.cancel none none, none⟩
    let labels := [.place build, .consume 0, .consume 0, .place server, .place stop] ++
      List.replicate 7 (StreamLabel.consume 0)
    ∃ stream, Machine.after (Stream.step {} (steadyEnv fun _ => none)) (Stream.initial ()) labels
        = some stream ∧ stream.worker.queue = [] ∧ stream.worker.pc = .top ∧
      Stream.Acts {} (steadyEnv fun _ => none) () labels stream [build] server ∧
      Stream.Acts {} (steadyEnv fun _ => none) () labels stream [build, server] stop := by
  intro build server stop labels
  refine ⟨_, rfl, rfl, rfl, ?_⟩
  have hacts := (Stream.all_acted {} (steadyEnv fun _ => none) () labels (by decide) _ rfl rfl rfl).1
  exact ⟨hacts [build] server [stop] rfl, hacts [build, server] stop [] rfl⟩

/-- A ReconcileServices queued behind the Run that replaces the active one is taken by the drain and
    never answered. -/
theorem Stream.reconcile_dropped :
    let run (runId : Nat) (name : String) : Message :=
      ⟨.run { runId, plan := .fromRules [{ name, commands := [name] }] }, none⟩
    let labels := [.place (run 1 "build"), .consume 0, .consume 0, .consume 0, .consume 0,
      .place (run 2 "test"), .place ⟨.reconcileServices ["server"] 7, none⟩,
      .consume 0, .consume 0, .consume 0]
    ∃ stream, Machine.after (Stream.step {} (steadyEnv fun _ => none)) (Stream.initial ()) labels
        = some stream ∧ stream.worker.queue = [] ∧ stream.worker.pc = .top ∧
      7 ∈ stream.placed.filterMap Message.ticket? ∧ 7 ∉ stream.worker.log.filterMap Deed.ticket? := by
  intro run labels
  exact ⟨_, rfl, rfl, rfl, by decide, by decide⟩

end Funzzy
