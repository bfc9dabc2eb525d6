import Funzzy.Worker.Census

/-! The milestones a worker emits, step by step.

    `Turn` lists what one step of the consumer can do to the generations that run and to the event
    stream: nothing, begin a waiting generation while none runs, or end the one that runs. A sender adds
    to the stream when its rewrite of the queue discards queued generations (`Lifecycle`). What listens
    to the stream is verified from this alone. -/

namespace Funzzy

variable {W : Type}

/-! ### One step -/

/-- The milestones of one step of the consumer. It names a successor only for a run it replaces. -/
inductive Turn (s s' : State W) : List Event → Prop
  | quiet : s'.running = s.running → Turn s s' []
  | begun (metadata : RunMetadata) (commands : List String) : s.running = [] →
      s'.running = [metadata.runId] → metadata.runId ∈ s.waiting → Turn s s' [.started metadata commands]
  | finished (id : Nat) (supersededBy : Option Nat) (elapsed : Nat) (failures : List String) :
      s.running = [id] → s'.running = [] → Turn s s' [.finished id supersededBy elapsed failures]
  | cancelled (id : Nat) (successor : Option Nat) : s.running = [id] → s'.running = [] →
      (∀ n, successor = some n → ∃ old req request, s.pc = .replacing old req request ∧
        old.metadata.runId = id ∧ req.runId = n) →
      Turn s s' [.cancelled id successor]

/-- The milestones of one step of the worker. -/
inductive Lifecycle (s s' : State W) : List Event → Prop
  | turn (events : List Event) : Turn s s' events → Lifecycle s s' events
  | discarded (m : Message) : m ∈ messagesOf s.senders → s'.running = s.running →
      Lifecycle s s' ((enqueue s.queue m).discarded.map fun r => .cancelled r.1 r.2)

/-- The step extends the event stream as a turn of the consumer. -/
def Turns (s s' : State W) : Prop :=
  ∃ events, milestones s'.io.trace = milestones s.io.trace ++ events ∧ Turn s s' events

/-- The step extends the event stream as a step of the worker. -/
def Lives (s s' : State W) : Prop :=
  ∃ events, milestones s'.io.trace = milestones s.io.trace ++ events ∧ Lifecycle s s' events

theorem Turns.quiet {s s' : State W} (hrunning : s'.running = s.running)
    (hmilestones : milestones s'.io.trace = milestones s.io.trace) : Turns s s' :=
  ⟨[], by simpa using hmilestones, .quiet hrunning⟩

theorem Turns.lives {s s' : State W} (h : Turns s s') : Lives s s' := by
  obtain ⟨events, hevents, hturn⟩ := h
  exact ⟨events, hevents, .turn events hturn⟩

/-! ### The trace of one step of the consumer -/

/-- What one step of the consumer adds to the trace: nothing, work on the generation that runs, a
    beginning, or that work and an end. Both the milestones and the whole event stream are read off it. -/
inductive Extends (s s' : State W) : Prop
  | quiet (hrunning : s'.running = s.running) (htrace : s'.io.trace = s.io.trace)
  | worked (id : Nat) (hbefore : s.running = [id]) (hafter : s'.running = [id])
      (hworks : Works id s.io.trace s'.io.trace)
  | begun (metadata : RunMetadata) (commands : List String) (hnone : s.running = [])
      (hrunning : s'.running = [metadata.runId]) (hwaiting : metadata.runId ∈ s.waiting)
      (htrace : s'.io.trace = s.io.trace ++ [.event (.started metadata commands)])
  | finished (id : Nat) (supersededBy : Option Nat) (elapsed : Nat) (failures : List String)
      (hbefore : s.running = [id]) (hafter : s'.running = [])
      (hends : Ends id s.io.trace s'.io.trace (.finished id supersededBy elapsed failures))
  | cancelled (id : Nat) (successor : Option Nat) (hbefore : s.running = [id]) (hafter : s'.running = [])
      (hnamed : ∀ n, successor = some n → ∃ old req request, s.pc = .replacing old req request ∧
        old.metadata.runId = id ∧ req.runId = n)
      (hends : Ends id s.io.trace s'.io.trace (.cancelled id successor))

theorem Extends.turns {s s' : State W} (h : Extends s s') : Turns s s' := by
  cases h with
  | quiet hrunning htrace => exact Turns.quiet hrunning (by rw [htrace])
  | worked id hbefore hafter hworks => exact Turns.quiet (hafter.trans hbefore.symm) hworks.milestones_eq
  | begun metadata commands hnone hrunning hwaiting htrace =>
    refine ⟨_, ?_, .begun metadata commands hnone hrunning hwaiting⟩
    rw [htrace, milestones_append]
    rfl
  | finished id supersededBy elapsed failures hbefore hafter hends =>
    exact ⟨_, hends.milestones_eq rfl, .finished id supersededBy elapsed failures hbefore hafter⟩
  | cancelled id successor hbefore hafter hnamed hends =>
    exact ⟨_, hends.milestones_eq rfl, .cancelled id successor hbefore hafter hnamed⟩

/-- A generation that waited is started. -/
theorem Extends.started (env : Env W) {s s' : State W} (metadata : RunMetadata) (plan : RunPlan)
    (hio : s'.io = (start env s.io metadata plan).1) (hnone : s.running = [])
    (hrunning : s'.running = [metadata.runId]) (hwaiting : metadata.runId ∈ s.waiting) :
    Extends s s' := by
  refine .begun metadata (plan.commands.map (·.display)) hnone hrunning hwaiting ?_
  rw [hio]
  rfl

theorem handleIdle_extends (env : Env W) {s : State W} {m : Message} {rest : List Message}
    (hqueue : s.queue = m :: rest) (hpc : s.pc = .top) (hactive : s.active = none) :
    Extends s ({ s with queue := rest }.handleIdle env m) := by
  have hnone : s.running = [] := by simp [State.running, hactive, hpc, Pc.leaving]
  unfold State.handleIdle
  split
  · rename_i req hm
    exact .started env req.metadata req.plan rfl hnone rfl
      (by simp [State.waiting, hqueue, Message.generation?, hm, RunRequest.metadata])
  · rw [State.replyCancel_eq]
    exact .quiet rfl rfl
  · exact .quiet rfl rfl
  · exact .quiet rfl rfl
  · rename_i runId plan revision hm
    exact .started env (servicesMetadata runId revision) plan rfl hnone rfl
      (by simp [State.waiting, hqueue, Message.generation?, hm, servicesMetadata])

theorem handleBusy_extends {failFast : Bool} (env : Env W) {s : State W} {run : Run} (m : Message)
    (rest : List Message) (hs : s.Sound failFast) (hpc : s.pc = .stepped)
    (hactive : s.active = some run) : Extends s ({ s with queue := rest }.handleBusy env run m) := by
  have hrunning : s.running = [run.metadata.runId] := by
    simp [State.running, hactive, hpc, Pc.leaving]
  unfold State.handleBusy
  split
  · exact .quiet (by rw [hrunning]; rfl) rfl
  · split
    · exact .quiet (by rw [hrunning]; rfl) rfl
    · rw [State.replyCancel_eq]
      exact .quiet (by simp [State.running, hpc, Pc.leaving]) rfl
  · exact .quiet (by rw [hrunning]; rfl) rfl
  · rename_i names ticket _
    obtain ⟨token, -, hsound⟩ := hs.token hactive (by simp [hpc])
    obtain ⟨hid, -, -⟩ := reconcileServices_generation env s.io names hsound
    have hworks := reconcileServices_works env s.io run names
    rcases hr : reconcileServices env s.io run names with ⟨io, run', still⟩
    rw [hr] at hid hworks
    refine .worked run.metadata.runId hrunning ?_ hworks
    simp only at hid
    simp [State.running, State.reply, Pc.leaving, hid]
  · refine .quiet ?_ rfl
    rw [hrunning]
    simp [State.running, Pc.leaving, appendPlan]

/-- The run in the consumer's hand is the only one that has started. -/
theorem State.Shaped.running_leaving {s : State W} (h : s.Shaped) (old : Run)
    (hpc : s.pc.leaving = [old.metadata.runId]) : s.running = [old.metadata.runId] := by
  have hnone := h.leaving (by simp [hpc])
  simp [State.running, hnone.1, hpc]

/-- A step of the consumer adds the work of the generation that runs, its end, or a beginning. -/
theorem Consumed.extends {ex : LawfulExecutor} {env : Env W} {s s' : State W} (h : Consumed ex env s s')
    (hs : s.Sound ex.failFast) (hshape : s.Shaped) : Extends s s' := by
  cases h with
  | promoted req hpc hactive hpending =>
    refine .started env req.metadata req.plan rfl ?_ rfl ?_
    · simp [State.running, hactive, hpc, Pc.leaving]
    · simp [State.waiting, hpending, RunRequest.metadata]
  | received m rest hpc hactive hpending hqueue => exact handleIdle_extends env hqueue hpc hactive
  | exited hpc | entered run hpc | registered run hpc | waited run hpc | left hpc =>
    exact .quiet (by simp [State.running, hpc, Pc.leaving]) rfl
  | running token polls run run' io hpc hactive hr | finished token polls run run' io hpc hactive hr =>
    have hrun := hs run hactive
    simp only [hpc] at hrun
    obtain ⟨hid, hworks, -⟩ := @advance_works W ex env polls { s.io with token } io run run' _ hrun hr
    have hbefore : s.running = [run.metadata.runId] := by simp [State.running, hactive, hpc, Pc.leaving]
    exact .worked run.metadata.runId hbefore (by simp [State.running, hid, Pc.leaving]) hworks
  | taken run m rest hpc hactive => exact handleBusy_extends env m rest hs hpc hactive
  | replaced old req request hpc =>
    have hold := hshape.running_leaving old (by rw [hpc]; rfl)
    have hnone := hshape.leaving (by simp [hpc, Pc.leaving])
    refine .cancelled old.metadata.runId (some req.runId) hold ?_ ?_
      (cancel_ends env s.io old (some req.runId))
    · simp [State.running, State.replace, State.unregister, hnone.1, Pc.leaving]
    · intro n hn
      exact ⟨old, req, request, hpc, rfl, Option.some.inj hn⟩
  | retired old m hpc =>
    have hold := hshape.running_leaving old (by rw [hpc]; rfl)
    have hnone := hshape.leaving (by simp [hpc, Pc.leaving])
    rw [State.retire_eq]
    refine .cancelled old.metadata.runId none hold ?_ ?_ (cancel_ends env s.io old none)
    · simp [State.running, hnone.1, Pc.leaving]
    · intro n hn
      cases hn
  | completed old hpc =>
    have hold := hshape.running_leaving old (by rw [hpc]; rfl)
    have hnone := hshape.leaving (by simp [hpc, Pc.leaving])
    obtain ⟨elapsed, failures, hfinish⟩ := finish_ends env s.io old
    refine .finished old.metadata.runId old.supersededBy elapsed failures hold ?_ hfinish
    simp [State.running, State.finish, State.unregister, hnone.1, Pc.leaving]
  | drained m rest hpc =>
    obtain ⟨pending, pc, log, heq, hpc'⟩ := ({ s with queue := rest } : State W).handleDrain_eq m
    rw [heq]
    refine .quiet ?_ rfl
    rcases hpc' with rfl | rfl <;> simp [State.running, hpc, Pc.leaving]

theorem Consumed.turns {ex : LawfulExecutor} {env : Env W} {s s' : State W} (h : Consumed ex env s s')
    (hs : s.Sound ex.failFast) (hshape : s.Shaped) : Turns s s' :=
  (h.extends hs hshape).turns

theorem Rewrites.discarded_queued {queue : List Message} {m : Message} {r : Rewrite}
    (h : Rewrites queue m r) : ∀ d ∈ r.discarded, d.1 ∈ generations queue := by
  intro d hd
  cases h with
  | replaced new old before after bares oldMessage hm hqueue hold =>
    simp only [List.mem_singleton] at hd
    simp [hd, hqueue, Message.generation?_of_run hold]
  | pushed => cases hd
  | removed target ticket queued before after message hm hqueue hmessage hid =>
    simp only [List.mem_singleton] at hd
    simp [hd, hqueue, Message.generation?_of_run hmessage, hid]
  | cleared ticket hm =>
    obtain ⟨id, hid, rfl⟩ := List.mem_map.mp hd
    obtain ⟨other, hother, hrun⟩ := List.mem_filterMap.mp hid
    refine List.mem_filterMap.mpr ⟨other, hother, ?_⟩
    revert hrun
    unfold Message.runId? Message.generation?
    cases other.command <;> simp

/-- A step of the worker is a turn, or the rewrite of the queue that a sender is about to make. -/
theorem Happens.turns_or_discards {ex : LawfulExecutor} {env : Env W} {s s' : State W} {l : Label}
    (h : Happens ex env s l s') (hs : s.Sound ex.failFast) (hshape : s.Shaped) :
    Turns s s' ∨ ∃ i m next, l = .enqueue i ∧ s.senders[i]? = some (.signalled m next) ∧
      s'.running = s.running ∧ milestones s'.io.trace = milestones s.io.trace
        ++ (enqueue s.queue m).discarded.map fun r => Event.cancelled r.1 r.2 := by
  cases h with
  | called c => cases c <;> exact .inl (Turns.quiet rfl rfl)
  | prepared | failed | closed => exact .inl (Turns.quiet rfl rfl)
  | signalled i m =>
    obtain ⟨tokens, hsignal, -⟩ := s.signal_eq m.command
    rw [hsignal]
    exact .inl (Turns.quiet rfl rfl)
  | enqueued i m next l₁ l₂ hi =>
    exact .inr ⟨i, m, next, rfl, hi, rfl,
      emitCancelled_milestones (enqueue s.queue m).discarded s.io⟩
  | consumed polls s' hstep => exact .inl (hstep.turns hs hshape)

theorem Happens.lives {ex : LawfulExecutor} {env : Env W} {s s' : State W} {l : Label}
    (h : Happens ex env s l s') (hs : s.Sound ex.failFast) (hshape : s.Shaped) : Lives s s' := by
  rcases h.turns_or_discards hs hshape with hturns | ⟨i, m, next, -, hi, hrunning, hmilestones⟩
  · exact hturns.lives
  · obtain ⟨l₁, l₂, hsplit, -⟩ := Machine.exists_split hi
    exact ⟨_, hmilestones, .discarded m (by simp [hsplit]) hrunning⟩

/-! ### Generations that have begun -/

def Event.begun? : Event → Option Nat
  | .started metadata _ => some metadata.runId
  | _ => none

/-- The generations whose Started event has been emitted. -/
def State.begun (s : State W) : List Nat := (milestones s.io.trace).filterMap Event.begun?

/-- A generation that has begun runs or has ended. -/
def State.BegunHeld (s : State W) : Prop := ∀ id ∈ s.begun, id ∈ s.running ∨ id ∈ s.ended

theorem Lives.ended_mono {s s' : State W} (h : Lives s s') : ∀ id ∈ s.ended, id ∈ s'.ended := by
  obtain ⟨events, hevents, -⟩ := h
  intro id hid
  rw [State.ended, hevents, List.filterMap_append]
  exact List.mem_append_left _ hid

/-- Discarding queued generations begins none. -/
theorem discarded_not_begun (rejected : List (Nat × Option Nat)) :
    (rejected.map fun r => Event.cancelled r.1 r.2).filterMap Event.begun? = [] := by
  simp [List.filterMap_eq_nil_iff, Event.begun?]

theorem Lives.begunHeld {s s' : State W} (h : Lives s s') (hs : s.BegunHeld) : s'.BegunHeld := by
  intro id hid
  have hended := h.ended_mono
  obtain ⟨events, hevents, hlife⟩ := h
  rw [State.begun, hevents, List.filterMap_append] at hid
  -- the run that ends is in the ended ones from now on
  have hleaves : ∀ (e : Event) (runId : Nat), events = [e] → e.ended? = some runId → e.begun? = none →
      s.running = [runId] → id ∈ s'.running ∨ id ∈ s'.ended := by
    rintro e runId rfl he hnone hrunning
    have hold : id ∈ s.begun := by simpa [hnone, State.begun] using hid
    rcases hs id hold with hrun | hend
    · rw [hrunning, List.mem_singleton] at hrun
      refine .inr ?_
      rw [State.ended, hevents, List.filterMap_append, hrun]
      exact List.mem_append_right _ (by simp [he])
    · exact .inr (hended id hend)
  cases hlife with
  | discarded m hm hrunning =>
    rw [discarded_not_begun, List.append_nil] at hid
    rw [hrunning]
    exact (hs id hid).imp_right (hended id)
  | turn events hturn =>
    cases hturn with
    | quiet hrunning =>
      rw [List.filterMap_nil, List.append_nil] at hid
      rw [hrunning]
      exact (hs id hid).imp_right (hended id)
    | begun metadata commands hnone hrunning =>
      rcases List.mem_append.mp hid with hid | hid
      · have hold := hs id hid
        rw [hnone] at hold
        exact .inr (hended id (hold.resolve_left List.not_mem_nil))
      · rw [hrunning]
        exact .inl hid
    | finished runId supersededBy elapsed failures hrunning => exact hleaves _ runId rfl rfl rfl hrunning
    | cancelled runId successor hrunning => exact hleaves _ runId rfl rfl rfl hrunning

/-- A generation that waits has not begun. -/
theorem Census.waiting_not_begun {failFast : Bool} {s : State W} (h : Census failFast s)
    (hs : s.BegunHeld) {id : Nat} (hwaiting : id ∈ s.waiting) : id ∉ s.begun := by
  intro hbegun
  have honce := h.once id
  simp only [State.census, List.count_append] at honce
  have hwaits := List.count_pos_iff.mpr hwaiting
  rcases hs id hbegun with hrun | hend
  · have hruns := List.count_pos_iff.mpr hrun
    omega
  · have hends := List.count_pos_iff.mpr hend
    omega

end Funzzy
