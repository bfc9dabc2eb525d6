import Funzzy.Worker.Lifecycle
import Funzzy.Worker.Terminal

/-! Supersession is ordered and named.

    Run ids are allocated before a Run reaches the queue, and a request of the watch loop sends a bare
    cancel ahead of its Run. `Orderly` steps keep the order of the queue the order of the ids, and keep
    the bare cancel from displacing anything by itself; then every displacement is reported with the
    successor that caused it. -/

namespace Funzzy

variable {W : Type}

/-! ### Orderly steps -/

/-- The generations the consumer holds: pending, in its hand, or running. -/
def State.ahead (s : State W) : List Nat :=
  (s.pending.map (·.runId)).toList ++ s.pc.successor ++ s.running

/-- A Run reaches the queue with an id above every generation that is queued or that the consumer
    holds; the bare cancel of a scheduling request finds no queued Run and is not taken by the consumer
    while a run is active; the drain takes no Run while a request is pending. -/
def State.Orderly (s : State W) : Label → Prop
  | .enqueue i =>
    match s.senders[i]? with
    | some (.signalled ⟨.run new, _⟩ _) => ∀ id ∈ generations s.queue ++ s.ahead, id < new.runId
    | some (.signalled ⟨.cancel none _, some _⟩ _) => s.queue.filterMap Message.runId? = []
    | _ => True
  | .consume _ =>
    match s.pc, s.queue with
    | .stepped, m :: _ => ¬(m.command.isBareCancel = true ∧ m.request ≠ none)
    | .draining, m :: _ => m.command.isRun = true → s.pending = none
    | _, _ => True
  | _ => True

instance (s : State W) : ∀ l : Label, Decidable (s.Orderly l)
  | .enqueue i => by
    unfold State.Orderly
    dsimp only
    exact match s.senders[i]? with
      | some (.signalled ⟨.run new, _⟩ _) =>
        inferInstanceAs (Decidable (∀ id ∈ generations s.queue ++ s.ahead, id < new.runId))
      | some (.signalled ⟨.cancel none _, some _⟩ _) =>
        inferInstanceAs (Decidable (s.queue.filterMap Message.runId? = []))
      | some (.signalled ⟨.cancel none _, none⟩ _) | some (.signalled ⟨.cancel (some _) _, _⟩ _)
      | some (.signalled ⟨.reconcileServices _ _, _⟩ _) | some (.signalled ⟨.startServices _ _ _, _⟩ _)
      | some (.preparing _ _) | some (.sending _ _) | none => inferInstanceAs (Decidable True)
  | .consume _ => by
    unfold State.Orderly
    dsimp only
    exact match s.pc, s.queue with
      | .stepped, m :: _ => inferInstanceAs (Decidable ¬(m.command.isBareCancel = true ∧ m.request ≠ none))
      | .draining, m :: _ => inferInstanceAs (Decidable (m.command.isRun = true → s.pending = none))
      | .stepped, [] | .draining, [] | .top, _ | .registering, _ | .advancing _, _ | .replacing _ _ _, _
      | .retiring _ _, _ | .finishing _, _ | .exited, _ => inferInstanceAs (Decidable True)
  | .call _ | .prepare _ _ | .signal _ | .close => inferInstanceAs (Decidable True)

/-! ### The order of the queue -/

/-- The second message, if it is a Run, is newer than the generation of the first. -/
def Message.Before (m m' : Message) : Prop :=
  ∀ req, m'.command = .run req → ∀ id ∈ m.generation?.toList, id < req.runId

/-- Queued Runs are newer than what is ahead of them, and so is the one in the consumer's hand. -/
structure State.Queued (s : State W) : Prop where
  sorted : s.queue.Pairwise Message.Before
  newer : ∀ m ∈ s.queue, ∀ req, m.command = .run req → ∀ id ∈ s.ahead, id < req.runId
  taken : ∀ old req request, s.pc = .replacing old req request → old.metadata.runId < req.runId

theorem Message.before_of_not_run {m m' : Message} (h : m'.command.isRun = false) : m.Before m' := by
  intro req hrun
  rw [hrun] at h
  cases h

/-- A rewrite keeps the queue in order if a new Run is above all that is queued. -/
theorem Rewrites.sorted {queue : List Message} {m : Message} {r : Rewrite} (h : Rewrites queue m r)
    (hs : queue.Pairwise Message.Before)
    (hnew : ∀ req, m.command = .run req → ∀ id ∈ generations queue, id < req.runId) :
    r.queue.Pairwise Message.Before := by
  have habove : ∀ other ∈ queue, other.Before m := by
    intro other hother req hrun id hid
    refine hnew req hrun id (List.mem_filterMap.mpr ⟨other, hother, ?_⟩)
    simpa using hid
  cases h with
  | replaced new old before after bares oldMessage hm hqueue hold hbares hafter =>
    rw [hqueue, List.append_assoc, List.pairwise_append] at hs
    obtain ⟨hbefore, hrest, hcross⟩ := hs
    rw [List.cons_append, List.pairwise_cons, List.pairwise_append] at hrest
    rw [List.pairwise_append, List.pairwise_cons]
    refine ⟨hbefore, ⟨fun other hother => Message.before_of_not_run (hafter other hother), hrest.2.1⟩, ?_⟩
    intro a ha b hb
    rcases List.mem_cons.mp hb with rfl | hb
    · exact habove a (by simp [hqueue, ha])
    · exact Message.before_of_not_run (hafter b hb)
  | pushed kept bares hqueue =>
    rw [hqueue, List.pairwise_append] at hs
    rw [List.pairwise_append]
    refine ⟨hs.1, List.pairwise_singleton _ _, fun a ha b hb => ?_⟩
    rw [List.mem_singleton.mp hb]
    exact habove a (by simp [hqueue, ha])
  | removed target ticket queued before after message hm hqueue =>
    rw [hqueue] at hs
    exact hs.sublist ((List.Sublist.refl before).append (List.sublist_cons_self message after))
  | cleared ticket hm =>
    rw [List.pairwise_append]
    refine ⟨hs.sublist List.filter_sublist, List.pairwise_singleton _ _, fun a _ b hb => ?_⟩
    rw [List.mem_singleton.mp hb]
    exact Message.before_of_not_run (by simp [hm, WorkerCommand.isRun])

/-- A step that takes no message and holds nothing new. -/
theorem State.Queued.quiet {s s' : State W} (h : s.Queued) (hqueue : s'.queue = s.queue)
    (hahead : ∀ id ∈ s'.ahead, id ∈ s.ahead)
    (htaken : ∀ old req request, s'.pc ≠ .replacing old req request) : s'.Queued where
  sorted := hqueue ▸ h.sorted
  newer m hm req hrun id hid := h.newer m (hqueue ▸ hm) req hrun id (hahead id hid)
  taken old req request hpc := absurd hpc (htaken old req request)

/-- A step that takes the first message and holds at most its generation besides. -/
theorem State.Queued.take {s s' : State W} {m : Message} (h : s.Queued) (hqueue : s.queue = m :: s'.queue)
    (hahead : ∀ id ∈ s'.ahead, id ∈ s.ahead ∨ id ∈ m.generation?.toList)
    (htaken : ∀ old req request, s'.pc = .replacing old req request →
      m.command = .run req ∧ old.metadata.runId ∈ s.ahead) : s'.Queued := by
  have hsorted := h.sorted
  rw [hqueue, List.pairwise_cons] at hsorted
  refine ⟨hsorted.2, fun other hother req hrun id hid => ?_, fun old req request hpc => ?_⟩
  · rcases hahead id hid with hold | hnew
    · exact h.newer other (by simp [hqueue, hother]) req hrun id hold
    · exact hsorted.1 other hother req hrun id hnew
  · obtain ⟨hrun, hold⟩ := htaken old req request hpc
    exact h.newer m (by simp [hqueue]) req hrun _ hold

theorem handleIdle_queued (env : Env W) {s : State W} {m : Message} {rest : List Message}
    (hqueue : s.queue = m :: rest) (hpc : s.pc = .top) (hactive : s.active = none)
    (hpending : s.pending = none) (h : s.Queued) :
    ({ s with queue := rest }.handleIdle env m).Queued := by
  refine h.take (m := m) (by rw [handleIdle_queue, hqueue]) ?_ ?_
  · intro id hid
    revert hid
    rcases hm : m.command with req | ⟨_ | id, ticket⟩ | ⟨names, ticket⟩ | ⟨runId, plan, revision⟩ <;>
      simp [State.handleIdle, hm, State.replyCancel_eq, State.ahead, State.start, State.reply,
        Funzzy.start, State.running, hpc, hactive, hpending, Pc.successor, Pc.leaving,
        Message.generation?, RunRequest.metadata, servicesMetadata]
  · intro old req request hpc'
    revert hpc'
    unfold State.handleIdle
    split <;> simp [State.replyCancel_eq, State.start, State.reply, hpc]

theorem handleBusy_queued {failFast : Bool} (env : Env W) {s : State W} {run : Run} {m : Message}
    {rest : List Message} (hqueue : s.queue = m :: rest) (hs : s.Sound failFast)
    (hpc : s.pc = .stepped) (hactive : s.active = some run) (hpending : s.pending = none)
    (h : s.Queued) : ({ s with queue := rest }.handleBusy env run m).Queued := by
  have hahead : s.ahead = [run.metadata.runId] := by
    simp [State.ahead, State.running, hactive, hpending, hpc, Pc.successor, Pc.leaving]
  refine h.take (m := m) (by rw [handleBusy_queue, hqueue]) ?_ ?_
  · intro id hid
    rw [hahead, List.mem_singleton]
    rcases hm : m.command with req | ⟨_ | target, ticket⟩ | ⟨names, ticket⟩ | ⟨runId, plan, revision⟩ <;>
      simp only [State.handleBusy, hm] at hid
    · simpa [State.ahead, State.running, hpending, Pc.successor, Pc.leaving, Message.generation?, hm,
        or_comm] using hid
    · exact .inl (by simpa [State.ahead, State.running, hpending, Pc.successor, Pc.leaving] using hid)
    · split at hid
      · exact .inl (by simpa [State.ahead, State.running, hpending, Pc.successor, Pc.leaving] using hid)
      · rw [State.replyCancel_eq] at hid
        exact .inl (by
          simpa [State.ahead, State.running, hpending, hactive, Pc.successor, Pc.leaving] using hid)
    · obtain ⟨token, -, hsound⟩ := hs.token hactive (by simp [hpc])
      obtain ⟨hrun, -, -⟩ := reconcileServices_generation env s.io names hsound
      rcases hr : reconcileServices env s.io run names with ⟨io, run', still⟩
      rw [hr] at hrun hid
      simp only at hrun
      refine .inl ?_
      simpa [State.ahead, State.running, State.reply, hpending, Pc.successor, Pc.leaving, hrun] using hid
    · exact .inl (by
        simpa [State.ahead, State.running, hpending, Pc.successor, Pc.leaving, appendPlan] using hid)
  · intro old req request hpc'
    rw [hahead, List.mem_singleton]
    rcases hm : m.command with req' | ⟨_ | target, ticket⟩ | ⟨names, ticket⟩ | ⟨runId, plan, revision⟩ <;>
      simp only [State.handleBusy, hm] at hpc'
    · cases hpc'
      exact ⟨rfl, rfl⟩
    · cases hpc'
    · split at hpc'
      · cases hpc'
      · cases hpc'
    · cases hpc'
    · cases hpc'

theorem handleDrain_queued {s : State W} {m : Message} {rest : List Message}
    (hqueue : s.queue = m :: rest) (hpc : s.pc = .draining) (hactive : s.active = none)
    (h : s.Queued) : ({ s with queue := rest }.handleDrain m).Queued := by
  obtain ⟨pending, pc, log, heq, hpc'⟩ := ({ s with queue := rest } : State W).handleDrain_eq m
  have hsuccessor : pc.successor = [] ∧ pc.leaving = [] ∧ ∀ old req request, pc ≠ .replacing old req request := by
    rcases hpc' with rfl | rfl
    · simp [hpc, Pc.successor, Pc.leaving]
    · simp [Pc.successor, Pc.leaving]
  refine h.take (m := m) (by rw [heq, hqueue]) ?_ ?_
  · -- the pending slot holds what it held, nothing, or the Run that was taken
    intro id hid
    have hslot : pending = none ∨ pending = s.pending ∨
        ∃ req, m.command = .run req ∧ pending = some req := by
      have hp := congrArg State.pending heq
      simp only at hp
      rw [← hp]
      unfold State.handleDrain
      split
      · rename_i req hm
        exact .inr (.inr ⟨req, hm, rfl⟩)
      · split
        · split
          · exact .inl (by rw [State.replyCancel_eq])
          · exact .inr (.inl (by rw [State.replyCancel_eq]))
        · exact .inr (.inl (by rw [State.replyCancel_eq]))
      all_goals exact .inr (.inl rfl)
    rw [heq] at hid
    simp only [State.ahead, State.running, hactive, hsuccessor.1, hsuccessor.2.1] at hid
    rcases hslot with rfl | rfl | ⟨req, hm, rfl⟩
    · simp at hid
    · exact .inl (by simpa [State.ahead, State.running, hactive, hpc, Pc.successor, Pc.leaving] using hid)
    · exact .inr (by simpa [Message.generation?, hm] using hid)
  · intro old req request hreplacing
    rw [heq] at hreplacing
    exact absurd hreplacing (hsuccessor.2.2 old req request)

theorem Consumed.queued {ex : LawfulExecutor} {env : Env W} {s s' : State W} (h : Consumed ex env s s')
    (hs : s.Sound ex.failFast) (hshape : s.Shaped) (hq : s.Queued) : s'.Queued := by
  cases h with
  | promoted req hpc hactive hpending =>
    refine hq.quiet rfl ?_ (by intro _ _ _ h; cases h)
    simp [State.ahead, State.running, State.start, Funzzy.start, hactive, hpending, hpc, Pc.successor,
      Pc.leaving, RunRequest.metadata]
  | received m rest hpc hactive hpending hqueue =>
    exact handleIdle_queued env hqueue hpc hactive hpending hq
  | exited hpc | entered run hpc | registered run hpc | waited run hpc | left hpc =>
    refine hq.quiet rfl ?_ (by intro _ _ _ h; cases h)
    simp [State.ahead, State.running, hpc, Pc.successor, Pc.leaving]
  | running token polls run run' io hpc hactive hr =>
    have hrun := hs run hactive
    simp only [hpc] at hrun
    obtain ⟨hid, -, -⟩ := State.advance_generation hrun hr
    refine hq.quiet rfl ?_ (by intro _ _ _ h; cases h)
    simp [State.ahead, State.running, hactive, hid, hpc, Pc.successor, Pc.leaving]
  | finished token polls run run' io hpc hactive hr =>
    have hrun := hs run hactive
    simp only [hpc] at hrun
    obtain ⟨hid, -, -⟩ := State.advance_generation hrun hr
    refine hq.quiet rfl ?_ (by intro _ _ _ h; cases h)
    simp [State.ahead, State.running, hactive, hid, hpc, Pc.successor, Pc.leaving]
  | taken run m rest hpc hactive hqueue =>
    exact handleBusy_queued env hqueue hs hpc hactive (hshape.alone (by simp [hactive])) hq
  | replaced old req request hpc =>
    have hnone := hshape.leaving (by simp [hpc, Pc.leaving])
    refine hq.quiet rfl ?_ (by intro _ _ _ h; cases h)
    simp [State.ahead, State.running, State.replace, State.unregister, hnone.1, hpc, Pc.successor,
      Pc.leaving]
  | retired old m hpc =>
    rw [State.retire_eq]
    refine hq.quiet rfl ?_ (by intro _ _ _ h; cases h)
    simp +contextual [State.ahead, State.running, hpc, Pc.successor, Pc.leaving, or_imp]
  | completed old hpc =>
    refine hq.quiet rfl ?_ (by intro _ _ _ h; cases h)
    simp +contextual [State.ahead, State.running, State.finish, State.unregister, hpc, Pc.successor,
      Pc.leaving, or_imp]
  | drained m rest hpc hqueue => exact handleDrain_queued hqueue hpc (hshape.draining hpc) hq

theorem Happens.queued {ex : LawfulExecutor} {env : Env W} {s s' : State W} {l : Label}
    (h : Happens ex env s l s') (hs : s.Sound ex.failFast) (hshape : s.Shaped)
    (horderly : s.Orderly l) (hq : s.Queued) : s'.Queued := by
  -- steps of the senders leave the consumer where it is
  have hkeep : ∀ s' : State W, s'.queue = s.queue → s'.ahead = s.ahead → s'.pc = s.pc → s'.Queued := by
    intro s' hqueue hahead hpc
    refine ⟨hqueue ▸ hq.sorted, ?_, ?_⟩
    · rw [hqueue, hahead]
      exact hq.newer
    · rw [hpc]
      exact hq.taken
  cases h with
  | called c => cases c <;> exact hkeep _ rfl rfl rfl
  | prepared | failed | closed => exact hkeep _ rfl rfl rfl
  | signalled i m =>
    obtain ⟨tokens, hsignal, -⟩ := s.signal_eq m.command
    rw [hsignal]
    exact hkeep _ rfl rfl rfl
  | enqueued i m next l₁ l₂ hi =>
    have hnew : ∀ req, m.command = .run req → ∀ id ∈ generations s.queue ++ s.ahead, id < req.runId := by
      intro req hm
      obtain ⟨command, request⟩ := m
      cases hm
      simpa [State.Orderly, hi] using horderly
    have hrewrites := enqueue_rewrites s.queue m
    refine ⟨hrewrites.sorted hq.sorted fun req hm id hid => hnew req hm id (List.mem_append_left _ hid),
      fun other hother req hrun id hid => ?_, hq.taken⟩
    rcases hrewrites.mem_queue hother with rfl | hold
    · exact hnew req hrun id (List.mem_append_right _ hid)
    · exact hq.newer other hold req hrun id hid
  | consumed polls s' hstep => exact hstep.queued hs hshape hq

/-! ### Where scheduling requests leave their mark -/

/-- Scheduling requests of the watch loop send bare cancels and Runs. -/
def Message.Tagged (m : Message) : Prop :=
  m.request ≠ none → m.command.isRun = true ∨ m.command.isBareCancel = true

/-- Messages on their way are tagged, and the consumer retires no run for a scheduling request. -/
structure State.Tags (s : State W) : Prop where
  messages : ∀ m ∈ s.messages, m.Tagged
  retiring : ∀ old m, s.pc = .retiring old m → m.request = none

theorem handleBusy_tags (env : Env W) {s : State W} {run : Run} {m : Message} {rest : List Message}
    (hpc : s.pc = .stepped) (hqueue : s.queue = m :: rest) {polls : Nat}
    (horderly : s.Orderly (.consume polls)) (hm : m.Tagged) (old : Run) (other : Message)
    (h : ({ s with queue := rest }.handleBusy env run m).pc = .retiring old other) :
    other.request = none := by
  simp only [State.Orderly, hpc, hqueue, not_and, not_not] at horderly
  rcases hc : m.command with req | ⟨_ | target, ticket⟩ | ⟨names, ticket⟩ | ⟨runId, plan, revision⟩ <;>
    simp only [State.handleBusy, hc] at h
  · cases h
  · cases h
    exact horderly (by rw [hc]; rfl)
  · split at h
    · cases h
      by_contra hrequest
      rcases hm hrequest with hrun | hbare
      · simp [hc, WorkerCommand.isRun] at hrun
      · simp [hc, WorkerCommand.isBareCancel] at hbare
    · cases h
  · cases h
  · cases h

theorem Consumed.tags {ex : LawfulExecutor} {env : Env W} {s s' : State W} (h : Consumed ex env s s')
    {polls : Nat} (horderly : s.Orderly (.consume polls)) (ht : s.Tags) : s'.Tags := by
  obtain ⟨hsenders, hqueue, -⟩ := h.takes
  have hmessages : ∀ m ∈ s'.messages, m.Tagged := by
    intro m hm
    rw [State.messages, hsenders] at hm
    rcases List.mem_append.mp hm with hm | hm
    · exact ht.messages m (List.mem_append_left _ hm)
    · exact ht.messages m (List.mem_append_right _ (hqueue m hm))
  refine ⟨hmessages, fun old m hpc' => ?_⟩
  cases h with
  | received m rest hpc =>
    revert hpc'
    unfold State.handleIdle
    split <;> simp [State.replyCancel_eq, State.start, State.reply, hpc]
  | taken run other rest hpc hactive hqueue' =>
    refine handleBusy_tags env hpc hqueue' horderly (ht.messages other ?_) old m hpc'
    simp [State.messages, hqueue']
  | retired old' m' =>
    rw [State.retire_eq] at hpc'
    cases hpc'
  | drained m rest hpc =>
    obtain ⟨pending, pc, log, heq, hpc''⟩ := ({ s with queue := rest } : State W).handleDrain_eq m
    rw [heq] at hpc'
    rcases hpc'' with rfl | rfl
    · exact ht.retiring old _ hpc'
    · cases hpc'
  | _ => cases hpc'

theorem Happens.tags {ex : LawfulExecutor} {env : Env W} {s s' : State W} {l : Label}
    (h : Happens ex env s l s') (horderly : s.Orderly l) (ht : s.Tags) : s'.Tags := by
  cases h with
  | called c =>
    refine ⟨fun m hm => ?_, by cases c <;> exact ht.retiring⟩
    cases c with
    | schedule draft => exact ht.messages m (by simpa [State.messages, State.call] using hm)
    | _ =>
      simp only [State.messages, State.call, messagesOf_append, messagesOf_sending, messagesOf_nil,
        List.mem_append, List.mem_singleton] at hm
      rcases hm with (hm | rfl) | hm
      · exact ht.messages m (List.mem_append_left _ hm)
      · simp [Message.Tagged, WorkerCommand.isBareCancel]
      · exact ht.messages m (List.mem_append_right _ hm)
  | prepared i draft request l₁ l₂ hi hsplit =>
    refine ⟨fun m hm => ?_, ht.retiring⟩
    simp only [State.messages, messagesOf_append, messagesOf_sending, List.mem_append,
      List.mem_cons] at hm
    rcases hm with (hm | rfl | hm) | hm
    · exact ht.messages m (by simp [State.messages, hsplit, hm])
    · exact fun _ => .inl rfl
    · exact ht.messages m (by simp [State.messages, hsplit, hm])
    · exact ht.messages m (List.mem_append_right _ hm)
  | failed i draft request l₁ l₂ hi hsplit =>
    exact ⟨fun m hm => ht.messages m (by simpa [State.messages, hsplit] using hm), ht.retiring⟩
  | signalled i m next l₁ l₂ hi hsplit =>
    obtain ⟨tokens, hsignal, -⟩ := s.signal_eq m.command
    rw [hsignal]
    refine ⟨fun other hother => ht.messages other ?_, ht.retiring⟩
    simpa [State.messages, hsplit] using hother
  | enqueued i m next l₁ l₂ hi hsplit =>
    refine ⟨fun other hother => ht.messages other ?_, ht.retiring⟩
    simp only [State.messages, State.enqueue, messagesOf_append, messagesOf_next, List.append_nil,
      List.mem_append] at hother
    simp only [State.messages, hsplit, messagesOf_append, messagesOf_signalled, List.mem_append,
      List.mem_cons]
    rcases hother with hother | hother
    · tauto
    · have hold := (enqueue_rewrites s.queue m).mem_queue hother
      tauto
  | closed => exact ⟨ht.messages, ht.retiring⟩
  | consumed polls s' hstep => exact hstep.tags horderly ht

/-! ### What a step displaces -/

/-- A generation the consumer displaces in a step: for the Run in its hand, for a cancel in its hand,
    or silently in the drain. -/
theorem Consumed.displaces {ex : LawfulExecutor} {env : Env W} {s s' : State W} (h : Consumed ex env s s')
    {g : Nat} {cause : Message} {reported : Option Nat}
    (hdeed : Deed.displaced g cause reported ∈ s'.log) :
    Deed.displaced g cause reported ∈ s.log ∨
      (∃ old req request, s.pc = .replacing old req request ∧ g = old.metadata.runId ∧
        cause = ⟨.run req, request⟩ ∧ reported = some req.runId) ∨
      (∃ old, s.pc = .retiring old cause ∧ reported = none) ∨
      (s.pc = .draining ∧ (∃ rest, s.queue = cause :: rest) ∧ cause.command.isRun = true ∧
        s.pending ≠ none ∧ reported = none) := by
  cases h with
  | received m rest =>
    revert hdeed
    unfold State.handleIdle
    split
    · exact fun hdeed => .inl hdeed
    · rename_i ticket _
      rw [State.replyCancel_eq]
      cases ticket <;> simp +contextual
    · exact fun hdeed => .inl hdeed
    all_goals simp +contextual [State.reply]
  | taken run m rest =>
    revert hdeed
    unfold State.handleBusy
    split
    · exact fun hdeed => .inl hdeed
    · rename_i ticket _
      split
      · exact fun hdeed => .inl hdeed
      · rw [State.replyCancel_eq]
        cases ticket <;> simp +contextual
    · exact fun hdeed => .inl hdeed
    all_goals simp +contextual [State.reply]
  | replaced old req request hpc =>
    simp only [State.replace, List.mem_append, List.mem_singleton, Deed.displaced.injEq] at hdeed
    refine hdeed.imp_right fun hnew => .inl ⟨old, req, request, hpc, hnew⟩
  | retired old m hpc =>
    rw [State.retire_eq] at hdeed
    simp only [List.append_assoc, List.mem_append, List.mem_singleton, Deed.displaced.injEq] at hdeed
    rcases hdeed with hdeed | ⟨-, rfl, hnone⟩ | hdeed
    · exact .inl hdeed
    · exact .inr (.inr (.inl ⟨old, hpc, hnone⟩))
    · cases hticket : m.command.exactReply <;> simp [hticket] at hdeed
  | drained m rest hpc hqueue =>
    revert hdeed
    unfold State.handleDrain
    split
    · rename_i later hm
      intro hdeed
      rcases List.mem_append.mp hdeed with hdeed | hdeed
      · exact .inl hdeed
      · cases hpending : s.pending with
        | none => simp [hpending] at hdeed
        | some req =>
          simp only [hpending, Option.map_some, Option.toList_some, List.mem_singleton,
            Deed.displaced.injEq] at hdeed
          obtain ⟨-, rfl, hnone⟩ := hdeed
          exact .inr (.inr (.inr ⟨hpc, ⟨rest, hqueue⟩, by rw [hm]; rfl, by simp, hnone⟩))
    · rename_i ticket _
      split
      · split <;> rw [State.replyCancel_eq] <;> cases ticket <;> simp +contextual
      · rw [State.replyCancel_eq]
        cases ticket <;> simp +contextual
    all_goals exact fun hdeed => .inl hdeed
  | _ => exact .inl hdeed

/-- The consumer names a successor only when it replaces the active run. -/
theorem Consumed.names {ex : LawfulExecutor} {env : Env W} {s s' : State W} (h : Consumed ex env s s')
    (hs : s.Sound ex.failFast) (hshape : s.Shaped) {g n : Nat}
    (hevent : Event.cancelled g (some n) ∈ milestones s'.io.trace) :
    Event.cancelled g (some n) ∈ milestones s.io.trace ∨
      ∃ old req request, s.pc = .replacing old req request ∧ g = old.metadata.runId ∧
        n = req.runId := by
  obtain ⟨events, hevents, hturn⟩ := h.turns hs hshape
  rw [hevents, List.mem_append] at hevent
  refine hevent.imp_right fun hnew => ?_
  cases hturn with
  | quiet => cases hnew
  | begun | finished => simp at hnew
  | cancelled id successor hrunning hnone hnamed =>
    simp only [List.mem_singleton, Event.cancelled.injEq] at hnew
    obtain ⟨old, req, request, hpc, hid, hn⟩ := hnamed n hnew.2.symm
    exact ⟨old, req, request, hpc, by rw [hid, hnew.1], hn.symm⟩

/-! ### Where generations come from -/

/-- The generations that wait outside the pending slot. -/
def State.outside (s : State W) : List Nat := generations s.messages ++ s.pc.successor

/-- What a step brings: nothing new waits outside the pending slot but what it allocates, the pending
    slot is filled from outside, and a generation begins from the pending slot or from outside. -/
structure State.Origins (s s' : State W) : Prop where
  outside : ∀ id ∈ s'.outside, id ∈ s.outside ∨ id = s.nextRunId + 1
  pending : ∀ req, s'.pending = some req →
    s.pending = some req ∨ (req.runId ∈ s.outside ∧ s.pc = .draining) ∨
      ∃ old req' request, s.pc = .replacing old req' request ∧ req.runId = req'.runId
  begun : ∀ metadata commands, Event.started metadata commands ∈ milestones s'.io.trace →
    Event.started metadata commands ∈ milestones s.io.trace ∨
      (∃ req, s.pending = some req ∧ metadata = req.metadata) ∨ metadata.runId ∈ s.outside

/-- A step that begins nothing and leaves the pending slot alone. -/
theorem State.Origins.quiet {s s' : State W} (houtside : ∀ id ∈ s'.outside, id ∈ s.outside)
    (hpending : ∀ req, s'.pending = some req → s.pending = some req)
    (hmilestones : ∀ metadata commands, Event.started metadata commands ∈ milestones s'.io.trace →
      Event.started metadata commands ∈ milestones s.io.trace) : s.Origins s' where
  outside id hid := .inl (houtside id hid)
  pending req hreq := .inl (hpending req hreq)
  begun metadata commands hevent := .inl (hmilestones metadata commands hevent)

theorem State.mem_outside_of_queue {s : State W} {m : Message} {rest : List Message} {id : Nat}
    (hqueue : s.queue = m :: rest) (hm : m.generation? = some id) : id ∈ s.outside := by
  simp [State.outside, State.messages, hqueue, hm]

/-- Taking a message leaves outside what was there. -/
theorem State.outside_of_take {s s' : State W} {m : Message} {rest : List Message}
    (hqueue : s.queue = m :: rest) (hsenders : s'.senders = s.senders) (hrest : s'.queue = rest)
    (hsuccessor : ∀ id ∈ s'.pc.successor, m.generation? = some id) :
    ∀ id ∈ s'.outside, id ∈ s.outside := by
  intro id hid
  simp only [State.outside, State.messages, hsenders, hrest, generations_append, List.mem_append] at hid
  simp only [State.outside, State.messages, hqueue, generations_append, generations_cons,
    List.mem_append]
  rcases hid with (hid | hid) | hid
  · exact .inl (.inl hid)
  · exact .inl (.inr (.inr hid))
  · exact .inl (.inr (.inl (by simp [hsuccessor id hid])))

theorem handleIdle_origins (env : Env W) {s : State W} {m : Message} {rest : List Message}
    (hqueue : s.queue = m :: rest) (hpc : s.pc = .top) :
    s.Origins ({ s with queue := rest }.handleIdle env m) := by
  have houtside : ∀ s' : State W, s'.senders = s.senders → s'.queue = rest → s'.pc.successor = [] →
      ∀ id ∈ s'.outside, id ∈ s.outside := by
    intro s' hsenders hrest hsuccessor
    exact State.outside_of_take hqueue hsenders hrest (by simp [hsuccessor])
  have hidle : s.pc.successor = [] := by rw [hpc]; rfl
  -- a generation that starts from the queue
  have hstart : ∀ (metadata : RunMetadata) (plan : RunPlan) (log : List Deed),
      m.generation? = some metadata.runId →
      s.Origins { ({ s with queue := rest } : State W).start env metadata plan with log } := by
    intro metadata plan log hm
    refine ⟨fun id hid => .inl (houtside _ (by rfl) (by rfl) (by rfl) id hid), fun req hreq => .inl hreq, ?_⟩
    intro metadata' commands hevent
    simp only [State.start, milestones_start, List.mem_append, List.mem_singleton,
      Event.started.injEq] at hevent
    rcases hevent with hevent | ⟨rfl, -⟩
    · exact .inl hevent
    · exact .inr (.inr (State.mem_outside_of_queue hqueue hm))
  unfold State.handleIdle
  split
  · rename_i req hm
    exact hstart req.metadata req.plan s.log (by simp [Message.generation?, hm, RunRequest.metadata])
  · rw [State.replyCancel_eq]
    exact State.Origins.quiet (houtside _ rfl rfl hidle) (fun _ h => h) fun _ _ h => h
  · exact State.Origins.quiet (houtside _ rfl rfl hidle) (fun _ h => h) fun _ _ h => h
  · exact State.Origins.quiet (houtside _ rfl rfl hidle) (fun _ h => h) fun _ _ h => h
  · rename_i runId plan revision hm
    exact hstart (servicesMetadata runId revision) plan _ (by
      simp [Message.generation?, hm, servicesMetadata])

theorem handleBusy_origins {failFast : Bool} (env : Env W) {s : State W} {run : Run} {m : Message}
    {rest : List Message} (hqueue : s.queue = m :: rest) (hs : s.Sound failFast)
    (hpc : s.pc = .stepped) (hactive : s.active = some run) :
    s.Origins ({ s with queue := rest }.handleBusy env run m) := by
  have houtside : ∀ s' : State W, s'.senders = s.senders → s'.queue = rest → s'.pc.successor = [] →
      ∀ id ∈ s'.outside, id ∈ s.outside := by
    intro s' hsenders hrest hsuccessor
    exact State.outside_of_take hqueue hsenders hrest (by simp [hsuccessor])
  unfold State.handleBusy
  split
  · rename_i req hm
    refine State.Origins.quiet (State.outside_of_take hqueue rfl rfl ?_) (fun _ h => h) fun _ _ h => h
    simp [Pc.successor, Message.generation?, hm]
  · split
    · exact State.Origins.quiet (houtside _ rfl rfl rfl) (fun _ h => h) fun _ _ h => h
    · rw [State.replyCancel_eq]
      exact State.Origins.quiet (houtside _ rfl rfl rfl) (fun _ h => h) fun _ _ h => h
  · exact State.Origins.quiet (houtside _ rfl rfl rfl) (fun _ h => h) fun _ _ h => h
  · rename_i names ticket _
    obtain ⟨token, -, hsound⟩ := hs.token hactive (by simp [hpc])
    obtain ⟨-, hmilestones, -⟩ := reconcileServices_generation env s.io names hsound
    rcases hr : reconcileServices env s.io run names with ⟨io, run', still⟩
    rw [hr] at hmilestones
    simp only at hmilestones
    refine State.Origins.quiet (houtside _ rfl rfl rfl) (fun _ h => h) fun metadata commands h => ?_
    simpa only [State.reply, hmilestones] using h
  · exact State.Origins.quiet (houtside _ rfl rfl rfl) (fun _ h => h) fun _ _ h => h

theorem handleDrain_origins {s : State W} {m : Message} {rest : List Message}
    (hqueue : s.queue = m :: rest) (hpc : s.pc = .draining) :
    s.Origins ({ s with queue := rest }.handleDrain m) := by
  have houtside : ∀ s' : State W, s'.senders = s.senders → s'.queue = rest → s'.pc.successor = [] →
      ∀ id ∈ s'.outside, id ∈ s.outside := by
    intro s' hsenders hrest hsuccessor
    exact State.outside_of_take hqueue hsenders hrest (by simp [hsuccessor])
  have hidle : s.pc.successor = [] := by rw [hpc]; rfl
  unfold State.handleDrain
  split
  · rename_i later hm
    refine ⟨fun id hid => .inl (houtside _ (by rfl) (by rfl) (by exact hidle) id hid), fun req hreq => ?_,
      fun _ _ h => .inl h⟩
    cases hreq
    exact .inr (.inl ⟨State.mem_outside_of_queue hqueue (by simp [Message.generation?, hm]), hpc⟩)
  · split
    · split
      · rw [State.replyCancel_eq]
        exact State.Origins.quiet (houtside _ rfl rfl hidle) (by intro _ h; cases h) fun _ _ h => h
      · rw [State.replyCancel_eq]
        exact State.Origins.quiet (houtside _ rfl rfl hidle) (fun _ h => h) fun _ _ h => h
    · rw [State.replyCancel_eq]
      exact State.Origins.quiet (houtside _ rfl rfl hidle) (fun _ h => h) fun _ _ h => h
  all_goals exact State.Origins.quiet (houtside _ rfl rfl rfl) (fun _ h => h) fun _ _ h => h

/-- The end of the run in the consumer's hand begins nothing. -/
theorem begun_of_ended {events events' : List Event} {e : Event} (h : events' = events ++ [e])
    (he : e.begun? = none) (metadata : RunMetadata) (commands : List String)
    (hevent : Event.started metadata commands ∈ events') : Event.started metadata commands ∈ events := by
  rw [h, List.mem_append, List.mem_singleton] at hevent
  rcases hevent with hevent | rfl
  · exact hevent
  · cases he

theorem Consumed.origins {ex : LawfulExecutor} {env : Env W} {s s' : State W} (h : Consumed ex env s s')
    (hs : s.Sound ex.failFast) : s.Origins s' := by
  have hsame : ∀ s' : State W, s'.senders = s.senders → s'.queue = s.queue → s'.pc.successor = [] →
      ∀ id ∈ s'.outside, id ∈ s.outside := by
    intro s' hsenders hqueue hsuccessor id hid
    simp only [State.outside, State.messages, hsenders, hqueue, hsuccessor, List.append_nil] at hid
    exact List.mem_append_left _ hid
  cases h with
  | promoted req hpc hactive hpending =>
    refine ⟨fun id hid => .inl (hsame _ (by rfl) (by rfl) (by rfl) id hid), (by intro _ h; cases h), ?_⟩
    intro metadata commands hevent
    simp only [State.start, milestones_start, List.mem_append, List.mem_singleton,
      Event.started.injEq] at hevent
    rcases hevent with hevent | ⟨rfl, -⟩
    · exact .inl hevent
    · exact .inr (.inl ⟨req, hpending, rfl⟩)
  | received m rest hpc hactive hpending hqueue => exact handleIdle_origins env hqueue hpc
  | exited | entered | registered | waited | left =>
    exact State.Origins.quiet (hsame _ rfl rfl rfl) (fun _ h => h) fun _ _ h => h
  | running token polls run run' io hpc hactive hr =>
    have hrun := hs run hactive
    simp only [hpc] at hrun
    obtain ⟨-, hmilestones, -⟩ := State.advance_generation hrun hr
    refine State.Origins.quiet (hsame _ rfl rfl rfl) (fun _ h => h) fun metadata commands h => ?_
    rwa [hmilestones] at h
  | finished token polls run run' io hpc hactive hr =>
    have hrun := hs run hactive
    simp only [hpc] at hrun
    obtain ⟨-, hmilestones, -⟩ := State.advance_generation hrun hr
    refine State.Origins.quiet (hsame _ rfl rfl rfl) (fun _ h => h) fun metadata commands h => ?_
    rwa [hmilestones] at h
  | taken run m rest hpc hactive hqueue => exact handleBusy_origins env hqueue hs hpc hactive
  | replaced old req request hpc =>
    refine ⟨fun id hid => .inl (hsame _ (by rfl) (by rfl) (by rfl) id hid), fun req' hreq' => ?_,
      fun metadata commands hevent => .inl ?_⟩
    · cases hreq'
      exact .inr (.inr ⟨old, req, request, hpc, rfl⟩)
    · exact begun_of_ended (cancel_milestones env s.io old (some req.runId)) rfl metadata commands hevent
  | retired old m hpc =>
    rw [State.retire_eq]
    exact State.Origins.quiet (hsame _ rfl rfl rfl) (fun _ h => h)
      (begun_of_ended (cancel_milestones env s.io old none) rfl)
  | completed old hpc =>
    obtain ⟨elapsed, failures, hfinish⟩ := finish_milestones env s.io old
    exact State.Origins.quiet (hsame _ rfl rfl rfl) (fun _ h => h) (begun_of_ended hfinish rfl)
  | drained m rest hpc hqueue => exact handleDrain_origins hqueue hpc

/-- The rewrite of the queue keeps its generations to those that were queued or sent. -/
theorem enqueue_outside {s s' : State W} {m : Message} {next : Option RunRequest}
    {l₁ l₂ : List Sender} (hsplit : s.senders = l₁ ++ .signalled m next :: l₂)
    (hsenders : messagesOf s'.senders = messagesOf (l₁ ++ l₂))
    (hqueue : s'.queue = (enqueue s.queue m).queue) (hpc : s'.pc = s.pc) :
    ∀ id ∈ s'.outside, id ∈ s.outside := by
  intro id hid
  simp only [State.outside, State.messages, hsenders, hqueue, hpc, generations_append,
    messagesOf_append, List.mem_append] at hid
  simp only [State.outside, State.messages, hsplit, generations_append, messagesOf_append,
    messagesOf_signalled, generations_cons, List.mem_append]
  rcases hid with (hid | hid) | hid
  · tauto
  · obtain ⟨other, hother, hgeneration⟩ := List.mem_filterMap.mp hid
    rcases (enqueue_rewrites s.queue m).mem_queue hother with rfl | hold
    · exact .inl (.inl (.inr (.inl (by simp [hgeneration]))))
    · exact .inl (.inr (List.mem_filterMap.mpr ⟨other, hold, hgeneration⟩))
  · exact .inr hid

theorem Happens.origins {ex : LawfulExecutor} {env : Env W} {s s' : State W} {l : Label}
    (h : Happens ex env s l s') (hs : s.Sound ex.failFast) : s.Origins s' := by
  cases h with
  | called c =>
    refine ⟨fun id hid => ?_, by cases c <;> exact fun _ h => .inl h,
      by cases c <;> exact fun _ _ h => .inl h⟩
    cases c <;> simp [State.outside, State.messages, State.call, Message.generation?] at hid ⊢ <;> tauto
  | prepared i draft request l₁ l₂ hi hsplit =>
    refine ⟨fun id hid => ?_, fun _ h => .inl h, fun _ _ h => .inl h⟩
    simp [State.outside, State.messages, hsplit, Message.generation?] at hid ⊢
    tauto
  | failed i draft request l₁ l₂ hi hsplit =>
    refine State.Origins.quiet (fun id hid => ?_) (fun _ h => h) fun _ _ h => h
    simpa [State.outside, State.messages, hsplit] using hid
  | signalled i m next l₁ l₂ hi hsplit =>
    obtain ⟨tokens, hsignal, -⟩ := s.signal_eq m.command
    rw [hsignal]
    refine State.Origins.quiet (fun id hid => ?_) (fun _ h => h) fun _ _ h => h
    simpa [State.outside, State.messages, hsplit] using hid
  | enqueued i m next l₁ l₂ hi hsplit =>
    refine State.Origins.quiet (enqueue_outside hsplit (by simp) rfl rfl) (fun _ h => h) ?_
    intro metadata commands hevent
    have hmilestones := emitCancelled_milestones (enqueue s.queue m).discarded s.io
    rw [State.enqueue, hmilestones, List.mem_append] at hevent
    exact hevent.resolve_right (by simp)
  | closed => exact State.Origins.quiet (fun _ h => h) (fun _ h => h) fun _ _ h => h
  | consumed polls s' hstep => exact hstep.origins hs

/-! ### The invariant -/

/-- The generation has been displaced by the other, and if it had begun the other names it as its
    predecessor wherever it is. -/
structure State.Follows (s : State W) (g n : Nat) : Prop where
  ended : g ∈ s.ended
  allocated : n ≤ s.nextRunId
  outside : g ∈ s.begun → n ∉ s.outside
  pending : g ∈ s.begun → ∀ req, s.pending = some req → req.runId = n → req.predecessor = some g
  started : g ∈ s.begun → ∀ metadata commands,
    Event.started metadata commands ∈ milestones s.io.trace → metadata.runId = n →
      metadata.predecessor = some g

/-- Every displacement is ordered, named, and followed by its successor. -/
structure State.Succession (s : State W) : Prop where
  ordered : ∀ g n, Event.cancelled g (some n) ∈ milestones s.io.trace → g < n
  named : ∀ g cause reported, Deed.displaced g cause reported ∈ s.log → cause.request ≠ none →
    ∃ req, cause.command = .run req ∧ reported = some req.runId ∧
      Event.cancelled g reported ∈ milestones s.io.trace
  follows : ∀ g cause n, Deed.displaced g cause (some n) ∈ s.log → s.Follows g n

/-- A generation begins from where it waits, so one that has ended does not begin again. -/
theorem Lives.begun_of_ended {failFast : Bool} {s s' : State W} (h : Lives s s')
    (hcensus : Census failFast s) {g : Nat} (hended : g ∈ s.ended) (hbegun : g ∈ s'.begun) :
    g ∈ s.begun := by
  obtain ⟨events, hevents, hlife⟩ := h
  rw [State.begun, hevents, List.filterMap_append, List.mem_append] at hbegun
  refine hbegun.resolve_right fun hnew => ?_
  cases hlife with
  | discarded m =>
    rw [discarded_not_begun] at hnew
    cases hnew
  | turn events hturn =>
    cases hturn with
    | quiet => cases hnew
    | begun metadata commands hnone hrunning hwaiting =>
      have hg : g = metadata.runId := by simpa [Event.begun?, eq_comm] using hnew
      have honce := hcensus.once g
      simp only [State.census, List.count_append] at honce
      have hwaits := List.count_pos_iff.mpr (hg ▸ hwaiting)
      have hends := List.count_pos_iff.mpr hended
      omega
    | finished | cancelled => simp [Event.begun?] at hnew

/-- Every step keeps what follows. -/
theorem Happens.follows {ex : LawfulExecutor} {env : Env W} {s s' : State W} {l : Label}
    (h : Happens ex env s l s') (hcensus : Census ex.failFast s) {g n : Nat} (hf : s.Follows g n) :
    s'.Follows g n := by
  have hlives := h.lives hcensus.sound hcensus.shaped
  have horigins := h.origins hcensus.sound
  have hbegun : g ∈ s'.begun → g ∈ s.begun := hlives.begun_of_ended hcensus hf.ended
  refine ⟨hlives.ended_mono g hf.ended, ?_, fun hg hn => ?_, fun hg req hreq hn => ?_,
    fun hg metadata commands hevent hn => ?_⟩
  · have hallocated := hf.allocated
    rcases h.nextRunId_eq with ⟨hsame, -⟩ | ⟨hsucc, -⟩ <;> omega
  · rcases horigins.outside n hn with hold | hnew
    · exact hf.outside (hbegun hg) hold
    · have hallocated := hf.allocated
      omega
  · rcases horigins.pending req hreq with hold | ⟨hout, -⟩ | ⟨old, req', request, hpc, hid⟩
    · exact hf.pending (hbegun hg) req hold hn
    · exact absurd (hn ▸ hout) (hf.outside (hbegun hg))
    · refine absurd ?_ (hf.outside (hbegun hg))
      rw [State.outside, hpc, ← hn, hid]
      exact List.mem_append_right _ (by simp [Pc.successor])
  · rcases horigins.begun metadata commands hevent with hold | ⟨req, hpending, rfl⟩ | hout
    · exact hf.started (hbegun hg) metadata commands hold hn
    · exact hf.pending (hbegun hg) req hpending hn
    · exact absurd (hn ▸ hout) (hf.outside (hbegun hg))

/-- A queued generation that is discarded has not begun. -/
theorem enqueue_follows {failFast : Bool} {s s' : State W} (hcensus : Census failFast s)
    (hbegun : s.BegunHeld) {m : Message} (hm : m ∈ messagesOf s.senders)
    (hnext : s'.nextRunId = s.nextRunId)
    (hio : milestones s'.io.trace = milestones s.io.trace
      ++ (enqueue s.queue m).discarded.map fun r => Event.cancelled r.1 r.2)
    {g n : Nat} (hd : (g, some n) ∈ (enqueue s.queue m).discarded) : s'.Follows g n := by
  have hqueued : g ∈ s.waiting := by
    have hg := (enqueue_rewrites s.queue m).discarded_queued _ hd
    simp only [State.waiting, List.mem_append]
    exact .inl (.inl (.inr hg))
  have hunbegun : g ∉ s'.begun := by
    rw [State.begun, hio, List.filterMap_append, discarded_not_begun, List.append_nil]
    exact hcensus.waiting_not_begun hbegun hqueued
  refine ⟨?_, ?_, fun h => absurd h hunbegun, fun h => absurd h hunbegun, fun h => absurd h hunbegun⟩
  · rw [State.ended, hio, List.filterMap_append]
    refine List.mem_append_right _ (List.mem_filterMap.mpr ⟨.cancelled g (some n), ?_, rfl⟩)
    exact List.mem_map.mpr ⟨(g, some n), hd, rfl⟩
  · -- the successor is the Run that is being sent, so its id has been allocated
    obtain ⟨req, hrun, hn⟩ : ∃ req, m.command = .run req ∧ req.runId = n := by
      have hrewrites := enqueue_rewrites s.queue m
      generalize enqueue s.queue m = r at hrewrites hd
      cases hrewrites with
      | replaced new old before after bares oldMessage hm =>
        simp only [List.mem_singleton, Prod.mk.injEq, Option.some.injEq] at hd
        exact ⟨new, hm, hd.2.symm⟩
      | pushed => cases hd
      | removed => simp at hd
      | cleared => simp at hd
    have hsent : n ∈ s.census := by
      simp only [State.census, State.waiting, List.mem_append]
      refine .inl (.inl (.inl (.inl (.inl (List.mem_filterMap.mpr ⟨m, hm, ?_⟩)))))
      rw [Message.generation?_of_run hrun, hn]
    by_contra hlt
    have hzero := hcensus.bounded n (by omega)
    exact List.count_eq_zero.mp hzero hsent

/-- Replacing the active run makes its successor wait in the pending slot with its predecessor. -/
theorem replace_follows {failFast : Bool} (env : Env W) {s : State W} (hcensus : Census failFast s)
    (hbegun : s.BegunHeld) {old : Run} {req : RunRequest} {request : Option Nat}
    (hpc : s.pc = .replacing old req request) :
    (s.replace env old req request).Follows old.metadata.runId req.runId := by
  have hwaiting : req.runId ∈ s.waiting := by simp [State.waiting, hpc, Pc.successor]
  have honce := hcensus.once req.runId
  rw [State.count_census, hpc] at honce
  simp only [Pc.successor, List.count_cons_self, List.count_nil] at honce
  refine ⟨?_, ?_, fun _ hout => ?_, fun _ req' hreq' _ => ?_, fun _ metadata commands hevent hn => ?_⟩
  · rw [State.replace_ended]
    simp
  · by_contra hlt
    have hzero := hcensus.bounded req.runId (by simpa [State.replace, State.unregister] using hlt)
    rw [State.count_census, hpc] at hzero
    simp [Pc.successor] at hzero
  · simp only [State.outside, State.messages, State.replace, State.unregister, Pc.successor,
      List.append_nil, generations_append, List.mem_append] at hout
    rcases hout with hout | hout
    · have hpos := List.count_pos_iff.mpr hout
      omega
    · have hpos := List.count_pos_iff.mpr hout
      omega
  · cases hreq'
    rfl
  · have hmilestones : milestones (s.replace env old req request).io.trace = _ :=
      cancel_milestones env s.io old (some req.runId)
    have hold := begun_of_ended hmilestones rfl metadata commands hevent
    refine absurd ?_ (hcensus.waiting_not_begun hbegun hwaiting)
    exact List.mem_filterMap.mpr ⟨_, hold, by simp [Event.begun?, hn]⟩

/-- Every orderly step of the consumer keeps the succession. -/
theorem Consumed.succession {ex : LawfulExecutor} {env : Env W} {s s' : State W} {polls : Nat}
    (h : Consumed ex env s s') (hcensus : Census ex.failFast s) (hbegun : s.BegunHeld)
    (hqueued : s.Queued) (htags : s.Tags) (horderly : s.Orderly (.consume polls))
    (hs : s.Succession) : s'.Succession := by
  have hmono : ∀ e ∈ milestones s.io.trace, e ∈ milestones s'.io.trace := by
    obtain ⟨events, hevents, -⟩ := h.turns hcensus.sound hcensus.shaped
    rw [hevents]
    exact fun e he => List.mem_append_left _ he
  have hfollows : ∀ g n, s.Follows g n → s'.Follows g n :=
    fun g n hf => (Happens.consumed polls s' h).follows hcensus hf
  refine ⟨fun g n hevent => ?_, fun g cause reported hdeed hrequest => ?_, fun g cause n hdeed => ?_⟩
  · rcases h.names hcensus.sound hcensus.shaped hevent with hold | ⟨old, req, request, hpc, rfl, rfl⟩
    · exact hs.ordered g n hold
    · exact hqueued.taken old req request hpc
  · rcases h.displaces hdeed with hold | ⟨old, req, request, hpc, rfl, rfl, rfl⟩ |
      ⟨old, hpc, -⟩ | ⟨hpc, ⟨rest, hqueue⟩, hrun, hpending, -⟩
    · obtain ⟨req, hrun, hnamed, hevent⟩ := hs.named g cause reported hold hrequest
      exact ⟨req, hrun, hnamed, hmono _ hevent⟩
    · refine ⟨req, rfl, rfl, ?_⟩
      have hmilestones : milestones (s.replace env old req request).io.trace = _ :=
        cancel_milestones env s.io old (some req.runId)
      rw [h.of_replacing hpc, hmilestones]
      simp
    · exact absurd (htags.retiring old cause hpc) hrequest
    · simp only [State.Orderly, hpc, hqueue] at horderly
      exact absurd (horderly hrun) hpending
  · rcases h.displaces hdeed with hold | ⟨old, req, request, hpc, rfl, rfl, hn⟩ |
      ⟨old, hpc, hnone⟩ | ⟨-, -, -, -, hnone⟩
    · exact hfollows g n (hs.follows g cause n hold)
    · cases hn
      rw [h.of_replacing hpc]
      exact replace_follows env hcensus hbegun hpc
    · cases hnone
    · cases hnone

/-- A new Run is above the queued one it replaces. -/
theorem enqueue_ordered {s : State W} {i : Nat} {m : Message} {next : Option RunRequest}
    (horderly : s.Orderly (.enqueue i)) (hi : s.senders[i]? = some (.signalled m next)) {g n : Nat}
    (hd : (g, some n) ∈ (enqueue s.queue m).discarded) : g < n := by
  have hqueued := (enqueue_rewrites s.queue m).discarded_queued _ hd
  have hrewrites := enqueue_rewrites s.queue m
  generalize enqueue s.queue m = r at hrewrites hd
  cases hrewrites with
  | replaced new old before after bares oldMessage hm =>
    simp only [List.mem_singleton, Prod.mk.injEq, Option.some.injEq] at hd
    obtain ⟨command, request⟩ := m
    cases hm
    simp only [State.Orderly, hi] at horderly
    rw [hd.2]
    exact horderly g (List.mem_append_left _ hqueued)
  | pushed => cases hd
  | removed => simp at hd
  | cleared => simp at hd

/-- What the rewrite for a scheduling request discards, its Run displaces. -/
theorem enqueue_named {s : State W} {i : Nat} {m : Message} {next : Option RunRequest}
    (horderly : s.Orderly (.enqueue i)) (hi : s.senders[i]? = some (.signalled m next))
    (htagged : m.Tagged) (hrequest : m.request ≠ none) {g : Nat} {reported : Option Nat}
    (hd : (g, reported) ∈ (enqueue s.queue m).discarded) :
    ∃ req, m.command = .run req ∧ reported = some req.runId := by
  have hrewrites := enqueue_rewrites s.queue m
  generalize enqueue s.queue m = r at hrewrites hd
  cases hrewrites with
  | replaced new old before after bares oldMessage hm =>
    simp only [List.mem_singleton, Prod.mk.injEq] at hd
    exact ⟨new, hm, hd.2⟩
  | pushed => cases hd
  | removed target ticket queued before after message hm =>
    rcases htagged hrequest with hrun | hbare
    · simp [hm, WorkerCommand.isRun] at hrun
    · simp [hm, WorkerCommand.isBareCancel] at hbare
  | cleared ticket hm =>
    obtain ⟨command, request⟩ := m
    cases hm
    obtain ⟨tag, rfl⟩ := Option.ne_none_iff_exists'.mp hrequest
    simp only [State.Orderly, hi] at horderly
    simp [horderly] at hd

theorem Happens.succession {ex : LawfulExecutor} {env : Env W} {s s' : State W} {l : Label}
    (h : Happens ex env s l s') (hcensus : Census ex.failFast s) (hbegun : s.BegunHeld)
    (hqueued : s.Queued) (htags : s.Tags) (horderly : s.Orderly l) (hs : s.Succession) :
    s'.Succession := by
  have hwhole := h
  -- steps that emit nothing and displace nothing
  have hquiet : milestones s'.io.trace = milestones s.io.trace →
      (∀ g cause reported, Deed.displaced g cause reported ∈ s'.log →
        Deed.displaced g cause reported ∈ s.log) → s'.Succession := by
    intro hmilestones hlog
    refine ⟨fun g n hevent => hs.ordered g n (hmilestones ▸ hevent), ?_, ?_⟩
    · intro g cause reported hdeed hrequest
      rw [hmilestones]
      exact hs.named g cause reported (hlog g cause reported hdeed) hrequest
    · exact fun g cause n hdeed => hwhole.follows hcensus (hs.follows g cause n (hlog _ _ _ hdeed))
  cases h with
  | called c => cases c <;> exact hquiet rfl fun _ _ _ h => h
  | prepared => exact hquiet rfl (by simp)
  | failed | closed => exact hquiet rfl fun _ _ _ h => h
  | signalled i m =>
    obtain ⟨tokens, hsignal, -⟩ := s.signal_eq m.command
    exact hquiet (by rw [hsignal]) (by rw [hsignal]; exact fun _ _ _ h => h)
  | enqueued i m next l₁ l₂ hi hsplit =>
    have hm : m ∈ messagesOf s.senders := by simp [hsplit]
    have hmilestones := emitCancelled_milestones (enqueue s.queue m).discarded s.io
    have hdeeds : ∀ g cause reported, Deed.displaced g cause reported ∈ (s.enqueue m).log →
        Deed.displaced g cause reported ∈ s.log ∨
          (cause = m ∧ (g, reported) ∈ (enqueue s.queue m).discarded) := by
      intro g cause reported hdeed
      simp only [State.enqueue, List.append_assoc, List.mem_append, List.mem_map] at hdeed
      rcases hdeed with hdeed | ⟨⟨id, successor⟩, hd, heq⟩ | hdeed
      · exact .inl hdeed
      · cases heq
        exact .inr ⟨rfl, hd⟩
      · cases hreply : (enqueue s.queue m).reply <;> simp [hreply] at hdeed
    refine ⟨fun g n hevent => ?_, fun g cause reported hdeed hrequest => ?_, fun g cause n hdeed => ?_⟩
    · have hevent : Event.cancelled g (some n) ∈ milestones (s.enqueue m).io.trace := hevent
      rw [State.enqueue, hmilestones, List.mem_append] at hevent
      rcases hevent with hold | hnew
      · exact hs.ordered g n hold
      · obtain ⟨⟨id, successor⟩, hd, heq⟩ := List.mem_map.mp hnew
        cases heq
        exact enqueue_ordered horderly hi hd
    · rcases hdeeds g cause reported hdeed with hold | ⟨rfl, hd⟩
      · obtain ⟨req, hrun, hnamed, hevent⟩ := hs.named g cause reported hold hrequest
        refine ⟨req, hrun, hnamed, ?_⟩
        rw [State.enqueue, hmilestones]
        exact List.mem_append_left _ hevent
      · obtain ⟨req, hrun, hnamed⟩ := enqueue_named horderly hi (htags.messages cause
          (List.mem_append_left _ hm)) hrequest hd
        refine ⟨req, hrun, hnamed, ?_⟩
        rw [State.enqueue, hmilestones]
        exact List.mem_append_right _ (List.mem_map.mpr ⟨(g, reported), hd, rfl⟩)
    · rcases hdeeds g cause (some n) hdeed with hold | ⟨rfl, hd⟩
      · exact hwhole.follows hcensus (hs.follows g cause n hold)
      · exact enqueue_follows hcensus hbegun hm (by rfl) (by exact hmilestones) hd
  | consumed polls s' hstep => exact hstep.succession hcensus hbegun hqueued htags horderly hs

theorem State.initial_begunHeld (world : W) : (State.initial world).BegunHeld := by
  intro id hid
  cases hid

theorem State.initial_queued (world : W) : (State.initial world).Queued where
  sorted := .nil
  newer _ hm := absurd hm List.not_mem_nil
  taken _ _ _ hpc := by cases hpc

theorem State.initial_tags (world : W) : (State.initial world).Tags where
  messages _ hm := absurd hm List.not_mem_nil
  retiring _ _ hpc := by cases hpc

theorem State.initial_succession (world : W) : (State.initial world).Succession where
  ordered _ _ hevent := absurd hevent List.not_mem_nil
  named _ _ _ hdeed := absurd hdeed List.not_mem_nil
  follows _ _ _ hdeed := absurd hdeed List.not_mem_nil

/-! ### Runs -/

/-- In every state reached by orderly steps: a named successor is newer than the generation it
    displaces; a generation displaced for a scheduling request of the watch loop is reported with the
    generation of that request as its successor; and the Started event of a generation that displaced
    an active one names it as its predecessor. -/
theorem State.supersession_named (ex : LawfulExecutor) (env : Env W) (world : W) (labels : List Label)
    (horderly : Machine.Meets (State.step ex env) State.Orderly (State.initial world) labels)
    (s : State W) (h : Machine.after (State.step ex env) (State.initial world) labels = some s) :
    (∀ g n, Event.cancelled g (some n) ∈ milestones s.io.trace → g < n) ∧
    (∀ g cause reported, Deed.displaced g cause reported ∈ s.log → cause.request ≠ none →
      ∃ req, cause.command = .run req ∧ reported = some req.runId ∧
        Event.cancelled g reported ∈ milestones s.io.trace) ∧
    (∀ g cause n, Deed.displaced g cause (some n) ∈ s.log → g ∈ s.begun →
      ∀ metadata commands, Event.started metadata commands ∈ milestones s.io.trace →
        metadata.runId = n → metadata.predecessor = some g) := by
  have hinvariant := Machine.invariant (State.step ex env)
    (I := fun s => Census ex.failFast s ∧ s.BegunHeld ∧ s.Queued ∧ s.Tags ∧ s.Succession)
    (fun s l s' hs horderly hstep => by
      obtain ⟨hcensus, hbegun, hqueued, htags, hsuccession⟩ := hs
      have hhappens := step_happens hstep
      have hlives := hhappens.lives hcensus.sound hcensus.shaped
      exact ⟨hhappens.census hcensus, hlives.begunHeld hbegun,
        hhappens.queued hcensus.sound hcensus.shaped horderly hqueued, hhappens.tags horderly htags,
        hhappens.succession hcensus hbegun hqueued htags horderly hsuccession⟩)
    labels (State.initial world) s
    ⟨State.initial_census ex.failFast world, State.initial_begunHeld world,
      State.initial_queued world, State.initial_tags world, State.initial_succession world⟩ horderly h
  obtain ⟨-, -, -, -, hsuccession⟩ := hinvariant
  exact ⟨hsuccession.ordered, hsuccession.named, fun g cause n hdeed hbegun =>
    (hsuccession.follows g cause n hdeed).started hbegun⟩

/-- A scheduling request of the watch loop whose Run reaches the queue before the consumer takes its bare
    cancel: the displaced generation is reported with its successor, which is newer and starts with it as
    its predecessor. -/
theorem State.supersession_named_at_build :
    let labels : List Label := scheduled "build" ++ List.replicate 4 (.consume 0)
      ++ [.call (.request { runId := 0, plan := .fromRules [{ name := "test", commands := ["test"] }] }),
        .signal 0, .enqueue 0, .prepare 0 true, .signal 0, .enqueue 0] ++ List.replicate 4 (.consume 0)
    ∃ s, Machine.after (State.step {} (steadyEnv fun _ => none)) (State.initial ()) labels = some s ∧
      Event.cancelled 1 (some 2) ∈ milestones s.io.trace ∧
      Deed.displaced 1 ⟨.run { runId := 2, plan := .fromRules [{ name := "test", commands := ["test"] }] },
        some 0⟩ (some 2) ∈ s.log ∧
      ∀ metadata commands, Event.started metadata commands ∈ milestones s.io.trace →
        metadata.runId = 2 → metadata.predecessor = some 1 := by
  intro labels
  refine ⟨_, rfl, by decide, by decide, ?_⟩
  exact (State.supersession_named {} (steadyEnv fun _ => none) () labels (by decide) _ rfl).2.2 1
    ⟨.run { runId := 2, plan := .fromRules [{ name := "test", commands := ["test"] }] }, some 0⟩ 2
    (by decide) (by decide)

/-- A scheduling request of the watch loop whose bare cancel the consumer takes first: the displaced
    generation is reported without a successor, and its successor starts without a predecessor. -/
theorem State.displaced_unnamed :
    ∃ s, Machine.after (State.step {} (steadyEnv fun _ => none)) (State.initial ())
        (scheduled "build" ++ List.replicate 4 (.consume 0)
          ++ [.call (.request { runId := 0, plan := .fromRules [{ name := "test" }] }), .signal 0,
            .enqueue 0, .consume 0, .consume 0, .prepare 0 true, .signal 0, .enqueue 0, .consume 0])
        = some s ∧
      Deed.displaced 1 ⟨.cancel none none, some 0⟩ none ∈ s.log ∧
      milestones s.io.trace = [.started { runId := 1, revision := some 0, revisionHash := some "" } ["build"],
        .cancelled 1 none, .started { runId := 2, revision := some 0, revisionHash := some "" } []] := by
  exact ⟨_, rfl, by decide, by decide⟩

end Funzzy
