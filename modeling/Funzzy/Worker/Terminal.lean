import Funzzy.Worker.Census
import Funzzy.Executor.Session

/-! One terminal event for each generation.

    Every generation that a scheduling call has dispatched is in the census (`Dispatched`): it waits, it
    runs, or its terminal event has been emitted, and the census has no id twice. What can leave the
    census unannounced is a service plan, which is never dispatched, and what the burst drain forgets. -/

namespace Funzzy

variable {W : Type}

/-! ### Dispatched generations -/

def Deed.dispatched? : Deed → Option Nat
  | .dispatched runId => some runId
  | _ => none

/-- The generations that scheduling calls have dispatched. -/
def State.dispatches (s : State W) : List Nat := s.log.filterMap Deed.dispatched?

/-- The messages that are being sent or queued. -/
def State.messages (s : State W) : List Message := messagesOf s.senders ++ s.queue

/-- The consumer only takes messages, and dispatches nothing. -/
theorem Consumed.takes {ex : LawfulExecutor} {env : Env W} {s s' : State W} (h : Consumed ex env s s') :
    s'.senders = s.senders ∧ (∀ m ∈ s'.queue, m ∈ s.queue) ∧ s'.dispatches = s.dispatches := by
  cases h with
  | received m rest hpc hactive hpending hqueue =>
    have hrest : ∀ other ∈ rest, other ∈ s.queue := by simp +contextual [hqueue]
    unfold State.handleIdle
    split
    · exact ⟨rfl, hrest, rfl⟩
    · rename_i ticket _
      rw [State.replyCancel_eq]
      cases ticket <;> exact ⟨rfl, hrest, by simp [State.dispatches, Deed.dispatched?]⟩
    · exact ⟨rfl, hrest, rfl⟩
    all_goals exact ⟨rfl, hrest, by simp [State.dispatches, Deed.dispatched?, State.reply]⟩
  | taken run m rest hpc hactive hqueue =>
    have hrest : ∀ other ∈ rest, other ∈ s.queue := by simp +contextual [hqueue]
    unfold State.handleBusy
    split
    · exact ⟨rfl, hrest, rfl⟩
    · rename_i ticket _
      split
      · exact ⟨rfl, hrest, rfl⟩
      · rw [State.replyCancel_eq]
        cases ticket <;> exact ⟨rfl, hrest, by simp [State.dispatches, Deed.dispatched?]⟩
    · exact ⟨rfl, hrest, rfl⟩
    all_goals exact ⟨rfl, hrest, by simp [State.dispatches, Deed.dispatched?, State.reply]⟩
  | replaced old req request =>
    exact ⟨rfl, fun _ hm => hm, by simp [State.dispatches, Deed.dispatched?, State.replace]⟩
  | retired old m =>
    rw [State.retire_eq]
    cases m.command.exactReply <;>
      exact ⟨rfl, fun _ hm => hm, by simp [State.dispatches, Deed.dispatched?]⟩
  | drained m rest hpc hqueue =>
    have hrest : ∀ other ∈ rest, other ∈ s.queue := by simp +contextual [hqueue]
    unfold State.handleDrain
    split
    · cases s.pending <;> exact ⟨rfl, hrest, by simp [State.dispatches, Deed.dispatched?]⟩
    · rename_i ticket _
      split
      · split <;> rw [State.replyCancel_eq] <;> cases ticket <;>
          exact ⟨rfl, hrest, by simp [State.dispatches, Deed.dispatched?]⟩
      · rw [State.replyCancel_eq]
        cases ticket <;> exact ⟨rfl, hrest, by simp [State.dispatches, Deed.dispatched?]⟩
    all_goals exact ⟨rfl, hrest, rfl⟩
  | _ => exact ⟨rfl, fun _ hm => hm, rfl⟩

theorem Rewrites.mem_queue {queue : List Message} {m : Message} {r : Rewrite} (h : Rewrites queue m r)
    {other : Message} (hother : other ∈ r.queue) : other = m ∨ other ∈ queue := by
  cases h with
  | replaced new old before after bares oldMessage hm hqueue =>
    simp only [List.mem_append, List.mem_cons] at hother
    simp only [hqueue, List.mem_append, List.mem_cons]
    tauto
  | pushed kept bares hqueue =>
    simp only [List.mem_append, List.mem_singleton] at hother
    simp only [hqueue, List.mem_append]
    tauto
  | removed target ticket queued before after message hm hqueue =>
    simp only [List.mem_append] at hother
    simp only [hqueue, List.mem_append, List.mem_cons]
    tauto
  | cleared ticket hm =>
    simp only [List.mem_append, List.mem_filter, List.mem_singleton] at hother
    tauto

theorem State.enqueue_dispatches (s : State W) (m : Message) :
    (s.enqueue m).dispatches = s.dispatches := by
  have hdisplaced : ∀ (discarded : List (Nat × Option Nat)) (deed : Nat × Option Nat → Deed),
      (∀ d, (deed d).dispatched? = none) → (discarded.map deed).filterMap Deed.dispatched? = [] := by
    intro discarded deed hdeed
    simp [hdeed]
  simp only [State.dispatches, State.enqueue, List.filterMap_append]
  rw [hdisplaced _ _ fun _ => rfl]
  cases (Funzzy.enqueue s.queue m).reply <;> simp [Deed.dispatched?]

/-! ### The invariant -/

/-- The burst drain does not forget the pending request: it takes neither another Run nor an exact
    cancel of the pending generation while a request is pending. -/
def State.KeepsPending (s : State W) : Label → Prop
  | .consume _ =>
    match s.pc, s.queue, s.pending with
    | .draining, m :: _, some req =>
      match m.command with
      | .run _ => False
      | .cancel (some id) _ => req.runId ≠ id
      | .cancel none _ | .reconcileServices _ _ | .startServices _ _ _ => True
    | _, _, _ => True
  | _ => True

instance (s : State W) : ∀ l : Label, Decidable (s.KeepsPending l)
  | .consume _ => by
    unfold State.KeepsPending
    dsimp only
    exact match s.pc, s.queue, s.pending with
      | .draining, ⟨.run _, _⟩ :: _, some _ => inferInstanceAs (Decidable False)
      | .draining, ⟨.cancel (some id) _, _⟩ :: _, some req => inferInstanceAs (Decidable (req.runId ≠ id))
      | .draining, ⟨.cancel none _, _⟩ :: _, some _ | .draining, ⟨.reconcileServices _ _, _⟩ :: _, some _
      | .draining, ⟨.startServices _ _ _, _⟩ :: _, some _ | .draining, [], some _ | .draining, [], none
      | .draining, _ :: _, none | .top, _, _ | .registering, _, _ | .advancing _, _, _ | .stepped, _, _
      | .replacing _ _ _, _, _ | .retiring _ _, _, _ | .finishing _, _, _ | .exited, _, _ =>
        inferInstanceAs (Decidable True)
  | .call _ | .prepare _ _ | .signal _ | .enqueue _ | .close => inferInstanceAs (Decidable True)

/-- Every dispatched generation is in the census, and no service plan has the id of one. -/
structure State.Dispatched (s : State W) : Prop where
  counted : ∀ id ∈ s.dispatches, s.census.count id = 1
  plans : ∀ m ∈ s.messages, ∀ id ∈ s.dispatches, m.services? ≠ some id

/-- What leaves the census unannounced is a service plan, unless the drain forgets the pending one. -/
theorem State.forfeits_services {s : State W} {l : Label} (h : s.KeepsPending l) {id : Nat}
    (hid : id ∈ s.forfeits l) : ∃ m ∈ s.messages, m.services? = some id := by
  cases l with
  | consume polls =>
    have hhead : ∀ m rest, s.queue = m :: rest → m ∈ s.messages := by
      intro m rest hqueue
      simp [State.messages, hqueue]
    simp only [State.forfeits] at hid
    split at hid
    · rename_i m rest hpc hqueue
      exact ⟨m, hhead m rest hqueue, by simpa using hid⟩
    · rename_i m rest hpc hqueue
      refine ⟨m, hhead m rest hqueue, ?_⟩
      simp only [State.KeepsPending, hpc, hqueue] at h
      rcases hm : m.command with new | ⟨_ | target, ticket⟩ | ⟨names, ticket⟩ | ⟨runId, plan, revision⟩ <;>
        rcases hpending : s.pending with _ | req <;>
        simp_all [State.drainForfeits, Message.services?, Option.filter_some]
    · cases hid
  | _ => cases hid

theorem State.not_dispatched_next {failFast : Bool} {s : State W} (hcensus : Census failFast s)
    (h : s.Dispatched) : s.nextRunId + 1 ∉ s.dispatches := by
  intro hid
  have hone := h.counted _ hid
  have hzero := hcensus.bounded (s.nextRunId + 1) (Nat.lt_succ_self _)
  omega

/-- The id of a plan that is being sent or queued is in the census. -/
theorem State.services_counted {s : State W} {m : Message} (hm : m ∈ s.messages) {id : Nat}
    (hid : m.services? = some id) : 0 < s.census.count id := by
  have hgeneration : m.generation? = some id := by
    revert hid
    unfold Message.services? Message.generation?
    cases m.command <;> simp
  refine List.count_pos_iff.mpr ?_
  simp only [State.census, State.waiting, generations, List.mem_append, List.mem_filterMap]
  rcases List.mem_append.mp hm with hm | hm
  · exact .inl (.inl (.inl (.inl (.inl ⟨m, hm, hgeneration⟩))))
  · exact .inl (.inl (.inl (.inl (.inr ⟨m, hm, hgeneration⟩))))

/-- Steps that allocate nothing, or an id that is not dispatched. -/
theorem State.Dispatched.counted_of_step {ex : LawfulExecutor} {env : Env W} {s s' : State W} {l : Label}
    (hstep : Happens ex env s l s') (hcensus : Census ex.failFast s) (hkeeps : s.KeepsPending l)
    (h : s.Dispatched) {id : Nat} (hid : id ∈ s.dispatches) : s'.census.count id = 1 := by
  have hbalance := hstep.keeps hcensus.sound hcensus.shaped id
  have hforfeits : (s.forfeits l).count id = 0 := by
    refine List.count_eq_zero.mpr fun hforfeit => ?_
    obtain ⟨m, hm, hservices⟩ := State.forfeits_services hkeeps hforfeit
    exact h.plans m hm id hid hservices
  have hallocates : (s.allocates l).count id = 0 := by
    rcases hstep.nextRunId_eq with ⟨-, hnone⟩ | ⟨-, hnew⟩
    · rw [hnone, List.count_nil]
    · rw [hnew]
      refine List.count_eq_zero.mpr fun hnext => ?_
      rw [List.mem_singleton.mp hnext] at hid
      exact State.not_dispatched_next hcensus h hid
  have hone := h.counted id hid
  omega

/-- A step that dispatches nothing and brings no new service plan. -/
theorem State.Dispatched.of_messages {ex : LawfulExecutor} {env : Env W} {s s' : State W} {l : Label}
    (hstep : Happens ex env s l s') (hcensus : Census ex.failFast s) (hkeeps : s.KeepsPending l)
    (h : s.Dispatched) (hsame : s'.dispatches = s.dispatches)
    (hmessages : ∀ m ∈ s'.messages, m ∈ s.messages ∨ ∀ id ∈ s.dispatches, m.services? ≠ some id) :
    s'.Dispatched where
  counted := by
    intro id hid
    rw [hsame] at hid
    exact State.Dispatched.counted_of_step hstep hcensus hkeeps h hid
  plans := by
    intro m hm id hid
    rw [hsame] at hid
    rcases hmessages m hm with hold | hnew
    · exact h.plans m hold id hid
    · exact hnew id hid

theorem Happens.dispatched {ex : LawfulExecutor} {env : Env W} {s s' : State W} {l : Label}
    (hstep : Happens ex env s l s') (hcensus : Census ex.failFast s) (hkeeps : s.KeepsPending l)
    (h : s.Dispatched) : s'.Dispatched := by
  have hnext := State.not_dispatched_next hcensus h
  have hwhole := hstep
  cases hstep with
  | called c =>
    refine h.of_messages hwhole hcensus hkeeps (by cases c <;> rfl) fun m hm => ?_
    have hnew : m ∈ s.messages ∨ m.services? = none ∨ m.services? = some (s.nextRunId + 1) := by
      cases c with
      | schedule draft => exact .inl (by simpa [State.messages, State.call] using hm)
      | _ =>
        simp only [State.messages, State.call, messagesOf_append, messagesOf_sending, messagesOf_nil,
          List.mem_append, List.mem_singleton] at hm ⊢
        rcases hm with (hm | rfl) | hm
        · exact .inl (.inl hm)
        · exact .inr (by simp [Message.services?])
        · exact .inl (.inr hm)
    rcases hnew with hold | hnone | hplan
    · exact .inl hold
    · exact .inr (by simp [hnone])
    · refine .inr fun id hid heq => hnext ?_
      rw [hplan] at heq
      exact Option.some.inj heq ▸ hid
  | prepared i draft request l₁ l₂ hi hsplit =>
    have hmessages : ∀ m ∈ s.messages, m.services? ≠ some (s.nextRunId + 1) := by
      intro m hm hid
      have hpos := State.services_counted hm hid
      have hzero := hcensus.bounded (s.nextRunId + 1) (Nat.lt_succ_self _)
      omega
    refine ⟨fun id hid => ?_, fun m hm id hid => ?_⟩
    · simp only [State.dispatches, List.filterMap_append, List.mem_append] at hid
      rcases hid with hid | hid
      · exact h.counted_of_step hwhole hcensus hkeeps hid
      · have hnew : id = s.nextRunId + 1 := by simpa [Deed.dispatched?] using hid
        have hbalance := hwhole.keeps hcensus.sound hcensus.shaped id
        have hzero := hcensus.bounded id (by omega)
        have hone : (s.allocates (.prepare i true)).count id = 1 := by simp [State.allocates, hnew]
        have hnone : (s.forfeits (.prepare i true)).count id = 0 := rfl
        omega
    · simp only [State.dispatches, List.filterMap_append, List.mem_append] at hid
      simp only [State.messages, messagesOf_append, messagesOf_sending, List.mem_append,
        List.mem_cons] at hm
      have hold : m ∈ s.messages ∨ m.services? = none := by
        simp only [State.messages, hsplit, messagesOf_append, messagesOf_preparing, List.mem_append]
        rcases hm with (hm | rfl | hm) | hm
        · exact .inl (.inl (.inl hm))
        · exact .inr rfl
        · exact .inl (.inl (.inr hm))
        · exact .inl (.inr hm)
      rcases hold with hold | hnone
      · rcases hid with hid | hid
        · exact h.plans m hold id hid
        · have hnew : id = s.nextRunId + 1 := by simpa [Deed.dispatched?] using hid
          exact hnew ▸ hmessages m hold
      · simp [hnone]
  | failed i draft request l₁ l₂ hi hsplit =>
    refine h.of_messages hwhole hcensus hkeeps rfl fun m hm => .inl ?_
    simpa [State.messages, hsplit] using hm
  | signalled i m next l₁ l₂ hi hsplit =>
    obtain ⟨tokens, hsignal, -⟩ := s.signal_eq m.command
    refine h.of_messages hwhole hcensus hkeeps (by rw [hsignal]; rfl) fun other hother => .inl ?_
    rw [hsignal] at hother
    simpa [State.messages, hsplit] using hother
  | enqueued i m next l₁ l₂ hi hsplit =>
    refine h.of_messages hwhole hcensus hkeeps (State.enqueue_dispatches s m) fun other hother => .inl ?_
    have hqueue : ∀ other ∈ (enqueue s.queue m).queue, other = m ∨ other ∈ s.queue :=
      fun _ hother => (enqueue_rewrites s.queue m).mem_queue hother
    simp only [State.messages, State.enqueue, messagesOf_append, messagesOf_next, List.append_nil,
      List.mem_append] at hother
    simp only [State.messages, hsplit, messagesOf_append, messagesOf_signalled, List.mem_append,
      List.mem_cons]
    rcases hother with hother | hother
    · tauto
    · have hold := hqueue other hother
      tauto
  | closed => exact h.of_messages hwhole hcensus hkeeps rfl fun m hm => .inl hm
  | consumed polls s' hconsumed =>
    obtain ⟨hsenders, hqueue, hdispatches⟩ := hconsumed.takes
    refine h.of_messages hwhole hcensus hkeeps hdispatches fun m hm => .inl ?_
    rw [State.messages, hsenders] at hm
    rcases List.mem_append.mp hm with hm | hm
    · exact List.mem_append_left _ hm
    · exact List.mem_append_right _ (hqueue m hm)

theorem State.initial_dispatched (world : W) : (State.initial world).Dispatched where
  counted _ hid := absurd hid List.not_mem_nil
  plans _ hm := absurd hm List.not_mem_nil

/-! ### Runs -/

/-- In every state reached without the drain forgetting a pending request, each dispatched generation
    is held by the worker and has no terminal event, or has left it with exactly one. -/
theorem State.terminal_once (ex : LawfulExecutor) (env : Env W) (world : W) (labels : List Label)
    (hkeeps : Machine.Meets (State.step ex env) State.KeepsPending (State.initial world) labels)
    (s : State W) (h : Machine.after (State.step ex env) (State.initial world) labels = some s) :
    ∀ id ∈ s.dispatches,
      (id ∈ s.waiting ++ s.running ∧ s.ended.count id = 0) ∨
        (id ∉ s.waiting ++ s.running ∧ s.ended.count id = 1) := by
  have hinvariant := Machine.invariant (State.step ex env)
    (I := fun s => Census ex.failFast s ∧ s.Dispatched)
    (fun s l s' hs hkeeps hstep => by
      have hhappens := step_happens hstep
      exact ⟨hhappens.census hs.1, hhappens.dispatched hs.1 hkeeps hs.2⟩)
    labels (State.initial world) s
    ⟨State.initial_census ex.failFast world, State.initial_dispatched world⟩ hkeeps h
  intro id hid
  have hone := hinvariant.2.counted id hid
  rw [State.census, List.count_append] at hone
  by_cases hheld : id ∈ s.waiting ++ s.running
  · have hpos := List.count_pos_iff.mpr hheld
    exact .inl ⟨hheld, by omega⟩
  · have hzero := List.count_eq_zero.mpr hheld
    exact .inr ⟨hheld, by omega⟩

/-- A second generation displaces a running one: the first has its terminal event, the second none. -/
theorem State.terminal_once_at_build :
    ∃ s, Machine.after (State.step {} (steadyEnv fun _ => none)) (State.initial ())
        (scheduled "build" ++ List.replicate 4 (.consume 0) ++ scheduled "test"
          ++ List.replicate 3 (.consume 0)) = some s ∧
      s.dispatches = [1, 2] ∧
      ∀ id ∈ s.dispatches,
        (id ∈ s.waiting ++ s.running ∧ s.ended.count id = 0) ∨
          (id ∉ s.waiting ++ s.running ∧ s.ended.count id = 1) := by
  refine ⟨_, rfl, rfl, ?_⟩
  exact State.terminal_once {} (steadyEnv fun _ => none) ()
    (scheduled "build" ++ List.replicate 4 (.consume 0) ++ scheduled "test"
      ++ List.replicate 3 (.consume 0)) (by decide) _ rfl

/-- A third generation reaches the queue while the consumer replaces the first by the second: the
    drain overwrites the second without a terminal event. -/
theorem State.replaced_pending_unreported :
    ∃ s, Machine.after (State.step {} (steadyEnv fun _ => none)) (State.initial ())
        (scheduled "build" ++ List.replicate 4 (.consume 0) ++ scheduled "test" ++ [.consume 0]
          ++ scheduled "deploy" ++ List.replicate 2 (.consume 0)) = some s ∧
      2 ∈ s.dispatches ∧ 2 ∉ s.waiting ++ s.running ∧ s.ended.count 2 = 0 := by
  exact ⟨_, rfl, by decide, by decide, by decide⟩

end Funzzy
