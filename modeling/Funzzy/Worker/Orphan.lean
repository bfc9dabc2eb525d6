import Funzzy.Worker.Census

/-! Cancelled runs are reaped.

    A sender sets the token of the active run before the command that makes the consumer end that run
    is queued. `Attended` says that such a command is still on its way; the only step that can take the
    last one away is an exact cancel that finds its generation in the queue. -/

namespace Funzzy

variable {W : Type}

/-! ### Commands on their way -/

/-- The command makes the consumer end the active run with the given id. -/
def WorkerCommand.terminates (id : Nat) : WorkerCommand → Bool
  | .run _ | .cancel none _ => true
  | .cancel (some generation) _ => generation = id
  | .reconcileServices _ _ | .startServices _ _ _ => false

/-- The message of a send that has signalled and not yet reached the queue. -/
def Sender.signalled? : Sender → Option Message
  | .signalled m _ => some m
  | .preparing _ _ | .sending _ _ => none

def signalledOf (senders : List Sender) : List Message := senders.filterMap Sender.signalled?

/-- The active run has its token unset, or one of the messages makes the consumer end it. -/
def State.Attended (s : State W) (messages : List Message) : Prop :=
  match s.active with
  | none => True
  | some run => run.metadata.runId ∈ s.cancelled →
      ∃ m ∈ messages, m.command.terminates run.metadata.runId = true

theorem State.attended_of_none {s : State W} {messages : List Message} (h : s.active = none) :
    s.Attended messages := by
  simp [State.Attended, h]

theorem State.attended_iff {s : State W} {run : Run} {messages : List Message}
    (h : s.active = some run) :
    s.Attended messages ↔ (run.metadata.runId ∈ s.cancelled →
      ∃ m ∈ messages, m.command.terminates run.metadata.runId = true) := by
  simp [State.Attended, h]

instance (s : State W) (messages : List Message) : Decidable (s.Attended messages) :=
  match h : s.active with
  | none => isTrue (State.attended_of_none h)
  | some _ => decidable_of_iff _ (State.attended_iff h).symm

/-- The messages the consumer will still receive from the sends under way. -/
def State.inbound (s : State W) : List Message := s.queue ++ signalledOf s.senders

/-- The step is the enqueue of an exact cancel that takes a queued Run out of the queue. -/
def State.takesOut (s : State W) : Label → Bool
  | .enqueue i =>
    match s.senders[i]? with
    | some (.signalled ⟨.cancel (some id) _, _⟩ _) => (removeRun id s.queue).isSome
    | _ => false
  | _ => false

/-- An exact cancel takes a queued Run out of the queue only while the token of the active run is
    unset. -/
def State.Spares (s : State W) (l : Label) : Prop :=
  s.takesOut l = true → ∀ run ∈ s.active, run.metadata.runId ∉ s.cancelled

instance (s : State W) (l : Label) : Decidable (s.Spares l) :=
  inferInstanceAs (Decidable (_ → ∀ run ∈ s.active, _))

/-! ### Steps -/

/-- A step that keeps the active run's id and the tokens, and loses no message that ends the run. -/
theorem State.Attended.keep {s s' : State W} {messages messages' : List Message}
    (h : s.Attended messages)
    (hactive : s'.active.map (·.metadata.runId) = s.active.map (·.metadata.runId))
    (hcancelled : s'.cancelled = s.cancelled)
    (hmessages : ∀ run, s.active = some run → ∀ m ∈ messages,
      m.command.terminates run.metadata.runId = true →
        ∃ m ∈ messages', m.command.terminates run.metadata.runId = true) :
    s'.Attended messages' := by
  cases hrun : s.active with
  | none => exact State.attended_of_none (by simpa [hrun] using hactive)
  | some run =>
    rw [hrun, Option.map_some] at hactive
    obtain ⟨run', hrun', hid⟩ := Option.map_eq_some_iff.mp hactive
    rw [State.attended_iff hrun', hcancelled, hid]
    intro htoken
    obtain ⟨m, hm, hends⟩ := (State.attended_iff hrun).mp h htoken
    exact hmessages run hrun m hm hends

/-- Sets no token but of runs that its command ends. -/
theorem State.signal_terminates (s : State W) (command : WorkerCommand) (id : Nat)
    (h : id ∈ (s.signal command).cancelled) : id ∈ s.cancelled ∨ command.terminates id = true := by
  rcases command with _ | ⟨_ | generation, _⟩ | _ | _
  · exact .inr rfl
  · exact .inr rfl
  · rcases List.mem_append.mp h with h | h
    · exact .inl h
    · exact .inr (by simpa [WorkerCommand.terminates, eq_comm] using (List.mem_filter.mp h).2)
  · exact .inl h
  · exact .inl h

/-- What was there to end a run is still queued, unless an exact cancel has taken a Run out. -/
theorem enqueue_terminates {queue : List Message} {m : Message}
    (hkept : ∀ id ticket, m.command = .cancel (some id) ticket → removeRun id queue = none)
    {id : Nat} {other : Message} (hother : other ∈ queue ++ [m])
    (hends : other.command.terminates id = true) :
    ∃ found ∈ (enqueue queue m).queue, found.command.terminates id = true := by
  rcases hm : m.command with new | ⟨_ | target, ticket⟩ | ⟨names, ticket⟩ | ⟨runId, plan, revision⟩
  · -- the new Run is queued, and it ends every run
    refine ⟨m, ?_, by simp [hm, WorkerCommand.terminates]⟩
    have hrewrites := enqueue_rewrites queue m
    generalize enqueue queue m = r at hrewrites
    cases hrewrites with
    | removed _ _ _ _ _ _ hcancel => rw [hm] at hcancel; cases hcancel
    | _ => simp
  · exact ⟨m, by simp [enqueue, hm], by simp [hm, WorkerCommand.terminates]⟩
  · have hpushed : (enqueue queue m).queue = queue ++ [m] := by
      simp [enqueue, hm, hkept target ticket hm]
    exact ⟨other, hpushed ▸ hother, hends⟩
  · have hpushed : (enqueue queue m).queue = queue ++ [m] := by simp [enqueue, hm]
    exact ⟨other, hpushed ▸ hother, hends⟩
  · have hpushed : (enqueue queue m).queue = queue ++ [m] := by simp [enqueue, hm]
    exact ⟨other, hpushed ▸ hother, hends⟩

/-- A generation that waits has no token. -/
theorem Census.waiting_not_cancelled {failFast : Bool} {s : State W} (h : Census failFast s) {id : Nat}
    (hwaiting : id ∈ s.waiting) : id ∉ s.cancelled := by
  intro htoken
  have honce := h.once id
  simp only [State.census, List.count_append] at honce
  have hwaits := List.count_pos_iff.mpr hwaiting
  rcases h.tokens.signalled id htoken with hrun | hend
  · have hruns := List.count_pos_iff.mpr hrun
    omega
  · have hends := List.count_pos_iff.mpr hend
    omega

theorem State.start_attended {failFast : Bool} (env : Env W) {s : State W} (h : Census failFast s)
    (metadata : RunMetadata) (plan : RunPlan) (messages : List Message) (s' : State W)
    (hcancelled : s'.cancelled = s.cancelled) (hwaiting : metadata.runId ∈ s.waiting) :
    (s'.start env metadata plan).Attended messages := by
  rw [State.attended_iff rfl]
  intro htoken
  refine absurd ?_ (h.waiting_not_cancelled hwaiting)
  rw [← hcancelled]
  exact htoken

theorem handleIdle_attended {failFast : Bool} (env : Env W) {s : State W} (h : Census failFast s)
    {m : Message} {rest : List Message} (hqueue : s.queue = m :: rest) (hactive : s.active = none)
    (messages : List Message) : ({ s with queue := rest }.handleIdle env m).Attended messages := by
  unfold State.handleIdle
  split
  · rename_i req hm
    exact State.start_attended env h _ _ messages _ rfl (by
      simp [State.waiting, hqueue, Message.generation?, hm, RunRequest.metadata])
  · rw [State.replyCancel_eq]
    exact State.attended_of_none hactive
  · exact State.attended_of_none hactive
  · exact State.attended_of_none hactive
  · rename_i runId plan revision hm
    exact State.start_attended env h (servicesMetadata runId revision) plan messages _ rfl (by
      simp [State.waiting, hqueue, Message.generation?, hm, servicesMetadata])

theorem handleBusy_attended {failFast : Bool} (env : Env W) {s : State W} (h : s.Sound failFast)
    {run : Run} {m : Message} {rest : List Message} (hqueue : s.queue = m :: rest)
    (hpc : s.pc = .stepped) (hactive : s.active = some run) (hs : s.Attended s.inbound) :
    ({ s with queue := rest }.handleBusy env run m).Attended
      ({ s with queue := rest }.handleBusy env run m).inbound := by
  -- a message that does not end the run was not the one it waits for
  have hothers : m.command.terminates run.metadata.runId = false →
      ∀ r, s.active = some r → ∀ other ∈ s.inbound, other.command.terminates r.metadata.runId = true →
        ∃ m ∈ rest ++ signalledOf s.senders, m.command.terminates r.metadata.runId = true := by
    intro hm r hr other hother hends
    cases Option.some.inj (hactive.symm.trans hr)
    refine ⟨other, ?_, hends⟩
    rw [State.inbound, hqueue, List.cons_append] at hother
    rcases List.mem_cons.mp hother with rfl | hother
    · rw [hm] at hends
      cases hends
    · exact hother
  unfold State.handleBusy
  split
  · exact State.attended_of_none rfl
  · rename_i id ticket hm
    split
    · exact State.attended_of_none rfl
    · rename_i hne
      rw [State.replyCancel_eq]
      exact hs.keep rfl rfl (hothers (by simpa [hm, WorkerCommand.terminates, eq_comm] using hne))
  · exact State.attended_of_none rfl
  · rename_i names ticket hm
    obtain ⟨token, -, hsound⟩ := h.token hactive (by simp [hpc])
    obtain ⟨hid, -, -⟩ := reconcileServices_generation env s.io names hsound
    rcases hr : reconcileServices env s.io run names with ⟨io, run', still⟩
    rw [hr] at hid
    refine hs.keep ?_ rfl (hothers (by simp [hm, WorkerCommand.terminates]))
    simp only at hid
    simp [State.reply, hactive, hid]
  · rename_i runId plan revision hm
    exact hs.keep (by simp [hactive, appendPlan]) rfl (hothers (by simp [hm, WorkerCommand.terminates]))

theorem Consumed.attended {ex : LawfulExecutor} {env : Env W} {s s' : State W} (h : Consumed ex env s s')
    (hcensus : Census ex.failFast s) (hs : s.Attended s.inbound) : s'.Attended s'.inbound := by
  have hsame : ∀ run, s.active = some run → ∀ m ∈ s.inbound,
      m.command.terminates run.metadata.runId = true →
        ∃ m ∈ s.inbound, m.command.terminates run.metadata.runId = true :=
    fun _ _ m hm hends => ⟨m, hm, hends⟩
  cases h with
  | promoted req hpc hactive hpending =>
    exact State.start_attended env hcensus _ _ _ _ rfl (by
      simp [State.waiting, hpending, RunRequest.metadata])
  | received m rest hpc hactive hpending hqueue =>
    exact handleIdle_attended env hcensus hqueue hactive _
  | exited | entered | registered | waited | left => exact hs.keep rfl rfl hsame
  | running token polls run run' io hpc hactive hr =>
    have hrun := hcensus.sound run hactive
    simp only [hpc] at hrun
    obtain ⟨hid, -, -⟩ := State.advance_generation hrun hr
    exact hs.keep (by simp [hactive, hid]) rfl hsame
  | finished => exact State.attended_of_none rfl
  | taken run m rest hpc hactive hqueue =>
    exact handleBusy_attended env hcensus.sound hqueue hpc hactive hs
  | replaced old req request hpc =>
    exact State.attended_of_none (hcensus.shaped.leaving (by simp [hpc, Pc.leaving])).1
  | retired old m hpc =>
    rw [State.retire_eq]
    exact State.attended_of_none (hcensus.shaped.leaving (by simp [hpc, Pc.leaving])).1
  | completed old hpc =>
    exact State.attended_of_none (hcensus.shaped.leaving (by simp [hpc, Pc.leaving])).1
  | drained m rest hpc =>
    obtain ⟨pending, pc, log, hdrain, -⟩ := ({ s with queue := rest } : State W).handleDrain_eq m
    rw [hdrain]
    exact State.attended_of_none (hcensus.shaped.draining hpc)

@[simp] theorem signalledOf_append (a b : List Sender) :
    signalledOf (a ++ b) = signalledOf a ++ signalledOf b :=
  List.filterMap_append

@[simp] theorem signalledOf_preparing (draft : RunRequest) (request : Option Nat)
    (rest : List Sender) : signalledOf (.preparing draft request :: rest) = signalledOf rest := rfl

@[simp] theorem signalledOf_sending (m : Message) (next : Option RunRequest) (rest : List Sender) :
    signalledOf (.sending m next :: rest) = signalledOf rest := rfl

@[simp] theorem signalledOf_signalled (m : Message) (next : Option RunRequest) (rest : List Sender) :
    signalledOf (.signalled m next :: rest) = m :: signalledOf rest := rfl

@[simp] theorem signalledOf_nil : signalledOf [] = [] := rfl

@[simp] theorem signalledOf_next (next : Option RunRequest) (request : Option Nat) :
    signalledOf (next.map fun draft => Sender.preparing draft request).toList = [] := by
  cases next <;> rfl

/-- Every step that spares the active run keeps a cancelled run attended. -/
theorem Happens.attended {ex : LawfulExecutor} {env : Env W} {s s' : State W} {l : Label}
    (h : Happens ex env s l s') (hcensus : Census ex.failFast s) (hspares : s.Spares l)
    (hs : s.Attended s.inbound) : s'.Attended s'.inbound := by
  -- steps of the senders that neither signal nor reach the queue
  have hquiet : ∀ s' : State W, s'.active = s.active → s'.cancelled = s.cancelled →
      s'.inbound = s.inbound → s'.Attended s'.inbound := by
    intro s' hactive hcancelled hinbound
    refine hs.keep (by rw [hactive]) hcancelled fun run _ m hm hends => ⟨m, ?_, hends⟩
    rw [hinbound]
    exact hm
  cases h with
  | called c => cases c <;> exact hquiet _ rfl rfl (by simp [State.inbound, State.call])
  | prepared i draft request l₁ l₂ hi hsplit =>
    exact hquiet _ rfl rfl (by simp [State.inbound, hsplit])
  | failed i draft request l₁ l₂ hi hsplit => exact hquiet _ rfl rfl (by simp [State.inbound, hsplit])
  | closed => exact hquiet _ rfl rfl rfl
  | signalled i m next l₁ l₂ hi hsplit =>
    obtain ⟨tokens, hsignal, -⟩ := s.signal_eq m.command
    cases hrun : s.active with
    | none => exact State.attended_of_none (by rw [hsignal]; exact hrun)
    | some run =>
      rw [State.attended_iff (by rw [hsignal]; exact hrun)]
      intro htoken
      rcases s.signal_terminates m.command run.metadata.runId htoken with hold | hends
      · obtain ⟨other, hother, hends⟩ := (State.attended_iff hrun).mp hs hold
        refine ⟨other, ?_, hends⟩
        rw [hsignal]
        simp only [State.inbound, hsplit, signalledOf_append, signalledOf_sending,
          signalledOf_signalled, List.mem_append, List.mem_cons] at hother ⊢
        tauto
      · exact ⟨m, by simp [State.inbound], hends⟩
  | enqueued i m next l₁ l₂ hi hsplit herase =>
    have hinbound : ({ s.enqueue m with
        senders := l₁ ++ (next.map fun draft => Sender.preparing draft m.request).toList ++ l₂ } :
          State W).inbound = (enqueue s.queue m).queue ++ signalledOf (l₁ ++ l₂) := by
      simp [State.inbound, State.enqueue]
    by_cases hkept : ∀ id ticket, m.command = .cancel (some id) ticket → removeRun id s.queue = none
    · refine hs.keep rfl rfl fun run _ other hother hends => ?_
      rw [hinbound]
      by_cases hqueue : other ∈ s.queue ++ [m]
      · obtain ⟨found, hfound, hends⟩ := enqueue_terminates hkept hqueue hends
        exact ⟨found, List.mem_append_left _ hfound, hends⟩
      · refine ⟨other, List.mem_append_right _ ?_, hends⟩
        simp only [State.inbound, hsplit, signalledOf_append, signalledOf_signalled, List.mem_append,
          List.mem_cons, not_or] at hother hqueue ⊢
        tauto
    · push Not at hkept
      obtain ⟨id, ticket, hm, hremoved⟩ := hkept
      obtain ⟨⟨queued, rest⟩, hfound⟩ := Option.ne_none_iff_exists'.mp hremoved
      have hunset := hspares (by
        obtain ⟨command, request⟩ := m
        cases hm
        simp [State.takesOut, hi, hfound])
      cases hrun : s.active with
      | none => exact State.attended_of_none hrun
      | some run =>
        have hactive : (s.enqueue m).active = some run := hrun
        exact (State.attended_iff hactive).mpr fun htoken => absurd htoken (hunset run hrun)
  | consumed polls s' hstep => exact hstep.attended hcensus hs

/-! ### Runs -/

/-- In every state reached by steps that spare the active run, a cancelled active run has a command
    that ends it queued, or in a send that has signalled. -/
theorem State.cancelled_run_attended (ex : LawfulExecutor) (env : Env W) (world : W) (labels : List Label)
    (hspares : Machine.Meets (State.step ex env) State.Spares (State.initial world) labels)
    (s : State W) (h : Machine.after (State.step ex env) (State.initial world) labels = some s) :
    s.Attended s.inbound := by
  have hinvariant := Machine.invariant (State.step ex env)
    (I := fun s => Census ex.failFast s ∧ s.Attended s.inbound)
    (fun s l s' hs hspares hstep => by
      have hhappens := step_happens hstep
      exact ⟨hhappens.census hs.1, hhappens.attended hs.1 hspares hs.2⟩)
    labels (State.initial world) s
    ⟨State.initial_census ex.failFast world, State.attended_of_none rfl⟩ hspares h
  exact hinvariant.2

/-- A second generation is queued behind a running one: the token of the running one is set, and the
    queued Run is there to end it. -/
theorem State.cancelled_run_attended_at_build :
    ∃ s, Machine.after (State.step {} (steadyEnv fun _ => none)) (State.initial ())
        (scheduled "build" ++ [.consume 0, .consume 0] ++ scheduled "test") = some s ∧
      s.active.map (·.metadata.runId) = some 1 ∧ s.cancelled = [1] ∧ s.Attended s.inbound := by
  refine ⟨_, rfl, rfl, rfl, ?_⟩
  exact State.cancelled_run_attended {} (steadyEnv fun _ => none) ()
    (scheduled "build" ++ [.consume 0, .consume 0] ++ scheduled "test") (by decide) _ rfl

/-- Cancelling the queued generation leaves the running one cancelled with nothing to end it. -/
theorem State.cancelled_run_orphaned :
    ∃ s, Machine.after (State.step {} (steadyEnv fun _ => none)) (State.initial ())
        (scheduled "build" ++ [.consume 0, .consume 0] ++ scheduled "test"
          ++ [.call (.cancelGeneration 2), .signal 0, .enqueue 0]) = some s ∧
      s.active.map (·.metadata.runId) = some 1 ∧ s.cancelled = [1] ∧ s.queue = [] ∧ s.senders = [] ∧
      ¬s.Attended s.inbound := by
  exact ⟨_, rfl, rfl, rfl, rfl, rfl, by decide⟩

end Funzzy
