import Funzzy.Worker.Projection

/-! The whole event stream of a worker, step by step.

    Between its Started event and its terminal event a generation's task reports are its own, and the
    consumer emits no others. `Emission` lists what one step of the consumer adds to the stream; senders
    add only the cancellations of the generations they discard. -/

namespace Funzzy

variable {W : Type}

/-- An event of the work on a generation. -/
def Event.worksFor (id : Nat) : Event → Prop
  | .taskTerminal runId _ => runId = id
  | e => e.isMilestone = false

theorem Works.events {id : Nat} {trace trace' : List Effect} (h : Works id trace trace') :
    ∃ work, trace'.filterMap Effect.event? = trace.filterMap Effect.event? ++ work ∧
      ∀ e ∈ work, e.worksFor id := by
  obtain ⟨effects, rfl, heffects⟩ := h
  refine ⟨effects.filterMap Effect.event?, List.filterMap_append, fun e he => ?_⟩
  obtain ⟨x, hx, hevent⟩ := List.mem_filterMap.mp he
  have hwork := heffects x hx
  cases x with
  | event e' =>
    cases hevent
    cases e with
    | taskTerminal => exact hwork
    | started | finished | cancelled | tick | recoveryPhase => exact hwork
  | _ => cases hevent

/-- What one step of the consumer adds to the event stream. -/
inductive Emission (s s' : State W) : List Event → Prop
  | quiet : s'.running = s.running → Emission s s' []
  | worked (id : Nat) (work : List Event) : s.running = [id] → s'.running = [id] →
      (∀ e ∈ work, e.worksFor id) → Emission s s' work
  | begun (metadata : RunMetadata) (commands : List String) : s.running = [] →
      s'.running = [metadata.runId] → metadata.runId ∈ s.waiting →
      Emission s s' [.started metadata commands]
  | ended (id : Nat) (work : List Event) (e : Event) : s.running = [id] → s'.running = [] →
      (∀ e ∈ work, e.worksFor id) → e.ended? = some id → Emission s s' (work ++ [e])

/-- The step extends the event stream as a step of the consumer. -/
def Emits (s s' : State W) : Prop :=
  ∃ emitted, s'.events = s.events ++ emitted ∧ Emission s s' emitted

/-- The event stream of a step of the consumer, read off its trace. -/
theorem Extends.emits {s s' : State W} (h : Extends s s') : Emits s s' := by
  -- the work in front of the last event, and that event
  have hended : ∀ (id : Nat) (e : Event), s.running = [id] → s'.running = [] → e.ended? = some id →
      Ends id s.io.trace s'.io.trace e → Emits s s' := by
    rintro id e hbefore hafter he ⟨worked, hworks, htrace⟩
    obtain ⟨work, hevents, hwork⟩ := hworks.events
    refine ⟨work ++ [e], ?_, .ended id work e hbefore hafter hwork he⟩
    rw [State.events, htrace, List.filterMap_append, hevents, List.append_assoc]
    rfl
  cases h with
  | quiet hrunning htrace =>
    refine ⟨[], ?_, .quiet hrunning⟩
    rw [State.events, htrace, List.append_nil]
    rfl
  | worked id hbefore hafter hworks =>
    obtain ⟨work, hevents, hwork⟩ := hworks.events
    exact ⟨work, hevents, .worked id work hbefore hafter hwork⟩
  | begun metadata commands hnone hrunning hwaiting htrace =>
    refine ⟨_, ?_, .begun metadata commands hnone hrunning hwaiting⟩
    rw [State.events, htrace, List.filterMap_append]
    rfl
  | finished id supersededBy elapsed failures hbefore hafter hends =>
    exact hended id _ hbefore hafter rfl hends
  | cancelled id successor hbefore hafter hnamed hends => exact hended id _ hbefore hafter rfl hends

theorem emitCancelled_events (discarded : List (Nat × Option Nat)) : ∀ io : Io W,
    (discarded.foldl (fun io (id, successor) => io.emit (.cancelled id successor)) io).trace.filterMap
        Effect.event?
      = io.trace.filterMap Effect.event? ++ discarded.map fun d => Event.cancelled d.1 d.2 := by
  induction discarded with
  | nil => intro io; simp
  | cons d discarded ih =>
    intro io
    rw [List.foldl_cons, ih]
    simp [Io.emit, Io.record, Effect.event?]

/-- What a step of the worker adds to the event stream: the consumer's steps emit, a sender that
    rewrites the queue reports what it discards, and the other steps add nothing. -/
theorem Happens.emits {ex : LawfulExecutor} {env : Env W} {s s' : State W} {l : Label}
    (h : Happens ex env s l s') (hs : s.Sound ex.failFast) (hshape : s.Shaped) :
    (∃ polls, l = .consume polls ∧ Emits s s') ∨
    (∃ i m next, l = .enqueue i ∧ s.senders[i]? = some (.signalled m next) ∧ s'.running = s.running ∧
      s'.events = s.events ++ (enqueue s.queue m).discarded.map fun d => Event.cancelled d.1 d.2) ∨
    ((∀ polls, l ≠ .consume polls) ∧ (∀ i, l ≠ .enqueue i) ∧ s'.running = s.running ∧
      s'.events = s.events) := by
  cases h with
  | called c => exact .inr (.inr ⟨by simp, by simp, by cases c <;> rfl, by cases c <;> rfl⟩)
  | prepared | failed | closed => exact .inr (.inr ⟨by simp, by simp, rfl, rfl⟩)
  | signalled i m =>
    obtain ⟨tokens, hsignal, -⟩ := s.signal_eq m.command
    rw [hsignal]
    exact .inr (.inr ⟨by simp, by simp, rfl, rfl⟩)
  | enqueued i m next l₁ l₂ hi =>
    exact .inr (.inl ⟨i, m, next, rfl, hi, rfl,
      emitCancelled_events (enqueue s.queue m).discarded s.io⟩)
  | consumed polls s' hstep => exact .inl ⟨polls, rfl, (hstep.extends hs hshape).emits⟩

end Funzzy
