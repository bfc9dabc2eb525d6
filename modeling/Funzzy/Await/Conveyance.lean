import Funzzy.Await.Hub

/-! How events get from the worker to what listens.

    `Streams` relates the consumer's events to the worker: what is reported is about what runs.
    `Conveyed` relates them to the listeners: every event is on its way or has arrived, in the order in
    which its thread emitted it, and what senders add are ends of generations that never began. -/

namespace Funzzy

variable {W : Type}

/-! ### The stream -/

def begunOf (events : List Event) : List Nat := events.filterMap Event.begun?

def endedOf (events : List Event) : List Nat := events.filterMap Event.ended?

@[simp] theorem begunOf_append (a b : List Event) : begunOf (a ++ b) = begunOf a ++ begunOf b :=
  List.filterMap_append

@[simp] theorem endedOf_append (a b : List Event) : endedOf (a ++ b) = endedOf a ++ endedOf b :=
  List.filterMap_append

theorem mem_begunOf {events : List Event} {id : Nat} :
    id ∈ begunOf events ↔ ∃ metadata commands, .started metadata commands ∈ events ∧ metadata.runId = id := by
  constructor
  · intro h
    obtain ⟨e, he, hbegun⟩ := List.mem_filterMap.mp h
    cases e with
    | started metadata commands => exact ⟨metadata, commands, he, Option.some.inj hbegun⟩
    | finished | cancelled | tick | taskTerminal | recoveryPhase => cases hbegun
  · rintro ⟨metadata, commands, he, rfl⟩
    exact List.mem_filterMap.mpr ⟨_, he, rfl⟩

theorem mem_endedOf {events : List Event} {id : Nat} :
    id ∈ endedOf events ↔ ∃ e ∈ events, e.ended? = some id :=
  List.mem_filterMap

theorem filterMap_milestones {α : Type} {f : Event → Option α}
    (hf : ∀ e, e.isMilestone = false → f e = none) (trace : List Effect) :
    (milestones trace).filterMap f = (trace.filterMap Effect.event?).filterMap f := by
  rw [milestones_eq_filter]
  induction trace.filterMap Effect.event? with
  | nil => rfl
  | cons e events ih =>
    cases he : e.isMilestone with
    | false => simpa [he, hf e he] using ih
    | true => simp [he, List.filterMap_cons, ih]

theorem State.begun_eq (s : State W) : s.begun = begunOf s.events :=
  filterMap_milestones (by intro e he; cases e <;> first | rfl | cases he) s.io.trace

theorem State.ended_eq (s : State W) : s.ended = endedOf s.events :=
  filterMap_milestones (by intro e he; cases e <;> first | rfl | cases he) s.io.trace

theorem Event.begun?_of_ended {e : Event} {id : Nat} (h : e.ended? = some id) : e.begun? = none := by
  cases e with
  | started => cases h
  | finished | cancelled | tick | taskTerminal | recoveryPhase => rfl

/-- Work on a generation begins none and ends none. -/
theorem Event.worksFor_quiet {id : Nat} {e : Event} (h : e.worksFor id) :
    e.begun? = none ∧ e.ended? = none := by
  cases e with
  | started | finished | cancelled => cases h
  | tick | taskTerminal | recoveryPhase => exact ⟨rfl, rfl⟩

theorem begunOf_work {id : Nat} {work : List Event} (h : ∀ e ∈ work, e.worksFor id) :
    begunOf work = [] :=
  List.filterMap_eq_nil_iff.mpr fun e he => (Event.worksFor_quiet (h e he)).1

theorem endedOf_work {id : Nat} {work : List Event} (h : ∀ e ∈ work, e.worksFor id) :
    endedOf work = [] :=
  List.filterMap_eq_nil_iff.mpr fun e he => (Event.worksFor_quiet (h e he)).2

/-- The generation a report or a terminal event is about. -/
def Event.about? : Event → Option Nat
  | .taskTerminal runId _ => some runId
  | .finished runId _ _ _ => some runId
  | .cancelled runId _ => some runId
  | _ => none

theorem Event.about?_of_ended {e : Event} {id : Nat} (h : e.ended? = some id) : e.about? = some id := by
  cases e with
  | finished | cancelled => exact h
  | started | tick | taskTerminal | recoveryPhase => cases h

theorem Event.about?_of_works {e : Event} {id g : Nat} (h : e.worksFor id) (hg : e.about? = some g) :
    g = id := by
  cases e with
  | taskTerminal runId task => exact (Option.some.inj hg).symm.trans h
  | finished | cancelled => cases h
  | started | tick | recoveryPhase => cases hg

/-- Every report and every terminal event is about the generation that began last, and comes before its
    end. -/
def Attributed (events : List Event) : Prop :=
  ∀ before e after g, events = before ++ e :: after → e.about? = some g →
    (begunOf before).getLast? = some g ∧ g ∉ endedOf before

theorem Attributed.append {events : List Event} (h : Attributed events) {e : Event}
    (he : ∀ g, e.about? = some g → (begunOf events).getLast? = some g ∧ g ∉ endedOf events) :
    Attributed (events ++ [e]) := by
  intro before e' after g hsplit hg
  rcases append_singleton_eq_split hsplit with ⟨rfl, rfl⟩ | ⟨rest, hrest⟩
  · exact he g hg
  · exact h before e' rest g hrest hg

theorem Attributed.work {id : Nat} {work : List Event} : ∀ {events : List Event}, Attributed events →
    (begunOf events).getLast? = some id → id ∉ endedOf events → (∀ e ∈ work, e.worksFor id) →
    Attributed (events ++ work) := by
  induction work with
  | nil =>
    intro events h _ _ _
    simpa using h
  | cons e work ih =>
    intro events h hbegun hended hwork
    have he := hwork e List.mem_cons_self
    have hquiet := Event.worksFor_quiet he
    have hnext : Attributed (events ++ [e]) := h.append fun g hg => by
      rw [Event.about?_of_works he hg]
      exact ⟨hbegun, hended⟩
    have hrest := ih hnext (by simp [begunOf, hquiet.1] at hbegun ⊢; exact hbegun) (by
      rw [endedOf_append, List.mem_append]
      rintro (hold | hnew)
      · exact hended hold
      · simp [endedOf, hquiet.2] at hnew) fun e' he' => hwork e' (List.mem_cons_of_mem _ he')
    simpa using hrest

/-- What the consumer's events say about the worker. -/
structure Streams (failFast : Bool) (s : State W) (emitted : List Event) : Prop where
  census : Census failFast s
  held : s.BegunHeld
  begun : begunOf emitted = s.begun
  once : s.begun.Nodup
  running : ∀ id ∈ s.running, s.begun.getLast? = some id
  among : ∀ e ∈ emitted, e ∈ s.events
  attributed : Attributed emitted

theorem Streams.not_ended {failFast : Bool} {s : State W} {emitted : List Event}
    (h : Streams failFast s emitted) {id : Nat} (hid : id ∈ s.running) : id ∉ endedOf emitted := by
  intro hended
  obtain ⟨e, he, hends⟩ := mem_endedOf.mp hended
  refine h.census.running_not_ended hid ?_
  rw [s.ended_eq]
  exact mem_endedOf.mpr ⟨e, h.among e he, hends⟩

theorem Streams.consume {failFast : Bool} {s s' : State W} {emitted new : List Event}
    (h : Streams failFast s emitted) (hcensus : Census failFast s') (hheld : s'.BegunHeld)
    (hevents : s'.events = s.events ++ new) (hemission : Emission s s' new) :
    Streams failFast s' (emitted ++ new) := by
  have hnext : s'.begun = s.begun ++ begunOf new := by
    rw [s'.begun_eq, hevents, begunOf_append, ← s.begun_eq]
  have hbegun : begunOf (emitted ++ new) = s'.begun := by
    rw [begunOf_append, h.begun, hnext]
  have hamong : ∀ e ∈ emitted ++ new, e ∈ s'.events := by
    intro e he
    rw [hevents]
    rcases List.mem_append.mp he with he | he
    · exact List.mem_append_left _ (h.among e he)
    · exact List.mem_append_right _ he
  have hrunning : ∀ {id : Nat}, s.running = [id] →
      (begunOf emitted).getLast? = some id ∧ id ∉ endedOf emitted := by
    intro id hid
    have hmem : id ∈ s.running := by simp [hid]
    exact ⟨by rw [h.begun]; exact h.running id hmem, h.not_ended hmem⟩
  cases hemission with
  | quiet hsame =>
    have hsame' : s'.begun = s.begun := by rw [hnext, begunOf, List.filterMap_nil, List.append_nil]
    refine ⟨hcensus, hheld, hbegun, hsame' ▸ h.once, ?_, hamong, by simpa using h.attributed⟩
    rw [hsame, hsame']
    exact h.running
  | worked id work hbefore hafter hwork =>
    obtain ⟨hid, hended⟩ := hrunning hbefore
    have hsame : s'.begun = s.begun := by rw [hnext, begunOf_work hwork, List.append_nil]
    refine ⟨hcensus, hheld, hbegun, hsame ▸ h.once, ?_, hamong, h.attributed.work hid hended hwork⟩
    rw [hafter, ← hbefore, hsame]
    exact h.running
  | begun metadata commands hnone hafter hwaiting =>
    have hnew : s'.begun = s.begun ++ [metadata.runId] := hnext
    have hfirst := h.census.waiting_not_begun h.held hwaiting
    refine ⟨hcensus, hheld, hbegun, ?_, ?_, hamong, h.attributed.append (by simp [Event.about?])⟩
    · rw [hnew, ← List.concat_eq_append]
      exact h.once.concat hfirst
    · rw [hafter, hnew]
      intro id hid
      rw [List.mem_singleton.mp hid]
      simp
  | ended id work e hbefore hafter hwork he =>
    obtain ⟨hid, hended⟩ := hrunning hbefore
    have hsame : s'.begun = s.begun := by
      have hnone := Event.begun?_of_ended he
      rw [hnext, begunOf_append, begunOf_work hwork]
      simp [begunOf, hnone]
    refine ⟨hcensus, hheld, hbegun, hsame ▸ h.once, by simp [hafter], hamong, ?_⟩
    have hworked := h.attributed.work hid hended hwork
    rw [← List.append_assoc]
    refine hworked.append fun g hg => ?_
    rw [Event.about?_of_ended he] at hg
    cases hg
    rw [begunOf_append, begunOf_work hwork, List.append_nil, endedOf_append, endedOf_work hwork,
      List.append_nil]
    exact ⟨hid, hended⟩

/-- A step of another thread adds no beginning and no event of the consumer. -/
theorem Streams.other {failFast : Bool} {s s' : State W} {emitted new : List Event}
    (h : Streams failFast s emitted) (hcensus : Census failFast s') (hheld : s'.BegunHeld)
    (hevents : s'.events = s.events ++ new) (hrunning : s'.running = s.running)
    (hnone : begunOf new = []) : Streams failFast s' emitted := by
  have hbegun : s'.begun = s.begun := by
    rw [s'.begun_eq, hevents, begunOf_append, hnone, List.append_nil, ← s.begun_eq]
  refine ⟨hcensus, hheld, h.begun.trans hbegun.symm, hbegun ▸ h.once, ?_, ?_, h.attributed⟩
  · rw [hrunning, hbegun]
    exact h.running
  · intro e he
    rw [hevents]
    exact List.mem_append_left _ (h.among e he)

/-! ### The lanes -/

/-- The consumer's events among those applied. -/
def consumerEvents (applied : List (Thread × Event)) : List Event :=
  (applied.filter fun x => x.1 = .consumer).map (·.2)

@[simp] theorem consumerEvents_append_consumer (applied : List (Thread × Event)) (e : Event) :
    consumerEvents (applied ++ [(.consumer, e)]) = consumerEvents applied ++ [e] := by
  simp [consumerEvents]

@[simp] theorem consumerEvents_append_sender (applied : List (Thread × Event)) (e : Event) :
    consumerEvents (applied ++ [(.sender, e)]) = consumerEvents applied := by
  simp [consumerEvents]

/-- An event of a sender ends a generation that never began. -/
def State.Discards (s : State W) (e : Event) : Prop :=
  ∃ d successor, e = .cancelled d successor ∧ d ∈ s.ended ∧ d ∉ s.begun

/-- Where every event is. -/
structure Hub.Conveyed (failFast : Bool) (h : Hub W) : Prop where
  streams : Streams failFast h.worker h.emitted
  order : h.emitted = consumerEvents h.applied ++ h.consumer.unapplied
  seen : ∀ e ∈ h.emitted, e ∈ h.coordinator.observed ∨ e ∈ h.consumer.unobserved
  observed : ∀ e ∈ h.coordinator.observed, e ∈ h.worker.events
  lanes : ∀ thread, ∀ e ∈ (h.lane thread).events, e ∈ h.worker.events
  arrived : ∀ x ∈ h.applied, x.2 ∈ h.worker.events
  sent : ∀ e, e ∈ h.sender.events ∨ (.sender, e) ∈ h.applied → h.worker.Discards e

theorem Lane.unapplied_empty {lane : Lane} (h : lane.events = []) : lane.unapplied = [] := by
  unfold Lane.unapplied
  split <;> simp [h]

theorem Lane.unobserved_empty {lane : Lane} (h : lane.events = []) : lane.unobserved = [] := by
  unfold Lane.unobserved
  split <;> simp [h]

/-- A discarded generation stays what it is: it has ended, so it cannot begin. -/
theorem State.Discards.consume {failFast : Bool} {s s' : State W} {new : List Event} {e : Event}
    (h : s.Discards e) (hcensus : Census failFast s) (hevents : s'.events = s.events ++ new)
    (hemission : Emission s s' new) : s'.Discards e := by
  obtain ⟨d, successor, rfl, hended, hbegun⟩ := h
  refine ⟨d, successor, rfl, ?_, ?_⟩
  · rw [s'.ended_eq, hevents, endedOf_append, ← s.ended_eq]
    exact List.mem_append_left _ hended
  · rw [s'.begun_eq, hevents, begunOf_append, ← s.begun_eq, List.mem_append]
    rintro (hold | hnew)
    · exact hbegun hold
    · cases hemission with
      | quiet => cases hnew
      | worked id work _ _ hwork =>
        rw [begunOf_work hwork] at hnew
        cases hnew
      | begun metadata commands _ _ hwaiting =>
        simp only [begunOf, List.filterMap_cons, Event.begun?, List.filterMap_nil,
          List.mem_singleton] at hnew
        exact hcensus.waiting_not_ended (hnew ▸ hwaiting) hended
      | ended id work last _ _ hwork hlast =>
        have hnone := Event.begun?_of_ended hlast
        rw [begunOf_append, begunOf_work hwork] at hnew
        simp [begunOf, hnone] at hnew

theorem State.Discards.other {s s' : State W} {new : List Event} {e : Event} (h : s.Discards e)
    (hevents : s'.events = s.events ++ new) (hnone : begunOf new = []) : s'.Discards e := by
  obtain ⟨d, successor, rfl, hended, hbegun⟩ := h
  refine ⟨d, successor, rfl, ?_, ?_⟩
  · rw [s'.ended_eq, hevents, endedOf_append, ← s.ended_eq]
    exact List.mem_append_left _ hended
  · rwa [s'.begun_eq, hevents, begunOf_append, hnone, List.append_nil, ← s.begun_eq]

/-- Steps of the worker. -/
theorem Hub.Conveyed.advance {ex : LawfulExecutor} {env : Env W} {h : Hub W} {l : Label} {worker : State W}
    (hs : h.Conveyed ex.failFast) (hready : h.ready l) (hstep : Happens ex env h.worker l worker) :
    (h.advance l worker).Conveyed ex.failFast := by
  have hcensus := hs.streams.census
  have hcensus' := hstep.census hcensus
  have hheld' := (hstep.lives hcensus.sound hcensus.shaped).begunHeld hs.streams.held
  rcases hstep.emits hcensus.sound hcensus.shaped with
    ⟨polls, rfl, new, hevents, hemission⟩ | ⟨i, m, next, rfl, hi, hrunning, hevents⟩ |
      ⟨hconsume, henqueue, hrunning, hevents⟩
  · -- the consumer's callbacks are done: the lane takes the new events
    have hidle : h.consumer.events = [] := hready.1
    have hnew : worker.events.drop h.worker.events.length = new := by
      rw [hevents, List.drop_left]
    have horder := hs.order
    rw [Lane.unapplied_empty hidle, List.append_nil] at horder
    have hkept : ∀ e ∈ h.worker.events, e ∈ worker.events := by
      intro e he
      rw [hevents]
      exact List.mem_append_left _ he
    refine ⟨?_, ?_, ?_, fun e he => hkept e (hs.observed e he), ?_, fun x hx => hkept _ (hs.arrived x hx),
      fun e he => (hs.sent e he).consume hcensus hevents hemission⟩
    · simp only [Hub.advance, hnew]
      exact hs.streams.consume hcensus' hheld' hevents hemission
    · simp only [Hub.advance, hnew, Lane.unapplied, horder]
    · simp only [Hub.advance, hnew, Lane.unobserved]
      intro e he
      rcases List.mem_append.mp he with he | he
      · have hold := hs.seen e he
        rw [Lane.unobserved_empty hidle] at hold
        exact .inl (hold.resolve_right List.not_mem_nil)
      · exact .inr he
    · intro thread e he
      cases thread with
      | consumer =>
        simp only [Hub.advance, Hub.lane, hnew] at he
        rw [show (h.advance (.consume polls) worker).worker = worker from rfl, hevents]
        exact List.mem_append_right _ he
      | sender => exact hkept e (hs.lanes .sender e he)
  · -- the sender's callbacks are done: its lane takes the discarded generations
    set new := (enqueue h.worker.queue m).discarded.map fun d => Event.cancelled d.1 d.2 with hdiscarded
    have hidle : h.sender.events = [] := hready
    have hnew : worker.events.drop h.worker.events.length = new := by
      rw [hevents, List.drop_left]
    have hnone : begunOf new = [] := discarded_not_begun _
    have hkept : ∀ e ∈ h.worker.events, e ∈ worker.events := by
      intro e he
      rw [hevents]
      exact List.mem_append_left _ he
    refine ⟨hs.streams.other hcensus' hheld' hevents hrunning hnone, hs.order, hs.seen,
      fun e he => hkept e (hs.observed e he), ?_, fun x hx => hkept _ (hs.arrived x hx), ?_⟩
    · intro thread e he
      cases thread with
      | consumer => exact hkept e (hs.lanes .consumer e he)
      | sender =>
        simp only [Hub.advance, Hub.lane, hnew] at he
        rw [show (h.advance (.enqueue i) worker).worker = worker from rfl, hevents]
        exact List.mem_append_right _ he
    · intro e he
      rcases he with he | he
      · simp only [Hub.advance, hnew, hdiscarded, List.mem_map] at he
        obtain ⟨d, hd, rfl⟩ := he
        have hqueued := (enqueue_rewrites h.worker.queue m).discarded_queued d hd
        have hwaiting : d.1 ∈ h.worker.waiting := by simp [State.waiting, hqueued]
        have hnever := hcensus.waiting_not_begun hs.streams.held hwaiting
        refine ⟨d.1, d.2, rfl, ?_, ?_⟩
        · rw [show (h.advance (.enqueue i) worker).worker = worker from rfl, worker.ended_eq, hevents,
            endedOf_append, List.mem_append, hdiscarded]
          refine .inr (mem_endedOf.mpr ⟨.cancelled d.1 d.2, ?_, rfl⟩)
          exact List.mem_map.mpr ⟨d, hd, rfl⟩
        · rw [show (h.advance (.enqueue i) worker).worker = worker from rfl, worker.begun_eq, hevents,
            begunOf_append, hnone, List.append_nil, ← h.worker.begun_eq]
          exact hnever
      · exact (hs.sent e (.inr he)).other hevents hnone
  · have hsame : h.advance l worker = { h with worker } := by
      cases l with
      | consume polls => exact absurd rfl (hconsume polls)
      | enqueue i => exact absurd rfl (henqueue i)
      | call | prepare | signal | close => rfl
    have hevents' : worker.events = h.worker.events ++ [] := by rw [hevents, List.append_nil]
    rw [hsame]
    exact ⟨hs.streams.other hcensus' hheld' hevents' hrunning rfl, hs.order, hs.seen,
      by rw [hevents]; exact hs.observed, by rw [hevents]; exact hs.lanes,
      by rw [hevents]; exact hs.arrived, fun e he => (hs.sent e he).other hevents' rfl⟩

/-- Observing an event takes it out of what the coordinator has yet to see. -/
theorem Hub.Conveyed.observe {failFast : Bool} {h : Hub W} {thread : Thread} {e : Event}
    {rest : List Event} (hs : h.Conveyed failFast) (hlane : h.lane thread = ⟨.observe, e :: rest⟩) :
    Hub.Conveyed failFast
      { h.setLane thread ⟨.apply, e :: rest⟩ with coordinator := h.coordinator.observe e } := by
  have he : e ∈ h.worker.events := hs.lanes thread e (by rw [hlane]; exact List.mem_cons_self)
  have hobserved : ∀ x ∈ (h.coordinator.observe e).observed, x ∈ h.worker.events := by
    intro x hx
    rcases List.mem_append.mp hx with hx | hx
    · exact hs.observed x hx
    · rw [List.mem_singleton.mp hx]
      exact he
  cases thread with
  | consumer =>
    have hlane : h.consumer = ⟨.observe, e :: rest⟩ := hlane
    have horder := hs.order
    have hlanes := hs.lanes
    rw [hlane] at horder
    refine ⟨hs.streams, horder, ?_, hobserved, ?_, hs.arrived, hs.sent⟩
    · intro x hx
      have hold := hs.seen x hx
      rw [hlane] at hold
      rcases hold with hold | hold
      · exact .inl (List.mem_append_left _ hold)
      · rcases List.mem_cons.mp hold with rfl | hold
        · exact .inl (List.mem_append_right _ (List.mem_singleton.mpr rfl))
        · exact .inr hold
    · intro other x hx
      cases other with
      | consumer => exact hlanes .consumer x (by rw [Hub.lane, hlane]; exact hx)
      | sender => exact hlanes .sender x hx
  | sender =>
    have hlane : h.sender = ⟨.observe, e :: rest⟩ := hlane
    refine ⟨hs.streams, hs.order, ?_, hobserved, ?_, hs.arrived, ?_⟩
    · intro x hx
      exact (hs.seen x hx).imp_left (List.mem_append_left _)
    · intro other x hx
      cases other with
      | consumer => exact hs.lanes .consumer x hx
      | sender => exact hs.lanes .sender x (by rw [Hub.lane, hlane]; exact hx)
    · intro x hx
      refine hs.sent x (hx.imp_left fun hmem => ?_)
      rw [hlane]
      exact hmem

/-- Applying an event takes it out of what the watcher state has yet to see. -/
theorem Hub.Conveyed.apply {failFast : Bool} {h : Hub W} {thread : Thread} {e : Event}
    {rest : List Event} (hs : h.Conveyed failFast) (hlane : h.lane thread = ⟨.apply, e :: rest⟩) :
    Hub.Conveyed failFast
      { h.setLane thread ⟨.publish, e :: rest⟩ with
        state := h.state.apply e
        applied := h.applied ++ [(thread, e)] } := by
  have he : e ∈ h.worker.events := hs.lanes thread e (by rw [hlane]; exact List.mem_cons_self)
  have harrived : ∀ x ∈ h.applied ++ [(thread, e)], x.2 ∈ h.worker.events := by
    intro x hx
    rcases List.mem_append.mp hx with hx | hx
    · exact hs.arrived x hx
    · rw [List.mem_singleton.mp hx]
      exact he
  cases thread with
  | consumer =>
    have hlane : h.consumer = ⟨.apply, e :: rest⟩ := hlane
    have horder := hs.order
    rw [hlane] at horder
    refine ⟨hs.streams, ?_, ?_, hs.observed, ?_, harrived, ?_⟩
    · simpa [Hub.setLane, Lane.unapplied] using horder
    · intro x hx
      have hold := hs.seen x hx
      rw [hlane] at hold
      exact hold
    · intro other x hx
      cases other with
      | consumer => exact hs.lanes .consumer x (by rw [Hub.lane, hlane]; exact hx)
      | sender => exact hs.lanes .sender x hx
    · intro x hx
      refine hs.sent x (hx.imp_right fun hmem => ?_)
      simpa using hmem
  | sender =>
    have hlane : h.sender = ⟨.apply, e :: rest⟩ := hlane
    refine ⟨hs.streams, ?_, hs.seen, hs.observed, ?_, harrived, ?_⟩
    · simpa [Hub.setLane] using hs.order
    · intro other x hx
      cases other with
      | consumer => exact hs.lanes .consumer x hx
      | sender => exact hs.lanes .sender x (by rw [Hub.lane, hlane]; exact hx)
    · intro x hx
      refine hs.sent x ?_
      rw [hlane]
      rcases hx with hx | hx
      · exact .inl hx
      · rcases List.mem_append.mp hx with hx | hx
        · exact .inr hx
        · rw [(Prod.mk.inj (List.mem_singleton.mp hx)).2]
          exact .inl List.mem_cons_self

/-- Turning to the next part of a callback, or to the next event, conveys nothing. -/
theorem Hub.Conveyed.turn {failFast : Bool} {h : Hub W} {thread : Thread} {lane : Lane}
    (hs : h.Conveyed failFast) (hunapplied : lane.unapplied = (h.lane thread).unapplied)
    (hunobserved : lane.unobserved = (h.lane thread).unobserved)
    (hevents : ∀ e ∈ lane.events, e ∈ (h.lane thread).events) (recorder : DurationRecorder) :
    Hub.Conveyed failFast { h.setLane thread lane with recorder } := by
  cases thread with
  | consumer =>
    have hunapplied : lane.unapplied = h.consumer.unapplied := hunapplied
    have horder := hs.order
    rw [← hunapplied] at horder
    refine ⟨hs.streams, horder, ?_, hs.observed, ?_, hs.arrived, hs.sent⟩
    · intro x hx
      exact (hs.seen x hx).imp_right fun hmem => hunobserved ▸ hmem
    · intro other x hx
      cases other with
      | consumer => exact hs.lanes .consumer x (hevents x hx)
      | sender => exact hs.lanes .sender x hx
  | sender =>
    refine ⟨hs.streams, hs.order, hs.seen, hs.observed, ?_, hs.arrived, ?_⟩
    · intro other x hx
      cases other with
      | consumer => exact hs.lanes .consumer x hx
      | sender => exact hs.lanes .sender x (hevents x hx)
    · intro x hx
      exact hs.sent x (hx.imp_left (hevents x))

theorem Proceeds.conveyed {ex : LawfulExecutor} {env : Env W} {h h' : Hub W} {l : HubLabel}
    (hstep : Proceeds ex env h l h') (hs : h.Conveyed ex.failFast) : h'.Conveyed ex.failFast := by
  have hkeeps : ∀ {c : Coordinator}, c.observed = h.coordinator.observed → ∀ (batch : BatchPc)
      (answers : List Answered),
      Hub.Conveyed ex.failFast { h with coordinator := c, batch, answers } := fun hobserved _ _ =>
    ⟨hs.streams, hs.order, by rw [hobserved]; exact hs.seen, by rw [hobserved]; exact hs.observed,
      hs.lanes, hs.arrived, hs.sent⟩
  cases hstep with
  | worked l worker hready hhappens => exact hs.advance hready hhappens
  | recorded thread e rest hlane =>
    refine hs.turn ?_ ?_ ?_ _
    · rw [hlane]
      rfl
    · rw [hlane]
      rfl
    · rw [hlane]
      exact fun e he => he
  | observed thread e rest hlane => exact hs.observe hlane
  | applied thread e rest hlane => exact hs.apply hlane
  | published thread e rest hlane =>
    have hturn : Hub.Conveyed ex.failFast
        { h.setLane thread ⟨.record, rest⟩ with recorder := h.recorder } := by
      refine hs.turn ?_ ?_ ?_ _
      · rw [hlane]
        rfl
      · rw [hlane]
        rfl
      · rw [hlane]
        exact fun e he => List.mem_cons_of_mem _ he
    cases thread <;> exact hturn
  | asked l c hc hkept => exact hkeeps hkept.2 _ _
  | answered i c mode seen reason generation hi hc hkept => exact hkeeps hkept.2 _ _
  | received | unchanged | unmatched => exact hkeeps rfl _ _
  | noted batchId c hbatch hc heq => exact hkeeps (by rw [heq]) _ _
  | completed request c hbatch hc heq => exact hkeeps (by rw [heq]) _ _
  | routed draft hbatch hopen =>
    have hhappens : Happens ex env h.worker (.call (.request draft)) (h.worker.call (.request draft)) :=
      .called (.request draft) hopen
    have hready : h.ready (.call (.request draft)) := trivial
    have hcall := hs.advance hready hhappens
    exact ⟨hcall.streams, hcall.order, hcall.seen, hcall.observed, hcall.lanes, hcall.arrived, hcall.sent⟩

theorem Hub.initial_conveyed (failFast : Bool) (world : W) : (Hub.initial world).Conveyed failFast where
  streams :=
    { census := State.initial_census failFast world
      held := by intro id hid; cases hid
      begun := rfl
      once := List.nodup_nil
      running := by intro id hid; cases hid
      among := fun _ he => absurd he List.not_mem_nil
      attributed := by intro before e after g hsplit; simp [Hub.initial] at hsplit }
  order := rfl
  seen _ he := absurd he List.not_mem_nil
  observed _ he := absurd he List.not_mem_nil
  lanes thread _ he := by cases thread <;> cases he
  arrived _ hx := absurd hx List.not_mem_nil
  sent _ he := by rcases he with he | he <;> cases he

end Funzzy
