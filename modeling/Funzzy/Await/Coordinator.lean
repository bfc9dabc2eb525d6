import Funzzy.Worker.Projection

/-! The await coordinator (`awaiting.rs`): terminal records, and the clients that wait for them.

    One lock guards the records and the registration of waiters. A waiter evaluates under the lock and
    gives it up only by waiting on the condition variable, which registers it; recording a terminal event
    needs the lock and wakes every registered waiter. The machine has one step for each stretch between
    two points where a thread can lose the lock. Time and the state of the connection are choices of the
    environment. -/

namespace Funzzy

/-! ### Records -/

/-- The reason a terminal event is recorded with. -/
def Event.reason? : Event → Option TerminalReason
  | .finished _ _ _ failures => some (if failures = [] then .passed else .failed)
  | .cancelled _ supersededBy => some (if supersededBy.isSome then .superseded else .cancelled)
  | _ => none

/-- The record an event makes. -/
def Event.record? : Event → Option TerminalRecord
  | .finished runId supersededBy _ failures =>
    some ⟨runId, if failures = [] then .passed else .failed, supersededBy⟩
  | .cancelled runId supersededBy =>
    some ⟨runId, if supersededBy.isSome then .superseded else .cancelled, supersededBy⟩
  | _ => none

/-- Everything that has been recorded, retained or not. -/
def records (events : List Event) : List TerminalRecord := events.filterMap Event.record?

/-- The last terminal event of a generation. -/
def lastEnded (events : List Event) (generation : Nat) : Option Event :=
  events.reverse.find? fun e => e.ended? = some generation

theorem lastEnded_eq_some {events : List Event} {generation : Nat} {e : Event}
    (h : lastEnded events generation = some e) : e ∈ events ∧ e.ended? = some generation := by
  have hended := List.find?_some h
  exact ⟨List.mem_reverse.mp (List.mem_of_find?_eq_some h), of_decide_eq_true hended⟩

/-! ### Evaluating -/

/-- What the await primitive is waiting for. -/
inductive AwaitMode where
  | after (generation : Nat)
  | exact (generation : Nat)
  deriving DecidableEq

def AwaitMode.selects (mode : AwaitMode) (generation : Nat) : Prop :=
  match mode with
  | .after g => g < generation
  | .exact g => generation = g

instance (mode : AwaitMode) (generation : Nat) : Decidable (mode.selects generation) := by
  unfold AwaitMode.selects
  split <;> infer_instance

/-- The most recent record the mode is about. -/
def AwaitInner.evaluate (inner : AwaitInner) (mode : AwaitMode) : Option (TerminalReason × Nat) :=
  (inner.terminal.reverse.find? fun record => mode.selects record.generation).map fun record =>
    (record.reason, record.generation)

/-! ### Waiters -/

/-- Where an awaiting client stands: before taking the lock, with the lock and nothing found, with the
    lock and an answer, on the condition variable, woken, with the lock again and about to probe its
    connection, or gone. A timeout and a lost connection answer for no generation. -/
inductive WaiterPc where
  | top
  | deciding
  | answering (reason : TerminalReason) (generation : Option Nat)
  | waiting
  | woken
  | probing
  | answered (reason : TerminalReason) (generation : Option Nat)
  deriving DecidableEq

/-- The waiter has the lock. -/
def WaiterPc.holds : WaiterPc → Bool
  | .deciding | .answering _ _ | .probing => true
  | .top | .waiting | .woken | .answered _ _ => false

/-- A client that awaits. `seen` is history: all records at its last evaluation. -/
structure Waiter where
  mode : AwaitMode
  pc : WaiterPc := .top
  seen : List TerminalRecord := []
  deriving DecidableEq

/-- The coordinator with its waiters. `observed` is history. -/
structure Coordinator where
  inner : AwaitInner := {}
  locked : Bool := false
  waiters : List Waiter := []
  observed : List Event := []

inductive AwaitLabel where
  | observe (e : Event)
  | noteBatch (batchId : Nat)
  | noteBatchComplete
  | arrive (mode : AwaitMode)
  | evaluate (i : Nat)
  | expire (i : Nat)
  | wait (i : Nat)
  | wake (i : Nat)
  | relock (i : Nat)
  | probe (i : Nat) (gone : Bool)
  | answer (i : Nat)
  deriving DecidableEq

/-- `notify_all`. -/
def Waiter.notify (w : Waiter) : Waiter :=
  match w.pc with
  | .waiting => { w with pc := .woken }
  | _ => w

namespace Coordinator

/-- Records one event and wakes the waiters of a terminal one. -/
def observe (c : Coordinator) (e : Event) : Coordinator :=
  { c with
    inner := c.inner.observe e
    waiters := if e.reason?.isSome then c.waiters.map Waiter.notify else c.waiters
    observed := c.observed ++ [e] }

/-- Moves one waiter and sets the lock. -/
def move (c : Coordinator) (i : Nat) (w : Waiter) (locked : Bool) : Coordinator :=
  { c with waiters := c.waiters.set i w, locked }

/-- One pass of a waiter over its loop head: it takes the lock and evaluates. -/
def evaluated (c : Coordinator) (w : Waiter) : Waiter :=
  { w with
    seen := records c.observed
    pc := match c.inner.evaluate w.mode with
      | some (reason, generation) => .answering reason (some generation)
      | none => .deciding }

def step (c : Coordinator) : AwaitLabel → Option Coordinator
  | .observe e => if c.locked then none else some (c.observe e)
  | .noteBatch batchId =>
    if c.locked then none else some { c with inner := c.inner.noteBatch batchId }
  | .noteBatchComplete =>
    if c.locked then none else some { c with inner := c.inner.noteBatchComplete }
  | .arrive mode => some { c with waiters := c.waiters ++ [{ mode }] }
  | .evaluate i =>
    match c.waiters[i]? with
    | some w =>
      if c.locked = false ∧ w.pc = .top then some (c.move i (c.evaluated w) true) else none
    | none => none
  | .expire i =>
    match c.waiters[i]? with
    | some w =>
      if w.pc = .deciding then some (c.move i { w with pc := .answering .timeout none } true) else none
    | none => none
  | .wait i =>
    match c.waiters[i]? with
    | some w => if w.pc = .deciding then some (c.move i { w with pc := .waiting } false) else none
    | none => none
  | .wake i =>
    match c.waiters[i]? with
    | some w => if w.pc = .waiting then some (c.move i { w with pc := .woken } c.locked) else none
    | none => none
  | .relock i =>
    match c.waiters[i]? with
    | some w =>
      if c.locked = false ∧ w.pc = .woken then some (c.move i { w with pc := .probing } true) else none
    | none => none
  | .probe i gone =>
    match c.waiters[i]? with
    | some w =>
      if w.pc = .probing then
        if gone then some (c.move i { w with pc := .answering .disconnected none } true)
        else some (c.move i { w with pc := .top } false)
      else none
    | none => none
  | .answer i =>
    match c.waiters[i]? with
    | some w =>
      match w.pc with
      | .answering reason generation =>
        some (c.move i { w with pc := .answered reason generation } false)
      | _ => none
    | none => none

end Coordinator

/-! ### What is retained -/

theorem Event.record?_eq (e : Event) :
    (∃ record, e.record? = some record ∧ e.ended? = some record.generation ∧
      e.reason? = some record.reason) ∨
    (e.record? = none ∧ e.ended? = none ∧ e.reason? = none) := by
  cases e with
  | finished | cancelled => exact .inl ⟨_, rfl, rfl, rfl⟩
  | started | tick | taskTerminal | recoveryPhase => exact .inr ⟨rfl, rfl, rfl⟩

section Retention

variable {α : Type}

/-- The last elements of a list, at most `bound` of them. -/
def keepLast (bound : Nat) (all : List α) : List α := all.drop (all.length - bound)

theorem keepLast_append (bound : Nat) (all : List α) (x : α) :
    keepLast bound (all ++ [x]) = keepLast bound (keepLast bound all ++ [x]) := by
  unfold keepLast
  rw [← List.drop_append_of_le_length (Nat.sub_le _ _), List.drop_drop]
  congr 1
  simp only [List.length_append, List.length_drop, List.length_singleton]
  omega

theorem keepLast_length (bound : Nat) (all : List α) : (keepLast bound all).length ≤ bound := by
  rw [keepLast, List.length_drop]
  omega

/-- Searching what is kept from its end finds what searching everything finds, if it finds anything. -/
theorem find?_keepLast {bound : Nat} {all : List α} {p : α → Bool} {x : α}
    (h : (keepLast bound all).reverse.find? p = some x) : all.reverse.find? p = some x := by
  have hsplit : all.reverse = (keepLast bound all).reverse ++ (all.take (all.length - bound)).reverse := by
    rw [← List.reverse_append, keepLast, List.take_append_drop]
  rw [hsplit, List.find?_append, h]
  rfl

end Retention

/-- What `record` retains of all records. -/
def retained (all : List TerminalRecord) : List TerminalRecord := keepLast terminalHistoryBound all

theorem AwaitInner.record_terminal (inner : AwaitInner) (record : TerminalRecord) :
    (inner.record record).terminal = retained (inner.terminal ++ [record]) := by
  simp only [AwaitInner.record, retained, keepLast]

theorem AwaitInner.observe_terminal (inner : AwaitInner) (e : Event) :
    (inner.observe e).terminal
      = match e.record? with
        | some record => retained (inner.terminal ++ [record])
        | none => inner.terminal := by
  cases e with
  | finished | cancelled => exact AwaitInner.record_terminal _ _
  | started | tick | taskTerminal | recoveryPhase => rfl

theorem AwaitInner.observe_retained {inner : AwaitInner} {events : List Event} (e : Event)
    (h : inner.terminal = retained (records events)) :
    (inner.observe e).terminal = retained (records (events ++ [e])) := by
  have hrecords : records (events ++ [e]) = records events ++ e.record?.toList := by
    cases he : e.record? <;> simp [records, he]
  rw [AwaitInner.observe_terminal, hrecords]
  cases e.record? with
  | none => simpa using h
  | some record =>
    simp only [Option.toList_some]
    rw [h]
    exact (keepLast_append terminalHistoryBound (records events) record).symm

/-- The latest record of a generation is that of its last terminal event. -/
theorem find?_records (events : List Event) (generation : Nat) :
    ((records events).reverse.find? fun record => record.generation = generation)
      = (lastEnded events generation).bind Event.record? := by
  induction events using List.reverseRecOn with
  | nil => rfl
  | append_singleton events e ih =>
    have hlast : lastEnded (events ++ [e]) generation
        = if e.ended? = some generation then some e else lastEnded events generation := by
      rw [lastEnded, List.reverse_append, List.reverse_singleton, List.singleton_append,
        List.find?_cons]
      by_cases he : e.ended? = some generation <;> simp [he, lastEnded]
    have hrecords : records (events ++ [e]) = records events ++ e.record?.toList := by
      cases he : e.record? <;> simp [records, he]
    rw [hlast, hrecords, List.reverse_append]
    rcases e.record?_eq with ⟨record, hrecord, hended, -⟩ | ⟨hrecord, hended, -⟩
    · rw [hrecord, hended, Option.toList_some, List.reverse_singleton, List.singleton_append,
        List.find?_cons]
      by_cases hg : record.generation = generation
      · simp [hg, hrecord]
      · simpa [hg] using ih
    · rw [hrecord, hended]
      simpa using ih

/-! ### What a step can do -/

/-- One step of a waiter: the waiter after it, and whether the lock is taken then. -/
inductive WaiterMove (c : Coordinator) (w : Waiter) : Waiter → Bool → Prop
  | evaluated : c.locked = false → w.pc = .top → WaiterMove c w (c.evaluated w) true
  | expired : w.pc = .deciding → WaiterMove c w { w with pc := .answering .timeout none } true
  | waited : w.pc = .deciding → WaiterMove c w { w with pc := .waiting } false
  | woke : w.pc = .waiting → WaiterMove c w { w with pc := .woken } c.locked
  | relocked : c.locked = false → w.pc = .woken → WaiterMove c w { w with pc := .probing } true
  | gone : w.pc = .probing → WaiterMove c w { w with pc := .answering .disconnected none } true
  | stayed : w.pc = .probing → WaiterMove c w { w with pc := .top } false
  | answered (reason : TerminalReason) (generation : Option Nat) : w.pc = .answering reason generation →
      WaiterMove c w { w with pc := .answered reason generation } false

/-- The steps of the coordinator. -/
inductive Awaits (c : Coordinator) : Coordinator → Prop
  | observed (e : Event) : c.locked = false → Awaits c (c.observe e)
  | noted (inner : AwaitInner) : inner.terminal = c.inner.terminal → Awaits c { c with inner }
  | arrived (mode : AwaitMode) : Awaits c { c with waiters := c.waiters ++ [{ mode }] }
  | moved (l₁ l₂ : List Waiter) (w w' : Waiter) (locked : Bool) : c.waiters = l₁ ++ w :: l₂ →
      WaiterMove c w w' locked → Awaits c { c with waiters := l₁ ++ w' :: l₂, locked }

theorem WaiterMove.awaits {c c' : Coordinator} {i : Nat} {w w' : Waiter} {locked : Bool}
    (hi : c.waiters[i]? = some w) (h : WaiterMove c w w' locked) (hmove : c.move i w' locked = c') :
    Awaits c c' := by
  obtain ⟨l₁, l₂, hsplit, hset, -⟩ := Machine.exists_split hi
  rw [← hmove, Coordinator.move, hset]
  exact .moved l₁ l₂ w w' locked hsplit h

theorem Coordinator.step_awaits {c c' : Coordinator} {l : AwaitLabel} (h : c.step l = some c') :
    Awaits c c' := by
  cases l with
  | observe e =>
    simp only [step] at h
    split at h
    · cases h
    · rename_i hfree
      cases h
      exact .observed e (by simpa using hfree)
  | noteBatch batchId =>
    simp only [step] at h
    split at h
    · cases h
    · cases h
      exact .noted _ rfl
  | noteBatchComplete =>
    simp only [step] at h
    split at h
    · cases h
    · cases h
      exact .noted _ rfl
  | arrive mode =>
    cases h
    exact .arrived mode
  | evaluate i =>
    simp only [step] at h
    split at h
    · rename_i w hi
      split at h
      · rename_i hfree
        exact WaiterMove.awaits hi (.evaluated hfree.1 hfree.2) (Option.some.inj h)
      · cases h
    · cases h
  | expire i =>
    simp only [step] at h
    split at h
    · rename_i w hi
      split at h
      · rename_i hpc
        exact WaiterMove.awaits hi (.expired hpc) (Option.some.inj h)
      · cases h
    · cases h
  | wait i =>
    simp only [step] at h
    split at h
    · rename_i w hi
      split at h
      · rename_i hpc
        exact WaiterMove.awaits hi (.waited hpc) (Option.some.inj h)
      · cases h
    · cases h
  | wake i =>
    simp only [step] at h
    split at h
    · rename_i w hi
      split at h
      · rename_i hpc
        exact WaiterMove.awaits hi (.woke hpc) (Option.some.inj h)
      · cases h
    · cases h
  | relock i =>
    simp only [step] at h
    split at h
    · rename_i w hi
      split at h
      · rename_i hfree
        exact WaiterMove.awaits hi (.relocked hfree.1 hfree.2) (Option.some.inj h)
      · cases h
    · cases h
  | probe i gone =>
    simp only [step] at h
    split at h
    · rename_i w hi
      split at h
      · rename_i hpc
        split at h
        · exact WaiterMove.awaits hi (.gone hpc) (Option.some.inj h)
        · exact WaiterMove.awaits hi (.stayed hpc) (Option.some.inj h)
      · cases h
    · cases h
  | answer i =>
    simp only [step] at h
    split at h
    · rename_i w hi
      split at h
      · rename_i reason generation hpc
        exact WaiterMove.awaits hi (.answered reason generation hpc) (Option.some.inj h)
      · cases h
    · cases h

/-! ### The invariant -/

/-- An answer for a generation: one the mode is about, with the reason of its last terminal event when
    the waiter evaluated. -/
def AwaitMode.Answers (mode : AwaitMode) (observed : List Event) (reason : TerminalReason)
    (generation : Nat) : Prop :=
  mode.selects generation ∧ ∃ before, before <+: observed ∧
    ∃ e, lastEnded before generation = some e ∧ e.reason? = some reason

structure Coordinator.Sound (c : Coordinator) : Prop where
  retains : c.inner.terminal = retained (records c.observed)
  lock : c.waiters.countP (·.pc.holds) = if c.locked then 1 else 0
  asleep : ∀ w ∈ c.waiters, w.pc = .deciding ∨ w.pc = .waiting →
    w.seen = records c.observed ∧ c.inner.evaluate w.mode = none
  answers : ∀ w ∈ c.waiters, ∀ reason generation,
    w.pc = .answering reason (some generation) ∨ w.pc = .answered reason (some generation) →
    w.mode.Answers c.observed reason generation

/-- What is found is the latest record of its generation. -/
theorem AwaitInner.evaluate_answers {inner : AwaitInner} {observed : List Event} {mode : AwaitMode}
    {reason : TerminalReason} {generation : Nat} (hretains : inner.terminal = retained (records observed))
    (h : inner.evaluate mode = some (reason, generation)) :
    mode.selects generation ∧ ∃ e, lastEnded observed generation = some e ∧ e.reason? = some reason := by
  obtain ⟨record, hfind, heq⟩ := Option.map_eq_some_iff.mp h
  obtain ⟨rfl, rfl⟩ := Prod.mk.inj heq
  have hselects : mode.selects record.generation := by simpa using List.find?_some hfind
  refine ⟨hselects, ?_⟩
  rw [hretains] at hfind
  -- the first record found from the end is also the first one of its generation
  have hown : (retained (records observed)).reverse.find?
      (fun other => other.generation = record.generation) = some record := by
    rw [List.find?_eq_some_iff_append] at hfind ⊢
    obtain ⟨-, before, after, hsplit, hbefore⟩ := hfind
    refine ⟨by simp, before, after, hsplit, fun other hother => ?_⟩
    have hnot := hbefore other hother
    simp only [Bool.not_eq_eq_eq_not, Bool.not_true, decide_eq_false_iff_not] at hnot ⊢
    intro hsame
    exact hnot (hsame ▸ hselects)
  have hrecords := find?_keepLast hown
  rw [find?_records] at hrecords
  obtain ⟨e, hlast, hrecord⟩ := Option.bind_eq_some_iff.mp hrecords
  refine ⟨e, hlast, ?_⟩
  rcases e.record?_eq with ⟨record', hrecord', -, hreason⟩ | ⟨hnone, -⟩
  · rw [hrecord] at hrecord'
    cases hrecord'
    exact hreason
  · rw [hnone] at hrecord
    cases hrecord

/-- A retained record of the generation is found. -/
theorem AwaitInner.evaluate_exact {inner : AwaitInner} {generation : Nat}
    (h : ∃ record ∈ inner.terminal, record.generation = generation) :
    ∃ reason, inner.evaluate (.exact generation) = some (reason, generation) := by
  obtain ⟨record, hrecord, hg⟩ := h
  cases hfind : inner.terminal.reverse.find? fun record =>
      (AwaitMode.exact generation).selects record.generation with
  | none =>
    have hnone := List.find?_eq_none.mp hfind record (List.mem_reverse.mpr hrecord)
    simp [AwaitMode.selects, hg] at hnone
  | some found =>
    have hselects := List.find?_some hfind
    have hfound : found.generation = generation := of_decide_eq_true hselects
    exact ⟨found.reason, by rw [evaluate, hfind, Option.map_some, hfound]⟩

theorem AwaitMode.Answers.mono {mode : AwaitMode} {observed observed' : List Event}
    {reason : TerminalReason} {generation : Nat} (h : mode.Answers observed reason generation)
    (hmono : observed <+: observed') : mode.Answers observed' reason generation := by
  obtain ⟨hselects, before, hbefore, hlast⟩ := h
  exact ⟨hselects, before, hbefore.trans hmono, hlast⟩

theorem WaiterPc.not_holds_of_free {c : Coordinator} (h : c.Sound) (hfree : c.locked = false) :
    ∀ w ∈ c.waiters, w.pc.holds = false := by
  have hnone := h.lock
  rw [hfree] at hnone
  intro w hw
  simpa using List.countP_eq_zero.mp hnone w hw

theorem Waiter.notify_mode (w : Waiter) : w.notify.mode = w.mode := by
  unfold Waiter.notify
  split <;> rfl

theorem Waiter.notify_pc (w : Waiter) :
    w.notify.pc ≠ .waiting ∧ (w.notify.pc = w.pc ∨ (w.pc = .waiting ∧ w.notify.pc = .woken)) := by
  unfold Waiter.notify
  split
  · rename_i hpc
    exact ⟨by simp, .inr ⟨hpc, rfl⟩⟩
  · rename_i hpc
    exact ⟨hpc, .inl rfl⟩

theorem Waiter.notify_holds (w : Waiter) : w.notify.pc.holds = w.pc.holds := by
  rcases w.notify_pc.2 with hpc | ⟨hpc, hnotify⟩
  · rw [hpc]
  · rw [hpc, hnotify]
    rfl

/-- Recording a terminal event: whoever was registered is woken. -/
theorem Coordinator.Sound.observe {c : Coordinator} (h : c.Sound) (hfree : c.locked = false) (e : Event) :
    (c.observe e).Sound := by
  have hnobody := WaiterPc.not_holds_of_free h hfree
  have hobserved : c.observed <+: c.observed ++ [e] := List.prefix_append _ _
  rcases e.record?_eq with ⟨record, hrecord, -, hreason⟩ | ⟨hrecord, -, hreason⟩
  · constructor
    · exact AwaitInner.observe_retained e h.retains
    · have hlock := h.lock
      simp only [Coordinator.observe, hreason, Option.isSome_some, if_true, List.countP_map]
      rw [← hlock]
      congr 1
      funext w
      exact w.notify_holds
    · intro w hw hpc
      simp only [Coordinator.observe, hreason, Option.isSome_some, if_true, List.mem_map] at hw
      obtain ⟨w, hw, rfl⟩ := hw
      rcases hpc with hpc | hpc
      · have hholds : w.notify.pc.holds = true := by rw [hpc]; rfl
        rw [w.notify_holds, hnobody w hw] at hholds
        cases hholds
      · exact absurd hpc w.notify_pc.1
    · intro w hw reason generation hpc
      simp only [Coordinator.observe, hreason, Option.isSome_some, if_true, List.mem_map] at hw
      obtain ⟨w, hw, rfl⟩ := hw
      have hsame : w.notify.pc = w.pc := by
        rcases w.notify_pc.2 with hsame | ⟨-, hwoken⟩
        · exact hsame
        · rw [hwoken] at hpc
          rcases hpc with hpc | hpc <;> cases hpc
      rw [hsame] at hpc
      rw [w.notify_mode]
      exact (h.answers w hw reason generation hpc).mono hobserved
  · -- nothing is recorded, and nobody is woken
    have hterminal : (c.inner.observe e).terminal = c.inner.terminal := by
      rw [AwaitInner.observe_terminal, hrecord]
    have hrecords : records (c.observed ++ [e]) = records c.observed := by
      simp [records, hrecord]
    have hwaiters : (c.observe e).waiters = c.waiters := by
      simp [Coordinator.observe, hreason]
    refine ⟨AwaitInner.observe_retained e h.retains, by rw [hwaiters]; exact h.lock, ?_, ?_⟩
    · intro w hw hpc
      rw [hwaiters] at hw
      obtain ⟨hseen, hnone⟩ := h.asleep w hw hpc
      refine ⟨hseen.trans hrecords.symm, ?_⟩
      rw [AwaitInner.evaluate] at hnone ⊢
      simpa only [Coordinator.observe, hterminal] using hnone
    · intro w hw reason generation hpc
      rw [hwaiters] at hw
      exact (h.answers w hw reason generation hpc).mono hobserved

/-- What a step of one waiter has to give: the lock changes hands with the waiter, and the waiter's own
    part of the invariant. -/
theorem Coordinator.Sound.move {c : Coordinator} (h : c.Sound) {l₁ l₂ : List Waiter} {w w' : Waiter}
    {locked : Bool} (hsplit : c.waiters = l₁ ++ w :: l₂)
    (hlock : (if w.pc.holds then 1 else 0) + (if locked then 1 else 0)
      = (if w'.pc.holds then 1 else 0) + (if c.locked then 1 else 0))
    (hasleep : w'.pc = .deciding ∨ w'.pc = .waiting →
      w'.seen = records c.observed ∧ c.inner.evaluate w'.mode = none)
    (hanswers : ∀ reason generation,
      w'.pc = .answering reason (some generation) ∨ w'.pc = .answered reason (some generation) →
      w'.mode.Answers c.observed reason generation) :
    Coordinator.Sound { c with waiters := l₁ ++ w' :: l₂, locked } := by
  have hmem : ∀ x ∈ l₁ ++ w' :: l₂, x = w' ∨ x ∈ c.waiters := by
    intro x hx
    rw [hsplit]
    rcases List.mem_append.mp hx with hx | hx
    · exact .inr (List.mem_append_left _ hx)
    · rcases List.mem_cons.mp hx with rfl | hx
      · exact .inl rfl
      · exact .inr (List.mem_append_right _ (List.mem_cons_of_mem _ hx))
  refine ⟨h.retains, ?_, ?_, ?_⟩
  · have hcount := h.lock
    rw [hsplit, List.countP_append, List.countP_cons] at hcount
    simp only [List.countP_append, List.countP_cons]
    omega
  · intro x hx hpc
    rcases hmem x hx with rfl | hx
    · exact hasleep hpc
    · exact h.asleep x hx hpc
  · intro x hx reason generation hpc
    rcases hmem x hx with rfl | hx
    · exact hanswers reason generation hpc
    · exact h.answers x hx reason generation hpc

theorem WaiterMove.sound {c : Coordinator} (h : c.Sound) {l₁ l₂ : List Waiter} {w w' : Waiter}
    {locked : Bool} (hsplit : c.waiters = l₁ ++ w :: l₂) (hmove : WaiterMove c w w' locked) :
    Coordinator.Sound { c with waiters := l₁ ++ w' :: l₂, locked } := by
  have hw : w ∈ c.waiters := by simp [hsplit]
  have hmine : ∀ reason generation, w.pc = .answering reason (some generation) →
      w.mode.Answers c.observed reason generation := fun reason generation hpc =>
    h.answers w hw reason generation (.inl hpc)
  -- a waiter with the lock is the only one
  have hheld : w.pc.holds = true → c.locked = true := by
    intro hholds
    by_contra hfree
    have hnone := WaiterPc.not_holds_of_free h (by simpa using hfree) w hw
    rw [hholds] at hnone
    cases hnone
  cases hmove with
  | evaluated hfree hpc =>
    cases hfound : c.inner.evaluate w.mode with
    | none =>
      have hdeciding : (c.evaluated w).pc = .deciding := by simp [Coordinator.evaluated, hfound]
      refine h.move hsplit ?_ (fun _ => ⟨rfl, hfound⟩) ?_
      · simp [hpc, hfree, hdeciding, WaiterPc.holds]
      · intro reason generation hanswer
        rw [hdeciding] at hanswer
        rcases hanswer with hanswer | hanswer <;> cases hanswer
    | some found =>
      obtain ⟨reason, generation⟩ := found
      have hanswering : (c.evaluated w).pc = .answering reason (some generation) := by
        simp [Coordinator.evaluated, hfound]
      refine h.move hsplit ?_ ?_ ?_
      · simp [hpc, hfree, hanswering, WaiterPc.holds]
      · intro hasleep
        rw [hanswering] at hasleep
        rcases hasleep with hasleep | hasleep <;> cases hasleep
      · intro reason' generation' hanswer
        rw [hanswering] at hanswer
        rcases hanswer with hanswer | hanswer
        · cases hanswer
          obtain ⟨hselects, hlast⟩ := AwaitInner.evaluate_answers h.retains hfound
          exact ⟨hselects, c.observed, List.prefix_refl _, hlast⟩
        · cases hanswer
  | expired hpc =>
    have hlocked := hheld (by rw [hpc]; rfl)
    exact h.move hsplit (by simp [hpc, hlocked, WaiterPc.holds]) (by simp) (by simp)
  | waited hpc =>
    have hlocked := hheld (by rw [hpc]; rfl)
    exact h.move hsplit (by simp [hpc, hlocked, WaiterPc.holds])
      (fun _ => h.asleep w hw (.inl hpc)) (by simp)
  | woke hpc => exact h.move hsplit (by simp [hpc, WaiterPc.holds]) (by simp) (by simp)
  | relocked hfree hpc =>
    exact h.move hsplit (by simp [hpc, hfree, WaiterPc.holds]) (by simp) (by simp)
  | gone hpc =>
    have hlocked := hheld (by rw [hpc]; rfl)
    exact h.move hsplit (by simp [hpc, hlocked, WaiterPc.holds]) (by simp) (by simp)
  | stayed hpc =>
    have hlocked := hheld (by rw [hpc]; rfl)
    exact h.move hsplit (by simp [hpc, hlocked, WaiterPc.holds]) (by simp) (by simp)
  | answered reason generation hpc =>
    have hlocked := hheld (by rw [hpc]; rfl)
    refine h.move hsplit (by simp [hpc, hlocked, WaiterPc.holds]) (by simp) ?_
    intro reason' generation' hanswer
    rcases hanswer with hanswer | hanswer
    · cases hanswer
    · cases hanswer
      exact hmine _ _ hpc

theorem Awaits.sound {c c' : Coordinator} (h : Awaits c c') (hs : c.Sound) : c'.Sound := by
  cases h with
  | observed e hfree => exact hs.observe hfree e
  | noted inner hterminal =>
    refine ⟨hterminal.trans hs.retains, hs.lock, fun w hw hpc => ?_, hs.answers⟩
    obtain ⟨hseen, hnone⟩ := hs.asleep w hw hpc
    refine ⟨hseen, ?_⟩
    rw [AwaitInner.evaluate] at hnone ⊢
    simpa only [hterminal] using hnone
  | arrived mode =>
    refine ⟨hs.retains, ?_, ?_, ?_⟩
    · simpa [WaiterPc.holds] using hs.lock
    · intro w hw hpc
      rcases List.mem_append.mp hw with hw | hw
      · exact hs.asleep w hw hpc
      · rw [List.mem_singleton.mp hw] at hpc
        rcases hpc with hpc | hpc <;> cases hpc
    · intro w hw reason generation hpc
      rcases List.mem_append.mp hw with hw | hw
      · exact hs.answers w hw reason generation hpc
      · rw [List.mem_singleton.mp hw] at hpc
        rcases hpc with hpc | hpc <;> cases hpc
  | moved l₁ l₂ w w' locked hsplit hmove => exact hmove.sound hs hsplit

theorem Coordinator.initial_sound : Coordinator.Sound {} where
  retains := rfl
  lock := rfl
  asleep _ hw := absurd hw List.not_mem_nil
  answers _ hw := absurd hw List.not_mem_nil

/-- In every state the coordinator and its waiters can reach: at most 256 records are retained, always
    the most recent ones; an exact await evaluated while its generation is retained answers with the
    reason of that generation's last terminal event; whatever is answered is a generation the mode is
    about and that has ended so; and a waiter between its evaluation and its wake-up has seen every
    record there is, none of which it waits for. -/
theorem Coordinator.await_sound (labels : List AwaitLabel) (c : Coordinator)
    (h : Machine.after Coordinator.step {} labels = some c) :
    (c.inner.terminal.length ≤ 256 ∧
      c.inner.terminal = (records c.observed).drop ((records c.observed).length - 256)) ∧
    (∀ g, (∃ record ∈ c.inner.terminal, record.generation = g) → ∃ e reason,
      lastEnded c.observed g = some e ∧ e.reason? = some reason ∧
        c.inner.evaluate (.exact g) = some (reason, g)) ∧
    (∀ mode reason g, c.inner.evaluate mode = some (reason, g) →
      mode.selects g ∧ ∃ e ∈ c.observed, e.ended? = some g ∧ e.reason? = some reason) ∧
    (∀ w ∈ c.waiters, ∀ reason g, w.pc = .answered reason (some g) →
      w.mode.Answers c.observed reason g) ∧
    (∀ w ∈ c.waiters, w.pc = .deciding ∨ w.pc = .waiting →
      w.seen = records c.observed ∧ c.inner.evaluate w.mode = none) := by
  have hsound : c.Sound := Machine.invariant Coordinator.step
    (fun _ _ _ hs (_ : True) hstep => (Coordinator.step_awaits hstep).sound hs) labels {} c
    Coordinator.initial_sound (Machine.meets_true _ labels _) h
  refine ⟨⟨?_, hsound.retains⟩, ?_, ?_, ?_, hsound.asleep⟩
  · rw [hsound.retains]
    exact keepLast_length terminalHistoryBound _
  · intro g hretained
    obtain ⟨reason, hfound⟩ := AwaitInner.evaluate_exact hretained
    obtain ⟨-, e, hlast, hreason⟩ := AwaitInner.evaluate_answers hsound.retains hfound
    exact ⟨e, reason, hlast, hreason, hfound⟩
  · intro mode reason g hfound
    obtain ⟨hselects, e, hlast, hreason⟩ := AwaitInner.evaluate_answers hsound.retains hfound
    obtain ⟨hmem, hended⟩ := lastEnded_eq_some hlast
    exact ⟨hselects, e, hmem, hended, hreason⟩
  · intro w hw reason g hpc
    exact hsound.answers w hw reason g (.inr hpc)

/-- A waiter for generation 2 sleeps through the end of generation 1, is woken by that of 2, and
    answers with it. -/
theorem Coordinator.await_sound_at_two :
    ∃ c, Machine.after Coordinator.step {}
        [.arrive (.exact 2), .evaluate 0, .wait 0, .observe (.finished 1 none 5 []), .relock 0,
          .probe 0 false, .evaluate 0, .wait 0, .observe (.cancelled 2 none), .relock 0, .probe 0 false,
          .evaluate 0, .answer 0] = some c ∧
      (c.waiters.map (·.pc) = [.answered .cancelled (some 2)]) ∧
      c.inner.terminal.length ≤ 256 := by
  refine ⟨_, rfl, by decide, ?_⟩
  exact ((Coordinator.await_sound [.arrive (.exact 2), .evaluate 0, .wait 0,
    .observe (.finished 1 none 5 []), .relock 0, .probe 0 false, .evaluate 0, .wait 0,
    .observe (.cancelled 2 none), .relock 0, .probe 0 false, .evaluate 0, .answer 0] _ rfl).1).1

end Funzzy
