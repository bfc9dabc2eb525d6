import Funzzy.Reload.Revision
import Funzzy.Reload.Session
import Funzzy.Snapshot
import Funzzy.Watcher

/-! The configuration lifecycle over whole reload sessions (`config_lifecycle.rs`, `reload_session.rs`).

    The reload thread alternates between the head of its watch loop, where it looks at the shutdown flag,
    and the reload callback. Between two of its steps any number of control clients may take theirs: a
    `config` request reads the current transition and then, behind another lock, the history. -/

namespace Funzzy

/-! ### The state source -/

/-- `LIFECYCLE_HISTORY_BOUND` -/
def lifecycleHistoryBound : Nat := 32

/-- `ConfigLifecycle`, what its lock guards. -/
structure ConfigLifecycle where
  current : ConfigTransition := {}
  history : List ConfigTransition := []
  ordinal : Nat := 0
  deriving DecidableEq

namespace ConfigLifecycle

/-- `transition` at the time `now`. -/
def transition (l : ConfigLifecycle) (phase : ConfigPhase) (revision : Option ConfigRevision)
    (reason : Option String) (now : Nat) : ConfigLifecycle :=
  let ordinal := l.ordinal + 1
  let transition : ConfigTransition :=
    { phase
      revision := revision.map (·.number)
      revisionHash := revision.map (·.hash)
      reason
      ordinal
      atEpochMs := now }
  let history := l.history ++ [transition]
  { current := transition
    history := history.drop (history.length - lifecycleHistoryBound)
    ordinal }

def reloading (l : ConfigLifecycle) (revision : Option ConfigRevision) (now : Nat) : ConfigLifecycle :=
  l.transition .configReloading revision none now

def reloaded (l : ConfigLifecycle) (revision : ConfigRevision) (now : Nat) : ConfigLifecycle :=
  l.transition .configReloaded (some revision) none now

def invalid (l : ConfigLifecycle) (liveRevision : Option ConfigRevision) (reason : String) (now : Nat) :
    ConfigLifecycle :=
  l.transition .configInvalid liveRevision (some reason) now

end ConfigLifecycle

/-! ### Deciding about a candidate -/

/-- `ValidationGate` -/
inductive ValidationGate where | syntactic | schema | semantic | operational
  deriving DecidableEq

def ValidationGate.text : ValidationGate → String
  | .syntactic => "syntax"
  | .schema => "schema"
  | .semantic => "semantics"
  | .operational => "operational"

structure ConfigError where
  gate : ValidationGate
  reason : String
  deriving DecidableEq

inductive ReloadDecision where
  | commit (revision : ConfigRevision)
  | noOp
  | fatal (error : ConfigError)
  deriving DecidableEq

namespace ReloadSession

/-- How the text of a configuration is read, for the root and the startup policy of the session:
    `validate_candidate`, `build_watches_from_content` up to the revision, `control_socket_from_yaml`. -/
structure Readers (shown : Char → Bool) where
  validateCandidate : String → Except ConfigError (RuntimeConfig shown)
  watches : String → Except String Watches
  controlSocket : String → Except String (Option String)

variable {shown : Char → Bool} (digest : List UInt8 → String) (readers : Readers shown)

/-- `decide` -/
def decide (tracker : RevisionTracker) (content : String) : ReloadDecision × RevisionTracker :=
  match readers.validateCandidate content with
  | .error error => (.fatal error, tracker)
  | .ok config =>
    match tracker.observe digest config with
    | (.new revision, tracker) => (.commit revision, tracker)
    | (.noOp, tracker) => (.noOp, tracker)

/-- `build_watches_from_content` -/
def buildWatchesFromContent (content : String) (revision : ConfigRevision) : Except String Watches :=
  (readers.watches content).map fun watches => { watches with revision := some revision }

/-- `changed_config_path`: the first changed path that is a configuration file, or nothing. -/
def changedConfigPath (canonicalize : String → Option String) (events : List FileEvent)
    (configPaths : List String) : String :=
  ((events.map (·.path)).find? fun path => configPaths.any fun candidate =>
    path == candidate || candidate.toList.isSuffixOf path.toList
      || canonicalize path == some candidate).getD ""

/-! ### The session -/

/-- Where the reload thread stands. -/
inductive Pc where
  /-- At the head of the watch loop. -/
  | head
  /-- Waiting for a batch. -/
  | receiving
  /-- In the callback, behind `configReloading`. -/
  | preparing (content : String) (revision : ConfigRevision) (socket : Option String)
  /-- Behind `begin`. -/
  | prepared (revision : ConfigRevision) (candidate : Watches)
  /-- Behind `commit`. -/
  | committed (revision : ConfigRevision)
  /-- Behind `configInvalid`. -/
  | failing
  /-- The watch loop has returned. -/
  | stopped
  deriving DecidableEq

/-- What never changes in a session. -/
structure Settings where
  configPaths : List String
  currentSocket : Option String

structure State where
  lifecycle : ConfigLifecycle := {}
  tracker : RevisionTracker
  live : Watches
  shutdown : Bool := false
  pc : Pc := .head
  baselines : String → Option Nat
  /-- What the open `config` requests have read. -/
  requests : List ConfigTransition := []
  /-- The answers to `config` requests. -/
  answers : List (ConfigTransition × List ConfigTransition) := []

/-- The session of a watcher that has started with `watches`. -/
def State.start (watches : Watches) (baselines : String → Option Nat) : State :=
  { tracker := ⟨watches.revision⟩, live := watches, baselines }

/-- A batch of the watch loop, and what the callback finds in the file system. -/
structure Batch where
  events : List FileEvent
  canonicalize : String → Option String
  modified : String → Option Nat
  readToString : String → Except String String

inductive Move where
  | check
  | timeout
  | deliver (batch : Batch) (now : Nat)
  /-- The callback up to `begin`, with the answers of `prepare_socket` and `begin`. -/
  | prepare (prepareSocket begin : Except String Unit) (now : Nat)
  | commit
  /-- What follows the commit, up to `configReloaded`. -/
  | publish (now : Nat)
  /-- The rest of `fatal_reload`. -/
  | request
  /-- Another thread requests a shutdown. -/
  | signal
  /-- A `config` request reads the current transition. -/
  | readCurrent
  /-- The `i`-th open request reads the history and is answered. -/
  | readHistory (i : Nat)

namespace State

/-- `fatal_reload` up to the request for a shutdown. -/
def fatalReload (s : State) (reason : String) (now : Nat) : State :=
  { s with lifecycle := s.lifecycle.invalid s.live.revision reason now, pc := .failing }

/-- The callback with the text it has read. -/
def consider (s : State) (content : String) (now : Nat) : State :=
  -- a socket that cannot be read is passed over with a warning
  let socket := match readers.controlSocket content with
    | .ok socket => socket
    | .error _ => none
  match decide digest readers s.tracker content with
  | (.noOp, tracker) => { s with tracker, pc := .head }
  | (.commit revision, tracker) =>
    { s with tracker, lifecycle := s.lifecycle.reloading (some revision) now,
             pc := .preparing content revision socket }
  | (.fatal error, tracker) =>
    { s with tracker }.fatalReload
      ("invalid config (" ++ error.gate.text ++ "): " ++ error.reason) now

/-- The file has changed since it was last seen; what cannot be compared counts as changed. -/
def isChanged (s : State) (path : String) (current : Option Nat) : Bool :=
  match current, s.baselines path with
  | some current, some baseline => current ≠ baseline
  | _, _ => true

variable (settings : Settings)

/-- The callback up to `configReloading`. -/
def deliver (s : State) (batch : Batch) (now : Nat) : State :=
  let fileChanged := changedConfigPath batch.canonicalize batch.events settings.configPaths
  if fileChanged = "" then { s with pc := .head }
  else
    let current := batch.modified fileChanged
    if s.isChanged fileChanged current then
      let baselines := fun path => if path = fileChanged then current.or (s.baselines path)
        else s.baselines path
      match batch.readToString fileChanged with
      | .error err =>
        { s with baselines }.fatalReload ("config unreadable after change: " ++ err) now
      | .ok content => { s with baselines }.consider digest readers content now
    else { s with pc := .head }

/-- The callback behind `configReloading`, up to the commit. -/
def prepare (s : State) (content : String) (revision : ConfigRevision) (socket : Option String)
    (prepareSocket begin : Except String Unit) (now : Nat) : State :=
  match buildWatchesFromContent readers content revision with
  | .error err => s.fatalReload err now
  | .ok candidate =>
    let rebound :=
      if SocketSwapper.socketChanged settings.currentSocket socket && socket.isSome then prepareSocket
      else .ok ()
    match rebound with
    | .error err => s.fatalReload ("control socket rebind failed: " ++ err) now
    | .ok _ =>
      match begin with
      | .error err => s.fatalReload ("reload prepare failed: " ++ err) now
      | .ok _ => { s with pc := .prepared revision candidate }

def step (s : State) : Move → Option State
  | .check =>
    if s.pc = .head then some { s with pc := if s.shutdown then .stopped else .receiving } else none
  | .timeout => if s.pc = .receiving then some { s with pc := .head } else none
  | .deliver batch now =>
    if s.pc = .receiving then some (s.deliver digest readers settings batch now) else none
  | .prepare prepareSocket begin now =>
    match s.pc with
    | .preparing content revision socket =>
      some (s.prepare readers settings content revision socket prepareSocket begin now)
    | _ => none
  | .commit =>
    match s.pc with
    | .prepared revision candidate => some { s with live := candidate, pc := .committed revision }
    | _ => none
  | .publish now =>
    match s.pc with
    | .committed revision =>
      some { s with lifecycle := s.lifecycle.reloaded revision now, pc := .head }
    | _ => none
  | .request => if s.pc = .failing then some { s with shutdown := true, pc := .head } else none
  | .signal => some { s with shutdown := true }
  | .readCurrent => some { s with requests := s.requests ++ [s.lifecycle.current] }
  | .readHistory i =>
    match s.requests[i]? with
    | none => none
    | some current =>
      some { s with requests := s.requests.eraseIdx i
                    answers := s.answers ++ [(current, s.lifecycle.history)] }

end State

/-! ### The protocol -/

/-- What the protocol sees of a transition. -/
def event (t : ConfigTransition) : ConfigPhase × Option Nat := (t.phase, t.revision)

/-- A reload that has gone through. -/
def reload (r : Nat) : List (ConfigPhase × Option Nat) :=
  [(.configReloading, some r), (.configReloaded, some r)]

/-- How a story goes on behind the reloads that have gone through. -/
inductive Tail (committing : Prop) (revisions : List Nat) : List (ConfigPhase × Option Nat) → Prop
  | settled : Tail committing revisions []
  | reloading (r : Nat) : committing → (∀ q ∈ revisions, q < r) →
      Tail committing revisions [(.configReloading, some r)]
  | invalid (live : Option Nat) : Tail committing revisions [(.configInvalid, live)]
  | failed (r : Nat) (live : Option Nat) : (∀ q ∈ revisions, q < r) →
      Tail committing revisions [(.configReloading, some r), (.configInvalid, live)]

/-- Reloads of increasing revisions, then at most one that has not gone through, or an end. -/
def Story (committing : Prop) (transitions : List ConfigTransition) : Prop :=
  ∃ revisions tail, revisions.Pairwise (· < ·) ∧ Tail committing revisions tail ∧
    transitions.map event = revisions.flatMap reload ++ tail

/-- The callback is between `configReloading` and `configReloaded`. -/
def Pc.committing : Pc → Bool
  | .preparing .. | .prepared .. | .committed _ => true
  | .head | .receiving | .failing | .stopped => false

/-- The current transition of an answer is the last one of its history. -/
def Coherent (answer : ConfigTransition × List ConfigTransition) : Prop :=
  match answer.2.getLast? with
  | some last => answer.1 = last
  | none => answer.1.phase = .idle

/-- The batch is a save without a semantic change. -/
def State.NoOpSave (settings : Settings) (s : State) (batch : Batch) : Prop :=
  ∃ content, batch.readToString (changedConfigPath batch.canonicalize batch.events settings.configPaths) =
    .ok content ∧ (decide digest readers s.tracker content).1 = .noOp

/-- What clients are promised of the lifecycle. -/
structure Sound (settings : Settings) (s : State) : Prop where
  story : ∃ transitions, s.lifecycle.history <:+ transitions ∧
    Story (s.pc.committing = true) transitions ∧
    transitions.map (·.ordinal) = List.range' 1 transitions.length
  bounded : s.lifecycle.history.length ≤ lifecycleHistoryBound
  committed : s.lifecycle.current.phase = .configReloaded →
    s.lifecycle.current.revision = s.live.revision.map (·.number)
  quiet : ∀ batch now, s.NoOpSave digest readers settings batch →
    (s.deliver digest readers settings batch now).lifecycle = s.lifecycle
  answers : ∀ answer ∈ s.answers, Coherent answer

/-- No transition is recorded between the two reads of a request. -/
def Undisturbed (s : State) : Move → Prop
  | .readHistory i => ∀ current ∈ s.requests[i]?, current.ordinal = s.lifecycle.ordinal
  | _ => True

instance (s : State) : ∀ move : Move, Decidable (Undisturbed s move)
  | .readHistory i =>
    inferInstanceAs (Decidable (∀ current ∈ s.requests[i]?, current.ordinal = s.lifecycle.ordinal))
  | .check | .timeout | .deliver .. | .prepare .. | .commit | .publish _ | .request | .signal
  | .readCurrent => isTrue trivial

/-! ### The log behind the history -/

/-- Forgetting the oldest entries early or late comes to the same. -/
theorem drop_append_singleton {α : Type} (bound : Nat) (l kept : List α) (a : α)
    (hkept : kept = l.drop (l.length - bound) ++ [a]) :
    kept.drop (kept.length - bound) = (l ++ [a]).drop ((l ++ [a]).length - bound) := by
  have hsplit : l ++ [a] = l.take (l.length - bound) ++ kept := by
    rw [hkept, ← List.append_assoc, List.take_append_drop]
  have hlength : kept.length = l.length - (l.length - bound) + 1 := by simp [hkept]
  have htake : (l.take (l.length - bound)).length = l.length - bound := by
    rw [List.length_take]
    exact Nat.min_eq_left (Nat.sub_le _ _)
  have hall : (l ++ [a]).length = l.length + 1 := List.length_append
  have hnone : (l.take (l.length - bound)).drop (l.length + 1 - bound) = [] :=
    List.drop_of_length_le (by omega)
  rw [hall, hsplit, List.drop_append, htake, hnone, List.nil_append]
  congr 1
  omega

/-- The source of transitions after all of `transitions` have been recorded. -/
structure Logged (l : ConfigLifecycle) (transitions : List ConfigTransition) : Prop where
  history : l.history = transitions.drop (transitions.length - lifecycleHistoryBound)
  current : l.current = transitions.getLast?.getD {}
  ordinal : l.ordinal = transitions.length
  ordinals : transitions.map (·.ordinal) = List.range' 1 transitions.length

theorem Logged.transition {l : ConfigLifecycle} {transitions : List ConfigTransition}
    (h : Logged l transitions) (phase : ConfigPhase) (revision : Option ConfigRevision)
    (reason : Option String) (now : Nat) :
    Logged (l.transition phase revision reason now)
      (transitions ++ [(l.transition phase revision reason now).current]) := by
  refine ⟨?_, ?_, ?_, ?_⟩
  · exact drop_append_singleton _ _ _ _ (by rw [h.history]; rfl)
  · rw [List.getLast?_append]
    rfl
  · rw [List.length_append, List.length_singleton, ← h.ordinal]
    rfl
  · rw [List.map_append, h.ordinals, List.length_append, List.length_singleton, List.range'_concat]
    have hordinal : (l.transition phase revision reason now).current.ordinal = l.ordinal + 1 := rfl
    rw [List.map_singleton, hordinal, h.ordinal, Nat.one_mul, Nat.add_comm]

theorem Logged.history_suffix {l : ConfigLifecycle} {transitions : List ConfigTransition}
    (h : Logged l transitions) : l.history <:+ transitions := by
  rw [h.history]
  exact List.drop_suffix _ _

theorem Logged.bounded {l : ConfigLifecycle} {transitions : List ConfigTransition}
    (h : Logged l transitions) : l.history.length ≤ lifecycleHistoryBound := by
  rw [h.history, List.length_drop]
  omega

/-- The last entry of the history is the last transition. -/
theorem Logged.history_last {l : ConfigLifecycle} {transitions : List ConfigTransition}
    (h : Logged l transitions) : l.history.getLast? = transitions.getLast? := by
  rw [h.history, List.getLast?_drop]
  split
  · next hle =>
    have : transitions = [] := by
      rw [← List.length_eq_zero_iff]
      simp only [lifecycleHistoryBound] at hle
      omega
    rw [this]
    rfl
  · rfl

theorem Logged.current_ordinal {l : ConfigLifecycle} {transitions : List ConfigTransition}
    (h : Logged l transitions) : l.current.ordinal = l.ordinal := by
  rw [h.current, h.ordinal]
  cases hlast : transitions.getLast? with
  | none =>
    rw [List.getLast?_eq_none_iff.mp hlast]
    rfl
  | some last =>
    have hordinals := congrArg List.getLast? h.ordinals
    rw [List.getLast?_map, hlast, List.getLast?_range'] at hordinals
    have hne : transitions.length ≠ 0 := by
      intro hzero
      rw [List.length_eq_zero_iff.mp hzero] at hlast
      cases hlast
    rw [if_neg hne, Option.map_some, Option.some_inj] at hordinals
    rw [Option.getD_some, hordinals]
    omega

/-! ### Where a session stands -/

/-- The number of the revision observed last. -/
def seen (tracker : RevisionTracker) : Nat := (tracker.current.map (·.number)).getD 0

/-- The revision the callback is about to publish. -/
def Pc.revision? : Pc → Option ConfigRevision
  | .preparing _ revision _ | .prepared revision _ | .committed revision => some revision
  | .head | .receiving | .failing | .stopped => none

/-- The story so far, by where the reload thread stands: between two saves, in a commit, or behind a fatal
    candidate, with the shutdown requested before the loop looks at the flag again. -/
inductive Standing (pc : Pc) (tracker : RevisionTracker) (live : Watches) (shutdown : Bool) :
    List (ConfigPhase × Option Nat) → Prop
  | settled (revisions : List Nat) : pc.revision? = none → pc ≠ .failing →
      revisions.Pairwise (· < ·) → (∀ q ∈ revisions, q ≤ seen tracker) →
      (∀ r, revisions.getLast? = some r → live.revision.map (·.number) = some r) →
      Standing pc tracker live shutdown (revisions.flatMap reload)
  | committing (revisions : List Nat) (revision : ConfigRevision) : pc.revision? = some revision →
      revisions.Pairwise (· < ·) → (∀ q ∈ revisions, q < revision.number) →
      revision.number ≤ seen tracker →
      (∀ candidate, pc = .prepared revision candidate → candidate.revision = some revision) →
      (pc = .committed revision → live.revision = some revision) →
      Standing pc tracker live shutdown
        (revisions.flatMap reload ++ [(.configReloading, some revision.number)])
  | ended (revisions : List Nat) (tail : List (ConfigPhase × Option Nat)) :
      pc = .failing ∨ shutdown = true ∧ (pc = .head ∨ pc = .stopped) → revisions.Pairwise (· < ·) →
      Tail False revisions tail → tail ≠ [] →
      Standing pc tracker live shutdown (revisions.flatMap reload ++ tail)

/-- While a batch is awaited every reload has gone through. -/
theorem Standing.of_receiving {tracker : RevisionTracker} {live : Watches} {shutdown : Bool}
    {events : List (ConfigPhase × Option Nat)} (h : Standing .receiving tracker live shutdown events) :
    ∃ revisions : List Nat, events = revisions.flatMap reload ∧ revisions.Pairwise (· < ·) ∧
      (∀ q ∈ revisions, q ≤ seen tracker) ∧
      ∀ r, revisions.getLast? = some r → live.revision.map (·.number) = some r := by
  cases h with
  | settled revisions _ _ hincreasing hseen hlive => exact ⟨revisions, rfl, hincreasing, hseen, hlive⟩
  | committing revisions revision hnone => cases hnone
  | ended revisions tail hstands => simp at hstands

/-- A batch that changes nothing leads back to the head of the loop. -/
theorem Standing.back {tracker : RevisionTracker} {live : Watches} {shutdown : Bool}
    {events : List (ConfigPhase × Option Nat)} (h : Standing .receiving tracker live shutdown events) :
    Standing .head tracker live shutdown events := by
  obtain ⟨revisions, rfl, hincreasing, hseen, hlive⟩ := h.of_receiving
  exact .settled revisions rfl (by simp) hincreasing hseen hlive

/-- In a commit the last reload is open. -/
theorem Standing.of_committing {pc : Pc} {tracker : RevisionTracker} {live : Watches} {shutdown : Bool}
    {events : List (ConfigPhase × Option Nat)} {revision : ConfigRevision}
    (h : Standing pc tracker live shutdown events) (hpc : pc.revision? = some revision) :
    ∃ revisions : List Nat,
      events = revisions.flatMap reload ++ [(.configReloading, some revision.number)] ∧
      revisions.Pairwise (· < ·) ∧ (∀ q ∈ revisions, q < revision.number) ∧
      revision.number ≤ seen tracker ∧
      (∀ candidate, pc = .prepared revision candidate → candidate.revision = some revision) ∧
      (pc = .committed revision → live.revision = some revision) := by
  cases h with
  | settled revisions hnone => rw [hpc] at hnone; cases hnone
  | committing revisions open' hopen hincreasing hnew hseen hprepared hcommitted =>
    rw [hpc] at hopen
    cases hopen
    exact ⟨revisions, rfl, hincreasing, hnew, hseen, hprepared, hcommitted⟩
  | ended revisions tail hstands =>
    rcases hstands with rfl | ⟨-, rfl | rfl⟩ <;> cases hpc

/-- Behind a fatal candidate the story has ended. -/
theorem Standing.fatal {pc : Pc} {tracker tracker' : RevisionTracker} {live : Watches} {shutdown : Bool}
    {events : List (ConfigPhase × Option Nat)} (h : Standing pc tracker live shutdown events)
    (hpc : pc = .receiving ∨ pc.revision? ≠ none) (number : Option Nat) :
    Standing .failing tracker' live shutdown (events ++ [(.configInvalid, number)]) := by
  cases h with
  | settled revisions _ _ hincreasing => exact .ended revisions _ (.inl rfl) hincreasing (.invalid number) (by simp)
  | committing revisions revision _ hincreasing hnew =>
    rw [List.append_assoc]
    exact .ended revisions _ (.inl rfl) hincreasing (.failed revision.number number hnew) (by simp)
  | ended revisions tail hstands =>
    exfalso
    rcases hstands with rfl | ⟨-, rfl | rfl⟩ <;> rcases hpc with hpc | hpc
    all_goals first | cases hpc | exact hpc rfl

/-- What a session keeps. -/
structure Kept (s : State) (transitions : List ConfigTransition) : Prop where
  logged : Logged s.lifecycle transitions
  standing : Standing s.pc s.tracker s.live s.shutdown (transitions.map event)
  requests : ∀ t ∈ s.requests, t.ordinal ≤ s.lifecycle.ordinal ∧
    (t.ordinal = s.lifecycle.ordinal → t = s.lifecycle.current)

/-- A transition that is recorded while the thread gets to where it continues the story. -/
theorem Kept.record {s : State} {transitions : List ConfigTransition} (h : Kept s transitions)
    (phase : ConfigPhase) (revision : Option ConfigRevision) (reason : Option String) (now : Nat)
    {tracker : RevisionTracker} {pc : Pc} {baselines : String → Option Nat}
    (hstanding : Standing pc tracker s.live s.shutdown
      (transitions.map event ++ [(phase, revision.map (·.number))])) :
    ∃ transitions', Kept { s with lifecycle := s.lifecycle.transition phase revision reason now,
                                  tracker, pc, baselines } transitions' := by
  refine ⟨_, h.logged.transition phase revision reason now, ?_, ?_⟩
  · rw [List.map_append]
    exact hstanding
  · intro t ht
    have hle := (h.requests t ht).1
    have hnext : (s.lifecycle.transition phase revision reason now).ordinal = s.lifecycle.ordinal + 1 := rfl
    refine ⟨hle.trans (Nat.le_succ _), fun heq => ?_⟩
    change t.ordinal = (s.lifecycle.transition phase revision reason now).ordinal at heq
    rw [hnext] at heq
    omega

/-- The three ways a candidate is decided about. -/
theorem decide_cases (tracker : RevisionTracker) (content : String) :
    decide digest readers tracker content = (.noOp, tracker) ∨
      (∃ error, decide digest readers tracker content = (.fatal error, tracker)) ∨
      ∃ revision, decide digest readers tracker content = (.commit revision, ⟨some revision⟩) ∧
        revision.number = seen tracker + 1 := by
  unfold decide
  cases hvalid : readers.validateCandidate content with
  | error error => exact .inr (.inl ⟨error, rfl⟩)
  | ok config =>
    by_cases hsame : tracker.current.map (·.hash) = some (config.semanticHash digest)
    · left
      simp only [RevisionTracker.observe, if_pos hsame]
    · right
      right
      simp only [RevisionTracker.observe, if_neg hsame]
      exact ⟨_, rfl, rfl⟩

/-- The callback on a text it has read. -/
theorem consider_kept {s : State} {transitions : List ConfigTransition} (h : Kept s transitions)
    (hpc : s.pc = .receiving) (content : String) (now : Nat) (baselines : String → Option Nat) :
    ∃ transitions', Kept ({ s with baselines }.consider digest readers content now) transitions' := by
  have hstanding := h.standing
  rw [hpc] at hstanding
  unfold State.consider
  dsimp only
  rcases decide_cases digest readers s.tracker content with hd | ⟨error, hd⟩ | ⟨revision, hd, hnumber⟩
  · rw [hd]
    exact ⟨transitions, h.logged, hstanding.back, h.requests⟩
  · rw [hd]
    exact h.record .configInvalid s.live.revision _ now (hstanding.fatal (.inl rfl) _)
  · rw [hd]
    refine h.record .configReloading (some revision) none now ?_
    obtain ⟨revisions, hevents, hincreasing, hseen, -⟩ := hstanding.of_receiving
    rw [hevents]
    refine .committing revisions revision rfl hincreasing ?_ (le_refl _) ?_ ?_
    · intro q hq
      have := hseen q hq
      omega
    · rintro candidate ⟨⟩
    · rintro ⟨⟩

theorem deliver_kept (settings : Settings) {s : State} {transitions : List ConfigTransition}
    (h : Kept s transitions) (hpc : s.pc = .receiving) (batch : Batch) (now : Nat) :
    ∃ transitions', Kept (s.deliver digest readers settings batch now) transitions' := by
  have hback : ∃ transitions', Kept { s with pc := .head } transitions' := by
    have hstanding := h.standing
    rw [hpc] at hstanding
    exact ⟨transitions, h.logged, hstanding.back, h.requests⟩
  unfold State.deliver
  dsimp only
  split
  · exact hback
  · split
    · split
      · refine h.record .configInvalid s.live.revision _ now ?_
        exact h.standing.fatal (.inl hpc) _
      · exact consider_kept digest readers h hpc _ now _
    · exact hback

theorem buildWatches_revision {content : String} {revision : ConfigRevision} {candidate : Watches}
    (h : buildWatchesFromContent readers content revision = .ok candidate) :
    candidate.revision = some revision := by
  rw [buildWatchesFromContent] at h
  cases hw : readers.watches content with
  | error err => rw [hw] at h; cases h
  | ok watches =>
    rw [hw] at h
    cases h
    rfl

theorem prepare_kept (settings : Settings) {s : State} {transitions : List ConfigTransition}
    (h : Kept s transitions) {content : String} {revision : ConfigRevision} {socket : Option String}
    (hpc : s.pc = .preparing content revision socket) (prepareSocket begin : Except String Unit)
    (now : Nat) : ∃ transitions', Kept (s.prepare readers settings content revision socket prepareSocket
      begin now) transitions' := by
  have hcommitting : s.pc.revision? = some revision := by rw [hpc]; rfl
  have hfatal : ∀ reason, ∃ transitions', Kept (s.fatalReload reason now) transitions' := by
    intro reason
    refine h.record .configInvalid s.live.revision _ now (h.standing.fatal (.inr ?_) _)
    rw [hcommitting]
    simp
  unfold State.prepare
  cases hbuild : buildWatchesFromContent readers content revision with
  | error err => exact hfatal _
  | ok candidate =>
    dsimp only
    split
    · exact hfatal _
    · split
      · exact hfatal _
      · refine ⟨transitions, h.logged, ?_, h.requests⟩
        obtain ⟨revisions, hevents, hincreasing, hnew, hseen, -, -⟩ :=
          h.standing.of_committing hcommitting
        rw [hevents]
        refine .committing revisions revision rfl hincreasing hnew hseen ?_ (by rintro ⟨⟩)
        rintro candidate' ⟨⟩
        exact buildWatches_revision readers hbuild

theorem publish_kept {s : State} {transitions : List ConfigTransition} (h : Kept s transitions)
    {revision : ConfigRevision} (hpc : s.pc = .committed revision) (now : Nat) :
    ∃ transitions', Kept { s with lifecycle := s.lifecycle.reloaded revision now, pc := .head }
      transitions' := by
  obtain ⟨revisions, hevents, hincreasing, hnew, hseen, -, hlive⟩ :=
    h.standing.of_committing (by rw [hpc]; rfl)
  refine h.record .configReloaded (some revision) none now ?_
  have hreload : transitions.map event ++ [(.configReloaded, some revision.number)] =
      (revisions ++ [revision.number]).flatMap reload := by
    rw [hevents, List.flatMap_append, List.append_assoc]
    rfl
  rw [Option.map_some, hreload]
  refine .settled _ rfl (by simp) ?_ ?_ ?_
  · rw [List.pairwise_append]
    refine ⟨hincreasing, List.pairwise_singleton _ _, fun q hq r hr => ?_⟩
    rw [List.mem_singleton.mp hr]
    exact hnew q hq
  · intro q hq
    rcases List.mem_append.mp hq with hq | hq
    · exact (Nat.le_of_lt (hnew q hq)).trans hseen
    · rw [List.mem_singleton.mp hq]
      exact hseen
  · intro r hr
    rw [List.getLast?_append, List.getLast?_singleton, Option.some_or, Option.some_inj] at hr
    rw [hlive hpc, ← hr]
    rfl

/-- Step lemma: every move of the session keeps it. -/
theorem step_kept (settings : Settings) {s s' : State} {move : Move} {transitions : List ConfigTransition}
    (h : Kept s transitions) (hstep : s.step digest readers settings move = some s') :
    ∃ transitions', Kept s' transitions' := by
  have hstanding := h.standing
  cases move with
  | check =>
    rw [State.step] at hstep
    split at hstep
    · next hpc =>
      cases hstep
      refine ⟨transitions, h.logged, ?_, h.requests⟩
      rw [hpc] at hstanding
      generalize hevents : transitions.map event = events at hstanding ⊢
      cases hstanding with
      | settled revisions _ _ hincreasing hseen hlive =>
        refine .settled revisions ?_ ?_ hincreasing hseen hlive <;> dsimp only <;> split <;> simp [Pc.revision?]
      | committing revisions revision hnone => cases hnone
      | ended revisions tail hstands hincreasing htail hne =>
        obtain ⟨hshutdown, -⟩ := hstands.resolve_left (by simp)
        exact .ended revisions tail (.inr ⟨hshutdown, .inr (if_pos hshutdown)⟩) hincreasing htail hne
    · cases hstep
  | timeout =>
    rw [State.step] at hstep
    split at hstep
    · next hpc =>
      cases hstep
      rw [hpc] at hstanding
      exact ⟨transitions, h.logged, hstanding.back, h.requests⟩
    · cases hstep
  | deliver batch now =>
    rw [State.step] at hstep
    split at hstep
    · next hpc =>
      cases hstep
      exact deliver_kept digest readers settings h hpc batch now
    · cases hstep
  | prepare prepareSocket begin now =>
    rw [State.step] at hstep
    split at hstep
    · next content revision socket hpc =>
      cases hstep
      exact prepare_kept readers settings h hpc prepareSocket begin now
    · cases hstep
  | commit =>
    rw [State.step] at hstep
    split at hstep
    · next revision candidate hpc =>
      cases hstep
      refine ⟨transitions, h.logged, ?_, h.requests⟩
      obtain ⟨revisions, hevents, hincreasing, hnew, hseen, hprepared, -⟩ :=
        hstanding.of_committing (by rw [hpc]; rfl)
      rw [hevents]
      refine .committing revisions revision rfl hincreasing hnew hseen (by rintro candidate' ⟨⟩) ?_
      intro _
      exact hprepared candidate hpc
    · cases hstep
  | publish now =>
    rw [State.step] at hstep
    split at hstep
    · next revision hpc =>
      cases hstep
      exact publish_kept h hpc now
    · cases hstep
  | request =>
    rw [State.step] at hstep
    split at hstep
    · next hpc =>
      cases hstep
      refine ⟨transitions, h.logged, ?_, h.requests⟩
      rw [hpc] at hstanding
      generalize hevents : transitions.map event = events at hstanding ⊢
      cases hstanding with
      | settled revisions _ hnot => exact absurd rfl hnot
      | committing revisions revision hnone => cases hnone
      | ended revisions tail _ hincreasing htail hne =>
        exact .ended revisions tail (.inr ⟨rfl, .inl rfl⟩) hincreasing htail hne
    · cases hstep
  | signal =>
    cases hstep
    refine ⟨transitions, h.logged, ?_, h.requests⟩
    generalize hevents : transitions.map event = events at hstanding ⊢
    cases hstanding with
    | settled revisions hnone hnot hincreasing hseen hlive =>
      exact .settled revisions hnone hnot hincreasing hseen hlive
    | committing revisions revision hpc hincreasing hnew hseen hprepared hcommitted =>
      exact .committing revisions revision hpc hincreasing hnew hseen hprepared hcommitted
    | ended revisions tail hstands hincreasing htail hne =>
      exact .ended revisions tail (hstands.imp_right fun h => ⟨rfl, h.2⟩) hincreasing htail hne
  | readCurrent =>
    cases hstep
    refine ⟨transitions, h.logged, hstanding, fun t ht => ?_⟩
    rcases List.mem_append.mp ht with ht | ht
    · exact h.requests t ht
    · rw [List.mem_singleton.mp ht]
      exact ⟨h.logged.current_ordinal.le, fun _ => rfl⟩
  | readHistory i =>
    rw [State.step] at hstep
    split at hstep
    · cases hstep
    · next current hcurrent =>
      cases hstep
      exact ⟨transitions, h.logged, hstanding, fun t ht => h.requests t (List.mem_of_mem_eraseIdx ht)⟩

theorem start_kept (watches : Watches) (baselines : String → Option Nat) :
    Kept (.start watches baselines) [] := by
  refine ⟨⟨rfl, rfl, rfl, rfl⟩, ?_, fun t ht => by cases ht⟩
  exact .settled [] rfl (by simp [State.start]) List.Pairwise.nil (fun q hq => by cases hq)
    fun r hr => by cases hr

/-! ### What clients see -/

theorem Standing.story {pc : Pc} {tracker : RevisionTracker} {live : Watches} {shutdown : Bool}
    {transitions : List ConfigTransition}
    (h : Standing pc tracker live shutdown (transitions.map event)) :
    Story (pc.committing = true) transitions := by
  generalize hevents : transitions.map event = events at h
  cases h with
  | settled revisions _ _ hincreasing =>
    exact ⟨revisions, [], hincreasing, .settled, by rw [hevents, List.append_nil]⟩
  | committing revisions revision hpc hincreasing hnew =>
    refine ⟨revisions, _, hincreasing, .reloading revision.number ?_ hnew, hevents⟩
    cases pc <;> first | rfl | cases hpc
  | ended revisions tail _ hincreasing htail =>
    refine ⟨revisions, tail, hincreasing, ?_, hevents⟩
    cases htail with
    | settled => exact .settled
    | reloading r hfalse => exact hfalse.elim
    | invalid number => exact .invalid number
    | failed r number hnew => exact .failed r number hnew

theorem getLast?_reloads (revisions : List Nat) :
    (revisions.flatMap reload).getLast? = revisions.getLast?.map fun r => (.configReloaded, some r) := by
  induction revisions using List.reverseRecOn with
  | nil => rfl
  | append_singleton revisions r _ =>
    rw [List.flatMap_append, List.getLast?_append, List.getLast?_append]
    rfl

/-- Behind a reload that has gone through its revision is live. -/
theorem Standing.live_eq {pc : Pc} {tracker : RevisionTracker} {live : Watches} {shutdown : Bool}
    {events : List (ConfigPhase × Option Nat)} {number : Option Nat}
    (h : Standing pc tracker live shutdown events)
    (hlast : events.getLast? = some (.configReloaded, number)) :
    number = live.revision.map (·.number) := by
  cases h with
  | settled revisions _ _ _ _ hlive =>
    rw [getLast?_reloads] at hlast
    obtain ⟨r, hr, heq⟩ := Option.map_eq_some_iff.mp hlast
    cases heq
    exact (hlive r hr).symm
  | committing revisions revision => simp at hlast
  | ended revisions tail _ _ htail hne =>
    cases htail with
    | settled => exact absurd rfl hne
    | reloading r hfalse => exact hfalse.elim
    | invalid number => simp at hlast
    | failed r number => simp at hlast

theorem deliver_quiet (settings : Settings) {s : State} {batch : Batch}
    (h : s.NoOpSave digest readers settings batch) (now : Nat) :
    (s.deliver digest readers settings batch now).lifecycle = s.lifecycle := by
  obtain ⟨content, hread, hnoOp⟩ := h
  unfold State.deliver
  dsimp only
  split
  · rfl
  · split
    · rw [hread]
      unfold State.consider
      rcases hd : decide digest readers s.tracker content with ⟨decision, tracker⟩
      rw [hd] at hnoOp
      cases hnoOp
      dsimp only
      rw [hd]
    · rfl

/-- But for the answers, everything is kept by every session. -/
theorem Kept.sound (settings : Settings) {s : State} {transitions : List ConfigTransition}
    (h : Kept s transitions) (hanswers : ∀ answer ∈ s.answers, Coherent answer) :
    Sound digest readers settings s := by
  refine ⟨⟨transitions, h.logged.history_suffix, h.standing.story, h.logged.ordinals⟩,
    h.logged.bounded, fun hphase => ?_, fun batch now hno => deliver_quiet digest readers settings hno now,
    hanswers⟩
  have hcurrent := h.logged.current
  cases hlast : transitions.getLast? with
  | none =>
    rw [hcurrent, hlast] at hphase
    cases hphase
  | some last =>
    rw [hlast, Option.getD_some] at hcurrent
    rw [hcurrent] at hphase ⊢
    refine h.standing.live_eq ?_
    rw [List.getLast?_map, hlast, Option.map_some, event, hphase]

/-- An answer is coherent exactly if nothing was recorded between its two reads. -/
theorem Kept.coherent_iff {s : State} {transitions : List ConfigTransition} (h : Kept s transitions)
    {current : ConfigTransition} (hcurrent : current ∈ s.requests) :
    Coherent (current, s.lifecycle.history) ↔ current.ordinal = s.lifecycle.ordinal := by
  obtain ⟨-, hsame⟩ := h.requests current hcurrent
  have hnow := h.logged.current
  rw [Coherent, h.logged.history_last]
  cases hlast : transitions.getLast? with
  | none =>
    rw [hlast] at hnow
    have hempty : transitions = [] := List.getLast?_eq_none_iff.mp hlast
    have hzero : s.lifecycle.ordinal = 0 := by rw [h.logged.ordinal, hempty]; rfl
    have hle := (h.requests current hcurrent).1
    have heq : current.ordinal = s.lifecycle.ordinal := by omega
    refine iff_of_true ?_ heq
    rw [hsame heq, hnow]
    rfl
  | some last =>
    rw [hlast, Option.getD_some] at hnow
    constructor
    · intro heq
      change current = last at heq
      rw [heq, ← hnow]
      exact h.logged.current_ordinal
    · intro heq
      rw [hsame heq, hnow]

theorem consider_answers (s : State) (content : String) (now : Nat) :
    (s.consider digest readers content now).answers = s.answers := by
  unfold State.consider
  dsimp only
  split <;> rfl

theorem deliver_answers (settings : Settings) (s : State) (batch : Batch) (now : Nat) :
    (s.deliver digest readers settings batch now).answers = s.answers := by
  unfold State.deliver
  dsimp only
  split
  · rfl
  · split
    · split
      · rfl
      · exact consider_answers digest readers _ _ now
    · rfl

theorem prepare_answers (settings : Settings) (s : State) (content : String) (revision : ConfigRevision)
    (socket : Option String) (prepareSocket begin : Except String Unit) (now : Nat) :
    (s.prepare readers settings content revision socket prepareSocket begin now).answers = s.answers := by
  unfold State.prepare
  split
  · rfl
  · dsimp only
    split
    · rfl
    · split <;> rfl

/-- Only the second read of a request answers it. -/
theorem step_answers (settings : Settings) {s s' : State} {move : Move}
    (hmove : ∀ i, move ≠ .readHistory i) (hstep : s.step digest readers settings move = some s') :
    s'.answers = s.answers := by
  cases move with
  | readHistory i => exact absurd rfl (hmove i)
  | signal | readCurrent => cases hstep; rfl
  | deliver batch now =>
    rw [State.step] at hstep
    split at hstep <;> cases hstep
    exact deliver_answers digest readers settings s batch now
  | prepare prepareSocket begin now =>
    rw [State.step] at hstep
    split at hstep <;> cases hstep
    exact prepare_answers readers settings s _ _ _ prepareSocket begin now
  | check | timeout | commit | publish | request =>
    rw [State.step] at hstep
    split at hstep <;> cases hstep
    rfl

/-- From a good state the good steps are those that do not come between two reads. -/
theorem step_sound_iff (settings : Settings) {s s' : State} {move : Move}
    {transitions : List ConfigTransition} (h : Kept s transitions) (hsound : Sound digest readers settings s)
    (hstep : s.step digest readers settings move = some s') :
    Sound digest readers settings s' ↔ Undisturbed s move := by
  obtain ⟨transitions', h'⟩ := step_kept digest readers settings h hstep
  have hsame : s'.answers = s.answers → Sound digest readers settings s' :=
    fun heq => h'.sound digest readers settings (by rw [heq]; exact hsound.answers)
  cases move with
  | readHistory i =>
    rw [State.step] at hstep
    split at hstep
    · cases hstep
    · next current hcurrent =>
      cases hstep
      have hiff := h.coherent_iff (List.mem_of_getElem? hcurrent)
      constructor
      · intro hgood current' hcurrent'
        rw [hcurrent] at hcurrent'
        cases hcurrent'
        exact hiff.mp (hgood.answers _ (List.mem_append_right _ (List.mem_singleton.mpr rfl)))
      · intro hcalm
        refine h'.sound digest readers settings fun answer hanswer => ?_
        rcases List.mem_append.mp hanswer with hanswer | hanswer
        · exact hsound.answers answer hanswer
        · rw [List.mem_singleton.mp hanswer]
          exact hiff.mpr (hcalm current hcurrent)
  | _ =>
    exact iff_of_true (hsame (step_answers digest readers settings (by simp) hstep)) trivial

/-- Over every session the lifecycle keeps its promises exactly as long as no transition comes between the
    two reads of a `config` request. -/
theorem lifecycle_protocol_iff (settings : Settings) (watches : Watches) (baselines : String → Option Nat)
    (moves : List Move) {s : State}
    (hrun : Machine.after (State.step digest readers settings) (.start watches baselines) moves = some s) :
    (∀ k t, Machine.after (State.step digest readers settings) (.start watches baselines)
        (moves.take k) = some t → Sound digest readers settings t) ↔
      Machine.Meets (State.step digest readers settings) Undisturbed (.start watches baselines) moves := by
  have hstart := start_kept watches baselines
  refine Machine.always_iff_meets (State.step digest readers settings)
    (fun s move s' (h : ∃ transitions, Kept s transitions) hstep => ?_)
    (fun s move s' h hsound hstep => ?_) moves _ s ⟨[], hstart⟩
    (hstart.sound digest readers settings fun answer hanswer => by cases hanswer) hrun
  · obtain ⟨transitions, h⟩ := h
    exact step_kept digest readers settings h hstep
  · obtain ⟨transitions, h⟩ := h
    exact step_sound_iff digest readers settings h hsound hstep

/-! ### One save -/

/-- A watcher with one rule and the revision 1. -/
def watcherOne : Watches :=
  { Watches.withRootAndConcurrency [{ name := "build", commands := ["make"], watchPatterns := ["src/**"] }]
      "/w" 1 isAbsolute_w Nat.one_pos with
    revision := some ⟨1, "first"⟩ }

/-- Every text is valid, and the same configuration. -/
def agreeable : Readers isAsciiShown where
  validateCandidate _ := .ok cleanFirst
  watches _ := .ok watcherOne
  controlSocket _ := .ok none

def onePath : Settings := ⟨["/w/.watch.yaml"], none⟩

/-- The configuration file was saved. -/
def oneSave : Batch where
  events := [⟨"/w/.watch.yaml", false⟩]
  canonicalize _ := none
  modified _ := none
  readToString _ := .ok "jobs:"

/-- A save that is committed, with a request before and one behind it. -/
def quietMoves : List Move :=
  [.readCurrent, .readHistory 0, .check, .deliver oneSave 10, .prepare (.ok ()) (.ok ()) 10, .commit,
    .publish 11, .readCurrent, .readHistory 0]

theorem lifecycle_protocol_at_save : ∃ s,
    Machine.after (State.step (fun _ => "second") agreeable onePath)
      (.start watcherOne fun _ => none) quietMoves = some s ∧
    (∀ k t, Machine.after (State.step (fun _ => "second") agreeable onePath)
      (.start watcherOne fun _ => none) (quietMoves.take k) = some t →
        Sound (fun _ => "second") agreeable onePath t) ∧
    s.answers.map (fun answer => (answer.1.phase, answer.2.map event)) =
      [(.idle, []), (.configReloaded, [(.configReloading, some 2), (.configReloaded, some 2)])] := by
  have hrun : ∃ s, Machine.after (State.step (fun _ => "second") agreeable onePath)
      (.start watcherOne fun _ => none) quietMoves = some s ∧
      s.answers.map (fun answer => (answer.1.phase, answer.2.map event)) =
        [(.idle, []), (.configReloaded, [(.configReloading, some 2), (.configReloaded, some 2)])] :=
    ⟨_, rfl, rfl⟩
  obtain ⟨s, hrun, hanswers⟩ := hrun
  refine ⟨s, hrun, ?_, hanswers⟩
  refine (lifecycle_protocol_iff (fun _ => "second") agreeable onePath watcherOne (fun _ => none)
    quietMoves hrun).mpr ?_
  decide +kernel

/-- A request that reads the current transition, and the history only when a save has been accepted. -/
def racingMoves : List Move := [.readCurrent, .check, .deliver oneSave 10, .readHistory 0]

/-- A request is answered with `idle` and a history that is not empty. -/
theorem config_answer_torn : ∃ s,
    Machine.after (State.step (fun _ => "second") agreeable onePath)
      (.start watcherOne fun _ => none) racingMoves = some s ∧
    s.answers.map (fun answer => (answer.1.phase, answer.2.map event)) =
      [(.idle, [(.configReloading, some 2)])] ∧
    ¬Sound (fun _ => "second") agreeable onePath s := by
  have hrun : ∃ s, Machine.after (State.step (fun _ => "second") agreeable onePath)
      (.start watcherOne fun _ => none) racingMoves = some s ∧
      s.answers = [({}, [⟨.configReloading, some 2, some "second", none, 1, 10⟩])] := ⟨_, rfl, rfl⟩
  obtain ⟨s, hrun, hanswers⟩ := hrun
  refine ⟨s, hrun, by rw [hanswers]; rfl, fun hsound => ?_⟩
  have hcoherent := hsound.answers _ (by rw [hanswers]; exact List.mem_singleton.mpr rfl)
  cases hcoherent

end ReloadSession

end Funzzy
