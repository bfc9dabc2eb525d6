import Mathlib.Data.List.Chain
import Funzzy.Lib.Machine
import Funzzy.Lib.Path
import Funzzy.Reload.Overrides

/-! The control socket across reloads (`reload_session.rs`, `reload_coordinator.rs`, `control.rs`).

    A candidate's socket is bound before its configuration is committed and the old one is retired after.
    Whether there is something to bind is decided against the socket of the startup, which the reload
    thread keeps; the socket that is live is kept by the strategy that owns the server. The two agree
    until the first move. Sockets are compared as paths, by their components. -/

namespace Funzzy

open UnixPath

namespace SocketSwapper

/-! ### Binding -/

/-- What the host answers while a socket is being bound. -/
structure Reply where
  createDirError : Option String := none
  pathExists : Bool := false
  connects : Bool := false
  removeError : Option String := none
  bindError : Option String := none
  deriving DecidableEq

def failing : Option String → Except String Unit
  | some error => .error error
  | none => .ok ()

/-- `prepare_socket_path`: a path somebody answers on is in use. -/
def prepareSocketPath (path : String) (reply : Reply) : Except String Unit := do
  failing reply.createDirError
  if !reply.pathExists then
    return ()
  if reply.connects then
    throw ("control socket is already in use: " ++ path)
  failing reply.removeError

/-- `ControlServer::bind` -/
def bindServer (path : String) (reply : Reply) : Except String Unit := do
  prepareSocketPath path reply
  failing reply.bindError

/-! ### The handoff -/

/-- The server that is live, the one parked for retirement, and the coordinator's note of a swap. -/
structure Handoff where
  controlServer : Option String
  pendingOldServer : Option String := none
  socketPending : Bool := false
  pendingSocketPath : Option String := none
  deriving DecidableEq

def Handoff.prepareSocket (s : Handoff) (path : String) (reply : Reply) : Except String Handoff := do
  bindServer path reply
  return {
    controlServer := some path
    pendingOldServer := s.controlServer
    socketPending := true
    pendingSocketPath := some path }

def Handoff.retireSocket (s : Handoff) : Handoff :=
  if s.socketPending then
    { s with pendingOldServer := none, socketPending := false, pendingSocketPath := none }
  else s

/-- A reload that reaches the commit: the candidate's socket and what the host answers. -/
structure Attempt where
  candidate : Option String
  reply : Reply := {}
  beginError : Option String := none
  deriving DecidableEq

/-- The path `prepare_socket` is called with, if it is called. `startup` is `reload_current_socket`. -/
def prepareCall (startup : Option String) (r : Attempt) : Option String :=
  if socketChanged startup r.candidate then r.candidate else none

/-- The socket's part of one reload: bind, commit, retire; an error is fatal. -/
def reload (startup : Option String) (s : Handoff) (r : Attempt) : Except String Handoff := do
  let prepared ← match prepareCall startup r with
    | some path => (s.prepareSocket path r.reply).mapError ("control socket rebind failed: " ++ ·)
    | none => .ok s
  match r.beginError with
  | some error => throw ("reload prepare failed: " ++ error)
  | none => return prepared.retireSocket

/-- A session goes on after a reload that commits. -/
def step (startup : Option String) (s : Handoff) (r : Attempt) : Option Handoff :=
  (reload startup s r).toOption

def init (startup : Option String) : Handoff := { controlServer := startup }

/-! ### One reload -/

/-- The live socket differs from the one the candidate declares. -/
def Moves (s : Handoff) (r : Attempt) : Prop :=
  ∃ path, r.candidate = some path ∧ s.controlServer.map key ≠ some (key path)

/-- The socket is prepared exactly if the candidate's differs from the live one. -/
def Fitting (startup : Option String) (s : Handoff) (r : Attempt) : Prop :=
  (prepareCall startup r).isSome ↔ Moves s r

theorem prepareCall_some (startup : Option String) {r : Attempt} {path : String}
    (h : r.candidate = some path) :
    prepareCall startup r = if startup.map key = some (key path) then none else some path := by
  rw [prepareCall, h]
  cases startup with
  | none => rfl
  | some current =>
    by_cases hkey : key current = key path
    · simp [socketChanged, hkey]
    · simp [socketChanged, hkey]

theorem prepareCall_none (startup : Option String) {r : Attempt} (h : r.candidate = none) :
    prepareCall startup r = none := by
  rw [prepareCall, h]
  split <;> rfl

/-- Preparing replaces the live server, and nothing else does. -/
theorem step_controlServer {startup : Option String} {s s' : Handoff} {r : Attempt}
    (h : step startup s r = some s') :
    s'.controlServer = (prepareCall startup r).or s.controlServer := by
  have hretire : ∀ t : Handoff, t.retireSocket.controlServer = t.controlServer := by
    intro t
    rw [Handoff.retireSocket]
    split <;> rfl
  rw [step, reload] at h
  cases hcall : prepareCall startup r with
  | none =>
    rw [hcall] at h
    cases hbegin : r.beginError with
    | none =>
      rw [hbegin] at h
      cases h
      exact hretire s
    | some error =>
      rw [hbegin] at h
      cases h
  | some path =>
    rw [hcall] at h
    cases hbind : bindServer path r.reply with
    | error error =>
      simp only [Handoff.prepareSocket, hbind] at h
      cases h
    | ok u =>
      simp only [Handoff.prepareSocket, hbind] at h
      cases hbegin : r.beginError with
      | none =>
        rw [hbegin] at h
        cases h
        exact hretire _
      | some error =>
        rw [hbegin] at h
        cases h

/-- Binding a path somebody answers on ends the session, so a candidate that is found to move to the live
    socket does. -/
theorem step_in_use {startup : Option String} {s : Handoff} {r : Attempt} {path : String}
    (hcall : prepareCall startup r = some path) (hexists : r.reply.pathExists = true)
    (hconnects : r.reply.connects = true) : step startup s r = none := by
  have hbind : ∃ error, bindServer path r.reply = .error error := by
    rw [bindServer, prepareSocketPath, hexists, hconnects]
    cases r.reply.createDirError with
    | some error => exact ⟨error, rfl⟩
    | none => exact ⟨_, rfl⟩
  obtain ⟨error, hbind⟩ := hbind
  simp only [step, reload, hcall, Handoff.prepareSocket, hbind]
  rfl

/-- The live socket moves as the session of the command line's choices has it. -/
theorem step_socket_eq {choices : Choices} {host : Host} {c₀ c : ConfigContent} {w₀ w : Watches}
    {revision : ConfigRevision} {s s' : Handoff} {r : Attempt} (hcandidate : r.candidate = c.socket)
    (h : step (choices.startupSocket c₀) s r = some s') :
    s'.controlServer = (choices.reload host c₀ w₀ ⟨w, s.controlServer⟩ (revision, c)).socket := by
  rw [step_controlServer h]
  cases hsocket : c.socket with
  | none =>
    rw [prepareCall_none _ (hcandidate.trans hsocket)]
    simp [Choices.reload, hsocket]
  | some path =>
    rw [prepareCall, hcandidate, hsocket]
    simp only [Choices.reload, hsocket]
    split <;> rfl

/-! ### Sequences of reloads -/

/-- The sockets the candidates declare, as they are compared. -/
def declared (rs : List Attempt) : List (List Component) :=
  rs.filterMap fun r => r.candidate.map key

/-- After the first move away from the startup's socket, no candidate goes back to it, and none declares
    the socket the one before it declared. -/
def Onward (start : Option (List Component)) (keys : List (List Component)) : Prop :=
  let moved := keys.dropWhile fun k => start = some k
  (∀ k ∈ moved, start ≠ some k) ∧ moved.IsChain (· ≠ ·)

instance (start : Option (List Component)) (keys : List (List Component)) :
    Decidable (Onward start keys) :=
  inferInstanceAs (Decidable (_ ∧ _))

/-- Reloads fit from a live socket on: what the run looks at in each. -/
def FitFrom (start : Option (List Component)) :
    Option (List Component) → List (List Component) → Prop
  | _, [] => True
  | live, k :: keys => (start ≠ some k ↔ live ≠ some k)
      ∧ FitFrom start (if start = some k then live else some k) keys

/-- Away from the startup's socket, each candidate must be new to both the startup and the live one. -/
theorem fitFrom_away {start : Option (List Component)} (keys : List (List Component)) :
    ∀ live, start ≠ some live →
      (FitFrom start (some live) keys ↔ (∀ k ∈ keys, start ≠ some k) ∧ (live :: keys).IsChain (· ≠ ·)) := by
  induction keys with
  | nil =>
    intro live _
    simp [FitFrom]
  | cons k keys ih =>
    intro live hlive
    rw [FitFrom, List.isChain_cons_cons, List.forall_mem_cons]
    by_cases hstart : start = some k
    · -- back to the startup's socket, which is not live
      have hne : some live ≠ some k := fun h => hlive (hstart.trans h.symm)
      constructor
      · rintro ⟨hfits, -⟩
        exact absurd (hfits.mpr hne) (not_not.mpr hstart)
      · rintro ⟨⟨hnot, -⟩, -⟩
        exact absurd hstart hnot
    · rw [if_neg hstart, ih k hstart]
      simp only [ne_eq, hstart, not_false_eq_true, true_iff, true_and, Option.some.injEq]
      tauto

/-- At the startup's socket, candidates that declare it change nothing. -/
theorem fitFrom_start {start : Option (List Component)} (keys : List (List Component)) :
    FitFrom start start keys ↔ Onward start keys := by
  induction keys with
  | nil => simp [FitFrom, Onward]
  | cons k keys ih =>
    rw [FitFrom, Onward, List.dropWhile_cons]
    by_cases hstart : start = some k
    · rw [if_pos hstart, if_pos (decide_eq_true hstart), ih]
      simp only [iff_self, true_and]
      rfl
    · rw [if_neg hstart, if_neg (fun h => hstart (of_decide_eq_true h)), fitFrom_away keys k hstart,
        List.forall_mem_cons]
      simp [hstart]

/-- Every reload of a run fits exactly if the declared sockets do. -/
theorem meets_iff_fitFrom (startup : Option String) (last : Attempt) (commits : List Attempt) :
    ∀ {s s' : Handoff}, Machine.after (step startup) s commits = some s' →
      (Machine.Meets (step startup) (Fitting startup) s (commits ++ [last])
        ↔ FitFrom (startup.map key) (s.controlServer.map key) (declared (commits ++ [last]))) := by
  have hone : ∀ (s : Handoff) (r : Attempt), Fitting startup s r
      ↔ ∀ path, r.candidate = some path →
        (startup.map key ≠ some (key path) ↔ s.controlServer.map key ≠ some (key path)) := by
    intro s r
    rw [Fitting, Moves]
    cases hcandidate : r.candidate with
    | none =>
      rw [prepareCall_none _ hcandidate]
      simp
    | some path =>
      rw [prepareCall_some _ hcandidate]
      generalize startup.map key = start, s.controlServer.map key = live
      by_cases hstart : start = some (key path) <;> simp [hstart]
  induction commits with
  | nil =>
    intro s s' _
    rw [List.nil_append, Machine.Meets, hone]
    cases hcandidate : last.candidate with
    | none => simp [declared, hcandidate, FitFrom, Machine.Meets]
    | some path => simp [declared, hcandidate, FitFrom, Machine.Meets]
  | cons r commits ih =>
    intro s s' hafter
    obtain ⟨t, hstep, hrest⟩ := Option.bind_eq_some_iff.mp hafter
    have hserver := step_controlServer hstep
    rw [List.cons_append, Machine.Meets, hone]
    have hnext : (∀ t', step startup s r = some t' →
          Machine.Meets (step startup) (Fitting startup) t' (commits ++ [last]))
        ↔ FitFrom (startup.map key) (t.controlServer.map key) (declared (commits ++ [last])) := by
      rw [← ih hrest]
      constructor
      · exact fun h => h t hstep
      · intro h t' ht'
        rw [hstep] at ht'
        cases ht'
        exact h
    rw [hnext, hserver]
    cases hcandidate : r.candidate with
    | none =>
      rw [prepareCall_none _ hcandidate]
      simp [declared, hcandidate]
    | some path =>
      rw [prepareCall_some _ hcandidate]
      have hcons : declared (r :: (commits ++ [last])) = key path :: declared (commits ++ [last]) := by
        simp [declared, hcandidate]
      rw [hcons, FitFrom]
      by_cases hstart : startup.map key = some (key path)
      · rw [if_pos hstart, if_pos hstart, Option.none_or]
        simp only [Option.some.injEq, forall_eq']
      · rw [if_neg hstart, if_neg hstart, Option.some_or, Option.map_some]
        simp only [Option.some.injEq, forall_eq']

/-- Through committed reloads and one more, the socket is prepared exactly when it moves, each time, if
    and only if the declared sockets go on from the startup's one without returning to it or repeating
    the last. -/
theorem socket_handoff_iff (startup : Option String) (commits : List Attempt) (last : Attempt)
    (s : Handoff) (hcommitted : Machine.after (step startup) (init startup) commits = some s) :
    Machine.Meets (step startup) (Fitting startup) (init startup) (commits ++ [last])
      ↔ Onward (startup.map key) (declared (commits ++ [last])) := by
  rw [meets_iff_fitFrom startup last commits hcommitted]
  exact fitFrom_start _

theorem socket_handoff_two_moves :
    Machine.after (step (some "a.sock")) (init (some "a.sock")) [{ candidate := some "b.sock" }]
        = some { controlServer := some "b.sock" }
      ∧ Machine.Meets (step (some "a.sock")) (Fitting (some "a.sock")) (init (some "a.sock"))
          ([{ candidate := some "b.sock" }] ++ [{ candidate := some "c.sock" }]) := by
  have hcommitted : Machine.after (step (some "a.sock")) (init (some "a.sock"))
      [{ candidate := some "b.sock" }] = some { controlServer := some "b.sock" } := by
    decide
  exact ⟨hcommitted, (socket_handoff_iff _ _ _ _ hcommitted).mpr (by decide)⟩

/-- After a move from `a` to `b`, a candidate that goes back to `a` is not bound, and one that stays at
    `b` is. -/
theorem socket_returning_not_prepared :
    Machine.after (step (some "a.sock")) (init (some "a.sock")) [{ candidate := some "b.sock" }]
        = some { controlServer := some "b.sock" }
      ∧ ¬Fitting (some "a.sock") { controlServer := some "b.sock" } { candidate := some "a.sock" }
      ∧ ¬Fitting (some "a.sock") { controlServer := some "b.sock" } { candidate := some "b.sock" } := by
  refine ⟨by decide, fun hfits => ?_, fun hfits => ?_⟩
  · have hprepared := hfits.mpr ⟨"a.sock", rfl, by decide⟩
    revert hprepared
    decide
  · obtain ⟨path, hpath, hmoves⟩ := hfits.mp (by decide)
    cases hpath
    exact hmoves rfl

end SocketSwapper

end Funzzy
