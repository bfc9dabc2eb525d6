import Funzzy.Subscription
import Funzzy.Lib.Machine

/-! The roots of the watch backend through a reload (`reload_coordinator.rs`, `reload.rs`, `watcher.rs`).

    The reload thread and the backend's loop are two threads with a channel of root swaps between them.
    `begin` computes the roots of the committed configuration and of the candidate and sends the union
    when the candidate adds a root; `retire` computes the committed configuration's roots again and sends
    them when the candidate dropped one. Both wait for the backend to acknowledge. The backend takes a
    swap, makes the registrations it sees fit and acknowledges.

    The backend's watcher is no code of this repository: it is a parameter, with what its documentation
    says of its calls. A reload step carries the filesystem it sees, and a backend step what each call to
    the watcher came to. The polling backend is a watcher that keeps a list, all of whose calls succeed. -/

namespace Funzzy

open UnixPath

namespace RootSwap

/-- A directory the backend is asked to watch. -/
abbrev Root := List Component

/-- The watcher of a backend: what it keeps between its calls, the roots registered in it, and its calls
    with what they come to. -/
structure Watcher (W : Type) where
  init : W
  registered : W → List Root
  watch : W → Root → Bool → W
  unwatch : W → Root → Bool → W

/-- What is documented of the calls that succeed. A root is watched with all that is below it, so what
    becomes of the roots above or below one that is retired is left open. -/
structure Watcher.Documented {W : Type} (w : Watcher W) : Prop where
  init : w.registered w.init = []
  watch : ∀ s root other, other ∈ w.registered (w.watch s root true) ↔ other = root ∨ other ∈ w.registered s
  unwatch : ∀ s root, root ∉ w.registered (w.unwatch s root true)
  unwatch_only : ∀ s root other, other ∈ w.registered (w.unwatch s root true) → other ∈ w.registered s
  unwatch_apart : ∀ s root other, ¬root <+: other → ¬other <+: root → other ∈ w.registered s →
    other ∈ w.registered (w.unwatch s root true)

/-- `RootDiff` -/
structure RootDiff where
  added : List Root
  removed : List Root
  deriving DecidableEq

/-- `root_diff` -/
def rootDiff (oldRoots newRoots : List Root) : RootDiff where
  added := newRoots.filter fun root => !oldRoots.contains root
  removed := oldRoots.filter fun root => !newRoots.contains root

/-- The roots of a `ReloadTransaction`. `roots` is history: what `begin` computed for the candidate. -/
structure ReloadTransaction where
  candidate : Watches
  addedRoots : List Root
  removedRoots : List Root
  roots : List Root
  deriving DecidableEq

/-- The coordinator's publisher: not installed, installed without a channel, or connected. -/
inductive Publisher where | missing | disabled | live
  deriving DecidableEq

/-- Where the reload thread stands: before the session watches, between attempts, in `begin` waiting for
    the backend (with what was the case before), behind `begin`, behind `commit`, or in `retire` waiting
    for the backend. -/
inductive ReloadPc where
  | starting
  | idle
  | beginning (transaction : ReloadTransaction) (before : Watches × List Root)
  | begun (transaction : ReloadTransaction)
  | committed (transaction : ReloadTransaction)
  | retiring (transaction : ReloadTransaction)
  deriving DecidableEq

/-- The committed configuration, the backend's watcher, the roots the backend's loop believes it watches,
    the swaps on their way, and whether the swap that is waited for has been acknowledged.

    History: the roots computed for the committed configuration at its commit, the roots of the swap
    acknowledged last, the roots of the candidate retired last, and what was the case before a `begin`
    that failed; the last two until the next attempt. -/
structure Session (W : Type) where
  shared : Watches
  watcher : W
  currentRoots : List Root := []
  swaps : List (List Root) := []
  acked : Bool := false
  pc : ReloadPc := .starting
  committedRoots : List Root := []
  acknowledged : Option (List Root) := none
  retired : Option (List Root) := none
  failedFrom : Option (Watches × List Root) := none
  deriving DecidableEq

inductive Move where
  /-- The session registers its roots and starts to watch. -/
  | start (fs : FileSystem) (watched : Root → Bool)
  /-- An attempt begins; `closed` says that the backend's loop has gone. -/
  | begin (fsOld fsNew : FileSystem) (candidate : Watches) (closed : Bool)
  /-- The backend applies the next swap. -/
  | applySwap (watched unwatched : Root → Bool)
  /-- The reload thread gets its acknowledgement. -/
  | acknowledge
  /-- The reload thread has waited long enough. -/
  | timeout
  | commit
  | retire (fs : FileSystem) (closed : Bool)

section Calls

variable {W : Type} (w : Watcher W)

/-- The roots are watched one after the other; what fails is passed over. -/
def watchAll (watched : Root → Bool) (s : W) (roots : List Root) : W :=
  roots.foldl (fun s root => w.watch s root (watched root)) s

/-- `apply_root_swap`: what fails is passed over. -/
def applyRootSwap (watched unwatched : Root → Bool) (s : W) (currentRoots roots : List Root) : W :=
  let obsolete := currentRoots.filter fun root => !roots.contains root
  let retired := obsolete.foldl (fun s root => w.unwatch s root (unwatched root)) s
  watchAll w watched retired (roots.filter fun root => !currentRoots.contains root)

end Calls

/-- The roots `begin` sends: those it computed for the committed configuration and the added ones. -/
def union (oldRoots added : List Root) : List Root :=
  added.foldl (fun roots root => if roots.contains root then roots else roots ++ [root]) oldRoots

variable {W : Type} (w : Watcher W) (publisher : Publisher)

namespace Session

/-- A session that has not yet registered its roots. -/
def initial (shared : Watches) : Session W := { shared, watcher := w.init }

/-- The roots registered in the backend. -/
def registered (s : Session W) : List Root := w.registered s.watcher

/-- `begin` -/
def begin (s : Session W) (fsOld fsNew : FileSystem) (candidate : Watches) (closed : Bool) : Session W :=
  let oldRoots := s.shared.subscriptionRoots fsOld
  let newRoots := candidate.subscriptionRoots fsNew
  let diff := rootDiff oldRoots newRoots
  let transaction : ReloadTransaction :=
    { candidate, addedRoots := diff.added, removedRoots := diff.removed, roots := newRoots }
  let s := { s with retired := none, failedFrom := none }
  let failed := { s with failedFrom := some (s.shared, s.registered w) }
  if diff.added.isEmpty then { s with pc := .begun transaction }
  else
    match publisher with
    | .missing => { s with pc := .begun transaction }
    | .disabled => failed
    | .live =>
      if closed then failed
      else
        { s with swaps := s.swaps ++ [union oldRoots diff.added], acked := false,
                 pc := .beginning transaction (s.shared, s.registered w) }

/-- `retire` behind the commit of a transaction. -/
def retire (s : Session W) (transaction : ReloadTransaction) (fs : FileSystem) (closed : Bool) : Session W :=
  let done := { s with pc := .idle, retired := some transaction.roots }
  if transaction.removedRoots.isEmpty then done
  else if publisher = .live ∧ closed = false then
    { s with swaps := s.swaps ++ [s.shared.subscriptionRoots fs], acked := false,
             pc := .retiring transaction }
  else done

def step (s : Session W) : Move → Option (Session W)
  | .start fs watched =>
    if s.pc = .starting then
      let roots := s.shared.subscriptionRoots fs
      some { s with watcher := watchAll w watched s.watcher roots, currentRoots := roots
                    committedRoots := roots, pc := .idle }
    else none
  | .begin fsOld fsNew candidate closed =>
    if s.pc = .idle then some (s.begin w publisher fsOld fsNew candidate closed) else none
  | .applySwap watched unwatched =>
    match s.swaps with
    | [] => none
    | roots :: rest =>
      some { s with watcher := applyRootSwap w watched unwatched s.watcher s.currentRoots roots
                    currentRoots := roots, swaps := rest, acknowledged := some roots
                    acked := rest.isEmpty }
  | .acknowledge =>
    match s.pc with
    | .beginning transaction _ =>
      if s.acked then some { s with acked := false, pc := .begun transaction } else none
    | .retiring transaction =>
      if s.acked then some { s with acked := false, pc := .idle, retired := some transaction.roots }
      else none
    | _ => none
  | .timeout =>
    match s.pc with
    | .beginning _ before =>
      if s.acked then none else some { s with pc := .idle, failedFrom := some before }
    | .retiring transaction =>
      if s.acked then none else some { s with pc := .idle, retired := some transaction.roots }
    | _ => none
  | .commit =>
    match s.pc with
    | .begun transaction =>
      some { s with shared := transaction.candidate, committedRoots := transaction.roots,
                    pc := .committed transaction }
    | _ => none
  | .retire fs closed =>
    match s.pc with
    | .committed transaction => some (s.retire publisher transaction fs closed)
    | _ => none

end Session

/-! ### What should hold -/

/-- The backend's roots follow the committed configuration: they include the roots computed at its commit;
    behind `retire` they are the candidate's; those of an acknowledged swap are registered; and a `begin`
    that failed has changed nothing. -/
structure Follows (s : Session W) : Prop where
  included : ∀ root ∈ s.committedRoots, root ∈ s.registered w
  retired : ∀ roots, s.retired = some roots → ∀ root, root ∈ s.registered w ↔ root ∈ roots
  acknowledged : ∀ roots, s.acknowledged = some roots → ∀ root ∈ roots, root ∈ s.registered w
  unchanged : ∀ shared registered, s.failedFrom = some (shared, registered) →
    s.shared = shared ∧ ∀ root, root ∈ s.registered w ↔ root ∈ registered

/-- Two roots of which neither is above the other. -/
def Apart (root other : Root) : Prop := ¬root <+: other ∧ ¬other <+: root

instance (root other : Root) : Decidable (Apart root other) := inferInstanceAs (Decidable (_ ∧ _))

/-- The step does not lose track of the roots: the calls to the watcher succeed and are acknowledged in time
    by a backend that can swap roots, and no swap retires a root above or below one it keeps. Where `begin`
    sends nothing, the candidate's roots are registered, and nothing else is when `retire` will send nothing
    either; where it sends a swap, the roots of the committed configuration at its commit are among those it
    computes now. Where `retire` sends a swap, it computes the roots that `begin` had computed. -/
def Steady (s : Session W) : Move → Prop
  | .start fs watched => ∀ root ∈ s.shared.subscriptionRoots fs, watched root = true
  | .begin fsOld fsNew candidate _ =>
    publisher = .live ∧
    if (rootDiff (s.shared.subscriptionRoots fsOld) (candidate.subscriptionRoots fsNew)).added = [] then
      (∀ root ∈ candidate.subscriptionRoots fsNew, root ∈ s.registered w) ∧
      ((rootDiff (s.shared.subscriptionRoots fsOld) (candidate.subscriptionRoots fsNew)).removed = [] →
        ∀ root ∈ s.registered w, root ∈ candidate.subscriptionRoots fsNew)
    else
      ∀ root ∈ s.committedRoots, root ∈ s.shared.subscriptionRoots fsOld
        ∨ root ∈ candidate.subscriptionRoots fsNew
  | .applySwap watched unwatched =>
    match s.swaps with
    | [] => True
    | roots :: _ => (∀ root ∈ roots, root ∉ s.currentRoots → watched root = true) ∧
        ∀ root ∈ s.currentRoots, root ∉ roots → unwatched root = true ∧
          ∀ kept ∈ s.currentRoots, kept ∈ roots → Apart root kept
  | .timeout => False
  | .retire fs closed =>
    match s.pc with
    | .committed transaction => transaction.removedRoots ≠ [] →
        publisher = .live ∧ closed = false ∧
        (∀ root ∈ s.shared.subscriptionRoots fs, root ∈ transaction.roots) ∧
        ∀ root ∈ transaction.roots, root ∈ s.shared.subscriptionRoots fs
    | _ => True
  | .acknowledge | .commit => True

instance (s : Session W) : ∀ move : Move, Decidable (Steady w publisher s move)
  | .start fs watched =>
    inferInstanceAs (Decidable (∀ root ∈ s.shared.subscriptionRoots fs, watched root = true))
  | .begin fsOld fsNew candidate _ => inferInstanceAs (Decidable (publisher = .live ∧
      if (rootDiff (s.shared.subscriptionRoots fsOld) (candidate.subscriptionRoots fsNew)).added = [] then
        (∀ root ∈ candidate.subscriptionRoots fsNew, root ∈ s.registered w) ∧
        ((rootDiff (s.shared.subscriptionRoots fsOld) (candidate.subscriptionRoots fsNew)).removed = [] →
          ∀ root ∈ s.registered w, root ∈ candidate.subscriptionRoots fsNew)
      else
        ∀ root ∈ s.committedRoots, root ∈ s.shared.subscriptionRoots fsOld
          ∨ root ∈ candidate.subscriptionRoots fsNew))
  | .applySwap watched unwatched =>
    match hswaps : s.swaps with
    | [] => isTrue (by simp only [Steady, hswaps])
    | roots :: _ => decidable_of_iff
        ((∀ root ∈ roots, root ∉ s.currentRoots → watched root = true) ∧
          ∀ root ∈ s.currentRoots, root ∉ roots → unwatched root = true ∧
            ∀ kept ∈ s.currentRoots, kept ∈ roots → Apart root kept)
        (by simp only [Steady, hswaps])
  | .timeout => isFalse id
  | .retire fs closed =>
    match hpc : s.pc with
    | .committed transaction => decidable_of_iff (transaction.removedRoots ≠ [] →
          publisher = .live ∧ closed = false ∧
          (∀ root ∈ s.shared.subscriptionRoots fs, root ∈ transaction.roots) ∧
          ∀ root ∈ transaction.roots, root ∈ s.shared.subscriptionRoots fs)
        (by simp only [Steady, hpc])
    | .starting | .idle | .beginning _ _ | .begun _ | .retiring _ =>
      isTrue (by simp only [Steady, hpc])
  | .acknowledge | .commit => isTrue trivial

/-! ### The swap and the difference -/

theorem mem_union (oldRoots added : List Root) : ∀ root,
    root ∈ union oldRoots added ↔ root ∈ oldRoots ∨ root ∈ added := by
  rw [union]
  induction added generalizing oldRoots with
  | nil => simp
  | cons first rest ih =>
    intro root
    rw [List.foldl_cons, ih]
    split
    · rename_i hmem
      have hmem : first ∈ oldRoots := by simpa using hmem
      constructor
      · rintro (h | h)
        · exact .inl h
        · exact .inr (List.mem_cons_of_mem first h)
      · rintro (h | h)
        · exact .inl h
        · rcases List.mem_cons.mp h with rfl | h
          · exact .inl hmem
          · exact .inr h
    · simp [or_assoc]

theorem mem_added {oldRoots newRoots : List Root} {root : Root} :
    root ∈ (rootDiff oldRoots newRoots).added ↔ root ∈ newRoots ∧ root ∉ oldRoots := by
  simp [rootDiff]

theorem mem_removed {oldRoots newRoots : List Root} {root : Root} :
    root ∈ (rootDiff oldRoots newRoots).removed ↔ root ∈ oldRoots ∧ root ∉ newRoots := by
  simp [rootDiff]

theorem mem_union_diff {oldRoots newRoots : List Root} (root : Root) :
    root ∈ union oldRoots (rootDiff oldRoots newRoots).added ↔ root ∈ oldRoots ∨ root ∈ newRoots := by
  rw [mem_union, mem_added]
  by_cases hold : root ∈ oldRoots <;> simp [hold]

theorem mem_new_of_removed_nil {oldRoots newRoots : List Root}
    (h : (rootDiff oldRoots newRoots).removed = []) {root : Root} (hroot : root ∈ oldRoots) :
    root ∈ newRoots := by
  by_contra hnew
  have hmem := mem_removed.mpr ⟨hroot, hnew⟩
  rw [h] at hmem
  cases hmem

section Calls

variable {w} (hw : w.Documented)
include hw

theorem Watcher.Documented.mem_watchAll {watched : Root → Bool} {roots : List Root}
    (hwatched : ∀ root ∈ roots, watched root = true) (root : Root) :
    ∀ s, root ∈ w.registered (watchAll w watched s roots) ↔ root ∈ w.registered s ∨ root ∈ roots := by
  induction roots with
  | nil => simp [watchAll]
  | cons first rest ih =>
    intro s
    have hrest := ih (fun root hroot => hwatched root (List.mem_cons_of_mem first hroot)) (w.watch s first true)
    rw [watchAll, List.foldl_cons, hwatched first List.mem_cons_self]
    rw [watchAll] at hrest
    rw [hrest, hw.watch, List.mem_cons]
    tauto

/-- What is registered once roots have been retired was so before, and is none of them. -/
theorem Watcher.Documented.of_mem_unwatched {unwatched : Root → Bool} {obsolete : List Root} {root : Root}
    (hunwatched : ∀ root ∈ obsolete, unwatched root = true) :
    ∀ s, root ∈ w.registered (obsolete.foldl (fun s root => w.unwatch s root (unwatched root)) s) →
      root ∈ w.registered s ∧ root ∉ obsolete := by
  induction obsolete with
  | nil => exact fun s h => ⟨h, List.not_mem_nil⟩
  | cons first rest ih =>
    intro s h
    rw [List.foldl_cons, hunwatched first List.mem_cons_self] at h
    obtain ⟨hmem, hrest⟩ := ih (fun root hroot => hunwatched root (List.mem_cons_of_mem first hroot)) _ h
    refine ⟨hw.unwatch_only s first root hmem, ?_⟩
    rw [List.mem_cons, not_or]
    refine ⟨?_, hrest⟩
    rintro rfl
    exact hw.unwatch s root hmem

/-- A registered root stays so when roots apart from it are retired. -/
theorem Watcher.Documented.mem_unwatched {unwatched : Root → Bool} {obsolete : List Root} {root : Root}
    (hunwatched : ∀ other ∈ obsolete, unwatched other = true ∧ Apart other root) :
    ∀ s, root ∈ w.registered s →
      root ∈ w.registered (obsolete.foldl (fun s root => w.unwatch s root (unwatched root)) s) := by
  induction obsolete with
  | nil => exact fun s h => h
  | cons first rest ih =>
    intro s h
    obtain ⟨hfirst, hbelow, habove⟩ := hunwatched first List.mem_cons_self
    rw [List.foldl_cons, hfirst]
    exact ih (fun other hother => hunwatched other (List.mem_cons_of_mem first hother)) _
      (hw.unwatch_apart s first root hbelow habove h)

/-- When the registered roots are those the loop believes in, every call succeeds and what is retired is
    apart from what is kept, the registered roots are those of the swap. -/
theorem Watcher.Documented.mem_applyRootSwap {watched unwatched : Root → Bool} {s : W}
    {currentRoots roots : List Root} (htracked : ∀ root, root ∈ w.registered s ↔ root ∈ currentRoots)
    (hwatched : ∀ root ∈ roots, root ∉ currentRoots → watched root = true)
    (hunwatched : ∀ root ∈ currentRoots, root ∉ roots → unwatched root = true ∧
      ∀ kept ∈ currentRoots, kept ∈ roots → Apart root kept) (root : Root) :
    root ∈ w.registered (applyRootSwap w watched unwatched s currentRoots roots) ↔ root ∈ roots := by
  have hobsolete : ∀ {root}, root ∈ currentRoots.filter (fun root => !roots.contains root) ↔
      root ∈ currentRoots ∧ root ∉ roots := by simp
  have hnew : ∀ {root}, root ∈ roots.filter (fun root => !currentRoots.contains root) ↔
      root ∈ roots ∧ root ∉ currentRoots := by simp
  rw [applyRootSwap, hw.mem_watchAll fun root hroot => hwatched root (hnew.mp hroot).1 (hnew.mp hroot).2]
  constructor
  · rintro (hkept | hadded)
    · obtain ⟨hbefore, hstays⟩ := hw.of_mem_unwatched
        (fun root hroot => (hunwatched root (hobsolete.mp hroot).1 (hobsolete.mp hroot).2).1) s hkept
      by_contra hgone
      exact hstays (hobsolete.mpr ⟨(htracked root).mp hbefore, hgone⟩)
    · exact (hnew.mp hadded).1
  · intro hroot
    by_cases hcurrent : root ∈ currentRoots
    · refine .inl (hw.mem_unwatched (fun other hother => ?_) s ((htracked root).mpr hcurrent))
      obtain ⟨hother, hretired⟩ := hobsolete.mp hother
      exact ⟨(hunwatched other hother hretired).1, (hunwatched other hother hretired).2 root hcurrent hroot⟩
    · exact .inr (hnew.mpr ⟨hroot, hcurrent⟩)

end Calls

/-! ### Runs -/

/-- The reload thread waits for a swap to these roots: it is on its way, or it has been applied and
    acknowledged. -/
def Session.Awaits (s : Session W) (roots : List Root) : Prop :=
  (s.swaps = [roots] ∧ s.acked = false)
    ∨ (s.swaps = [] ∧ s.acked = true ∧ ∀ root, root ∈ s.registered w ↔ root ∈ roots)

/-- What is registered behind `begin`: the candidate's roots, and only these if none is to be retired. -/
def ReloadTransaction.IsReady (t : ReloadTransaction) (roots : List Root) : Prop :=
  (∀ root ∈ t.roots, root ∈ roots) ∧ (t.removedRoots = [] → ∀ root ∈ roots, root ∈ t.roots)

/-- What holds between two steps, by where the reload thread stands. -/
def Session.Placed (s : Session W) : Prop :=
  match s.pc with
  | .starting => s.swaps = [] ∧ s.registered w = [] ∧ s.retired = none ∧ s.failedFrom = none
      ∧ s.acknowledged = none
  | .idle => s.swaps = []
  | .beginning t _ => s.retired = none ∧ s.failedFrom = none ∧
      ∃ roots, s.Awaits w roots ∧ t.IsReady roots ∧ ∀ root ∈ s.committedRoots, root ∈ roots
  | .begun t => s.retired = none ∧ s.failedFrom = none ∧ s.swaps = [] ∧ t.IsReady (s.registered w)
  | .committed t => s.retired = none ∧ s.failedFrom = none ∧ s.swaps = [] ∧ t.IsReady (s.registered w)
      ∧ s.committedRoots = t.roots
  | .retiring t => s.retired = none ∧ s.failedFrom = none ∧ s.committedRoots = t.roots ∧
      ∃ roots, s.Awaits w roots ∧ ∀ root, root ∈ roots ↔ root ∈ t.roots

/-- The invariant of runs whose steps are steady. -/
structure Kept (s : Session W) : Prop where
  tracked : ∀ root, root ∈ s.registered w ↔ root ∈ s.currentRoots
  follows : Follows w s
  placed : s.Placed w

theorem kept_initial (hw : w.Documented) (shared : Watches) : Kept w (.initial w shared) where
  tracked := by simp [Session.registered, Session.initial, hw.init]
  follows := ⟨by simp [Session.initial], by simp [Session.initial], by simp [Session.initial],
    by simp [Session.initial]⟩
  placed := ⟨rfl, hw.init, rfl, rfl, rfl⟩

variable {w} {publisher} {s : Session W}

/-- During an attempt nothing has been retired and nothing has failed. -/
theorem Follows.during {s' : Session W} (hretired : s'.retired = none) (hfailed : s'.failedFrom = none)
    (hincluded : ∀ root ∈ s'.committedRoots, root ∈ s'.registered w)
    (hacknowledged : ∀ roots, s'.acknowledged = some roots → ∀ root ∈ roots, root ∈ s'.registered w) :
    Follows w s' :=
  ⟨hincluded, by simp [hretired], hacknowledged, by simp [hfailed]⟩

/-- The swap on its way is the one that is waited for. -/
theorem Session.Awaits.head {awaited roots : List Root} {rest : List (List Root)} (h : s.Awaits w awaited)
    (hswaps : s.swaps = roots :: rest) : roots = awaited ∧ rest = [] := by
  rcases h with ⟨hsent, _⟩ | ⟨hnone, _⟩
  · rw [hsent] at hswaps
    cases hswaps
    exact ⟨rfl, rfl⟩
  · rw [hnone] at hswaps
    cases hswaps

/-- What is waited for has been applied when it is acknowledged. -/
theorem Session.Awaits.applied {awaited : List Root} (h : s.Awaits w awaited) (hacked : s.acked = true) :
    s.swaps = [] ∧ ∀ root, root ∈ s.registered w ↔ root ∈ awaited := by
  rcases h with ⟨_, hunacked⟩ | ⟨hnone, _, hmem⟩
  · rw [hunacked] at hacked
    cases hacked
  · exact ⟨hnone, hmem⟩

theorem Kept.started (hw : w.Documented) (h : Kept w s) (hpc : s.pc = .starting) {roots : List Root}
    {watched : Root → Bool} (hwatched : ∀ root ∈ roots, watched root = true) :
    Kept w { s with watcher := watchAll w watched s.watcher roots, currentRoots := roots
                    committedRoots := roots, pc := .idle } := by
  have hplaced := h.placed
  rw [Session.Placed, hpc] at hplaced
  obtain ⟨hswaps, hnone, hretired, hfailed, hacknowledged⟩ := hplaced
  have hmem : ∀ root, root ∈ w.registered (watchAll w watched s.watcher roots) ↔ root ∈ roots := by
    intro root
    rw [hw.mem_watchAll hwatched, show w.registered s.watcher = [] from hnone]
    simp
  refine ⟨hmem, ⟨fun root hroot => (hmem root).mpr hroot, ?_, ?_, ?_⟩, hswaps⟩
  · simp [hretired]
  · simp [hacknowledged]
  · simp [hfailed]

theorem Kept.begin (h : Kept w s) (hpc : s.pc = .idle) {fsOld fsNew : FileSystem} {candidate : Watches}
    {closed : Bool} (hsteady : Steady w publisher s (.begin fsOld fsNew candidate closed)) :
    Kept w (s.begin w publisher fsOld fsNew candidate closed) := by
  have hswaps : s.swaps = [] := by
    have hplaced := h.placed
    rwa [Session.Placed, hpc] at hplaced
  obtain ⟨rfl, hroots⟩ := hsteady
  rw [Session.begin]
  split at hroots
  · rename_i hadded
    simp only [hadded, List.isEmpty_nil, if_true]
    exact ⟨h.tracked, .during rfl rfl h.follows.included h.follows.acknowledged,
      rfl, rfl, hswaps, hroots⟩
  · rename_i hadded
    simp only [List.isEmpty_iff, hadded, if_false]
    split
    · refine ⟨h.tracked, ⟨h.follows.included, by simp, h.follows.acknowledged, ?_⟩, ?_⟩
      · rintro _ _ ⟨⟩
        exact ⟨rfl, fun _ => Iff.rfl⟩
      · simp only [Session.Placed, hpc]
        exact hswaps
    · refine ⟨h.tracked, .during rfl rfl h.follows.included h.follows.acknowledged,
        rfl, rfl, _, .inl ⟨by rw [hswaps]; rfl, rfl⟩, ⟨?_, ?_⟩, ?_⟩
      · intro root hroot
        exact (mem_union_diff root).mpr (.inr hroot)
      · intro hremoved root hroot
        rcases (mem_union_diff root).mp hroot with hold | hnew
        · exact mem_new_of_removed_nil hremoved hold
        · exact hnew
      · intro root hroot
        exact (mem_union_diff root).mpr (hroots root hroot)

/-- A swap that is waited for is applied. -/
theorem Kept.applied (hw : w.Documented) (h : Kept w s) {roots : List Root} {rest : List (List Root)}
    (hswaps : s.swaps = roots :: rest) {watched unwatched : Root → Bool}
    (hsteady : Steady w publisher s (.applySwap watched unwatched)) :
    Kept w { s with watcher := applyRootSwap w watched unwatched s.watcher s.currentRoots roots
                    currentRoots := roots, swaps := rest, acknowledged := some roots
                    acked := rest.isEmpty } := by
  simp only [Steady, hswaps] at hsteady
  obtain ⟨hwatched, hunwatched⟩ := hsteady
  have hmem := hw.mem_applyRootSwap h.tracked hwatched hunwatched
  have hacknowledged : ∀ acknowledged, some roots = some acknowledged → ∀ root ∈ acknowledged,
      root ∈ w.registered (applyRootSwap w watched unwatched s.watcher s.currentRoots roots) := by
    rintro _ ⟨⟩ root hroot
    exact (hmem root).mpr hroot
  have hplaced := h.placed
  rw [Session.Placed] at hplaced
  cases hpc : s.pc with
  | beginning t before =>
    rw [hpc] at hplaced
    obtain ⟨hretired, hfailed, awaited, hawaits, hready, hcommitted⟩ := hplaced
    obtain ⟨rfl, rfl⟩ := hawaits.head hswaps
    refine ⟨hmem, .during hretired hfailed ?_ hacknowledged, ?_⟩
    · intro root hroot
      exact (hmem root).mpr (hcommitted root hroot)
    · simp only [Session.Placed]
      exact ⟨hretired, hfailed, roots, .inr ⟨rfl, rfl, hmem⟩, hready, hcommitted⟩
  | retiring t =>
    rw [hpc] at hplaced
    obtain ⟨hretired, hfailed, hcommitted, awaited, hawaits, hroots⟩ := hplaced
    obtain ⟨rfl, rfl⟩ := hawaits.head hswaps
    refine ⟨hmem, .during hretired hfailed ?_ hacknowledged, ?_⟩
    · intro root hroot
      rw [hcommitted] at hroot
      exact (hmem root).mpr ((hroots root).mpr hroot)
    · simp only [Session.Placed]
      exact ⟨hretired, hfailed, hcommitted, roots, .inr ⟨rfl, rfl, hmem⟩, hroots⟩
  | starting | idle | begun | committed =>
    -- no swap is on its way there
    simp [hpc, hswaps] at hplaced

theorem Kept.acknowledged {s' : Session W} (h : Kept w s)
    (hstep : s.step w publisher .acknowledge = some s') : Kept w s' := by
  have hplaced := h.placed
  rw [Session.Placed] at hplaced
  rw [Session.step] at hstep
  split at hstep
  · rename_i t before hpc
    rw [hpc] at hplaced
    obtain ⟨hretired, hfailed, awaited, hawaits, hready, hcommitted⟩ := hplaced
    split at hstep
    · rename_i hacked
      cases hstep
      obtain ⟨hswaps, hmem⟩ := hawaits.applied hacked
      refine ⟨h.tracked, .during hretired hfailed h.follows.included h.follows.acknowledged,
        hretired, hfailed, hswaps, ?_, ?_⟩
      · intro root hroot
        exact (hmem root).mpr (hready.1 root hroot)
      · intro hremoved root hroot
        exact hready.2 hremoved root ((hmem root).mp hroot)
    · cases hstep
  · rename_i t hpc
    rw [hpc] at hplaced
    obtain ⟨hretired, hfailed, hcommitted, awaited, hawaits, hroots⟩ := hplaced
    split at hstep
    · rename_i hacked
      cases hstep
      obtain ⟨hswaps, hmem⟩ := hawaits.applied hacked
      refine ⟨h.tracked, ⟨h.follows.included, ?_, h.follows.acknowledged, by simp [hfailed]⟩, hswaps⟩
      rintro _ ⟨⟩ root
      exact (hmem root).trans (hroots root)
    · cases hstep
  · cases hstep

theorem Kept.committed {t : ReloadTransaction} (h : Kept w s) (hpc : s.pc = .begun t) :
    Kept w { s with shared := t.candidate, committedRoots := t.roots, pc := .committed t } := by
  have hplaced := h.placed
  rw [Session.Placed, hpc] at hplaced
  obtain ⟨hretired, hfailed, hswaps, hready⟩ := hplaced
  exact ⟨h.tracked, .during hretired hfailed hready.1 h.follows.acknowledged,
    hretired, hfailed, hswaps, hready, rfl⟩

theorem Kept.retire {t : ReloadTransaction} (h : Kept w s) (hpc : s.pc = .committed t) {fs : FileSystem}
    {closed : Bool} (hsteady : Steady w publisher s (.retire fs closed)) :
    Kept w (s.retire publisher t fs closed) := by
  have hplaced := h.placed
  rw [Session.Placed, hpc] at hplaced
  obtain ⟨hretired, hfailed, hswaps, hready, hcommitted⟩ := hplaced
  rw [Session.retire]
  by_cases hremoved : t.removedRoots = []
  · rw [if_pos (List.isEmpty_iff.mpr hremoved)]
    refine ⟨h.tracked, ⟨h.follows.included, ?_, h.follows.acknowledged, by simp [hfailed]⟩, hswaps⟩
    rintro _ ⟨⟩ root
    exact ⟨hready.2 hremoved root, hready.1 root⟩
  · simp only [Steady, hpc] at hsteady
    obtain ⟨hlive, hopen, hsub, hsup⟩ := hsteady hremoved
    rw [if_neg (mt List.isEmpty_iff.mp hremoved), if_pos ⟨hlive, hopen⟩]
    exact ⟨h.tracked, .during hretired hfailed h.follows.included h.follows.acknowledged,
      hretired, hfailed, hcommitted, _, .inl ⟨by rw [hswaps]; rfl, rfl⟩,
      fun root => ⟨hsub root, hsup root⟩⟩

theorem kept_step (hw : w.Documented) {s' : Session W} {move : Move} (h : Kept w s)
    (hsteady : Steady w publisher s move) (hstep : s.step w publisher move = some s') : Kept w s' := by
  cases move with
  | start fs watched =>
    rw [Session.step] at hstep
    split at hstep
    · rename_i hpc
      cases hstep
      exact h.started hw hpc hsteady
    · cases hstep
  | begin fsOld fsNew candidate closed =>
    rw [Session.step] at hstep
    split at hstep
    · rename_i hpc
      cases hstep
      exact h.begin hpc hsteady
    · cases hstep
  | applySwap watched unwatched =>
    rw [Session.step] at hstep
    split at hstep
    · cases hstep
    · rename_i roots rest hswaps
      cases hstep
      exact h.applied hw hswaps hsteady
  | acknowledge => exact h.acknowledged hstep
  | timeout => exact hsteady.elim
  | commit =>
    rw [Session.step] at hstep
    split at hstep
    · rename_i t hpc
      cases hstep
      exact h.committed hpc
    · cases hstep
  | retire fs closed =>
    rw [Session.step] at hstep
    split at hstep
    · rename_i t hpc
      cases hstep
      exact h.retire hpc hsteady
    · cases hstep

variable (w) (publisher)

/-- In every run whose steps are steady, the roots of a backend whose watcher does what is documented follow
    the committed configuration in every state. -/
theorem roots_follow (hw : w.Documented) (shared : Watches) (moves : List Move) (s : Session W)
    (hrun : Machine.after (Session.step w publisher) (.initial w shared) moves = some s)
    (hsteady : Machine.Meets (Session.step w publisher) (Steady w publisher) (.initial w shared) moves) :
    Follows w s :=
  (Machine.invariant (Session.step w publisher) (fun _ _ _ h hsteady hstep => kept_step hw h hsteady hstep)
    moves _ s (kept_initial w hw shared) hsteady hrun).follows

/-! ### Runs on the workspace `/w` -/

def workspace : Root := [.rootDir, .normal ['w']]

def sources : Root := workspace ++ [.normal "src".toList]

def tests : Root := workspace ++ [.normal "tests".toList]

/-- The workspace with some directories in it. -/
def directories (present : List Root) : FileSystem where
  present path := path = [.rootDir] ∨ path ∈ present
  isDir path := path = [.rootDir] ∨ path ∈ present
  rootPresent := by simp

def allPresent : FileSystem := directories [workspace, sources, tests]

/-- One rule on a directory of the workspace. -/
def watching (pattern command : String) : Watches :=
  .withRootAndConcurrency [{ name := "build", commands := [command], watchPatterns := [pattern] }] "/w" 1
    isAbsolute_w Nat.one_pos

def everything : Root → Bool := fun _ => true

/-- A watcher that forgets what is below a root when it is told to unwatch it. -/
def treeWatcher : Watcher (List Root) where
  init := []
  registered := id
  watch s root ok := if ok && !s.contains root then s ++ [root] else s
  unwatch s root ok := if ok then s.filter fun other => !decide (root <+: other) else s

theorem treeWatcher_documented : treeWatcher.Documented where
  init := rfl
  watch s root other := by
    by_cases hmem : root ∈ s
    · simp only [treeWatcher, id, List.contains_eq_mem, hmem, decide_true, Bool.not_true, Bool.and_false,
        Bool.false_eq_true, if_false]
      exact ⟨.inr, fun h => h.elim (fun heq => heq ▸ hmem) id⟩
    · simp [treeWatcher, hmem, or_comm]
  unwatch s root := by simp [treeWatcher]
  unwatch_only s root other h := by
    simp only [treeWatcher, id, if_true] at h
    exact (List.mem_filter.mp h).1
  unwatch_apart s root other hbelow _ h := by
    simp only [treeWatcher, id, if_true]
    exact List.mem_filter.mpr ⟨h, by simpa using hbelow⟩

/-- A reload from one directory to another. -/
def reloadMoves : List Move :=
  [.start allPresent everything, .begin allPresent allPresent (watching "tests/**" "make") false,
    .applySwap everything everything, .acknowledge, .commit, .retire allPresent false,
    .applySwap everything everything, .acknowledge]

theorem roots_follow_reload :
    ∃ s, Machine.after (Session.step treeWatcher .live) (.initial treeWatcher (watching "src/**" "make"))
        reloadMoves = some s ∧ s.registered treeWatcher = [tests] ∧ Follows treeWatcher s := by
  have hrun : (Machine.after (Session.step treeWatcher .live)
      (.initial treeWatcher (watching "src/**" "make")) reloadMoves).map (Session.registered treeWatcher)
        = some [tests] := by
    decide +kernel
  obtain ⟨s, hs, hregistered⟩ := Option.map_eq_some_iff.mp hrun
  refine ⟨s, hs, hregistered, ?_⟩
  refine roots_follow treeWatcher .live treeWatcher_documented _ reloadMoves s hs ?_
  decide +kernel

/-- The new directory cannot be watched. -/
def unwatchableMoves : List Move :=
  [.start allPresent everything, .begin allPresent allPresent (watching "tests/**" "make") false,
    .applySwap (fun root => root != tests) everything, .acknowledge, .commit]

/-- The watched directory is removed, and a reload changes a command only. -/
def vanishedMoves : List Move :=
  [.start allPresent everything,
    .begin (directories [workspace]) (directories [workspace]) (watching "src/**" "make all") false,
    .commit, .retire (directories [workspace]) false]

/-- The backend applies the swap of a `begin` that has given up waiting. -/
def lateMoves : List Move :=
  [.start allPresent everything, .begin allPresent allPresent (watching "tests/**" "make") false,
    .timeout, .applySwap everything everything]

/-- A reload from the whole workspace to one directory of it. -/
def narrowedMoves : List Move :=
  [.start allPresent everything, .begin allPresent allPresent (watching "src/**" "make") false,
    .applySwap everything everything, .acknowledge, .commit, .retire allPresent false,
    .applySwap everything everything, .acknowledge]

/-- A run that ends with other roots registered than the committed configuration's. -/
theorem unregistered_of_run (w : Watcher W) (run : Option (Session W)) (registered committedRoots : List Root)
    (hrun : run.map (fun s => (s.registered w, s.committedRoots)) = some (registered, committedRoots))
    (hmissing : ∃ root ∈ committedRoots, root ∉ registered) :
    ∃ s, run = some s ∧ s.registered w = registered ∧ s.committedRoots = committedRoots ∧ ¬Follows w s := by
  obtain ⟨s, hs, heq⟩ := Option.map_eq_some_iff.mp hrun
  obtain ⟨hregistered, hcommitted⟩ := Prod.mk.inj heq
  obtain ⟨root, hroot, hnone⟩ := hmissing
  refine ⟨s, hs, hregistered, hcommitted, fun hfollows => hnone ?_⟩
  rw [← hregistered]
  exact hfollows.included root (by rw [hcommitted]; exact hroot)

/-- The swap is acknowledged and the reload committed though its root is not registered; the committed
    configuration's root is not registered because both sides of the difference were computed anew; a
    `begin` that failed changes the registered roots; and retiring a root takes the root below it along. -/
theorem roots_lost :
    let run := fun shared moves => Machine.after (Session.step treeWatcher .live)
      (.initial treeWatcher shared) moves
    (∃ s, run (watching "src/**" "make") unwatchableMoves = some s
        ∧ s.registered treeWatcher = [sources] ∧ s.acknowledged = some [sources, tests]
        ∧ s.committedRoots = [tests] ∧ ¬Follows treeWatcher s)
      ∧ (∃ s, run (watching "src/**" "make") vanishedMoves = some s
        ∧ s.registered treeWatcher = [sources] ∧ s.committedRoots = [workspace] ∧ ¬Follows treeWatcher s)
      ∧ (∃ s, run (watching "src/**" "make") lateMoves = some s
        ∧ s.failedFrom = some (watching "src/**" "make", [sources])
        ∧ s.registered treeWatcher = [sources, tests] ∧ ¬Follows treeWatcher s)
      ∧ ∃ s, run (watching "**" "make") narrowedMoves = some s
        ∧ s.registered treeWatcher = [] ∧ s.committedRoots = [sources] ∧ ¬Follows treeWatcher s := by
  intro run
  refine ⟨?_, ?_, ?_, ?_⟩
  · have hrun : (run (watching "src/**" "make") unwatchableMoves).map
        (fun s => (s.registered treeWatcher, s.acknowledged, s.committedRoots))
          = some ([sources], some [sources, tests], [tests]) := by
      decide +kernel
    obtain ⟨s, hs, heq⟩ := Option.map_eq_some_iff.mp hrun
    simp only [Prod.mk.injEq] at heq
    obtain ⟨hregistered, hacknowledged, hcommitted⟩ := heq
    refine ⟨s, hs, hregistered, hacknowledged, hcommitted, fun hfollows => ?_⟩
    have hmem := hfollows.acknowledged _ hacknowledged tests (by simp)
    rw [hregistered] at hmem
    exact absurd hmem (by decide)
  · obtain ⟨s, hs, hregistered, hcommitted, hmissing⟩ := unregistered_of_run treeWatcher
      (run (watching "src/**" "make") vanishedMoves) [sources] [workspace] (by decide +kernel) (by decide)
    exact ⟨s, hs, hregistered, hcommitted, hmissing⟩
  · have hrun : (run (watching "src/**" "make") lateMoves).map
        (fun s => (s.failedFrom, s.registered treeWatcher))
          = some (some (watching "src/**" "make", [sources]), [sources, tests]) := by
      decide +kernel
    obtain ⟨s, hs, heq⟩ := Option.map_eq_some_iff.mp hrun
    obtain ⟨hfailed, hregistered⟩ := Prod.mk.inj heq
    refine ⟨s, hs, hfailed, hregistered, fun hfollows => ?_⟩
    have hmem := ((hfollows.unchanged _ _ hfailed).2 tests).mp (by rw [hregistered]; simp)
    exact absurd hmem (by decide)
  · obtain ⟨s, hs, hregistered, hcommitted, hmissing⟩ := unregistered_of_run treeWatcher
      (run (watching "**" "make") narrowedMoves) [] [sources] (by decide +kernel) (by decide)
    exact ⟨s, hs, hregistered, hcommitted, hmissing⟩

end RootSwap

end Funzzy
