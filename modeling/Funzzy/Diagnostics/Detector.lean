import Mathlib.Data.Finset.Filter
import Mathlib.Data.Finset.Dedup
import Funzzy.Lib.Chains
import Funzzy.Lib.Tables

/-! The feedback-loop heuristic (`LoopDetector` in `diagnostics.rs`).

    The detector counts how often one path triggers one task by one rule while the triggers follow each
    other within a window, and remembers the last run of each task. Its tables forget what has left the
    window, and the oldest entries when they get too large. -/

namespace Funzzy

/-- Feedback-loop policy: how far back repeats count and when to warn. -/
structure LoopPolicy where
  window : Nat
  minRepeats : Nat
  deriving DecidableEq

structure LoopKey where
  task : String
  path : String
  rule : String
  deriving DecidableEq

structure LoopEntry where
  count : Nat
  lastSeen : Nat
  warned : Bool
  deriving DecidableEq

structure LoopWarning where
  task : String
  path : String
  rule : String
  repeats : Nat
  generation : Option Nat
  hint : String
  deriving DecidableEq

structure LoopObservation where
  repeats : Nat
  generation : Option Nat
  observedAfterRun : Option Nat
  warning : Option LoopWarning
  deriving DecidableEq

structure LoopDetector where
  entries : Table LoopKey LoopEntry
  /-- Task to the instant and the generation of its last run. -/
  taskRecent : Table String (Nat × Nat)

def maxKeys : Nat := 512

/-- The text before the last slash, if there is one. -/
def beforeLastSlash (path : List Char) : Option (List Char) :=
  if '/' ∈ path then some ((path.reverse.dropWhile (· ≠ '/')).tail.reverse) else none

def hintFor (path : String) : String :=
  match beforeLastSlash path.toList with
  | some (c :: directory) => "consider ignoring " ++ String.ofList (c :: directory) ++ "/**"
  | _ => "consider ignoring " ++ path

/-- A call of `observe`, with the orders in which the tables are iterated while it runs. -/
structure Trigger where
  now : Nat
  key : LoopKey
  generation : Option Nat
  entriesOrder : Iteration (Σ _ : LoopKey, LoopEntry)
  tasksOrder : Iteration (Σ _ : String, Nat × Nat)

namespace LoopDetector

def new : LoopDetector := { entries := ∅, taskRecent := ∅ }

/-- Bounds both tables by evicting the oldest. -/
def cap (trigger : Trigger) (d : LoopDetector) : LoopDetector where
  entries := d.entries.cap LoopEntry.lastSeen trigger.entriesOrder maxKeys
  taskRecent := d.taskRecent.cap Prod.fst trigger.tasksOrder maxKeys

variable (policy : LoopPolicy)

/-- Removes expired keys and keeps the tables bounded. -/
def prune (trigger : Trigger) (d : LoopDetector) : LoopDetector :=
  cap trigger
    { entries := d.entries.retain fun entry => trigger.now - entry.lastSeen ≤ policy.window
      taskRecent := d.taskRecent.retain fun run => trigger.now - run.1 ≤ policy.window }

/-- The entry of a trigger's key, one trigger later, and whether it warns now. -/
def repeated (now : Nat) (found : Option LoopEntry) : LoopEntry × Bool :=
  let fresh : LoopEntry := { count := 0, lastSeen := now, warned := false }
  let entry := found.getD fresh
  let entry := if policy.window < now - entry.lastSeen then fresh else entry
  let count := entry.count + 1
  let warns := policy.minRepeats ≤ count && !entry.warned
  ({ count, lastSeen := now, warned := entry.warned || warns }, warns)

/-- `observe` -/
def observe (d : LoopDetector) (trigger : Trigger) : LoopDetector × LoopObservation :=
  let d := d.prune policy trigger
  let observedAfterRun := ((d.taskRecent.lookup trigger.key.task).filter fun run =>
    trigger.now - run.1 ≤ policy.window).map Prod.snd
  let (entry, warns) := repeated policy trigger.now (d.entries.lookup trigger.key)
  let taskRecent := match trigger.generation with
    | some run => d.taskRecent.insert trigger.key.task (trigger.now, run)
    | none => d.taskRecent
  let warning : LoopWarning :=
    { task := trigger.key.task, path := trigger.key.path, rule := trigger.key.rule, repeats := entry.count
      generation := trigger.generation.or observedAfterRun, hint := hintFor trigger.key.path }
  (cap trigger { entries := d.entries.insert trigger.key entry, taskRecent },
    { repeats := entry.count, generation := trigger.generation, observedAfterRun
      warning := if warns then some warning else none })

/-- The detector after a sequence of calls. -/
def after (triggers : List Trigger) : LoopDetector :=
  triggers.foldl (fun d trigger => (d.observe policy trigger).1) new

end LoopDetector

end Funzzy
