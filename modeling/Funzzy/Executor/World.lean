import Funzzy.Plan

/-! What the executor talks to (`executor.rs`, `approval.rs`): events, run metadata, the process
    runner, the clock, the cancellation token and the approval port.

    The injected trait objects are one `Env` over an arbitrary world type: each call answers from the
    world and moves it on, so quantifying over worlds and environments quantifies over every runner
    behaviour, every completion order and every moment at which another thread sets the token. `Io`
    threads the world through the executor and records, in order, every observable effect: emitted
    events, spawned, exited and killed processes, and approval questions. Properties that hold "at
    every moment of a run" are properties of every prefix of that trace. -/

namespace Funzzy

/-! ### Identities, snapshots and events -/

/-- Wire-level task state: fail-fast skipped work collapses to `cancelled`. -/
inductive TaskState where | passed | failed | cancelled
  deriving DecidableEq

/-- One task's terminal outcome for the correlated snapshot. -/
structure TaskSnapshot where
  position : Nat
  id : String
  name : String
  state : TaskState
  durationMs : Option Nat
  deriving DecidableEq

/-- One exact generation/job recovery approval request. -/
structure RecoveryRequest where
  generation : Nat
  revision : Option Nat
  jobPosition : Nat
  job : String
  commands : List String
  deriving DecidableEq

inductive ApprovalDecision where | approved | declined | noTty | eof | invalid | cancelled
  deriving DecidableEq

inductive RecoveryPolicy where | prompt | skip
  deriving DecidableEq

/-- Run-level terminal hooks. -/
structure GenerationHooks where
  success : Option String := none
  failure : Option String := none
  deriving DecidableEq

structure RunMetadata where
  runId : Nat
  trigger : String := ""
  batch : Option Nat := none
  predecessor : Option Nat := none
  changed : List String := []
  target : Option String := none
  executionSignature : Option String := none
  effectiveConcurrency : Option Nat := none
  concurrencySource : Option String := none
  hooks : GenerationHooks := {}
  recoveryPolicy : RecoveryPolicy := .prompt
  revision : Option Nat := none
  revisionHash : Option String := none
  deriving DecidableEq

inductive Event where
  | started (metadata : RunMetadata) (commands : List String)
  | finished (runId : Nat) (supersededBy : Option Nat) (elapsed : Nat) (failures : List String)
  | cancelled (runId : Nat) (supersededBy : Option Nat)
  | tick (task : String) (groupOccurrence : Option String)
  | taskTerminal (runId : Nat) (task : TaskSnapshot)
  | recoveryPhase (runId : Nat) (job phase : String) (outcome : Option String)
  deriving DecidableEq

/-! ### Tasks in execution -/

/-- Exit status of a child: its code (none when a signal ended it) and its display text. -/
structure ExitStatus where
  code : Option Nat
  text : String
  deriving DecidableEq

def ExitStatus.success (status : ExitStatus) : Bool := status.code = some 0

/-- Bounded service restart attempts on unexpected exit. -/
def serviceMaxRestarts : Nat := 3

/-- A task admitted to execution. `child` holds while a spawned process has not been reaped. -/
structure ActiveTask where
  name : String
  position : Nat
  commands : List CommandLine
  originalCommands : List CommandLine
  recoveryCommands : Option (List CommandLine)
  child : Bool := false
  currentCommand : Option String := none
  failures : List String := []
  context : TaskContext
  contextValidated : Bool := false
  groupOccurrence : Option String
  started : Option Nat := none
  commandIndex : Nat := 0
  commandTotal : Nat
  service : Bool
  serviceRestartsLeft : Nat := serviceMaxRestarts
  deferFailure : Bool
  deriving DecidableEq

/-- `ActiveTask::from(TaskPlan)`. -/
def ActiveTask.ofPlan (task : TaskPlan) : ActiveTask :=
  { name := task.name
    position := task.position
    commands := task.commands
    originalCommands := task.commands
    recoveryCommands := task.recoveryCommands
    context := task.context
    groupOccurrence := task.groupOccurrence
    commandTotal := task.commands.length
    service := task.service
    deferFailure := task.recoveryCommands.isSome }

/-- Which pass over its job a command belongs to. -/
inductive Phase where | original | recovery | verification
  deriving DecidableEq

/-- The identity of one process: its job and which command of the job's current pass it runs. -/
structure Proc where
  position : Nat
  name : String
  service : Bool
  phase : Phase
  ordinal : Nat
  deriving DecidableEq

/-- The 1-based number of the command last taken from the task's list. -/
def ActiveTask.ordinal (task : ActiveTask) : Nat := task.commandTotal - task.commands.length

def ActiveTask.proc (task : ActiveTask) (phase : Phase) : Proc :=
  { position := task.position, name := task.name, service := task.service, phase
    ordinal := task.ordinal }

/-! ### The approval port -/

/-- What the terminal gives an approval adapter that is waiting for an answer. -/
inductive TtyInput where
  | noTty
  | pollFailed
  | readFailed
  | line (answer : String)
  deriving DecidableEq

/-- `RecoveryApproval`: decides from the requests, the token as it reads it, and the terminal. -/
structure RecoveryApproval where
  approve : List RecoveryRequest → Bool → TtyInput → ApprovalDecision

/-- The port answers `cancelled` only after it has read the token as set. -/
def RecoveryApproval.Lawful (port : RecoveryApproval) : Prop :=
  ∀ requests input, port.approve requests false input ≠ .cancelled

/-- Safe default used by headless composition until a TTY adapter is injected. -/
def denyRecoveryApproval : RecoveryApproval where
  approve _ cancellation _ := if cancellation then .cancelled else .declined

theorem denyRecoveryApproval_lawful : denyRecoveryApproval.Lawful := by
  simp [RecoveryApproval.Lawful, denyRecoveryApproval]

/-- The Unicode `White_Space` characters, which `str::trim` removes from both ends. -/
def isWhiteSpace (c : Char) : Bool :=
  (0x09 ≤ c.toNat && c.toNat ≤ 0x0D) || c.toNat = 0x20 || c.toNat = 0x85 || c.toNat = 0xA0 ||
    c.toNat = 0x1680 || (0x2000 ≤ c.toNat && c.toNat ≤ 0x200A) || c.toNat = 0x2028 ||
    c.toNat = 0x2029 || c.toNat = 0x202F || c.toNat = 0x205F || c.toNat = 0x3000

/-- `answer.trim().to_ascii_lowercase()`, as characters. -/
def normalizedAnswer (answer : String) : List Char :=
  (((answer.toList.dropWhile isWhiteSpace).reverse.dropWhile isWhiteSpace).reverse).map Char.toLower

/-- The foreground CLI's adapter: default-deny, with only `y` and `yes` affirmative. -/
def ttyRecoveryApproval : RecoveryApproval where
  approve _ cancellation input :=
    match input with
    | .noTty => .noTty
    | .pollFailed => if cancellation then .cancelled else .eof
    | .readFailed => if cancellation then .cancelled else .eof
    | .line answer =>
      if cancellation then .cancelled
      else match normalizedAnswer answer with
        | ['y'] | ['y', 'e', 's'] => .approved
        | [] => .eof
        | ['n'] | ['n', 'o'] => .declined
        | _ => .invalid

theorem ttyRecoveryApproval_lawful : ttyRecoveryApproval.Lawful := by
  intro _ input
  unfold ttyRecoveryApproval
  cases input with
  | line answer => simp only [Bool.false_eq_true, if_false]; split <;> simp
  | _ => simp

/-! ### Environment, trace and input/output -/

/-- One poll of the channel an approval thread answers on. -/
inductive ApprovalPoll where
  | timeout
  | disconnected
  | answered (input : TtyInput)
  deriving DecidableEq

/-- The injected collaborators of an executor over a world type `W`. `isDir`, `spawn` and `tryWait`
    see the task they serve; `signal` says whether another thread has set the token. -/
structure Env (W : Type) where
  isDir : W → ActiveTask → String → Bool
  spawn : W → ActiveTask → CommandLine → Except String Unit × W
  tryWait : W → ActiveTask → Except String (Option ExitStatus) × W
  shutdown : W → ActiveTask → Bool × W
  signal : W → Bool × W
  approval : W → List RecoveryRequest → ApprovalPoll × W
  concurrencyLimit : W → Nat
  concurrencyLimit_pos : ∀ w, 0 < concurrencyLimit w
  now : W → Nat
  hook : W → String → Except String ExitStatus × W

/-- One observable effect of the executor, in the order in which they happen. -/
inductive Effect where
  | event (event : Event)
  | stage (tasks : List TaskPlan) (limit : Nat)
  | spawned (proc : Proc) (command : CommandLine)
  | spawnFailed (proc : Proc) (command : CommandLine) (error : String)
  | exited (proc : Proc) (status : ExitStatus)
  | waitFailed (proc : Proc) (error : String)
  | killed (position : Nat) (service : Bool)
  | contextInvalid (position : Nat)
  | asked (requests : List RecoveryRequest)
  | decided (decision : ApprovalDecision)
  | hook (command : String)
  deriving DecidableEq

/-- The world, the run's cancellation token as last read, and the effects so far. -/
structure Io (W : Type) where
  world : W
  token : Bool := false
  trace : List Effect := []

variable {W : Type}

def Io.record (io : Io W) (effect : Effect) : Io W := { io with trace := io.trace ++ [effect] }

def Io.emit (io : Io W) (event : Event) : Io W := io.record (.event event)

/-- `cancellation_requested`: reads the token; a set token stays set. -/
def Io.cancellationRequested (env : Env W) (io : Io W) : Bool × Io W :=
  let (set, world) := env.signal io.world
  (io.token || set, { io with world, token := io.token || set })

end Funzzy
