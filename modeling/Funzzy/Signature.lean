import Funzzy.Lib.Utf8
import Funzzy.Reload.Revision

/-! The execution signature (`plan.rs`): the bytes that are hashed to tell one workload from another.

    The encoder writes every length and every choice in front of what it is about, so the bytes can be
    taken apart again. A working directory is a path, which is bytes, and is written as its display, which
    is its lossy text: this is all that the bytes can tell of it. Plans elsewhere in this development have
    their paths as texts; here a task is what `TaskPlan::encode` reads, with the path's bytes. -/

namespace Funzzy

open Codec CanonicalEncoder

/-! ### The encoder -/

/-- What `TaskPlan::encode` reads of a task. The environment is a map, in the order of its keys. -/
structure SignedTask where
  name : String
  parallel : Option String := none
  groupOccurrence : Option String := none
  commands : List CommandLine
  recoveryCommands : Option (List CommandLine) := none
  cwd : Option (List UInt8) := none
  environment : List (String × String) := []
  deriving DecidableEq

inductive SignedStage where
  | serial (task : SignedTask)
  | parallel (group : String) (tasks : List SignedTask)
  deriving DecidableEq

def SignedStage.tasks : SignedStage → List SignedTask
  | .serial task => [task]
  | .parallel _ tasks => tasks

/-- A plan with the settings of its execution. -/
structure Execution where
  schemaVersion : Nat
  jobs : Nat
  failFast : Bool
  stages : List SignedStage
  deriving DecidableEq

def Execution.tasks (e : Execution) : List SignedTask := e.stages.flatMap SignedStage.tasks

def encodeCommand : CommandLine → List UInt8
  | .shell command => [0] ++ string command
  | .argv argv => [1] ++ strings argv

def encodeCommands (commands : List CommandLine) : List UInt8 := counted u64 encodeCommand commands

/-- The text of a path behind its length. -/
def encodeText (text : List UInt8) : List UInt8 := sized u64 id text

def encodeVariable (entry : String × String) : List UInt8 := string entry.1 ++ string entry.2

def SignedTask.encode (task : SignedTask) : List UInt8 :=
  string task.name ++ (optionalString task.parallel ++ (optionalString task.groupOccurrence
    ++ (encodeCommands task.commands ++ (optional [1] [0] encodeCommands task.recoveryCommands
    ++ (optional [1] [0] encodeText (task.cwd.map Utf8.lossy)
    ++ counted u64 encodeVariable task.environment)))))

def SignedStage.encode : SignedStage → List UInt8
  | .serial task => [0] ++ task.encode
  | .parallel group tasks => [1] ++ (string group ++ counted u64 SignedTask.encode tasks)

/-- The bytes `execution_signature_for` feeds to the digest. -/
def Execution.canonical (e : Execution) : List UInt8 :=
  u64 e.schemaVersion ++ (u64 e.jobs ++ (bool e.failFast ++ counted u64 SignedStage.encode e.stages))

/-! ### Values in memory -/

def CommandLine.InMemory : CommandLine → Prop
  | .shell text => Fits text
  | .argv arguments => AllFit arguments

def CommandsFit (commands : List CommandLine) : Prop :=
  commands.length < 256 ^ 8 ∧ ∀ command ∈ commands, command.InMemory

/-- The texts and lists of a task are values in memory, so their lengths are machine words. -/
structure SignedTask.InMemory (task : SignedTask) : Prop where
  name : Fits task.name
  parallel : ∀ group, task.parallel = some group → Fits group
  groupOccurrence : ∀ occurrence, task.groupOccurrence = some occurrence → Fits occurrence
  commands : CommandsFit task.commands
  recoveryCommands : ∀ commands, task.recoveryCommands = some commands → CommandsFit commands
  cwd : ∀ text, task.cwd.map Utf8.lossy = some text → text.length < 256 ^ 8
  environment : task.environment.length < 256 ^ 8
    ∧ ∀ entry ∈ task.environment, Fits entry.1 ∧ Fits entry.2

def SignedStage.InMemory : SignedStage → Prop
  | .serial task => task.InMemory
  | .parallel group tasks => Fits group ∧ tasks.length < 256 ^ 8 ∧ ∀ task ∈ tasks, task.InMemory

structure Execution.InMemory (e : Execution) : Prop where
  schemaVersion : e.schemaVersion < 256 ^ 8
  jobs : e.jobs < 256 ^ 8
  stages : e.stages.length < 256 ^ 8 ∧ ∀ stage ∈ e.stages, stage.InMemory

/-! ### What the bytes tell -/

theorem tags_differ (x y : List UInt8) : [0] ++ x ≠ [1] ++ y := by simp

theorem encodeCommand_delimits : Delimits CommandLine.InMemory encodeCommand := by
  intro a b x y ha hb h
  cases a with
  | shell command =>
    cases b with
    | shell other =>
      simp only [encodeCommand, List.append_assoc] at h
      obtain ⟨rfl, hrest⟩ := string_delimits _ _ _ _ ha hb (List.append_cancel_left h)
      exact ⟨rfl, hrest⟩
    | argv argv =>
      simp only [encodeCommand, List.append_assoc] at h
      exact absurd h (tags_differ _ _)
  | argv argv =>
    cases b with
    | shell other =>
      simp only [encodeCommand, List.append_assoc] at h
      exact absurd h.symm (tags_differ _ _)
    | argv others =>
      simp only [encodeCommand, List.append_assoc] at h
      obtain ⟨rfl, hrest⟩ := strings_delimits _ _ _ _ ha hb (List.append_cancel_left h)
      exact ⟨rfl, hrest⟩

theorem encodeCommands_delimits : Delimits CommandsFit encodeCommands :=
  u64_delimits.counted encodeCommand_delimits

theorem encodeText_delimits :
    Delimits (fun text : List UInt8 => text.length < 256 ^ 8) encodeText :=
  u64_delimits.sized fun _ _ h => h

theorem encodeVariable_delimits :
    Delimits (fun entry : String × String => Fits entry.1 ∧ Fits entry.2) encodeVariable := by
  rintro ⟨key, value⟩ ⟨key', value'⟩ x y ha hb h
  simp only [encodeVariable, List.append_assoc] at h
  obtain ⟨rfl, hvalue⟩ := string_delimits _ _ _ _ ha.1 hb.1 h
  obtain ⟨rfl, hrest⟩ := string_delimits _ _ _ _ ha.2 hb.2 hvalue
  exact ⟨rfl, hrest⟩

/-- Tasks that differ at most in the bytes of their working directories, and not in the text of them. -/
structure SignedTask.Alike (task other : SignedTask) : Prop where
  cwd : task.cwd.map Utf8.lossy = other.cwd.map Utf8.lossy
  rest : { task with cwd := none } = { other with cwd := none }

/-- The bytes of a task tell everything of it, of its working directory the text. -/
theorem SignedTask.encode_alike {task other : SignedTask} {x y : List UInt8} (htask : task.InMemory)
    (hother : other.InMemory) (h : task.encode ++ x = other.encode ++ y) :
    task.Alike other ∧ x = y := by
  simp only [SignedTask.encode, List.append_assoc] at h
  obtain ⟨hname, h⟩ := string_delimits _ _ _ _ htask.name hother.name h
  obtain ⟨hparallel, h⟩ := optionalString_delimits _ _ _ _ htask.parallel hother.parallel h
  obtain ⟨hoccurrence, h⟩ :=
    optionalString_delimits _ _ _ _ htask.groupOccurrence hother.groupOccurrence h
  obtain ⟨hcommands, h⟩ := encodeCommands_delimits _ _ _ _ htask.commands hother.commands h
  obtain ⟨hrecovery, h⟩ := encodeCommands_delimits.optional marks_differ _ _ _ _
    htask.recoveryCommands hother.recoveryCommands h
  obtain ⟨hcwd, h⟩ := encodeText_delimits.optional marks_differ _ _ _ _ htask.cwd hother.cwd h
  obtain ⟨henvironment, h⟩ := (u64_delimits.counted encodeVariable_delimits) _ _ _ _
    htask.environment hother.environment h
  refine ⟨⟨hcwd, ?_⟩, h⟩
  rw [hname, hparallel, hoccurrence, hcommands, hrecovery, henvironment]

/-- Stages of one shape whose tasks are alike. -/
inductive SignedStage.Alike : SignedStage → SignedStage → Prop
  | serial {task other : SignedTask} : task.Alike other → Alike (.serial task) (.serial other)
  | parallel {group : String} {tasks others : List SignedTask} :
      List.Forall₂ SignedTask.Alike tasks others → Alike (.parallel group tasks) (.parallel group others)

theorem SignedStage.encode_alike {stage other : SignedStage} {x y : List UInt8}
    (hstage : stage.InMemory) (hother : other.InMemory)
    (h : stage.encode ++ x = other.encode ++ y) : stage.Alike other ∧ x = y := by
  cases stage with
  | serial task =>
    cases other with
    | serial task' =>
      simp only [SignedStage.encode, List.append_assoc] at h
      obtain ⟨halike, hrest⟩ :=
        SignedTask.encode_alike hstage hother (List.append_cancel_left h)
      exact ⟨.serial halike, hrest⟩
    | parallel group tasks =>
      simp only [SignedStage.encode, List.append_assoc] at h
      exact absurd h (tags_differ _ _)
  | parallel group tasks =>
    cases other with
    | serial task =>
      simp only [SignedStage.encode, List.append_assoc] at h
      exact absurd h.symm (tags_differ _ _)
    | parallel group' others =>
      obtain ⟨hgroup, hcount, htasks⟩ := hstage
      obtain ⟨hgroup', hcount', hothers⟩ := hother
      simp only [SignedStage.encode, counted, List.append_assoc] at h
      obtain ⟨rfl, hbehind⟩ :=
        string_delimits _ _ _ _ hgroup hgroup' (List.append_cancel_left h)
      obtain ⟨hlength, hrest⟩ := u64_delimits _ _ _ _ hcount hcount' hbehind
      obtain ⟨halike, hend⟩ := forall₂_of_flatMap
        (fun a b x y ha hb => SignedTask.encode_alike (x := x) (y := y) ha hb)
        tasks others x y hlength htasks hothers hrest
      exact ⟨.parallel halike, hend⟩

/-- The bytes of an execution tell its settings, the shape of its plan and its tasks up to likeness. -/
theorem Execution.canonical_alike {e f : Execution} (he : e.InMemory) (hf : f.InMemory)
    (h : e.canonical = f.canonical) :
    e.schemaVersion = f.schemaVersion ∧ e.jobs = f.jobs ∧ e.failFast = f.failFast
      ∧ List.Forall₂ SignedStage.Alike e.stages f.stages := by
  have hbytes : e.canonical ++ [] = f.canonical ++ [] := by rw [h]
  simp only [Execution.canonical, counted, List.append_assoc] at hbytes
  obtain ⟨hschema, hbytes⟩ := u64_delimits _ _ _ _ he.schemaVersion hf.schemaVersion hbytes
  obtain ⟨hjobs, hbytes⟩ := u64_delimits _ _ _ _ he.jobs hf.jobs hbytes
  obtain ⟨hfailFast, hbytes⟩ := bool_delimits _ _ _ _ trivial trivial hbytes
  obtain ⟨hlength, hbytes⟩ := u64_delimits _ _ _ _ he.stages.1 hf.stages.1 hbytes
  obtain ⟨halike, -⟩ := forall₂_of_flatMap
    (fun a b x y ha hb => SignedStage.encode_alike (x := x) (y := y) ha hb)
    e.stages f.stages [] [] hlength he.stages.2 hf.stages.2 hbytes
  exact ⟨hschema, hjobs, hfailFast, halike⟩

/-! ### Working directories -/

/-- Wherever two plans have working directories with one text at the same place, these are one
    directory. -/
def TextsTell (e f : Execution) : Prop :=
  ∀ pair ∈ e.tasks.zip f.tasks,
    pair.1.cwd.map Utf8.lossy = pair.2.cwd.map Utf8.lossy → pair.1.cwd = pair.2.cwd

theorem SignedTask.Alike.eq {task other : SignedTask} (h : task.Alike other)
    (hcwd : task.cwd = other.cwd) : task = other := by
  have hrest := h.rest
  cases task
  cases other
  simp only [SignedTask.mk.injEq] at hrest hcwd ⊢
  exact ⟨hrest.1, hrest.2.1, hrest.2.2.1, hrest.2.2.2.1, hrest.2.2.2.2.1, hcwd, hrest.2.2.2.2.2.2⟩

theorem alike_tasks_eq {tasks others : List SignedTask}
    (h : List.Forall₂ SignedTask.Alike tasks others)
    (htell : ∀ pair ∈ tasks.zip others,
      pair.1.cwd.map Utf8.lossy = pair.2.cwd.map Utf8.lossy → pair.1.cwd = pair.2.cwd) :
    tasks = others := by
  induction h with
  | nil => rfl
  | cons halike _ ih =>
    rw [List.zip_cons_cons] at htell
    rw [halike.eq (htell _ List.mem_cons_self halike.cwd),
      ih fun pair hpair => htell pair (List.mem_cons_of_mem _ hpair)]

theorem SignedStage.Alike.tasks {stage other : SignedStage} (h : stage.Alike other) :
    List.Forall₂ SignedTask.Alike stage.tasks other.tasks := by
  cases h with
  | serial halike => exact .cons halike .nil
  | parallel halike => exact halike

theorem SignedStage.Alike.eq {stage other : SignedStage} (h : stage.Alike other)
    (htasks : stage.tasks = other.tasks) : stage = other := by
  cases h with
  | serial halike => exact congrArg _ (List.cons.inj htasks).1
  | parallel halike => exact congrArg _ htasks

theorem alike_stages_eq {stages others : List SignedStage}
    (h : List.Forall₂ SignedStage.Alike stages others)
    (htell : ∀ pair ∈ (stages.flatMap SignedStage.tasks).zip (others.flatMap SignedStage.tasks),
      pair.1.cwd.map Utf8.lossy = pair.2.cwd.map Utf8.lossy → pair.1.cwd = pair.2.cwd) :
    stages = others := by
  induction h with
  | nil => rfl
  | cons halike _ ih =>
    rw [List.flatMap_cons, List.flatMap_cons, List.zip_append halike.tasks.length_eq] at htell
    have hfirst := alike_tasks_eq halike.tasks fun pair hpair =>
      htell pair (List.mem_append_left _ hpair)
    rw [halike.eq hfirst, ih fun pair hpair => htell pair (List.mem_append_right _ hpair)]

/-- Two executions with the same canonical bytes are the same exactly if their working directories can be
    told by their texts. -/
theorem canonical_injective_iff (e f : Execution) (he : e.InMemory) (hf : f.InMemory)
    (hbytes : e.canonical = f.canonical) : e = f ↔ TextsTell e f := by
  constructor
  · rintro rfl pair hpair _
    obtain ⟨task, other⟩ := pair
    obtain ⟨i, hi⟩ := List.mem_iff_getElem?.mp hpair
    obtain ⟨htask, hother⟩ := List.getElem?_zip_eq_some.mp hi
    rw [htask] at hother
    cases hother
    rfl
  · intro htell
    obtain ⟨hschema, hjobs, hfailFast, halike⟩ := Execution.canonical_alike he hf hbytes
    have hstages := alike_stages_eq halike htell
    cases e
    cases f
    simp only [Execution.mk.injEq]
    exact ⟨hschema, hjobs, hfailFast, hstages⟩

/-- Well-formed paths are told by their texts. -/
theorem textsTell_of_valid {e f : Execution}
    (he : ∀ task ∈ e.tasks, ∀ cwd, task.cwd = some cwd → ∀ c ∈ Utf8.chunks cwd, c.valid = true)
    (hf : ∀ task ∈ f.tasks, ∀ cwd, task.cwd = some cwd → ∀ c ∈ Utf8.chunks cwd, c.valid = true) :
    TextsTell e f := by
  rintro ⟨task, other⟩ hpair htexts
  obtain ⟨htask, hother⟩ := List.of_mem_zip hpair
  have hid : ∀ {cwd : Option (List UInt8)},
      (∀ path, cwd = some path → ∀ c ∈ Utf8.chunks path, c.valid = true) →
      cwd.map Utf8.lossy = cwd := by
    intro cwd h
    cases cwd with
    | none => rfl
    | some path => rw [Option.map_some, Utf8.lossy_of_valid (h path rfl)]
  rwa [hid (he task htask), hid (hf other hother)] at htexts

/-! ### Plans with their paths as texts -/

def TaskPlan.signed (task : TaskPlan) : SignedTask where
  name := task.name
  parallel := task.parallel
  groupOccurrence := task.groupOccurrence
  commands := task.commands
  recoveryCommands := task.recoveryCommands
  cwd := task.context.cwd.map bytes
  environment := task.context.environment

def Stage.signed : Stage → SignedStage
  | .serial task => .serial task.signed
  | .parallel group tasks => .parallel group (tasks.map TaskPlan.signed)

/-- `RunPlan::execution_signature`, before the digest. -/
def RunPlan.execution (plan : RunPlan) (schemaVersion jobs : Nat) (failFast : Bool) : Execution :=
  ⟨schemaVersion, jobs, failFast, plan.stages.map Stage.signed⟩

theorem valid_bytes (text : String) : ∀ c ∈ Utf8.chunks (bytes text), c.valid = true := by
  have hencode : bytes text = text.toList.flatMap String.utf8EncodeChar := by
    have harray : text.toByteArray = text.toList.utf8Encode := by
      rw [← String.toByteArray_ofList, String.ofList_toList]
    rw [bytes, harray, List.utf8Encode, List.toList_data_toByteArray]
  intro c hc
  rw [hencode, Utf8.chunks_encode] at hc
  obtain ⟨_, -, rfl⟩ := List.mem_map.mp hc
  rfl

theorem RunPlan.execution_valid (plan : RunPlan) (schemaVersion jobs : Nat) (failFast : Bool) :
    ∀ task ∈ (plan.execution schemaVersion jobs failFast).tasks, ∀ cwd, task.cwd = some cwd →
      ∀ c ∈ Utf8.chunks cwd, c.valid = true := by
  have hsigned : ∀ (plan : TaskPlan) cwd, plan.signed.cwd = some cwd →
      ∀ c ∈ Utf8.chunks cwd, c.valid = true := by
    intro plan cwd hcwd
    obtain ⟨text, -, rfl⟩ := Option.map_eq_some_iff.mp hcwd
    exact valid_bytes text
  intro task htask cwd hcwd
  obtain ⟨stage, hstage, hmem⟩ := List.mem_flatMap.mp htask
  obtain ⟨original, -, rfl⟩ := List.mem_map.mp hstage
  cases original with
  | serial plan =>
    rw [List.mem_singleton.mp hmem] at hcwd
    exact hsigned plan cwd hcwd
  | parallel group plans =>
    obtain ⟨plan, -, rfl⟩ := List.mem_map.mp hmem
    exact hsigned plan cwd hcwd

/-- Plans whose paths are texts are told apart by their bytes, in everything the signature is about. -/
theorem RunPlan.canonical_injective {plan other : RunPlan} {schemaVersion jobs schemaVersion' jobs' : Nat}
    {failFast failFast' : Bool}
    (hplan : (plan.execution schemaVersion jobs failFast).InMemory)
    (hother : (other.execution schemaVersion' jobs' failFast').InMemory)
    (h : (plan.execution schemaVersion jobs failFast).canonical
      = (other.execution schemaVersion' jobs' failFast').canonical) :
    plan.execution schemaVersion jobs failFast = other.execution schemaVersion' jobs' failFast' := by
  obtain ⟨hschema, hjobs, hfailFast, halike⟩ := Execution.canonical_alike hplan hother h
  have htell := textsTell_of_valid (plan.execution_valid schemaVersion jobs failFast)
    (other.execution_valid schemaVersion' jobs' failFast')
  have hstages := alike_stages_eq halike htell
  simp only [RunPlan.execution, Execution.mk.injEq] at hschema hjobs hfailFast hstages ⊢
  exact ⟨hschema, hjobs, hfailFast, hstages⟩

/-! ### Paths that are no text -/

/-- One task without a working directory of its own, in a workspace whose root ends in the given byte. -/
def rootedIn (last : UInt8) : Execution :=
  ⟨1, 1, false, [.serial { name := "t", commands := [.shell "make"], cwd := some [0x2F, 0x77, last] }]⟩

theorem rootedIn_inMemory (last : UInt8) (h : (Utf8.lossy [0x2F, 0x77, last]).length < 256 ^ 8) :
    (rootedIn last).InMemory := by
  have hone : 1 < 256 ^ 8 := by decide
  refine ⟨hone, hone, hone, fun stage hstage => ?_⟩
  rw [List.mem_singleton.mp hstage]
  constructor
  · change (bytes "t").length < 256 ^ 8
    decide
  · intro group hgroup
    cases hgroup
  · intro occurrence hoccurrence
    cases hoccurrence
  · refine ⟨hone, fun command hcommand => ?_⟩
    rw [List.mem_singleton.mp hcommand]
    change (bytes "make").length < 256 ^ 8
    decide
  · intro commands hcommands
    cases hcommands
  · intro text htext
    cases htext
    exact h
  · exact ⟨Nat.lt_trans Nat.one_pos hone, fun entry hentry => absurd hentry List.not_mem_nil⟩

theorem canonical_injective_rooted :
    (rootedIn 0x61).InMemory ∧ (rootedIn 0x61).canonical = (rootedIn 0x61).canonical
      ∧ TextsTell (rootedIn 0x61) (rootedIn 0x61) := by
  have hmemory := rootedIn_inMemory 0x61 (by decide)
  exact ⟨hmemory, rfl, (canonical_injective_iff _ _ hmemory hmemory rfl).mp rfl⟩

/-- Two roots that are no text and differ in a byte are displayed alike, and so are their plans. -/
theorem canonical_collides :
    (rootedIn 0xFF).InMemory ∧ (rootedIn 0xFE).InMemory
      ∧ (rootedIn 0xFF).canonical = (rootedIn 0xFE).canonical ∧ rootedIn 0xFF ≠ rootedIn 0xFE :=
  ⟨rootedIn_inMemory 0xFF (by decide), rootedIn_inMemory 0xFE (by decide), by decide, by decide⟩

end Funzzy
