import Mathlib.Algebra.Order.Ring.Int
import Mathlib.Data.List.Nodup
import Mathlib.Algebra.BigOperators.Group.List.Basic
import Mathlib.Order.Bounds.Basic
import Funzzy.Lib.Machine

/-! Retained task output: the capture buffers of `cmd.rs` and the registry of `output.rs`.

    A registry keeps the final captures of the newest generations. Three counters are kept by hand: the
    bytes of a task, of a generation and of the whole registry. `record` moves them by differences, so
    the subtractions of the source are modelled as checked ones and a run that underflows has no result.
    The main theorem says that no run does, that the counters are the sums they stand for, and that what
    is evicted is the shortest front of the queue that brings it back within its limits. -/

namespace Funzzy

/-! ### Captures -/

/-- `CAPTURE_STREAM_BYTES` -/
def captureStreamBytes : Nat := 64 * 1024

/-- The newest bytes of one stream, up to a bound. -/
structure CaptureBuffer where
  bound : Nat
  bytes : List UInt8
  observed : Nat
  truncated : Bool
  deriving DecidableEq

namespace CaptureBuffer

def new (bound : Nat) : CaptureBuffer := ⟨bound, [], 0, false⟩

def append (buffer : CaptureBuffer) (chunk : List UInt8) : CaptureBuffer :=
  let observed := buffer.observed + chunk.length
  let bytes := buffer.bytes ++ chunk
  let excess := bytes.length - buffer.bound
  if 0 < excess then
    { buffer with observed, bytes := bytes.drop excess, truncated := true }
  else
    { buffer with observed, bytes }

def retainedBytes (buffer : CaptureBuffer) : Nat := buffer.bytes.length

/-- Appending keeps the newest bytes: a suffix of everything seen, as long as the bound allows. -/
theorem append_bytes (buffer : CaptureBuffer) (chunk : List UInt8) :
    (buffer.append chunk).bytes
      = (buffer.bytes ++ chunk).drop ((buffer.bytes ++ chunk).length - buffer.bound) := by
  unfold append
  dsimp only
  split
  · rfl
  · next h =>
    rw [Nat.eq_zero_of_not_pos h, List.drop_zero]

end CaptureBuffer

/-- The final captures of one task. -/
structure CaptureData where
  stdout : CaptureBuffer
  stderr : CaptureBuffer
  deriving DecidableEq

/-! ### The registry -/

/-- `OUTPUT_RETENTION_BYTES` -/
def outputRetentionBytes : Nat := 2 ^ 20

/-- `OUTPUT_MAX_GENERATIONS` -/
def outputMaxGenerations : Nat := 128

structure TaskOutput where
  task : String
  stdout : CaptureBuffer
  stderr : CaptureBuffer
  deriving DecidableEq

def TaskOutput.retainedBytes (output : TaskOutput) : Nat :=
  output.stdout.retainedBytes + output.stderr.retainedBytes

structure GenerationOutput where
  generation : Nat
  revision : Option Nat
  revisionHash : Option String
  tasks : List TaskOutput
  bytes : Nat
  deriving DecidableEq

/-- The arguments of one `record` call. -/
structure Record where
  generation : Nat
  task : String
  data : CaptureData
  revision : Option Nat
  revisionHash : Option String
  deriving DecidableEq

def Record.bytes (call : Record) : Nat :=
  call.data.stdout.retainedBytes + call.data.stderr.retainedBytes

def Record.output (call : Record) : TaskOutput :=
  ⟨call.task, call.data.stdout, call.data.stderr⟩

/-- `OutputInner`: the oldest generation first. -/
structure OutputRegistry where
  generations : List GenerationOutput
  totalBytes : Nat
  deriving DecidableEq

namespace OutputRegistry

def new : OutputRegistry := ⟨[], 0⟩

/-- Subtraction of two `usize`s, which must not underflow. -/
def checkedSub (a b : Nat) : Option Nat := if b ≤ a then some (a - b) else none

/-- The bytes a task of this name already holds in an entry. -/
def oldBytes (entry : GenerationOutput) (task : String) : Nat :=
  ((entry.tasks.find? fun existing => existing.task == task).map TaskOutput.retainedBytes).getD 0

/-- An entry with one task's capture replaced, or added when the task is new to it. -/
def replaceTask (entry : GenerationOutput) (call : Record) : Option GenerationOutput := do
  let bytes ← checkedSub (entry.bytes + call.bytes) (oldBytes entry call.task)
  return { entry with
    bytes
    tasks := (entry.tasks.filter fun existing => existing.task != call.task) ++ [call.output] }

/-- The first half of `record`: the capture joins the entry of its generation, or a new last entry. -/
def merge (registry : OutputRegistry) (call : Record) : Option OutputRegistry :=
  match registry.generations.findIdx? fun entry => entry.generation == call.generation with
  | some i => do
    let entry ← registry.generations[i]?
    let replaced ← replaceTask entry call
    let totalBytes ← checkedSub (registry.totalBytes + call.bytes) (oldBytes entry call.task)
    return ⟨registry.generations.set i replaced, totalBytes⟩
  | none =>
    some ⟨registry.generations ++
        [⟨call.generation, call.revision, call.revisionHash, [call.output], call.bytes⟩],
      registry.totalBytes + call.bytes⟩

/-- The second half of `record`: while a limit is exceeded, the oldest generation goes. -/
def evict : List GenerationOutput → Nat → OutputRegistry
  | [], totalBytes => ⟨[], totalBytes⟩
  | entry :: rest, totalBytes =>
    if outputRetentionBytes < totalBytes ∨ outputMaxGenerations < rest.length + 1 then
      evict rest (totalBytes - entry.bytes)
    else
      ⟨entry :: rest, totalBytes⟩

def record (registry : OutputRegistry) (call : Record) : Option OutputRegistry :=
  (merge registry call).map fun merged => evict merged.generations merged.totalBytes

/-! ### What the counters stand for -/

/-- The entry counts the bytes of its tasks, and no task is in it twice. -/
structure EntrySound (entry : GenerationOutput) : Prop where
  bytes_eq : entry.bytes = (entry.tasks.map TaskOutput.retainedBytes).sum
  tasks_nodup : (entry.tasks.map TaskOutput.task).Nodup

/-- The registry counts the bytes of its entries, no generation is in it twice, and every entry is
    sound itself. -/
structure Sound (registry : OutputRegistry) : Prop where
  totalBytes_eq : registry.totalBytes = (registry.generations.map GenerationOutput.bytes).sum
  generations_nodup : (registry.generations.map GenerationOutput.generation).Nodup
  entries : ∀ entry ∈ registry.generations, EntrySound entry

/-- Both limits hold of a queue of entries. -/
def Within (entries : List GenerationOutput) : Prop :=
  (entries.map GenerationOutput.bytes).sum ≤ outputRetentionBytes
    ∧ entries.length ≤ outputMaxGenerations

/-- The generations held once a capture for `generation` is in: a new one is the newest. -/
def arrive (held : List Nat) (generation : Nat) : List Nat :=
  if generation ∈ held then held else held ++ [generation]

theorem checkedSub_eq_some {a b : Nat} (h : b ≤ a) : checkedSub a b = some (a - b) := if_pos h

/-! ### Replacing a task -/

/-- Without its task of one name, a list of captures is short by just that task's bytes. -/
theorem sum_filter_add_old (task : String) (tasks : List TaskOutput)
    (hnodup : (tasks.map TaskOutput.task).Nodup) :
    ((tasks.filter fun existing => existing.task != task).map TaskOutput.retainedBytes).sum
        + ((tasks.find? fun existing => existing.task == task).map TaskOutput.retainedBytes).getD 0
      = (tasks.map TaskOutput.retainedBytes).sum := by
  induction tasks with
  | nil => rfl
  | cons head tail ih =>
    rw [List.map_cons, List.nodup_cons] at hnodup
    by_cases hhead : head.task = task
    · -- the task stands here and, the names being distinct, nowhere behind
      have hnone : (tail.filter fun existing => existing.task != task) = tail := by
        refine List.filter_eq_self.mpr fun other hother => ?_
        rw [bne_iff_ne, ← hhead]
        intro heq
        exact hnodup.1 (heq ▸ List.mem_map_of_mem hother)
      simp only [List.filter_cons, List.find?_cons, hhead, bne_self_eq_false, beq_self_eq_true,
        Bool.false_eq_true, if_false, hnone, Option.map_some, Option.getD_some, List.map_cons,
        List.sum_cons]
      omega
    · have := ih hnodup.2
      have hbne : (head.task != task) = true := bne_iff_ne.mpr hhead
      have hbeq : (head.task == task) = false := beq_eq_false_iff_ne.mpr hhead
      simp only [List.filter_cons, List.find?_cons, hbne, hbeq, if_true, List.map_cons,
        List.sum_cons]
      omega

theorem EntrySound.old_le {entry : GenerationOutput} (h : EntrySound entry) (task : String) :
    oldBytes entry task ≤ entry.bytes := by
  have := sum_filter_add_old task entry.tasks h.tasks_nodup
  rw [h.bytes_eq]
  unfold oldBytes
  omega

/-- Replacing a task in a sound entry does not underflow, keeps the entry sound and moves its count by
    the difference of the two captures. -/
theorem EntrySound.replace {entry : GenerationOutput} (h : EntrySound entry) (call : Record) :
    ∃ replaced, replaceTask entry call = some replaced ∧ EntrySound replaced
      ∧ replaced.generation = entry.generation
      ∧ replaced.bytes + oldBytes entry call.task = entry.bytes + call.bytes := by
  have hold := h.old_le call.task
  have hsum := sum_filter_add_old call.task entry.tasks h.tasks_nodup
  refine ⟨{ entry with
    bytes := entry.bytes + call.bytes - oldBytes entry call.task
    tasks := (entry.tasks.filter fun existing => existing.task != call.task) ++ [call.output] },
    ?_, ⟨?_, ?_⟩, rfl, ?_⟩
  · rw [replaceTask, checkedSub_eq_some (by omega)]
    rfl
  · simp only [List.map_append, List.sum_append, List.map_cons, List.map_nil, List.sum_singleton]
    rw [h.bytes_eq]
    unfold oldBytes Record.output Record.bytes TaskOutput.retainedBytes at *
    dsimp only at *
    omega
  · rw [List.map_append, List.nodup_append]
    refine ⟨(List.filter_sublist.map _).nodup h.tasks_nodup, List.nodup_singleton _, ?_⟩
    intro name hname other hother
    obtain ⟨existing, hexisting, rfl⟩ := List.mem_map.mp hname
    rw [List.mem_singleton.mp hother]
    exact bne_iff_ne.mp (List.mem_filter.mp hexisting).2
  · dsimp only
    omega

/-! ### Merging a capture -/

/-- The first half of `record` keeps a registry sound, underflows nowhere, and at most adds the
    generation at the new end of the queue. -/
theorem Sound.merge {registry : OutputRegistry} (h : Sound registry) (call : Record) :
    ∃ merged, merge registry call = some merged ∧ Sound merged
      ∧ merged.generations.map GenerationOutput.generation
        = arrive (registry.generations.map GenerationOutput.generation) call.generation := by
  unfold OutputRegistry.merge
  split
  · next i hfound =>
    -- the generation is held already: its entry changes in place
    obtain ⟨hlt, hmatch, -⟩ := List.findIdx?_eq_some_iff_getElem.mp hfound
    have hget : registry.generations[i]? = some registry.generations[i] :=
      List.getElem?_eq_getElem hlt
    obtain ⟨before, behind, hsplit, hset, -⟩ := Machine.exists_split hget
    generalize registry.generations[i] = entry at hget hsplit hmatch
    have hentry : EntrySound entry := h.entries entry (List.mem_of_getElem? hget)
    obtain ⟨replaced, hreplaced, hsound, hgeneration, hbytes⟩ := hentry.replace call
    have hold := hentry.old_le call.task
    have htotal := h.totalBytes_eq
    have hnames : (before ++ replaced :: behind).map GenerationOutput.generation
        = registry.generations.map GenerationOutput.generation := by
      rw [hsplit]
      simp [hgeneration]
    rw [hsplit] at htotal
    simp only [List.map_append, List.map_cons, List.sum_append, List.sum_cons] at htotal
    refine ⟨⟨before ++ replaced :: behind, registry.totalBytes + call.bytes
      - oldBytes entry call.task⟩, ?_, ⟨?_, ?_, ?_⟩, ?_⟩
    · rw [hget, Option.bind_eq_bind, Option.bind_some, hreplaced, Option.bind_eq_bind,
        Option.bind_some, checkedSub_eq_some (by omega), ← hset replaced]
      rfl
    · simp only [List.map_append, List.map_cons, List.sum_append, List.sum_cons]
      omega
    · rw [hnames]
      exact h.generations_nodup
    · intro other hother
      rcases List.mem_append.mp hother with hmem | hmem
      · exact h.entries other (hsplit ▸ List.mem_append_left _ hmem)
      · rcases List.mem_cons.mp hmem with rfl | hmem
        · exact hsound
        · exact h.entries other (hsplit ▸ List.mem_append_right _ (List.mem_cons_of_mem _ hmem))
    · rw [hnames, arrive, if_pos]
      rw [hsplit, ← eq_of_beq hmatch]
      exact List.mem_map_of_mem (List.mem_append_right _ List.mem_cons_self)
  · next hnone =>
    have hnew : call.generation ∉ registry.generations.map GenerationOutput.generation := by
      intro hmem
      obtain ⟨entry, hentry, heq⟩ := List.mem_map.mp hmem
      have := List.findIdx?_eq_none_iff.mp hnone entry hentry
      rw [heq, beq_self_eq_true] at this
      cases this
    refine ⟨_, rfl, ⟨?_, ?_, ?_⟩, ?_⟩
    · simp [h.totalBytes_eq]
    · rw [List.map_append, List.nodup_append]
      refine ⟨h.generations_nodup, List.nodup_singleton _, ?_⟩
      rintro held hheld other hother rfl
      rw [List.mem_singleton.mp hother] at hheld
      exact hnew hheld
    · intro other hother
      rcases List.mem_append.mp hother with hmem | hmem
      · exact h.entries other hmem
      · rw [List.mem_singleton.mp hmem]
        exact ⟨by simp [Record.output, Record.bytes, TaskOutput.retainedBytes],
          List.nodup_singleton _⟩
    · rw [List.map_append, arrive, if_neg hnew]
      rfl

/-! ### Eviction -/

/-- From a true total, the loop drops entries from the front, its total stays true, and it stops at
    the first queue within the limits. -/
theorem evict_spec (entries : List GenerationOutput) :
    ∀ totalBytes, totalBytes = (entries.map GenerationOutput.bytes).sum →
      ∃ k, (evict entries totalBytes).generations = entries.drop k
        ∧ (evict entries totalBytes).totalBytes
          = ((entries.drop k).map GenerationOutput.bytes).sum
        ∧ ((entries.take k).map GenerationOutput.bytes).sum
            + (evict entries totalBytes).totalBytes = totalBytes
        ∧ IsLeast {n | Within (entries.drop n)} k := by
  induction entries with
  | nil =>
    rintro totalBytes rfl
    exact ⟨0, rfl, rfl, rfl, ⟨Nat.zero_le _, Nat.zero_le _⟩, fun _ _ => Nat.zero_le _⟩
  | cons entry rest ih =>
    rintro totalBytes htotal
    rw [List.map_cons, List.sum_cons] at htotal
    rw [evict]
    split
    · next hexceeded =>
      obtain ⟨k, hkept, hcount, hbalance, hleast⟩ := ih (totalBytes - entry.bytes) (by omega)
      refine ⟨k + 1, hkept, hcount, ?_, hleast.1, ?_⟩
      · rw [List.take_succ_cons, List.map_cons, List.sum_cons]
        omega
      · rintro n hn
        cases n with
        | zero =>
          -- nothing dropped leaves the exceeded limit
          obtain ⟨hbytes, hlength⟩ := hn
          rw [List.drop_zero, List.map_cons, List.sum_cons] at hbytes
          rw [List.drop_zero, List.length_cons] at hlength
          omega
        | succ n => exact Nat.succ_le_succ (hleast.2 hn)
    · next hwithin =>
      refine ⟨0, rfl, ?_, ?_, ⟨?_, ?_⟩, fun _ _ => Nat.zero_le _⟩
      · simpa using htotal
      · simp
      · simp only [List.drop_zero, List.map_cons, List.sum_cons]
        omega
      · simp only [List.drop_zero, List.length_cons]
        omega

/-- What one call does to the queue: the capture joins it, then the fewest oldest entries leave it that
    bring it within the limits, and what they hold leaves the total without underflow. -/
def Retains (registry : OutputRegistry) (call : Record) (registry' : OutputRegistry) : Prop :=
  ∃ merged k, merge registry call = some merged
    ∧ merged.generations.map GenerationOutput.generation
      = arrive (registry.generations.map GenerationOutput.generation) call.generation
    ∧ registry'.generations = merged.generations.drop k
    ∧ ((merged.generations.take k).map GenerationOutput.bytes).sum + registry'.totalBytes
      = merged.totalBytes
    ∧ IsLeast {n | Within (merged.generations.drop n)} k

/-- Step lemma: a call on a sound registry succeeds and leaves a sound one within the limits. -/
theorem Sound.record {registry : OutputRegistry} (h : Sound registry) (call : Record) :
    ∃ registry', record registry call = some registry' ∧ Sound registry'
      ∧ Within registry'.generations ∧ Retains registry call registry' := by
  obtain ⟨merged, hmerge, hsound, harrive⟩ := h.merge call
  obtain ⟨k, hkept, hcount, hbalance, hleast⟩ :=
    evict_spec merged.generations merged.totalBytes hsound.totalBytes_eq
  refine ⟨evict merged.generations merged.totalBytes, ?_, ⟨?_, ?_, ?_⟩, ?_, ?_⟩
  · rw [OutputRegistry.record, hmerge]
    rfl
  · rw [hcount, hkept]
  · rw [hkept, List.map_drop]
    exact (List.drop_sublist k _).nodup hsound.generations_nodup
  · intro entry hentry
    rw [hkept] at hentry
    exact hsound.entries entry (List.mem_of_mem_drop hentry)
  · rw [hkept]
    exact hleast.1
  · exact ⟨merged, k, hmerge, harrive, hkept, hbalance, hleast⟩

theorem sound_new : Sound new := ⟨rfl, List.nodup_nil, fun _ h => absurd h List.not_mem_nil⟩

/-- Run lemma: every list of calls goes through and ends in a sound registry within its limits. -/
theorem sound_after (calls : List Record) :
    ∀ registry, Sound registry → Within registry.generations →
      ∃ registry', Machine.after record registry calls = some registry' ∧ Sound registry'
        ∧ Within registry'.generations := by
  induction calls with
  | nil => exact fun registry h hwithin => ⟨registry, rfl, h, hwithin⟩
  | cons call calls ih =>
    intro registry h _
    obtain ⟨next, hnext, hsound, hwithin, -⟩ := h.record call
    obtain ⟨registry', hafter, hrest⟩ := ih next hsound hwithin
    refine ⟨registry', ?_, hrest⟩
    rw [Machine.after, hnext]
    exact hafter

theorem sound_of_run {calls : List Record} {registry : OutputRegistry}
    (hrun : Machine.after record new calls = some registry) : Sound registry := by
  obtain ⟨same, hsame, hsound, -⟩ := sound_after calls new sound_new ⟨Nat.zero_le _, Nat.zero_le _⟩
  obtain rfl := Option.some.inj (hrun.symm.trans hsame)
  exact hsound

/-- After any calls the counters are the sums they stand for, generations and task names are unique
    and the limits hold; and whatever is recorded next goes through without underflow and evicts the
    fewest oldest generations that bring the registry back within its limits. -/
theorem record_invariant (calls : List Record) :
    ∃ registry, Machine.after record new calls = some registry ∧ Sound registry
      ∧ registry.totalBytes ≤ outputRetentionBytes
      ∧ registry.generations.length ≤ outputMaxGenerations
      ∧ ∀ call, ∃ registry', record registry call = some registry'
        ∧ Retains registry call registry' := by
  obtain ⟨registry, hafter, hsound, hbytes, hlength⟩ :=
    sound_after calls new sound_new ⟨Nat.zero_le _, Nat.zero_le _⟩
  refine ⟨registry, hafter, hsound, hsound.totalBytes_eq ▸ hbytes, hlength, fun call => ?_⟩
  obtain ⟨registry', hrecord, -, -, hretains⟩ := hsound.record call
  exact ⟨registry', hrecord, hretains⟩

end OutputRegistry

end Funzzy
