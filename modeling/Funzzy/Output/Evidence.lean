import Funzzy.Control.Wire
import Funzzy.Output.Lookup
import Mathlib.Data.Finset.Card

/-! Failure evidence (`failure_evidence` of `output.rs`): what is shown of one failed task.

    The lines of the primary task's streams are shown up to a limit, and the other tasks of the
    generation are counted. The count goes over everything that is retained, so it is the number of
    further failed tasks only where as many tasks are retained as failed. -/

namespace Funzzy

/-! ### The evidence -/

/-- `FailureEvidence`, with the bytes of its excerpt. -/
structure RawEvidence where
  excerpt : List UInt8
  lines : Nat
  truncated : Bool
  totalObservedBytes : Nat
  retainedBytes : Nat
  retrieve : String
  outputRef : Option OutputRef
  additionalFailedTasks : Nat
  deriving DecidableEq

/-- `shell_quote` -/
def shellQuote (task : String) : List Char :=
  '\x27' :: task.toList.flatMap (fun c => if c = '\x27' then ['\x27', '\\', '\x27', '\x27'] else [c])
    ++ ['\x27']

/-- `legacy_retrieve_command` -/
def legacyRetrieveCommand (generation : Nat) (task : String) : String :=
  String.ofList ("fzz control output --generation ".toList ++ Nat.toDigits 10 generation
    ++ " --task ".toList ++ shellQuote task ++ " --tail 80".toList)

/-- `output_ref` -/
def outputRef (instanceToken : String) (generation : Nat) (task : String) : OutputRef where
  instanceToken
  generation
  task
  mode := "tail"
  tail := 80
  maxBytes := defaultPageBytes
  retrieve := String.ofList ("fzz control output --instance ".toList ++ shellQuote instanceToken
    ++ " --generation ".toList ++ Nat.toDigits 10 generation ++ " --task ".toList ++ shellQuote task
    ++ " --tail 80".toList)

/-- The running totals of the loop over the tasks. -/
structure EvidenceTotals where
  excerpt : List UInt8
  lines : Nat
  truncated : Bool
  totalObserved : Nat
  totalRetained : Nat
  additional : Nat

namespace EvidenceTotals

def zero : EvidenceTotals := ⟨[], 0, false, 0, 0, 0⟩

/-- The loop over the lines of one stream, which ends at the limit. -/
def takeLines (maxLines : Nat) : List (List UInt8) → EvidenceTotals → EvidenceTotals
  | [], totals => totals
  | line :: rest, totals =>
    if maxLines ≤ totals.lines then { totals with truncated := true }
    else
      takeLines maxLines rest { totals with excerpt := totals.excerpt ++ line, lines := totals.lines + 1 }

/-- One task of the loop. -/
def visit (primary : String) (maxLines : Nat) (totals : EvidenceTotals) (output : TaskOutput) :
    EvidenceTotals :=
  if output.task ≠ primary then { totals with additional := totals.additional + 1 }
  else
    let counted :=
      { totals with
        totalObserved := totals.totalObserved + (output.stdout.observed + output.stderr.observed)
        totalRetained :=
          totals.totalRetained + (output.stdout.retainedBytes + output.stderr.retainedBytes)
        truncated := totals.truncated || (output.stdout.truncated || output.stderr.truncated) }
    takeLines maxLines (splitInclusive (Utf8.lossy output.stderr.bytes))
      (takeLines maxLines (splitInclusive (Utf8.lossy output.stdout.bytes)) counted)

end EvidenceTotals

/-- The first retained task that failed, or else the first one. -/
def primaryTask (tasks : List TaskOutput) (failedTasks : List String) : Option String :=
  ((tasks.map TaskOutput.task).find? fun id => failedTasks.any fun failed => failed == id).or
    (tasks.head?.map TaskOutput.task)

/-- `failure_evidence` -/
def OutputRegistry.failureEvidence (registry : OutputRegistry) (generation maxLines : Nat)
    (instanceToken : String) (failedTasks : List String) : Option RawEvidence := do
  let entry ← registry.generations.find? fun entry => entry.generation == generation
  let primary ← primaryTask entry.tasks failedTasks
  let totals := entry.tasks.foldl (EvidenceTotals.visit primary maxLines) .zero
  return {
    excerpt := totals.excerpt
    lines := totals.lines
    truncated := totals.truncated
    totalObservedBytes := totals.totalObserved
    retainedBytes := totals.totalRetained
    retrieve := legacyRetrieveCommand generation primary
    outputRef := if 0 < totals.totalRetained ∧ primary ≠ "" then
        some (Funzzy.outputRef instanceToken generation primary)
      else none
    additionalFailedTasks := totals.additional }

/-! ### The lines that are shown -/

/-- The lines of a task, stdout before stderr. -/
def TaskOutput.lines (output : TaskOutput) : List (List UInt8) :=
  splitInclusive (Utf8.lossy output.stdout.bytes) ++ splitInclusive (Utf8.lossy output.stderr.bytes)

/-- The text of a task, stdout before stderr. -/
def TaskOutput.text (output : TaskOutput) : List UInt8 :=
  Utf8.lossy output.stdout.bytes ++ Utf8.lossy output.stderr.bytes

theorem TaskOutput.flatten_lines (output : TaskOutput) : output.lines.flatten = output.text := by
  rw [lines, List.flatten_append, flatten_splitInclusive, flatten_splitInclusive, text]

theorem ne_nil_of_mem_splitInclusive {text line : List UInt8} (h : line ∈ splitInclusive text) :
    line ≠ [] := by
  induction text generalizing line with
  | nil => exact absurd h List.not_mem_nil
  | cons b rest ih =>
    rw [splitInclusive] at h
    split at h
    · rcases List.mem_cons.mp h with rfl | hmem
      · exact List.cons_ne_nil _ _
      · exact ih hmem
    · split at h
      · rw [List.mem_singleton.mp h]
        exact List.cons_ne_nil _ _
      · next first lines hlines =>
        rcases List.mem_cons.mp h with rfl | hmem
        · exact List.cons_ne_nil _ _
        · exact ih (hlines ▸ List.mem_cons_of_mem first hmem)

/-- Lines that are not shown are missed in the text. -/
theorem flatten_take_eq_iff {lines : List (List UInt8)} (h : ∀ line ∈ lines, line ≠ []) (n : Nat) :
    (lines.take n).flatten = lines.flatten ↔ lines.length ≤ n := by
  constructor
  · intro heq
    have hsplit := congrArg List.flatten (List.take_append_drop n lines)
    rw [List.flatten_append, heq] at hsplit
    have hnone : (lines.drop n).flatten = [] := List.append_right_eq_self.mp hsplit
    refine List.drop_eq_nil_iff.mp ?_
    by_contra hdrop
    obtain ⟨line, rest, hcons⟩ := List.exists_cons_of_ne_nil hdrop
    have hmem : line ∈ lines := List.mem_of_mem_drop (hcons ▸ List.mem_cons_self)
    rw [hcons, List.flatten_cons, List.append_eq_nil_iff] at hnone
    exact h line hmem hnone.1
  · intro hle
    rw [List.take_of_length_le hle]

theorem lineCount_append_le (text more : List UInt8) :
    lineCount (text ++ more) ≤ lineCount text + lineCount more := by
  rw [lineCount, lineCount, lineCount, List.count_append]
  by_cases hmore : more = []
  · subst hmore
    simp
  · rw [List.getLast?_append_of_ne_nil text hmore]
    omega

/-- Pieces make no more lines together than there are of them. -/
theorem lineCount_flatten_le {lines : List (List UInt8)} (h : ∀ line ∈ lines, lineCount line ≤ 1) :
    lineCount lines.flatten ≤ lines.length := by
  induction lines with
  | nil => exact Nat.zero_le _
  | cons line lines ih =>
    have hfirst := h line List.mem_cons_self
    have hrest := ih fun other hother => h other (List.mem_cons_of_mem line hother)
    have happend := lineCount_append_le line lines.flatten
    rw [List.flatten_cons, List.length_cons]
    omega

theorem lineCount_of_mem_splitInclusive {text line : List UInt8} (h : line ∈ splitInclusive text) :
    lineCount line = 1 := by
  induction text generalizing line with
  | nil => exact absurd h List.not_mem_nil
  | cons b rest ih =>
    rw [splitInclusive] at h
    split at h
    · next hnewline =>
      rcases List.mem_cons.mp h with rfl | hmem
      · rw [hnewline]
        rfl
      · exact ih hmem
    · next hnewline =>
      split at h
      · rw [List.mem_singleton.mp h]
        simp [lineCount, hnewline]
      · next first lines hlines =>
        rcases List.mem_cons.mp h with rfl | hmem
        · have hfirst : first ∈ splitInclusive rest := hlines ▸ List.mem_cons_self
          rw [lineCount_cons b (ne_nil_of_mem_splitInclusive hfirst), ih hfirst, if_neg hnewline]
        · exact ih (hlines ▸ List.mem_cons_of_mem first hmem)

namespace EvidenceTotals

/-- The loop shows as many lines as there is room for. -/
theorem takeLines_eq (maxLines : Nat) (lines : List (List UInt8)) : ∀ totals : EvidenceTotals,
    takeLines maxLines lines totals =
      { totals with
        excerpt := totals.excerpt ++ (lines.take (maxLines - totals.lines)).flatten
        lines := totals.lines + min lines.length (maxLines - totals.lines)
        truncated := totals.truncated || decide (maxLines - totals.lines < lines.length) } := by
  induction lines with
  | nil =>
    intro totals
    simp [takeLines]
  | cons line lines ih =>
    intro totals
    rw [takeLines]
    split
    · next hfull =>
      simp [Nat.sub_eq_zero_of_le hfull]
    · next hroom =>
      obtain ⟨room, hroom⟩ : ∃ room, maxLines - totals.lines = room + 1 :=
        ⟨maxLines - totals.lines - 1, by omega⟩
      have hnext : maxLines - (totals.lines + 1) = room := by omega
      rw [ih]
      dsimp only
      rw [hnext, hroom, List.take_succ_cons, List.flatten_cons, List.length_cons, List.append_assoc]
      congr 1
      · omega
      · simp

/-- The tasks that are not the primary one are only counted. -/
theorem foldl_visit_others {primary : String} {tasks : List TaskOutput}
    (h : ∀ output ∈ tasks, output.task ≠ primary) (maxLines : Nat) : ∀ totals : EvidenceTotals,
    tasks.foldl (visit primary maxLines) totals
      = { totals with additional := totals.additional + tasks.length } := by
  induction tasks with
  | nil => exact fun _ => rfl
  | cons output tasks ih =>
    intro totals
    rw [List.foldl_cons, ih fun other hother => h other (List.mem_cons_of_mem output hother), visit,
      if_pos (h output List.mem_cons_self), List.length_cons]
    congr 1
    dsimp only
    omega

/-- What the loop gathers of the primary task. -/
theorem foldl_visit {primary : TaskOutput} {front behind : List TaskOutput}
    (hnodup : ((front ++ primary :: behind).map TaskOutput.task).Nodup) (maxLines : Nat) :
    (front ++ primary :: behind).foldl (visit primary.task maxLines) zero =
      { excerpt := (primary.lines.take maxLines).flatten
        lines := min primary.lines.length maxLines
        truncated := primary.stdout.truncated || primary.stderr.truncated
          || decide (maxLines < primary.lines.length)
        totalObserved := primary.stdout.observed + primary.stderr.observed
        totalRetained := primary.retainedBytes
        additional := front.length + behind.length } := by
  rw [List.map_append, List.map_cons, List.nodup_middle, List.nodup_cons, List.mem_append] at hnodup
  have hfront : ∀ output ∈ front, output.task ≠ primary.task := fun output houtput heq =>
    hnodup.1 (.inl (heq ▸ List.mem_map_of_mem houtput))
  have hbehind : ∀ output ∈ behind, output.task ≠ primary.task := fun output houtput heq =>
    hnodup.1 (.inr (heq ▸ List.mem_map_of_mem houtput))
  rw [List.foldl_append, List.foldl_cons, foldl_visit_others hfront, foldl_visit_others hbehind, visit,
    if_neg (not_not.mpr rfl), takeLines_eq, takeLines_eq]
  simp only [zero, TaskOutput.lines, List.take_append, List.flatten_append, List.length_append,
    List.nil_append, Nat.zero_add, Nat.sub_zero, Bool.false_or, TaskOutput.retainedBytes]
  generalize splitInclusive (Utf8.lossy primary.stdout.bytes) = first
  generalize splitInclusive (Utf8.lossy primary.stderr.bytes) = second
  have hroom : maxLines - min first.length maxLines = maxLines - first.length := by omega
  have hlines : min first.length maxLines + min second.length (maxLines - first.length)
      = min (first.length + second.length) maxLines := by
    omega
  rw [hroom, hlines, Bool.or_assoc (primary.stdout.truncated || primary.stderr.truncated)]
  congr 2
  by_cases hfirst : maxLines < first.length
  · have hall : maxLines < first.length + second.length := by omega
    simp [hfirst, hall]
  · have hsecond : maxLines - first.length < second.length
        ↔ maxLines < first.length + second.length := by
      omega
    simp [hfirst, hsecond]

end EvidenceTotals

/-! ### What is retained is a task at least -/

namespace OutputRegistry

theorem evict_subset {entry : GenerationOutput} (entries : List GenerationOutput) : ∀ totalBytes,
    entry ∈ (evict entries totalBytes).generations → entry ∈ entries := by
  induction entries with
  | nil => exact fun _ h => h
  | cons first rest ih =>
    intro totalBytes h
    rw [evict] at h
    split at h
    · exact List.mem_cons_of_mem first (ih _ h)
    · exact h

/-- Step lemma: no call leaves a generation without a task. -/
theorem record_tasks {registry registry' : OutputRegistry} {call : Record}
    (h : record registry call = some registry')
    (hsome : ∀ entry ∈ registry.generations, entry.tasks ≠ []) :
    ∀ entry ∈ registry'.generations, entry.tasks ≠ [] := by
  obtain ⟨merged, hmerge, rfl⟩ := Option.map_eq_some_iff.mp h
  intro entry hentry
  have hentry := evict_subset _ _ hentry
  rw [merge] at hmerge
  split at hmerge
  · simp only [Option.bind_eq_bind, Option.bind_eq_some_iff] at hmerge
    obtain ⟨held, -, replaced, hreplaced, totalBytes, -, hmerged⟩ := hmerge
    cases hmerged
    obtain ⟨bytes, -, hreplaced⟩ := Option.bind_eq_some_iff.mp hreplaced
    cases hreplaced
    rcases List.mem_or_eq_of_mem_set hentry with hmem | rfl
    · exact hsome entry hmem
    · exact List.append_ne_nil_of_right_ne_nil _ (List.cons_ne_nil _ _)
  · cases hmerge
    rcases List.mem_append.mp hentry with hmem | hnew
    · exact hsome entry hmem
    · rw [List.mem_singleton.mp hnew]
      exact List.cons_ne_nil _ _

/-- Run lemma. -/
theorem tasks_of_run (calls : List Record) : ∀ {registry registry' : OutputRegistry},
    Machine.after record registry calls = some registry' →
    (∀ entry ∈ registry.generations, entry.tasks ≠ []) →
    ∀ entry ∈ registry'.generations, entry.tasks ≠ [] := by
  induction calls with
  | nil =>
    intro registry registry' hrun hsome
    cases hrun
    exact hsome
  | cons call calls ih =>
    intro registry registry' hrun hsome
    obtain ⟨next, hnext, hrest⟩ := Option.bind_eq_some_iff.mp hrun
    exact ih hrest (record_tasks hnext hsome)

end OutputRegistry

/-! ### What the evidence is -/

theorem primaryTask_spec {tasks : List TaskOutput} (hsome : tasks ≠ []) (failedTasks : List String) :
    ∃ primary ∈ tasks, primaryTask tasks failedTasks = some primary.task
      ∧ (primary.task ∈ failedTasks ↔ ∃ output ∈ tasks, output.task ∈ failedTasks) := by
  have hfailed : ∀ id, (failedTasks.any fun failed => failed == id) = true ↔ id ∈ failedTasks := by
    intro id
    rw [List.any_eq_true]
    exact ⟨fun ⟨failed, hmem, heq⟩ => eq_of_beq heq ▸ hmem, fun h => ⟨id, h, beq_self_eq_true id⟩⟩
  rw [primaryTask]
  cases hfound : (tasks.map TaskOutput.task).find? fun id => failedTasks.any fun failed => failed == id with
  | some id =>
    obtain ⟨primary, hprimary, rfl⟩ := List.mem_map.mp (List.mem_of_find?_eq_some hfound)
    have hid := (hfailed primary.task).mp (by simpa using List.find?_some hfound)
    exact ⟨primary, hprimary, rfl, iff_of_true hid ⟨primary, hprimary, hid⟩⟩
  | none =>
    obtain ⟨primary, rest, rfl⟩ := List.exists_cons_of_ne_nil hsome
    refine ⟨primary, List.mem_cons_self, rfl, ?_⟩
    have hnone : ∀ output ∈ primary :: rest, output.task ∉ failedTasks := by
      intro output houtput hmem
      exact List.find?_eq_none.mp hfound _ (List.mem_map_of_mem houtput) ((hfailed _).mpr hmem)
    refine iff_of_false (hnone primary List.mem_cons_self) ?_
    rintro ⟨output, houtput, hmem⟩
    exact hnone output houtput hmem

/-- The evidence of a generation is about this task, which failed if any retained one did: the first of
    its lines up to the limit, marked as truncated exactly if they are not all of its text or the capture
    has dropped some. -/
structure EvidenceOf (entry : GenerationOutput) (failedTasks : List String) (maxLines : Nat)
    (evidence : RawEvidence) (primary : TaskOutput) : Prop where
  retained : primary ∈ entry.tasks
  failed : (∃ output ∈ entry.tasks, output.task ∈ failedTasks) → primary.task ∈ failedTasks
  named : evidence.retrieve = legacyRetrieveCommand entry.generation primary.task
  excerpt : evidence.excerpt = (primary.lines.take maxLines).flatten
  lines : evidence.lines ≤ maxLines ∧ lineCount evidence.excerpt ≤ maxLines
  truncated : evidence.truncated = true ↔ evidence.excerpt ≠ primary.text
    ∨ primary.stdout.truncated = true ∨ primary.stderr.truncated = true

/-- The evidence is right but for its count, which is that of the other tasks retained: it is the number of
    other failed tasks exactly if there are as many tasks retained as failed, or, when none of them is
    retained, one more. -/
theorem failure_evidence_iff {registry : OutputRegistry} {calls : List Record} {generation : Nat}
    {entry : GenerationOutput} (hrun : Machine.after OutputRegistry.record .new calls = some registry)
    (hfound : (registry.generations.find? fun entry => entry.generation == generation) = some entry)
    (maxLines : Nat) (instanceToken : String) (failedTasks : List String) :
    ∃ evidence primary,
      registry.failureEvidence generation maxLines instanceToken failedTasks = some evidence
      ∧ EvidenceOf entry failedTasks maxLines evidence primary
      ∧ (evidence.additionalFailedTasks = (failedTasks.toFinset.erase primary.task).card
        ↔ entry.tasks.length = failedTasks.toFinset.card
          + if ∃ output ∈ entry.tasks, output.task ∈ failedTasks then 0 else 1) := by
  have hmem := List.mem_of_find?_eq_some hfound
  have hnodup := ((OutputRegistry.sound_of_run hrun).entries entry hmem).tasks_nodup
  have hsome := OutputRegistry.tasks_of_run calls hrun (fun _ h => absurd h List.not_mem_nil) entry hmem
  have hgeneration : entry.generation = generation := by simpa using List.find?_some hfound
  obtain ⟨primary, hprimary, hname, hfailed⟩ := primaryTask_spec hsome failedTasks
  obtain ⟨front, behind, hsplit⟩ := List.append_of_mem hprimary
  have htotals := EvidenceTotals.foldl_visit (hsplit ▸ hnodup) maxLines
  rw [← hsplit] at htotals
  have hlines : ∀ line ∈ primary.lines, line ≠ [] ∧ lineCount line ≤ 1 := by
    intro line hline
    rcases List.mem_append.mp hline with h | h
    · exact ⟨ne_nil_of_mem_splitInclusive h, (lineCount_of_mem_splitInclusive h).le⟩
    · exact ⟨ne_nil_of_mem_splitInclusive h, (lineCount_of_mem_splitInclusive h).le⟩
  have hevidence : registry.failureEvidence generation maxLines instanceToken failedTasks = some
      { excerpt := (primary.lines.take maxLines).flatten
        lines := min primary.lines.length maxLines
        truncated := primary.stdout.truncated || primary.stderr.truncated
          || decide (maxLines < primary.lines.length)
        totalObservedBytes := primary.stdout.observed + primary.stderr.observed
        retainedBytes := primary.retainedBytes
        retrieve := legacyRetrieveCommand generation primary.task
        outputRef := if 0 < primary.retainedBytes ∧ primary.task ≠ "" then
            some (outputRef instanceToken generation primary.task)
          else none
        additionalFailedTasks := front.length + behind.length } := by
    rw [OutputRegistry.failureEvidence, hfound, Option.bind_eq_bind, Option.bind_some, hname,
      Option.bind_eq_bind, Option.bind_some, htotals]
    rfl
  refine ⟨_, primary, hevidence, ⟨hprimary, hfailed.mpr, congrArg (legacyRetrieveCommand · primary.task)
    hgeneration.symm, rfl, ⟨Nat.min_le_right _ _, ?_⟩, ?_⟩, ?_⟩
  · refine (lineCount_flatten_le fun line hline => (hlines line (List.mem_of_mem_take hline)).2).trans ?_
    rw [List.length_take]
    exact Nat.min_le_left _ _
  · have hshown := flatten_take_eq_iff (fun line hline => (hlines line hline).1) maxLines
    rw [primary.flatten_lines] at hshown
    dsimp only
    rw [Ne, hshown, Nat.not_le, Bool.or_eq_true, Bool.or_eq_true, decide_eq_true_eq]
    exact or_comm
  · have hlength : entry.tasks.length = front.length + behind.length + 1 := by
      rw [hsplit, List.length_append, List.length_cons]
      omega
    dsimp only
    by_cases hany : ∃ output ∈ entry.tasks, output.task ∈ failedTasks
    · have hin := List.mem_toFinset.mpr (hfailed.mpr hany)
      have hpos := Finset.card_pos.mpr ⟨primary.task, hin⟩
      rw [Finset.card_erase_of_mem hin, if_pos hany]
      omega
    · rw [Finset.erase_eq_of_notMem (by rwa [List.mem_toFinset, hfailed]), if_neg hany]
      omega

/-- Two tasks with the output `abc` each. -/
def twoTasks : List Record := [{ oneTask abc with task := "a" }, { oneTask abc with task := "b" }]

def twoTaskEntry : GenerationOutput := ⟨7, none, none, twoTasks.map Record.output, 6⟩

def twoTaskRegistry : OutputRegistry := ⟨[twoTaskEntry], 6⟩

theorem twoTasks_run : Machine.after OutputRegistry.record .new twoTasks = some twoTaskRegistry := by
  decide +kernel

/-- When both have failed, the other one is counted rightly. -/
theorem failure_evidence_both :
    ∃ evidence primary, twoTaskRegistry.failureEvidence 7 40 "fz" ["a", "b"] = some evidence
      ∧ EvidenceOf twoTaskEntry ["a", "b"] 40 evidence primary
      ∧ evidence.additionalFailedTasks = (["a", "b"].toFinset.erase primary.task).card := by
  have hfound : (twoTaskRegistry.generations.find? fun entry => entry.generation == 7)
      = some twoTaskEntry := rfl
  obtain ⟨evidence, primary, hevidence, hof, hcount⟩ :=
    failure_evidence_iff twoTasks_run hfound 40 "fz" ["a", "b"]
  exact ⟨evidence, primary, hevidence, hof, hcount.mpr (by decide)⟩

/-- When only the first has failed, the other one is counted all the same. -/
theorem passed_task_counted :
    Machine.after OutputRegistry.record .new twoTasks = some twoTaskRegistry
      ∧ (twoTaskRegistry.failureEvidence 7 40 "fz" ["a"]).map
          (fun evidence => (evidence.retrieve, evidence.additionalFailedTasks))
        = some ("fzz control output --generation 7 --task 'a' --tail 80", 1)
      ∧ (["a"].toFinset.erase "a").card = 0 :=
  ⟨twoTasks_run, by decide +kernel, by decide⟩

end Funzzy
