import Funzzy.Diagnostics.Detector

/-! What the feedback-loop detector reports, by the history of its calls.

    While the tables do not overflow, they hold what a reader of the whole history needs: of each key whose
    last trigger lies within the window, the length of its chain, and of each task its last run. -/

namespace Funzzy

namespace LoopDetector

open Chains (lastChain lastChain_concat)

variable (policy : LoopPolicy)

/-! ### Histories -/

/-- The instants of a key's triggers. -/
def times (triggers : List Trigger) (key : LoopKey) : List Nat :=
  (triggers.filter fun trigger => trigger.key = key).map Trigger.now

def within (window earlier later : Nat) : Bool := later - earlier ≤ window

/-- The triggers of a key that still follow each other within the window. -/
def chain (triggers : List Trigger) (key : LoopKey) : List Nat :=
  lastChain (fun earlier later => within policy.window earlier later) (times triggers key)

/-- The runs of a task, with their instants. -/
def runs (triggers : List Trigger) (task : String) : List (Nat × Nat) :=
  triggers.filterMap fun trigger =>
    if trigger.key.task = task then trigger.generation.map (trigger.now, ·) else none

/-- The last run of a task, if it lies within the window. -/
def recentRun (triggers : List Trigger) (now : Nat) (task : String) : Option (Nat × Nat) :=
  (runs triggers task).getLast?.filter fun run => within policy.window run.1 now

/-- The last trigger of a key, if it lies within the window. -/
def recentTime (triggers : List Trigger) (now : Nat) (key : LoopKey) : Option Nat :=
  (times triggers key).getLast?.filter fun seen => within policy.window seen now

/-- The keys that have a trigger within the window. -/
def liveKeys (triggers : List Trigger) (now : Nat) : Finset LoopKey :=
  (triggers.map Trigger.key).toFinset.filter fun key => (recentTime policy triggers now key).isSome

/-- The tasks whose last run lies within the window. -/
def liveTasks (triggers : List Trigger) (now : Nat) : Finset String :=
  (triggers.map fun trigger => trigger.key.task).toFinset.filter fun task =>
    (recentRun policy triggers now task).isSome

/-- At every call there is room for the live keys and tasks. -/
def Roomy (triggers : List Trigger) : Prop :=
  ∀ before trigger, before ++ [trigger] <+: triggers →
    (liveKeys policy (before ++ [trigger]) trigger.now).card ≤ maxKeys ∧
      (liveTasks policy (before ++ [trigger]) trigger.now).card ≤ maxKeys

/-- The instants of the calls do not decrease. -/
def Ordered (triggers : List Trigger) : Prop := (triggers.map Trigger.now).Pairwise (· ≤ ·)

/-- How many repeats a chain needs to be warned about. -/
def threshold : Nat := max 1 policy.minRepeats

/-! ### What the tables hold -/

/-- The entry of a key, by its history. -/
def entryOf (triggers : List Trigger) (now : Nat) (key : LoopKey) : Option LoopEntry :=
  (recentTime policy triggers now key).map fun lastSeen =>
    { count := (chain policy triggers key).length, lastSeen
      warned := threshold policy ≤ (chain policy triggers key).length }

/-- The tables hold what is live at an instant, and nothing else. -/
structure Tracks (triggers : List Trigger) (now : Nat) (d : LoopDetector) : Prop where
  entries : ∀ key, d.entries.lookup key = entryOf policy triggers now key
  taskRecent : ∀ task, d.taskRecent.lookup task = recentRun policy triggers now task

theorem tracks_new (now : Nat) : Tracks policy [] now new := ⟨fun _ => rfl, fun _ => rfl⟩

theorem key_mem_of_times {triggers : List Trigger} {key : LoopKey} {seen : Nat}
    (h : seen ∈ times triggers key) : key ∈ triggers.map Trigger.key := by
  obtain ⟨trigger, htrigger, -⟩ := List.mem_map.mp h
  obtain ⟨hmem, hkey⟩ := List.mem_filter.mp htrigger
  rw [decide_eq_true_eq] at hkey
  exact List.mem_map.mpr ⟨trigger, hmem, hkey⟩

theorem task_mem_of_runs {triggers : List Trigger} {task : String} {run : Nat × Nat}
    (h : run ∈ runs triggers task) : task ∈ triggers.map fun trigger => trigger.key.task := by
  obtain ⟨trigger, hmem, hrun⟩ := List.mem_filterMap.mp h
  split at hrun
  · next htask => exact List.mem_map.mpr ⟨trigger, hmem, htask⟩
  · cases hrun

variable {policy} {triggers : List Trigger} {now : Nat} {d : LoopDetector}

/-- The tables are no larger than what is live. -/
theorem Tracks.size_le (h : Tracks policy triggers now d) :
    d.entries.size ≤ (liveKeys policy triggers now).card ∧
      d.taskRecent.size ≤ (liveTasks policy triggers now).card := by
  constructor
  · refine Table.size_le_card fun key hkey => ?_
    have hsome := AList.lookup_isSome.mpr hkey
    rw [h.entries, entryOf, Option.isSome_map] at hsome
    obtain ⟨seen, hseen⟩ := Option.isSome_iff_exists.mp hsome
    have hlast := (Option.filter_eq_some_iff.mp hseen).1
    exact Finset.mem_filter.mpr
      ⟨List.mem_toFinset.mpr (key_mem_of_times (List.mem_of_getLast? hlast)), hsome⟩
  · refine Table.size_le_card fun task htask => ?_
    have hsome := AList.lookup_isSome.mpr htask
    rw [h.taskRecent] at hsome
    obtain ⟨run, hrun⟩ := Option.isSome_iff_exists.mp hsome
    have hlast := (Option.filter_eq_some_iff.mp hrun).1
    exact Finset.mem_filter.mpr
      ⟨List.mem_toFinset.mpr (task_mem_of_runs (List.mem_of_getLast? hlast)), hsome⟩

/-- What is within the window at a later instant was within it before. -/
theorem filter_later {α : Type} {at' : α → Nat} {window now later : Nat} (h : now ≤ later) (found : Option α) :
    ((found.filter fun x => within window (at' x) now).filter fun x => within window (at' x) later)
      = found.filter fun x => within window (at' x) later := by
  rw [Option.filter_filter]
  refine congrArg (Option.filter · found) (funext fun x => ?_)
  rw [within, within, ← Bool.decide_and]
  exact decide_eq_decide.mpr (by omega)

/-- A later instant prunes what has left the window. -/
theorem Tracks.prune (h : Tracks policy triggers now d) (hentries : d.entries.size ≤ maxKeys)
    (htasks : d.taskRecent.size ≤ maxKeys) (trigger : Trigger) (hlater : now ≤ trigger.now) :
    Tracks policy triggers trigger.now (d.prune policy trigger) := by
  have hkept : d.prune policy trigger =
      { entries := d.entries.retain fun entry => trigger.now - entry.lastSeen ≤ policy.window
        taskRecent := d.taskRecent.retain fun run => trigger.now - run.1 ≤ policy.window } := by
    rw [LoopDetector.prune, cap, Table.cap_of_le _ _ _ ((Table.size_retain_le _ _).trans hentries),
      Table.cap_of_le _ _ _ ((Table.size_retain_le _ _).trans htasks)]
  rw [hkept]
  constructor
  · intro key
    rw [Table.lookup_retain, h.entries, entryOf, entryOf, Option.filter_map]
    exact congrArg _ (filter_later hlater _)
  · intro task
    rw [Table.lookup_retain, h.taskRecent]
    exact filter_later hlater _

/-! ### One more trigger -/

theorem times_concat (triggers : List Trigger) (trigger : Trigger) (key : LoopKey) :
    times (triggers ++ [trigger]) key
      = if trigger.key = key then times triggers key ++ [trigger.now] else times triggers key := by
  rw [times, times, List.filter_append, List.map_append]
  by_cases hkey : trigger.key = key
  · rw [if_pos hkey, List.filter_cons_of_pos (by simpa using hkey)]
    rfl
  · rw [if_neg hkey, List.filter_cons_of_neg (by simpa using hkey)]
    exact List.append_nil _

theorem runs_concat (triggers : List Trigger) (trigger : Trigger) (task : String) :
    runs (triggers ++ [trigger]) task = runs triggers task ++
      (if trigger.key.task = task then trigger.generation.map (trigger.now, ·) else none).toList := by
  rw [runs, List.filterMap_append, runs]
  refine congrArg (_ ++ ·) ?_
  rw [List.filterMap_cons]
  cases (if trigger.key.task = task then trigger.generation.map (trigger.now, ·) else none) <;> rfl

/-- A trigger within the window of the last one goes on with its chain, any other starts one. -/
theorem length_chain_concat (triggers : List Trigger) (trigger : Trigger) :
    (chain policy (triggers ++ [trigger]) trigger.key).length =
      if (recentTime policy triggers trigger.now trigger.key).isSome then
        (chain policy triggers trigger.key).length + 1
      else 1 := by
  rw [chain, times_concat, if_pos rfl, lastChain_concat, recentTime, chain]
  cases hlast : (times triggers trigger.key).getLast? with
  | none =>
    rw [List.getLast?_eq_none_iff.mp hlast]
    rfl
  | some last =>
    cases hnear : within policy.window last trigger.now with
    | true => simp [hnear]
    | false => simp [hnear]

/-- The entry of a key after one more trigger of it. -/
def nextEntry (policy : LoopPolicy) (triggers : List Trigger) (trigger : Trigger) : LoopEntry where
  count := (chain policy (triggers ++ [trigger]) trigger.key).length
  lastSeen := trigger.now
  warned := threshold policy ≤ (chain policy (triggers ++ [trigger]) trigger.key).length

/-- It warns where the chain is just long enough. -/
theorem repeated_eq (triggers : List Trigger) (trigger : Trigger) :
    repeated policy trigger.now (entryOf policy triggers trigger.now trigger.key) =
      (nextEntry policy triggers trigger,
        decide ((chain policy (triggers ++ [trigger]) trigger.key).length = threshold policy)) := by
  have hlength := @length_chain_concat policy triggers trigger
  cases hrecent : recentTime policy triggers trigger.now trigger.key with
  | none =>
    rw [hrecent, Option.isSome_none, if_neg Bool.false_ne_true] at hlength
    rw [repeated, entryOf, nextEntry, hlength, hrecent]
    simp [threshold]
  | some seen =>
    have hnear := (Option.filter_eq_some_iff.mp hrecent).2
    rw [within, decide_eq_true_eq] at hnear
    rw [hrecent, Option.isSome_some, if_pos rfl] at hlength
    rw [repeated, entryOf, nextEntry, hlength, hrecent, Option.map_some, Option.getD_some,
      if_neg (Nat.not_lt.mpr hnear)]
    have hlater : ∀ length, (decide (threshold policy ≤ length) ||
        (decide (policy.minRepeats ≤ length + 1) && !decide (threshold policy ≤ length)))
          = decide (threshold policy ≤ length + 1) := by
      intro length
      rw [threshold, Bool.eq_iff_iff]
      simp
      omega
    have hfirst : ∀ length, (decide (policy.minRepeats ≤ length + 1) && !decide (threshold policy ≤ length))
        = decide (length + 1 = threshold policy) := by
      intro length
      rw [threshold, Bool.eq_iff_iff]
      simp
      omega
    rw [hlater, hfirst]

theorem within_self (window now : Nat) : within window now now = true := by
  rw [within, Nat.sub_self, decide_eq_true_eq]
  exact Nat.zero_le window

/-- The tables after one more trigger, before they are bounded. -/
theorem Tracks.insert {trigger : Trigger} (h : Tracks policy triggers trigger.now d) :
    Tracks policy (triggers ++ [trigger]) trigger.now
      { entries := d.entries.insert trigger.key (nextEntry policy triggers trigger)
        taskRecent := match trigger.generation with
          | some run => d.taskRecent.insert trigger.key.task (trigger.now, run)
          | none => d.taskRecent } := by
  constructor
  · intro key
    by_cases hkey : key = trigger.key
    · subst hkey
      have hrecent : recentTime policy (triggers ++ [trigger]) trigger.now trigger.key = some trigger.now := by
        rw [recentTime, times_concat, if_pos rfl, List.getLast?_concat, Option.filter_some, within_self, if_pos rfl]
      rw [AList.lookup_insert, entryOf, hrecent]
      rfl
    · have hother : times (triggers ++ [trigger]) key = times triggers key := by
        rw [times_concat, if_neg (Ne.symm hkey)]
      rw [AList.lookup_insert_ne hkey, h.entries, entryOf, entryOf, recentTime, recentTime, chain, chain, hother]
  · intro task
    have hruns := runs_concat triggers trigger task
    cases hgeneration : trigger.generation with
    | none =>
      rw [hgeneration, Option.map_none, ite_self, Option.toList_none, List.append_nil] at hruns
      rw [h.taskRecent, recentRun, recentRun, hruns]
    | some run =>
      rw [hgeneration, Option.map_some] at hruns
      by_cases htask : task = trigger.key.task
      · subst htask
        rw [if_pos rfl, Option.toList_some] at hruns
        simp only [AList.lookup_insert]
        rw [recentRun, hruns, List.getLast?_concat, Option.filter_some, within_self, if_pos rfl]
      · rw [if_neg (Ne.symm htask), Option.toList_none, List.append_nil] at hruns
        simp only [AList.lookup_insert_ne htask]
        rw [h.taskRecent, recentRun, recentRun, hruns]

/-! ### Whole histories -/

/-- What a call reports, by the history before it. -/
structure Reports (policy : LoopPolicy) (before : List Trigger) (trigger : Trigger)
    (observation : LoopObservation) : Prop where
  repeats : observation.repeats = (chain policy (before ++ [trigger]) trigger.key).length
  observedAfterRun : observation.observedAfterRun
    = (recentRun policy before trigger.now trigger.key.task).map Prod.snd
  warning : observation.warning =
    if (chain policy (before ++ [trigger]) trigger.key).length = threshold policy then
      some
        { task := trigger.key.task, path := trigger.key.path, rule := trigger.key.rule
          repeats := threshold policy, generation := trigger.generation.or observation.observedAfterRun
          hint := hintFor trigger.key.path }
    else none

/-- One call from tables that hold what is live. -/
theorem Tracks.observe (h : Tracks policy triggers now d) (hentries : d.entries.size ≤ maxKeys)
    (htasks : d.taskRecent.size ≤ maxKeys) {trigger : Trigger} (hlater : now ≤ trigger.now) :
    Reports policy triggers trigger (d.observe policy trigger).2 ∧
      ∃ d', Tracks policy (triggers ++ [trigger]) trigger.now d' ∧
        (d.observe policy trigger).1 = cap trigger d' := by
  have hpruned := h.prune hentries htasks trigger hlater
  have hentry := @repeated_eq policy triggers trigger
  rw [← hpruned.entries] at hentry
  have hrun : ((d.prune policy trigger).taskRecent.lookup trigger.key.task).filter
      (fun run => trigger.now - run.1 ≤ policy.window) = recentRun policy triggers trigger.now trigger.key.task := by
    rw [hpruned.taskRecent]
    exact filter_later (Nat.le_refl _) _
  rw [LoopDetector.observe]
  simp only [hentry, hrun]
  refine ⟨⟨rfl, rfl, ?_⟩, _, hpruned.insert, rfl⟩
  by_cases hwarns : (chain policy (triggers ++ [trigger]) trigger.key).length = threshold policy
  · simp only [hwarns, nextEntry, decide_true, if_true]
  · simp only [hwarns, decide_false, Bool.false_eq_true, if_false]

/-- The instant of the last call. -/
def lastNow (triggers : List Trigger) : Nat := (triggers.getLast?.map Trigger.now).getD 0

theorem after_concat (policy : LoopPolicy) (before : List Trigger) (trigger : Trigger) :
    after policy (before ++ [trigger]) = ((after policy before).observe policy trigger).1 := by
  rw [after, List.foldl_concat]
  rfl

theorem lastNow_le {before : List Trigger} {trigger : Trigger} (h : Ordered (before ++ [trigger])) :
    lastNow before ≤ trigger.now := by
  rw [lastNow]
  cases hlast : before.getLast? with
  | none => exact Nat.zero_le _
  | some last =>
    rw [Ordered, List.map_append, List.pairwise_append] at h
    exact h.2.2 last.now (List.mem_map_of_mem (List.mem_of_getLast? hlast)) trigger.now (by simp)

theorem Ordered.before {before rest : List Trigger} (h : Ordered (before ++ rest)) : Ordered before := by
  rw [Ordered, List.map_append, List.pairwise_append] at h
  exact h.1

theorem Roomy.before {before rest : List Trigger} (h : Roomy policy (before ++ rest)) : Roomy policy before :=
  fun front trigger hfront => h front trigger (hfront.trans (List.prefix_append before rest))

/-- While there is room, the tables hold what is live, and are within their bounds. -/
theorem tracks_after (triggers : List Trigger) (hordered : Ordered triggers) (hroomy : Roomy policy triggers) :
    Tracks policy triggers (lastNow triggers) (after policy triggers) ∧
      (after policy triggers).entries.size ≤ maxKeys ∧ (after policy triggers).taskRecent.size ≤ maxKeys := by
  induction triggers using List.reverseRecOn with
  | nil => exact ⟨tracks_new policy _, Nat.zero_le _, Nat.zero_le _⟩
  | append_singleton before trigger ih =>
    obtain ⟨htracks, hentries, htasks⟩ := ih hordered.before hroomy.before
    obtain ⟨-, d', htracks', hd'⟩ := htracks.observe hentries htasks (lastNow_le hordered)
    obtain ⟨hkeys, hlive⟩ := hroomy before trigger (List.prefix_refl _)
    have hsize := htracks'.size_le
    have hcap : cap trigger d' = d' := by
      rw [cap, Table.cap_of_le _ _ _ (hsize.1.trans hkeys), Table.cap_of_le _ _ _ (hsize.2.trans hlive)]
    have hlast : lastNow (before ++ [trigger]) = trigger.now := by
      rw [lastNow, List.getLast?_concat]
      rfl
    rw [after_concat, hd', hcap, hlast]
    exact ⟨htracks', hsize.1.trans hkeys, hsize.2.trans hlive⟩

/-- After any call the tables are within their bounds. -/
theorem size_observe_le (d : LoopDetector) (trigger : Trigger) :
    (d.observe policy trigger).1.entries.size ≤ maxKeys ∧ (d.observe policy trigger).1.taskRecent.size ≤ maxKeys :=
  ⟨Table.size_cap_le _ _ _ _, Table.size_cap_le _ _ _ _⟩

/-- There is room for a history of few calls. -/
theorem roomy_of_length {triggers : List Trigger} (h : triggers.length ≤ maxKeys) : Roomy policy triggers := by
  intro before trigger hbefore
  have hlength := hbefore.length_le.trans h
  constructor
  · refine (Finset.card_filter_le _ _).trans ((List.toFinset_card_le _).trans ?_)
    rwa [List.length_map]
  · refine (Finset.card_filter_le _ _).trans ((List.toFinset_card_le _).trans ?_)
    rwa [List.length_map]

/-- Every call of an ordered history with room for what is live reports by the history, and no call of any
    history leaves a table that is too large. -/
theorem observe_reports (policy : LoopPolicy) (before : List Trigger) (trigger : Trigger) :
    (Ordered (before ++ [trigger]) → Roomy policy (before ++ [trigger]) →
        Reports policy before trigger ((after policy before).observe policy trigger).2) ∧
      (after policy (before ++ [trigger])).entries.size ≤ maxKeys ∧
        (after policy (before ++ [trigger])).taskRecent.size ≤ maxKeys := by
  refine ⟨fun hordered hroomy => ?_, ?_⟩
  · obtain ⟨htracks, hentries, htasks⟩ := tracks_after before hordered.before hroomy.before
    exact (htracks.observe hentries htasks (lastNow_le hordered)).1
  · rw [after_concat]
    exact size_observe_le _ _

/-- A trigger of one path, in a table that is iterated as it stands. -/
def saved (now : Nat) : Trigger where
  now
  key := { task := "build", path := "src/main.rs", rule := "src/**" }
  generation := some now
  entriesOrder := { order := id, perm := fun _ => .refl _ }
  tasksOrder := { order := id, perm := fun _ => .refl _ }

/-- The third save within the window warns. -/
theorem observe_reports_third :
    Reports { window := 30, minRepeats := 3 } [saved 1, saved 12] (saved 40)
      ((after { window := 30, minRepeats := 3 } [saved 1, saved 12]).observe { window := 30, minRepeats := 3 }
        (saved 40)).2 :=
  (observe_reports { window := 30, minRepeats := 3 } [saved 1, saved 12] (saved 40)).1
    (by rw [Ordered]; decide) (roomy_of_length (by decide))

end LoopDetector

end Funzzy
