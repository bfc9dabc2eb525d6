import Mathlib.Data.List.Count
import Mathlib.Data.List.Nodup

/-! Replacing what runs for one set of definitions by what another set wants.

    A definition is a key with a version, and a list of definitions is read as a map: of two with the same
    key the last one counts. A rollout stops, among the instances that can be reached, those whose key
    counts for another version now, and starts every definition whose key is missing. By keys alone that
    is exact when keys are unique; the results say when it is exact in general. -/

namespace Rollout

variable {K V : Type} [DecidableEq K]

/-! ### Definitions -/

/-- The version that counts for a key. -/
def version (definitions : List (K × V)) (key : K) : Option V := definitions.reverse.lookup key

theorem version_eq_none {definitions : List (K × V)} {key : K} :
    version definitions key = none ↔ key ∉ definitions.map Prod.fst := by
  rw [version, List.lookup_eq_none_iff]
  constructor
  · rintro h hkey
    obtain ⟨d, hd, rfl⟩ := List.mem_map.mp hkey
    simpa using h d (List.mem_reverse.mpr hd)
  · intro h d hd
    simp only [bne_iff_ne, ne_eq]
    rintro rfl
    exact h (List.mem_map_of_mem (List.mem_reverse.mp hd))

theorem mem_of_version {definitions : List (K × V)} {key : K} {v : V}
    (h : version definitions key = some v) : (key, v) ∈ definitions := by
  obtain ⟨before, after, hsplit, -⟩ := List.lookup_eq_some_iff.mp h
  exact List.mem_reverse.mp (by simp [hsplit])

/-- With unique keys every definition counts. -/
theorem version_of_mem {definitions : List (K × V)} (hunique : (definitions.map Prod.fst).Nodup)
    {d : K × V} (h : d ∈ definitions) : version definitions d.1 = some d.2 := by
  rcases hv : version definitions d.1 with _ | v
  · exact absurd (List.mem_map_of_mem h) (version_eq_none.mp hv)
  · rw [← List.inj_on_of_nodup_map hunique (mem_of_version hv) h rfl]

variable (old new : List (K × V))

/-! ### When a rollout is exact -/

/-- The key had a definition, and another version counts for it now, or none. -/
def Replaced (key : K) : Prop := key ∈ old.map Prod.fst ∧ version old key ≠ version new key

section Instances

variable {I : Type} (definition : I → K × V) (reachable : I → Bool)

/-- A reachable instance with the key stays. -/
def Runs (old new : List (K × V)) (instances : List I) (key : K) : Prop :=
  ∃ i ∈ instances, reachable i = true ∧ (definition i).1 = key ∧ ¬Replaced old new key

/-- When a rollout is exact: the stop reaches every instance whose definition is gone and no other; what
    is new has a key that nothing uses; and what stays has a key with no other version to be started. -/
structure Exact (definition : I → K × V) (reachable : I → Bool) (stops reached : Bool)
    (old new : List (K × V)) (instances : List I) : Prop where
  stale : ∀ i ∈ instances, definition i ∉ new ↔
    stops = true ∧ reachable i = true ∧ Replaced old new (definition i).1
  added : ∀ d ∈ new, d ∉ old → reached = true ∧ ¬Runs definition reachable old new instances d.1
  shared : ∀ d ∈ new, d ∈ old → reached = true →
    Runs definition reachable old new instances d.1 ∨
      ∀ e ∈ new, e.1 = d.1 → version old e.1 = some e.2

variable {definition reachable}

/-- With unique keys, a start that arrives and instances of the old set, what counts is that every
    instance whose definition is gone can be reached. -/
theorem exact_of_unique {old new : List (K × V)} {instances : List I}
    (hold : (old.map Prod.fst).Nodup) (hnew : (new.map Prod.fst).Nodup)
    (hinstances : ∀ i ∈ instances, definition i ∈ old) :
    Exact definition reachable true true old new instances ↔
      ∀ i ∈ instances, definition i ∉ new → reachable i = true := by
  have hreplaced : ∀ i ∈ instances, Replaced old new (definition i).1 ↔ definition i ∉ new := by
    intro i hi
    have hkey := List.mem_map_of_mem (f := Prod.fst) (hinstances i hi)
    rw [Replaced, version_of_mem hold (hinstances i hi)]
    constructor
    · rintro ⟨-, hdiffers⟩ hmem
      exact hdiffers (version_of_mem hnew hmem).symm
    · exact fun hgone => ⟨hkey, fun hsame => hgone (mem_of_version hsame.symm)⟩
  constructor
  · exact fun h i hi hgone => ((h.stale i hi).mp hgone).2.1
  · intro h
    refine ⟨fun i hi => ⟨fun hgone => ?_, fun hstop => ?_⟩, fun d hd hadded => ⟨rfl, ?_⟩,
      fun d hd hshared _ => .inr fun e he hkey => ?_⟩
    · exact ⟨rfl, h i hi hgone, (hreplaced i hi).mpr hgone⟩
    · exact (hreplaced i hi).mp hstop.2.2
    · rintro ⟨i, hi, -, hkey, hstays⟩
      rw [← hkey, hreplaced i hi, not_not] at hstays
      rw [List.inj_on_of_nodup_map hnew hd hstays hkey.symm] at hadded
      exact hadded (hinstances i hi)
    · rw [List.inj_on_of_nodup_map hnew he hd hkey]
      exact version_of_mem hold hshared

end Instances

/-! ### Stopping and starting by key -/

/-- The definitions whose keys are started. -/
def started (reached : Bool) (keys : List K) (new : List (K × V)) : List (K × V) :=
  new.filter fun d => reached && keys.contains d.1

theorem started_eq_nil {reached : Bool} {keys : List K} {new : List (K × V)}
    (h : reached = false ∨ keys = []) : started reached keys new = [] :=
  List.filter_eq_nil_iff.mpr fun d _ => by rcases h with rfl | rfl <;> simp

variable [DecidableEq V]

/-- The keys to stop. -/
def obsolete : List K := (old.map Prod.fst).filter fun key => version old key ≠ version new key

/-- The keys to start, when instances with the keys `running` are left. -/
def missing (running : List K) : List K :=
  ((new.filter fun d => version old d.1 ≠ some d.2).map Prod.fst).filter fun key => key ∉ running

variable {old new}

theorem mem_obsolete {key : K} : key ∈ obsolete old new ↔ Replaced old new key := by
  simp [obsolete, Replaced]

theorem mem_missing {running : List K} {key : K} : key ∈ missing old new running ↔
    (∃ d ∈ new, d.1 = key ∧ version old d.1 ≠ some d.2) ∧ key ∉ running := by
  simp only [missing, List.mem_filter, List.mem_map, decide_eq_true_eq]
  constructor
  · rintro ⟨⟨d, ⟨hd, hversion⟩, hkey⟩, hrunning⟩
    exact ⟨⟨d, hd, hkey, hversion⟩, hrunning⟩
  · rintro ⟨⟨d, hd, hkey, hversion⟩, hrunning⟩
    exact ⟨⟨d, ⟨hd, hversion⟩, hkey⟩, hrunning⟩

/-- A definition that only the new set has is missing unless its key runs. -/
theorem mem_missing_of_added {running : List K} {d : K × V} (hnew : d ∈ new) (hold : d ∉ old) :
    d.1 ∈ missing old new running ↔ d.1 ∉ running := by
  rw [mem_missing]
  exact ⟨And.right, fun h => ⟨⟨d, hnew, rfl, fun hversion => hold (mem_of_version hversion)⟩, h⟩⟩

section Instances

variable {I : Type} (definition : I → K × V) (reachable : I → Bool)

/-- What the stop leaves; without it everything stays. -/
def remaining (stops : Bool) (old new : List (K × V)) (instances : List I) : List I :=
  instances.filter fun i => !(stops && reachable i && (obsolete old new).contains (definition i).1)

/-- The keys of the reachable instances that are left. -/
def running (old new : List (K × V)) (instances : List I) : List K :=
  ((remaining definition reachable true old new instances).filter reachable).map fun i =>
    (definition i).1

variable {definition reachable}

theorem mem_running {old new : List (K × V)} {instances : List I} {key : K} :
    key ∈ running definition reachable old new instances
      ↔ Runs definition reachable old new instances key := by
  simp only [running, remaining, Runs, List.mem_map, List.mem_filter, Bool.true_and]
  constructor
  · rintro ⟨i, ⟨⟨hi, hstays⟩, hreach⟩, rfl⟩
    refine ⟨i, hi, hreach, rfl, fun hreplaced => ?_⟩
    simp [hreach, mem_obsolete.mpr hreplaced] at hstays
  · rintro ⟨i, hi, hreach, rfl, hstays⟩
    refine ⟨i, ⟨⟨hi, ?_⟩, hreach⟩, rfl⟩
    simp [hreach, mt mem_obsolete.mp hstays]

/-- The stop leaves exactly the instances whose definitions are still wanted, if it reaches all others and
    no others. -/
theorem remaining_eq_iff {stops : Bool} {old new : List (K × V)} {instances : List I} :
    remaining definition reachable stops old new instances
        = instances.filter (fun i => definition i ∈ new) ↔
      ∀ i ∈ instances, definition i ∉ new ↔
        stops = true ∧ reachable i = true ∧ Replaced old new (definition i).1 := by
  have hstays : ∀ i, (!(stops && reachable i && (obsolete old new).contains (definition i).1)) = true ↔
      ¬(stops = true ∧ reachable i = true ∧ Replaced old new (definition i).1) := fun i => by
    rw [← mem_obsolete]
    simp only [Bool.not_eq_true', Bool.and_eq_false_iff, List.contains_eq_mem, decide_eq_false_iff_not,
      not_and]
    cases stops <;> cases reachable i <;> simp
  constructor
  · intro h i hi
    have hmem : i ∈ remaining definition reachable stops old new instances
        ↔ i ∈ instances.filter (fun i => definition i ∈ new) := by rw [h]
    rw [remaining, List.mem_filter, List.mem_filter, hstays] at hmem
    simp only [hi, true_and, decide_eq_true_eq] at hmem
    tauto
  · intro h
    refine List.filter_congr fun i hi => ?_
    rw [Bool.eq_iff_iff, hstays, ← h i hi]
    simp

/-- Exactly the definitions that only the new set has are started, if these are the ones whose keys are. -/
theorem count_started_iff {reached : Bool} {old new : List (K × V)} {keys : List K} :
    (∀ d ∈ new, (started reached keys new).count d = if d ∈ old then 0 else new.count d) ↔
      ∀ d ∈ new, d ∉ old ↔ reached = true ∧ d.1 ∈ keys := by
  refine forall₂_congr fun d hd => ?_
  have hcount : new.count d ≠ 0 := Nat.ne_of_gt (List.count_pos_iff.mpr hd)
  by_cases hkey : reached = true ∧ d.1 ∈ keys
  · rw [started, List.count_filter (by simpa using hkey)]
    by_cases hold : d ∈ old
    · simp [hold, hkey, hcount]
    · simp [hold, hkey]
  · have hzero : (started reached keys new).count d = 0 := by
      refine List.count_eq_zero.mpr fun hmem => hkey ?_
      simpa using (List.mem_filter.mp hmem).2
    rw [hzero]
    by_cases hold : d ∈ old
    · simp [hold, hkey]
    · simp [hold, hkey, hcount.symm]

/-- A rollout stops exactly the instances whose definitions are gone and starts exactly the definitions
    that are new, if and only if it is `Exact`. -/
theorem exact_iff {stops reached : Bool} {old new : List (K × V)} {instances : List I} :
    remaining definition reachable stops old new instances
          = instances.filter (fun i => definition i ∈ new) ∧
        (∀ d ∈ new, (started reached
            (missing old new (running definition reachable old new instances)) new).count d
          = if d ∈ old then 0 else new.count d) ↔
      Exact definition reachable stops reached old new instances := by
  rw [remaining_eq_iff, count_started_iff]
  constructor
  · rintro ⟨hstale, hstarted⟩
    refine ⟨hstale, fun d hnew hold => ?_, fun d hnew hold hreached => ?_⟩
    · obtain ⟨hreached, hmissing⟩ := (hstarted d hnew).mp hold
      rw [mem_missing_of_added hnew hold, mem_running] at hmissing
      exact ⟨hreached, hmissing⟩
    · by_contra hneither
      rw [not_or] at hneither
      obtain ⟨hruns, hother⟩ := hneither
      push Not at hother
      refine (hstarted d hnew).mpr ⟨hreached, mem_missing.mpr ⟨?_, ?_⟩⟩ hold
      · obtain ⟨e, he, hkey, hversion⟩ := hother
        exact ⟨e, he, hkey, hversion⟩
      · rwa [mem_running]
  · rintro ⟨hstale, hadded, hshared⟩
    refine ⟨hstale, fun d hnew => ⟨fun hold => ?_, ?_⟩⟩
    · obtain ⟨hreached, hruns⟩ := hadded d hnew hold
      exact ⟨hreached, (mem_missing_of_added hnew hold).mpr (by rwa [mem_running])⟩
    · rintro ⟨hreached, hmissing⟩ hold
      obtain ⟨⟨e, he, hkey, hversion⟩, hruns⟩ := mem_missing.mp hmissing
      rw [mem_running] at hruns
      rcases hshared d hnew hold hreached with hruns' | hother
      · exact hruns hruns'
      · exact hversion (hother e he hkey)

end Instances

end Rollout
