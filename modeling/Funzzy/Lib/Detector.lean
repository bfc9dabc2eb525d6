import Mathlib.Logic.Function.Basic
import Mathlib.Data.List.Basic

/-! Detecting changes by what was observed last.

    A detector remembers of each key what it observed last, which may be that there is nothing. It reports
    a key when it observes something that it did not remember. -/

namespace Detector

variable {κ ω : Type} [DecidableEq κ]

/-- What is remembered: nothing of a key never observed. -/
abbrev Memory (κ ω : Type) := κ → Option (Option ω)

def remember (m : Memory κ ω) (observation : κ × Option ω) : Memory κ ω :=
  Function.update m observation.1 (some observation.2)

/-- What is remembered after some observations. -/
def remembered (m : Memory κ ω) (history : List (κ × Option ω)) : Memory κ ω := history.foldl remember m

/-- Where one thing is observed of a key throughout, that is remembered; a key not observed is
    remembered as before. -/
theorem remembered_of_same {k : κ} {o : Option ω} (history : List (κ × Option ω)) : ∀ m : Memory κ ω,
    (∀ observation ∈ history, observation.1 = k → observation.2 = o) →
    remembered m history k = if k ∈ history.map Prod.fst then some o else m k := by
  induction history with
  | nil => intro m _; rfl
  | cons observation rest ih =>
    intro m hsame
    obtain ⟨k', o'⟩ := observation
    have hrest := ih (remember m (k', o')) fun observation h => hsame observation (List.mem_cons_of_mem _ h)
    rw [remembered, List.foldl_cons, ← remembered, hrest]
    by_cases hkey : k' = k
    · have ho : o' = o := hsame (k', o') List.mem_cons_self hkey
      subst hkey ho
      simp [remember]
    · have hmem : k ∈ ((k', o') :: rest).map Prod.fst ↔ k ∈ rest.map Prod.fst := by
        simp [Ne.symm hkey]
      rw [remember, Function.update_of_ne (Ne.symm hkey)]
      simp only [hmem]

variable [DecidableEq ω]

/-- One observation is reported if there is something, and it was not there before. -/
def reports (m : Memory κ ω) (k : κ) (o : Option ω) : Bool := o.isSome && m k != some o

/-- The keys reported in some observations, in order. -/
def reported : Memory κ ω → List (κ × Option ω) → List κ
  | _, [] => []
  | m, (k, o) :: rest =>
    if reports m k o then k :: reported (remember m (k, o)) rest else reported (remember m (k, o)) rest

theorem reported_append (history later : List (κ × Option ω)) : ∀ m : Memory κ ω,
    reported m (history ++ later) = reported m history ++ reported (remembered m history) later := by
  induction history with
  | nil => exact fun m => rfl
  | cons observation rest ih =>
    intro m
    obtain ⟨k, o⟩ := observation
    rw [List.cons_append, reported, reported, ih]
    split <;> rfl

/-- A key of which one thing is observed throughout is reported at most once, and not at all if that is
    what is remembered. -/
theorem count_reported {k : κ} {o : Option ω} (history : List (κ × Option ω)) : ∀ m : Memory κ ω,
    (∀ observation ∈ history, observation.1 = k → observation.2 = o) →
    (reported m history).count k
      = if reports m k o ∧ k ∈ history.map Prod.fst then 1 else 0 := by
  induction history with
  | nil => intro m _; simp [reported]
  | cons observation rest ih =>
    intro m hsame
    obtain ⟨k', o'⟩ := observation
    have hrest := ih (remember m (k', o')) fun observation h => hsame observation (List.mem_cons_of_mem _ h)
    rw [reported]
    by_cases hkey : k' = k
    · have ho : o' = o := hsame (k', o') List.mem_cons_self hkey
      subst hkey ho
      have hknown : reports (remember m (k', o')) k' o' = false := by simp [reports, remember]
      simp only [hknown, Bool.false_eq_true, false_and, if_false] at hrest
      split
      · next hreports => simp [hrest, hreports]
      · next hreports => simp [hrest, hreports]
    · have hkeep : reports (remember m (k', o')) k o = reports m k o := by
        simp [reports, remember, Function.update_of_ne (Ne.symm hkey)]
      rw [hkeep] at hrest
      have hmem : k ∈ ((k', o') :: rest).map Prod.fst ↔ k ∈ rest.map Prod.fst := by
        simp [Ne.symm hkey]
      simp only [hmem]
      split
      · rw [List.count_cons_of_ne hkey, hrest]
      · exact hrest

theorem count_reported_le_one {k : κ} {o : Option ω} {history : List (κ × Option ω)} (m : Memory κ ω)
    (hsame : ∀ observation ∈ history, observation.1 = k → observation.2 = o) :
    (reported m history).count k ≤ 1 := by
  rw [count_reported history m hsame]
  split <;> omega

theorem mem_reported_iff {k : κ} {o : Option ω} {history : List (κ × Option ω)} (m : Memory κ ω)
    (hsame : ∀ observation ∈ history, observation.1 = k → observation.2 = o) :
    k ∈ reported m history ↔ reports m k o = true ∧ k ∈ history.map Prod.fst := by
  rw [← List.count_pos_iff, count_reported history m hsame]
  split
  · next h => exact iff_of_true (by omega) h
  · next h => exact iff_of_false (by omega) h

end Detector
