import Mathlib.Data.List.Sort
import Mathlib.Data.List.Forall2
import Mathlib.Order.Basic

/-! Ranks in a sample: the sorted sample and the value at each place of it.

    A value of the sorted sample is at most a bound exactly if enough samples are, and how many are is
    counted without regard to their order. So the sorted sample depends on the multiset alone, and every
    value of it moves with the samples. -/

namespace Ranks

variable {α : Type} [LinearOrder α]

/-- The samples in order. -/
def sorted (samples : List α) : List α := samples.insertionSort (· ≤ ·)

theorem sorted_pairwise (samples : List α) : (sorted samples).Pairwise (· ≤ ·) :=
  List.pairwise_insertionSort (· ≤ ·) samples

theorem sorted_perm (samples : List α) : (sorted samples).Perm samples :=
  List.perm_insertionSort (· ≤ ·) samples

@[simp] theorem length_sorted (samples : List α) : (sorted samples).length = samples.length :=
  (sorted_perm samples).length_eq

@[simp] theorem mem_sorted {samples : List α} {x : α} : x ∈ sorted samples ↔ x ∈ samples :=
  (sorted_perm samples).mem_iff

/-- Samples that are the same but for their order are sorted alike. -/
theorem sorted_eq_of_perm {samples others : List α} (h : samples.Perm others) :
    sorted samples = sorted others :=
  (((sorted_perm samples).trans h).trans (sorted_perm others).symm).eq_of_pairwise
    (fun _ _ _ _ => le_antisymm) (sorted_pairwise samples) (sorted_pairwise others)

/-- A later value of a sorted list is no less. -/
theorem getElem_le_getElem {values : List α} (h : values.Pairwise (· ≤ ·)) {i j : Nat} (hij : i ≤ j)
    (hj : j < values.length) : values[i] ≤ values[j] := by
  rcases hij.lt_or_eq with hlt | rfl
  · exact List.pairwise_iff_getElem.mp h i j (by omega) hj hlt
  · exact le_refl _

/-- A value of a sorted list is at most a bound exactly if more values than come before it are. -/
theorem getElem_le_iff {values : List α} (h : values.Pairwise (· ≤ ·)) (bound : α) :
    ∀ {i : Nat} (hi : i < values.length),
      values[i] ≤ bound ↔ i < values.countP (· ≤ bound) := by
  induction values with
  | nil => exact fun hi => absurd hi (Nat.not_lt_zero _)
  | cons first rest ih =>
    intro i hi
    obtain ⟨hfirst, hrest⟩ := List.pairwise_cons.mp h
    by_cases hle : first ≤ bound
    · rw [List.countP_cons_of_pos (by simpa using hle)]
      cases i with
      | zero => exact iff_of_true hle (Nat.zero_lt_succ _)
      | succ i =>
        rw [List.getElem_cons_succ, ih hrest, Nat.succ_lt_succ_iff]
    · -- the first value is over the bound, so all are
      have hnone : (first :: rest).countP (· ≤ bound) = 0 := by
        rw [List.countP_eq_zero]
        intro x hx
        rcases List.mem_cons.mp hx with rfl | hmem
        · simpa using hle
        · have := hfirst x hmem
          simpa using (lt_of_not_ge hle).trans_le this
      rw [hnone]
      refine iff_of_false (fun hi' => hle (le_trans ?_ hi')) (Nat.not_lt_zero _)
      exact getElem_le_getElem h (Nat.zero_le i) hi

/-- When every sample is no greater than its counterpart, at least as many are within a bound. -/
theorem countP_le_of_forall₂ {samples others : List α} (h : List.Forall₂ (· ≤ ·) samples others)
    (bound : α) : others.countP (· ≤ bound) ≤ samples.countP (· ≤ bound) := by
  induction h with
  | nil => exact Nat.le_refl _
  | @cons x y samples others hxy _ ih =>
    rw [List.countP_cons, List.countP_cons]
    by_cases hy : y ≤ bound
    · have hx : x ≤ bound := hxy.trans hy
      simpa [hx, hy] using ih
    · simp only [hy, decide_false, Bool.false_eq_true, if_false]
      omega

/-- The value at every rank moves with the samples. -/
theorem sorted_mono {samples others : List α} (h : List.Forall₂ (· ≤ ·) samples others) {i : Nat}
    (hi : i < (sorted samples).length) (hi' : i < (sorted others).length) :
    (sorted samples)[i] ≤ (sorted others)[i] := by
  rw [getElem_le_iff (sorted_pairwise samples), (sorted_perm samples).countP_eq]
  refine Nat.lt_of_lt_of_le ?_ (countP_le_of_forall₂ h _)
  rw [← (sorted_perm others).countP_eq]
  exact (getElem_le_iff (sorted_pairwise others) _ hi').mp (le_refl _)

end Ranks
