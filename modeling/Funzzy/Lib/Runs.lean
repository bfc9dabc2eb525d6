import Mathlib.Data.List.Sort
import Mathlib.Order.Basic
import Mathlib.Order.Bounds.Basic

/-! Sorting and removing repeated elements.

    `dedupBy key` keeps the first element of each run of elements with one key, the way a vector is
    deduplicated. Of a list sorted by key it leaves one element for each key, in strictly increasing order
    of the keys; `sortDedup` is the two together. -/

namespace Runs

variable {α κ : Type} [LinearOrder κ] (key : α → κ)

/-- What is kept behind an element with the key `last`. -/
def dedupAfter (last : κ) : List α → List α
  | [] => []
  | a :: l => if key a = last then dedupAfter last l else a :: dedupAfter (key a) l

/-- The first element of each run. -/
def dedupBy : List α → List α
  | [] => []
  | a :: l => a :: dedupAfter key (key a) l

theorem dedupAfter_sublist (l : List α) : ∀ last, (dedupAfter key last l).Sublist l := by
  induction l with
  | nil => exact fun _ => List.Sublist.slnil
  | cons a l ih =>
    intro last
    rw [dedupAfter]
    split
    · exact (ih last).cons a
    · exact (ih _).cons_cons a

theorem dedupBy_sublist (l : List α) : (dedupBy key l).Sublist l := by
  cases l with
  | nil => exact List.Sublist.slnil
  | cons a l => exact (dedupAfter_sublist key l _).cons_cons a

/-- No key is lost but the one that is already there. -/
theorem exists_mem_dedupAfter {l : List α} {a : α} : ∀ {last}, a ∈ l → key a ≠ last →
    ∃ b ∈ dedupAfter key last l, key b = key a := by
  induction l with
  | nil => intro last h; cases h
  | cons c l ih =>
    intro last h hne
    rw [dedupAfter]
    rcases List.mem_cons.mp h with rfl | h
    · exact ⟨a, by rw [if_neg hne]; exact List.mem_cons_self, rfl⟩
    · split
      · exact ih h hne
      · by_cases hc : key a = key c
        · exact ⟨c, List.mem_cons_self, hc.symm⟩
        · obtain ⟨b, hb, hkey⟩ := ih h hc
          exact ⟨b, List.mem_cons_of_mem _ hb, hkey⟩

theorem exists_mem_dedupBy {l : List α} {a : α} (h : a ∈ l) :
    ∃ b ∈ dedupBy key l, key b = key a := by
  cases l with
  | nil => cases h
  | cons c l =>
    by_cases hc : key a = key c
    · exact ⟨c, List.mem_cons_self, hc.symm⟩
    · rcases List.mem_cons.mp h with rfl | h
      · exact absurd rfl hc
      · obtain ⟨b, hb, hkey⟩ := exists_mem_dedupAfter key h hc
        exact ⟨b, List.mem_cons_of_mem _ hb, hkey⟩

theorem dedupAfter_increases {l : List α} : ∀ {last : κ}, l.Pairwise (fun a b => key a ≤ key b) →
    (∀ a ∈ l, last ≤ key a) →
    (∀ a ∈ dedupAfter key last l, last < key a)
      ∧ (dedupAfter key last l).Pairwise (fun a b => key a < key b) := by
  induction l with
  | nil => exact fun _ _ => ⟨by simp [dedupAfter], List.Pairwise.nil⟩
  | cons a l ih =>
    intro last hsorted hlast
    obtain ⟨hhead, hrest⟩ := List.pairwise_cons.mp hsorted
    rw [dedupAfter]
    split
    · exact ih hrest fun b hb => hlast b (List.mem_cons_of_mem _ hb)
    · next hne =>
      obtain ⟨hlt, hpairs⟩ := ih hrest hhead
      have hless : last < key a := lt_of_le_of_ne (hlast a List.mem_cons_self) (Ne.symm hne)
      refine ⟨fun b hb => ?_, List.pairwise_cons.mpr ⟨hlt, hpairs⟩⟩
      rcases List.mem_cons.mp hb with rfl | hb
      · exact hless
      · exact hless.trans (hlt b hb)

theorem dedupBy_increases {l : List α} (h : l.Pairwise (fun a b => key a ≤ key b)) :
    (dedupBy key l).Pairwise (fun a b => key a < key b) := by
  cases l with
  | nil => exact List.Pairwise.nil
  | cons a l =>
    obtain ⟨hhead, hrest⟩ := List.pairwise_cons.mp h
    obtain ⟨hlt, hpairs⟩ := dedupAfter_increases key hrest hhead
    exact List.pairwise_cons.mpr ⟨hlt, hpairs⟩

/-- Sorted by key, stably, and then one element for each key. -/
def sortDedup (l : List α) : List α := dedupBy key (l.insertionSort fun a b => key a ≤ key b)

theorem sortDedup_increases (l : List α) :
    (sortDedup key l).Pairwise (fun a b => key a < key b) := by
  have _ : Std.Total fun a b : α => key a ≤ key b := ⟨fun a b => le_total (key a) (key b)⟩
  have _ : IsTrans α fun a b => key a ≤ key b := ⟨fun _ _ _ => le_trans⟩
  exact dedupBy_increases key (List.pairwise_insertionSort _ l)

theorem mem_of_mem_sortDedup {l : List α} {a : α} (h : a ∈ sortDedup key l) : a ∈ l :=
  (List.mem_insertionSort _).mp ((dedupBy_sublist key _).subset h)

/-- No key is lost. -/
theorem mem_map_sortDedup {l : List α} {k : κ} : k ∈ (sortDedup key l).map key ↔ k ∈ l.map key := by
  simp only [List.mem_map]
  constructor
  · rintro ⟨a, ha, rfl⟩
    exact ⟨a, mem_of_mem_sortDedup key ha, rfl⟩
  · rintro ⟨a, ha, rfl⟩
    obtain ⟨b, hb, hkey⟩ := exists_mem_dedupBy key
      ((List.mem_insertionSort fun a b => key a ≤ key b).mpr ha)
    exact ⟨b, hb, hkey⟩

/-- Where the key is the element itself, nothing is lost. -/
theorem mem_sortDedup {l : List κ} {a : κ} : a ∈ sortDedup id l ↔ a ∈ l := by
  refine ⟨mem_of_mem_sortDedup id, fun h => ?_⟩
  obtain ⟨b, hb, hkey⟩ := exists_mem_dedupBy id ((List.mem_insertionSort fun a b => id a ≤ id b).mpr h)
  exact (show b = a from hkey) ▸ hb

theorem sortDedup_nodup (l : List κ) : (sortDedup id l).Nodup :=
  (sortDedup_increases id l).imp fun h => ne_of_lt h

/-! ### The first hit of a sorted list -/

/-- The first hit of a sorted list is at its least element that hits. -/
theorem findSome?_least {f : κ → Option α} {l : List κ} {a : α} (hsorted : l.Pairwise (· ≤ ·))
    (h : l.findSome? f = some a) :
    ∃ k, IsLeast {k | k ∈ l ∧ (f k).isSome} k ∧ f k = some a := by
  induction l with
  | nil => cases h
  | cons first rest ih =>
    obtain ⟨hfirst, hrest⟩ := List.pairwise_cons.mp hsorted
    rw [List.findSome?_cons] at h
    cases hf : f first with
    | some b =>
      rw [hf] at h
      refine ⟨first, ⟨⟨List.mem_cons_self, by rw [hf]; rfl⟩, ?_⟩, hf.trans h⟩
      rintro k ⟨hk, -⟩
      rcases List.mem_cons.mp hk with rfl | hk
      · exact le_rfl
      · exact hfirst k hk
    | none =>
      rw [hf] at h
      obtain ⟨k, ⟨⟨hk, hhit⟩, hleast⟩, hvalue⟩ := ih hrest h
      refine ⟨k, ⟨⟨List.mem_cons_of_mem _ hk, hhit⟩, ?_⟩, hvalue⟩
      rintro k' ⟨hk', hhit'⟩
      rcases List.mem_cons.mp hk' with rfl | hk'
      · rw [hf] at hhit'
        cases hhit'
      · exact hleast ⟨hk', hhit'⟩

/-- So it depends on what the list holds, not on how often it holds it. -/
theorem findSome?_congr {f : κ → Option α} {l l' : List κ} (hsorted : l.Pairwise (· ≤ ·))
    (hsorted' : l'.Pairwise (· ≤ ·)) (h : ∀ k, k ∈ l ↔ k ∈ l') : l.findSome? f = l'.findSome? f := by
  cases hl : l.findSome? f with
  | none =>
    rw [eq_comm]
    rw [List.findSome?_eq_none_iff] at hl ⊢
    exact fun k hk => hl k ((h k).mpr hk)
  | some a =>
    obtain ⟨k, hk, hvalue⟩ := findSome?_least hsorted hl
    cases hl' : l'.findSome? f with
    | none =>
      rw [List.findSome?_eq_none_iff] at hl'
      rw [hl' k ((h k).mp hk.1.1)] at hvalue
      cases hvalue
    | some a' =>
      obtain ⟨k', hk', hvalue'⟩ := findSome?_least hsorted' hl'
      simp only [h] at hk
      rw [hk.unique hk', hvalue'] at hvalue
      exact hvalue.symm

end Runs
