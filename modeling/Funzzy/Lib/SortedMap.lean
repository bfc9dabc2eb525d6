import Mathlib.Data.List.Sort
import Mathlib.Order.Basic

/-! Finite maps as association lists sorted by key.

    The keys of a `SortedMap` increase strictly along its entries, so a map is its graph: two maps that
    answer every lookup alike are equal. `alter` is the one way to change a map: it finds or makes the
    entry of a key and rewrites its value. -/

/-- A finite map with its entries in increasing order of their keys. -/
structure SortedMap (κ ν : Type) [LinearOrder κ] where
  entries : List (κ × ν)
  sorted : entries.Pairwise fun a b => a.1 < b.1

namespace SortedMap

variable {κ ν : Type} [LinearOrder κ]

instance [DecidableEq ν] : DecidableEq (SortedMap κ ν) := fun m m' =>
  decidable_of_iff (m.entries = m'.entries)
    ⟨fun h => by cases m; cases m'; cases h; rfl, fun h => h ▸ rfl⟩

def empty : SortedMap κ ν := ⟨[], List.Pairwise.nil⟩

def get? (m : SortedMap κ ν) (k : κ) : Option ν := m.entries.lookup k

/-- The entries with the value of `k` rewritten, from nothing if there is none. -/
def alterEntries (k : κ) (f : Option ν → ν) : List (κ × ν) → List (κ × ν)
  | [] => [(k, f none)]
  | (k', v) :: rest =>
    if k < k' then (k, f none) :: (k', v) :: rest
    else if k' < k then (k', v) :: alterEntries k f rest
    else (k', f (some v)) :: rest

theorem mem_alterEntries {k : κ} {f : Option ν → ν} {entry : κ × ν} (l : List (κ × ν)) :
    entry ∈ alterEntries k f l → entry.1 = k ∨ ∃ v, (entry.1, v) ∈ l := by
  induction l with
  | nil =>
    intro h
    exact Or.inl (List.mem_singleton.mp h ▸ rfl)
  | cons head rest ih =>
    obtain ⟨k', v⟩ := head
    rw [alterEntries]
    split
    · intro h
      rcases List.mem_cons.mp h with rfl | h
      · exact Or.inl rfl
      · exact Or.inr ⟨entry.2, h⟩
    · split
      · intro h
        rcases List.mem_cons.mp h with rfl | h
        · exact Or.inr ⟨_, List.mem_cons_self⟩
        · exact (ih h).imp_right fun ⟨w, hw⟩ => ⟨w, List.mem_cons_of_mem _ hw⟩
      · intro h
        rcases List.mem_cons.mp h with rfl | h
        · exact Or.inr ⟨v, List.mem_cons_self⟩
        · exact Or.inr ⟨entry.2, List.mem_cons_of_mem _ h⟩

theorem sorted_alterEntries {k : κ} {f : Option ν → ν} (l : List (κ × ν))
    (h : l.Pairwise fun a b => a.1 < b.1) :
    (alterEntries k f l).Pairwise fun a b => a.1 < b.1 := by
  induction l with
  | nil => exact List.pairwise_singleton _ _
  | cons head rest ih =>
    obtain ⟨k', v⟩ := head
    obtain ⟨hhead, hrest⟩ := List.pairwise_cons.mp h
    rw [alterEntries]
    split
    · next hlt =>
      refine List.pairwise_cons.mpr ⟨fun entry hentry => ?_, h⟩
      rcases List.mem_cons.mp hentry with rfl | hentry
      · exact hlt
      · exact hlt.trans (hhead entry hentry)
    · split
      · next hlt =>
        refine List.pairwise_cons.mpr ⟨fun entry hentry => ?_, ih hrest⟩
        rcases mem_alterEntries rest hentry with heq | ⟨w, hw⟩
        · exact heq ▸ hlt
        · exact hhead (entry.1, w) hw
      · exact List.pairwise_cons.mpr ⟨hhead, hrest⟩

/-- The map with the value of `k` rewritten, from nothing if there is none. -/
def alter (m : SortedMap κ ν) (k : κ) (f : Option ν → ν) : SortedMap κ ν :=
  ⟨alterEntries k f m.entries, sorted_alterEntries m.entries m.sorted⟩

/-! ### Lookups -/

@[simp] theorem get?_empty (k : κ) : (empty : SortedMap κ ν).get? k = none := rfl

theorem lookup_cons (k k' : κ) (v : ν) (rest : List (κ × ν)) :
    ((k', v) :: rest).lookup k = if k = k' then some v else rest.lookup k := by
  rw [List.lookup_cons]
  by_cases h : k = k'
  · rw [if_pos h, h, beq_self_eq_true]
  · rw [if_neg h, beq_eq_false_iff_ne.mpr h]

/-- Below its first key a sorted list has nothing. -/
theorem lookup_eq_none_of_lt {k : κ} {l : List (κ × ν)} (h : ∀ entry ∈ l, k < entry.1) :
    l.lookup k = none := by
  induction l with
  | nil => rfl
  | cons head rest ih =>
    obtain ⟨k', v⟩ := head
    rw [lookup_cons, if_neg (ne_of_lt (h (k', v) List.mem_cons_self))]
    exact ih fun entry hentry => h entry (List.mem_cons_of_mem _ hentry)

theorem lookup_alterEntries (k : κ) (f : Option ν → ν) (j : κ) (l : List (κ × ν))
    (h : l.Pairwise fun a b => a.1 < b.1) :
    (alterEntries k f l).lookup j = if j = k then some (f (l.lookup k)) else l.lookup j := by
  induction l with
  | nil => rw [alterEntries, lookup_cons]; rfl
  | cons head rest ih =>
    obtain ⟨k', v⟩ := head
    obtain ⟨hhead, hrest⟩ := List.pairwise_cons.mp h
    rw [alterEntries]
    split
    · next hlt =>
      have hnone : ((k', v) :: rest).lookup k = none := by
        refine lookup_eq_none_of_lt fun entry hentry => ?_
        rcases List.mem_cons.mp hentry with rfl | hentry
        · exact hlt
        · exact hlt.trans (hhead entry hentry)
      rw [lookup_cons, hnone]
    · split
      · next hlt =>
        rw [lookup_cons, ih hrest, lookup_cons k, if_neg (ne_of_gt hlt), lookup_cons]
        by_cases hj : j = k'
        · rw [if_pos hj, if_neg (hj ▸ ne_of_lt hlt), if_pos hj]
        · rw [if_neg hj, if_neg hj]
      · next hnlt hngt =>
        obtain rfl : k = k' := le_antisymm (not_lt.mp hngt) (not_lt.mp hnlt)
        rw [lookup_cons, lookup_cons, if_pos rfl, lookup_cons]
        split <;> rfl

@[simp] theorem get?_alter (m : SortedMap κ ν) (k : κ) (f : Option ν → ν) (j : κ) :
    (m.alter k f).get? j = if j = k then some (f (m.get? k)) else m.get? j :=
  lookup_alterEntries k f j m.entries m.sorted

theorem get?_eq_some_iff (m : SortedMap κ ν) (k : κ) (v : ν) :
    m.get? k = some v ↔ (k, v) ∈ m.entries := by
  obtain ⟨l, hl⟩ := m
  change l.lookup k = some v ↔ (k, v) ∈ l
  induction l with
  | nil => simp
  | cons head rest ih =>
    obtain ⟨k', v'⟩ := head
    obtain ⟨hhead, hrest⟩ := List.pairwise_cons.mp hl
    rw [lookup_cons, List.mem_cons, Prod.mk.injEq]
    split
    · next hk =>
      -- behind the head every key is larger
      subst hk
      have hnot : (k, v) ∉ rest := fun hmem => lt_irrefl _ (hhead (k, v) hmem)
      simp [hnot, eq_comm]
    · next hk => simp [hk, ih hrest]

/-- The entries of one key: one if the map has it, none otherwise. -/
theorem filter_key (m : SortedMap κ ν) (k : κ) :
    (m.entries.filter fun entry => entry.1 = k) = ((m.get? k).map fun v => (k, v)).toList := by
  obtain ⟨l, hl⟩ := m
  change (l.filter fun entry => entry.1 = k) = ((l.lookup k).map fun v => (k, v)).toList
  induction l with
  | nil => rfl
  | cons head rest ih =>
    obtain ⟨k', v⟩ := head
    obtain ⟨hhead, hrest⟩ := List.pairwise_cons.mp hl
    rw [lookup_cons, List.filter_cons]
    by_cases hk : k = k'
    · have hnone : (rest.filter fun entry => entry.1 = k) = [] := by
        refine List.filter_eq_nil_iff.mpr fun entry hentry heq => ?_
        have hlt := hhead entry hentry
        rw [of_decide_eq_true heq, hk] at hlt
        exact lt_irrefl _ hlt
      rw [if_pos hk, if_pos (decide_eq_true hk.symm), hnone, hk]
      rfl
    · rw [if_neg hk, if_neg (fun heq => hk (of_decide_eq_true heq).symm)]
      exact ih hrest

/-- A map is determined by its lookups. -/
theorem ext_get? {m m' : SortedMap κ ν} (h : ∀ k, m.get? k = m'.get? k) : m = m' := by
  have hmem : ∀ entry, entry ∈ m.entries ↔ entry ∈ m'.entries := by
    rintro ⟨k, v⟩
    rw [← get?_eq_some_iff, ← get?_eq_some_iff, h k]
  have _ : Std.Asymm fun a b : κ × ν => a.1 < b.1 := ⟨fun _ _ => lt_asymm⟩
  have _ : Std.Irrefl fun a b : κ × ν => a.1 < b.1 := ⟨fun _ => lt_irrefl _⟩
  have hentries := m.sorted.eq_of_mem_iff m'.sorted hmem
  cases m
  cases m'
  cases hentries
  rfl

/-! ### Inserting and removing -/

def insert (m : SortedMap κ ν) (k : κ) (v : ν) : SortedMap κ ν := m.alter k fun _ => v

/-- The map without `k`. -/
def erase (m : SortedMap κ ν) (k : κ) : SortedMap κ ν :=
  ⟨m.entries.filter fun entry => entry.1 ≠ k, m.sorted.sublist List.filter_sublist⟩

/-- The map without its first entry. -/
def popFirst (m : SortedMap κ ν) : SortedMap κ ν :=
  ⟨m.entries.tail, m.sorted.sublist (List.tail_sublist _)⟩

@[simp] theorem get?_insert (m : SortedMap κ ν) (k : κ) (v : ν) (j : κ) :
    (m.insert k v).get? j = if j = k then some v else m.get? j :=
  get?_alter ..

@[simp] theorem get?_erase (m : SortedMap κ ν) (k j : κ) :
    (m.erase k).get? j = if j = k then none else m.get? j := by
  refine Option.ext fun v => ?_
  rw [get?_eq_some_iff, erase, List.mem_filter, ← get?_eq_some_iff, decide_eq_true_eq]
  by_cases h : j = k <;> simp [h]

theorem get?_popFirst {m : SortedMap κ ν} {k : κ} {v : ν} (h : m.popFirst.get? k = some v) :
    m.get? k = some v := by
  rw [get?_eq_some_iff] at h ⊢
  exact List.mem_of_mem_tail h

theorem length_alterEntries (k : κ) (f : Option ν → ν) (l : List (κ × ν)) :
    (alterEntries k f l).length ≤ l.length + 1 := by
  induction l with
  | nil => exact Nat.le_refl _
  | cons head rest ih =>
    obtain ⟨k', v⟩ := head
    rw [alterEntries]
    split
    · exact Nat.le_refl _
    · split
      · simpa using ih
      · exact Nat.le_succ _

/-- An insertion that makes room first when `bound` entries are there. -/
def insertBounded (m : SortedMap κ ν) (bound : Nat) (k : κ) (v : ν) : SortedMap κ ν :=
  (if bound ≤ m.entries.length then m.popFirst else m).insert k v

/-- What stands under another key after a bounded insertion stood there before. -/
theorem get?_insertBounded {m : SortedMap κ ν} {bound : Nat} {k j : κ} {v w : ν}
    (h : (m.insertBounded bound k v).get? j = some w) :
    (j = k ∧ w = v) ∨ (j ≠ k ∧ m.get? j = some w) := by
  rw [insertBounded, get?_insert] at h
  by_cases hj : j = k
  · rw [if_pos hj] at h
    exact .inl ⟨hj, (Option.some.inj h).symm⟩
  · rw [if_neg hj] at h
    refine .inr ⟨hj, ?_⟩
    split at h
    · exact get?_popFirst h
    · exact h

theorem get?_insertBounded_self (m : SortedMap κ ν) (bound : Nat) (k : κ) (v : ν) :
    (m.insertBounded bound k v).get? k = some v := by
  rw [insertBounded, get?_insert, if_pos rfl]

theorem length_insertBounded {m : SortedMap κ ν} {bound : Nat} (k : κ) (v : ν) (hpos : 0 < bound)
    (h : m.entries.length ≤ bound) : (m.insertBounded bound k v).entries.length ≤ bound := by
  rw [insertBounded]
  refine (length_alterEntries k _ _).trans ?_
  split
  · rw [popFirst, List.length_tail]
    omega
  · omega

theorem length_erase (m : SortedMap κ ν) (k : κ) :
    (m.erase k).entries.length ≤ m.entries.length :=
  List.length_filter_le ..

end SortedMap
