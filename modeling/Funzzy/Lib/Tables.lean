import Mathlib.Data.Finset.Card
import Mathlib.Data.List.AList
import Mathlib.Data.List.MinMax

/-! Hash tables of bounded size.

    A table is Mathlib's `AList`: entries with keys of their own, in some order. `retain` keeps the entries
    whose value passes a test. `cap` removes entries of the least age until a bound is met; among the entries
    of one age it takes the first that the table's iteration comes to, in whatever order that is. -/

/-- A table of values of one type. -/
abbrev Table (Key Value : Type) := AList fun _ : Key => Value

/-- An order in which a table is iterated: any rearrangement of its entries. -/
structure Iteration (α : Type) where
  order : List α → List α
  perm : ∀ entries, (order entries).Perm entries

namespace Table

variable {Key Value : Type}

def size (m : Table Key Value) : Nat := m.keys.length

/-- `retain` -/
def retain (keep : Value → Bool) (m : Table Key Value) : Table Key Value :=
  ⟨m.entries.filter fun entry => keep entry.2, m.nodupKeys.sublist List.filter_sublist⟩

theorem size_retain_le (keep : Value → Bool) (m : Table Key Value) : size (retain keep m) ≤ size m := by
  have hlength := List.length_filter_le (fun entry : Σ _ : Key, Value => keep entry.2) m.entries
  simpa [size, AList.keys, List.keys, retain] using hlength

/-! ### Lookups and sizes -/

section

variable [DecidableEq Key]

theorem lookup_retain (keep : Value → Bool) (m : Table Key Value) (key : Key) :
    (retain keep m).lookup key = (m.lookup key).filter keep := by
  ext value
  rw [Option.filter_eq_some_iff, ← Option.mem_def, ← Option.mem_def, AList.mem_lookup_iff, AList.mem_lookup_iff]
  exact List.mem_filter

theorem size_erase {key : Key} {m : Table Key Value} (h : key ∈ m) : size (m.erase key) = size m - 1 := by
  rw [size, size, AList.keys_erase, List.length_erase_of_mem (AList.mem_keys.mp h)]

/-- A table has no more entries than a set that holds its keys. -/
theorem size_le_card {m : Table Key Value} {live : Finset Key} (h : ∀ key ∈ m, key ∈ live) :
    size m ≤ live.card := by
  rw [size, ← List.toFinset_card_of_nodup m.keys_nodup]
  refine Finset.card_le_card fun key hkey => h key ?_
  exact AList.mem_keys.mpr (List.mem_toFinset.mp hkey)

end

/-! ### Eviction -/

variable (age : Value → Nat) (iteration : Iteration (Σ _ : Key, Value)) (bound : Nat)

/-- The key of the first entry of the least age that the iteration comes to. -/
def oldest (m : Table Key Value) : Option Key :=
  ((iteration.order m.entries).argmin fun entry => age entry.2).map (·.1)

theorem mem_of_oldest {m : Table Key Value} {key : Key} (h : oldest age iteration m = some key) : key ∈ m := by
  obtain ⟨entry, hentry, rfl⟩ := Option.map_eq_some_iff.mp h
  have hmem := (iteration.perm m.entries).mem_iff.mp (List.argmin_mem hentry)
  exact AList.mem_keys.mpr (List.mem_map_of_mem hmem)

theorem oldest_ne_none {m : Table Key Value} (h : 0 < size m) : oldest age iteration m ≠ none := by
  intro hnone
  rw [oldest, Option.map_eq_none_iff, List.argmin_eq_none] at hnone
  have hentries := (iteration.perm m.entries).length_eq
  rw [hnone] at hentries
  have hsize : size m = m.entries.length := List.length_map _
  rw [hsize, ← hentries] at h
  exact absurd h (Nat.lt_irrefl 0)

variable [DecidableEq Key]

/-- The loop of `cap`, with its number of rounds. -/
def capLoop : Nat → Table Key Value → Table Key Value
  | 0, m => m
  | rounds + 1, m =>
    if bound < size m then
      match oldest age iteration m with
      | some key => capLoop rounds (m.erase key)
      | none => m
    else m

/-- Oldest entries are removed until the bound is met; each round removes one. -/
def cap (m : Table Key Value) : Table Key Value := capLoop age iteration bound (size m) m

theorem capLoop_of_le {m : Table Key Value} (h : size m ≤ bound) (rounds : Nat) :
    capLoop age iteration bound rounds m = m := by
  cases rounds with
  | zero => rfl
  | succ rounds => rw [capLoop, if_neg (Nat.not_lt.mpr h)]

theorem cap_of_le {m : Table Key Value} (h : size m ≤ bound) : cap age iteration bound m = m :=
  capLoop_of_le age iteration bound h _

theorem size_capLoop_le (rounds : Nat) : ∀ m : Table Key Value, size m ≤ bound + rounds →
    size (capLoop age iteration bound rounds m) ≤ bound := by
  induction rounds with
  | zero => exact fun m h => h
  | succ rounds ih =>
    intro m h
    rw [capLoop]
    split
    · next hover =>
      have hsome := oldest_ne_none age iteration (Nat.zero_lt_of_lt hover)
      cases holdest : oldest age iteration m with
      | none => exact absurd holdest hsome
      | some key =>
        refine ih (m.erase key) ?_
        rw [size_erase (mem_of_oldest age iteration holdest)]
        omega
    · next hunder => exact Nat.not_lt.mp hunder

theorem size_cap_le (m : Table Key Value) : size (cap age iteration bound m) ≤ bound :=
  size_capLoop_le age iteration bound (size m) m (Nat.le_add_left _ _)

end Table
