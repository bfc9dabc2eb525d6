import Mathlib.Data.List.Basic
import Mathlib.Data.List.Infix

/-! Rules in order, of which the last one that applies decides.

    A directory tree holds rules at each of its directories; a walk that takes a directory's rules before
    those of its subdirectories puts the deeper ones behind the shallower ones. The rules in scope of a
    path are those of the directories above it, each seen from its own directory; in the walk's order they
    are the rules whose place is above the path. -/

namespace Precedence

variable {α β : Type}

/-- The last rule that applies. -/
def lastMatch (applies : α → Bool) (rules : List α) : Option α := rules.reverse.find? applies

/-- The answer of the last rule that applies; `false` where none does. -/
def verdict (answer applies : α → Bool) (rules : List α) : Bool := (lastMatch applies rules).any answer

/-- Rules that do not apply may be left out. -/
theorem lastMatch_filter (keep applies : α → Bool) (rules : List α) :
    lastMatch applies (rules.filter keep) = lastMatch (fun rule => keep rule && applies rule) rules := by
  rw [lastMatch, ← List.filter_reverse, List.find?_filter, lastMatch]
  refine congrArg (rules.reverse.find? ·) (funext fun rule => ?_)
  rw [Bool.decide_and, Bool.decide_eq_true, Bool.decide_eq_true]

theorem lastMatch_map (f : α → β) (applies : β → Bool) (rules : List α) :
    lastMatch applies (rules.map f) = (lastMatch (applies ∘ f) rules).map f := by
  rw [lastMatch, ← List.map_reverse, List.find?_map, lastMatch]

/-- Rules tried at each of several places: the last place at which one applies decides. -/
theorem lastMatch_flatMap (applies : β → α → Bool) (places : List β) (rules : List α) :
    (lastMatch (fun tried => applies tried.1 tried.2) (places.flatMap fun place => rules.map (place, ·))).map
      Prod.snd = places.reverse.findSome? fun place => lastMatch (applies place) rules := by
  rw [lastMatch, List.reverse_flatMap, List.find?_flatMap, List.map_findSome?]
  refine congrArg (places.reverse.findSome? ·) (funext fun place => ?_)
  have hplace := lastMatch_map (place, ·) (fun tried => applies tried.1 tried.2) rules
  rw [lastMatch] at hplace
  simp only [Function.comp_apply, hplace, Option.map_map]
  exact Option.map_id'

/-! ### Two readings of the same rules -/

section

variable {answer here there : α → Bool} {rules : List α}

/-- The strongest rule that applies in one reading or the other applies in both. -/
def Shared (here there : α → Bool) (rules : List α) : Prop :=
  ∀ rule ∈ lastMatch (fun rule => here rule || there rule) rules, here rule = true ∧ there rule = true

instance : Decidable (Shared here there rules) :=
  inferInstanceAs (Decidable (∀ rule ∈ lastMatch (fun rule => here rule || there rule) rules, _))

theorem lastMatch_of_either {rule : α}
    (h : lastMatch (fun rule => here rule || there rule) rules = some rule) (hhere : here rule = true) :
    lastMatch here rules = some rule := by
  rw [lastMatch, List.find?_eq_some_iff_append] at h ⊢
  obtain ⟨-, before, after, hrules, hbefore⟩ := h
  refine ⟨hhere, before, after, hrules, fun other hother => ?_⟩
  have hneither := hbefore other hother
  rw [Bool.not_or, Bool.and_eq_true] at hneither
  exact hneither.1

theorem lastMatch_or_comm : lastMatch (fun rule => here rule || there rule) rules
    = lastMatch (fun rule => there rule || here rule) rules :=
  congrArg (lastMatch · rules) (funext fun _ => Bool.or_comm _ _)

/-- Then it is the strongest in each. -/
theorem lastMatch_eq_of_shared (h : Shared here there rules) : lastMatch here rules = lastMatch there rules := by
  cases hlast : lastMatch (fun rule => here rule || there rule) rules with
  | none =>
    have hneither : ∀ rule ∈ rules, here rule = false ∧ there rule = false := by
      intro rule hrule
      have hnone := List.find?_eq_none.mp hlast rule (List.mem_reverse.mpr hrule)
      rwa [Bool.not_eq_true, Bool.or_eq_false_iff] at hnone
    have hhere : lastMatch here rules = none := List.find?_eq_none.mpr fun rule hrule =>
      Bool.not_eq_true _ ▸ (hneither rule (List.mem_reverse.mp hrule)).1
    have hthere : lastMatch there rules = none := List.find?_eq_none.mpr fun rule hrule =>
      Bool.not_eq_true _ ▸ (hneither rule (List.mem_reverse.mp hrule)).2
    rw [hhere, hthere]
  | some strongest =>
    obtain ⟨hhere, hthere⟩ := h strongest hlast
    rw [lastMatch_of_either hlast hhere, lastMatch_of_either (lastMatch_or_comm.symm.trans hlast) hthere]

/-- Rules that decide alike whatever they answer are the same rule. -/
theorem eq_of_any {a b : Option α} (h : ∀ answer : α → Bool, a.any answer = b.any answer) : a = b := by
  classical
  cases a with
  | none =>
    cases b with
    | none => rfl
    | some y => cases h fun _ => true
  | some x =>
    have hx := h fun rule => decide (rule = x)
    rw [Option.any_some, decide_eq_true rfl] at hx
    cases b with
    | none => cases hx
    | some y =>
      rw [Option.any_some, eq_comm, decide_eq_true_eq] at hx
      rw [hx]

end

/-! ### Trees of rules -/

/-- The rules of a directory, and its subdirectories in the order in which they are read. -/
inductive Tree (Name α : Type) where
  | node (own : List α) (children : List (Name × Tree Name α))

namespace Tree

variable {Name : Type}

mutual

/-- All rules, a directory's before those of its subdirectories. -/
def rules : Tree Name α → List α
  | node own children => own ++ rulesIn children

def rulesIn : List (Name × Tree Name α) → List α
  | [] => []
  | (_, child) :: rest => rules child ++ rulesIn rest

end

mutual

/-- All rules with the directories they stand in. -/
def located (directory : List Name) : Tree Name α → List (List Name × α)
  | node own children => own.map (directory, ·) ++ locatedIn directory children

def locatedIn (directory : List Name) : List (Name × Tree Name α) → List (List Name × α)
  | [] => []
  | (name, child) :: rest => located (directory ++ [name]) child ++ locatedIn directory rest

end

mutual

theorem located_rules (directory : List Name) : ∀ tree : Tree Name α,
    (located directory tree).map Prod.snd = rules tree
  | node own children => by
    rw [located, rules, List.map_append, locatedIn_rules directory children, List.map_map]
    exact congrArg (· ++ _) (List.map_id' own)

theorem locatedIn_rules (directory : List Name) : ∀ children : List (Name × Tree Name α),
    (locatedIn directory children).map Prod.snd = rulesIn children
  | [] => rfl
  | (name, child) :: rest => by
    rw [locatedIn, rulesIn, List.map_append, located_rules (directory ++ [name]) child,
      locatedIn_rules directory rest]

end

mutual

theorem located_below (directory : List Name) : ∀ tree : Tree Name α,
    ∀ rule ∈ located directory tree, directory <+: rule.1
  | node own children => by
    intro rule hrule
    rw [located, List.mem_append, List.mem_map] at hrule
    rcases hrule with ⟨line, -, rfl⟩ | hrule
    · exact List.prefix_refl _
    · obtain ⟨name, hname⟩ := locatedIn_below directory children rule hrule
      exact (List.prefix_append _ _).trans hname

theorem locatedIn_below (directory : List Name) : ∀ children : List (Name × Tree Name α),
    ∀ rule ∈ locatedIn directory children, ∃ name, directory ++ [name] <+: rule.1
  | [] => by simp [locatedIn]
  | (name, child) :: rest => by
    intro rule hrule
    rw [locatedIn, List.mem_append] at hrule
    rcases hrule with hrule | hrule
    · exact ⟨name, located_below (directory ++ [name]) child rule hrule⟩
    · exact locatedIn_below directory rest rule hrule

end

variable [DecidableEq Name]

/-- The rules of the directories above a path, each with the path as seen from its directory. -/
def inScope : Tree Name α → List Name → List (α × List Name)
  | _, [] => []
  | node own children, name :: rest =>
    own.map (·, name :: rest) ++ children.flatMap fun child =>
      if child.1 = name then inScope child.2 rest else []

/-- The directory is above the path. -/
def above (directory path : List Name) : Bool := directory.isPrefixOf path && directory.length < path.length

theorem above_iff {directory path : List Name} :
    above directory path = true ↔ ∃ name rest, path = directory ++ name :: rest := by
  rw [above, Bool.and_eq_true, List.isPrefixOf_iff_prefix, decide_eq_true_eq]
  constructor
  · rintro ⟨⟨more, rfl⟩, hlength⟩
    cases more with
    | nil => simp at hlength
    | cons name rest => exact ⟨name, rest, rfl⟩
  · rintro ⟨name, rest, rfl⟩
    exact ⟨List.prefix_append _ _, by simp⟩

/-- A located rule as it is seen from its own directory. -/
def seen (path : List Name) (rule : List Name × α) : α × List Name := (rule.2, path.drop rule.1.length)

/-- A child that is not on the way to the path has no rules above it. -/
theorem filter_other {directory : List Name} {name other : Name} (h : other ≠ name) (rest : List Name)
    (child : Tree Name α) :
    (located (directory ++ [other]) child).filter (fun rule => above rule.1 (directory ++ name :: rest)) = [] := by
  rw [List.filter_eq_nil_iff]
  intro rule hrule habove
  obtain ⟨next, more, hpath⟩ := above_iff.mp habove
  obtain ⟨further, hfurther⟩ := located_below _ child rule hrule
  rw [← hfurther, List.append_assoc, List.append_assoc, List.append_cancel_left_eq, List.singleton_append,
    List.cons.injEq] at hpath
  exact h hpath.1.symm

mutual

/-- The rules in scope of a path are the located ones above it, in the same order. -/
theorem inScope_eq : ∀ (tree : Tree Name α) (directory path : List Name), inScope tree path
    = ((located directory tree).filter fun rule => above rule.1 (directory ++ path)).map (seen (directory ++ path))
  | node own children, directory, [] => by
    have hnone : (located directory (node own children)).filter
        (fun rule => above rule.1 (directory ++ [])) = [] := by
      rw [List.filter_eq_nil_iff]
      intro rule hrule habove
      obtain ⟨name, rest, hpath⟩ := above_iff.mp habove
      have hlength := (located_below directory _ rule hrule).length_le
      rw [List.append_nil] at hpath
      rw [hpath, List.length_append, List.length_cons] at hlength
      omega
    rw [hnone, inScope, List.map_nil]
  | node own children, directory, name :: rest => by
    have hown : (own.map (directory, ·)).filter (fun rule => above rule.1 (directory ++ name :: rest))
        = own.map (directory, ·) := by
      rw [List.filter_eq_self]
      intro rule hrule
      obtain ⟨line, -, rfl⟩ := List.mem_map.mp hrule
      exact above_iff.mpr ⟨name, rest, rfl⟩
    rw [inScope, located, List.filter_append, hown, List.map_append, inScopeIn_eq children directory name rest,
      List.map_map]
    refine congrArg (· ++ _) (List.map_congr_left fun line _ => ?_)
    simp [seen]

theorem inScopeIn_eq : ∀ (children : List (Name × Tree Name α)) (directory : List Name) (name : Name)
    (rest : List Name), (children.flatMap fun child => if child.1 = name then inScope child.2 rest else [])
      = ((locatedIn directory children).filter fun rule => above rule.1 (directory ++ name :: rest)).map
        (seen (directory ++ name :: rest))
  | [], _, _, _ => rfl
  | (other, child) :: more, directory, name, rest => by
    rw [List.flatMap_cons, locatedIn, List.filter_append, List.map_append,
      inScopeIn_eq more directory name rest]
    refine congrArg (· ++ _) ?_
    by_cases hname : other = name
    · subst hname
      have hsplit : directory ++ other :: rest = (directory ++ [other]) ++ rest := by simp
      rw [if_pos rfl, inScope_eq child (directory ++ [other]) rest, hsplit]
    · rw [if_neg hname, filter_other hname, List.map_nil]

end

end Tree

end Precedence
