import Funzzy.Watches
import Mathlib.Data.List.Lex
import Mathlib.Data.List.Destutter
import Mathlib.Order.Lattice

/-! Subscription roots (`watches.rs`): the directories the filesystem backend is asked to watch.

    Each change pattern gives one candidate, the nearest existing ancestor of its literal prefix, and the
    candidates that lie below another one are dropped. Whatever the filesystem holds, a path that a
    change pattern matches lies below one of the roots that remain. -/

namespace Funzzy

open UnixPath

/-! ### Candidates -/

/-- What the planner asks of the filesystem. The root directory always exists. -/
structure FileSystem where
  present : List Component → Bool
  isDir : List Component → Bool
  rootPresent : present [.rootDir] = true

/-- A segment in which the planner sees a glob metacharacter. -/
def globSegment (segment : List Char) : Bool := segment.any fun c => c = '*' ∨ c = '?' ∨ c = '[' ∨ c = '{'

/-- The literal path prefix: components until the first glob metacharacter. -/
def literalPrefix : List Component → List Component
  | [] => []
  | .rootDir :: rest => .rootDir :: literalPrefix rest
  | .curDir :: rest => literalPrefix rest
  | .parentDir :: rest => .parentDir :: literalPrefix rest
  | .normal segment :: rest =>
    if globSegment segment then [] else .normal segment :: literalPrefix rest

namespace FileSystem

variable (fs : FileSystem)

/-- The loop of `nearest_existing_ancestor_or_self`: walks up from `current`; the root directory is
    never returned. Each round drops a component, so their number bounds the rounds. -/
def climb (path : List Component) : Nat → List Component → List Component
  | 0, _ => path
  | rounds + 1, current =>
    match parent current with
    | none => path
    | some above =>
      if above = current then path
      else if above = [.rootDir] then path
      else if fs.present above then above
      else climb path rounds above

/-- The path itself when it exists as a directory, else its parent when it exists as a file, else the
    nearest existing ancestor. -/
def nearestExistingAncestorOrSelf (path : List Component) : List Component :=
  if fs.present path then
    if fs.isDir path then path else (parent path).getD path
  else fs.climb path path.length path

end FileSystem

/-! ### Roots -/

/-- Where a component stands in the order of paths: its kind, then its text. -/
def componentKey : Component → List Nat
  | .rootDir => [0]
  | .curDir => [1]
  | .parentDir => [2]
  | .normal name => 3 :: name.map Char.toNat

/-- The order of paths, component by component. -/
def pathLe (a b : List Component) : Bool := a.map componentKey ≤ b.map componentKey

namespace Watches

variable (fs : FileSystem) (w : Watches)

/-- The absolute form of a change pattern, up to its first glob metacharacter. -/
def patternPrefix (pattern : String) : List Component :=
  literalPrefix (components (if isAbsolute pattern.toList then pattern.toList
    else join w.root.toList pattern.toList))

/-- One pattern's subscription root. -/
def rootForPattern (pattern : String) : List Component :=
  fs.nearestExistingAncestorOrSelf (w.patternPrefix pattern)

/-- The candidates of all change patterns, each once. -/
def candidates : List (List Component) :=
  (w.rules.flatMap (·.watchPatterns)).foldl
    (fun found pattern =>
      if found.contains (w.rootForPattern fs pattern) then found
      else found ++ [w.rootForPattern fs pattern]) []

/-- Deterministic minimal subscription-root plan. -/
def subscriptionRoots : List (List Component) :=
  let minimal := (w.candidates fs).filter fun candidate =>
    !(w.candidates fs).any fun other => other ≠ candidate ∧ startsWith candidate other
  (minimal.mergeSort pathLe).destutter (· ≠ ·)

end Watches

/-! ### Every root is an ancestor -/

theorem FileSystem.climb_startsWith (fs : FileSystem) (path : List Component) :
    ∀ (rounds : Nat) (current : List Component), startsWith path current →
      startsWith path (fs.climb path rounds current)
  | 0, _, _ => startsWith_refl path
  | rounds + 1, current, hcurrent => by
    rw [climb]
    split
    · exact startsWith_refl path
    · rename_i above habove
      have hpath : startsWith path above := startsWith_trans hcurrent (startsWith_parent habove)
      split
      · exact startsWith_refl path
      · split
        · exact startsWith_refl path
        · split
          · exact hpath
          · exact climb_startsWith fs path rounds above hpath

theorem FileSystem.nearest_startsWith (fs : FileSystem) (path : List Component) :
    startsWith path (fs.nearestExistingAncestorOrSelf path) := by
  unfold nearestExistingAncestorOrSelf
  split
  · split
    · exact startsWith_refl path
    · cases habove : parent path with
      | none => exact startsWith_refl path
      | some above => exact startsWith_parent habove
  · exact fs.climb_startsWith path path.length path (startsWith_refl path)

/-- Walking up returns the path it started from or something that is not the root directory. -/
theorem FileSystem.climb_root (fs : FileSystem) {path : List Component} (hpath : path ≠ [.rootDir]) :
    ∀ (rounds : Nat) (current : List Component), fs.climb path rounds current ≠ [.rootDir]
  | 0, _ => hpath
  | rounds + 1, current => by
    rw [climb]
    split
    · exact hpath
    · split
      · exact hpath
      · split
        · exact hpath
        · rename_i hroot
          split
          · exact hroot
          · exact climb_root fs hpath rounds _

/-- A missing path never resolves to the root directory. -/
theorem FileSystem.nearest_root (fs : FileSystem) {path : List Component}
    (hmissing : fs.present path = false) : fs.nearestExistingAncestorOrSelf path ≠ [.rootDir] := by
  have hpath : path ≠ [.rootDir] := by
    rintro rfl
    rw [fs.rootPresent] at hmissing
    cases hmissing
  rw [nearestExistingAncestorOrSelf, if_neg (by simp [hmissing])]
  exact fs.climb_root hpath path.length path

/-! ### The minimal roots cover the candidates -/

theorem mem_foldl_insert {α β : Type} [BEq β] [LawfulBEq β] (f : α → β) (xs : List α) :
    ∀ found : List β, found.Nodup →
      let out := xs.foldl
        (fun found x => if found.contains (f x) then found else found ++ [f x]) found
      out.Nodup ∧ ∀ b, b ∈ out ↔ b ∈ found ∨ ∃ x ∈ xs, f x = b := by
  induction xs with
  | nil =>
    intro found hfound
    exact ⟨hfound, by simp⟩
  | cons x xs ih =>
    intro found hfound
    simp only [List.foldl_cons]
    split
    · rename_i hmem
      rw [List.contains_iff_mem] at hmem
      obtain ⟨hnodup, hiff⟩ := ih found hfound
      refine ⟨hnodup, fun b => (hiff b).trans ?_⟩
      constructor
      · rintro (hb | ⟨y, hy, hb⟩)
        · exact .inl hb
        · exact .inr ⟨y, List.mem_cons_of_mem _ hy, hb⟩
      · rintro (hb | ⟨y, hy, rfl⟩)
        · exact .inl hb
        · rcases List.mem_cons.mp hy with rfl | hy
          · exact .inl hmem
          · exact .inr ⟨y, hy, rfl⟩
    · rename_i hnew
      rw [List.contains_iff_mem] at hnew
      have hadded : (found ++ [f x]).Nodup := by
        refine List.nodup_append'.mpr ⟨hfound, List.nodup_singleton _, ?_⟩
        intro b hb hsingle
        rw [List.mem_singleton.mp hsingle] at hb
        exact hnew hb
      obtain ⟨hnodup, hiff⟩ := ih (found ++ [f x]) hadded
      refine ⟨hnodup, fun b => (hiff b).trans ?_⟩
      simp only [List.mem_append, List.mem_singleton, List.exists_mem_cons_iff, or_assoc]
      exact or_congr_right (or_congr_left eq_comm)

namespace Watches

variable (fs : FileSystem) (w : Watches)

theorem candidates_nodup : (w.candidates fs).Nodup :=
  (mem_foldl_insert (w.rootForPattern fs) _ [] List.nodup_nil).1

theorem mem_candidates {root : List Component} :
    root ∈ w.candidates fs
      ↔ ∃ rule ∈ w.rules, ∃ pattern ∈ rule.watchPatterns, w.rootForPattern fs pattern = root := by
  have hmem := (mem_foldl_insert (w.rootForPattern fs) (w.rules.flatMap (·.watchPatterns)) []
    List.nodup_nil).2 root
  refine hmem.trans ?_
  simp only [List.not_mem_nil, false_or, List.mem_flatMap]
  constructor
  · rintro ⟨pattern, ⟨rule, hrule, hpattern⟩, hroot⟩
    exact ⟨rule, hrule, pattern, hpattern, hroot⟩
  · rintro ⟨rule, hrule, pattern, hpattern, hroot⟩
    exact ⟨pattern, ⟨rule, hrule, hpattern⟩, hroot⟩

theorem subscriptionRoots_eq : w.subscriptionRoots fs
    = ((w.candidates fs).filter fun candidate =>
        !(w.candidates fs).any fun other => other ≠ candidate ∧ startsWith candidate other).mergeSort
      pathLe := by
  rw [subscriptionRoots]
  have hnodup : (((w.candidates fs).filter fun candidate =>
      !(w.candidates fs).any fun other => other ≠ candidate ∧ startsWith candidate other).mergeSort
        pathLe).Nodup :=
    (List.mergeSort_perm _ _).nodup_iff.mpr ((w.candidates_nodup fs).filter _)
  exact List.destutter_of_isChain _ _ hnodup.isChain

theorem mem_subscriptionRoots {root : List Component} :
    root ∈ w.subscriptionRoots fs
      ↔ root ∈ w.candidates fs ∧ ∀ other ∈ w.candidates fs, startsWith root other → other = root := by
  rw [subscriptionRoots_eq, List.mem_mergeSort, List.mem_filter]
  refine and_congr_right fun _ => ?_
  simp only [Bool.not_eq_eq_eq_not, Bool.not_true, List.any_eq_false, decide_eq_true_eq, not_and]
  constructor
  · intro h other hother hbelow
    by_contra hne
    exact h other hother hne hbelow
  · intro h other hother hne hbelow
    exact hne (h other hother hbelow)

theorem subscriptionRoots_nodup : (w.subscriptionRoots fs).Nodup := by
  rw [subscriptionRoots_eq]
  exact (List.mergeSort_perm _ _).nodup_iff.mpr ((w.candidates_nodup fs).filter _)

theorem subscriptionRoots_sorted :
    (w.subscriptionRoots fs).Pairwise fun a b => pathLe a b = true := by
  rw [subscriptionRoots_eq]
  refine List.pairwise_mergeSort ?_ ?_ _
  · intro a b c hab hbc
    simp only [pathLe, decide_eq_true_eq] at hab hbc ⊢
    exact hab.trans hbc
  · intro a b
    simp only [pathLe, Bool.or_eq_true, decide_eq_true_eq]
    exact le_total _ _

/-- Every candidate lies below a root that is kept: the shortest candidate above it. -/
theorem candidate_covered {candidate : List Component} (h : candidate ∈ w.candidates fs) :
    ∃ root ∈ w.subscriptionRoots fs, startsWith candidate root := by
  induction hn : candidate.length using Nat.strong_induction_on generalizing candidate with
  | _ n ih =>
    by_cases hminimal : ∀ other ∈ w.candidates fs, startsWith candidate other → other = candidate
    · exact ⟨candidate, (w.mem_subscriptionRoots fs).mpr ⟨h, hminimal⟩, startsWith_refl candidate⟩
    · push Not at hminimal
      obtain ⟨other, hother, hbelow, hne⟩ := hminimal
      have hle : other.length ≤ candidate.length := hbelow.length_le
      have hlt : other.length < candidate.length := by
        refine lt_of_le_of_ne hle fun heq => hne ?_
        exact hbelow.eq_of_length heq
      obtain ⟨root, hroot, habove⟩ := ih other.length (hn ▸ hlt) hother rfl
      exact ⟨root, hroot, startsWith_trans hbelow habove⟩

end Watches

/-! ### A matched path lies below the literal prefix -/

/-- A component in which the glob crate sees no metacharacter. -/
def literalComponent : Component → Bool
  | .normal segment => !segment.any fun c => c = '*' ∨ c = '?' ∨ c = '['
  | _ => true

/-- The leading components of an absolute pattern that are literal match literally. -/
def Matchers.LiteralLeading (M : Matchers) : Prop :=
  ∀ pattern path, isAbsolute pattern = true → M.glob pattern path = true →
    startsWith (components path) ((components pattern).takeWhile literalComponent)

theorem curDir_not_mem_body (ps : List (List Char)) : .curDir ∉ body ps := by
  intro h
  obtain ⟨part, -, hpart⟩ := List.mem_map.mp h
  unfold partComponent at hpart
  split at hpart <;> cases hpart

theorem curDir_not_mem_components {t : List Char} (ht : isAbsolute t = true) :
    .curDir ∉ components t := by
  rw [components, if_pos ht]
  rintro (_ | ⟨_, h⟩)
  exact curDir_not_mem_body _ h

/-- The planner takes no more for literal than the glob crate does. -/
theorem literalPrefix_leading {cs : List Component} (h : .curDir ∉ cs) :
    literalPrefix cs <+: cs.takeWhile literalComponent := by
  induction cs with
  | nil => exact List.prefix_refl _
  | cons c cs ih =>
    have hrest := ih fun hmem => h (List.mem_cons_of_mem _ hmem)
    cases c with
    | rootDir => exact List.cons_prefix_cons.mpr ⟨rfl, hrest⟩
    | curDir => exact absurd List.mem_cons_self h
    | parentDir => exact List.cons_prefix_cons.mpr ⟨rfl, hrest⟩
    | normal segment =>
      rw [literalPrefix]
      split
      · exact List.nil_prefix
      · rename_i hliteral
        have hglob : literalComponent (.normal segment) = true := by
          simp only [globSegment, List.any_eq_true, not_exists, not_and, decide_eq_true_eq,
            not_or] at hliteral
          simp only [literalComponent, Bool.not_eq_eq_eq_not, Bool.not_true, List.any_eq_false,
            decide_eq_true_eq, not_or]
          intro c hc
          obtain ⟨hstar, hquestion, hbracket, -⟩ := hliteral c hc
          exact ⟨hstar, hquestion, hbracket⟩
        rw [List.takeWhile_cons_of_pos hglob]
        exact List.cons_prefix_cons.mpr ⟨rfl, hrest⟩

theorem takeWhile_append_leading {α : Type} (p : α → Bool) (xs ys : List α) :
    (xs ++ ys).takeWhile p <+: xs ++ ys.takeWhile p := by
  induction xs with
  | nil => exact List.prefix_refl _
  | cons x xs ih =>
    rw [List.cons_append, List.takeWhile_cons]
    split
    · exact List.cons_prefix_cons.mpr ⟨rfl, ih⟩
    · exact List.nil_prefix

/-- Dropping leading `./` keeps the components. -/
theorem body_parts_trimDotSlash (t : List Char) : body (parts (trimDotSlash t)) = body (parts t) := by
  fun_induction trimDotSlash t with
  | case1 rest ih =>
    rw [ih]
    have hdot : parts ['.'] = [['.']] := by decide
    have hparts : parts ('.' :: '/' :: rest) = ['.'] :: parts rest := by
      have happend := parts_append_slash ['.'] rest
      rwa [hdot] at happend
    rw [hparts, body_dot_cons]
  | case2 => rfl

namespace Watches

variable {M : Matchers} (w : Watches)

/-- A path that an absolute pattern matches lies below the pattern's literal prefix. -/
theorem absolute_below (hglob : M.LiteralLeading) {path : List Char} {pattern : String}
    (habsolute : isAbsolute pattern.toList = true) (hmatch : M.glob pattern.toList path = true) :
    startsWith (components path) (w.patternPrefix pattern) := by
  rw [patternPrefix, if_pos habsolute]
  exact (literalPrefix_leading (curDir_not_mem_components habsolute)).trans
    (hglob _ _ habsolute hmatch)

/-- A path whose root-relative form a relative pattern matches lies below the literal prefix of the
    pattern under the root. -/
theorem relative_below (hglob : M.LiteralLeading) {path rest : List Char} {pattern : String}
    (hrest : stripPrefix path w.root.toList = some rest) (hrelative : isAbsolute pattern.toList = false)
    (hmatch : M.glob ('/' :: trimDotSlash pattern.toList) ('/' :: rest) = true) :
    startsWith (components path) (w.patternPrefix pattern) := by
  have hbelow := hglob _ _ rfl hmatch
  rw [components_slash, components_slash, body_parts_trimDotSlash,
    List.takeWhile_cons_of_pos rfl] at hbelow
  have hbody : (body (parts pattern.toList)).takeWhile literalComponent <+: body (parts rest) :=
    (List.cons_prefix_cons.mp hbelow).2
  have hpattern : components (join w.root.toList pattern.toList)
      = components w.root.toList ++ body (parts pattern.toList) := components_join w.rooted hrelative
  rw [patternPrefix, if_neg (by simp [hrelative]), hpattern,
    components_of_stripPrefix w.rooted hrest]
  have hnone : .curDir ∉ components w.root.toList ++ body (parts pattern.toList) := by
    intro h
    rcases List.mem_append.mp h with h | h
    · exact curDir_not_mem_components w.rooted h
    · exact curDir_not_mem_body _ h
  calc literalPrefix (components w.root.toList ++ body (parts pattern.toList))
      <+: (components w.root.toList ++ body (parts pattern.toList)).takeWhile literalComponent :=
        literalPrefix_leading hnone
    _ <+: components w.root.toList ++ (body (parts pattern.toList)).takeWhile literalComponent :=
        takeWhile_append_leading _ _ _
    _ <+: components w.root.toList ++ body (parts rest) :=
        (List.prefix_append_right_inj _).mpr hbody

/-- A path that a change pattern of a rule matches lies below the literal prefix of one of the rule's
    change patterns. -/
theorem changePatterns_below (hglob : M.LiteralLeading) {path : String} {rule : Rules}
    (hchange : w.changePatterns M path rule ≠ []) :
    ∃ pattern ∈ rule.watchPatterns,
      startsWith (components (w.normalizePaths path).1) (w.patternPrefix pattern) := by
  obtain ⟨pattern, hpattern⟩ := List.exists_mem_of_ne_nil _ hchange
  rw [changePatterns, List.mem_append] at hpattern
  rcases hpattern with hpattern | hpattern
  · rw [Rules.watchAbsolutePatterns, absolutePatterns, List.mem_filter, List.mem_filter] at hpattern
    obtain ⟨⟨hmem, habsolute⟩, hmatch⟩ := hpattern
    exact ⟨pattern, hmem, w.absolute_below hglob habsolute hmatch⟩
  · cases hstrip : stripPrefix (w.normalizePaths path).1 w.root.toList with
    | none =>
      have hnone : (w.normalizePaths path).2 = none := by
        rw [normalizePaths] at hstrip ⊢
        simp only at hstrip ⊢
        rw [hstrip, Option.map_none]
      rw [hnone] at hpattern
      cases hpattern
    | some rest =>
      have hsome : (w.normalizePaths path).2 = some ('/' :: rest) := by
        rw [normalizePaths] at hstrip ⊢
        simp only at hstrip ⊢
        rw [hstrip, Option.map_some]
      rw [hsome, Option.map_some, Option.getD_some, Rules.watchRelativePatterns, relativePatterns,
        List.mem_filter, List.mem_filter] at hpattern
      obtain ⟨⟨hmem, hrelative⟩, hmatch⟩ := hpattern
      exact ⟨pattern, hmem, w.relative_below hglob hstrip (by simpa using hrelative) hmatch⟩

/-- Every path that a change pattern matches lies below a subscription root, whatever the filesystem
    holds. The roots are sorted, distinct, and none lies below another; the filesystem root is one of
    them only for a pattern whose literal prefix exists. -/
theorem subscriptionRoots_cover (fs : FileSystem) (hglob : M.LiteralLeading) :
    (∀ rule ∈ w.rules, ∀ path, w.changePatterns M path rule ≠ [] →
      ∃ root ∈ w.subscriptionRoots fs, startsWith (components (w.normalizePaths path).1) root) ∧
    (w.subscriptionRoots fs).Pairwise (fun a b => pathLe a b = true) ∧
    (w.subscriptionRoots fs).Nodup ∧
    (∀ a ∈ w.subscriptionRoots fs, ∀ b ∈ w.subscriptionRoots fs, startsWith a b → a = b) ∧
    (∀ pattern, fs.present (w.patternPrefix pattern) = false →
      w.rootForPattern fs pattern ≠ [.rootDir]) ∧
    ([.rootDir] ∈ w.subscriptionRoots fs → ∃ rule ∈ w.rules, ∃ pattern ∈ rule.watchPatterns,
      w.rootForPattern fs pattern = [.rootDir] ∧ fs.present (w.patternPrefix pattern) = true) := by
  refine ⟨?_, w.subscriptionRoots_sorted fs, w.subscriptionRoots_nodup fs, ?_, ?_, ?_⟩
  · intro rule hrule path hchange
    obtain ⟨pattern, hpattern, hbelow⟩ := w.changePatterns_below hglob hchange
    have hcandidate : w.rootForPattern fs pattern ∈ w.candidates fs :=
      (w.mem_candidates fs).mpr ⟨rule, hrule, pattern, hpattern, rfl⟩
    obtain ⟨root, hroot, habove⟩ := w.candidate_covered fs hcandidate
    refine ⟨root, hroot, startsWith_trans hbelow (startsWith_trans ?_ habove)⟩
    exact fs.nearest_startsWith _
  · intro a ha b hb hbelow
    obtain ⟨hb, -⟩ := (w.mem_subscriptionRoots fs).mp hb
    exact (((w.mem_subscriptionRoots fs).mp ha).2 b hb hbelow).symm
  · intro pattern hmissing
    exact fs.nearest_root hmissing
  · intro hroot
    obtain ⟨rule, hrule, pattern, hpattern, hcandidate⟩ :=
      (w.mem_candidates fs).mp ((w.mem_subscriptionRoots fs).mp hroot).1
    refine ⟨rule, hrule, pattern, hpattern, hcandidate, ?_⟩
    by_contra hmissing
    exact fs.nearest_root (by simpa using hmissing) hcandidate

end Watches

/-- A matcher for patterns that are literal up to a final `**` component, as the glob crate matches
    them. -/
def recursiveGlob (pattern path : List Char) : Bool :=
  pattern = path ∨ ((pattern.reverse.take 3).reverse = ['/', '*', '*'] ∧
    (pattern.reverse.drop 2).reverse <+: path)

theorem recursiveGlob_literal (gitignored : List Char → Bool) :
    Matchers.LiteralLeading { glob := recursiveGlob, gitignored } := by
  intro pattern path habsolute hmatch
  have hcases : pattern = path ∨ ((pattern.reverse.take 3).reverse = ['/', '*', '*'] ∧
      (pattern.reverse.drop 2).reverse <+: path) := decide_eq_true_eq.mp hmatch
  rcases hcases with rfl | ⟨hlast, rest, hrest⟩
  · exact List.takeWhile_prefix _
  · -- the pattern is a stem, a slash and two stars; the path is the stem, a slash and anything
    obtain ⟨stem, rfl⟩ : ∃ stem, pattern = stem ++ ['/', '*', '*'] := by
      refine ⟨(pattern.reverse.drop 3).reverse, ?_⟩
      rw [← hlast, ← List.reverse_append, List.take_append_drop, List.reverse_reverse]
    have hstars : body (parts ['*', '*']) = [.normal ['*', '*']] := by decide
    have hpath : path = stem ++ '/' :: rest := by
      simpa using hrest.symm
    rw [hpath]
    cases stem with
    | nil =>
      rw [List.nil_append, List.nil_append, components_slash, components_slash, hstars]
      exact List.prefix_append [Component.rootDir] _
    | cons c stem =>
      rw [components_append_slash (List.cons_ne_nil c stem),
        components_append_slash (List.cons_ne_nil c stem), hstars]
      have hstop := takeWhile_append_leading literalComponent (components (c :: stem))
        [.normal ['*', '*']]
      refine hstop.trans ?_
      rw [List.takeWhile_cons_of_neg (by decide)]
      exact List.prefix_append_right_inj _ |>.mpr List.nil_prefix

/-- A workspace in which the directory `/w` exists and nothing below it. -/
def emptyWorkspace : FileSystem where
  present path := path = [.rootDir] ∨ path = [.rootDir, .normal ['w']]
  isDir path := path = [.rootDir] ∨ path = [.rootDir, .normal ['w']]
  rootPresent := by decide

def buildSources : Rules := { name := "build", commands := ["make"], watchPatterns := ["src/**"] }

/-- One rule that watches a missing directory of the workspace `/w`. -/
def missingDirectory : Watches :=
  .withRootAndConcurrency [buildSources] "/w" 1 isAbsolute_w Nat.one_pos

/-- A file in a directory that does not exist yet lies below the workspace root, the only
    subscription. -/
theorem missingDirectory_covered :
    missingDirectory.changePatterns { glob := recursiveGlob, gitignored := fun _ => false }
      "/w/src/main.rs" buildSources ≠ [] ∧
    ∃ root ∈ missingDirectory.subscriptionRoots emptyWorkspace,
      startsWith (components (missingDirectory.normalizePaths "/w/src/main.rs").1) root :=
  ⟨by decide, (missingDirectory.subscriptionRoots_cover emptyWorkspace
    (recursiveGlob_literal fun _ => false)).1 buildSources (by decide) _ (by decide)⟩

end Funzzy
