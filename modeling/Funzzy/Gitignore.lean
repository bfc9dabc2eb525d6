import Funzzy.Lib.Machine
import Funzzy.Lib.Precedence
import Funzzy.Selection

/-! Gitignore matching (`gitignore.rs`, and `gitignored` in `watches.rs`).

    The matcher collects the lines of every `.gitignore` of the workspace in one list and tests each of
    them from the workspace root. It is rebuilt when the root's `.gitignore` has another modification time
    than at the last build. -/

namespace Funzzy

open Precedence

/-- What the `ignore` crate does with the lines it parsed: whether a line hits a path, given from the
    directory at which the crate anchors the line (the flag tells a directory); whether the line is a
    negated one; and whether a matcher of these lines builds. -/
structure IgnoreCrate (Line : Type) where
  hits : Line → List String → Bool → Bool
  whitelists : Line → Bool
  builds : List Line → Bool

/-- The `.gitignore` files below a workspace root, and the modification time of the one at the root. -/
structure IgnoreFiles (Line : Type) where
  files : Tree String Line
  modified : Option Nat

/-- One workspace-rooted matcher: the lines it was built from, and the modification time it was built at. -/
structure GitignoreMatcher (Line : Type) where
  matcher : List Line
  cacheKey : Option Nat

variable {Line : Type} (C : IgnoreCrate Line)

namespace IgnoreCrate

/-- A path that some line hits is ignored when that line is not a negated one. -/
def ignores (line : Line) : Bool := !C.whitelists line

/-- The last line that hits a path decides. -/
def matched (lines : List Line) (path : List String) (isDir : Bool) : Option Line :=
  lastMatch (fun line => C.hits line path isDir) lines

/-- The path itself, then its parents up to the root: the first that a line hits decides. -/
def matchedPathOrAnyParents (lines : List Line) (path : List String) : Option Line :=
  path.inits.reverse.findSome? fun level => C.matched lines level (level != path)

end IgnoreCrate

namespace GitignoreMatcher

/-- The root's `.gitignore` and every nested one, in the order of the walk; lines that do not build make a
    matcher without lines. -/
def build (ws : IgnoreFiles Line) : List Line := if C.builds ws.files.rules then ws.files.rules else []

/-- `new`, and `rebuild` of a matcher at the same root. -/
def new (ws : IgnoreFiles Line) : GitignoreMatcher Line := { matcher := build C ws, cacheKey := ws.modified }

def needsRebuild (m : GitignoreMatcher Line) (ws : IgnoreFiles Line) : Bool := m.cacheKey != ws.modified

def rebuild (_ : GitignoreMatcher Line) (ws : IgnoreFiles Line) : GitignoreMatcher Line := new C ws

def isIgnored (m : GitignoreMatcher Line) (relative : List String) : Bool :=
  (C.matchedPathOrAnyParents m.matcher relative).any C.ignores

end GitignoreMatcher

/-! ### Scoping -/

section Scoping

variable (files : Tree String Line)

/-- Git's rule at one path: of the lines in the directories above it, each tested from its own directory,
    the last one that hits, the deeper directories last. -/
def gitMatched (path : List String) (isDir : Bool) : Option Line :=
  (lastMatch (fun line => C.hits line.1 line.2 isDir) (files.inScope path)).map Prod.fst

/-- Git's rule for scopes. Which of a path and its parents decides is left as the crate has it. -/
def gitIgnored (relative : List String) : Bool :=
  (relative.inits.reverse.findSome? fun level => gitMatched C files level (level != relative)).any C.ignores

/-- A line of a directory's `.gitignore`, tried at a path or at one of its parents. -/
abbrev Trial (Line : Type) := List String × List String × Line

/-- Every line at the path and at its parents, the strongest last: the path itself after its parents, at each
    of them the deeper files after the shallower ones. -/
def trials (relative : List String) : List (Trial Line) :=
  relative.inits.flatMap fun level => (files.located []).map (level, ·)

/-- The line hits as the matcher tests it: from the workspace root. -/
def hitsFromRoot (relative : List String) (trial : Trial Line) : Bool :=
  C.builds files.rules && C.hits trial.2.2 trial.1 (trial.1 != relative)

/-- The line hits as git tests it: below its own directory and from there. -/
def hitsFromOwn (relative : List String) (trial : Trial Line) : Bool :=
  Tree.above trial.2.1 trial.1 && C.hits trial.2.2 (trial.1.drop trial.2.1.length) (trial.1 != relative)

/-- The strongest line that hits in one of the two ways hits in both. -/
def WellScoped (relative : List String) : Prop :=
  Precedence.Shared (hitsFromRoot C files relative) (hitsFromOwn C relative) (trials files relative)

instance (relative : List String) : Decidable (WellScoped C files relative) :=
  inferInstanceAs (Decidable (Precedence.Shared _ _ _))

/-- The line that decides when lines hit in this way. -/
def decisive (hit : Trial Line → Bool) (relative : List String) : Option Line :=
  (lastMatch hit (trials files relative)).map fun trial => trial.2.2

variable {files}

/-- The nearest level at which a line hits, and the last line there, are the last of all trials that hit. -/
theorem verdict_trials (hit : Trial Line → Bool) (relative : List String) :
    verdict (fun trial : Trial Line => C.ignores trial.2.2) hit (trials files relative)
      = (relative.inits.reverse.findSome? fun level =>
          (lastMatch (fun rule => hit (level, rule)) (files.located [])).map Prod.snd).any C.ignores := by
  have hlevels := lastMatch_flatMap (fun level rule => hit (level, rule)) relative.inits (files.located [])
  have hnearest := congrArg (Option.map Prod.snd) hlevels
  rw [List.map_findSome?] at hnearest
  rw [verdict, trials, show (relative.inits.reverse.findSome? fun level =>
    (lastMatch (fun rule => hit (level, rule)) (files.located [])).map Prod.snd) = _ from hnearest.symm,
    Option.map_map, Option.any_map]
  rfl

theorem isIgnored_verdict (modified : Option Nat) (relative : List String) :
    (GitignoreMatcher.new C { files, modified }).isIgnored C relative
      = verdict (fun trial : Trial Line => C.ignores trial.2.2) (hitsFromRoot C files relative)
        (trials files relative) := by
  rw [verdict_trials, GitignoreMatcher.isIgnored, IgnoreCrate.matchedPathOrAnyParents]
  refine congrArg (Option.any C.ignores)
    (congrArg (relative.inits.reverse.findSome? ·) (funext fun level => ?_))
  rw [IgnoreCrate.matched, GitignoreMatcher.new, GitignoreMatcher.build]
  by_cases hbuilds : C.builds files.rules = true
  · rw [if_pos hbuilds, ← Tree.located_rules [], lastMatch_map]
    simp only [hitsFromRoot, hbuilds, Bool.true_and]
    rfl
  · have hnone : lastMatch (fun rule => hitsFromRoot C files relative (level, rule)) (files.located [])
        = none := List.find?_eq_none.mpr fun rule _ => by simp [hitsFromRoot, hbuilds]
    rw [if_neg hbuilds, hnone]
    rfl

theorem gitIgnored_verdict (relative : List String) :
    gitIgnored C files relative = verdict (fun trial : Trial Line => C.ignores trial.2.2)
      (hitsFromOwn C relative) (trials files relative) := by
  rw [verdict_trials, gitIgnored]
  refine congrArg (Option.any C.ignores)
    (congrArg (relative.inits.reverse.findSome? ·) (funext fun level => ?_))
  rw [gitMatched, Tree.inScope_eq files [] level, List.nil_append, lastMatch_map, lastMatch_filter,
    Option.map_map]
  rfl

/-- Where the strongest line that hits at all hits both from the root and from its own directory, the matcher
    answers as git's rule does. -/
theorem isIgnored_of_wellScoped (files : Tree String Line) (modified : Option Nat) (relative : List String)
    (h : WellScoped C files relative) :
    (GitignoreMatcher.new C { files, modified }).isIgnored C relative = gitIgnored C files relative := by
  rw [isIgnored_verdict, gitIgnored_verdict, verdict, verdict, lastMatch_eq_of_shared h]

/-- Answers that agree whichever lines are negated come from the same line. -/
theorem decisive_eq_of_signs (files : Tree String Line) (modified : Option Nat) (relative : List String)
    (h : ∀ whitelists : Line → Bool,
      (GitignoreMatcher.new { C with whitelists } { files, modified }).isIgnored { C with whitelists } relative
        = gitIgnored { C with whitelists } files relative) :
    decisive files (hitsFromRoot C files relative) relative = decisive files (hitsFromOwn C relative) relative := by
  refine eq_of_any fun answer => ?_
  have hanswer := h fun line => !answer line
  rw [isIgnored_verdict, gitIgnored_verdict] at hanswer
  simp only [verdict, IgnoreCrate.ignores, Bool.not_not] at hanswer
  rw [decisive, decisive, Option.any_map, Option.any_map]
  exact hanswer

/-- Lines that name one file, as the crate reads them: a leading slash anchors the name, else it hits at any
    depth. -/
structure NameLine where
  negated : Bool
  anchored : Bool
  name : String

/-- The crate on such lines. -/
def nameCrate : IgnoreCrate NameLine where
  hits line path _ := if line.anchored then path == [line.name] else path.getLast? == some line.name
  whitelists line := line.negated
  builds _ := true

/-- `sub/.gitignore` with the line `generated.txt`. -/
def subGenerated : Tree String NameLine :=
  .node [] [("sub", .node [{ negated := false, anchored := false, name := "generated.txt" }] [])]

/-- `sub/.gitignore` takes one file out of what the root's `.gitignore` says. -/
def keptBelow : Tree String NameLine :=
  .node [{ negated := false, anchored := false, name := "notes.txt" }]
    [("sub", .node [{ negated := true, anchored := false, name := "notes.txt" }] [])]

theorem isIgnored_of_wellScoped_kept :
    WellScoped nameCrate keptBelow ["sub", "notes.txt"] ∧
      (GitignoreMatcher.new nameCrate { files := keptBelow, modified := none }).isIgnored nameCrate
          ["sub", "notes.txt"] = gitIgnored nameCrate keptBelow ["sub", "notes.txt"] ∧
      gitIgnored nameCrate keptBelow ["sub", "notes.txt"] = false := by
  have hscoped : WellScoped nameCrate keptBelow ["sub", "notes.txt"] := by decide
  exact ⟨hscoped, isIgnored_of_wellScoped nameCrate keptBelow none _ hscoped, by decide⟩

theorem nested_line_leaks :
    (GitignoreMatcher.new nameCrate { files := subGenerated, modified := none }).isIgnored nameCrate
        ["generated.txt"] = true ∧
      gitIgnored nameCrate subGenerated ["generated.txt"] = false := by
  decide

end Scoping

/-! ### Routing -/

section Routing

/-- The names of a root-relative path. -/
def relativeNames (relative : List Char) : List String :=
  ((UnixPath.parts relative).filter fun part => !UnixPath.skipped part).map String.ofList

/-- The matchers of a session that respects gitignore rules, while it holds this matcher. -/
def GitignoreMatcher.matchers (m : GitignoreMatcher Line) (glob : List Char → List Char → Bool) : Matchers where
  glob
  gitignored relative := m.isIgnored C (relativeNames relative)

/-- An ignored path selects nothing. -/
theorem watchPlan_ignored {w : Watches} {m : GitignoreMatcher Line} {glob : List Char → List Char → Bool}
    {path : String} {relative : List Char} (hrespect : w.respectGitignore = true)
    (hrelative : (w.normalizePaths path).2 = some relative)
    (hignored : m.isIgnored C (relativeNames (trimSlash relative)) = true) :
    w.watchPlan (m.matchers C glob) path = none := by
  have hselects : ∀ rule, w.selects (m.matchers C glob) path rule = false := by
    intro rule
    rw [Watches.selects]
    simp only [hrelative, hrespect, Option.map_some, Option.getD_some, Watches.gitignored,
      GitignoreMatcher.matchers, hignored, Bool.and_self, if_true, ite_self]
  rw [← Option.not_isSome_iff_eq_none, Watches.watchPlan_isSome]
  rintro ⟨rule, -, hrule⟩
  rw [hselects] at hrule
  cases hrule

end Routing

/-! ### The cache -/

section Cache

/-- The workspace, and the matcher of a session; a session that does not respect gitignore rules has none. -/
structure GitignoreSession (Line : Type) where
  workspace : IgnoreFiles Line
  gitignore : Option (GitignoreMatcher Line)

namespace GitignoreSession

/-- `with_gitignore` -/
def withGitignore (respect : Bool) (workspace : IgnoreFiles Line) : GitignoreSession Line where
  workspace
  gitignore := if respect then some (GitignoreMatcher.new C workspace) else none

/-- The matcher that a query asks, rebuilt when the root's `.gitignore` was modified. -/
def refreshed (s : GitignoreSession Line) (m : GitignoreMatcher Line) : GitignoreMatcher Line :=
  if m.needsRebuild s.workspace then m.rebuild C s.workspace else m

def gitignored (s : GitignoreSession Line) (relative : List String) : Bool :=
  (s.gitignore.map fun m => (s.refreshed C m).isIgnored C relative).getD false

/-- Files are created, edited and deleted, or a path is asked about. -/
inductive Move (Line : Type) where
  | edit (workspace : IgnoreFiles Line)
  | query (relative : List String)

def step (s : GitignoreSession Line) : Move Line → Option (GitignoreSession Line)
  | .edit workspace => some { s with workspace }
  | .query _ => some { s with gitignore := s.gitignore.map (s.refreshed C) }

/-- An edit leaves the root's `.gitignore` with another modification time than the matcher was built at, or
    leaves the walk with the lines that it was built from. -/
def Noticed (s : GitignoreSession Line) : Move Line → Prop
  | .edit workspace => ∀ m ∈ s.gitignore,
      m.needsRebuild workspace = true ∨ m.matcher = GitignoreMatcher.build C workspace
  | .query _ => True

/-- A matcher that a query would keep has the lines of the present files. -/
def Coherent (s : GitignoreSession Line) : Prop := ∀ m ∈ s.gitignore,
  m.needsRebuild s.workspace = true ∨ m.matcher = GitignoreMatcher.build C s.workspace

variable {C}

theorem refreshed_matcher {s : GitignoreSession Line} (h : s.Coherent C) {m : GitignoreMatcher Line}
    (hm : m ∈ s.gitignore) : (s.refreshed C m).matcher = GitignoreMatcher.build C s.workspace := by
  rw [refreshed]
  split_ifs with hrebuild
  · rfl
  · exact (h m hm).resolve_left hrebuild

theorem coherent_step (s : GitignoreSession Line) (move : Move Line) (s' : GitignoreSession Line)
    (h : s.Coherent C) (hnoticed : s.Noticed C move) (hstep : step C s move = some s') : s'.Coherent C := by
  cases move with
  | edit workspace =>
    cases hstep
    exact hnoticed
  | query relative =>
    cases hstep
    intro m hm
    obtain ⟨old, hold, rfl⟩ := Option.mem_map.mp hm
    exact .inr (refreshed_matcher h hold)

/-- After every run whose edits are noticed, a query answers as a matcher built at that moment. -/
theorem gitignored_fresh (workspace : IgnoreFiles Line) (moves : List (Move Line)) (s : GitignoreSession Line)
    (hmeets : Machine.Meets (step C) (Noticed C) (withGitignore C true workspace) moves)
    (hafter : Machine.after (step C) (withGitignore C true workspace) moves = some s)
    (relative : List String) :
    s.gitignored C relative = (GitignoreMatcher.new C s.workspace).isIgnored C relative := by
  have hstep : ∀ (s : GitignoreSession Line) move s', s.Coherent C ∧ s.gitignore.isSome = true →
      s.Noticed C move → step C s move = some s' → s'.Coherent C ∧ s'.gitignore.isSome = true := by
    intro s move s' h hnoticed hs'
    refine ⟨coherent_step s move s' h.1 hnoticed hs', ?_⟩
    cases move <;> cases hs'
    · exact h.2
    · rw [Option.isSome_map]
      exact h.2
  have hstart : (withGitignore C true workspace).Coherent C := by
    intro m hm
    cases hm
    exact .inr rfl
  obtain ⟨hcoherent, hsome⟩ := Machine.invariant (step C) hstep moves _ s ⟨hstart, rfl⟩ hmeets hafter
  obtain ⟨m, hm⟩ := Option.isSome_iff_exists.mp hsome
  rw [gitignored, hm, Option.map_some, Option.getD_some, GitignoreMatcher.isIgnored,
    refreshed_matcher hcoherent hm]
  rfl

/-- The root's `.gitignore` is written after the session started, and then a path is asked about. -/
theorem gitignored_fresh_root :
    let files : IgnoreFiles NameLine :=
      { files := .node [{ negated := false, anchored := false, name := "a.log" }] [], modified := some 2 }
    let s : GitignoreSession NameLine := { workspace := files, gitignore := some (.new nameCrate files) }
    s.gitignored nameCrate ["a.log"] = (GitignoreMatcher.new nameCrate files).isIgnored nameCrate ["a.log"] :=
  gitignored_fresh { files := .node [] [], modified := some 1 } [.edit _, .query ["a.log"]] _
    ⟨fun m hm => .inl (by cases hm; rfl), fun s' hs' => by
      cases hs'
      exact ⟨trivial, fun _ _ => trivial⟩⟩ rfl ["a.log"]

/-- A line is added to `sub/.gitignore`, which is not the file whose modification time is looked at. -/
theorem nested_edit_unnoticed :
    (Machine.after (step nameCrate)
        (withGitignore nameCrate true { files := .node [] [("sub", .node [] [])], modified := none })
        [.edit { files := subGenerated, modified := none }]).map
      (fun s => (s.gitignored nameCrate ["sub", "generated.txt"],
        (GitignoreMatcher.new nameCrate s.workspace).isIgnored nameCrate ["sub", "generated.txt"]))
      = some (false, true) := by
  decide

end GitignoreSession

end Cache

end Funzzy
