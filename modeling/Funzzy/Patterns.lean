import Funzzy.Watches
import Funzzy.Config.Readers
import Funzzy.Lib.Fallible
import Funzzy.Lib.Glob

/-! The matchers of `rules.rs` with the patterns they compile.

    A pattern is validated as it is written, and compiled again at each match: a relative one without its
    leading `./` and behind a `/`. A pattern that does not compile there panics. -/

namespace Funzzy

open Fallible (Accepts)
open UnixPath (isAbsolute)

/-- The `glob` crate: `Pattern::new`, and whether a pattern matches a text. -/
structure GlobCrate where
  Pattern : Type
  new : List Char → Except String Pattern
  fits : Pattern → List Char → Bool

/-- `filter` with a test that may panic. -/
def keepTested {α : Type} (test : α → Option Bool) : List α → Option (List α)
  | [] => some []
  | a :: rest => do
    let kept ← test a
    let others ← keepTested test rest
    pure (if kept then a :: others else others)

/-- `x || y`, where `y` is evaluated only if it has to be. -/
def orElse (x y : Option Bool) : Option Bool := x.bind fun b => if b then some true else y

namespace GlobCrate

variable (G : GlobCrate)

/-- Create a glob pattern, anchored if `anchored` is true; an invalid one panics. -/
def createPattern (pattern : List Char) (anchored : Bool) : Option G.Pattern :=
  (G.new (if anchored then pattern else '*' :: '*' :: pattern)).toOption

def anchoredPattern (pattern : List Char) : Option G.Pattern := G.createPattern pattern true

/-- The relative patterns that match, each compiled without its leading `./` behind a `/`. -/
def relativePatterns (patterns : List String) (path : List Char) : Option (List String) :=
  let normalized := if isAbsolute path then path else '/' :: path
  keepTested (fun p => (G.anchoredPattern ('/' :: trimDotSlash p.toList)).map (G.fits · normalized))
    (patterns.filter fun p => !isAbsolute p.toList)

/-- The absolute patterns that match, each compiled as it is. -/
def absolutePatterns (patterns : List String) (path : List Char) : Option (List String) :=
  keepTested (fun p => (G.anchoredPattern p.toList).map (G.fits · path))
    (patterns.filter fun p => isAbsolute p.toList)

variable (rule : Rules) (path : List Char)

def watchRelativePatterns : Option (List String) := G.relativePatterns rule.watchPatterns path

def watchAbsolutePatterns : Option (List String) := G.absolutePatterns rule.watchPatterns path

def ignoreRelativePatterns : Option (List String) := G.relativePatterns rule.ignorePatterns path

def ignoreAbsolutePatterns : Option (List String) := G.absolutePatterns rule.ignorePatterns path

def watchRelative : Option Bool := (G.watchRelativePatterns rule path).map (!·.isEmpty)

def watchAbsolute : Option Bool := (G.watchAbsolutePatterns rule path).map (!·.isEmpty)

def ignoreRelative : Option Bool := (G.ignoreRelativePatterns rule path).map (!·.isEmpty)

def ignoreAbsolute : Option Bool := (G.ignoreAbsolutePatterns rule path).map (!·.isEmpty)

def watch : Option Bool := orElse (G.watchRelative rule path) (G.watchAbsolute rule path)

def ignore : Option Bool := orElse (G.ignoreRelative rule path) (G.ignoreAbsolute rule path)

def watchPatternsMatching : Option (List String) :=
  (G.watchRelativePatterns rule path).bind fun patterns =>
    (G.watchAbsolutePatterns rule path).map (patterns ++ ·)

def ignorePatternsMatching : Option (List String) :=
  (G.ignoreRelativePatterns rule path).bind fun patterns =>
    (G.ignoreAbsolutePatterns rule path).map (patterns ++ ·)

/-- `Pattern::new` as validation asks it. -/
def check (pattern : String) : Except String Unit := (G.new pattern.toList).map fun _ => ()

/-- The crate as a matcher of routing, with some gitignore rules. A pattern that does not compile matches
    nothing. -/
def matchers (gitignored : List Char → Bool) : Matchers where
  glob pattern path := (G.new pattern).toOption.any (G.fits · path)
  gitignored

/-- No matcher panics, and each gives what routing takes it to give. -/
structure Answers (M : Matchers) : Prop where
  watchRelativePatterns : G.watchRelativePatterns rule path = some (rule.watchRelativePatterns M path)
  watchAbsolutePatterns : G.watchAbsolutePatterns rule path = some (rule.watchAbsolutePatterns M path)
  ignoreRelativePatterns : G.ignoreRelativePatterns rule path = some (rule.ignoreRelativePatterns M path)
  ignoreAbsolutePatterns : G.ignoreAbsolutePatterns rule path = some (rule.ignoreAbsolutePatterns M path)
  watchRelative : G.watchRelative rule path = some (rule.watchRelative M path)
  watchAbsolute : G.watchAbsolute rule path = some (rule.watchAbsolute M path)
  ignoreRelative : G.ignoreRelative rule path = some (rule.ignoreRelative M path)
  ignoreAbsolute : G.ignoreAbsolute rule path = some (rule.ignoreAbsolute M path)
  watch : G.watch rule path = some (rule.watchRelative M path || rule.watchAbsolute M path)
  ignore : G.ignore rule path = some (rule.ignoreRelative M path || rule.ignoreAbsolute M path)
  watchPatternsMatching : G.watchPatternsMatching rule path =
    some (rule.watchRelativePatterns M path ++ rule.watchAbsolutePatterns M path)
  ignorePatternsMatching : G.ignorePatternsMatching rule path =
    some (rule.ignoreRelativePatterns M path ++ rule.ignoreAbsolutePatterns M path)

end GlobCrate

/-! ### Filters that may panic -/

theorem keepTested_eq {α : Type} {test : α → Option Bool} {keep : α → Bool} :
    ∀ {l : List α}, (∀ a ∈ l, test a = some (keep a)) → keepTested test l = some (l.filter keep)
  | [], _ => rfl
  | a :: rest, h => by
    obtain ⟨ha, hrest⟩ := List.forall_mem_cons.mp h
    rw [keepTested, ha, keepTested_eq hrest, List.filter_cons]
    rfl

theorem orElse_some (b c : Bool) : orElse (some b) (some c) = some (b || c) := by
  cases b <;> rfl

/-! ### Edited patterns -/

/-- What stands behind a separator compiles like a pattern of its own. -/
theorem valid_behind (text : List Char) (h : ∀ c ∈ text, c ≠ '*' ∧ c ≠ '[') (pattern : List Char) :
    Glob.valid ((text ++ ['/']) ++ pattern) = Glob.valid pattern := by
  rw [Glob.valid, Glob.valid, Glob.compile, Glob.compileFrom_append, Glob.run_directory h, Option.bind_some,
    Option.isSome_map]
  rfl

theorem valid_trimDotSlash (pattern : List Char) : Glob.valid (trimDotSlash pattern) = Glob.valid pattern := by
  induction pattern using trimDotSlash.induct with
  | case1 rest ih =>
    rw [trimDotSlash, ih]
    exact (valid_behind ['.'] (by simp) rest).symm
  | case2 text h => rw [trimDotSlash.eq_2 text h]

/-- The edits of a relative pattern keep it valid. -/
theorem valid_anchored (pattern : List Char) : Glob.valid ('/' :: trimDotSlash pattern) = Glob.valid pattern :=
  (valid_behind [] (by simp) _).trans (valid_trimDotSlash pattern)

/-! ### Validated rules -/

section Validated

variable {compile : String → Except String Unit}

theorem accepts_of_validatePatterns {name property : String} : ∀ {patterns : List String},
    Accepts (validatePatterns compile name property patterns) → ∀ pattern ∈ patterns, Accepts (compile pattern)
  | [], _ => fun _ hmem => absurd hmem List.not_mem_nil
  | first :: rest, h => by
    rw [validatePatterns] at h
    cases hfirst : compile first with
    | error err =>
      rw [hfirst] at h
      exact absurd h (Fallible.not_accepts_error _)
    | ok value =>
      rw [hfirst] at h
      exact List.forall_mem_cons.mpr ⟨hfirst ▸ Fallible.accepts_ok value, accepts_of_validatePatterns h⟩

theorem accepts_of_validate {rule : Rules} (h : Accepts (rule.validate compile)) :
    (∀ pattern ∈ rule.watchPatterns, Accepts (compile pattern)) ∧
      ∀ pattern ∈ rule.ignorePatterns, Accepts (compile pattern) := by
  rw [Rules.validate] at h
  split at h
  · exact absurd h (Fallible.not_accepts_error _)
  split at h
  · exact absurd h (Fallible.not_accepts_error _)
  split at h
  · exact absurd h (Fallible.not_accepts_error _)
  · obtain ⟨value, hwatch, hignore⟩ := (Fallible.accepts_bind _ _).mp h
    exact ⟨accepts_of_validatePatterns ⟨value, hwatch⟩, accepts_of_validatePatterns hignore⟩

theorem accepts_of_validateRules : ∀ {rules : List Rules}, Accepts (validateRules compile rules) →
    ∀ rule ∈ rules, Accepts (rule.validate compile)
  | [], _ => fun _ hmem => absurd hmem List.not_mem_nil
  | first :: rest, h => by
    rw [validateRules] at h
    obtain ⟨value, hfirst, hrest⟩ := (Fallible.accepts_bind _ _).mp h
    exact List.forall_mem_cons.mpr ⟨⟨value, hfirst⟩, accepts_of_validateRules hrest⟩

end Validated

namespace GlobCrate

variable {G : GlobCrate}

theorem accepts_check {pattern : String} (h : Accepts (G.check pattern)) : Accepts (G.new pattern.toList) := by
  rw [check] at h
  cases hnew : G.new pattern.toList with
  | error err =>
    rw [hnew] at h
    exact absurd h (Fallible.not_accepts_error _)
  | ok compiled => exact Fallible.accepts_ok compiled

theorem anchoredPattern_eq {pattern : List Char} (h : Accepts (G.new pattern)) (gitignored : List Char → Bool)
    (path : List Char) :
    (G.anchoredPattern pattern).map (G.fits · path) = some ((G.matchers gitignored).glob pattern path) := by
  obtain ⟨compiled, hnew⟩ := h
  simp [anchoredPattern, createPattern, matchers, hnew, Except.toOption]

/-- Patterns that are valid as they are written can be compiled in the spelling they are matched in. -/
theorem relativePatterns_eq (hnew : ∀ pattern, Accepts (G.new pattern) ↔ Glob.valid pattern = true)
    {patterns : List String} (h : ∀ pattern ∈ patterns, Accepts (G.new pattern.toList))
    (gitignored : List Char → Bool) (path : List Char) :
    G.relativePatterns patterns path =
      some (Funzzy.relativePatterns (G.matchers gitignored) patterns path) := by
  refine keepTested_eq fun pattern hpattern => anchoredPattern_eq ?_ gitignored _
  rw [hnew, valid_anchored, ← hnew]
  exact h pattern (List.mem_filter.mp hpattern).1

theorem absolutePatterns_eq {patterns : List String} (h : ∀ pattern ∈ patterns, Accepts (G.new pattern.toList))
    (gitignored : List Char → Bool) (path : List Char) :
    G.absolutePatterns patterns path =
      some (Funzzy.absolutePatterns (G.matchers gitignored) patterns path) :=
  keepTested_eq fun pattern hpattern =>
    anchoredPattern_eq (h pattern (List.mem_filter.mp hpattern).1) gitignored path

/-- A validated rule answers for every path, whatever the crate makes of valid patterns. -/
theorem answers_of_validated (hnew : ∀ pattern, Accepts (G.new pattern) ↔ Glob.valid pattern = true)
    {rules : List Rules} (h : Accepts (validateRules G.check rules)) :
    ∀ rule ∈ rules, ∀ path gitignored, G.Answers rule path (G.matchers gitignored) := by
  intro rule hrule path gitignored
  obtain ⟨hwatch, hignore⟩ := accepts_of_validate (accepts_of_validateRules h rule hrule)
  have hwatchRelative := relativePatterns_eq hnew (fun p hp => accepts_check (hwatch p hp)) gitignored path
  have hwatchAbsolute := absolutePatterns_eq (fun p hp => accepts_check (hwatch p hp)) gitignored path
  have hignoreRelative := relativePatterns_eq hnew (fun p hp => accepts_check (hignore p hp)) gitignored path
  have hignoreAbsolute := absolutePatterns_eq (fun p hp => accepts_check (hignore p hp)) gitignored path
  have hrelative : G.watchRelative rule path = some (rule.watchRelative (G.matchers gitignored) path) :=
    congrArg _ hwatchRelative
  have habsolute : G.watchAbsolute rule path = some (rule.watchAbsolute (G.matchers gitignored) path) :=
    congrArg _ hwatchAbsolute
  have hrelative' : G.ignoreRelative rule path = some (rule.ignoreRelative (G.matchers gitignored) path) :=
    congrArg _ hignoreRelative
  have habsolute' : G.ignoreAbsolute rule path = some (rule.ignoreAbsolute (G.matchers gitignored) path) :=
    congrArg _ hignoreAbsolute
  exact
    { watchRelativePatterns := hwatchRelative
      watchAbsolutePatterns := hwatchAbsolute
      ignoreRelativePatterns := hignoreRelative
      ignoreAbsolutePatterns := hignoreAbsolute
      watchRelative := hrelative
      watchAbsolute := habsolute
      ignoreRelative := hrelative'
      ignoreAbsolute := habsolute'
      watch := by rw [watch, hrelative, habsolute, orElse_some]
      ignore := by rw [ignore, hrelative', habsolute', orElse_some]
      watchPatternsMatching := by
        rw [watchPatternsMatching, watchRelativePatterns, watchAbsolutePatterns, hwatchRelative, hwatchAbsolute]
        rfl
      ignorePatternsMatching := by
        rw [ignorePatternsMatching, ignoreRelativePatterns, ignoreAbsolutePatterns, hignoreRelative, hignoreAbsolute]
        rfl }

/-- The crate as the tokens of a pattern have it. -/
def ofTokens : GlobCrate where
  Pattern := List Glob.Token
  new pattern := match Glob.compile pattern with
    | some tokens => .ok tokens
    | none => .error "Pattern syntax error"
  fits := Glob.accepts

theorem ofTokens_new (pattern : List Char) : Accepts (ofTokens.new pattern) ↔ Glob.valid pattern = true := by
  have hnew : ofTokens.new pattern = match Glob.compile pattern with
    | some tokens => .ok tokens
    | none => .error "Pattern syntax error" := rfl
  rw [hnew, Glob.valid]
  cases Glob.compile pattern with
  | none => exact iff_of_false (Fallible.not_accepts_error _) Bool.false_ne_true
  | some tokens => exact iff_of_true (Fallible.accepts_ok tokens) rfl

/-- A job that watches the sources below the root. -/
def sources : Rules where
  name := "build"
  commands := ["make"]
  watchPatterns := ["./src/**", "/etc/[a-z]*"]
  ignorePatterns := ["././**/*.log"]

theorem sources_answer : ofTokens.Answers sources "src/main.rs".toList (ofTokens.matchers fun _ => false) :=
  @answers_of_validated ofTokens ofTokens_new [sources] ⟨(), by decide +kernel⟩ sources (List.mem_singleton.mpr rfl) _ _

end GlobCrate

end Funzzy
