import Mathlib.Algebra.Order.Ring.Int
import Funzzy.Watches
import Funzzy.Config.Readers
import Funzzy.Lib.Glob
import Mathlib.Algebra.Order.BigOperators.Group.List

/-! Ad-hoc rules (`extract_paths`, `prepare_as_glob_pattern` and `from_argv` in `config.rs`).

    `exec` watches the paths it is given on stdin. A path becomes a pattern as it is: a directory's with
    `/**` behind it, a file's unchanged. The rule watches the given paths and nothing else only as far as
    their names read as globs for themselves. -/

namespace Funzzy

open UnixPath (isAbsolute join components)

/-! ### From stdin to a rule -/

/-- The file system as `exec` asks it. A canonical path is absolute and ends in no slash, unless it is the
    root, which is a directory. -/
structure PathSystem where
  currentDir : String
  canonicalize : String → Except String String
  isDir : List Char → Bool
  absolute : ∀ {path real}, canonicalize path = .ok real → isAbsolute real.toList = true
  untrailed : ∀ {path real}, canonicalize path = .ok real → real.toList = ['/'] ∨ real.toList.getLast? ≠ some '/'
  root : isDir ['/'] = true

/-- `FzzError::PathError` -/
structure PathError where
  msg : String
  err : String
  hint : String
  deriving DecidableEq

def pathHint : String :=
  "When using stdin, make sure to provide a list of valid files or directories.\n"
    ++ "The output of command `find` is a good example"

section Exec

variable (fs : PathSystem)

/-- The loop of `extract_paths` from a line on. -/
def extractFrom : Nat → List String → Except PathError (List String)
  | _, [] => .ok []
  | number, line :: rest =>
    match fs.canonicalize line with
    | .ok real => (extractFrom (number + 1) rest).map (real :: ·)
    | .error err =>
      .error ⟨"Unknown path '" ++ line ++ "' at line " ++ toString number, err, pathHint⟩

/-- `extract_paths` -/
def extractPaths (stdinput : String) : Except PathError (List String) := extractFrom fs 1 (strLines stdinput)

/-- `prepare_as_glob_pattern` -/
def prepareAsGlobPattern (line : String) : String :=
  let path := line.toList
  let fullPath :=
    if [.curDir] <+: components path then
      if path.length = 1 then join fs.currentDir.toList [] else join fs.currentDir.toList (path.drop 2)
    else join fs.currentDir.toList path
  if fs.isDir fullPath then String.ofList (join fullPath ['*', '*']) else String.ofList fullPath

/-- `Rules::from_argv` -/
def Rules.fromArgv (name : String) (argv watches ignores : List String) (runOnInit : Bool) : Rules where
  name
  argv := some argv
  watchPatterns := watches
  ignorePatterns := ignores
  runOnInit

/-- `from_argv` -/
def fromArgv (patterns argv : List String) : List Rules :=
  [.fromArgv "unnamed" argv (patterns.map (prepareAsGlobPattern fs)) [] true]

end Exec

/-! ### What the rule promises -/

/-- The matcher is that of a glob library: it matches what the tokens of a pattern match. -/
def Matchers.Usual (M : Matchers) : Prop :=
  ∀ pattern tokens, Glob.compile pattern = some tokens → ∀ path, M.glob pattern path = Glob.accepts tokens path

/-- A directory with the slash that what is below it begins with. -/
def slashed (directory : List Char) : List Char :=
  if directory.getLast? = some '/' then directory else directory ++ ['/']

/-- The path is below the directory. -/
def Below (directory path : List Char) : Prop := slashed directory <+: path

/-- The rule watches the given paths: its patterns are globs, they match each given path and what is below
    a given directory, and they match nothing else. -/
structure WatchesItself (fs : PathSystem) (M : Matchers) (given : List String) (rule : Rules) : Prop where
  valid : ∀ pattern ∈ rule.watchPatterns, Glob.valid pattern.toList = true
  self : ∀ path ∈ given, rule.watchAbsolute M path.toList = true
  below : ∀ directory ∈ given, fs.isDir directory.toList = true → ∀ path, Below directory.toList path →
    rule.watchAbsolute M path = true
  only : ∀ path, rule.watchAbsolute M path = true → (∃ g ∈ given, g.toList = path)
    ∨ ∃ directory ∈ given, fs.isDir directory.toList = true ∧ Below directory.toList path

/-! ### Patterns that watch what they were made of

    Here the given paths are texts, none of them the root. A given path is on top if it is below no given
    directory; every other one is below a directory on top. -/

section Covering

open Glob

/-- The pattern of a path that leads from the root. -/
def patternOf (isDir : List Char → Bool) (path : List Char) : List Char :=
  if isDir path then slashed path ++ ['*', '*'] else path

/-- What a path's own matches begin with. -/
def opening (isDir : List Char → Bool) (path : List Char) : List Char :=
  if isDir path then path ++ ['/'] else path

variable (given : List (List Char)) (isDir : List Char → Bool)

def Matched (path : List Char) : Prop :=
  ∃ g ∈ given, ∃ tokens, compile (patternOf isDir g) = some tokens ∧ accepts tokens path = true

def Top (path : List Char) : Prop := path ∈ given ∧ ∀ d ∈ given, isDir d = true → ¬ Below d path

/-- What the patterns promise, except that a directory need not match itself. -/
structure Covers : Prop where
  untrailed : ∀ g ∈ given, g.getLast? ≠ some '/'
  valid : ∀ g ∈ given, ∃ tokens, compile (patternOf isDir g) = some tokens
  self : ∀ g ∈ given, isDir g = false → Matched given isDir g
  below : ∀ d ∈ given, isDir d = true → ∀ path, Below d path → Matched given isDir path
  only : ∀ path, Matched given isDir path → path ∈ given ∨ ∃ d ∈ given, isDir d = true ∧ Below d path

variable {given isDir}

theorem slashed_eq {d : List Char} (h : d.getLast? ≠ some '/') : slashed d = d ++ ['/'] := if_neg h

/-- A given path is on top or below a directory that is. -/
theorem Covers.exists_top (h : Covers given isDir) {v : List Char} (hv : v ∈ given) :
    ∃ w, Top given isDir w ∧ (w = v ∨ isDir w = true ∧ Below w v) := by
  induction hn : v.length using Nat.strong_induction_on generalizing v with
  | _ n ih =>
    by_cases htop : Top given isDir v
    · exact ⟨v, htop, .inl rfl⟩
    · have hbelow : ∃ d ∈ given, isDir d = true ∧ Below d v := by
        by_contra hnone
        exact htop ⟨hv, fun d hd hdir hbelow => hnone ⟨d, hd, hdir, hbelow⟩⟩
      obtain ⟨d, hd, hdir, hbelow⟩ := hbelow
      have hpre : d ++ ['/'] <+: v := slashed_eq (h.untrailed d hd) ▸ hbelow
      have hlength := hpre.length_le
      rw [List.length_append, List.length_singleton] at hlength
      obtain ⟨w, hw, hwd⟩ := ih d.length (by omega) hd rfl
      refine ⟨w, hw, .inr ?_⟩
      rcases hwd with rfl | ⟨hwdir, hwd⟩
      · exact ⟨hdir, hbelow⟩
      · exact ⟨hwdir, hwd.trans ((List.prefix_append d _).trans hpre)⟩

/-- A bound on the lengths of the given paths. -/
def reach (given : List (List Char)) : Nat := (given.map List.length).sum + 1

theorem length_lt_reach {g : List Char} (hg : g ∈ given) : g.length < reach given :=
  Nat.lt_succ_of_le (List.single_le_sum (fun _ _ => Nat.zero_le _) _ (List.mem_map_of_mem hg))

/-- Where a pattern's first unbounded token stands, a given directory begins before it: the text it stands
    for may be made longer than every given path. -/
theorem Covers.exists_above (h : Covers given isDir) {v : List Char} (hv : v ∈ given) {front back : List Token}
    {token : Token} (hcompile : compile (patternOf isDir v) = some (front ++ token :: back))
    (hfront : ∀ t ∈ front, t.fixed = true) (htoken : token.fixed = false) {x y : List Char}
    (hx : Stands front x) (hy : accepts (token :: back) y = true) :
    ∃ d ∈ given, isDir d = true ∧ Below d x := by
  set long := List.replicate (reach given) 'z' with hlong
  have hlonger : accepts (front ++ token :: back) (x ++ (long ++ '/' :: y)) = true :=
    (accepts_append hfront _ _).mpr ⟨x, _, rfl, hx, accepts_longer htoken hy long⟩
  rcases h.only _ ⟨v, hv, _, hcompile, hlonger⟩ with hin | ⟨d, hd, hdir, hbelow⟩
  · have hlength := length_lt_reach hin
    simp [hlong] at hlength
    omega
  · refine ⟨d, hd, hdir, ?_⟩
    have hd' := length_lt_reach hd
    rw [Below, slashed_eq (h.untrailed d hd)] at hbelow ⊢
    obtain ⟨rest, hrest⟩ := hbelow
    rcases List.append_eq_append_iff.mp hrest with ⟨more, rfl, -⟩ | ⟨more, hd'', hmore⟩
    · exact List.prefix_append _ _
    · -- the directory would end within the letters
      have hletters : ∀ c ∈ more, c = 'z' := by
        have hshort : more.length ≤ long.length := by
          have hlength := congrArg List.length hd''
          simp at hlength
          rw [hlong, List.length_replicate]
          omega
        have hpre : more <+: long :=
          List.prefix_of_prefix_length_le ⟨rest, hmore.symm⟩ (List.prefix_append long _) hshort
        intro c hc
        exact List.eq_of_mem_replicate (hpre.subset hc)
      rcases List.eq_nil_or_concat more with rfl | ⟨init, last, rfl⟩
      · rw [List.append_nil] at hd''
        rw [hd'']
      · rw [List.concat_eq_append, ← List.append_assoc] at hd''
        have hlast := List.append_inj_right' hd'' rfl
        have hz := hletters last (by simp)
        rw [hz] at hlast
        simp at hlast

theorem patternOf_file {v : List Char} (h : isDir v = false) : patternOf isDir v = v := by
  simp [patternOf, h]

/-- A given path's pattern is a glob exactly if the path is. -/
theorem valid_patternOf {v : List Char} (h : v = ['/'] ∨ v.getLast? ≠ some '/') :
    valid (patternOf isDir v) = valid v := by
  unfold patternOf
  split_ifs
  · rcases h with rfl | huntrailed
    · rfl
    · rw [slashed_eq huntrailed, List.append_assoc]
      exact valid_recursive v
  · rfl

/-- The tokens of a given directory: those of its opening, and `**`. -/
theorem Covers.directory_tokens (h : Covers given isDir) {d : List Char} (hd : d ∈ given)
    (hdir : isDir d = true) : ∃ front, run (.outside true) (opening isDir d) = some (front, .outside true)
      ∧ compile (opening isDir d) = some front
      ∧ compile (patternOf isDir d) = some (front ++ [.anyRecursive]) := by
  obtain ⟨tokens, htokens⟩ := h.valid d hd
  have hpattern : patternOf isDir d = d ++ ['/', '*', '*'] := by
    simp [patternOf, hdir, slashed_eq (h.untrailed d hd)]
  have hopening : opening isDir d = d ++ ['/'] := if_pos hdir
  rw [hpattern, compile] at htokens
  obtain ⟨front, hrun, rfl⟩ := compile_recursive htokens
  rw [hpattern, hopening]
  refine ⟨front, hrun, ?_, htokens⟩
  rw [compile, compileFrom, hrun, Option.bind_some]
  simp [Glob.finish]

/-- The pattern of a given path begins with the tokens of its opening. -/
theorem Covers.opening_tokens (h : Covers given isDir) {w : List Char} (hw : w ∈ given) :
    ∃ front, compile (opening isDir w) = some front
      ∧ compile (patternOf isDir w) = some (front ++ if isDir w then [.anyRecursive] else []) := by
  cases hdir : isDir w with
  | false =>
    obtain ⟨tokens, htokens⟩ := h.valid w hw
    refine ⟨tokens, ?_, by simpa using htokens⟩
    rw [← htokens, patternOf_file hdir, opening, hdir]
    rfl
  | true =>
    obtain ⟨front, -, hopening, hpattern⟩ := h.directory_tokens hw hdir
    exact ⟨front, hopening, hpattern⟩

/-- What is below a directory has patterns that begin with the directory's tokens. -/
theorem Covers.below_tokens (h : Covers given isDir) {d v : List Char} (hd : d ∈ given) (hdir : isDir d = true)
    (hbelow : Below d v) {front tokens : List Token} (hfront : compile (opening isDir d) = some front)
    (htokens : compile (patternOf isDir v) = some tokens) : ∃ back, tokens = front ++ back := by
  obtain ⟨front', hrun, hopening, -⟩ := h.directory_tokens hd hdir
  obtain rfl : front' = front := Option.some.inj (hopening.symm.trans hfront)
  have hpre : opening isDir d <+: patternOf isDir v := by
    have hv : v <+: patternOf isDir v := by
      unfold patternOf slashed
      split_ifs <;> simp
    rw [Below, slashed_eq (h.untrailed d hd)] at hbelow
    rw [opening, if_pos hdir]
    exact hbelow.trans hv
  obtain ⟨rest, hrest⟩ := hpre
  rw [← hrest, compile, compileFrom_append, hrun, Option.bind_some] at htokens
  obtain ⟨back, -, rfl⟩ := Option.map_eq_some_iff.mp htokens
  exact ⟨back, rfl⟩

/-- Something matches a path on top, and what is below it, with fixed tokens for the path itself. -/
theorem Covers.exists_matching (h : Covers given isDir) {g : List Char} (hg : Top given isDir g) :
    ∃ v ∈ given, ∃ front back, compile (patternOf isDir v) = some (front ++ back)
      ∧ (∀ token ∈ front, token.fixed = true) ∧ Stands front (opening isDir g)
      ∧ (isDir g = false → back = [] ∧ isDir v = false) := by
  cases hdir : isDir g with
  | false =>
    obtain ⟨v, hv, tokens, htokens, haccepts⟩ := h.self g hg.1 hdir
    have hopening : opening isDir g = g := by simp [opening, hdir]
    rcases accepts_cases haccepts with ⟨hfixed, hstands⟩ | ⟨front, token, back, x, y, rfl, hfront, htoken, rfl, hx, hy⟩
    · refine ⟨v, hv, tokens, [], by simpa using htokens, hfixed, ?_, fun _ => ⟨rfl, ?_⟩⟩
      · rwa [hopening]
      by_contra hvdir
      obtain ⟨front, -, -, hpattern⟩ := h.directory_tokens hv (by simpa using hvdir)
      obtain rfl := Option.some.inj (htokens.symm.trans hpattern)
      cases hfixed .anyRecursive (by simp)
    · obtain ⟨d, hd, hddir, hbelow⟩ := h.exists_above hv htokens hfront htoken hx hy
      exact absurd (hbelow.trans (List.prefix_append x y)) (hg.2 d hd hddir)
  | true =>
    set long := List.replicate (reach given) 'z' with hlong
    have hopening : opening isDir g = g ++ ['/'] := by simp [opening, hdir]
    have hbelow : Below g (g ++ ['/'] ++ long) := by
      rw [Below, slashed_eq (h.untrailed g hg.1)]
      exact List.prefix_append _ _
    obtain ⟨v, hv, tokens, htokens, haccepts⟩ := h.below g hg.1 hdir _ hbelow
    rcases accepts_cases haccepts with ⟨hfixed, hstands⟩ | ⟨front, token, back, x, y, rfl, hfront, htoken, hxy, hx, hy⟩
    · -- no pattern has as many fixed tokens
      exfalso
      have hlength := hstands.length_eq
      have hreach := length_lt_reach hv
      cases hvdir : isDir v with
      | false =>
        rw [patternOf_file hvdir] at htokens
        have htext := compile_length htokens
        simp [hlong] at hlength
        omega
      | true =>
        obtain ⟨front, -, -, hpattern⟩ := h.directory_tokens hv hvdir
        obtain rfl := Option.some.inj (htokens.symm.trans hpattern)
        cases hfixed .anyRecursive (by simp)
    · obtain ⟨d, hd, hddir, hdx⟩ := h.exists_above hv htokens hfront htoken hx hy
      have hlonger : g.length < x.length := by
        by_contra hshort
        have hpre : x <+: g := by
          refine List.prefix_of_prefix_length_le ⟨y, hxy.symm⟩ ?_ (by omega)
          rw [List.append_assoc]
          exact List.prefix_append _ _
        exact hg.2 d hd hddir (hdx.trans hpre)
      obtain ⟨more, rfl⟩ : g ++ ['/'] <+: x :=
        List.prefix_of_prefix_length_le (List.prefix_append _ _) ⟨y, hxy.symm⟩
          (by simpa [Nat.succ_le_iff] using hlonger)
      refine ⟨v, hv, front.take (g ++ ['/']).length, front.drop (g ++ ['/']).length ++ token :: back, ?_,
        fun t ht => hfront t (List.mem_of_mem_take ht), ?_, fun hfile => by cases hfile⟩
      · rw [← List.append_assoc, List.take_append_drop]
        exact htokens
      · rw [hopening]
        exact List.forall₂_take_append front _ more hx

/-- The directory's own pattern reaches no further up than to itself. -/
theorem Covers.above_directory (h : Covers given isDir) {w g : List Char} (hw : w ∈ given)
    (hdir : isDir w = true) (hg : Top given isDir g) {front : List Token}
    (hfront : compile (opening isDir w) = some front) (hfixed : ∀ token ∈ front, token.fixed = true)
    {x : List Char} (hx : Stands front x) : ¬ x <+: g := by
  intro hpre
  obtain ⟨front', -, hopening, hpattern⟩ := h.directory_tokens hw hdir
  obtain rfl : front' = front := Option.some.inj (hopening.symm.trans hfront)
  obtain ⟨d, hd, hddir, hbelow⟩ := h.exists_above hw hpattern hfixed rfl hx (accepts_recursive [])
  exact hg.2 d hd hddir (hbelow.trans hpre)

/-- The tokens that stand for a path on top are those of a path on top. -/
theorem Covers.exists_cover (h : Covers given isDir) {g : List Char} (hg : Top given isDir g) :
    ∃ w front back, Top given isDir w ∧ compile (opening isDir w) = some (front ++ back)
      ∧ (∀ token ∈ front, token.fixed = true) ∧ Stands front (opening isDir g)
      ∧ (isDir g = false → back = [] ∧ isDir w = false) := by
  obtain ⟨v, hv, front, back, htokens, hfixed, hstands, hfile⟩ := h.exists_matching hg
  obtain ⟨w, hw, rfl | ⟨hwdir, hbelow⟩⟩ := h.exists_top hv
  · -- the pattern is that of a path on top
    obtain ⟨own, hown, hpattern⟩ := h.opening_tokens hv
    have heq : front ++ back = own ++ if isDir w then [.anyRecursive] else [] :=
      Option.some.inj (htokens.symm.trans hpattern)
    cases hwdir : isDir w with
    | false =>
      rw [hwdir, if_neg (by decide), List.append_nil] at heq
      exact ⟨w, front, back, hw, heq ▸ hown, hfixed, hstands, hwdir ▸ hfile⟩
    | true =>
      rw [hwdir, if_pos rfl] at heq
      have hpre : front <+: own := by
        rcases List.prefix_concat_iff.mp ⟨back, heq⟩ with rfl | hpre
        · cases hfixed .anyRecursive (by simp)
        · exact hpre
      obtain ⟨rest, rfl⟩ := hpre
      refine ⟨w, front, rest, hw, hown, hfixed, hstands, fun hgfile => ?_⟩
      have hvfile := (hfile hgfile).2
      rw [hwdir] at hvfile
      cases hvfile
  · -- the pattern begins with that of a directory on top
    obtain ⟨own, -, hown, -⟩ := h.directory_tokens hw.1 hwdir
    obtain ⟨rest, heq⟩ := h.below_tokens hw.1 hwdir hbelow hown htokens
    have hlength := hstands.length_eq
    have hgpre : g <+: opening isDir g := by
      unfold opening
      split_ifs <;> simp
    have hlonger : g.length < own.length := by
      by_contra hshort
      have hpre : own <+: front :=
        List.prefix_of_prefix_length_le ⟨rest, heq.symm⟩ (List.prefix_append _ _)
          (by have := hgpre.length_le; omega)
      have hownstands : Stands own ((opening isDir g).take own.length) := by
        have htake := List.forall₂_take own.length hstands
        rwa [← List.prefix_iff_eq_take.mp hpre] at htake
      refine h.above_directory hw.1 hwdir hg hown (fun t ht => hfixed t (hpre.subset ht)) hownstands ?_
      exact List.prefix_of_prefix_length_le (List.take_prefix _ _) hgpre
        ((List.length_take_le _ _).trans (by omega))
    cases hgdir : isDir g with
    | false =>
      obtain ⟨rfl, -⟩ := hfile hgdir
      have htotal := congrArg List.length heq
      simp [opening, hgdir] at hlength htotal
      omega
    | true =>
      have hpre : front <+: own := by
        refine List.prefix_of_prefix_length_le (List.prefix_append _ _) ⟨rest, heq.symm⟩ ?_
        simp [opening, hgdir] at hlength
        omega
      obtain ⟨more, rfl⟩ := hpre
      exact ⟨w, front, more, hw, hown, hfixed, hstands, fun hgfile => by cases hgfile⟩

/-- A path on top that reads as characters and `?` has no `?`: the same path with `*` for it would be given. -/
theorem Covers.no_question (h : Covers given isDir) {w : List Char} (hw : Top given isDir w)
    (hsimple : ∀ c ∈ w, c ≠ '*' ∧ c ≠ '[') : '?' ∉ w := by
  intro hquestion
  obtain ⟨x, y, hxy, hx⟩ := List.eq_append_cons_of_mem hquestion
  have hxliteral : ∀ c ∈ x, literal c = true := by
    intro c hc
    have hc' := hsimple c (by rw [hxy]; exact List.mem_append_left _ hc)
    exact literal_iff.mpr ⟨hc'.1, fun heq => hx (heq ▸ hc), hc'.2⟩
  have hysimple : ∀ c ∈ y, c ≠ '*' ∧ c ≠ '[' := fun c hc => hsimple c (by rw [hxy]; simp [hc])
  -- the path with a star matches the pattern
  set slash := if isDir w then ['/'] else [] with hslash
  have hmatched : Matched given isDir (x ++ '*' :: (y ++ slash)) := by
    have hstands : Stands ((w ++ slash).map simple) (x ++ '*' :: (y ++ slash)) := by
      rw [hxy, List.append_assoc, List.map_append]
      exact (stands_simple x).append (.cons rfl (stands_simple (y ++ slash)))
    cases hdir : isDir w with
    | false =>
      refine ⟨w, hw.1, w.map simple, ?_, ?_⟩
      · rw [patternOf_file hdir]
        exact compileFrom_simple hsimple true
      · rw [← List.append_nil (w.map simple), accepts_append (map_simple_fixed w)]
        exact ⟨_, [], (List.append_nil _).symm, by simpa [hslash, hdir] using hstands, rfl⟩
    | true =>
      refine ⟨w, hw.1, (w ++ ['/']).map simple ++ [.anyRecursive], ?_, ?_⟩
      · rw [patternOf, if_pos hdir, slashed_eq (h.untrailed w hw.1), List.append_assoc]
        exact compileFrom_directory hsimple true
      · rw [accepts_append (map_simple_fixed _)]
        exact ⟨_, [], (List.append_nil _).symm, by simpa [hslash, hdir] using hstands, rfl⟩
  have hbehind : ∀ c ∈ y ++ slash, c ≠ '*' ∧ c ≠ '[' := by
    intro c hc
    rcases List.mem_append.mp hc with hc | hc
    · exact hysimple c hc
    · rw [hslash] at hc
      split_ifs at hc
      · rw [List.mem_singleton.mp hc]
        decide
      · cases hc
  have habove : ∀ d ∈ given, isDir d = true → ¬ Below d x := fun d hd hdir hbelow =>
    hw.2 d hd hdir (hbelow.trans (hxy ▸ List.prefix_append _ _))
  -- so a given path has the star in it
  obtain ⟨s, hs, z, rfl, hz⟩ : ∃ s ∈ given, ∃ z, s = x ++ '*' :: z ∧ ∀ c ∈ z, c ≠ '*' ∧ c ≠ '[' := by
    rcases h.only _ hmatched with hin | ⟨d, hd, hdir, hbelow⟩
    · exact ⟨_, hin, _, rfl, hbehind⟩
    · rw [Below, slashed_eq (h.untrailed d hd)] at hbelow
      obtain ⟨rest, hrest⟩ := hbelow
      have hnot : ∀ more, x ≠ d ++ ['/'] ++ more := by
        rintro more heq
        refine habove d hd hdir ?_
        rw [Below, slashed_eq (h.untrailed d hd), heq]
        exact List.prefix_append _ _
      rcases List.append_eq_append_iff.mp hrest with ⟨more, hx', -⟩ | ⟨more, hd', hmore⟩
      · exact absurd hx' (hnot more)
      · cases more with
        | nil => exact absurd (by simpa using hd'.symm) (hnot [])
        | cons c more =>
          rw [List.cons_append, List.cons.injEq] at hmore
          obtain ⟨rfl, hmore⟩ := hmore
          rcases List.eq_nil_or_concat more with rfl | ⟨init, last, rfl⟩
          · have hlast := List.append_inj_right' hd' rfl
            simp at hlast
          · rw [List.concat_eq_append] at hd' hmore
            rw [← List.cons_append, ← List.append_assoc] at hd'
            refine ⟨d, hd, init, List.append_inj_left' hd' rfl, fun c hc => hbehind c ?_⟩
            rw [hmore]
            simp [hc]
  -- and its own star reaches further up
  obtain ⟨tail, tokens, text, hpattern, hhead, htokens, haccepts⟩ : ∃ tail tokens text,
      patternOf isDir (x ++ '*' :: z) = x ++ '*' :: tail ∧ tail.head? ≠ some '*'
        ∧ compileFrom (.outside false) tail = some tokens ∧ accepts tokens text = true := by
    cases hdir : isDir (x ++ '*' :: z) with
    | false =>
      refine ⟨z, z.map simple, z, patternOf_file hdir, ?_, compileFrom_simple hz false, ?_⟩
      · exact fun heq => (hz '*' (List.mem_of_mem_head? heq)).1 rfl
      · rw [← List.append_nil (z.map simple), accepts_append (map_simple_fixed z)]
        exact ⟨z, [], (List.append_nil _).symm, stands_simple z, rfl⟩
    | true =>
      refine ⟨z ++ ['/', '*', '*'], _, z ++ ['/'], ?_, ?_, compileFrom_directory hz false, ?_⟩
      · simp [patternOf, hdir, slashed_eq (h.untrailed _ hs)]
      · cases z with
        | nil => decide
        | cons c z => simpa using (hz c List.mem_cons_self).1
      · rw [accepts_append (map_simple_fixed _)]
        exact ⟨_, [], (List.append_nil _).symm, stands_simple _, rfl⟩
  have hcompile := compile_sequence hxliteral hhead htokens
  rw [← hpattern] at hcompile
  have hfixed : ∀ token ∈ x.map Token.char, token.fixed = true := by
    rw [← map_simple hxliteral]
    exact map_simple_fixed x
  obtain ⟨d, hd, hdir, hbelow⟩ :=
    h.exists_above hs hcompile hfixed rfl (stands_char.mpr rfl) (accepts_sequence haccepts)
  exact habove d hd hdir hbelow

theorem literal_opening {w : List Char} (hw : ∀ c ∈ w, literal c = true) :
    ∀ c ∈ opening isDir w, literal c = true := by
  intro c hc
  unfold opening at hc
  split_ifs at hc
  · rcases List.mem_append.mp hc with hc | hc
    · exact hw c hc
    · rw [List.mem_singleton.mp hc]
      rfl
  · exact hw c hc

theorem compile_opening {w : List Char} (hw : ∀ c ∈ w, literal c = true) :
    compile (opening isDir w) = some ((opening isDir w).map Token.char) :=
  compile_literal (literal_opening hw)

theorem prefix_opening (w : List Char) : w <+: opening isDir w := by
  unfold opening
  split_ifs <;> simp

theorem length_opening {w : List Char} (hw : w ∈ given) :
    (opening isDir w).length ≤ reach given := by
  have hreach := length_lt_reach hw
  unfold opening
  split_ifs
  · rwa [List.length_append, List.length_singleton]
  · exact hreach.le

/-- The paths on top have no character that a glob reads in its own way. -/
theorem Covers.literal_top (h : Covers given isDir) {g : List Char} (hg : Top given isDir g) :
    ∀ c ∈ g, literal c = true := by
  -- the longest ones first: a path's tokens are those of one at least as long
  induction hn : reach given - (opening isDir g).length using Nat.strong_induction_on generalizing g with
  | _ n ih =>
    obtain ⟨w, front, back, hw, hopening, hfixed, hstands, hfile⟩ := h.exists_cover hg
    have hcount := hstands.length_eq
    have hlength := compile_length hopening
    rw [List.length_append] at hlength
    by_cases hlonger : (opening isDir g).length < (opening isDir w).length
    · -- a longer path is literal, so the given directory is above it
      exfalso
      have hbound : (opening isDir w).length ≤ reach given := length_opening hw.1
      have hchars : compile (opening isDir w) = _ := compile_opening (ih _ (by omega) hw rfl)
      obtain ⟨a, b, hab, rfl, hb⟩ := List.map_eq_append_iff.mp (Option.some.inj (hchars.symm.trans hopening))
      obtain rfl : opening isDir g = a := stands_char.mp hstands
      cases hgdir : isDir g with
      | false =>
        obtain ⟨rfl, -⟩ := hfile hgdir
        rw [List.map_eq_nil_iff.mp hb, List.append_nil] at hab
        rw [hab] at hlonger
        exact lt_irrefl _ hlonger
      | true =>
        have hbelow : Below g w := by
          have hpre : opening isDir g <+: opening isDir w := ⟨b, hab.symm⟩
          rw [Below, slashed_eq (h.untrailed g hg.1)]
          rw [opening, if_pos hgdir] at hpre hlonger
          cases hwdir : isDir w with
          | false => simpa [opening, hwdir] using hpre
          | true =>
            rw [opening, if_pos hwdir] at hpre hlonger
            rcases List.prefix_concat_iff.mp hpre with heq | hpre
            · rw [heq] at hlonger
              exact absurd hlonger (lt_irrefl _)
            · exact hpre
        exact hw.2 g hg.1 hgdir hbelow
    · -- one as long has a token for each character, and so is the path itself
      obtain rfl : back = [] := List.length_eq_zero_iff.mp (by omega)
      rw [List.append_nil] at hopening
      have hsimple := simple_of_compile hopening hfixed (by simp at hlength; omega)
      have hwsimple : ∀ c ∈ w, c ≠ '*' ∧ c ≠ '[' := fun c hc => hsimple c ((prefix_opening w).subset hc)
      have hquestion := h.no_question hw hwsimple
      have hwliteral : ∀ c ∈ w, literal c = true := fun c hc =>
        literal_iff.mpr ⟨(hwsimple c hc).1, fun heq => hquestion (heq ▸ hc), (hwsimple c hc).2⟩
      have hchars : compile (opening isDir w) = _ := compile_opening hwliteral
      obtain rfl := Option.some.inj (hchars.symm.trans hopening)
      have heq := stands_char.mp hstands
      intro c hc
      exact literal_opening hwliteral c (heq ▸ (prefix_opening g).subset hc)

/-- No pattern matches a given directory on top. -/
theorem Covers.unmatched_directory (h : Covers given isDir) {g : List Char} (hg : Top given isDir g)
    (hdir : isDir g = true) : ¬ Matched given isDir g := by
  rintro ⟨v, hv, tokens, htokens, haccepts⟩
  obtain ⟨w, hw, hwv⟩ := h.exists_top hv
  have hchars : compile (opening isDir w) = _ := compile_opening (h.literal_top hw)
  -- the pattern begins with the opening of the path on top
  obtain ⟨back, rfl, hback⟩ : ∃ back, tokens = (opening isDir w).map Token.char ++ back
      ∧ (isDir w = false → v = w ∧ back = []) := by
    rcases hwv with rfl | ⟨hwdir, hbelow⟩
    · obtain ⟨own, hown, hpattern⟩ := h.opening_tokens hv
      obtain rfl := Option.some.inj (hchars.symm.trans hown)
      obtain rfl := Option.some.inj (htokens.symm.trans hpattern)
      exact ⟨_, rfl, fun hfile => ⟨rfl, by simp [hfile]⟩⟩
    · obtain ⟨back, rfl⟩ := h.below_tokens hw.1 hwdir hbelow hchars htokens
      exact ⟨back, rfl, fun hfile => by rw [hwdir] at hfile; cases hfile⟩
  have hfixed : ∀ token ∈ (opening isDir w).map Token.char, token.fixed = true := by
    rw [← map_simple (literal_opening (h.literal_top hw))]
    exact map_simple_fixed _
  obtain ⟨x, y, rfl, hx, hy⟩ := (accepts_append hfixed _ _).mp haccepts
  obtain rfl := stands_char.mp hx
  cases hwdir : isDir w with
  | false =>
    obtain ⟨rfl, rfl⟩ := hback hwdir
    have hopening : opening isDir v = v := by simp [opening, hwdir]
    rw [List.isEmpty_iff.mp hy, List.append_nil, hopening, hwdir] at hdir
    cases hdir
  | true =>
    refine hg.2 w hw.1 hwdir ?_
    rw [Below, slashed_eq (h.untrailed w hw.1), opening, if_pos hwdir]
    exact List.prefix_append _ _

end Covering

/-! ### The rule of `exec` -/

section Rule

variable {fs : PathSystem} {M : Matchers} {given : List String}

theorem extractFrom_ok {number : Nat} {lines : List String} (h : extractFrom fs number lines = .ok given) :
    ∀ path ∈ given, ∃ line, fs.canonicalize line = .ok path := by
  induction lines generalizing number given with
  | nil =>
    cases h
    simp
  | cons line rest ih =>
    rw [extractFrom] at h
    cases hline : fs.canonicalize line with
    | error err =>
      rw [hline] at h
      cases h
    | ok real =>
      rw [hline] at h
      cases hrest : extractFrom fs (number + 1) rest with
      | error err =>
        rw [hrest] at h
        cases h
      | ok paths =>
        rw [hrest] at h
        cases h
        exact List.forall_mem_cons.mpr ⟨⟨line, hline⟩, ih hrest⟩

/-- The pattern of a path that leads from the root is the path, with `/**` behind a directory. -/
theorem prepareAsGlobPattern_toList {path : String} (h : isAbsolute path.toList = true) :
    (prepareAsGlobPattern fs path).toList = patternOf fs.isDir path.toList := by
  obtain ⟨rest, hpath⟩ : ∃ rest, path.toList = '/' :: rest := by
    cases hchars : path.toList with
    | nil => simp [isAbsolute, hchars] at h
    | cons c rest => exact ⟨rest, by simpa [isAbsolute, hchars] using h⟩
  have hcomponents : ¬ [.curDir] <+: components path.toList := by
    rw [hpath, UnixPath.components_slash]
    rintro ⟨more, hmore⟩
    cases hmore
  have hjoin : join fs.currentDir.toList path.toList = path.toList := by simp [join, h]
  have hslashed : join path.toList ['*', '*'] = slashed path.toList ++ ['*', '*'] := by
    have hne : path.toList ≠ [] := by simp [hpath]
    have hrelative : isAbsolute ['*', '*'] = false := rfl
    rw [join, hrelative, if_neg Bool.false_ne_true, slashed]
    split_ifs <;> simp_all
  rw [prepareAsGlobPattern]
  simp only [if_neg hcomponents, hjoin]
  rw [patternOf]
  split_ifs
  · rw [String.toList_ofList, hslashed]
  · rw [String.toList_ofList]

variable (habsolute : ∀ path ∈ given, isAbsolute path.toList = true)
include habsolute

/-- Where the patterns are globs, the rule matches what they match. -/
theorem fromArgv_watchAbsolute (hM : M.Usual) (hvalid : ∀ path ∈ given, ∃ tokens,
    Glob.compile (patternOf fs.isDir path.toList) = some tokens) (argv : List String) (path : List Char) :
    (Rules.fromArgv "unnamed" argv (given.map (prepareAsGlobPattern fs)) [] true).watchAbsolute M path = true
      ↔ Matched (given.map String.toList) fs.isDir path := by
  have hleads : ∀ g ∈ given, isAbsolute (prepareAsGlobPattern fs g).toList = true := by
    intro g hg
    rw [prepareAsGlobPattern_toList (habsolute g hg)]
    have hg' := habsolute g hg
    unfold patternOf slashed
    split_ifs <;> cases hchars : g.toList <;> simp_all [isAbsolute]
  simp only [Rules.watchAbsolute, Rules.watchAbsolutePatterns, absolutePatterns, Rules.fromArgv,
    Bool.not_eq_true', List.isEmpty_eq_false_iff_exists_mem, List.mem_filter, List.mem_map]
  constructor
  · rintro ⟨_, ⟨⟨g, hg, rfl⟩, -⟩, hglob⟩
    obtain ⟨tokens, htokens⟩ := hvalid g hg
    rw [prepareAsGlobPattern_toList (habsolute g hg), hM _ _ htokens] at hglob
    exact ⟨g.toList, List.mem_map_of_mem hg, tokens, htokens, hglob⟩
  · rintro ⟨_, hin, tokens, htokens, haccepts⟩
    obtain ⟨g, hg, rfl⟩ := List.mem_map.mp hin
    refine ⟨_, ⟨⟨g, hg, rfl⟩, hleads g hg⟩, ?_⟩
    rwa [prepareAsGlobPattern_toList (habsolute g hg), hM _ _ htokens]

/-- The given paths as the coverings have them. -/
theorem WatchesItself.covers (hM : M.Usual) (huntrailed : ∀ path ∈ given, path.toList.getLast? ≠ some '/')
    {argv : List String} (h : WatchesItself fs M given
      (Rules.fromArgv "unnamed" argv (given.map (prepareAsGlobPattern fs)) [] true)) :
    Covers (given.map String.toList) fs.isDir := by
  have hvalid : ∀ path ∈ given, ∃ tokens, Glob.compile (patternOf fs.isDir path.toList) = some tokens := by
    intro path hpath
    rw [← prepareAsGlobPattern_toList (habsolute path hpath)]
    exact Option.isSome_iff_exists.mp (h.valid _ (List.mem_map_of_mem hpath))
  have hwatch := fromArgv_watchAbsolute habsolute hM hvalid argv
  refine ⟨?_, ?_, ?_, ?_, ?_⟩
  · simpa using huntrailed
  · simpa using hvalid
  · intro g hg _
    obtain ⟨path, hpath, rfl⟩ := List.mem_map.mp hg
    exact (hwatch _).mp (h.self path hpath)
  · intro d hd hdir path hbelow
    obtain ⟨directory, hdirectory, rfl⟩ := List.mem_map.mp hd
    exact (hwatch path).mp (h.below directory hdirectory hdir path hbelow)
  · intro path hmatched
    rcases h.only path ((hwatch path).mpr hmatched) with ⟨g, hg, rfl⟩ | ⟨d, hd, hdir, hbelow⟩
    · exact .inl (List.mem_map_of_mem hg)
    · exact .inr ⟨d.toList, List.mem_map_of_mem hd, hdir, hbelow⟩

/-- The root's pattern matches everything. -/
theorem watchesItself_of_root (hM : M.Usual) (hroot : "/" ∈ given)
    (hvalid : ∀ path ∈ given, Glob.valid (prepareAsGlobPattern fs path).toList = true) (argv : List String) :
    WatchesItself fs M given (Rules.fromArgv "unnamed" argv (given.map (prepareAsGlobPattern fs)) [] true) := by
  have hcompile : ∀ path ∈ given, ∃ tokens, Glob.compile (patternOf fs.isDir path.toList) = some tokens := by
    intro path hpath
    rw [← prepareAsGlobPattern_toList (habsolute path hpath)]
    exact Option.isSome_iff_exists.mp (hvalid path hpath)
  have hwatch := fromArgv_watchAbsolute habsolute hM hcompile argv
  have hall : ∀ path, isAbsolute path = true →
      (Rules.fromArgv "unnamed" argv (given.map (prepareAsGlobPattern fs)) [] true).watchAbsolute M path = true := by
    intro path hpath
    obtain ⟨rest, rfl⟩ : ∃ rest, path = '/' :: rest := by
      cases path with
      | nil => cases hpath
      | cons c rest => exact ⟨rest, by simpa [isAbsolute] using hpath⟩
    refine (hwatch _).mpr ⟨['/'], List.mem_map.mpr ⟨"/", hroot, rfl⟩, [.char '/', .anyRecursive], ?_, ?_⟩
    · rw [patternOf, if_pos fs.root]
      rfl
    · exact (Glob.accepts_cons rfl _ _).mpr ⟨'/', rest, rfl, rfl, Glob.accepts_recursive rest⟩
  have hlead : ∀ {g q : List Char}, isAbsolute g = true → g <+: q → isAbsolute q = true := by
    rintro g q hg ⟨more, rfl⟩
    cases g with
    | nil => cases hg
    | cons c rest => exact hg
  have hslashed : ∀ d : List Char, d <+: slashed d := by
    intro d
    unfold slashed
    split_ifs <;> simp
  refine ⟨?_, fun path hpath => hall _ (habsolute path hpath), ?_, ?_⟩
  · simpa [Rules.fromArgv] using hvalid
  · exact fun d hd _ path hbelow => hall path (hlead (habsolute d hd) ((hslashed _).trans hbelow))
  · intro path hmatched
    obtain ⟨g, hg, tokens, htokens, haccepts⟩ := (hwatch path).mp hmatched
    obtain ⟨given', hgiven', rfl⟩ := List.mem_map.mp hg
    refine .inr ⟨"/", hroot, fs.root, ?_⟩
    -- every pattern begins with a slash
    obtain ⟨rest, hpattern⟩ : ∃ rest, patternOf fs.isDir given'.toList = '/' :: rest := by
      have hg' := habsolute given' hgiven'
      unfold patternOf slashed
      split_ifs <;> cases hchars : given'.toList <;> simp_all [isAbsolute]
    rw [hpattern, Glob.compile, ← List.singleton_append, Glob.compileFrom_append] at htokens
    obtain ⟨more, -, rfl⟩ := Option.map_eq_some_iff.mp htokens
    obtain ⟨c, rest, rfl, hc, -⟩ := (Glob.accepts_cons rfl _ _).mp haccepts
    have hslash : '/' = c := by simpa [Glob.Token.admits] using hc
    exact hslash ▸ ⟨rest, rfl⟩

/-- A file whose name is no glob is matched by its own pattern, and nothing else is. -/
theorem watchesItself_of_literal (hM : M.Usual)
    (h : ∀ path ∈ given, fs.isDir path.toList = false ∧ ∀ c ∈ path.toList, Glob.literal c = true)
    (argv : List String) :
    WatchesItself fs M given (Rules.fromArgv "unnamed" argv (given.map (prepareAsGlobPattern fs)) [] true) := by
  have hcompile : ∀ path ∈ given,
      Glob.compile (patternOf fs.isDir path.toList) = some (path.toList.map Glob.Token.char) := by
    intro path hpath
    rw [patternOf_file (h path hpath).1]
    exact Glob.compile_literal (h path hpath).2
  have hwatch := fromArgv_watchAbsolute habsolute hM (fun path hpath => ⟨_, hcompile path hpath⟩) argv
  refine ⟨?_, ?_, ?_, ?_⟩
  · intro pattern hpattern
    obtain ⟨path, hpath, rfl⟩ := List.mem_map.mp hpattern
    rw [prepareAsGlobPattern_toList (habsolute path hpath), Glob.valid, hcompile path hpath]
    rfl
  · intro path hpath
    exact (hwatch _).mpr ⟨_, List.mem_map_of_mem hpath, _, hcompile path hpath, Glob.accepts_literal.mpr rfl⟩
  · intro directory hdirectory hdir
    rw [(h directory hdirectory).1] at hdir
    cases hdir
  · intro path hmatched
    obtain ⟨_, hin, tokens, htokens, haccepts⟩ := (hwatch path).mp hmatched
    obtain ⟨g, hg, rfl⟩ := List.mem_map.mp hin
    obtain rfl := Option.some.inj ((hcompile g hg).symm.trans htokens)
    exact .inl ⟨g, hg, (Glob.accepts_literal.mp haccepts).symm⟩

end Rule

/-- The rule of `exec` watches the given paths and nothing else exactly if the root is given and all the
    given paths are globs, or no given path is a directory or has a character that a glob reads in its own
    way. -/
theorem exec_watches_itself_iff {fs : PathSystem} {M : Matchers} (hM : M.Usual) {stdinput : String}
    {given : List String} (hgiven : extractPaths fs stdinput = .ok given) (argv : List String) :
    ∃ rule, fromArgv fs given argv = [rule] ∧ (WatchesItself fs M given rule
      ↔ ("/" ∈ given ∧ ∀ path ∈ given, Glob.valid path.toList = true)
        ∨ ∀ path ∈ given, fs.isDir path.toList = false ∧ ∀ c ∈ path.toList, Glob.literal c = true) := by
  have hreal := extractFrom_ok hgiven
  have habsolute : ∀ path ∈ given, isAbsolute path.toList = true := fun path hpath =>
    (hreal path hpath).elim fun _ => fs.absolute
  have hends : ∀ path ∈ given, path.toList = ['/'] ∨ path.toList.getLast? ≠ some '/' := fun path hpath =>
    (hreal path hpath).elim fun _ => fs.untrailed
  have hglob : ∀ path ∈ given,
      Glob.valid (prepareAsGlobPattern fs path).toList = Glob.valid path.toList := by
    intro path hpath
    rw [prepareAsGlobPattern_toList (habsolute path hpath)]
    exact valid_patternOf (hends path hpath)
  refine ⟨_, rfl, ?_, ?_⟩
  · intro h
    by_cases hroot : "/" ∈ given
    · exact .inl ⟨hroot, fun path hpath => (hglob path hpath).symm.trans (h.valid _ (List.mem_map_of_mem hpath))⟩
    · have huntrailed : ∀ path ∈ given, path.toList.getLast? ≠ some '/' := by
        intro path hpath
        rcases hends path hpath with heq | hlast
        · have hpath' : path = "/" := String.toList_inj.mp heq
          exact absurd (hpath' ▸ hpath) hroot
        · exact hlast
      have hcovers := h.covers habsolute hM huntrailed
      -- a given directory would be below one on top, which no pattern matches
      have hfiles : ∀ path ∈ given, fs.isDir path.toList = false := by
        intro path hpath
        by_contra hdir
        have htop : ∃ w, Top (given.map String.toList) fs.isDir w ∧ fs.isDir w = true := by
          obtain ⟨w, hw, rfl | ⟨hwdir, -⟩⟩ := hcovers.exists_top (List.mem_map_of_mem hpath)
          · exact ⟨_, hw, by simpa using hdir⟩
          · exact ⟨w, hw, hwdir⟩
        obtain ⟨w, hw, hwdir⟩ := htop
        obtain ⟨directory, hdirectory, rfl⟩ := List.mem_map.mp hw.1
        refine hcovers.unmatched_directory hw hwdir ((fromArgv_watchAbsolute habsolute hM ?_ argv _).mp
          (h.self directory hdirectory))
        intro g hg
        exact hcovers.valid _ (List.mem_map_of_mem hg)
      refine .inr fun path hpath => ⟨hfiles path hpath, hcovers.literal_top ⟨List.mem_map_of_mem hpath, ?_⟩⟩
      intro d hd hdir
      obtain ⟨directory, hdirectory, rfl⟩ := List.mem_map.mp hd
      rw [hfiles directory hdirectory] at hdir
      cases hdir
  · rintro (⟨hroot, hvalid⟩ | hliteral)
    · refine watchesItself_of_root habsolute hM hroot (fun path hpath => ?_) argv
      exact (hglob path hpath).trans (hvalid path hpath)
    · exact watchesItself_of_literal habsolute hM hliteral argv

/-- Two files in a workspace, one with a name that is a glob for others. -/
def pages : PathSystem where
  currentDir := "/w"
  canonicalize path :=
    if path = "a.ts" then .ok "/w/a.ts" else if path = "[id].ts" then .ok "/w/[id].ts"
    else .error "No such file or directory (os error 2)"
  isDir path := path = ['/'] ∨ path = "/w".toList
  absolute := by
    intro path real h
    split_ifs at h <;> cases h <;> decide
  untrailed := by
    intro path real h
    split_ifs at h <;> cases h <;> decide
  root := by decide

/-- The matcher that reads patterns as globs. -/
def globs : Matchers where
  glob pattern path := ((Glob.compile pattern).map fun tokens => Glob.accepts tokens path).getD false
  gitignored _ := false

theorem globs_usual : globs.Usual := by
  intro pattern tokens h path
  simp [globs, h]

theorem exec_watches_plain_file : ∃ rule, fromArgv pages ["/w/a.ts"] ["make"] = [rule] ∧
    WatchesItself pages globs ["/w/a.ts"] rule := by
  have hgiven : extractPaths pages "a.ts\n" = .ok ["/w/a.ts"] := by rfl
  obtain ⟨rule, hrule, hiff⟩ := exec_watches_itself_iff globs_usual hgiven ["make"]
  have hliteral : ("/w/a.ts".toList.all Glob.literal) = true := by decide
  refine ⟨rule, hrule, hiff.mpr (.inr fun path hpath => ?_)⟩
  obtain rfl := List.mem_singleton.mp hpath
  exact ⟨by decide, List.all_eq_true.mp hliteral⟩

/-- A file whose name has brackets is not watched: its name is the pattern of other names. -/
theorem bracket_file_unwatched : extractPaths pages "[id].ts\n" = .ok ["/w/[id].ts"] ∧
    ∃ rule, fromArgv pages ["/w/[id].ts"] ["make"] = [rule]
      ∧ rule.watchAbsolute globs "/w/[id].ts".toList = false ∧ rule.watchAbsolute globs "/w/i.ts".toList = true
      ∧ ¬ WatchesItself pages globs ["/w/[id].ts"] rule := by
  refine ⟨rfl, _, rfl, by decide, by decide, fun h => ?_⟩
  have hself := h.self "/w/[id].ts" (by decide)
  revert hself
  decide

end Funzzy
