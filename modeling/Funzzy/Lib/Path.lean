import Mathlib.Data.List.Basic
import Mathlib.Data.List.Infix

/-! Unix paths as text and as components.

    A path is a text of parts between slashes. Its components leave out the empty parts and the `.`
    parts, except that a relative path may begin with `.`; comparing, containment and parents are about
    components, joining and stripping are about the text. The results relate the two: what joining and
    stripping do to the components. -/

namespace UnixPath

/-! ### Components -/

inductive Component where
  | rootDir
  | curDir
  | parentDir
  | normal (name : List Char)
  deriving DecidableEq

/-- The parts of a path between slashes. -/
def parts (t : List Char) : List (List Char) := t.splitOn '/'

/-- Empty parts and `.` parts are no components. -/
def skipped (part : List Char) : Bool := part = [] ∨ part = ['.']

def partComponent (part : List Char) : Component := if part = ['.', '.'] then .parentDir else .normal part

/-- The components of parts that do not begin a path. -/
def body (ps : List (List Char)) : List Component := (ps.filter fun p => !skipped p).map partComponent

def isAbsolute (t : List Char) : Bool := t.head? = some '/'

def components (t : List Char) : List Component :=
  if isAbsolute t then .rootDir :: body (parts t).tail
  else if (parts t).head? = some ['.'] then .curDir :: body (parts t)
  else body (parts t)

/-- The path is the base or below it. -/
def startsWith (path base : List Component) : Prop := base <+: path

instance (path base : List Component) : Decidable (startsWith path base) :=
  inferInstanceAs (Decidable (base <+: path))

/-- The path without its last component; the root directory and the empty path have none. -/
def parent (path : List Component) : Option (List Component) :=
  match path.getLast? with
  | none | some .rootDir => none
  | some _ => some path.dropLast

theorem startsWith_refl (path : List Component) : startsWith path path := List.prefix_refl path

theorem startsWith_trans {a b c : List Component} (h : startsWith a b) (h' : startsWith b c) :
    startsWith a c :=
  List.IsPrefix.trans h' h

theorem startsWith_parent {path above : List Component} (h : parent path = some above) :
    startsWith path above := by
  unfold parent at h
  split at h
  · cases h
  · cases h
  · cases h
    exact List.dropLast_prefix path

/-! ### Joining -/

/-- Appends a path to a base; an absolute path replaces the base. -/
def join (base t : List Char) : List Char :=
  if isAbsolute t then t
  else if base = [] ∨ base.getLast? = some '/' then base ++ t
  else base ++ '/' :: t

theorem parts_append_slash (a b : List Char) : parts (a ++ '/' :: b) = parts a ++ parts b :=
  List.splitOn_append_cons_self a b

theorem parts_slash (b : List Char) : parts ('/' :: b) = [] :: parts b := by
  have h := parts_append_slash [] b
  simpa [parts] using h

@[simp] theorem body_append (a b : List (List Char)) : body (a ++ b) = body a ++ body b := by
  simp [body]

@[simp] theorem body_nil_cons (ps : List (List Char)) : body ([] :: ps) = body ps := by
  simp [body, skipped]

@[simp] theorem body_dot_cons (ps : List (List Char)) : body (['.'] :: ps) = body ps := by
  simp [body, skipped]

/-- The components of an absolute path. -/
theorem components_slash (t : List Char) : components ('/' :: t) = .rootDir :: body (parts t) := by
  simp [components, isAbsolute, parts_slash]

/-- What follows a slash adds its own components. -/
theorem components_append_slash {a : List Char} (ha : a ≠ []) (b : List Char) :
    components (a ++ '/' :: b) = components a ++ body (parts b) := by
  obtain ⟨c, rest, rfl⟩ := List.exists_cons_of_ne_nil ha
  have hparts := List.splitOn_ne_nil '/' (c :: rest)
  obtain ⟨first, tail, hfirst⟩ := List.exists_cons_of_ne_nil hparts
  have hfirst : parts (c :: rest) = first :: tail := hfirst
  unfold components
  rw [parts_append_slash, hfirst]
  by_cases habs : c = '/'
  · simp [isAbsolute, habs]
  · by_cases hdot : first = ['.']
    · simp [isAbsolute, habs, hdot]
    · have hbody : body (first :: tail ++ parts b) = body (first :: tail) ++ body (parts b) :=
        body_append _ _
      simpa [isAbsolute, habs, hdot] using hbody

/-- Joining a relative path adds its components. -/
theorem components_join {base t : List Char} (hbase : isAbsolute base = true)
    (ht : isAbsolute t = false) : components (join base t) = components base ++ body (parts t) := by
  have hne : base ≠ [] := by
    rintro rfl
    cases hbase
  unfold join
  rw [if_neg (by simp [ht])]
  by_cases hlast : base.getLast? = some '/'
  · -- the base ends in a slash: the text is appended to the part before it
    rw [if_pos (.inr hlast)]
    obtain ⟨before, rfl⟩ : ∃ before, base = before ++ ['/'] := by
      refine ⟨base.dropLast, ?_⟩
      rw [List.getLast?_eq_some_getLast hne] at hlast
      have hend := Option.some.inj hlast
      rw [← hend, List.dropLast_append_getLast]
    rw [List.append_assoc, List.singleton_append]
    by_cases hbefore : before = []
    · subst hbefore
      simp [components_slash, body, parts, skipped]
    · rw [components_append_slash hbefore, components_append_slash hbefore]
      simp [body, parts, skipped]
  · rw [if_neg (by simp [hne, hlast])]
    exact components_append_slash hne t

/-! ### Stripping -/

/-- The parts that remain after the given components. -/
def strip : List (List Char) → List Component → Option (List (List Char))
  | ps, [] => some ps
  | [], _ :: _ => none
  | p :: ps, c :: cs =>
    if skipped p then strip ps (c :: cs)
    else if partComponent p = c then strip ps cs
    else none

/-- The text of parts, without the skipped ones at either end. -/
def unparse (ps : List (List Char)) : List Char :=
  ['/'].intercalate ((ps.dropWhile skipped).reverse.dropWhile skipped).reverse

/-- The text of a path below a base. -/
def stripPrefix (t base : List Char) : Option (List Char) :=
  match components base with
  | .rootDir :: cs => if isAbsolute t then (strip (parts t).tail cs).map unparse else none
  | .curDir :: cs =>
    if isAbsolute t = false ∧ (parts t).head? = some ['.'] then (strip (parts t).tail cs).map unparse
    else none
  | [] => some (['/'].intercalate ((parts t).reverse.dropWhile skipped).reverse)
  | cs =>
    if isAbsolute t ∨ (parts t).head? = some ['.'] then none
    else (strip (parts t) cs).map unparse

theorem strip_body {ps : List (List Char)} :
    ∀ {cs : List Component} {rest : List (List Char)}, strip ps cs = some rest →
      body ps = cs ++ body rest ∧ rest <:+ ps := by
  induction ps with
  | nil =>
    intro cs rest h
    cases cs with
    | nil =>
      cases h
      exact ⟨rfl, List.suffix_refl _⟩
    | cons c cs => cases h
  | cons p ps ih =>
    intro cs rest h
    cases cs with
    | nil =>
      cases h
      exact ⟨rfl, List.suffix_refl _⟩
    | cons c cs =>
      rw [strip] at h
      split at h
      · rename_i hskip
        obtain ⟨hbody, hsuffix⟩ := ih h
        refine ⟨?_, hsuffix.trans (List.suffix_cons p ps)⟩
        rw [← hbody]
        simp [body, hskip]
      · rename_i hkept
        split at h
        · rename_i hc
          obtain ⟨hbody, hsuffix⟩ := ih h
          refine ⟨?_, hsuffix.trans (List.suffix_cons p ps)⟩
          rw [List.cons_append, ← hbody, ← hc]
          simp [body, hkept]
        · cases h

theorem slash_not_mem_parts (t : List Char) : ∀ p ∈ parts t, '/' ∉ p := by
  induction t with
  | nil => simp [parts]
  | cons c rest ih =>
    intro p hp
    rw [parts, List.splitOn_cons_eq_if_modifyHead] at hp
    split at hp
    · rcases List.mem_cons.mp hp with rfl | hp
      · exact List.not_mem_nil
      · exact ih p hp
    · rename_i hc
      obtain ⟨first, tail, hfirst⟩ := List.exists_cons_of_ne_nil (List.splitOn_ne_nil '/' rest)
      have hold : ∀ p ∈ first :: tail, '/' ∉ p := by
        intro p hp
        exact ih p (by rw [parts, hfirst]; exact hp)
      rw [hfirst, List.modifyHead_cons] at hp
      rcases List.mem_cons.mp hp with rfl | hp
      · have hne : '/' ≠ c := by
          rintro rfl
          simp at hc
        simpa [hne] using hold first List.mem_cons_self
      · exact hold p (List.mem_cons_of_mem _ hp)

theorem body_dropWhile (ps : List (List Char)) : body (ps.dropWhile skipped) = body ps := by
  induction ps with
  | nil => rfl
  | cons p ps ih =>
    rw [List.dropWhile_cons]
    split
    · rename_i hskip
      rw [ih]
      simp [body, hskip]
    · rfl

theorem body_reverse (ps : List (List Char)) : body ps.reverse = (body ps).reverse := by
  simp [body, List.filter_reverse, List.map_reverse]

/-- The text of parts has their components. -/
theorem body_parts_unparse {ps : List (List Char)} (h : ∀ p ∈ ps, '/' ∉ p) :
    body (parts (unparse ps)) = body ps := by
  set trimmed := ((ps.dropWhile skipped).reverse.dropWhile skipped).reverse with htrimmed
  have hbody : body trimmed = body ps := by
    rw [htrimmed, body_reverse, body_dropWhile, body_reverse, List.reverse_reverse, body_dropWhile]
  by_cases hnil : trimmed = []
  · rw [unparse, ← htrimmed, ← hbody, hnil]
    simp [parts, body, skipped]
  · have hmem : ∀ p ∈ trimmed, '/' ∉ p := by
      intro p hp
      rw [htrimmed, List.mem_reverse] at hp
      have hdropped : p ∈ ps.dropWhile skipped :=
        List.mem_reverse.mp ((List.dropWhile_sublist skipped).mem hp)
      exact h p ((List.dropWhile_sublist skipped).mem hdropped)
    rw [unparse, ← htrimmed, parts, List.splitOn_intercalate _ hmem hnil, hbody]

/-- A path below an absolute base is the base followed by what is stripped off. -/
theorem components_of_stripPrefix {t base rest : List Char} (hbase : isAbsolute base = true)
    (h : stripPrefix t base = some rest) :
    components t = components base ++ body (parts rest) := by
  obtain ⟨c, base, rfl⟩ : ∃ c tail, base = c :: tail := by
    cases base with
    | nil => cases hbase
    | cons c tail => exact ⟨c, tail, rfl⟩
  obtain rfl : c = '/' := by simpa [isAbsolute] using hbase
  rw [stripPrefix, components_slash] at h
  simp only at h
  split at h
  · rename_i habs
    obtain ⟨left, hleft, rfl⟩ := Option.map_eq_some_iff.mp h
    obtain ⟨hbody, hsuffix⟩ := strip_body hleft
    have hslash : ∀ p ∈ left, '/' ∉ p := fun p hp =>
      slash_not_mem_parts t p (List.mem_of_mem_tail (hsuffix.mem hp))
    rw [body_parts_unparse hslash, components_slash, List.cons_append, ← hbody, components,
      if_pos habs]
  · cases h

theorem strip_nil (ps : List (List Char)) : strip ps [] = some ps := by
  cases ps <;> rfl

/-- Stripping a path's own components leaves what follows it, behind parts that are skipped. -/
theorem strip_parts (ps qs : List (List Char)) :
    ∃ zs, (∀ z ∈ zs, skipped z = true) ∧ strip (ps ++ qs) (body ps) = some (zs ++ qs) := by
  induction ps with
  | nil => exact ⟨[], by simp, strip_nil qs⟩
  | cons p ps ih =>
    obtain ⟨zs, hzs, hstrip⟩ := ih
    by_cases hp : skipped p = true
    · have hbody : body (p :: ps) = body ps := by simp [body, hp]
      rw [hbody]
      cases hcs : body ps with
      | nil =>
        -- no component is left: all the parts are skipped
        refine ⟨p :: ps, List.forall_mem_cons.mpr ⟨hp, ?_⟩, strip_nil _⟩
        rw [body, List.map_eq_nil_iff, List.filter_eq_nil_iff] at hcs
        simpa using hcs
      | cons c cs =>
        refine ⟨zs, hzs, ?_⟩
        rw [List.cons_append, strip, if_pos hp, ← hcs, hstrip]
    · have hbody : body (p :: ps) = partComponent p :: body ps := by simp [body, hp]
      exact ⟨zs, hzs, by rw [hbody, List.cons_append, strip, if_neg hp, if_pos rfl, hstrip]⟩

theorem unparse_append_skipped {zs : List (List Char)} (h : ∀ z ∈ zs, skipped z = true)
    (ps : List (List Char)) : unparse (zs ++ ps) = unparse ps := by
  rw [unparse, unparse, List.dropWhile_append_of_pos h]

/-- A relative path is what is stripped off the path joined to an absolute base. -/
theorem stripPrefix_join {base t : List Char} (hbase : isAbsolute base = true) (ht : isAbsolute t = false) :
    stripPrefix (join base t) base = some (unparse (parts t)) := by
  obtain ⟨rest, rfl⟩ : ∃ rest, base = '/' :: rest := by
    cases base with
    | nil => cases hbase
    | cons c rest => exact ⟨rest, by simpa [isAbsolute] using hbase⟩
  -- the parts of the base, then those of the path
  obtain ⟨ps, hcomponents, hparts⟩ : ∃ ps, components ('/' :: rest) = .rootDir :: body ps
      ∧ (parts (join ('/' :: rest) t)).tail = ps ++ parts t := by
    rw [join, if_neg (by simp [ht])]
    by_cases hlast : ('/' :: rest).getLast? = some '/'
    · obtain ⟨before, hbefore⟩ := List.getLast?_eq_some_iff.mp hlast
      refine ⟨(parts before).tail, ?_, ?_⟩
      · rw [components, if_pos hbase, hbefore, parts_append_slash]
        cases hbefore' : parts before with
        | nil => exact absurd hbefore' (List.splitOn_ne_nil '/' before)
        | cons first others => simp [parts, body, skipped]
      · rw [if_pos (.inr hlast), hbefore, List.append_assoc, List.singleton_append, parts_append_slash]
        exact List.tail_append_of_ne_nil (List.splitOn_ne_nil '/' before)
    · refine ⟨(parts ('/' :: rest)).tail, by rw [components, if_pos hbase], ?_⟩
      rw [if_neg (by simp [hlast]), parts_append_slash]
      exact List.tail_append_of_ne_nil (List.splitOn_ne_nil '/' _)
  have habsolute : isAbsolute (join ('/' :: rest) t) = true := by
    rw [join, if_neg (by simp [ht])]
    split_ifs <;> rfl
  obtain ⟨zs, hzs, hstrip⟩ := strip_parts ps (parts t)
  rw [stripPrefix, hcomponents]
  simp only
  rw [if_pos habsolute, hparts, hstrip, Option.map_some, unparse_append_skipped hzs]

/-- A leading `./` does not change what a relative path is below a base. -/
theorem unparse_dot (t : List Char) : unparse (parts ('.' :: '/' :: t)) = unparse (parts t) := by
  have hparts : parts ('.' :: '/' :: t) = [['.']] ++ parts t := parts_append_slash ['.'] t
  rw [hparts, unparse_append_skipped (by simp [skipped])]

/-! ### Parents as texts -/

/-- Parts without the skipped ones at the end. -/
def trimEnd (ps : List (List Char)) : List (List Char) := (ps.reverse.dropWhile skipped).reverse

/-- The text of a path without its last component. -/
def parentText (t : List Char) : Option (List Char) :=
  if isAbsolute t then
    if trimEnd (parts t).tail = [] then none
    else some ('/' :: ['/'].intercalate (trimEnd (trimEnd (parts t).tail).dropLast))
  else if (parts t).head? = some ['.'] then
    if trimEnd (parts t).tail = [] then some []
    else some (['/'].intercalate (['.'] :: trimEnd (trimEnd (parts t).tail).dropLast))
  else if trimEnd (parts t) = [] then none
  else some (['/'].intercalate (trimEnd (trimEnd (parts t)).dropLast))

theorem body_trimEnd (ps : List (List Char)) : body (trimEnd ps) = body ps := by
  rw [trimEnd, body_reverse, body_dropWhile, body_reverse, List.reverse_reverse]

theorem trimEnd_begins (ps : List (List Char)) : trimEnd ps <+: ps := by
  rw [trimEnd, ← List.reverse_suffix, List.reverse_reverse]
  exact List.dropWhile_suffix _

/-- The last of the trimmed parts is a component. -/
theorem body_dropLast {ps : List (List Char)} (h : trimEnd ps ≠ []) :
    ∃ last, partComponent last ≠ .rootDir ∧ body ps = body (trimEnd ps).dropLast ++ [partComponent last] := by
  obtain ⟨init, last, heq⟩ := List.eq_nil_or_concat (trimEnd ps) |>.resolve_left h
  have hlast : skipped last = false := by
    have hhead := List.head?_dropWhile_not skipped ps.reverse
    have hreverse : ps.reverse.dropWhile skipped = last :: init.reverse := by
      rw [← List.reverse_reverse (ps.reverse.dropWhile skipped), ← trimEnd, heq, List.concat_eq_append,
        List.reverse_append]
      rfl
    rw [hreverse] at hhead
    simpa using hhead
  refine ⟨last, ?_, ?_⟩
  · unfold partComponent
    split_ifs <;> exact Component.noConfusion
  · rw [← body_trimEnd ps, heq, List.concat_eq_append, List.dropLast_concat, body_append]
    simp [body, hlast]

/-- The components of a text put together from parts. -/
theorem components_intercalate {ps : List (List Char)} (h : ∀ p ∈ ps, '/' ∉ p) (hfirst : ps.head? ≠ some []) :
    components (['/'].intercalate ps)
      = if ps.head? = some ['.'] then .curDir :: body ps else body ps := by
  cases ps with
  | nil => simp [components, isAbsolute, parts, body, skipped]
  | cons first rest =>
    have hparts : parts (['/'].intercalate (first :: rest)) = first :: rest :=
      List.splitOn_intercalate '/' h (List.cons_ne_nil _ _)
    obtain ⟨c, name, rfl⟩ := List.exists_cons_of_ne_nil (fun heq : first = [] => hfirst (by rw [heq]; rfl))
    have hrelative : isAbsolute (['/'].intercalate ((c :: name) :: rest)) = false := by
      have hc : c ≠ '/' := fun heq => h _ List.mem_cons_self (heq ▸ List.mem_cons_self)
      cases rest <;> simp [isAbsolute, List.intercalate, List.intersperse, hc]
    rw [components, hrelative, if_neg Bool.false_ne_true, hparts]

theorem parent_concat {c : Component} (h : c ≠ .rootDir) (cs : List Component) :
    parent (cs ++ [c]) = some cs := by
  rw [parent, List.getLast?_concat]
  cases c with
  | rootDir => exact absurd rfl h
  | curDir | parentDir | normal => simp

/-- Only an absolute or empty path begins with an empty part. -/
theorem head_parts_ne {t : List Char} (ht : isAbsolute t = false) (hne : t ≠ []) :
    (parts t).head? ≠ some [] := by
  intro hhead
  obtain ⟨rest, hrest⟩ := List.head?_eq_some_iff.mp hhead
  have htext : ['/'].intercalate (parts t) = t := List.intercalate_splitOn '/'
  rw [hrest] at htext
  cases rest with
  | nil => exact hne htext.symm
  | cons first others =>
    rw [← htext] at ht
    simp [isAbsolute, List.intercalate, List.intersperse] at ht

theorem head?_of_prefix {ps qs : List (List Char)} (h : ps <+: qs) {first : List Char}
    (hfirst : ps.head? = some first) : qs.head? = some first := by
  obtain ⟨more, rfl⟩ := h
  cases ps with
  | nil => cases hfirst
  | cons p rest => exact hfirst

/-- The text of the parent has the parent's components. -/
theorem components_parentText {t p : List Char} (h : parentText t = some p) :
    parent (components t) = some (components p) := by
  have hslash := slash_not_mem_parts t
  -- the parts of the parent are the first ones of the path
  have hkept : ∀ ps, trimEnd (trimEnd ps).dropLast <+: ps := fun ps =>
    (trimEnd_begins _).trans ((List.dropLast_prefix _).trans (trimEnd_begins ps))
  rw [parentText] at h
  split_ifs at h with habsolute hnil hdot hnil hnil
  · -- below the root
    cases h
    obtain ⟨last, hlast, hbody⟩ := body_dropLast hnil
    rw [components, if_pos habsolute, hbody, ← List.cons_append, parent_concat hlast, components_slash]
    congr 2
    by_cases hempty : trimEnd (trimEnd (parts t).tail).dropLast = []
    · rw [hempty, ← body_trimEnd, hempty]
      simp [parts, body, skipped]
    · have hmem : ∀ q ∈ trimEnd (trimEnd (parts t).tail).dropLast, '/' ∉ q := fun q hq =>
        hslash q (List.mem_of_mem_tail ((hkept _).subset hq))
      have hparts : parts (['/'].intercalate (trimEnd (trimEnd (parts t).tail).dropLast)) = _ :=
        List.splitOn_intercalate '/' hmem hempty
      rw [hparts, body_trimEnd]
  · -- the working directory itself
    cases h
    rw [components, if_neg habsolute, if_pos hdot]
    obtain ⟨rest, hrest⟩ := List.head?_eq_some_iff.mp hdot
    rw [hrest, List.tail_cons] at hnil
    rw [hrest, body_dot_cons, ← body_trimEnd, hnil]
    rfl
  · -- below the working directory
    cases h
    obtain ⟨rest, hrest⟩ := List.head?_eq_some_iff.mp hdot
    obtain ⟨last, hlast, hbody⟩ := body_dropLast hnil
    rw [components, if_neg habsolute, if_pos hdot, components_intercalate]
    · rw [List.head?_cons, if_pos rfl, body_dot_cons, body_trimEnd]
      rw [hrest, List.tail_cons] at hbody ⊢
      rw [body_dot_cons, hbody, ← List.cons_append, parent_concat hlast]
    · refine List.forall_mem_cons.mpr ⟨by decide, fun q hq => ?_⟩
      exact hslash q (List.mem_of_mem_tail ((hkept _).subset hq))
    · simp
  · cases h
    obtain ⟨last, hlast, hbody⟩ := body_dropLast hnil
    have hne : t ≠ [] := by
      rintro rfl
      exact hnil (by simp [trimEnd, parts, skipped])
    have hfirst : ∀ first, (trimEnd (trimEnd (parts t)).dropLast).head? = some first →
        first ≠ [] ∧ first ≠ ['.'] := by
      intro first hhead
      have hparts := head?_of_prefix (hkept _) hhead
      refine ⟨?_, ?_⟩
      · rintro rfl
        exact head_parts_ne (by simpa using habsolute) hne hparts
      · rintro rfl
        exact hdot hparts
    rw [components, if_neg habsolute, if_neg hdot, components_intercalate, hbody, parent_concat hlast,
      body_trimEnd, if_neg fun hhead => (hfirst _ hhead).2 rfl]
    · exact fun q hq => hslash q ((hkept _).subset hq)
    · exact fun hhead => (hfirst _ hhead).1 rfl

/-- The root directory and the empty path have no parent text either. -/
theorem parent_of_parentText {t : List Char} (h : parentText t = none) : parent (components t) = none := by
  rw [parentText] at h
  split_ifs at h with habsolute hnil hdot _ hnil
  · rw [components, if_pos habsolute, ← body_trimEnd, hnil]
    rfl
  · rw [components, if_neg habsolute, if_neg hdot, ← body_trimEnd, hnil]
    rfl

/-- A parent with a text has a component. -/
theorem components_ne_nil_of_parentText {t p : List Char} (h : parentText t = some p) (hp : p ≠ []) :
    components p ≠ [] := by
  have hcomponents := components_parentText h
  rw [parentText] at h
  split_ifs at h with habsolute hnil hdot hnil hnil
  · cases h
    simp [components_slash]
  · cases h
    exact absurd rfl hp
  · cases h
    rw [components_intercalate]
    · simp
    · refine List.forall_mem_cons.mpr ⟨by decide, fun q hq => slash_not_mem_parts t q (List.mem_of_mem_tail ?_)⟩
      exact (trimEnd_begins _).subset ((List.dropLast_prefix _).subset ((trimEnd_begins _).subset hq))
    · simp
  · cases h
    intro hempty
    obtain ⟨last, hlast, hbody⟩ := body_dropLast hnil
    rw [hempty, components, if_neg habsolute, if_neg hdot, hbody, parent_concat hlast, Option.some.injEq]
      at hcomponents
    refine hp ?_
    by_cases hkept : trimEnd (trimEnd (parts t)).dropLast = []
    · rw [hkept]
      rfl
    · obtain ⟨other, -, hother⟩ := body_dropLast hkept
      rw [hother] at hcomponents
      simp at hcomponents

end UnixPath
