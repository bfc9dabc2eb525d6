import Mathlib.Algebra.Order.Ring.Int
import Funzzy.Prepare
import Funzzy.Lib.Marks

/-! What templates mean (`template.rs`).

    `substitute` is what expanding a command is for: every token with a known name becomes its value, and
    everything else stays as it is written. `expandCommand` cuts the command at its opening marks and each
    part at its closing ones instead. The two agree when the marks of the command pair up (`PairedMarks`). An
    opening mark without a closing one is lost, so is what stands behind a second closing mark, and a
    closing mark before the first opening one makes a name of the text before it.

    A relative path is the path behind the working directory (`relativeTo`). The code removes the working
    directory wherever it occurs. -/

namespace Funzzy

/-! ### Splitting -/

section Splitting

variable {sep : List Char}

/-- What has been read goes in front of the first part. -/
theorem flatten_splitText (sep : List Char) (text : List Char) : ∀ skip acc,
    (splitText sep skip text acc).flatten = acc.reverse ++ (splitText sep skip text []).flatten := by
  induction text with
  | nil =>
    intro skip acc
    simp [splitText]
  | cons c rest ih =>
    intro skip acc
    cases skip with
    | succ skip => exact ih skip acc
    | zero =>
      rw [splitText, splitText]
      split
      · simp
      · rw [ih 0 (c :: acc), ih 0 [c]]
        simp

theorem splitText_skip (sep skipped text : List Char) (acc : List Char) :
    splitText sep skipped.length (skipped ++ text) acc = splitText sep 0 text acc := by
  induction skipped with
  | nil => rfl
  | cons c skipped ih => exact ih

/-- The parts of a text, joined: its occurrences of the separator are gone. -/
def removeAll (sep text : List Char) : List Char := (splitText sep 0 text []).flatten

/-- A leading occurrence goes. -/
theorem removeAll_append (hsep : sep ≠ []) (text : List Char) :
    removeAll sep (sep ++ text) = removeAll sep text := by
  obtain ⟨c, sep, rfl⟩ := List.exists_cons_of_ne_nil hsep
  have hstart : c :: sep <+: c :: (sep ++ text) := List.prefix_append (c :: sep) text
  rw [removeAll, List.cons_append, splitText, if_pos hstart, List.length_cons, Nat.add_sub_cancel,
    splitText_skip]
  rfl

/-- Any other character stays. -/
theorem removeAll_cons {c : Char} {text : List Char} (h : ¬ sep <+: c :: text) :
    removeAll sep (c :: text) = c :: removeAll sep text := by
  rw [removeAll, splitText, if_neg h, flatten_splitText]
  rfl

/-- Removing the occurrences of a separator leaves a text as it is exactly when there are none. -/
theorem removeAll_length (hsep : sep ≠ []) (text : List Char) :
    (removeAll sep text).length ≤ text.length ∧ (sep <:+: text → (removeAll sep text).length < text.length) := by
  induction hlen : text.length using Nat.strong_induction_on generalizing text with
  | h n ih =>
    subst hlen
    have hpos : 0 < sep.length := List.length_pos_iff.mpr hsep
    by_cases hstart : sep <+: text
    · obtain ⟨rest, rfl⟩ := hstart
      have hrest := (ih rest.length (by simp [hpos]) rest rfl).1
      rw [removeAll_append hsep, List.length_append]
      exact ⟨by omega, fun _ => by omega⟩
    · cases text with
      | nil =>
        refine ⟨Nat.le_refl _, fun h => ?_⟩
        exact absurd (List.eq_nil_of_infix_nil h) hsep
      | cons c text =>
        obtain ⟨hle, hlt⟩ := ih text.length (Nat.lt_succ_self _) text rfl
        rw [removeAll_cons hstart, List.length_cons, List.length_cons]
        refine ⟨Nat.succ_le_succ hle, fun h => ?_⟩
        rcases List.infix_cons_iff.mp h with hstart' | hrest
        · exact absurd hstart' hstart
        · exact Nat.succ_lt_succ (hlt hrest)

theorem removeAll_eq_iff (hsep : sep ≠ []) (text : List Char) :
    removeAll sep text = text ↔ ¬ sep <:+: text := by
  constructor
  · intro h hinfix
    have hlt := (removeAll_length hsep text).2 hinfix
    rw [h] at hlt
    exact Nat.lt_irrefl _ hlt
  · induction text with
    | nil => exact fun _ => rfl
    | cons c text ih =>
      intro h
      rw [List.infix_cons_iff, not_or] at h
      rw [removeAll_cons h.1, ih h.2]

/-- At a mark, splitting finds the parts of the text. -/
theorem splitText_mark (mark : Char) (text : List Char) : ∀ acc,
    ∃ first others, Marks.parts mark text = first :: others ∧
      splitText [mark, mark] 0 text acc = (acc.reverse ++ first) :: others := by
  induction text using Marks.parts.induct mark with
  | case1 =>
    intro acc
    exact ⟨[], [], rfl, by simp [splitText]⟩
  | case2 a =>
    intro acc
    refine ⟨[a], [], rfl, ?_⟩
    have hshort : ¬ [mark, mark] <+: [a] := fun h => absurd h.length_le (by simp)
    rw [splitText, if_neg hshort]
    simp [splitText]
  | case3 a b rest hmark ih =>
    intro acc
    obtain ⟨rfl, rfl⟩ := hmark
    obtain ⟨first, others, hparts, hsplit⟩ := ih []
    refine ⟨[], first :: others, ?_, ?_⟩
    · rw [Marks.parts_mark, hparts]
    · rw [splitText, if_pos ⟨rest, rfl⟩]
      change acc.reverse :: splitText [b, b] 0 rest [] = _
      rw [hsplit]
      simp
  | case4 a b rest hmark ih =>
    intro acc
    obtain ⟨first, others, hparts, hsplit⟩ := ih (a :: acc)
    refine ⟨a :: first, others, ?_, ?_⟩
    · rw [Marks.parts, if_neg hmark, hparts]
      rfl
    · have hstart : ¬ [mark, mark] <+: a :: b :: rest := by
        rintro ⟨tail, h⟩
        cases h
        exact hmark ⟨rfl, rfl⟩
      rw [splitText, if_neg hstart, hsplit]
      simp

theorem splitText_eq_parts (mark : Char) (text : List Char) :
    splitText [mark, mark] 0 text [] = Marks.parts mark text := by
  obtain ⟨first, others, hparts, hsplit⟩ := splitText_mark mark text []
  rw [hsplit, hparts]
  rfl

end Splitting

/-! ### Substitution -/

/-- The tokens of a command and the characters between them. -/
def commandPieces (command : String) : List (Marks.Piece Char) :=
  Marks.pieces '\x7b' '\x7d' 0 command.toList

/-- What a piece of a command becomes. -/
def TemplateOptions.render (opts : TemplateOptions) : Marks.Piece Char → List Char
  | .plain c => [c]
  | .token name =>
    match opts.value? (trim name) with
    | some value => value
    | none => openMark ++ name ++ closeMark

/-- The name of an unknown token. -/
def TemplateOptions.report (opts : TemplateOptions) : Marks.Piece Char → Option String
  | .plain _ => none
  | .token name => if (opts.value? (trim name)).isNone then some (String.ofList (trim name)) else none

/-- The command with the values of its tokens in their place, and the names that are unknown. -/
def TemplateOptions.substitute (opts : TemplateOptions) (command : String) : String × List String :=
  (String.ofList ((commandPieces command).flatMap opts.render), (commandPieces command).filterMap opts.report)

/-- Without a known token nothing changes. -/
theorem TemplateOptions.substitute_unknown (opts : TemplateOptions) {command : String}
    (h : ∀ name, .token name ∈ commandPieces command → opts.value? (trim name) = none) :
    (opts.substitute command).1 = command := by
  have hrender : ∀ piece ∈ commandPieces command, opts.render piece = piece.verbatim '\x7b' '\x7d' := by
    intro piece hmem
    cases piece with
    | plain c => rfl
    | token name =>
      rw [TemplateOptions.render, h name hmem]
      rfl
  rw [TemplateOptions.substitute, List.flatMap_congr hrender, commandPieces,
    Marks.verbatim_pieces (by decide), List.drop_zero, String.ofList_toList]

/-- A part behind an opening mark that holds its token and nothing that could be taken for another mark. -/
def PairedPart (part : List Char) : Prop :=
  (Marks.parts '\x7d' part).length = 2 ∧ part.head? ≠ some '\x7b'

/-- The marks of a command pair up: if it has opening ones, no closing mark comes before the first of
    them, and one closing mark and no other brace right away comes behind each. -/
def PairedMarks (command : String) : Prop :=
  openMark <:+: command.toList →
    ∀ first others, Marks.parts '\x7b' command.toList = first :: others →
      ¬ closeMark <:+: first ∧ ∀ part ∈ others, PairedPart part

/-! ### One part -/

section Part

variable {opts : TemplateOptions} {part : List Char}

/-- Expanding a part by what stands before its first closing mark. -/
theorem TemplateOptions.expandPart_eq (opts : TemplateOptions) (part : List Char) :
    opts.expandPart part = match Marks.parts '\x7d' part with
      | name :: rest :: _ =>
        (opts.render (.token name) ++ rest, (opts.report (.token name)).toList)
      | _ => (part, []) := by
  rw [TemplateOptions.expandPart, closeMark, splitText_eq_parts]
  obtain ⟨name, others, hparts⟩ := Marks.exists_parts '\x7d' part
  rw [hparts]
  cases others with
  | nil => rfl
  | cons rest others =>
    simp only [TemplateOptions.render, TemplateOptions.report]
    cases opts.value? (trim name) <;> rfl

theorem flatMap_render_plain (opts : TemplateOptions) (text : List Char) :
    (text.map Marks.Piece.plain).flatMap opts.render = text := by
  induction text with
  | nil => rfl
  | cons c text ih => exact congrArg (c :: ·) ih

theorem filterMap_report_plain (opts : TemplateOptions) (text : List Char) :
    (text.map Marks.Piece.plain).filterMap opts.report = [] := by
  induction text with
  | nil => rfl
  | cons c text ih => exact ih

/-- What the pieces of a part become, and their unknown names. -/
def TemplateOptions.substitutePart (opts : TemplateOptions) (part : List Char) : List Char × List String :=
  ((Marks.piecesOfPart '\x7b' '\x7d' part).flatMap opts.render,
    (Marks.piecesOfPart '\x7b' '\x7d' part).filterMap opts.report)

/-- A part without a closing mark gets its opening mark back. -/
theorem TemplateOptions.substitutePart_plain (opts : TemplateOptions)
    (h : Marks.cut '\x7d' part = none) : opts.substitutePart part = (openMark ++ part, []) := by
  rw [TemplateOptions.substitutePart, Marks.piecesOfPart, h]
  exact congrArg₂ Prod.mk (congrArg (openMark ++ ·) (flatMap_render_plain opts part))
    (filterMap_report_plain opts part)

/-- A part whose token begins right behind the mark. -/
theorem TemplateOptions.substitutePart_token (opts : TemplateOptions) {name rest : List Char}
    (h : Marks.cut '\x7d' part = some (name, rest)) (hname : name.head? ≠ some '\x7b') :
    opts.substitutePart part = (opts.render (.token name) ++ rest, (opts.report (.token name)).toList) := by
  rw [TemplateOptions.substitutePart, Marks.piecesOfPart, h]
  simp only [if_neg hname, List.cons_append, List.nil_append, List.flatMap_cons, flatMap_render_plain]
  rw [List.filterMap_cons, filterMap_report_plain]
  cases opts.report (.token name) <;> rfl

/-- A part whose token begins one brace further on. -/
theorem TemplateOptions.substitutePart_shifted (opts : TemplateOptions) {name rest : List Char}
    (h : Marks.cut '\x7d' part = some ('\x7b' :: name, rest)) :
    opts.substitutePart part
      = ('\x7b' :: (opts.render (.token name) ++ rest), (opts.report (.token name)).toList) := by
  rw [TemplateOptions.substitutePart, Marks.piecesOfPart, h]
  simp only [List.head?_cons, if_true, List.tail_cons, List.cons_append, List.nil_append,
    List.flatMap_cons, flatMap_render_plain, List.filterMap_cons, filterMap_report_plain]
  refine Prod.ext rfl ?_
  cases opts.report (.token name) <;> simp [TemplateOptions.report]

/-- A paired part expands to what its pieces become. -/
theorem TemplateOptions.expandPart_paired (opts : TemplateOptions) (h : PairedPart part) :
    opts.expandPart part = opts.substitutePart part := by
  obtain ⟨hlen, hhead⟩ := h
  obtain ⟨name, rest, hparts⟩ := List.length_eq_two.mp hlen
  have hcut : Marks.cut '\x7d' part = some (name, rest) := by
    rw [Marks.cut, hparts]
    rfl
  have hname : name.head? ≠ some '\x7b' := by
    rw [Marks.eq_of_cut hcut] at hhead
    cases name with
    | nil => exact fun h => by cases h
    | cons c name => exact hhead
  rw [TemplateOptions.expandPart_eq, hparts, opts.substitutePart_token hcut hname]

/-- A part without a closing mark stays as it is. -/
theorem TemplateOptions.expandPart_plain (opts : TemplateOptions) (h : ¬ closeMark <:+: part) :
    opts.expandPart part = (part, []) := by
  rw [TemplateOptions.expandPart_eq, Marks.parts_eq_singleton_iff.mpr h]

end Part

/-! ### The whole command -/

section Command

variable {opts : TemplateOptions} {command : String} {first : List Char} {others : List (List Char)}

/-- Expanding a command that has an opening mark, part by part. -/
theorem TemplateOptions.expandCommand_eq (opts : TemplateOptions) (hmark : openMark <:+: command.toList)
    (hparts : Marks.parts '\x7b' command.toList = first :: others) :
    opts.expandCommand command =
      (String.ofList ((opts.expandPart first).1 ++ others.flatMap fun part => (opts.expandPart part).1),
        (opts.expandPart first).2 ++ others.flatMap fun part => (opts.expandPart part).2) := by
  rw [TemplateOptions.expandCommand, if_pos hmark, openMark, splitText_eq_parts, hparts]
  simp [List.flatMap_map]

/-- Substituting part by part. -/
theorem TemplateOptions.substitute_eq (opts : TemplateOptions)
    (hparts : Marks.parts '\x7b' command.toList = first :: others) :
    opts.substitute command =
      (String.ofList (first ++ others.flatMap fun part => (opts.substitutePart part).1),
        others.flatMap fun part => (opts.substitutePart part).2) := by
  rw [TemplateOptions.substitute, commandPieces, Marks.pieces_eq (by decide) command.toList hparts]
  rw [List.flatMap_append, flatMap_render_plain, List.filterMap_append, filterMap_report_plain]
  rw [List.flatMap_assoc, List.filterMap_flatMap]
  rfl

/-- Where the marks pair up, expanding substitutes. -/
theorem TemplateOptions.expandCommand_paired (opts : TemplateOptions) (h : PairedMarks command) :
    opts.expandCommand command = opts.substitute command := by
  by_cases hmark : openMark <:+: command.toList
  · obtain ⟨first, others, hparts⟩ := Marks.exists_parts '\x7b' command.toList
    obtain ⟨hfirst, hothers⟩ := h hmark first others hparts
    rw [opts.expandCommand_eq hmark hparts, opts.substitute_eq hparts, opts.expandPart_plain hfirst]
    rw [List.flatMap_congr fun part hmem => congrArg Prod.fst (opts.expandPart_paired (hothers part hmem)),
      List.flatMap_congr fun part hmem => congrArg Prod.snd (opts.expandPart_paired (hothers part hmem))]
    rfl
  · have hparts := Marks.parts_eq_singleton_iff.mpr hmark
    rw [TemplateOptions.expandCommand, if_neg hmark, opts.substitute_eq hparts]
    simp

end Command

/-! ### Where the marks do not pair up -/

section Telling

/-- Values that are long and begin with a character no variable's name begins with. -/
def loud (n : Nat) : TemplateOptions :=
  let path := String.ofList (List.replicate (n + 1) 'x')
  { filepath := some path, paths := [path], currentDir := "" }

theorem loud_relative (n : Nat) :
    removeAll (("" : String).toList ++ ['/']) (List.replicate (n + 1) 'x') = List.replicate (n + 1) 'x' := by
  rw [removeAll_eq_iff (by simp)]
  rintro ⟨before, behind, h⟩
  have hmem : '/' ∈ List.replicate (n + 1) 'x' := by
    rw [← h]
    simp
  exact absurd (List.eq_of_mem_replicate hmem) (by decide)

/-- A quoted path is no shorter than the path. -/
theorem length_le_shellEscape (path : List Char) : path.length ≤ (shellEscape path).length := by
  rw [shellEscape, List.length_append, List.length_cons, List.length_flatMap]
  have h : path.length ≤ (path.map fun c =>
      (if c = '\x27' then ['\x27', '\\', '\x27', '\x27'] else [c]).length).sum := by
    induction path with
    | nil => exact Nat.le_refl _
    | cons c path ih =>
      rw [List.map_cons, List.sum_cons, List.length_cons]
      split <;> simp <;> omega
  omega

/-- What a known name begins with, how long its loud value is and what that begins with. -/
theorem loud_value {n : Nat} {name value : List Char} (h : (loud n).value? name = some value) :
    (∃ c ∈ ['f', 'a', 'r', 'p'], name.head? = some c) ∧ n < value.length ∧
      ∃ c ∈ ['x', '\x27'], value.head? = some c := by
  have hpath : ((loud n).filepath.getD "").toList = List.replicate (n + 1) 'x' := by
    simp [loud]
  have hrelative : (splitText ((loud n).currentDir.toList ++ ['/']) 0 (List.replicate (n + 1) 'x') []).flatten
      = List.replicate (n + 1) 'x' := loud_relative n
  rw [TemplateOptions.value?, hpath] at h
  split at h
  · rename_i hname
    cases h
    refine ⟨?_, by simp, 'x', by decide, rfl⟩
    rcases hname with rfl | rfl
    · exact ⟨'f', by decide, rfl⟩
    · exact ⟨'a', by decide, rfl⟩
  split at h
  · rename_i hname
    cases h
    simp only [hrelative]
    refine ⟨?_, by simp, 'x', by decide, rfl⟩
    rcases hname with rfl | rfl <;> exact ⟨'r', by decide, rfl⟩
  split at h
  · rename_i hname
    cases h
    subst hname
    refine ⟨⟨'p', by decide, rfl⟩, ?_, '\x27', by decide, rfl⟩
    have h := length_le_shellEscape (List.replicate (n + 1) 'x')
    simp only [List.length_replicate] at h
    simpa [renderPaths, loud] using Nat.lt_of_succ_le h
  · cases h

theorem dropWhile_append_of_not {p : Char → Bool} {c : Char} (hc : p c = false) (text : List Char) :
    ∃ rest, (text ++ [c]).dropWhile p = rest ++ [c] := by
  induction text with
  | nil => exact ⟨[], by simp [hc]⟩
  | cons a text ih =>
    rw [List.cons_append, List.dropWhile_cons]
    split
    · exact ih
    · exact ⟨a :: text, rfl⟩

/-- Trimming keeps a first character that is no space. -/
theorem head?_trim {c : Char} {text : List Char} (hc : isSpace c = false) (h : text.head? = some c) :
    (trim text).head? = some c := by
  obtain ⟨text, rfl⟩ := Marks.exists_tail h
  obtain ⟨rest, hrest⟩ := dropWhile_append_of_not hc text.reverse
  rw [trim, List.dropWhile_cons_of_neg (by simp [hc]), List.reverse_cons, hrest]
  simp

/-- A name that begins with a brace is no variable's. -/
theorem loud_brace (n : Nat) (name : List Char) : (loud n).value? (trim ('\x7b' :: name)) = none := by
  cases h : (loud n).value? (trim ('\x7b' :: name)) with
  | none => rfl
  | some value =>
    obtain ⟨⟨c, hc, hhead⟩, -⟩ := loud_value h
    rw [head?_trim (by decide) rfl] at hhead
    cases hhead
    exact absurd hc (by decide)

/-- The braces in the names that are reported. -/
def braces (reports : List String) : Nat := (reports.map fun report => report.toList.count '\x7b').sum

theorem count_dropWhile (text : List Char) : (text.dropWhile isSpace).count '\x7b' = text.count '\x7b' := by
  induction text with
  | nil => rfl
  | cons c text ih =>
    rw [List.dropWhile_cons]
    split
    · rename_i hspace
      have hc : c ≠ '\x7b' := by
        rintro rfl
        exact absurd hspace (by decide)
      rw [ih, List.count_cons_of_ne hc]
    · rfl

/-- Trimming takes no brace away. -/
theorem count_trim (text : List Char) : (trim text).count '\x7b' = text.count '\x7b' := by
  rw [trim, List.count_reverse, count_dropWhile, List.count_reverse, count_dropWhile]

/-- With loud values a part loses text or reports a name with a brace too many, and does so unless it is
    paired. -/
theorem expandPart_weight {n : Nat} {part : List Char} (hn : part.length + 3 ≤ n) :
    let code := (loud n).expandPart part
    let rule := (loud n).substitutePart part
    code.1.length + braces rule.2 ≤ rule.1.length + braces code.2 ∧
      (¬ PairedPart part → code.1.length + braces rule.2 < rule.1.length + braces code.2) := by
  intro code rule
  cases hcut : Marks.cut '\x7d' part with
  | none =>
    have hcode : code = (part, []) :=
      (loud n).expandPart_plain (Marks.parts_eq_singleton_iff.mp (Marks.cut_eq_none_iff.mp hcut))
    have hrule : rule = (openMark ++ part, []) := (loud n).substitutePart_plain hcut
    rw [hcode, hrule]
    simp only [openMark, List.length_append, List.length_cons, List.length_nil]
    omega
  | some found =>
    obtain ⟨name, behind⟩ := found
    obtain ⟨rest, others, hparts, hbehind⟩ := Marks.exists_of_cut hcut
    obtain ⟨hle, hlt⟩ := Marks.length_le_join '\x7d' rest others
    have hpart := congrArg List.length (Marks.eq_of_cut hcut)
    rw [← hbehind] at hle hlt
    rw [List.length_append, List.length_cons, List.length_cons] at hpart
    have hcode : code = ((loud n).render (.token name) ++ rest, ((loud n).report (.token name)).toList) := by
      have h := (loud n).expandPart_eq part
      rw [hparts] at h
      exact h
    by_cases hname : name.head? = some '\x7b'
    · obtain ⟨name, rfl⟩ := Marks.exists_tail hname
      have hrule : rule = ('\x7b' :: ((loud n).render (.token name) ++ behind),
          ((loud n).report (.token name)).toList) := (loud n).substitutePart_shifted hcut
      rw [hcode, hrule]
      simp only [TemplateOptions.render, TemplateOptions.report, loud_brace]
      cases hvalue : (loud n).value? (trim name) with
      | some value =>
        have hlong := (loud_value hvalue).2.1
        simp [braces, openMark, closeMark] at hpart ⊢
        omega
      | none =>
        simp [braces, openMark, closeMark, count_trim] at hpart ⊢
        omega
    · have hrule : rule = ((loud n).render (.token name) ++ behind,
          ((loud n).report (.token name)).toList) := (loud n).substitutePart_token hcut hname
      rw [hcode, hrule]
      simp only [List.length_append]
      refine ⟨by omega, fun hodd => ?_⟩
      have hothers : others ≠ [] := by
        rintro rfl
        apply hodd
        refine ⟨by rw [hparts]; rfl, ?_⟩
        rw [Marks.eq_of_cut hcut]
        cases name with
        | nil => exact fun h => nomatch h
        | cons c name => exact hname
      have := hlt hothers
      omega

theorem braces_append (reports more : List String) : braces (reports ++ more) = braces reports + braces more := by
  simp [braces]

/-- So it is with the parts of a command together. -/
theorem expandPart_weights {n : Nat} {parts : List (List Char)} (hn : ∀ part ∈ parts, part.length + 3 ≤ n) :
    let code := (parts.flatMap fun part => ((loud n).expandPart part).1).length
      + braces (parts.flatMap fun part => ((loud n).substitutePart part).2)
    let rule := (parts.flatMap fun part => ((loud n).substitutePart part).1).length
      + braces (parts.flatMap fun part => ((loud n).expandPart part).2)
    code ≤ rule ∧ ((∃ part ∈ parts, ¬ PairedPart part) → code < rule) := by
  induction parts with
  | nil =>
    refine ⟨Nat.le_refl _, ?_⟩
    rintro ⟨part, hmem, -⟩
    cases hmem
  | cons part parts ih =>
    obtain ⟨hle, hlt⟩ := expandPart_weight (hn part List.mem_cons_self)
    obtain ⟨hle', hlt'⟩ := ih fun part hmem => hn part (List.mem_cons_of_mem _ hmem)
    simp only [List.flatMap_cons, List.length_append, braces_append]
    refine ⟨by omega, ?_⟩
    rintro ⟨odd, hmem, hodd⟩
    rcases List.mem_cons.mp hmem with rfl | hmem
    · have := hlt hodd
      omega
    · have := hlt' ⟨odd, hmem, hodd⟩
      omega

/-- A part reports at least as many names as its pieces do. -/
theorem length_reports_le (n : Nat) (part : List Char) :
    ((loud n).substitutePart part).2.length ≤ ((loud n).expandPart part).2.length := by
  cases hcut : Marks.cut '\x7d' part with
  | none =>
    rw [(loud n).substitutePart_plain hcut]
    exact Nat.zero_le _
  | some found =>
    obtain ⟨name, behind⟩ := found
    obtain ⟨rest, others, hparts, -⟩ := Marks.exists_of_cut hcut
    rw [(loud n).expandPart_eq, hparts]
    by_cases hname : name.head? = some '\x7b'
    · obtain ⟨name, rfl⟩ := Marks.exists_tail hname
      rw [(loud n).substitutePart_shifted hcut]
      simp only [TemplateOptions.report, loud_brace, Option.isNone_none, if_true, Option.toList_some]
      split <;> simp
    · rw [(loud n).substitutePart_token hcut hname]

theorem length_flatMap_reports_le (n : Nat) (parts : List (List Char)) :
    (parts.flatMap fun part => ((loud n).substitutePart part).2).length
      ≤ (parts.flatMap fun part => ((loud n).expandPart part).2).length := by
  induction parts with
  | nil => exact Nat.le_refl _
  | cons part parts ih =>
    rw [List.flatMap_cons, List.flatMap_cons, List.length_append, List.length_append]
    exact Nat.add_le_add (length_reports_le n part) ih

variable {command : String} {first : List Char} {others : List (List Char)}

/-- A closing mark before the first opening one tells under loud values: either its name is reported, or
    its value stands where the name should. -/
theorem first_plain {n : Nat} (hmark : openMark <:+: command.toList)
    (hparts : Marks.parts '\x7b' command.toList = first :: others)
    (h : (loud n).expandCommand command = (loud n).substitute command) : ¬ closeMark <:+: first := by
  intro hclose
  cases hcut : Marks.cut '\x7d' first with
  | none => exact Marks.parts_eq_singleton_iff.mp (Marks.cut_eq_none_iff.mp hcut) hclose
  | some found =>
    obtain ⟨name, behind⟩ := found
    obtain ⟨rest, more, hfirst, -⟩ := Marks.exists_of_cut hcut
    rw [(loud n).expandCommand_eq hmark hparts, (loud n).substitute_eq hparts,
      (loud n).expandPart_eq first, hfirst, Prod.mk.injEq] at h
    obtain ⟨htext, hreports⟩ := h
    cases hvalue : (loud n).value? (trim name) with
    | none =>
      have hlen := congrArg List.length hreports
      have hle := length_flatMap_reports_le n others
      simp only [TemplateOptions.report, hvalue, Option.isNone_none, if_true, Option.toList_some,
        List.length_append, List.length_singleton] at hlen
      omega
    | some value =>
      obtain ⟨⟨c, hc, hname⟩, -, d, hd, hhead⟩ := loud_value hvalue
      have htext := congrArg List.head? (String.ofList_injective htext)
      have hspace : isSpace d = false ∧ d ∉ ['f', 'a', 'r', 'p'] := by
        rcases List.mem_cons.mp hd with rfl | hd
        · decide
        · cases List.mem_singleton.mp hd
          decide
      obtain ⟨value, rfl⟩ := Marks.exists_tail hhead
      rw [Marks.eq_of_cut hcut] at htext
      cases name with
      | nil => cases hname
      | cons a name =>
        simp only [TemplateOptions.render, hvalue, List.cons_append, List.head?_cons, Option.some.injEq] at htext
        have hfirst : (a :: name).head? = some d := congrArg some htext.symm
        rw [head?_trim hspace.1 hfirst] at hname
        cases hname
        exact hspace.2 hc

/-- Then every part behind an opening mark is paired. -/
theorem others_paired {n : Nat} (hmark : openMark <:+: command.toList)
    (hparts : Marks.parts '\x7b' command.toList = first :: others)
    (hn : ∀ part ∈ others, part.length + 3 ≤ n) (hfirst : ¬ closeMark <:+: first)
    (h : (loud n).expandCommand command = (loud n).substitute command) :
    ∀ part ∈ others, PairedPart part := by
  rw [(loud n).expandCommand_eq hmark hparts, (loud n).substitute_eq hparts,
    (loud n).expandPart_plain hfirst, Prod.mk.injEq, List.nil_append] at h
  obtain ⟨htext, hreports⟩ := h
  have htext := List.append_cancel_left (String.ofList_injective htext)
  by_contra hodd
  push Not at hodd
  have hlt := (expandPart_weights hn).2 hodd
  rw [htext, hreports] at hlt
  exact Nat.lt_irrefl _ hlt

end Telling

/-- Expanding a command substitutes the values of its tokens, whatever the variables are, exactly when its
    marks pair up. -/
theorem expand_command_iff (command : String) :
    (∀ opts : TemplateOptions, opts.expandCommand command = opts.substitute command) ↔ PairedMarks command := by
  constructor
  · intro h hmark first others hparts
    have hfirst := first_plain hmark hparts (h (loud 0))
    refine ⟨hfirst, others_paired hmark hparts ?_ hfirst (h (loud (command.length + 3)))⟩
    intro part hmem
    have hle := Marks.length_le_of_mem_join '\x7b' (List.mem_cons_of_mem first hmem)
    rw [← hparts, Marks.join_parts] at hle
    exact Nat.add_le_add_right hle 3
  · intro h opts
    exact opts.expandCommand_paired h

/-- An opening mark without a closing one is lost. -/
theorem open_mark_lost :
    ¬ ∀ (command : String) (opts : TemplateOptions), opts.expandCommand command = opts.substitute command := by
  intro h
  have hlost := h "echo \x7b\x7b filepath" { filepath := some "/w/a", paths := ["/w/a"], currentDir := "/w" }
  revert hlost
  decide +kernel

/-! ### The relative path -/

/-- The path behind the working directory, or the path itself outside of it. -/
def relativeTo (cwd path : List Char) : List Char :=
  if cwd ++ ['/'] <+: path then path.drop (cwd.length + 1) else path

/-- What the code removes is right when the working directory does not occur in the relative path. -/
theorem removeAll_eq_relativeTo_iff (cwd path : List Char) :
    removeAll (cwd ++ ['/']) path = relativeTo cwd path ↔ ¬ cwd ++ ['/'] <:+: relativeTo cwd path := by
  have hsep : cwd ++ ['/'] ≠ [] := by
    simp
  rw [relativeTo]
  split
  · rename_i hstart
    obtain ⟨rest, rfl⟩ := hstart
    have hdrop : (cwd ++ ['/'] ++ rest).drop (cwd.length + 1) = rest :=
      List.drop_left' (by simp)
    rw [removeAll_append hsep, hdrop]
    exact removeAll_eq_iff hsep rest
  · exact removeAll_eq_iff hsep path

/-- The variable alone expands to the path without its occurrences of the directory. -/
theorem TemplateOptions.expandCommand_relative (opts : TemplateOptions) :
    (opts.expandCommand "\x7b\x7brelative_filepath\x7d\x7d").1
      = String.ofList (removeAll (opts.currentDir.toList ++ ['/']) (opts.filepath.getD "").toList) := by
  have hmark : openMark <:+: "\x7b\x7brelative_filepath\x7d\x7d".toList := by
    decide +kernel
  have hparts : Marks.parts '\x7b' "\x7b\x7brelative_filepath\x7d\x7d".toList
      = [[], "relative_filepath\x7d\x7d".toList] := by
    decide +kernel
  have hclose : Marks.parts '\x7d' "relative_filepath\x7d\x7d".toList = ["relative_filepath".toList, []] := by
    decide +kernel
  have htrim : trim "relative_filepath".toList = "relative_filepath".toList := by
    decide +kernel
  have hother : ¬("relative_filepath".toList = "filepath".toList
      ∨ "relative_filepath".toList = "absolute_path".toList) := by
    decide +kernel
  have hvalue : opts.value? (trim "relative_filepath".toList)
      = some (removeAll (opts.currentDir.toList ++ ['/']) (opts.filepath.getD "").toList) := by
    rw [htrim, TemplateOptions.value?, if_neg hother, if_pos (.inl rfl)]
    rfl
  rw [opts.expandCommand_eq hmark hparts, opts.expandPart_plain (by decide), List.flatMap_singleton,
    opts.expandPart_eq "relative_filepath\x7d\x7d".toList, hclose]
  simp only [TemplateOptions.render, hvalue, List.nil_append, List.append_nil]

/-- The relative path expands to the path behind the task's working directory exactly when that directory
    does not occur in it once more. -/
theorem relative_filepath_iff (task : TaskPlan) (opts : TemplateOptions) (path : String) :
    let cwd := task.context.cwd.getD opts.currentDir
    let relative := relativeTo cwd.toList path.toList
    (({ task with commands := [.shell "\x7b\x7brelative_filepath\x7d\x7d"] } : TaskPlan).expand
        { opts with filepath := some path }).commands = [.shell (String.ofList relative)]
      ↔ ¬ cwd.toList ++ ['/'] <:+: relative := by
  intro cwd relative
  rw [← removeAll_eq_relativeTo_iff]
  simp only [TaskPlan.expand, List.map_singleton, TemplateOptions.templateLine,
    TemplateOptions.expandCommand_relative, List.singleton_inj, CommandLine.shell.injEq, String.ofList_inj]
  rfl

/-- A path below the working directory that has the directory's name in it again loses both. -/
theorem repeated_directory_lost :
    ¬ ∀ (task : TaskPlan) (opts : TemplateOptions) (path : String),
      (({ task with commands := [.shell "\x7b\x7brelative_filepath\x7d\x7d"] } : TaskPlan).expand
        { opts with filepath := some path }).commands
      = [.shell (String.ofList (relativeTo (task.context.cwd.getD opts.currentDir).toList path.toList))] := by
  intro h
  have hlost := h { name := "test", position := 0, commands := [], rule := { name := "test" } }
    { currentDir := "/w" } "/w/a/w/b"
  revert hlost
  decide +kernel

end Funzzy
