import Mathlib.Data.List.Infix
import Mathlib.Data.List.Basic

/-! Texts with marks: a mark is a symbol that stands twice in a row.

    `parts` cuts a text at its marks, found from the left and not overlapping. `pieces` reads the tokens of
    a text instead: a token runs from an opening mark to the first closing mark behind it, with no other
    opening mark in between, and every symbol outside of tokens is a piece of its own. Both go symbol by
    symbol, so that the pieces of a text can be read off its parts (`pieces_eq`). -/

namespace Marks

variable {α : Type}

/-- A symbol in front of the first part. -/
def consHead (a : α) : List (List α) → List (List α)
  | [] => [[a]]
  | first :: rest => (a :: first) :: rest

/-- A text with its parts joined by marks again. -/
def join (mark : α) : List (List α) → List α
  | [] => []
  | [part] => part
  | part :: rest => part ++ mark :: mark :: join mark rest

theorem join_cons {mark : α} {part : List α} {rest : List (List α)} (h : rest ≠ []) :
    join mark (part :: rest) = part ++ mark :: mark :: join mark rest := by
  cases rest with
  | nil => exact absurd rfl h
  | cons second rest => rfl

theorem join_consHead (mark a : α) (texts : List (List α)) :
    join mark (consHead a texts) = a :: join mark texts := by
  cases texts with
  | nil => rfl
  | cons first rest =>
    cases rest with
    | nil => rfl
    | cons second rest => rfl

theorem length_le_join (mark : α) (part : List α) (rest : List (List α)) :
    part.length ≤ (join mark (part :: rest)).length ∧
      (rest ≠ [] → part.length < (join mark (part :: rest)).length) := by
  cases rest with
  | nil => exact ⟨Nat.le_refl _, fun h => absurd rfl h⟩
  | cons second rest =>
    rw [join_cons (List.cons_ne_nil _ _), List.length_append, List.length_cons]
    exact ⟨Nat.le_add_right _ _, fun _ => by omega⟩

theorem length_le_of_mem_join (mark : α) {part : List α} {texts : List (List α)} (h : part ∈ texts) :
    part.length ≤ (join mark texts).length := by
  induction texts with
  | nil => cases h
  | cons first rest ih =>
    rcases List.mem_cons.mp h with rfl | hmem
    · exact (length_le_join mark part rest).1
    · rw [join_cons (List.ne_nil_of_mem hmem), List.length_append, List.length_cons, List.length_cons]
      have := ih hmem
      omega

theorem exists_tail {text : List α} {a : α} (h : text.head? = some a) : ∃ tail, text = a :: tail := by
  cases text with
  | nil => cases h
  | cons b text =>
    cases Option.some.inj h
    exact ⟨text, rfl⟩

variable [DecidableEq α]

/-- The parts of a text between its marks. -/
def parts (mark : α) : List α → List (List α)
  | [] => [[]]
  | [a] => [[a]]
  | a :: b :: rest => if a = mark ∧ b = mark then [] :: parts mark rest else consHead a (parts mark (b :: rest))

/-- What stands before the first mark and what stands behind it. -/
def cut (mark : α) (text : List α) : Option (List α × List α) :=
  match parts mark text with
  | first :: second :: rest => some (first, join mark (second :: rest))
  | _ => none

/-- What stands before the first closing mark and what stands behind it, if no opening mark comes before
    it. -/
def upTo (opening closing : α) : List α → Option (List α × List α)
  | [] | [_] => none
  | a :: b :: rest =>
    if a = closing ∧ b = closing then some ([], rest)
    else if a = opening ∧ b = opening then none
    else (upTo opening closing (b :: rest)).map fun found => (a :: found.1, found.2)

/-- The name of the token a text begins with, and the text behind it. Of three opening symbols in a row the
    last two are the mark. -/
def tokenAt (opening closing : α) : List α → Option (List α × List α)
  | [] | [_] => none
  | a :: b :: rest =>
    if a = opening ∧ b = opening ∧ rest.head? ≠ some opening then upTo opening closing rest else none

/-- A symbol that stands for itself, or a token. -/
inductive Piece (α : Type) where
  | plain (a : α)
  | token (name : List α)
  deriving DecidableEq

/-- The pieces of a text, of which so many symbols are skipped. -/
def pieces (opening closing : α) : Nat → List α → List (Piece α)
  | _, [] => []
  | skip + 1, _ :: rest => pieces opening closing skip rest
  | 0, a :: rest =>
    match tokenAt opening closing (a :: rest) with
    | some (name, _) => .token name :: pieces opening closing (name.length + 3) rest
    | none => .plain a :: pieces opening closing 0 rest

/-- A piece as it stands in the text. -/
def Piece.verbatim (opening closing : α) : Piece α → List α
  | .plain a => [a]
  | .token name => opening :: opening :: (name ++ [closing, closing])

/-- The pieces of a part that stands behind an opening mark. -/
def piecesOfPart (opening closing : α) (part : List α) : List (Piece α) :=
  match cut closing part with
  | none => .plain opening :: .plain opening :: part.map .plain
  | some (name, rest) =>
    (if name.head? = some opening then [.plain opening, .token name.tail] else [.token name])
      ++ rest.map .plain

/-! ### Parts -/

section Parts

variable {mark : α}

theorem parts_ne_nil (mark : α) (text : List α) : parts mark text ≠ [] := by
  induction text using parts.induct mark with
  | case1 => exact List.cons_ne_nil _ _
  | case2 a => exact List.cons_ne_nil _ _
  | case3 a b rest hmark ih =>
    rw [parts, if_pos hmark]
    exact List.cons_ne_nil _ _
  | case4 a b rest hmark ih =>
    rw [parts, if_neg hmark]
    cases parts mark (b :: rest) <;> exact List.cons_ne_nil _ _

theorem exists_parts (mark : α) (text : List α) : ∃ first rest, parts mark text = first :: rest :=
  List.exists_cons_of_ne_nil (parts_ne_nil mark text)

theorem parts_mark (mark : α) (rest : List α) : parts mark (mark :: mark :: rest) = [] :: parts mark rest :=
  if_pos ⟨rfl, rfl⟩

/-- Where no mark begins, the symbol belongs to the first part. -/
theorem parts_cons {a : α} {rest : List α} (h : ¬(a = mark ∧ rest.head? = some mark)) :
    parts mark (a :: rest) = consHead a (parts mark rest) := by
  cases rest with
  | nil => rfl
  | cons b rest =>
    rw [parts]
    exact if_neg fun hmark => h ⟨hmark.1, congrArg some hmark.2⟩

/-- Cutting loses nothing. -/
theorem join_parts (mark : α) (text : List α) : join mark (parts mark text) = text := by
  induction text using parts.induct mark with
  | case1 => rfl
  | case2 a => rfl
  | case3 a b rest hmark ih =>
    obtain ⟨rfl, rfl⟩ := hmark
    rw [parts_mark, join_cons (parts_ne_nil b rest), ih]
    rfl
  | case4 a b rest hmark ih =>
    rw [parts, if_neg hmark, join_consHead, ih]

/-- A first part that is not empty begins as the text does. -/
theorem head?_of_parts {text first : List α} {rest : List (List α)} {a : α}
    (h : parts mark text = first :: rest) (ha : first.head? = some a) : text.head? = some a := by
  cases text with
  | nil =>
    cases h
    cases ha
  | cons b text =>
    by_cases hmark : b = mark ∧ text.head? = some mark
    · obtain ⟨rfl, hnext⟩ := hmark
      cases text with
      | nil => cases hnext
      | cons c text =>
        cases Option.some.inj hnext
        rw [parts_mark] at h
        cases h
        cases ha
    · rw [parts_cons hmark] at h
      obtain ⟨first', rest', hparts⟩ := exists_parts mark text
      rw [hparts] at h
      cases h
      exact ha

/-- Without a mark there is one part. -/
theorem parts_eq_singleton_iff {text : List α} : parts mark text = [text] ↔ ¬ [mark, mark] <:+: text := by
  induction text using parts.induct mark with
  | case1 => simp [parts]
  | case2 a => simp [parts, List.infix_cons_iff]
  | case3 a b rest hmark ih =>
    obtain ⟨rfl, rfl⟩ := hmark
    rw [parts_mark]
    constructor
    · intro h
      cases h
    · intro h
      exact absurd ⟨[], rest, rfl⟩ h
  | case4 a b rest hmark ih =>
    rw [parts, if_neg hmark]
    obtain ⟨first, others, hparts⟩ := exists_parts mark (b :: rest)
    rw [hparts] at ih ⊢
    have hfirst : ¬ [mark, mark] <+: a :: b :: rest := by
      rintro ⟨tail, h⟩
      cases h
      exact hmark ⟨rfl, rfl⟩
    rw [List.infix_cons_iff, not_or]
    simp only [consHead, List.cons.injEq, true_and, hfirst, not_false_eq_true] at ih ⊢
    exact ih

end Parts

/-! ### The cut at the first mark -/

section Cut

variable {mark : α}

theorem cut_mark (mark : α) (rest : List α) : cut mark (mark :: mark :: rest) = some ([], rest) := by
  obtain ⟨first, others, hparts⟩ := exists_parts mark rest
  rw [cut, parts_mark, hparts]
  simp only
  rw [← hparts, join_parts]

theorem cut_cons {a : α} {rest : List α} (h : ¬(a = mark ∧ rest.head? = some mark)) :
    cut mark (a :: rest) = (cut mark rest).map fun found => (a :: found.1, found.2) := by
  rw [cut, parts_cons h, cut]
  obtain ⟨first, others, hparts⟩ := exists_parts mark rest
  rw [hparts]
  cases others <;> rfl

theorem cut_eq_none_iff {text : List α} : cut mark text = none ↔ parts mark text = [text] := by
  rw [cut]
  obtain ⟨first, others, hparts⟩ := exists_parts mark text
  have htext := join_parts mark text
  rw [hparts] at htext ⊢
  cases others with
  | nil => simp [← htext, join]
  | cons second others => simp

theorem exists_of_cut {text name behind : List α} (h : cut mark text = some (name, behind)) :
    ∃ rest others, parts mark text = name :: rest :: others ∧ behind = join mark (rest :: others) := by
  rw [cut] at h
  split at h
  · rename_i hparts
    cases h
    exact ⟨_, _, hparts, rfl⟩
  · cases h

theorem eq_of_cut {text name rest : List α} (h : cut mark text = some (name, rest)) :
    text = name ++ mark :: mark :: rest := by
  obtain ⟨second, others, hparts, rfl⟩ := exists_of_cut h
  have htext := join_parts mark text
  rw [hparts, join_cons (List.cons_ne_nil _ _)] at htext
  exact htext.symm

end Cut

/-! ### Tokens -/

section Tokens

variable {opening closing : α}

/-- A text in which a closing mark comes before any opening one has it in its first part. -/
theorem upTo_eq_some (hne : opening ≠ closing) : ∀ {text name rest : List α},
    upTo opening closing text = some (name, rest) →
    ∃ first behind others, parts opening text = first :: others ∧
      cut closing first = some (name, behind) ∧ parts opening rest = behind :: others ∧
      text = name ++ closing :: closing :: rest := by
  intro text
  induction text using upTo.induct opening closing with
  | case1 => intro name rest h; cases h
  | case2 a => intro name rest h; cases h
  | case3 a b text hclose =>
    intro name rest h
    obtain ⟨rfl, rfl⟩ := hclose
    rw [upTo, if_pos ⟨rfl, rfl⟩] at h
    cases h
    obtain ⟨behind, others, hparts⟩ := exists_parts opening text
    refine ⟨b :: b :: behind, behind, others, ?_, cut_mark b behind, hparts, rfl⟩
    rw [parts_cons fun h => hne h.1.symm, parts_cons fun h => hne h.1.symm, hparts]
    rfl
  | case4 a b text hclose hopen =>
    intro name rest h
    rw [upTo, if_neg hclose, if_pos hopen] at h
    cases h
  | case5 a b text hclose hopen ih =>
    intro name rest h
    rw [upTo, if_neg hclose, if_neg hopen] at h
    obtain ⟨⟨name', rest'⟩, hupTo, hfound⟩ := Option.map_eq_some_iff.mp h
    cases hfound
    obtain ⟨first, behind, others, hparts, hcut, hrest, htext⟩ := ih hupTo
    have hno : ¬(a = opening ∧ (b :: text).head? = some opening) := fun h =>
      hopen ⟨h.1, Option.some.inj h.2⟩
    refine ⟨a :: first, behind, others, ?_, ?_, hrest, congrArg (a :: ·) htext⟩
    · rw [parts_cons hno, hparts]
      rfl
    · rw [cut_cons, hcut]
      · rfl
      · rintro ⟨ha, hfirst⟩
        exact hclose ⟨ha, Option.some.inj (head?_of_parts hparts hfirst)⟩

/-- A text in which none does has none in its first part. -/
theorem cut_of_upTo_eq_none (hne : opening ≠ closing) : ∀ {text first : List α} {others : List (List α)},
    upTo opening closing text = none → parts opening text = first :: others → cut closing first = none := by
  intro text
  induction text using upTo.induct opening closing with
  | case1 =>
    intro first others h hparts
    cases hparts
    rfl
  | case2 a =>
    intro first others h hparts
    cases hparts
    rfl
  | case3 a b text hclose =>
    intro first others h hparts
    rw [upTo, if_pos hclose] at h
    cases h
  | case4 a b text hclose hopen =>
    intro first others h hparts
    obtain ⟨rfl, rfl⟩ := hopen
    rw [parts_mark] at hparts
    cases hparts
    rfl
  | case5 a b text hclose hopen ih =>
    intro first others h hparts
    rw [upTo, if_neg hclose, if_neg hopen, Option.map_eq_none_iff] at h
    have hno : ¬(a = opening ∧ (b :: text).head? = some opening) := fun h =>
      hopen ⟨h.1, Option.some.inj h.2⟩
    rw [parts_cons hno] at hparts
    obtain ⟨first', others', hparts'⟩ := exists_parts opening (b :: text)
    rw [hparts'] at hparts
    cases hparts
    rw [cut_cons, ih h hparts', Option.map_none]
    rintro ⟨ha, hfirst⟩
    exact hclose ⟨ha, Option.some.inj (head?_of_parts hparts' hfirst)⟩

theorem pieces_skip (skipped text : List α) :
    pieces opening closing skipped.length (skipped ++ text) = pieces opening closing 0 text := by
  induction skipped with
  | nil => rfl
  | cons a skipped ih => exact ih

/-- Where no token begins, the symbol stands for itself. -/
theorem pieces_cons {a : α} {rest : List α} (h : tokenAt opening closing (a :: rest) = none) :
    pieces opening closing 0 (a :: rest) = .plain a :: pieces opening closing 0 rest := by
  rw [pieces, h]

theorem tokenAt_cons {a : α} {rest : List α} (h : ¬(a = opening ∧ rest.head? = some opening)) :
    tokenAt opening closing (a :: rest) = none := by
  cases rest with
  | nil => rfl
  | cons b rest =>
    rw [tokenAt]
    exact if_neg fun hmark => h ⟨hmark.1, congrArg some hmark.2.1⟩

theorem pieces_token {text name rest : List α} (hhead : text.head? ≠ some opening)
    (h : upTo opening closing text = some (name, rest)) (htext : text = name ++ closing :: closing :: rest) :
    pieces opening closing 0 (opening :: opening :: text) = .token name :: pieces opening closing 0 rest := by
  rw [pieces, tokenAt, if_pos ⟨rfl, rfl, hhead⟩, h]
  have hskip : opening :: text = (opening :: (name ++ [closing, closing])) ++ rest := by
    rw [htext]
    simp
  simp only
  rw [hskip, ← pieces_skip (opening :: (name ++ [closing, closing])) rest]
  simp

/-- Where a token begins, its name stands between the marks. -/
theorem eq_of_tokenAt (hne : opening ≠ closing) {text name rest : List α}
    (h : tokenAt opening closing text = some (name, rest)) :
    text = opening :: opening :: (name ++ closing :: closing :: rest) := by
  cases text with
  | nil => cases h
  | cons a text =>
    cases text with
    | nil => cases h
    | cons b text =>
      rw [tokenAt] at h
      split at h
      · rename_i hmark
        obtain ⟨-, -, -, -, -, -, htext⟩ := upTo_eq_some hne h
        rw [hmark.1, hmark.2.1, htext]
      · cases h

/-- Of three opening symbols the first one stands for itself. -/
theorem pieces_opening (text : List α) :
    pieces opening closing 0 (opening :: opening :: opening :: text)
      = .plain opening :: pieces opening closing 0 (opening :: opening :: text) := by
  apply pieces_cons
  rw [tokenAt]
  exact if_neg fun h => h.2.2 rfl

/-- A part that one more opening symbol stands in front of. -/
theorem piecesOfPart_cons (hne : opening ≠ closing) {part : List α} (hhead : part.head? ≠ some opening) :
    piecesOfPart opening closing (opening :: part) = .plain opening :: piecesOfPart opening closing part := by
  rw [piecesOfPart, piecesOfPart, cut_cons fun h => hne h.1]
  cases hcut : cut closing part with
  | none => rfl
  | some found =>
    obtain ⟨name, rest⟩ := found
    have hname : name.head? ≠ some opening := by
      intro h
      rw [eq_of_cut hcut] at hhead
      cases name with
      | nil => cases h
      | cons a name => exact hhead h
    simp only [Option.map_some, List.head?_cons, if_true, List.tail_cons, if_neg hname]
    rfl

/-- The pieces of a text are the symbols of its first part and the pieces of each part behind it. -/
theorem pieces_eq (hne : opening ≠ closing) (text : List α) :
    ∀ {first : List α} {others : List (List α)}, parts opening text = first :: others →
    pieces opening closing 0 text = first.map .plain ++ others.flatMap (piecesOfPart opening closing) := by
  induction hlen : text.length using Nat.strong_induction_on generalizing text with
  | h n ih =>
    subst hlen
    intro first others hparts
    cases text with
    | nil =>
      cases hparts
      rfl
    | cons a text =>
      by_cases hmark : a = opening ∧ text.head? = some opening
      · obtain ⟨rfl, hnext⟩ := hmark
        cases text with
        | nil => cases hnext
        | cons b text =>
          cases Option.some.inj hnext
          rw [parts_mark] at hparts
          cases hparts
          obtain ⟨part, rest, hrest⟩ := exists_parts a text
          rw [hrest, List.flatMap_cons, List.map_nil, List.nil_append]
          by_cases hhead : text.head? = some a
          · obtain ⟨text, rfl⟩ : ∃ tail, text = a :: tail := exists_tail hhead
            rw [pieces_opening]
            by_cases hhead' : text.head? = some a
            · obtain ⟨text, rfl⟩ : ∃ tail, text = a :: tail := exists_tail hhead'
              rw [parts_mark] at hrest
              cases hrest
              rw [pieces_opening, ih _ (by simp) (a :: a :: text) rfl (parts_mark a text)]
              rfl
            · obtain ⟨part', rest', hparts⟩ := exists_parts a text
              rw [parts_cons fun h => hhead' h.2, hparts] at hrest
              cases hrest
              rw [piecesOfPart_cons hne fun h => hhead' (head?_of_parts hparts h),
                ih _ (by simp) (a :: a :: text) rfl ((parts_mark a text).trans (congrArg _ hparts))]
              rfl
          · cases hupTo : upTo a closing text with
            | none =>
              have htoken : tokenAt a closing (a :: a :: text) = none := by
                rw [tokenAt, if_pos ⟨rfl, rfl, hhead⟩, hupTo]
              have hshort : text.length < (a :: a :: text).length := by
                simp only [List.length_cons]
                omega
              rw [pieces_cons htoken, pieces_cons (tokenAt_cons fun h => hhead h.2),
                ih _ hshort text rfl hrest, piecesOfPart, cut_of_upTo_eq_none hne hupTo hrest]
              rfl
            | some found =>
              obtain ⟨name, rest'⟩ := found
              obtain ⟨first, behind, others, hfirst, hcut, hbehind, htext⟩ := upTo_eq_some hne hupTo
              rw [hrest] at hfirst
              cases hfirst
              have hname : name.head? ≠ some a := by
                intro h
                apply hhead
                rw [htext]
                cases name with
                | nil => cases h
                | cons b name => exact h
              have hshort : rest'.length < (a :: a :: text).length := by
                rw [htext]
                simp
                omega
              rw [pieces_token hhead hupTo htext, ih _ hshort rest' rfl hbehind, piecesOfPart, hcut]
              simp only [if_neg hname]
              rfl
      · rw [pieces_cons (tokenAt_cons hmark)]
        rw [parts_cons hmark] at hparts
        obtain ⟨first', others', hparts'⟩ := exists_parts opening text
        rw [hparts'] at hparts
        cases hparts
        rw [ih text.length (Nat.lt_succ_self _) text rfl hparts']
        rfl

/-- Reading pieces loses nothing. -/
theorem verbatim_pieces (hne : opening ≠ closing) (text : List α) : ∀ skip,
    (pieces opening closing skip text).flatMap (Piece.verbatim opening closing) = text.drop skip := by
  induction text with
  | nil =>
    intro skip
    cases skip <;> rfl
  | cons a rest ih =>
    intro skip
    cases skip with
    | succ skip => exact ih skip
    | zero =>
      cases htoken : tokenAt opening closing (a :: rest) with
      | none =>
        rw [pieces_cons htoken, List.flatMap_cons, ih 0]
        rfl
      | some found =>
        obtain ⟨name, behind⟩ := found
        have htext : a :: rest = opening :: opening :: (name ++ closing :: closing :: behind) :=
          eq_of_tokenAt hne htoken
        rw [pieces, htoken]
        simp only
        rw [List.flatMap_cons, ih, Piece.verbatim, List.drop_zero, htext]
        obtain ⟨-, rfl⟩ := List.cons.inj htext
        have hdrop : (opening :: (name ++ closing :: closing :: behind)).drop (name.length + 3) = behind := by
          simp
        rw [hdrop]
        simp

end Tokens

end Marks
