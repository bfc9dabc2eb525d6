import Funzzy.Config.Readers

/-! The excerpt that a scan error is shown with (`from_yaml` in `config.rs`).

    The scanner counts `\n`, `\r\n` and a lone `\r` as the end of a line, `str::lines` only the first two.
    The lines of the latter are indexed with the number of the former. The end of the stream stands on a line
    of its own for the scanner, so an end that comes unexpectedly is reported one line past the last. -/

namespace Funzzy

/-- The line ends that the scanner counts. -/
def scannerBreaks : List Char → Nat
  | [] => 0
  | '\r' :: '\n' :: rest => scannerBreaks rest + 1
  | c :: rest => scannerBreaks rest + (if c = '\n' ∨ c = '\r' then 1 else 0)

/-- The `\r` that no `\n` follows. -/
def loneReturns : List Char → Nat
  | [] => 0
  | '\r' :: '\n' :: rest => loneReturns rest
  | c :: rest => loneReturns rest + (if c = '\r' then 1 else 0)

/-- Where the scanner can stand in a text: anywhere up to its end, but not inside of a line end; and, at the
    end, with the end of the stream as its token. -/
structure ScanPosition (content : List Char) where
  before : List Char
  after : List Char
  streamEnd : Bool := false
  split : before ++ after = content
  whole : ¬(before.getLast? = some '\r' ∧ after.head? = some '\n')
  ended : streamEnd = true → after = []

/-- The scanner has left a last line without an end behind. -/
def ScanPosition.past {content : List Char} (p : ScanPosition content) : Bool :=
  p.streamEnd && p.before.getLast?.any fun c => c != '\n' && c != '\r'

/-- `marker.line()` -/
def ScanPosition.line {content : List Char} (p : ScanPosition content) : Nat :=
  scannerBreaks p.before + 1 + if p.past then 1 else 0

/-- The line of `str::lines`, counted from zero, in which a position stands; the end of the text stands in the
    last one. -/
def ScanPosition.place {content : List Char} (p : ScanPosition content) (count : Nat) : Nat :=
  min (p.before.count '\n') (count - 1)

/-- The index of `error_line` among the lines. -/
def markedLine (count line : Nat) : Nat := if count < line then count - 1 else line - 1

/-- The message is built, and what it marks as the line in error is the line of the reported position. -/
def ShowsReported (content : String) (p : ScanPosition content.toList) : Prop :=
  ∃ before error after, scanContext (strLines content) p.line = some (before, error, after) ∧
    (strLines content)[p.place (strLines content).length]? = some error ∧
    markedLine (strLines content).length p.line = p.place (strLines content).length

/-! ### The excerpt -/

/-- The three lines of an excerpt, one by one. -/
theorem scanContext_eq_some_iff {lines : List String} {line : Nat} {before error after : String} :
    scanContext lines line = some (before, error, after) ↔
      (if 1 < line then lines[line - 2]? else some "") = some before ∧
      (if lines.length < line then (if lines = [] then none else lines[lines.length - 1]?)
        else if line = 0 then none else lines[line - 1]?) = some error ∧
      (if line < lines.length then lines[line]? else some "") = some after := by
  unfold scanContext
  split_ifs <;> simp [Option.bind_eq_some_iff] <;> tauto

theorem exists_getElem?_iff {lines : List String} {i : Nat} : (∃ text, lines[i]? = some text) ↔ i < lines.length := by
  rw [← Option.isSome_iff_exists, isSome_getElem?]

/-- The excerpt is there for lines up to one past the last. -/
theorem exists_scanContext_iff {lines : List String} {line : Nat} (hpos : 0 < line) :
    (∃ before error after, scanContext lines line = some (before, error, after)) ↔
      lines ≠ [] ∧ line ≤ lines.length + 1 := by
  simp only [scanContext_eq_some_iff, exists_and_left, exists_and_right]
  have hsome : lines ≠ [] ↔ 0 < lines.length := List.length_pos_iff.symm
  have hbefore : (∃ before, (if 1 < line then lines[line - 2]? else some "") = some before) ↔
      line ≤ 1 ∨ line - 2 < lines.length := by
    split
    · rw [exists_getElem?_iff]
      omega
    · simp only [Option.some.injEq, exists_eq', true_iff]
      omega
  have herror : (∃ error, (if lines.length < line then (if lines = [] then none else lines[lines.length - 1]?)
      else if line = 0 then none else lines[line - 1]?) = some error) ↔ lines ≠ [] := by
    split
    · split
      · next hnil => simp [hnil]
      · next hne =>
        rw [exists_getElem?_iff]
        exact iff_of_true (Nat.sub_one_lt (hsome.mp hne).ne') hne
    · rw [if_neg (by omega), exists_getElem?_iff, hsome]
      omega
  have hafter : ∃ after, (if line < lines.length then lines[line]? else some "") = some after := by
    split
    · rw [exists_getElem?_iff]
      assumption
    · exact ⟨"", rfl⟩
  rw [hbefore, herror, and_iff_left hafter, hsome]
  omega

theorem scanContext_marked {lines : List String} {line : Nat} {before error after : String}
    (h : scanContext lines line = some (before, error, after)) :
    lines[markedLine lines.length line]? = some error := by
  obtain ⟨-, herror, -⟩ := scanContext_eq_some_iff.mp h
  rw [markedLine]
  split at herror
  · next hpast =>
    rw [if_pos hpast]
    split at herror
    · cases herror
    · exact herror
  · next hinside =>
    rw [if_neg hinside]
    split at herror
    · cases herror
    · exact herror

/-! ### Line ends -/

theorem scannerBreaks_eq (text : List Char) : scannerBreaks text = text.count '\n' + loneReturns text := by
  induction text using scannerBreaks.induct with
  | case1 => rfl
  | case2 rest ih =>
    rw [scannerBreaks, loneReturns, ih]
    simp
    omega
  | case3 c rest h ih =>
    rw [scannerBreaks, loneReturns, ih, List.count_cons]
    · by_cases hnl : c = '\n' <;> by_cases hcr : c = '\r' <;> simp_all <;> omega
    · exact h
    · exact h

theorem length_inclusive (text : List Char) :
    text.count '\n' ≤ (Lines.inclusive '\n' text).length ∧
      (Lines.inclusive '\n' text).length ≤ text.count '\n' + 1 ∧
      ((Lines.inclusive '\n' text).length = 0 ↔ text = []) := by
  induction text with
  | nil => simp [Lines.inclusive]
  | cons c rest ih =>
    rw [Lines.inclusive]
    split
    · next hc =>
      rw [hc, List.count_cons_self, List.length_cons]
      refine ⟨by omega, by omega, iff_of_false (Nat.succ_ne_zero _) (List.cons_ne_nil _ _)⟩
    · next hc =>
      rw [List.count_cons_of_ne hc]
      cases hrest : Lines.inclusive '\n' rest with
      | nil =>
        rw [hrest] at ih
        simp at ih ⊢
        omega
      | cons line lines =>
        rw [hrest] at ih
        simp at ih ⊢
        omega

theorem length_strLines (content : String) :
    content.toList.count '\n' ≤ (strLines content).length ∧
      (strLines content).length ≤ content.toList.count '\n' + 1 ∧
      ((strLines content).length = 0 ↔ content = "") := by
  rw [strLines, List.length_map, ← String.toList_eq_nil_iff]
  exact length_inclusive content.toList

/-- A last line without an end is a line. -/
theorem length_inclusive_open {text : List Char} (h : text.getLast?.any (· != '\n') = true) :
    (Lines.inclusive '\n' text).length = text.count '\n' + 1 := by
  induction text with
  | nil => cases h
  | cons c rest ih =>
    cases rest with
    | nil =>
      have hc : c ≠ '\n' := by simpa using h
      simp [Lines.inclusive, hc]
    | cons d rest =>
      have hlines := ih (by simpa using h)
      rw [Lines.inclusive, List.count_cons]
      split
      · next hc =>
        rw [List.length_cons, hlines]
        simp [hc]
      · next hc =>
        cases hinclusive : Lines.inclusive '\n' (d :: rest) with
        | nil =>
          rw [hinclusive] at hlines
          cases hlines
        | cons line lines =>
          rw [hinclusive] at hlines
          simp only [List.length_cons, beq_iff_eq, hc, if_false] at hlines ⊢
          exact hlines

/-- Behind an unexpected end all lines are, and the last of them has no end. -/
theorem ScanPosition.past_last {content : String} {p : ScanPosition content.toList} (h : p.past = true) :
    p.before.count '\n' + 1 = (strLines content).length := by
  obtain ⟨hend, hopen⟩ := Bool.and_eq_true_iff.mp h
  have hbefore : p.before = content.toList := by
    have hsplit := p.split
    rwa [p.ended hend, List.append_nil] at hsplit
  have hlast : p.before.getLast?.any (· != '\n') = true := by
    rw [Option.any_eq_true] at hopen ⊢
    obtain ⟨c, hc, hneither⟩ := hopen
    exact ⟨c, hc, (Bool.and_eq_true_iff.mp hneither).1⟩
  rw [strLines, List.length_map, hbefore, length_inclusive_open (hbefore ▸ hlast)]

/-- The reported line is shown in a text without a lone `\r` before the position, and behind one of these if
    the position is in the last line and is not reported past it. -/
theorem showsReported_iff (content : String) (p : ScanPosition content.toList) :
    ShowsReported content p ↔ content ≠ "" ∧
      (loneReturns p.before = 0 ∨
        loneReturns p.before = 1 ∧ p.before.count '\n' + 1 = (strLines content).length ∧ p.past = false) := by
  have hline : p.line = p.before.count '\n' + loneReturns p.before + 1 + if p.past then 1 else 0 := by
    rw [ScanPosition.line, scannerBreaks_eq]
  have hpos : 0 < p.line := by
    rw [hline]
    omega
  have hcount : p.before.count '\n' ≤ content.toList.count '\n' := by
    have hsplit := congrArg (List.count '\n') p.split
    rw [List.count_append] at hsplit
    omega
  obtain ⟨hlow, -, hempty⟩ := length_strLines content
  have hnil : strLines content ≠ [] ↔ content ≠ "" := by
    rw [Ne, ← List.length_eq_zero_iff, hempty]
  have hplaces : ShowsReported content p ↔ (strLines content ≠ [] ∧ p.line ≤ (strLines content).length + 1) ∧
      markedLine (strLines content).length p.line = p.place (strLines content).length := by
    rw [← exists_scanContext_iff hpos]
    constructor
    · rintro ⟨before, error, after, hcontext, -, hplace⟩
      exact ⟨⟨before, error, after, hcontext⟩, hplace⟩
    · rintro ⟨⟨before, error, after, hcontext⟩, hplace⟩
      exact ⟨before, error, after, hcontext, hplace ▸ scanContext_marked hcontext, hplace⟩
  have hzero : content ≠ "" ↔ 0 < (strLines content).length := by
    rw [Ne, ← hempty, Nat.pos_iff_ne_zero]
  have hpast : p.past = true → p.before.count '\n' + 1 = (strLines content).length := ScanPosition.past_last
  rw [hplaces, hnil, hzero, markedLine, ScanPosition.place, hline]
  generalize (strLines content).length = count at *
  generalize p.before.count '\n' = ends at *
  generalize loneReturns p.before = returns at *
  cases hmarker : p.past with
  | false =>
    rw [if_neg Bool.false_ne_true, and_iff_left (rfl : false = false)]
    split <;> omega
  | true =>
    have hlast := hpast hmarker
    rw [if_pos rfl]
    simp only [Bool.true_eq_false, and_false, or_false]
    split <;> omega

/-- The end of `name: [unclosed` is reported in line 2. -/
example : (⟨"name: [unclosed".toList, [], true, List.append_nil _, by simp, fun _ => rfl⟩ :
    ScanPosition "name: [unclosed".toList).line = 2 := by
  decide

/-- An unexpected end behind a lone `\r`, and an error in the second line of a text whose first line ends
    so. -/
theorem lone_returns_shift :
    (∃ p : ScanPosition "a: 1\rb: [".toList, p.line = 3 ∧ ¬ShowsReported "a: 1\rb: [" p) ∧
      scanFailure "a: 1\rb: [" ⟨"unclosed sequence", 3⟩ = .panicked ∧
      scanContext (strLines "a: 1\rb: [\x7d\nc: 2") 2 = some ("a: 1\rb: [\x7d", "c: 2", "") := by
  have hpanic : scanContext (strLines "a: 1\rb: [") 3 = none := by decide +kernel
  refine ⟨⟨⟨"a: 1\rb: [".toList, [], true, List.append_nil _, by simp, fun _ => rfl⟩, by decide, ?_⟩,
    by rw [scanFailure, hpanic], by decide +kernel⟩
  rintro ⟨before, error, after, hcontext, -⟩
  exact Option.some_ne_none _ (hcontext.symm.trans hpanic)

end Funzzy
