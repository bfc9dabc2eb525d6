import Funzzy.Lib.Lines

/-! Editing a text line by line.

    The lines of a text are lists each of which has the end of a line as its last element and nowhere else;
    only the last may do without. An edit of single lines that keeps their ends gives the lines of the edited
    text, so it can be compared with the text line by line. -/

namespace Lines

variable {α : Type} (nl : α)

/-! ### The lines of a text -/

/-- A line with its end. -/
def Closed (line : List α) : Prop := ∃ body, nl ∉ body ∧ line = body ++ [nl]

/-- A last line without an end. -/
def Open (line : List α) : Prop := line ≠ [] ∧ nl ∉ line

/-- The lists that are the lines of a text. -/
def AreLines : List (List α) → Prop
  | [] => True
  | [line] => Closed nl line ∨ Open nl line
  | line :: next :: rest => Closed nl line ∧ AreLines (next :: rest)

theorem areLines_cons {line : List α} (h : Closed nl line) {rest : List (List α)} (hrest : AreLines nl rest) :
    AreLines nl (line :: rest) := by
  cases rest with
  | nil => exact .inl h
  | cons next rest => exact ⟨h, hrest⟩

/-- All lines but the last are closed. -/
theorem areLines_append {above below : List (List α)} (hbelow : below ≠ []) :
    AreLines nl (above ++ below) ↔ (∀ line ∈ above, Closed nl line) ∧ AreLines nl below := by
  induction above with
  | nil => simp
  | cons line above ih =>
    rw [List.forall_mem_cons, and_assoc, ← ih, List.cons_append]
    cases hrest : above ++ below with
    | nil => exact absurd (List.append_eq_nil_iff.mp hrest).2 hbelow
    | cons next rest => rfl

/-- The edit of a line keeps its end, or that it has none. -/
structure KeepsEnds (edit : List α → List α) : Prop where
  closed : ∀ line, Closed nl line → Closed nl (edit line)
  opened : ∀ line, Open nl line → Open nl (edit line)

/-- Lines edited one by one are lines. -/
theorem AreLines.map {edit : List α → List α} (hedit : KeepsEnds nl edit) {lines : List (List α)}
    (h : AreLines nl lines) : AreLines nl (lines.map edit) := by
  induction lines with
  | nil => trivial
  | cons line rest ih =>
    cases rest with
    | nil => exact h.imp (hedit.closed line) (hedit.opened line)
    | cons next rest => exact ⟨hedit.closed line h.1, ih h.2⟩

variable [DecidableEq α]

theorem inclusive_close {body : List α} (h : nl ∉ body) (rest : List α) :
    inclusive nl (body ++ nl :: rest) = (body ++ [nl]) :: inclusive nl rest := by
  induction body with
  | nil => rw [List.nil_append, inclusive, if_pos rfl, List.nil_append]
  | cons c body ih =>
    rw [List.mem_cons, not_or] at h
    rw [List.cons_append, inclusive, if_neg (Ne.symm h.1), ih h.2]
    rfl

theorem inclusive_open {body : List α} (h : nl ∉ body) (hne : body ≠ []) : inclusive nl body = [body] := by
  induction body with
  | nil => exact absurd rfl hne
  | cons c body ih =>
    rw [List.mem_cons, not_or] at h
    rw [inclusive, if_neg (Ne.symm h.1)]
    cases body with
    | nil => rfl
    | cons d body => rw [ih h.2 (List.cons_ne_nil _ _)]

/-- A text is an open line, or a closed one with a text behind it. -/
theorem line_induction {P : List α → Prop} (hopen : ∀ body, nl ∉ body → P body)
    (hclose : ∀ body rest, nl ∉ body → P rest → P (body ++ nl :: rest)) (text : List α) : P text := by
  by_cases hmem : nl ∈ text
  · obtain ⟨body, rest, htext, hbody⟩ := List.eq_append_cons_of_mem hmem
    have hshorter : rest.length < text.length := by
      rw [htext, List.length_append, List.length_cons]
      omega
    rw [htext]
    exact hclose body rest hbody (line_induction hopen hclose rest)
  · exact hopen text hmem
termination_by text.length

theorem inclusive_flatten (text : List α) : (inclusive nl text).flatten = text := by
  induction text using line_induction nl with
  | hopen body h =>
    by_cases hne : body = []
    · rw [hne]
      rfl
    · rw [inclusive_open nl h hne, List.flatten_singleton]
  | hclose body rest h ih => rw [inclusive_close nl h, List.flatten_cons, ih, List.append_assoc]; rfl

theorem areLines_inclusive (text : List α) : AreLines nl (inclusive nl text) := by
  induction text using line_induction nl with
  | hopen body h =>
    by_cases hne : body = []
    · rw [hne]
      trivial
    · rw [inclusive_open nl h hne]
      exact .inr ⟨hne, h⟩
  | hclose body rest h ih =>
    rw [inclusive_close nl h]
    exact areLines_cons nl ⟨body, h, rfl⟩ ih

/-- A text of lines has these lines. -/
theorem inclusive_of_areLines {lines : List (List α)} (h : AreLines nl lines) :
    inclusive nl lines.flatten = lines := by
  induction lines with
  | nil => rfl
  | cons line rest ih =>
    have hclosed : ∀ body, nl ∉ body → AreLines nl rest →
        inclusive nl ((body ++ [nl]) :: rest).flatten = (body ++ [nl]) :: rest := by
      intro body hbody hrest
      rw [List.flatten_cons, List.append_assoc, List.singleton_append, inclusive_close nl hbody, ih hrest]
    cases rest with
    | nil =>
      rcases h with ⟨body, hbody, rfl⟩ | hopen
      · exact hclosed body hbody trivial
      · rw [List.flatten_singleton, inclusive_open nl hopen.2 hopen.1]
    | cons next rest =>
      obtain ⟨⟨body, hbody, rfl⟩, hrest⟩ := h
      exact hclosed body hbody hrest

theorem stripEnd_open (cr : α) {body : List α} (h : nl ∉ body) : stripEnd nl cr body = body := by
  rw [stripEnd]
  split
  · next c rest hreverse =>
    have hc : c ∈ body := List.mem_reverse.mp (hreverse ▸ List.mem_cons_self)
    rw [if_neg]
    rintro rfl
    exact h hc
  · next hreverse => exact (List.reverse_eq_nil_iff.mp hreverse).symm

theorem stripEnd_nil (cr : α) : stripEnd nl cr [nl] = [] := by
  simp [stripEnd]

theorem stripEnd_close (cr : α) (before : List α) (last : α) :
    stripEnd nl cr (before ++ [last] ++ [nl]) = if last = cr then before else before ++ [last] := by
  simp [stripEnd]

/-! ### Edited texts -/

variable {nl}

theorem inclusive_edited {edit : List α → List α} (hedit : KeepsEnds nl edit) (text : List α) :
    inclusive nl ((inclusive nl text).map edit).flatten = (inclusive nl text).map edit :=
  inclusive_of_areLines nl ((areLines_inclusive nl text).map nl hedit)

/-- An edited text has as many lines' ends. -/
theorem count_edited {edit : List α → List α} (hedit : KeepsEnds nl edit) (text : List α) :
    ((inclusive nl text).map edit).flatten.count nl = text.count nl := by
  induction text using line_induction nl with
  | hopen body h =>
    by_cases hne : body = []
    · rw [hne]
      rfl
    · rw [inclusive_open nl h hne, List.map_singleton, List.flatten_singleton, List.count_eq_zero.mpr h,
        List.count_eq_zero.mpr (hedit.opened body ⟨hne, h⟩).2]
  | hclose body rest h ih =>
    obtain ⟨body', hbody', hline⟩ := hedit.closed _ ⟨body, h, rfl⟩
    rw [inclusive_close nl h, List.map_cons, hline, List.flatten_cons, List.count_append, ih, List.count_append,
      List.count_append, List.count_eq_zero.mpr h, List.count_eq_zero.mpr hbody', List.count_cons_self,
      List.count_cons_self, List.count_nil]
    omega

variable (nl)

/-- What stands behind a place in its line, with the line's end. -/
def lineRest (text : List α) : List α := (inclusive nl text).headD []

theorem lines_cons {body : List α} (h : nl ∉ body) (rest : List α) :
    lines nl (body ++ nl :: rest) = (body ++ [nl]) :: lines nl rest ∧
      pending nl (body ++ nl :: rest) = pending nl rest :=
  ⟨lines_close nl [] h rest, pending_close nl [] h rest⟩

theorem closed_of_mem_lines (text : List α) : ∀ line ∈ lines nl text, Closed nl line := by
  induction text using line_induction nl with
  | hopen body h =>
    have hnone : lines nl body = [] := lines_open nl [] h
    simp [hnone]
  | hclose body rest h ih =>
    rw [(lines_cons nl h rest).1, List.forall_mem_cons]
    exact ⟨⟨body, h, rfl⟩, ih⟩

theorem pending_free (text : List α) : nl ∉ pending nl text := by
  induction text using line_induction nl with
  | hopen body h =>
    have hpending : pending nl body = body := pending_open nl [] h
    rwa [hpending]
  | hclose body rest h ih => rwa [(lines_cons nl h rest).2]

theorem mem_inclusive (text : List α) : ∀ line ∈ inclusive nl text, Closed nl line ∨ Open nl line := by
  induction text using line_induction nl with
  | hopen body h =>
    by_cases hne : body = []
    · simp [hne, inclusive]
    · rw [inclusive_open nl h hne, List.forall_mem_singleton]
      exact .inr ⟨hne, h⟩
  | hclose body rest h ih =>
    rw [inclusive_close nl h, List.forall_mem_cons]
    exact ⟨.inl ⟨body, h, rfl⟩, ih⟩

theorem lineRest_cases (text : List α) : nl ∉ lineRest nl text ∨ Closed nl (lineRest nl text) := by
  rw [lineRest]
  cases hlines : inclusive nl text with
  | nil => exact .inl (by simp)
  | cons line rest =>
    have hline := mem_inclusive nl text line (hlines ▸ List.mem_cons_self)
    exact hline.symm.imp And.right id

/-- The lines of a text around a place of one of them. -/
theorem inclusive_around (before : List α) {key : List α} (hkey : nl ∉ key) (hne : key ≠ []) (after : List α) :
    inclusive nl (before ++ (key ++ after))
      = lines nl before ++ (pending nl before ++ key ++ lineRest nl after) :: (inclusive nl after).tail := by
  induction before using line_induction nl with
  | hclose body rest h ih =>
    rw [(lines_cons nl h rest).1, (lines_cons nl h rest).2, List.append_assoc, List.cons_append,
      inclusive_close nl h, ih, List.cons_append]
  | hopen body h =>
    have hlines : lines nl body = [] := lines_open nl [] h
    have hpending : pending nl body = body := pending_open nl [] h
    rw [hlines, hpending, List.nil_append, lineRest]
    by_cases hmem : nl ∈ after
    · obtain ⟨first, rest, rfl, hfirst⟩ := List.eq_append_cons_of_mem hmem
      have hopen : nl ∉ body ++ (key ++ first) := by simp [h, hkey, hfirst]
      have htext : body ++ (key ++ (first ++ nl :: rest)) = body ++ (key ++ first) ++ nl :: rest := by simp
      rw [htext, inclusive_close nl hopen, inclusive_close nl hfirst]
      simp
    · have hopen : nl ∉ body ++ (key ++ after) := by simp [h, hkey, hmem]
      rw [inclusive_open nl hopen (by simp [hne])]
      by_cases hafter : after = []
      · rw [hafter]
        simp [inclusive]
      · rw [inclusive_open nl hmem hafter]
        simp

/-- An edit changes nothing but one place of a text, if the place is all it changes in its line and the other
    lines stay. -/
theorem edited_eq_iff {edit : List α → List α} (hedit : KeepsEnds nl edit) (before : List α)
    {key key' : List α} (hkey : nl ∉ key) (hne : key ≠ []) (hkey' : nl ∉ key') (hne' : key' ≠ [])
    (after : List α) :
    ((inclusive nl (before ++ (key ++ after))).map edit).flatten = before ++ (key' ++ after) ↔
      (∀ line ∈ lines nl before ++ (inclusive nl after).tail, edit line = line) ∧
        edit (pending nl before ++ key ++ lineRest nl after) = pending nl before ++ key' ++ lineRest nl after := by
  have hlines : ((inclusive nl (before ++ (key ++ after))).map edit).flatten = before ++ (key' ++ after) ↔
      (inclusive nl (before ++ (key ++ after))).map edit = inclusive nl (before ++ (key' ++ after)) := by
    constructor
    · intro h
      rw [← h, inclusive_edited hedit]
    · intro h
      rw [h, inclusive_flatten]
  have hstay : ∀ lines : List (List α), lines.map edit = lines ↔ ∀ line ∈ lines, edit line = line := by
    intro lines
    have hself := List.map_inj_left (l := lines) (f := edit) (g := id)
    rwa [List.map_id] at hself
  have hparts : ∀ first : List α, ∀ rest : List (List α),
      (lines nl before).map edit ++ first :: rest
          = lines nl before ++ (pending nl before ++ key' ++ lineRest nl after) :: (inclusive nl after).tail
        ↔ (lines nl before).map edit = lines nl before ∧
          first = pending nl before ++ key' ++ lineRest nl after ∧ rest = (inclusive nl after).tail := by
    intro first rest
    constructor
    · intro h
      obtain ⟨habove, hbelow⟩ := List.append_inj h (List.length_map _)
      exact ⟨habove, List.cons.inj hbelow⟩
    · rintro ⟨habove, rfl, rfl⟩
      rw [habove]
  rw [hlines, inclusive_around nl before hkey hne after, inclusive_around nl before hkey' hne' after,
    List.map_append, List.map_cons, hparts, hstay, hstay, List.forall_mem_append]
  tauto

end Lines
