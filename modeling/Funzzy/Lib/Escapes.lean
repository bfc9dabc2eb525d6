import Mathlib.Data.List.Basic

/-! Terminal escape sequences in a text.

    A text is read character by character: an escape character introduces a sequence wherever it stands, and
    what follows belongs to the sequence until its final character, or until a character that cannot be part
    of one. A sequence that the text cuts off counts as one. -/

namespace Escapes

abbrev escapeChar : Char := '\x1b'

/-- Where a reader of the text stands. -/
inductive Reading where
  | ground
  /-- Behind an escape character. -/
  | introduced
  /-- Behind an escape character and intermediate characters. -/
  | intermediate
  /-- Inside a control sequence, which an escape character and `[` open. -/
  | control
  /-- Inside a control string, such as a window title. -/
  | string
  deriving DecidableEq

def isIntermediate (c : Char) : Bool := ' ' ≤ c && c ≤ '/'

/-- The digits, `:`, `;`, `<`, `=`, `>` and `?`. -/
def isParameter (c : Char) : Bool := '0' ≤ c && c ≤ '?'

/-- What a character does: where the reader stands behind it, and whether it belongs to a sequence. -/
def next : Reading → Char → Reading × Bool
  | .ground, c => if c = escapeChar then (.introduced, true) else (.ground, false)
  | .introduced, c =>
    if c = escapeChar then (.introduced, true)
    else if c = '[' then (.control, true)
    else if c ∈ [']', 'P', 'X', '^', '_'] then (.string, true)
    else if isIntermediate c then (.intermediate, true)
    else (.ground, '0' ≤ c && c ≤ '~')
  | .intermediate, c =>
    if c = escapeChar then (.introduced, true)
    else if isIntermediate c then (.intermediate, true)
    else (.ground, '0' ≤ c && c ≤ '~')
  | .control, c =>
    if c = escapeChar then (.introduced, true)
    else if isIntermediate c || isParameter c then (.control, true)
    else (.ground, '@' ≤ c && c ≤ '~')
  | .string, c =>
    if c = escapeChar then (.introduced, true)
    else if c = '\x07' then (.ground, true)
    else (.string, true)

/-- Each character with whether it belongs to a sequence. -/
def marked : Reading → List Char → List (Char × Bool)
  | _, [] => []
  | r, c :: rest => (c, (next r c).2) :: marked (next r c).1 rest

def after : Reading → List Char → Reading
  | r, [] => r
  | r, c :: rest => after (next r c).1 rest

/-- Every character belongs to a sequence that was opened before. -/
def Consumed (r : Reading) (text : List Char) : Prop := ∀ entry ∈ marked r text, entry.2 = true

/-- The text begins like a sequence that selects a rendition, without its escape character. -/
def OpensSgr (text : List Char) : Prop :=
  ∃ parameters rest, text = '[' :: (parameters ++ 'm' :: rest) ∧ ∀ c ∈ parameters, isParameter c = true

/-- A sequence that selects a rendition stands in the text. -/
def HasSgr (text : List Char) : Prop :=
  ∃ front back, text = front ++ escapeChar :: back ∧ OpensSgr back

@[simp] theorem next_escapeChar (r : Reading) : next r escapeChar = (.introduced, true) := by
  cases r <;> rfl

theorem marked_fst (r : Reading) (text : List Char) : (marked r text).map Prod.fst = text := by
  induction text generalizing r with
  | nil => rfl
  | cons c rest ih => rw [marked, List.map_cons, ih]

theorem marked_append (r : Reading) (a b : List Char) : marked r (a ++ b) = marked r a ++ marked (after r a) b := by
  induction a generalizing r with
  | nil => rfl
  | cons c rest ih => rw [List.cons_append, marked, ih, marked, after, List.cons_append]

theorem hasSgr_nil : ¬HasSgr [] := by
  rintro ⟨front, back, h, -⟩
  exact List.append_ne_nil_of_right_ne_nil _ (List.cons_ne_nil _ _) h.symm

theorem hasSgr_cons {c : Char} {rest : List Char} :
    HasSgr (c :: rest) ↔ c = escapeChar ∧ OpensSgr rest ∨ HasSgr rest := by
  constructor
  · rintro ⟨_ | ⟨d, front⟩, back, h, hback⟩
    · obtain ⟨hc, rfl⟩ := List.cons.inj h
      exact .inl ⟨hc, hback⟩
    · exact .inr ⟨front, back, (List.cons.inj h).2, hback⟩
  · rintro (⟨rfl, hrest⟩ | ⟨front, back, rfl, hback⟩)
    · exact ⟨[], rest, rfl, hrest⟩
    · exact ⟨c :: front, back, rfl, hback⟩

end Escapes
