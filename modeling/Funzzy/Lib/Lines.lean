import Mathlib.Data.List.Basic

/-! Terminated lines of a stream.

    `lines` are the complete lines of what has arrived, each with its terminator, and `pending` is what
    stands behind the last terminator. Both are computed one element at a time, so that what a further
    piece of the stream adds can be read off the piece alone. `upTo` cuts a list behind the first
    element that ends it. -/

namespace Lines

variable {α : Type} [DecidableEq α] (nl : α)

/-- One more element: it is added to the open line, and closes it when it is the terminator. -/
def push : List (List α) × List α → α → List (List α) × List α
  | (done, line), x => if x = nl then (done ++ [line ++ [x]], []) else (done, line ++ [x])

def split (stream : List α) : List (List α) × List α := stream.foldl (push nl) ([], [])

/-- The complete lines of a stream. -/
def lines (stream : List α) : List (List α) := (split nl stream).1

/-- What stands behind the last terminator of a stream. -/
def pending (stream : List α) : List α := (split nl stream).2

theorem foldl_push (piece : List α) : ∀ done line,
    piece.foldl (push nl) (done, line)
      = (done ++ (piece.foldl (push nl) ([], line)).1, (piece.foldl (push nl) ([], line)).2) := by
  induction piece with
  | nil => simp
  | cons x rest ih =>
    intro done line
    rw [List.foldl_cons, List.foldl_cons, push, push]
    split
    · rw [ih (done ++ _), ih ([] ++ _)]
      simp
    · exact ih done _

/-- A piece without terminator only makes the open line longer. -/
theorem foldl_open {piece : List α} (h : nl ∉ piece) : ∀ done line,
    piece.foldl (push nl) (done, line) = (done, line ++ piece) := by
  induction piece with
  | nil => simp
  | cons x rest ih =>
    intro done line
    rw [List.mem_cons, not_or] at h
    rw [List.foldl_cons, push, if_neg (Ne.symm h.1), ih h.2, List.append_assoc]
    rfl

theorem split_append (stream piece : List α) :
    split nl (stream ++ piece) = piece.foldl (push nl) (split nl stream) :=
  List.foldl_append ..

theorem lines_open (stream : List α) {piece : List α} (h : nl ∉ piece) :
    lines nl (stream ++ piece) = lines nl stream := by
  rw [lines, split_append, foldl_open nl h]
  rfl

theorem pending_open (stream : List α) {piece : List α} (h : nl ∉ piece) :
    pending nl (stream ++ piece) = pending nl stream ++ piece := by
  rw [pending, split_append, foldl_open nl h]
  rfl

/-- A terminator closes the open line, and what follows it is split for itself. -/
theorem split_close (stream : List α) {piece : List α} (h : nl ∉ piece) (behind : List α) :
    split nl (stream ++ (piece ++ nl :: behind))
      = (lines nl stream ++ [pending nl stream ++ piece ++ [nl]] ++ lines nl behind,
          pending nl behind) := by
  rw [split_append, List.foldl_append, foldl_open nl h, List.foldl_cons, push, if_pos rfl, foldl_push]
  rfl

theorem lines_close (stream : List α) {piece : List α} (h : nl ∉ piece) (behind : List α) :
    lines nl (stream ++ (piece ++ nl :: behind))
      = lines nl stream ++ [pending nl stream ++ piece ++ [nl]] ++ lines nl behind := by
  rw [lines, split_close nl stream h]

theorem pending_close (stream : List α) {piece : List α} (h : nl ∉ piece) (behind : List α) :
    pending nl (stream ++ (piece ++ nl :: behind)) = pending nl behind := by
  rw [pending, split_close nl stream h]

/-- Behind a terminator the stream is split for itself. -/
theorem split_append_of_pending {stream : List α} (h : pending nl stream = []) (piece : List α) :
    split nl (stream ++ piece) = (lines nl stream ++ lines nl piece, pending nl piece) := by
  have hsplit : split nl stream = (lines nl stream, []) := Prod.ext rfl h
  rw [split_append, hsplit, foldl_push]
  rfl

/-- A piece that adds no line and leaves nothing pending is empty. -/
theorem eq_nil_of_lines_nil {piece : List α} (hlines : lines nl piece = [])
    (hpending : pending nl piece = []) : piece = [] := by
  by_cases hmem : nl ∈ piece
  · obtain ⟨line, behind, rfl, hopen⟩ := List.eq_append_cons_of_mem hmem
    rw [← List.nil_append (line ++ _), lines_close nl [] hopen] at hlines
    simp at hlines
  · rw [← List.nil_append piece, pending_open nl [] hmem] at hpending
    exact (List.append_eq_nil_iff.mp hpending).2

/-- What has arrived of pieces written one behind the other is some of them and a part of the next. -/
theorem prefix_flatMap {γ : Type} (f : γ → List α) {seen : List α} : ∀ {l : List γ}, seen <+: l.flatMap f →
    ∃ j ≤ l.length, ∃ part, seen = (l.take j).flatMap f ++ part
      ∧ (part = [] ∨ ∃ x, l[j]? = some x ∧ part <+: f x ∧ part ≠ f x) := by
  intro l
  induction l generalizing seen with
  | nil =>
    intro h
    exact ⟨0, Nat.le_refl 0, [], List.prefix_nil.mp h, .inl rfl⟩
  | cons x rest ih =>
    intro h
    by_cases hwhole : f x <+: seen
    · obtain ⟨behind, rfl⟩ := hwhole
      obtain ⟨j, hj, part, rfl, hpart⟩ := ih ((List.prefix_append_right_inj (f x)).mp h)
      refine ⟨j + 1, Nat.succ_le_succ hj, part, ?_, hpart⟩
      rw [List.take_succ_cons, List.flatMap_cons, List.append_assoc]
    · have hpart : seen <+: f x :=
        (List.prefix_or_prefix_of_prefix h (List.prefix_append ..)).resolve_right hwhole
      refine ⟨0, Nat.zero_le _, seen, rfl, .inr ⟨x, rfl, hpart, ?_⟩⟩
      rintro rfl
      exact hwhole (List.prefix_refl _)

/-! ### Cutting behind the first element that ends a list -/

variable {β : Type} (ends : β → Bool)

def upTo : List β → List β
  | [] => []
  | x :: xs => if ends x then [x] else x :: upTo xs

theorem upTo_append {xs : List β} (h : ∀ x ∈ xs, ends x = false) (ys : List β) :
    upTo ends (xs ++ ys) = xs ++ upTo ends ys := by
  induction xs with
  | nil => rfl
  | cons x rest ih =>
    rw [List.cons_append, upTo, h x (by simp), if_neg (by simp),
      ih fun y hy => h y (List.mem_cons_of_mem x hy)]
    rfl

theorem upTo_eq_nil {xs : List β} (h : upTo ends xs = []) : xs = [] := by
  cases xs with
  | nil => rfl
  | cons x rest =>
    rw [upTo] at h
    split at h <;> exact absurd h (by simp)

/-- When nothing that was kept ends the list, nothing was cut. -/
theorem upTo_of_kept {xs : List β} (h : ∀ x ∈ upTo ends xs, ends x = false) : upTo ends xs = xs := by
  induction xs with
  | nil => rfl
  | cons x rest ih =>
    rw [upTo] at h ⊢
    split at h
    · rename_i hends
      exact absurd (h x (by simp)) (by simp [hends])
    · rename_i hends
      rw [if_neg hends, ih fun y hy => h y (List.mem_cons_of_mem x hy)]

/-! ### Lines with their ends -/

/-- The lines of a text, each with its end; only the last may be without one. -/
def inclusive : List α → List (List α)
  | [] => []
  | c :: rest =>
    if c = nl then [c] :: inclusive rest
    else match inclusive rest with
      | [] => [[c]]
      | line :: lines => (c :: line) :: lines

/-- A line without its end, which may be preceded by `cr`. -/
def stripEnd (cr : α) (line : List α) : List α :=
  match line.reverse with
  | c :: rest =>
    if c = nl then
      match rest with
      | d :: before => if d = cr then before.reverse else rest.reverse
      | [] => []
    else line
  | [] => []

end Lines
