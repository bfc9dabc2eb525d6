import Mathlib.Data.List.Basic
import Mathlib.Data.List.Forall2
import Mathlib.Data.List.TakeWhile

/-! Glob patterns.

    A pattern is compiled to tokens, one character at a time: `?` stands for one character, `*` for any
    text, `**` as a whole component for any components, and a bracket for one character of a set. Three
    stars, `**` beside anything but separators and a bracket that stays open are refused.

    The tokens before the first unbounded one have a character each; from the first unbounded one on, a
    matched text may be made longer. -/

namespace Glob

/-! ### Tokens -/

/-- A part of a bracket: a character, or the characters between two. -/
inductive Specifier where
  | single (c : Char)
  | range (first last : Char)
  deriving DecidableEq

def Specifier.admits (x : Char) : Specifier → Bool
  | .single c => c = x
  | .range first last => first ≤ x && x ≤ last

/-- The parts of a bracket: `a-z` is a range, any other character stands for itself. -/
def specifiers : List Char → List Specifier
  | first :: '-' :: last :: rest => .range first last :: specifiers rest
  | c :: rest => .single c :: specifiers rest
  | [] => []

inductive Token where
  | char (c : Char)
  | anyChar
  | anySequence
  | anyRecursive
  | within (set : List Specifier)
  | except (set : List Specifier)
  deriving DecidableEq

namespace Token

/-- The token stands for one character. -/
def fixed : Token → Bool
  | anySequence | anyRecursive => false
  | _ => true

/-- The characters a fixed token stands for. -/
def admits : Token → Char → Bool
  | char c, x => c = x
  | anyChar, _ => true
  | within set, x => set.any (·.admits x)
  | except set, x => !set.any (·.admits x)
  | anySequence, _ | anyRecursive, _ => false

end Token

/-! ### Compiling -/

/-- Where the compiler stands: outside brackets, and whether behind a separator (or at the start); behind
    one star or two; or in a bracket, with what has been read of it in reverse. -/
inductive Mode where
  | outside (boundary : Bool)
  | star (boundary : Bool)
  | stars
  | opened
  | openedNot
  | inside (negated : Bool) (set : List Char)
  deriving DecidableEq

def bracket (negated : Bool) (set : List Char) : Token :=
  if negated then .except (specifiers set) else .within (specifiers set)

/-- A character outside brackets. -/
def outsideStep (boundary : Bool) (c : Char) : List Token × Mode :=
  if c = '*' then ([], .star boundary)
  else if c = '[' then ([], .opened)
  else if c = '?' then ([.anyChar], .outside false)
  else ([.char c], .outside (c = '/'))

/-- One character of a pattern: the tokens that are complete with it, unless the pattern is refused. -/
def step : Mode → Char → Option (List Token × Mode)
  | .outside boundary, c => some (outsideStep boundary c)
  | .star boundary, c =>
    if c = '*' then if boundary then some ([], .stars) else none
    else some (.anySequence :: (outsideStep false c).1, (outsideStep false c).2)
  | .stars, c => if c = '/' then some ([.anyRecursive], .outside true) else none
  | .opened, c => some ([], if c = '!' then .openedNot else .inside false [c])
  | .openedNot, c => some ([], .inside true [c])
  | .inside negated set, c =>
    if c = ']' then some ([bracket negated set.reverse], .outside false)
    else some ([], .inside negated (c :: set))

/-- The tokens of a text that other text may follow. -/
def run : Mode → List Char → Option (List Token × Mode)
  | m, [] => some ([], m)
  | m, c :: rest =>
    (step m c).bind fun first => (run first.2 rest).map fun more => (first.1 ++ more.1, more.2)

/-- The end of the pattern. -/
def finish : Mode → Option (List Token)
  | .outside _ => some []
  | .star _ => some [.anySequence]
  | .stars => some [.anyRecursive]
  | .opened | .openedNot | .inside _ _ => none

def compileFrom (m : Mode) (pattern : List Char) : Option (List Token) :=
  (run m pattern).bind fun ran => (finish ran.2).map (ran.1 ++ ·)

/-- The tokens of a pattern; none if it is no glob. -/
def compile (pattern : List Char) : Option (List Token) := compileFrom (.outside true) pattern

/-- The pattern is a glob. -/
def valid (pattern : List Char) : Bool := (compile pattern).isSome

/-! ### Matching -/

/-- What `**` may stand for before another token: nothing, or components with their separators. -/
def components (text : List Char) : Bool := text = [] ∨ text.getLast? = some '/'

/-- Whether tokens match a text. Behind a final `**` anything may stand. -/
def accepts : List Token → List Char → Bool
  | [], text => text.isEmpty
  | .anySequence :: tokens, text =>
    (List.range (text.length + 1)).any fun n => accepts tokens (text.drop n)
  | .anyRecursive :: tokens, text =>
    tokens.isEmpty ||
      (List.range (text.length + 1)).any fun n => components (text.take n) && accepts tokens (text.drop n)
  | _ :: _, [] => false
  | token :: tokens, c :: rest => token.admits c && accepts tokens rest

/-! ### Compiling a text in two parts -/

theorem run_append (m : Mode) (x y : List Char) :
    run m (x ++ y) = (run m x).bind fun front => (run front.2 y).map fun back =>
      (front.1 ++ back.1, back.2) := by
  induction x generalizing m with
  | nil => simp [run]
  | cons c rest ih =>
    rw [List.cons_append, run, run]
    cases step m c with
    | none => rfl
    | some first =>
      rw [Option.bind_some, Option.bind_some, ih]
      cases run first.2 rest with
      | none => rfl
      | some more => cases hy : run more.2 y <;> simp [hy]

theorem compileFrom_append (m : Mode) (x y : List Char) :
    compileFrom m (x ++ y) = (run m x).bind fun front => (compileFrom front.2 y).map (front.1 ++ ·) := by
  rw [compileFrom, run_append]
  cases run m x with
  | none => rfl
  | some front =>
    rw [Option.bind_some, Option.bind_some]
    cases hy : run front.2 y with
    | none => simp [compileFrom, hy]
    | some back => cases hlast : finish back.2 <;> simp [compileFrom, hy, hlast]

theorem run_cons_iff {m last : Mode} {c : Char} {rest : List Char} {tokens : List Token} :
    run m (c :: rest) = some (tokens, last)
      ↔ ∃ first m' more, step m c = some (first, m') ∧ run m' rest = some (more, last)
        ∧ tokens = first ++ more := by
  rw [run]
  constructor
  · intro h
    obtain ⟨⟨first, m'⟩, hstep, h⟩ := Option.bind_eq_some_iff.mp h
    obtain ⟨⟨more, _⟩, hrest, h⟩ := Option.map_eq_some_iff.mp h
    cases h
    exact ⟨first, m', more, hstep, hrest, rfl⟩
  · rintro ⟨first, m', more, hstep, hrest, rfl⟩
    rw [hstep, Option.bind_some, hrest]
    rfl

theorem run_append_iff {m last : Mode} {x y : List Char} {tokens : List Token} :
    run m (x ++ y) = some (tokens, last)
      ↔ ∃ front m' back, run m x = some (front, m') ∧ run m' y = some (back, last)
        ∧ tokens = front ++ back := by
  rw [run_append]
  constructor
  · intro h
    obtain ⟨⟨front, m'⟩, hx, h⟩ := Option.bind_eq_some_iff.mp h
    obtain ⟨⟨back, _⟩, hy, h⟩ := Option.map_eq_some_iff.mp h
    cases h
    exact ⟨front, m', back, hx, hy, rfl⟩
  · rintro ⟨front, m', back, hx, hy, rfl⟩
    rw [hx, Option.bind_some, hy]
    rfl

/-! ### Characters that stand for one token each -/

/-- The token of a character that begins no star and no bracket. -/
def simple (c : Char) : Token := if c = '?' then .anyChar else .char c

theorem simple_fixed (c : Char) : (simple c).fixed = true := by
  unfold simple
  split <;> rfl

theorem simple_admits (c : Char) : (simple c).admits c = true := by
  unfold simple
  split
  · rfl
  · simp [Token.admits]

theorem step_simple {c : Char} (hstar : c ≠ '*') (hopen : c ≠ '[') (boundary : Bool) :
    step (.outside boundary) c = some ([simple c], .outside (c = '/')) := by
  rw [step, outsideStep, if_neg hstar, if_neg hopen, simple]
  split
  · rename_i hquestion
    subst hquestion
    rfl
  · rfl

theorem run_simple {text : List Char} (h : ∀ c ∈ text, c ≠ '*' ∧ c ≠ '[') (boundary : Bool) :
    ∃ behind, run (.outside boundary) text = some (text.map simple, .outside behind) := by
  induction text generalizing boundary with
  | nil => exact ⟨boundary, rfl⟩
  | cons c rest ih =>
    obtain ⟨behind, hrest⟩ := ih (fun c' hc' => h c' (List.mem_cons_of_mem _ hc')) (c = '/')
    have hc := h c List.mem_cons_self
    exact ⟨behind, run_cons_iff.mpr ⟨_, _, _, step_simple hc.1 hc.2 boundary, hrest, rfl⟩⟩

/-- The characters that stand for themselves. -/
def literal (c : Char) : Bool := c ≠ '*' && c ≠ '?' && c ≠ '['

theorem literal_iff {c : Char} : literal c = true ↔ c ≠ '*' ∧ c ≠ '?' ∧ c ≠ '[' := by
  simp [literal, and_assoc]

theorem map_simple {text : List Char} (h : ∀ c ∈ text, literal c = true) :
    text.map simple = text.map Token.char := by
  refine List.map_congr_left fun c hc => ?_
  rw [simple, if_neg (literal_iff.mp (h c hc)).2.1]

theorem run_literal {text : List Char} (h : ∀ c ∈ text, literal c = true) (boundary : Bool) :
    ∃ behind, run (.outside boundary) text = some (text.map Token.char, .outside behind) := by
  rw [← map_simple h]
  exact run_simple (fun c hc => ⟨(literal_iff.mp (h c hc)).1, (literal_iff.mp (h c hc)).2.2⟩) boundary

/-! ### Counting tokens -/

/-- A star that has been read is still to become a token. -/
def pending : Mode → Nat
  | .star _ | .stars => 1
  | _ => 0

theorem outsideStep_length (boundary : Bool) (c : Char) :
    (outsideStep boundary c).1.length + pending (outsideStep boundary c).2 ≤ 1 := by
  unfold outsideStep
  split_ifs <;> simp [pending]

theorem step_length {m m' : Mode} {c : Char} {tokens : List Token} (h : step m c = some (tokens, m')) :
    tokens.length + pending m' ≤ 1 + pending m := by
  cases m with
  | outside boundary =>
    have hc := outsideStep_length boundary c
    rw [Option.some.inj h] at hc
    simpa [pending] using hc
  | star boundary =>
    rw [step] at h
    split_ifs at h
    · cases h
      simp [pending]
    · have hc := outsideStep_length false c
      cases h
      have hstar : pending (.star boundary) = 1 := rfl
      rw [List.length_cons, hstar]
      omega
  | stars =>
    rw [step] at h
    split_ifs at h
    cases h
    simp [pending]
  | opened =>
    rw [step] at h
    cases h
    split_ifs <;> simp [pending]
  | openedNot =>
    cases h
    simp [pending]
  | inside negated set =>
    rw [step] at h
    split_ifs at h <;> cases h <;> simp [pending]

/-- A text has no more tokens than characters. -/
theorem run_length {m last : Mode} {text : List Char} {tokens : List Token}
    (h : run m text = some (tokens, last)) : tokens.length + pending last ≤ text.length + pending m := by
  induction text generalizing m tokens with
  | nil =>
    cases h
    simp
  | cons c rest ih =>
    obtain ⟨first, m', more, hstep, hrest, rfl⟩ := run_cons_iff.mp h
    have hfirst := step_length hstep
    have hmore := ih hrest
    simp only [List.length_append, List.length_cons]
    omega

theorem finish_length {m : Mode} {tokens : List Token} (h : finish m = some tokens) :
    tokens.length = pending m := by
  cases m <;> simp_all [finish, pending] <;> subst h <;> rfl

/-- Behind a star stands an unbounded token. -/
theorem run_star {m last : Mode} (hm : pending m = 1) {text : List Char} {tokens closing : List Token}
    (h : run m text = some (tokens, last)) (hlast : finish last = some closing) :
    ∃ token ∈ tokens ++ closing, token.fixed = false := by
  induction text generalizing m tokens with
  | nil =>
    cases h
    cases last <;> simp [pending] at hm <;> cases hlast
    · exact ⟨.anySequence, List.mem_singleton_self _, rfl⟩
    · exact ⟨.anyRecursive, List.mem_singleton_self _, rfl⟩
  | cons c rest ih =>
    obtain ⟨first, m', more, hstep, hrest, rfl⟩ := run_cons_iff.mp h
    cases m <;> simp [pending] at hm
    · rw [step] at hstep
      split_ifs at hstep
      · cases hstep
        exact ih rfl hrest
      · cases hstep
        exact ⟨.anySequence, by simp, rfl⟩
    · rw [step] at hstep
      split_ifs at hstep
      cases hstep
      exact ⟨.anyRecursive, by simp, rfl⟩

/-- A text with as many tokens as characters, each standing for one character, has no star and no
    bracket. -/
theorem simple_of_length {boundary : Bool} {last : Mode} {text : List Char} {tokens closing : List Token}
    (h : run (.outside boundary) text = some (tokens, last)) (hlast : finish last = some closing)
    (hfixed : ∀ token ∈ tokens ++ closing, token.fixed = true) (hlength : tokens.length = text.length) :
    ∀ c ∈ text, c ≠ '*' ∧ c ≠ '[' := by
  induction text generalizing boundary tokens with
  | nil => simp
  | cons c rest ih =>
    obtain ⟨first, m', more, hstep, hrest, rfl⟩ := run_cons_iff.mp h
    rw [step, outsideStep] at hstep
    split_ifs at hstep with hstar hopen hquestion
    · -- a star leaves an unbounded token
      cases hstep
      obtain ⟨token, htoken, hunbounded⟩ := run_star rfl hrest hlast
      rw [hfixed token (by simpa using htoken)] at hunbounded
      cases hunbounded
    · -- a bracket has fewer tokens than characters
      cases hstep
      have hmore := run_length hrest
      simp [pending] at hmore hlength
      omega
    all_goals
      cases hstep
      refine List.forall_mem_cons.mpr ⟨⟨hstar, hopen⟩, ih hrest ?_ (by simpa using hlength)⟩
      intro token htoken
      exact hfixed token (by simpa using .inr (List.mem_append.mp htoken))

theorem simple_of_compile {text : List Char} {tokens : List Token} (h : compile text = some tokens)
    (hfixed : ∀ token ∈ tokens, token.fixed = true) (hlength : tokens.length = text.length) :
    ∀ c ∈ text, c ≠ '*' ∧ c ≠ '[' := by
  obtain ⟨⟨front, last⟩, hrun, h⟩ := Option.bind_eq_some_iff.mp h
  obtain ⟨closing, hclosing, rfl⟩ := Option.map_eq_some_iff.mp h
  refine simple_of_length hrun hclosing hfixed ?_
  cases last with
  | outside =>
    cases hclosing
    simpa using hlength
  | star | stars =>
    cases hclosing
    cases hfixed _ (List.mem_append_right _ (List.mem_singleton_self _))
  | opened | openedNot | inside => cases hclosing

/-! ### Directories -/

/-- Behind a separator the compiler stands at the start of a component, or in a bracket. -/
theorem step_separator {m m' : Mode} {tokens : List Token} (h : step m '/' = some (tokens, m')) :
    m' = .outside true ∨ ∃ negated set, m' = .inside negated set := by
  cases m with
  | outside | star | stars =>
    cases h
    exact .inl rfl
  | opened | openedNot | inside =>
    cases h
    exact .inr ⟨_, _, rfl⟩

/-- The pattern for everything below a directory: the tokens of the directory, and `**`. -/
theorem compile_recursive {m : Mode} {text : List Char} {tokens : List Token}
    (h : compileFrom m (text ++ ['/', '*', '*']) = some tokens) :
    ∃ front, run m (text ++ ['/']) = some (front, .outside true) ∧ tokens = front ++ [.anyRecursive] := by
  have hsplit : text ++ ['/', '*', '*'] = (text ++ ['/']) ++ ['*', '*'] := by simp
  rw [hsplit, compileFrom_append] at h
  obtain ⟨⟨_, m'⟩, hrun, h⟩ := Option.bind_eq_some_iff.mp h
  obtain ⟨more, hmore, rfl⟩ := Option.map_eq_some_iff.mp h
  obtain ⟨before, m'', _, hbefore, hlast, rfl⟩ := run_append_iff.mp hrun
  obtain ⟨first, _, _, hstep, hend, rfl⟩ := run_cons_iff.mp hlast
  cases hend
  rcases step_separator hstep with rfl | ⟨negated, set, rfl⟩
  · cases hmore
    exact ⟨_, hrun, rfl⟩
  · cases hmore

/-- `**` behind a separator makes no glob of a text that is none, and breaks none. -/
theorem valid_recursive (text : List Char) : valid (text ++ ['/', '*', '*']) = valid text := by
  rw [valid, valid, compile, compile, compileFrom_append, compileFrom]
  cases run (.outside true) text with
  | none => rfl
  | some front =>
    obtain ⟨tokens, m⟩ := front
    cases m <;> rfl

/-- A single star is an unbounded token. -/
theorem compileFrom_star {text : List Char} (h : text.head? ≠ some '*') (boundary : Bool) :
    compileFrom (.star boundary) text
      = (compileFrom (.outside false) text).map (.anySequence :: ·) := by
  cases text with
  | nil => rfl
  | cons c rest =>
    have hstar : c ≠ '*' := by simpa using h
    rw [compileFrom, compileFrom, run, run, step, step, if_neg hstar, Option.bind_some, Option.bind_some]
    cases hrest : run (outsideStep false c).2 rest with
    | none => simp
    | some more => cases hlast : finish more.2 <;> simp [hlast]

/-- The tokens of a text with a star behind characters that stand for themselves. -/
theorem compile_sequence {x text : List Char} (hx : ∀ c ∈ x, literal c = true) (h : text.head? ≠ some '*')
    {tokens : List Token} (htokens : compileFrom (.outside false) text = some tokens) :
    compile (x ++ '*' :: text) = some (x.map Token.char ++ .anySequence :: tokens) := by
  obtain ⟨behind, hrun⟩ := run_literal hx true
  have hstar : compileFrom (.outside behind) ('*' :: text) = compileFrom (.star behind) text := by
    simp [compileFrom, run, step, outsideStep]
  rw [compile, compileFrom_append, hrun, Option.bind_some, hstar, compileFrom_star h, htokens]
  rfl

theorem compile_length {text : List Char} {tokens : List Token} (h : compile text = some tokens) :
    tokens.length ≤ text.length := by
  obtain ⟨⟨front, last⟩, hrun, h⟩ := Option.bind_eq_some_iff.mp h
  obtain ⟨closing, hclosing, rfl⟩ := Option.map_eq_some_iff.mp h
  have hfront := run_length hrun
  have hback := finish_length hclosing
  have hstart : pending (.outside true) = 0 := rfl
  dsimp only at hback ⊢
  rw [List.length_append]
  omega

theorem compileFrom_simple {text : List Char} (h : ∀ c ∈ text, c ≠ '*' ∧ c ≠ '[') (boundary : Bool) :
    compileFrom (.outside boundary) text = some (text.map simple) := by
  obtain ⟨behind, hrun⟩ := run_simple h boundary
  rw [compileFrom, hrun, Option.bind_some]
  simp [finish]

theorem run_directory {text : List Char} (h : ∀ c ∈ text, c ≠ '*' ∧ c ≠ '[') (boundary : Bool) :
    run (.outside boundary) (text ++ ['/']) = some ((text ++ ['/']).map simple, .outside true) := by
  obtain ⟨behind, hrun⟩ := run_simple h boundary
  refine run_append_iff.mpr ⟨_, _, _, hrun, ?_, List.map_append⟩
  exact run_cons_iff.mpr ⟨_, _, [], step_simple (by decide) (by decide) behind, rfl, rfl⟩

theorem compileFrom_directory {text : List Char} (h : ∀ c ∈ text, c ≠ '*' ∧ c ≠ '[') (boundary : Bool) :
    compileFrom (.outside boundary) (text ++ ['/', '*', '*'])
      = some ((text ++ ['/']).map simple ++ [.anyRecursive]) := by
  have hsplit : text ++ ['/', '*', '*'] = (text ++ ['/']) ++ ['*', '*'] := by simp
  rw [hsplit, compileFrom_append, run_directory h, Option.bind_some]
  rfl

/-! ### Matching -/

theorem accepts_cons {token : Token} (h : token.fixed = true) (tokens : List Token) (text : List Char) :
    accepts (token :: tokens) text = true
      ↔ ∃ c rest, text = c :: rest ∧ token.admits c = true ∧ accepts tokens rest = true := by
  cases token with
  | anySequence | anyRecursive => cases h
  | char | anyChar | within | except => cases text <;> simp [accepts]

/-- The characters stand for the tokens one by one. -/
abbrev Stands (tokens : List Token) (text : List Char) : Prop :=
  List.Forall₂ (fun token c => token.admits c = true) tokens text

theorem accepts_append {front : List Token} (h : ∀ token ∈ front, token.fixed = true) (tokens : List Token)
    (text : List Char) : accepts (front ++ tokens) text = true
      ↔ ∃ x y, text = x ++ y ∧ Stands front x ∧ accepts tokens y = true := by
  induction front generalizing text with
  | nil => simp
  | cons token front ih =>
    rw [List.forall_mem_cons] at h
    rw [List.cons_append, accepts_cons h.1]
    constructor
    · rintro ⟨c, rest, rfl, hc, hrest⟩
      obtain ⟨x, y, rfl, hx, hy⟩ := (ih h.2 rest).mp hrest
      exact ⟨c :: x, y, rfl, .cons hc hx, hy⟩
    · rintro ⟨_, y, rfl, hstands, hy⟩
      obtain ⟨c, x, hc, hx, rfl⟩ := List.forall₂_cons_left_iff.mp hstands
      exact ⟨c, x ++ y, rfl, hc, (ih h.2 _).mpr ⟨x, y, rfl, hx, hy⟩⟩

/-- From an unbounded token on, a text may be made longer by any components. -/
theorem accepts_longer {token : Token} (h : token.fixed = false) {tokens : List Token} {text : List Char}
    (ht : accepts (token :: tokens) text = true) (more : List Char) :
    accepts (token :: tokens) (more ++ '/' :: text) = true := by
  have hdrop : ∀ n, (more ++ '/' :: text).drop (more.length + 1 + n) = text.drop n := by
    intro n
    rw [← List.drop_drop, show more ++ '/' :: text = (more ++ ['/']) ++ text by simp,
      List.drop_left' (by simp)]
  have htake : ∀ n, (more ++ '/' :: text).take (more.length + 1 + n) = more ++ '/' :: text.take n := by
    intro n
    rw [show more ++ '/' :: text = (more ++ ['/']) ++ text by simp, show more.length + 1 = (more ++ ['/']).length
      by simp, List.take_length_add_append]
    simp
  cases token with
  | char | anyChar | within | except => cases h
  | anySequence =>
    rw [accepts, List.any_eq_true] at ht ⊢
    obtain ⟨n, hn, hrest⟩ := ht
    refine ⟨more.length + 1 + n, ?_, by rwa [hdrop]⟩
    simp at hn ⊢
    omega
  | anyRecursive =>
    rw [accepts, Bool.or_eq_true, List.any_eq_true] at ht ⊢
    rcases ht with hnil | ⟨n, hn, hrest⟩
    · exact .inl hnil
    · refine .inr ⟨more.length + 1 + n, ?_, ?_⟩
      · simp at hn ⊢
        omega
      · rw [Bool.and_eq_true] at hrest ⊢
        rw [htake, hdrop]
        refine ⟨?_, hrest.2⟩
        have hboundary := hrest.1
        simp only [components, decide_eq_true_eq] at hboundary ⊢
        rcases hboundary with hnil | hlast
        · simp [hnil]
        · right
          rw [List.getLast?_append, List.getLast?_cons, hlast]
          rfl

/-- A matched text: either every token has its character, or the text of an unbounded token begins
    somewhere. -/
theorem accepts_cases {tokens : List Token} {text : List Char} (h : accepts tokens text = true) :
    ((∀ token ∈ tokens, token.fixed = true) ∧ Stands tokens text)
      ∨ ∃ front token back x y, tokens = front ++ token :: back ∧ (∀ t ∈ front, t.fixed = true)
        ∧ token.fixed = false ∧ text = x ++ y ∧ Stands front x ∧ accepts (token :: back) y = true := by
  have hsplit := List.takeWhile_append_dropWhile (p := Token.fixed) (l := tokens)
  have hfront : ∀ t ∈ tokens.takeWhile Token.fixed, t.fixed = true := fun t ht => List.mem_takeWhile_imp ht
  rw [← hsplit, accepts_append hfront] at h
  obtain ⟨x, y, rfl, hx, hy⟩ := h
  cases hback : tokens.dropWhile Token.fixed with
  | nil =>
    rw [hback] at hy hsplit
    rw [List.append_nil] at hsplit
    rw [List.isEmpty_iff.mp hy, List.append_nil]
    rw [hsplit] at hfront hx
    exact .inl ⟨hfront, hx⟩
  | cons token back =>
    rw [hback] at hy hsplit
    have hhead := List.head?_dropWhile_not Token.fixed tokens
    rw [hback, List.head?_cons] at hhead
    refine .inr ⟨_, token, back, x, y, hsplit.symm, hfront, ?_, rfl, hx, hy⟩
    simpa using hhead

theorem accepts_recursive (text : List Char) : accepts [.anyRecursive] text = true := rfl

theorem accepts_sequence {tokens : List Token} {text : List Char} (h : accepts tokens text = true) :
    accepts (.anySequence :: tokens) text = true := by
  rw [accepts, List.any_eq_true]
  exact ⟨0, by simp, h⟩

theorem Stands.append {front back : List Token} {x y : List Char} (hx : Stands front x) (hy : Stands back y) :
    Stands (front ++ back) (x ++ y) := List.rel_append hx hy

theorem stands_char {text other : List Char} : Stands (text.map Token.char) other ↔ other = text := by
  induction text generalizing other with
  | nil => simp [Stands]
  | cons c rest ih =>
    rw [List.map_cons, Stands, List.forall₂_cons_left_iff]
    constructor
    · rintro ⟨x, more, hx, hmore, rfl⟩
      obtain rfl := ih.mp hmore
      simp only [Token.admits, decide_eq_true_eq] at hx
      rw [hx]
    · rintro rfl
      exact ⟨c, rest, by simp [Token.admits], ih.mpr rfl, rfl⟩

theorem stands_simple (text : List Char) : Stands (text.map simple) text := by
  induction text with
  | nil => exact .nil
  | cons c rest ih => exact .cons (simple_admits c) ih

theorem map_simple_fixed (text : List Char) : ∀ token ∈ text.map simple, token.fixed = true := by
  intro token htoken
  obtain ⟨c, -, rfl⟩ := List.mem_map.mp htoken
  exact simple_fixed c

/-- A text of characters that stand for themselves is matched by itself alone. -/
theorem compile_literal {text : List Char} (h : ∀ c ∈ text, literal c = true) :
    compile text = some (text.map Token.char) := by
  obtain ⟨behind, hrun⟩ := run_literal h true
  rw [compile, compileFrom, hrun, Option.bind_some]
  simp [finish]

theorem accepts_literal {text other : List Char} :
    accepts (text.map Token.char) other = true ↔ other = text := by
  have hfixed : ∀ token ∈ text.map Token.char, token.fixed = true := by
    intro token htoken
    obtain ⟨c, -, rfl⟩ := List.mem_map.mp htoken
    rfl
  have happend := accepts_append hfixed [] other
  rw [List.append_nil] at happend
  rw [happend]
  constructor
  · rintro ⟨x, y, rfl, hx, hy⟩
    rw [stands_char.mp hx, List.isEmpty_iff.mp hy, List.append_nil]
  · rintro rfl
    exact ⟨_, [], (List.append_nil _).symm, stands_char.mpr rfl, rfl⟩

end Glob
