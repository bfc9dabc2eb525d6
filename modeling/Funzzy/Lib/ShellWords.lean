import Mathlib.Data.List.Basic
import Mathlib.Data.List.Forall2

/-! How a POSIX shell reads a plain list of words.

    The reader stands outside of quotes, in single or double ones, or behind a backslash. It gives the
    words of a text that is nothing but words and blanks: where a character would expand, redirect or end
    the command, or where a quotation is left open, there is no such list. A word that has begun is kept
    apart from none at all, so that an empty quotation is an empty word. -/

namespace ShellWords

/-- Where the reader stands. -/
inductive Mode where
  | bare | escaped | single | double | doubleEscaped
  deriving DecidableEq

/-- The characters that may mean more than themselves outside of quotes. -/
def specials : List Char :=
  ['|', '&', ';', '<', '>', '(', ')', '$', '\x60', '*', '?', '[', ']', '#', '~', '=', '%', '!', '^', '\x7b', '\x7d',
    '\n']

/-- The characters a backslash escapes in double quotes. -/
def escapable : List Char := ['$', '\x60', '"', '\\']

/-- One more character of a word. -/
def push (word : Option (List Char)) (text : List Char) : Option (List Char) := some (word.getD [] ++ text)

/-- The words of a text, the one that has begun in front. No word holds a null character. -/
def lex : Mode → Option (List Char) → List Char → Option (List (List Char))
  | .bare, word, [] => some word.toList
  | _, _, [] => none
  | mode, word, c :: rest =>
    if c = '\x00' then none
    else
      match mode with
      | .bare =>
        if c = '\x27' then lex .single (push word []) rest
        else if c = '"' then lex .double (push word []) rest
        else if c = '\\' then lex .escaped word rest
        else if c = ' ' ∨ c = '\t' then (lex .bare none rest).map (word.toList ++ ·)
        else if c ∈ specials then none
        else lex .bare (push word [c]) rest
      | .escaped => if c = '\n' then lex .bare word rest else lex .bare (push word [c]) rest
      | .single => if c = '\x27' then lex .bare word rest else lex .single (push word [c]) rest
      | .double =>
        if c = '"' then lex .bare word rest
        else if c = '\\' then lex .doubleEscaped word rest
        else if c = '$' ∨ c = '\x60' then none
        else lex .double (push word [c]) rest
      | .doubleEscaped =>
        if c = '\n' then lex .double word rest
        else if c ∈ escapable then lex .double (push word [c]) rest
        else lex .double (push word ['\\', c]) rest

/-- The words of a whole text. -/
def words (text : List Char) : Option (List (List Char)) := lex .bare none text

/-- A text in single quotes, its own single quotes escaped between two quotations. -/
def quote (text : List Char) : List Char :=
  '\x27' :: text.flatMap (fun c => if c = '\x27' then ['\x27', '\\', '\x27', '\x27'] else [c]) ++ ['\x27']

/-- A character that means itself outside of quotes. -/
def Plain (c : Char) : Prop := c ∉ '\x00' :: '\x27' :: '"' :: '\\' :: ' ' :: '\t' :: specials

instance (c : Char) : Decidable (Plain c) := inferInstanceAs (Decidable (¬ _))

/-- A text that writes one word, whatever comes behind it. -/
def Writes (text word : List Char) : Prop :=
  ∀ rest, lex .bare none (text ++ rest) = lex .bare (some word) rest

/-! ### Words -/

section Words

variable {word : Option (List Char)} {text rest : List Char}

/-- What is quoted is read as it is, up to the closing quote. -/
theorem lex_single (hnul : '\x00' ∉ text) (rest : List Char) : ∀ word : List Char,
    lex .single (some word) (text.flatMap (fun c => if c = '\x27' then ['\x27', '\\', '\x27', '\x27'] else [c])
        ++ '\x27' :: rest) = lex .bare (some (word ++ text)) rest := by
  induction text with
  | nil =>
    intro word
    simp [lex]
  | cons c text ih =>
    intro word
    rw [List.mem_cons, not_or] at hnul
    have ih := ih hnul.2 (word ++ [c])
    rw [List.append_assoc, List.singleton_append] at ih
    rw [← ih, List.flatMap_cons, List.append_assoc]
    by_cases hquote : c = '\x27'
    · -- The quotation ends, the quote comes behind a backslash, and the next quotation begins.
      subst hquote
      simp [lex, push]
    · simp [lex, push, hquote, Ne.symm hnul.1]

/-- A quoted text is one word, also an empty one. -/
theorem Writes.quote (hnul : '\x00' ∉ text) : Writes (quote text) text := by
  intro rest
  have h := lex_single hnul rest []
  rw [List.nil_append] at h
  rw [← h, ShellWords.quote, List.append_assoc, List.cons_append]
  simp [lex, push]

theorem lex_plain {c : Char} (hc : Plain c) (rest : List Char) :
    lex .bare word (c :: rest) = lex .bare (push word [c]) rest := by
  simp only [Plain, List.mem_cons, not_or] at hc
  obtain ⟨hnul, hsingle, hdouble, hslash, hspace, htab, hspecial⟩ := hc
  simp [lex, hnul, hsingle, hdouble, hslash, hspace, htab, hspecial]

/-- Characters that mean themselves are a word. -/
theorem Writes.plain (hne : text ≠ []) (hplain : ∀ c ∈ text, Plain c) : Writes text text := by
  have hpush : ∀ text : List Char, (∀ c ∈ text, Plain c) → ∀ word rest,
      lex .bare (some word) (text ++ rest) = lex .bare (some (word ++ text)) rest := by
    intro text
    induction text with
    | nil => simp
    | cons c text ih =>
      intro hplain word rest
      rw [List.cons_append, lex_plain (hplain c List.mem_cons_self)]
      rw [push, ih fun d hmem => hplain d (List.mem_cons_of_mem c hmem)]
      simp
  intro rest
  cases text with
  | nil => exact absurd rfl hne
  | cons c text =>
    rw [List.cons_append, lex_plain (hplain c List.mem_cons_self)]
    exact hpush text (fun d hmem => hplain d (List.mem_cons_of_mem c hmem)) [c] rest

/-- A space ends a word. -/
theorem Writes.words_cons {text word : List Char} (h : Writes text word) (rest : List Char) :
    ShellWords.words (text ++ ' ' :: rest) = (ShellWords.words rest).map (word :: ·) := by
  rw [ShellWords.words, h]
  simp [lex, ShellWords.words]

/-- So does the end of the text. -/
theorem Writes.words_last {text word : List Char} (h : Writes text word) :
    ShellWords.words text = some [word] := by
  have hend := h []
  rw [List.append_nil] at hend
  rw [ShellWords.words, hend]
  rfl

/-- Words with a space between them are read as these words. -/
theorem words_intercalate {texts words : List (List Char)} (h : List.Forall₂ Writes texts words) :
    ShellWords.words ([' '].intercalate texts) = some words := by
  induction h with
  | nil => rfl
  | @cons text word texts words hword hrest ih =>
    cases hrest with
    | nil =>
      rw [List.intercalate_singleton]
      exact hword.words_last
    | @cons next nextWord texts words hnext hrest =>
      rw [List.intercalate_cons_cons, List.append_assoc, List.singleton_append, hword.words_cons, ih]
      rfl

end Words

end ShellWords
