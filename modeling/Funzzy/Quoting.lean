import Funzzy.Output.Evidence
import Funzzy.Prepare
import Funzzy.Lib.ShellWords

/-! Quoting for the shell (`render_paths` of `template.rs`, `shell_quote` of `output.rs`).

    Both quote as `ShellWords.quote` does, so a shell reads the changed paths back as they are, and in the
    commands that are suggested for retrieving output it finds the task and the instance they are about. -/

namespace Funzzy

open ShellWords (Writes)

/-- The paths of a batch are read back one by one. -/
theorem words_renderPaths {paths : List String} (hpaths : ∀ path ∈ paths, '\x00' ∉ path.toList) :
    ShellWords.words (renderPaths paths) = some (paths.map String.toList) := by
  refine ShellWords.words_intercalate ?_
  induction paths with
  | nil => exact .nil
  | cons path paths ih =>
    exact .cons (.quote (hpaths path List.mem_cons_self)) (ih fun p hmem => hpaths p (List.mem_cons_of_mem _ hmem))

/-! ### The suggested commands -/

section Commands

/-- A number writes its digits. -/
theorem writes_digits (n : Nat) : Writes (Nat.toDigits 10 n) (Nat.toDigits 10 n) := by
  refine .plain Nat.toDigits_ne_nil fun c hdigits hmem => ?_
  have hdigit := Nat.isDigit_of_mem_toDigits (by decide) (by decide) hdigits
  have hother : ('\x00' :: '\x27' :: '"' :: '\\' :: ' ' :: '\t' :: ShellWords.specials).all
      (fun c => !c.isDigit) = true := by
    decide
  have hno := List.all_eq_true.mp hother c hmem
  rw [hdigit] at hno
  cases hno

/-- The words of `legacy_retrieve_command`. -/
def legacyRetrieveWords (generation : Nat) (task : String) : List (List Char) :=
  ["fzz".toList, "control".toList, "output".toList, "--generation".toList, Nat.toDigits 10 generation,
    "--task".toList, task.toList, "--tail".toList, "80".toList]

/-- The words of the retrieval command of `output_ref`. -/
def retrieveWords (instanceToken : String) (generation : Nat) (task : String) : List (List Char) :=
  ["fzz".toList, "control".toList, "output".toList, "--instance".toList, instanceToken.toList,
    "--generation".toList, Nat.toDigits 10 generation, "--task".toList, task.toList, "--tail".toList,
    "80".toList]

/-- The words that stand in front of the first argument. -/
theorem words_lead {lead a b c d rest : List Char} {words : List (List Char)}
    (hlead : lead = a ++ ' ' :: (b ++ ' ' :: (c ++ ' ' :: (d ++ [' ']))))
    (hwords : ∀ text ∈ [a, b, c, d], Writes text text) (hrest : ShellWords.words rest = some words) :
    ShellWords.words (lead ++ rest) = some (a :: b :: c :: d :: words) := by
  have h : lead ++ rest = a ++ ' ' :: (b ++ ' ' :: (c ++ ' ' :: (d ++ ' ' :: rest))) := by
    rw [hlead]
    simp
  rw [h, (hwords a (by simp)).words_cons, (hwords b (by simp)).words_cons, (hwords c (by simp)).words_cons,
    (hwords d (by simp)).words_cons, hrest]
  rfl

/-- An argument with a literal behind it. -/
theorem words_argument {text word literal a rest : List Char} {words : List (List Char)}
    (hliteral : literal = ' ' :: (a ++ [' '])) (htext : Writes text word) (ha : Writes a a)
    (hrest : ShellWords.words rest = some words) :
    ShellWords.words (text ++ (literal ++ rest)) = some (word :: a :: words) := by
  have h : text ++ (literal ++ rest) = text ++ ' ' :: (a ++ ' ' :: rest) := by
    rw [hliteral]
    simp
  rw [h, htext.words_cons, ha.words_cons, hrest]
  rfl

/-- The last argument and the words at the end. -/
theorem words_tail {text word literal a b : List Char} (hliteral : literal = ' ' :: (a ++ ' ' :: b))
    (htext : Writes text word) (ha : Writes a a) (hb : Writes b b) :
    ShellWords.words (text ++ literal) = some [word, a, b] := by
  rw [hliteral, htext.words_cons, ha.words_cons, hb.words_last]
  rfl

theorem writes_literal {text : String} (hne : text.toList ≠ [])
    (hplain : text.toList.all (fun c => ShellWords.Plain c) = true) : Writes text.toList text.toList :=
  .plain hne fun c hmem => of_decide_eq_true (List.all_eq_true.mp hplain c hmem)

theorem words_task (task : String) (htask : '\x00' ∉ task.toList) :
    ShellWords.words (shellQuote task ++ " --tail 80".toList) = some [task.toList, "--tail".toList, "80".toList] := by
  refine words_tail (by decide +kernel) (.quote htask) ?_ ?_
  all_goals exact writes_literal (by decide +kernel) (by decide +kernel)

theorem words_generation (generation : Nat) (task : String) (htask : '\x00' ∉ task.toList) :
    ShellWords.words (Nat.toDigits 10 generation
        ++ (" --task ".toList ++ (shellQuote task ++ " --tail 80".toList)))
      = some [Nat.toDigits 10 generation, "--task".toList, task.toList, "--tail".toList, "80".toList] := by
  refine words_argument (by decide +kernel) (writes_digits generation) ?_ (words_task task htask)
  exact writes_literal (by decide +kernel) (by decide +kernel)

theorem toList_append_five (a b c d e : List Char) :
    (String.ofList (a ++ b ++ c ++ d ++ e)).toList = a ++ (b ++ (c ++ (d ++ e))) := by
  simp

theorem words_legacyRetrieveCommand (generation : Nat) {task : String} (htask : '\x00' ∉ task.toList) :
    ShellWords.words (legacyRetrieveCommand generation task).toList
      = some (legacyRetrieveWords generation task) := by
  have hcommand := words_generation generation task htask
  have hlead : "fzz control output --generation ".toList = "fzz".toList ++ ' ' :: ("control".toList ++ ' ' ::
      ("output".toList ++ ' ' :: ("--generation".toList ++ [' ']))) := by
    decide +kernel
  refine (congrArg ShellWords.words (toList_append_five ..)).trans (words_lead hlead ?_ hcommand)
  simp only [List.forall_mem_cons]
  refine ⟨?_, ?_, ?_, ?_, fun _ h => nomatch h⟩
  all_goals exact writes_literal (by decide +kernel) (by decide +kernel)

theorem toList_append_seven (a b c d e f g : List Char) :
    (String.ofList (a ++ b ++ c ++ d ++ e ++ f ++ g)).toList = a ++ (b ++ (c ++ (d ++ (e ++ (f ++ g))))) := by
  simp

theorem words_retrieve (generation : Nat) {instanceToken task : String} (htoken : '\x00' ∉ instanceToken.toList)
    (htask : '\x00' ∉ task.toList) :
    ShellWords.words (outputRef instanceToken generation task).retrieve.toList
      = some (retrieveWords instanceToken generation task) := by
  have hgeneration : " --generation ".toList = ' ' :: ("--generation".toList ++ [' ']) := by
    decide +kernel
  have hcommand := words_argument hgeneration (.quote htoken)
    (writes_literal (by decide +kernel) (by decide +kernel)) (words_generation generation task htask)
  have hlead : "fzz control output --instance ".toList = "fzz".toList ++ ' ' :: ("control".toList ++ ' ' ::
      ("output".toList ++ ' ' :: ("--instance".toList ++ [' ']))) := by
    decide +kernel
  refine (congrArg ShellWords.words (toList_append_seven ..)).trans (words_lead hlead ?_ hcommand)
  simp only [List.forall_mem_cons]
  refine ⟨?_, ?_, ?_, ?_, fun _ h => nomatch h⟩
  all_goals exact writes_literal (by decide +kernel) (by decide +kernel)

end Commands

/-- A shell reads the changed paths back, and the task and the instance of the commands that are suggested
    for retrieving output. -/
theorem quoting_round_trip (paths : List String) (generation : Nat) (instanceToken task : String)
    (hpaths : ∀ path ∈ paths, '\x00' ∉ path.toList) (htoken : '\x00' ∉ instanceToken.toList)
    (htask : '\x00' ∉ task.toList) :
    ShellWords.words (renderPaths paths) = some (paths.map String.toList) ∧
      ShellWords.words (legacyRetrieveCommand generation task).toList
        = some (legacyRetrieveWords generation task) ∧
      ShellWords.words (outputRef instanceToken generation task).retrieve.toList
        = some (retrieveWords instanceToken generation task) :=
  ⟨words_renderPaths hpaths, words_legacyRetrieveCommand generation htask, words_retrieve generation htoken htask⟩

theorem quoting_round_trip_quotes :
    ShellWords.words (renderPaths ["", "it's", "a b\n"]) = some (["", "it's", "a b\n"].map String.toList) ∧
      ShellWords.words (legacyRetrieveCommand 7 "@dev 'quick'").toList
        = some (legacyRetrieveWords 7 "@dev 'quick'") ∧
      ShellWords.words (outputRef "t;1" 7 "@dev 'quick'").retrieve.toList
        = some (retrieveWords "t;1" 7 "@dev 'quick'") :=
  quoting_round_trip ["", "it's", "a b\n"] 7 "t;1" "@dev 'quick'" (by decide +kernel) (by decide +kernel)
    (by decide +kernel)

end Funzzy
