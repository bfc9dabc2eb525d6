import Funzzy.Config.Migration
import Funzzy.Lib.Edits

/-! How much of the text `fzz migrate` changes (`migrate_content` and `rename_root_key` in
    `cli/migrate.rs`).

    The migration is to be a small edit that a second migration does not repeat: the root key is renamed and
    nothing else, or a root list gets a line before it and an indentation. The edit works on lines, so a key
    that shares its line with anything else is not renamed, and the lines' ends are written anew. -/

namespace Funzzy

open Lines (Closed Open AreLines KeepsEnds inclusive lines lineRest pending stripEnd)

/-! ### Renaming, line by line -/

/-- The key's line renamed, without its end. -/
def renameBody (body : List Char) : List Char := if body = "tasks:".toList then "jobs:".toList else body

/-- What `rename_root_key` makes of a line with its end. -/
def renameLine (line : List Char) : List Char :=
  renameBody (stripEnd '\n' '\r' line) ++ if line.getLast? = some '\n' then ['\n'] else []

theorem isKeyLine_tasks (line : String) : isKeyLine "tasks" line = true ↔ line.toList = "tasks:".toList := by
  have hkey : "tasks".toList ++ [':'] = "tasks:".toList := by decide
  rw [isKeyLine, Bool.and_eq_true, beq_iff_eq, List.isPrefixOf_iff_prefix, hkey, trimStart]
  constructor
  · rintro ⟨htrimmed, hbegins⟩
    rw [htrimmed] at hbegins
    obtain ⟨rest, hline⟩ := hbegins
    have hfirst : line.toList.dropWhile isSpace = line.toList := by
      rw [← hline]
      exact List.dropWhile_cons_of_neg (by decide)
    rw [← hfirst, htrimmed]
  · intro hline
    have hfirst : line.toList.dropWhile isSpace = "tasks:".toList := by
      rw [hline]
      decide
    exact ⟨hfirst, by rw [hfirst, hline]⟩

theorem renameRootKey_line (line : String) :
    (if isKeyLine "tasks" line then
        String.ofList (line.toList.take (line.length - (trimStart line.toList).length)) ++ "jobs" ++ ":"
      else line).toList = renameBody line.toList := by
  by_cases hline : line.toList = "tasks:".toList
  · have hstring : line = "tasks:" := String.toList_inj.mp hline
    rw [if_pos ((isKeyLine_tasks line).mpr hline), renameBody, if_pos hline, hstring]
    decide
  · rw [if_neg fun h => hline ((isKeyLine_tasks line).mp h), renameBody, if_neg hline]

/-- Joining the lines anew gives each of them a new end, and the text the end it had. -/
theorem intercalate_lines (text : List Char) :
    ['\n'].intercalate ((inclusive '\n' text).map fun line => renameBody (stripEnd '\n' '\r' line))
        ++ (if text.getLast? = some '\n' then ['\n'] else [])
      = ((inclusive '\n' text).map renameLine).flatten := by
  induction text using Lines.line_induction '\n' with
  | hopen body h =>
    by_cases hne : body = []
    · rw [hne]
      rfl
    · rw [Lines.inclusive_open '\n' h hne, List.map_singleton, List.map_singleton, List.intercalate_singleton,
        List.flatten_singleton]
      rfl
  | hclose body rest h ih =>
    rw [Lines.inclusive_close '\n' h, List.map_cons, List.map_cons, List.flatten_cons, ← ih]
    have hline : renameLine (body ++ ['\n']) = renameBody (stripEnd '\n' '\r' (body ++ ['\n'])) ++ ['\n'] := by
      rw [renameLine, List.getLast?_concat, if_pos rfl]
    rw [hline]
    by_cases hrest : rest = []
    · rw [hrest]
      simp [inclusive]
    · have hlines : inclusive '\n' rest ≠ [] := by
        intro hnone
        rw [← Lines.inclusive_flatten '\n' rest, hnone] at hrest
        exact hrest rfl
      have hlast : (body ++ '\n' :: rest).getLast? = rest.getLast? := by
        obtain ⟨last, hsome⟩ := Option.ne_none_iff_exists'.mp (mt List.getLast?_eq_none_iff.mp hrest)
        simp [List.getLast?_append, List.getLast?_cons, hsome]
      rw [hlast, List.intercalate_cons_of_ne_nil (by simpa using hlines)]
      simp

theorem renameRootKey_toList (content : String) :
    (renameRootKey content "tasks" "jobs").toList = ((inclusiveLines content).map renameLine).flatten := by
  have hlines : ((strLines content).map fun line =>
      if isKeyLine "tasks" line then
        String.ofList (line.toList.take (line.length - (trimStart line.toList).length)) ++ "jobs" ++ ":"
      else line).map String.toList
        = (inclusive '\n' content.toList).map fun line => renameBody (stripEnd '\n' '\r' line) := by
    rw [strLines, List.map_map, List.map_map]
    refine List.map_congr_left fun line _ => ?_
    rw [Function.comp_apply, Function.comp_apply, renameRootKey_line, String.toList_ofList]
  have hend : (if content.toList.getLast? = some '\n' then "\n" else "").toList
      = if content.toList.getLast? = some '\n' then ['\n'] else [] := by
    split <;> rfl
  rw [renameRootKey, String.toList_append, String.toList_intercalate, hlines, hend]
  exact intercalate_lines content.toList

theorem renameLine_close (body : List Char) :
    renameLine (body ++ ['\n']) = renameBody (stripEnd '\n' '\r' (body ++ ['\n'])) ++ ['\n'] := by
  rw [renameLine, List.getLast?_concat, if_pos rfl]

theorem renameLine_open {body : List Char} (h : '\n' ∉ body) : renameLine body = renameBody body := by
  have hlast : body.getLast? ≠ some '\n' := fun hlast => h (List.mem_of_getLast? hlast)
  rw [renameLine, Lines.stripEnd_open '\n' '\r' h, if_neg hlast, List.append_nil]

theorem renameBody_open {body : List Char} (h : '\n' ∉ body) : '\n' ∉ renameBody body := by
  rw [renameBody]
  split
  · decide
  · exact h

theorem keepsEnds_renameLine : KeepsEnds '\n' renameLine where
  closed := by
    rintro _ ⟨body, hbody, rfl⟩
    refine ⟨_, renameBody_open ?_, renameLine_close body⟩
    rcases List.eq_nil_or_concat body with rfl | ⟨before, last, rfl⟩
    · rw [List.nil_append, Lines.stripEnd_nil]
      exact List.not_mem_nil
    · rw [List.concat_eq_append] at hbody ⊢
      rw [Lines.stripEnd_close]
      split
      · exact fun h => hbody (List.mem_append_left _ h)
      · exact hbody
  opened := by
    rintro body ⟨hne, hbody⟩
    rw [renameLine_open hbody]
    refine ⟨?_, renameBody_open hbody⟩
    rw [renameBody]
    split
    · decide
    · exact hne

/-! ### Which renaming is the root key's -/

/-- A line that renaming leaves alone: it does not end in `\r\n`, and it is not the key on its own. -/
def Kept (line : List Char) : Prop :=
  ¬ ['\r', '\n'] <:+ line ∧ stripEnd '\n' '\r' line ≠ "tasks:".toList

theorem renameBody_eq_self {body : List Char} : renameBody body = body ↔ body ≠ "tasks:".toList := by
  rw [renameBody]
  split
  · next h =>
    rw [h]
    decide
  · next h => exact iff_of_true rfl h

theorem crlf_suffix_iff (before : List Char) (last : Char) :
    ['\r', '\n'] <:+ before ++ [last] ++ ['\n'] ↔ last = '\r' := by
  constructor
  · rintro ⟨rest, hrest⟩
    have hline : rest ++ ['\r'] ++ ['\n'] = before ++ [last] ++ ['\n'] := by simpa using hrest
    have hbody := List.append_cancel_right hline
    exact (List.cons.inj (List.append_inj' hbody rfl).2).1.symm
  · rintro rfl
    exact ⟨before, by simp⟩

theorem renameLine_eq_self {line : List Char} (h : Closed '\n' line ∨ Open '\n' line) :
    renameLine line = line ↔ Kept line := by
  rcases h with ⟨body, hbody, rfl⟩ | ⟨-, hbody⟩
  · rw [renameLine_close, List.append_left_inj, Kept]
    rcases List.eq_nil_or_concat body with rfl | ⟨before, last, rfl⟩
    · decide
    · rw [List.concat_eq_append, crlf_suffix_iff, Lines.stripEnd_close]
      split
      · next hlast =>
        refine iff_of_false (fun hself => ?_) fun hkept => hkept.1 hlast
        rw [renameBody] at hself
        split at hself
        · rw [hlast] at hself
          have hend := congrArg List.getLast? hself
          rw [List.getLast?_concat] at hend
          exact absurd hend (by decide)
        · have hlength := congrArg List.length hself
          rw [List.length_append, List.length_singleton] at hlength
          omega
      · next hlast => exact renameBody_eq_self.trans ⟨fun hne => ⟨hlast, hne⟩, fun hkept => hkept.2⟩
  · have hsuffix : ¬ ['\r', '\n'] <:+ line := fun hsuffix => hbody (hsuffix.subset (by simp))
    rw [renameLine_open hbody, renameBody_eq_self, Kept, Lines.stripEnd_open '\n' '\r' hbody]
    exact ⟨fun hne => ⟨hsuffix, hne⟩, fun hkept => hkept.2⟩

/-- The root key stands alone in its line, no line ends in `\r\n`, and no other line is the key alone. -/
structure KeyLine (before key after : List Char) : Prop where
  plain : key = "tasks".toList
  starts : pending '\n' before = []
  ends : lineRest '\n' after = [':'] ∨ lineRest '\n' after = [':', '\n']
  others : ∀ line ∈ lines '\n' before ++ (inclusive '\n' after).tail, Kept line

theorem renameBody_around {before key after : List Char} (hkey : key ≠ "jobs".toList) :
    renameBody (before ++ key ++ after) = before ++ "jobs".toList ++ after ↔
      key = "tasks".toList ∧ before = [] ∧ after = [':'] := by
  constructor
  · intro h
    rw [renameBody] at h
    split at h
    · next hline =>
      have hbefore : before = [] := by
        cases before with
        | nil => rfl
        | cons c rest =>
          have htasks : c = 't' := (List.cons.inj hline).1
          have hjobs : 'j' = c := (List.cons.inj h).1
          rw [← hjobs] at htasks
          exact absurd htasks (by decide)
      subst hbefore
      have hafter : [':'] = after := List.append_cancel_left (show "jobs".toList ++ [':'] = "jobs".toList ++ after from h)
      subst hafter
      exact ⟨List.append_cancel_right (show key ++ [':'] = "tasks".toList ++ [':'] from hline), rfl, rfl⟩
    · exact absurd (List.append_cancel_left (List.append_cancel_right h)) hkey
  · rintro ⟨rfl, rfl, rfl⟩
    decide

/-- A list behind which an element moves to the front is made of that element. -/
theorem head_of_rotate {c last : Char} : ∀ {text : List Char}, text ++ [last] = c :: text → c = last
  | [], h => (List.cons.inj h).1.symm
  | d :: text, h => by
    obtain ⟨rfl, hrest⟩ := List.cons.inj h
    exact head_of_rotate hrest

/-- The key's line begins where its key does. -/
theorem before_eq_nil {before after rest : List Char} (hjobs : "jobs:".toList = before ++ after)
    (htasks : before ++ rest = 't' :: "asks:".toList ∨ before ++ rest = 't' :: "asks:\r".toList) : before = [] := by
  cases before with
  | nil => rfl
  | cons c more =>
    have hj : 'j' = c := (List.cons.inj hjobs).1
    have ht : c = 't' := htasks.elim (fun h => (List.cons.inj h).1) fun h => (List.cons.inj h).1
    exact absurd (hj.trans ht) (by decide)

/-- Renaming the line does not do it when the line also loses a `\r`. -/
theorem renameBody_crlf {before key after stripped : List Char} (hkey : key ≠ "jobs\r".toList)
    (hline : before ++ key ++ after = stripped ++ ['\r']) :
    renameBody stripped ≠ before ++ "jobs".toList ++ after := by
  intro h
  rw [renameBody] at h
  split at h
  · next hstripped =>
    rw [hstripped] at hline
    rw [List.append_assoc] at h hline
    obtain rfl := before_eq_nil h (.inr hline)
    have hafter : [':'] = after := List.append_cancel_left (show "jobs".toList ++ [':'] = "jobs".toList ++ after from h)
    subst hafter
    have hend := congrArg List.getLast? hline
    rw [List.nil_append, List.getLast?_concat] at hend
    exact absurd hend (by decide)
  · rw [h, List.append_assoc, List.append_assoc, List.append_assoc, List.append_cancel_left_eq] at hline
    rcases List.append_eq_append_iff.mp hline with ⟨more, -, hmore⟩ | ⟨more, hmore, hrotate⟩
    · have hlength := congrArg List.length hmore
      simp at hlength
      omega
    · obtain ⟨c, rfl⟩ : ∃ c, more = [c] := by
        have hlength := congrArg List.length hrotate
        rw [List.length_append, List.length_append, List.length_singleton] at hlength
        exact List.length_eq_one_iff.mp (by omega)
      obtain rfl := head_of_rotate hrotate
      exact hkey hmore

theorem renameLine_around {before key after : List Char} (hkey : key ≠ "jobs".toList)
    (hspelled : key ≠ "jobs\r".toList) (hbefore : '\n' ∉ before) (hopen : '\n' ∉ key)
    (hafter : '\n' ∉ after ∨ Closed '\n' after) :
    renameLine (before ++ key ++ after) = before ++ "jobs".toList ++ after ↔
      key = "tasks".toList ∧ before = [] ∧ (after = [':'] ∨ after = [':', '\n']) := by
  rcases hafter with hafter | ⟨body, hbody, rfl⟩
  · rw [renameLine_open (by simp [hbefore, hopen, hafter]), renameBody_around hkey]
    have hclosed : after ≠ [':', '\n'] := by
      rintro rfl
      exact hafter (by decide)
    simp [hclosed]
  · have hends : (body ++ ['\n'] = [':'] ∨ body ++ ['\n'] = [':', '\n']) ↔ body = [':'] := by
      refine ⟨fun h => h.elim (fun h => ?_) fun h => ?_, fun h => .inr (by rw [h]; rfl)⟩
      · have hlast := congrArg List.getLast? h
        rw [List.getLast?_concat] at hlast
        exact absurd hlast (by decide)
      · exact List.append_cancel_right (show body ++ ['\n'] = [':'] ++ ['\n'] from h)
    rw [hends, ← List.append_assoc, ← List.append_assoc, renameLine_close, List.append_left_inj]
    rcases List.eq_nil_or_concat (before ++ key ++ body) with hnil | ⟨stripped, last, hline⟩
    · rw [← renameBody_around hkey, hnil, List.nil_append, Lines.stripEnd_nil]
    · rw [List.concat_eq_append] at hline
      rw [hline, Lines.stripEnd_close, ← hline]
      split
      · next hlast =>
        rw [hlast] at hline
        refine iff_of_false (renameBody_crlf hspelled hline) ?_
        rintro ⟨rfl, rfl, rfl⟩
        exact absurd (List.append_inj' hline rfl).2 (by decide)
      · exact renameBody_around hkey

/-- Renaming replaces the root key and nothing else exactly when it has its line to itself. -/
theorem renameRootKey_iff {before key after : List Char} (hne : key ≠ []) (hkey : key ≠ "jobs".toList)
    (hspelled : key ≠ "jobs\r".toList) :
    (renameRootKey (String.ofList (before ++ (key ++ after))) "tasks" "jobs").toList
      = before ++ ("jobs".toList ++ after) ↔ KeyLine before key after := by
  rw [renameRootKey_toList, inclusiveLines, String.toList_ofList]
  by_cases hopen : '\n' ∈ key
  · refine iff_of_false (fun h => ?_) fun hkeyLine => ?_
    · have hcount := Lines.count_edited keepsEnds_renameLine (before ++ (key ++ after))
      have hmore := List.count_pos_iff.mpr hopen
      have hnone : "jobs".toList.count '\n' = 0 := by decide
      rw [h, List.count_append, List.count_append, List.count_append, List.count_append, hnone] at hcount
      omega
    · rw [hkeyLine.plain] at hopen
      exact absurd hopen (by decide)
  · rw [Lines.edited_eq_iff '\n' keepsEnds_renameLine before hopen hne (by decide) (by decide) after,
      renameLine_around hkey hspelled (Lines.pending_free '\n' before) hopen (Lines.lineRest_cases '\n' after)]
    have hkept : ∀ line ∈ lines '\n' before ++ (inclusive '\n' after).tail,
        (renameLine line = line ↔ Kept line) := by
      intro line hline
      refine renameLine_eq_self ?_
      rcases List.mem_append.mp hline with hline | hline
      · exact .inl (Lines.closed_of_mem_lines '\n' before line hline)
      · exact Lines.mem_inclusive '\n' after line (List.mem_of_mem_tail hline)
    constructor
    · rintro ⟨hothers, hplain, hstarts, hends⟩
      exact ⟨hplain, hstarts, hends, fun line hline => (hkept line hline).mp (hothers line hline)⟩
    · rintro ⟨hplain, hstarts, hends, hothers⟩
      exact ⟨fun line hline => (hkept line hline).mpr (hothers line hline), hplain, hstarts, hends⟩

/-! ### Wrapping, and back -/

/-- The line starts an item, its end apart. -/
def startsItem (line : List Char) : Bool := isItemLine (String.ofList (stripEnd '\n' '\r' line))

/-- A line of the wrapped list, further out again. -/
def outdentLine (line : List Char) : List Char := if line.all isSpace then line else line.drop 2

/-- The list without the line before it and without its indentation. -/
def unwrapTasks (migrated : String) : String :=
  match taskStart migrated with
  | some (start + 1) =>
    let lines := inclusiveLines migrated
    String.ofList ((lines.take start).flatten ++ ((lines.drop (start + 1)).map outdentLine).flatten)
  | _ => migrated

theorem taskStart_eq (content : String) : taskStart content = (inclusiveLines content).findIdx? startsItem := by
  rw [taskStart, strLines, List.findIdx?_map]
  rfl

theorem outdent_indent (line : List Char) : outdentLine (indentLine line) = line := by
  rw [indentLine]
  split
  · next h => rw [outdentLine, if_pos h]
  · next h =>
    have hmore : ¬ (' ' :: ' ' :: line).all isSpace = true := fun hall => h (by simp_all)
    rw [outdentLine, if_neg hmore]
    rfl

theorem keepsEnds_indentLine : KeepsEnds '\n' indentLine where
  closed := by
    rintro _ ⟨body, hbody, rfl⟩
    rw [indentLine]
    split
    · exact ⟨body, hbody, rfl⟩
    · exact ⟨' ' :: ' ' :: body, by simp [hbody], rfl⟩
  opened := by
    rintro line ⟨hne, hopen⟩
    rw [indentLine]
    split
    · exact ⟨hne, hopen⟩
    · exact ⟨List.cons_ne_nil _ _, by simp [hopen]⟩

theorem startsItem_indent {line : List Char} (h : Closed '\n' line ∨ Open '\n' line) :
    startsItem (indentLine line) = startsItem line := by
  have hdeeper : stripEnd '\n' '\r' (' ' :: ' ' :: line) = ' ' :: ' ' :: stripEnd '\n' '\r' line := by
    rcases h with ⟨body, hbody, rfl⟩ | ⟨-, hopen⟩
    · rcases List.eq_nil_or_concat body with rfl | ⟨before, last, rfl⟩
      · decide
      · rw [List.concat_eq_append, Lines.stripEnd_close]
        have hline := Lines.stripEnd_close '\n' '\r' (' ' :: ' ' :: before) last
        rw [List.cons_append, List.cons_append, List.cons_append, List.cons_append] at hline
        rw [hline]
        split <;> rfl
    · rw [Lines.stripEnd_open '\n' '\r' hopen, Lines.stripEnd_open '\n' '\r' (by simp [hopen])]
  rw [indentLine]
  split
  · rfl
  · rw [startsItem, startsItem, hdeeper, isItemLine, isItemLine, String.toList_ofList, String.toList_ofList]
    rfl

/-- The lines around the first that starts an item. -/
structure Around (above : List (List Char)) (first : List Char) : Prop where
  above : ∀ line ∈ above, startsItem line = false
  first : startsItem first = true

theorem findIdx?_around {above : List (List Char)} {first : List Char} (h : Around above first)
    (below : List (List Char)) : (above ++ first :: below).findIdx? startsItem = some above.length := by
  have hnone : above.findIdx? startsItem = none := List.findIdx?_eq_none_iff.mpr h.above
  rw [List.findIdx?_append, hnone, List.findIdx?_cons, if_pos h.first]
  simp

theorem exists_around : ∀ {lines : List (List Char)} {start : Nat}, lines.findIdx? startsItem = some start →
    ∃ above first below, lines = above ++ first :: below ∧ above.length = start ∧ Around above first
  | [], _, h => by simp at h
  | line :: rest, start, h => by
    rw [List.findIdx?_cons] at h
    split at h
    · next hline =>
      cases h
      exact ⟨[], line, rest, rfl, rfl, ⟨by simp, hline⟩⟩
    · next hline =>
      obtain ⟨next, hnext, rfl⟩ := Option.map_eq_some_iff.mp h
      obtain ⟨above, first, below, rfl, rfl, habove, hfirst⟩ := exists_around hnext
      rw [Bool.not_eq_true] at hline
      exact ⟨line :: above, first, below, rfl, rfl, ⟨List.forall_mem_cons.mpr ⟨hline, habove⟩, hfirst⟩⟩

/-- The lines of a wrapped text. -/
theorem inclusiveLines_wrap {content : String} {above : List (List Char)} {first : List Char}
    {below : List (List Char)} (hlines : inclusiveLines content = above ++ first :: below) :
    inclusiveLines (wrapTasks content above.length)
      = above ++ "jobs:\n".toList :: (first :: below).map indentLine := by
  have hare : AreLines '\n' (above ++ first :: below) :=
    hlines ▸ Lines.areLines_inclusive '\n' content.toList
  obtain ⟨habove, hbelow⟩ := (Lines.areLines_append '\n' (List.cons_ne_nil _ _)).mp hare
  have hjobs : Closed '\n' "jobs:\n".toList := ⟨"jobs:".toList, by decide, by decide⟩
  have hwrapped : AreLines '\n' (above ++ "jobs:\n".toList :: (first :: below).map indentLine) :=
    (Lines.areLines_append '\n' (List.cons_ne_nil _ _)).mpr
      ⟨habove, Lines.areLines_cons '\n' hjobs (hbelow.map '\n' keepsEnds_indentLine)⟩
  rw [inclusiveLines, wrapTasks, String.toList_ofList, hlines, List.take_left, List.drop_left]
  rw [← Lines.inclusive_of_areLines '\n' hwrapped]
  simp

theorem taskStart_wrap {content : String} {start : Nat} (h : taskStart content = some start) :
    taskStart (wrapTasks content start) = some (start + 1) := by
  rw [taskStart_eq] at h
  obtain ⟨above, first, below, hlines, rfl, haround⟩ := exists_around h
  have hfirst : Closed '\n' first ∨ Open '\n' first := by
    refine Lines.mem_inclusive '\n' content.toList first ?_
    change first ∈ inclusiveLines content
    rw [hlines]
    exact List.mem_append_right _ List.mem_cons_self
  have hwrapped : Around (above ++ ["jobs:\n".toList]) (indentLine first) := by
    refine ⟨?_, (startsItem_indent hfirst).trans haround.first⟩
    rw [List.forall_mem_append, List.forall_mem_singleton]
    exact ⟨haround.above, by decide⟩
  have hindex := findIdx?_around hwrapped (below.map indentLine)
  rw [taskStart_eq, inclusiveLines_wrap hlines]
  simpa using hindex

/-- The original is what is left when the line before the list and the indentation are taken away. -/
theorem unwrap_wrap {content : String} {start : Nat} (h : taskStart content = some start) :
    unwrapTasks (wrapTasks content start) = content := by
  have hwrapped := taskStart_wrap h
  rw [taskStart_eq] at h
  obtain ⟨above, first, below, hlines, rfl, -⟩ := exists_around h
  have hback : ((first :: below).map indentLine).map outdentLine = first :: below := by
    rw [List.map_map]
    exact (List.map_congr_left fun line _ => outdent_indent line).trans (List.map_id _)
  rw [unwrapTasks, hwrapped]
  simp only [inclusiveLines_wrap hlines, List.take_left]
  have hdrop : (above ++ "jobs:\n".toList :: (first :: below).map indentLine).drop (above.length + 1)
      = (first :: below).map indentLine := by
    rw [List.drop_append]
    simp
  rw [hdrop, hback, ← List.flatten_append, ← hlines, inclusiveLines, Lines.inclusive_flatten,
    String.ofList_toList]

theorem wrap_ne {content : String} {start : Nat} (h : taskStart content = some start) :
    wrapTasks content start ≠ content := by
  intro hsame
  have hwrapped := taskStart_wrap h
  rw [hsame, h] at hwrapped
  exact absurd (Option.some.inj hwrapped) (by omega)

/-! ### The migration -/

section Edit

variable (load : String → Except ScanError (List Yaml))

/-- The text is one document with this root. -/
def Reads (content : String) (root : Yaml) : Prop := load content = .ok [root]

/-- The text is one document whose root has `jobs`. -/
def ReadsJobs (content : String) : Prop := ∃ root, Reads load content root ∧ (root.get "jobs").isBad = false

/-- The root is a mapping of grouped tasks. -/
structure Grouped (content : String) (entries : List (Yaml × Yaml)) : Prop where
  read : Reads load content (.hash entries)
  jobs : ((Yaml.hash entries).get "jobs").isBad = true
  tasks : ((Yaml.hash entries).get "tasks").isBad = false

/-- What the grammar of YAML says of one text: the line where a block list at the root begins, if its lines
    are lines of the text, how the root key `tasks` is spelled and what stands before and after it, and how
    the text reads when it is edited there. A list indented below a key is the key's value, unless a line
    that ends the document is indented with it; a line put in at another place of a list does not make it a
    mapping. -/
structure Layout (legacy : String) (listLine : Option Nat) (before key after : List Char) : Prop where
  spelled : ∀ entries, Grouped load legacy entries → legacy = String.ofList (before ++ (key ++ after)) ∧
    key ≠ [] ∧ key ≠ "jobs".toList ∧ key ≠ "jobs\r".toList
  renamed : ∀ entries, Grouped load legacy entries → hasKey "jobs" entries = false →
    Reads load (String.ofList (before ++ ("jobs".toList ++ after)))
      (.hash (entries.map (renameKey "tasks" "jobs")))
  clash : ∀ entries, Grouped load legacy entries → hasKey "jobs" entries = true →
    ∃ err, load (String.ofList (before ++ ("jobs".toList ++ after))) = .error err
  nested : ∀ items start, Reads load legacy (.array items) → taskStart legacy = some start →
    listLine = some start → ((inclusiveLines legacy).drop start).any isDocumentEnd = false →
    ReadsJobs load (wrapTasks legacy start)
  placed : ∀ items start, Reads load legacy (.array items) → taskStart legacy = some start →
    ∀ root, Reads load (wrapTasks legacy start) root →
      (∃ items', root = .array items') ∨ listLine = some start ∧ (root.get "jobs").isBad = false ∧
        ((inclusiveLines legacy).drop start).any isDocumentEnd = false

/-- The edit is small, and it is the last one: a root key is renamed and nothing else, and a list gets one line
    before it and an indentation that can be taken away again. -/
structure Minimal (legacy migrated : String) (before after : List Char) : Prop where
  idempotent : migrateContent load migrated = .ok migrated
  renamed : ∀ entries, Grouped load legacy entries →
    migrated.toList = before ++ ("jobs".toList ++ after) ∧ ReadsJobs load migrated
  wrapped : ∀ items, Reads load legacy (.array items) →
    ∃ above below, inclusiveLines legacy = above ++ below ∧
      inclusiveLines migrated = above ++ "jobs:\n".toList :: below.map indentLine ∧ unwrapTasks migrated = legacy

/-- Grouped tasks have their key on a line of its own, no line that renaming would touch and no `jobs` beside
    them; a list is a block list that begins where the first line starts an item, and no line from there on
    ends the document. -/
structure Editable (legacy : String) (listLine : Option Nat) (before key after : List Char) : Prop where
  grouped : ∀ entries, Grouped load legacy entries → KeyLine before key after ∧ hasKey "jobs" entries = false
  list : ∀ items start, Reads load legacy (.array items) → taskStart legacy = some start → listLine = some start
  unended : ∀ items start, Reads load legacy (.array items) → taskStart legacy = some start →
    ((inclusiveLines legacy).drop start).any isDocumentEnd = false

variable {load} {legacy migrated : String} {listLine : Option Nat} {before key after : List Char}

theorem get_array_isBad (items : List Yaml) (name : String) : ((Yaml.array items).get name).isBad = true := rfl

theorem migrateContent_read {root : Yaml} (h : Reads load legacy root) : migrateContent load legacy =
    match root with
    | .array _ =>
      match taskStart legacy with
      | some start => .ok (wrapTasks legacy start)
      | none => .error (.genericError "Legacy .watch.yaml does not contain any tasks to migrate")
    | root =>
      if !(root.get "jobs").isBad then .ok legacy
      else if !(root.get "tasks").isBad then .ok (renameRootKey legacy "tasks" "jobs")
      else .error (.genericError "Legacy .watch.yaml root must be a task list") := by
  rw [Reads] at h
  unfold migrateContent
  rw [h]
  cases root <;> rfl

theorem migrateContent_of_jobs (h : ReadsJobs load legacy) : migrateContent load legacy = .ok legacy := by
  obtain ⟨root, hread, hjobs⟩ := h
  rw [migrateContent_read hread]
  cases root with
  | array items => exact absurd hjobs (by simp [get_array_isBad])
  | _ => simp only [hjobs, Bool.not_false, if_true]

theorem exists_read (h : migrateContent load legacy = .ok migrated) : ∃ root, Reads load legacy root := by
  unfold migrateContent at h
  split at h
  · cases h
  · next hload => exact ⟨_, hload⟩
  · next hload => exact ⟨_, hload⟩
  · cases h

/-- A migration is one of three edits. -/
theorem migrateContent_cases (h : migrateContent load legacy = .ok migrated) :
    (∃ items start, Reads load legacy (.array items) ∧ taskStart legacy = some start ∧
        migrated = wrapTasks legacy start) ∨
      (ReadsJobs load legacy ∧ migrated = legacy) ∨
      ∃ entries, Grouped load legacy entries ∧ migrated = renameRootKey legacy "tasks" "jobs" := by
  obtain ⟨root, hread⟩ := exists_read h
  rw [migrateContent_read hread] at h
  cases root with
  | array items =>
    cases hstart : taskStart legacy with
    | none => simp [hstart] at h
    | some start =>
      simp only [hstart, Except.ok.injEq] at h
      exact .inl ⟨items, start, hread, rfl, h.symm⟩
  | hash entries =>
    cases hjobs : ((Yaml.hash entries).get "jobs").isBad with
    | false =>
      simp only [hjobs, Bool.not_false, if_true, Except.ok.injEq] at h
      exact .inr (.inl ⟨⟨_, hread, hjobs⟩, h.symm⟩)
    | true =>
      cases htasks : ((Yaml.hash entries).get "tasks").isBad with
      | false =>
        simp only [hjobs, htasks, Bool.not_false, Bool.not_true, Bool.false_eq_true, if_true, if_false,
          Except.ok.injEq] at h
        exact .inr (.inr ⟨entries, ⟨hread, hjobs, htasks⟩, h.symm⟩)
      | true => simp [hjobs, htasks] at h
  | _ => exact absurd h (by simp [Yaml.get, Yaml.isBad])

theorem read_unique {a b : Yaml} (ha : Reads load legacy a) (hb : Reads load legacy b) : a = b := by
  rw [Reads] at ha hb
  rw [ha] at hb
  exact (List.cons.inj (Except.ok.inj hb)).1

/-- A wrapped list is left alone exactly when it is read as jobs. -/
theorem wrapped_iff {items : List Yaml} {start : Nat} (hlayout : Layout load legacy listLine before key after)
    (hread : Reads load legacy (.array items)) (hstart : taskStart legacy = some start) :
    Minimal load legacy (wrapTasks legacy start) before after ↔ Editable load legacy listLine before key after := by
  have hgrouped : ∀ entries, ¬ Grouped load legacy entries := by
    intro entries hgrouped
    cases read_unique hread hgrouped.read
  constructor
  · intro hminimal
    obtain ⟨root, hroot⟩ := exists_read hminimal.idempotent
    have hplaced : listLine = some start ∧ (root.get "jobs").isBad = false ∧
        ((inclusiveLines legacy).drop start).any isDocumentEnd = false := by
      refine (hlayout.placed items start hread hstart root hroot).resolve_left ?_
      rintro ⟨items', rfl⟩
      have hagain := hminimal.idempotent
      rw [migrateContent_read hroot, taskStart_wrap hstart] at hagain
      exact wrap_ne (taskStart_wrap hstart) (Except.ok.inj hagain)
    refine ⟨fun entries h => absurd h (hgrouped entries), ?_, ?_⟩
    · intro items' start' _ hstart'
      rw [hstart] at hstart'
      cases hstart'
      exact hplaced.1
    · intro items' start' _ hstart'
      rw [hstart] at hstart'
      cases hstart'
      exact hplaced.2.2
  · intro heditable
    have hjobs : ReadsJobs load (wrapTasks legacy start) :=
      hlayout.nested items start hread hstart (heditable.list items start hread hstart)
        (heditable.unended items start hread hstart)
    refine ⟨migrateContent_of_jobs hjobs, fun entries h => absurd h (hgrouped entries), fun items' _ => ?_⟩
    have hsplit := hstart
    rw [taskStart_eq] at hsplit
    obtain ⟨above, first, below, hlines, rfl, -⟩ := exists_around hsplit
    exact ⟨above, first :: below, hlines, inclusiveLines_wrap hlines, unwrap_wrap hstart⟩

/-- A renamed key is the root's, and read as jobs, exactly when it has its line to itself. -/
theorem renamed_iff {entries : List (Yaml × Yaml)} (hlayout : Layout load legacy listLine before key after)
    (hgrouped : Grouped load legacy entries) :
    Minimal load legacy (renameRootKey legacy "tasks" "jobs") before after
      ↔ Editable load legacy listLine before key after := by
  obtain ⟨rfl, hne, hkey, hspelled⟩ := hlayout.spelled entries hgrouped
  have hread : ∀ items, ¬ Reads load (String.ofList (before ++ (key ++ after))) (.array items) := by
    intro items hitems
    cases read_unique hitems hgrouped.read
  have hedit : (renameRootKey (String.ofList (before ++ (key ++ after))) "tasks" "jobs").toList
      = before ++ ("jobs".toList ++ after) ↔ KeyLine before key after := renameRootKey_iff hne hkey hspelled
  have htext : ∀ h : KeyLine before key after,
      renameRootKey (String.ofList (before ++ (key ++ after))) "tasks" "jobs"
        = String.ofList (before ++ ("jobs".toList ++ after)) := by
    intro h
    rw [← hedit.mpr h, String.ofList_toList]
  constructor
  · intro hminimal
    obtain ⟨hrenamed, root, hroot, -⟩ := hminimal.renamed entries hgrouped
    have hline := hedit.mp hrenamed
    refine ⟨fun entries' hgrouped' => ⟨hline, ?_⟩, fun items _ h => absurd h (hread items),
      fun items _ h => absurd h (hread items)⟩
    cases read_unique hgrouped.read hgrouped'.read
    rw [← Bool.not_eq_true]
    intro hfresh
    obtain ⟨err, herr⟩ := hlayout.clash entries hgrouped hfresh
    rw [Reads, htext hline, herr] at hroot
    cases hroot
  · intro heditable
    obtain ⟨hline, hfresh⟩ := heditable.grouped entries hgrouped
    have hrenamed := hlayout.renamed entries hgrouped hfresh
    have hjobs : ReadsJobs load (renameRootKey (String.ofList (before ++ (key ++ after))) "tasks" "jobs") := by
      rw [htext hline]
      refine ⟨_, hrenamed, ?_⟩
      rw [get_renamed_jobs hfresh]
      exact hgrouped.tasks
    exact ⟨migrateContent_of_jobs hjobs, fun _ _ => ⟨hedit.mpr hline, hjobs⟩, fun items h => absurd h (hread items)⟩

/-- The edit of an accepted text is small and final exactly when the text has the layout for it. -/
theorem minimal_iff_editable (hlayout : Layout load legacy listLine before key after)
    (h : migrateContent load legacy = .ok migrated) :
    Minimal load legacy migrated before after ↔ Editable load legacy listLine before key after := by
  rcases migrateContent_cases h with ⟨items, start, hread, hstart, rfl⟩ | ⟨hjobs, rfl⟩ | ⟨entries, hgrouped, rfl⟩
  · exact wrapped_iff hlayout hread hstart
  · have hgrouped : ∀ entries, ¬ Grouped load migrated entries := by
      intro entries hgrouped
      obtain ⟨root, hroot, hjobs⟩ := hjobs
      cases read_unique hgrouped.read hroot
      rw [hgrouped.jobs] at hjobs
      cases hjobs
    have hlist : ∀ items, ¬ Reads load migrated (.array items) := by
      intro items hitems
      obtain ⟨root, hroot, hjobs⟩ := hjobs
      cases read_unique hitems hroot
      cases hjobs
    exact iff_of_true
      ⟨h, fun entries hgroup => absurd hgroup (hgrouped entries), fun items hitems => absurd hitems (hlist items)⟩
      ⟨fun entries hgroup => absurd hgroup (hgrouped entries), fun items _ hitems => absurd hitems (hlist items),
        fun items _ hitems => absurd hitems (hlist items)⟩
  · exact renamed_iff hlayout hgrouped

end Edit

/-! ### Two texts -/

def buildTasks : List (Yaml × Yaml) := [(.string "tasks", .array [buildTask])]

/-- What stands behind the root key of grouped tasks. -/
def behindKey : List Char := ":\n  - name: build\n    run: make\n    change: src/**\n".toList

def groupedTasks : String := String.ofList ([] ++ ("tasks".toList ++ behindKey))

def groupedJobs : String := String.ofList ([] ++ ("jobs".toList ++ behindKey))

def groupedScanner : String → Except ScanError (List Yaml) :=
  scanning [(groupedTasks, .hash buildTasks), (groupedJobs, .hash (buildTasks.map (renameKey "tasks" "jobs")))]

theorem groupedScanner_tasks : Reads groupedScanner groupedTasks (.hash buildTasks) := scanning_first _ _ _

theorem groupedScanner_jobs :
    Reads groupedScanner groupedJobs (.hash (buildTasks.map (renameKey "tasks" "jobs"))) :=
  (scanning_next (by decide +kernel) _).trans (scanning_first _ _ _)

theorem groupedScanner_layout : Layout groupedScanner groupedTasks none [] "tasks".toList behindKey where
  spelled := fun _ _ => ⟨rfl, by decide, by decide, by decide⟩
  renamed := by
    intro entries hgrouped _
    cases read_unique groupedScanner_tasks hgrouped.read
    exact groupedScanner_jobs
  clash := by
    intro entries hgrouped hjobs
    cases read_unique groupedScanner_tasks hgrouped.read
    exact absurd hjobs (by decide)
  nested := by
    intro items start hitems
    cases read_unique groupedScanner_tasks hitems
  placed := by
    intro items start hitems
    cases read_unique groupedScanner_tasks hitems

/-- Grouped tasks with their key on a line of its own. -/
theorem minimal_iff_editable_grouped :
    Minimal groupedScanner groupedTasks (renameRootKey groupedTasks "tasks" "jobs") [] behindKey := by
  have hmigrate : migrateContent groupedScanner groupedTasks = .ok (renameRootKey groupedTasks "tasks" "jobs") :=
    migrateContent_read groupedScanner_tasks
  refine (minimal_iff_editable groupedScanner_layout hmigrate).mpr ⟨?_, ?_, ?_⟩
  · intro entries hgrouped
    cases read_unique groupedScanner_tasks hgrouped.read
    refine ⟨⟨rfl, by decide, .inr (by decide), ?_⟩, by decide⟩
    have hkept : ∀ line ∈ ["  - name: build\n".toList, "    run: make\n".toList, "    change: src/**\n".toList],
        Kept line := by
      simp only [List.forall_mem_cons, Kept]
      decide
    have hlines : lines '\n' ([] : List Char) ++ (inclusive '\n' behindKey).tail
        = ["  - name: build\n".toList, "    run: make\n".toList, "    change: src/**\n".toList] := by
      decide +kernel
    rwa [hlines]
  · intro items start hitems
    cases read_unique groupedScanner_tasks hitems
  · intro items start hitems
    cases read_unique groupedScanner_tasks hitems

/-- A remark behind the root key. -/
def behindRemark : List Char := ": # in order\n  - name: build\n    run: make\n    change: src/**\n".toList

def remarkedTasks : String := String.ofList ([] ++ ("tasks".toList ++ behindRemark))

def remarkedScanner : String → Except ScanError (List Yaml) := scanning [(remarkedTasks, .hash buildTasks)]

/-- The root key stays `tasks` when a remark stands behind it. -/
theorem remarked_key_stays :
    migrateContent remarkedScanner remarkedTasks = .ok remarkedTasks ∧
      ¬ Minimal remarkedScanner remarkedTasks remarkedTasks [] behindRemark := by
  have hread : Reads remarkedScanner remarkedTasks (.hash buildTasks) := scanning_first _ _ _
  constructor
  · rw [migrateContent_read hread]
    have hrename : renameRootKey remarkedTasks "tasks" "jobs" = remarkedTasks := by decide +kernel
    change Except.ok (renameRootKey remarkedTasks "tasks" "jobs") = _
    rw [hrename]
  · intro hminimal
    have hrenamed := (hminimal.renamed buildTasks ⟨hread, by decide, by decide⟩).1
    exact absurd hrenamed (by decide +kernel)

end Funzzy
