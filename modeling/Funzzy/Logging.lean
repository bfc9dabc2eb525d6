import Funzzy.Lib.Utf8
import Funzzy.Lib.Escapes

/-! The log sanitizer (`sanitize` in `logging.rs`).

    It drops an escape character together with a `[` behind it and everything up to the next `m`, whatever
    that is. Behind an escape character and anything else it pushes the next byte without a look at it, and
    without a look at whether there is one. -/

namespace Funzzy.Logging

/-- Where the loop of `sanitize` stands. -/
inductive Mode where
  | text
  /-- An escape character has just been passed over. -/
  | escape
  /-- In the inner loop, in search of an `m`. -/
  | sequence
  deriving DecidableEq

/-- What the loop pushes, from a mode on; nothing if it indexes past the end of the bytes. The elements are
    bytes, or anything that has one, so that a run can be followed on marked bytes. -/
def scan {α : Type} (byte : α → UInt8) : Mode → List α → Option (List α)
  | .text, [] => some []
  | .text, a :: rest => if byte a = 0x1b then scan byte .escape rest else (scan byte .text rest).map (a :: ·)
  | .escape, [] => none
  | .escape, a :: rest => if byte a = 0x5b then scan byte .sequence rest else (scan byte .text rest).map (a :: ·)
  | .sequence, [] => some []
  | .sequence, a :: rest => if byte a = 0x6d then scan byte .text rest else scan byte .sequence rest

def sanitize (message : List UInt8) : Option (List UInt8) :=
  if 0x1b ∈ message then (scan id .text message).map Utf8.lossy else some message

/-! ### Bytes and characters -/

variable {α β : Type}

theorem scan_map (byte : β → UInt8) (f : α → β) (mode : Mode) (l : List α) :
    scan byte mode (l.map f) = (scan (byte ∘ f) mode l).map (List.map f) := by
  induction l generalizing mode with
  | nil => cases mode <;> rfl
  | cons a rest ih =>
    cases mode <;> rw [List.map_cons, scan, scan, Function.comp_apply] <;> split <;>
      simp [ih, Option.map_map, Function.comp_def]

theorem ne_of_large {b c : UInt8} (hb : 128 ≤ b.toNat) (hc : c.toNat < 128) : b ≠ c := by
  rintro rfl
  omega

theorem scan_text_run {bytes : List UInt8} (hlarge : ∀ b ∈ bytes, 128 ≤ b.toNat) (rest : List UInt8) :
    scan id .text (bytes ++ rest) = (scan id .text rest).map (bytes ++ ·) := by
  induction bytes with
  | nil => simp
  | cons b bytes ih =>
    obtain ⟨hb, hbytes⟩ := List.forall_mem_cons.mp hlarge
    rw [List.cons_append, scan, id, if_neg (ne_of_large hb (by decide)), ih hbytes, Option.map_map]
    rfl

theorem scan_sequence_run {bytes : List UInt8} (hlarge : ∀ b ∈ bytes, 128 ≤ b.toNat) (rest : List UInt8) :
    scan id .sequence (bytes ++ rest) = scan id .sequence rest := by
  induction bytes with
  | nil => rfl
  | cons b bytes ih =>
    obtain ⟨hb, hbytes⟩ := List.forall_mem_cons.mp hlarge
    rw [List.cons_append, scan, id, if_neg (ne_of_large hb (by decide)), ih hbytes]

def encode (text : List Char) : List UInt8 := text.flatMap String.utf8EncodeChar

/-- The loop takes the characters of a text one by one. -/
theorem scan_encode (mode : Mode) (text : List Char) :
    scan id mode (encode text) = (scan Utf8.lead mode text).map encode := by
  induction text generalizing mode with
  | nil => cases mode <;> rfl
  | cons c text ih =>
    rw [encode, List.flatMap_cons, ← encode]
    rcases Utf8.encode_cases c with ⟨_, hencode⟩ | ⟨_, hlarge⟩
    · have hlead : Utf8.lead c = UInt8.ofNat c.toNat := by simp [Utf8.lead, hencode]
      have hpush : encode ∘ (c :: ·) = (UInt8.ofNat c.toNat :: ·) ∘ encode := by
        funext rest
        simp [encode, hencode]
      rw [hencode, List.singleton_append]
      cases mode <;> rw [scan, scan, id, hlead, ih, ih] <;> split <;>
        simp only [Option.map_map, hpush]
    · have hlead : ∀ b : UInt8, b.toNat < 128 → Utf8.lead c ≠ b := fun b hb =>
        ne_of_large (hlarge _ (List.head_mem String.utf8EncodeChar_ne_nil)) hb
      have hpush : encode ∘ (c :: ·) = (String.utf8EncodeChar c ++ ·) ∘ encode := rfl
      cases mode with
      | text =>
        rw [scan_text_run hlarge, ih, scan, if_neg (hlead _ (by decide)), Option.map_map, Option.map_map, hpush]
      | sequence => rw [scan_sequence_run hlarge, ih, scan, if_neg (hlead _ (by decide))]
      | escape =>
        obtain ⟨b, bytes, hencode⟩ := List.exists_cons_of_ne_nil (String.utf8EncodeChar_ne_nil (c := c))
        rw [hencode] at hlarge hpush ⊢
        obtain ⟨hb, hbytes⟩ := List.forall_mem_cons.mp hlarge
        rw [List.cons_append, scan, id, if_neg (ne_of_large hb (by decide)), scan_text_run hbytes, ih, scan,
          if_neg (hlead _ (by decide)), Option.map_map, Option.map_map, Option.map_map, hpush]
        rfl

theorem lossy_encode (text : List Char) : Utf8.lossy (encode text) = encode text := by
  refine Utf8.lossy_of_valid ?_
  rw [encode, Utf8.chunks_encode]
  exact List.forall_mem_map.mpr fun _ _ => rfl

theorem lead_eq_escape {c : Char} : Utf8.lead c = 0x1b ↔ c = Escapes.escapeChar := by
  rw [Utf8.lead_eq_iff (by decide), ← Char.toNat_inj]
  rfl

theorem scan_text_of_absent {message : List UInt8} (h : 0x1b ∉ message) :
    scan id .text message = some message := by
  induction message with
  | nil => rfl
  | cons b rest ih =>
    obtain ⟨hb, hrest⟩ := not_or.mp (List.mem_cons.not.mp h)
    rw [scan, id, if_neg (Ne.symm hb), ih hrest]
    rfl

/-- The sanitizer takes the characters of a message one by one. -/
theorem sanitize_encode (message : List Char) :
    sanitize (encode message) = (scan Utf8.lead .text message).map encode := by
  rw [sanitize]
  split
  · rw [scan_encode, Option.map_map]
    exact Option.map_congr fun text _ => lossy_encode text
  · next habsent => rw [← scan_encode, scan_text_of_absent habsent]

/-! ### The pieces of a message -/

/-- What the scanner makes of a message, from the left. -/
inductive Piece where
  | plain (c : Char)
  /-- An escape character and a character other than `[`. -/
  | pair (c : Char)
  /-- An escape character, `[`, and what follows up to an `m` or to the end. -/
  | run (body : List Char)
  /-- An escape character that nothing follows. -/
  | lone
  deriving DecidableEq

/-- A text up to its first `m`. -/
def throughM : List Char → List Char
  | [] => []
  | c :: rest => if c = 'm' then [c] else c :: throughM rest

/-- What is behind the first `m` of a text. -/
def beyondM : List Char → List Char
  | [] => []
  | c :: rest => if c = 'm' then rest else beyondM rest

theorem throughM_append_beyondM (text : List Char) : throughM text ++ beyondM text = text := by
  induction text with
  | nil => rfl
  | cons c rest ih =>
    rw [throughM, beyondM]
    split
    · rfl
    · rw [List.cons_append, ih]

theorem length_beyondM_le (text : List Char) : (beyondM text).length ≤ text.length := by
  have hlength := congrArg List.length (throughM_append_beyondM text)
  rw [List.length_append] at hlength
  omega

def pieces : List Char → List Piece
  | [] => []
  | c :: rest =>
    if c = Escapes.escapeChar then
      match rest with
      | [] => [.lone]
      | d :: rest => if d = '[' then .run (throughM rest) :: pieces (beyondM rest) else .pair d :: pieces rest
    else .plain c :: pieces rest
  termination_by text => text.length
  decreasing_by
    · have hle := length_beyondM_le rest
      simp only [List.length_cons]
      omega
    · simp only [List.length_cons]
      omega
    · simp only [List.length_cons]
      omega

/-- What of a piece is kept. -/
def Piece.kept : Piece → List Char
  | .plain c | .pair c => [c]
  | .run _ | .lone => []

/-- Behind a doubled escape character, what is kept begins like a sequence. -/
def Leaks (parts : List Piece) : Prop :=
  ∃ front back, parts = front ++ .pair Escapes.escapeChar :: back ∧ Escapes.OpensSgr (back.flatMap Piece.kept)

/-- A marked character that belongs to no sequence. -/
def isPlain (entry : Char × Bool) : Bool := !entry.2

/-- The loop on the characters of a message, each with its mark. -/
def scanMarked (mode : Mode) (entries : List (Char × Bool)) : Option (List (Char × Bool)) :=
  scan (Utf8.lead ∘ Prod.fst) mode entries

/-- The sanitizer gets through the message, what comes out has no rendition sequence, and every character
    outside the escape sequences of the message is kept, in order. -/
def Clean (message : List Char) : Prop :=
  ∃ kept, scanMarked .text (Escapes.marked .ground message) = some kept ∧
    sanitize (encode message) = some (encode (kept.map Prod.fst)) ∧
    ¬Escapes.HasSgr (kept.map Prod.fst) ∧
    kept.filter isPlain = (Escapes.marked .ground message).filter isPlain

/-! ### Runs of the loop -/

theorem scan_sublist (byte : α → UInt8) {mode : Mode} {l kept : List α} (h : scan byte mode l = some kept) :
    kept.Sublist l := by
  induction l generalizing mode kept with
  | nil =>
    cases mode <;> rw [scan] at h
    · exact Option.some.inj h ▸ List.Sublist.slnil
    · cases h
    · exact Option.some.inj h ▸ List.Sublist.slnil
  | cons a rest ih =>
    cases mode <;> rw [scan] at h <;> split at h
    case text.isTrue | escape.isTrue | sequence.isTrue | sequence.isFalse => exact (ih h).cons a
    case text.isFalse | escape.isFalse =>
      obtain ⟨others, hothers, rfl⟩ := Option.map_eq_some_iff.mp h
      exact (ih hothers).cons_cons a

theorem lead_eq_bracket {c : Char} : Utf8.lead c = 0x5b ↔ c = '[' := by
  rw [Utf8.lead_eq_iff (by decide), ← Char.toNat_inj]
  rfl

theorem lead_eq_m {c : Char} : Utf8.lead c = 0x6d ↔ c = 'm' := by
  rw [Utf8.lead_eq_iff (by decide), ← Char.toNat_inj]
  rfl

section Marked

open Escapes (marked next after escapeChar Consumed)

theorem scanMarked_text (r : Escapes.Reading) (c : Char) (rest : List Char) :
    scanMarked .text (marked r (c :: rest)) =
      if c = escapeChar then scanMarked .escape (marked .introduced rest)
      else (scanMarked .text (marked (next r c).1 rest)).map ((c, (next r c).2) :: ·) := by
  rw [scanMarked, marked, scan, Function.comp_apply, if_congr lead_eq_escape rfl rfl]
  by_cases hc : c = escapeChar
  · rw [if_pos hc, if_pos hc, hc, Escapes.next_escapeChar, scanMarked]
  · rw [if_neg hc, if_neg hc]
    rfl

theorem scanMarked_escape (r : Escapes.Reading) (c : Char) (rest : List Char) :
    scanMarked .escape (marked r (c :: rest)) =
      if c = '[' then scanMarked .sequence (marked (next r c).1 rest)
      else (scanMarked .text (marked (next r c).1 rest)).map ((c, (next r c).2) :: ·) := by
  rw [scanMarked, marked, scan, Function.comp_apply, if_congr lead_eq_bracket rfl rfl]
  rfl

/-- The inner loop goes on behind the next `m`. -/
theorem scanMarked_sequence (r : Escapes.Reading) (text : List Char) :
    scanMarked .sequence (marked r text) =
      scanMarked .text (marked (after r (throughM text)) (beyondM text)) := by
  induction text generalizing r with
  | nil => rfl
  | cons c rest ih =>
    rw [scanMarked, marked, scan, Function.comp_apply, if_congr lead_eq_m rfl rfl, throughM, beyondM]
    split
    · rfl
    · exact ih (next r c).1

/-! A message and its pieces, case by case. -/

theorem pieces_run (rest : List Char) :
    pieces (escapeChar :: '[' :: rest) = .run (throughM rest) :: pieces (beyondM rest) := by
  rw [pieces, if_pos rfl, if_pos rfl]

theorem pieces_pair {c : Char} (hc : c ≠ '[') (rest : List Char) :
    pieces (escapeChar :: c :: rest) = .pair c :: pieces rest := by
  rw [pieces, if_pos rfl, if_neg hc]

theorem pieces_plain {c : Char} (hc : c ≠ escapeChar) (rest : List Char) :
    pieces (c :: rest) = .plain c :: pieces rest := by
  rw [pieces.eq_def]
  exact if_neg hc

theorem scanMarked_run (r : Escapes.Reading) (rest : List Char) :
    scanMarked .text (marked r (escapeChar :: '[' :: rest)) =
      scanMarked .text (marked (after .control (throughM rest)) (beyondM rest)) := by
  rw [scanMarked_text, if_pos rfl, scanMarked_escape, if_pos rfl, scanMarked_sequence]
  rfl

theorem scanMarked_pair (r : Escapes.Reading) {c : Char} (hc : c ≠ '[') (rest : List Char) :
    scanMarked .text (marked r (escapeChar :: c :: rest)) =
      (scanMarked .text (marked (next .introduced c).1 rest)).map ((c, (next .introduced c).2) :: ·) := by
  rw [scanMarked_text, if_pos rfl, scanMarked_escape, if_neg hc]

theorem scanMarked_plain (r : Escapes.Reading) {c : Char} (hc : c ≠ escapeChar) (rest : List Char) :
    scanMarked .text (marked r (c :: rest)) =
      (scanMarked .text (marked (next r c).1 rest)).map ((c, (next r c).2) :: ·) := by
  rw [scanMarked_text, if_neg hc]

theorem scanMarked_of_lone (r : Escapes.Reading) (message : List Char) (h : .lone ∈ pieces message) :
    scanMarked .text (marked r message) = none := by
  induction message using pieces.induct generalizing r with
  | case1 =>
    rw [pieces] at h
    cases h
  | case2 => rfl
  | case3 rest ih =>
    rw [pieces_run] at h
    rw [scanMarked_run, ih _ (List.mem_of_ne_of_mem (by simp) h)]
  | case4 c rest hc ih =>
    rw [pieces_pair hc] at h
    rw [scanMarked_pair r hc, ih _ (List.mem_of_ne_of_mem (by simp) h)]
    rfl
  | case5 c rest hc ih =>
    rw [pieces_plain hc] at h
    rw [scanMarked_plain r hc, ih _ (List.mem_of_ne_of_mem (by simp) h)]
    rfl

/-- What a marked message is turned into. -/
structure Scanned (r : Escapes.Reading) (message : List Char) (kept : List (Char × Bool)) : Prop where
  run : scanMarked .text (marked r message) = some kept
  text : kept.map Prod.fst = (pieces message).flatMap Piece.kept
  plain : kept.filter isPlain = (marked r message).filter isPlain ↔
    ∀ body, .run body ∈ pieces message → Consumed .control body

theorem filter_plain_eq_nil {r : Escapes.Reading} {text : List Char} :
    (marked r text).filter isPlain = [] ↔ Consumed r text := by
  simp [List.filter_eq_nil_iff, isPlain, Consumed]

theorem Scanned.run_cons (r : Escapes.Reading) {rest : List Char} {kept : List (Char × Bool)}
    (h : Scanned (after .control (throughM rest)) (beyondM rest) kept) :
    Scanned r (escapeChar :: '[' :: rest) kept where
  run := (scanMarked_run r rest).trans h.run
  text := by
    rw [h.text, pieces_run]
    rfl
  plain := by
    have hmarked : (marked r (escapeChar :: '[' :: rest)).filter isPlain =
        (marked .control (throughM rest)).filter isPlain ++
          (marked (after .control (throughM rest)) (beyondM rest)).filter isPlain := by
      rw [← List.filter_append, ← Escapes.marked_append, throughM_append_beyondM, marked, Escapes.next_escapeChar]
      rfl
    have hsub := (scan_sublist _ h.run).filter isPlain
    rw [hmarked, pieces_run]
    constructor
    · intro heq body hbody
      have hnil : (marked .control (throughM rest)).filter isPlain = [] := by
        have hlength := congrArg List.length heq
        rw [List.length_append] at hlength
        have hle := hsub.length_le
        exact List.length_eq_zero_iff.mp (by omega)
      rcases List.mem_cons.mp hbody with hbody | hbody
      · rw [Piece.run.inj hbody]
        exact filter_plain_eq_nil.mp hnil
      · exact h.plain.mp (by rw [heq, hnil, List.nil_append]) body hbody
    · intro hbodies
      rw [filter_plain_eq_nil.mpr (hbodies _ List.mem_cons_self), List.nil_append]
      exact h.plain.mpr fun body hbody => hbodies body (List.mem_cons_of_mem _ hbody)

theorem Scanned.pair_cons (r : Escapes.Reading) {c : Char} (hc : c ≠ '[') {rest : List Char}
    {kept : List (Char × Bool)} (h : Scanned (next .introduced c).1 rest kept) :
    Scanned r (escapeChar :: c :: rest) ((c, (next .introduced c).2) :: kept) where
  run := by rw [scanMarked_pair r hc, h.run, Option.map_some]
  text := by
    rw [List.map_cons, h.text, pieces_pair hc]
    rfl
  plain := by
    rw [pieces_pair hc, marked, Escapes.next_escapeChar, marked]
    have hescape : isPlain (escapeChar, true) = false := rfl
    simp only [List.filter_cons, hescape, Bool.false_eq_true, if_false, List.mem_cons, reduceCtorEq, false_or]
    rw [← h.plain]
    split <;> simp

theorem Scanned.plain_cons (r : Escapes.Reading) {c : Char} (hc : c ≠ escapeChar) {rest : List Char}
    {kept : List (Char × Bool)} (h : Scanned (next r c).1 rest kept) :
    Scanned r (c :: rest) ((c, (next r c).2) :: kept) where
  run := by rw [scanMarked_plain r hc, h.run, Option.map_some]
  text := by
    rw [List.map_cons, h.text, pieces_plain hc]
    rfl
  plain := by
    rw [pieces_plain hc, marked]
    simp only [List.filter_cons, List.mem_cons, reduceCtorEq, false_or]
    rw [← h.plain]
    split <;> simp

theorem scanned (r : Escapes.Reading) (message : List Char) (h : .lone ∉ pieces message) :
    ∃ kept, Scanned r message kept := by
  induction message using pieces.induct generalizing r with
  | case1 => exact ⟨[], rfl, by rw [pieces]; rfl, by simp [pieces, marked]⟩
  | case2 => exact absurd (by rw [pieces]; simp) h
  | case3 rest ih =>
    rw [pieces_run] at h
    obtain ⟨kept, hkept⟩ := ih (after .control (throughM rest)) fun hmem => h (List.mem_cons_of_mem _ hmem)
    exact ⟨kept, hkept.run_cons r⟩
  | case4 c rest hc ih =>
    rw [pieces_pair hc] at h
    obtain ⟨kept, hkept⟩ := ih (next .introduced c).1 fun hmem => h (List.mem_cons_of_mem _ hmem)
    exact ⟨_, hkept.pair_cons r hc⟩
  | case5 c rest hc ih =>
    rw [pieces_plain hc] at h
    obtain ⟨kept, hkept⟩ := ih (next r c).1 fun hmem => h (List.mem_cons_of_mem _ hmem)
    exact ⟨_, hkept.plain_cons r hc⟩

theorem leaks_nil : ¬Leaks [] := by
  rintro ⟨front, back, h, -⟩
  exact List.append_ne_nil_of_right_ne_nil _ (List.cons_ne_nil _ _) h.symm

theorem leaks_cons {piece : Piece} {parts : List Piece} :
    Leaks (piece :: parts) ↔
      piece = .pair escapeChar ∧ Escapes.OpensSgr (parts.flatMap Piece.kept) ∨ Leaks parts := by
  constructor
  · rintro ⟨_ | ⟨other, front⟩, back, h, hback⟩
    · obtain ⟨hpiece, rfl⟩ := List.cons.inj h
      exact .inl ⟨hpiece, hback⟩
    · exact .inr ⟨front, back, (List.cons.inj h).2, hback⟩
  · rintro (⟨rfl, hparts⟩ | ⟨front, back, rfl, hback⟩)
    · exact ⟨[], parts, rfl, hparts⟩
    · exact ⟨piece :: front, back, rfl, hback⟩

/-- An escape character is kept only where it is doubled. -/
theorem hasSgr_pieces_iff (message : List Char) :
    Escapes.HasSgr ((pieces message).flatMap Piece.kept) ↔ Leaks (pieces message) := by
  induction message using pieces.induct with
  | case1 =>
    rw [pieces]
    exact iff_of_false Escapes.hasSgr_nil leaks_nil
  | case2 =>
    have hpieces : pieces [escapeChar] = [.lone] := by rw [pieces, if_pos rfl]
    rw [hpieces, leaks_cons]
    simp [Piece.kept, Escapes.hasSgr_nil, leaks_nil]
  | case3 rest ih =>
    rw [pieces_run, leaks_cons, List.flatMap_cons, Piece.kept, List.nil_append, ih]
    simp
  | case4 c rest hc ih =>
    rw [pieces_pair hc, leaks_cons, List.flatMap_cons, Piece.kept, List.singleton_append, Escapes.hasSgr_cons, ih,
      Piece.pair.injEq]
  | case5 c rest hc ih =>
    rw [pieces_plain hc, leaks_cons, List.flatMap_cons, Piece.kept, List.singleton_append, Escapes.hasSgr_cons, ih]
    simp [hc]

end Marked

/-- The message, cut into single characters, pairs of an escape character with the next, and runs from an
    escape character and `[` to the next `m`, does not end in an escape character alone, has only characters
    of escape sequences in its runs, and nothing that reads on like a rendition sequence behind a pair of
    escape characters. -/
theorem clean_iff (message : List Char) :
    Clean message ↔ .lone ∉ pieces message ∧
      (∀ body, .run body ∈ pieces message → Escapes.Consumed .control body) ∧ ¬Leaks (pieces message) := by
  constructor
  · rintro ⟨kept, hrun, -, hsgr, hplain⟩
    have hlone : .lone ∉ pieces message := fun hmem =>
      Option.some_ne_none kept (hrun.symm.trans (scanMarked_of_lone .ground message hmem))
    obtain ⟨kept', hkept⟩ := scanned .ground message hlone
    obtain rfl : kept' = kept := Option.some.inj (hkept.run.symm.trans hrun)
    rw [hkept.text, hasSgr_pieces_iff] at hsgr
    exact ⟨hlone, hkept.plain.mp hplain, hsgr⟩
  · rintro ⟨hlone, hbodies, hleaks⟩
    obtain ⟨kept, hkept⟩ := scanned .ground message hlone
    refine ⟨kept, hkept.run, ?_, ?_, hkept.plain.mpr hbodies⟩
    · have hmessage : scan Utf8.lead .text message = some (kept.map Prod.fst) := by
        have hfst := scan_map Utf8.lead Prod.fst .text (Escapes.marked .ground message)
        rw [Escapes.marked_fst] at hfst
        rw [hfst]
        exact congrArg (Option.map (List.map Prod.fst)) hkept.run
      rw [sanitize_encode, hmessage]
      rfl
    · rw [hkept.text, hasSgr_pieces_iff]
      exact hleaks

/-- An escape character at the end, a doubled one before a colour, and a sequence of another kind that takes
    the text behind it along. -/
theorem unclean_messages :
    sanitize [0x1b] = none ∧ ¬Clean ['\x1b'] ∧
      sanitize (encode ['\x1b', '\x1b', '[', '3', '1', 'm']) = some (encode ['\x1b', '[', '3', '1', 'm']) ∧
      sanitize (encode ['\x1b', '[', '2', 'J', 'h', 'o', 'm', 'e']) = some (encode ['e']) := by
  refine ⟨rfl, ?_, by decide, by decide⟩
  rintro ⟨kept, hrun, -⟩
  exact Option.some_ne_none kept (hrun.symm.trans rfl)

end Funzzy.Logging
