import Mathlib.Data.List.Induction
import Funzzy.Lib.Codec

/-! Lines of `key=value` fields.

    A value that is empty or has a character of a given set is written between quotation marks, with a
    backslash before each of its own. Other backslashes stay as they are, so such a line is not read from
    left to right; but before a quotation mark inside a value there is a backslash, and before the one that
    opens it there is the `=`, so it can be read from right to left. -/

namespace KeyValue

/-- A backslash before every quotation mark. -/
def escape : List Char → List Char
  | [] => []
  | c :: rest => if c = '"' then '\\' :: '"' :: escape rest else c :: escape rest

/-- The characters that make a value quoted; a blank and a quotation mark are among them. -/
structure Quoting where
  special : Char → Bool
  blank : special ' ' = true
  mark : special '"' = true

variable (Q : Quoting)

def quote (value : List Char) : List Char :=
  if value = [] ∨ value.any Q.special then '"' :: (escape value ++ ['"']) else value

/-- A field behind a blank. -/
def field (key value : List Char) : List Char := ' ' :: (key ++ '=' :: quote Q value)

/-- Fields, each behind a blank. -/
def line (fields : List (List Char × List Char)) : List Char :=
  fields.flatMap fun entry => field Q entry.1 entry.2

/-- Fields with a blank between them. -/
def joined (fields : List (List Char × List Char)) : List Char :=
  [' '].intercalate (fields.map fun entry => entry.1 ++ '=' :: quote Q entry.2)

/-- The entries that have a value. -/
def present {κ ν : Type} (entries : List (κ × Option ν)) : List (κ × ν) :=
  entries.filterMap fun entry => entry.2.map (entry.1, ·)

/-- What a key is made of. -/
def IsKey (key : List Char) : Prop := ' ' ∉ key ∧ '=' ∉ key

/-! ### Values -/

theorem escape_ne_mark (value rest : List Char) : escape value ≠ '"' :: rest := by
  cases value with
  | nil => exact List.cons_ne_nil _ _ ∘ Eq.symm
  | cons c value =>
    rw [escape]
    split
    · exact fun h => absurd (List.cons.inj h).1 (by decide)
    · next hc => exact fun h => hc (List.cons.inj h).1

theorem escape_injective : ∀ {a b : List Char}, escape a = escape b → a = b
  | [], [], _ => rfl
  | [], d :: b, h => by
    rw [escape, escape] at h
    split at h <;> cases h
  | c :: a, [], h => by
    rw [escape, escape] at h
    split at h <;> cases h
  | c :: a, d :: b, h => by
    rw [escape, escape] at h
    split at h
    · next hc =>
      split at h
      · next hd => rw [hc, hd, escape_injective (List.cons.inj (List.cons.inj h).2).2]
      · exact absurd (List.cons.inj h).2.symm (escape_ne_mark b _)
    · next hc =>
      split at h
      · exact absurd (List.cons.inj h).2 (escape_ne_mark a _)
      · obtain ⟨rfl, hrest⟩ := List.cons.inj h
        rw [escape_injective hrest]

/-- Before a quotation mark of an escaped value there is a backslash, and so no `=`. -/
theorem escape_unopened : ∀ value before after : List Char, escape value ≠ before ++ '=' :: '"' :: after
  | [], before, after, h => by simp [escape] at h
  | c :: value, before, after, h => by
    rw [escape] at h
    split at h
    · match before, h with
      | [], h => exact absurd (List.cons.inj h).1 (by decide)
      | [d], h => exact absurd (List.cons.inj (List.cons.inj h).2).1 (by decide)
      | d :: e :: before, h => exact escape_unopened value before after (List.cons.inj (List.cons.inj h).2).2
    · match before, h with
      | [], h => exact escape_ne_mark value after (List.cons.inj h).2
      | d :: before, h => exact escape_unopened value before after (List.cons.inj h).2

/-- A value between quotation marks, or one that holds neither a blank nor a quotation mark. -/
theorem quote_cases (value : List Char) :
    quote Q value = '"' :: (escape value ++ ['"']) ∨
      quote Q value = value ∧ value ≠ [] ∧ ' ' ∉ value ∧ '"' ∉ value := by
  by_cases hvalue : value = [] ∨ value.any Q.special
  · exact .inl (if_pos hvalue)
  · rw [quote, if_neg hvalue]
    obtain ⟨hne, hplain⟩ := not_or.mp hvalue
    have habsent : ∀ c, Q.special c = true → c ∉ value := fun c hc hmem =>
      hplain (List.any_eq_true.mpr ⟨c, hmem, hc⟩)
    exact .inr ⟨rfl, hne, habsent ' ' Q.blank, habsent '"' Q.mark⟩

/-! ### Reading a line -/

/-- The text before the first `=`. -/
theorem first_equals {key key' value value' : List Char} (hkey : '=' ∉ key) (hkey' : '=' ∉ key')
    (h : key ++ '=' :: value = key' ++ '=' :: value') : key = key' ∧ value = value' :=
  Codec.delimits_text '=' key key' value value' (fun _ hc heq => hkey (heq ▸ hc))
    (fun _ hc heq => hkey' (heq ▸ hc)) (by simpa using h)

/-- The text behind the last blank. -/
theorem last_blank {a b token token' : List Char} (htoken : ' ' ∉ token) (htoken' : ' ' ∉ token')
    (h : a ++ ' ' :: token = b ++ ' ' :: token') : a = b ∧ token = token' := by
  have hreverse : token.reverse ++ [' '] ++ a.reverse = token'.reverse ++ [' '] ++ b.reverse := by
    simpa using congrArg List.reverse h
  obtain ⟨htokens, hfronts⟩ := Codec.delimits_text ' ' token.reverse token'.reverse a.reverse b.reverse
    (fun c hc heq => htoken (heq ▸ List.mem_reverse.mp hc))
    (fun c hc heq => htoken' (heq ▸ List.mem_reverse.mp hc)) hreverse
  exact ⟨List.reverse_inj.mp hfronts, List.reverse_inj.mp htokens⟩

/-- An opening quotation mark is the last one with an `=` before it. -/
theorem opening_unique {a b value value' : List Char}
    (h : a ++ '=' :: '"' :: escape value = b ++ '=' :: '"' :: escape value') : a = b ∧ value = value' := by
  have hone : ∀ a b value value' more : List Char, a ++ ['=', '"'] = b ++ ['=', '"'] ++ more →
      escape value' = more ++ escape value → more = [] := by
    intro a b value value' more hfront hvalue
    match hmore : more.reverse with
    | [] => exact List.reverse_eq_nil_iff.mp hmore
    | [c] =>
      have hsingle : more = [c] := List.reverse_eq_iff.mp hmore
      have hfronts : a ++ ['=', '"'] = (b ++ ['=']) ++ ['"', c] := by simpa [hsingle] using hfront
      exact absurd (List.cons.inj (List.append_inj' hfronts rfl).2).1 (by decide)
    | c :: d :: rest =>
      have hlast : more = rest.reverse ++ [d, c] := by simpa using List.reverse_eq_iff.mp hmore
      have hfronts : a ++ ['=', '"'] = (b ++ ['=', '"'] ++ rest.reverse) ++ [d, c] := by
        simpa [hlast] using hfront
      obtain ⟨hd, hc⟩ := List.cons.inj (List.append_inj' hfronts rfl).2
      rw [hlast, ← hd, ← (List.cons.inj hc).1] at hvalue
      exact absurd (by simpa using hvalue) (escape_unopened value' rest.reverse (escape value))
  have hsplit : (a ++ ['=', '"']) ++ escape value = (b ++ ['=', '"']) ++ escape value' := by simpa using h
  rcases List.append_eq_append_iff.mp hsplit with ⟨more, hfront, hvalue⟩ | ⟨more, hfront, hvalue⟩
  · have hnone := hone b a value' value more hfront hvalue
    rw [hnone, List.append_nil] at hfront
    rw [hnone, List.nil_append] at hvalue
    exact ⟨(List.append_cancel_right hfront).symm, escape_injective hvalue⟩
  · have hnone := hone a b value value' more hfront hvalue
    rw [hnone, List.append_nil] at hfront
    rw [hnone, List.nil_append] at hvalue
    exact ⟨List.append_cancel_right hfront, (escape_injective hvalue).symm⟩

/-- The last character of a text is in each end of it. -/
theorem mem_of_last {a b text : List Char} {c : Char} (hne : text ≠ []) (h : a ++ [c] = b ++ text) :
    c ∈ text := by
  have hsplit : a ++ [c] = (b ++ text.dropLast) ++ [text.getLast hne] := by
    rw [h, List.append_assoc, List.dropLast_append_getLast]
  rw [List.singleton_inj.mp (List.append_inj' hsplit rfl).2]
  exact List.getLast_mem hne

/-- A field at the end of a text is known from the text. -/
theorem field_unique {a b key key' value value' : List Char} (hkey : IsKey key) (hkey' : IsKey key')
    (h : a ++ field Q key value = b ++ field Q key' value') : a = b ∧ key = key' ∧ value = value' := by
  rw [field, field] at h
  rcases quote_cases Q value with hquote | ⟨hquote, hne, hblank, hmark⟩ <;>
    rcases quote_cases Q value' with hquote' | ⟨hquote', hne', hblank', hmark'⟩ <;>
    rw [hquote, hquote'] at h
  · have hopen : (a ++ ' ' :: key) ++ '=' :: '"' :: escape value
        = (b ++ ' ' :: key') ++ '=' :: '"' :: escape value' := by
      refine List.append_cancel_right (?_ : _ ++ ['"'] = _ ++ ['"'])
      simpa using h
    obtain ⟨hfront, hvalue⟩ := opening_unique hopen
    obtain ⟨hbefore, hkeys⟩ := last_blank hkey.1 hkey'.1 hfront
    exact ⟨hbefore, hkeys, hvalue⟩
  · have hend : (a ++ ' ' :: (key ++ '=' :: '"' :: escape value)) ++ ['"']
        = (b ++ ' ' :: (key' ++ ['='])) ++ value' := by simpa using h
    exact absurd (mem_of_last hne' hend) hmark'
  · have hend : (b ++ ' ' :: (key' ++ '=' :: '"' :: escape value')) ++ ['"']
        = (a ++ ' ' :: (key ++ ['='])) ++ value := by simpa using h.symm
    exact absurd (mem_of_last hne hend) hmark
  · obtain ⟨hbefore, htoken⟩ := last_blank (by simp [hkey.1, hblank]) (by simp [hkey'.1, hblank']) h
    obtain ⟨hkeys, hvalues⟩ := first_equals hkey.2 hkey'.2 htoken
    exact ⟨hbefore, hkeys, hvalues⟩

@[simp] theorem line_append (fields fields' : List (List Char × List Char)) :
    line Q (fields ++ fields') = line Q fields ++ line Q fields' :=
  List.flatMap_append

theorem line_ne_nil (fields : List (List Char × List Char)) (entry : List Char × List Char) :
    line Q (fields ++ [entry]) ≠ [] := by
  rw [line_append]
  exact List.append_ne_nil_of_right_ne_nil _ (by simp [line, field])

/-- A line is read from its end, field by field. -/
theorem line_injective : ∀ {fields fields' : List (List Char × List Char)},
    (∀ entry ∈ fields, IsKey entry.1) → (∀ entry ∈ fields', IsKey entry.1) →
    line Q fields = line Q fields' → fields = fields' := by
  intro fields
  induction fields using List.reverseRecOn with
  | nil =>
    intro fields' _ _ h
    rcases fields'.eq_nil_or_concat' with rfl | ⟨fields', entry', rfl⟩
    · rfl
    · exact absurd h.symm (line_ne_nil Q fields' entry')
  | append_singleton fields entry ih =>
    intro fields' hkeys hkeys' h
    rcases fields'.eq_nil_or_concat' with rfl | ⟨fields', entry', rfl⟩
    · exact absurd h (line_ne_nil Q fields entry)
    · rw [line_append, line_append] at h
      obtain ⟨hfronts, hkey, hvalue⟩ := field_unique Q (hkeys entry (by simp)) (hkeys' entry' (by simp))
        (by simpa [line] using h)
      rw [ih (fun e he => hkeys e (by simp [he])) (fun e he => hkeys' e (by simp [he])) hfronts,
        Prod.ext hkey hvalue]

theorem line_eq_joined : ∀ {fields : List (List Char × List Char)}, fields ≠ [] →
    line Q fields = ' ' :: joined Q fields
  | [entry], _ => by simp [line, joined, field, List.intercalate]
  | entry :: next :: fields, _ => by
    have hrest : line Q (next :: fields) = ' ' :: joined Q (next :: fields) := line_eq_joined (by simp)
    rw [line, List.flatMap_cons, ← line, hrest]
    simp [joined, field, List.intercalate]

theorem joined_ne_nil {fields : List (List Char × List Char)} (hne : fields ≠ []) : joined Q fields ≠ [] := by
  obtain ⟨entry, rest, rfl⟩ := List.exists_cons_of_ne_nil hne
  cases rest <;> simp [joined, List.intercalate]

theorem joined_injective {fields fields' : List (List Char × List Char)}
    (hkeys : ∀ entry ∈ fields, IsKey entry.1) (hkeys' : ∀ entry ∈ fields', IsKey entry.1)
    (h : joined Q fields = joined Q fields') : fields = fields' := by
  by_cases hne : fields = [] <;> by_cases hne' : fields' = []
  · rw [hne, hne']
  · exact absurd (h.symm.trans (by rw [hne]; rfl)) (joined_ne_nil Q hne')
  · exact absurd (h.trans (by rw [hne']; rfl)) (joined_ne_nil Q hne)
  · exact line_injective Q hkeys hkeys' (by rw [line_eq_joined Q hne, line_eq_joined Q hne', h])

/-! ### Entries without a value -/

section Present

variable {κ ν : Type}

theorem mem_present_iff {entries : List (κ × Option ν)} {key : κ} {value : ν} :
    (key, value) ∈ present entries ↔ (key, some value) ∈ entries := by
  simp [present]

theorem present_cons (entry : κ × Option ν) (entries : List (κ × Option ν)) :
    present (entry :: entries) = (entry.2.map (entry.1, ·)).toList ++ present entries := by
  obtain ⟨key, _ | value⟩ := entry <;> rfl

theorem forall_present_iff {entries : List (κ × Option ν)} {P : ν → Prop} :
    (∀ entry ∈ present entries, P entry.2) ↔ ∀ entry ∈ entries, ∀ value ∈ entry.2, P value := by
  constructor
  · intro h entry hentry value hvalue
    exact h (entry.1, value) (mem_present_iff.mpr (Option.mem_def.mp hvalue ▸ hentry))
  · intro h entry hentry
    exact h _ (mem_present_iff.mp hentry) entry.2 rfl

theorem present_filter (keep : κ → Bool) (entries : List (κ × Option ν)) :
    (present entries).filter (fun entry => keep entry.1) = present (entries.filter fun entry => keep entry.1) := by
  induction entries with
  | nil => rfl
  | cons entry entries ih =>
    obtain ⟨key, _ | value⟩ := entry <;> cases hkeep : keep key <;> simpa [present, hkeep] using ih

/-- Entries under the same keys, each used once, are known from those with a value. -/
theorem present_injective : ∀ {entries entries' : List (κ × Option ν)},
    entries.map Prod.fst = entries'.map Prod.fst → (entries.map Prod.fst).Nodup →
    present entries = present entries' → entries = entries'
  | [], entries', hkeys, _, _ => (List.map_eq_nil_iff.mp hkeys.symm).symm
  | (key, value) :: entries, [], hkeys, _, _ => absurd hkeys (List.cons_ne_nil _ _)
  | (key, value) :: entries, (key', value') :: entries', hkeys, hnodup, h => by
    obtain ⟨rfl, hrest⟩ := List.cons.inj hkeys
    obtain ⟨hfresh, hothers⟩ := List.nodup_cons.mp hnodup
    have hkey : ∀ v, (key, some v) ∉ entries := fun v hmem => hfresh (List.mem_map.mpr ⟨_, hmem, rfl⟩)
    have hkey' : ∀ v, (key, some v) ∉ entries' := fun v hmem =>
      hfresh (hrest ▸ List.mem_map.mpr ⟨_, hmem, rfl⟩)
    cases value with
    | none =>
      cases value' with
      | none => rw [present_injective hrest hothers h]
      | some v => exact absurd (mem_present_iff.mp (h ▸ List.mem_cons_self)) (hkey v)
    | some v =>
      cases value' with
      | none => exact absurd (mem_present_iff.mp (h ▸ List.mem_cons_self)) (hkey' v)
      | some w =>
        obtain ⟨hvalue, hbehind⟩ := List.cons.inj h
        rw [(Prod.mk.inj hvalue).2, present_injective hrest hothers hbehind]

end Present

/-! ### Characters of a line -/

theorem mem_escape_iff {c : Char} (hmark : c ≠ '"') (hslash : c ≠ '\\') :
    ∀ value : List Char, c ∈ escape value ↔ c ∈ value
  | [] => Iff.rfl
  | d :: value => by
    rw [escape]
    split
    · next hd => simp [mem_escape_iff hmark hslash value, hmark, hslash, hd]
    · simp [mem_escape_iff hmark hslash value]

theorem mem_quote_iff {c : Char} (hmark : c ≠ '"') (hslash : c ≠ '\\') (value : List Char) :
    c ∈ quote Q value ↔ c ∈ value := by
  rw [quote]
  split
  · simp [mem_escape_iff hmark hslash, hmark]
  · exact Iff.rfl

/-- A character that neither the marks nor the keys hold comes from a value. -/
theorem mem_joined_iff {c : Char} (hblank : c ≠ ' ') (hequals : c ≠ '=') (hmark : c ≠ '"') (hslash : c ≠ '\\')
    {fields : List (List Char × List Char)} (hkeys : ∀ entry ∈ fields, c ∉ entry.1) :
    c ∈ joined Q fields ↔ ∃ entry ∈ fields, c ∈ entry.2 := by
  by_cases hne : fields = []
  · simp [hne, joined, List.intercalate]
  · have hline : c ∈ line Q fields ↔ c ∈ joined Q fields := by simp [line_eq_joined Q hne, hblank]
    rw [← hline, line, List.mem_flatMap]
    refine exists_congr fun entry => and_congr_right fun hentry => ?_
    simp [field, mem_quote_iff Q hmark hslash, hkeys entry hentry, hblank, hequals]

end KeyValue
