import Mathlib.Data.List.Induction
import Mathlib.Data.String.Basic
import Funzzy.Lib.JsonText
import Funzzy.Lib.SortedMap
import Funzzy.Control.Framing

/-! The text of a JSON value (`serde_json::to_string`).

    Values are written without white space, the fields of an object in the order they are held in. A text
    is on one line, whatever strings are in the value, and it determines the value: also where it ends, if
    nothing follows that would go on with a number. -/

namespace Funzzy.Control

open JsonText

/-- The bytes of a string. -/
def utf8 (text : String) : List UInt8 := text.toByteArray.data.toList

theorem utf8_injective {s t : String} (h : utf8 s = utf8 t) : s = t :=
  String.toByteArray_inj.mp (ByteArray.ext (Array.toList_inj.mp h))

def Number.text : Number → List UInt8
  | .int value => integer value
  | .float text => utf8 text

/-- A number with a fraction is written in numeric bytes, with a point or an exponent. -/
def Number.Written : Number → Prop
  | .int _ => True
  | .float text => (∀ b ∈ utf8 text, isNumeric b = true) ∧ ∃ b ∈ utf8 text, b = 0x2E ∨ b = 0x65

theorem Number.text_ne_nil {n : Number} (h : n.Written) : n.text ≠ [] := by
  cases n with
  | int value => exact integer_ne_nil value
  | float text =>
    obtain ⟨-, b, hb, -⟩ := h
    exact List.ne_nil_of_mem hb

theorem Number.text_numeric {n : Number} (h : n.Written) : ∀ b ∈ n.text, isNumeric b = true := by
  cases n with
  | int value => exact integer_numeric value
  | float text => exact h.1

theorem Number.text_injective {n m : Number} (hn : n.Written) (hm : m.Written) (h : n.text = m.text) : n = m := by
  have hdiffers : ∀ (value : Int) (text : String), (Number.float text).Written → integer value ≠ utf8 text := by
    rintro value text ⟨-, b, hb, hmark⟩ heq
    have hplain := integer_plain value b (heq ▸ hb)
    exact hmark.elim hplain.1 hplain.2
  cases n with
  | int value =>
    cases m with
    | int other => rw [integer_injective h]
    | float text => exact absurd h (hdiffers value text hm)
  | float text =>
    cases m with
    | int value => exact absurd h.symm (hdiffers value text hn)
    | float other => rw [utf8_injective h]

namespace Json

mutual

def text : Json → List UInt8
  | .null => [0x6E, 0x75, 0x6C, 0x6C]
  | .bool true => [0x74, 0x72, 0x75, 0x65]
  | .bool false => [0x66, 0x61, 0x6C, 0x73, 0x65]
  | .number value => value.text
  | .string value => quote (utf8 value)
  | .array elements => 0x5B :: elementsText false elements
  | .object fields => 0x7B :: fieldsText false fields

/-- The elements from here on; a comma parts an element from those before it. -/
def elementsText (more : Bool) : List Json → List UInt8
  | [] => [0x5D]
  | element :: elements =>
    (if more then [0x2C] else []) ++ (element.text ++ elementsText true elements)

def fieldsText (more : Bool) : List (String × Json) → List UInt8
  | [] => [0x7D]
  | (key, value) :: fields =>
    (if more then [0x2C] else []) ++ (quote (utf8 key) ++ 0x3A :: (value.text ++ fieldsText true fields))

end

mutual

/-- The fractions in a value are written as such. -/
def Written : Json → Prop
  | .null | .bool _ | .string _ => True
  | .number value => value.Written
  | .array elements => WrittenElements elements
  | .object fields => WrittenFields fields

def WrittenElements : List Json → Prop
  | [] => True
  | element :: elements => element.Written ∧ WrittenElements elements

def WrittenFields : List (String × Json) → Prop
  | [] => True
  | (_, value) :: fields => value.Written ∧ WrittenFields fields

end

/-! ### What a text begins with -/

/-- The kind of a value, and the kind of value that a text with this first byte has. -/
def kind : Json → Nat
  | .null => 0
  | .bool _ => 1
  | .number _ => 2
  | .string _ => 3
  | .array _ => 4
  | .object _ => 5

def lead (b : UInt8) : Nat :=
  if b = 0x6E then 0 else if b = 0x74 then 1 else if b = 0x66 then 1 else if b = 0x22 then 3
  else if b = 0x5B then 4 else if b = 0x7B then 5 else if isNumeric b then 2 else 6

theorem lead_of_numeric {b : UInt8} (h : isNumeric b = true) : lead b = 2 := by
  have hne : ∀ c, isNumeric c = false → b ≠ c := by
    rintro c hc rfl
    rw [h] at hc
    cases hc
  simp [lead, h, hne 0x6E (by decide), hne 0x74 (by decide), hne 0x66 (by decide), hne 0x22 (by decide),
    hne 0x5B (by decide), hne 0x7B (by decide)]

theorem text_lead {value : Json} (h : value.Written) :
    ∃ first rest, value.text = first :: rest ∧ lead first = value.kind := by
  cases value with
  | null => exact ⟨_, _, by rw [text], rfl⟩
  | bool b => cases b <;> exact ⟨_, _, by rw [text], rfl⟩
  | number n =>
    rw [Written] at h
    obtain ⟨first, rest, htext⟩ := List.exists_cons_of_ne_nil (Number.text_ne_nil h)
    refine ⟨first, rest, by rw [text, htext], lead_of_numeric (Number.text_numeric h first ?_)⟩
    rw [htext]
    exact List.mem_cons_self
  | string s => exact ⟨_, _, by rw [text, quote], rfl⟩
  | array elements => exact ⟨_, _, by rw [text], rfl⟩
  | object fields => exact ⟨_, _, by rw [text], rfl⟩

theorem kind_eq {a b : Json} {x y : List UInt8} (ha : a.Written) (hb : b.Written)
    (h : a.text ++ x = b.text ++ y) : a.kind = b.kind := by
  obtain ⟨first, rest, htext, hkind⟩ := text_lead ha
  obtain ⟨first', rest', htext', hkind'⟩ := text_lead hb
  rw [htext, htext'] at h
  rw [← hkind, ← hkind', (List.cons.inj h).1]

/-- Behind a value comes a comma or a bracket. -/
theorem ends_elements (elements : List Json) (x : List UInt8) : Ends (elementsText true elements ++ x) := by
  cases elements with
  | nil =>
    rw [elementsText]
    rintro b ⟨⟩
    rfl
  | cons element elements =>
    rw [elementsText, if_pos rfl]
    rintro b ⟨⟩
    rfl

theorem ends_fields (fields : List (String × Json)) (x : List UInt8) : Ends (fieldsText true fields ++ x) := by
  cases fields with
  | nil =>
    rw [fieldsText]
    rintro b ⟨⟩
    rfl
  | cons field fields =>
    obtain ⟨key, value⟩ := field
    rw [fieldsText, if_pos rfl]
    rintro b ⟨⟩
    rfl

/-! ### A text determines its value -/

/-- The bracket that closes a list begins no value. -/
theorem text_ne_bracket {value : Json} (h : value.Written) {b : UInt8} (hb : lead b = 6) (x y : List UInt8) :
    value.text ++ x ≠ b :: y := by
  obtain ⟨first, rest, htext, hkind⟩ := text_lead h
  rw [htext]
  intro heq
  rw [(List.cons.inj heq).1, hb] at hkind
  cases value <;> cases hkind

mutual

theorem text_delimits : ∀ (a b : Json) (x y : List UInt8), a.Written → b.Written → Ends x → Ends y →
    a.text ++ x = b.text ++ y → a = b ∧ x = y
  | a, b, x, y, ha, hb, hx, hy, h => by
    have hkind := kind_eq ha hb h
    cases a with
    | null =>
      cases b with
      | null => exact ⟨rfl, List.append_cancel_left h⟩
      | _ => cases hkind
    | bool c =>
      cases b with
      | bool d =>
        cases c <;> cases d
        case false.false => exact ⟨rfl, List.append_cancel_left h⟩
        case true.true => exact ⟨rfl, List.append_cancel_left h⟩
        all_goals
          rw [text, text] at h
          cases (List.cons.inj h).1
      | _ => cases hkind
    | number n =>
      cases b with
      | number m =>
        rw [Written] at ha hb
        rw [text, text] at h
        obtain ⟨htext, hrest⟩ := numeric_delimits (Number.text_numeric ha) (Number.text_numeric hb) hx hy h
        exact ⟨congrArg number (Number.text_injective ha hb htext), hrest⟩
      | _ => cases hkind
    | string s =>
      cases b with
      | string t =>
        rw [text, text] at h
        obtain ⟨htext, hrest⟩ := quote_delimits _ _ x y trivial trivial h
        exact ⟨congrArg string (utf8_injective htext), hrest⟩
      | _ => cases hkind
    | array elements =>
      cases b with
      | array others =>
        rw [Written] at ha hb
        rw [text, text] at h
        obtain ⟨rfl, hrest⟩ := elements_delimits false elements others x y ha hb (List.cons.inj h).2
        exact ⟨rfl, hrest⟩
      | _ => cases hkind
    | object fields =>
      cases b with
      | object others =>
        rw [Written] at ha hb
        rw [text, text] at h
        obtain ⟨rfl, hrest⟩ := fields_delimits false fields others x y ha hb (List.cons.inj h).2
        exact ⟨rfl, hrest⟩
      | _ => cases hkind

theorem elements_delimits (more : Bool) : ∀ (elements others : List Json) (x y : List UInt8),
    WrittenElements elements → WrittenElements others →
    elementsText more elements ++ x = elementsText more others ++ y → elements = others ∧ x = y
  | [], [], x, y, _, _, h => ⟨rfl, List.append_cancel_left h⟩
  | [], b :: others, x, y, _, hb, h => by
    rw [WrittenElements] at hb
    rw [elementsText, elementsText] at h
    cases more with
    | true => cases (List.cons.inj h).1
    | false => exact absurd h.symm (by simpa using text_ne_bracket hb.1 rfl _ _)
  | a :: elements, [], x, y, ha, _, h => by
    rw [WrittenElements] at ha
    rw [elementsText, elementsText] at h
    cases more with
    | true => cases (List.cons.inj h).1
    | false => exact absurd h (by simpa using text_ne_bracket ha.1 rfl _ _)
  | a :: elements, b :: others, x, y, ha, hb, h => by
    rw [WrittenElements] at ha hb
    rw [elementsText, elementsText, List.append_assoc, List.append_assoc, List.append_assoc,
      List.append_assoc] at h
    obtain ⟨rfl, hrest⟩ := text_delimits a b _ _ ha.1 hb.1 (ends_elements elements x) (ends_elements others y)
      (List.append_cancel_left h)
    obtain ⟨rfl, hbehind⟩ := elements_delimits true elements others x y ha.2 hb.2 hrest
    exact ⟨rfl, hbehind⟩

theorem fields_delimits (more : Bool) : ∀ (fields others : List (String × Json)) (x y : List UInt8),
    WrittenFields fields → WrittenFields others →
    fieldsText more fields ++ x = fieldsText more others ++ y → fields = others ∧ x = y
  | [], [], x, y, _, _, h => ⟨rfl, List.append_cancel_left h⟩
  | [], (key, value) :: others, x, y, _, _, h => by
    rw [fieldsText, fieldsText] at h
    cases more <;> cases (List.cons.inj h).1
  | (key, value) :: fields, [], x, y, _, _, h => by
    rw [fieldsText, fieldsText] at h
    cases more <;> cases (List.cons.inj h).1
  | (key, value) :: fields, (key', value') :: others, x, y, ha, hb, h => by
    rw [WrittenFields] at ha hb
    rw [fieldsText, fieldsText, List.append_assoc, List.append_assoc, List.append_assoc,
      List.append_assoc] at h
    obtain ⟨hkey, hrest⟩ := quote_delimits _ _ _ _ trivial trivial (List.append_cancel_left h)
    rw [List.cons_append, List.cons_append, List.append_assoc, List.append_assoc] at hrest
    obtain ⟨rfl, hbehind⟩ := text_delimits value value' _ _ ha.1 hb.1 (ends_fields fields x)
      (ends_fields others y) (List.cons.inj hrest).2
    obtain ⟨rfl, hlast⟩ := fields_delimits true fields others x y ha.2 hb.2 hbehind
    exact ⟨by rw [utf8_injective hkey], hlast⟩

end

/-! ### A text is on one line -/

mutual

theorem printing_text : ∀ value : Json, value.Written → Printing value.text
  | .null, _ => by simp [text, Printing]
  | .bool b, _ => by cases b <;> simp [text, Printing]
  | .number n, h => by
    rw [Written] at h
    rw [text]
    exact fun b hb => printing_of_numeric (Number.text_numeric h b hb)
  | .string s, _ => by
    rw [text]
    exact printing_quote _
  | .array elements, h => by
    rw [Written] at h
    rw [text]
    exact List.forall_mem_cons.mpr ⟨by decide, printing_elements false elements h⟩
  | .object fields, h => by
    rw [Written] at h
    rw [text]
    exact List.forall_mem_cons.mpr ⟨by decide, printing_fields false fields h⟩

theorem printing_elements (more : Bool) : ∀ elements : List Json, WrittenElements elements →
    Printing (elementsText more elements)
  | [], _ => by simp [elementsText, Printing]
  | element :: elements, h => by
    rw [WrittenElements] at h
    rw [elementsText]
    refine Printing.append ?_ ((printing_text element h.1).append (printing_elements true elements h.2))
    cases more <;> simp [Printing]

theorem printing_fields (more : Bool) : ∀ fields : List (String × Json), WrittenFields fields →
    Printing (fieldsText more fields)
  | [], _ => by simp [fieldsText, Printing]
  | (key, value) :: fields, h => by
    rw [WrittenFields] at h
    rw [fieldsText]
    have hvalue := (printing_text value h.1).append (printing_fields true fields h.2)
    refine Printing.append ?_ ((printing_quote _).append (List.forall_mem_cons.mpr ⟨by decide, hvalue⟩))
    cases more <;> simp [Printing]

end

/-! ### Lines of texts -/

/-- A value on a line of its own. -/
def line (value : Json) : List UInt8 := value.text ++ [newline]

/-- Whatever values are written and whatever is behind their lines: the line determines the value. -/
theorem line_delimits : Codec.Delimits Written line := by
  intro a b x y ha hb h
  have hends : ∀ z, Ends ([newline] ++ z) := by
    rintro z b ⟨⟩
    rfl
  rw [line, line, List.append_assoc, List.append_assoc] at h
  obtain ⟨hsame, hrest⟩ := text_delimits a b _ _ ha hb (hends x) (hends y) h
  exact ⟨hsame, List.append_cancel_left hrest⟩

theorem newline_not_mem_text {value : Json} (h : value.Written) : newline ∉ value.text := fun hmem =>
  absurd (printing_text value h newline hmem) (by decide)

/-- Behind complete lines, a value's line is one line more. -/
theorem split_line {before : List UInt8} (hbefore : Lines.pending newline before = []) {value : Json}
    (h : value.Written) :
    Lines.split newline (before ++ line value) = (Lines.lines newline before ++ [line value], []) := by
  rw [line, Lines.split_close newline before (newline_not_mem_text h), hbefore, List.nil_append,
    List.append_assoc]
  rfl

/-- A reader of lines gets the lines of the values one by one, and then what is behind them. -/
theorem split_flatMap_line (values : List Json) (hvalues : ∀ value ∈ values, value.Written) {rest : List UInt8}
    (hrest : newline ∉ rest) : ∀ before : List UInt8, Lines.pending newline before = [] →
    Lines.split newline (before ++ (values.flatMap line ++ rest))
      = (Lines.lines newline before ++ values.map line, rest) := by
  induction values with
  | nil =>
    intro before hbefore
    rw [List.flatMap_nil, List.nil_append, Lines.split_append_of_pending newline hbefore,
      ← List.nil_append rest, Lines.lines_open newline [] hrest, Lines.pending_open newline [] hrest]
    rfl
  | cons value values ih =>
    intro before hbefore
    have hline := split_line hbefore (hvalues value List.mem_cons_self)
    rw [List.flatMap_cons, List.append_assoc, ← List.append_assoc before,
      ih (fun v hv => hvalues v (List.mem_cons_of_mem _ hv)) _ (congrArg Prod.snd hline),
      show Lines.lines newline (before ++ line value) = _ from congrArg Prod.fst hline, List.map_cons,
      List.append_assoc]
    rfl

/-! ### Objects whose fields are in the order of their keys -/

/-- `json!` of an object: its map is ordered by key. -/
def ordered (fields : List (String × Json)) : Json :=
  .object (fields.foldl (fun m field => m.insert field.1 field.2) SortedMap.empty).entries

/-- Under keys of their own, every field is there. -/
theorem get_ordered_of_mem {fields : List (String × Json)} (hkeys : (fields.map Prod.fst).Nodup)
    {key : String} {value : Json} (hmem : (key, value) ∈ fields) : (ordered fields).get key = some value := by
  change (fields.foldl (fun m field => m.insert field.1 field.2) SortedMap.empty).get? key = some value
  induction fields using List.reverseRecOn with
  | nil => cases hmem
  | append_singleton fields field ih =>
    rw [List.map_append, List.map_singleton, List.nodup_append] at hkeys
    rw [List.foldl_append, List.foldl_cons, List.foldl_nil, SortedMap.get?_insert]
    rcases List.mem_append.mp hmem with hbefore | hlast
    · have hne : key ≠ field.1 :=
        hkeys.2.2 key (List.mem_map_of_mem hbefore) field.1 (List.mem_singleton.mpr rfl)
      rw [if_neg hne, ih hkeys.1 hbefore]
    · rw [← List.mem_singleton.mp hlast, if_pos rfl]

/-- Objects with the same keys are equal only if their fields are. -/
theorem ordered_injective {fields others : List (String × Json)} (hkeys : (fields.map Prod.fst).Nodup)
    (hsame : fields.map Prod.fst = others.map Prod.fst) (h : ordered fields = ordered others) :
    fields = others := by
  have hlength : fields.length = others.length := by
    rw [← List.length_map Prod.fst, hsame, List.length_map]
  refine List.ext_getElem hlength fun i hi hi' => ?_
  have hkey : fields[i].1 = others[i].1 := by
    simpa [List.getElem?_map, hi, hi'] using congrArg (fun l => l[i]?) hsame
  have hvalue : (ordered fields).get fields[i].1 = some fields[i].2 :=
    get_ordered_of_mem hkeys (List.getElem_mem hi)
  have hother : (ordered others).get others[i].1 = some others[i].2 :=
    get_ordered_of_mem (hsame ▸ hkeys) (List.getElem_mem hi')
  rw [h, hkey, hother] at hvalue
  exact Prod.ext hkey (Option.some.inj hvalue).symm

theorem writtenFields_iff (fields : List (String × Json)) :
    WrittenFields fields ↔ ∀ field ∈ fields, field.2.Written := by
  induction fields with
  | nil => simp [WrittenFields]
  | cons field rest ih =>
    obtain ⟨key, value⟩ := field
    rw [WrittenFields, ih, List.forall_mem_cons]

theorem writtenElements_iff (elements : List Json) :
    WrittenElements elements ↔ ∀ element ∈ elements, element.Written := by
  induction elements with
  | nil => simp [WrittenElements]
  | cons element rest ih => rw [WrittenElements, ih, List.forall_mem_cons]

theorem written_ordered {fields : List (String × Json)} (h : ∀ field ∈ fields, field.2.Written) :
    (ordered fields).Written := by
  have hkeep : ∀ (fields : List (String × Json)) (m : SortedMap String Json),
      (∀ field ∈ fields, field.2.Written) → (∀ k v, m.get? k = some v → v.Written) →
      ∀ k v, (fields.foldl (fun m field => m.insert field.1 field.2) m).get? k = some v → v.Written := by
    intro fields
    induction fields with
    | nil => exact fun m _ hm => hm
    | cons field rest ih =>
      intro m hfields hm
      refine ih _ (fun f hf => hfields f (List.mem_cons_of_mem _ hf)) fun k v hv => ?_
      rw [SortedMap.get?_insert] at hv
      split at hv
      · cases hv
        exact hfields field List.mem_cons_self
      · exact hm k v hv
  rw [ordered, Written, writtenFields_iff]
  intro field hfield
  exact hkeep fields _ h (by simp) _ _ ((SortedMap.get?_eq_some_iff _ _ _).mpr hfield)

mutual

/-- The value as `serde_json` holds it, every object ordered by key. -/
def canonical : Json → Json
  | .array elements => .array (canonicalElements elements)
  | .object fields => .object (canonicalFields fields).entries
  | value => value

def canonicalElements : List Json → List Json
  | [] => []
  | element :: elements => element.canonical :: canonicalElements elements

def canonicalFields : List (String × Json) → SortedMap String Json
  | [] => .empty
  | (key, value) :: fields => (canonicalFields fields).insert key value.canonical

end

theorem get?_canonicalFields (key : String) (fields : List (String × Json)) :
    (canonicalFields fields).get? key = (fields.lookup key).map canonical := by
  induction fields with
  | nil => rw [canonicalFields, SortedMap.get?_empty, List.lookup_nil, Option.map_none]
  | cons field fields ih =>
    obtain ⟨name, value⟩ := field
    rw [canonicalFields, SortedMap.get?_insert, SortedMap.lookup_cons, ih]
    split <;> rfl

/-- A field is found in either form. -/
theorem get_canonical (key : String) (value : Json) :
    value.canonical.get key = (value.get key).map canonical := by
  cases value with
  | object fields =>
    rw [canonical]
    exact get?_canonicalFields key fields
  | array elements => rw [canonical]; rfl
  | null | bool _ | number _ | string _ => rw [canonical] <;> first | rfl | nofun

end Json
end Funzzy.Control
