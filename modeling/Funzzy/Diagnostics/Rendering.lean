import Funzzy.Lib.KeyValue
import Funzzy.Diagnostics.Detector

/-! The lines of diagnostic records and of loop warnings (`render`, `quote` and `render_loop_warning` in
    `diagnostics.rs`).

    A value with a blank or a quotation mark is put between quotation marks, so the fields of a line can be
    told apart. A line break is written as it is, though, and the position of a command and the command
    itself stand under one key. -/

namespace Funzzy.Diagnostics

/-- One typed diagnostic record. -/
structure Record where
  seq : Option Nat := none
  batch : Option Nat := none
  source : Option String := none
  kind : Option String := none
  path : Option String := none
  normalized : Option String := none
  decision : Option String := none
  task : Option String := none
  change : Option String := none
  ignore : Option String := none
  ruleOrigin : Option String := none
  generation : Option Nat := none
  policy : Option String := none
  commands : Option Nat := none
  /-- The index of the command and how many there are. -/
  commandPosition : Option (Nat × Nat) := none
  state : Option String := none
  command : Option String := none
  duration : Option String := none
  reason : Option String := none
  observedAfterRun : Option Nat := none
  repeats : Option Nat := none
  hint : Option String := none
  note : Option String := none
  deriving DecidableEq

def quoting : KeyValue.Quoting where
  special c := c ∈ [' ', '"', '\t', '*', '?', '[', '\x7b']
  blank := by decide
  mark := by decide

/-- Quotes a value when it is empty or has a special character, escaping embedded quotes. -/
def quote (value : String) : String := String.ofList (KeyValue.quote quoting value.toList)

def position (place : Nat × Nat) : String := toString place.1 ++ "/" ++ toString place.2

/-- The fields of a record in the order of its line, under their keys. -/
def Record.pushed (record : Record) : List (String × Option String) :=
  [("seq", record.seq.map toString),
   ("batch", record.batch.map toString),
   ("source", record.source),
   ("kind", record.kind),
   ("path", record.path),
   ("normalized", record.normalized),
   ("decision", record.decision),
   ("task", record.task),
   ("change", record.change),
   ("ignore", record.ignore),
   ("rule_origin", record.ruleOrigin),
   ("run", record.generation.map toString),
   ("policy", record.policy),
   ("commands", record.commands.map toString),
   ("command", record.commandPosition.map position),
   ("state", record.state),
   ("command", record.command),
   ("duration", record.duration),
   ("reason", record.reason),
   ("observed_after_run", record.observedAfterRun.map toString),
   ("repeats", record.repeats.map toString),
   ("hint", record.hint),
   ("note", record.note)]

def part (entry : String × String) : String := entry.1 ++ "=" ++ quote entry.2

def render (record : Record) : String :=
  "Funzzy debug: " ++ " ".intercalate ((KeyValue.present record.pushed).map part)

def renderLoopWarning (warning : LoopWarning) : String :=
  "possible feedback loop " ++ " ".intercalate
    (["task=" ++ quote warning.task, "path=" ++ quote warning.path, "change=" ++ quote warning.rule,
        "repeats=" ++ toString warning.repeats]
      ++ (warning.generation.map fun generation => "run=" ++ toString generation).toList
      ++ ["hint=" ++ quote warning.hint])

/-- Printed on one line. -/
def OneLine (text : String) : Prop := '\n' ∉ text.toList

/-- The fields of a record that hold texts. -/
def Record.texts (record : Record) : List (Option String) :=
  [record.source, record.kind, record.path, record.normalized, record.decision, record.task, record.change,
    record.ignore, record.ruleOrigin, record.policy, record.state, record.command, record.duration,
    record.reason, record.hint, record.note]

def LoopWarning.texts (warning : LoopWarning) : List String :=
  [warning.task, warning.path, warning.rule, warning.hint]

/-- The position in the one record is the command of the other, and no state stands between the two. -/
def ShadowedBy (record other : Record) : Prop :=
  record.state = none ∧ record.command = none ∧ ∃ place, record.commandPosition = some place ∧
    other = { record with commandPosition := none, command := some (position place) }

/-! ### Numbers -/

theorem number_injective {n m : Nat} (h : toString n = toString m) : n = m :=
  Codec.toDigits_ten_injective (by simpa using congrArg String.toList h)

theorem number_eq_iff {n m : Nat} : toString n = toString m ↔ n = m := ⟨number_injective, congrArg _⟩

@[simp] theorem numbers_eq_iff {a b : Option Nat} : a.map toString = b.map toString ↔ a = b :=
  (Option.map_injective fun _ _ => number_injective).eq_iff

theorem not_mem_number {c : Char} (hc : c.isDigit = false) (n : Nat) : c ∉ (toString n).toList := by
  intro hmem
  rw [Nat.toString_eq_repr, Nat.toList_repr] at hmem
  exact Bool.false_ne_true (hc.symm.trans (Nat.isDigit_of_mem_toDigits (by decide) (by decide) hmem))

theorem position_injective {place other : Nat × Nat} (h : position place = position other) : place = other := by
  have hslash : ∀ n : Nat, ∀ c ∈ (toString n).toList, c ≠ '/' := fun n c hc heq =>
    not_mem_number (by decide) n (heq ▸ hc)
  have hchars := congrArg String.toList h
  rw [position, position, String.toList_append, String.toList_append, String.toList_append,
    String.toList_append] at hchars
  obtain ⟨hindex, htotal⟩ := Codec.delimits_text '/' _ _ _ _ (hslash place.1) (hslash other.1) hchars
  exact Prod.ext (number_injective (String.toList_inj.mp hindex)) (number_injective (String.toList_inj.mp htotal))

@[simp] theorem positions_eq_iff {a b : Option (Nat × Nat)} : a.map position = b.map position ↔ a = b :=
  (Option.map_injective fun _ _ => position_injective).eq_iff

theorem quote_number (n : Nat) : quote (toString n) = toString n := by
  have hplain : ∀ c, quoting.special c = true → c ∉ (toString n).toList := by
    intro c hc
    refine not_mem_number ?_ n
    simp only [quoting, List.mem_cons, decide_eq_true_eq] at hc
    rcases hc with rfl | rfl | rfl | rfl | rfl | rfl | rfl | hc
    all_goals first | rfl | cases hc
  have hunquoted : ¬((toString n).toList = [] ∨ (toString n).toList.any quoting.special) := by
    rintro (hempty | hspecial)
    · simp at hempty
    · obtain ⟨c, hmem, hc⟩ := List.any_eq_true.mp hspecial
      exact hplain c hc hmem
  rw [quote, KeyValue.quote, if_neg hunquoted, String.ofList_toList]

/-! ### The characters of a line -/

/-- Fields as characters. -/
def characters (fields : List (String × String)) : List (List Char × List Char) :=
  fields.map fun entry => (entry.1.toList, entry.2.toList)

theorem characters_injective : Function.Injective characters :=
  List.map_injective_iff.mpr fun _ _ h =>
    Prod.ext (String.toList_inj.mp (congrArg Prod.fst h)) (String.toList_inj.mp (congrArg Prod.snd h))

theorem parts_toList (fields : List (String × String)) :
    (" ".intercalate (fields.map part)).toList = KeyValue.joined quoting (characters fields) := by
  rw [String.toList_intercalate, KeyValue.joined, characters, List.map_map, List.map_map]
  congr 1
  refine List.map_congr_left fun entry _ => ?_
  simp [part, quote]

/-- Lines are told apart by their fields. -/
theorem parts_injective {fields fields' : List (String × String)}
    (hkeys : ∀ entry ∈ fields, KeyValue.IsKey entry.1.toList)
    (hkeys' : ∀ entry ∈ fields', KeyValue.IsKey entry.1.toList)
    (h : " ".intercalate (fields.map part) = " ".intercalate (fields'.map part)) : fields = fields' := by
  have hchars := congrArg String.toList h
  rw [parts_toList, parts_toList] at hchars
  refine characters_injective (KeyValue.joined_injective quoting ?_ ?_ hchars)
  · exact List.forall_mem_map.mpr hkeys
  · exact List.forall_mem_map.mpr hkeys'

theorem oneLine_parts_iff {fields : List (String × String)} (hkeys : ∀ entry ∈ fields, '\n' ∉ entry.1.toList) :
    OneLine (" ".intercalate (fields.map part)) ↔ ∀ entry ∈ fields, OneLine entry.2 := by
  have hchars : ∀ entry ∈ characters fields, '\n' ∉ entry.1 := List.forall_mem_map.mpr hkeys
  rw [OneLine, parts_toList, KeyValue.mem_joined_iff quoting (by decide) (by decide) (by decide) (by decide) hchars]
  simp [characters, OneLine]

/-! ### Records -/

def keys : List String :=
  ["seq", "batch", "source", "kind", "path", "normalized", "decision", "task", "change", "ignore",
    "rule_origin", "run", "policy", "commands", "command", "state", "command", "duration", "reason",
    "observed_after_run", "repeats", "hint", "note"]

/-- No blank, `=` or line break is in a key. -/
theorem keys_plain : ∀ key ∈ keys, KeyValue.IsKey key.toList ∧ '\n' ∉ key.toList := by
  simp [keys, KeyValue.IsKey]

theorem present_key {record : Record} {entry : String × String} (h : entry ∈ KeyValue.present record.pushed) :
    entry.1 ∈ keys := by
  have hkey : entry.1 ∈ record.pushed.map Prod.fst := List.mem_map.mpr ⟨_, KeyValue.mem_present_iff.mp h, rfl⟩
  exact hkey

/-- The fields under a key of their own. -/
theorem pushed_outer (record : Record) :
    record.pushed.filter (fun entry => entry.1 ∉ ["command", "state"]) =
      [("seq", record.seq.map toString), ("batch", record.batch.map toString), ("source", record.source),
        ("kind", record.kind), ("path", record.path), ("normalized", record.normalized),
        ("decision", record.decision), ("task", record.task), ("change", record.change),
        ("ignore", record.ignore), ("rule_origin", record.ruleOrigin), ("run", record.generation.map toString),
        ("policy", record.policy), ("commands", record.commands.map toString), ("duration", record.duration),
        ("reason", record.reason), ("observed_after_run", record.observedAfterRun.map toString),
        ("repeats", record.repeats.map toString), ("hint", record.hint), ("note", record.note)] := by
  simp [Record.pushed]

theorem pushed_inner (record : Record) :
    record.pushed.filter (fun entry => entry.1 ∈ ["command", "state"]) =
      [("command", record.commandPosition.map position), ("state", record.state), ("command", record.command)] := by
  simp [Record.pushed]

/-- Two values under the key of commands may be taken for each other if one of them is missing and no state
    stands between them. -/
theorem inner_cases {place state command place' state' command' : Option String}
    (h : KeyValue.present [("command", place), ("state", state), ("command", command)] =
      KeyValue.present [("command", place'), ("state", state'), ("command", command')]) :
    (place = place' ∧ state = state' ∧ command = command') ∨
      state = none ∧ state' = none ∧ ∃ text, (place = some text ∧ command = none ∧ place' = none ∧ command' = some text) ∨
        (place' = some text ∧ command' = none ∧ place = none ∧ command = some text) := by
  have hstate : state = state' := by
    have hlists := congrArg (List.filter fun entry => entry.1 = "state") h
    rw [KeyValue.present_filter (· = "state"), KeyValue.present_filter (· = "state")] at hlists
    simpa using KeyValue.present_injective (by simp) (by simp) hlists
  subst hstate
  rcases state with _ | state <;> rcases place with _ | place <;> rcases place' with _ | place' <;>
    rcases command with _ | command <;> rcases command' with _ | command' <;>
    simp_all [KeyValue.present]

/-- Records that agree except for commands, and what their fields say of these. -/
theorem present_pushed {record other : Record} (h : KeyValue.present record.pushed = KeyValue.present other.pushed) :
    other = { record with
      commandPosition := other.commandPosition, state := other.state, command := other.command } := by
  have houter : record.pushed.filter (fun entry => entry.1 ∉ ["command", "state"]) =
      other.pushed.filter (fun entry => entry.1 ∉ ["command", "state"]) := by
    refine KeyValue.present_injective ?_ ?_ ?_
    · rw [pushed_outer, pushed_outer]
      rfl
    · rw [pushed_outer]
      simp
    · rw [← KeyValue.present_filter (· ∉ ["command", "state"]), h, KeyValue.present_filter (· ∉ ["command", "state"])]
  rw [pushed_outer, pushed_outer] at houter
  simp only [List.cons.injEq, Prod.mk.injEq, true_and, and_true, numbers_eq_iff] at houter
  cases other
  simp only [Record.mk.injEq]
  simp_all

theorem pushed_eq {record other : Record} (h : KeyValue.present record.pushed = KeyValue.present other.pushed) :
    record = other ∨ ShadowedBy record other ∨ ShadowedBy other record := by
  have hinner : KeyValue.present (record.pushed.filter fun entry => entry.1 ∈ ["command", "state"]) =
      KeyValue.present (other.pushed.filter fun entry => entry.1 ∈ ["command", "state"]) := by
    rw [← KeyValue.present_filter (· ∈ ["command", "state"]), h, KeyValue.present_filter (· ∈ ["command", "state"])]
  rw [pushed_inner, pushed_inner] at hinner
  have hsame := present_pushed h
  have hsame' := present_pushed h.symm
  rcases inner_cases hinner with ⟨hplace, hstate, hcommand⟩ |
    ⟨hstate, hstate', text, ⟨hplace, hcommand, hplace', hcommand'⟩ | ⟨hplace, hcommand, hplace', hcommand'⟩⟩
  · rw [positions_eq_iff] at hplace
    exact .inl (by rw [hsame, ← hplace, ← hstate, ← hcommand])
  · obtain ⟨place, hposition, rfl⟩ := Option.map_eq_some_iff.mp hplace
    have hnone : other.commandPosition = none := Option.map_eq_none_iff.mp hplace'
    refine .inr (.inl ⟨hstate, hcommand, place, hposition, ?_⟩)
    rw [hsame, hnone, hcommand', hstate', hstate]
  · obtain ⟨place, hposition, rfl⟩ := Option.map_eq_some_iff.mp hplace
    have hnone : record.commandPosition = none := Option.map_eq_none_iff.mp hplace'
    refine .inr (.inr ⟨hstate', hcommand, place, hposition, ?_⟩)
    rw [hsame', hnone, hcommand', hstate', hstate]

theorem render_of_shadowed {record other : Record} (h : ShadowedBy record other) : render record = render other := by
  obtain ⟨hstate, hcommand, place, hposition, rfl⟩ := h
  simp [render, KeyValue.present_cons, Record.pushed, hstate, hcommand, hposition]

theorem render_eq_iff {record other : Record} :
    render record = render other ↔ record = other ∨ ShadowedBy record other ∨ ShadowedBy other record := by
  constructor
  · intro h
    refine pushed_eq (parts_injective ?_ ?_ ((String.append_right_inj _).mp h))
    · exact fun entry hentry => (keys_plain _ (present_key hentry)).1
    · exact fun entry hentry => (keys_plain _ (present_key hentry)).1
  · rintro (rfl | h | h)
    · rfl
    · exact render_of_shadowed h
    · exact (render_of_shadowed h).symm

theorem ShadowedBy.ne {record other : Record} (h : ShadowedBy record other) : record ≠ other := by
  obtain ⟨_, _, place, hposition, rfl⟩ := h
  intro heq
  exact Option.some_ne_none place (hposition.symm.trans (congrArg Record.commandPosition heq))

theorem oneLine_append_iff {a b : String} (ha : OneLine a) : OneLine (a ++ b) ↔ OneLine b := by
  rw [OneLine] at ha
  simp [OneLine, ha]

theorem oneLine_numbers (number : Option Nat) : (∀ text ∈ number.map toString, OneLine text) ↔ True := by
  refine iff_true_intro fun text htext => ?_
  obtain ⟨n, -, rfl⟩ := Option.map_eq_some_iff.mp htext
  exact not_mem_number (by decide) n

theorem oneLine_positions (place : Option (Nat × Nat)) : (∀ text ∈ place.map position, OneLine text) ↔ True := by
  refine iff_true_intro fun text htext => ?_
  obtain ⟨⟨index, total⟩, -, rfl⟩ := Option.map_eq_some_iff.mp htext
  have hnumber : ∀ n : Nat, '\n' ∉ (toString n).toList := not_mem_number (by decide)
  rw [position, OneLine, String.toList_append, String.toList_append]
  simpa [-Nat.toString_eq_repr] using ⟨hnumber index, hnumber total⟩

theorem oneLine_render_iff {record : Record} :
    OneLine (render record) ↔ ∀ field ∈ record.texts, ∀ text ∈ field, OneLine text := by
  have hstart : '\n' ∉ "Funzzy debug: ".toList := by decide +kernel
  rw [render, oneLine_append_iff hstart,
    oneLine_parts_iff fun entry hentry => (keys_plain _ (present_key hentry)).2,
    KeyValue.forall_present_iff (P := OneLine)]
  simp only [Record.pushed, Record.texts, List.forall_mem_cons, oneLine_numbers, oneLine_positions, true_and,
    List.not_mem_nil, IsEmpty.forall_iff, implies_true]

/-! ### Warnings -/

/-- The fields of a warning under their keys. -/
def warned (warning : LoopWarning) : List (String × Option String) :=
  [("task", some warning.task), ("path", some warning.path), ("change", some warning.rule),
    ("repeats", some (toString warning.repeats)), ("run", warning.generation.map toString),
    ("hint", some warning.hint)]

/-- Numbers are written as values that need no quotation marks. -/
theorem renderLoopWarning_eq (warning : LoopWarning) :
    renderLoopWarning warning =
      "possible feedback loop " ++ " ".intercalate ((KeyValue.present (warned warning)).map part) := by
  have hparts : (KeyValue.present (warned warning)).map part =
      ["task=" ++ quote warning.task, "path=" ++ quote warning.path, "change=" ++ quote warning.rule,
        "repeats=" ++ toString warning.repeats]
      ++ (warning.generation.map fun generation => "run=" ++ toString generation).toList
      ++ ["hint=" ++ quote warning.hint] := by
    rw [warned]
    cases warning.generation with
    | none => simp only [KeyValue.present, List.filterMap_cons, List.filterMap_nil, Option.map_some, Option.map_none,
        Option.toList_none, List.map_cons, List.map_nil, part, String.reduceAppend, quote_number, List.cons_append,
        List.nil_append, List.append_nil]
    | some generation => simp only [KeyValue.present, List.filterMap_cons, List.filterMap_nil, Option.map_some,
        Option.toList_some, List.map_cons, List.map_nil, part, String.reduceAppend, quote_number, List.cons_append,
        List.nil_append]
  exact congrArg (fun parts => "possible feedback loop " ++ " ".intercalate parts) hparts.symm

theorem warned_plain {warning : LoopWarning} {entry : String × String}
    (h : entry ∈ KeyValue.present (warned warning)) :
    KeyValue.IsKey entry.1.toList ∧ '\n' ∉ entry.1.toList := by
  have hkeys : ∀ key ∈ (warned warning).map Prod.fst, KeyValue.IsKey key.toList ∧ '\n' ∉ key.toList := by
    simp [warned, KeyValue.IsKey]
  exact hkeys _ (List.mem_map.mpr ⟨_, KeyValue.mem_present_iff.mp h, rfl⟩)

theorem renderLoopWarning_injective {warning other : LoopWarning}
    (h : renderLoopWarning warning = renderLoopWarning other) : warning = other := by
  rw [renderLoopWarning_eq, renderLoopWarning_eq] at h
  have hfields : warned warning = warned other := by
    refine KeyValue.present_injective rfl (by simp [warned]) (parts_injective ?_ ?_ ((String.append_right_inj _).mp h))
    · exact fun entry hentry => (warned_plain hentry).1
    · exact fun entry hentry => (warned_plain hentry).1
  cases warning
  cases other
  simpa only [warned, List.cons.injEq, Prod.mk.injEq, Option.some.injEq, number_eq_iff, numbers_eq_iff,
    LoopWarning.mk.injEq, true_and, and_true] using hfields

theorem oneLine_renderLoopWarning_iff {warning : LoopWarning} :
    OneLine (renderLoopWarning warning) ↔ ∀ text ∈ LoopWarning.texts warning, OneLine text := by
  have hstart : '\n' ∉ "possible feedback loop ".toList := by decide +kernel
  have hrepeats : OneLine (toString warning.repeats) := not_mem_number (by decide) _
  rw [renderLoopWarning_eq, oneLine_append_iff hstart,
    oneLine_parts_iff fun entry hentry => (warned_plain hentry).2, KeyValue.forall_present_iff (P := OneLine)]
  simp only [warned, LoopWarning.texts, List.forall_mem_cons, oneLine_numbers, true_and, Option.mem_some_iff,
    forall_eq', hrepeats, List.not_mem_nil, IsEmpty.forall_iff, implies_true]

/-! ### Lines that can be read back -/

/-- Two records have a line each, and not the same one, unless a text of theirs has a line break or the
    position in the one is the command of the other. Two warnings do unless a text of theirs has a line
    break. -/
theorem distinct_lines_iff (record other : Record) (warning next : LoopWarning) :
    (OneLine (render record) ∧ OneLine (render other) ∧ (render record = render other → record = other) ↔
      (∀ field ∈ record.texts, ∀ text ∈ field, OneLine text) ∧
      (∀ field ∈ other.texts, ∀ text ∈ field, OneLine text) ∧
      ¬ShadowedBy record other ∧ ¬ShadowedBy other record) ∧
    (OneLine (renderLoopWarning warning) ∧ OneLine (renderLoopWarning next) ∧
        (renderLoopWarning warning = renderLoopWarning next → warning = next) ↔
      (∀ text ∈ LoopWarning.texts warning, OneLine text) ∧ ∀ text ∈ LoopWarning.texts next, OneLine text) := by
  constructor
  · rw [oneLine_render_iff, oneLine_render_iff]
    refine and_congr_right fun _ => and_congr_right fun _ => ?_
    constructor
    · intro hsame
      constructor
      · exact fun hshadow => hshadow.ne (hsame (render_eq_iff.mpr (.inr (.inl hshadow))))
      · exact fun hshadow => hshadow.ne (hsame (render_eq_iff.mpr (.inr (.inr hshadow)))).symm
    · rintro ⟨hother, hrecord⟩ heq
      rcases render_eq_iff.mp heq with hsame | hshadow | hshadow
      · exact hsame
      · exact absurd hshadow hother
      · exact absurd hshadow hrecord
  · rw [oneLine_renderLoopWarning_iff, oneLine_renderLoopWarning_iff]
    refine and_congr_right fun _ => and_iff_left ?_
    exact renderLoopWarning_injective

/-- A path with a line break, and a position that reads as a command. -/
theorem broken_and_shared_lines :
    ¬OneLine (render { path := some "a\nb" }) ∧
      render { commandPosition := some (1, 3) } = render { command := some "1/3" } ∧
      ({ commandPosition := some (1, 3) } : Record) ≠ { command := some "1/3" } := by
  refine ⟨fun hline => ?_, render_of_shadowed ⟨rfl, rfl, (1, 3), rfl, rfl⟩, by decide⟩
  have hpath : OneLine "a\nb" := oneLine_render_iff.mp hline (some "a\nb") (by simp [Record.texts]) "a\nb" rfl
  exact absurd hpath (by simp [OneLine])

end Funzzy.Diagnostics
