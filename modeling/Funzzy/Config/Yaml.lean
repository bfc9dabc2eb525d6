import Funzzy.Prepare
import Funzzy.Lib.SortedMap
import Mathlib.Data.String.Basic

/-! YAML documents and what is taken out of them (`yaml.rs`, `errors.rs`).

    The scanner is a library; `Yaml` is the tree it delivers. An index that finds nothing gives `badValue`,
    and so does a scalar whose tag does not fit: the readers do not tell the two apart. -/

namespace Funzzy

/-! ### Documents -/

/-- `yaml_rust2::Yaml`. The keys of a mapping are distinct and stand in the order of the text. -/
inductive Yaml where
  | real (text : String)
  | integer (value : Int)
  | string (text : String)
  | boolean (value : Bool)
  | array (items : List Yaml)
  | hash (entries : List (Yaml × Yaml))
  | alias (anchor : Nat)
  | null
  | badValue

namespace Yaml

def isString (key : String) : Yaml → Bool
  | .string text => text == key
  | _ => false

/-- `yaml[key]` -/
def get (yaml : Yaml) (key : String) : Yaml :=
  match yaml with
  | .hash entries => ((entries.find? fun entry => entry.1.isString key).map (·.2)).getD .badValue
  | _ => .badValue

/-- `yaml == Yaml::BadValue` -/
def isBad : Yaml → Bool
  | .badValue => true
  | _ => false

def isHash : Yaml → Bool
  | .hash _ => true
  | _ => false

/-- `as_str` -/
def asStr? : Yaml → Option String
  | .string text => some text
  | _ => none

end Yaml

/-- `get_type` -/
def getType : Yaml → String
  | .hash _ => "Hash"
  | .array _ => "Array"
  | .string _ => "String"
  | .boolean _ => "Boolean"
  | .integer _ => "Integer"
  | .real _ => "Real"
  | .alias _ | .null | .badValue => "Unknown"

/-- `result.strip_suffix("\n")`, or the text as it is. -/
def stripNewline (text : String) : String :=
  match text.toList.reverse with
  | '\n' :: rest => String.ofList rest.reverse
  | _ => text

/-- How a mapping is shown as an item of a list: its lines below the first are moved behind the dash. -/
def listedHash (spaces hash : String) : String :=
  let lines := hash.splitOn "\n"
  let rest := "\n".intercalate ((lines.tail.map fun line => "  " ++ spaces ++ line).filter (· ≠ ""))
  if rest = "" then spaces ++ "- " ++ lines.headD "" ++ "\n"
  else spaces ++ "- " ++ lines.headD "" ++ "\n" ++ rest ++ "\n"

/-- The indentation is a `u8`, which a release build lets wrap: 128 mappings deep it is none again. -/
def spacesOf (identation : Nat) : String := String.ofList (List.replicate (identation * 2 % 256) ' ')

mutual

/-- `yaml_to_string` -/
def yamlToString : Yaml → Nat → String
  | .hash entries, identation => stripNewline (hashToString entries identation)
  | .array items, identation => arrayToString items identation
  | .string text, _ => text
  | .boolean value, _ => toString value
  | .integer value, _ => toString value
  | .real text, _ => text
  | .alias anchor, _ => "Alias(" ++ toString anchor ++ ")"
  | .null, _ => "Null"
  | .badValue, _ => "BadValue"

/-- The loop of `yaml_to_string` over a mapping. -/
def hashToString : List (Yaml × Yaml) → Nat → String
  | [], _ => ""
  | (key, value) :: rest, identation =>
    let shown := spacesOf identation ++ yamlToString key (identation + 1)
    (match value with
      | .hash _ | .array _ => shown ++ ":\n" ++ yamlToString value (identation + 1)
      | _ => shown ++ ": " ++ yamlToString value (identation + 1) ++ "\n")
      ++ hashToString rest identation

/-- The loop of `yaml_to_string` over a list. -/
def arrayToString : List Yaml → Nat → String
  | [], _ => ""
  | item :: rest, identation =>
    (match item with
      | .hash _ => listedHash (spacesOf identation) (yamlToString item 0)
      | _ => spacesOf identation ++ "- " ++ yamlToString item identation ++ "\n")
      ++ arrayToString rest identation

end

/-! ### Errors -/

/-- A `ScanError` of the scanner, with the line of its marker, counted from one. -/
structure ScanError where
  text : String
  line : Nat
  deriving DecidableEq

inductive IoErrorKind where | notFound | permissionDenied | other
  deriving DecidableEq

structure IoError where
  kind : IoErrorKind
  text : String
  deriving DecidableEq

/-- `FzzError`, as far as the configuration is concerned; `panicked` is an index out of bounds. -/
inductive FzzError where
  | ioConfigError (msg : String) (err : IoError)
  | invalidConfigError (msg : String) (err : Option ScanError) (hint : Option String)
  | genericError (msg : String)
  | panicked
  deriving DecidableEq

def hintFormatter (colored : Bool) (hint : String) : String :=
  if colored then "\x1b[34mHint\x1b[0m: " ++ hint else "Hint: " ++ hint

/-- `fmt::Display for FzzError` -/
def FzzError.display (colored : Bool) : FzzError → String
  | .ioConfigError msg err =>
    msg ++ "\nReason: " ++ err.text ++ match err.kind with
      | .notFound => "\n" ++ hintFormatter colored
          "Check if the file exists and if the path is correct. Try `fzz init` to create a new configuration file"
      | .permissionDenied => "\n" ++ hintFormatter colored
          "Check if you have permission to write in the current folder"
      | .other => ""
  | .invalidConfigError msg err hint =>
    msg ++ ((err.map fun e => "\nReason: " ++ e.text).getD "")
      ++ ((hint.map fun h => "\n" ++ hintFormatter colored h).getD "")
  | .genericError msg => "Reason: " ++ msg
  | .panicked => ""

/-! ### Trimming -/

/-- `trim_start` -/
def trimStart (text : List Char) : List Char := text.dropWhile isSpace

/-- `text.trim().is_empty()` -/
def isBlank (text : String) : Bool := text.toList.all isSpace

/-! ### Extracting -/

def missingProperty {α : Type} (yaml : Yaml) (prop : String) : Except FzzError α :=
  .error (.invalidConfigError
    ("Missing '" ++ prop ++ "' in rule\n```yaml\n" ++ yamlToString yaml 0 ++ "\n```") none
    (some "Check for typos or wrong identation"))

/-- `extract_list`: an item that is not a string leaves a mark in its place. -/
def extractList (yaml : Yaml) (prop : String) : Except FzzError (List String) :=
  match yaml.get prop with
  | .array items => .ok (items.map fun item => item.asStr?.getD "_invalid_value_")
  | .string item => .ok [item]
  | .badValue => missingProperty yaml prop
  | unknown => .error (.invalidConfigError
      ("Invalid property '" ++ prop ++ "' in rule below\nExpected a list (Array) but got: " ++ getType unknown
        ++ "\n```yaml\n" ++ yamlToString yaml 0 ++ "\n```") none
      (some "Check if the property is defined, with the right type and identation"))

/-- `extract_string` -/
def extractString (yaml : Yaml) (prop : String) : Except FzzError String :=
  match yaml.get prop with
  | .string item => .ok item
  | .badValue => missingProperty yaml prop
  | unknown => .error (.invalidConfigError
      ("Invalid property '" ++ prop ++ "' in rule below\nExpected 'String' but got: \"" ++ getType unknown
        ++ "\"\n```\n" ++ yamlToString yaml 0 ++ "\n```") none
      (some "Check if the property is defined, with the right type and identation"))

/-- The loop of `extract_optional_string_map`. -/
def extractEntries (prop : String) : List (Yaml × Yaml) → SortedMap String String →
    Except FzzError (SortedMap String String)
  | [], values => .ok values
  | (name, value) :: rest, values =>
    match name.asStr? with
    | none => .error (.invalidConfigError
        ("Property '" ++ prop ++ "' environment names must be strings") none none)
    | some name =>
      if isBlank name then
        .error (.invalidConfigError "Environment variable name cannot be empty" none none)
      else match value.asStr? with
        | none => .error (.invalidConfigError
            ("Environment value for '" ++ name ++ "' must be a string") none none)
        | some value => extractEntries prop rest (values.insert name value)

/-- `extract_optional_string_map` -/
def extractOptionalStringMap (yaml : Yaml) (prop : String) : Except FzzError (SortedMap String String) :=
  match yaml.get prop with
  | .badValue => .ok .empty
  | .hash items => extractEntries prop items .empty
  | unknown => .error (.invalidConfigError
      ("Property '" ++ prop ++ "' must be a string-to-string object, got " ++ getType unknown) none none)

/-- `extract_optional_string` -/
def extractOptionalString (yaml : Yaml) (prop : String) : Except FzzError (Option String) :=
  match yaml.get prop with
  | .badValue => .ok none
  | .string item =>
    if isBlank item then
      .error (.invalidConfigError
        ("Property '" ++ prop ++ "' cannot be empty\n```yaml\n" ++ yamlToString yaml 0 ++ "\n```") none
        (some "Provide a non-empty value"))
    else .ok (some item)
  | unknown => .error (.invalidConfigError
      ("Invalid property '" ++ prop ++ "' in rule below\nExpected 'String' but got: " ++ getType unknown
        ++ "\n```\n" ++ yamlToString yaml 0 ++ "\n```") none
      (some "Check if the property is defined, with the right type and identation"))

/-- `extract_bool` -/
def extractBool (yaml : Yaml) (prop : String) : Bool :=
  match yaml.get prop with
  | .boolean item => item
  | _ => false

end Funzzy
