import Funzzy.Watches
import Funzzy.Lib.Codec

/-! Config revisions (`config_revision.rs`): the bytes that are hashed to tell one configuration from
    another, and the tracker that calls a reload a no-op where the hashes agree.

    The bytes determine every setting and, of each rule, its surface: the patterns and the commands as
    sorted lists, everything else as it is. The order of patterns is nothing routing looks at. The order
    of commands is what a task runs, and sorting loses it. -/

namespace Funzzy

open Codec UnixPath

/-! ### The encoder -/

/-- `as_bytes`. -/
def bytes (s : String) : List UInt8 := s.toByteArray.data.toList

namespace CanonicalEncoder

def u64 (value : Nat) : List UInt8 := littleEndian 8 value

def bool (value : Bool) : List UInt8 := [if value then 1 else 0]

def string (value : String) : List UInt8 := sized u64 bytes value

def optionalString (value : Option String) : List UInt8 := optional [1] [0] string value

/-- The loops of `encode_rule`: how many there are, then each. -/
def strings (values : List String) : List UInt8 := counted u64 string values

end CanonicalEncoder

/-! ### Tags -/

/-- `backend_tag`. -/
def backendTag : WatchBackend → String
  | .native => "native"
  | .poll interval => "poll:" ++ toString interval
  | .auto => "auto"

/-- `output_policy_tag`. -/
def outputPolicyTag : OutputPolicy → String
  | .inherit => "inherit"
  | .quiet => "quiet"
  | .capture => "capture"
  | .showOnFailure => "show_on_failure"

def recoveryTag : RecoveryPolicy → String
  | .prompt => "prompt"
  | .skip => "skip"

section Tags

-- which characters `Debug` writes as they are; the tables are those of the standard library
variable (shown : Char → Bool)

/-- `Debug` of one character of a string. -/
def escapeDebug (c : Char) : List Char :=
  if c = '\x00' then ['\\', '0']
  else if c = '\t' then ['\\', 't']
  else if c = '\r' then ['\\', 'r']
  else if c = '\n' then ['\\', 'n']
  else if c = '"' then ['\\', '"']
  else if c = '\\' then ['\\', '\\']
  else if shown c then [c]
  else ['\\', 'u', '\x7b'] ++ Nat.toDigits 16 c.toNat ++ ['\x7d']

/-- `Debug` of a string, without the opening quote. -/
def debugText (text : String) : List Char := stopped '"' (escapeDebug shown) text.toList

/-- `Debug` of an optional string. -/
def debugOption (value : Option String) : List Char :=
  optional ['S', 'o', 'm', 'e', '(', '"'] ['N', 'o', 'n', 'e'] (fun text => debugText shown text ++ [')'])
    value

/-- `hooks_tag`: the derived `Debug` of the hooks. -/
def hooksTag (hooks : GenerationHooks) : String :=
  String.ofList ("GenerationHooks \x7b success: ".toList ++ (debugOption shown hooks.success
    ++ (", failure: ".toList ++ (debugOption shown hooks.failure ++ " \x7d".toList))))

def sessionHooksTag (hooks : SessionHooks) : String :=
  String.ofList ("SessionHooks \x7b close: ".toList ++ (debugOption shown hooks.close ++ " \x7d".toList))

end Tags

/-! ### Rules and configurations -/

/-- `commands()`: an exact argv in its display form. -/
def Rules.displayed (rule : Rules) : List String :=
  match rule.argv with
  | some argv => [" ".intercalate argv]
  | none => rule.commands

/-- `sort()`. -/
def sorted (values : List String) : List String := values.mergeSort fun a b => a ≤ b

section Encoding

open CanonicalEncoder

/-- Encodes one rule's semantic surface in canonical form: environment keys only, in the map's order. -/
def encodeRule (rule : Rules) : List UInt8 :=
  string rule.name ++ (bool rule.runOnInit ++ (optionalString rule.parallel ++ (bool rule.service
    ++ (string (outputPolicyTag rule.output) ++ (optionalString rule.cwd
    ++ (strings (sorted rule.watchPatterns) ++ (strings (sorted rule.ignorePatterns)
    ++ (strings (sorted rule.displayed) ++ (optional [1] [0] strings rule.recovery
    ++ strings (rule.environment.map (·.1)))))))))))

end Encoding

/-- A text whose length a machine word holds. -/
def Fits (text : String) : Prop := (bytes text).length < 256 ^ 8

def AllFit (texts : List String) : Prop := texts.length < 256 ^ 8 ∧ ∀ text ∈ texts, Fits text

/-- The texts and lists of a rule are values in memory, so their lengths are machine words. -/
structure Rules.InMemory (rule : Rules) : Prop where
  name : Fits rule.name
  parallel : ∀ group, rule.parallel = some group → Fits group
  cwd : ∀ directory, rule.cwd = some directory → Fits directory
  watchPatterns : AllFit rule.watchPatterns
  ignorePatterns : AllFit rule.ignorePatterns
  displayed : AllFit rule.displayed
  recovery : ∀ commands, rule.recovery = some commands → AllFit commands
  environment : AllFit (rule.environment.map (·.1))

section Configurations

variable (shown : Char → Bool)

/-- The frozen effective runtime config. Durations are in milliseconds, and every number, text and list
    of it, the tags included, is a value in memory. -/
structure RuntimeConfig where
  root : String
  rules : List Rules
  concurrency : Nat
  debounce : Nat
  backend : WatchBackend
  respectGitignore : Bool
  recoveryPolicy : RecoveryPolicy
  hooks : GenerationHooks
  sessionHooks : SessionHooks
  controlSocket : Option String
  rooted : isAbsolute root.toList = true
  positive : 0 < concurrency
  inMemory : ∀ rule ∈ rules, rule.InMemory
  words : concurrency < 256 ^ 8 ∧ debounce < 256 ^ 8 ∧ rules.length < 256 ^ 8
  texts : Fits root ∧ Fits (backendTag backend) ∧ Fits (hooksTag shown hooks)
    ∧ Fits (sessionHooksTag shown sessionHooks) ∧ ∀ path, controlSocket = some path → Fits path

end Configurations

section Configurations

open CanonicalEncoder

variable {shown : Char → Bool}

/-- The bytes `semantic_hash` feeds to the digest. -/
def RuntimeConfig.preimage (config : RuntimeConfig shown) : List UInt8 :=
  u64 2 ++ (string config.root ++ (u64 config.concurrency ++ (u64 config.debounce
    ++ (string (backendTag config.backend) ++ (bool config.respectGitignore
    ++ (string (recoveryTag config.recoveryPolicy) ++ (string (hooksTag shown config.hooks)
    ++ (string (sessionHooksTag shown config.sessionHooks) ++ (optionalString config.controlSocket
    ++ counted u64 encodeRule config.rules)))))))))

/-- The effective watch configuration the commit of `config` publishes. -/
def RuntimeConfig.watches (config : RuntimeConfig shown) : Watches :=
  { Watches.withRootAndConcurrency config.rules config.root config.concurrency config.rooted
      config.positive with
    debounce := config.debounce
    backend := config.backend
    respectGitignore := config.respectGitignore
    recoveryPolicy := config.recoveryPolicy
    hooks := config.hooks
    sessionHooks := config.sessionHooks }

end Configurations

/-- Result of observing a candidate config. -/
inductive RevisionDecision where
  | new (revision : ConfigRevision)
  | noOp
  deriving DecidableEq

/-- Tracks revisions monotonically. -/
structure RevisionTracker where
  current : Option ConfigRevision := none
  deriving DecidableEq

section Observing

variable (digest : List UInt8 → String) {shown : Char → Bool}

/-- `semantic_hash`. -/
def RuntimeConfig.semanticHash (config : RuntimeConfig shown) : String := digest config.preimage

/-- Observes a candidate config: a no-op if its hash is the current one, else the next revision. -/
def RevisionTracker.observe (tracker : RevisionTracker) (config : RuntimeConfig shown) :
    RevisionDecision × RevisionTracker :=
  let hash := config.semanticHash digest
  if tracker.current.map (·.hash) = some hash then (.noOp, tracker)
  else
    let revision : ConfigRevision := ⟨(tracker.current.map (·.number)).getD 0 + 1, hash⟩
    (.new revision, ⟨some revision⟩)

end Observing

/-! ### What the tags tell -/

theorem bytes_injective {s t : String} (h : bytes s = bytes t) : s = t := by
  have hdata : s.toByteArray.data = t.toByteArray.data := Array.toList_inj.mp h
  exact String.toByteArray_inj.mp (ByteArray.ext hdata)

theorem backendTag_injective {a b : WatchBackend} (h : backendTag a = backendTag b) : a = b := by
  have hchars := congrArg String.toList h
  cases a <;> cases b <;> simp only [backendTag, String.toList_append] at hchars
  case poll.poll n m =>
    have hdigits := List.append_cancel_left hchars
    rw [WatchBackend.poll.injEq]
    exact toDigits_ten_injective (by simpa [toString, Nat.repr] using hdigits)
  all_goals first | rfl | exact absurd hchars (by simp)

theorem outputPolicyTag_injective {a b : OutputPolicy} (h : outputPolicyTag a = outputPolicyTag b) :
    a = b := by
  cases a <;> cases b <;> first | rfl | exact absurd h (by decide)

theorem recoveryTag_injective {a b : RecoveryPolicy} (h : recoveryTag a = recoveryTag b) : a = b := by
  cases a <;> cases b <;> first | rfl | exact absurd h (by decide)

/-- The characters with an escape of their own. -/
def namedEscapes : List (Char × Char) :=
  [('\x00', '0'), ('\t', 't'), ('\r', 'r'), ('\n', 'n'), ('"', '"'), ('\\', '\\')]

/-- The three ways to write a character: as it is, with an escape of its own, by its number. -/
inductive Escaped (c : Char) : List Char → Prop
  | plain : c ≠ '\\' → c ≠ '"' → Escaped c [c]
  | named (k : Char) : (c, k) ∈ namedEscapes → Escaped c ['\\', k]
  | unicode : Escaped c (['\\', 'u', '\x7b'] ++ Nat.toDigits 16 c.toNat ++ ['\x7d'])

theorem escapeDebug_escaped (shown : Char → Bool) (c : Char) : Escaped c (escapeDebug shown c) := by
  unfold escapeDebug
  split
  · rename_i h; exact .named _ (by simp [namedEscapes, h])
  split
  · rename_i h; exact .named _ (by simp [namedEscapes, h])
  split
  · rename_i h; exact .named _ (by simp [namedEscapes, h])
  split
  · rename_i h; exact .named _ (by simp [namedEscapes, h])
  split
  · rename_i h; exact .named _ (by simp [namedEscapes, h])
  split
  · rename_i h; exact .named _ (by simp [namedEscapes, h])
  split
  · rename_i hquote hslash _; exact .plain hslash hquote
  · exact .unicode

/-- A number in hexadecimal ends at its brace. -/
theorem unicode_delimits {n m : Nat} {x y : List Char}
    (h : Nat.toDigits 16 n ++ '\x7d' :: x = Nat.toDigits 16 m ++ '\x7d' :: y) : n = m ∧ x = y := by
  have hdigits : Delimits (fun l : List Char => ∀ c ∈ l, c ≠ '\x7d') (stopped '\x7d' fun c => [c]) :=
    Delimits.stopped (fun a b x y _ _ h => List.cons.inj h) fun a ha => ⟨a, [], rfl, ha⟩
  have hbrace : ∀ k, ∀ c ∈ Nat.toDigits 16 k, c ≠ '\x7d' := by
    intro k c hc
    obtain ⟨d, hd, rfl⟩ := digit_of_mem_toDigits_sixteen k hc
    have hdigit : ∀ d < 16, Nat.digitChar d ≠ '\x7d' := by decide
    exact hdigit d hd
  obtain ⟨hsame, hrest⟩ := hdigits _ _ x y (hbrace n) (hbrace m) (by simpa [stopped] using h)
  exact ⟨toDigits_sixteen_injective n m hsame, hrest⟩

theorem Escaped.delimits {c d : Char} {e f x y : List Char} (hc : Escaped c e) (hd : Escaped d f)
    (h : e ++ x = f ++ y) : c = d ∧ x = y := by
  have hnamed : ∀ p ∈ namedEscapes, p.2 ≠ 'u' ∧ ∀ q ∈ namedEscapes, p.2 = q.2 → p.1 = q.1 := by decide
  cases hc with
  | plain hslash _ =>
    cases hd with
    | plain => exact List.cons.inj h
    | named => exact absurd (List.cons.inj h).1 hslash
    | unicode => exact absurd (List.cons.inj h).1 hslash
  | named k hk =>
    cases hd with
    | plain hslash _ => exact absurd (List.cons.inj h).1.symm hslash
    | named k' hk' =>
      obtain ⟨hsame, hrest⟩ := List.cons.inj (List.cons.inj h).2
      exact ⟨(hnamed _ hk).2 _ hk' hsame, hrest⟩
    | unicode => exact absurd (List.cons.inj (List.cons.inj h).2).1 (hnamed _ hk).1
  | unicode =>
    cases hd with
    | plain hslash _ => exact absurd (List.cons.inj h).1.symm hslash
    | named k' hk' => exact absurd (List.cons.inj (List.cons.inj h).2).1.symm (hnamed _ hk').1
    | unicode =>
      simp only [List.append_assoc, List.cons_append, List.nil_append, List.cons.injEq, true_and] at h
      obtain ⟨hnumber, hrest⟩ := unicode_delimits h
      exact ⟨Char.toNat_inj.mp hnumber, hrest⟩

/-- What is written of a character does not begin with a quote. -/
theorem Escaped.unquoted {c : Char} {e : List Char} (h : Escaped c e) :
    ∃ s rest, e = s :: rest ∧ s ≠ '"' := by
  cases h with
  | plain _ hquote => exact ⟨c, [], rfl, hquote⟩
  | named k _ => exact ⟨'\\', [k], rfl, by decide⟩
  | unicode => exact ⟨'\\', _, rfl, by decide⟩

section Tags

variable {shown : Char → Bool}

theorem debugText_delimits : Delimits (fun _ : String => True) (debugText shown) := by
  have hchars : Delimits (fun l : List Char => ∀ c ∈ l, True) (stopped '"' (escapeDebug shown)) :=
    Delimits.stopped (fun c d x y _ _ h =>
      (escapeDebug_escaped shown c).delimits (escapeDebug_escaped shown d) h)
      fun c _ => (escapeDebug_escaped shown c).unquoted
  intro s t x y _ _ h
  obtain ⟨hsame, hrest⟩ := hchars _ _ x y (fun _ _ => trivial) (fun _ _ => trivial) h
  exact ⟨String.toList_inj.mp hsame, hrest⟩

theorem debugOption_delimits : Delimits (fun _ : Option String => True) (debugOption shown) := by
  have hclosed : Delimits (fun _ : String => True) (fun text => debugText shown text ++ [')']) := by
    intro s t x y hs ht h
    rw [List.append_assoc, List.append_assoc] at h
    obtain ⟨hsame, hrest⟩ := debugText_delimits s t _ _ hs ht h
    exact ⟨hsame, List.append_cancel_left hrest⟩
  intro o p x y _ _ h
  exact hclosed.optional (by simp) o p x y (fun _ _ => trivial) (fun _ _ => trivial) h

theorem hooksTag_injective {a b : GenerationHooks} (h : hooksTag shown a = hooksTag shown b) : a = b := by
  have hchars := List.append_cancel_left (String.ofList_injective h)
  obtain ⟨hsuccess, hrest⟩ := debugOption_delimits _ _ _ _ trivial trivial hchars
  obtain ⟨hfailure, -⟩ := debugOption_delimits _ _ _ _ trivial trivial (List.append_cancel_left hrest)
  exact congrArg₂ GenerationHooks.mk hsuccess hfailure

theorem sessionHooksTag_injective {a b : SessionHooks} (h : sessionHooksTag shown a = sessionHooksTag shown b) :
    a = b := by
  have hchars := List.append_cancel_left (String.ofList_injective h)
  obtain ⟨hclose, -⟩ := debugOption_delimits _ _ _ _ trivial trivial hchars
  exact congrArg SessionHooks.mk hclose

end Tags

/-! ### What the bytes tell -/

section Fields

open CanonicalEncoder

theorem u64_delimits : Delimits (· < 256 ^ 8) u64 := littleEndian_delimits 8

theorem bool_delimits : Delimits (fun _ => True) bool := by
  intro a b x y _ _ h
  obtain ⟨hbyte, hrest⟩ := List.cons.inj h
  refine ⟨?_, hrest⟩
  cases a <;> cases b <;> first | rfl | exact absurd hbyte (by decide)

theorem string_delimits : Delimits Fits string := u64_delimits.sized fun _ _ h => bytes_injective h

theorem strings_delimits : Delimits AllFit strings := u64_delimits.counted string_delimits

theorem marks_differ (x y : List UInt8) : [1] ++ x ≠ [0] ++ y := by simp

theorem optionalString_delimits :
    Delimits (fun o : Option String => ∀ text, o = some text → Fits text) optionalString :=
  string_delimits.optional marks_differ

theorem optionalStrings_delimits :
    Delimits (fun o : Option (List String) => ∀ texts, o = some texts → AllFit texts)
      (optional [1] [0] strings) :=
  strings_delimits.optional marks_differ

theorem outputPolicyTag_fits (policy : OutputPolicy) : Fits (outputPolicyTag policy) := by
  unfold Fits
  cases policy <;> decide

theorem recoveryTag_fits (policy : RecoveryPolicy) : Fits (recoveryTag policy) := by
  unfold Fits
  cases policy <;> decide

theorem AllFit.sorted {texts : List String} (h : AllFit texts) : AllFit (sorted texts) := by
  refine ⟨?_, fun text htext => h.2 text (List.mem_mergeSort.mp htext)⟩
  rw [Funzzy.sorted, List.length_mergeSort]
  exact h.1

/-- Sorting keeps the texts and forgets their order. -/
theorem sorted_eq_iff {texts others : List String} : sorted texts = sorted others ↔ texts.Perm others := by
  have hperm : ∀ l : List String, (sorted l).Perm l := fun l => List.mergeSort_perm l _
  have hsorted : ∀ l : List String, (sorted l).Pairwise fun a b => a ≤ b := by
    intro l
    have hpairwise : (sorted l).Pairwise fun a b => decide (a ≤ b) = true := by
      refine List.pairwise_mergeSort ?_ ?_ l
      · intro a b c hab hbc
        exact decide_eq_true (String.le_trans (of_decide_eq_true hab) (of_decide_eq_true hbc))
      · intro a b
        simpa using String.le_total a b
    exact hpairwise.imp fun h => of_decide_eq_true h
  constructor
  · intro h
    exact (hperm texts).symm.trans (h ▸ hperm others)
  · intro h
    exact List.Perm.eq_of_pairwise (fun _ _ _ _ hab hba => String.le_antisymm hab hba) (hsorted texts)
      (hsorted others) (((hperm texts).trans h).trans (hperm others).symm)

end Fields

/-- Rules that are written alike: the same but for the order of patterns and commands, for the values of
    the environment, and for whether the commands are those of a shell. -/
structure Rules.SameSurface (rule other : Rules) : Prop where
  name : rule.name = other.name
  runOnInit : rule.runOnInit = other.runOnInit
  parallel : rule.parallel = other.parallel
  service : rule.service = other.service
  output : rule.output = other.output
  cwd : rule.cwd = other.cwd
  watchPatterns : rule.watchPatterns.Perm other.watchPatterns
  ignorePatterns : rule.ignorePatterns.Perm other.ignorePatterns
  displayed : rule.displayed.Perm other.displayed
  recovery : rule.recovery = other.recovery
  environmentKeys : rule.environment.map (·.1) = other.environment.map (·.1)

/-- The bytes of a rule tell its surface. -/
theorem encodeRule_sameSurface {rule other : Rules} (hrule : rule.InMemory) (hother : other.InMemory)
    {x y : List UInt8} (h : encodeRule rule ++ x = encodeRule other ++ y) :
    rule.SameSurface other ∧ x = y := by
  simp only [encodeRule, List.append_assoc] at h
  obtain ⟨hname, h⟩ := string_delimits _ _ _ _ hrule.name hother.name h
  obtain ⟨hrunOnInit, h⟩ := bool_delimits _ _ _ _ trivial trivial h
  obtain ⟨hparallel, h⟩ := optionalString_delimits _ _ _ _ hrule.parallel hother.parallel h
  obtain ⟨hservice, h⟩ := bool_delimits _ _ _ _ trivial trivial h
  obtain ⟨houtput, h⟩ := string_delimits _ _ _ _ (outputPolicyTag_fits _) (outputPolicyTag_fits _) h
  obtain ⟨hcwd, h⟩ := optionalString_delimits _ _ _ _ hrule.cwd hother.cwd h
  obtain ⟨hwatch, h⟩ := strings_delimits _ _ _ _ hrule.watchPatterns.sorted hother.watchPatterns.sorted h
  obtain ⟨hignore, h⟩ := strings_delimits _ _ _ _ hrule.ignorePatterns.sorted hother.ignorePatterns.sorted h
  obtain ⟨hdisplayed, h⟩ := strings_delimits _ _ _ _ hrule.displayed.sorted hother.displayed.sorted h
  obtain ⟨hrecovery, h⟩ := optionalStrings_delimits _ _ _ _ hrule.recovery hother.recovery h
  obtain ⟨hkeys, h⟩ := strings_delimits _ _ _ _ hrule.environment hother.environment h
  exact ⟨⟨hname, hrunOnInit, hparallel, hservice, outputPolicyTag_injective houtput, hcwd,
    sorted_eq_iff.mp hwatch, sorted_eq_iff.mp hignore, sorted_eq_iff.mp hdisplayed, hrecovery, hkeys⟩, h⟩

theorem Rules.SameSurface.encodeRule_eq {rule other : Rules} (h : rule.SameSurface other) :
    encodeRule rule = encodeRule other := by
  simp only [encodeRule, h.name, h.runOnInit, h.parallel, h.service, h.output, h.cwd,
    sorted_eq_iff.mpr h.watchPatterns, sorted_eq_iff.mpr h.ignorePatterns, sorted_eq_iff.mpr h.displayed,
    h.recovery, h.environmentKeys]

theorem flatMap_encodeRule_eq {rules others : List Rules}
    (h : List.Forall₂ Rules.SameSurface rules others) :
    rules.flatMap encodeRule = others.flatMap encodeRule := by
  induction h with
  | nil => rfl
  | cons hrule _ ih => rw [List.flatMap_cons, List.flatMap_cons, hrule.encodeRule_eq, ih]

section Configurations

open CanonicalEncoder

variable {shown : Char → Bool} {a b : RuntimeConfig shown}

/-- The global settings of two configurations agree. -/
structure RuntimeConfig.SameSettings (a b : RuntimeConfig shown) : Prop where
  root : a.root = b.root
  concurrency : a.concurrency = b.concurrency
  debounce : a.debounce = b.debounce
  backend : a.backend = b.backend
  respectGitignore : a.respectGitignore = b.respectGitignore
  recoveryPolicy : a.recoveryPolicy = b.recoveryPolicy
  hooks : a.hooks = b.hooks
  sessionHooks : a.sessionHooks = b.sessionHooks
  controlSocket : a.controlSocket = b.controlSocket

/-- The bytes of a configuration tell its settings and its rules' surfaces. -/
theorem RuntimeConfig.preimage_tells (h : a.preimage = b.preimage) :
    a.SameSettings b ∧ List.Forall₂ Rules.SameSurface a.rules b.rules := by
  obtain ⟨hconcurrency, hdebounce, hcount⟩ := a.words
  obtain ⟨hconcurrency', hdebounce', hcount'⟩ := b.words
  obtain ⟨hroot, hbackend, hhooks, hsession, hsocket⟩ := a.texts
  obtain ⟨hroot', hbackend', hhooks', hsession', hsocket'⟩ := b.texts
  have h := List.append_cancel_left h
  obtain ⟨root, h⟩ := string_delimits _ _ _ _ hroot hroot' h
  obtain ⟨concurrency, h⟩ := u64_delimits _ _ _ _ hconcurrency hconcurrency' h
  obtain ⟨debounce, h⟩ := u64_delimits _ _ _ _ hdebounce hdebounce' h
  obtain ⟨backend, h⟩ := string_delimits _ _ _ _ hbackend hbackend' h
  obtain ⟨gitignore, h⟩ := bool_delimits _ _ _ _ trivial trivial h
  obtain ⟨policy, h⟩ := string_delimits _ _ _ _ (recoveryTag_fits _) (recoveryTag_fits _) h
  obtain ⟨hooks, h⟩ := string_delimits _ _ _ _ hhooks hhooks' h
  obtain ⟨session, h⟩ := string_delimits _ _ _ _ hsession hsession' h
  obtain ⟨socket, h⟩ := optionalString_delimits _ _ _ _ hsocket hsocket' h
  obtain ⟨count, h⟩ := u64_delimits _ _ _ _ hcount hcount' h
  refine ⟨⟨root, concurrency, debounce, backendTag_injective backend, gitignore,
    recoveryTag_injective policy, hooksTag_injective hooks, sessionHooksTag_injective session, socket⟩, ?_⟩
  exact (forall₂_of_flatMap (fun _ _ _ _ hrule hother h => encodeRule_sameSurface hrule hother h)
    a.rules b.rules [] [] count a.inMemory b.inMemory (by rw [h])).1

theorem RuntimeConfig.preimage_eq_iff :
    a.preimage = b.preimage ↔ a.SameSettings b ∧ List.Forall₂ Rules.SameSurface a.rules b.rules := by
  refine ⟨preimage_tells, ?_⟩
  rintro ⟨hsettings, hsurface⟩
  have hrules := flatMap_encodeRule_eq hsurface
  simp only [preimage, counted, hsettings.root, hsettings.concurrency, hsettings.debounce,
    hsettings.backend, hsettings.respectGitignore, hsettings.recoveryPolicy, hsettings.hooks,
    hsettings.sessionHooks, hsettings.controlSocket, hsurface.length_eq, hrules]

end Configurations

/-! ### What a changed path runs -/

/-- What is observed of a selected task. -/
structure TaskFacts where
  name : String
  position : Nat
  commands : List CommandLine
  recoveryCommands : Option (List CommandLine)
  parallel : Option String
  groupOccurrence : Option String
  cwd : Option String
  environmentKeys : List String
  output : OutputPolicy
  service : Bool
  deriving DecidableEq

def TaskPlan.facts (task : TaskPlan) : TaskFacts where
  name := task.name
  position := task.position
  commands := task.commands
  recoveryCommands := task.recoveryCommands
  parallel := task.parallel
  groupOccurrence := task.groupOccurrence
  cwd := task.context.cwd
  environmentKeys := task.context.environment.map (·.1)
  output := task.output
  service := task.service

def Stage.facts : Stage → Option String × List TaskFacts
  | .serial task => (none, [task.facts])
  | .parallel group tasks => (some group, tasks.map TaskPlan.facts)

section Behaviour

variable (M : Matchers) {shown : Char → Bool}

/-- The stages a changed path runs, with what is observed of their tasks. -/
def RuntimeConfig.selected (config : RuntimeConfig shown) (path : String) :
    List (Option String × List TaskFacts) :=
  ((config.watches.watchPlan M path).map fun plan => plan.stages.map Stage.facts).getD []

/-- Every changed path runs the same, under the same settings. -/
structure RuntimeConfig.SameBehaviour (a b : RuntimeConfig shown) : Prop where
  selected : ∀ path, a.selected M path = b.selected M path
  settings : a.SameSettings b

/-- A rule that some changed path selects has the same commands in the same order. -/
def RuntimeConfig.Ordered (a b : RuntimeConfig shown) : Prop :=
  ∀ (i : Nat) (rule other : Rules), a.rules[i]? = some rule → b.rules[i]? = some other →
    (∃ path, a.watches.selects M path rule = true) → rule.commandLines = other.commandLines

end Behaviour

section Behaviour

variable {M : Matchers} {shown : Char → Bool} {a b : RuntimeConfig shown}

theorem relativePatterns_isEmpty {patterns others : List String} (h : patterns.Perm others) :
    (fun path => !(relativePatterns M patterns path).isEmpty)
      = fun path => !(relativePatterns M others path).isEmpty :=
  funext fun _ => congrArg Bool.not ((h.filter _).filter _).isEmpty_eq

theorem absolutePatterns_isEmpty {patterns others : List String} (h : patterns.Perm others) :
    (fun path => !(absolutePatterns M patterns path).isEmpty)
      = fun path => !(absolutePatterns M others path).isEmpty :=
  funext fun _ => congrArg Bool.not ((h.filter _).filter _).isEmpty_eq

/-- Routing looks at the settings and the surface only. -/
theorem selects_congr (hsettings : a.SameSettings b) {rule other : Rules} (h : rule.SameSurface other)
    (path : String) : a.watches.selects M path rule = b.watches.selects M path other := by
  have hpaths : a.watches.normalizePaths path = b.watches.normalizePaths path := by
    simp only [Watches.normalizePaths, RuntimeConfig.watches, Watches.withRootAndConcurrency, hsettings.root]
  have hgitignore : a.watches.respectGitignore = b.watches.respectGitignore := hsettings.respectGitignore
  have hignoreAbsolute : rule.ignoreAbsolute M = other.ignoreAbsolute M :=
    absolutePatterns_isEmpty h.ignorePatterns
  have hignoreRelative : rule.ignoreRelative M = other.ignoreRelative M :=
    relativePatterns_isEmpty h.ignorePatterns
  have hwatchAbsolute : rule.watchAbsolute M = other.watchAbsolute M :=
    absolutePatterns_isEmpty h.watchPatterns
  have hwatchRelative : rule.watchRelative M = other.watchRelative M :=
    relativePatterns_isEmpty h.watchPatterns
  unfold Watches.selects Watches.gitignored
  rw [hpaths, hgitignore, hignoreAbsolute, hignoreRelative, hwatchAbsolute, hwatchRelative]

/-- Tasks planned from the rules at one position. -/
structure Paired (a b : RuntimeConfig shown) (task task' : TaskPlan) : Prop where
  planned : task = { TaskPlan.ofRule task.position task.rule with groupOccurrence := task.groupOccurrence }
  planned' : task' =
    { TaskPlan.ofRule task.position task'.rule with groupOccurrence := task.groupOccurrence }
  rule : a.rules[task.position]? = some task.rule
  rule' : b.rules[task.position]? = some task'.rule
  surface : task.rule.SameSurface task'.rule

theorem Paired.facts {task task' : TaskPlan} (h : Paired a b task task') :
    task.facts = task'.facts ↔ task.rule.commandLines = task'.rule.commandLines := by
  obtain ⟨hplanned, hplanned', -, -, hsurface⟩ := h
  rw [hplanned, hplanned']
  simp only [TaskPlan.facts, TaskPlan.ofRule, Rules.recoveryCommandLines, hsurface.name, hsurface.recovery,
    hsurface.parallel, hsurface.cwd, hsurface.environmentKeys, hsurface.output, hsurface.service,
    TaskFacts.mk.injEq, true_and, and_true]

/-- Configurations of one surface are planned alike. -/
theorem stages_alike (h : List.Forall₂ Rules.SameSurface a.rules b.rules) :
    List.Forall₂ (Stage.Alike (Paired a b)) a.watches.topology.stages b.watches.topology.stages := by
  refine RunPlan.fromRules_alike ?_ ?_ ?_
  · rintro task task' occurrence ⟨hplanned, hplanned', hrule, hrule', hsurface⟩
    exact ⟨by rw [hplanned]; rfl, by rw [hplanned']; rfl, hrule, hrule', hsurface⟩
  · rintro task task' ⟨hplanned, hplanned', -, -, hsurface⟩
    rw [hplanned, hplanned']
    exact hsurface.parallel
  · rw [List.forall₂_iff_get] at h ⊢
    obtain ⟨hlength, hsurface⟩ := h
    refine ⟨by simpa using hlength, ?_⟩
    intro i hi hi'
    simp only [List.length_map, List.length_zipIdx] at hi hi'
    have hrules := hsurface i hi hi'
    simp only [List.get_eq_getElem, List.getElem_map, List.getElem_zipIdx, Nat.zero_add] at hrules ⊢
    exact ⟨rfl, rfl, List.getElem?_eq_getElem hi, List.getElem?_eq_getElem hi', hrules⟩

theorem selected_eq (config : RuntimeConfig shown) (path : String) :
    config.selected M path
      = (config.watches.topology.filter (config.watches.selects M path)).stages.map Stage.facts := by
  unfold RuntimeConfig.selected Watches.watchPlan Watches.nonempty
  split
  · rename_i hempty
    rw [List.isEmpty_iff] at hempty
    rw [hempty]
    rfl
  · rfl

/-- What a path selects in two configurations of one surface, pair by pair. -/
theorem filtered_alike (hsettings : a.SameSettings b)
    (h : List.Forall₂ Rules.SameSurface a.rules b.rules) (path : String) :
    List.Forall₂ (Stage.Alike fun task task' =>
        Paired a b task task' ∧ a.watches.selects M path task.rule = true)
      (a.watches.topology.filter (a.watches.selects M path)).stages
      (b.watches.topology.filter (b.watches.selects M path)).stages :=
  RunPlan.filter_alike (fun _ _ hpaired => selects_congr hsettings hpaired.surface path) (stages_alike h)

theorem map_facts_eq {R : TaskPlan → TaskPlan → Prop}
    (hR : ∀ task task', R task task' → task.facts = task'.facts) {tasks tasks' : List TaskPlan}
    (h : List.Forall₂ R tasks tasks') : tasks.map TaskPlan.facts = tasks'.map TaskPlan.facts := by
  induction h with
  | nil => rfl
  | cons htask _ ih => rw [List.map_cons, List.map_cons, hR _ _ htask, ih]

theorem stages_facts_eq {R : TaskPlan → TaskPlan → Prop}
    (hR : ∀ task task', R task task' → task.facts = task'.facts) {stages stages' : List Stage}
    (h : List.Forall₂ (Stage.Alike R) stages stages') :
    stages.map Stage.facts = stages'.map Stage.facts := by
  induction h with
  | nil => rfl
  | cons hstage _ ih =>
    rw [List.map_cons, List.map_cons, ih]
    cases hstage with
    | serial htask => simp only [Stage.facts, hR _ _ htask]
    | parallel htasks => simp only [Stage.facts, map_facts_eq hR htasks]

theorem stages_facts_tasks (plan : RunPlan) :
    plan.tasks.map TaskPlan.facts = (plan.stages.map Stage.facts).flatMap (·.2) := by
  obtain ⟨stages⟩ := plan
  simp only [RunPlan.tasks]
  induction stages with
  | nil => rfl
  | cons stage stages ih =>
    rw [List.flatMap_cons, List.map_append, ih, List.map_cons, List.flatMap_cons]
    cases stage <;> rfl

/-- Related lists with the same facts hold the same facts pair by pair. -/
theorem exists_paired {R : TaskPlan → TaskPlan → Prop} {tasks tasks' : List TaskPlan}
    (h : List.Forall₂ R tasks tasks') (hfacts : tasks.map TaskPlan.facts = tasks'.map TaskPlan.facts)
    {task : TaskPlan} (htask : task ∈ tasks) : ∃ task', R task task' ∧ task.facts = task'.facts := by
  induction h with
  | nil => cases htask
  | cons hfirst _ ih =>
    obtain ⟨hsame, hrest⟩ := List.cons.inj hfacts
    rcases List.mem_cons.mp htask with rfl | htask
    · exact ⟨_, hfirst, hsame⟩
    · exact ih hrest htask

/-- With equal bytes, every changed path runs the same exactly if the commands of the rules it selects
    stand in the same order. -/
theorem sameBehaviour_iff (h : a.preimage = b.preimage) : a.SameBehaviour M b ↔ a.Ordered M b := by
  obtain ⟨hsettings, hsurface⟩ := RuntimeConfig.preimage_tells h
  constructor
  · rintro ⟨hselected, -⟩ i rule other hrule hother ⟨path, hselects⟩
    -- the task of the rule is selected, and its partner runs the same
    have htask : ∃ task ∈ a.watches.topology.tasks, task.rule = rule ∧ task.position = i := by
      have hplanned := RunPlan.fromRules_map (f := fun task => (task.rule, task.position))
        (fun _ _ => rfl) a.rules
      have hmem : (rule, i) ∈ a.watches.topology.tasks.map fun task => (task.rule, task.position) := by
        rw [show a.watches.topology = .fromRules a.rules from rfl, hplanned]
        exact List.mem_map.mpr ⟨(rule, i), List.mk_mem_zipIdx_iff_getElem?.mpr hrule, rfl⟩
      obtain ⟨task, htask, heq⟩ := List.mem_map.mp hmem
      exact ⟨task, htask, (Prod.mk.inj heq).1, (Prod.mk.inj heq).2⟩
    obtain ⟨task, htask, rfl, rfl⟩ := htask
    have hkept : task ∈ (a.watches.topology.filter (a.watches.selects M path)).tasks := by
      rw [RunPlan.filter_tasks]
      exact List.mem_filter.mpr ⟨htask, hselects⟩
    have hfacts := congrArg (List.flatMap (·.2)) (hselected path)
    rw [selected_eq, selected_eq, ← stages_facts_tasks, ← stages_facts_tasks] at hfacts
    obtain ⟨task', ⟨hpaired, -⟩, hsame⟩ :=
      exists_paired (RunPlan.tasks_alike (filtered_alike hsettings hsurface path)) hfacts hkept
    have hother' : task'.rule = other := Option.some.inj (hpaired.rule'.symm.trans hother)
    rw [← hother']
    exact hpaired.facts.mp hsame
  · intro hordered
    refine ⟨fun path => ?_, hsettings⟩
    rw [selected_eq, selected_eq]
    refine stages_facts_eq ?_ (filtered_alike hsettings hsurface path)
    rintro task task' ⟨hpaired, hselects⟩
    exact hpaired.facts.mpr (hordered _ _ _ hpaired.rule hpaired.rule' ⟨path, hselects⟩)

end Behaviour

/-! ### No-op reloads -/

section Observing

variable {digest : List UInt8 → String} {shown : Char → Bool}

theorem RevisionTracker.observe_current (tracker : RevisionTracker) (config : RuntimeConfig shown) :
    (tracker.observe digest config).2.current.map (·.hash) = some (config.semanticHash digest) := by
  unfold RevisionTracker.observe
  simp only
  split
  · rename_i hsame
    exact hsame
  · rfl

theorem RevisionTracker.observe_noOp_iff (tracker : RevisionTracker) (config : RuntimeConfig shown) :
    (tracker.observe digest config).1 = .noOp
      ↔ tracker.current.map (·.hash) = some (config.semanticHash digest) := by
  unfold RevisionTracker.observe
  simp only
  split
  · rename_i hsame
    simp [hsame]
  · rename_i hdiffers
    simp [hdiffers]

/-- After `a`, the tracker calls `b` a no-op exactly if the bytes of the two agree. Then every changed path
    runs the same under both, with the same settings, exactly if the commands of every rule that a changed
    path selects stand in the same order in both. -/
theorem RevisionTracker.noOp_harmless_iff (digest : List UInt8 → String) (M : Matchers)
    (tracker : RevisionTracker) (a b : RuntimeConfig shown)
    (hcollision : digest a.preimage = digest b.preimage → a.preimage = b.preimage) :
    (((tracker.observe digest a).2.observe digest b).1 = .noOp ↔ a.preimage = b.preimage) ∧
      (a.preimage = b.preimage → (a.SameBehaviour M b ↔ a.Ordered M b)) := by
  refine ⟨?_, sameBehaviour_iff⟩
  rw [observe_noOp_iff, observe_current, Option.some_inj]
  exact ⟨hcollision, fun h => congrArg digest h⟩

end Observing

/-- Printable ASCII. -/
def isAsciiShown (c : Char) : Bool := ' ' ≤ c && c ≤ '~'

/-- Patterns that are paths. -/
def literalMatchers : Matchers := ⟨fun pattern path => pattern == path, fun _ => false⟩

/-- One rule, and no more than that. -/
def oneRule (patterns commands : List String) (hpatterns : AllFit patterns) (hcommands : AllFit commands) :
    RuntimeConfig isAsciiShown where
  root := "/w"
  rules := [{ name := "build", commands, watchPatterns := patterns }]
  concurrency := 1
  debounce := 1000
  backend := .auto
  respectGitignore := false
  recoveryPolicy := .prompt
  hooks := {}
  sessionHooks := {}
  controlSocket := none
  rooted := by decide
  positive := by decide
  inMemory := by
    intro rule hrule
    rw [List.mem_singleton.mp hrule]
    exact
      { name := show Fits "build" by unfold Fits; decide
        parallel := by simp
        cwd := by simp
        watchPatterns := hpatterns
        ignorePatterns := ⟨by simp, by simp⟩
        displayed := hcommands
        recovery := by simp
        environment := ⟨by simp, by simp⟩ }
  words := ⟨by decide, by decide, by simp⟩
  texts := by
    refine ⟨?_, ?_, ?_, ?_, by simp⟩
    all_goals
      unfold Fits
      decide

/-- The bytes as a text, in place of a digest. -/
def asText (bytes : List UInt8) : String := String.ofList (bytes.map fun byte => Char.ofNat byte.toNat)

theorem small_fit (first second : String) (hfirst : Fits first) (hsecond : Fits second) :
    AllFit [first, second] := ⟨by simp, by simp [hfirst, hsecond]⟩

theorem make_fits : Fits "make" := by
  unfold Fits
  decide

theorem clean_fits : Fits "make clean" := by
  unfold Fits
  decide

theorem source_fits : Fits "/w/a.c" := by
  unfold Fits
  decide

theorem header_fits : Fits "/w/a.h" := by
  unfold Fits
  decide

/-- A build that cleans first. -/
def cleanFirst : RuntimeConfig isAsciiShown :=
  oneRule ["/w/a.c", "/w/a.h"] ["make clean", "make"] (small_fit _ _ source_fits header_fits)
    (small_fit _ _ clean_fits make_fits)

/-- The same build, its patterns written in the other order. -/
def headersFirst : RuntimeConfig isAsciiShown :=
  oneRule ["/w/a.h", "/w/a.c"] ["make clean", "make"] (small_fit _ _ header_fits source_fits)
    (small_fit _ _ clean_fits make_fits)

/-- A build that cleans last. -/
def cleanLast : RuntimeConfig isAsciiShown :=
  oneRule ["/w/a.c", "/w/a.h"] ["make", "make clean"] (small_fit _ _ source_fits header_fits)
    (small_fit _ _ make_fits clean_fits)

/-- Cleaning last in place of first is a no-op to the tracker, and what a change of the file runs is not
    the same. -/
theorem swapped_commands_noOp :
    cleanFirst.preimage = cleanLast.preimage ∧
      ((({} : RevisionTracker).observe asText cleanFirst).2.observe asText cleanLast).1 = .noOp ∧
      ¬ cleanFirst.SameBehaviour literalMatchers cleanLast := by
  have hbytes : cleanFirst.preimage = cleanLast.preimage :=
    RuntimeConfig.preimage_eq_iff.mpr ⟨⟨rfl, rfl, rfl, rfl, rfl, rfl, rfl, rfl, rfl⟩,
      .cons ⟨rfl, rfl, rfl, rfl, rfl, rfl, .refl _, .refl _, .swap _ _ _, rfl, rfl⟩ .nil⟩
  refine ⟨hbytes, ?_, ?_⟩
  · rw [RevisionTracker.observe_noOp_iff, RevisionTracker.observe_current, RuntimeConfig.semanticHash, hbytes]
    rfl
  · intro h
    exact absurd (h.selected "/w/a.c") (by decide)

/-- Patterns in another order are a no-op, and nothing changes. -/
theorem swapped_patterns_noOp :
    ((({} : RevisionTracker).observe asText cleanFirst).2.observe asText headersFirst).1 = .noOp ∧
      cleanFirst.SameBehaviour literalMatchers headersFirst := by
  have hbytes : cleanFirst.preimage = headersFirst.preimage :=
    RuntimeConfig.preimage_eq_iff.mpr ⟨⟨rfl, rfl, rfl, rfl, rfl, rfl, rfl, rfl, rfl⟩,
      .cons ⟨rfl, rfl, rfl, rfl, rfl, rfl, .swap _ _ _, .refl _, .refl _, rfl, rfl⟩ .nil⟩
  obtain ⟨hnoOp, hsame⟩ := RevisionTracker.noOp_harmless_iff asText literalMatchers {} cleanFirst
    headersFirst fun _ => hbytes
  refine ⟨hnoOp.mpr hbytes, (hsame hbytes).mpr ?_⟩
  intro i rule other hrule hother _
  match i with
  | 0 =>
    rw [← Option.some.inj hrule, ← Option.some.inj hother]
    rfl
  | i + 1 => cases hrule

end Funzzy
