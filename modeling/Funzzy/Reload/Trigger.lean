import Funzzy.Reload.Lifecycle
import Mathlib.Data.List.Destutter

/-! What triggers a reload (`config_watch_roots` and `changed_config_path` in `reload_session.rs`).

    The reload watcher watches the directories of the configuration files and takes the first changed path
    that reads as one of them: the same text, a text that ends in it, or a path that it is the canonical
    form of. That is a matter of spelling: another file can end in the same characters, and a
    configuration file can be spelled in another way. -/

namespace Funzzy

namespace ReloadSession

open UnixPath (Component components join parent parentText)

/-! ### The directories watched -/

/-- The order of components: the root, `.`, `..`, then the names by their characters. -/
def componentKey : Component → List Nat
  | .rootDir => [0]
  | .curDir => [1]
  | .parentDir => [2]
  | .normal name => 3 :: name.map Char.toNat

/-- Paths are compared by their components. -/
def pathLe (a b : List Char) : Bool :=
  (components a).map componentKey ≤ (components b).map componentKey

/-- `config_watch_roots`: the parents that have a text, sorted, each once. -/
def configWatchRoots (configPaths : List String) : List String :=
  let parents := configPaths.filterMap fun path => (parentText path.toList).filter (· ≠ [])
  ((parents.mergeSort pathLe).destutter fun a b => components a ≠ components b).map String.ofList

/-! ### What the trigger should be -/

/-- The file system while a batch is handled. A canonical path is its own canonical form, and the empty text
    is no path. -/
structure PathView where
  currentDir : String
  canonicalize : String → Option String
  idempotent : ∀ {path real}, canonicalize path = some real → canonicalize real = some real
  empty : canonicalize "" = none

section Trigger

variable (fs : PathView) (events : List FileEvent) (configPaths : List String)

/-- Both texts are paths of one file: they have the same components from the root, or the same canonical
    form. -/
def Denotes (path other : String) : Prop :=
  components (join fs.currentDir.toList path.toList) = components (join fs.currentDir.toList other.toList)
    ∨ ∃ real, fs.canonicalize path = some real ∧ fs.canonicalize other = some real

/-- The path is that of a configuration file. -/
def IsConfig (path : String) : Prop := ∃ candidate ∈ configPaths, Denotes fs path candidate

/-- The test `changed_config_path` makes of a changed path. -/
def reads (path : String) : Bool :=
  configPaths.any fun candidate =>
    path == candidate || candidate.toList.isSuffixOf path.toList || fs.canonicalize path == some candidate

/-- The reload is triggered by configuration files, and by nothing else. -/
structure Triggers : Prop where
  sound : changedConfigPath fs.canonicalize events configPaths ≠ "" →
    IsConfig fs configPaths (changedConfigPath fs.canonicalize events configPaths)
  complete : (∃ event ∈ events, IsConfig fs configPaths event.path) →
    changedConfigPath fs.canonicalize events configPaths ≠ ""
  watched : ∀ path ∈ configPaths, ∃ root ∈ configWatchRoots configPaths,
    parent (components path.toList) = some (components root.toList)

/-- A changed path ends in the characters of a configuration path and is another file's. -/
def Lookalike (path : String) : Prop :=
  (∃ candidate ∈ configPaths, candidate.toList <:+ path.toList) ∧ ¬ IsConfig fs configPaths path

/-- A changed path is a configuration file's under a spelling that the test does not know. -/
def Alias (path : String) : Prop := IsConfig fs configPaths path ∧ reads fs configPaths path = false

end Trigger

/-! ### The directories -/

theorem mem_destutter {α β : Type} [DecidableEq β] (f : α → β) {xs : List α} {a : α} (h : a ∈ xs) :
    ∃ b ∈ xs.destutter (fun a b => f a ≠ f b), f a = f b := by
  have hfrom : ∀ (rest : List α) (first : α), ∀ a ∈ first :: rest,
      ∃ b ∈ rest.destutter' (fun a b => f a ≠ f b) first, f a = f b := by
    intro rest
    induction rest with
    | nil =>
      intro first a ha
      exact ⟨first, by simp, by rw [List.mem_singleton.mp ha]⟩
    | cons next rest ih =>
      intro first a ha
      by_cases hsame : f first = f next
      · -- the next one is left out, the first one stands for it
        rw [List.destutter'_cons_neg _ (fun hne => hne hsame)]
        rcases List.mem_cons.mp ha with rfl | ha
        · exact ih a a List.mem_cons_self
        · rcases List.mem_cons.mp ha with rfl | ha
          · obtain ⟨b, hb, heq⟩ := ih first first List.mem_cons_self
            exact ⟨b, hb, hsame.symm.trans heq⟩
          · exact ih first a (List.mem_cons_of_mem _ ha)
      · rw [List.destutter'_cons_pos _ hsame]
        rcases List.mem_cons.mp ha with rfl | ha
        · exact ⟨a, List.mem_cons_self, rfl⟩
        · obtain ⟨b, hb, heq⟩ := ih next a ha
          exact ⟨b, List.mem_cons_of_mem _ hb, heq⟩
  cases xs with
  | nil => cases h
  | cons first rest => exact hfrom rest first a h

variable {fs : PathView} {events : List FileEvent} {configPaths : List String}

/-- A configuration file's directory is watched exactly if the configuration path has one in its text. -/
theorem watched_iff {path : String} (hpath : path ∈ configPaths) :
    (∃ root ∈ configWatchRoots configPaths, parent (components path.toList) = some (components root.toList))
      ↔ ∃ directory, parentText path.toList = some directory ∧ directory ≠ [] := by
  constructor
  · rintro ⟨root, hroot, hparent⟩
    obtain ⟨text, htext, rfl⟩ := List.mem_map.mp hroot
    have hmem := (List.destutter_sublist _ _).subset htext
    rw [List.mem_mergeSort, List.mem_filterMap] at hmem
    obtain ⟨other, -, hother⟩ := hmem
    rw [Option.filter_eq_some_iff] at hother
    have hne := UnixPath.components_ne_nil_of_parentText hother.1 (by simpa using hother.2)
    rw [String.toList_ofList] at hparent
    cases hdirectory : parentText path.toList with
    | none =>
      rw [UnixPath.parent_of_parentText hdirectory] at hparent
      cases hparent
    | some directory =>
      refine ⟨directory, rfl, ?_⟩
      rintro rfl
      rw [UnixPath.components_parentText hdirectory, Option.some.injEq] at hparent
      exact hne hparent.symm
  · rintro ⟨directory, hdirectory, hne⟩
    have hmem : directory ∈ (configPaths.filterMap fun path => (parentText path.toList).filter (· ≠ [])).mergeSort
        pathLe := by
      rw [List.mem_mergeSort, List.mem_filterMap]
      exact ⟨path, hpath, by rw [hdirectory, Option.filter_some_pos (by simpa using hne)]⟩
    obtain ⟨root, hroot, heq⟩ := mem_destutter components hmem
    refine ⟨String.ofList root, List.mem_map_of_mem hroot, ?_⟩
    rw [UnixPath.components_parentText hdirectory, String.toList_ofList, heq]

/-! ### The changed path -/

theorem changedConfigPath_eq : changedConfigPath fs.canonicalize events configPaths
    = ((events.find? fun event => reads fs configPaths event.path).map (·.path)).getD "" := by
  rw [changedConfigPath, List.find?_map]
  rfl

/-- A path that reads as a configuration file is one, unless it merely ends in the same characters. -/
theorem isConfig_or_lookalike {path : String} (h : reads fs configPaths path = true) :
    IsConfig fs configPaths path ∨ Lookalike fs configPaths path := by
  by_cases hconfig : IsConfig fs configPaths path
  · exact .inl hconfig
  · obtain ⟨candidate, hcandidate, htest⟩ := List.any_eq_true.mp h
    rw [Bool.or_eq_true, Bool.or_eq_true, beq_iff_eq, beq_iff_eq] at htest
    rcases htest with (rfl | hsuffix) | hcanonical
    · exact absurd ⟨path, hcandidate, .inl rfl⟩ hconfig
    · exact .inr ⟨⟨candidate, hcandidate, List.isSuffixOf_iff_suffix.mp hsuffix⟩, hconfig⟩
    · exact absurd ⟨candidate, hcandidate, .inr ⟨candidate, hcanonical, fs.idempotent hcanonical⟩⟩ hconfig

theorem Lookalike.reads {path : String} (h : Lookalike fs configPaths path) :
    reads fs configPaths path = true := by
  obtain ⟨candidate, hcandidate, hsuffix⟩ := h.1
  refine List.any_eq_true.mpr ⟨candidate, hcandidate, ?_⟩
  rw [List.isSuffixOf_iff_suffix.mpr hsuffix, Bool.or_true, Bool.true_or]

/-- Where every configuration path has a directory, the empty text reads as none. -/
theorem reads_ne_empty (hnamed : ∀ path ∈ configPaths, ∃ directory, parentText path.toList = some directory
    ∧ directory ≠ []) {path : String} (h : reads fs configPaths path = true) : path ≠ "" := by
  rintro rfl
  obtain ⟨candidate, hcandidate, htest⟩ := List.any_eq_true.mp h
  have hne : candidate ≠ "" := by
    rintro rfl
    obtain ⟨directory, hdirectory, -⟩ := hnamed "" hcandidate
    cases hdirectory
  rw [Bool.or_eq_true, Bool.or_eq_true, beq_iff_eq, beq_iff_eq, fs.empty] at htest
  rcases htest with (heq | hsuffix) | hcanonical
  · exact hne heq.symm
  · have hnil := List.suffix_nil.mp (List.isSuffixOf_iff_suffix.mp hsuffix)
    exact hne (String.toList_inj.mp hnil)
  · cases hcanonical

/-- The reload is triggered by configuration files alone exactly if every configuration path names a
    directory, every lookalike in the batch stands behind a change of a configuration file that the test
    knows, and a change under a spelling that the test does not know comes with one that it knows. -/
theorem triggers_iff (fs : PathView) (events : List FileEvent) (configPaths : List String) :
    Triggers fs events configPaths
      ↔ (∀ path ∈ configPaths, ∃ directory, parentText path.toList = some directory ∧ directory ≠ [])
        ∧ (∀ before event after, events = before ++ event :: after → Lookalike fs configPaths event.path →
          ∃ earlier ∈ before, reads fs configPaths earlier.path = true ∧ IsConfig fs configPaths earlier.path)
        ∧ ∀ event ∈ events, Alias fs configPaths event.path →
          ∃ other ∈ events, reads fs configPaths other.path = true := by
  constructor
  · rintro ⟨hsound, hcomplete, hwatched⟩
    have hnamed := fun path hpath => (watched_iff hpath).mp (hwatched path hpath)
    rw [changedConfigPath_eq] at hsound hcomplete
    refine ⟨hnamed, ?_, ?_⟩
    · rintro before event after rfl hlookalike
      rw [List.find?_append] at hsound
      cases hbefore : before.find? fun event => reads fs configPaths event.path with
      | none =>
        -- the lookalike itself is returned
        exfalso
        have hfirst : ((event :: after).find? fun event => reads fs configPaths event.path) = some event :=
          List.find?_cons_of_pos (p := fun event : FileEvent => reads fs configPaths event.path) hlookalike.reads
        rw [hbefore, Option.none_or, hfirst] at hsound
        exact hlookalike.2 (hsound (reads_ne_empty hnamed hlookalike.reads))
      | some earlier =>
        have hearlier := List.find?_some hbefore
        rw [hbefore] at hsound
        exact ⟨earlier, List.mem_of_find?_eq_some hbefore, hearlier, hsound (reads_ne_empty hnamed hearlier)⟩
    · intro event hevent halias
      have hsome := hcomplete ⟨event, hevent, halias.1⟩
      cases hfind : events.find? fun event => reads fs configPaths event.path with
      | none =>
        rw [hfind] at hsome
        exact absurd rfl hsome
      | some other =>
        have hother := List.find?_some hfind
        exact ⟨other, List.mem_of_find?_eq_some hfind, hother⟩
  · rintro ⟨hnamed, hlookalikes, haliases⟩
    refine ⟨?_, ?_, fun path hpath => (watched_iff hpath).mpr (hnamed path hpath)⟩
    · rw [changedConfigPath_eq]
      cases hfind : events.find? fun event => reads fs configPaths event.path with
      | none => exact fun hne => absurd rfl hne
      | some event =>
        intro _
        obtain ⟨hreads, before, after, hsplit, hfirst⟩ := List.find?_eq_some_iff_append.mp hfind
        rcases isConfig_or_lookalike hreads with hconfig | hlookalike
        · exact hconfig
        · obtain ⟨earlier, hearlier, hknown, -⟩ := hlookalikes before event after hsplit hlookalike
          have hnone := hfirst earlier hearlier
          rw [hknown] at hnone
          cases hnone
    · rintro ⟨event, hevent, hconfig⟩
      have hsome : ∃ other ∈ events, reads fs configPaths other.path = true := by
        cases hknown : reads fs configPaths event.path with
        | true => exact ⟨event, hevent, hknown⟩
        | false => exact haliases event hevent ⟨hconfig, hknown⟩
      obtain ⟨first, hfirst⟩ := Option.isSome_iff_exists.mp (List.find?_isSome.mpr hsome)
      have hknown := List.find?_some hfirst
      rw [changedConfigPath_eq, hfirst]
      exact reads_ne_empty hnamed hknown

/-- A workspace without links. -/
def plainView : PathView where
  currentDir := "/w"
  canonicalize path := if path = "" then none else some path
  idempotent := by
    intro path real h
    split_ifs at h with hempty
    cases h
    exact if_neg hempty
  empty := rfl

/-- Another file whose path ends in the characters of `conf/ci.yaml` is taken for it. -/
theorem lookalike_triggers :
    changedConfigPath plainView.canonicalize [⟨"/w/conf/my-conf/ci.yaml", false⟩] ["conf/ci.yaml"]
        = "/w/conf/my-conf/ci.yaml"
      ∧ ¬ IsConfig plainView ["conf/ci.yaml"] "/w/conf/my-conf/ci.yaml"
      ∧ ¬ Triggers plainView [⟨"/w/conf/my-conf/ci.yaml", false⟩] ["conf/ci.yaml"] := by
  have hchanged : changedConfigPath plainView.canonicalize [⟨"/w/conf/my-conf/ci.yaml", false⟩]
      ["conf/ci.yaml"] = "/w/conf/my-conf/ci.yaml" := by decide
  have hother : ¬ IsConfig plainView ["conf/ci.yaml"] "/w/conf/my-conf/ci.yaml" := by
    rintro ⟨candidate, hcandidate, hsame | ⟨real, hreal, hcandidate'⟩⟩
    · rw [List.mem_singleton.mp hcandidate] at hsame
      revert hsame
      decide
    · rw [List.mem_singleton.mp hcandidate, ← hreal] at hcandidate'
      revert hcandidate'
      decide
  refine ⟨hchanged, hother, fun h => hother ?_⟩
  have hsound := h.sound
  rw [hchanged] at hsound
  exact hsound (by decide)

end ReloadSession

end Funzzy
