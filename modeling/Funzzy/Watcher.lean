import Mathlib.Algebra.Order.Ring.Int
import Mathlib.Data.String.Basic
import Funzzy.Lib.Runs
import Funzzy.Lib.SortedMap

/-! The watcher backends (`watcher.rs`): the batches of changed paths the watch loop is given.

    The native backend is told paths by the operating system and drops those that are directories, after
    walking the new ones for files. The polling backend compares what two scans of the roots have seen; it
    keeps every path it sees, directories too, and takes a new set of roots with nothing remembered. A
    state of the disk is what the backends ask about it while they make one batch. -/

namespace Funzzy

/-! ### Disks -/

inductive FileKind where | file | dir | other
  deriving DecidableEq

/-- What `fs::metadata` says of a path, through links; the time is in nanoseconds since the epoch. -/
structure Metadata where
  kind : FileKind
  modified : Int
  deriving DecidableEq

/-- The type of an entry itself, links not followed. -/
inductive EntryType where | dir | symlink | other
  deriving DecidableEq

/-- An entry of a directory. -/
structure DirEntry (P : Type) where
  path : P
  fileType : EntryType
  isGit : Bool := false
  deriving DecidableEq

/-- The paths of the standard library: their order, and how they are read from texts and shown. -/
structure Paths (P : Type) where
  ofText : String → P
  toStr : P → Option String
  display : P → String
  ofText_toStr : ∀ {path text}, toStr path = some text → ofText text = path

/-- Paths that are their own texts. -/
def textPaths : Paths String where
  ofText := id
  toStr := some
  display := id
  ofText_toStr := fun h => (Option.some.inj h).symm

/-- One state of the file system. Directories lie in directories to a finite depth. -/
structure Disk (P : Type) where
  metadata : P → Option Metadata
  readDir : P → Option (List (DirEntry P))
  depth : P → Nat
  finite : ∀ dir entries, readDir dir = some entries →
    ∀ entry ∈ entries, entry.fileType = .dir → depth entry.path < depth dir

namespace Disk

variable {P : Type} (disk : Disk P)

def isDir (path : P) : Bool :=
  match disk.metadata path with
  | none => false
  | some metadata => metadata.kind = .dir

def isFile (path : P) : Bool :=
  match disk.metadata path with
  | none => false
  | some metadata => metadata.kind = .file

/-- The loop of `walk_descendants` from a directory: its entries, and then what is below its
    subdirectories, the last one first. The depth bounds the descent. -/
def walkFrom : Nat → P → List P
  | depth, dir =>
    match disk.readDir dir with
    | none => []
    | some entries =>
      entries.map DirEntry.path ++
        match depth with
        | 0 => []
        | depth + 1 =>
          ((entries.filter fun entry => entry.fileType = .dir && !entry.isGit).reverse).flatMap
            fun entry => walkFrom depth entry.path

def walkDescendants (root : P) : List P := disk.walkFrom (disk.depth root) root

end Disk

/-! ### The native backend -/

structure FileEvent where
  path : String
  continuous : Bool
  deriving DecidableEq

section Native

variable {P : Type} (T : Paths P) (disk : Disk P)

/-- `normalize_batch`: the events of a debounce window, or its error; the flag says it was malformed. -/
def normalizeBatch : Option (List (P × Bool)) → List FileEvent × Bool
  | none => ([], true)
  | some window =>
    (Runs.sortDedup FileEvent.path
      (window.filterMap fun (path, continuous) => (T.toStr path).map fun path => ⟨path, continuous⟩),
      false)

/-- The descendants of a new directory that are files and not known yet, and what is known then. -/
def synthesize : List String → List P → List FileEvent × List String
  | known, [] => ([], known)
  | known, descendant :: rest =>
    if disk.isFile descendant then
      match T.toStr descendant with
      | none => synthesize known rest
      | some path =>
        if path ∈ known then synthesize known rest
        else
          let (events, known) := synthesize (path :: known) rest
          (⟨path, false⟩ :: events, known)
    else synthesize known rest

/-- The loop over the events: what is synthesized, and the directories that are dropped. -/
def reconcileLoop (watchRoots : List String) : List String → List FileEvent →
    List FileEvent × List String
  | _, [] => ([], [])
  | known, event :: rest =>
    if disk.isDir (T.ofText event.path) then
      if event.continuous ∨ event.path ∈ watchRoots then
        let (synthesized, directories) := reconcileLoop watchRoots known rest
        (synthesized, event.path :: directories)
      else
        let (found, known) := synthesize T disk known (disk.walkDescendants (T.ofText event.path))
        let (synthesized, directories) := reconcileLoop watchRoots known rest
        (found ++ synthesized, event.path :: directories)
    else reconcileLoop watchRoots known rest

def reconcileNewDirectories (events : List FileEvent) (watchRoots : List String) : List FileEvent :=
  let (synthesized, directories) := reconcileLoop T disk watchRoots (events.map FileEvent.path) events
  Runs.sortDedup FileEvent.path
    (events.filter (fun event => event.path ∉ directories) ++ synthesized)

/-- The batch `run_native` makes of a debounce window; an empty one is not handled. -/
def nativeBatch (currentRoots : List String) (window : Option (List (P × Bool))) : List FileEvent :=
  reconcileNewDirectories T disk (normalizeBatch T window).1 currentRoots

variable {T disk}

/-- What is synthesized is a file. -/
theorem isFile_of_synthesize (descendants : List P) : ∀ (known : List String) (event : FileEvent),
    event ∈ (synthesize T disk known descendants).1 → disk.isFile (T.ofText event.path) = true := by
  induction descendants with
  | nil => intro known event h; cases h
  | cons descendant rest ih =>
    intro known event h
    rw [synthesize] at h
    split at h
    · next hfile =>
      split at h
      · exact ih known event h
      next path htext =>
      split at h
      · exact ih known event h
      · rcases List.mem_cons.mp h with rfl | h
        · rwa [T.ofText_toStr htext]
        · exact ih _ event h
    · exact ih known event h

theorem Disk.isDir_of_isFile {path : P} (h : disk.isFile path = true) : disk.isDir path = false := by
  unfold Disk.isFile at h
  unfold Disk.isDir
  cases hmetadata : disk.metadata path with
  | none => rfl
  | some metadata =>
    rw [hmetadata] at h
    simp only [decide_eq_true_eq] at h
    simp [h]

/-- The loop drops every event that is a directory and synthesizes none. -/
theorem reconcileLoop_spec (watchRoots : List String) (events : List FileEvent) :
    ∀ known, (∀ event ∈ (reconcileLoop T disk watchRoots known events).1,
        disk.isDir (T.ofText event.path) = false)
      ∧ ∀ event ∈ events, disk.isDir (T.ofText event.path) = true →
        event.path ∈ (reconcileLoop T disk watchRoots known events).2 := by
  induction events with
  | nil => exact fun known => ⟨by simp [reconcileLoop], by simp⟩
  | cons event rest ih =>
    intro known
    rw [reconcileLoop]
    split
    · split
      · refine ⟨(ih known).1, fun other hother hdir => ?_⟩
        rcases List.mem_cons.mp hother with rfl | hother
        · exact List.mem_cons_self
        · exact List.mem_cons_of_mem _ ((ih known).2 other hother hdir)
      · refine ⟨fun other hother => ?_, fun other hother hdir => ?_⟩
        · rcases List.mem_append.mp hother with hother | hother
          · exact Disk.isDir_of_isFile (isFile_of_synthesize _ _ _ hother)
          · exact (ih _).1 other hother
        · rcases List.mem_cons.mp hother with rfl | hother
          · exact List.mem_cons_self
          · exact List.mem_cons_of_mem _ ((ih _).2 other hother hdir)
    · next hnot =>
      refine ⟨(ih known).1, fun other hother hdir => ?_⟩
      rcases List.mem_cons.mp hother with rfl | hother
      · exact absurd hdir hnot
      · exact (ih known).2 other hother hdir

/-- No path of a native batch is a directory. -/
theorem nativeBatch_files (currentRoots : List String) (window : Option (List (P × Bool))) :
    ∀ event ∈ nativeBatch T disk currentRoots window, disk.isDir (T.ofText event.path) = false := by
  intro event hevent
  obtain ⟨hsynthesized, hdropped⟩ := @reconcileLoop_spec P T disk currentRoots
    (normalizeBatch T window).1 ((normalizeBatch T window).1.map FileEvent.path)
  rcases List.mem_append.mp (Runs.mem_of_mem_sortDedup _ hevent) with hkept | hnew
  · obtain ⟨hmem, hkeep⟩ := List.mem_filter.mp hkept
    cases hdir : disk.isDir (T.ofText event.path) with
    | false => rfl
    | true => exact absurd (hdropped event hmem hdir) (of_decide_eq_true hkeep)
  · exact hsynthesized event hnew

end Native

/-! ### The polling backend -/

/-- The modified time in milliseconds, if the path exists. -/
abbrev PollSnapshot := Option Nat

/-- `PollSnapshot::capture`: times before the epoch count as zero. -/
def PollSnapshot.capture {P : Type} (disk : Disk P) (path : P) : PollSnapshot :=
  (disk.metadata path).map fun metadata => metadata.modified.toNat / 10 ^ 6 % 2 ^ 64

structure PollScanner (P : Type) [LinearOrder P] where
  watched : List P
  previous : SortedMap P PollSnapshot
  seeded : Bool

namespace PollScanner

variable {P : Type} [LinearOrder P]

def new (watched : List P) : PollScanner P := ⟨watched, SortedMap.empty, false⟩

def collectPaths (watched : List P) (disk : Disk P) : List P :=
  Runs.sortDedup id (watched.flatMap fun root => root :: disk.walkDescendants root)

/-- The facts of one scan. -/
def facts (watched : List P) (disk : Disk P) : SortedMap P PollSnapshot :=
  (collectPaths watched disk).foldl (fun next path => next.insert path (.capture disk path))
    SortedMap.empty

/-- `scan`: the scanner afterwards and the paths of the events. The removed paths come in the order of the
    hash map, which is unspecified; here it is the order of the paths. -/
def scan (s : PollScanner P) (disk : Disk P) : PollScanner P × List P :=
  let next := facts s.watched disk
  let changed := (collectPaths s.watched disk).filter fun path =>
    s.seeded && match s.previous.get? path with
      | some before => before ≠ .capture disk path
      | none => true
  let removed := if s.seeded then
      (s.previous.entries.map Prod.fst).filter fun path => (next.get? path).isNone
    else []
  (⟨s.watched, next, true⟩, changed ++ removed)

/-- The events of a scan. -/
def scanEvents (T : Paths P) (s : PollScanner P) (disk : Disk P) : List FileEvent :=
  (s.scan disk).2.map fun path => ⟨T.display path, false⟩

/-- The scanner after a sequence of scans. -/
def scanned (s : PollScanner P) (disks : List (Disk P)) : PollScanner P :=
  disks.foldl (fun s disk => (s.scan disk).1) s

/-! ### What a scan reports -/

theorem mem_collectPaths {watched : List P} {disk : Disk P} {path : P} :
    path ∈ collectPaths watched disk
      ↔ ∃ root ∈ watched, path = root ∨ path ∈ disk.walkDescendants root := by
  simp [collectPaths, Runs.mem_sortDedup]

theorem get?_foldl_insert (capture : P → PollSnapshot) (paths : List P) :
    ∀ (facts : SortedMap P PollSnapshot) (path : P),
      (paths.foldl (fun next path => next.insert path (capture path)) facts).get? path
        = if path ∈ paths then some (capture path) else facts.get? path := by
  induction paths with
  | nil => intro facts path; simp
  | cons first rest ih =>
    intro facts path
    rw [List.foldl_cons, ih, SortedMap.get?_insert]
    by_cases hrest : path ∈ rest
    · simp [hrest]
    · by_cases hfirst : path = first
      · simp [hfirst]
      · simp [hrest, hfirst]

/-- The facts of a scan are the snapshots of the paths it has seen. -/
theorem get?_facts (watched : List P) (disk : Disk P) (path : P) :
    (facts watched disk).get? path
      = if path ∈ collectPaths watched disk then some (.capture disk path) else none := by
  rw [facts, get?_foldl_insert, SortedMap.get?_empty]

theorem mem_keys_facts {watched : List P} {disk : Disk P} {path : P} :
    path ∈ (facts watched disk).entries.map Prod.fst ↔ path ∈ collectPaths watched disk := by
  rw [List.mem_map]
  constructor
  · rintro ⟨⟨_, fact⟩, hentry, rfl⟩
    have hget := (SortedMap.get?_eq_some_iff ..).mpr hentry
    rw [get?_facts] at hget
    split at hget
    · assumption
    · cases hget
  · intro hpath
    exact ⟨(path, .capture disk path), (SortedMap.get?_eq_some_iff ..).mp (by
      rw [get?_facts, if_pos hpath]), rfl⟩

/-- A path that two scans see differently: it appears, its snapshot changes, or it disappears. -/
def Differs (watched : List P) (before after : Disk P) (path : P) : Prop :=
  (path ∈ collectPaths watched after ∧ (path ∈ collectPaths watched before →
    PollSnapshot.capture before path ≠ .capture after path)) ∨
  (path ∈ collectPaths watched before ∧ path ∉ collectPaths watched after)

theorem scanned_watched (disks : List (Disk P)) :
    ∀ s : PollScanner P, (s.scanned disks).watched = s.watched := by
  induction disks with
  | nil => exact fun s => rfl
  | cons disk disks ih => exact fun s => ih (s.scan disk).1

/-- A scanner that has scanned a disk remembers that disk, whatever came before. -/
theorem scanned_concat (watched : List P) (history : List (Disk P)) (disk : Disk P) :
    (new watched).scanned (history ++ [disk]) = ⟨watched, facts watched disk, true⟩ := by
  have hlast : (new watched).scanned (history ++ [disk])
      = (((new watched).scanned history).scan disk).1 := by
    rw [scanned, List.foldl_append]
    rfl
  rw [hlast, scan, scanned_watched]
  rfl

/-- A scan reports what differs from the scan before. -/
theorem mem_scan {watched : List P} {before after : Disk P} {path : P} :
    path ∈ ((⟨watched, facts watched before, true⟩ : PollScanner P).scan after).2
      ↔ Differs watched before after path := by
  unfold scan Differs
  simp only [Bool.true_and, if_true, List.mem_append, List.mem_filter, get?_facts, mem_keys_facts]
  refine or_congr (and_congr_right fun _ => ?_) (and_congr_right fun _ => ?_)
  · by_cases hbefore : path ∈ collectPaths watched before <;> simp [hbefore]
  · by_cases hafter : path ∈ collectPaths watched after <;> simp [hafter]

/-- Each path is reported once. -/
theorem scan_nodup (watched : List P) (before after : Disk P) :
    ((⟨watched, facts watched before, true⟩ : PollScanner P).scan after).2.Nodup := by
  unfold scan
  simp only [if_true]
  refine List.nodup_append.mpr ⟨(Runs.sortDedup_nodup _).filter _, ?_, ?_⟩
  · refine List.Nodup.filter _ ?_
    rw [List.Nodup, List.pairwise_map]
    exact (facts watched before).sorted.imp fun h => ne_of_lt h
  · rintro path hchanged _ hremoved rfl
    have hnone := (List.mem_filter.mp hremoved).2
    rw [get?_facts, if_pos (List.mem_filter.mp hchanged).1] at hnone
    cases hnone

/-! ### Files and directories -/

/-- What a scan of a disk finds at a path: a directory, or a file, which is anything else. A watched root
    is there only if it exists; below the roots a link that leads nowhere is a file as well. -/
def kindAt (watched : List P) (disk : Disk P) (path : P) : Option FileKind :=
  if path ∈ collectPaths watched disk then
    match disk.metadata path with
    | some metadata => some (if metadata.kind = .dir then .dir else .file)
    | none => if path ∈ watched then none else some .file
  else none

/-- A file is created, removed, or modified as far as the snapshots tell. -/
def FileChanged (watched : List P) (before after : Disk P) (path : P) : Prop :=
  (kindAt watched before path ≠ some .file ∧ kindAt watched after path = some .file) ∨
  (kindAt watched before path = some .file ∧ kindAt watched after path ≠ some .file) ∨
  (kindAt watched before path = some .file ∧ kindAt watched after path = some .file ∧
    PollSnapshot.capture before path ≠ .capture after path)

/-- At a path that a scan sees: where the later disk has a directory, both scans see a directory with one
    time; and a directory is still there, or a file with another time has taken its place. -/
def SteadyAt (watched : List P) (before after : Disk P) (path : P) : Prop :=
  path ∈ collectPaths watched before ∨ path ∈ collectPaths watched after →
    (after.isDir path = true → kindAt watched before path = some .dir ∧
      kindAt watched after path = some .dir ∧
      PollSnapshot.capture before path = .capture after path) ∧
    (kindAt watched before path = some .dir → kindAt watched after path = some .dir ∨
      (kindAt watched after path = some .file ∧
        PollSnapshot.capture before path ≠ .capture after path))

/-- Between two scans no directory under the roots appears, changes its time or disappears. -/
def DirectoriesSteady (watched : List P) (before after : Disk P) : Prop :=
  ∀ path, SteadyAt watched before after path

/-- What a scan finds at a path: nothing, a root that does not exist, a file, or a directory. -/
inductive Sighting (watched : List P) (disk : Disk P) (path : P) : Prop
  | absent : path ∉ collectPaths watched disk → path ∉ watched → kindAt watched disk path = none →
      Sighting watched disk path
  | missing : path ∈ collectPaths watched disk → path ∈ watched → kindAt watched disk path = none →
      PollSnapshot.capture disk path = none → disk.isDir path = false → Sighting watched disk path
  | file : path ∈ collectPaths watched disk → kindAt watched disk path = some .file →
      (path ∈ watched → PollSnapshot.capture disk path ≠ none) → disk.isDir path = false →
      Sighting watched disk path
  | dir : path ∈ collectPaths watched disk → kindAt watched disk path = some .dir →
      PollSnapshot.capture disk path ≠ none → disk.isDir path = true → Sighting watched disk path

theorem sighting (watched : List P) (disk : Disk P) (path : P) : Sighting watched disk path := by
  by_cases hpath : path ∈ collectPaths watched disk
  · cases hmetadata : disk.metadata path with
    | none =>
      have hcapture : PollSnapshot.capture disk path = none := by rw [PollSnapshot.capture, hmetadata]; rfl
      have hdir : disk.isDir path = false := by rw [Disk.isDir, hmetadata]
      by_cases hroot : path ∈ watched
      · exact .missing hpath hroot (by simp [kindAt, hpath, hmetadata, hroot]) hcapture hdir
      · exact .file hpath (by simp [kindAt, hpath, hmetadata, hroot]) (fun h => absurd h hroot) hdir
    | some metadata =>
      have hcapture : PollSnapshot.capture disk path ≠ none := by simp [PollSnapshot.capture, hmetadata]
      by_cases hkind : metadata.kind = .dir
      · exact .dir hpath (by simp [kindAt, hpath, hmetadata, hkind]) hcapture
          (by simp [Disk.isDir, hmetadata, hkind])
      · exact .file hpath (by simp [kindAt, hpath, hmetadata, hkind]) (fun _ => hcapture)
          (by simp [Disk.isDir, hmetadata, hkind])
  · refine .absent hpath (fun hroot => hpath ?_) (by rw [kindAt, if_neg hpath])
    exact mem_collectPaths.mpr ⟨path, hroot, .inl rfl⟩

/-- At one path: it is reported as a changed file is, and not as a directory, exactly if it is not a
    directory that comes, goes or changes. -/
theorem exact_at_iff (watched : List P) (before after : Disk P) (path : P) :
    ((Differs watched before after path → after.isDir path = false)
      ∧ (Differs watched before after path ↔ FileChanged watched before after path))
    ↔ SteadyAt watched before after path := by
  unfold SteadyAt
  unfold Differs FileChanged
  cases sighting watched before path with
  | absent hb hrb hkb =>
    cases sighting watched after path with
    | absent ha _ hka => simp [hb, ha, hkb, hka]
    | missing ha hra => exact absurd hra hrb
    | file ha hka _ hda => simp [hb, ha, hkb, hka, hda]
    | dir ha hka hca hda => simp [hb, ha, hkb, hka, hda]
  | missing hb hrb hkb hcb =>
    cases sighting watched after path with
    | absent ha hra => exact absurd hrb hra
    | missing ha _ hka hca hda => simp [hb, ha, hkb, hka, hcb, hca, hda]
    | file ha hka hca hda => simp [hb, ha, hkb, hka, hcb, hda, (hca hrb).symm]
    | dir ha hka hca hda => simp [hb, ha, hkb, hka, hcb, hda, hca.symm]
  | file hb hkb hcb =>
    cases sighting watched after path with
    | absent ha hra hka => simp [hb, ha, hkb, hka]
    | missing ha hra hka hca hda => simp [hb, ha, hkb, hka, hca, hda, hcb hra]
    | file ha hka hca hda => simp [hb, ha, hkb, hka, hda]
    | dir ha hka hca hda =>
      -- a file has become a directory: reported or not, it is wrong
      by_cases hsame : PollSnapshot.capture before path = .capture after path <;>
        simp [hb, ha, hkb, hka, hda, hsame]
  | dir hb hkb hcb =>
    cases sighting watched after path with
    | absent ha hra hka => simp [hb, ha, hkb, hka]
    | missing ha hra hka hca hda => simp [hb, ha, hkb, hka, hca, hcb, hda]
    | file ha hka hca hda => simp [hb, ha, hkb, hka, hda]
    | dir ha hka hca hda =>
      by_cases hsame : PollSnapshot.capture before path = .capture after path <;>
        simp [hb, ha, hkb, hka, hda, hsame]

end PollScanner

/-- Batches carry files: no path of a native batch is a directory, whatever the window holds; and after
    any scans, the next scan reports the files that changed since the last one, each once and no directory
    among them, exactly if the directories under the roots are steady in between. -/
theorem files_only_iff {P : Type} [LinearOrder P] (T : Paths P) (disk : Disk P)
    (currentRoots : List String) (window : Option (List (P × Bool))) (watched : List P)
    (history : List (Disk P)) (before after : Disk P) :
    ((∀ event ∈ nativeBatch T disk currentRoots window, disk.isDir (T.ofText event.path) = false)
      ∧ (∀ path ∈ (((PollScanner.new watched).scanned (history ++ [before])).scan after).2,
          after.isDir path = false)
      ∧ (((PollScanner.new watched).scanned (history ++ [before])).scan after).2.Nodup
      ∧ ∀ path, path ∈ (((PollScanner.new watched).scanned (history ++ [before])).scan after).2
          ↔ PollScanner.FileChanged watched before after path)
    ↔ PollScanner.DirectoriesSteady watched before after := by
  rw [PollScanner.scanned_concat]
  simp only [PollScanner.mem_scan]
  constructor
  · rintro ⟨-, hfiles, -, hexact⟩ path
    exact (PollScanner.exact_at_iff watched before after path).mp ⟨hfiles path, hexact path⟩
  · intro hsteady
    have hexact := fun path => (PollScanner.exact_at_iff watched before after path).mpr (hsteady path)
    exact ⟨nativeBatch_files currentRoots window, fun path => (hexact path).1,
      PollScanner.scan_nodup watched before after, fun path => (hexact path).2⟩

/-- As events, they carry the texts of files that have changed. A text that is Unicode reads back as the
    file; of another one `display` has replaced something. -/
theorem PollScanner.scanEvents_files {P : Type} [LinearOrder P] (T : Paths P)
    (hdisplay : ∀ {path text}, T.toStr path = some text → T.display path = text) {watched : List P}
    {before after : Disk P} (hsteady : DirectoriesSteady watched before after) (history : List (Disk P)) :
    ∀ event ∈ scanEvents T ((new watched).scanned (history ++ [before])) after, ∃ path,
      event = ⟨T.display path, false⟩ ∧ FileChanged watched before after path ∧ after.isDir path = false
        ∧ ((T.toStr path).isSome → T.ofText event.path = path) := by
  rw [scanned_concat]
  intro event hevent
  obtain ⟨path, hpath, rfl⟩ := List.mem_map.mp hevent
  have hdiffers := mem_scan.mp hpath
  obtain ⟨hfile, hchanged⟩ := (exact_at_iff watched before after path).mpr (hsteady path)
  refine ⟨path, rfl, hchanged.mp hdiffers, hfile hdiffers, fun htext => ?_⟩
  obtain ⟨text, htext⟩ := Option.isSome_iff_exists.mp htext
  exact (congrArg T.ofText (hdisplay htext)).trans (T.ofText_toStr htext)

/-- A directory `src` with the given time in milliseconds, and files in it with theirs. -/
def srcDisk (modified : Int) (files : List (String × Int)) : Disk String where
  metadata path :=
    if path = "src" then some ⟨.dir, modified * 10 ^ 6⟩
    else (files.lookup path).map fun modified => ⟨.file, modified * 10 ^ 6⟩
  readDir path :=
    if path = "src" then some (files.map fun (path, _) => ⟨path, .other, false⟩) else none
  depth _ := 0
  finite := by
    intro dir entries h entry hentry htype
    split at h
    · cases h
      obtain ⟨file, -, rfl⟩ := List.mem_map.mp hentry
      cases htype
    · cases h

/-- A file is created, which touches its directory: the scan reports the directory, too. -/
theorem poll_reports_directory :
    (((PollScanner.new ["src"]).scanned [srcDisk 1000 [("src/a.txt", 1000)]]).scan
        (srcDisk 2000 [("src/a.txt", 1000), ("src/b.txt", 2000)])).2 = ["src", "src/b.txt"] ∧
      (srcDisk 2000 [("src/a.txt", 1000), ("src/b.txt", 2000)]).isDir "src" = true := by
  decide +kernel

/-! ### Root swaps of the polling backend -/

/-- What the loop of `run_poll` does: it takes a pending swap of the roots, or scans. -/
inductive PollLabel (P : Type) where
  | swap (roots : List P)
  | scan (disk : Disk P)

namespace PollScanner

variable {P : Type} [LinearOrder P]

/-- A swap makes a new scanner; a scan makes a batch. -/
def pollStep (s : PollScanner P) : PollLabel P → PollScanner P × List P
  | .swap roots => (new roots, [])
  | .scan disk => s.scan disk

/-- The scanner after some steps. -/
def polled (s : PollScanner P) (labels : List (PollLabel P)) : PollScanner P :=
  labels.foldl (fun s label => (s.pollStep label).1) s

/-- The batches of some steps. -/
def batches : PollScanner P → List (PollLabel P) → List (List P)
  | _, [] => []
  | s, label :: labels => (s.pollStep label).2 :: (s.pollStep label).1.batches labels

/-- The roots in force after some steps. -/
def rootsAfter (roots : List P) : List (PollLabel P) → List P
  | [] => roots
  | .swap roots' :: labels => rootsAfter roots' labels
  | .scan _ :: labels => rootsAfter roots labels

theorem polled_append (s : PollScanner P) (labels labels' : List (PollLabel P)) :
    s.polled (labels ++ labels') = (s.polled labels).polled labels' :=
  List.foldl_append

/-- They are the roots the scanner watches. -/
theorem polled_watched (labels : List (PollLabel P)) :
    ∀ s : PollScanner P, (s.polled labels).watched = rootsAfter s.watched labels := by
  induction labels with
  | nil => exact fun s => rfl
  | cons label labels ih =>
    intro s
    cases label with
    | swap roots => exact ih (new roots)
    | scan disk => exact ih (s.scan disk).1

/-- A scanner that has not scanned yet reports nothing. -/
theorem scan_unseeded {s : PollScanner P} (h : s.seeded = false) (disk : Disk P) :
    s.scan disk = (⟨s.watched, facts s.watched disk, true⟩, []) := by
  simp [scan, h]

/-- A path differs between two scans of these steps that follow each other without a swap. -/
def ChangesBetweenScans (roots : List P) (labels : List (PollLabel P)) (path : P) : Prop :=
  ∃ earlier before after later, labels = earlier ++ .scan before :: .scan after :: later ∧
    Differs (rootsAfter roots earlier) before after path

theorem changesBetweenScans_swap {roots roots' : List P} {labels : List (PollLabel P)} {path : P} :
    ChangesBetweenScans roots (.swap roots' :: labels) path ↔ ChangesBetweenScans roots' labels path := by
  constructor
  · rintro ⟨earlier, before, after, later, hlabels, hdiffers⟩
    cases earlier with
    | nil => cases hlabels
    | cons label earlier =>
      obtain ⟨rfl, hrest⟩ := List.cons.inj hlabels
      exact ⟨earlier, before, after, later, hrest, hdiffers⟩
  · rintro ⟨earlier, before, after, later, rfl, hdiffers⟩
    exact ⟨.swap roots' :: earlier, before, after, later, rfl, hdiffers⟩

theorem changesBetweenScans_scan {roots : List P} {disk : Disk P} {labels : List (PollLabel P)}
    {path : P} :
    ChangesBetweenScans roots (.scan disk :: labels) path
      ↔ (∃ after later, labels = .scan after :: later ∧ Differs roots disk after path)
        ∨ ChangesBetweenScans roots labels path := by
  constructor
  · rintro ⟨earlier, before, after, later, hlabels, hdiffers⟩
    cases earlier with
    | nil =>
      cases hlabels
      exact .inl ⟨after, later, rfl, hdiffers⟩
    | cons label earlier =>
      obtain ⟨rfl, hrest⟩ := List.cons.inj hlabels
      exact .inr ⟨earlier, before, after, later, hrest, hdiffers⟩
  · rintro (⟨after, later, rfl, hdiffers⟩ | ⟨earlier, before, after, later, rfl, hdiffers⟩)
    · exact ⟨[], disk, after, later, rfl, hdiffers⟩
    · exact ⟨.scan disk :: earlier, before, after, later, rfl, hdiffers⟩

theorem not_changesBetweenScans_nil {roots : List P} {path : P} :
    ¬ChangesBetweenScans roots [] path := by
  rintro ⟨earlier, before, after, later, hlabels, -⟩
  cases earlier <;> cases hlabels

/-- What is reported: by a scanner that remembers a disk, what differs between two scans, that disk being
    the first; by a new one, what differs between two scans still to come. -/
theorem mem_batches (labels : List (PollLabel P)) (path : P) :
    (∀ (watched : List P) (disk : Disk P),
      (∃ batch ∈ (⟨watched, facts watched disk, true⟩ : PollScanner P).batches labels, path ∈ batch)
        ↔ ChangesBetweenScans watched (.scan disk :: labels) path)
    ∧ ∀ s : PollScanner P, s.seeded = false →
      ((∃ batch ∈ s.batches labels, path ∈ batch) ↔ ChangesBetweenScans s.watched labels path) := by
  induction labels with
  | nil =>
    refine ⟨fun watched disk => ?_, fun s _ => ?_⟩
    · simp [batches, changesBetweenScans_scan, not_changesBetweenScans_nil]
    · simp [batches, not_changesBetweenScans_nil]
  | cons label labels ih =>
    obtain ⟨hseeded, hnew⟩ := ih
    cases label with
    | swap roots =>
      have hrest : (∃ batch ∈ (new roots).batches labels, path ∈ batch)
          ↔ ChangesBetweenScans roots labels path := hnew (new roots) rfl
      refine ⟨fun watched disk => ?_, fun s _ => ?_⟩
      · rw [changesBetweenScans_scan, changesBetweenScans_swap]
        simpa [batches, pollStep] using hrest
      · rw [changesBetweenScans_swap]
        simpa [batches, pollStep] using hrest
    | scan next =>
      refine ⟨fun watched disk => ?_, fun s hs => ?_⟩
      · have hrest := hseeded watched next
        rw [changesBetweenScans_scan, ← hrest]
        simp only [batches, List.exists_mem_cons_iff, pollStep, mem_scan]
        refine or_congr ?_ Iff.rfl
        exact ⟨fun h => ⟨next, labels, rfl, h⟩, fun ⟨_, _, h, hdiffers⟩ => by cases h; exact hdiffers⟩
      · have hrest := hseeded s.watched next
        rw [← hrest]
        simp [batches, pollStep, scan_unseeded hs]

/-- A file under a root that is registered before and after the swaps changes between the last scan before
    them and the first scan after them. -/
def GapChange (rootsBefore rootsNow : List P) (last first : Disk P) (path : P) : Prop :=
  ∃ root ∈ rootsBefore, root ∈ rootsNow ∧ FileChanged [root] last first path

/-- In every run of the polling loop, a change in the gap of a swap is reported exactly if the path changes
    again between two later scans with no swap between them. -/
theorem gap_change_reported_iff (roots : List P) (earlier : List (PollLabel P)) (last : Disk P)
    (swaps : List (List P)) (rootsNow : List P) (first : Disk P) (later : List (PollLabel P))
    (path : P) :
    (GapChange (rootsAfter roots earlier) rootsNow last first path →
      ∃ batch ∈ ((new roots).polled (earlier ++ .scan last :: (swaps.map .swap ++ [.swap rootsNow]))).batches
        (.scan first :: later), path ∈ batch)
    ↔ (GapChange (rootsAfter roots earlier) rootsNow last first path →
      ChangesBetweenScans rootsNow (.scan first :: later) path) := by
  refine imp_congr_right fun _ => ?_
  have hswapped : (new roots).polled (earlier ++ .scan last :: (swaps.map .swap ++ [.swap rootsNow]))
      = new rootsNow := by
    rw [polled_append, polled, List.foldl_cons, List.foldl_append]
    rfl
  rw [hswapped]
  exact (mem_batches (.scan first :: later) path).2 (new rootsNow) rfl

/-- A file changes while a root is added to its own, and not again: no batch has it. -/
theorem gap_change_lost :
    GapChange ["src"] ["src", "lib"] (srcDisk 1000 [("src/a.txt", 1000)])
        (srcDisk 1000 [("src/a.txt", 2000)]) "src/a.txt"
      ∧ ((new ["src"]).polled [.scan (srcDisk 1000 [("src/a.txt", 1000)]), .swap ["src", "lib"]]).batches
        [.scan (srcDisk 1000 [("src/a.txt", 2000)]), .scan (srcDisk 1000 [("src/a.txt", 2000)])]
        = [[], []] := by
  refine ⟨⟨"src", by decide, by decide, ?_⟩, by decide +kernel⟩
  right
  right
  decide +kernel

end PollScanner

end Funzzy
