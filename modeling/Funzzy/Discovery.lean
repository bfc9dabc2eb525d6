import Funzzy.Watcher

/-! What reconciling adds to a batch (`reconcile_new_directories` and `walk_descendants` of
    `watcher.rs`).

    A directory of the batch stands for the files that were written into it before it was watched, so it
    is walked and dropped. The walk passes by what it finds under `.git` and behind links, but asks nothing
    of the directory it sets out from: there a `.git` directory or a link is walked like any other. -/

namespace Funzzy

/-! ### Walks -/

/-- A path below a directory: each directory in between is one itself, not a link, and not `.git`. The
    first one may be either. -/
inductive Disk.Below {P : Type} (disk : Disk P) : P → P → Prop
  | entry {dir entries entry} : disk.readDir dir = some entries → entry ∈ entries → Below disk dir entry.path
  | within {dir entries entry path} : disk.readDir dir = some entries → entry ∈ entries →
      entry.fileType = .dir → entry.isGit = false → Below disk entry.path path → Below disk dir path

section Walk

variable {P : Type} {disk : Disk P}

theorem Disk.mem_walkFrom {path : P} : ∀ (depth : Nat) (dir : P), disk.depth dir ≤ depth →
    (path ∈ disk.walkFrom depth dir ↔ disk.Below dir path) := by
  intro depth
  induction depth with
  | zero =>
    intro dir hdepth
    rw [walkFrom]
    constructor
    · intro hpath
      cases hread : disk.readDir dir with
      | none => simp [hread] at hpath
      | some entries =>
        simp only [hread, List.append_nil, List.mem_map] at hpath
        obtain ⟨entry, hentry, rfl⟩ := hpath
        exact .entry hread hentry
    · intro hbelow
      cases hbelow with
      | entry hread hentry =>
        rw [hread]
        exact List.mem_append_left _ (List.mem_map.mpr ⟨_, hentry, rfl⟩)
      | within hread hentry htype _ _ =>
        have hless := disk.finite _ _ hread _ hentry htype
        omega
  | succ depth ih =>
    intro dir hdepth
    rw [walkFrom]
    have hdeeper : ∀ entries, disk.readDir dir = some entries → ∀ entry ∈ entries,
        entry.fileType = .dir →
        (path ∈ disk.walkFrom depth entry.path ↔ disk.Below entry.path path) := by
      intro entries hread entry hentry htype
      have hless := disk.finite _ _ hread _ hentry htype
      exact ih entry.path (by omega)
    constructor
    · intro hpath
      cases hread : disk.readDir dir with
      | none => simp [hread] at hpath
      | some entries =>
        simp only [hread, List.mem_append, List.mem_map, List.mem_flatMap, List.mem_reverse,
          List.mem_filter, Bool.and_eq_true, decide_eq_true_eq, Bool.not_eq_true'] at hpath
        rcases hpath with ⟨entry, hentry, rfl⟩ | ⟨entry, ⟨hentry, htype, hgit⟩, hpath⟩
        · exact .entry hread hentry
        · exact .within hread hentry htype hgit ((hdeeper entries hread entry hentry htype).mp hpath)
    · intro hbelow
      cases hbelow with
      | entry hread hentry =>
        rw [hread]
        exact List.mem_append_left _ (List.mem_map.mpr ⟨_, hentry, rfl⟩)
      | @within _ entries entry _ hread hentry htype hgit hbelow =>
        rw [hread]
        refine List.mem_append_right _ (List.mem_flatMap.mpr ⟨entry, ?_, ?_⟩)
        · simp [hentry, htype, hgit]
        · exact (hdeeper entries hread entry hentry htype).mpr hbelow

theorem Disk.mem_walkDescendants {root path : P} :
    path ∈ disk.walkDescendants root ↔ disk.Below root path :=
  mem_walkFrom _ _ le_rfl

end Walk

/-! ### The loop -/

section Native

variable {P : Type} (T : Paths P) (disk : Disk P)

/-- A path text that is that of a file. -/
def FileAt (path : String) (file : P) : Prop := disk.isFile file = true ∧ T.toStr file = some path

/-- An event whose directory is walked. -/
def Walked (watchRoots : List String) (event : FileEvent) : Prop :=
  disk.isDir (T.ofText event.path) = true ∧ event.continuous = false ∧ event.path ∉ watchRoots

variable {T disk}

/-- A walk adds the files that are not known, and they are known behind it. -/
theorem mem_synthesize (descendants : List P) : ∀ (known : List String) (path : String),
    (path ∈ (synthesize T disk known descendants).1.map FileEvent.path
      ↔ path ∉ known ∧ ∃ file ∈ descendants, FileAt T disk path file) ∧
    (path ∈ (synthesize T disk known descendants).2
      ↔ path ∈ known ∨ ∃ file ∈ descendants, FileAt T disk path file) := by
  induction descendants with
  | nil => simp [synthesize]
  | cons descendant rest ih =>
    intro known path
    have hskip : ¬ FileAt T disk path descendant →
        ((∃ file ∈ descendant :: rest, FileAt T disk path file)
          ↔ ∃ file ∈ rest, FileAt T disk path file) := by
      intro hnot
      simp [hnot]
    rw [synthesize]
    split
    · next hfile =>
      split
      · next hnone =>
        rw [hskip (by simp [FileAt, hnone])]
        exact ih known path
      next text htext =>
      split
      · next hknown =>
        by_cases hsame : path = text
        · subst hsame
          have := ih known path
          simp only [hknown, not_true, false_and, true_or, iff_true, iff_false] at this ⊢
          exact this
        · rw [hskip (by simp [FileAt, htext, Ne.symm hsame])]
          exact ih known path
      · next hnew =>
        obtain ⟨hevents, hknown⟩ := ih (text :: known) path
        simp only [List.map_cons, List.mem_cons] at hevents hknown ⊢
        rw [hevents, hknown]
        by_cases hsame : path = text
        · subst hsame
          simp [hnew, FileAt, hfile, htext]
        · simp [hsame, FileAt, htext, Ne.symm hsame]
    · next hfile =>
      rw [hskip (by simp [FileAt, hfile])]
      exact ih known path

/-- A file that the walk from an event's directory finds. -/
def Found (T : Paths P) (disk : Disk P) (event : FileEvent) (path : String) : Prop :=
  ∃ file, disk.Below (T.ofText event.path) file ∧ FileAt T disk path file

theorem mem_walkDescendants_found {event : FileEvent} {path : String} :
    (∃ file ∈ disk.walkDescendants (T.ofText event.path), FileAt T disk path file)
      ↔ Found T disk event path := by
  simp only [Disk.mem_walkDescendants, Found]

theorem added_iff {known found later : Prop} :
    (¬ known ∧ found) ∨ (¬ (known ∨ found) ∧ later) ↔ ¬ known ∧ (found ∨ later) := by
  tauto

/-- The loop drops the directories of the batch, and adds the files it finds that the batch has not. -/
theorem mem_reconcileLoop (watchRoots : List String) (events : List FileEvent) :
    ∀ (known : List String) (path : String),
      (path ∈ (reconcileLoop T disk watchRoots known events).1.map FileEvent.path
        ↔ path ∉ known ∧ ∃ event ∈ events, Walked T disk watchRoots event ∧ Found T disk event path) ∧
      (path ∈ (reconcileLoop T disk watchRoots known events).2
        ↔ path ∈ events.map FileEvent.path ∧ disk.isDir (T.ofText path) = true) := by
  induction events with
  | nil => simp [reconcileLoop]
  | cons event rest ih =>
    intro known path
    rw [reconcileLoop]
    split
    · next hdir =>
      have hdropped : ∀ directories : List String,
          (path ∈ directories ↔ path ∈ rest.map FileEvent.path ∧ disk.isDir (T.ofText path) = true) →
          (path ∈ event.path :: directories
            ↔ path ∈ (event :: rest).map FileEvent.path ∧ disk.isDir (T.ofText path) = true) := by
        intro directories hrest
        rw [List.mem_cons, hrest, List.map_cons, List.mem_cons, or_and_right]
        refine or_congr_left ⟨?_, And.left⟩
        rintro rfl
        exact ⟨rfl, hdir⟩
      split
      · next hpassed =>
        have hnot : ¬ Walked T disk watchRoots event := by
          rintro ⟨-, hdiscrete, hroot⟩
          rcases hpassed with hcontinuous | hmember
          · rw [hcontinuous] at hdiscrete
            cases hdiscrete
          · exact hroot hmember
        obtain ⟨hevents, hdirectories⟩ := ih known path
        refine ⟨?_, hdropped _ hdirectories⟩
        simp only [hevents, List.mem_cons, exists_eq_or_imp, hnot, false_and, false_or]
      · next hwalks =>
        have hwalked : Walked T disk watchRoots event := by
          refine ⟨hdir, ?_, fun hroot => hwalks (.inr hroot)⟩
          cases hcontinuous : event.continuous with
          | false => rfl
          | true => exact absurd (.inl hcontinuous) hwalks
        obtain ⟨hfound, hknown⟩ := @mem_synthesize P T disk
          (disk.walkDescendants (T.ofText event.path)) known path
        rw [mem_walkDescendants_found] at hfound hknown
        obtain ⟨hevents, hdirectories⟩ := ih
          (synthesize T disk known (disk.walkDescendants (T.ofText event.path))).2 path
        refine ⟨?_, hdropped _ hdirectories⟩
        simp only [List.map_append, List.mem_append, hfound, hevents, hknown, List.mem_cons,
          exists_eq_or_imp, hwalked, true_and]
        exact added_iff
    · next hfile =>
      have hnot : ¬ Walked T disk watchRoots event := fun hwalked => hfile hwalked.1
      obtain ⟨hevents, hdirectories⟩ := ih known path
      refine ⟨?_, ?_⟩
      · simp only [hevents, List.mem_cons, exists_eq_or_imp, hnot, false_and, false_or]
      · rw [hdirectories, List.map_cons, List.mem_cons, or_and_right]
        refine (or_iff_right ?_).symm
        rintro ⟨rfl, hdir⟩
        exact hfile hdir

/-- What the reconciled batch holds: the paths that are no directory, and the files found by the walks. -/
theorem mem_reconcileNewDirectories (watchRoots : List String) (events : List FileEvent)
    (path : String) :
    path ∈ (reconcileNewDirectories T disk events watchRoots).map FileEvent.path
      ↔ (path ∈ events.map FileEvent.path ∧ disk.isDir (T.ofText path) = false) ∨
        ∃ event ∈ events, Walked T disk watchRoots event ∧ Found T disk event path := by
  obtain ⟨hadded, hdropped⟩ := @mem_reconcileLoop P T disk watchRoots events
    (events.map FileEvent.path) path
  have hkept : path ∈ (events.filter fun event => event.path ∉
        (reconcileLoop T disk watchRoots (events.map FileEvent.path) events).2).map FileEvent.path
      ↔ path ∈ events.map FileEvent.path ∧ disk.isDir (T.ofText path) = false := by
    simp only [List.mem_map, List.mem_filter, decide_eq_true_eq]
    constructor
    · rintro ⟨event, ⟨hevent, hkeep⟩, rfl⟩
      refine ⟨⟨event, hevent, rfl⟩, Bool.eq_false_iff.mpr fun hdir => hkeep (hdropped.mpr ?_)⟩
      exact ⟨List.mem_map.mpr ⟨event, hevent, rfl⟩, hdir⟩
    · rintro ⟨⟨event, hevent, rfl⟩, hfile⟩
      refine ⟨event, ⟨hevent, fun hdrop => ?_⟩, rfl⟩
      rw [(hdropped.mp hdrop).2] at hfile
      cases hfile
  rw [reconcileNewDirectories, Runs.mem_map_sortDedup, List.map_append, List.mem_append, hkept, hadded]
  constructor
  · rintro (h | ⟨-, h⟩)
    · exact .inl h
    · exact .inr h
  · rintro (h | ⟨event, hevent, hwalked, file, hbelow, hfile, htext⟩)
    · exact .inl h
    · have hnotDir : disk.isDir (T.ofText path) = false := by
        rw [T.ofText_toStr htext]
        exact Disk.isDir_of_isFile hfile
      by_cases hmem : path ∈ events.map FileEvent.path
      · exact .inl ⟨hmem, hnotDir⟩
      · exact .inr ⟨hmem, event, hevent, hwalked, file, hbelow, hfile, htext⟩

theorem reconcileNewDirectories_sorted (watchRoots : List String) (events : List FileEvent) :
    ((reconcileNewDirectories T disk events watchRoots).map FileEvent.path).Pairwise (· < ·) :=
  List.pairwise_map.mpr (Runs.sortDedup_increases _ _)

end Native

/-! ### Links and `.git` -/

/-- A disk of which also the paths themselves are known: whether one is a link (`symlink_metadata`), and
    whether its last component is `.git`. The entries of directories agree. -/
structure LinkedDisk (P : Type) extends Disk P where
  isLink : P → Bool
  isGit : P → Bool
  link_entry : ∀ dir entries, readDir dir = some entries →
    ∀ entry ∈ entries, entry.fileType = .symlink ↔ isLink entry.path = true
  git_entry : ∀ dir entries, readDir dir = some entries →
    ∀ entry ∈ entries, entry.isGit = isGit entry.path

section Linked

variable {P : Type} (T : Paths P) (disk : LinkedDisk P)

/-- A directory that may be walked. -/
def Plain (dir : P) : Prop := disk.isLink dir = false ∧ disk.isGit dir = false

/-- A path below a directory, reached without descending into `.git` or through a link. -/
inductive Descends : P → P → Prop
  | entry {dir entries entry} : Plain disk dir → disk.readDir dir = some entries → entry ∈ entries →
      Descends dir entry.path
  | within {dir entries entry path} : Plain disk dir → disk.readDir dir = some entries →
      entry ∈ entries → entry.fileType = .dir → Descends entry.path path → Descends dir path

/-- A batch as it should be reconciled: sorted and without repetitions, no directory in it, and in it
    exactly the paths that were no directory and the files below the directories to walk. -/
structure Reconciled (watchRoots : List String) (events batch : List FileEvent) : Prop where
  sorted : (batch.map FileEvent.path).Pairwise (· < ·)
  files : ∀ event ∈ batch, disk.isDir (T.ofText event.path) = false
  paths : ∀ path, path ∈ batch.map FileEvent.path ↔
    (path ∈ events.map FileEvent.path ∧ disk.isDir (T.ofText path) = false) ∨
    ∃ event ∈ events, Walked T disk.toDisk watchRoots event ∧
      ∃ file, Descends disk (T.ofText event.path) file ∧ FileAt T disk.toDisk path file

variable {T disk}

/-- A walk descends as it should exactly if it sets out from a directory that may be walked. -/
theorem descends_iff {dir path : P} :
    Descends disk dir path ↔ Plain disk dir ∧ disk.toDisk.Below dir path := by
  constructor
  · intro h
    induction h with
    | entry hplain hread hentry => exact ⟨hplain, .entry hread hentry⟩
    | within hplain hread hentry htype _ ih =>
      refine ⟨hplain, .within hread hentry htype ?_ ih.2⟩
      rw [disk.git_entry _ _ hread _ hentry]
      exact ih.1.2
  · rintro ⟨hplain, hbelow⟩
    induction hbelow with
    | entry hread hentry => exact .entry hplain hread hentry
    | within hread hentry htype hgit _ ih =>
      refine .within hplain hread hentry htype (ih ⟨?_, ?_⟩)
      · rw [← Bool.not_eq_true, ← disk.link_entry _ _ hread _ hentry, htype]
        exact fun h => nomatch h
      · rw [← disk.git_entry _ _ hread _ hentry]
        exact hgit

theorem isDir_eq_false_of_mem {watchRoots : List String} {events : List FileEvent} {event : FileEvent}
    (h : event ∈ reconcileNewDirectories T disk.toDisk events watchRoots) :
    disk.isDir (T.ofText event.path) = false := by
  have hpath := (mem_reconcileNewDirectories watchRoots events event.path).mp
    (List.mem_map_of_mem h)
  rcases hpath with ⟨-, hfile⟩ | ⟨other, -, -, file, -, hfile, htext⟩
  · exact hfile
  · rw [T.ofText_toStr htext]
    exact Disk.isDir_of_isFile hfile

/-- A batch is reconciled as it should be exactly if the walks that set out from a `.git` directory or a
    link find nothing that the batch has not, or gets from another directory, anyway. -/
theorem reconciled_iff (watchRoots : List String) (events : List FileEvent) :
    Reconciled T disk watchRoots events (reconcileNewDirectories T disk.toDisk events watchRoots) ↔
      ∀ event ∈ events, Walked T disk.toDisk watchRoots event → ¬ Plain disk (T.ofText event.path) →
        ∀ path, Found T disk.toDisk event path →
          path ∈ events.map FileEvent.path ∨
          ∃ other ∈ events, Walked T disk.toDisk watchRoots other ∧ Plain disk (T.ofText other.path) ∧
            Found T disk.toDisk other path := by
  constructor
  · intro h event hevent hwalked _ path hfound
    have hmem := (mem_reconcileNewDirectories watchRoots events path).mpr
      (.inr ⟨event, hevent, hwalked, hfound⟩)
    rcases (h.paths path).mp hmem with ⟨hmem, -⟩ | ⟨other, hother, hwalks, file, hdescends, hfile⟩
    · exact .inl hmem
    · obtain ⟨hplain, hbelow⟩ := descends_iff.mp hdescends
      exact .inr ⟨other, hother, hwalks, hplain, file, hbelow, hfile⟩
  · intro h
    refine ⟨reconcileNewDirectories_sorted watchRoots events, fun event => isDir_eq_false_of_mem,
      fun path => ?_⟩
    rw [mem_reconcileNewDirectories]
    constructor
    · rintro (hkept | ⟨event, hevent, hwalked, hfound⟩)
      · exact .inl hkept
      by_cases hplain : Plain disk (T.ofText event.path)
      · obtain ⟨file, hbelow, hfile⟩ := hfound
        exact .inr ⟨event, hevent, hwalked, file, descends_iff.mpr ⟨hplain, hbelow⟩, hfile⟩
      · obtain ⟨file, -, hfile, htext⟩ := id hfound
        rcases h event hevent hwalked hplain path hfound with
          hmem | ⟨other, hother, hwalks, hplain, file, hbelow, hfile⟩
        · refine .inl ⟨hmem, ?_⟩
          rw [T.ofText_toStr htext]
          exact Disk.isDir_of_isFile hfile
        · exact .inr ⟨other, hother, hwalks, file, descends_iff.mpr ⟨hplain, hbelow⟩, hfile⟩
    · rintro (hkept | ⟨event, hevent, hwalked, file, hdescends, hfile⟩)
      · exact .inl hkept
      · exact .inr ⟨event, hevent, hwalked, file, (descends_iff.mp hdescends).2, hfile⟩

end Linked

/-- Two new directories of one file each: a repository is set up, and a link to a directory is made. -/
def newDirectories : LinkedDisk String where
  metadata path :=
    if path = "/w/.git" ∨ path = "/w/link" then some ⟨.dir, 0⟩ else some ⟨.file, 0⟩
  readDir path :=
    if path = "/w/.git" ∨ path = "/w/link" then some [⟨path ++ "/a", .other, false⟩] else none
  depth _ := 0
  finite := by
    intro dir entries h entry hentry htype
    split at h
    · cases h
      cases List.mem_singleton.mp hentry
      cases htype
    · cases h
  isLink path := path == "/w/link"
  isGit path := path == "/w/.git"
  link_entry := by
    intro dir entries h entry hentry
    split at h
    · next hdir =>
      cases h
      cases List.mem_singleton.mp hentry
      rcases hdir with rfl | rfl <;> decide +kernel
    · cases h
  git_entry := by
    intro dir entries h entry hentry
    split at h
    · next hdir =>
      cases h
      cases List.mem_singleton.mp hentry
      rcases hdir with rfl | rfl <;> decide +kernel
    · cases h

/-- The file below `.git` and the one behind the link are added to the batch. -/
theorem git_and_link_walked :
    (reconcileNewDirectories textPaths newDirectories.toDisk
        [⟨"/w/.git", false⟩, ⟨"/w/link", false⟩] ["/w"]).map FileEvent.path
      = ["/w/.git/a", "/w/link/a"] ∧
    ¬ Reconciled textPaths newDirectories ["/w"] [⟨"/w/.git", false⟩, ⟨"/w/link", false⟩]
      (reconcileNewDirectories textPaths newDirectories.toDisk
        [⟨"/w/.git", false⟩, ⟨"/w/link", false⟩] ["/w"]) := by
  have hbatch : (reconcileNewDirectories textPaths newDirectories.toDisk
        [⟨"/w/.git", false⟩, ⟨"/w/link", false⟩] ["/w"]).map FileEvent.path
      = ["/w/.git/a", "/w/link/a"] := by decide +kernel
  refine ⟨hbatch, fun h => ?_⟩
  have hpath := (h.paths "/w/.git/a").mp (by rw [hbatch]; exact List.mem_cons_self)
  rcases hpath with ⟨hmem, -⟩ | ⟨event, hevent, -, file, hdescends, -⟩
  · revert hmem
    decide +kernel
  · obtain ⟨hlink, hgit⟩ := (descends_iff.mp hdescends).1
    rcases List.mem_cons.mp hevent with rfl | hevent
    · revert hgit
      decide +kernel
    · cases List.mem_singleton.mp hevent
      revert hlink
      decide +kernel

end Funzzy
