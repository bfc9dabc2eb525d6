import Funzzy.Lib.Detector
import Funzzy.Watcher

/-! The modification gate of the watch loop (`ModificationGate` of `watch_loop.rs`).

    A backend may tell a path again though nothing wrote it, so a path is let through only when its
    modified time is not the one seen last. What exists when the watch loop starts is seen beforehand, by a
    walk from the configured paths that, unlike the one of a reconciled batch, follows links. -/

namespace Funzzy

/-- `fs::metadata(path).and_then(modified).ok()`. -/
def Disk.mtime {P : Type} (disk : Disk P) (path : P) : Option Int :=
  (disk.metadata path).map Metadata.modified

/-- A disk of which a path leads into directories to a finite depth also through links, since the system
    resolves neither endless links nor endless paths. -/
structure BoundedDisk (P : Type) extends Disk P where
  rank : P → Nat
  bounded : ∀ dir entries, readDir dir = some entries →
    ∀ entry ∈ entries, toDisk.isDir entry.path = true → rank entry.path < rank dir

/-! ### The gate -/

/-- The modified time of each path when it was seen last; none where it was absent. -/
structure ModificationGate where
  lastSeen : String → Option (Option Int)

namespace ModificationGate

def new : ModificationGate := ⟨fun _ => none⟩

/-- `last_seen.insert(path, mtime)`. -/
def insert (gate : ModificationGate) (path : String) (mtime : Option Int) : ModificationGate :=
  ⟨Function.update gate.lastSeen path (some mtime)⟩

@[simp] theorem insert_lastSeen (gate : ModificationGate) (path : String) (mtime : Option Int) :
    (gate.insert path mtime).lastSeen = Function.update gate.lastSeen path (some mtime) := rfl

/-- `entry(path).or_insert(mtime)`. -/
def fill (gate : ModificationGate) (path : String) (mtime : Option Int) : ModificationGate :=
  match gate.lastSeen path with
  | some _ => gate
  | none => gate.insert path mtime

section Native

variable {P : Type} (T : Paths P)

/-- One path of `seed`; the depth bounds the descent. -/
def seedPath (disk : Disk P) : Nat → ModificationGate → P → ModificationGate
  | depth, gate, path =>
    if disk.isFile path then
      match T.toStr path with
      | some text => gate.fill text (disk.mtime path)
      | none => gate
    else
      match disk.readDir path with
      | none => gate
      | some entries =>
        entries.foldl
          (fun gate entry =>
            match T.toStr entry.path with
            | none => gate
            | some text =>
              let gate := gate.fill text (disk.mtime entry.path)
              if disk.isDir entry.path then
                match depth with
                | 0 => gate
                | depth + 1 => seedPath disk depth gate (T.ofText text)
              else gate)
          gate

def seed (disk : BoundedDisk P) (gate : ModificationGate) (paths : List String) : ModificationGate :=
  paths.foldl
    (fun gate path => seedPath T disk.toDisk (disk.rank (T.ofText path)) gate (T.ofText path)) gate

/-- One path presented to the gate, and whether it is routed. -/
def present (disk : Disk P) (gate : ModificationGate) (path : String) : ModificationGate × Bool :=
  let current := disk.mtime (T.ofText path)
  let previous := gate.lastSeen path
  (gate.insert path current,
    match previous, current with
    | previous, some mtime =>
      -- a first sighting of an existing path, or a real modification; the creation after a known
      -- deletion has an arm of its own
      if previous ≠ some (some mtime) then true
      else match previous with
        | some none => true
        | _ => false
    | _, none => false)

/-- `changed`: the paths that are routed, in input order. -/
def changed (disk : Disk P) : ModificationGate → List String → ModificationGate × List String
  | gate, [] => (gate, [])
  | gate, path :: rest =>
    let (gate', routed) := gate.present T disk path
    let (gate'', later) := gate'.changed disk rest
    (gate'', if routed then path :: later else later)

/-! ### What the seed records -/

/-- A path text that the walk of `seed` from a directory comes by, also through links. -/
inductive Listed (disk : Disk P) : P → String → Prop
  | entry {dir entries entry text} : disk.readDir dir = some entries → entry ∈ entries →
      T.toStr entry.path = some text → Listed disk dir text
  | within {dir entries entry text text'} : disk.readDir dir = some entries → entry ∈ entries →
      T.toStr entry.path = some text' → disk.isDir entry.path = true → Listed disk entry.path text →
      Listed disk dir text

/-- A path text that `seed` comes by from one of its paths: the path itself if it is a file, and what is
    below it otherwise. -/
def Comes (disk : Disk P) (root : P) (text : String) : Prop :=
  (disk.isFile root = true ∧ T.toStr root = some text) ∨ (disk.isFile root = false ∧ Listed T disk root text)

/-- What existed at the seed, at or below its paths. -/
def Existed (disk : Disk P) (paths : List String) (text : String) : Prop :=
  ∃ path ∈ paths, Comes T disk (T.ofText path) text

/-- A gate filled with the times of some paths: what it had seen before is kept. -/
structure Fills (disk : Disk P) (S : String → Prop) (gate gate' : ModificationGate) : Prop where
  kept : ∀ text seen, gate.lastSeen text = some seen → gate'.lastSeen text = some seen
  filled : ∀ text, gate.lastSeen text = none → S text →
    gate'.lastSeen text = some (disk.mtime (T.ofText text))
  missed : ∀ text, gate.lastSeen text = none → ¬ S text → gate'.lastSeen text = none

variable {T} {disk : Disk P} {gate gate' gate'' : ModificationGate}

theorem Fills.refl {S : String → Prop} (hS : ∀ text, ¬ S text) : Fills T disk S gate gate where
  kept := fun _ _ h => h
  filled := fun text _ h => absurd h (hS text)
  missed := fun _ h _ => h

theorem Fills.trans {S S' : String → Prop} (h : Fills T disk S gate gate')
    (h' : Fills T disk S' gate' gate'') : Fills T disk (fun text => S text ∨ S' text) gate gate'' where
  kept := fun text seen hseen => h'.kept text seen (h.kept text seen hseen)
  filled := by
    intro text hnone hin
    by_cases hS : S text
    · exact h'.kept text _ (h.filled text hnone hS)
    · exact h'.filled text (h.missed text hnone hS) (hin.resolve_left hS)
  missed := by
    intro text hnone hout
    rw [not_or] at hout
    exact h'.missed text (h.missed text hnone hout.1) hout.2

theorem Fills.congr {S S' : String → Prop} (h : Fills T disk S gate gate')
    (hsame : ∀ text, S' text ↔ S text) : Fills T disk S' gate gate' where
  kept := h.kept
  filled := fun text hnone hin => h.filled text hnone ((hsame text).mp hin)
  missed := fun text hnone hout => h.missed text hnone fun hin => hout ((hsame text).mpr hin)

theorem Fills.foldl {α : Type} {S : α → String → Prop} {f : ModificationGate → α → ModificationGate}
    (l : List α) : ∀ gate, (∀ a ∈ l, ∀ gate, Fills T disk (S a) gate (f gate a)) →
      Fills T disk (fun text => ∃ a ∈ l, S a text) gate (l.foldl f gate) := by
  induction l with
  | nil => exact fun gate _ => .refl (by simp)
  | cons a l ih =>
    intro gate h
    refine ((h a List.mem_cons_self gate).trans
      (ih (f gate a) fun b hb => h b (List.mem_cons_of_mem _ hb))).congr fun text => ?_
    simp

theorem fill_fills {path : P} {text : String} (htext : T.toStr path = some text) :
    Fills T disk (· = text) gate (gate.fill text (disk.mtime path)) := by
  unfold fill
  split
  · next seen hseen =>
    refine ⟨fun _ _ h => h, ?_, fun _ h _ => h⟩
    rintro _ hnone rfl
    rw [hseen] at hnone
    cases hnone
  · next hunseen =>
    refine ⟨fun other seen hseen => ?_, ?_, fun other hnone hother => ?_⟩
    · have hother : other ≠ text := by
        rintro rfl
        rw [hunseen] at hseen
        cases hseen
      rw [insert_lastSeen, Function.update_of_ne hother]
      exact hseen
    · rintro _ - rfl
      rw [insert_lastSeen, Function.update_self, T.ofText_toStr htext]
    · rw [insert_lastSeen, Function.update_of_ne hother]
      exact hnone

theorem isFile_eq_false_of_isDir {path : P} (h : disk.isDir path = true) : disk.isFile path = false := by
  cases hfile : disk.isFile path with
  | false => rfl
  | true =>
    rw [Disk.isDir_of_isFile hfile] at h
    cases h

end Native

section Bounded

variable {P : Type} {T : Paths P} {disk : BoundedDisk P}

/-- What one entry of a directory brings: itself, and what is below it if it is a directory. -/
def Brings (T : Paths P) (disk : Disk P) (entry : DirEntry P) (text : String) : Prop :=
  T.toStr entry.path = some text ∨ ((T.toStr entry.path).isSome ∧ disk.isDir entry.path = true ∧
    Listed T disk entry.path text)

theorem listed_iff {dir : P} {text : String} {entries : List (DirEntry P)}
    (hread : disk.readDir dir = some entries) :
    Listed T disk.toDisk dir text ↔ ∃ entry ∈ entries, Brings T disk.toDisk entry text := by
  constructor
  · intro h
    cases h with
    | entry hread' hentry htext =>
      rw [hread] at hread'
      cases hread'
      exact ⟨_, hentry, .inl htext⟩
    | within hread' hentry htext hdir hlisted =>
      rw [hread] at hread'
      cases hread'
      exact ⟨_, hentry, .inr ⟨by rw [htext]; rfl, hdir, hlisted⟩⟩
  · rintro ⟨entry, hentry, htext | ⟨htext, hdir, hlisted⟩⟩
    · exact .entry hread hentry htext
    · obtain ⟨text', htext'⟩ := Option.isSome_iff_exists.mp htext
      exact .within hread hentry htext' hdir hlisted

/-- From one path `seed` fills in what it comes by. The induction is on the depth, which bounds the rank
    of the path. -/
theorem seedPath_fills : ∀ (depth : Nat) (gate : ModificationGate) (path : P), disk.rank path ≤ depth →
    Fills T disk.toDisk (Comes T disk.toDisk path) gate (seedPath T disk.toDisk depth gate path) := by
  intro depth
  induction depth using Nat.strong_induction_on with
  | _ depth ih =>
    intro gate path hdepth
    unfold seedPath
    split
    · next hfile =>
      split
      · next text htext =>
        refine (fill_fills htext).congr fun other => ?_
        simp [Comes, hfile, htext, eq_comm]
      · next htext => exact .refl (by simp [Comes, hfile, htext])
    · next hfile =>
      rw [Bool.not_eq_true] at hfile
      have hcomes : ∀ text, Comes T disk.toDisk path text ↔ Listed T disk.toDisk path text := by
        intro text
        simp [Comes, hfile]
      split
      · next hnone =>
        refine .refl fun text hcome => ?_
        rcases (hcomes text).mp hcome with ⟨hread, -, -⟩ | ⟨hread, -, -, -, -⟩ <;>
          rw [hnone] at hread <;> cases hread
      · next entries hread =>
        refine (Fills.foldl entries gate fun entry hentry gate => ?_).congr fun text =>
          (hcomes text).trans (listed_iff hread)
        split
        · next htext => exact .refl (by simp [Brings, htext])
        · next text htext =>
          have hfilled : Fills T disk.toDisk (· = text) gate (gate.fill text (disk.mtime entry.path)) :=
            fill_fills htext
          simp only
          split
          · next hdir =>
            have hless := disk.bounded _ _ hread entry hentry hdir
            cases depth with
            | zero => omega
            | succ depth =>
              have hbelow := ih depth (by omega) (gate.fill text (disk.mtime entry.path))
                (T.ofText text) (by rw [T.ofText_toStr htext]; omega)
              rw [T.ofText_toStr htext] at hbelow ⊢
              refine (hfilled.trans hbelow).congr fun other => ?_
              simp [Brings, Comes, htext, hdir, isFile_eq_false_of_isDir hdir, eq_comm]
          · next hdir =>
            refine hfilled.congr fun other => ?_
            simp [Brings, htext, hdir, eq_comm]

/-- What `seed` records: of what existed at or below its paths, the modified time. -/
theorem seed_lastSeen (paths : List String) (text : String) :
    (Existed T disk.toDisk paths text →
      (new.seed T disk paths).lastSeen text = some (disk.mtime (T.ofText text))) ∧
    (¬ Existed T disk.toDisk paths text → (new.seed T disk paths).lastSeen text = none) := by
  have hfills : Fills T disk.toDisk (Existed T disk.toDisk paths) new (new.seed T disk paths) :=
    .foldl paths new fun path _ gate =>
      seedPath_fills (disk.rank (T.ofText path)) gate (T.ofText path) le_rfl
  exact ⟨hfills.filled text rfl, hfills.missed text rfl⟩

end Bounded

/-! ### Histories -/

section History

variable {P : Type} (T : Paths P)

/-- The states of the disk at which batches were presented, with the batches. -/
abbrev Batches (P : Type) := List (Disk P × List String)

/-- The gate after some batches. -/
def after (gate : ModificationGate) (history : Batches P) : ModificationGate :=
  history.foldl (fun gate step => (gate.changed T step.1 step.2).1) gate

/-- What is routed in some batches, in order. -/
def routed : ModificationGate → Batches P → List String
  | _, [] => []
  | gate, (disk, batch) :: rest =>
    let (gate, now) := gate.changed T disk batch
    now ++ gate.routed rest

/-- What the gate observes in one batch. -/
def observations (disk : Disk P) (batch : List String) : List (String × Option Int) :=
  batch.map fun path => (path, disk.mtime (T.ofText path))

theorem present_eq (disk : Disk P) (gate : ModificationGate) (path : String) :
    gate.present T disk path
      = (gate.insert path (disk.mtime (T.ofText path)),
          Detector.reports gate.lastSeen path (disk.mtime (T.ofText path))) := by
  unfold present Detector.reports
  simp only
  split
  · next previous mtime heq =>
    rw [heq, Option.isSome_some, Bool.true_and]
    split
    · next hother => simp [hother]
    · next hsame =>
      rw [ne_eq, not_not] at hsame
      rw [hsame]
      simp
  · next heq => rw [heq]; rfl

/-- The gate is a detector of what it observes. -/
theorem changed_eq (disk : Disk P) (batch : List String) : ∀ gate : ModificationGate,
    (gate.changed T disk batch).1.lastSeen
      = Detector.remembered gate.lastSeen (observations T disk batch) ∧
    (gate.changed T disk batch).2 = Detector.reported gate.lastSeen (observations T disk batch) := by
  induction batch with
  | nil => exact fun gate => ⟨rfl, rfl⟩
  | cons path rest ih =>
    intro gate
    obtain ⟨hseen, hrouted⟩ := ih (gate.insert path (disk.mtime (T.ofText path)))
    rw [changed, present_eq]
    simp only [observations, List.map_cons] at hseen hrouted ⊢
    rw [Detector.remembered, List.foldl_cons, ← Detector.remembered, Detector.reported, hseen, hrouted]
    exact ⟨rfl, rfl⟩

theorem routed_eq (history : Batches P) : ∀ gate : ModificationGate,
    gate.routed T history = Detector.reported gate.lastSeen
      (history.flatMap fun step => observations T step.1 step.2) := by
  induction history with
  | nil => exact fun gate => rfl
  | cons step rest ih =>
    intro gate
    obtain ⟨disk, batch⟩ := step
    obtain ⟨hseen, hrouted⟩ := changed_eq T disk batch gate
    rw [routed, List.flatMap_cons, Detector.reported_append, ← hrouted, ← hseen, ← ih]

variable {T}

theorem mem_observations {disk : Disk P} {batch : List String} {path : String} :
    path ∈ (observations T disk batch).map Prod.fst ↔ path ∈ batch := by
  simp [observations]

theorem eq_of_mem_observations {disk : Disk P} {batch : List String} {path : String} :
    ∀ observation ∈ observations T disk batch, observation.1 = path →
      observation.2 = disk.mtime (T.ofText path) := by
  intro observation hmem hpath
  obtain ⟨other, -, rfl⟩ := List.mem_map.mp hmem
  rw [← hpath]

theorem changed_lastSeen (disk : Disk P) (batch : List String) (gate : ModificationGate) (path : String) :
    (gate.changed T disk batch).1.lastSeen path
      = if path ∈ batch then some (disk.mtime (T.ofText path)) else gate.lastSeen path := by
  rw [(changed_eq T disk batch gate).1, Detector.remembered_of_same _ _ eq_of_mem_observations]
  simp only [mem_observations]

theorem after_concat (gate : ModificationGate) (history : Batches P) (step : Disk P × List String) :
    gate.after T (history ++ [step]) = ((gate.after T history).changed T step.1 step.2).1 := by
  rw [after, List.foldl_append]
  rfl

/-- A gate keeps what it has seen of a path that is not presented. -/
theorem after_quiet {path : String} (history : Batches P) : ∀ gate : ModificationGate,
    (∀ step ∈ history, path ∉ step.2) → (gate.after T history).lastSeen path = gate.lastSeen path := by
  induction history with
  | nil => exact fun gate _ => rfl
  | cons step rest ih =>
    intro gate h
    rw [after, List.foldl_cons, ← after, ih _ fun later hlater => h later (List.mem_cons_of_mem _ hlater),
      changed_lastSeen, if_neg (h step List.mem_cons_self)]

variable (T)

/-- The modified time recorded of a path: at its previous presentation, or else at the seed, where it
    existed there; and nothing of a path that is newly seen. -/
inductive Recorded (disk : Disk P) (paths : List String) (history : Batches P) (path : String) :
    Option (Option Int) → Prop
  | presented {before step quiet} : history = before ++ step :: quiet → path ∈ step.2 →
      (∀ later ∈ quiet, path ∉ later.2) →
      Recorded disk paths history path (some (step.1.mtime (T.ofText path)))
  | seeded : (∀ step ∈ history, path ∉ step.2) → Existed T disk paths path →
      Recorded disk paths history path (some (disk.mtime (T.ofText path)))
  | fresh : (∀ step ∈ history, path ∉ step.2) → ¬ Existed T disk paths path →
      Recorded disk paths history path none

variable {T} {disk : BoundedDisk P} {paths : List String}

/-- A path is presented for a last time, or never. -/
theorem last_presented (path : String) (history : Batches P) :
    (∃ before step quiet, history = before ++ step :: quiet ∧ path ∈ step.2 ∧
      ∀ later ∈ quiet, path ∉ later.2) ∨ ∀ step ∈ history, path ∉ step.2 := by
  induction history with
  | nil => exact .inr (by simp)
  | cons step rest ih =>
    rcases ih with ⟨before, last, quiet, rfl, hlast, hquiet⟩ | hnever
    · exact .inl ⟨step :: before, last, quiet, rfl, hlast, hquiet⟩
    · by_cases hstep : path ∈ step.2
      · exact .inl ⟨[], step, rest, rfl, hstep, hnever⟩
      · refine .inr fun other hother => ?_
        rcases List.mem_cons.mp hother with rfl | hother
        · exact hstep
        · exact hnever other hother

theorem Recorded.lastSeen {history : Batches P} {path : String} {seen : Option (Option Int)}
    (h : Recorded T disk.toDisk paths history path seen) :
    ((new.seed T disk paths).after T history).lastSeen path = seen := by
  cases h with
  | @presented before step quiet hhistory hstep hquiet =>
    have hafter : (new.seed T disk paths).after T history
        = (((new.seed T disk paths).after T before).changed T step.1 step.2).1.after T quiet := by
      rw [hhistory, after, List.foldl_append]
      rfl
    rw [hafter, after_quiet quiet _ hquiet, changed_lastSeen, if_pos hstep]
  | seeded hnever hexisted => rw [after_quiet history _ hnever, (seed_lastSeen paths path).1 hexisted]
  | fresh hnever hfresh => rw [after_quiet history _ hnever, (seed_lastSeen paths path).2 hfresh]

theorem recorded_iff {history : Batches P} {path : String} {seen : Option (Option Int)} :
    Recorded T disk.toDisk paths history path seen
      ↔ ((new.seed T disk paths).after T history).lastSeen path = seen := by
  refine ⟨Recorded.lastSeen, ?_⟩
  rintro rfl
  rcases last_presented path history with ⟨before, step, quiet, hhistory, hstep, hquiet⟩ | hnever
  · have hrecorded : Recorded T disk.toDisk paths history path _ := .presented hhistory hstep hquiet
    rw [hrecorded.lastSeen]
    exact hrecorded
  · by_cases hexisted : Existed T disk.toDisk paths path
    · have hrecorded : Recorded T disk.toDisk paths history path _ := .seeded hnever hexisted
      rw [hrecorded.lastSeen]
      exact hrecorded
    · have hrecorded : Recorded T disk.toDisk paths history path _ := .fresh hnever hexisted
      rw [hrecorded.lastSeen]
      exact hrecorded

/-- A path is routed at a batch if it is presented, exists, and its time is not the one recorded. -/
theorem mem_changed_iff (batchDisk : Disk P) (batch : List String) (gate : ModificationGate)
    (path : String) :
    path ∈ (gate.changed T batchDisk batch).2 ↔ path ∈ batch ∧
      ∃ mtime, batchDisk.mtime (T.ofText path) = some mtime ∧ gate.lastSeen path ≠ some (some mtime) := by
  rw [(changed_eq T batchDisk batch gate).2, Detector.mem_reported_iff _ eq_of_mem_observations,
    mem_observations, and_comm]
  refine and_congr_right fun _ => ?_
  cases batchDisk.mtime (T.ofText path) with
  | none => simp [Detector.reports]
  | some mtime => simp [Detector.reports]

theorem eq_of_mem_steady {history : Batches P} {path : String} {mtime : Option Int}
    (hsteady : ∀ step ∈ history, path ∈ step.2 → step.1.mtime (T.ofText path) = mtime) :
    ∀ observation ∈ history.flatMap fun step => observations T step.1 step.2,
      observation.1 = path → observation.2 = mtime := by
  intro observation hmem hpath
  obtain ⟨step, hstep, hobserved⟩ := List.mem_flatMap.mp hmem
  have hpresented : path ∈ (observations T step.1 step.2).map Prod.fst := by
    rw [← hpath]
    exact List.mem_map_of_mem hobserved
  rw [eq_of_mem_observations observation hobserved hpath]
  exact hsteady step hstep (mem_observations.mp hpresented)

/-- After a seed, over any batches: a path is routed at a batch exactly if it is presented, exists, and its
    modified time is not the one recorded, and it is routed there once. What existed at the seed is not
    routed as long as its time stays; and as long as its time stays, whatever it was before, a path is
    routed at most once. -/
theorem routes (paths : List String) (disk : BoundedDisk P) :
    (∀ (before : Batches P) (now : Disk P) (batch : List String) (path : String),
      (path ∈ (((new.seed T disk paths).after T before).changed T now batch).2 ↔
        path ∈ batch ∧ ∃ mtime, now.mtime (T.ofText path) = some mtime ∧
          ¬ Recorded T disk.toDisk paths before path (some (some mtime))) ∧
      (((new.seed T disk paths).after T before).changed T now batch).2.count path ≤ 1) ∧
    (∀ (history : Batches P) (path : String) (mtime : Int), Existed T disk.toDisk paths path →
      disk.mtime (T.ofText path) = some mtime →
      (∀ step ∈ history, path ∈ step.2 → step.1.mtime (T.ofText path) = some mtime) →
      path ∉ (new.seed T disk paths).routed T history) ∧
    ∀ (before during : Batches P) (path : String) (mtime : Option Int),
      (∀ step ∈ during, path ∈ step.2 → step.1.mtime (T.ofText path) = mtime) →
      (((new.seed T disk paths).after T before).routed T during).count path ≤ 1 := by
  refine ⟨fun before now batch path => ⟨?_, ?_⟩, fun history path mtime hexisted hmtime hsteady => ?_,
    fun before during path mtime hsteady => ?_⟩
  · rw [mem_changed_iff]
    simp only [recorded_iff, ne_eq]
  · rw [(changed_eq T now batch _).2]
    exact Detector.count_reported_le_one _ eq_of_mem_observations
  · rw [routed_eq, Detector.mem_reported_iff _ (eq_of_mem_steady hsteady)]
    rintro ⟨hreports, -⟩
    rw [Detector.reports, (seed_lastSeen paths path).1 hexisted, hmtime] at hreports
    simp at hreports
  · rw [routed_eq]
    exact Detector.count_reported_le_one _ (eq_of_mem_steady hsteady)

end History

end ModificationGate

/-- A directory with one file in it, last modified then. -/
def oneFile (modified : Int) : BoundedDisk String where
  metadata path :=
    if path = "/w" then some ⟨.dir, 0⟩ else if path = "/w/a" then some ⟨.file, modified⟩ else none
  readDir path := if path = "/w" then some [⟨"/w/a", .other, false⟩] else none
  depth _ := 0
  rank _ := 0
  finite := by
    intro dir entries h entry hentry htype
    split at h
    · cases h
      cases List.mem_singleton.mp hentry
      cases htype
    · cases h
  bounded := by
    intro dir entries h entry hentry hdir
    split at h
    · cases h
      cases List.mem_singleton.mp hentry
      cases hdir
    · cases h

/-- A file that nothing wrote since the seed is not routed, told twice; written once it is routed once. -/
theorem ModificationGate.routes_at_one_file :
    let gate := new.seed textPaths (oneFile 0) ["/w"]
    "/w/a" ∉ gate.routed textPaths [((oneFile 0).toDisk, ["/w/a"]), ((oneFile 0).toDisk, ["/w/a"])] ∧
      "/w/a" ∈ (gate.changed textPaths (oneFile 1).toDisk ["/w/a"]).2 ∧
      (gate.routed textPaths
        [((oneFile 1).toDisk, ["/w/a"]), ((oneFile 1).toDisk, ["/w/a"])]).count "/w/a" ≤ 1 := by
  intro gate
  obtain ⟨hroutes, hquiet, honce⟩ := routes (T := textPaths) ["/w"] (oneFile 0)
  have hexisted : Existed textPaths (oneFile 0).toDisk ["/w"] "/w/a" :=
    ⟨"/w", by simp, .inr ⟨rfl, .entry rfl (List.mem_singleton.mpr rfl) rfl⟩⟩
  have hsteady : ∀ modified, ∀ step ∈ [((oneFile modified).toDisk, ["/w/a"]),
      ((oneFile modified).toDisk, ["/w/a"])], "/w/a" ∈ step.2 → step.1.mtime "/w/a" = some modified := by
    intro modified step hstep _
    simp only [List.mem_cons, List.not_mem_nil, or_false, or_self] at hstep
    rw [hstep]
    rfl
  refine ⟨hquiet _ _ 0 hexisted rfl (hsteady 0), ?_, honce [] _ _ (some 1) (hsteady 1)⟩
  refine (hroutes [] (oneFile 1).toDisk ["/w/a"] "/w/a").1.mpr ⟨List.mem_singleton.mpr rfl, 1, rfl, ?_⟩
  rw [recorded_iff]
  decide +kernel

end Funzzy
