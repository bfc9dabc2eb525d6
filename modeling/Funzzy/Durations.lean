import Mathlib.Algebra.Order.Ring.Int
import Mathlib.Data.String.Basic
import Funzzy.Lib.SortedMap
import Funzzy.Observers

/-! Run durations: the bounded history of `duration_history.rs` and its store, `duration_store.rs`.

    A history keeps, for each execution signature, the newest durations of its passed and of its failed
    runs, and counts the runs that ended otherwise. Recording keeps twenty samples of a kind; a stored
    document is rebuilt profile by profile, where each profile is checked against the same bound on its
    own. The file's bytes are decoded by a parameter, which stands for the JSON reader. -/

namespace Funzzy

/-! ### The history -/

/-- `SUCCESS_RETENTION` -/
def successRetention : Nat := 20

structure Profile where
  successes : List Nat
  failures : List Nat
  cancelled : Nat
  superseded : Nat
  timedOut : Nat
  deriving DecidableEq

/-- `Profile::default` -/
def Profile.fresh : Profile := ⟨[], [], 0, 0, 0⟩

structure ProfileSnapshot where
  signature : String
  successes : List Nat
  failures : List Nat
  cancelled : Nat
  superseded : Nat
  timedOut : Nat
  deriving DecidableEq

structure DurationHistory where
  profiles : SortedMap String Profile
  deriving DecidableEq

namespace DurationHistory

def new : DurationHistory := ⟨SortedMap.empty⟩

/-- `entry(signature).or_default()`, then a change of the profile. -/
def entry (history : DurationHistory) (signature : String) (change : Profile → Profile) :
    DurationHistory :=
  ⟨history.profiles.alter signature fun found => change (found.getD Profile.fresh)⟩

/-- `push_back`, then `pop_front` beyond the retention. -/
def pushBounded (samples : List Nat) (durationMs : Nat) : List Nat :=
  if successRetention < (samples ++ [durationMs]).length then (samples ++ [durationMs]).tail
  else samples ++ [durationMs]

def recordSuccess (history : DurationHistory) (signature : String) (durationMs : Nat) :
    DurationHistory :=
  history.entry signature fun profile =>
    { profile with successes := pushBounded profile.successes durationMs }

def recordFailure (history : DurationHistory) (signature : String) (durationMs : Nat) :
    DurationHistory :=
  history.entry signature fun profile =>
    { profile with failures := pushBounded profile.failures durationMs }

def recordExcluded (history : DurationHistory) (signature : String) (kind : ExcludedKind) :
    DurationHistory :=
  history.entry signature fun profile =>
    match kind with
    | .cancelled => { profile with cancelled := profile.cancelled + 1 }
    | .superseded => { profile with superseded := profile.superseded + 1 }
    | .timedOut => { profile with timedOut := profile.timedOut + 1 }

/-- One call of the recorder, for a signature. -/
def recording (history : DurationHistory) (call : String × Sample) : DurationHistory :=
  match call.2 with
  | .success durationMs => history.recordSuccess call.1 durationMs
  | .failure durationMs => history.recordFailure call.1 durationMs
  | .excluded kind => history.recordExcluded call.1 kind

def snapshot (history : DurationHistory) : List ProfileSnapshot :=
  history.profiles.entries.map fun (signature, profile) =>
    ⟨signature, profile.successes, profile.failures, profile.cancelled, profile.superseded,
      profile.timedOut⟩

/-- A stored profile added to what its signature already has: the samples join, the counts replace. -/
def absorb (stored : ProfileSnapshot) (profile : Profile) : Profile :=
  ⟨profile.successes ++ stored.successes, profile.failures ++ stored.failures, stored.cancelled,
    stored.superseded, stored.timedOut⟩

/-- The loop of `from_snapshot`. -/
def restore : DurationHistory → List ProfileSnapshot → Except String DurationHistory
  | history, [] => .ok history
  | history, stored :: rest =>
    if successRetention < stored.successes.length ∨ successRetention < stored.failures.length then
      .error ("profile '" ++ stored.signature ++ "' exceeds retention bound ("
        ++ toString successRetention ++ " samples)")
    else
      restore (history.entry stored.signature (absorb stored)) rest

def fromSnapshot (snapshots : List ProfileSnapshot) : Except String DurationHistory :=
  restore new snapshots

end DurationHistory

/-! ### Estimates -/

/-- `DEFAULT_FLOOR_MS` -/
def defaultFloorMs : Nat := 10000

/-- `SAFETY_MARGIN_ADDEND_MS` -/
def safetyMarginAddendMs : Nat := 2000

/-- `ABSOLUTE_CAP_MS` -/
def absoluteCapMs : Nat := 15 * 60000

inductive EstimateConfidence where | none | low | medium | high
  deriving DecidableEq

inductive EstimateSource where | measured | configured
  deriving DecidableEq

structure RunEstimate where
  typicalMs : Nat
  upperMs : Nat
  recommendedTimeoutMs : Nat
  samples : Nat
  confidence : EstimateConfidence
  source : EstimateSource
  deriving DecidableEq

/-- `u64::saturating_add` -/
def saturatingAdd (a b : Nat) : Nat := min (a + b) (2 ^ 64 - 1)

def median (sorted : List Nat) : Nat :=
  if sorted.length = 0 then 0
  else if sorted.length % 2 = 1 then sorted.getD (sorted.length / 2) 0
  else min ((sorted.getD (sorted.length / 2 - 1) 0 + sorted.getD (sorted.length / 2) 0) / 2) (2 ^ 64 - 1)

def nearestRankP90 (sorted : List Nat) : Nat :=
  if sorted.length = 0 then 0 else sorted.getD ((sorted.length * 9 + 9) / 10 - 1) 0

def recommendTimeout (upperMs : Nat) (configuredFloorMs : Option Nat) : Nat :=
  let margin := saturatingAdd (saturatingAdd upperMs (upperMs / 2)) safetyMarginAddendMs
  let floor := max (configuredFloorMs.getD 0) defaultFloorMs
  min (max margin floor) absoluteCapMs

def confidence (samples : Nat) : EstimateConfidence :=
  if samples = 0 then .none else if samples ≤ 2 then .low else if samples ≤ 9 then .medium else .high

namespace DurationHistory

def estimate (history : DurationHistory) (signature : String) (configuredFloorMs : Option Nat) :
    Option RunEstimate :=
  match history.profiles.get? signature with
  | none => none
  | some profile =>
    if profile.successes = [] then none
    else
      let sorted := profile.successes.insertionSort (· ≤ ·)
      some
        { typicalMs := median sorted
          upperMs := nearestRankP90 sorted
          recommendedTimeoutMs := recommendTimeout (nearestRankP90 sorted) configuredFloorMs
          samples := sorted.length
          confidence := Funzzy.confidence sorted.length
          source := .measured }

/-! ### What recording keeps -/

/-- No profile holds more samples of a kind than recording retains. -/
def Bounded (history : DurationHistory) : Prop :=
  ∀ signature profile, history.profiles.get? signature = some profile →
    profile.successes.length ≤ successRetention ∧ profile.failures.length ≤ successRetention

theorem bounded_new : Bounded new := by
  intro signature profile h
  cases h

@[simp] theorem get?_entry (history : DurationHistory) (signature : String)
    (change : Profile → Profile) (other : String) :
    (history.entry signature change).profiles.get? other
      = if other = signature then some (change ((history.profiles.get? signature).getD Profile.fresh))
        else history.profiles.get? other :=
  SortedMap.get?_alter ..

theorem length_pushBounded (samples : List Nat) (durationMs : Nat)
    (h : samples.length ≤ successRetention) :
    (pushBounded samples durationMs).length ≤ successRetention := by
  unfold pushBounded
  split
  · rw [List.length_tail, List.length_append, List.length_singleton]
    omega
  · next hle => exact not_lt.mp hle

/-- A change that keeps a profile within the retention keeps the history so. -/
theorem Bounded.entry {history : DurationHistory} (h : Bounded history) (signature : String)
    {change : Profile → Profile}
    (hchange : ∀ profile : Profile, profile.successes.length ≤ successRetention →
      profile.failures.length ≤ successRetention →
      (change profile).successes.length ≤ successRetention
        ∧ (change profile).failures.length ≤ successRetention) :
    Bounded (history.entry signature change) := by
  intro other profile hget
  rw [get?_entry] at hget
  split at hget
  · cases hget
    cases hfound : history.profiles.get? signature with
    | none => exact hchange Profile.fresh (Nat.zero_le _) (Nat.zero_le _)
    | some found => exact hchange found (h signature found hfound).1 (h signature found hfound).2
  · exact h other profile hget

/-- Step lemma: every recording operation keeps the bound. -/
theorem Bounded.recording {history : DurationHistory} (h : Bounded history)
    (call : String × Sample) : Bounded (history.recording call) := by
  obtain ⟨signature, sample⟩ := call
  cases sample with
  | success durationMs =>
    exact h.entry signature fun profile hs hf => ⟨length_pushBounded _ _ hs, hf⟩
  | failure durationMs =>
    exact h.entry signature fun profile hs hf => ⟨hs, length_pushBounded _ _ hf⟩
  | excluded kind =>
    refine h.entry signature fun profile hs hf => ?_
    cases kind <;> exact ⟨hs, hf⟩

/-- Run lemma: so does every run of them. -/
theorem Bounded.recordings {history : DurationHistory} (h : Bounded history)
    (calls : List (String × Sample)) : Bounded (calls.foldl DurationHistory.recording history) := by
  induction calls generalizing history with
  | nil => exact h
  | cons call calls ih => exact ih (h.recording call)

/-! ### What restoring yields -/

/-- The profile of a signature, fresh if it has none. -/
def profile (history : DurationHistory) (signature : String) : Profile :=
  (history.profiles.get? signature).getD Profile.fresh

/-- The stored profiles of one signature. -/
def storedFor (snapshots : List ProfileSnapshot) (signature : String) : List ProfileSnapshot :=
  snapshots.filter fun stored => stored.signature = signature

theorem profile_entry (history : DurationHistory) (signature : String) (change : Profile → Profile)
    (other : String) :
    (history.entry signature change).profile other
      = if signature = other then change (history.profile other) else history.profile other := by
  unfold profile
  rw [get?_entry]
  by_cases h : other = signature
  · rw [if_pos h, if_pos h.symm, h]
    rfl
  · rw [if_neg h, if_neg (Ne.symm h)]

theorem storedFor_cons (stored : ProfileSnapshot) (rest : List ProfileSnapshot) (signature : String) :
    storedFor (stored :: rest) signature
      = if stored.signature = signature then stored :: storedFor rest signature
        else storedFor rest signature := by
  unfold storedFor
  rw [List.filter_cons]
  simp only [decide_eq_true_eq]

/-- A restored history folds the stored profiles of each signature, in the order of the document,
    into what it started from. -/
theorem restore_profile (snapshots : List ProfileSnapshot) :
    ∀ {history restored : DurationHistory}, restore history snapshots = .ok restored →
      ∀ signature, restored.profile signature
        = (storedFor snapshots signature).foldl (fun profile stored => absorb stored profile)
            (history.profile signature) := by
  induction snapshots with
  | nil =>
    intro history restored h signature
    cases h
    rfl
  | cons stored rest ih =>
    intro history restored h signature
    rw [restore] at h
    split at h
    · cases h
    · rw [ih h signature, profile_entry, storedFor_cons]
      split <;> rfl

/-- A signature has a profile afterwards exactly if it had one before or the document has one. -/
theorem restore_isSome (snapshots : List ProfileSnapshot) :
    ∀ {history restored : DurationHistory}, restore history snapshots = .ok restored →
      ∀ signature, (restored.profiles.get? signature).isSome
        ↔ (history.profiles.get? signature).isSome ∨ storedFor snapshots signature ≠ [] := by
  induction snapshots with
  | nil =>
    intro history restored h signature
    cases h
    simp [storedFor]
  | cons stored rest ih =>
    intro history restored h signature
    rw [restore] at h
    split at h
    · cases h
    · rw [ih h signature, get?_entry, storedFor_cons]
      by_cases hsig : signature = stored.signature
      · simp [hsig]
      · simp [hsig, Ne.symm hsig]

/-- The document is taken when each of its profiles is within the retention by itself. -/
theorem restore_ok (snapshots : List ProfileSnapshot)
    (h : ∀ stored ∈ snapshots, stored.successes.length ≤ successRetention
      ∧ stored.failures.length ≤ successRetention) :
    ∀ history, ∃ restored, restore history snapshots = .ok restored := by
  induction snapshots with
  | nil => exact fun history => ⟨history, rfl⟩
  | cons stored rest ih =>
    intro history
    have hhead := h stored List.mem_cons_self
    rw [restore, if_neg (by omega)]
    exact ih (fun other hother => h other (List.mem_cons_of_mem _ hother)) _

/-! ### The round trip -/

theorem bounded_iff_profile (history : DurationHistory) :
    Bounded history ↔ ∀ signature,
      (history.profile signature).successes.length ≤ successRetention
        ∧ (history.profile signature).failures.length ≤ successRetention := by
  constructor
  · intro h signature
    unfold profile
    cases hget : history.profiles.get? signature with
    | none => exact ⟨Nat.zero_le _, Nat.zero_le _⟩
    | some found => exact h signature found hget
  · intro h signature found hget
    have := h signature
    rwa [profile, hget] at this

theorem storedFor_snapshot (history : DurationHistory) (signature : String) :
    storedFor history.snapshot signature
      = ((history.profiles.get? signature).map fun profile => (⟨signature, profile.successes,
          profile.failures, profile.cancelled, profile.superseded, profile.timedOut⟩
          : ProfileSnapshot)).toList := by
  have hfilter := history.profiles.filter_key signature
  unfold storedFor snapshot
  rw [List.filter_map]
  change List.map _ (history.profiles.entries.filter fun entry => entry.1 = signature) = _
  rw [hfilter]
  cases history.profiles.get? signature <;> rfl

/-- What is snapshot is restored: a bounded history comes back as it was. -/
theorem fromSnapshot_snapshot {history : DurationHistory} (h : Bounded history) :
    fromSnapshot history.snapshot = .ok history := by
  have hfits : ∀ stored ∈ history.snapshot, stored.successes.length ≤ successRetention
      ∧ stored.failures.length ≤ successRetention := by
    intro stored hstored
    obtain ⟨⟨signature, found⟩, hmem, rfl⟩ := List.mem_map.mp hstored
    exact h signature found ((SortedMap.get?_eq_some_iff ..).mpr hmem)
  obtain ⟨restored, hrestored⟩ := restore_ok history.snapshot hfits new
  have hget : ∀ signature, restored.profiles.get? signature = history.profiles.get? signature := by
    intro signature
    have hprofile := restore_profile history.snapshot hrestored signature
    have hsome := restore_isSome history.snapshot hrestored signature
    rw [storedFor_snapshot] at hprofile hsome
    cases hfound : history.profiles.get? signature with
    | none =>
      rw [hfound] at hsome
      cases hnew : restored.profiles.get? signature with
      | none => rfl
      | some other => simp [hnew, new] at hsome
    | some found =>
      rw [hfound] at hsome hprofile
      cases hnew : restored.profiles.get? signature with
      | none => simp [hnew] at hsome
      | some other =>
        rw [profile, hnew] at hprofile
        exact congrArg some hprofile
  rw [fromSnapshot, hrestored]
  cases history
  cases restored
  exact congrArg (Except.ok ∘ DurationHistory.mk) (SortedMap.ext_get? hget)

/-! ### The samples of a document -/

theorem foldl_absorb_length (snapshots : List ProfileSnapshot) :
    ∀ profile : Profile,
      (snapshots.foldl (fun profile stored => absorb stored profile) profile).successes.length
          = profile.successes.length + (snapshots.map fun stored => stored.successes.length).sum
        ∧ (snapshots.foldl (fun profile stored => absorb stored profile) profile).failures.length
          = profile.failures.length + (snapshots.map fun stored => stored.failures.length).sum := by
  induction snapshots with
  | nil => exact fun _ => ⟨rfl, rfl⟩
  | cons stored rest ih =>
    intro profile
    obtain ⟨hsuccesses, hfailures⟩ := ih (absorb stored profile)
    rw [List.foldl_cons, hsuccesses, hfailures]
    simp only [absorb, List.length_append, List.map_cons, List.sum_cons]
    omega

/-- Together, the stored profiles of each signature stay within the retention. -/
def Combined (snapshots : List ProfileSnapshot) : Prop :=
  ∀ stored ∈ snapshots,
    ((storedFor snapshots stored.signature).map fun same => same.successes.length).sum
        ≤ successRetention
      ∧ ((storedFor snapshots stored.signature).map fun same => same.failures.length).sum
        ≤ successRetention

instance (snapshots : List ProfileSnapshot) : Decidable (Combined snapshots) :=
  inferInstanceAs (Decidable (∀ stored ∈ snapshots, _))

/-- A restored document is bounded exactly if its profiles are together, signature by signature. -/
theorem fromSnapshot_bounded_iff {snapshots : List ProfileSnapshot} {restored : DurationHistory}
    (h : fromSnapshot snapshots = .ok restored) : Bounded restored ↔ Combined snapshots := by
  have hsamples : ∀ signature,
      (restored.profile signature).successes.length
          = ((storedFor snapshots signature).map fun same => same.successes.length).sum
        ∧ (restored.profile signature).failures.length
          = ((storedFor snapshots signature).map fun same => same.failures.length).sum := by
    intro signature
    obtain ⟨hsuccesses, hfailures⟩ :=
      foldl_absorb_length (storedFor snapshots signature) (new.profile signature)
    rw [restore_profile snapshots h signature, hsuccesses, hfailures]
    exact ⟨Nat.zero_add _, Nat.zero_add _⟩
  rw [bounded_iff_profile]
  constructor
  · intro hbound stored _
    obtain ⟨hsuccesses, hfailures⟩ := hsamples stored.signature
    rw [← hsuccesses, ← hfailures]
    exact hbound stored.signature
  · intro hcombined signature
    obtain ⟨hsuccesses, hfailures⟩ := hsamples signature
    rw [hsuccesses, hfailures]
    cases hstored : storedFor snapshots signature with
    | nil => exact ⟨Nat.zero_le _, Nat.zero_le _⟩
    | cons stored rest =>
      have hmem : stored ∈ storedFor snapshots signature := hstored ▸ List.mem_cons_self
      obtain ⟨hin, hsignature⟩ := List.mem_filter.mp hmem
      have := hcombined stored hin
      rwa [of_decide_eq_true hsignature, hstored] at this

end DurationHistory

/-! ### The store -/

/-- `STATE_SCHEMA_VERSION` -/
def stateSchemaVersion : Nat := 1

/-- `MAX_PROFILES` -/
def maxProfiles : Nat := 10000

/-- `MAX_STATE_BYTES` -/
def maxStateBytes : Nat := 64 * 1024 * 1024

structure StoredProfile where
  signature : String
  successes : List Nat
  failures : List Nat
  cancelled : Nat
  superseded : Nat
  timedOut : Nat
  deriving DecidableEq

structure StoredState where
  schema : Nat
  profiles : List StoredProfile
  deriving DecidableEq

def StoredProfile.snapshot (profile : StoredProfile) : ProfileSnapshot :=
  ⟨profile.signature, profile.successes, profile.failures, profile.cancelled, profile.superseded,
    profile.timedOut⟩

def ProfileSnapshot.stored (snapshot : ProfileSnapshot) : StoredProfile :=
  ⟨snapshot.signature, snapshot.successes, snapshot.failures, snapshot.cancelled,
    snapshot.superseded, snapshot.timedOut⟩

structure LoadOutcome where
  history : DurationHistory
  warning : Option String
  deriving DecidableEq

namespace DurationStore

/-- What reading the state file can answer. -/
inductive FileRead where
  | notFound
  | failed (error : String)
  | bytes (content : List UInt8)

/-- An empty history with a warning; the diagnostic goes out as the file is moved aside. -/
def quarantined (diagnostic warning : String) : LoadOutcome × Option String :=
  (⟨DurationHistory.new, some warning⟩, some diagnostic)

/-- `load`, with the diagnostic of a quarantine if there was one. `decode` is the JSON reader. -/
def load (decode : List UInt8 → Except String StoredState) (path : String) :
    FileRead → LoadOutcome × Option String
  | .notFound => (⟨DurationHistory.new, none⟩, none)
  | .failed error =>
    (⟨DurationHistory.new, some ("funzzy: cannot read duration history '" ++ path ++ "': " ++ error
      ++ "; starting empty")⟩, none)
  | .bytes content =>
    if maxStateBytes < content.length then
      quarantined ("duration history '" ++ path ++ "' exceeds " ++ toString maxStateBytes
        ++ " bytes; quarantined and starting empty") "duration history oversized; recovered empty"
    else match decode content with
    | .error error =>
      quarantined ("duration history '" ++ path ++ "' is corrupt (" ++ error
        ++ "); quarantined and starting empty") "duration history corrupt; recovered empty"
    | .ok stored =>
      if stored.schema ≠ stateSchemaVersion then
        quarantined ("duration history '" ++ path ++ "' has schema version " ++ toString stored.schema
            ++ " (expected " ++ toString stateSchemaVersion ++ "); quarantined and starting empty")
          ("duration history schema version " ++ toString stored.schema
            ++ " unsupported; recovered empty")
      else if maxProfiles < stored.profiles.length then
        quarantined ("duration history '" ++ path ++ "' has " ++ toString stored.profiles.length
            ++ " profiles (limit " ++ toString maxProfiles ++ "); quarantined and starting empty")
          "duration history profile count exceeds bound; recovered empty"
      else match DurationHistory.fromSnapshot (stored.profiles.map StoredProfile.snapshot) with
      | .ok history => (⟨history, none⟩, none)
      | .error error =>
        quarantined ("duration history '" ++ path ++ "' violates retention bounds (" ++ error
            ++ "); quarantined and starting empty")
          "duration history violates retention bounds; recovered empty"

/-- The document `save` writes, or its refusal. -/
def saved (history : DurationHistory) : Except String StoredState :=
  if maxProfiles < history.snapshot.length then
    .error ("refusing to persist " ++ toString history.snapshot.length ++ " profiles (limit "
      ++ toString maxProfiles ++ ")")
  else
    .ok ⟨stateSchemaVersion, history.snapshot.map ProfileSnapshot.stored⟩

/-- The store accepts a document if it loads it without a warning. -/
def Accepts (decode : List UInt8 → Except String StoredState) (path : String)
    (content : List UInt8) (stored : StoredState) : Prop :=
  decode content = .ok stored ∧ (load decode path (.bytes content)).1.warning = none

/-- An accepted document has the schema and at most the profiles the store takes, and what is loaded is
    what its profiles restore to. -/
theorem Accepts.restored {decode : List UInt8 → Except String StoredState} {path : String}
    {content : List UInt8} {stored : StoredState} (h : Accepts decode path content stored) :
    stored.schema = stateSchemaVersion ∧ stored.profiles.length ≤ maxProfiles
      ∧ DurationHistory.fromSnapshot (stored.profiles.map StoredProfile.snapshot)
        = .ok (load decode path (.bytes content)).1.history := by
  obtain ⟨hdecode, hwarning⟩ := h
  unfold load at hwarning ⊢
  dsimp only at hwarning ⊢
  rw [hdecode] at hwarning ⊢
  dsimp only at hwarning ⊢
  split at hwarning
  · cases hwarning
  split at hwarning
  · cases hwarning
  split at hwarning
  · cases hwarning
  next hsize hschema hprofiles =>
  rw [if_neg hsize, if_neg hschema, if_neg hprofiles]
  refine ⟨not_not.mp hschema, not_lt.mp hprofiles, ?_⟩
  split at hwarning
  · next history hrestored => rw [hrestored]
  · cases hwarning

/-- Through a faithful encoding, what is saved is loaded: the same history, and no warning. -/
theorem load_saved {decode : List UInt8 → Except String StoredState} {history : DurationHistory}
    {stored : StoredState} {content : List UInt8} (path : String)
    (hbounded : history.Bounded) (hsaved : saved history = .ok stored)
    (hdecode : decode content = .ok stored) (hsize : content.length ≤ maxStateBytes) :
    load decode path (.bytes content) = (⟨history, none⟩, none) := by
  unfold saved at hsaved
  split at hsaved
  · cases hsaved
  next hprofiles =>
  cases hsaved
  have hback : (history.snapshot.map ProfileSnapshot.stored).map StoredProfile.snapshot
      = history.snapshot := by
    rw [List.map_map]
    exact List.map_id _
  have hlength : ¬maxProfiles < (history.snapshot.map ProfileSnapshot.stored).length := by
    rwa [List.length_map]
  unfold load
  dsimp only
  rw [if_neg (not_lt.mpr hsize), hdecode]
  dsimp only
  rw [if_neg (not_not.mpr rfl), if_neg hlength, hback,
    DurationHistory.fromSnapshot_snapshot hbounded]

/-- Recorded histories survive the round trip, whatever was recorded; and an accepted document loads to
    a history within the retention, and stays there through every later recording, exactly if the
    profiles of each signature are within it together. -/
theorem persistence_iff (decode : List UInt8 → Except String StoredState) (path : String)
    (content : List UInt8) (stored : StoredState) (haccepts : Accepts decode path content stored) :
    ((∀ calls : List (String × Sample), DurationHistory.fromSnapshot
          (calls.foldl DurationHistory.recording DurationHistory.new).snapshot
        = .ok (calls.foldl DurationHistory.recording DurationHistory.new))
      ∧ ∀ calls : List (String × Sample), (calls.foldl DurationHistory.recording
          (load decode path (.bytes content)).1.history).Bounded)
    ↔ DurationHistory.Combined (stored.profiles.map StoredProfile.snapshot) := by
  obtain ⟨-, -, hrestored⟩ := haccepts.restored
  constructor
  · rintro ⟨-, hbounded⟩
    exact (DurationHistory.fromSnapshot_bounded_iff hrestored).mp (hbounded [])
  · intro hcombined
    refine ⟨fun calls => ?_, fun calls => ?_⟩
    · exact DurationHistory.fromSnapshot_snapshot (DurationHistory.bounded_new.recordings calls)
    · exact ((DurationHistory.fromSnapshot_bounded_iff hrestored).mpr hcombined).recordings calls

/-- A reader that knows one file. -/
def readsOne (file : String) (stored : StoredState) (content : List UInt8) :
    Except String StoredState :=
  if content = file.toByteArray.data.toList then .ok stored
  else .error "expected value at line 1 column 1"

/-- A document of the store's schema is accepted if its profiles are few and can be restored. -/
theorem accepts_readsOne {file : String} {stored : StoredState} (path : String)
    (hsize : file.toByteArray.data.toList.length ≤ maxStateBytes)
    (hschema : stored.schema = stateSchemaVersion) (hprofiles : stored.profiles.length ≤ maxProfiles)
    (hfits : ∀ profile ∈ stored.profiles.map StoredProfile.snapshot,
      profile.successes.length ≤ successRetention ∧ profile.failures.length ≤ successRetention) :
    Accepts (readsOne file stored) path file.toByteArray.data.toList stored := by
  have hdecode : readsOne file stored file.toByteArray.data.toList = .ok stored := if_pos rfl
  obtain ⟨history, hrestored⟩ := DurationHistory.restore_ok _ hfits DurationHistory.new
  refine ⟨hdecode, ?_⟩
  unfold load
  dsimp only
  rw [if_neg (not_lt.mpr hsize), hdecode]
  dsimp only
  rw [if_neg (not_not.mpr hschema), if_neg (not_lt.mpr hprofiles), DurationHistory.fromSnapshot,
    hrestored]

/-- A file with one profile of twenty samples. -/
def singleFile : String :=
  "\x7b\"schema\":1,\"profiles\":[\x7b\"signature\":\"s\",\"successes\":"
    ++ "[5,5,5,5,5,5,5,5,5,5,5,5,5,5,5,5,5,5,5,5],\"failures\":[],\"cancelled\":0,"
    ++ "\"superseded\":0,\"timed_out\":0\x7d]\x7d"

def singleDocument : StoredState := ⟨1, [⟨"s", List.replicate 20 5, [], 0, 0, 0⟩]⟩

theorem persistence_single :
    Accepts (readsOne singleFile singleDocument) "s.json" singleFile.toByteArray.data.toList
        singleDocument
      ∧ DurationHistory.Combined (singleDocument.profiles.map StoredProfile.snapshot)
      ∧ ∀ calls : List (String × Sample), (calls.foldl DurationHistory.recording
          (load (readsOne singleFile singleDocument) "s.json"
            (.bytes singleFile.toByteArray.data.toList)).1.history).Bounded := by
  have haccepts : Accepts (readsOne singleFile singleDocument) "s.json" _ singleDocument :=
    accepts_readsOne "s.json" (by decide +kernel) rfl (by decide) (by decide)
  have hcombined : DurationHistory.Combined (singleDocument.profiles.map StoredProfile.snapshot) := by
    decide
  exact ⟨haccepts, hcombined, ((persistence_iff _ _ _ _ haccepts).mpr hcombined).2⟩

/-- The same profile, and one more sample in a second profile of the same signature. -/
def repeatedFile : String :=
  "\x7b\"schema\":1,\"profiles\":[\x7b\"signature\":\"s\",\"successes\":"
    ++ "[5,5,5,5,5,5,5,5,5,5,5,5,5,5,5,5,5,5,5,5],\"failures\":[],\"cancelled\":0,"
    ++ "\"superseded\":0,\"timed_out\":0\x7d,\x7b\"signature\":\"s\",\"successes\":[5],"
    ++ "\"failures\":[],\"cancelled\":0,\"superseded\":0,\"timed_out\":0\x7d]\x7d"

def repeatedDocument : StoredState :=
  ⟨1, [⟨"s", List.replicate 20 5, [], 0, 0, 0⟩, ⟨"s", [5], [], 0, 0, 0⟩]⟩

/-- A signature that stands twice in a document is loaded with more samples than recording retains. -/
theorem repeated_signature_exceeds :
    Accepts (readsOne repeatedFile repeatedDocument) "s.json" repeatedFile.toByteArray.data.toList
        repeatedDocument
      ∧ ¬(load (readsOne repeatedFile repeatedDocument) "s.json"
          (.bytes repeatedFile.toByteArray.data.toList)).1.history.Bounded := by
  have haccepts : Accepts (readsOne repeatedFile repeatedDocument) "s.json" _ repeatedDocument :=
    accepts_readsOne "s.json" (by decide +kernel) rfl (by decide) (by decide)
  refine ⟨haccepts, fun hbounded => ?_⟩
  obtain ⟨-, -, hrestored⟩ := haccepts.restored
  have := (DurationHistory.fromSnapshot_bounded_iff hrestored).mp hbounded
  revert this
  decide

end DurationStore

end Funzzy
