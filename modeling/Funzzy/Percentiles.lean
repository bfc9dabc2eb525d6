import Funzzy.Durations
import Funzzy.Lib.Ranks

/-! The estimate of a run's duration (`estimate` of `duration_history.rs`): its bounds, and what it depends on.

    Everything is read off the sorted samples: the middle, and the rank of nine in ten. The checked form
    of the estimate has the machine's operations, each of which fails where it would overflow. -/

namespace Funzzy

open Ranks

/-! ### Values of the sorted samples -/

/-- The value at a place of the sorted samples. -/
def valueAt (samples : List Nat) (i : Nat) : Nat := (sorted samples).getD i 0

/-- The place of the rank of nine in ten, counted from zero. -/
def p90Index (n : Nat) : Nat := (n * 9 + 9) / 10 - 1

theorem p90Index_lt {n : Nat} (hn : 0 < n) : p90Index n < n := by
  rw [p90Index]
  omega

theorem half_le_p90Index (n : Nat) : n / 2 ≤ p90Index n := by
  rw [p90Index]
  omega

section Sample

variable {samples others : List Nat}

theorem valueAt_eq {i : Nat} (hi : i < samples.length) :
    ∃ hi' : i < (sorted samples).length, valueAt samples i = (sorted samples)[i] := by
  have hi' : i < (sorted samples).length := by rwa [length_sorted]
  refine ⟨hi', ?_⟩
  rw [valueAt, List.getD, List.getElem?_eq_getElem hi']
  rfl

theorem valueAt_mem {i : Nat} (hi : i < samples.length) : valueAt samples i ∈ samples := by
  obtain ⟨hi', heq⟩ := valueAt_eq hi
  rw [heq, ← mem_sorted]
  exact List.getElem_mem hi'

theorem valueAt_le {i j : Nat} (hij : i ≤ j) (hj : j < samples.length) :
    valueAt samples i ≤ valueAt samples j := by
  obtain ⟨hi', hi⟩ := valueAt_eq (hij.trans_lt hj)
  obtain ⟨hj', hj⟩ := valueAt_eq hj
  rw [hi, hj]
  exact getElem_le_getElem (sorted_pairwise samples) hij hj'

theorem exists_valueAt {sample : Nat} (h : sample ∈ samples) :
    ∃ i < samples.length, valueAt samples i = sample := by
  obtain ⟨i, hi, heq⟩ := List.getElem_of_mem (mem_sorted.mpr h)
  rw [length_sorted] at hi
  obtain ⟨_, hvalue⟩ := valueAt_eq hi
  exact ⟨i, hi, hvalue.trans heq⟩

theorem valueAt_mono (h : List.Forall₂ (· ≤ ·) samples others) {i : Nat} (hi : i < samples.length) :
    valueAt samples i ≤ valueAt others i := by
  obtain ⟨hi', heq⟩ := valueAt_eq hi
  obtain ⟨hi'', heq'⟩ := valueAt_eq (h.length_eq ▸ hi : i < others.length)
  rw [heq, heq']
  exact sorted_mono h hi' hi''

/-! ### The middle and the upper value -/

theorem median_sorted (hsome : 0 < samples.length) : median (sorted samples) =
    if samples.length % 2 = 1 then valueAt samples (samples.length / 2)
    else min ((valueAt samples (samples.length / 2 - 1) + valueAt samples (samples.length / 2)) / 2)
      (2 ^ 64 - 1) := by
  rw [median, length_sorted, if_neg (by omega)]
  rfl

theorem p90_sorted (hsome : 0 < samples.length) :
    nearestRankP90 (sorted samples) = valueAt samples (p90Index samples.length) := by
  rw [nearestRankP90, length_sorted, if_neg (by omega)]
  rfl

theorem median_le_half (hsome : 0 < samples.length) :
    median (sorted samples) ≤ valueAt samples (samples.length / 2) := by
  have hbelow : valueAt samples (samples.length / 2 - 1) ≤ valueAt samples (samples.length / 2) :=
    valueAt_le (Nat.sub_le _ _) (by omega)
  rw [median_sorted hsome]
  split
  · exact Nat.le_refl _
  · omega

theorem first_le_median (hsome : 0 < samples.length) (hword : ∀ sample ∈ samples, sample < 2 ^ 64) :
    valueAt samples 0 ≤ median (sorted samples) := by
  have hbelow : valueAt samples 0 ≤ valueAt samples (samples.length / 2 - 1) :=
    valueAt_le (Nat.zero_le _) (by omega)
  have habove : valueAt samples 0 ≤ valueAt samples (samples.length / 2) :=
    valueAt_le (Nat.zero_le _) (by omega)
  have hfirst := hword _ (valueAt_mem hsome)
  rw [median_sorted hsome]
  split
  · exact habove
  · omega

theorem median_mono (hsome : 0 < samples.length) (h : List.Forall₂ (· ≤ ·) samples others) :
    median (sorted samples) ≤ median (sorted others) := by
  have hlength := h.length_eq
  have hbelow : valueAt samples (samples.length / 2 - 1) ≤ valueAt others (samples.length / 2 - 1) :=
    valueAt_mono h (by omega)
  have habove : valueAt samples (samples.length / 2) ≤ valueAt others (samples.length / 2) :=
    valueAt_mono h (by omega)
  rw [median_sorted hsome, median_sorted (hlength ▸ hsome), ← hlength]
  split
  · exact habove
  · omega

/-! ### The recommended timeout -/

theorem recommendTimeout_bounds (upperMs : Nat) (floor : Option Nat) :
    defaultFloorMs ≤ recommendTimeout upperMs floor ∧ recommendTimeout upperMs floor ≤ absoluteCapMs := by
  unfold recommendTimeout defaultFloorMs absoluteCapMs
  dsimp only
  omega

/-- Where the margin saturates it is over the cap anyway. -/
theorem margin_le_recommendTimeout (upperMs : Nat) (floor : Option Nat) :
    min absoluteCapMs (upperMs + upperMs / 2 + safetyMarginAddendMs) ≤ recommendTimeout upperMs floor := by
  unfold recommendTimeout saturatingAdd absoluteCapMs safetyMarginAddendMs
  dsimp only
  omega

theorem saturatingAdd_mono {a a' b b' : Nat} (ha : a ≤ a') (hb : b ≤ b') :
    saturatingAdd a b ≤ saturatingAdd a' b' :=
  min_le_min (Nat.add_le_add ha hb) (Nat.le_refl _)

theorem recommendTimeout_mono {upperMs upperMs' : Nat} {floor floor' : Option Nat}
    (hupper : upperMs ≤ upperMs') (hfloor : floor.getD 0 ≤ floor'.getD 0) :
    recommendTimeout upperMs floor ≤ recommendTimeout upperMs' floor' := by
  have hmargin := saturatingAdd_mono hupper (Nat.div_le_div_right (c := 2) hupper)
  have hmargin := saturatingAdd_mono hmargin (Nat.le_refl safetyMarginAddendMs)
  exact min_le_min (max_le_max hmargin (max_le_max hfloor (Nat.le_refl _))) (Nat.le_refl _)

end Sample

/-! ### The estimate of a sample -/

/-- What the estimate is made of. -/
def estimateOf (samples : List Nat) (configuredFloorMs : Option Nat) : RunEstimate where
  typicalMs := median (sorted samples)
  upperMs := nearestRankP90 (sorted samples)
  recommendedTimeoutMs := recommendTimeout (nearestRankP90 (sorted samples)) configuredFloorMs
  samples := (sorted samples).length
  confidence := confidence (sorted samples).length
  source := .measured

theorem DurationHistory.estimate_eq {history : DurationHistory} {signature : String} {profile : Profile}
    (hget : history.profiles.get? signature = some profile) (hsome : profile.successes ≠ [])
    (floor : Option Nat) : history.estimate signature floor = some (estimateOf profile.successes floor) := by
  rw [estimate, hget]
  exact if_neg hsome

/-! ### The operations of the machine -/

/-- Subtraction of `usize`s. -/
def subUsize (a b : Nat) : Option Nat := if b ≤ a then some (a - b) else none

/-- Addition of `u128`s. -/
def addU128 (a b : Nat) : Option Nat := if a + b < 2 ^ 128 then some (a + b) else none

/-- A value as a `u64` that loses nothing. -/
def inU64 (value : Nat) : Option Nat := if value < 2 ^ 64 then some value else none

def medianChecked (sorted : List Nat) : Option Nat :=
  if sorted.length = 0 then some 0
  else if sorted.length % 2 = 1 then sorted[sorted.length / 2]?
  else do
    let below ← subUsize (sorted.length / 2) 1
    let a ← sorted[below]?
    let b ← sorted[sorted.length / 2]?
    let sum ← addU128 a b
    inU64 (min (sum / 2) (2 ^ 64 - 1))

/-- The number of samples is that of a vector in memory, so its ninefold is a `usize`. -/
def nearestRankP90Checked (sorted : List Nat) : Option Nat :=
  if sorted.length = 0 then some 0
  else do
    let place ← subUsize ((sorted.length * 9 + 9) / 10) 1
    sorted[place]?

def recommendTimeoutChecked (upperMs : Nat) (configuredFloorMs : Option Nat) : Option Nat := do
  let half ← inU64 (upperMs / 2)
  let margin ← inU64 (saturatingAdd (saturatingAdd upperMs half) safetyMarginAddendMs)
  let floor ← inU64 (max (configuredFloorMs.getD 0) defaultFloorMs)
  inU64 (min (max margin floor) absoluteCapMs)

/-- The estimate, if no operation on the way overflows. -/
def estimateChecked (samples : List Nat) (configuredFloorMs : Option Nat) : Option RunEstimate := do
  let typicalMs ← medianChecked (sorted samples)
  let upperMs ← nearestRankP90Checked (sorted samples)
  let recommendedTimeoutMs ← recommendTimeoutChecked upperMs configuredFloorMs
  return {
    typicalMs
    upperMs
    recommendedTimeoutMs
    samples := (sorted samples).length
    confidence := confidence (sorted samples).length
    source := .measured }

section Machine

variable {samples : List Nat}

theorem getElem?_sorted {i : Nat} (hi : i < samples.length) :
    (sorted samples)[i]? = some (valueAt samples i) := by
  obtain ⟨hi', heq⟩ := valueAt_eq hi
  rw [heq]
  exact List.getElem?_eq_getElem hi'

theorem medianChecked_eq (hsome : 0 < samples.length) (hword : ∀ sample ∈ samples, sample < 2 ^ 64) :
    medianChecked (sorted samples) = some (median (sorted samples)) := by
  have hhalf : samples.length / 2 < samples.length := by omega
  rw [medianChecked, median_sorted hsome, length_sorted, if_neg (by omega)]
  split
  · exact getElem?_sorted hhalf
  · have hbelow : samples.length / 2 - 1 < samples.length := by omega
    have hfirst := hword _ (valueAt_mem hbelow)
    have hsecond := hword _ (valueAt_mem hhalf)
    have hsub : subUsize (samples.length / 2) 1 = some (samples.length / 2 - 1) := if_pos (by omega)
    have hadd : addU128 (valueAt samples (samples.length / 2 - 1)) (valueAt samples (samples.length / 2))
        = some (valueAt samples (samples.length / 2 - 1) + valueAt samples (samples.length / 2)) :=
      if_pos (by omega)
    simp only [Option.bind_eq_bind, hsub, getElem?_sorted hbelow, getElem?_sorted hhalf, hadd,
      Option.bind_some]
    exact if_pos (by omega)

theorem nearestRankP90Checked_eq (hsome : 0 < samples.length) :
    nearestRankP90Checked (sorted samples) = some (nearestRankP90 (sorted samples)) := by
  have hsub : subUsize ((samples.length * 9 + 9) / 10) 1 = some (p90Index samples.length) :=
    if_pos (by omega)
  rw [nearestRankP90Checked, p90_sorted hsome, length_sorted, if_neg (by omega), hsub,
    Option.bind_eq_bind, Option.bind_some, getElem?_sorted (p90Index_lt hsome)]

theorem recommendTimeoutChecked_eq {upperMs : Nat} {floor : Option Nat} (hupper : upperMs < 2 ^ 64)
    (hfloor : floor.getD 0 < 2 ^ 64) :
    recommendTimeoutChecked upperMs floor = some (recommendTimeout upperMs floor) := by
  have hhalf : inU64 (upperMs / 2) = some (upperMs / 2) := if_pos (by omega)
  have hmargin : inU64 (saturatingAdd (saturatingAdd upperMs (upperMs / 2)) safetyMarginAddendMs)
      = some (saturatingAdd (saturatingAdd upperMs (upperMs / 2)) safetyMarginAddendMs) :=
    if_pos (by rw [saturatingAdd]; omega)
  have hraised : inU64 (max (floor.getD 0) defaultFloorMs) = some (max (floor.getD 0) defaultFloorMs) :=
    if_pos (by rw [defaultFloorMs]; omega)
  simp only [recommendTimeoutChecked, Option.bind_eq_bind, hhalf, hmargin, hraised, Option.bind_some]
  exact if_pos (by rw [absoluteCapMs]; omega)

end Machine

/-! ### The laws of the estimate -/

/-- The estimate of these samples under this floor is within its bounds. -/
structure EstimateBounds (samples : List Nat) (e : RunEstimate) : Prop where
  least : ∃ low ∈ samples, (∀ sample ∈ samples, low ≤ sample) ∧ low ≤ e.typicalMs
  typical_le_upper : e.typicalMs ≤ e.upperMs
  greatest : ∃ high ∈ samples, (∀ sample ∈ samples, sample ≤ high) ∧ e.upperMs ≤ high
  timeout : defaultFloorMs ≤ e.recommendedTimeoutMs ∧ e.recommendedTimeoutMs ≤ absoluteCapMs
  margin : min absoluteCapMs (e.upperMs + e.upperMs / 2 + safetyMarginAddendMs)
    ≤ e.recommendedTimeoutMs

theorem estimateOf_bounds {samples : List Nat} (hsome : 0 < samples.length)
    (hword : ∀ sample ∈ samples, sample < 2 ^ 64) (floor : Option Nat) :
    EstimateBounds samples (estimateOf samples floor) := by
  have hupper : nearestRankP90 (sorted samples) = valueAt samples (p90Index samples.length) :=
    p90_sorted hsome
  refine ⟨⟨_, valueAt_mem hsome, fun sample hsample => ?_, first_le_median hsome hword⟩, ?_,
    ⟨valueAt samples (samples.length - 1), valueAt_mem (by omega), fun sample hsample => ?_, ?_⟩,
    recommendTimeout_bounds _ _, margin_le_recommendTimeout _ _⟩
  · obtain ⟨i, hi, rfl⟩ := exists_valueAt hsample
    exact valueAt_le (Nat.zero_le i) hi
  · refine (median_le_half hsome).trans (le_of_le_of_eq ?_ hupper.symm)
    exact valueAt_le (half_le_p90Index _) (p90Index_lt hsome)
  · obtain ⟨i, hi, rfl⟩ := exists_valueAt hsample
    exact valueAt_le (by omega) (by omega)
  · refine le_of_eq_of_le hupper (valueAt_le ?_ (by omega))
    have := p90Index_lt hsome
    omega

/-- What an estimate is made of moves with it. -/
structure EstimateLe (e e' : RunEstimate) : Prop where
  typical : e.typicalMs ≤ e'.typicalMs
  upper : e.upperMs ≤ e'.upperMs
  timeout : e.recommendedTimeoutMs ≤ e'.recommendedTimeoutMs

theorem estimateOf_mono {samples others : List Nat} (hsome : 0 < samples.length)
    (h : List.Forall₂ (· ≤ ·) samples others) {floor floor' : Option Nat}
    (hfloor : floor.getD 0 ≤ floor'.getD 0) :
    EstimateLe (estimateOf samples floor) (estimateOf others floor') := by
  have hupper : nearestRankP90 (sorted samples) ≤ nearestRankP90 (sorted others) := by
    rw [p90_sorted hsome, p90_sorted (h.length_eq ▸ hsome), ← h.length_eq]
    exact valueAt_mono h (p90Index_lt hsome)
  exact ⟨median_mono hsome h, hupper, recommendTimeout_mono hupper hfloor⟩

/-- From any samples there is an estimate within its bounds. It is the same in every history that has the
    samples in some order, no less where no sample and not the floor is less, and no operation on the way
    to it overflows. -/
theorem estimate_laws {history : DurationHistory} {signature : String} {profile : Profile}
    {floor : Option Nat} (hget : history.profiles.get? signature = some profile)
    (hsome : profile.successes ≠ []) (hword : ∀ sample ∈ profile.successes, sample < 2 ^ 64)
    (hfloor : floor.getD 0 < 2 ^ 64) :
    ∃ e, history.estimate signature floor = some e ∧ EstimateBounds profile.successes e
      ∧ (∀ (other : DurationHistory) (signature' : String) (profile' : Profile),
        other.profiles.get? signature' = some profile' →
        profile.successes.Perm profile'.successes → other.estimate signature' floor = some e)
      ∧ (∀ (other : DurationHistory) (signature' : String) (profile' : Profile) (floor' : Option Nat),
        other.profiles.get? signature' = some profile' →
        List.Forall₂ (· ≤ ·) profile.successes profile'.successes →
        floor.getD 0 ≤ floor'.getD 0 →
        ∃ e', other.estimate signature' floor' = some e' ∧ EstimateLe e e')
      ∧ estimateChecked profile.successes floor = some e := by
  have hpos : 0 < profile.successes.length := List.length_pos_iff.mpr hsome
  refine ⟨_, DurationHistory.estimate_eq hget hsome floor, estimateOf_bounds hpos hword floor, ?_, ?_, ?_⟩
  · intro other signature' profile' hother hperm
    have hsome' : profile'.successes ≠ [] := fun hnil => hsome (List.perm_nil.mp (hnil ▸ hperm))
    rw [DurationHistory.estimate_eq hother hsome', estimateOf, estimateOf, sorted_eq_of_perm hperm]
  · intro other signature' profile' floor' hother hle hfloor'
    have hsome' : profile'.successes ≠ [] :=
      List.ne_nil_of_length_pos (hle.length_eq ▸ hpos)
    exact ⟨_, DurationHistory.estimate_eq hother hsome' floor', estimateOf_mono hpos hle hfloor'⟩
  · have hupper : nearestRankP90 (sorted profile.successes) < 2 ^ 64 := by
      rw [p90_sorted hpos]
      exact hword _ (valueAt_mem (p90Index_lt hpos))
    simp only [estimateChecked, Option.bind_eq_bind, medianChecked_eq hpos hword,
      nearestRankP90Checked_eq hpos, recommendTimeoutChecked_eq hupper hfloor, Option.bind_some]
    rfl

/-- Three passed runs. -/
def threeRuns : DurationHistory :=
  [40000, 12000, 95000].foldl (fun history durationMs => history.recordSuccess "s" durationMs) .new

theorem estimate_laws_three :
    ∃ e, threeRuns.estimate "s" (some 30000) = some e ∧ EstimateBounds [40000, 12000, 95000] e
      ∧ estimateChecked [40000, 12000, 95000] (some 30000) = some e := by
  have hget : threeRuns.profiles.get? "s" = some ⟨[40000, 12000, 95000], [], 0, 0, 0⟩ := by
    decide +kernel
  have hword : ∀ sample ∈ [40000, 12000, 95000], sample < 2 ^ 64 := by decide
  have hfloor : (some 30000).getD 0 < 2 ^ 64 := by decide
  obtain ⟨e, hestimate, hbounds, -, -, hchecked⟩ :=
    estimate_laws hget (List.cons_ne_nil _ _) hword hfloor
  exact ⟨e, hestimate, hbounds, hchecked⟩

end Funzzy
