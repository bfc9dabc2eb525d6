import Funzzy.Lib.History

/-! Alarms in finite histories.

    `alarm past x` says that the event `x` raises the alarm after the history `past`. A history is `Silent`
    while no event has raised it, and it is `Respected` when after every event that did only events happen
    which `allowed` permits after it. An alarm that is respected by events that raise none stays the only
    one, so a history is extended in two ways: in silence, or, after the alarm, by permitted events. -/

namespace History

variable {α : Type} (alarm : List α → α → Prop) (allowed : α → α → Prop)

/-- `x` is an event of the history that raised the alarm when it happened. -/
def Sounded (h : List α) (x : α) : Prop := ∃ past future, h = past ++ x :: future ∧ alarm past x

/-- No event has raised the alarm. -/
def Silent (h : List α) : Prop := ∀ x, ¬Sounded alarm h x

/-- After an event that raised the alarm, only permitted events have happened. -/
def Respected (h : List α) : Prop :=
  ∀ past x future, h = past ++ x :: future → alarm past x → ∀ y ∈ future, allowed x y

variable {alarm allowed} {h : List α} {x y : α}

theorem not_sounded_nil : ¬Sounded alarm [] x := by
  rintro ⟨past, future, hsplit, -⟩
  cases past <;> cases hsplit

theorem silent_nil : Silent alarm ([] : List α) := fun _ => not_sounded_nil

/-- The last event of a history is the first of what followed a split, or that was not empty. -/
theorem concat_split {past future : List α} (hsplit : h ++ [y] = past ++ x :: future) :
    (past = h ∧ x = y ∧ future = []) ∨ ∃ rest, future = rest ++ [y] ∧ h = past ++ x :: rest := by
  rcases List.eq_nil_or_concat' future with rfl | ⟨rest, z, rfl⟩
  · obtain ⟨hpast, hlast⟩ := List.append_inj' hsplit rfl
    exact .inl ⟨hpast.symm, (List.singleton_inj.mp hlast).symm, rfl⟩
  · rw [← List.cons_append, ← List.append_assoc] at hsplit
    obtain ⟨hpast, hlast⟩ := List.append_inj' hsplit rfl
    obtain rfl := List.singleton_inj.mp hlast
    exact .inr ⟨rest, rfl, hpast⟩

theorem sounded_concat : Sounded alarm (h ++ [y]) x ↔ Sounded alarm h x ∨ (x = y ∧ alarm h y) := by
  constructor
  · rintro ⟨past, future, hsplit, halarm⟩
    rcases concat_split hsplit with ⟨rfl, rfl, -⟩ | ⟨rest, -, rfl⟩
    · exact .inr ⟨rfl, halarm⟩
    · exact .inl ⟨past, rest, rfl, halarm⟩
  · rintro (⟨past, future, rfl, halarm⟩ | ⟨rfl, halarm⟩)
    · exact ⟨past, future ++ [y], by simp, halarm⟩
    · exact ⟨h, [], rfl, halarm⟩

theorem respected_concat : Respected alarm allowed (h ++ [y]) ↔
    Respected alarm allowed h ∧ ∀ x, Sounded alarm h x → allowed x y := by
  constructor
  · intro hrespected
    refine ⟨fun past x future hsplit halarm z hz => ?_, ?_⟩
    · exact hrespected past x (future ++ [y]) (by simp [hsplit]) halarm z (List.mem_append_left _ hz)
    · rintro x ⟨past, future, rfl, halarm⟩
      exact hrespected past x (future ++ [y]) (by simp) halarm y (by simp)
  · rintro ⟨hrespected, hlast⟩ past x future hsplit halarm z hz
    rcases concat_split hsplit with ⟨-, -, rfl⟩ | ⟨rest, rfl, hpast⟩
    · cases hz
    · rcases List.mem_append.mp hz with hz | hz
      · exact hrespected past x rest hpast halarm z hz
      · rw [List.mem_singleton.mp hz]
        exact hlast x ⟨past, rest, hpast, halarm⟩

/-- A silent history has no alarm to respect. -/
theorem Silent.respected (hsilent : Silent alarm h) : Respected alarm allowed h :=
  fun past x future hsplit halarm => absurd ⟨past, future, hsplit, halarm⟩ (hsilent x)

theorem Silent.concat (hsilent : Silent alarm h) (hy : ¬alarm h y) : Silent alarm (h ++ [y]) := by
  intro x hsounded
  rcases sounded_concat.mp hsounded with hold | ⟨-, halarm⟩
  · exact hsilent x hold
  · exact hy halarm

/-- A history stays silent through events that raise no alarm after anything longer than it. -/
theorem Silent.append (hsilent : Silent alarm h) : ∀ {l : List α},
    (∀ y ∈ l, ∀ more, ¬alarm (h ++ more) y) → Silent alarm (h ++ l) := by
  intro l hl
  induction l using List.reverseRecOn with
  | nil => rwa [List.append_nil]
  | append_singleton l y ih =>
    rw [← List.append_assoc]
    exact (ih fun z hz => hl z (List.mem_append_left _ hz)).concat (hl y (by simp) l)

/-- The first alarm of a silent history is the only one. -/
theorem Silent.sounded_concat (hsilent : Silent alarm h) (hsounded : Sounded alarm (h ++ [y]) x) : x = y := by
  rcases History.sounded_concat.mp hsounded with hold | ⟨rfl, -⟩
  · exact absurd hold (hsilent x)
  · rfl

/-- After an alarm, permitted events that raise none leave it respected, and the only one. -/
theorem Respected.append (hrespected : Respected alarm allowed h) : ∀ {l : List α},
    (∀ y ∈ l, ∀ past, ¬alarm past y) → (∀ y ∈ l, ∀ x, Sounded alarm h x → allowed x y) →
    Respected alarm allowed (h ++ l) ∧ ∀ x, Sounded alarm (h ++ l) x ↔ Sounded alarm h x := by
  intro l
  induction l using List.reverseRecOn with
  | nil =>
    intro _ _
    rw [List.append_nil]
    exact ⟨hrespected, fun _ => .rfl⟩
  | append_singleton l y ih =>
    intro hquiet hallowed
    obtain ⟨hbefore, hsame⟩ := ih (fun z hz => hquiet z (List.mem_append_left _ hz))
      fun z hz => hallowed z (List.mem_append_left _ hz)
    have hy : ∀ past, ¬alarm past y := hquiet y (by simp)
    rw [← List.append_assoc]
    refine ⟨respected_concat.mpr ⟨hbefore, fun x hx => ?_⟩, fun x => ?_⟩
    · exact hallowed y (by simp) x ((hsame x).mp hx)
    · rw [History.sounded_concat, hsame]
      exact or_iff_left fun hlast => hy _ hlast.2

end History
