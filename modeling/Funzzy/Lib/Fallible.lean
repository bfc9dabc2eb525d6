import Mathlib.Logic.Basic
import Mathlib.Logic.Unique

/-! Computations that may fail.

    `Accepts` says that a computation does not fail, and `bind_eq_ok` what its result is. The rules take one
    step off the front: `accepts_step` where what follows does not depend on the value of the step. -/

namespace Fallible

variable {ε α β : Type}

theorem bind_eq_ok (result : Except ε α) (next : α → Except ε β) (value : β) :
    (result >>= next) = .ok value ↔ ∃ a, result = .ok a ∧ next a = .ok value := by
  cases result with
  | error err => exact iff_of_false (by rintro ⟨⟩) (by rintro ⟨a, ⟨⟩, -⟩)
  | ok a =>
    constructor
    · intro h
      exact ⟨a, rfl, h⟩
    · rintro ⟨a', ⟨⟩, h⟩
      exact h

theorem ok_bind (a : α) (next : α → Except ε β) : (Except.ok a >>= next) = next a := by
  change Except.bind (.ok a) next = next a
  rw [Except.bind]

/-- A check that stops the computation. -/
theorem guard_eq_ok {c : Prop} [Decidable c] {stop other : Except ε β} {value : β}
    (h : stop ≠ .ok value) : (if c then stop else other) = .ok value ↔ ¬ c ∧ other = .ok value := by
  split
  · next hc => exact iff_of_false h fun hother => hother.1 hc
  · next hc => exact (and_iff_right hc).symm

/-- The result is not an error. -/
def Accepts (result : Except ε α) : Prop := ∃ value, result = .ok value

theorem accepts_ok (value : α) : Accepts (.ok value : Except ε α) := ⟨value, rfl⟩

theorem not_accepts_error (err : ε) : ¬ Accepts (.error err : Except ε α) := by
  rintro ⟨value, ⟨⟩⟩

instance (result : Except ε α) : Decidable (Accepts result) :=
  match result with
  | .ok value => .isTrue (accepts_ok value)
  | .error err => .isFalse (not_accepts_error err)

theorem accepts_bind (result : Except ε α) (next : α → Except ε β) :
    Accepts (result >>= next) ↔ ∃ value, result = .ok value ∧ Accepts (next value) := by
  constructor
  · rintro ⟨b, h⟩
    obtain ⟨value, hvalue, hnext⟩ := (bind_eq_ok _ _ _).mp h
    exact ⟨value, hvalue, b, hnext⟩
  · rintro ⟨value, hvalue, b, hnext⟩
    exact ⟨b, (bind_eq_ok _ _ _).mpr ⟨value, hvalue, hnext⟩⟩

/-- A step whose value does not decide what follows. -/
theorem accepts_step {result : Except ε α} {next : α → Except ε β} {P : Prop}
    (h : ∀ value, result = .ok value → (Accepts (next value) ↔ P)) :
    Accepts (result >>= next) ↔ Accepts result ∧ P := by
  rw [accepts_bind]
  constructor
  · rintro ⟨value, hvalue, haccepts⟩
    exact ⟨⟨value, hvalue⟩, (h value hvalue).mp haccepts⟩
  · rintro ⟨⟨value, hvalue⟩, hP⟩
    exact ⟨value, hvalue, (h value hvalue).mpr hP⟩

/-- The last step. -/
theorem accepts_last {result : Except ε α} {finish : α → β} :
    Accepts (result >>= fun value => pure (finish value)) ↔ Accepts result :=
  (accepts_step fun _ _ => iff_true_intro (accepts_ok _)).trans (iff_of_eq (and_true _))

/-! ### Mapped results -/

theorem map_eq_bind (result : Except ε α) (finish : α → β) :
    result.map finish = result >>= fun value => pure (finish value) := by
  cases result <;> rfl

theorem map_bind {γ : Type} (result : Except ε α) (finish : α → β) (next : β → Except ε γ) :
    (result.map finish >>= next) = result >>= fun value => next (finish value) := by
  cases result <;> rfl

theorem ok_map (a : α) (f : α → β) : (Except.ok a : Except ε α).map f = .ok (f a) := rfl

theorem map_id_eq (result : Except ε α) : result.map id = result := by
  cases result <;> rfl

theorem mapError_eq_ok {δ : Type} {shownAs : ε → δ} {result : Except ε α} {value : α} :
    result.mapError shownAs = .ok value ↔ result = .ok value := by
  cases result with
  | error err => exact iff_of_false (by rintro ⟨⟩) (by rintro ⟨⟩)
  | ok value' =>
    constructor
    · rintro ⟨⟩
      rfl
    · rintro ⟨⟩
      rfl

end Fallible
