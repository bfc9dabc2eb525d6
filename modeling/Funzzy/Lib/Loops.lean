import Mathlib.Data.Nat.Init

/-! Loops, pass by pass.

    One pass of a loop goes on with another state or leaves with a result. A loop need not leave; where a
    measure gets smaller from pass to pass it does, and what it leaves with is what any function says that
    every pass keeps. -/

namespace Loops

variable {σ ρ : Type}

/-- How one pass over the body of a loop ends. -/
inductive Pass (σ ρ : Type) where
  | again (s : σ)
  | leave (r : ρ)

/-- The loop leaves with a result after a number of passes. -/
inductive Ends (body : σ → Pass σ ρ) : σ → Nat → ρ → Prop
  | leave {s r} : body s = .leave r → Ends body s 1 r
  | again {s s' k r} : body s = .again s' → Ends body s' k r → Ends body s (k + 1) r

/-- What every pass keeps, and what it leaves with from there. -/
theorem Ends.meets {body : σ → Pass σ ρ} {P : σ → Prop} {Q : ρ → Prop}
    (hagain : ∀ s s', P s → body s = .again s' → P s') (hleave : ∀ s r, P s → body s = .leave r → Q r)
    {s : σ} {k : Nat} {r : ρ} (h : Ends body s k r) (hs : P s) : Q r := by
  induction h with
  | leave hpass => exact hleave _ _ hs hpass
  | again hpass _ ih => exact ih (hagain _ _ hs hpass)

variable (body : σ → Pass σ ρ)

/-- A loop whose measure gets smaller leaves, and the measure bounds its passes. -/
theorem exists_ends (μ : σ → Nat) (h : ∀ s s', body s = .again s' → μ s' < μ s) :
    ∀ s, ∃ k r, k ≤ μ s + 1 ∧ Ends body s k r := by
  intro s
  induction hn : μ s using Nat.strong_induction_on generalizing s with
  | _ n ih =>
    cases hpass : body s with
    | leave r => exact ⟨1, r, by omega, .leave hpass⟩
    | again s' =>
      have hless := h s s' hpass
      obtain ⟨k, r, hk, hends⟩ := ih (μ s') (by omega) s' rfl
      exact ⟨k + 1, r, by omega, .again hpass hends⟩

/-- A function that says of each pass what the loop computes: with what it leaves, or that as much is
    computed from where it goes on, where the measure is smaller. -/
def Computes (μ : σ → Nat) (f : σ → ρ) : Prop :=
  ∀ s, match body s with
    | .leave r => f s = r
    | .again s' => μ s' < μ s ∧ f s = f s'

variable {body} {μ : σ → Nat} {f : σ → ρ}

theorem Computes.leave (h : Computes body μ f) {s : σ} {r : ρ} (hpass : body s = .leave r) : f s = r := by
  have hs := h s
  rw [hpass] at hs
  exact hs

theorem Computes.again (h : Computes body μ f) {s s' : σ} (hpass : body s = .again s') :
    μ s' < μ s ∧ f s = f s' := by
  have hs := h s
  rw [hpass] at hs
  exact hs

theorem Computes.eq (h : Computes body μ f) {s : σ} {k : Nat} {r : ρ} (hends : Ends body s k r) :
    f s = r := by
  induction hends with
  | leave hpass => exact h.leave hpass
  | again hpass _ ih => exact (h.again hpass).2.trans ih

/-- The loop leaves with what the function says, within as many passes as the measure says. -/
theorem Computes.ends (h : Computes body μ f) (s : σ) : ∃ k ≤ μ s + 1, Ends body s k (f s) := by
  obtain ⟨k, r, hk, hends⟩ := exists_ends body μ (fun _ _ hpass => (h.again hpass).1) s
  refine ⟨k, hk, ?_⟩
  rw [h.eq hends]
  exact hends

end Loops
