import Mathlib.Data.List.Basic

/-! Labelled machines and their guarded runs.

    A machine is a step function that may refuse a label; the label carries every choice, so a run is a
    list of labels and quantifying over lists of labels quantifies over every interleaving. `Meets cond`
    says that every step of a run meets a condition in the state before it, and `invariant` is the rule
    by which safety properties of such runs are proved. The last section is about replacing or removing
    one element of a list by its index, the way one of several parties moves. -/

namespace Machine

variable {σ ℓ : Type} (step : σ → ℓ → Option σ)

/-- The state after a list of steps, if the machine takes all of them. -/
def after : σ → List ℓ → Option σ
  | s, [] => some s
  | s, l :: ls => (step s l).bind fun s' => after s' ls

theorem after_append (ls ms : List ℓ) :
    ∀ s, after step s (ls ++ ms) = (after step s ls).bind fun s' => after step s' ms := by
  induction ls with
  | nil => exact fun s => rfl
  | cons l ls ih =>
    intro s
    rw [List.cons_append, after, after]
    cases step s l with
    | none => rfl
    | some t => exact ih t

/-- Every step of the run meets the condition in the state before it. -/
def Meets (cond : σ → ℓ → Prop) : σ → List ℓ → Prop
  | _, [] => True
  | s, l :: ls => cond s l ∧ ∀ s', step s l = some s' → Meets cond s' ls

/-- Invariant rule: what every allowed step preserves holds wherever an allowed run ends. -/
theorem invariant {cond : σ → ℓ → Prop} {I : σ → Prop}
    (hstep : ∀ s l s', I s → cond s l → step s l = some s' → I s') (ls : List ℓ) :
    ∀ s s', I s → Meets step cond s ls → after step s ls = some s' → I s' := by
  induction ls with
  | nil =>
    intro s s' hs _ hafter
    cases hafter
    exact hs
  | cons l ls ih =>
    intro s s' hs hmeets hafter
    obtain ⟨t, hl, hrest⟩ := Option.bind_eq_some_iff.mp hafter
    exact ih t s' (hstep s l t hs hmeets.1 hl) (hmeets.2 t hl) hrest

/-- When from every good state the good steps are exactly those that meet the condition, a run stays good
    exactly when every step of it meets the condition. `I` is what holds of every run. -/
theorem always_iff_meets {cond : σ → ℓ → Prop} {I P : σ → Prop}
    (hinv : ∀ s l s', I s → step s l = some s' → I s')
    (hexact : ∀ s l s', I s → P s → step s l = some s' → (P s' ↔ cond s l)) (ls : List ℓ) :
    ∀ s s', I s → P s → after step s ls = some s' →
      ((∀ k t, after step s (ls.take k) = some t → P t) ↔ Meets step cond s ls) := by
  induction ls with
  | nil =>
    intro s s' _ hs _
    refine ⟨fun _ => trivial, fun _ k t ht => ?_⟩
    rw [List.take_nil, after] at ht
    cases ht
    exact hs
  | cons l ls ih =>
    intro s s' hI hs hafter
    obtain ⟨t, hl, hrest⟩ := Option.bind_eq_some_iff.mp hafter
    have hunfold : ∀ k u, after step s ((l :: ls).take (k + 1)) = some u
        ↔ after step t (ls.take k) = some u := by
      intro k u
      rw [List.take_succ_cons, after, hl, Option.bind_some]
    constructor
    · intro halways
      have ht : P t := halways 1 t ((hunfold 0 t).mpr (by rw [List.take_zero, after]))
      refine ⟨(hexact s l t hI hs hl).mp ht, fun u hu => ?_⟩
      rw [hl] at hu
      cases hu
      exact (ih t s' (hinv s l t hI hl) ht hrest).mp fun k u hu =>
        halways (k + 1) u ((hunfold k u).mpr hu)
    · rintro ⟨hcond, hmeets⟩ k u hu
      have ht : P t := (hexact s l t hI hs hl).mpr hcond
      cases k with
      | zero =>
        cases hu
        exact hs
      | succ k =>
        exact (ih t s' (hinv s l t hI hl) ht hrest).mpr (hmeets t hl) k u ((hunfold k u).mp hu)

/-- Every run meets the condition that asks for nothing. -/
theorem meets_true (ls : List ℓ) : ∀ s, Meets step (fun _ _ => True) s ls := by
  induction ls with
  | nil => exact fun _ => trivial
  | cons l ls ih => exact fun s => ⟨trivial, fun s' _ => ih s'⟩

theorem Meets.mono {cond cond' : σ → ℓ → Prop} (himp : ∀ s l, cond s l → cond' s l) (ls : List ℓ) :
    ∀ s, Meets step cond s ls → Meets step cond' s ls := by
  induction ls with
  | nil => exact fun _ _ => trivial
  | cons l ls ih => exact fun s h => ⟨himp s l h.1, fun s' hs => ih s' (h.2 s' hs)⟩

/-- A run that meets a condition meets it at each of its steps. -/
theorem Meets.step_of_append {cond : σ → ℓ → Prop} {l : ℓ} {later : List ℓ} (earlier : List ℓ) :
    ∀ {s t}, Meets step cond s (earlier ++ l :: later) → after step s earlier = some t → cond t l := by
  induction earlier with
  | nil =>
    intro s t hmeets hafter
    cases hafter
    exact hmeets.1
  | cons first earlier ih =>
    intro s t hmeets hafter
    obtain ⟨u, hfirst, hrest⟩ := Option.bind_eq_some_iff.mp hafter
    exact ih (hmeets.2 u hfirst) hrest

/-- Whether a concrete run meets a decidable condition can be computed. -/
def decidableMeets {cond : σ → ℓ → Prop} [∀ s l, Decidable (cond s l)] :
    ∀ (s : σ) (ls : List ℓ), Decidable (Meets step cond s ls)
  | _, [] => isTrue trivial
  | s, l :: ls =>
    match hstep : step s l with
    | none => decidable_of_iff (cond s l)
        ⟨fun h => ⟨h, fun s' hs => by rw [hstep] at hs; cases hs⟩, fun h => h.1⟩
    | some t =>
      let _ : Decidable (Meets step cond t ls) := decidableMeets t ls
      decidable_of_iff (cond s l ∧ Meets step cond t ls)
        ⟨fun h => ⟨h.1, fun s' hs => by
            rw [hstep] at hs; cases hs; exact h.2⟩,
          fun h => ⟨h.1, h.2 t hstep⟩⟩

instance {cond : σ → ℓ → Prop} [∀ s l, Decidable (cond s l)] (s : σ) (ls : List ℓ) :
    Decidable (Meets step cond s ls) :=
  decidableMeets step s ls

/-! ### One of several parties -/

variable {α : Type}

/-- The list around the element at an index. -/
theorem exists_split {l : List α} {i : Nat} {x : α} (h : l[i]? = some x) :
    ∃ l₁ l₂, l = l₁ ++ x :: l₂ ∧ (∀ y, l.set i y = l₁ ++ y :: l₂) ∧ l.eraseIdx i = l₁ ++ l₂ := by
  obtain ⟨hi, rfl⟩ := List.getElem?_eq_some_iff.mp h
  refine ⟨l.take i, l.drop (i + 1), ?_, fun y => ?_, ?_⟩
  · rw [← List.drop_eq_getElem_cons hi, List.take_append_drop]
  · exact List.set_eq_take_append_cons_drop.trans (if_pos hi)
  · exact List.eraseIdx_eq_take_drop_succ l i

theorem getElem?_concat_some {xs : List α} {x y : α} {i : Nat} (h : (xs ++ [y])[i]? = some x) :
    xs[i]? = some x ∨ i = xs.length ∧ x = y := by
  rcases Nat.lt_trichotomy i xs.length with hi | rfl | hi
  · rw [List.getElem?_append_left hi] at h
    exact .inl h
  · rw [List.getElem?_concat_length] at h
    exact .inr ⟨rfl, (Option.some.inj h).symm⟩
  · rw [List.getElem?_eq_none (by rw [List.length_append]; exact hi)] at h
    cases h

end Machine
