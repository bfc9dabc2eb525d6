import Mathlib.Data.List.Basic
import Mathlib.Data.List.Infix

/-! Safety properties of finite histories.

    A history is a list of events, oldest first. `Throughout P` says that `P` held at every moment of
    it, `Whenever Q` that `Q` held of the past whenever an event happened. Both are proved one event
    at a time. `restrict` keeps the events of one key, so that what happens to other keys does not
    matter to a property of it. -/

namespace History

variable {α κ : Type}

/-- `P` holds of every prefix of the history. -/
def Throughout (P : List α → Prop) (h : List α) : Prop := ∀ before, before <+: h → P before

/-- `Q past event` holds at every event of the history. -/
def Whenever (Q : List α → α → Prop) (h : List α) : Prop :=
  ∀ before x, before ++ [x] <+: h → Q before x

theorem prefix_append_iff {before h l : List α} :
    before <+: h ++ l ↔ before <+: h ∨ ∃ l', l' <+: l ∧ before = h ++ l' := by
  constructor
  · intro hpre
    rcases List.prefix_or_prefix_of_prefix hpre (List.prefix_append h l) with hle | ⟨l', rfl⟩
    · exact .inl hle
    · exact .inr ⟨l', (List.prefix_append_right_inj h).mp hpre, rfl⟩
  · rintro (hle | ⟨l', hle, rfl⟩)
    · exact hle.trans (List.prefix_append h l)
    · exact (List.prefix_append_right_inj h).mpr hle

theorem Throughout.now {P : List α → Prop} {h : List α} (ht : Throughout P h) : P h :=
  ht h (List.prefix_refl h)

theorem throughout_append {P : List α → Prop} {h l : List α} :
    Throughout P (h ++ l) ↔ Throughout P h ∧ ∀ l', l' <+: l → P (h ++ l') := by
  constructor
  · intro ht
    refine ⟨fun before hpre => ht before (hpre.trans (List.prefix_append h l)), fun l' hl => ?_⟩
    exact ht _ ((List.prefix_append_right_inj h).mpr hl)
  · rintro ⟨ht, hl⟩ before hpre
    rcases prefix_append_iff.mp hpre with hle | ⟨l', hle, rfl⟩
    · exact ht before hle
    · exact hl l' hle

theorem Throughout.of_append {P : List α → Prop} {h l : List α} (ht : Throughout P (h ++ l)) :
    Throughout P h :=
  (throughout_append.mp ht).1

/-- Events that keep `P` keep it throughout. -/
theorem Throughout.extend {P : List α → Prop} {h : List α} (ht : Throughout P h) :
    ∀ {l : List α}, (∀ x ∈ l, ∀ h', P h' → P (h' ++ [x])) → Throughout P (h ++ l)
  | [], _ => by simpa using ht
  | x :: l, hl => by
    have hone : Throughout P (h ++ [x]) := by
      refine throughout_append.mpr ⟨ht, fun l' hpre => ?_⟩
      rcases List.prefix_cons_iff.mp hpre with rfl | ⟨t, rfl, hnil⟩
      · simpa using ht.now
      · rw [List.prefix_nil.mp hnil]; exact hl x List.mem_cons_self h ht.now
    have hrest := hone.extend (l := l) fun y hy => hl y (List.mem_cons_of_mem _ hy)
    simpa using hrest

theorem whenever_nil {Q : List α → α → Prop} : Whenever Q [] := by
  intro before x hpre
  simp at hpre

theorem whenever_concat {Q : List α → α → Prop} {h : List α} {x : α} :
    Whenever Q (h ++ [x]) ↔ Whenever Q h ∧ Q h x := by
  constructor
  · intro hw
    exact ⟨fun before y hpre => hw before y (hpre.trans (List.prefix_append h [x])),
      hw h x (List.prefix_refl _)⟩
  · rintro ⟨hw, hx⟩ before y hpre
    rcases prefix_append_iff.mp hpre with hle | ⟨l', hle, heq⟩
    · exact hw before y hle
    · rcases List.prefix_cons_iff.mp hle with rfl | ⟨t, rfl, hnil⟩
      · exact hw before y (heq ▸ by simp)
      · rw [List.prefix_nil.mp hnil] at heq
        obtain ⟨rfl, hxy⟩ := List.append_inj' heq rfl
        rw [List.singleton_inj.mp hxy]
        exact hx

/-- A step that appends several events must justify each of them by what happened before it. -/
theorem Whenever.append {Q : List α → α → Prop} {h : List α} (hw : Whenever Q h) :
    ∀ {l : List α}, (∀ l' x, l' ++ [x] <+: l → Q (h ++ l') x) → Whenever Q (h ++ l) := by
  intro l hl before x hpre
  rcases prefix_append_iff.mp hpre with hle | ⟨l', hle, heq⟩
  · exact hw before x hle
  · rcases List.eq_nil_or_concat' l' with rfl | ⟨m, y, rfl⟩
    · exact hw before x (heq ▸ by simp)
    · rw [← List.append_assoc] at heq
      obtain ⟨rfl, hxy⟩ := List.append_inj' heq rfl
      rw [List.singleton_inj.mp hxy]
      exact hl m y hle

theorem Whenever.of_append {Q : List α → α → Prop} {h l : List α} (hw : Whenever Q (h ++ l)) :
    Whenever Q h :=
  fun before x hpre => hw before x (hpre.trans (List.prefix_append h l))

theorem whenever_iff_get {Q : List α → α → Prop} {h : List α} :
    Whenever Q h ↔ ∀ i : Fin h.length, Q (h.take i) (h.get i) := by
  constructor
  · intro hw i
    refine hw _ _ ?_
    rw [List.get_eq_getElem, List.take_concat_get']
    exact List.take_prefix _ _
  · rintro hget before x ⟨rest, rfl⟩
    have hlt : before.length < (before ++ [x] ++ rest).length := by simp
    have := hget ⟨before.length, hlt⟩
    simpa using this

instance {Q : List α → α → Prop} [∀ past x, Decidable (Q past x)] (h : List α) :
    Decidable (Whenever Q h) :=
  decidable_of_iff _ whenever_iff_get.symm

/-- Events about which `Q` says nothing do not matter to it. -/
theorem Whenever.extend {Q : List α → α → Prop} {h : List α} (hw : Whenever Q h) :
    ∀ {l : List α}, (∀ x ∈ l, ∀ before, Q before x) → Whenever Q (h ++ l)
  | [], _ => by simpa using hw
  | x :: l, hl => by
    have hone : Whenever Q (h ++ [x]) :=
      whenever_concat.mpr ⟨hw, hl x List.mem_cons_self h⟩
    have hrest := hone.extend (l := l) fun y hy => hl y (List.mem_cons_of_mem _ hy)
    simpa using hrest

/-! ### Events of one key -/

variable [DecidableEq κ] (key : α → Option κ)

/-- The events of the history that carry the key `k`. -/
def restrict (k : κ) (h : List α) : List α := h.filter fun x => key x = some k

@[simp] theorem restrict_append (k : κ) (a b : List α) :
    restrict key k (a ++ b) = restrict key k a ++ restrict key k b :=
  List.filter_append a b

@[simp] theorem restrict_nil (k : κ) : restrict key k ([] : List α) = [] := rfl

theorem restrict_eq_nil {k : κ} {l : List α} (hl : ∀ x ∈ l, key x ≠ some k) :
    restrict key k l = [] :=
  List.filter_eq_nil_iff.mpr fun x hx => by simpa using hl x hx

/-- Events with other keys leave the restricted history as it is. -/
theorem restrict_append_of_ne {k : κ} {h l : List α} (hl : ∀ x ∈ l, key x ≠ some k) :
    restrict key k (h ++ l) = restrict key k h := by
  rw [restrict_append, restrict_eq_nil key hl, List.append_nil]

end History
