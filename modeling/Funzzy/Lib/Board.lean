import Mathlib.Data.List.Nodup
import Mathlib.Data.List.Perm.Basic
import Mathlib.Logic.Relation
import Funzzy.Lib.History

/-! Systems of independent parts.

    A board holds parts, each at a place of its own, and the history of everything that happened.
    A step changes one part and appends events of that part's place, or events of no place. What one
    part's own moves preserve is then an invariant of the whole system (`Claims.steps`): a claim about
    a place reads the part that stands there, if any, and the events of that place only. -/

namespace Board

open History

variable {ε α κ : Type}

/-- The parts of a system: where a part stands, whose events they are, and how a part moves. -/
structure Cast (ε α κ : Type) where
  place : ε → κ
  key : α → Option κ
  Move : ε → List α → Option ε → Prop
  stays : ∀ {e events e'}, Move e events (some e') → place e' = place e
  owns : ∀ {e events e'}, Move e events e' → ∀ x ∈ events, key x = none ∨ key x = some (place e)

structure State (ε α : Type) where
  parts : List ε
  history : List α

inductive Step (S : Cast ε α κ) : State ε α → State ε α → Prop
  | noise (b : State ε α) (x : α) : S.key x = none → Step S b ⟨b.parts, b.history ++ [x]⟩
  | shuffle (b : State ε α) (parts : List ε) : parts.Perm b.parts → Step S b ⟨parts, b.history⟩
  | move (history : List α) (e : ε) (events : List α) (e' : Option ε) (rest : List ε) :
      S.Move e events e' → Step S ⟨e :: rest, history⟩ ⟨e'.toList ++ rest, history ++ events⟩

abbrev Steps (S : Cast ε α κ) : State ε α → State ε α → Prop := Relation.ReflTransGen (Step S)

variable {S : Cast ε α κ}

/-- A part anywhere on the board may move. -/
theorem Steps.move {b b' : State ε α} {e : ε} {events : List α} {e' : Option ε}
    (hmove : S.Move e events e') (rest : List ε) (hbefore : b.parts.Perm (e :: rest))
    (hafter : b'.parts.Perm (e'.toList ++ rest)) (hhistory : b'.history = b.history ++ events) :
    Steps S b b' := by
  obtain ⟨parts, history⟩ := b
  obtain ⟨parts', history'⟩ := b'
  simp only at hbefore hafter hhistory
  subst hhistory
  exact .tail (.tail (.single (.shuffle _ _ hbefore.symm)) (.move history e events e' rest hmove))
    (.shuffle _ _ hafter)

theorem Steps.leave_all {ι : Type} (part : ι → ε) (events : ι → List α) (rest : List ε) :
    ∀ (items : List ι) (history : List α), (∀ i ∈ items, S.Move (part i) (events i) none) →
      Steps S ⟨items.map part ++ rest, history⟩ ⟨rest, history ++ items.flatMap events⟩
  | [], history, _ => by simpa using Relation.ReflTransGen.refl
  | i :: items, history, hmoves => by
    have hfirst : Step S ⟨part i :: (items.map part ++ rest), history⟩
        ⟨items.map part ++ rest, history ++ events i⟩ :=
      .move history _ _ none _ (hmoves i List.mem_cons_self)
    have hrest := Steps.leave_all part events rest items (history ++ events i)
      fun j hj => hmoves j (List.mem_cons_of_mem _ hj)
    simpa using Relation.ReflTransGen.head hfirst hrest

/-- Parts may leave one after the other, each with events of its own. -/
theorem Steps.leave {ι : Type} (part : ι → ε) (events : ι → List α) (items : List ι)
    {b b' : State ε α} (hmoves : ∀ i ∈ items, S.Move (part i) (events i) none)
    (hbefore : b.parts.Perm (items.map part ++ b'.parts))
    (hhistory : b'.history = b.history ++ items.flatMap events) : Steps S b b' := by
  obtain ⟨parts, history⟩ := b
  obtain ⟨parts', history'⟩ := b'
  simp only at hbefore hhistory
  subst hhistory
  exact .head (.shuffle _ _ hbefore.symm) (Steps.leave_all part events parts' items history hmoves)

variable [DecidableEq κ]

/-- A claim at every place: of the part that stands there with the events of the place, and of an
    empty place with what happened there before. -/
structure Claims (S : Cast ε α κ) (C : κ → Option ε → List α → Prop) (b : State ε α) : Prop where
  distinct : (b.parts.map S.place).Nodup
  held : ∀ e ∈ b.parts, C (S.place e) (some e) (restrict S.key (S.place e) b.history)
  empty : ∀ k, k ∉ b.parts.map S.place → C k none (restrict S.key k b.history)

/-- What a part's moves must preserve for its claim to be an invariant. -/
def Preserves (S : Cast ε α κ) (C : κ → Option ε → List α → Prop) : Prop :=
  ∀ e events e' h, S.Move e events e' → C (S.place e) (some e) h →
    C (S.place e) e' (h ++ restrict S.key (S.place e) events)

variable {C : κ → Option ε → List α → Prop}

theorem Claims.perm {b : State ε α} (h : Claims S C b) {parts : List ε}
    (hperm : parts.Perm b.parts) : Claims S C ⟨parts, b.history⟩ where
  distinct := (hperm.map S.place).nodup_iff.mpr h.distinct
  held e he := h.held e (hperm.mem_iff.mp he)
  empty k hk := h.empty k fun hmem => hk ((hperm.map S.place).mem_iff.mpr hmem)

theorem restrict_noise {k : κ} {h : List α} {x : α} (hx : S.key x = none) :
    restrict S.key k (h ++ [x]) = restrict S.key k h :=
  restrict_append_of_ne S.key fun y hy => by simp_all

/-- The events of a part leave every other place alone. -/
theorem restrict_other {e : ε} {events : List α} {e' : Option ε} (hmove : S.Move e events e')
    {k : κ} (hk : k ≠ S.place e) (h : List α) :
    restrict S.key k (h ++ events) = restrict S.key k h := by
  refine restrict_append_of_ne S.key fun x hx hkey => ?_
  rcases S.owns hmove x hx with hnone | hplace
  · simp [hnone] at hkey
  · exact hk (Option.some.inj (hkey.symm.trans hplace))

theorem Claims.step (hC : Preserves S C) {b b' : State ε α} (hstep : Step S b b')
    (h : Claims S C b) : Claims S C b' := by
  cases hstep with
  | noise _ x hx =>
    refine ⟨h.distinct, fun e he => ?_, fun k hk => ?_⟩
    · rw [restrict_noise hx]; exact h.held e he
    · rw [restrict_noise hx]; exact h.empty k hk
  | shuffle _ parts hperm => exact h.perm hperm
  | move history e events e' rest hmove =>
    have hnodup := h.distinct
    rw [List.map_cons, List.nodup_cons] at hnodup
    obtain ⟨hfresh, hrest⟩ := hnodup
    have hplace : (e'.toList.map S.place) ⊆ [S.place e] := by
      cases e' with
      | none => simp
      | some e' => simp [S.stays hmove]
    have hmoved := hC e events e' _ hmove (h.held e List.mem_cons_self)
    refine ⟨?_, fun x hx => ?_, fun k hk => ?_⟩
    · cases e' with
      | none => exact hrest
      | some e' =>
        simp only [Option.toList_some, List.cons_append, List.nil_append, List.map_cons,
          List.nodup_cons, S.stays hmove]
        exact ⟨hfresh, hrest⟩
    · rcases List.mem_append.mp hx with hx | hx
      · cases e' with
        | none => simp at hx
        | some e' =>
          rw [Option.toList_some, List.mem_singleton] at hx
          rw [hx, S.stays hmove, restrict_append]
          exact hmoved
      · have hne : S.place x ≠ S.place e := fun heq =>
          hfresh (heq ▸ List.mem_map_of_mem hx)
        rw [restrict_other hmove hne]
        exact h.held x (List.mem_cons_of_mem _ hx)
    · rw [List.map_append, List.mem_append, not_or] at hk
      by_cases hke : k = S.place e
      · cases e' with
        | none => rw [hke, restrict_append]; exact hmoved
        | some e' => exact absurd (by simp [S.stays hmove, hke]) hk.1
      · rw [restrict_other hmove hke]
        refine h.empty k fun hmem => ?_
        rcases List.mem_cons.mp hmem with heq | hmem
        · exact hke heq
        · exact hk.2 hmem

/-- Invariant rule for a property of the whole board that needs the claims to be preserved. -/
theorem Claims.steps_with {I : State ε α → Prop} (hC : Preserves S C)
    (hI : ∀ b b', Step S b b' → Claims S C b → I b → I b') {b b' : State ε α}
    (hsteps : Steps S b b') (h : Claims S C b) (hb : I b) : Claims S C b' ∧ I b' := by
  induction hsteps with
  | refl => exact ⟨h, hb⟩
  | tail _ hstep ih => exact ⟨ih.1.step hC hstep, hI _ _ hstep ih.1 ih.2⟩

/-- Invariant rule: a claim that every part's own moves preserve holds at every place. -/
theorem Claims.steps (hC : Preserves S C) {b b' : State ε α} (hsteps : Steps S b b')
    (h : Claims S C b) : Claims S C b' :=
  (h.steps_with (I := fun _ => True) hC (fun _ _ _ _ _ => trivial) hsteps trivial).1

/-- Parts that change their role at their place keep the claims their new role keeps. -/
theorem Claims.relabel {ι : Type} {b b' : State ε α} (h : Claims S C b) (f g : ι → ε)
    (items : List ι) (rest : List ε) (hplace : ∀ i ∈ items, S.place (g i) = S.place (f i))
    (hC : ∀ i ∈ items, ∀ l, C (S.place (f i)) (some (f i)) l → C (S.place (f i)) (some (g i)) l)
    (hbefore : b.parts.Perm (items.map f ++ rest)) (hafter : b'.parts.Perm (items.map g ++ rest))
    (hhistory : ∀ k, restrict S.key k b'.history = restrict S.key k b.history) :
    Claims S C b' := by
  have hplaces : (b'.parts.map S.place).Perm (b.parts.map S.place) := by
    refine (hafter.map _).trans (.trans ?_ (hbefore.map _).symm)
    have hmap : items.map (fun i => S.place (g i)) = items.map fun i => S.place (f i) :=
      List.map_congr_left hplace
    simp [Function.comp_def, hmap]
  refine ⟨hplaces.nodup_iff.mpr h.distinct, fun e he => ?_, fun k hk => ?_⟩
  · rw [hhistory]
    rcases List.mem_append.mp (hafter.mem_iff.mp he) with hitem | hrest
    · obtain ⟨i, hi, rfl⟩ := List.mem_map.mp hitem
      rw [hplace i hi]
      refine hC i hi _ (h.held _ (hbefore.mem_iff.mpr ?_))
      exact List.mem_append_left _ (List.mem_map_of_mem hi)
    · exact h.held e (hbefore.mem_iff.mpr (List.mem_append_right _ hrest))
  · rw [hhistory]
    exact h.empty k fun hmem => hk (hplaces.mem_iff.mpr hmem)

end Board
