import Mathlib.Data.List.Chain

/-! The chain at the end of a list.

    `lastChain` is the longest suffix in which each element is related to the next. One more element goes on
    with it when the last element is related to the new one, and else starts over. -/

namespace Chains

variable {α : Type} (R : α → α → Prop)

/-- A suffix that is a chain, and no shorter than any other. -/
structure IsLastChain (list chain : List α) : Prop where
  suffix : chain <:+ list
  linked : chain.IsChain R
  longest : ∀ other, other <:+ list → other.IsChain R → other.length ≤ chain.length

theorem IsLastChain.unique {list a b : List α} (ha : IsLastChain R list a) (hb : IsLastChain R list b) : a = b := by
  have hle := hb.longest a ha.suffix ha.linked
  have hge := ha.longest b hb.suffix hb.linked
  exact (List.suffix_of_suffix_length_le ha.suffix hb.suffix hle).eq_of_length (Nat.le_antisymm hle hge)

variable [DecidableRel R]

/-- The first suffix that is a chain, longer ones first. -/
def lastChain : List α → List α
  | [] => []
  | x :: rest => if (x :: rest).IsChain R then x :: rest else lastChain rest

theorem lastChain_spec (list : List α) : IsLastChain R list (lastChain R list) := by
  induction list with
  | nil => exact ⟨List.suffix_refl _, .nil, fun other h _ => h.length_le⟩
  | cons x rest ih =>
    rw [lastChain]
    split
    · next hchain => exact ⟨List.suffix_refl _, hchain, fun other h _ => h.length_le⟩
    · next hbroken =>
      refine ⟨ih.suffix.trans (List.suffix_cons x rest), ih.linked, fun other h hother => ?_⟩
      rcases List.suffix_cons_iff.mp h with rfl | h
      · exact absurd hother hbroken
      · exact ih.longest other h hother

/-- One more element. -/
theorem lastChain_concat (list : List α) (x : α) : lastChain R (list ++ [x]) =
    if ∀ last ∈ list.getLast?, R last x then lastChain R list ++ [x] else [x] := by
  have hspec := lastChain_spec R list
  have hlast : ∀ suffix, suffix <:+ list → suffix ≠ [] → suffix.getLast? = list.getLast? := by
    rintro suffix ⟨front, rfl⟩ hne
    exact (List.getLast?_append_of_ne_nil front hne).symm
  have hconcat : ∀ suffix, suffix <:+ list →
      ((suffix ++ [x]).IsChain R ↔ suffix.IsChain R ∧ ∀ last ∈ suffix.getLast?, R last x) := by
    intro suffix _
    simp [List.isChain_append]
  refine (lastChain_spec R (list ++ [x])).unique R ?_
  split
  · next hrelated =>
    have hsuffix : ∀ suffix, suffix <:+ list → ∀ last ∈ suffix.getLast?, R last x := by
      intro suffix h last hmem
      by_cases hne : suffix = []
      · rw [hne] at hmem
        cases hmem
      · exact hrelated last (hlast suffix h hne ▸ hmem)
    obtain ⟨front, hfront⟩ := hspec.suffix
    refine ⟨⟨front, by rw [← List.append_assoc, hfront]⟩,
      (hconcat _ hspec.suffix).mpr ⟨hspec.linked, hsuffix _ hspec.suffix⟩, fun other h hother => ?_⟩
    rcases List.suffix_concat_iff.mp h with rfl | ⟨front, rfl, hfront⟩
    · exact Nat.zero_le _
    · have hlength := hspec.longest front hfront ((hconcat front hfront).mp hother).1
      simpa using hlength
  · next hbroken =>
    refine ⟨List.suffix_append list [x], .singleton x, fun other h hother => ?_⟩
    rcases List.suffix_concat_iff.mp h with rfl | ⟨front, rfl, hfront⟩
    · exact Nat.zero_le _
    · by_cases hne : front = []
      · rw [hne]
        exact Nat.le_refl 1
      · rw [← hlast front hfront hne] at hbroken
        exact absurd ((hconcat front hfront).mp hother).2 hbroken

end Chains
