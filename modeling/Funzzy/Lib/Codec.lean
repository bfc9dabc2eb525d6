import Mathlib.Data.Nat.Digits.Defs
import Mathlib.Data.List.Forall2

/-! Encodings that can be told apart.

    `Delimits P enc` says that an encoded value with anything behind it determines the value and what is
    behind it, for values that satisfy `P`. Encodings written one after the other are then taken apart
    one after the other: this is how it is shown that a sequence of fields determines them. -/

namespace Codec

variable {α β σ : Type}

/-! ### Delimited encodings -/

def Delimits (P : α → Prop) (enc : α → List σ) : Prop :=
  ∀ a b x y, P a → P b → enc a ++ x = enc b ++ y → a = b ∧ x = y

/-- Encodings of one length. -/
theorem Delimits.of_length {P : α → Prop} {enc : α → List σ} (length : Nat)
    (hlength : ∀ a, P a → (enc a).length = length)
    (hinjective : ∀ a b, P a → P b → enc a = enc b → a = b) : Delimits P enc := by
  intro a b x y ha hb h
  obtain ⟨henc, hrest⟩ := List.append_inj h ((hlength a ha).trans (hlength b hb).symm)
  exact ⟨hinjective a b ha hb henc, hrest⟩

/-- A body behind its length. -/
def sized (size : Nat → List σ) (body : α → List σ) (a : α) : List σ := size (body a).length ++ body a

theorem Delimits.sized {P : Nat → Prop} {size : Nat → List σ} (hsize : Delimits P size)
    {body : α → List σ} (hbody : ∀ a b, body a = body b → a = b) :
    Delimits (fun a => P (body a).length) (sized size body) := by
  intro a b x y ha hb h
  rw [Codec.sized, Codec.sized, List.append_assoc, List.append_assoc] at h
  obtain ⟨hlength, hrest⟩ := hsize _ _ _ _ ha hb h
  obtain ⟨hsame, hbehind⟩ := List.append_inj hrest hlength
  exact ⟨hbody a b hsame, hbehind⟩

/-- Elements one behind the other, with nothing else, if none is empty. -/
theorem Delimits.flatMap_injective {P : α → Prop} {enc : α → List σ} (h : Delimits P enc)
    (hne : ∀ a, enc a ≠ []) : ∀ l m : List α, (∀ a ∈ l, P a) → (∀ a ∈ m, P a) →
      l.flatMap enc = m.flatMap enc → l = m
  | [], [], _, _, _ => rfl
  | [], b :: m, _, _, heq => absurd (List.append_eq_nil_iff.mp heq.symm).1 (hne b)
  | a :: l, [], _, _, heq => absurd (List.append_eq_nil_iff.mp heq).1 (hne a)
  | a :: l, b :: m, hl, hm, heq => by
    obtain ⟨rfl, hrest⟩ := h a b _ _ (hl a List.mem_cons_self) (hm b List.mem_cons_self) heq
    rw [flatMap_injective h hne l m (fun c hc => hl c (List.mem_cons_of_mem _ hc))
      (fun c hc => hm c (List.mem_cons_of_mem _ hc)) hrest]

/-- Elements without a count, if each tells something, tell it of lists of one length. -/
theorem forall₂_of_flatMap {P : α → Prop} {R : α → α → Prop} {enc : α → List σ}
    (h : ∀ a b x y, P a → P b → enc a ++ x = enc b ++ y → R a b ∧ x = y) :
    ∀ (l m : List α) (x y : List σ), l.length = m.length → (∀ a ∈ l, P a) → (∀ a ∈ m, P a) →
      l.flatMap enc ++ x = m.flatMap enc ++ y → List.Forall₂ R l m ∧ x = y := by
  intro l
  induction l with
  | nil =>
    intro m x y hlength _ _ heq
    rw [List.length_eq_zero_iff.mp hlength.symm] at heq ⊢
    exact ⟨.nil, heq⟩
  | cons a l ih =>
    intro m x y hlength hl hm heq
    cases m with
    | nil => cases hlength
    | cons b m =>
      rw [List.flatMap_cons, List.flatMap_cons, List.append_assoc, List.append_assoc] at heq
      obtain ⟨hfirst, hrest⟩ := h a b _ _ (hl a List.mem_cons_self) (hm b List.mem_cons_self) heq
      obtain ⟨hothers, hbehind⟩ := ih m x y (Nat.succ.inj hlength)
        (fun c hc => hl c (List.mem_cons_of_mem _ hc)) (fun c hc => hm c (List.mem_cons_of_mem _ hc)) hrest
      exact ⟨.cons hfirst hothers, hbehind⟩

/-- Elements behind their count. -/
def counted (size : Nat → List σ) (enc : α → List σ) (l : List α) : List σ :=
  size l.length ++ l.flatMap enc

theorem Delimits.counted {C : Nat → Prop} {size : Nat → List σ} (hsize : Delimits C size)
    {P : α → Prop} {enc : α → List σ} (h : Delimits P enc) :
    Delimits (fun l : List α => C l.length ∧ ∀ a ∈ l, P a) (counted size enc) := by
  rintro l m x y ⟨hcount, hl⟩ ⟨hcount', hm⟩ heq
  rw [Codec.counted, Codec.counted, List.append_assoc, List.append_assoc] at heq
  obtain ⟨hlength, hrest⟩ := hsize _ _ _ _ hcount hcount' heq
  obtain ⟨hsame, hbehind⟩ := forall₂_of_flatMap h l m x y hlength hl hm hrest
  exact ⟨List.forall₂_eq_eq_eq ▸ hsame, hbehind⟩

/-- Elements before a stop that begins none of them. -/
def stopped (stop : σ) (enc : α → List σ) (l : List α) : List σ := l.flatMap enc ++ [stop]

theorem Delimits.stopped {P : α → Prop} {enc : α → List σ} (h : Delimits P enc) {stop : σ}
    (hstop : ∀ a, P a → ∃ s rest, enc a = s :: rest ∧ s ≠ stop) :
    Delimits (fun l : List α => ∀ a ∈ l, P a) (stopped stop enc) := by
  intro l
  induction l with
  | nil =>
    intro m x y _ hm heq
    cases m with
    | nil => exact ⟨rfl, by simpa [Codec.stopped] using heq⟩
    | cons b m =>
      obtain ⟨s, rest, henc, hne⟩ := hstop b (hm b List.mem_cons_self)
      simp only [Codec.stopped, List.flatMap_nil, List.nil_append, List.flatMap_cons, henc, List.cons_append] at heq
      exact absurd (List.cons.inj heq).1.symm hne
  | cons a l ih =>
    intro m x y hl hm heq
    cases m with
    | nil =>
      obtain ⟨s, rest, henc, hne⟩ := hstop a (hl a List.mem_cons_self)
      simp only [Codec.stopped, List.flatMap_nil, List.nil_append, List.flatMap_cons, henc, List.cons_append] at heq
      exact absurd (List.cons.inj heq).1 hne
    | cons b m =>
      simp only [Codec.stopped, List.flatMap_cons, List.append_assoc] at heq
      obtain ⟨rfl, hrest⟩ := h a b _ _ (hl a List.mem_cons_self) (hm b List.mem_cons_self) heq
      have hnext := ih m x y (fun c hc => hl c (List.mem_cons_of_mem _ hc))
        (fun c hc => hm c (List.mem_cons_of_mem _ hc)) (by simpa [Codec.stopped] using hrest)
      exact ⟨by rw [hnext.1], hnext.2⟩

/-- A text before a stop that it does not hold. -/
theorem delimits_text (stop : σ) :
    Delimits (fun text : List σ => ∀ c ∈ text, c ≠ stop) (fun text => text ++ [stop]) := by
  have hsingle : Delimits (fun c : σ => c ≠ stop) fun c => [c] :=
    .of_length 1 (fun _ _ => rfl) fun _ _ _ _ h => List.singleton_injective h
  have hstopped : Delimits _ (Codec.stopped stop fun c : σ => [c]) :=
    hsingle.stopped fun c hc => ⟨c, [], rfl, hc⟩
  simpa [Delimits, Codec.stopped] using hstopped

/-- An optional value: a mark, and the value behind it if there is one. -/
def optional (present absent : List σ) (enc : α → List σ) : Option α → List σ
  | some a => present ++ enc a
  | none => absent

theorem Delimits.optional {P : α → Prop} {enc : α → List σ} (h : Delimits P enc) {present absent : List σ}
    (hmarks : ∀ x y, present ++ x ≠ absent ++ y) :
    Delimits (fun o : Option α => ∀ a, o = some a → P a) (optional present absent enc) := by
  intro o p x y ho hp heq
  cases o with
  | none =>
    cases p with
    | none => exact ⟨rfl, List.append_cancel_left heq⟩
    | some b =>
      simp only [Codec.optional, List.append_assoc] at heq
      exact absurd heq.symm (hmarks _ _)
  | some a =>
    cases p with
    | none =>
      simp only [Codec.optional, List.append_assoc] at heq
      exact absurd heq (hmarks _ _)
    | some b =>
      simp only [Codec.optional, List.append_assoc] at heq
      obtain ⟨rfl, hrest⟩ := h a b x y (ho a rfl) (hp b rfl) (List.append_cancel_left heq)
      exact ⟨rfl, hrest⟩

/-! ### Numbers -/

/-- The little-endian bytes of a number, in a fixed width. -/
def littleEndian : Nat → Nat → List UInt8
  | 0, _ => []
  | width + 1, n => UInt8.ofNat n :: littleEndian width (n / 256)

theorem littleEndian_length (width : Nat) : ∀ n, (littleEndian width n).length = width := by
  induction width with
  | zero => exact fun n => rfl
  | succ width ih =>
    intro n
    rw [littleEndian, List.length_cons, ih]

theorem littleEndian_injective (width : Nat) : ∀ n m, n < 256 ^ width → m < 256 ^ width →
    littleEndian width n = littleEndian width m → n = m := by
  induction width with
  | zero =>
    intro n m hn hm _
    omega
  | succ width ih =>
    intro n m hn hm h
    obtain ⟨hhead, htail⟩ := List.cons.inj h
    have hlow : n % 256 = m % 256 := by
      have hbytes := congrArg UInt8.toNat hhead
      simpa using hbytes
    have hhigh : n / 256 = m / 256 := by
      rw [Nat.pow_succ'] at hn hm
      exact ih _ _ (Nat.div_lt_of_lt_mul hn) (Nat.div_lt_of_lt_mul hm) htail
    rw [← Nat.div_add_mod n 256, ← Nat.div_add_mod m 256, hlow, hhigh]

theorem littleEndian_delimits (width : Nat) : Delimits (· < 256 ^ width) (littleEndian width) :=
  .of_length width (fun n _ => littleEndian_length width n) (littleEndian_injective width)

/-- The hexadecimal digits of a number determine it. -/
theorem toDigits_sixteen_injective : ∀ n m, Nat.toDigits 16 n = Nat.toDigits 16 m → n = m := by
  have hdigit : ∀ a < 16, ∀ b < 16, a.digitChar = b.digitChar → a = b := by decide
  intro n
  induction n using Nat.strong_induction_on with
  | h n ih =>
    intro m h
    rw [Nat.toDigits_eq_if (by decide), Nat.toDigits_eq_if (by decide) (n := m)] at h
    have hsingle : ∀ k : Nat, k ≠ 0 → ∀ c d, Nat.toDigits 16 k ++ [c] ≠ [d] := by
      intro k hk c d heq
      have hlength := congrArg List.length heq
      have hpos : 0 < (Nat.toDigits 16 k).length := Nat.length_toDigits_pos
      simp only [List.length_append, List.length_singleton] at hlength
      omega
    by_cases hn : n < 16
    · by_cases hm : m < 16
      · rw [if_pos hn, if_pos hm] at h
        exact hdigit n hn m hm (List.singleton_inj.mp h)
      · rw [if_pos hn, if_neg hm] at h
        exact absurd h.symm (hsingle (m / 16) (by omega) _ _)
    · by_cases hm : m < 16
      · rw [if_neg hn, if_pos hm] at h
        exact absurd h (hsingle (n / 16) (by omega) _ _)
      · rw [if_neg hn, if_neg hm] at h
        obtain ⟨hhigh, hlow⟩ := List.append_inj' h rfl
        have hquotient := ih (n / 16) (by omega) (m / 16) hhigh
        have hremainder := hdigit _ (Nat.mod_lt n (by decide)) _ (Nat.mod_lt m (by decide))
          (List.singleton_inj.mp hlow)
        rw [← Nat.div_add_mod n 16, ← Nat.div_add_mod m 16, hquotient, hremainder]

theorem digit_of_mem_toDigits_sixteen {c : Char} :
    ∀ n, c ∈ Nat.toDigits 16 n → ∃ d < 16, c = Nat.digitChar d := by
  intro n
  induction n using Nat.strong_induction_on with
  | h n ih =>
    intro hc
    rw [Nat.toDigits_eq_if (by decide)] at hc
    split at hc
    · rename_i hn
      exact ⟨n, hn, List.mem_singleton.mp hc⟩
    · rename_i hn
      rcases List.mem_append.mp hc with hc | hc
      · exact ih (n / 16) (by omega) hc
      · exact ⟨n % 16, Nat.mod_lt n (by decide), List.mem_singleton.mp hc⟩

theorem toDigits_ten_injective {n m : Nat} (h : Nat.toDigits 10 n = Nat.toDigits 10 m) : n = m := by
  rw [← Nat.ofDigitChars_ten_toDigits (n := n), ← Nat.ofDigitChars_ten_toDigits (n := m), h]

end Codec
