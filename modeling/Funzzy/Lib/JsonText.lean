import Mathlib.Data.List.TakeWhile
import Funzzy.Lib.Codec

/-! The pieces of a JSON text: quoted strings and numbers.

    A string is escaped byte by byte: quotation marks, backslashes and everything below the blank get an
    escape sequence, all other bytes stand for themselves. So a quoted string is on one line, and it can be
    told where it ends. A number ends where the first byte follows that no number has. -/

namespace JsonText

open Codec

/-! ### Strings -/

/-- A digit of a four-digit escape. -/
def hexDigit (n : UInt8) : UInt8 := if n < 10 then 0x30 + n else 0x57 + n

def escape (b : UInt8) : List UInt8 :=
  if b = 0x22 then [0x5C, 0x22]
  else if b = 0x5C then [0x5C, 0x5C]
  else if b = 0x08 then [0x5C, 0x62]
  else if b = 0x09 then [0x5C, 0x74]
  else if b = 0x0A then [0x5C, 0x6E]
  else if b = 0x0C then [0x5C, 0x66]
  else if b = 0x0D then [0x5C, 0x72]
  else if b < 0x20 then [0x5C, 0x75, 0x30, 0x30, hexDigit (b / 16), hexDigit (b % 16)]
  else [b]

def quote (text : List UInt8) : List UInt8 := 0x22 :: stopped 0x22 escape text

/-- The value of a digit of an escape. -/
def fromHex (c : UInt8) : UInt8 := if c < 0x3A then c - 0x30 else c - 0x57

theorem fromHex_hexDigit {b : UInt8} (h : b < 0x20) :
    16 * fromHex (hexDigit (b / 16)) + fromHex (hexDigit (b % 16)) = b := by
  have hall : ∀ n < 32, 16 * fromHex (hexDigit (UInt8.ofNat n / 16)) + fromHex (hexDigit (UInt8.ofNat n % 16))
      = UInt8.ofNat n := by
    decide
  have hb := hall b.toNat (UInt8.lt_iff_toNat_lt.mp h)
  rwa [UInt8.ofNat_toNat] at hb

/-- Reads one byte back. -/
def unescape : List UInt8 → Option (UInt8 × List UInt8)
  | [] => none
  | b :: rest =>
    if b = 0x5C then
      match rest with
      | 0x75 :: _ :: _ :: high :: low :: rest => some (16 * fromHex high + fromHex low, rest)
      | 0x62 :: rest => some (0x08, rest)
      | 0x74 :: rest => some (0x09, rest)
      | 0x6E :: rest => some (0x0A, rest)
      | 0x66 :: rest => some (0x0C, rest)
      | 0x72 :: rest => some (0x0D, rest)
      | c :: rest => some (c, rest)
      | [] => none
    else some (b, rest)

theorem unescape_escape (b : UInt8) (rest : List UInt8) : unescape (escape b ++ rest) = some (b, rest) := by
  unfold escape
  split_ifs with h₁ h₂ h₃ h₄ h₅ h₆ h₇ h₈
  · rw [h₁]; rfl
  · rw [h₂]; rfl
  · rw [h₃]; rfl
  · rw [h₄]; rfl
  · rw [h₅]; rfl
  · rw [h₆]; rfl
  · rw [h₇]; rfl
  · exact congrArg (fun c => some (c, rest)) (fromHex_hexDigit h₈)
  · exact if_neg h₂

theorem escape_delimits : Delimits (fun _ : UInt8 => True) escape := by
  intro a b x y _ _ h
  have hread := (unescape_escape a x).symm.trans ((congrArg unescape h).trans (unescape_escape b y))
  simpa using hread

/-- What an escape begins with is no closing quotation mark. -/
theorem escape_cons (b : UInt8) : ∃ first rest, escape b = first :: rest ∧ first ≠ 0x22 := by
  unfold escape
  split_ifs with h₁ h₂ h₃ h₄ h₅ h₆ h₇ h₈
  all_goals first | exact ⟨_, _, rfl, h₁⟩ | exact ⟨_, _, rfl, by decide⟩

theorem quote_delimits : Delimits (fun _ : List UInt8 => True) quote := by
  intro s t x y _ _ h
  have hstopped := escape_delimits.stopped fun b _ => escape_cons b
  exact hstopped s t x y (fun _ _ => trivial) (fun _ _ => trivial) (List.cons.inj h).2

/-- Bytes that may stand in a text of one line. -/
def Printing (text : List UInt8) : Prop := ∀ b ∈ text, 0x20 ≤ b

theorem Printing.append {text more : List UInt8} (h : Printing text) (hmore : Printing more) :
    Printing (text ++ more) :=
  List.forall_mem_append.mpr ⟨h, hmore⟩

theorem hexDigit_printing {n : UInt8} (h : n < 16) : 0x20 ≤ hexDigit n := by
  have hall : ∀ k < 16, 0x20 ≤ hexDigit (UInt8.ofNat k) := by decide
  have hn := hall n.toNat (UInt8.lt_iff_toNat_lt.mp h)
  rwa [UInt8.ofNat_toNat] at hn

theorem printing_escape (b : UInt8) : Printing (escape b) := by
  unfold escape
  split_ifs with h₁ h₂ h₃ h₄ h₅ h₆ h₇ h₈
  iterate 7 · simp [Printing]
  · have hhigh : 0x20 ≤ hexDigit (b / 16) := hexDigit_printing (by
      rw [UInt8.lt_iff_toNat_lt] at h₈ ⊢
      rw [UInt8.toNat_div]
      exact Nat.div_lt_of_lt_mul (h₈.trans (by decide)))
    have hlow : 0x20 ≤ hexDigit (b % 16) := hexDigit_printing (by
      rw [UInt8.lt_iff_toNat_lt, UInt8.toNat_mod]
      exact Nat.mod_lt _ (by decide))
    simp [Printing, hhigh, hlow]
  · exact List.forall_mem_singleton.mpr (UInt8.not_lt.mp h₈)

/-- A quoted string has no byte that would end its line. -/
theorem printing_quote (text : List UInt8) : Printing (quote text) := by
  have hbody : Printing (text.flatMap escape) := by
    intro c hc
    obtain ⟨b, -, hb⟩ := List.mem_flatMap.mp hc
    exact printing_escape b c hb
  have hmark : Printing [0x22] := by simp [Printing]
  exact hmark.append (hbody.append hmark)

/-! ### Numbers -/

/-- The bytes of a number. -/
def isNumeric (b : UInt8) : Bool :=
  (0x30 ≤ b && b ≤ 0x39) || b == 0x2D || b == 0x2B || b == 0x2E || b == 0x45 || b == 0x65

theorem printing_of_numeric {b : UInt8} (h : isNumeric b = true) : 0x20 ≤ b := by
  by_contra hlow
  have hcases : ∀ n < 32, isNumeric (UInt8.ofNat n) = false := by decide
  have hb := hcases b.toNat (UInt8.lt_iff_toNat_lt.mp (UInt8.not_le.mp hlow))
  rw [UInt8.ofNat_toNat, h] at hb
  cases hb

/-- What follows a number does not go on with it. -/
def Ends (rest : List UInt8) : Prop := ∀ b ∈ rest.head?, isNumeric b = false

theorem takeWhile_numeric {text rest : List UInt8} (htext : ∀ b ∈ text, isNumeric b = true) (hrest : Ends rest) :
    (text ++ rest).takeWhile isNumeric = text := by
  rw [List.takeWhile_append_of_pos htext]
  cases rest with
  | nil => rw [List.takeWhile_nil, List.append_nil]
  | cons b rest =>
    have hb : ¬isNumeric b = true := by simp [hrest b rfl]
    rw [List.takeWhile_cons_of_neg hb, List.append_nil]

theorem numeric_delimits {s t x y : List UInt8} (hs : ∀ b ∈ s, isNumeric b = true)
    (ht : ∀ b ∈ t, isNumeric b = true) (hx : Ends x) (hy : Ends y) (h : s ++ x = t ++ y) : s = t ∧ x = y := by
  have hsame : s = t := by
    rw [← takeWhile_numeric hs hx, h, takeWhile_numeric ht hy]
  exact ⟨hsame, List.append_cancel_left (hsame ▸ h)⟩

/-- A natural number. -/
def decimal (n : Nat) : List UInt8 := (Nat.toDigits 10 n).map Char.toUInt8

/-- A whole number. -/
def integer (n : Int) : List UInt8 := if n < 0 then 0x2D :: decimal n.natAbs else decimal n.natAbs

theorem digit_toNat {c : Char} (h : c.isDigit = true) :
    c.toUInt8.toNat = c.toNat ∧ 48 ≤ c.toNat ∧ c.toNat ≤ 57 := by
  obtain ⟨hlow, hhigh⟩ : 48 ≤ c.toNat ∧ c.toNat ≤ 57 := by
    simpa [Char.isDigit, UInt32.le_iff_toNat_le] using h
  refine ⟨?_, hlow, hhigh⟩
  exact Nat.mod_eq_of_lt (by omega : c.toNat < 256)

theorem mem_decimal {n : Nat} {b : UInt8} (h : b ∈ decimal n) : 48 ≤ b.toNat ∧ b.toNat ≤ 57 := by
  obtain ⟨c, hc, rfl⟩ := List.mem_map.mp h
  obtain ⟨hbyte, hbounds⟩ := digit_toNat (Nat.isDigit_of_mem_toDigits (by decide) (by decide) hc)
  rwa [hbyte]

theorem decimal_injective {n m : Nat} (h : decimal n = decimal m) : n = m := by
  have hback : ∀ k, (decimal k).map (fun b => Char.ofNat b.toNat) = Nat.toDigits 10 k := by
    intro k
    rw [decimal, List.map_map]
    refine (List.map_congr_left fun c hc => ?_).trans (List.map_id _)
    obtain ⟨hbyte, -⟩ := digit_toNat (Nat.isDigit_of_mem_toDigits (by decide) (by decide) hc)
    rw [Function.comp_apply, hbyte, Char.ofNat_toNat, id]
  exact toDigits_ten_injective (by rw [← hback n, h, hback m])

theorem decimal_ne_nil (n : Nat) : decimal n ≠ [] := by
  simp [decimal, Nat.toDigits_ne_nil]

theorem integer_ne_nil (n : Int) : integer n ≠ [] := by
  unfold integer
  split
  · exact List.cons_ne_nil _ _
  · exact decimal_ne_nil _

theorem integer_numeric (n : Int) : ∀ b ∈ integer n, isNumeric b = true := by
  have hdigits : ∀ k, ∀ b ∈ decimal k, isNumeric b = true := by
    intro k b hb
    have hbounds := mem_decimal hb
    simp [isNumeric, UInt8.le_iff_toNat_le, hbounds]
  unfold integer
  split
  · exact List.forall_mem_cons.mpr ⟨by decide, hdigits _⟩
  · exact hdigits _

/-- Neither a point nor an exponent is in a whole number. -/
theorem integer_plain (n : Int) : ∀ b ∈ integer n, b ≠ 0x2E ∧ b ≠ 0x65 := by
  have hdigits : ∀ k, ∀ b ∈ decimal k, b ≠ 0x2E ∧ b ≠ 0x65 := by
    intro k b hb
    have hbounds := mem_decimal hb
    constructor
    · rintro rfl
      exact absurd hbounds.1 (by decide)
    · rintro rfl
      exact absurd hbounds.2 (by decide)
  unfold integer
  split
  · exact List.forall_mem_cons.mpr ⟨by decide, hdigits _⟩
  · exact hdigits _

theorem integer_injective {n m : Int} (h : integer n = integer m) : n = m := by
  have hsign : ∀ k l : Nat, decimal k ≠ 0x2D :: decimal l := by
    intro k l heq
    have hmem : (0x2D : UInt8) ∈ decimal k := heq ▸ List.mem_cons_self
    exact absurd (mem_decimal hmem).1 (by decide)
  unfold integer at h
  split at h
  · next hn =>
    split at h
    · next hm =>
      have habs := decimal_injective (List.cons.inj h).2
      omega
    · exact absurd h.symm (hsign _ _)
  · next hn =>
    split at h
    · exact absurd h (hsign _ _)
    · next hm =>
      have habs := decimal_injective h
      omega

end JsonText
