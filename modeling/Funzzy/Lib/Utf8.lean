import Mathlib.Data.List.Basic
import Mathlib.Data.List.TakeWhile

/-! Lossy reading of bytes as UTF-8.

    A byte string is scanned from the left into chunks: a chunk is a well-formed character, or an
    ill-formed sequence, which is a lead byte with as many of its continuation bytes as are there. The
    lossy text has the replacement character in the place of every ill-formed chunk. The results are
    about positions: where chunks end in the bytes and where their characters end in the text. -/

namespace Utf8

/-! ### Scanning -/

/-- How many bytes the character has that begins with this byte; none begins so if it is zero. -/
def width (lead : UInt8) : Nat :=
  if lead < 0x80 then 1
  else if lead < 0xC2 then 0
  else if lead < 0xE0 then 2
  else if lead < 0xF0 then 3
  else if lead < 0xF5 then 4
  else 0

def isContinuation (b : UInt8) : Bool := 0x80 ≤ b && b ≤ 0xBF

/-- Which bytes may stand second: those that make no overlong form, surrogate or too large a scalar. -/
def isSecond (lead b : UInt8) : Bool :=
  if lead = 0xE0 then 0xA0 ≤ b && b ≤ 0xBF
  else if lead = 0xED then 0x80 ≤ b && b ≤ 0x9F
  else if lead = 0xF0 then 0x90 ≤ b && b ≤ 0xBF
  else if lead = 0xF4 then 0x80 ≤ b && b ≤ 0x8F
  else isContinuation b

/-- The bytes behind a lead byte that belong to its character, at most `needed` of them. -/
def tail (lead : UInt8) : Nat → List UInt8 → List UInt8
  | 0, _ | _, [] => []
  | needed + 1, b :: rest =>
    if isSecond lead b then b :: (rest.take needed).takeWhile isContinuation else []

structure Chunk where
  raw : List UInt8
  valid : Bool
  deriving DecidableEq

/-- The first chunk of `lead :: rest`. -/
def firstChunk (lead : UInt8) (rest : List UInt8) : Chunk :=
  let tail := tail lead (width lead - 1) rest
  ⟨lead :: tail, tail.length + 1 = width lead⟩

/-- The chunks of at most this many bytes. -/
def scan : Nat → List UInt8 → List Chunk
  | 0, _ | _, [] => []
  | fuel + 1, lead :: rest =>
    let chunk := firstChunk lead rest
    chunk :: scan fuel ((lead :: rest).drop chunk.raw.length)

def chunks (bytes : List UInt8) : List Chunk := scan bytes.length bytes

/-- U+FFFD -/
def replacement : List UInt8 := [0xEF, 0xBF, 0xBD]

def Chunk.render (chunk : Chunk) : List UInt8 := if chunk.valid then chunk.raw else replacement

/-- The text of a chunk sequence. -/
def render (cs : List Chunk) : List UInt8 := cs.flatMap Chunk.render

/-- `String::from_utf8_lossy`, as the bytes of its text. -/
def lossy (bytes : List UInt8) : List UInt8 := render (chunks bytes)

/-! ### The first chunk -/

theorem tail_isPrefix (lead : UInt8) (needed : Nat) (rest : List UInt8) :
    tail lead needed rest <+: rest := by
  cases needed with
  | zero => exact List.nil_prefix
  | succ needed =>
    cases rest with
    | nil => exact List.nil_prefix
    | cons b rest =>
      rw [tail]
      split
      · refine (List.prefix_cons_inj b).mpr ?_
        exact (List.takeWhile_prefix _).trans (List.take_prefix _ _)
      · exact List.nil_prefix

theorem tail_length_le (lead : UInt8) (needed : Nat) (rest : List UInt8) :
    (tail lead needed rest).length ≤ needed := by
  cases needed with
  | zero => exact Nat.le_refl _
  | succ needed =>
    cases rest with
    | nil => exact Nat.zero_le _
    | cons b rest =>
      rw [tail]
      split
      · have htake := (List.takeWhile_prefix isContinuation (l := rest.take needed)).length_le
        rw [List.length_take] at htake
        rw [List.length_cons]
        omega
      · exact Nat.zero_le _

theorem width_le (lead : UInt8) : width lead ≤ 4 := by
  unfold width
  split_ifs <;> omega

theorem firstChunk_isPrefix (lead : UInt8) (rest : List UInt8) :
    (firstChunk lead rest).raw <+: lead :: rest :=
  (List.prefix_cons_inj lead).mpr (tail_isPrefix ..)

theorem firstChunk_append_drop (lead : UInt8) (rest : List UInt8) :
    (firstChunk lead rest).raw ++ (lead :: rest).drop (firstChunk lead rest).raw.length
      = lead :: rest := by
  obtain ⟨behind, hbehind⟩ := firstChunk_isPrefix lead rest
  rw [← hbehind, List.drop_left]

/-! ### All chunks -/

/-- Fuel beyond the number of bytes does nothing. -/
theorem scan_fuel (n : Nat) : ∀ (m : Nat) (bytes : List UInt8), bytes.length ≤ n → bytes.length ≤ m →
    scan n bytes = scan m bytes := by
  induction n with
  | zero =>
    intro m bytes hn _
    rw [List.length_eq_zero_iff.mp (Nat.le_zero.mp hn)]
    cases m <;> rfl
  | succ n ih =>
    intro m bytes hn hm
    cases bytes with
    | nil => cases m <;> rfl
    | cons lead rest =>
      cases m with
      | zero => cases hm
      | succ m =>
        have hdrop : ((lead :: rest).drop (firstChunk lead rest).raw.length).length ≤ rest.length := by
          rw [List.length_drop]
          simp only [firstChunk, List.length_cons]
          omega
        rw [List.length_cons] at hn hm
        rw [scan, scan]
        exact congrArg _ (ih m _ (by omega) (by omega))

@[simp] theorem chunks_nil : chunks [] = [] := rfl

theorem chunks_cons (lead : UInt8) (rest : List UInt8) :
    chunks (lead :: rest) = firstChunk lead rest
      :: chunks ((lead :: rest).drop (firstChunk lead rest).raw.length) := by
  rw [chunks, List.length_cons, scan]
  refine congrArg _ (scan_fuel _ _ _ ?_ (Nat.le_refl _))
  rw [List.length_drop]
  simp only [firstChunk, List.length_cons]
  omega

/-- Induction along the chunks of a byte string. -/
theorem chunks_induction {motive : List UInt8 → Prop} (nil : motive [])
    (cons : ∀ lead rest, motive ((lead :: rest).drop (firstChunk lead rest).raw.length) →
      motive (lead :: rest)) (bytes : List UInt8) : motive bytes := by
  suffices h : ∀ n, ∀ bytes : List UInt8, bytes.length ≤ n → motive bytes by
    exact h bytes.length bytes (Nat.le_refl _)
  intro n
  induction n with
  | zero =>
    intro bytes hn
    rw [List.length_eq_zero_iff.mp (Nat.le_zero.mp hn)]
    exact nil
  | succ n ih =>
    intro bytes hn
    cases bytes with
    | nil => exact nil
    | cons lead rest =>
      refine cons lead rest (ih _ ?_)
      rw [List.length_cons] at hn
      rw [List.length_drop]
      simp only [firstChunk, List.length_cons]
      omega

/-- The bytes of a chunk sequence. -/
def raw (cs : List Chunk) : List UInt8 := cs.flatMap Chunk.raw

theorem raw_chunks (bytes : List UInt8) : raw (chunks bytes) = bytes := by
  induction bytes using chunks_induction with
  | nil => rfl
  | cons lead rest ih =>
    rw [chunks_cons, raw, List.flatMap_cons, ← raw, ih, firstChunk_append_drop]

/-- Behind its first chunks a byte string scans to its other chunks. -/
theorem chunks_drop (bytes : List UInt8) : ∀ j,
    chunks (bytes.drop (raw ((chunks bytes).take j)).length) = (chunks bytes).drop j := by
  induction bytes using chunks_induction with
  | nil =>
    intro j
    rw [chunks_nil, List.drop_nil, List.drop_nil]
    rfl
  | cons lead rest ih =>
    intro j
    cases j with
    | zero => rfl
    | succ j =>
      rw [chunks_cons, List.take_succ_cons, List.drop_succ_cons, raw, List.flatMap_cons, ← raw,
        List.length_append, ← List.drop_drop, ih j]

/-! ### What chunks look like -/

theorem isContinuation_of_isSecond {lead b : UInt8} (h : isSecond lead b = true) :
    isContinuation b = true := by
  simp only [isSecond, isContinuation, UInt8.le_iff_toNat_le, Bool.and_eq_true,
    decide_eq_true_eq] at h ⊢
  split_ifs at h <;> simp at h ⊢ <;> omega

theorem isContinuation_of_mem_tail {lead b : UInt8} {needed : Nat} {rest : List UInt8}
    (h : b ∈ tail lead needed rest) : isContinuation b = true := by
  cases needed with
  | zero => cases h
  | succ needed =>
    cases rest with
    | nil => cases h
    | cons second rest =>
      rw [tail] at h
      split at h
      · next hsecond =>
        rcases List.mem_cons.mp h with rfl | hmem
        · exact isContinuation_of_isSecond hsecond
        · exact List.mem_takeWhile_imp hmem
      · cases h

theorem width_toNat (lead : UInt8) : width lead =
    if lead.toNat < 128 then 1 else if lead.toNat < 194 then 0 else if lead.toNat < 224 then 2
    else if lead.toNat < 240 then 3 else if lead.toNat < 245 then 4 else 0 := by
  simp [width, UInt8.lt_iff_toNat_lt]

theorem isContinuation_toNat (b : UInt8) :
    isContinuation b = true ↔ 128 ≤ b.toNat ∧ b.toNat ≤ 191 := by
  simp [isContinuation, UInt8.le_iff_toNat_le]

theorem isContinuation_eq_false_of_width {lead : UInt8} (h : width lead ≠ 0) :
    isContinuation lead = false := by
  rw [← Bool.not_eq_true, isContinuation_toNat]
  rw [width_toNat] at h
  rintro ⟨hlow, hhigh⟩
  split_ifs at h <;> omega

/-- A lead byte, then continuation bytes only. -/
def IsCharacter (text : List UInt8) : Prop :=
  ∃ lead tail, text = lead :: tail ∧ isContinuation lead = false ∧ ∀ b ∈ tail, isContinuation b = true

theorem firstChunk_valid {lead : UInt8} {rest : List UInt8}
    (h : (firstChunk lead rest).valid = true) : IsCharacter (firstChunk lead rest).raw := by
  refine ⟨lead, tail lead (width lead - 1) rest, rfl, ?_, fun b => isContinuation_of_mem_tail⟩
  refine isContinuation_eq_false_of_width ?_
  have := of_decide_eq_true h
  omega

theorem firstChunk_invalid {lead : UInt8} {rest : List UInt8}
    (h : (firstChunk lead rest).valid = false) : (firstChunk lead rest).raw.length ≤ 3 := by
  have hne := of_decide_eq_false h
  have hle := tail_length_le lead (width lead - 1) rest
  have hwidth := width_le lead
  simp only [firstChunk, List.length_cons]
  omega

/-- Every chunk of a scan shows one character, and has at least a byte; an ill-formed one has at most
    the three bytes its replacement has. -/
theorem mem_chunks {bytes : List UInt8} : ∀ {c : Chunk}, c ∈ chunks bytes →
    IsCharacter c.render ∧ 1 ≤ c.raw.length ∧ c.raw.length ≤ c.render.length := by
  induction bytes using chunks_induction with
  | nil =>
    intro c h
    cases h
  | cons lead rest ih =>
    intro c h
    rw [chunks_cons] at h
    rcases List.mem_cons.mp h with rfl | h
    · cases hvalid : (firstChunk lead rest).valid with
      | true =>
        rw [Chunk.render, hvalid]
        exact ⟨firstChunk_valid hvalid, Nat.succ_le_succ (Nat.zero_le _), Nat.le_refl _⟩
      | false =>
        rw [Chunk.render, hvalid]
        refine ⟨⟨0xEF, [0xBF, 0xBD], rfl, rfl, by simp [isContinuation]⟩,
          Nat.succ_le_succ (Nat.zero_le _), ?_⟩
        exact firstChunk_invalid hvalid
    · exact ih h

/-! ### The chunks of a beginning -/

/-- What belongs to a character is not missed when the bytes are cut behind it. -/
theorem tail_take {lead : UInt8} {needed m : Nat} {rest : List UInt8}
    (h : (tail lead needed rest).length ≤ m) :
    tail lead needed (rest.take m) = tail lead needed rest := by
  cases needed with
  | zero => rfl
  | succ needed =>
    cases rest with
    | nil => rw [List.take_nil]
    | cons b rest =>
      cases m with
      | zero => exact (List.length_eq_zero_iff.mp (Nat.le_zero.mp h)).symm
      | succ m =>
        rw [tail] at h
        rw [List.take_succ_cons, tail, tail]
        split
        · next hsecond =>
          rw [if_pos hsecond, List.length_cons] at h
          rw [List.take_take, Nat.min_comm, ← List.take_take, ← List.take_takeWhile,
            List.take_of_length_le (by omega)]
        · rfl

theorem firstChunk_take {lead : UInt8} {rest : List UInt8} {m : Nat}
    (h : (firstChunk lead rest).raw.length ≤ m + 1) :
    firstChunk lead (rest.take m) = firstChunk lead rest := by
  have htail := tail_take (Nat.le_of_succ_le_succ h)
  rw [firstChunk, htail, firstChunk]

/-- A beginning that reaches behind the first chunks of a byte string scans to them first. -/
theorem take_prefix_chunks (bytes : List UInt8) : ∀ j n, (raw ((chunks bytes).take j)).length ≤ n →
    (chunks bytes).take j <+: chunks (bytes.take n) := by
  induction bytes using chunks_induction with
  | nil =>
    intro j n _
    rw [chunks_nil, List.take_nil]
    exact List.nil_prefix
  | cons lead rest ih =>
    intro j n hn
    cases j with
    | zero => exact List.nil_prefix
    | succ j =>
      rw [chunks_cons, List.take_succ_cons] at hn ⊢
      rw [raw, List.flatMap_cons, ← raw, List.length_append] at hn
      obtain ⟨m, rfl⟩ : ∃ m, n = m + 1 := by
        refine Nat.exists_eq_add_one.mpr ?_
        simp only [firstChunk, List.length_cons] at hn
        omega
      have hfirst : firstChunk lead (rest.take m) = firstChunk lead rest :=
        firstChunk_take (by omega)
      have hdrop : (lead :: rest.take m).drop (firstChunk lead rest).raw.length
          = ((lead :: rest).drop (firstChunk lead rest).raw.length).take
              (m + 1 - (firstChunk lead rest).raw.length) := by
        rw [← List.take_succ_cons, List.drop_take]
      rw [List.take_succ_cons, chunks_cons, hfirst, hdrop]
      exact (List.prefix_cons_inj _).mpr (ih j _ (by omega))

/-- The bytes of the first chunks and of the others are all of them. -/
theorem raw_take_append_drop (bytes : List UInt8) (j : Nat) :
    raw ((chunks bytes).take j) ++ raw ((chunks bytes).drop j) = bytes := by
  rw [raw, raw, ← List.flatMap_append, List.take_append_drop, ← raw, raw_chunks]

/-- A beginning that ends with a chunk has the chunks up to it. -/
theorem chunks_take (bytes : List UInt8) (j : Nat) :
    chunks (bytes.take (raw ((chunks bytes).take j)).length) = (chunks bytes).take j := by
  obtain ⟨others, hothers⟩ := take_prefix_chunks bytes j _ (Nat.le_refl _)
  have hbytes : bytes.take (raw ((chunks bytes).take j)).length = raw ((chunks bytes).take j) := by
    obtain ⟨behind, hbehind⟩ : ∃ behind, raw ((chunks bytes).take j) ++ behind = bytes :=
      ⟨_, raw_take_append_drop bytes j⟩
    generalize raw ((chunks bytes).take j) = front at hbehind ⊢
    rw [← hbehind, List.take_left]
  have hnone : raw others = [] := by
    have hraw := raw_chunks (bytes.take (raw ((chunks bytes).take j)).length)
    rw [← hothers, hbytes, raw, List.flatMap_append] at hraw
    exact List.append_right_eq_self.mp hraw
  have hempty : others = [] := by
    refine List.eq_nil_iff_forall_not_mem.mpr fun c hc => ?_
    have hmem : c ∈ chunks (bytes.take (raw ((chunks bytes).take j)).length) := by
      rw [← hothers]
      exact List.mem_append_right _ hc
    obtain ⟨-, hpos, -⟩ := mem_chunks hmem
    have := List.flatMap_eq_nil_iff.mp hnone c hc
    rw [this] at hpos
    cases hpos
  rw [← hothers, hempty, List.append_nil]

/-! ### Where a byte string may be cut -/

/-- A character ends in front of a byte that continues none, whatever stands behind it. -/
theorem tail_append {b : UInt8} (h : isContinuation b = false) (lead : UInt8) (needed : Nat)
    (rest behind : List UInt8) :
    tail lead needed (rest ++ b :: behind) = tail lead needed rest := by
  cases needed with
  | zero => rw [tail, tail]
  | succ needed =>
    cases rest with
    | nil =>
      have hsecond : isSecond lead b ≠ true := fun hb => by
        rw [isContinuation_of_isSecond hb] at h
        exact Bool.noConfusion h
      exact if_neg hsecond
    | cons second rest =>
      have htake : ((rest ++ b :: behind).take needed).takeWhile isContinuation
          = (rest.take needed).takeWhile isContinuation := by
        rw [List.take_append]
        cases hroom : needed - rest.length with
        | zero => rw [List.take_zero, List.append_nil]
        | succ room =>
          rw [List.take_succ_cons, List.takeWhile_append]
          split
          · next hall =>
            rw [List.takeWhile_cons_of_neg (by simp [h]), List.append_nil]
            exact (List.takeWhile_prefix _).eq_of_length hall |>.symm
          · rfl
      rw [List.cons_append, tail, tail, htake]

/-- In front of a byte that continues no character a byte string may be cut: both parts scan for
    themselves. -/
theorem chunks_append {b : UInt8} (h : isContinuation b = false) (front behind : List UInt8) :
    chunks (front ++ b :: behind) = chunks front ++ chunks (b :: behind) := by
  induction front using chunks_induction with
  | nil => rfl
  | cons lead rest ih =>
    have hfirst : firstChunk lead (rest ++ b :: behind) = firstChunk lead rest := by
      simp only [firstChunk, tail_append h]
    rw [List.cons_append, chunks_cons, hfirst, ← List.cons_append,
      List.drop_append_of_le_length (firstChunk_isPrefix lead rest).length_le, ih, chunks_cons lead rest,
      List.cons_append]

theorem chunks_cons_ascii {b : UInt8} (h : width b = 1) (behind : List UInt8) :
    chunks (b :: behind) = ⟨[b], true⟩ :: chunks behind := by
  have hfirst : firstChunk b behind = ⟨[b], true⟩ := by
    simp [firstChunk, h, tail]
  rw [chunks_cons, hfirst]
  rfl

/-- Behind an ASCII character the lossy text goes on with that of the rest. -/
theorem lossy_append_ascii {b : UInt8} (h : width b = 1) (front behind : List UInt8) :
    lossy (front ++ b :: behind) = lossy (front ++ [b]) ++ lossy behind := by
  have hb : isContinuation b = false := isContinuation_eq_false_of_width (by omega)
  rw [lossy, lossy, lossy, chunks_append hb, chunks_append hb, chunks_cons_ascii h, chunks_cons_ascii h,
    chunks_nil, List.append_cons, render, List.flatMap_append]
  rfl

/-! ### Well-formed text -/

/-- Without ill-formed chunks the lossy text is the bytes themselves. -/
theorem render_eq_raw {cs : List Chunk} (h : ∀ c ∈ cs, c.valid = true) : render cs = raw cs := by
  refine List.flatMap_congr fun c hc => ?_
  rw [Chunk.render, if_pos (h c hc)]

theorem lossy_of_valid {bytes : List UInt8} (h : ∀ c ∈ chunks bytes, c.valid = true) :
    lossy bytes = bytes := by
  rw [lossy, render_eq_raw h, raw_chunks]

theorem toNat_ofNat {n : Nat} (h : n < 256) : (UInt8.ofNat n).toNat = n :=
  UInt8.toNat_ofNat_of_lt' h

/-- A second byte that is in the range its lead byte asks for. -/
theorem isSecond_ofNat {lead b : Nat} (hlead : lead < 256) (hcont : 128 ≤ b ∧ b ≤ 191)
    (he0 : lead = 0xE0 → 160 ≤ b) (hed : lead = 0xED → b ≤ 159)
    (hf0 : lead = 0xF0 → 144 ≤ b) (hf4 : lead = 0xF4 → b ≤ 143) :
    isSecond (UInt8.ofNat lead) (UInt8.ofNat b) = true := by
  have hb : (UInt8.ofNat b).toNat = b := toNat_ofNat (by omega)
  have hvalue : ∀ n : UInt8, UInt8.ofNat lead = n → lead = n.toNat := by
    rintro n rfl
    exact (toNat_ofNat hlead).symm
  unfold isSecond
  split_ifs with h1 h2 h3 h4
  · simp only [UInt8.le_iff_toNat_le, Bool.and_eq_true, decide_eq_true_eq, hb]
    exact ⟨he0 (hvalue _ h1), hcont.2⟩
  · simp only [UInt8.le_iff_toNat_le, Bool.and_eq_true, decide_eq_true_eq, hb]
    exact ⟨hcont.1, hed (hvalue _ h2)⟩
  · simp only [UInt8.le_iff_toNat_le, Bool.and_eq_true, decide_eq_true_eq, hb]
    exact ⟨hf0 (hvalue _ h3), hcont.2⟩
  · simp only [UInt8.le_iff_toNat_le, Bool.and_eq_true, decide_eq_true_eq, hb]
    exact ⟨hcont.1, hf4 (hvalue _ h4)⟩
  · rw [isContinuation_toNat, hb]
    exact hcont

/-- A lead byte with all the continuation bytes it asks for is one chunk. -/
theorem firstChunk_complete {lead b : UInt8} {others : List UInt8} (rest : List UInt8)
    (hwidth : width lead = others.length + 2) (hsecond : isSecond lead b = true)
    (hothers : ∀ c ∈ others, isContinuation c = true) :
    firstChunk lead (b :: others ++ rest) = ⟨lead :: b :: others, true⟩ := by
  have htail : tail lead (width lead - 1) (b :: others ++ rest) = b :: others := by
    rw [hwidth]
    change tail lead (others.length + 1) (b :: (others ++ rest)) = b :: others
    rw [tail, if_pos hsecond, List.take_left, List.takeWhile_eq_self_iff.mpr hothers]
  rw [firstChunk, htail, hwidth]
  simp

/-- The encoding of a character is one chunk, whatever is behind it. -/
theorem firstChunk_encode (c : Char) (rest : List UInt8) :
    ∃ lead tail, String.utf8EncodeChar c = lead :: tail
      ∧ firstChunk lead (tail ++ rest) = ⟨lead :: tail, true⟩ := by
  have hscalar : c.val.toNat < 0xD800 ∨ 0xDFFF < c.val.toNat ∧ c.val.toNat < 0x110000 := c.valid
  have hcont : ∀ n, isContinuation (UInt8.ofNat (n % 64 + 128)) = true := by
    intro n
    rw [isContinuation_toNat, toNat_ofNat (by omega)]
    omega
  unfold String.utf8EncodeChar
  generalize c.val.toNat = v at hscalar ⊢
  dsimp only
  split_ifs with h1 h2 h3
  · refine ⟨_, _, rfl, ?_⟩
    have hwidth : width (UInt8.ofNat v) = 1 := by
      rw [width_toNat, toNat_ofNat (by omega)]
      split_ifs <;> omega
    rw [firstChunk, hwidth]
    rfl
  · refine ⟨_, _, rfl, firstChunk_complete rest ?_ ?_ (fun c hc => absurd hc List.not_mem_nil)⟩
    · rw [width_toNat, toNat_ofNat (by omega)]
      simp only [List.length_nil]
      split_ifs <;> omega
    · exact isSecond_ofNat (by omega) (by omega) (by omega) (by omega) (by omega) (by omega)
  · refine ⟨_, _, rfl, firstChunk_complete rest ?_ ?_ ?_⟩
    · rw [width_toNat, toNat_ofNat (by omega)]
      simp only [List.length_cons, List.length_nil]
      split_ifs <;> omega
    · exact isSecond_ofNat (by omega) (by omega) (by omega) (by omega) (by omega) (by omega)
    · intro c hc
      rw [List.mem_singleton.mp hc]
      exact hcont v
  · refine ⟨_, _, rfl, firstChunk_complete rest ?_ ?_ ?_⟩
    · rw [width_toNat, toNat_ofNat (by omega)]
      simp only [List.length_cons, List.length_nil]
      split_ifs <;> omega
    · exact isSecond_ofNat (by omega) (by omega) (by omega) (by omega) (by omega) (by omega)
    · intro c hc
      rcases List.mem_cons.mp hc with rfl | hc
      · exact hcont (v / 64)
      · rw [List.mem_singleton.mp hc]
        exact hcont v

/-- A text scans to its characters. -/
theorem chunks_encode (cs : List Char) :
    chunks (cs.flatMap String.utf8EncodeChar) = cs.map fun c => ⟨String.utf8EncodeChar c, true⟩ := by
  induction cs with
  | nil => rfl
  | cons c cs ih =>
    obtain ⟨lead, tail, hencode, hfirst⟩ :=
      firstChunk_encode c (cs.flatMap String.utf8EncodeChar)
    rw [List.flatMap_cons, hencode, List.cons_append, chunks_cons, hfirst, ← List.cons_append,
      List.drop_left, ih, List.map_cons, hencode]

/-! ### ASCII -/

/-- The first byte of a character. -/
def lead (c : Char) : UInt8 := (String.utf8EncodeChar c).head String.utf8EncodeChar_ne_nil

/-- A character of ASCII is its own byte, and no other character has a byte of ASCII. -/
theorem encode_cases (c : Char) :
    c.toNat < 128 ∧ String.utf8EncodeChar c = [UInt8.ofNat c.toNat] ∨
      128 ≤ c.toNat ∧ ∀ b ∈ String.utf8EncodeChar c, 128 ≤ b.toNat := by
  have hcont : ∀ n, 128 ≤ (UInt8.ofNat (n % 64 + 128)).toNat := by
    intro n
    rw [toNat_ofNat (by omega)]
    omega
  have hscalar : c.val.toNat < 0xD800 ∨ 0xDFFF < c.val.toNat ∧ c.val.toNat < 0x110000 := c.valid
  unfold String.utf8EncodeChar Char.toNat
  generalize c.val.toNat = v at hscalar ⊢
  dsimp only
  split_ifs with h1 h2 h3
  · exact .inl ⟨by omega, rfl⟩
  all_goals
    refine .inr ⟨by omega, ?_⟩
    simp only [List.forall_mem_cons, hcont, List.not_mem_nil, IsEmpty.forall_iff, implies_true, and_true]
    rw [toNat_ofNat (by omega)]
    omega

theorem lead_eq_iff {c : Char} {b : UInt8} (hb : b.toNat < 128) : lead c = b ↔ c.toNat = b.toNat := by
  rcases encode_cases c with ⟨hascii, hencode⟩ | ⟨hother, hencode⟩
  · have hlead : lead c = UInt8.ofNat c.toNat := by simp [lead, hencode]
    rw [hlead, ← UInt8.toNat_inj, toNat_ofNat (by omega)]
  · have hlead := hencode _ (List.head_mem (String.utf8EncodeChar_ne_nil))
    refine iff_of_false (fun h => ?_) (by omega)
    rw [← lead, h] at hlead
    omega

end Utf8
