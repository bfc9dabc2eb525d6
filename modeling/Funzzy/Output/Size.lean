import Funzzy.Output.Retrieval

/-! The size of a page: the search for the longest beginning that fits, the places it cuts a text at, and
    that a page with more on it is no shorter. -/

namespace Funzzy

open Utf8

/-! ### The longest beginning that fits -/

namespace OutputRegistry

/-- The search finds the last candidate that fits, if fewer characters always fit when more do. -/
theorem search_last (fits : Nat → Option Bool) (Fits : Nat → Prop) [DecidablePred Fits] {n : Nat}
    (hfits : ∀ m ≤ n, fits m = some (decide (Fits m)))
    (hdown : ∀ m m', m ≤ m' → m' ≤ n → Fits m' → Fits m) (hlast : ¬Fits n) :
    ∀ fuel lo hi, hi - lo ≤ fuel → lo < n → hi ≤ n + 1 → (lo = 0 ∨ Fits lo) →
      (∀ m, hi < m → m ≤ n → ¬Fits m) →
      ∃ r, search fits fuel lo hi = some r ∧ r < n ∧ (r = 0 ∨ Fits r)
        ∧ ∀ m, r < m → m ≤ n → ¬Fits m := by
  intro fuel
  induction fuel with
  | zero =>
    intro lo hi hfuel hlo hhi hfit hover
    exact ⟨lo, rfl, hlo, hfit, fun m hm hle => hover m (by omega) hle⟩
  | succ fuel ih =>
    intro lo hi hfuel hlo hhi hfit hover
    rw [search]
    split
    · simp only [hfits ((lo + hi + 1) / 2) (by omega), Option.bind_some]
      by_cases hmid : Fits ((lo + hi + 1) / 2)
      · have hne : (lo + hi + 1) / 2 ≠ n := fun heq => hlast (heq ▸ hmid)
        simp only [hmid, decide_true, if_true]
        exact ih _ _ (by omega) (by omega) hhi (.inr hmid) hover
      · simp only [hmid, decide_false, Bool.false_eq_true, if_false]
        refine ih _ _ (by omega) hlo (by omega) hfit fun m hm hle hfits' => ?_
        exact hmid (hdown _ m (by omega) hle hfits')
    · exact ⟨lo, rfl, hlo, hfit, fun m hm hle => hover m (by omega) hle⟩

/-- The index is the end of the text or the place of a byte that continues nothing. -/
def IsCharBoundary (text : List UInt8) (index : Nat) : Prop :=
  index = text.length ∨ ∃ b, text[index]? = some b ∧ isContinuation b = false

/-- Every index a candidate is cut at is a boundary inside the text. -/
theorem isCharBoundary_of_mem {text : List UInt8} : ∀ {offset index : Nat},
    index ∈ boundariesFrom offset text → ∃ i, index = offset + i ∧ IsCharBoundary text i := by
  induction text with
  | nil =>
    intro offset index h
    exact ⟨0, List.mem_singleton.mp h, .inl rfl⟩
  | cons b rest ih =>
    intro offset index h
    have hrest : index ∈ boundariesFrom (offset + 1) rest →
        ∃ i, index = offset + i ∧ IsCharBoundary (b :: rest) i := by
      intro hmem
      obtain ⟨i, rfl, hi⟩ := ih hmem
      refine ⟨i + 1, by omega, hi.imp (fun heq => ?_) fun hbyte => ?_⟩
      · rw [heq, List.length_cons]
      · rwa [List.getElem?_cons_succ]
    rw [boundariesFrom] at h
    split at h
    · exact hrest h
    · next hlead =>
      rcases List.mem_cons.mp h with rfl | hmem
      · exact ⟨0, rfl, .inr ⟨b, rfl, by simpa using hlead⟩⟩
      · exact hrest hmem

theorem IsCharBoundary.le {text : List UInt8} {index : Nat} (h : IsCharBoundary text index) :
    index ≤ text.length := by
  rcases h with rfl | ⟨b, hb, -⟩
  · exact Nat.le_refl _
  · exact (List.getElem?_eq_some_iff.mp hb).1.le

theorem isCharBoundary_boundaries {text : List UInt8} {index : Nat} (h : index ∈ boundaries text) :
    IsCharBoundary text index := by
  obtain ⟨i, rfl, hi⟩ := isCharBoundary_of_mem h
  rwa [Nat.zero_add]

end OutputRegistry

/-! ### The size of a page grows with its content -/

theorem jsonString_mono {text more : List UInt8} (h : text <+: more) :
    jsonString text ≤ jsonString more := by
  obtain ⟨rest, rfl⟩ := h
  rw [jsonString, jsonString, List.map_append, List.sum_append]
  omega

theorem jsonNat_mono {m n : Nat} (h : m ≤ n) : jsonNat m ≤ jsonNat n := by
  have hpos : 0 < (Nat.toDigits 10 n).length := Nat.length_toDigits_pos
  refine (Nat.length_toDigits_le_iff (by decide) hpos).mpr (h.trans_lt ?_)
  exact (Nat.length_toDigits_le_iff (by decide) hpos).mp (Nat.le_refl _)

theorem lineCount_mono {text more : List UInt8} (h : text <+: more) :
    lineCount text ≤ lineCount more := by
  obtain ⟨rest, rfl⟩ := h
  rw [lineCount, lineCount, List.count_append]
  by_cases hrest : rest = []
  · subst hrest
    simp
  · -- the lines of the rest are counted by their ends, or the last one by being there
    have hlast := List.getLast?_append_of_ne_nil text hrest
    rw [hlast]
    have hpos : 1 ≤ rest.count 0x0A + if rest.getLast?.any (· != 0x0A) then 1 else 0 := by
      have hb : rest.getLast? = some (rest.getLast hrest) := List.getLast?_eq_some_getLast hrest
      rw [hb]
      generalize rest.getLast hrest = b at hb
      by_cases hnewline : b = 0x0A
      · subst hnewline
        have := List.count_pos_iff.mpr (List.mem_of_getLast? hb)
        omega
      · simp [hnewline]
    have hle : (if text.getLast?.any (· != 0x0A) then 1 else 0) ≤ 1 := by
      split <;> omega
    omega

theorem StreamOutput.jsonLength_eq (s : StreamOutput) :
    s.jsonLength = 68 + jsonString s.content + jsonNat s.lines + jsonNat s.retainedBytes
      + jsonNat s.observedBytes + jsonBool s.truncated := by
  have hnames : "content".length = 7 ∧ "lines".length = 5 ∧ "retainedBytes".length = 13
      ∧ "observedBytes".length = 13 ∧ "truncated".length = 9 := by
    decide
  simp only [StreamOutput.jsonLength, jsonObject, List.map_cons, List.map_nil, List.sum_cons,
    List.sum_nil, List.length_cons, List.length_nil, hnames]
  omega

theorem RetrievedTask.jsonLength_eq (t : RetrievedTask) :
    t.jsonLength = 27 + jsonText t.id + (t.stdout.map StreamOutput.jsonLength).getD 4
      + (t.stderr.map StreamOutput.jsonLength).getD 4 := by
  have hnames : "id".length = 2 ∧ "stdout".length = 6 ∧ "stderr".length = 6 := by decide
  simp only [RetrievedTask.jsonLength, jsonObject, List.map_cons, List.map_nil, List.sum_cons,
    List.sum_nil, List.length_cons, List.length_nil, hnames]
  omega

theorem streamOutput_mono {text more : List UInt8} (h : text <+: more) (buffer : CaptureBuffer) :
    (streamOutput text buffer).jsonLength ≤ (streamOutput more buffer).jsonLength := by
  have hcontent := jsonString_mono h
  have hlines := jsonNat_mono (lineCount_mono h)
  rw [StreamOutput.jsonLength_eq, StreamOutput.jsonLength_eq]
  dsimp only [streamOutput]
  omega

theorem RetrievedTask.set_mono (task : RetrievedTask) (isStderr : Bool) {output more : StreamOutput}
    (h : output.jsonLength ≤ more.jsonLength) :
    (task.set isStderr output).jsonLength ≤ (task.set isStderr more).jsonLength := by
  rw [RetrievedTask.jsonLength_eq, RetrievedTask.jsonLength_eq]
  cases isStderr <;> simp only [RetrievedTask.set, if_true, Bool.false_eq_true, if_false,
    Option.map_some, Option.getD_some] <;> omega

/-- As many tasks, and no shorter ones, when a stream is set to something longer. -/
theorem setStream_mono (id : String) (isStderr : Bool) {output more : StreamOutput}
    (h : output.jsonLength ≤ more.jsonLength) (tasks : List RetrievedTask) :
    (setStream id isStderr output tasks).length = (setStream id isStderr more tasks).length
      ∧ ((setStream id isStderr output tasks).map RetrievedTask.jsonLength).sum
        ≤ ((setStream id isStderr more tasks).map RetrievedTask.jsonLength).sum := by
  induction tasks with
  | nil =>
    have := RetrievedTask.set_mono ⟨id, none, none⟩ isStderr h
    exact ⟨rfl, by simpa [setStream] using this⟩
  | cons task rest ih =>
    rw [setStream, setStream]
    split
    · have := RetrievedTask.set_mono task isStderr h
      exact ⟨rfl, by simpa using this⟩
    · simpa using ih

namespace OutputRegistry

/-- The trial page and the page that is returned with a cursor differ in that cursor only. -/
theorem PageRequest.page_cut_length (request : PageRequest) (tasks : List RetrievedTask)
    (returned : Nat) (raw : String) :
    (request.page ⟨tasks, returned, some raw⟩).jsonLength + jsonText "cursor"
      = (request.draft tasks returned).jsonLength + jsonText raw := by
  simp only [RetrievedOutput.jsonLength, PageRequest.page, PageRequest.draft, jsonObject,
    List.map_append, List.sum_append, List.length_append, Option.map_some, Option.toList_some,
    List.map_cons, List.map_nil, List.sum_cons, List.sum_nil, List.length_cons, List.length_nil,
    Option.isSome_some]
  omega

/-- Without a cursor the page is no longer than the trial page. -/
theorem PageRequest.page_all_length (request : PageRequest) (tasks : List RetrievedTask)
    (returned : Nat) :
    (request.page ⟨tasks, returned, none⟩).jsonLength ≤ (request.draft tasks returned).jsonLength := by
  simp only [RetrievedOutput.jsonLength, PageRequest.page, PageRequest.draft, jsonObject,
    List.map_append, List.sum_append, List.length_append, Option.map_some, Option.toList_some,
    Option.map_none, Option.toList_none, List.map_cons, List.map_nil, List.sum_cons, List.sum_nil,
    List.length_cons, List.length_nil, Option.isSome_none, jsonBool, if_true, Bool.false_eq_true,
    if_false]
  omega

theorem PageRequest.draft_mono (request : PageRequest) {tasks more : List RetrievedTask}
    {returned returned' : Nat} (hlength : tasks.length ≤ more.length)
    (hsum : (tasks.map RetrievedTask.jsonLength).sum ≤ (more.map RetrievedTask.jsonLength).sum)
    (hreturned : returned ≤ returned') :
    (request.draft tasks returned).jsonLength ≤ (request.draft more returned').jsonLength := by
  have := jsonNat_mono hreturned
  simp only [RetrievedOutput.jsonLength, PageRequest.draft, jsonObject, jsonArray,
    List.map_append, List.sum_append, List.length_append, Option.map_some, Option.toList_some,
    List.map_cons, List.map_nil, List.sum_cons, List.sum_nil, List.length_cons, List.length_nil,
    List.length_map]
  omega

end OutputRegistry

end Funzzy
