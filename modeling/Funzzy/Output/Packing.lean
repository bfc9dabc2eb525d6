import Funzzy.Output.RoundTrip

/-! How a page is filled: what it holds when whole streams are on it and a beginning of the next, and that
    the walk over the plan ends where a page can run out.

    A trial page only grows with what is put on it, so there is one place at most where the next
    character does not fit any more. -/

namespace Funzzy

open Utf8

/-! ### More streams make a longer page -/

/-- A stream that was not there makes a page longer. -/
theorem Settled.le_setStream {id : String} {isStderr : Bool} (output : StreamOutput) :
    ∀ {tasks : List RetrievedTask}, Settled tasks (toLex (id, isStderr)) →
      tasks.length ≤ (Funzzy.setStream id isStderr output tasks).length
        ∧ (tasks.map RetrievedTask.jsonLength).sum
          ≤ ((Funzzy.setStream id isStderr output tasks).map RetrievedTask.jsonLength).sum := by
  intro tasks
  induction tasks with
  | nil => exact fun _ => ⟨Nat.zero_le _, Nat.zero_le _⟩
  | cons task rest ih =>
    intro h
    rw [Funzzy.setStream]
    split
    · next hid =>
      subst hid
      obtain ⟨rfl, rfl, hnone⟩ := h.last
      have hoptional := StreamOutput.jsonLength_eq output
      refine ⟨Nat.le_refl _, ?_⟩
      simp only [List.map_cons, List.map_nil, List.sum_cons, List.sum_nil, RetrievedTask.jsonLength_eq,
        RetrievedTask.set, if_true, hnone, Option.map_some, Option.map_none, Option.getD_some,
        Option.getD_none]
      omega
    · simpa using ih h.tail

/-! ### What a page holds -/

/-- The tasks on a page, and the bytes of text on it. -/
structure Packed where
  tasks : List RetrievedTask
  returned : Nat
  deriving DecidableEq

namespace Packed

def nothing : Packed := ⟨[], 0⟩

/-- A piece of a stream is put on the page, if it is not empty. -/
def add (packed : Packed) (position : Position) (text : List UInt8) : Packed :=
  if text = [] then packed else ⟨position.put text packed.tasks, packed.returned + text.length⟩

/-- The characters that a page which starts at a place has to show of a stream. -/
def remaining (start : Nat × Nat) (entry : Position × Nat) : List Chunk :=
  if entry.2 < start.1 then [] else chunks (entry.1.buffer.bytes.drop (beginAt start entry.2))

/-- All that is to be shown of these streams is on the page. -/
def through (start : Nat × Nat) (entries : List (Position × Nat)) (packed : Packed) : Packed :=
  entries.foldl (fun packed entry => packed.add entry.1 (render (remaining start entry))) packed

/-- Besides, the first `m` characters of a stream are. -/
def upTo (start : Nat × Nat) (front : List (Position × Nat)) (entry : Position × Nat) (m : Nat)
    (packed : Packed) : Packed :=
  (packed.through start front).add entry.1 (render ((remaining start entry).take m))

/-- The size of the trial page. -/
def size (request : OutputRegistry.PageRequest) (packed : Packed) : Nat :=
  (request.draft packed.tasks packed.returned).jsonLength

end Packed

section Filling

variable {request : OutputRegistry.PageRequest} {start : Nat × Nat} {packed : Packed}
  {position : Position} {entry : Position × Nat} {entries front behind : List (Position × Nat)}
  {text more : List UInt8} {m : Nat}

namespace Packed

@[simp] theorem add_nil (packed : Packed) (position : Position) : packed.add position [] = packed :=
  if_pos rfl

theorem add_text (h : text ≠ []) (packed : Packed) (position : Position) :
    packed.add position text = ⟨position.put text packed.tasks, packed.returned + text.length⟩ :=
  if_neg h

theorem returned_add (packed : Packed) (position : Position) (text : List UInt8) :
    (packed.add position text).returned = packed.returned + text.length := by
  by_cases h : text = []
  · rw [h, add_nil]
    rfl
  · rw [add_text h]

theorem returned_le_through (start : Nat × Nat) (entries : List (Position × Nat)) :
    ∀ packed : Packed, packed.returned ≤ (packed.through start entries).returned := by
  induction entries with
  | nil => exact fun _ => Nat.le_refl _
  | cons entry entries ih =>
    intro packed
    refine Nat.le_trans ?_ (ih (packed.add entry.1 (render (remaining start entry))))
    rw [returned_add]
    exact Nat.le_add_right _ _

theorem upTo_zero : packed.upTo start front entry 0 = packed.through start front := by
  rw [upTo, List.take_zero]
  exact add_nil _ _

theorem upTo_all : packed.upTo start front entry (remaining start entry).length
    = packed.through start (front ++ [entry]) := by
  rw [upTo, List.take_length, through, through, List.foldl_append]
  rfl

/-- Every character has a text. -/
theorem render_ne_nil {cs : List Chunk} (h : ∀ c ∈ cs, IsCharacter c.render) (hcs : cs ≠ []) :
    render cs ≠ [] := by
  obtain ⟨c, rest, rfl⟩ := List.exists_cons_of_ne_nil hcs
  obtain ⟨lead, others, hlead, -⟩ := h c List.mem_cons_self
  rw [render, List.flatMap_cons, hlead]
  exact List.cons_ne_nil _ _

theorem isCharacter_remaining {c : Chunk} (h : c ∈ remaining start entry) : IsCharacter c.render := by
  rw [remaining] at h
  split at h
  · exact absurd h List.not_mem_nil
  · exact (mem_chunks h).1

theorem render_take_ne_nil (hm : 0 < m) (hsome : remaining start entry ≠ []) :
    render ((remaining start entry).take m) ≠ [] := by
  refine render_ne_nil (fun c hc => isCharacter_remaining (List.mem_of_mem_take hc)) ?_
  rw [Ne, List.take_eq_nil_iff]
  rintro (rfl | hnil)
  · exact Nat.lt_irrefl 0 hm
  · exact hsome hnil

/-- Nothing but a text that is empty leaves a page as it was. -/
theorem add_ne (h : text ≠ []) (packed : Packed) (position : Position) :
    packed.add position text ≠ packed := by
  intro heq
  have := congrArg Packed.returned heq
  rw [returned_add] at this
  exact h (List.length_eq_zero_iff.mp (by omega))

end Packed

/-- The streams come in order, and the page holds only earlier ones. -/
structure Ahead (packed : Packed) (entries : List (Position × Nat)) : Prop where
  keys : (entries.map fun entry => entry.1.key).Pairwise (· < ·)
  settled : ∀ entry ∈ entries, Settled packed.tasks entry.1.key

theorem Ahead.head (h : Ahead packed (entry :: entries)) : Settled packed.tasks entry.1.key :=
  h.settled entry List.mem_cons_self

theorem Ahead.add (h : Ahead packed (entry :: entries)) (text : List UInt8) :
    Ahead (packed.add entry.1 text) entries := by
  obtain ⟨hfirst, hkeys⟩ := List.pairwise_cons.mp h.keys
  refine ⟨hkeys, fun other hother => ?_⟩
  by_cases htext : text = []
  · rw [htext, Packed.add_nil]
    exact h.settled other (List.mem_cons_of_mem entry hother)
  · rw [Packed.add_text htext]
    exact h.head.setStream _ (hfirst _ (List.mem_map_of_mem hother))

theorem Ahead.through (start : Nat × Nat) (front : List (Position × Nat)) :
    ∀ {packed : Packed}, Ahead packed (front ++ behind) → Ahead (packed.through start front) behind := by
  induction front with
  | nil => exact fun h => h
  | cons entry front ih => exact fun h => ih (h.add _)

theorem Ahead.size_le_add (h : Settled packed.tasks position.key) (text : List UInt8) :
    packed.size request ≤ (packed.add position text).size request := by
  by_cases htext : text = []
  · rw [htext, Packed.add_nil]
  · rw [Packed.add_text htext]
    obtain ⟨hlength, hsum⟩ := h.le_setStream (streamOutput text position.buffer)
    exact request.draft_mono hlength hsum (Nat.le_add_right _ _)

/-- More of a stream makes a longer page. -/
theorem Ahead.size_add_mono (h : Settled packed.tasks position.key) (hextends : text <+: more) :
    (packed.add position text).size request ≤ (packed.add position more).size request := by
  by_cases htext : text = []
  · rw [htext, Packed.add_nil]
    exact size_le_add h more
  · have hmore : more ≠ [] := by
      rintro rfl
      exact htext (List.prefix_nil.mp hextends)
    rw [Packed.add_text htext, Packed.add_text hmore]
    obtain ⟨hlength, hsum⟩ := setStream_mono position.task position.isStderr
      (streamOutput_mono hextends position.buffer) packed.tasks
    exact request.draft_mono hlength.le hsum (Nat.add_le_add_left hextends.length_le _)

/-- More streams make a longer page. -/
theorem Ahead.size_le_through (start : Nat × Nat) (front : List (Position × Nat)) :
    ∀ {packed : Packed}, Ahead packed (front ++ behind) →
      packed.size request ≤ (packed.through start front).size request := by
  induction front with
  | nil => exact fun _ => Nat.le_refl _
  | cons entry front ih =>
    exact fun h => (size_le_add h.head _).trans (ih (h.add _))

/-! ### Where a page runs out -/

/-- The page runs out in a stream behind `front`: its first `m` characters still fit, or the page is
    as it was before them, and with any more of them the page is too long. -/
structure RunsOut (request : OutputRegistry.PageRequest) (start : Nat × Nat) (packed : Packed)
    (front : List (Position × Nat)) (entry : Position × Nat) (m : Nat) : Prop where
  lt : m < (Packed.remaining start entry).length
  fits : packed.upTo start front entry m = packed
    ∨ (packed.upTo start front entry m).size request ≤ request.maxBytes
  above : ∀ m', m < m' → m' ≤ (Packed.remaining start entry).length →
    request.maxBytes < (packed.upTo start front entry m').size request

/-- Everything fits, or there is nothing to show. -/
def FitsAll (request : OutputRegistry.PageRequest) (start : Nat × Nat) (packed : Packed)
    (entries : List (Position × Nat)) : Prop :=
  packed.through start entries = packed
    ∨ (packed.through start entries).size request ≤ request.maxBytes

/-- The cursor behind the first `m` characters that a stream has left. -/
def cutCursor (generation : Nat) (start : Nat × Nat) (entry : Position × Nat) (m : Nat) : String :=
  OutputRegistry.renderCursor generation entry.2 entry.1.isStderr
    (beginAt start entry.2 + (render ((Packed.remaining start entry).take m)).length)

/-- The walk of a page that runs out. -/
def cutWalk (request : OutputRegistry.PageRequest) (start : Nat × Nat) (packed : Packed)
    (front : List (Position × Nat)) (entry : Position × Nat) (m : Nat) : OutputRegistry.Walked :=
  let page := packed.upTo start front entry m
  ⟨page.tasks, page.returned, some (cutCursor request.entry.generation start entry m)⟩

/-- Whole streams that fit, or have nothing to show, are put on the page. -/
theorem walk_whole (hfits : packed.add entry.1 (render (Packed.remaining start entry)) = packed
      ∨ (packed.add entry.1 (render (Packed.remaining start entry))).size request ≤ request.maxBytes) :
    request.walk start (entry :: entries) packed.tasks packed.returned
      = request.walk start entries (packed.add entry.1 (render (Packed.remaining start entry))).tasks
        (packed.add entry.1 (render (Packed.remaining start entry))).returned := by
  obtain ⟨position, planIdx⟩ := entry
  by_cases hpass : planIdx < start.1 ∨ position.buffer.bytes.length ≤ beginAt start planIdx
  · have hnone : Packed.remaining start (position, planIdx) = [] := by
      rw [Packed.remaining]
      split
      · rfl
      · next hahead =>
        rw [List.drop_of_length_le (hpass.resolve_left hahead), chunks_nil]
    have hsame : packed.add position (render []) = packed := Packed.add_nil packed position
    rw [OutputRegistry.PageRequest.walk_pass hpass, hnone, hsame]
  · obtain ⟨hahead, hsome⟩ := not_or.mp hpass
    have hremaining : Packed.remaining start (position, planIdx)
        = chunks (position.buffer.bytes.drop (beginAt start planIdx)) := if_neg hahead
    have htext : render (Packed.remaining start (position, planIdx)) ≠ [] := by
      rw [hremaining]
      refine lossy_ne_nil ?_
      rw [Ne, List.drop_eq_nil_iff]
      exact hsome
    have hsize := hfits.resolve_left (Packed.add_ne htext packed position)
    rw [Packed.add_text htext] at hsize ⊢
    rw [OutputRegistry.PageRequest.walk_stream hahead (Nat.lt_of_not_le hsome)
      (congrArg render hremaining)]
    exact if_pos hsize

/-- A stream that does not fit as a whole is where the page runs out. -/
theorem walk_over (hover : request.maxBytes
      < (packed.add entry.1 (render (Packed.remaining start entry))).size request)
    (hsome : Packed.remaining start entry ≠ []) :
    ∃ m, RunsOut request start packed [] entry m
      ∧ request.walk start (entry :: entries) packed.tasks packed.returned
        = some (cutWalk request start packed [] entry m) := by
  obtain ⟨position, planIdx⟩ := entry
  have hahead : ¬planIdx < start.1 := by
    intro hlt
    exact hsome (if_pos hlt)
  have hremaining : Packed.remaining start (position, planIdx)
      = chunks (position.buffer.bytes.drop (beginAt start planIdx)) := if_neg hahead
  have hlt : beginAt start planIdx < position.buffer.bytes.length := by
    refine Nat.lt_of_not_le fun hle => hsome ?_
    rw [hremaining, List.drop_of_length_le hle, chunks_nil]
  have htext := Packed.render_ne_nil (fun c hc => Packed.isCharacter_remaining hc) hsome
  rw [Packed.add_text htext, hremaining] at hover
  obtain ⟨m, hm, hkeep, hfit, habove⟩ := OutputRegistry.PageRequest.keep_last hlt hover
  have htrial : ∀ m', 0 < m' → (packed.upTo start [] (position, planIdx) m').size request
      = (request.trial position (beginAt start planIdx) packed.tasks packed.returned m').jsonLength := by
    intro m' hm'
    have hne := Packed.render_take_ne_nil hm' hsome
    rw [Packed.upTo, Packed.through, List.foldl_nil, Packed.add_text hne, hremaining]
    rfl
  refine ⟨m, ⟨hremaining ▸ hm, ?_, fun m' hm' hle => ?_⟩, ?_⟩
  · by_cases hzero : m = 0
    · subst hzero
      exact .inl Packed.upTo_zero
    · rw [htrial m (Nat.pos_of_ne_zero hzero)]
      exact .inr (hfit.resolve_left hzero)
  · rw [htrial m' (by omega)]
    exact habove m' hm' (hremaining ▸ hle)
  · rw [OutputRegistry.PageRequest.walk_stream hahead hlt rfl]
    refine (if_neg (Nat.not_le_of_lt hover)).trans ?_
    rw [hkeep, Option.map_some, cutWalk, cutCursor, Packed.upTo, Packed.through, List.foldl_nil,
      hremaining]
    congr 1
    by_cases hzero : m = 0
    · subst hzero
      simp [render]
    · have hne := Packed.render_take_ne_nil (Nat.pos_of_ne_zero hzero) hsome
      rw [hremaining] at hne
      rw [if_pos (List.length_pos_iff.mpr hne), Packed.add_text hne, Cut.take_eq]

/-- What is behind a stream that is put on the page as a whole runs out as before. -/
theorem RunsOut.cons (hfits : packed.add entry.1 (render (Packed.remaining start entry)) = packed
      ∨ (packed.add entry.1 (render (Packed.remaining start entry))).size request ≤ request.maxBytes)
    {last : Position × Nat}
    (h : RunsOut request start (packed.add entry.1 (render (Packed.remaining start entry))) front last m) :
    RunsOut request start packed (entry :: front) last m := by
  refine ⟨h.lt, ?_, h.above⟩
  rcases h.fits with heq | hle
  · rcases hfits with hsame | hle
    · exact .inl (heq.trans hsame)
    · exact .inr ((congrArg (Packed.size request) heq).trans_le hle)
  · exact .inr hle

theorem FitsAll.cons (hfits : packed.add entry.1 (render (Packed.remaining start entry)) = packed
      ∨ (packed.add entry.1 (render (Packed.remaining start entry))).size request ≤ request.maxBytes)
    (h : FitsAll request start (packed.add entry.1 (render (Packed.remaining start entry))) entries) :
    FitsAll request start packed (entry :: entries) := by
  rcases h with heq | hle
  · rcases hfits with hsame | hle
    · exact .inl (heq.trans hsame)
    · exact .inr ((congrArg (Packed.size request) heq).trans_le hle)
  · exact .inr hle

/-- A walk puts everything on the page if it fits, or ends where the page runs out. -/
theorem walk_packs (request : OutputRegistry.PageRequest) (start : Nat × Nat)
    (entries : List (Position × Nat)) : ∀ packed : Packed,
    FitsAll request start packed entries
        ∧ request.walk start entries packed.tasks packed.returned
          = some ⟨(packed.through start entries).tasks, (packed.through start entries).returned, none⟩
      ∨ ∃ front entry behind m, entries = front ++ entry :: behind
        ∧ RunsOut request start packed front entry m
        ∧ request.walk start entries packed.tasks packed.returned
          = some (cutWalk request start packed front entry m) := by
  induction entries with
  | nil => exact fun packed => .inl ⟨.inl rfl, rfl⟩
  | cons entry entries ih =>
    intro packed
    by_cases hfits : packed.add entry.1 (render (Packed.remaining start entry)) = packed
        ∨ (packed.add entry.1 (render (Packed.remaining start entry))).size request ≤ request.maxBytes
    · rw [walk_whole hfits]
      rcases ih (packed.add entry.1 (render (Packed.remaining start entry))) with
        ⟨hall, hwalk⟩ | ⟨front, last, behind, m, rfl, hout, hwalk⟩
      · exact .inl ⟨hall.cons hfits, hwalk⟩
      · exact .inr ⟨entry :: front, last, behind, m, rfl, hout.cons hfits, hwalk⟩
    · obtain ⟨hchanges, hover⟩ := not_or.mp hfits
      have hsome : Packed.remaining start entry ≠ [] := by
        intro hnone
        rw [hnone] at hchanges
        exact hchanges (Packed.add_nil packed entry.1)
      obtain ⟨m, hout, hwalk⟩ := walk_over (Nat.lt_of_not_le hover) hsome
      exact .inr ⟨[], entry, entries, m, rfl, hout, hwalk⟩

/-- A page does not run out at two places of one stream. -/
theorem RunsOut.not_lt {m' : Nat} (h : RunsOut request start packed front entry m)
    (h' : RunsOut request start packed front entry m') : ¬m < m' := by
  intro hlt
  rcases h'.fits with heq | hle
  · have hne : render ((Packed.remaining start entry).take m') ≠ [] :=
      Packed.render_take_ne_nil (by omega) (List.ne_nil_of_length_pos (Nat.zero_lt_of_lt h'.lt))
    have hmore := Packed.returned_le_through start front packed
    have := congrArg Packed.returned heq
    rw [Packed.upTo, Packed.returned_add] at this
    exact hne (List.length_eq_zero_iff.mp (by omega))
  · exact absurd (h.above m' hlt h'.lt.le) (Nat.not_lt_of_le hle)

/-- Where a page can run out, the walk ends. -/
theorem RunsOut.walk (front : List (Position × Nat)) : ∀ {packed : Packed},
    Ahead packed (front ++ entry :: behind) → RunsOut request start packed front entry m →
      request.walk start (front ++ entry :: behind) packed.tasks packed.returned
        = some (cutWalk request start packed front entry m) := by
  induction front with
  | nil =>
    intro packed hahead h
    have hwhole : packed.upTo start [] entry (Packed.remaining start entry).length
        = packed.add entry.1 (render (Packed.remaining start entry)) := by
      rw [Packed.upTo_all]
      rfl
    have hover := h.above _ h.lt (Nat.le_refl _)
    rw [hwhole] at hover
    have hsome : Packed.remaining start entry ≠ [] :=
      List.ne_nil_of_length_pos (Nat.zero_lt_of_lt h.lt)
    obtain ⟨m', h', hwalk⟩ := walk_over hover hsome
    have heq : m' = m := le_antisymm (Nat.le_of_not_lt (h.not_lt h')) (Nat.le_of_not_lt (h'.not_lt h))
    rw [List.nil_append, hwalk, heq]
  | cons first front ih =>
    intro packed hahead h
    have hlater := hahead.add (render (Packed.remaining start first))
    have hle : (packed.add first.1 (render (Packed.remaining start first))).size request
        ≤ (packed.upTo start (first :: front) entry m).size request :=
      (hlater.size_le_through start front).trans
        (Ahead.size_le_add (hlater.through start front).head _)
    by_cases htext : render (Packed.remaining start first) = []
    · have hsame : packed.add first.1 (render (Packed.remaining start first)) = packed := by
        rw [htext, Packed.add_nil]
      rw [List.cons_append, walk_whole (.inl hsame)]
      exact ih hlater ⟨h.lt, h.fits.imp_left fun heq => heq.trans hsame.symm, h.above⟩
    · -- the page is no longer what it was, so it has been measured
      have hfits := h.fits.resolve_left fun heq => by
        have hmore := Packed.returned_le_through start front
          (packed.add first.1 (render (Packed.remaining start first)))
        have hcount := congrArg Packed.returned heq
        rw [Packed.upTo, Packed.returned_add] at hcount
        rw [Packed.returned_add] at hmore
        have hthrough : packed.through start (first :: front)
            = (packed.add first.1 (render (Packed.remaining start first))).through start front := rfl
        rw [hthrough] at hcount
        exact htext (List.length_eq_zero_iff.mp (by omega))
      rw [List.cons_append, walk_whole (.inr (hle.trans hfits))]
      exact ih hlater ⟨h.lt, .inr hfits, h.above⟩

end Filling

end Funzzy
