import Funzzy.Output.Packing
import Funzzy.Lib.Codec

/-! The budget of a page: when it is kept, and when the next page gets on from where this one ends.

    The trial page is measured with the text `cursor` in the place of the cursor, so the page that is
    returned can be longer than the trial page that fitted; and when not even one character of the first
    stream fits, the page ends where it began. -/

namespace Funzzy

open Utf8

/-! ### A page within its budget -/

section Page

variable {registry : OutputRegistry} {generation : Nat} {task stream : Option String} {maxBytes : Nat}
  {entry : GenerationOutput} {resolved : Option String} {plan : List Position}
  {cursor : Option String} {start : Nat × Nat} {page : RetrievedOutput}

namespace OutputRegistry

theorem Planned.ahead (h : registry.Planned generation task stream entry resolved plan) :
    Ahead .nothing plan.zipIdx := by
  refine ⟨?_, fun _ _ => settled_nil _⟩
  have hmap : (plan.zipIdx.map fun entry => entry.1.key) = plan.map Position.key := by
    conv_rhs => rw [← List.zipIdx_map_fst 0 plan, List.map_map]
    rfl
  rw [hmap]
  exact h.keys

theorem retrievePage_eq (hquery : registry.query generation task stream = .ok (entry, resolved, plan))
    (hstart : startOf generation plan cursor = .ok start) :
    registry.retrievePage generation task stream maxBytes cursor
      = ((⟨entry, resolved, maxBytes⟩ : PageRequest).walk start plan.zipIdx [] 0).map
        fun walked => .ok ((⟨entry, resolved, maxBytes⟩ : PageRequest).page walked) := by
  rw [retrievePage, hquery]
  dsimp only
  rw [hstart]

end OutputRegistry

/-- What a page holds: everything, if that fits, or all up to where it runs out, with a cursor there. -/
inductive PageHolds (request : OutputRegistry.PageRequest) (start : Nat × Nat) (plan : List Position)
    (page : RetrievedOutput) : Prop
  | all (hfits : FitsAll request start .nothing plan.zipIdx)
      (hpage : page = request.page ⟨(Packed.nothing.through start plan.zipIdx).tasks,
        (Packed.nothing.through start plan.zipIdx).returned, none⟩)
  | cut {front : List (Position × Nat)} {entry : Position × Nat} {behind : List (Position × Nat)}
      {m : Nat} (hplan : plan.zipIdx = front ++ entry :: behind)
      (hout : RunsOut request start .nothing front entry m)
      (hpage : page = request.page (cutWalk request start .nothing front entry m))

/-- From every place a cursor stands for, there is a page. -/
theorem exists_page (maxBytes : Nat)
    (hplan : registry.Planned generation task stream entry resolved plan)
    (hstart : OutputRegistry.startOf generation plan cursor = .ok start) :
    ∃ page, registry.retrievePage generation task stream maxBytes cursor = some (.ok page)
      ∧ PageHolds ⟨entry, resolved, maxBytes⟩ start plan page := by
  rw [OutputRegistry.retrievePage_eq hplan.query_eq hstart]
  rcases walk_packs ⟨entry, resolved, maxBytes⟩ start plan.zipIdx .nothing with
    ⟨hall, hwalk⟩ | ⟨front, last, behind, m, hsplit, hout, hwalk⟩
  · exact ⟨_, congrArg (Option.map _) hwalk, .all hall rfl⟩
  · exact ⟨_, congrArg (Option.map _) hwalk, .cut hsplit hout rfl⟩

/-- Where a page can run out, this one does. -/
theorem page_of_runsOut (hplan : registry.Planned generation task stream entry resolved plan)
    (hstart : OutputRegistry.startOf generation plan cursor = .ok start)
    (hpage : registry.retrievePage generation task stream maxBytes cursor = some (.ok page))
    {front behind : List (Position × Nat)} {last : Position × Nat} {m : Nat}
    (hsplit : plan.zipIdx = front ++ last :: behind)
    (hout : RunsOut ⟨entry, resolved, maxBytes⟩ start .nothing front last m) :
    page = OutputRegistry.PageRequest.page ⟨entry, resolved, maxBytes⟩
      (cutWalk ⟨entry, resolved, maxBytes⟩ start .nothing front last m) := by
  have hwalk := hout.walk front (hsplit ▸ hplan.ahead)
  rw [← hsplit] at hwalk
  rw [OutputRegistry.retrievePage_eq hplan.query_eq hstart] at hpage
  have hsame := (congrArg (Option.map _) hwalk).symm.trans hpage
  cases hsame
  rfl

/-- Where a page runs out, what the cursor is longer than the text it was measured with still fits. -/
def RoomForCursor (request : OutputRegistry.PageRequest) (start : Nat × Nat) (plan : List Position) :
    Prop :=
  ∀ front entry behind m, plan.zipIdx = front ++ entry :: behind →
    RunsOut request start .nothing front entry m →
    (Packed.nothing.upTo start front entry m).size request
        + jsonText (cutCursor request.entry.generation start entry m)
      ≤ request.maxBytes + jsonText "cursor"

theorem cutWalk_fits_iff {request : OutputRegistry.PageRequest} {front : List (Position × Nat)}
    {last : Position × Nat} {m : Nat} :
    (request.page (cutWalk request start .nothing front last m)).jsonLength ≤ request.maxBytes
      ↔ (Packed.nothing.upTo start front last m).size request
          + jsonText (cutCursor request.entry.generation start last m)
        ≤ request.maxBytes + jsonText "cursor" := by
  have hlength := request.page_cut_length (Packed.nothing.upTo start front last m).tasks
    (Packed.nothing.upTo start front last m).returned
    (cutCursor request.entry.generation start last m)
  rw [← Nat.add_le_add_iff_right (n := jsonText "cursor"), cutWalk]
  exact iff_of_eq (congrArg (· ≤ _) hlength)

/-- In particular, a trial page with everything that is left is within the budget: the page is not cut. -/
theorem roomForCursor_of_all (hplan : registry.Planned generation task stream entry resolved plan)
    (hall : (Packed.nothing.through start plan.zipIdx).size ⟨entry, resolved, maxBytes⟩ ≤ maxBytes) :
    RoomForCursor ⟨entry, resolved, maxBytes⟩ start plan := by
  intro front last behind m hsplit hout
  -- the page would hold all of the stream it runs out in
  have hover := hout.above _ hout.lt (Nat.le_refl _)
  rw [Packed.upTo_all] at hover
  have hahead := hplan.ahead
  rw [hsplit, List.append_cons, ← List.append_nil behind, ← List.append_assoc, List.append_assoc] at hahead
  have hmore : (Packed.nothing.through start (front ++ [last])).size ⟨entry, resolved, maxBytes⟩
      ≤ ((Packed.nothing.through start (front ++ [last])).through start behind).size
        ⟨entry, resolved, maxBytes⟩ := Ahead.size_le_through start behind (hahead.through start _)
  rw [hsplit, List.append_cons, Packed.through, List.foldl_append] at hall
  exact absurd (hover.trans_le hmore) (Nat.not_lt.mpr hall)

/-- A page takes the longest beginning that fits the trial page, cut at a boundary inside the text.
    Whenever the page with no content is within the budget, the page that is returned is so exactly if
    there is room for its cursor. -/
theorem page_budget_iff {calls : List Record}
    (hrun : Machine.after OutputRegistry.record .new calls = some registry)
    (hquery : registry.query generation task stream = .ok (entry, resolved, plan))
    (hstart : OutputRegistry.startOf generation plan cursor = .ok start)
    (hempty : (OutputRegistry.PageRequest.page ⟨entry, resolved, maxBytes⟩ ⟨[], 0, none⟩).jsonLength
      ≤ maxBytes) :
    (∃ page, registry.retrievePage generation task stream maxBytes cursor = some (.ok page)
      ∧ PageHolds ⟨entry, resolved, maxBytes⟩ start plan page
      ∧ (page.jsonLength ≤ maxBytes ↔ RoomForCursor ⟨entry, resolved, maxBytes⟩ start plan))
    ∧ ∀ text index, index ∈ OutputRegistry.boundaries text →
      index ≤ text.length ∧ OutputRegistry.IsCharBoundary text index := by
  have hplan := OutputRegistry.planned_of_run hrun hquery
  refine ⟨?_, fun text index h => ?_⟩
  swap
  · have hboundary := OutputRegistry.isCharBoundary_boundaries h
    exact ⟨hboundary.le, hboundary⟩
  obtain ⟨page, hpage, hholds⟩ := exists_page maxBytes hplan hstart
  refine ⟨page, hpage, hholds, ?_⟩
  have hcut : ∀ front last behind m, plan.zipIdx = front ++ last :: behind →
      RunsOut ⟨entry, resolved, maxBytes⟩ start .nothing front last m →
      (page.jsonLength ≤ maxBytes ↔ (Packed.nothing.upTo start front last m).size
          ⟨entry, resolved, maxBytes⟩ + jsonText (cutCursor entry.generation start last m)
        ≤ maxBytes + jsonText "cursor") := by
    intro front last behind m hsplit hout
    rw [page_of_runsOut hplan hstart hpage hsplit hout]
    exact cutWalk_fits_iff
  cases hholds with
  | all hfits hall =>
    refine iff_of_true ?_ fun front last behind m hsplit hout => ?_
    · rw [hall]
      rcases hfits with hnothing | hle
      · rw [hnothing]
        exact hempty
      · exact (OutputRegistry.PageRequest.page_all_length ..).trans hle
    · have hcursor := page_of_runsOut hplan hstart hpage hsplit hout
      rw [hall] at hcursor
      cases congrArg RetrievedOutput.nextCursor hcursor
  | @cut front last behind m hsplit hout hcutpage =>
    refine ⟨fun hle other lastOther behindOther n hsplit' hout' => ?_, fun hroom => ?_⟩
    · exact (hcut _ _ _ _ hsplit' hout').mp hle
    · exact (hcut _ _ _ _ hsplit hout).mpr (hroom _ _ _ _ hsplit hout)

end Page

/-! ### One short task -/

/-- `DEFAULT_PAGE_BYTES` -/
def defaultPageBytes : Nat := 24 * 1024

/-- `OUTPUT_PAGE_MAX_BYTES` -/
def outputPageMaxBytes : Nat := 32 * 1024

/-- The budget of a page that is asked for with this `maxBytes`. -/
def pageBudget (maxBytes : Option Nat) : Nat :=
  min ((maxBytes.filter (0 < ·)).getD defaultPageBytes) outputPageMaxBytes

/-- The text `abc`. -/
def abc : List UInt8 := [0x61, 0x62, 0x63]

theorem abc_run : Machine.after OutputRegistry.record .new [oneTask abc] = some (oneTaskRegistry abc) :=
  oneTask_run (by decide)

theorem abc_query : (oneTaskRegistry abc).query 7 none none
    = .ok (oneTaskEntry abc, none, oneTaskPlan abc) :=
  oneTask_query abc

/-- Two lines, `a` and `b`. -/
def twoLines : List UInt8 := [0x61, 0x0A, 0x62]

/-- The newline takes two bytes, so a page of 198 bytes that ends before it has room for its cursor. -/
theorem page_budget_two_lines :
    ((oneTaskRegistry twoLines).retrievePage 7 none none 198 none).map
        (·.map fun page => (page.nextCursor, page.jsonLength)) = some (.ok (some "7|0|0|1", 198))
      ∧ RoomForCursor ⟨oneTaskEntry twoLines, none, 198⟩ (0, 0) (oneTaskPlan twoLines) := by
  have hpages : ((oneTaskRegistry twoLines).retrievePage 7 none none 198 none).map
      (·.map fun page => (page.nextCursor, page.jsonLength)) = some (.ok (some "7|0|0|1", 198)) := by
    decide +kernel
  have hrun : Machine.after OutputRegistry.record .new [oneTask twoLines]
      = some (oneTaskRegistry twoLines) := oneTask_run (by decide)
  have hquery := oneTask_query twoLines
  have hstart : OutputRegistry.startOf 7 (oneTaskPlan twoLines) none = .ok (0, 0) := rfl
  have hempty : (OutputRegistry.PageRequest.page ⟨oneTaskEntry twoLines, none, 198⟩
      ⟨[], 0, none⟩).jsonLength ≤ 198 := by
    decide +kernel
  obtain ⟨⟨page, hpage, -, hiff⟩, -⟩ := page_budget_iff hrun hquery hstart hempty
  refine ⟨hpages, hiff.mp ?_⟩
  rw [hpage] at hpages
  exact (Prod.mk.inj (Except.ok.inj (Option.some.inj hpages))).2.le

/-- With 197 bytes a trial page with `a` just fits, and the page is one byte longer than that: its cursor
    has seven characters, the text it was measured with six. -/
theorem cursor_exceeds_budget :
    Machine.after OutputRegistry.record .new [oneTask abc] = some (oneTaskRegistry abc)
    ∧ (OutputRegistry.PageRequest.page ⟨oneTaskEntry abc, none, 197⟩ ⟨[], 0, none⟩).jsonLength ≤ 197
    ∧ (OutputRegistry.PageRequest.draft ⟨oneTaskEntry abc, none, 197⟩ [] 0).jsonLength ≤ 197
    ∧ ((oneTaskRegistry abc).retrievePage 7 none none 197 none).map
        (·.map fun page => (page.nextCursor, page.jsonLength)) = some (.ok (some "7|0|0|1", 198)) :=
  ⟨abc_run, by decide +kernel, by decide +kernel, by decide +kernel⟩

/-! ### Getting on -/

namespace OutputRegistry

theorem renderCursor_injective {generation planIdx planIdx' offset offset' : Nat}
    {isStderr isStderr' : Bool}
    (h : renderCursor generation planIdx isStderr offset
      = renderCursor generation planIdx' isStderr' offset') :
    planIdx = planIdx' ∧ offset = offset' := by
  have hsplit := congrArg (fun text : String => text.toList.splitOn '|') h
  rw [splitOn_renderCursor, splitOn_renderCursor] at hsplit
  simp only [List.cons.injEq] at hsplit
  exact ⟨Codec.toDigits_ten_injective hsplit.2.1, Codec.toDigits_ten_injective hsplit.2.2.2.1⟩

/-- An accepted place is the beginning, or within a stream of the plan. -/
theorem startOf_cases {generation : Nat} {plan : List Position} {cursor : Option String}
    {start : Nat × Nat} (h : startOf generation plan cursor = .ok start) :
    start = (0, 0) ∨ ∃ position, plan[start.1]? = some position
      ∧ start.2 ≤ position.buffer.bytes.length := by
  unfold startOf at h
  split at h
  · exact .inl (Except.ok.inj h).symm
  · split at h
    · split at h
      · split at h
        · cases h
        · split at h
          · cases h
          · next position hposition =>
            split at h
            · cases h
            · split at h
              · cases h
              · next hle =>
                cases h
                exact .inr ⟨position, hposition, Nat.le_of_not_lt hle⟩
      · cases h
    · cases h

theorem startOf_le {generation : Nat} {plan : List Position} {cursor : Option String}
    {start : Nat × Nat} (h : startOf generation plan cursor = .ok start) {position : Position}
    (hposition : plan[start.1]? = some position) : start.2 ≤ position.buffer.bytes.length := by
  rcases startOf_cases h with rfl | ⟨other, hother, hle⟩
  · exact Nat.zero_le _
  · rwa [Option.some.inj (hposition.symm.trans hother)]

end OutputRegistry

/-- The page ends at this place, where the next one begins. -/
def EndsAt (generation : Nat) (plan : List Position) (page : RetrievedOutput) (place : Nat × Nat) :
    Prop :=
  ∃ position, plan[place.1]? = some position
    ∧ page.nextCursor = some (OutputRegistry.renderCursor generation place.1 position.isStderr place.2)

/-- A page that started at a place is the last one, or it ends at a later place. -/
def Advances (generation : Nat) (plan : List Position) (start : Nat × Nat) (page : RetrievedOutput) :
    Prop :=
  page.nextCursor = none ∨ ∃ place, EndsAt generation plan page place ∧ toLex start < toLex place

/-- If the stream at the start has anything left, its first character fits on a page of its own. -/
def FirstFits (request : OutputRegistry.PageRequest) (start : Nat × Nat) (plan : List Position) : Prop :=
  ∀ position, plan[start.1]? = some position →
    ∀ c rest, chunks (position.buffer.bytes.drop start.2) = c :: rest →
      (request.draft (position.put c.render []) c.render.length).jsonLength ≤ request.maxBytes

section Progress

variable {registry : OutputRegistry} {generation : Nat} {task stream : Option String} {maxBytes : Nat}
  {entry : GenerationOutput} {resolved : Option String} {plan : List Position}
  {pages : List RetrievedOutput} {cursor : Option String} {start place : Nat × Nat}
  {page : RetrievedOutput}

theorem through_behind {front : List (Position × Nat)} (h : ∀ entry ∈ front, entry.2 < start.1)
    (packed : Packed) : packed.through start front = packed := by
  induction front with
  | nil => rfl
  | cons first front ih =>
    have hnone : Packed.remaining start first = [] := if_pos (h first List.mem_cons_self)
    have hsame : packed.add first.1 (render (Packed.remaining start first)) = packed := by
      rw [hnone]
      exact Packed.add_nil packed first.1
    have hrest := ih fun other hother => h other (List.mem_cons_of_mem first hother)
    rw [Packed.through, List.foldl_cons, hsame]
    exact hrest

/-- Streams of the plan are in front of a place exactly if their index is lower. -/
theorem front_lt {front behind : List (Position × Nat)} {position : Position} {planIdx : Nat}
    (hsplit : plan.zipIdx = front ++ (position, planIdx) :: behind) :
    plan[planIdx]? = some position ∧ ∀ entry ∈ front, entry.2 < planIdx := by
  have hmem : (position, planIdx) ∈ plan.zipIdx := by
    rw [hsplit]
    simp
  have hindices := zipIdx_indices plan
  rw [hsplit, List.map_append, List.map_cons, List.pairwise_append] at hindices
  exact ⟨List.mem_zipIdx_iff_getElem?.mp hmem, fun entry hentry =>
    hindices.2.2 entry.2 (List.mem_map_of_mem hentry) planIdx (by simp)⟩

theorem exists_front {position : Position} {planIdx : Nat} (h : plan[planIdx]? = some position) :
    ∃ front behind, plan.zipIdx = front ++ (position, planIdx) :: behind := by
  have hmem : (position, planIdx) ∈ plan.zipIdx := List.mem_zipIdx_iff_getElem?.mpr h
  exact List.append_of_mem hmem

theorem remaining_start (position : Position) (start : Nat × Nat) :
    Packed.remaining start (position, start.1) = chunks (position.buffer.bytes.drop start.2) := by
  rw [Packed.remaining, if_neg (Nat.lt_irrefl _), beginAt, if_pos rfl]

/-- The page with the first character of the start on it. -/
theorem upTo_first {front behind : List (Position × Nat)} {position : Position}
    (hsplit : plan.zipIdx = front ++ (position, start.1) :: behind) {c : Chunk} {rest : List Chunk}
    (hchunks : chunks (position.buffer.bytes.drop start.2) = c :: rest) :
    Packed.nothing.upTo start front (position, start.1) 1
      = ⟨position.put c.render [], c.render.length⟩ := by
  have hone : render [c] = c.render := List.flatMap_singleton ..
  have hne : c.render ≠ [] := by
    have hcharacter : IsCharacter c.render := (mem_chunks (hchunks ▸ List.mem_cons_self)).1
    obtain ⟨lead, others, hlead, -⟩ := hcharacter
    rw [hlead]
    exact List.cons_ne_nil _ _
  rw [Packed.upTo, through_behind (front_lt hsplit).2, remaining_start, hchunks, List.take_succ_cons,
    List.take_zero, hone, Packed.add_text hne]
  exact congrArg _ (Nat.zero_add _)

/-- If the first character does not fit, the page runs out where it started. -/
theorem runsOut_start (hahead : Ahead .nothing plan.zipIdx) {front behind : List (Position × Nat)}
    {position : Position} {request : OutputRegistry.PageRequest}
    (hsplit : plan.zipIdx = front ++ (position, start.1) :: behind) {c : Chunk} {rest : List Chunk}
    (hchunks : chunks (position.buffer.bytes.drop start.2) = c :: rest)
    (hover : request.maxBytes < (request.draft (position.put c.render []) c.render.length).jsonLength) :
    RunsOut request start .nothing front (position, start.1) 0 := by
  have hbehind := through_behind (front_lt hsplit).2 Packed.nothing
  rw [hsplit] at hahead
  refine ⟨?_, .inl (Packed.upTo_zero.trans hbehind), fun m' hm' _ => ?_⟩
  · rw [remaining_start, hchunks]
    exact Nat.zero_lt_succ _
  · have hfirst := upTo_first hsplit hchunks
    refine Nat.lt_of_lt_of_le ?_ (Ahead.size_add_mono (hahead.through start front).head
      (render_take_mono _ hm'))
    rw [Packed.upTo] at hfirst
    rw [hfirst]
    exact hover

/-- If the first character does not fit, the page ends where it started. -/
theorem endsAt_start (hplan : registry.Planned generation task stream entry resolved plan)
    (hstart : OutputRegistry.startOf generation plan cursor = .ok start)
    (hpage : registry.retrievePage generation task stream maxBytes cursor = some (.ok page))
    (hfits : ¬FirstFits ⟨entry, resolved, maxBytes⟩ start plan) : EndsAt generation plan page start := by
  unfold FirstFits at hfits
  push Not at hfits
  obtain ⟨position, hposition, c, rest, hchunks, hover⟩ := hfits
  obtain ⟨front, behind, hsplit⟩ := exists_front hposition
  refine ⟨position, hposition, ?_⟩
  rw [page_of_runsOut hplan hstart hpage hsplit (runsOut_start hplan.ahead hsplit hchunks hover),
    ← hplan.generation_eq]
  simp [OutputRegistry.PageRequest.page, cutWalk, cutCursor, beginAt, render]

/-- A page gets on exactly if the first character at its start fits. -/
theorem advances_iff (hplan : registry.Planned generation task stream entry resolved plan)
    (hstart : OutputRegistry.startOf generation plan cursor = .ok start)
    (hpage : registry.retrievePage generation task stream maxBytes cursor = some (.ok page)) :
    Advances generation plan start page ↔ FirstFits ⟨entry, resolved, maxBytes⟩ start plan := by
  constructor
  · intro hadvances
    by_contra hfits
    obtain ⟨position, -, hcursor⟩ := endsAt_start hplan hstart hpage hfits
    rcases hadvances with hnone | ⟨place, ⟨other, -, hends⟩, hlt⟩
    · rw [hcursor] at hnone
      cases hnone
    · obtain ⟨hindex, hoffset⟩ :=
        OutputRegistry.renderCursor_injective (Option.some.inj (hcursor.symm.trans hends))
      exact lt_irrefl _ (hlt.trans_eq (congrArg toLex (Prod.ext hindex.symm hoffset.symm)))
  · intro hfits
    obtain ⟨same, hsame, hholds⟩ := exists_page maxBytes hplan hstart
    obtain rfl : same = page := by
      rw [hpage] at hsame
      cases hsame
      rfl
    cases hholds with
    | all _ hall =>
      rw [hall]
      exact .inl rfl
    | @cut front last behind m hsplit hout hcut =>
      obtain ⟨position, planIdx⟩ := last
      refine .inr ⟨(planIdx, beginAt start planIdx
        + (render ((Packed.remaining start (position, planIdx)).take m)).length), ⟨position,
          (front_lt hsplit).1, ?_⟩, ?_⟩
      · rw [hcut, ← hplan.generation_eq]
        rfl
      · have hsome : Packed.remaining start (position, planIdx) ≠ [] :=
          List.ne_nil_of_length_pos (Nat.zero_lt_of_lt hout.lt)
        have hle : start.1 ≤ planIdx := by
          refine Nat.le_of_not_lt fun hlt => hsome ?_
          exact if_pos hlt
        rw [Prod.Lex.toLex_lt_toLex]
        rcases hle.lt_or_eq with hlt | rfl
        · exact .inl hlt
        · refine .inr ⟨rfl, ?_⟩
          obtain ⟨c, rest, hchunks⟩ := List.exists_cons_of_ne_nil hsome
          have hm : 0 < m := by
            refine Nat.pos_of_ne_zero ?_
            rintro rfl
            have hover := hout.above 1 Nat.one_pos hout.lt
            rw [remaining_start] at hchunks
            rw [upTo_first hsplit hchunks] at hover
            exact absurd (hfits position (front_lt hsplit).1 c rest hchunks) (Nat.not_le_of_lt hover)
          have hlength := List.length_pos_iff.mpr (Packed.render_take_ne_nil hm hsome)
          dsimp only
          rw [beginAt, if_pos rfl]
          omega

/-! ### Following the cursors to an end -/

/-- How far a place is in the plan. -/
def rank (plan : List Position) (place : Nat × Nat) : Nat :=
  ((plan.take place.1).map fun position => position.buffer.bytes.length + 1).sum + place.2

/-- The bytes of the plan, and one more for each stream. -/
def extent (plan : List Position) : Nat :=
  (plan.map fun position => position.buffer.bytes.length + 1).sum

/-- Whatever is taken of the plan beyond a stream, the stream is counted in it. -/
theorem rank_lt_take {position : Position} {planIdx offset n : Nat}
    (hposition : plan[planIdx]? = some position) (hle : offset ≤ position.buffer.bytes.length)
    (hlt : planIdx < n) : rank plan (planIdx, offset) < extent (plan.take n) := by
  have hsplit := List.take_append_drop (planIdx + 1) (plan.take n)
  rw [List.take_take, Nat.min_eq_left hlt, List.take_add_one, hposition] at hsplit
  rw [extent, ← hsplit, rank]
  simp only [Option.toList_some, List.map_append, List.map_cons, List.map_nil, List.sum_append,
    List.sum_cons, List.sum_nil]
  omega

theorem rank_lt_rank (hstart : OutputRegistry.startOf generation plan cursor = .ok start)
    {position : Position} (hplace : plan[place.1]? = some position)
    (hlt : toLex start < toLex place) : rank plan start < rank plan place := by
  rcases Prod.Lex.toLex_lt_toLex.mp hlt with hindex | ⟨hindex, hoffset⟩
  · obtain ⟨hlength, -⟩ := List.getElem?_eq_some_iff.mp hplace
    have hfirst : plan[start.1]? = some plan[start.1] := List.getElem?_eq_getElem (by omega)
    have := rank_lt_take hfirst (OutputRegistry.startOf_le hstart hfirst) hindex
    rw [extent] at this
    exact Nat.lt_of_lt_of_le this (Nat.le_add_right _ _)
  · rw [rank, rank, hindex]
    exact Nat.add_lt_add_left hoffset _

theorem rank_le_extent (hstart : OutputRegistry.startOf generation plan cursor = .ok start) :
    rank plan start ≤ extent plan := by
  rcases OutputRegistry.startOf_cases hstart with rfl | ⟨position, hposition, hle⟩
  · exact Nat.zero_le _
  · obtain ⟨hlength, -⟩ := List.getElem?_eq_some_iff.mp hposition
    have := rank_lt_take hposition hle hlength
    rw [List.take_length] at this
    exact this.le

/-- Only an accepted cursor is answered with a page. -/
theorem start_of_page (hplan : registry.Planned generation task stream entry resolved plan)
    (hpage : registry.retrievePage generation task stream maxBytes cursor = some (.ok page)) :
    ∃ start, OutputRegistry.startOf generation plan cursor = .ok start := by
  rw [OutputRegistry.retrievePage, hplan.query_eq] at hpage
  dsimp only at hpage
  split at hpage
  · cases hpage
  · next start hstart => exact ⟨start, hstart⟩

/-- Run lemma: a client that gets on with every page has got no more pages than it has gone over places. -/
theorem Followed.length_le (hplan : registry.Planned generation task stream entry resolved plan)
    (hfits : ∀ pages cursor start, Followed registry generation task stream maxBytes pages cursor →
      OutputRegistry.startOf generation plan cursor = .ok start →
      FirstFits ⟨entry, resolved, maxBytes⟩ start plan)
    (h : Followed registry generation task stream maxBytes pages cursor) :
    pages.length ≤ extent plan + 1 ∧ ∀ start,
      OutputRegistry.startOf generation plan cursor = .ok start → pages.length ≤ rank plan start := by
  induction h with
  | first => exact ⟨Nat.zero_le _, fun _ _ => Nat.zero_le _⟩
  | @next pages cursor page raw hfollowed hpage hcursor ih =>
    obtain ⟨start, hstart⟩ := start_of_page hplan hpage
    have hcount := ih.2 start hstart
    have hextent := rank_le_extent hstart
    rw [List.length_append, List.length_singleton]
    refine ⟨by omega, fun place hplace => ?_⟩
    have hadvances := (advances_iff hplan hstart hpage).mpr (hfits _ _ _ hfollowed hstart)
    rcases hadvances with hnone | ⟨later, ⟨position, hposition, hends⟩, hlt⟩
    · rw [hcursor] at hnone
      cases hnone
    · obtain rfl := Option.some.inj (hcursor.symm.trans hends)
      obtain rfl : place = later := ((OutputRegistry.startOf_renderCursor hposition).mp hplace).1
      have := rank_lt_rank hstart hposition hlt
      omega

/-- A client that does not get on gets the same page over and over. -/
theorem Followed.unending (hplan : registry.Planned generation task stream entry resolved plan)
    (h : Followed registry generation task stream maxBytes pages cursor)
    (hstart : OutputRegistry.startOf generation plan cursor = .ok start)
    (hfits : ¬FirstFits ⟨entry, resolved, maxBytes⟩ start plan) (n : Nat) :
    ∃ more cursor, Followed registry generation task stream maxBytes more cursor
      ∧ OutputRegistry.startOf generation plan cursor = .ok start ∧ n ≤ more.length := by
  induction n with
  | zero => exact ⟨pages, cursor, h, hstart, Nat.zero_le _⟩
  | succ n ih =>
    obtain ⟨more, cursor, hfollowed, hsame, hlength⟩ := ih
    obtain ⟨page, hpage, -⟩ := exists_page maxBytes hplan hsame
    obtain ⟨position, hposition, hcursor⟩ := endsAt_start hplan hsame hpage hfits
    refine ⟨more ++ [page], _, hfollowed.next hpage hcursor, ?_, ?_⟩
    · exact (OutputRegistry.startOf_renderCursor hposition).mpr
        ⟨rfl, OutputRegistry.startOf_le hsame hposition⟩
    · rw [List.length_append, List.length_singleton]
      omega

/-- From every accepted place there is a page, and it gets on exactly if the first character that is left
    there fits; and following the cursors ends exactly if that is so at every place it comes to. -/
theorem paging_progress_iff {calls : List Record}
    (hrun : Machine.after OutputRegistry.record .new calls = some registry)
    (hquery : registry.query generation task stream = .ok (entry, resolved, plan)) :
    (∀ cursor start, OutputRegistry.startOf generation plan cursor = .ok start →
      ∃ page, registry.retrievePage generation task stream maxBytes cursor = some (.ok page)
        ∧ (Advances generation plan start page ↔ FirstFits ⟨entry, resolved, maxBytes⟩ start plan))
    ∧ ((∃ n, ∀ pages cursor, Followed registry generation task stream maxBytes pages cursor →
        pages.length ≤ n)
      ↔ ∀ pages cursor start, Followed registry generation task stream maxBytes pages cursor →
        OutputRegistry.startOf generation plan cursor = .ok start →
        FirstFits ⟨entry, resolved, maxBytes⟩ start plan) := by
  have hplan := OutputRegistry.planned_of_run hrun hquery
  refine ⟨fun cursor start hstart => ?_, ?_, fun hfits => ?_⟩
  · obtain ⟨page, hpage, -⟩ := exists_page maxBytes hplan hstart
    exact ⟨page, hpage, advances_iff hplan hstart hpage⟩
  · rintro ⟨n, hbound⟩ pages cursor start hfollowed hstart
    by_contra hfits
    obtain ⟨more, last, hmore, -, hlength⟩ := hfollowed.unending hplan hstart hfits (n + 1)
    have := hbound more last hmore
    omega
  · exact ⟨extent plan + 1, fun pages cursor hfollowed => (hfollowed.length_le hplan hfits).1⟩

end Progress

/-- With the default budget the first character at every place of `abc` fits. -/
theorem abc_firstFits (start : Nat × Nat) :
    FirstFits ⟨oneTaskEntry abc, none, pageBudget none⟩ start (oneTaskPlan abc) := by
  obtain ⟨planIdx, offset⟩ := start
  intro position hposition c rest hchunks
  match planIdx, hposition with
  | 0, hposition =>
    cases hposition
    match offset, hchunks with
    | 0, hchunks => cases hchunks; decide
    | 1, hchunks => cases hchunks; decide
    | 2, hchunks => cases hchunks; decide
    | offset + 3, hchunks =>
      have hnone : (oneTask abc).data.stdout.bytes.drop (offset + 3) = [] :=
        List.drop_of_length_le (Nat.le_add_left _ _)
      rw [hnone] at hchunks
      cases hchunks
  | 1, hposition =>
    cases hposition
    have hnone : (oneTask abc).data.stderr.bytes.drop offset = [] := List.drop_nil
    rw [hnone] at hchunks
    cases hchunks

theorem paging_progress_abc : ∃ n, ∀ pages cursor,
    Followed (oneTaskRegistry abc) 7 none none (pageBudget none) pages cursor → pages.length ≤ n :=
  (paging_progress_iff abc_run abc_query).2.mpr fun _ _ start _ _ => abc_firstFits start

/-- With a budget of one byte the page of `abc` is empty, and its cursor leads to the same page again. -/
theorem one_byte_budget_stuck :
    Machine.after OutputRegistry.record .new [oneTask abc] = some (oneTaskRegistry abc)
    ∧ pageBudget (some 1) = 1
    ∧ OutputRegistry.startOf 7 (oneTaskPlan abc) none = .ok (0, 0)
    ∧ OutputRegistry.startOf 7 (oneTaskPlan abc) (some "7|0|0|0") = .ok (0, 0)
    ∧ (∀ cursor ∈ [none, some "7|0|0|0"],
      ((oneTaskRegistry abc).retrievePage 7 none none 1 cursor).map
        (·.map fun page => (page.tasks, page.nextCursor)) = some (.ok ([], some "7|0|0|0")))
    ∧ ¬∃ n, ∀ pages cursor,
      Followed (oneTaskRegistry abc) 7 none none (pageBudget (some 1)) pages cursor →
        pages.length ≤ n := by
  have hplan := OutputRegistry.planned_of_run abc_run abc_query
  have hfits : ¬FirstFits ⟨oneTaskEntry abc, none, pageBudget (some 1)⟩ (0, 0) (oneTaskPlan abc) := by
    intro hfits
    exact absurd (hfits _ rfl ⟨[0x61], true⟩ _ rfl) (by decide +kernel)
  refine ⟨abc_run, rfl, rfl, by decide +kernel, by decide +kernel, ?_⟩
  rintro ⟨n, hbound⟩
  obtain ⟨more, cursor, hmore, -, hlength⟩ := Followed.first.unending hplan rfl hfits (n + 1)
  have := hbound more cursor hmore
  omega

end Funzzy
