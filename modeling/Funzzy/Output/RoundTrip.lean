import Funzzy.Output.Paging
import Mathlib.Algebra.Order.BigOperators.Group.List

/-! Following the cursors of a paged retrieval: when it is a round trip.

    A client stands well when its cursor is between two characters, the bytes of the stream in front of it
    are aligned and its pages carry the rendering of just what is before the cursor. From such a place
    every call answers with a page, and the next place is such a one again exactly when the bytes in front
    of it are aligned. -/

namespace Funzzy

open Utf8

/-! ### Cursors -/

namespace OutputRegistry

theorem parseUnsigned_toDigits (values n : Nat) :
    parseUnsigned values (Nat.toDigits 10 n) = (some n).filter (· < values) := by
  have hdigits : ∀ c ∈ Nat.toDigits 10 n, c.isDigit = true := fun c hc =>
    Nat.isDigit_of_mem_toDigits (by decide) (by decide) hc
  have hvalue : Nat.ofDigitChars 10 (Nat.toDigits 10 n) 0 = n :=
    Nat.ofDigitChars_toDigits (by decide) (by decide)
  have hsome : Nat.toDigits 10 n ≠ [] := Nat.toDigits_ne_nil
  generalize Nat.toDigits 10 n = digits at hdigits hvalue hsome
  have hplus : ∀ rest, digits ≠ '+' :: rest := by
    rintro rest rfl
    exact absurd (hdigits '+' (by simp)) (by decide)
  have hunsigned : parseUnsigned values digits
      = if digits.isEmpty || !digits.all Char.isDigit then none
        else (some (Nat.ofDigitChars 10 digits 0)).filter (· < values) := by
    rw [parseUnsigned]
    exact hplus
  rw [hunsigned, if_neg (by simpa [hsome] using hdigits), hvalue]

theorem splitOn_renderCursor (generation planIdx : Nat) (isStderr : Bool) (offset : Nat) :
    (renderCursor generation planIdx isStderr offset).toList.splitOn '|'
      = [Nat.toDigits 10 generation, Nat.toDigits 10 planIdx, Nat.toDigits 10 (streamIndex isStderr),
        Nat.toDigits 10 offset] := by
  have hbar : ∀ n, '|' ∉ Nat.toDigits 10 n := by
    intro n hmem
    exact absurd (Nat.isDigit_of_mem_toDigits (by decide) (by decide) hmem) (by decide)
  rw [renderCursor, String.toList_ofList, List.splitOn_intercalate]
  · simp [hbar]
  · simp

theorem parseUnsigned_word {known n : Nat} (h : n ≤ known) :
    parseUnsigned (wordValues known) (Nat.toDigits 10 n) = some n := by
  have hlt : n < wordValues known := by
    unfold wordValues
    omega
  rw [parseUnsigned_toDigits, Option.filter_some, if_pos (by simpa using hlt)]

/-- A cursor stands for the place it was rendered for, unless that is beyond the stream. -/
theorem startOf_renderCursor {generation planIdx offset : Nat} {plan : List Position}
    {position : Position} (h : plan[planIdx]? = some position) {place : Nat × Nat} :
    startOf generation plan (some (renderCursor generation planIdx position.isStderr offset)) = .ok place
      ↔ place = (planIdx, offset) ∧ offset ≤ position.buffer.retainedBytes := by
  have hindex : planIdx ≤ plan.length := (List.getElem?_eq_some_iff.mp h).1.le
  have hstream : streamIndex position.isStderr < wordValues 0 := by
    cases position.isStderr <;> decide
  have hretained : position.buffer.retainedBytes ≤ planBytes plan :=
    List.le_sum_of_mem (List.mem_map_of_mem (List.mem_of_getElem? h))
  simp only [startOf, splitOn_renderCursor, parseUnsigned_word le_rfl, parseUnsigned_word hindex,
    parseUnsigned_toDigits (wordValues 0), Option.filter_some, hstream, decide_true, if_true]
  by_cases hle : offset ≤ position.buffer.retainedBytes
  · simp only [parseUnsigned_word (hle.trans hretained), h, ne_eq, not_true_eq_false, if_false,
      if_neg (Nat.not_lt.mpr hle), Except.ok.injEq, eq_comm, hle, and_true]
  · -- a number that is no word is refused as well
    refine iff_of_false (fun heq => ?_) fun heq => hle heq.2
    rw [parseUnsigned_toDigits, Option.filter_some] at heq
    split_ifs at heq
    · simp only [h, ne_eq, not_true_eq_false, if_false, if_pos (Nat.lt_of_not_le hle)] at heq
      cases heq

end OutputRegistry

/-! ### Before and behind a place -/

/-- What pages before a place have shown of a stream. -/
def seenBefore (place : Nat × Nat) (entry : Position × Nat) : List ((String ×ₗ Bool) × UInt8) :=
  if entry.2 < place.1 then entry.1.rendering
  else tag entry.1.key (lossy (entry.1.buffer.bytes.take (beginAt place entry.2)))

theorem seenBefore_later {place : Nat × Nat} {entry : Position × Nat} (h : place.1 < entry.2) :
    seenBefore place entry = [] := by
  rw [seenBefore, if_neg (by omega), beginAt, if_neg (by omega), List.take_zero]
  rfl

theorem shownFrom_earlier {place : Nat × Nat} {entry : Position × Nat} (h : entry.2 < place.1) :
    shownFrom place entry = [] := if_pos h

theorem before_eq (plan : List Position) (place : Nat × Nat) :
    before plan place = plan.zipIdx.flatMap (seenBefore place) := by
  refine List.flatMap_congr fun entry _ => ?_
  obtain ⟨position, planIdx⟩ := entry
  dsimp only
  rcases Nat.lt_trichotomy planIdx place.1 with hlt | heq | hgt
  · rw [seenBefore, if_pos hlt, if_pos hlt]
  · simp only [seenBefore, beginAt, heq, lt_irrefl, if_false, if_true]
  · rw [seenBefore_later hgt, if_neg (by omega), if_neg (by omega)]

theorem tag_append (key : String ×ₗ Bool) (text others : List UInt8) :
    tag key (text ++ others) = tag key text ++ tag key others := List.map_append

theorem seenBefore_append_shownFrom {place : Nat × Nat} {entry : Position × Nat}
    (h : AtBoundary entry.1.buffer.bytes (beginAt place entry.2)) :
    seenBefore place entry ++ shownFrom place entry = entry.1.rendering := by
  rw [seenBefore, shownFrom]
  split
  · exact List.append_nil _
  · rw [← tag_append, h.lossy_split]
    rfl

section Ordered

variable {entries : List (Position × Nat)} {place : Nat × Nat}

theorem flatMap_seenBefore_later (h : ∀ entry ∈ entries, place.1 < entry.2) :
    entries.flatMap (seenBefore place) = [] :=
  List.flatMap_eq_nil_iff.mpr fun entry hentry => seenBefore_later (h entry hentry)

/-- What is shown before and from a place on is everything. -/
theorem flatMap_seenBefore_shownFrom (hindices : (entries.map Prod.snd).Pairwise (· < ·))
    (hplace : ∀ entry ∈ entries, AtBoundary entry.1.buffer.bytes (beginAt place entry.2)) :
    entries.flatMap (seenBefore place) ++ entries.flatMap (shownFrom place)
      = entries.flatMap fun entry => entry.1.rendering := by
  induction entries with
  | nil => rfl
  | cons entry entries ih =>
    obtain ⟨hfirst, hindices⟩ := List.pairwise_cons.mp hindices
    have hrest := ih hindices fun other hother => hplace other (List.mem_cons_of_mem entry hother)
    have hhead := seenBefore_append_shownFrom (hplace entry (by simp))
    rw [List.flatMap_cons, List.flatMap_cons, List.flatMap_cons, ← hhead]
    by_cases hlt : entry.2 < place.1
    · rw [shownFrom_earlier hlt, List.nil_append, List.append_nil, List.append_assoc, hrest]
    · have hnone : entries.flatMap (seenBefore place) = [] := by
        refine flatMap_seenBefore_later fun other hother => ?_
        have := hfirst other.2 (List.mem_map_of_mem hother)
        omega
      rw [hnone, List.nil_append] at hrest
      rw [hnone, List.append_nil, ← hrest, List.append_assoc]

/-- What has been shown up to a place in one of the streams. -/
theorem flatMap_seenBefore_at {front behind : List (Position × Nat)} {position : Position}
    {planIdx offset : Nat} (hentries : entries = front ++ (position, planIdx) :: behind)
    (hindices : (entries.map Prod.snd).Pairwise (· < ·)) :
    entries.flatMap (seenBefore (planIdx, offset)) = (front.flatMap fun entry => entry.1.rendering)
      ++ tag position.key (lossy (position.buffer.bytes.take offset)) := by
  subst hentries
  rw [List.map_append, List.map_cons, List.pairwise_append, List.pairwise_cons] at hindices
  obtain ⟨-, ⟨hbehind, -⟩, hfront⟩ := hindices
  have hlater : behind.flatMap (seenBefore (planIdx, offset)) = [] :=
    flatMap_seenBefore_later fun entry hentry => hbehind entry.2 (List.mem_map_of_mem hentry)
  have hearlier : front.flatMap (seenBefore (planIdx, offset))
      = front.flatMap fun entry => entry.1.rendering := by
    refine List.flatMap_congr fun entry hentry => if_pos ?_
    exact hfront entry.2 (List.mem_map_of_mem hentry) planIdx (by simp)
  rw [List.flatMap_append, List.flatMap_cons, hlater, hearlier, List.append_nil]
  simp only [seenBefore, beginAt, lt_irrefl, if_false, if_true]

/-- What has been shown once a page that starts at a place has gone up to a later stream. -/
theorem flatMap_seenBefore_front {front behind : List (Position × Nat)} {position : Position}
    {planIdx : Nat} (hentries : entries = front ++ (position, planIdx) :: behind)
    (hindices : (entries.map Prod.snd).Pairwise (· < ·))
    (hplace : ∀ entry ∈ entries, AtBoundary entry.1.buffer.bytes (beginAt place entry.2))
    (hle : place.1 ≤ planIdx) :
    entries.flatMap (seenBefore place) ++ front.flatMap (shownFrom place)
      = (front.flatMap fun entry => entry.1.rendering)
        ++ tag position.key (lossy (position.buffer.bytes.take (beginAt place planIdx))) := by
  subst hentries
  rw [List.map_append, List.map_cons, List.pairwise_append, List.pairwise_cons] at hindices
  obtain ⟨hindices, ⟨hbehind, -⟩, hfront⟩ := hindices
  have hlater : behind.flatMap (seenBefore place) = [] := by
    refine flatMap_seenBefore_later fun entry hentry => ?_
    exact hle.trans_lt (hbehind entry.2 (List.mem_map_of_mem hentry))
  have hall := flatMap_seenBefore_shownFrom hindices fun entry hentry =>
    hplace entry (List.mem_append_left _ hentry)
  have hhere : seenBefore place (position, planIdx)
      = tag position.key (lossy (position.buffer.bytes.take (beginAt place planIdx))) :=
    if_neg (Nat.not_lt_of_le hle)
  rw [List.flatMap_append, List.flatMap_cons, hlater, List.append_nil, ← hall, ← hhere]
  rcases hle.lt_or_eq with hlt | heq
  · rw [seenBefore_later hlt, List.append_nil, List.append_nil]
  · have hnone : front.flatMap (shownFrom place) = [] := by
      refine List.flatMap_eq_nil_iff.mpr fun entry hentry => shownFrom_earlier ?_
      exact heq ▸ hfront entry.2 (List.mem_map_of_mem hentry) planIdx (by simp)
    rw [hnone, List.append_nil, List.append_nil]

end Ordered

theorem zipIdx_indices (plan : List Position) : (plan.zipIdx.map Prod.snd).Pairwise (· < ·) := by
  rw [List.zipIdx_map_snd]
  exact List.pairwise_lt_range' 1

theorem flatMap_zipIdx_rendering (plan : List Position) :
    (plan.zipIdx.flatMap fun entry => entry.1.rendering) = plan.flatMap Position.rendering := by
  rw [← List.flatMap_map, List.zipIdx_map_fst]

/-! ### The order of the plan -/

namespace OutputRegistry

theorem resolveTask_sublist {taskIds ids : List String} {task resolved : Option String}
    (h : resolveTask taskIds task = .ok (resolved, ids)) : ids.Sublist taskIds := by
  rw [resolveTask] at h
  split at h
  · cases h
    exact List.Sublist.refl _
  · split at h
    · cases h
      exact List.filter_sublist
    · split at h
      · cases h
        exact List.filter_sublist
      · cases h
      · cases h

/-- The plan goes by task id, stdout before stderr. -/
theorem pagePlan_keys (entry : GenerationOutput) {taskIds : List String} (hnodup : taskIds.Nodup)
    (stream : Option String) :
    ((pagePlan entry taskIds stream).map Position.key).Pairwise (· < ·) := by
  have hsorted : (taskIds.insertionSort (· ≤ ·)).Pairwise (· < ·) := by
    have hle := List.pairwise_insertionSort (· ≤ ·) taskIds
    have hne := (List.perm_insertionSort (· ≤ ·) taskIds).nodup_iff.mpr hnodup
    exact hle.imp₂ (fun _ _ hle hne => lt_of_le_of_ne hle hne) hne
  have hkey : ∀ (id : String) (isStderr : Bool) (position : Position),
      ((entry.tasks.find? fun output => output.task == id).map fun output =>
        (⟨id, isStderr, if isStderr then output.stderr else output.stdout⟩ : Position))
          = some position → position.key = toLex (id, isStderr) := by
    intro id isStderr position h
    obtain ⟨output, -, rfl⟩ := Option.map_eq_some_iff.mp h
    rfl
  rw [pagePlan, List.pairwise_map, List.pairwise_flatMap]
  refine ⟨fun id _ => ?_, hsorted.imp ?_⟩
  · rw [List.pairwise_filterMap]
    have hstreams : ([false, true].filter (admitsStream stream)).Pairwise (· < ·) :=
      List.Pairwise.filter _ (by decide)
    refine hstreams.imp fun hlt first hfirst second hsecond => ?_
    rw [hkey _ _ _ hfirst, hkey _ _ _ hsecond]
    exact Prod.Lex.toLex_lt_toLex.mpr (.inr ⟨rfl, hlt⟩)
  · intro id later hlt first hfirst second hsecond
    obtain ⟨_, -, hfirst⟩ := List.mem_filterMap.mp hfirst
    obtain ⟨_, -, hsecond⟩ := List.mem_filterMap.mp hsecond
    rw [hkey _ _ _ hfirst, hkey _ _ _ hsecond]
    exact Prod.Lex.toLex_lt_toLex.mpr (.inl hlt)

/-- A query that is answered: it goes to the entry of its generation, and its plan is in order. -/
structure Planned (registry : OutputRegistry) (generation : Nat) (task stream : Option String)
    (entry : GenerationOutput) (resolved : Option String) (plan : List Position) : Prop where
  query_eq : registry.query generation task stream = .ok (entry, resolved, plan)
  generation_eq : entry.generation = generation
  keys : (plan.map Position.key).Pairwise (· < ·)

theorem Sound.planned {registry : OutputRegistry} {generation : Nat}
    {task stream resolved : Option String} {entry : GenerationOutput} {plan : List Position}
    (hsound : Sound registry)
    (h : registry.query generation task stream = .ok (entry, resolved, plan)) :
    Planned registry generation task stream entry resolved plan := by
  have hquery := h
  rw [query] at h
  split at h
  · cases h
  · next found hfound =>
    split at h
    · cases h
    · next taskIds hresolve =>
      cases h
      refine ⟨hquery, by simpa using List.find?_some hfound, pagePlan_keys _ ?_ _⟩
      exact (resolveTask_sublist hresolve).nodup
        (hsound.entries _ (List.mem_of_find?_eq_some hfound)).tasks_nodup

/-- The registry of every run answers queries with plans in order. -/
theorem planned_of_run {registry : OutputRegistry} {generation : Nat} {task stream resolved : Option String}
    {entry : GenerationOutput} {plan : List Position} {calls : List Record}
    (hrun : Machine.after record .new calls = some registry)
    (h : registry.query generation task stream = .ok (entry, resolved, plan)) :
    Planned registry generation task stream entry resolved plan :=
  (sound_of_run hrun).planned h

end OutputRegistry

/-! ### One page -/

/-- A client stands well with these pages and this cursor. -/
structure Standing (generation : Nat) (plan : List Position) (pages : List RetrievedOutput)
    (cursor : Option String) (place : Nat × Nat) : Prop where
  startOf_eq : OutputRegistry.startOf generation plan cursor = .ok place
  boundary : ∀ entry ∈ plan.zipIdx, AtBoundary entry.1.buffer.bytes (beginAt place entry.2)
  aligned : ∀ entry ∈ plan.zipIdx, Aligned (entry.1.buffer.bytes.take (beginAt place entry.2))
  carried : pages.flatMap RetrievedOutput.carried = before plan place

theorem standing_first (generation : Nat) (plan : List Position) :
    Standing generation plan [] none (0, 0) := by
  have hbegin : ∀ planIdx, beginAt (0, 0) planIdx = 0 := fun planIdx => ite_self _
  refine ⟨rfl, fun entry _ => ?_, fun entry _ => ?_, ?_⟩
  · rw [hbegin]
    exact atBoundary_zero _
  · rw [hbegin]
    exact aligned_nil
  · rw [before_eq]
    refine (List.flatMap_eq_nil_iff.mpr fun entry _ => ?_).symm
    rw [seenBefore, if_neg (Nat.not_lt_zero _), hbegin]
    rfl

/-- The pages end in the middle of a stream: `keep` bytes of text behind an offset the client stood well
    at. -/
structure CutAt (plan : List Position) (pages : List RetrievedOutput) (position : Position)
    (planIdx offset keep : Nat) : Prop where
  position_eq : plan[planIdx]? = some position
  boundary : AtBoundary position.buffer.bytes offset
  aligned : Aligned (position.buffer.bytes.take offset)
  cut : Cut position.buffer.bytes offset keep
  carried : ∃ front, (∀ offset, before plan (planIdx, offset)
      = front ++ tag position.key (lossy (position.buffer.bytes.take offset)))
    ∧ pages.flatMap RetrievedOutput.carried = front ++ tag position.key
      (lossy (position.buffer.bytes.take offset)
        ++ (lossy (position.buffer.bytes.drop offset)).take keep)

/-- How a page ends that a client gets who stands well: with everything carried, or in the middle of a
    stream at a cursor. -/
inductive PageEnds (generation : Nat) (plan : List Position) (pages : List RetrievedOutput)
    (page : RetrievedOutput) : Prop
  | all (hnone : page.nextCursor = none)
      (hcarried : (pages ++ [page]).flatMap RetrievedOutput.carried = plan.flatMap Position.rendering)
  | cut {position planIdx offset keep} (hcut : CutAt plan (pages ++ [page]) position planIdx offset keep)
      (hcursor : page.nextCursor = some (OutputRegistry.renderCursor generation planIdx
        position.isStderr (offset + keep)))

section Client

variable {registry : OutputRegistry} {generation : Nat} {task stream : Option String} {maxBytes : Nat}
  {entry : GenerationOutput} {resolved : Option String} {plan : List Position}
  {pages : List RetrievedOutput} {cursor : Option String} {place : Nat × Nat}

/-- A client that stands well gets a page, which counts what it carries. -/
theorem Standing.page (maxBytes : Nat)
    (hplan : registry.Planned generation task stream entry resolved plan)
    (h : Standing generation plan pages cursor place) :
    ∃ page, registry.retrievePage generation task stream maxBytes cursor = some (.ok page)
      ∧ page.returnedBytes = some page.carried.length ∧ PageEnds generation plan pages page := by
  have hentries : (plan.zipIdx.map fun entry => entry.1.key).Pairwise (· < ·) := by
    have hmap : (plan.zipIdx.map fun entry => entry.1.key) = plan.map Position.key := by
      conv_rhs => rw [← List.zipIdx_map_fst 0 plan, List.map_map]
      rfl
    rw [hmap]
    exact hplan.keys
  obtain ⟨walked, hwalk, hcount, hends⟩ :=
    OutputRegistry.PageRequest.walk_ends ⟨entry, resolved, maxBytes⟩ place plan.zipIdx [] 0 hentries
      (fun entry _ => settled_nil _) rfl
  refine ⟨OutputRegistry.PageRequest.page ⟨entry, resolved, maxBytes⟩ walked, ?_,
    congrArg some hcount, ?_⟩
  · rw [OutputRegistry.retrievePage, hplan.query_eq]
    dsimp only
    rw [h.startOf_eq]
    dsimp only
    rw [hwalk, Option.map_some]
  · cases hends with
    | all hnone hcarried =>
      refine .all hnone ?_
      rw [List.flatMap_append, h.carried, List.flatMap_singleton, before_eq,
        ← flatMap_zipIdx_rendering, ← flatMap_seenBefore_shownFrom (zipIdx_indices plan) h.boundary]
      exact congrArg _ hcarried
    | @cut front position planIdx behind keep hsplit hstart hcut hcursor hcarried =>
      have hmem : (position, planIdx) ∈ plan.zipIdx := by
        rw [hsplit]
        simp
      have hbefore : ∀ offset, before plan (planIdx, offset)
          = (front.flatMap fun entry => entry.1.rendering)
            ++ tag position.key (lossy (position.buffer.bytes.take offset)) := by
        intro offset
        rw [before_eq, flatMap_seenBefore_at hsplit (zipIdx_indices plan)]
      refine .cut ⟨List.mem_zipIdx_iff_getElem?.mp hmem, h.boundary _ hmem, h.aligned _ hmem, hcut,
        _, hbefore, ?_⟩ (hplan.generation_eq ▸ hcursor)
      rw [List.flatMap_append, h.carried, List.flatMap_singleton, before_eq, tag_append,
        ← List.append_assoc,
        ← flatMap_seenBefore_front hsplit (zipIdx_indices plan) h.boundary hstart,
        List.append_assoc]
      exact congrArg _ hcarried

/-- Behind a cut the client stands well again if the bytes in front of it are aligned. -/
theorem CutAt.standing {planIdx offset keep : Nat} {position : Position}
    (h : CutAt plan pages position planIdx offset keep)
    (haligned : Aligned (position.buffer.bytes.take (offset + keep))) (generation : Nat) :
    Standing generation plan pages
      (some (OutputRegistry.renderCursor generation planIdx position.isStderr (offset + keep)))
      (planIdx, offset + keep) := by
  obtain ⟨hboundary, hlossy⟩ := h.cut.atBoundary h.boundary haligned
  have hbegin : ∀ entry ∈ plan.zipIdx, entry.1 = position ∧ beginAt (planIdx, offset + keep) entry.2
      = offset + keep ∨ beginAt (planIdx, offset + keep) entry.2 = 0 := by
    intro entry hentry
    by_cases heq : entry.2 = planIdx
    · have hfound := List.mem_zipIdx_iff_getElem?.mp hentry
      rw [heq, h.position_eq] at hfound
      exact .inl ⟨(Option.some.inj hfound).symm, if_pos heq⟩
    · exact .inr (if_neg heq)
  refine ⟨?_, fun entry hentry => ?_, fun entry hentry => ?_, ?_⟩
  · exact (OutputRegistry.startOf_renderCursor h.position_eq).mpr ⟨rfl, hboundary.le_length⟩
  · rcases hbegin entry hentry with ⟨hfound, hthis⟩ | hother
    · rwa [hthis, hfound]
    · rw [hother]
      exact atBoundary_zero _
  · rcases hbegin entry hentry with ⟨hfound, hthis⟩ | hother
    · rwa [hthis, hfound]
    · rw [hother]
      exact aligned_nil
  · obtain ⟨front, hbefore, hcarried⟩ := h.carried
    rw [hcarried, hbefore, hlossy]

/-- They are aligned if the cursor is within the stream and what is before it is what the pages carry. -/
theorem CutAt.aligned_of_before {planIdx offset keep : Nat} {position : Position}
    (h : CutAt plan pages position planIdx offset keep)
    (hle : offset + keep ≤ position.buffer.bytes.length)
    (hpages : pages.flatMap RetrievedOutput.carried = before plan (planIdx, offset + keep)) :
    Aligned (position.buffer.bytes.take (offset + keep)) := by
  obtain ⟨front, hbefore, hcarried⟩ := h.carried
  rw [hcarried, hbefore] at hpages
  have htag : Function.Injective fun b : UInt8 => (position.key, b) := fun _ _ heq =>
    (Prod.mk.inj heq).2
  have hlossy := List.map_injective_iff.mpr htag (List.append_cancel_left hpages)
  exact h.cut.aligned h.boundary h.aligned hle hlossy.symm

/-- A cursor that is accepted is not beyond its stream. -/
theorem offset_le_of_accepted {planIdx offset : Nat} {position : Position} {page : RetrievedOutput}
    (hquery : registry.query generation task stream = .ok (entry, resolved, plan))
    (hposition : plan[planIdx]? = some position)
    (hpage : registry.retrievePage generation task stream maxBytes
      (some (OutputRegistry.renderCursor generation planIdx position.isStderr offset))
        = some (.ok page)) :
    offset ≤ position.buffer.bytes.length := by
  rw [OutputRegistry.retrievePage, hquery] at hpage
  dsimp only at hpage
  split at hpage
  · cases hpage
  · next heq => exact ((OutputRegistry.startOf_renderCursor hposition).mp heq).2

/-- The place of a rendered cursor is the one it was rendered for. -/
theorem Standing.place_eq {planIdx offset : Nat} {position : Position}
    (hposition : plan[planIdx]? = some position) (h : Standing generation plan pages
      (some (OutputRegistry.renderCursor generation planIdx position.isStderr offset)) place) :
    place = (planIdx, offset) :=
  ((OutputRegistry.startOf_renderCursor hposition).mp h.startOf_eq).1

/-- What the client has got is never more than there is. -/
theorem Standing.carried_length_le (h : Standing generation plan pages cursor place) :
    (pages.flatMap RetrievedOutput.carried).length ≤ (plan.flatMap Position.rendering).length := by
  rw [h.carried, before_eq, ← flatMap_zipIdx_rendering,
    ← flatMap_seenBefore_shownFrom (zipIdx_indices plan) h.boundary, List.length_append]
  exact Nat.le_add_right _ _

/-- If the client always stands well and every page it has to go on from carries something, it comes to
    the end. -/
theorem Standing.follow (hplan : registry.Planned generation task stream entry resolved plan)
    (hroomy : Roomy registry generation task stream maxBytes)
    (hstanding : ∀ pages cursor, Followed registry generation task stream maxBytes pages cursor →
      ∃ place, Standing generation plan pages cursor place) : ∀ n pages cursor,
      Followed registry generation task stream maxBytes pages cursor →
      (plan.flatMap Position.rendering).length ≤ (pages.flatMap RetrievedOutput.carried).length + n →
      ∃ fuel more, registry.follow generation task stream maxBytes fuel cursor = some more
        ∧ (pages ++ more).flatMap RetrievedOutput.carried = plan.flatMap Position.rendering := by
  intro n
  induction n using Nat.strong_induction_on with
  | _ n ih =>
    intro pages cursor hfollowed hlength
    obtain ⟨place, h⟩ := hstanding pages cursor hfollowed
    obtain ⟨page, hpage, hcount, hends⟩ := h.page maxBytes hplan
    cases hends with
    | all hnone hcarried =>
      refine ⟨1, [page], ?_, hcarried⟩
      rw [OutputRegistry.follow, hpage]
      dsimp only
      rw [hnone]
    | cut hcut hcursor =>
      have hnext := hfollowed.next hpage hcursor
      obtain ⟨place', h'⟩ := hstanding _ _ hnext
      have hle := h'.carried_length_le
      have hpos : 0 < page.carried.length := by
        refine Nat.pos_of_ne_zero fun hzero => hroomy pages cursor page hfollowed hpage ?_ ?_
        · rw [hcursor]
          exact Option.some_ne_none _
        · rw [hcount, hzero]
      rw [List.flatMap_append, List.length_append, List.flatMap_singleton] at hle
      obtain ⟨fuel, more, hmore, hall⟩ := ih (n - page.carried.length) (by omega) _ _ hnext (by
        rw [List.flatMap_append, List.length_append, List.flatMap_singleton]
        omega)
      refine ⟨fuel + 1, page :: more, ?_, ?_⟩
      · rw [OutputRegistry.follow, hpage]
        dsimp only
        rw [hcursor]
        dsimp only
        rw [hmore, Option.map_some]
      · rwa [List.append_cons]

/-- However many calls are allowed for, the client gets the same pages. -/
theorem follow_unique : ∀ {n m : Nat} {cursor : Option String} {pages others : List RetrievedOutput},
    registry.follow generation task stream maxBytes n cursor = some pages →
    registry.follow generation task stream maxBytes m cursor = some others → pages = others := by
  intro n
  induction n with
  | zero =>
    intro m cursor pages others h
    cases h
  | succ n ih =>
    intro m cursor pages others h hothers
    cases m with
    | zero => cases hothers
    | succ m =>
      rw [OutputRegistry.follow] at h hothers
      split at h
      · next page hpage =>
        rw [hpage] at hothers
        dsimp only at hothers
        split at h
        · next hnone =>
          rw [hnone] at hothers
          exact Option.some.inj (h.symm.trans hothers)
        · next raw hcursor =>
          rw [hcursor] at hothers
          obtain ⟨more, hmore, rfl⟩ := Option.map_eq_some_iff.mp h
          obtain ⟨rest, hrest, rfl⟩ := Option.map_eq_some_iff.mp hothers
          rw [ih hmore hrest]
      · cases h

/-- Run lemma: if every cut leaves the bytes in front of it aligned, the client always stands well. -/
theorem Followed.standing (hplan : registry.Planned generation task stream entry resolved plan)
    (haligned : ∀ pages position planIdx offset keep, CutAt plan pages position planIdx offset keep →
      Followed registry generation task stream maxBytes pages
        (some (OutputRegistry.renderCursor generation planIdx position.isStderr (offset + keep))) →
      Aligned (position.buffer.bytes.take (offset + keep)))
    (h : Followed registry generation task stream maxBytes pages cursor) :
    ∃ place, Standing generation plan pages cursor place := by
  induction h with
  | first => exact ⟨(0, 0), standing_first generation plan⟩
  | @next pages cursor page raw hfollowed hpage hcursor ih =>
    obtain ⟨place, h⟩ := ih
    obtain ⟨same, hsame, -, hends⟩ := h.page maxBytes hplan
    have heq : same = page := by
      rw [hpage] at hsame
      cases hsame
      rfl
    subst heq
    cases hends with
    | all hnone hcarried =>
      rw [hnone] at hcursor
      cases hcursor
    | cut hcut hrendered =>
      have hnext := hfollowed.next hpage hcursor
      rw [hcursor] at hrendered
      obtain rfl := Option.some.inj hrendered
      exact ⟨_, hcut.standing (haligned _ _ _ _ _ hcut hnext) generation⟩

/-- A client that always stands well makes a round trip. -/
theorem roundTrip_of_standing
    (hplan : registry.Planned generation task stream entry resolved plan)
    (hroomy : Roomy registry generation task stream maxBytes)
    (hstanding : ∀ pages cursor, Followed registry generation task stream maxBytes pages cursor →
      ∃ place, Standing generation plan pages cursor place) :
    RoundTrip registry generation task stream maxBytes plan := by
  refine ⟨?_, ?_, ?_, hplan.keys⟩
  · obtain ⟨fuel, pages, hpages, hall⟩ := Standing.follow hplan hroomy hstanding
      _ [] none .first (Nat.le_add_left _ _)
    exact ⟨fuel, pages, hpages, hall⟩
  · intro pages cursor hfollowed
    obtain ⟨place, hplace⟩ := hstanding pages cursor hfollowed
    obtain ⟨page, hpage, -⟩ := hplace.page maxBytes hplan
    exact ⟨page, hpage⟩
  · intro pages planIdx position offset hposition hfollowed
    obtain ⟨place, hplace⟩ := hstanding pages _ hfollowed
    obtain rfl := hplace.place_eq hposition
    exact hplace.carried

/-- Streams that are aligned as a whole, well-formed text among them, are never cut wrong. -/
theorem roundTrip_of_aligned (hsound : registry.Sound)
    (hquery : registry.query generation task stream = .ok (entry, resolved, plan))
    (hroomy : Roomy registry generation task stream maxBytes)
    (haligned : ∀ position ∈ plan, Aligned position.buffer.bytes) :
    RoundTrip registry generation task stream maxBytes plan := by
  have hplan := hsound.planned hquery
  refine roundTrip_of_standing hplan hroomy fun pages cursor hfollowed => ?_
  refine hfollowed.standing hplan fun pages position planIdx offset keep hcut _ => ?_
  exact hcut.cut.aligned_of_aligned hcut.boundary
    (haligned position (List.mem_of_getElem? hcut.position_eq))

/-- Following the cursors is a round trip exactly when every cursor on the way has in front of it, in its
    stream, no ill-formed sequence that is shorter than its replacement. -/
theorem round_trip_iff {calls : List Record}
    (hrun : Machine.after OutputRegistry.record .new calls = some registry)
    (hquery : registry.query generation task stream = .ok (entry, resolved, plan))
    (hroomy : Roomy registry generation task stream maxBytes) :
    RoundTrip registry generation task stream maxBytes plan ↔
      ∀ pages planIdx position offset, plan[planIdx]? = some position →
        Followed registry generation task stream maxBytes pages
          (some (OutputRegistry.renderCursor generation planIdx position.isStderr offset)) →
        Aligned (position.buffer.bytes.take offset) := by
  have hplan := OutputRegistry.planned_of_run hrun hquery
  constructor
  · intro h pages planIdx position offset hposition hfollowed
    obtain ⟨place, hplace⟩ := hfollowed.standing hplan
      fun pages position planIdx offset keep hcut hnext => by
        obtain ⟨page, hpage⟩ := h.accepted _ _ hnext
        refine hcut.aligned_of_before ?_ (h.contiguous _ _ _ _ hcut.position_eq hnext)
        exact offset_le_of_accepted hquery hcut.position_eq hpage
    obtain rfl := hplace.place_eq hposition
    have haligned := hplace.aligned (position, planIdx) (List.mem_zipIdx_iff_getElem?.mpr hposition)
    rwa [beginAt, if_pos rfl] at haligned
  · intro h
    refine roundTrip_of_standing hplan hroomy fun pages cursor hfollowed => ?_
    refine hfollowed.standing hplan fun pages position planIdx offset keep hcut => ?_
    exact h pages planIdx position (offset + keep) hcut.position_eq

end Client

/-! ### Runs with known cursors -/

/-- A page is the last one, or it carries something and leads to one of these cursors. -/
def goesOn (cursors : List (Option String)) (page : RetrievedOutput) : Bool :=
  page.nextCursor.isNone || cursors.contains page.nextCursor && page.returnedBytes != some 0

section Known

variable {registry : OutputRegistry} {generation : Nat} {task stream : Option String} {maxBytes : Nat}
  {cursors : List (Option String)}

theorem goesOn_of_mem (hanswers : ∀ cursor ∈ cursors,
      ((registry.retrievePage generation task stream maxBytes cursor).bind Except.toOption).all
        (goesOn cursors) = true) {cursor : Option String} (hmem : cursor ∈ cursors)
    {page : RetrievedOutput}
    (hpage : registry.retrievePage generation task stream maxBytes cursor = some (.ok page))
    (hcursor : page.nextCursor ≠ none) :
    page.nextCursor ∈ cursors ∧ page.returnedBytes ≠ some 0 := by
  have h := hanswers cursor hmem
  rw [hpage] at h
  simpa [goesOn, Except.toOption, hcursor] using h

/-- A run stays within the cursors that every answer leads back to. -/
theorem Followed.mem (hanswers : ∀ cursor ∈ cursors,
      ((registry.retrievePage generation task stream maxBytes cursor).bind Except.toOption).all
        (goesOn cursors) = true) (hfirst : none ∈ cursors) {pages : List RetrievedOutput}
    {cursor : Option String} (h : Followed registry generation task stream maxBytes pages cursor) :
    cursor ∈ cursors := by
  induction h with
  | first => exact hfirst
  | next hfollowed hpage hcursor ih =>
    rw [← hcursor]
    refine (goesOn_of_mem hanswers ih hpage ?_).1
    rw [hcursor]
    exact Option.some_ne_none _

end Known

/-- A capture of one task with this stdout and no stderr. -/
def oneTask (stdout : List UInt8) : Record :=
  ⟨7, "t", ⟨⟨captureStreamBytes, stdout, stdout.length, false⟩, .new captureStreamBytes⟩, none, none⟩

def oneTaskEntry (stdout : List UInt8) : GenerationOutput :=
  ⟨7, none, none, [(oneTask stdout).output], stdout.length⟩

def oneTaskRegistry (stdout : List UInt8) : OutputRegistry := ⟨[oneTaskEntry stdout], stdout.length⟩

def oneTaskPlan (stdout : List UInt8) : List Position :=
  [⟨"t", false, (oneTask stdout).data.stdout⟩, ⟨"t", true, (oneTask stdout).data.stderr⟩]

theorem oneTask_run {stdout : List UInt8} (h : stdout.length ≤ outputRetentionBytes) :
    Machine.after OutputRegistry.record .new [oneTask stdout] = some (oneTaskRegistry stdout) := by
  have hkept : ¬(outputRetentionBytes < 0 + (stdout.length + 0) ∨ outputMaxGenerations < 0 + 1) := by
    simp [outputMaxGenerations, Nat.not_lt.mpr h]
  have hevict : OutputRegistry.evict [oneTaskEntry stdout] (0 + (stdout.length + 0))
      = oneTaskRegistry stdout := by
    rw [OutputRegistry.evict, List.length_nil, if_neg hkept, Nat.zero_add, Nat.add_zero, oneTaskRegistry]
  exact congrArg some hevict

theorem oneTask_query (stdout : List UInt8) :
    (oneTaskRegistry stdout).query 7 none none = .ok (oneTaskEntry stdout, none, oneTaskPlan stdout) :=
  rfl

/-- A character of four bytes that lost its last one, then `abc`. -/
def cutCharacter : List UInt8 := [0xF0, 0x9F, 0x98, 0x61, 0x62, 0x63]

/-- A byte that begins no character, then `abc`. -/
def strayByte : List UInt8 := [0xFF, 0x61, 0x62, 0x63]

/-- Three bytes are replaced by three, so the page that ends behind them leaves a cursor that is right. -/
theorem round_trip_cut_character :
    ((oneTaskRegistry cutCharacter).follow 7 none none 199 2 none).map List.length = some 2
      ∧ RoundTrip (oneTaskRegistry cutCharacter) 7 none none 199 (oneTaskPlan cutCharacter) := by
  have hanswers : ∀ cursor ∈ [none, some "7|0|0|3"],
      (((oneTaskRegistry cutCharacter).retrievePage 7 none none 199 cursor).bind Except.toOption).all
        (goesOn [none, some "7|0|0|3"]) = true := by
    decide +kernel
  have hrun : Machine.after OutputRegistry.record .new [oneTask cutCharacter]
      = some (oneTaskRegistry cutCharacter) := oneTask_run (by decide)
  have hquery := oneTask_query cutCharacter
  refine ⟨by decide +kernel, (round_trip_iff hrun hquery ?_).mpr ?_⟩
  · intro pages cursor page hfollowed hpage hcursor
    exact (goesOn_of_mem hanswers (hfollowed.mem hanswers (by simp)) hpage hcursor).2
  · intro pages planIdx position offset hposition hfollowed
    have hmem := hfollowed.mem hanswers (by simp)
    have hcursor : some (OutputRegistry.renderCursor 7 planIdx position.isStderr offset)
        = some "7|0|0|3" := by
      simpa using hmem
    have hplace : OutputRegistry.startOf 7 (oneTaskPlan cutCharacter) (some "7|0|0|3") = .ok (0, 3) := by
      decide +kernel
    rw [← hcursor, OutputRegistry.startOf_renderCursor hposition] at hplace
    obtain ⟨hplace, -⟩ := hplace
    cases hplace
    cases hposition
    decide

/-- One byte is replaced by three, so the cursor behind it is two bytes too far: with one budget `ab` is
    skipped, with another the cursor is beyond the stream and is not accepted. -/
theorem stray_byte_skips :
    Roomy (oneTaskRegistry strayByte) 7 none none 199
    ∧ ((oneTaskRegistry strayByte).follow 7 none none 199 2 none).map
        (·.flatMap RetrievedOutput.carried)
      = some (tag (toLex ("t", false)) [0xEF, 0xBF, 0xBD, 0x63])
    ∧ (oneTaskPlan strayByte).flatMap Position.rendering
      = tag (toLex ("t", false)) [0xEF, 0xBF, 0xBD, 0x61, 0x62, 0x63]
    ∧ ¬RoundTrip (oneTaskRegistry strayByte) 7 none none 199 (oneTaskPlan strayByte)
    ∧ ((oneTaskRegistry strayByte).retrievePage 7 none none 201 none).map
        (·.map RetrievedOutput.nextCursor) = some (.ok (some "7|0|0|5"))
    ∧ (oneTaskRegistry strayByte).retrievePage 7 none none 201 (some "7|0|0|5")
      = some (.error (.invalidCursor "cursor byte offset 5 beyond retained 4 bytes")) := by
  have hanswers : ∀ cursor ∈ [none, some "7|0|0|3"],
      (((oneTaskRegistry strayByte).retrievePage 7 none none 199 cursor).bind Except.toOption).all
        (goesOn [none, some "7|0|0|3"]) = true := by
    decide +kernel
  have hpages : ((oneTaskRegistry strayByte).follow 7 none none 199 2 none).map
        (·.flatMap RetrievedOutput.carried)
      = some (tag (toLex ("t", false)) [0xEF, 0xBF, 0xBD, 0x63]) := by
    decide +kernel
  refine ⟨?_, hpages, by decide +kernel, ?_, by decide +kernel, by decide +kernel⟩
  · intro pages cursor page hfollowed hpage hcursor
    exact (goesOn_of_mem hanswers (hfollowed.mem hanswers (by simp)) hpage hcursor).2
  · intro h
    obtain ⟨fuel, pages, hfollow, hall⟩ := h.complete
    obtain ⟨known, hknown, hcarried⟩ := Option.map_eq_some_iff.mp hpages
    rw [follow_unique hknown hfollow, hall] at hcarried
    exact absurd hcarried (by decide +kernel)

end Funzzy
