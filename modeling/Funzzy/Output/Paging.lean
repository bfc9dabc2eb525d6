import Funzzy.Output.Size

/-! One page of a paged retrieval.

    The offset in a cursor is the length of the text that was returned, while the next call reads it as a
    place in the captured bytes. The two agree as long as the text is as long as the bytes it renders; a
    well-formed character is, and a replacement character is when it stands for three bytes. The walk over
    the plan carries the streams it passes and stops in one that does not fit, between two characters of
    its text. -/

namespace Funzzy

open Utf8

/-! ### Cutting a text -/

namespace OutputRegistry

/-- The rounds the source makes are within the fuel. -/
theorem search_fuel (fits : Nat → Option Bool) : ∀ fuel lo hi, hi - lo ≤ fuel →
    search fits (fuel + 1) lo hi = search fits fuel lo hi := by
  intro fuel
  induction fuel with
  | zero =>
    intro lo hi h
    have hdone : ¬lo < hi := by omega
    simp [search, hdone]
  | succ fuel ih =>
    intro lo hi h
    rw [search, search]
    split
    · refine congrArg (Option.bind (fits ((lo + hi + 1) / 2))) (funext fun fit => ?_)
      cases fit with
      | true => exact ih _ _ (by omega)
      | false => exact ih _ _ (by omega)
    · rfl

theorem boundariesFrom_continuation {others : List UInt8}
    (h : ∀ b ∈ others, isContinuation b = true) (rest : List UInt8) : ∀ offset,
    boundariesFrom offset (others ++ rest) = boundariesFrom (offset + others.length) rest := by
  induction others with
  | nil => exact fun _ => rfl
  | cons b others ih =>
    intro offset
    rw [List.cons_append, boundariesFrom, if_pos (h b (by simp)),
      ih (fun c hc => h c (List.mem_cons_of_mem b hc)), List.length_cons]
    congr 1
    omega

/-- The boundaries of a rendering are the ends of its characters. -/
theorem boundariesFrom_render {cs : List Chunk} (h : ∀ c ∈ cs, IsCharacter c.render) :
    ∀ offset i, (boundariesFrom offset (render cs))[i]?
      = if i ≤ cs.length then some (offset + (render (cs.take i)).length) else none := by
  induction cs with
  | nil =>
    intro offset i
    cases i <;> simp [render, boundariesFrom]
  | cons c cs ih =>
    intro offset i
    obtain ⟨lead, others, hrender, hlead, hothers⟩ := h c (by simp)
    have hcons : render (c :: cs) = c.render ++ render cs := List.flatMap_cons
    rw [hcons, hrender, List.cons_append, boundariesFrom, if_neg (by simp [hlead]),
      boundariesFrom_continuation hothers]
    cases i with
    | zero => simp [render]
    | succ i =>
      rw [List.getElem?_cons_succ, ih (fun d hd => h d (List.mem_cons_of_mem c hd))]
      simp only [List.length_cons, Nat.add_le_add_iff_right, List.take_succ_cons]
      split
      · have htake : render (c :: cs.take i) = c.render ++ render (cs.take i) := List.flatMap_cons
        rw [htake, hrender, List.length_append, List.length_cons]
        congr 1
        omega
      · rfl

end OutputRegistry

/-! ### Bytes and their text -/

theorem render_length_eq_raw_iff (c : Chunk) :
    c.render.length = c.raw.length ↔ c.valid = true ∨ c.raw.length = 3 := by
  rw [Chunk.render]
  cases c.valid with
  | true => simp
  | false => simpa [replacement] using eq_comm

/-- A text is at least as long as the bytes it renders, and no longer just when they are aligned. -/
theorem render_length (cs : List Chunk) (h : ∀ c ∈ cs, c.raw.length ≤ c.render.length) :
    (raw cs).length ≤ (render cs).length
      ∧ ((render cs).length = (raw cs).length ↔ ∀ c ∈ cs, c.valid = true ∨ c.raw.length = 3) := by
  induction cs with
  | nil => exact ⟨Nat.le_refl _, by simp [render, raw]⟩
  | cons c cs ih =>
    have hhead := h c (by simp)
    obtain ⟨hle, hiff⟩ := ih fun d hd => h d (List.mem_cons_of_mem c hd)
    have hrender : render (c :: cs) = c.render ++ render cs := List.flatMap_cons
    have hraw : raw (c :: cs) = c.raw ++ raw cs := List.flatMap_cons
    rw [hrender, hraw, List.length_append, List.length_append, List.forall_mem_cons, ← hiff,
      ← render_length_eq_raw_iff]
    exact ⟨by omega, by omega⟩

theorem aligned_iff (bytes : List UInt8) : Aligned bytes ↔ (lossy bytes).length = bytes.length := by
  have h := (render_length (chunks bytes) fun c hc => (mem_chunks hc).2.2).2
  rw [raw_chunks] at h
  exact h.symm

theorem aligned_nil : Aligned [] := fun _ h => absurd h List.not_mem_nil

/-- The offset stands between two characters of the stream. -/
def AtBoundary (bytes : List UInt8) (offset : Nat) : Prop :=
  ∃ j, offset = (raw ((chunks bytes).take j)).length

theorem atBoundary_zero (bytes : List UInt8) : AtBoundary bytes 0 := ⟨0, rfl⟩

theorem AtBoundary.le_length {bytes : List UInt8} {offset : Nat} (h : AtBoundary bytes offset) :
    offset ≤ bytes.length := by
  obtain ⟨j, rfl⟩ := h
  have hlength := congrArg List.length (raw_take_append_drop bytes j)
  rw [List.length_append] at hlength
  omega

/-- Between two characters the rendering can be made in two parts. -/
theorem AtBoundary.lossy_split {bytes : List UInt8} {offset : Nat} (h : AtBoundary bytes offset) :
    lossy (bytes.take offset) ++ lossy (bytes.drop offset) = lossy bytes := by
  obtain ⟨j, rfl⟩ := h
  rw [lossy, lossy, chunks_take, chunks_drop, render, render, ← List.flatMap_append,
    List.take_append_drop]
  rfl

theorem lossy_ne_nil {bytes : List UInt8} (h : bytes ≠ []) : lossy bytes ≠ [] := by
  cases bytes with
  | nil => exact absurd rfl h
  | cons lead rest =>
    intro hnil
    have hchunks := chunks_cons lead rest
    have hmem : firstChunk lead rest ∈ chunks (lead :: rest) := by
      rw [hchunks]
      simp
    obtain ⟨-, hpos, hle⟩ := mem_chunks hmem
    have hlength := congrArg List.length hnil
    rw [lossy, hchunks, render, List.flatMap_cons, List.length_append, List.length_nil] at hlength
    omega

/-- A page takes `keep` bytes of the text behind an offset: some characters, but not all. -/
def Cut (bytes : List UInt8) (offset keep : Nat) : Prop :=
  ∃ lo < (chunks (bytes.drop offset)).length,
    keep = (render ((chunks (bytes.drop offset)).take lo)).length

theorem Cut.take_eq {bytes : List UInt8} {offset lo : Nat} :
    (lossy (bytes.drop offset)).take (render ((chunks (bytes.drop offset)).take lo)).length
      = render ((chunks (bytes.drop offset)).take lo) := by
  have hsplit : lossy (bytes.drop offset) = render ((chunks (bytes.drop offset)).take lo)
      ++ render ((chunks (bytes.drop offset)).drop lo) := by
    rw [render, render, ← List.flatMap_append, List.take_append_drop]
    rfl
  rw [hsplit, List.take_left]

theorem Cut.le_length {bytes : List UInt8} {offset keep : Nat} (h : Cut bytes offset keep) :
    keep ≤ (lossy (bytes.drop offset)).length := by
  obtain ⟨lo, -, rfl⟩ := h
  rw [← Cut.take_eq]
  exact List.length_take_le' ..

/-- Where the characters kept are as long as their bytes, the cut is between two characters. -/
theorem Cut.offset_eq {bytes : List UInt8} {j lo : Nat}
    (h : ∀ c ∈ (chunks bytes).take (j + lo), c.valid = true ∨ c.raw.length = 3) :
    (raw ((chunks bytes).take j)).length + (render (((chunks bytes).drop j).take lo)).length
      = (raw ((chunks bytes).take (j + lo))).length := by
  have hsum : (chunks bytes).take (j + lo)
      = (chunks bytes).take j ++ ((chunks bytes).drop j).take lo := List.take_add
  have hkept := (render_length (((chunks bytes).drop j).take lo) fun c hc =>
    (mem_chunks (List.mem_of_mem_drop (List.mem_of_mem_take hc))).2.2).2
  rw [hkept.mpr fun c hc => h c (by rw [hsum]; exact List.mem_append_right _ hc), hsum, raw, raw, raw,
    List.flatMap_append, List.length_append]

/-- Behind a cut that leaves the bytes in front of it aligned, the next page begins where this one
    ended. -/
theorem Cut.atBoundary {bytes : List UInt8} {offset keep : Nat} (hcut : Cut bytes offset keep)
    (hoffset : AtBoundary bytes offset) (haligned : Aligned (bytes.take (offset + keep))) :
    AtBoundary bytes (offset + keep) ∧ lossy (bytes.take (offset + keep))
      = lossy (bytes.take offset) ++ (lossy (bytes.drop offset)).take keep := by
  obtain ⟨lo, -, rfl⟩ := hcut
  obtain ⟨j, rfl⟩ := hoffset
  rw [Cut.take_eq]
  rw [chunks_drop] at haligned ⊢
  have hsum : (chunks bytes).take (j + lo)
      = (chunks bytes).take j ++ ((chunks bytes).drop j).take lo := List.take_add
  have hraw : (raw ((chunks bytes).take (j + lo))).length ≤ (raw ((chunks bytes).take j)).length
      + (render (((chunks bytes).drop j).take lo)).length := by
    rw [hsum, raw, List.flatMap_append, List.length_append]
    exact Nat.add_le_add_left (render_length _ fun c hc =>
      (mem_chunks (List.mem_of_mem_drop (List.mem_of_mem_take hc))).2.2).1 _
  -- the characters kept are among those in front of the cut, so none of them is short
  have hoffset := Cut.offset_eq fun c hc =>
    haligned c ((take_prefix_chunks bytes (j + lo) _ hraw).subset hc)
  rw [hoffset]
  refine ⟨⟨j + lo, rfl⟩, ?_⟩
  rw [lossy, lossy, chunks_take, chunks_take, hsum, render, List.flatMap_append]
  rfl

/-- No cut is wrong in a stream that is aligned as a whole. -/
theorem Cut.aligned_of_aligned {bytes : List UInt8} {offset keep : Nat} (hcut : Cut bytes offset keep)
    (hoffset : AtBoundary bytes offset) (h : Aligned bytes) :
    Aligned (bytes.take (offset + keep)) := by
  obtain ⟨lo, -, rfl⟩ := hcut
  obtain ⟨j, rfl⟩ := hoffset
  rw [chunks_drop, Cut.offset_eq fun c hc => h c (List.mem_of_mem_take hc), Aligned, chunks_take]
  exact fun c hc => h c (List.mem_of_mem_take hc)

/-- If the next page is to begin where this one ended, the bytes in front of the cut are aligned. -/
theorem Cut.aligned {bytes : List UInt8} {offset keep : Nat} (hcut : Cut bytes offset keep)
    (hoffset : AtBoundary bytes offset) (haligned : Aligned (bytes.take offset))
    (hle : offset + keep ≤ bytes.length) (hlossy : lossy (bytes.take (offset + keep))
      = lossy (bytes.take offset) ++ (lossy (bytes.drop offset)).take keep) :
    Aligned (bytes.take (offset + keep)) := by
  obtain ⟨lo, -, rfl⟩ := hcut
  rw [Cut.take_eq] at hlossy
  rw [aligned_iff] at haligned ⊢
  rw [hlossy, List.length_append, haligned, List.length_take, List.length_take,
    Nat.min_eq_left hoffset.le_length, Nat.min_eq_left hle]

/-- More characters make a longer text. -/
theorem render_take_mono (cs : List Chunk) {m m' : Nat} (h : m ≤ m') :
    render (cs.take m) <+: render (cs.take m') := by
  refine ⟨render ((cs.take m').drop m), ?_⟩
  rw [render, render, render, ← List.flatMap_append]
  have hsplit := List.take_append_drop m (cs.take m')
  rw [List.take_take, Nat.min_eq_left h] at hsplit
  rw [hsplit]

/-- The trial page with the first `m` characters behind an offset. -/
def OutputRegistry.PageRequest.trial (request : OutputRegistry.PageRequest) (position : Position)
    (offset : Nat) (tasks : List RetrievedTask) (returned m : Nat) : RetrievedOutput :=
  let text := render ((chunks (position.buffer.bytes.drop offset)).take m)
  request.draft (position.put text tasks) (returned + text.length)

theorem OutputRegistry.PageRequest.trial_mono (request : OutputRegistry.PageRequest)
    (position : Position) (offset : Nat) (tasks : List RetrievedTask) (returned : Nat) {m m' : Nat}
    (h : m ≤ m') : (request.trial position offset tasks returned m).jsonLength
      ≤ (request.trial position offset tasks returned m').jsonLength := by
  have hextends := render_take_mono (chunks (position.buffer.bytes.drop offset)) h
  obtain ⟨hlength, hsum⟩ := setStream_mono position.task position.isStderr
    (streamOutput_mono hextends position.buffer) tasks
  exact request.draft_mono hlength.le hsum (Nat.add_le_add_left hextends.length_le _)

/-- Of a stream that does not fit the page as a whole, the longest beginning that does is kept, or
    nothing if not even the first character does. -/
theorem OutputRegistry.PageRequest.keep_last {request : OutputRegistry.PageRequest}
    {position : Position} {offset returned : Nat} {tasks : List RetrievedTask}
    (hlt : offset < position.buffer.bytes.length)
    (hover : request.maxBytes < (request.draft
      (position.put (lossy (position.buffer.bytes.drop offset)) tasks)
      (returned + (lossy (position.buffer.bytes.drop offset)).length)).jsonLength) :
    ∃ r < (chunks (position.buffer.bytes.drop offset)).length,
      request.keep position (lossy (position.buffer.bytes.drop offset)) tasks returned
        = some (render ((chunks (position.buffer.bytes.drop offset)).take r)).length
      ∧ (r = 0 ∨ (request.trial position offset tasks returned r).jsonLength ≤ request.maxBytes)
      ∧ ∀ m, r < m → m ≤ (chunks (position.buffer.bytes.drop offset)).length →
        request.maxBytes < (request.trial position offset tasks returned m).jsonLength := by
  have hcharacters : ∀ c ∈ chunks (position.buffer.bytes.drop offset), IsCharacter c.render :=
    fun c hc => (mem_chunks hc).1
  have hbounds := OutputRegistry.boundariesFrom_render hcharacters 0
  simp only [Nat.zero_add] at hbounds
  have hpos : 0 < (chunks (position.buffer.bytes.drop offset)).length := by
    refine List.length_pos_iff.mpr fun hnil => lossy_ne_nil ?_ (congrArg render hnil)
    rw [Ne, List.drop_eq_nil_iff]
    omega
  have hlength : (OutputRegistry.boundaries (lossy (position.buffer.bytes.drop offset))).length
      ≤ (chunks (position.buffer.bytes.drop offset)).length + 1 := by
    refine List.getElem?_eq_none_iff.mp ?_
    rw [OutputRegistry.boundaries, lossy, hbounds, if_neg (by omega)]
  have hend : (chunks (position.buffer.bytes.drop offset)).length
      < (OutputRegistry.boundaries (lossy (position.buffer.bytes.drop offset))).length := by
    refine Nat.lt_of_not_le fun hle => ?_
    have hnone := List.getElem?_eq_none_iff.mpr hle
    rw [OutputRegistry.boundaries, lossy, hbounds, if_pos (Nat.le_refl _)] at hnone
    cases hnone
  have hlast : ¬(request.trial position offset tasks returned
      (chunks (position.buffer.bytes.drop offset)).length).jsonLength ≤ request.maxBytes := by
    rw [trial, List.take_length]
    exact Nat.not_le_of_lt hover
  obtain ⟨r, hsearch, hr, hfit, habove⟩ := OutputRegistry.search_last
    (fun mid =>
      ((OutputRegistry.boundaries (lossy (position.buffer.bytes.drop offset)))[mid]?).map fun keep =>
        decide ((request.draft (position.put ((lossy (position.buffer.bytes.drop offset)).take keep)
          tasks) (returned + keep)).jsonLength ≤ request.maxBytes))
    (fun m => (request.trial position offset tasks returned m).jsonLength ≤ request.maxBytes)
    (fun m hm => by
      rw [OutputRegistry.boundaries, lossy, hbounds, if_pos hm, Option.map_some, ← lossy, Cut.take_eq]
      rfl)
    (fun m m' hle _ hfits => (request.trial_mono position offset tasks returned hle).trans hfits) hlast
    _ 0 _ (Nat.sub_le _ _) hpos hlength (.inl rfl) (fun m hm hle => absurd hm (by omega))
  refine ⟨r, hr, ?_, hfit, fun m hm hle => Nat.lt_of_not_le (habove m hm hle)⟩
  rw [keep, hsearch, Option.bind_some, OutputRegistry.boundaries, lossy, hbounds, if_pos hr.le]

/-- So the stream is cut. -/
theorem OutputRegistry.PageRequest.keep_cut {request : OutputRegistry.PageRequest} {position : Position}
    {offset returned : Nat} {tasks : List RetrievedTask} (hlt : offset < position.buffer.bytes.length)
    (hover : ¬(request.draft (position.put (lossy (position.buffer.bytes.drop offset)) tasks)
      (returned + (lossy (position.buffer.bytes.drop offset)).length)).jsonLength ≤ request.maxBytes) :
    ∃ keep, request.keep position (lossy (position.buffer.bytes.drop offset)) tasks returned = some keep
      ∧ Cut position.buffer.bytes offset keep := by
  obtain ⟨r, hr, hkeep, -⟩ := keep_last hlt (Nat.lt_of_not_le hover)
  exact ⟨_, hkeep, r, hr, rfl⟩

/-! ### Putting streams on a page -/

/-- The tasks of a page come by id, and carry only streams before this one. -/
structure Settled (tasks : List RetrievedTask) (key : String ×ₗ Bool) : Prop where
  sorted : (tasks.map RetrievedTask.id).Pairwise (· < ·)
  below : ∀ task ∈ tasks, toLex (task.id, task.stderr.isSome) < key

theorem settled_nil (key : String ×ₗ Bool) : Settled [] key :=
  ⟨List.Pairwise.nil, fun _ h => absurd h List.not_mem_nil⟩

/-- A task that is already on the page when one of its streams is to be put there is the last one, and the
    stream is its stderr. -/
theorem Settled.last {task : RetrievedTask} {rest : List RetrievedTask} {isStderr : Bool}
    (h : Settled (task :: rest) (toLex (task.id, isStderr))) :
    rest = [] ∧ isStderr = true ∧ task.stderr = none := by
  have hrest : rest = [] := by
    refine List.eq_nil_iff_forall_not_mem.mpr fun other hother => ?_
    have hlt : task.id < other.id :=
      (List.pairwise_cons.mp h.sorted).1 other.id (List.mem_map_of_mem hother)
    rcases Prod.Lex.toLex_lt_toLex.mp (h.below other (List.mem_cons_of_mem task hother)) with
      hid | ⟨hid, -⟩
    · exact lt_asymm hlt hid
    · exact absurd hid hlt.ne'
  rcases Prod.Lex.toLex_lt_toLex.mp (h.below task (by simp)) with hid | ⟨-, hstream⟩
  · exact absurd hid (lt_irrefl _)
  · obtain ⟨hnone, htrue⟩ := Bool.lt_iff.mp hstream
    exact ⟨hrest, htrue, by simpa using hnone⟩

theorem Settled.tail {task : RetrievedTask} {rest : List RetrievedTask} {key : String ×ₗ Bool}
    (h : Settled (task :: rest) key) : Settled rest key :=
  ⟨(List.pairwise_cons.mp h.sorted).2, fun other hother =>
    h.below other (List.mem_cons_of_mem task hother)⟩

/-- The next stream in order is carried behind the others. -/
theorem Settled.carried_setStream {id : String} {isStderr : Bool} (output : StreamOutput) :
    ∀ {tasks : List RetrievedTask}, Settled tasks (toLex (id, isStderr)) →
      (setStream id isStderr output tasks).flatMap RetrievedTask.carried
        = tasks.flatMap RetrievedTask.carried ++ tag (toLex (id, isStderr)) output.content := by
  intro tasks
  induction tasks with
  | nil =>
    intro _
    cases isStderr <;> simp [setStream, RetrievedTask.set, RetrievedTask.carried]
  | cons task rest ih =>
    intro h
    rw [setStream]
    split
    · next hid =>
      subst hid
      obtain ⟨rfl, rfl, hnone⟩ := h.last
      simp [RetrievedTask.set, RetrievedTask.carried, hnone]
    · rw [List.flatMap_cons, ih h.tail, List.flatMap_cons, List.append_assoc]

theorem Settled.mem_setStream {id : String} {isStderr : Bool} (output : StreamOutput) :
    ∀ {tasks : List RetrievedTask}, Settled tasks (toLex (id, isStderr)) →
      ∀ task ∈ setStream id isStderr output tasks,
        task ∈ tasks ∨ toLex (task.id, task.stderr.isSome) = toLex (id, isStderr) := by
  intro tasks
  induction tasks with
  | nil =>
    intro _ task htask
    rw [setStream, List.mem_singleton] at htask
    subst htask
    cases isStderr <;> exact .inr rfl
  | cons first rest ih =>
    intro h task htask
    rw [setStream] at htask
    split at htask
    · next hid =>
      subst hid
      obtain ⟨rfl, rfl, -⟩ := h.last
      rw [List.mem_singleton.mp htask]
      exact .inr rfl
    · rcases List.mem_cons.mp htask with rfl | htask
      · exact .inl (by simp)
      · rcases ih h.tail task htask with hmem | hkey
        · exact .inl (List.mem_cons_of_mem first hmem)
        · exact .inr hkey

theorem Settled.sorted_setStream {id : String} {isStderr : Bool} (output : StreamOutput) :
    ∀ {tasks : List RetrievedTask}, Settled tasks (toLex (id, isStderr)) →
      ((setStream id isStderr output tasks).map RetrievedTask.id).Pairwise (· < ·) := by
  intro tasks
  induction tasks with
  | nil => exact fun _ => List.pairwise_singleton _ _
  | cons first rest ih =>
    intro h
    rw [setStream]
    split
    · next hid =>
      subst hid
      obtain ⟨rfl, -⟩ := h.last
      exact List.pairwise_singleton _ _
    · next hid =>
      refine List.pairwise_cons.mpr ⟨fun other hother => ?_, ih h.tail⟩
      obtain ⟨task, htask, rfl⟩ := List.mem_map.mp hother
      rcases h.tail.mem_setStream output task htask with hmem | hkey
      · exact (List.pairwise_cons.mp h.sorted).1 _ (List.mem_map_of_mem hmem)
      · have hnew : task.id = id := congrArg (fun key => (ofLex key).1) hkey
        rcases Prod.Lex.toLex_lt_toLex.mp (h.below first (by simp)) with hlt | ⟨heq, -⟩
        · exact hnew ▸ hlt
        · exact absurd heq hid

/-- Then the page is settled for every stream that comes later. -/
theorem Settled.setStream {id : String} {isStderr : Bool} {key : String ×ₗ Bool}
    (output : StreamOutput) (hkey : toLex (id, isStderr) < key) {tasks : List RetrievedTask}
    (h : Settled tasks (toLex (id, isStderr))) : Settled (setStream id isStderr output tasks) key := by
  refine ⟨h.sorted_setStream output, fun task htask => ?_⟩
  rcases h.mem_setStream output task htask with hmem | heq
  · exact (h.below task hmem).trans hkey
  · exact heq ▸ hkey

/-! ### The walk -/

/-- Where the page that starts at a place begins in a stream that is not behind it. -/
def beginAt (start : Nat × Nat) (planIdx : Nat) : Nat := if planIdx = start.1 then start.2 else 0

/-- What a page that starts at a place has to show of a stream. -/
def shownFrom (start : Nat × Nat) (entry : Position × Nat) : List ((String ×ₗ Bool) × UInt8) :=
  if entry.2 < start.1 then []
  else tag entry.1.key (lossy (entry.1.buffer.bytes.drop (beginAt start entry.2)))

/-- How a walk ends that has all of `entries` ahead of it when `carried` is on the page: at the end of the
    plan with everything shown, or in a stream it cuts, whose cursor it leaves. -/
inductive WalkEnds (generation : Nat) (start : Nat × Nat) (entries : List (Position × Nat))
    (carried : List ((String ×ₗ Bool) × UInt8)) (walked : OutputRegistry.Walked) : Prop
  | all (hnone : walked.nextCursor = none)
      (hcarried : walked.tasks.flatMap RetrievedTask.carried = carried ++ entries.flatMap (shownFrom start))
  | cut {front position planIdx behind keep} (hentries : entries = front ++ (position, planIdx) :: behind)
      (hstart : start.1 ≤ planIdx) (hcut : Cut position.buffer.bytes (beginAt start planIdx) keep)
      (hcursor : walked.nextCursor = some (OutputRegistry.renderCursor generation planIdx
        position.isStderr (beginAt start planIdx + keep)))
      (hcarried : walked.tasks.flatMap RetrievedTask.carried = carried ++ front.flatMap (shownFrom start)
        ++ tag position.key ((lossy (position.buffer.bytes.drop (beginAt start planIdx))).take keep))

theorem WalkEnds.cons {generation : Nat} {start : Nat × Nat} {entry : Position × Nat}
    {entries : List (Position × Nat)} {carried : List ((String ×ₗ Bool) × UInt8)}
    {walked : OutputRegistry.Walked}
    (h : WalkEnds generation start entries (carried ++ shownFrom start entry) walked) :
    WalkEnds generation start (entry :: entries) carried walked := by
  cases h with
  | all hnone hcarried =>
    refine .all hnone ?_
    rw [hcarried, List.flatMap_cons, List.append_assoc]
  | @cut front position planIdx behind keep hentries hstart hcut hcursor hcarried =>
    have hcons : entry :: entries = (entry :: front) ++ (position, planIdx) :: behind :=
      congrArg (entry :: ·) hentries
    refine .cut hcons hstart hcut hcursor ?_
    rw [hcarried, List.flatMap_cons, List.append_assoc carried]

theorem Position.carried_put {position : Position} {tasks : List RetrievedTask} (content : List UInt8)
    (h : Settled tasks position.key) :
    (position.put content tasks).flatMap RetrievedTask.carried
      = tasks.flatMap RetrievedTask.carried ++ tag position.key content :=
  h.carried_setStream _

theorem tag_length (key : String ×ₗ Bool) (text : List UInt8) : (tag key text).length = text.length :=
  List.length_map _

namespace OutputRegistry

section Walk

variable {request : PageRequest} {start : Nat × Nat} {position : Position} {planIdx : Nat}
  {rest : List (Position × Nat)} {tasks : List RetrievedTask} {returned : Nat}

/-- Streams that the start is behind, and those with nothing left, are passed by. -/
theorem PageRequest.walk_pass
    (h : planIdx < start.1 ∨ position.buffer.bytes.length ≤ beginAt start planIdx) :
    request.walk start ((position, planIdx) :: rest) tasks returned
      = request.walk start rest tasks returned := by
  rw [walk]
  split
  · rfl
  · next hahead => exact if_pos (h.resolve_left hahead)

/-- A stream with something left is put on the page as a whole or, if it does not fit, in part. -/
theorem PageRequest.walk_stream (hahead : ¬planIdx < start.1)
    (hsome : beginAt start planIdx < position.buffer.bytes.length) {text : List UInt8}
    (htext : text = lossy (position.buffer.bytes.drop (beginAt start planIdx))) :
    request.walk start ((position, planIdx) :: rest) tasks returned =
      if (request.draft (position.put text tasks) (returned + text.length)).jsonLength
          ≤ request.maxBytes then
        request.walk start rest (position.put text tasks) (returned + text.length)
      else
        (request.keep position text tasks returned).map fun keep =>
          { tasks := if 0 < keep then position.put (text.take keep) tasks else tasks
            returned := returned + keep
            nextCursor := some (renderCursor request.entry.generation planIdx position.isStderr
              (beginAt start planIdx + keep)) } := by
  have hnonempty : text ≠ [] := by
    rw [htext]
    refine lossy_ne_nil ?_
    rw [Ne, List.drop_eq_nil_iff]
    omega
  have hcursor : ∀ keep, 0 < keep ∨ beginAt start planIdx + keep < position.buffer.bytes.length := by
    omega
  rw [walk, if_neg hahead]
  refine (if_neg (Nat.not_le_of_lt hsome)).trans ?_
  have hbegin : (if planIdx = start.1 then start.2 else 0) = beginAt start planIdx := rfl
  simp only [hbegin, ← htext, hcursor, if_true, List.isEmpty_iff, hnonempty, or_false]

end Walk

/-- A walk always ends, and it counts what it returns. -/
theorem PageRequest.walk_ends (request : PageRequest) (start : Nat × Nat) :
    ∀ (entries : List (Position × Nat)) (tasks : List RetrievedTask) (returned : Nat),
      (entries.map fun entry => entry.1.key).Pairwise (· < ·) →
      (∀ entry ∈ entries, Settled tasks entry.1.key) →
      returned = (tasks.flatMap RetrievedTask.carried).length →
      ∃ walked, request.walk start entries tasks returned = some walked
        ∧ walked.returned = (walked.tasks.flatMap RetrievedTask.carried).length
        ∧ WalkEnds request.entry.generation start entries (tasks.flatMap RetrievedTask.carried)
            walked := by
  intro entries
  induction entries with
  | nil =>
    rintro tasks returned - - hreturned
    exact ⟨_, rfl, hreturned, .all rfl (List.append_nil _).symm⟩
  | cons entry entries ih =>
    obtain ⟨position, planIdx⟩ := entry
    intro tasks returned hkeys hsettled hreturned
    obtain ⟨hfirst, hkeys⟩ := List.pairwise_cons.mp hkeys
    have hlater : ∀ entry ∈ entries, Settled tasks entry.1.key := fun entry hentry =>
      hsettled entry (List.mem_cons_of_mem _ hentry)
    have hposition : Settled tasks position.key := hsettled _ List.mem_cons_self
    by_cases hpass : planIdx < start.1 ∨ position.buffer.bytes.length ≤ beginAt start planIdx
    · obtain ⟨walked, hwalk, hcount, hends⟩ := ih tasks returned hkeys hlater hreturned
      refine ⟨walked, (walk_pass hpass).trans hwalk, hcount, .cons ?_⟩
      have hshown : shownFrom start (position, planIdx) = [] := by
        rw [shownFrom]
        split
        · rfl
        · next hahead =>
          rw [List.drop_of_length_le (hpass.resolve_left hahead)]
          rfl
      rwa [hshown, List.append_nil]
    · obtain ⟨hahead, hsome⟩ := not_or.mp hpass
      have hsome := Nat.lt_of_not_le hsome
      have hshown : shownFrom start (position, planIdx)
          = tag position.key (lossy (position.buffer.bytes.drop (beginAt start planIdx))) :=
        if_neg hahead
      rw [walk_stream hahead hsome rfl]
      split
      · have hput := position.carried_put (lossy (position.buffer.bytes.drop (beginAt start planIdx)))
          hposition
        have hsettled' : ∀ entry ∈ entries, Settled
            (position.put (lossy (position.buffer.bytes.drop (beginAt start planIdx))) tasks)
            entry.1.key := fun entry hentry =>
          hposition.setStream _ (hfirst _ (List.mem_map_of_mem hentry))
        have hreturned' := congrArg List.length hput
        rw [List.length_append, tag_length, ← hreturned] at hreturned'
        obtain ⟨walked, hwalk, hcount, hends⟩ := ih _ _ hkeys hsettled' hreturned'.symm
        refine ⟨walked, hwalk, hcount, .cons ?_⟩
        rwa [hshown, ← hput]
      · next hover =>
        obtain ⟨keep, hkeep, hcut⟩ := keep_cut hsome hover
        -- nothing is put on the page when nothing is kept, which comes to the same
        have hcarried : (if 0 < keep then
            position.put ((lossy (position.buffer.bytes.drop (beginAt start planIdx))).take keep) tasks
            else tasks).flatMap RetrievedTask.carried = tasks.flatMap RetrievedTask.carried
              ++ tag position.key
                ((lossy (position.buffer.bytes.drop (beginAt start planIdx))).take keep) := by
          split
          · exact position.carried_put _ hposition
          · next hzero =>
            rw [Nat.eq_zero_of_not_pos hzero]
            exact (List.append_nil _).symm
        rw [hkeep]
        refine ⟨_, rfl, ?_, .cut (List.nil_append _).symm (Nat.le_of_not_lt hahead) hcut rfl ?_⟩
        · dsimp only
          rw [hcarried, List.length_append, tag_length, hreturned, List.length_take,
            Nat.min_eq_left hcut.le_length]
        · exact hcarried.trans (by rw [List.flatMap_nil, List.append_nil])

end OutputRegistry

end Funzzy
