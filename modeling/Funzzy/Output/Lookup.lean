import Funzzy.Output.Budget

/-! Tail retrieval of retained output (`retrieve` of `output.rs`), and what a task query names.

    Tail and paged retrieval resolve a query each on their own: one over the captures of the generation,
    the other over their ids, of which it goes on with those that remain. What a query names is stated
    once, as a lookup, and both are shown to answer as the lookup does. -/

namespace Funzzy

/-! ### The end of a stream -/

/-- `split_inclusive('\n')` -/
def splitInclusive : List UInt8 → List (List UInt8)
  | [] => []
  | b :: rest =>
    if b = 0x0A then [b] :: splitInclusive rest
    else
      match splitInclusive rest with
      | [] => [[b]]
      | line :: lines => (b :: line) :: lines

/-- `DEFAULT_RETRIEVAL_TAIL` -/
def defaultRetrievalTail : Nat := 40

/-- `render_stream` -/
def renderStream (buffer : CaptureBuffer) (stream : Option String) (tail : Option Nat) (full : Bool)
    (isStderr : Bool) : Option StreamOutput :=
  if stream = some "stdout" ∧ isStderr = true ∨ stream = some "stderr" ∧ isStderr = false
      ∨ stream.any (fun other => other != "stdout" && other != "stderr") then
    none
  else
    let text := Utf8.lossy buffer.bytes
    let lines := splitInclusive text
    let content :=
      if full then text
      else (lines.drop (lines.length - tail.getD defaultRetrievalTail)).flatten
    some ⟨content, lines.length, buffer.retainedBytes, buffer.observed, buffer.truncated⟩

/-- `retrieved_task` -/
def retrievedTask (stream : Option String) (tail : Option Nat) (full : Bool) (output : TaskOutput) :
    RetrievedTask where
  id := output.task
  stdout := renderStream output.stdout stream tail full false
  stderr := renderStream output.stderr stream tail full true

namespace OutputRegistry

/-- The query without the blanks around it, if anything is left. -/
def wantedOf (task : Option String) : Option String :=
  (task.map fun task => String.ofList (trim task.toList)).filter (· != "")

/-- `retrieve`. A candidate that is not found again has no result. -/
def retrieve (registry : OutputRegistry) (generation : Nat) (task stream : Option String)
    (tail : Option Nat) (full : Bool) : Option (Except RetrievalError RetrievedOutput) :=
  match registry.generations.find? fun entry => entry.generation == generation with
  | none =>
    some (.error (.generationNotFound (registry.generations.map GenerationOutput.generation)))
  | some entry =>
    let output (resolved : Option String) (tasks : List TaskOutput) : RetrievedOutput :=
      ⟨generation, entry.revision, entry.revisionHash, resolved,
        tasks.map (retrievedTask stream tail full), none, none, none⟩
    match wantedOf task with
    | none => some (.ok (output none entry.tasks))
    | some wanted =>
      match entry.tasks.find? fun output => output.task == wanted with
      | some found => some (.ok (output none [found]))
      | none =>
        match (entry.tasks.map TaskOutput.task).filter
            fun id => wanted.toList.isPrefixOf id.toList with
        | [single] =>
          (entry.tasks.find? fun output => output.task == single).map fun found =>
            .ok (output (some single) [found])
        | [] => some (.error (.taskNotFound wanted (entry.tasks.map TaskOutput.task) false))
        | canonical => some (.error (.taskNotFound wanted canonical true))

end OutputRegistry

theorem lineCount_cons (b : UInt8) {rest : List UInt8} (hrest : rest ≠ []) :
    lineCount (b :: rest) = lineCount rest + if b = 0x0A then 1 else 0 := by
  rw [lineCount, lineCount, List.getLast?_cons, List.count_cons]
  obtain ⟨last, hlast⟩ : ∃ last, rest.getLast? = some last :=
    ⟨_, List.getLast?_eq_some_getLast hrest⟩
  rw [hlast]
  by_cases hnewline : b = 0x0A
  · simp only [hnewline, beq_self_eq_true, if_true, Option.getD_some]
    omega
  · simp [hnewline]

theorem splitInclusive_eq_nil {text : List UInt8} (h : splitInclusive text = []) : text = [] := by
  cases text with
  | nil => rfl
  | cons b rest =>
    rw [splitInclusive] at h
    split at h
    · cases h
    · split at h <;> cases h

theorem flatten_splitInclusive (text : List UInt8) : (splitInclusive text).flatten = text := by
  induction text with
  | nil => rfl
  | cons b rest ih =>
    rw [splitInclusive]
    split
    · rw [List.flatten_cons, ih, List.singleton_append]
    · split
      · next hnil =>
        rw [splitInclusive_eq_nil hnil]
        rfl
      · next line lines hlines =>
        rw [hlines, List.flatten_cons] at ih
        rw [List.flatten_cons, List.cons_append, ih]

/-! ### What a query names -/

/-- The answers there are to a query. -/
inductive Lookup where
  | whole
  | exact (id : String)
  | only (id : String)
  | several (wanted : String) (candidates : List String)
  | missing (wanted : String)

namespace Lookup

/-- What a query names among the ids of a generation: an exact id before any other, the only id it is a
    beginning of, or none without a choice being made. -/
inductive Names (ids : List String) : Option String → Lookup → Prop
  | whole : Names ids none .whole
  | exact {wanted : String} (hexact : wanted ∈ ids) : Names ids (some wanted) (.exact wanted)
  | only {wanted id : String} (hexact : wanted ∉ ids) (hid : id ∈ ids)
      (hbegins : wanted.toList <+: id.toList)
      (honly : ∀ other ∈ ids, wanted.toList <+: other.toList → other = id) :
      Names ids (some wanted) (.only id)
  | several {wanted : String} (hexact : wanted ∉ ids) {candidates : List String}
      (hcandidates : candidates.Sublist ids)
      (hmem : ∀ id, id ∈ candidates ↔ id ∈ ids ∧ wanted.toList <+: id.toList)
      (hseveral : 2 ≤ candidates.length) : Names ids (some wanted) (.several wanted candidates)
  | missing {wanted : String} (hexact : wanted ∉ ids)
      (hnone : ∀ id ∈ ids, ¬wanted.toList <+: id.toList) : Names ids (some wanted) (.missing wanted)

/-- The error of a query, or the id that is reported for it and the ids it goes on with. -/
def answer (ids : List String) : Lookup → Except RetrievalError (Option String × List String)
  | whole => .ok (none, ids)
  | exact id => .ok (none, [id])
  | only id => .ok (some id, [id])
  | several wanted candidates => .error (.taskNotFound wanted candidates true)
  | missing wanted => .error (.taskNotFound wanted ids false)

/-- The lookup of a query. -/
def find (ids : List String) : Option String → Lookup
  | none => .whole
  | some wanted =>
    if wanted ∈ ids then .exact wanted
    else
      match ids.filter fun id => wanted.toList.isPrefixOf id.toList with
      | [single] => .only single
      | [] => .missing wanted
      | canonical => .several wanted canonical

theorem names_find (ids : List String) (wanted : Option String) : Names ids wanted (find ids wanted) := by
  cases wanted with
  | none => exact .whole
  | some wanted =>
    rw [find]
    split
    · next hexact => exact .exact hexact
    · next hexact =>
      generalize hcandidates : (ids.filter fun id => wanted.toList.isPrefixOf id.toList) = candidates
      have hmem : ∀ id, id ∈ candidates ↔ id ∈ ids ∧ wanted.toList <+: id.toList := by
        intro id
        rw [← hcandidates, List.mem_filter, List.isPrefixOf_iff_prefix]
      match candidates, hcandidates, hmem with
      | [], _, hmem =>
        exact .missing hexact fun id hid hbegins => List.not_mem_nil ((hmem id).mpr ⟨hid, hbegins⟩)
      | [single], _, hmem =>
        obtain ⟨hid, hbegins⟩ := (hmem single).mp List.mem_cons_self
        exact .only hexact hid hbegins fun other hother hother' =>
          List.mem_singleton.mp ((hmem other).mpr ⟨hother, hother'⟩)
      | first :: second :: rest, hcandidates, hmem =>
        refine .several hexact ?_ hmem (Nat.le_add_left _ _)
        rw [← hcandidates]
        exact List.filter_sublist

end Lookup

/-! ### Both retrievals answer as the lookup -/

namespace OutputRegistry

/-- Paged retrieval goes on with the ids the lookup leaves, each once. -/
theorem resolveTask_eq {ids : List String} (hnodup : ids.Nodup) (task : Option String) :
    resolveTask ids task = (Lookup.find ids (wantedOf task)).answer ids := by
  have honce : ∀ id ∈ ids, ids.filter (· == id) = [id] := fun id hid => by
    rw [List.filter_beq, List.count_eq_one_of_mem hnodup hid]
    rfl
  have hresolve : resolveTask ids task = match wantedOf task with
      | none => .ok (none, ids)
      | some wanted =>
        if ids.any (· == wanted) then .ok (none, ids.filter (· == wanted))
        else
          match ids.filter fun id => wanted.toList.isPrefixOf id.toList with
          | [single] => .ok (some single, ids.filter (· == single))
          | [] => .error (.taskNotFound wanted ids false)
          | canonical => .error (.taskNotFound wanted canonical true) := rfl
  rw [hresolve]
  cases wantedOf task with
  | none => rfl
  | some wanted =>
    dsimp only
    have hany : ids.any (· == wanted) = true ↔ wanted ∈ ids := by
      rw [List.any_eq_true]
      exact ⟨fun ⟨id, hid, heq⟩ => eq_of_beq heq ▸ hid, fun h => ⟨wanted, h, beq_self_eq_true wanted⟩⟩
    rw [Lookup.find]
    by_cases hexact : wanted ∈ ids
    · rw [if_pos (hany.mpr hexact), if_pos hexact, honce wanted hexact]
      rfl
    · rw [if_neg (mt hany.mp hexact), if_neg hexact]
      generalize hcandidates : (ids.filter fun id => wanted.toList.isPrefixOf id.toList) = candidates
      match candidates, hcandidates with
      | [], _ => rfl
      | [single], hcandidates =>
        have hsingle : single ∈ ids :=
          (List.mem_filter.mp (hcandidates ▸ List.mem_singleton_self single)).1
        dsimp only
        rw [honce single hsingle]
        rfl
      | first :: second :: rest, _ => rfl

/-- What tail retrieval returns of the tasks it goes on with. -/
def tailPage (entry : GenerationOutput) (generation : Nat) (stream : Option String) (tail : Option Nat)
    (full : Bool) (resolved : Option String) (tasks : List TaskOutput) : RetrievedOutput :=
  ⟨generation, entry.revision, entry.revisionHash, resolved, tasks.map (retrievedTask stream tail full),
    none, none, none⟩

/-- Tail retrieval goes on with the captures of the ids the lookup leaves. -/
theorem retrieve_eq {registry : OutputRegistry} {generation : Nat} {entry : GenerationOutput}
    (hfound : (registry.generations.find? fun entry => entry.generation == generation) = some entry)
    (task stream : Option String) (tail : Option Nat) (full : Bool) :
    match (Lookup.find (entry.tasks.map TaskOutput.task) (wantedOf task)).answer
        (entry.tasks.map TaskOutput.task) with
    | .error error => registry.retrieve generation task stream tail full = some (.error error)
    | .ok (resolved, chosen) => ∃ tasks : List TaskOutput, tasks.Sublist entry.tasks
      ∧ tasks.map TaskOutput.task = chosen
      ∧ registry.retrieve generation task stream tail full
        = some (.ok (tailPage entry generation stream tail full resolved tasks)) := by
  have hfind : ∀ id ∈ entry.tasks.map TaskOutput.task, ∃ found ∈ entry.tasks, found.task = id
      ∧ (entry.tasks.find? fun output => output.task == id) = some found := by
    intro id hid
    obtain ⟨output, houtput, rfl⟩ := List.mem_map.mp hid
    have hsome : (entry.tasks.find? fun other => other.task == output.task).isSome = true :=
      List.find?_isSome.mpr ⟨output, houtput, beq_self_eq_true output.task⟩
    obtain ⟨found, hsome⟩ := Option.isSome_iff_exists.mp hsome
    exact ⟨found, List.mem_of_find?_eq_some hsome, by simpa using List.find?_some hsome, hsome⟩
  rw [retrieve, hfound]
  dsimp only
  cases wantedOf task with
  | none => exact ⟨entry.tasks, List.Sublist.refl _, rfl, rfl⟩
  | some wanted =>
    dsimp only
    rw [Lookup.find]
    by_cases hexact : wanted ∈ entry.tasks.map TaskOutput.task
    · obtain ⟨found, hmem, htask, hsome⟩ := hfind wanted hexact
      rw [if_pos hexact, hsome]
      exact ⟨[found], List.singleton_sublist.mpr hmem, congrArg (fun id => [id]) htask, rfl⟩
    · have hnone : (entry.tasks.find? fun output => output.task == wanted) = none := by
        refine List.find?_eq_none.mpr fun output houtput heq => hexact ?_
        exact eq_of_beq heq ▸ List.mem_map_of_mem houtput
      rw [if_neg hexact, hnone]
      generalize hcandidates : ((entry.tasks.map TaskOutput.task).filter
        fun id => wanted.toList.isPrefixOf id.toList) = candidates
      match candidates, hcandidates with
      | [], _ => rfl
      | [single], hcandidates =>
        have hsingle : single ∈ entry.tasks.map TaskOutput.task :=
          (List.mem_filter.mp (hcandidates ▸ List.mem_singleton_self single)).1
        obtain ⟨found, hmem, htask, hsome⟩ := hfind single hsingle
        dsimp only
        rw [hsome]
        exact ⟨[found], List.singleton_sublist.mpr hmem, congrArg (fun id => [id]) htask, rfl⟩
      | first :: second :: rest, _ => rfl

/-- The plan has streams of the tasks it is made from, and of no others. -/
theorem mem_pagePlan_task {entry : GenerationOutput} {ids : List String}
    (hids : ∀ id ∈ ids, id ∈ entry.tasks.map TaskOutput.task) (stream : Option String) (id : String) :
    id ∈ (pagePlan entry ids stream).map Position.task ↔ id ∈ ids := by
  constructor
  · intro h
    obtain ⟨position, hposition, rfl⟩ := List.mem_map.mp h
    obtain ⟨other, hother, hposition⟩ := List.mem_flatMap.mp hposition
    obtain ⟨isStderr, -, hsome⟩ := List.mem_filterMap.mp hposition
    obtain ⟨output, -, rfl⟩ := Option.map_eq_some_iff.mp hsome
    exact (List.mem_insertionSort _).mp hother
  · intro h
    obtain ⟨output, houtput, hid⟩ := List.mem_map.mp (hids id h)
    have hsome : (entry.tasks.find? fun other => other.task == id).isSome = true :=
      List.find?_isSome.mpr ⟨output, houtput, beq_iff_eq.mpr hid⟩
    obtain ⟨found, hfound⟩ := Option.isSome_iff_exists.mp hsome
    -- whatever the filter, one of the two streams is let through
    obtain ⟨isStderr, hstream⟩ : ∃ isStderr, isStderr ∈ [false, true].filter (admitsStream stream) := by
      cases stream with
      | none => exact ⟨false, by decide⟩
      | some wanted =>
        refine ⟨wanted == "stderr", List.mem_filter.mpr ⟨?_, beq_self_eq_true _⟩⟩
        cases wanted == "stderr" <;> decide
    refine List.mem_map.mpr ⟨⟨id, isStderr, if isStderr then found.stderr else found.stdout⟩, ?_, rfl⟩
    refine List.mem_flatMap.mpr ⟨id, (List.mem_insertionSort _).mpr h, ?_⟩
    refine List.mem_filterMap.mpr ⟨isStderr, hstream, ?_⟩
    rw [hfound, Option.map_some]

end OutputRegistry

theorem mem_setStream_id {id : String} {isStderr : Bool} {output : StreamOutput}
    {tasks : List RetrievedTask} : ∀ task ∈ setStream id isStderr output tasks,
      task.id = id ∨ task.id ∈ tasks.map RetrievedTask.id := by
  have hset : ∀ task : RetrievedTask, (task.set isStderr output).id = task.id := fun task => by
    cases isStderr <;> rfl
  induction tasks with
  | nil =>
    intro task htask
    rw [setStream, List.mem_singleton] at htask
    exact .inl (htask ▸ hset _)
  | cons first rest ih =>
    intro task htask
    rw [setStream] at htask
    split at htask
    · next hid =>
      rcases List.mem_cons.mp htask with rfl | hmem
      · exact .inl ((hset first).trans hid)
      · exact .inr (List.mem_cons_of_mem _ (List.mem_map_of_mem hmem))
    · rcases List.mem_cons.mp htask with rfl | hmem
      · exact .inr List.mem_cons_self
      · exact (ih task hmem).imp_right (List.mem_cons_of_mem _)

theorem Packed.mem_add_id {packed : Packed} {position : Position} {text : List UInt8} :
    ∀ task ∈ (packed.add position text).tasks,
      task.id = position.task ∨ task.id ∈ packed.tasks.map RetrievedTask.id := by
  intro task htask
  by_cases htext : text = []
  · rw [htext, add_nil] at htask
    exact .inr (List.mem_map_of_mem htask)
  · rw [add_text htext] at htask
    exact mem_setStream_id task htask

theorem Packed.mem_through_id {start : Nat × Nat} {entries : List (Position × Nat)} :
    ∀ {packed : Packed}, ∀ task ∈ (packed.through start entries).tasks,
      task.id ∈ packed.tasks.map RetrievedTask.id ∨ task.id ∈ entries.map fun entry => entry.1.task := by
  induction entries with
  | nil => exact fun task htask => .inl (List.mem_map_of_mem htask)
  | cons entry entries ih =>
    intro packed task htask
    rcases ih task htask with hmem | hmem
    · obtain ⟨other, hother, hid⟩ := List.mem_map.mp hmem
      rw [← hid]
      rcases Packed.mem_add_id other hother with heq | hbefore
      · exact .inr (heq ▸ List.mem_cons_self)
      · exact .inl hbefore
    · exact .inr (List.mem_cons_of_mem _ hmem)

/-- A page carries tasks of the plan. -/
theorem PageHolds.mem_task {request : OutputRegistry.PageRequest} {start : Nat × Nat}
    {plan : List Position} {page : RetrievedOutput} (h : PageHolds request start plan page) :
    ∀ task ∈ page.tasks, task.id ∈ plan.map Position.task := by
  have hplan : (plan.zipIdx.map fun entry => entry.1.task) = plan.map Position.task := by
    conv_rhs => rw [← List.zipIdx_map_fst 0 plan, List.map_map]
    rfl
  intro task htask
  rw [← hplan]
  cases h with
  | all _ hpage =>
    rw [hpage] at htask
    exact (Packed.mem_through_id task htask).resolve_left List.not_mem_nil
  | @cut front entry behind m hsplit _ hpage =>
    rw [hpage] at htask
    rw [hsplit, List.map_append, List.map_cons]
    rcases Packed.mem_add_id task htask with hid | hmem
    · rw [hid]
      exact List.mem_append_right _ List.mem_cons_self
    · obtain ⟨other, hother, hid⟩ := List.mem_map.mp hmem
      rw [← hid]
      exact List.mem_append_left _ ((Packed.mem_through_id other hother).resolve_left List.not_mem_nil)

/-! ### Tail and paged retrieval agree -/

theorem OutputRegistry.query_eq {registry : OutputRegistry} {generation : Nat} {entry : GenerationOutput}
    (hfound : (registry.generations.find? fun entry => entry.generation == generation) = some entry)
    {task : Option String} {answer : Except RetrievalError (Option String × List String)}
    (hresolve : resolveTask (entry.tasks.map TaskOutput.task) task = answer) (stream : Option String) :
    registry.query generation task stream
      = answer.map fun chosen => (entry, chosen.1, pagePlan entry chosen.2 stream) := by
  subst hresolve
  rw [query, hfound]
  dsimp only
  cases resolveTask (entry.tasks.map TaskOutput.task) task <;> rfl

theorem OutputRegistry.startOf_error {generation : Nat} {plan : List Position} {cursor : Option String}
    {error : RetrievalError} (h : startOf generation plan cursor = .error error) :
    cursor ≠ none ∧ ∃ reason, error = .invalidCursor reason := by
  unfold startOf at h
  split at h
  · cases h
  · refine ⟨Option.some_ne_none _, ?_⟩
    split at h
    · split at h
      · split at h
        · exact ⟨_, (Except.error.inj h).symm⟩
        · split at h
          · exact ⟨_, (Except.error.inj h).symm⟩
          · split at h
            · exact ⟨_, (Except.error.inj h).symm⟩
            · split at h
              · exact ⟨_, (Except.error.inj h).symm⟩
              · cases h
      · exact ⟨_, (Except.error.inj h).symm⟩
    · exact ⟨_, (Except.error.inj h).symm⟩

/-- Both retrievals give this answer: the same error, or the same id is reported and the tasks they return
    are the same. A page can still be refused, but for its cursor only. -/
def AnsweredAlike (registry : OutputRegistry) (generation : Nat) (task : Option String) :
    Except RetrievalError (Option String × List String) → Prop
  | .error error =>
    (∀ stream tail full, registry.retrieve generation task stream tail full = some (.error error))
      ∧ ∀ stream maxBytes cursor,
        registry.retrievePage generation task stream maxBytes cursor = some (.error error)
  | .ok (resolved, chosen) =>
    (∀ stream tail full, ∃ output,
        registry.retrieve generation task stream tail full = some (.ok output)
          ∧ output.resolvedTask = resolved ∧ output.tasks.map RetrievedTask.id = chosen)
      ∧ ∀ stream, ∃ entry plan, registry.query generation task stream = .ok (entry, resolved, plan)
        ∧ (∀ id, id ∈ plan.map Position.task ↔ id ∈ chosen)
        ∧ ∀ maxBytes cursor,
          (∃ page, registry.retrievePage generation task stream maxBytes cursor = some (.ok page)
              ∧ page.resolvedTask = resolved ∧ ∀ task ∈ page.tasks, task.id ∈ chosen)
            ∨ ∃ reason, cursor ≠ none
              ∧ registry.retrievePage generation task stream maxBytes cursor
                = some (.error (.invalidCursor reason))

/-- What a query names is the same for both retrievals: blanks around it do not count, an id that is
    exact comes first, the beginning of one id only stands for that id, and an ambiguous one is refused
    with its candidates. -/
theorem lookup_agreement {registry : OutputRegistry} {calls : List Record} {generation : Nat}
    {entry : GenerationOutput} (hrun : Machine.after OutputRegistry.record .new calls = some registry)
    (hfound : (registry.generations.find? fun entry => entry.generation == generation) = some entry)
    (task : Option String) :
    ∃ lookup : Lookup, Lookup.Names (entry.tasks.map TaskOutput.task) (OutputRegistry.wantedOf task) lookup
      ∧ AnsweredAlike registry generation task (lookup.answer (entry.tasks.map TaskOutput.task)) := by
  have hsound := OutputRegistry.sound_of_run hrun
  have hnodup := (hsound.entries entry (List.mem_of_find?_eq_some hfound)).tasks_nodup
  have hnames := Lookup.names_find (entry.tasks.map TaskOutput.task) (OutputRegistry.wantedOf task)
  have hresolve := OutputRegistry.resolveTask_eq hnodup task
  have hretrieve := OutputRegistry.retrieve_eq hfound task
  refine ⟨_, hnames, ?_⟩
  generalize (Lookup.find (entry.tasks.map TaskOutput.task) (OutputRegistry.wantedOf task)).answer
    (entry.tasks.map TaskOutput.task) = answer at hresolve hretrieve
  have hquery := OutputRegistry.query_eq hfound hresolve
  cases answer with
  | error error =>
    refine ⟨hretrieve, fun stream maxBytes cursor => ?_⟩
    rw [OutputRegistry.retrievePage, hquery stream]
    rfl
  | ok answer =>
    obtain ⟨resolved, chosen⟩ := answer
    refine ⟨fun stream tail full => ?_, fun stream => ?_⟩
    · obtain ⟨tasks, -, hchosen, hpage⟩ := hretrieve stream tail full
      refine ⟨_, hpage, rfl, ?_⟩
      rw [OutputRegistry.tailPage, List.map_map, ← hchosen]
      rfl
    · have hsublist := (OutputRegistry.resolveTask_sublist hresolve).subset
      have hmem := OutputRegistry.mem_pagePlan_task hsublist stream
      have hplan : registry.query generation task stream
          = .ok (entry, resolved, OutputRegistry.pagePlan entry chosen stream) := hquery stream
      refine ⟨entry, _, hplan, hmem, fun maxBytes cursor => ?_⟩
      cases hstart : OutputRegistry.startOf generation
          (OutputRegistry.pagePlan entry chosen stream) cursor with
      | error error =>
        obtain ⟨hcursor, reason, rfl⟩ := OutputRegistry.startOf_error hstart
        refine .inr ⟨reason, hcursor, ?_⟩
        rw [OutputRegistry.retrievePage, hplan]
        dsimp only
        rw [hstart]
      | ok start =>
        obtain ⟨page, hpage, hholds⟩ := exists_page maxBytes (hsound.planned hplan) hstart
        refine .inl ⟨page, hpage, ?_, fun task htask => (hmem _).mp (hholds.mem_task task htask)⟩
        cases hholds with
        | all _ heq => rw [heq]; rfl
        | cut _ _ heq => rw [heq]; rfl

theorem lookup_agreement_padded_query :
    AnsweredAlike (oneTaskRegistry abc) 7 (some " t ") (.ok (none, ["t"])) := by
  have hfound : ((oneTaskRegistry abc).generations.find? fun entry => entry.generation == 7)
      = some (oneTaskEntry abc) := rfl
  obtain ⟨lookup, hnames, hanswered⟩ := lookup_agreement abc_run hfound (some " t ")
  have hwanted : OutputRegistry.wantedOf (some " t ") = some "t" := by decide +kernel
  rw [hwanted] at hnames
  cases hnames with
  | exact _ => exact hanswered
  | only hexact => exact absurd List.mem_cons_self hexact
  | several hexact => exact absurd List.mem_cons_self hexact
  | missing hexact => exact absurd List.mem_cons_self hexact

/-- A capture of a task whose name begins with a blank. -/
def paddedTask : Record :=
  ⟨7, " build", ⟨⟨captureStreamBytes, abc, 3, false⟩, .new captureStreamBytes⟩, none, none⟩

def paddedRegistry : OutputRegistry :=
  ⟨[⟨7, none, none, [paddedTask.output], 3⟩], 3⟩

/-- Its exact name is not found, since the query is trimmed and the name is not. -/
theorem padded_name_not_found :
    Machine.after OutputRegistry.record .new [paddedTask] = some paddedRegistry
      ∧ (∀ entry ∈ paddedRegistry.generations, entry.generation = 7
        ∧ " build" ∈ entry.tasks.map TaskOutput.task)
      ∧ paddedRegistry.retrieve 7 (some " build") none none false
        = some (.error (.taskNotFound "build" [" build"] false))
      ∧ paddedRegistry.retrievePage 7 (some " build") none 24576 none
        = some (.error (.taskNotFound "build" [" build"] false)) := by
  refine ⟨by decide +kernel, by decide +kernel, by decide +kernel, by decide +kernel⟩

end Funzzy
