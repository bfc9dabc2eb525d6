import Funzzy.Executor.Conservation
import Funzzy.Executor.Jobs

/-! The course of one job: which of its commands have been started, and what it has reported.

    A pass runs a declared list of commands in order. `Pass` ties a task in a pass to the attempts
    made so far: the commands it still holds are the declared ones from its ordinal on, so the next
    attempt is the next command, or for a service the command that is being restarted. `Course` adds
    what holds over the whole life of a job, through its recovery and verification, and
    `Session.courses` says that every job of every session follows its course. -/

namespace Funzzy

open History Board

/-- The commands a pass over the task runs. -/
def TaskPlan.declared (u : TaskPlan) : Phase → List CommandLine
  | .original | .verification => u.commands
  | .recovery => u.recoveryCommands.getD []

/-- The attempts to start a command in one pass, with the ordinal of the command. -/
def attempts (phase : Phase) (h : List Effect) : List (Nat × CommandLine) :=
  h.filterMap fun
    | .spawned proc command | .spawnFailed proc command _ =>
      if proc.phase = phase then some (proc.ordinal, command) else none
    | _ => none

@[simp] theorem attempts_append (phase : Phase) (a b : List Effect) :
    attempts phase (a ++ b) = attempts phase a ++ attempts phase b :=
  List.filterMap_append

@[simp] theorem attempts_nil (phase : Phase) : attempts phase [] = [] := rfl

/-- The attempt is at the declared command its ordinal names. -/
def DeclaredAt (declared : List CommandLine) (attempt : Nat × CommandLine) : Prop :=
  0 < attempt.1 ∧ (declared.map (·.display))[attempt.1 - 1]? = some attempt.2.display

/-- Attempts in declared order; a finite task makes each of them once and skips none. -/
structure InOrder (service : Bool) (declared : List CommandLine)
    (attempts : List (Nat × CommandLine)) : Prop where
  finite : service = false → attempts.map Prod.snd <+: declared
  ordered : (attempts.map Prod.fst).Pairwise (· ≤ ·)
  named : ∀ a ∈ attempts, DeclaredAt declared a

theorem InOrder.nil (service : Bool) (declared : List CommandLine) : InOrder service declared [] :=
  ⟨fun _ => List.nil_prefix, .nil, by simp⟩

/-! ### One pass -/

/-- A task in a pass over `declared` that has made these attempts. -/
structure Pass (declared : List CommandLine) (made : List (Nat × CommandLine)) (t : ActiveTask) :
    Prop where
  total : t.commandTotal = declared.length
  length_le : t.commands.length ≤ declared.length
  left : t.commands.map (·.display) = (declared.map (·.display)).drop t.ordinal
  finite : t.service = false → made.map Prod.snd ++ t.commands <+: declared
  inOrder : InOrder t.service declared made
  reached : ∀ a ∈ made, a.1 ≤ t.ordinal + 1
  current : t.child = true → 0 < t.ordinal ∧ (∀ a ∈ made, a.1 ≤ t.ordinal) ∧
    ∀ display, t.currentCommand = some display →
      (declared.map (·.display))[t.ordinal - 1]? = some display
  fresh : t.contextValidated = false → t.child = false

theorem Pass.start (declared : List CommandLine) (t : ActiveTask) (htotal : t.commandTotal
    = declared.length) (hcommands : t.commands = declared) (hchild : t.child = false) :
    Pass declared [] t where
  total := htotal
  length_le := by rw [hcommands]
  left := by simp [ActiveTask.ordinal, htotal, hcommands]
  finite _ := by simp [hcommands]
  inOrder := .nil _ _
  reached := by simp
  current h := by simp [hchild] at h
  fresh _ := hchild

/-- The task has taken its next command, and attempts it. -/
theorem Pass.attempt {declared : List CommandLine} {made : List (Nat × CommandLine)}
    {t : ActiveTask} (h : Pass declared made t) {command : CommandLine} {rest : List CommandLine}
    (hcommands : t.commands = command :: rest) :
    let taken := t.take command rest
    taken.ordinal = t.ordinal + 1 ∧ (declared.map (·.display))[t.ordinal]? = some command.display ∧
      rest.map (·.display) = (declared.map (·.display)).drop taken.ordinal ∧
      InOrder t.service declared (made ++ [(taken.ordinal, command)]) := by
  have hlength := h.length_le
  have hleft := h.left
  rw [hcommands, List.length_cons] at hlength
  rw [hcommands, List.map_cons] at hleft
  have hordinal : (t.take command rest).ordinal = t.ordinal + 1 := by
    simp only [ActiveTask.ordinal, ActiveTask.take, hcommands, h.total, List.length_cons]
    omega
  have hget : (declared.map (·.display))[t.ordinal]? = some command.display := by
    have := congrArg List.head? hleft.symm
    rwa [List.head?_drop, List.head?_cons] at this
  refine ⟨hordinal, hget, ?_, ⟨fun hfinite => ?_, ?_, fun a ha => ?_⟩⟩
  · have := congrArg List.tail hleft
    rwa [List.tail_cons, List.tail_drop, ← hordinal] at this
  · have hinit := h.finite hfinite
    rw [hcommands] at hinit
    rw [List.map_append, List.map_singleton]
    exact .trans (by simp) hinit
  · rw [List.map_append, List.map_singleton, List.pairwise_append]
    refine ⟨h.inOrder.ordered, List.pairwise_singleton _ _, fun k hk k' hk' => ?_⟩
    obtain ⟨a, ha, rfl⟩ := List.mem_map.mp hk
    rw [List.mem_singleton.mp hk', hordinal]
    exact h.reached a ha
  · rcases List.mem_append.mp ha with ha | ha
    · exact h.inOrder.named a ha
    · rw [List.mem_singleton.mp ha]
      exact ⟨by simp [hordinal], by simpa [hordinal] using hget⟩

/-- The pass after an attempt, whether its command started or not. -/
theorem Pass.taken {declared : List CommandLine} {made : List (Nat × CommandLine)}
    {t t' : ActiveTask} (h : Pass declared made t) {command : CommandLine}
    {rest : List CommandLine} (hcommands : t.commands = command :: rest)
    (hrest : t'.commands = rest) (htotal : t'.commandTotal = t.commandTotal)
    (hservice : t'.service = t.service)
    (hcurrent : t'.child = true → t'.currentCommand = some command.display)
    (hfresh : t'.contextValidated = false → t'.child = false) :
    Pass declared (made ++ [((t.take command rest).ordinal, command)]) t' := by
  obtain ⟨hordinal, hget, hleft, hinOrder⟩ := h.attempt hcommands
  have hordinal' : t'.ordinal = (t.take command rest).ordinal := by
    simp [ActiveTask.ordinal, ActiveTask.take, hrest, htotal]
  have hlength := h.length_le
  rw [hcommands, List.length_cons] at hlength
  have hreached : ∀ a ∈ made ++ [((t.take command rest).ordinal, command)], a.1 ≤ t'.ordinal := by
    intro a ha
    rw [hordinal', hordinal]
    rcases List.mem_append.mp ha with ha | ha
    · exact h.reached a ha
    · rw [List.mem_singleton.mp ha, hordinal]
  refine ⟨htotal.trans h.total, by rw [hrest]; omega, ?_, fun hfinite => ?_, hservice ▸ hinOrder,
    fun a ha => (hreached a ha).trans (Nat.le_succ _), fun hchild => ⟨?_, hreached, ?_⟩, hfresh⟩
  · rw [hordinal', hrest]; exact hleft
  · have hinit := h.finite (hservice ▸ hfinite)
    rw [hcommands] at hinit
    simpa [hrest] using hinit
  · rw [hordinal', hordinal]; omega
  · intro display hdisplay
    rw [hordinal', hordinal, Nat.add_sub_cancel, hget, ← hdisplay, hcurrent hchild]

/-- The pass after the child is gone. -/
theorem Pass.reaped {declared : List CommandLine} {made : List (Nat × CommandLine)}
    {t t' : ActiveTask} (h : Pass declared made t) (hcommands : t'.commands = t.commands)
    (htotal : t'.commandTotal = t.commandTotal) (hservice : t'.service = t.service)
    (hchild : t'.child = false) : Pass declared made t' := by
  have hordinal : t'.ordinal = t.ordinal := by simp [ActiveTask.ordinal, hcommands, htotal]
  refine ⟨htotal.trans h.total, hcommands ▸ h.length_le, ?_, ?_, hservice ▸ h.inOrder, ?_, ?_,
    fun _ => hchild⟩
  · rw [hcommands, hordinal]; exact h.left
  · rw [hcommands, hservice]; exact h.finite
  · rw [hordinal]; exact h.reached
  · intro htrue; simp [hchild] at htrue

/-- The pass of a service whose current command is queued again. -/
theorem Pass.requeued {declared : List CommandLine} {made : List (Nat × CommandLine)}
    {t : ActiveTask} (h : Pass declared made t) (hchild : t.child = true)
    (hservice : t.service = true) :
    Pass declared made (t.reaped.requeued t.currentCommand) := by
  obtain ⟨hpos, hmade, hcurrent⟩ := h.current hchild
  cases hdisplay : t.currentCommand with
  | none => exact h.reaped rfl rfl rfl rfl
  | some display =>
    have hget := hcurrent display hdisplay
    have hbound : t.ordinal ≤ declared.length := by
      rw [← h.total]; exact Nat.sub_le _ _
    have hlength : t.commands.length = declared.length - t.ordinal := by
      have := congrArg List.length h.left
      simpa using this
    have hordinal : (t.reaped.requeued (some display)).ordinal = t.ordinal - 1 := by
      simp only [ActiveTask.ordinal, ActiveTask.requeued, ActiveTask.reaped, Option.map_some,
        Option.toList_some, List.singleton_append, List.length_cons]
      omega
    refine ⟨h.total, ?_, ?_, fun hfinite => ?_, h.inOrder, fun a ha => ?_, fun htrue => ?_,
      fun _ => rfl⟩
    · simp only [ActiveTask.requeued, ActiveTask.reaped, Option.map_some, Option.toList_some,
        List.singleton_append, List.length_cons]
      omega
    · rw [hordinal, List.drop_eq_getElem?_toList_append, hget]
      have hsucc : t.ordinal - 1 + 1 = t.ordinal := by omega
      rw [hsucc, ← h.left]
      rfl
    · exact absurd (hservice.symm.trans hfinite) (by simp)
    · rw [hordinal]
      have := hmade a ha
      omega
    · simp [ActiveTask.requeued, ActiveTask.reaped] at htrue

/-- A change of a task in a pass, with the attempts among its effects, keeps the pass. -/
theorem TaskChange.pass {phase : Phase} {t t' : ActiveTask} {effects : List Effect}
    (hchange : TaskChange phase t effects t') {declared : List CommandLine}
    {made : List (Nat × CommandLine)} (h : Pass declared made t) :
    Pass declared (made ++ attempts phase effects) t' := by
  cases hchange with
  | validate => simpa using { h with fresh := fun hfalse => by simp at hfalse }
  | invalid failure hchild =>
    have hnone : attempts phase [.contextInvalid t.position] = [] := rfl
    rw [hnone, List.append_nil]
    have hordinal : t.ordinal ≤ declared.length := by rw [← h.total]; exact Nat.sub_le _ _
    refine ⟨h.total, by simp, ?_, fun hfinite => ?_, h.inOrder, fun a ha => ?_,
      fun htrue => ?_, fun hfalse => ?_⟩
    · simp [ActiveTask.ordinal, ActiveTask.fail, h.total]
    · simpa [ActiveTask.fail] using h.inOrder.finite hfinite
    · have := h.reached a ha
      simp only [ActiveTask.ordinal, ActiveTask.fail, List.length_nil, Nat.sub_zero, h.total] at *
      omega
    · simp [ActiveTask.fail, hchild] at htrue
    · simp [ActiveTask.fail] at hfalse
  | spawned command rest now hvalid _ hcommands =>
    have hmade : attempts phase [.spawned ((t.take command rest).proc phase) command,
        .event (.tick t.name t.groupOccurrence)] = [((t.take command rest).ordinal, command)] := by
      simp [attempts, ActiveTask.proc]
    rw [hmade]
    exact h.taken hcommands rfl rfl rfl (fun _ => rfl) fun hfalse => by
      simp [ActiveTask.launched, ActiveTask.take, hvalid] at hfalse
  | spawnFailed command rest error failure _ hcommands =>
    have hmade : attempts phase [.spawnFailed ((t.take command rest).proc phase) command error]
        = [((t.take command rest).ordinal, command)] := by
      simp [attempts, ActiveTask.proc]
    rw [hmade]
    exact h.taken hcommands rfl rfl rfl (fun htrue => by simp [ActiveTask.fail, ActiveTask.reaped] at htrue)
      fun _ => rfl
  | tick => simpa [attempts] using h
  | exited status _ =>
    have hreaped : Pass declared made t.reaped := h.reaped rfl rfl rfl rfl
    simpa [attempts] using hreaped
  | failed effect failure _ heffect =>
    have hnone : attempts phase [effect] = [] := by
      rcases heffect with ⟨status, rfl⟩ | ⟨error, rfl⟩ <;> rfl
    rw [hnone, List.append_nil]
    exact h.reaped rfl rfl rfl rfl
  | restarted status hchild hservice => simpa [attempts] using h.requeued hchild hservice

theorem ServiceMove.pass {s s' : ActiveTask} {effects : List Effect} {results : Results}
    {state : TaskState} {outcome : TaskOutcome}
    (hmove : ServiceMove s effects (some s') results state outcome) {declared : List CommandLine}
    {made : List (Nat × CommandLine)} (hservice : s.service = true) (hvalid : s.contextValidated = true)
    (h : Pass declared made s) : Pass declared (made ++ attempts .original effects) s' := by
  cases hmove with
  | spawned command rest now _ hcommands =>
    have hmade : attempts .original [.spawned ((s.take command rest).proc .original) command]
        = [((s.take command rest).ordinal, command)] := by
      simp [attempts, ActiveTask.proc]
    rw [hmade]
    exact h.taken hcommands rfl rfl rfl (fun _ => rfl) fun hfalse => by
      simp [ActiveTask.take, hvalid] at hfalse
  | restarted status hchild _ _ => simpa [attempts] using h.requeued hchild hservice

/-- A poll of a service attempts at most the next command of its pass. -/
theorem ServiceMove.inOrder {s : ActiveTask} {effects : List Effect} {s' : Option ActiveTask}
    {results : Results} {state : TaskState} {outcome : TaskOutcome}
    (hmove : ServiceMove s effects s' results state outcome) {declared : List CommandLine}
    {made : List (Nat × CommandLine)} (h : Pass declared made s) :
    InOrder s.service declared (made ++ attempts .original effects) := by
  cases hmove with
  | spawned command rest now _ hcommands =>
    simpa [attempts, ActiveTask.proc] using (h.attempt hcommands).2.2.2
  | spawnFailed command rest error failure _ hcommands =>
    simpa [attempts, ActiveTask.proc] using (h.attempt hcommands).2.2.2
  | _ => simpa [attempts] using h.inOrder

theorem ServiceMove.attempts_other {s : ActiveTask} {effects : List Effect}
    {s' : Option ActiveTask} {results : Results} {state : TaskState} {outcome : TaskOutcome}
    (hmove : ServiceMove s effects s' results state outcome) {phase : Phase}
    (hne : phase ≠ .original) : attempts phase effects = [] := by
  cases hmove <;> simp [attempts, ActiveTask.proc, hne.symm]

theorem ServiceMove.length_le {s : ActiveTask} {effects : List Effect} {s' : Option ActiveTask}
    {results : Results} {state : TaskState} {outcome : TaskOutcome}
    (hmove : ServiceMove s effects s' results state outcome) : effects.length ≤ 1 := by
  cases hmove <;> simp

/-! ### The whole life of a job -/

/-- The data of the plan that a task keeps through all its passes. -/
structure ActiveTask.Of (u : TaskPlan) (t : ActiveTask) : Prop where
  job : t.job = u.job
  service : t.service = u.service
  original : t.originalCommands = u.commands
  recovery : t.recoveryCommands = u.recoveryCommands ∨ t.recoveryCommands = none

theorem ServiceMove.keeps {s s' : ActiveTask} {effects : List Effect} {results : Results}
    {state : TaskState} {outcome : TaskOutcome}
    (hmove : ServiceMove s effects (some s') results state outcome) {u : TaskPlan} (hs : s.Of u)
    (hservice : s.service = true) (hvalid : s.contextValidated = true) :
    s'.Of u ∧ s'.service = true ∧ s'.contextValidated = true := by
  cases hmove <;> exact ⟨⟨hs.job, hs.service, hs.original, hs.recovery⟩, hservice, hvalid⟩

/-- Passes that a job has not come to yet. -/
def Entity.Ahead : Entity → Phase → Prop
  | .planned _, _ | .queued _, _ => True
  | .active _, phase | .service _, phase => phase ≠ .original
  | .pending t, phase => phase ≠ .original ∧ t.recoveryCommands ≠ none
  | .recovering r, phase => r.phase = .recovery ∧ phase = .verification

/-- How a job of the plan stands in one of its roles after the history `h`. -/
def Entity.Follows (u : TaskPlan) (h : List Effect) : Entity → Prop
  | .planned task | .queued task => task = u ∧ h = []
  | .active t => t.Of u ∧ t.recoveryCommands = u.recoveryCommands ∧
      Pass u.commands (attempts .original h) t
  | .service s => s.Of u ∧ s.service = true ∧ s.contextValidated = true ∧
      Pass u.commands (attempts .original h) s
  | .pending t => t.Of u ∧ t.child = false
  | .recovering r => r.task.Of u ∧ r.phase ≠ .original ∧ r.task.recoveryCommands = none ∧
      Pass (u.declared r.phase) (attempts r.phase h) r.task

/-- The course of a job: its commands are attempted in order in every pass, nothing follows its
    report, and it leaves the run with one (a service may be stopped without). -/
structure Course (u : TaskPlan) (e : Option Entity) (h : List Effect) : Prop where
  final : Whenever (fun past _ => terminals past = []) h
  inOrder : ∀ phase, InOrder u.service (u.declared phase) (attempts phase h)
  present : ∀ x, e = some x → x.Follows u h ∧ terminals h = [] ∧
    ∀ phase, x.Ahead phase → attempts phase h = []
  gone : e = none → u.service = false → u.job.key ∈ (terminals h).map TaskSnapshot.key

/-- A job that stays in the run keeps its course if its new role follows it. -/
theorem Course.stay {u : TaskPlan} {e e' : Entity} {h l : List Effect} (hc : Course u (some e) h)
    (hl : terminals l = [] ∧ l.length ≤ 1) (hfollows : e'.Follows u (h ++ l))
    (hpass : ∀ phase, attempts phase l ≠ [] →
      InOrder u.service (u.declared phase) (attempts phase (h ++ l)))
    (hahead : ∀ phase, e'.Ahead phase → e.Ahead phase ∧ attempts phase l = []) :
    Course u (some e') (h ++ l) := by
  obtain ⟨-, hnone, hbehind⟩ := hc.present e rfl
  refine ⟨?_, fun phase => ?_, ?_, by simp⟩
  · rcases l with _ | ⟨x, _ | ⟨y, l⟩⟩
    · simpa using hc.final
    · exact whenever_concat.mpr ⟨hc.final, hnone⟩
    · simp at hl
  · by_cases hsame : attempts phase l = []
    · rw [attempts_append, hsame, List.append_nil]; exact hc.inOrder phase
    · exact hpass phase hsame
  · rintro x ⟨⟩
    refine ⟨hfollows, by rw [terminals_append, hnone, hl.1]; rfl, fun phase hphase => ?_⟩
    obtain ⟨hbefore, hsame⟩ := hahead phase hphase
    rw [attempts_append, hbehind phase hbefore, hsame]; rfl

/-- A job leaves the run with its report as the last thing that happens to it. -/
theorem Course.leave {u : TaskPlan} {e : Entity} {h : List Effect} (hc : Course u (some e) h)
    (first last : List Effect) (hfirst : terminals first = [] ∧ first.length ≤ 1)
    (hlast : last.length ≤ 1)
    (hpass : ∀ phase, attempts phase (first ++ last) ≠ [] →
      InOrder u.service (u.declared phase) (attempts phase (h ++ (first ++ last))))
    (hgone : u.service = false → u.job.key ∈ (terminals last).map TaskSnapshot.key) :
    Course u none (h ++ (first ++ last)) := by
  obtain ⟨-, hnone, -⟩ := hc.present e rfl
  have hbefore : Whenever (fun past _ => terminals past = []) (h ++ first) := by
    rcases first with _ | ⟨x, _ | ⟨y, first⟩⟩
    · simpa using hc.final
    · exact whenever_concat.mpr ⟨hc.final, hnone⟩
    · simp at hfirst
  refine ⟨?_, fun phase => ?_, by simp, fun _ hfinite => ?_⟩
  · rw [← List.append_assoc]
    rcases last with _ | ⟨x, _ | ⟨y, last⟩⟩
    · simpa using hbefore
    · exact whenever_concat.mpr ⟨hbefore, by rw [terminals_append, hnone, hfirst.1]; rfl⟩
    · simp at hlast
  · by_cases hsame : attempts phase (first ++ last) = []
    · rw [attempts_append, hsame, List.append_nil]; exact hc.inOrder phase
    · exact hpass phase hsame
  · simp only [terminals_append, List.map_append, List.mem_append]
    exact .inr (.inr (hgone hfinite))

/-! ### Effects of one job -/

theorem historyAt_append (p : Nat) (a b : List Effect) :
    historyAt p (a ++ b) = historyAt p a ++ historyAt p b :=
  restrict_append _ _ _ _

/-- What reads only effects of jobs does not see the others. -/
theorem filterMap_historyAt {β : Type} (f : Effect → Option β)
    (hf : ∀ x : Effect, x.position? = none → f x = none) {p : Nat} :
    ∀ {l : List Effect}, (∀ x ∈ l, x.position? = none ∨ x.position? = some p) →
      (historyAt p l).filterMap f = l.filterMap f
  | [], _ => rfl
  | x :: l, hl => by
    have ih := filterMap_historyAt f hf (p := p) (l := l) fun y hy => hl y (List.mem_cons_of_mem _ hy)
    simp only [historyAt, restrict] at ih
    rcases hl x List.mem_cons_self with hx | hx
    · simp [historyAt, restrict, hx, ih, hf x hx]
    · simp only [historyAt, restrict, List.filter_cons, hx, decide_true, if_true,
        List.filterMap_cons, ih]

theorem attempts_historyAt (phase : Phase) {p : Nat} {l : List Effect}
    (hl : ∀ x ∈ l, x.position? = none ∨ x.position? = some p) :
    attempts phase (historyAt p l) = attempts phase l := by
  refine filterMap_historyAt _ (fun x hx => ?_) hl
  cases x <;> simp_all [Effect.position?]

theorem terminals_historyAt {p : Nat} {l : List Effect}
    (hl : ∀ x ∈ l, x.position? = none ∨ x.position? = some p) :
    terminals (historyAt p l) = terminals l := by
  refine filterMap_historyAt _ (fun x hx => ?_) hl
  rcases x with event | _ | _ | _ | _ | _ | _ | _ | _ | _ | _
  · cases event <;> simp_all [Effect.position?]
  all_goals rfl

theorem TaskChange.keeps {phase : Phase} {t t' : ActiveTask} {effects : List Effect}
    (h : TaskChange phase t effects t') {u : TaskPlan} (ht : t.Of u) :
    t'.Of u ∧ t'.recoveryCommands = t.recoveryCommands := by
  cases h <;> exact ⟨⟨ht.job, ht.service, ht.original, ht.recovery⟩, rfl⟩

theorem TaskChange.attempts_other {phase other : Phase} {t t' : ActiveTask} {effects : List Effect}
    (h : TaskChange phase t effects t') (hne : other ≠ phase) : attempts other effects = [] := by
  cases h with
  | failed effect failure _ heffect =>
    rcases heffect with ⟨status, rfl⟩ | ⟨error, rfl⟩ <;> rfl
  | _ => simp [attempts, ActiveTask.proc, hne.symm]

theorem TaskChange.quiet {phase : Phase} {t t' : ActiveTask} {effects : List Effect}
    (h : TaskChange phase t effects t') :
    terminals effects = [] ∧ (historyAt t.position effects).length ≤ 1 := by
  refine ⟨?_, ?_⟩
  · cases h with
    | failed effect failure _ heffect =>
      rcases heffect with ⟨status, rfl⟩ | ⟨error, rfl⟩ <;> rfl
    | _ => rfl
  · cases h with
    | spawned command rest now _ _ _ =>
      simp [historyAt, restrict, Effect.position?, List.filter_cons]
      split <;> simp
    | _ => exact (List.length_filter_le _ _).trans (by simp)

/-- A change within a pass keeps the course of the job. -/
theorem Course.change {u : TaskPlan} {e e' : Entity} {h : List Effect} {phase : Phase}
    {t t' : ActiveTask} {effects : List Effect} (hc : Course u (some e) h)
    (hchange : TaskChange phase t effects t') (ht : t.Of u)
    (hpass : Pass (u.declared phase) (attempts phase h) t)
    (hfollows : ∀ made, attempts phase (h ++ historyAt u.position effects) = made →
      Pass (u.declared phase) made t' → e'.Follows u (h ++ historyAt u.position effects))
    (hahead : ∀ other, e'.Ahead other → e.Ahead other ∧ other ≠ phase) :
    Course u (some e') (h ++ historyAt u.position effects) := by
  have hposition : u.position = t.position := (congrArg JobId.position ht.job).symm
  have howns := hchange.owns
  rw [← hposition] at howns
  obtain ⟨hterminals, hlength⟩ := hchange.quiet
  have hmade : attempts phase (h ++ historyAt u.position effects)
      = attempts phase h ++ attempts phase effects := by
    rw [attempts_append, attempts_historyAt phase howns]
  have hpass' := hchange.pass hpass
  rw [← hmade] at hpass'
  refine hc.stay ⟨by rw [terminals_historyAt howns, hterminals], hposition ▸ hlength⟩
    (hfollows _ rfl hpass') (fun other hother => ?_) fun other hother => ?_
  · rw [attempts_historyAt other howns] at hother
    have heq : other = phase := by
      by_contra hne
      exact hother (hchange.attempts_other hne)
    subst heq
    have hservice : t'.service = u.service := (hchange.keeps ht).1.service
    exact hservice ▸ hpass'.inOrder
  · obtain ⟨hbefore, hne⟩ := hahead other hother
    exact ⟨hbefore, by rw [attempts_historyAt other howns, hchange.attempts_other hne]⟩

theorem historyAt_owned {p : Nat} {l : List Effect} (hl : ∀ x ∈ l, x.position? = some p) :
    historyAt p l = l :=
  List.filter_eq_self.mpr fun x hx => by simp [hl x hx]

theorem ActiveTask.killEffects_quiet (t : ActiveTask) :
    t.killEffects.length ≤ 1 ∧ ∀ phase, attempts phase t.killEffects = [] := by
  unfold ActiveTask.killEffects
  split
  · exact ⟨by simp, fun _ => rfl⟩
  · exact ⟨by simp, fun _ => rfl⟩

/-- A job that leaves with its report, after effects of its own that attempt nothing. -/
theorem Course.report {u : TaskPlan} {e : Entity} {h : List Effect} (hc : Course u (some e) h)
    {job : JobId} (hjob : job = u.job) (run : Run) (state : TaskState) (durationMs : Option Nat)
    (first : List Effect) (howned : ∀ x ∈ first, x.position? = some u.position)
    (hfirst : terminals first = [] ∧ first.length ≤ 1) (hquiet : ∀ phase, attempts phase first = []) :
    Course u none (h ++ historyAt u.position (first ++ [run.terminal (job.snapshot state durationMs)])) := by
  subst hjob
  rw [historyAt_append, historyAt_owned howned]
  have hlast : historyAt u.position [run.terminal (u.job.snapshot state durationMs)]
      = [run.terminal (u.job.snapshot state durationMs)] := historyAt_owned fun x hx => by
    rw [List.mem_singleton.mp hx]; rfl
  rw [hlast]
  refine hc.leave first _ hfirst (by simp) (fun phase hne => ?_) fun _ => by simp
  refine absurd ?_ hne
  rw [attempts_append, hquiet phase]
  rfl

/-- Every move of a job keeps its course. -/
theorem EntityMove.course {failFast : Bool} {e : Entity} {effects : List Effect}
    {e' : Option Entity} (hmove : EntityMove failFast e effects e') {u : TaskPlan} {h : List Effect}
    (hc : Course u (some e) h) : Course u e' (h ++ historyAt u.position effects) := by
  obtain ⟨hfollows, hnone, hbehind⟩ := hc.present _ rfl
  have hstill : historyAt u.position [] = [] := rfl
  -- without effects only the role changes
  have hrole : ∀ x : Entity, x.Follows u h → (∀ phase, x.Ahead phase → e.Ahead phase) →
      Course u (some x) (h ++ historyAt u.position []) := fun x hx hahead =>
    hc.stay ⟨rfl, by simp [hstill]⟩ (by simpa [hstill] using hx) (fun _ hne => absurd rfl hne)
      fun phase hphase => ⟨hahead phase hphase, rfl⟩
  cases hmove with
  | fill task =>
    obtain ⟨rfl, rfl⟩ := hfollows
    exact hrole _ ⟨⟨rfl, rfl, rfl, .inl rfl⟩, rfl, Pass.start _ _ rfl rfl rfl⟩ fun _ _ => trivial
  | task t t' _ hadm hchange =>
    obtain ⟨ht, hrecovery, hpass⟩ := hfollows
    obtain ⟨ht', hsame⟩ := hchange.keeps ht
    refine hc.change hchange ht hpass (fun made hmade hpass' => ?_) fun other hother => ⟨hother, hother⟩
    exact ⟨ht', hsame.trans hrecovery, hmade ▸ hpass'⟩
  | park t hservice hchild =>
    obtain ⟨ht, -, hpass⟩ := hfollows
    have hvalid : t.contextValidated = true := by
      by_contra hfalse
      rw [hpass.fresh (by simpa using hfalse)] at hchild
      cases hchild
    exact hrole _ ⟨ht, hservice, hvalid, hpass⟩ fun _ hphase => hphase
  | record t run durationMs _ =>
    exact hc.report hfollows.1.job run _ durationMs [] (by simp) ⟨rfl, by simp⟩ fun _ => rfl
  | defer t effect hchild heffect hsome =>
    have hsilent : historyAt u.position [effect] = historyAt u.position [] :=
      restrict_eq_nil _ fun x hx => by simp_all
    rw [hsilent]
    exact hrole _ ⟨hfollows.1, hchild⟩ fun _ hphase => hphase.1
  | stop t run durationMs =>
    have hposition : t.position = u.position := congrArg JobId.position hfollows.1.job
    exact hc.report hfollows.1.job run _ durationMs t.killEffects
      (hposition ▸ t.killEffects_owned) ⟨t.terminals_killEffects, t.killEffects_quiet.1⟩
      t.killEffects_quiet.2
  | skip _ task run he =>
    have hjob : task.job = u.job := by
      rcases he with rfl | rfl <;> rw [hfollows.1]
    exact hc.report hjob run _ none [] (by simp) ⟨rfl, by simp⟩ fun _ => rfl
  | service s s' _ results state outcome hserviceMove =>
    obtain ⟨hs, hservice, hvalid, hpass⟩ := hfollows
    have hposition : s.position = u.position := congrArg JobId.position hs.job
    have hpass' := hserviceMove.pass hservice hvalid hpass
    obtain ⟨hs', hservice', hvalid'⟩ := hserviceMove.keeps hs hservice hvalid
    rw [historyAt_owned (hposition ▸ hserviceMove.owns)]
    rw [← attempts_append] at hpass'
    refine hc.stay ⟨hserviceMove.terminals_eq, hserviceMove.length_le⟩
      ⟨hs', hservice', hvalid', hpass'⟩ (fun phase hne => ?_)
      fun phase hphase => ⟨hphase, hserviceMove.attempts_other hphase⟩
    by_cases hphase : phase = .original
    · subst hphase
      rw [← hs'.service]
      exact hpass'.inOrder
    · exact absurd (hserviceMove.attempts_other hphase) hne
  | serviceLeft s _ results state outcome run durationMs hserviceMove =>
    obtain ⟨hs, hservice, hvalid, hpass⟩ := hfollows
    have hposition : s.position = u.position := congrArg JobId.position hs.job
    have howned : ∀ x ∈ [run.terminal (s.job.snapshot state durationMs)],
        x.position? = some u.position := fun x hx => by
      rw [List.mem_singleton.mp hx, ← hposition]; rfl
    rw [historyAt_append, historyAt_owned (hposition ▸ hserviceMove.owns), historyAt_owned howned]
    refine hc.leave _ _ ⟨hserviceMove.terminals_eq, hserviceMove.length_le⟩ (by simp)
      (fun phase hne => ?_) fun _ => by simp [hs.job]
    have hlast : attempts phase [run.terminal (s.job.snapshot state durationMs)] = [] := rfl
    rw [attempts_append, hlast, List.append_nil] at hne
    rw [attempts_append, attempts_append, hlast, List.append_nil]
    by_cases hphase : phase = .original
    · subst hphase
      rw [← hs.service]
      exact hserviceMove.inOrder hpass
    · exact absurd (hserviceMove.attempts_other hphase) hne
  | retire s =>
    have hposition : s.position = u.position := congrArg JobId.position hfollows.1.job
    rw [historyAt_owned (hposition ▸ s.killEffects_owned), ← List.append_nil s.killEffects]
    refine hc.leave s.killEffects [] ⟨s.terminals_killEffects, s.killEffects_quiet.1⟩ (by simp)
      (fun phase hne => absurd (by simpa using s.killEffects_quiet.2 phase) hne) fun hfinite => ?_
    have hservice := hfollows.1.service
    simp [hfollows.2.1, hfinite] at hservice
  | keep t run durationMs =>
    exact hc.report hfollows.1.job run _ durationMs [] (by simp) ⟨rfl, by simp⟩ fun _ => rfl
  | recover t commands run hcommands =>
    obtain ⟨ht, -⟩ := hfollows
    have hsilent : historyAt u.position [run.recoveryStarted t] = historyAt u.position [] := rfl
    rw [hsilent]
    have hdeclared : u.declared .recovery = commands := by
      rcases ht.recovery with heq | heq
      · rw [TaskPlan.declared, ← heq, hcommands]; rfl
      · simp [hcommands] at heq
    have hahead : (Entity.pending t).Ahead .recovery := ⟨by simp, by simp [hcommands]⟩
    refine hrole _ ⟨⟨ht.job, ht.service, ht.original, .inr rfl⟩, by simp, rfl, ?_⟩ ?_
    · simp only [hbehind _ hahead, hdeclared]
      exact Pass.start _ _ rfl rfl rfl
    · rintro phase ⟨-, rfl⟩
      exact ⟨by simp, by simp [hcommands]⟩
  | recovering r t' _ hadm hchange =>
    obtain ⟨ht, hphase, hrecovery, hpass⟩ := hfollows
    obtain ⟨ht', hsame⟩ := hchange.keeps ht
    refine hc.change hchange ht hpass (fun made hmade hpass' => ?_) ?_
    · exact ⟨ht', hphase, hsame.trans hrecovery, hmade ▸ hpass'⟩
    · rintro other ⟨hr, rfl⟩
      exact ⟨⟨hr, rfl⟩, by simp [show r.phase = .recovery from hr]⟩
  | recoveryFailed t original run durationMs _ =>
    exact hc.report hfollows.1.job run _ durationMs [] (by simp) ⟨rfl, by simp⟩ fun _ => rfl
  | verify t original hchild _ =>
    obtain ⟨ht, -, hrecovery, hpass⟩ := hfollows
    refine hrole _ ⟨⟨ht.job, ht.service, ht.original, .inr hrecovery⟩, by simp, hrecovery, ?_⟩ ?_
    · simp only [hbehind .verification ⟨rfl, rfl⟩, TaskPlan.declared]
      exact Pass.start _ _ (congrArg List.length ht.original) ht.original rfl
    · rintro phase ⟨hfalse, -⟩
      cases hfalse
  | verified t original run durationMs _ =>
    have hskip : historyAt u.position [run.verificationFinished t,
        run.terminal (t.job.snapshot t.verdict.1 durationMs)]
        = historyAt u.position ([] ++ [run.terminal (t.job.snapshot t.verdict.1 durationMs)]) := by
      simp [historyAt, restrict, Run.verificationFinished, Effect.position?, List.filter_cons]
    rw [hskip]
    exact hc.report hfollows.1.job run _ durationMs [] (by simp) ⟨rfl, by simp⟩ fun _ => rfl
  | interrupt r =>
    obtain ⟨ht, -, hrecovery, -⟩ := hfollows
    have hposition : r.task.position = u.position := congrArg JobId.position ht.job
    rw [historyAt_owned (hposition ▸ r.task.killEffects_owned)]
    refine hc.stay ⟨r.task.terminals_killEffects, r.task.killEffects_quiet.1⟩
      ⟨⟨ht.job, ht.service, ht.original, ht.recovery⟩, rfl⟩
      (fun phase hne => absurd (r.task.killEffects_quiet.2 phase) hne) ?_
    rintro phase ⟨-, hsome⟩
    exact absurd hrecovery hsome

/-! ### All jobs of a run -/

/-- What stands at a position: a job of the plan on its course, or nothing at all. -/
def Tracks (tasks : List TaskPlan) (position : Nat) (e : Option Entity) (h : List Effect) : Prop :=
  (∃ u ∈ tasks, u.position = position ∧ Course u e h) ∨
    ((∀ u ∈ tasks, u.position ≠ position) ∧ e = none ∧ h = [])

/-- A job that has not been given to the run yet. -/
theorem Course.planned (u : TaskPlan) : Course u (some (.planned u)) [] where
  final := whenever_nil
  inOrder _ := .nil _ _
  present x hx := by
    obtain rfl := Option.some.inj hx
    exact ⟨⟨rfl, rfl⟩, rfl, fun _ _ => rfl⟩
  gone h := by simp at h

theorem course_claim (failFast : Bool) : JobClaim failFast Course where
  planned := Course.planned
  opened hc := by
    refine ⟨hc.final, hc.inOrder, ?_, by simp⟩
    rintro x ⟨⟩
    exact hc.present (.planned _) rfl
  moved hmove := EntityMove.course hmove

theorem tracks_preserved (failFast : Bool) (tasks : List TaskPlan) :
    Preserves (jobs failFast) (Tracks tasks) :=
  (course_claim failFast).preserves tasks

/-- Every job of the run is on its course. -/
def View.Tracked (failFast : Bool) (all : List Stage) (v : View) : Prop :=
  Claims (jobs failFast) (Tracks (all.flatMap stageTasks)) v.board

theorem View.Tracked.move {failFast : Bool} {all : List Stage} {v v' : View}
    (h : v.Tracked failFast all) (hmove : Move failFast v v') : v'.Tracked failFast all :=
  View.Keeps.move (course_claim failFast) h hmove

theorem View.Tracked.reconciled {failFast : Bool} {all : List Stage} {v : View}
    (h : v.Tracked failFast all) (stopNames : List String) :
    (v.reconciled stopNames).Tracked failFast all :=
  View.Keeps.reconciled (course_claim failFast) h stopNames

/-- New stages join the run when their positions are new. -/
theorem View.Tracked.appended {failFast : Bool} {all stages : List Stage} {v : View}
    (h : v.Tracked failFast all)
    (hdistinct : (((all ++ stages).flatMap stageTasks).map (·.position)).Nodup) :
    (v.appended stages).Tracked failFast (all ++ stages) :=
  View.Keeps.appended (course_claim failFast) h hdistinct

/-- Wherever a session with distinct positions stands, every job is on its course. -/
theorem View.start_tracked {W : Type} (failFast : Bool) (env : Env W) (world : W)
    (metadata : RunMetadata) (plan : RunPlan)
    (hdistinct : (plan.tasks.map (·.position)).Nodup) :
    (startView env world metadata plan).Tracked failFast plan.stages :=
  View.start_keeps (course_claim failFast) env world metadata plan hdistinct

end Funzzy
