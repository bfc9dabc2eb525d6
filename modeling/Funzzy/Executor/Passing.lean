import Funzzy.Executor.Gate

/-! What a task that is reported passed has run (`executor.rs`).

    A finite job is passed by its original pass or by its verification, and either has run its commands to
    the end. A service is parked in the background with its first process and is passed by the first
    process that exits with zero: its later commands are not run, and a process that replaces one that
    exited otherwise runs the display of the command in a shell. -/

namespace Funzzy

open History

/-! ### What a pass has run -/

/-- The starts and the ends of processes in one pass. -/
def Effect.inPass (phase : Phase) : Effect → Bool
  | .spawned proc _ | .spawnFailed proc _ _ | .exited proc _ | .waitFailed proc _ => proc.phase = phase
  | _ => false

def passEffects (phase : Phase) (h : List Effect) : List Effect := h.filter (Effect.inPass phase)

/-- The first `k` of the declared commands have run, each started after the one before it had exited with
    zero; a service may have been started again after it had exited otherwise. -/
inductive RanThrough (service : Bool) (declared : List CommandLine) : Nat → List Effect → Prop
  | nil : RanThrough service declared 0 []
  | command {k h} (proc : Proc) (command : CommandLine) (status : ExitStatus) :
      RanThrough service declared k h → declared[k]? = some command → status.success = true →
      RanThrough service declared (k + 1) (h ++ [.spawned proc command, .exited proc status])
  | restart {k h} (proc : Proc) (command : CommandLine) (status : ExitStatus) :
      RanThrough service declared k h → declared[k]? = some command → status.success = false →
      service = true →
      RanThrough service declared k (h ++ [.spawned proc command, .exited proc status])

/-- Every declared command was spawned in order and exited with zero in the pass. -/
def AllRan (u : TaskPlan) (phase : Phase) (h : List Effect) : Prop :=
  RanThrough u.service u.commands u.commands.length (passEffects phase h)

theorem RanThrough.le {service : Bool} {declared : List CommandLine} {k : Nat} {h : List Effect}
    (hran : RanThrough service declared k h) : k ≤ declared.length := by
  induction hran with
  | nil => exact Nat.zero_le _
  | command proc command status _ hcommand _ _ => exact (List.getElem?_eq_some_iff.mp hcommand).1
  | restart _ _ _ _ _ _ _ ih => exact ih

/-- A process of the original pass was started. -/
def Effect.isStart : Effect → Bool
  | .spawned proc _ => proc.phase = .original
  | _ => false

/-- How often a process of the original pass was started. -/
def starts (h : List Effect) : Nat := (h.filter Effect.isStart).length

/-- A process ended with an exit code, zero or not. -/
def Effect.exits (zero : Bool) : Effect → Bool
  | .exited _ status => status.success = zero
  | _ => false

def Exits (zero : Bool) (h : List Effect) : Prop := ∃ x ∈ h, x.exits zero = true

/-- A service one of whose processes has exited with zero declares one command at most, and one for the
    shell if it was started again. -/
def TaskPlan.OneShell (u : TaskPlan) (h : List Effect) : Prop :=
  u.service = true → Exits true h → u.commands.length ≤ 1 ∧
    (Exits false h → ∀ command ∈ u.commands, command = .shell command.display)

/-! ### Reading a history -/

theorem passEffects_append (phase : Phase) (a b : List Effect) :
    passEffects phase (a ++ b) = passEffects phase a ++ passEffects phase b :=
  List.filter_append ..

theorem starts_append (a b : List Effect) : starts (a ++ b) = starts a + starts b := by
  rw [starts, List.filter_append, List.length_append]
  rfl

theorem exits_append (zero : Bool) (a b : List Effect) :
    Exits zero (a ++ b) ↔ Exits zero a ∨ Exits zero b := by
  simp [Exits, or_and_right, exists_or]

/-- What reads only effects of jobs reads them all in the history of the job that owns them. -/
theorem filter_historyAt (f : Effect → Bool) (hf : ∀ x : Effect, x.position? = none → f x = false)
    {p : Nat} {l : List Effect} (hl : ∀ x ∈ l, x.position? = none ∨ x.position? = some p) :
    (historyAt p l).filter f = l.filter f := by
  rw [historyAt, restrict, List.filter_filter]
  refine List.filter_congr fun x hx => ?_
  rcases hl x hx with hnone | hsome
  · rw [hf x hnone, Bool.false_and]
  · rw [decide_eq_true hsome, Bool.and_true]

theorem Effect.inPass_unowned (phase : Phase) (x : Effect) (hx : x.position? = none) :
    x.inPass phase = false := by
  cases x <;> first | rfl | cases hx

theorem Effect.isStart_unowned (x : Effect) (hx : x.position? = none) : x.isStart = false := by
  cases x <;> first | rfl | cases hx

theorem Effect.exits_unowned (zero : Bool) (x : Effect) (hx : x.position? = none) :
    x.exits zero = false := by
  cases x <;> first | rfl | cases hx

section Owned

variable {p : Nat} {l : List Effect} (hl : ∀ x ∈ l, x.position? = none ∨ x.position? = some p)
  (h : List Effect)
include hl

theorem passEffects_step (phase : Phase) :
    passEffects phase (h ++ historyAt p l) = passEffects phase h ++ passEffects phase l := by
  rw [passEffects_append]
  congr 1
  exact filter_historyAt _ (Effect.inPass_unowned phase) hl

theorem starts_step : starts (h ++ historyAt p l) = starts h + starts l := by
  rw [starts_append]
  exact congrArg (fun k => starts h + List.length k) (filter_historyAt _ Effect.isStart_unowned hl)

theorem exits_step (zero : Bool) : Exits zero (h ++ historyAt p l) ↔ Exits zero h ∨ Exits zero l := by
  rw [exits_append]
  refine or_congr_right ⟨?_, ?_⟩
  · rintro ⟨x, hx, hexits⟩
    exact ⟨x, (List.mem_filter.mp hx).1, hexits⟩
  · rintro ⟨x, hx, hexits⟩
    refine ⟨x, List.mem_filter.mpr ⟨hx, ?_⟩, hexits⟩
    rcases hl x hx with hnone | hsome
    · rw [x.exits_unowned zero hnone] at hexits
      cases hexits
    · exact decide_eq_true hsome

end Owned

/-! ### A finite job in a pass -/

/-- A finite job without failures in a pass: between two commands, or in one. -/
inductive PassStanding (phase : Phase) (declared : List CommandLine) (l : List Effect) (t : ActiveTask) :
    Prop
  | idle (k : Nat) : t.child = false → RanThrough false declared k l → t.commands = declared.drop k →
      PassStanding phase declared l t
  | busy (k : Nat) (command : CommandLine) (before : List Effect) : t.child = true →
      l = before ++ [.spawned (t.proc phase) command] → RanThrough false declared k before →
      declared[k]? = some command → t.commands = declared.drop (k + 1) → PassStanding phase declared l t

/-- The commands left, one by one. -/
theorem drop_eq_cons {α : Type} {l : List α} {k : Nat} {a : α} {rest : List α}
    (h : a :: rest = l.drop k) : l[k]? = some a ∧ rest = l.drop (k + 1) := by
  refine ⟨?_, ?_⟩
  · rw [← List.head?_drop, ← h, List.head?_cons]
  · rw [← List.tail_drop, ← h, List.tail_cons]

/-- Failures are never taken back within a pass. -/
theorem TaskChange.unfailed {phase : Phase} {t t' : ActiveTask} {effects : List Effect}
    (h : TaskChange phase t effects t') (hnone : t'.failures = []) : t.failures = [] := by
  cases h with
  | invalid | spawnFailed | failed => simp [ActiveTask.fail] at hnone
  | _ => exact hnone

theorem TaskChange.standing {phase : Phase} {t t' : ActiveTask} {effects : List Effect}
    (h : TaskChange phase t effects t') (hfinite : t.service = false) (hnone : t'.failures = [])
    {declared : List CommandLine} {l : List Effect} (hstands : PassStanding phase declared l t) :
    PassStanding phase declared (l ++ passEffects phase effects) t' := by
  cases h with
  | validate =>
    rw [show l ++ passEffects phase [] = l from List.append_nil l]
    cases hstands with
    | idle k hchild hran hcommands => exact .idle k hchild hran hcommands
    | busy k command before hchild hl hran hcommand hcommands =>
      exact .busy k command before hchild hl hran hcommand hcommands
  | tick =>
    rwa [show l ++ passEffects phase [.event (.tick t.name t.groupOccurrence)] = l from
      List.append_nil l]
  | invalid | spawnFailed | failed => simp [ActiveTask.fail] at hnone
  | restarted _ _ hservice =>
    rw [hfinite] at hservice
    cases hservice
  | spawned command rest now _ hchild hcommands =>
    cases hstands with
    | busy _ _ _ hbusy =>
      rw [hchild] at hbusy
      cases hbusy
    | idle k _ hran hleft =>
      obtain ⟨hcommand, hrest⟩ := drop_eq_cons (hcommands.symm.trans hleft)
      refine .busy k command l rfl ?_ hran hcommand hrest
      simp [passEffects, Effect.inPass, ActiveTask.proc, ActiveTask.launched, ActiveTask.take,
        ActiveTask.ordinal]
  | exited status hchild hok =>
    cases hstands with
    | idle _ hidle =>
      rw [hchild] at hidle
      cases hidle
    | busy k command before _ hl hran hcommand hleft =>
      refine .idle (k + 1) rfl ?_ hleft
      have hend : passEffects phase [.exited (t.proc phase) status] = [.exited (t.proc phase) status] := by
        simp [passEffects, Effect.inPass, ActiveTask.proc]
      rw [hend, hl, List.append_assoc]
      exact .command (t.proc phase) command status hran hcommand hok

/-- A pass that is over without failures has run everything. -/
theorem PassStanding.allRan {u : TaskPlan} {phase : Phase} {h : List Effect} {t : ActiveTask}
    (hstands : PassStanding phase u.commands (passEffects phase h) t) (hfinite : u.service = false)
    (hchild : t.child = false) (hempty : t.commands = []) : AllRan u phase h := by
  cases hstands with
  | busy _ _ _ hbusy =>
    rw [hchild] at hbusy
    cases hbusy
  | idle k _ hran hleft =>
    have hk : u.commands.length ≤ k := List.drop_eq_nil_iff.mp (hleft.symm.trans hempty)
    have hlength : k = u.commands.length := Nat.le_antisymm hran.le hk
    rw [AllRan, hfinite, ← hlength]
    exact hran

/-! ### A service -/

/-- A service of the stage: nothing has happened to it, or everything it tried failed, or it has just
    started its first process. -/
inductive Starting (u : TaskPlan) (h : List Effect) (t : ActiveTask) : Prop
  | fresh : t.child = false → t.commands = u.commands → t.failures = [] →
      passEffects .original h = [] → Starting u h t
  | failed : t.child = false → t.failures ≠ [] → (u.commands.length ≤ 1 → t.commands = []) →
      Starting u h t
  | started (command : CommandLine) : t.child = true → t.currentCommand = some command.display →
      (u.commands.length ≤ 1 → u.commands = [command] ∧ t.commands = [] ∧
        passEffects .original h = [.spawned (t.proc .original) command]) → Starting u h t

/-- A service before it is parked: it has been started at most once, and no process of it has ended. -/
structure Unparked (u : TaskPlan) (h : List Effect) (t : ActiveTask) : Prop where
  stands : Starting u h t
  restarts : t.serviceRestartsLeft = serviceMaxRestarts
  count : starts h = if t.child then 1 else 0
  unended : ∀ zero, ¬Exits zero h

/-- A parked service: every start after the first has used up a restart, no process of it has exited with
    zero, and with one command, to be run by a shell if it was started again, it is that command that runs
    or is to be run. -/
structure Parked (u : TaskPlan) (h : List Effect) (s : ActiveTask) : Prop where
  count : starts h + s.serviceRestartsLeft + (if s.child then 0 else 1) = 1 + serviceMaxRestarts
  unended : ¬Exits true h
  single : u.commands.length ≤ 1 →
    (Exits false h → ∀ command ∈ u.commands, command = .shell command.display) →
    ∃ command, u.commands = [command] ∧
      ((s.child = true ∧ s.commands = [] ∧ s.currentCommand = some command.display ∧ ∃ before,
          passEffects .original h = before ++ [.spawned (s.proc .original) command] ∧
          RanThrough true u.commands 0 before) ∨
        (s.child = false ∧ s.commands = [command] ∧
          RanThrough true u.commands 0 (passEffects .original h)))

theorem not_exits_nil (zero : Bool) : ¬Exits zero [] := by
  rintro ⟨x, hx, -⟩
  cases hx

/-- A service of the stage stays unparked as long as it may move. -/
theorem TaskChange.unparked {t t' : ActiveTask} {effects : List Effect}
    (hchange : TaskChange .original t effects t') {u : TaskPlan} {h : List Effect}
    (howns : ∀ x ∈ effects, x.position? = none ∨ x.position? = some u.position)
    (hunspawned : t.child = false) (ht : Unparked u h t) :
    Unparked u (h ++ historyAt u.position effects) t' := by
  obtain ⟨hstands, hrestarts, hcount, hunended⟩ := ht
  rw [hunspawned] at hcount
  -- what neither starts nor ends a process leaves the counts alone
  have hsame : starts effects = 0 → (∀ zero, ¬Exits zero effects) →
      starts (h ++ historyAt u.position effects) = 0 ∧
        ∀ zero, ¬Exits zero (h ++ historyAt u.position effects) := by
    intro hnone hquiet
    refine ⟨by rw [starts_step howns, hcount, hnone]; rfl, fun zero hexits => ?_⟩
    rcases (exits_step howns h zero).mp hexits with hold | hnew
    · exact hunended zero hold
    · exact hquiet zero hnew
  cases hchange with
  | validate =>
    obtain ⟨hstarts, hquiet⟩ := hsame rfl not_exits_nil
    have hpass := passEffects_step howns h .original
    refine ⟨?_, hrestarts, by rw [hstarts, hunspawned]; rfl, hquiet⟩
    cases hstands with
    | fresh hchild hcommands hnone hl =>
      exact .fresh hchild hcommands hnone (hpass.trans (by rw [hl]; rfl))
    | failed hchild hfailed hempty => exact .failed hchild hfailed hempty
    | started _ hbusy =>
      rw [hunspawned] at hbusy
      cases hbusy
  | invalid failure =>
    obtain ⟨hstarts, hquiet⟩ := hsame rfl fun zero => by simp [Exits, Effect.exits]
    exact ⟨.failed hunspawned (by simp [ActiveTask.fail]) fun _ => rfl, hrestarts,
      by simp [hstarts, ActiveTask.fail, hunspawned], hquiet⟩
  | tick =>
    obtain ⟨hstarts, hquiet⟩ := hsame rfl fun zero => by simp [Exits, Effect.exits]
    have hpass := passEffects_step howns h .original
    refine ⟨?_, hrestarts, by rw [hstarts, hunspawned]; rfl, hquiet⟩
    cases hstands with
    | fresh hchild hcommands hnone hl =>
      exact .fresh hchild hcommands hnone (hpass.trans (by rw [hl]; rfl))
    | failed hchild hfailed hempty => exact .failed hchild hfailed hempty
    | started _ hbusy =>
      rw [hunspawned] at hbusy
      cases hbusy
  | spawnFailed command rest error failure _ hcommands =>
    obtain ⟨hstarts, hquiet⟩ := hsame rfl fun zero => by simp [Exits, Effect.exits]
    refine ⟨.failed rfl (by simp [ActiveTask.fail]) fun hone => ?_, hrestarts, hstarts, hquiet⟩
    cases hstands with
    | fresh _ hall =>
      rw [← hall, hcommands, List.length_cons] at hone
      have hrest : rest = [] := List.length_eq_zero_iff.mp (by omega)
      exact hrest
    | failed _ _ hempty =>
      rw [hempty hone] at hcommands
      cases hcommands
    | started _ hbusy =>
      rw [hunspawned] at hbusy
      cases hbusy
  | spawned command rest now _ _ hcommands =>
    have hpass := passEffects_step howns h .original
    refine ⟨.started command rfl rfl fun hone => ?_, hrestarts, ?_, fun zero hexits => ?_⟩
    · cases hstands with
      | fresh _ hall _ hl =>
        have hrest : rest = [] := by
          rw [← hall, hcommands, List.length_cons] at hone
          exact List.length_eq_zero_iff.mp (by omega)
        refine ⟨by rw [← hall, hcommands, hrest], hrest, ?_⟩
        rw [hpass, hl]
        simp [passEffects, Effect.inPass, ActiveTask.proc, ActiveTask.launched, ActiveTask.take,
          ActiveTask.ordinal]
      | failed _ _ hempty =>
        rw [hempty hone] at hcommands
        cases hcommands
      | started _ hbusy =>
        rw [hunspawned] at hbusy
        cases hbusy
    · rw [starts_step howns, hcount]
      rfl
    · rcases (exits_step howns h zero).mp hexits with hold | hnew
      · exact hunended zero hold
      · simp [Exits, Effect.exits] at hnew
  | exited _ hbusy | failed _ _ hbusy | restarted _ hbusy =>
    rw [hunspawned] at hbusy
    cases hbusy

/-- A service is parked with its first process. -/
theorem Unparked.park {u : TaskPlan} {h : List Effect} {t : ActiveTask} (ht : Unparked u h t)
    (hchild : t.child = true) : Parked u h t := by
  refine ⟨?_, ht.unended true, fun hone _ => ?_⟩
  · rw [ht.count, ht.restarts, hchild]
    rfl
  · cases ht.stands with
    | fresh hidle | failed hidle =>
      rw [hchild] at hidle
      cases hidle
    | started command _ hcurrent hsingle =>
      obtain ⟨hcommands, hempty, hl⟩ := hsingle hone
      exact ⟨command, hcommands, .inl ⟨hchild, hempty, hcurrent, [], hl, .nil⟩⟩

/-- A poll that keeps a service parked. -/
theorem ServiceMove.parked {s s' : ActiveTask} {effects : List Effect} {results : Results}
    {state : TaskState} {outcome : TaskOutcome}
    (hmove : ServiceMove s effects (some s') results state outcome) {u : TaskPlan} {h : List Effect}
    (howns : ∀ x ∈ effects, x.position? = none ∨ x.position? = some u.position) (hs : Parked u h s) :
    Parked u (h ++ historyAt u.position effects) s' := by
  obtain ⟨hcount, hunended, hsingle⟩ := hs
  have hpass := passEffects_step howns h .original
  cases hmove with
  | spawned command rest now hchild hcommands =>
    rw [hchild] at hcount
    have hnone : ∀ zero, ¬Exits zero [.spawned ((s.take command rest).proc .original) command] :=
      fun zero => by simp [Exits, Effect.exits]
    refine ⟨?_, fun hexits => ?_, fun hone hshell => ?_⟩
    · rw [starts_step howns]
      simp only [starts, Effect.isStart, ActiveTask.take, ActiveTask.proc, if_true, List.filter_cons,
        decide_true, List.filter_nil, List.length_cons, List.length_nil] at hcount ⊢
      simp only [Bool.false_eq_true, if_false] at hcount
      omega
    · rcases (exits_step howns h true).mp hexits with hold | hnew
      · exact hunended hold
      · exact hnone true hnew
    · obtain ⟨first, hall, ⟨hbusy, -⟩ | ⟨-, hleft, hran⟩⟩ :=
        hsingle hone fun hexits => hshell ((exits_step howns h false).mpr (.inl hexits))
      · rw [hchild] at hbusy
        cases hbusy
      · obtain ⟨rfl, rfl⟩ := List.cons.inj (hcommands.symm.trans hleft)
        refine ⟨command, hall, .inl ⟨rfl, rfl, rfl, _, hpass.trans ?_, hran⟩⟩
        simp [passEffects, Effect.inPass, ActiveTask.proc, ActiveTask.take, ActiveTask.ordinal]
  | restarted status hchild hnot hleft =>
    rw [hchild] at hcount
    refine ⟨?_, fun hexits => ?_, fun hone hshell => ?_⟩
    · rw [starts_step howns]
      simp only [starts, Effect.isStart, ActiveTask.requeued, ActiveTask.reaped, List.filter_cons,
        List.filter_nil, List.length_nil, if_true, Bool.false_eq_true, if_false] at hcount ⊢
      omega
    · rcases (exits_step howns h true).mp hexits with hold | hnew
      · exact hunended hold
      · simp [Exits, Effect.exits, hnot] at hnew
    · have hagain : Exits false (h ++ historyAt u.position [.exited (s.proc .original) status]) :=
        (exits_step howns h false).mpr (.inr (by simp [Exits, Effect.exits, hnot]))
      obtain ⟨command, hall, ⟨-, hempty, hcurrent, before, hl, hran⟩ | ⟨hidle, -⟩⟩ :=
        hsingle hone fun _ => hshell hagain
      · have hfirst : u.commands[0]? = some command := by rw [hall]; rfl
        have hline : CommandLine.shell command.display = command :=
          (hshell hagain command (by rw [hall]; exact List.mem_singleton_self _)).symm
        refine ⟨command, hall, .inr ⟨rfl, ?_, ?_⟩⟩
        · simp only [ActiveTask.requeued, ActiveTask.reaped, hcurrent, hempty, Option.map_some,
            Option.toList_some, List.append_nil, hline]
        · have hend : passEffects .original [.exited (s.proc .original) status]
              = [.exited (s.proc .original) status] := by
            simp [passEffects, Effect.inPass, ActiveTask.proc]
          rw [hpass, hend, hl, List.append_assoc]
          exact .restart (s.proc .original) command status hran hfirst hnot rfl
      · rw [hchild] at hidle
        cases hidle

/-- A poll after which a service leaves: it is reported passed only with a process that exited with zero,
    and one command has then run. -/
theorem ServiceMove.left {s : ActiveTask} {effects : List Effect} {results : Results}
    {state : TaskState} {outcome : TaskOutcome}
    (hmove : ServiceMove s effects none results state outcome) {u : TaskPlan} {h : List Effect}
    (howns : ∀ x ∈ effects, x.position? = none ∨ x.position? = some u.position)
    (hservice : u.service = true) (hs : Parked u h s) :
    starts (h ++ historyAt u.position effects) ≤ 1 + serviceMaxRestarts ∧
      (state = .passed → u.OneShell (h ++ historyAt u.position effects) →
        AllRan u .original (h ++ historyAt u.position effects)) := by
  obtain ⟨hcount, hunended, hsingle⟩ := hs
  have hpass := passEffects_step howns h .original
  rw [starts_step howns]
  cases hmove with
  | spawnFailed command rest error failure hchild hcommands =>
    refine ⟨?_, nofun⟩
    simp only [starts, Effect.isStart, List.filter_cons, List.filter_nil, List.length_nil,
      Bool.false_eq_true, if_false] at hcount ⊢
    omega
  | exhausted status failure hchild hnot =>
    refine ⟨?_, nofun⟩
    simp only [starts, Effect.isStart, List.filter_cons, List.filter_nil, List.length_nil,
      Bool.false_eq_true, if_false] at hcount ⊢
    omega
  | stopped status hchild hok =>
    refine ⟨?_, fun _ hshell => ?_⟩
    · simp only [starts, Effect.isStart, List.filter_cons, List.filter_nil, List.length_nil,
        Bool.false_eq_true, if_false] at hcount ⊢
      omega
    · have hzero : Exits true (h ++ historyAt u.position [.exited (s.proc .original) status]) :=
        (exits_step howns h true).mpr (.inr (by simp [Exits, Effect.exits, hok]))
      obtain ⟨hone, hagain⟩ := hshell hservice hzero
      obtain ⟨command, hall, ⟨-, -, -, before, hl, hran⟩ | ⟨hidle, -⟩⟩ :=
        hsingle hone fun hexits => hagain ((exits_step howns h false).mpr (.inl hexits))
      · have hend : passEffects .original [.exited (s.proc .original) status]
            = [.exited (s.proc .original) status] := by
          simp [passEffects, Effect.inPass, ActiveTask.proc]
        have hfirst : u.commands[0]? = some command := by rw [hall]; rfl
        have hlast := RanThrough.command (s.proc .original) command status hran hfirst hok
        rw [AllRan, hservice, hpass, hend, hl, List.append_assoc]
        have hlength : u.commands.length = 0 + 1 := by rw [hall]; rfl
        rw [hlength]
        exact hlast
      · rw [hchild] at hidle
        cases hidle

/-! ### One job -/

/-- How a job stands in one of its roles, for what it may still be passed with. -/
def Entity.Stands (u : TaskPlan) (h : List Effect) : Entity → Prop
  | .planned _ | .queued _ => True
  | .active t =>
    (u.service = true → Unparked u h t) ∧
      (u.service = false → t.failures = [] → PassStanding .original u.commands (passEffects .original h) t)
  | .service s => Parked u h s
  | .pending _ => u.service = false
  | .recovering r => u.service = false ∧ (r.phase = .verification → r.task.failures = [] →
      PassStanding .verification u.commands (passEffects .verification h) r.task)

/-- What a job's history says about its starts and its reports. -/
structure Ran (u : TaskPlan) (e : Option Entity) (h : List Effect) : Prop where
  bounded : u.service = true → starts h ≤ 1 + serviceMaxRestarts
  reported : ∀ snapshot ∈ terminals h, snapshot.key = u.job.key ∧
    (snapshot.state = .passed → u.OneShell h → AllRan u .original h ∨ AllRan u .verification h)
  stands : ∀ x, e = some x → x.Stands u h
  ahead : ∀ x, e = some x → x.Ahead .verification → passEffects .verification h = []

theorem Entity.Follows.position_eq {u : TaskPlan} {h : List Effect} {e : Entity}
    (hfollows : e.Follows u h) : e.position = u.position := by
  cases e with
  | planned | queued =>
    obtain ⟨rfl, -⟩ := hfollows
    rfl
  | active | service | pending | recovering => exact congrArg JobId.position hfollows.1.job

theorem TaskChange.passEffects_other {phase other : Phase} {t t' : ActiveTask} {effects : List Effect}
    (h : TaskChange phase t effects t') (hne : other ≠ phase) : passEffects other effects = [] := by
  cases h with
  | failed effect failure _ heffect =>
    rcases heffect with ⟨status, rfl⟩ | ⟨error, rfl⟩ <;>
      simp [passEffects, Effect.inPass, ActiveTask.proc, hne.symm]
  | _ => simp [passEffects, Effect.inPass, ActiveTask.proc, hne.symm]

theorem ServiceMove.passEffects_other {s : ActiveTask} {effects : List Effect} {s' : Option ActiveTask}
    {results : Results} {state : TaskState} {outcome : TaskOutcome}
    (h : ServiceMove s effects s' results state outcome) {phase : Phase} (hne : phase ≠ .original) :
    passEffects phase effects = [] := by
  cases h <;> simp [passEffects, Effect.inPass, ActiveTask.proc, hne.symm]

theorem TaskChange.starts_other {phase : Phase} {t t' : ActiveTask} {effects : List Effect}
    (h : TaskChange phase t effects t') (hne : phase ≠ .original) : starts effects = 0 := by
  cases h with
  | failed effect failure _ heffect =>
    rcases heffect with ⟨status, rfl⟩ | ⟨error, rfl⟩ <;> rfl
  | spawned command rest =>
    have hother : ((t.take command rest).proc phase).phase ≠ .original := hne
    simp [starts, Effect.isStart, hother]
  | validate | invalid | spawnFailed | tick | exited | restarted => rfl

theorem Unparked.starts_le {u : TaskPlan} {h : List Effect} {t : ActiveTask} (ht : Unparked u h t) :
    starts h ≤ 1 + serviceMaxRestarts := by
  rw [ht.count, serviceMaxRestarts]
  split <;> omega

theorem Parked.starts_le {u : TaskPlan} {h : List Effect} {s : ActiveTask} (hs : Parked u h s) :
    starts h ≤ 1 + serviceMaxRestarts := by
  have := hs.count
  omega

/-- A job that leaves with a report other than passed, or with one that is vouched for. -/
theorem Ran.leave {u : TaskPlan} {e : Entity} {h l : List Effect} (hc : Course u (some e) h)
    (hbounded : u.service = true → starts (h ++ l) ≤ 1 + serviceMaxRestarts)
    (hreported : ∀ snapshot ∈ terminals l, snapshot.key = u.job.key ∧
      (snapshot.state = .passed → u.OneShell (h ++ l) →
        AllRan u .original (h ++ l) ∨ AllRan u .verification (h ++ l))) :
    Ran u none (h ++ l) := by
  refine ⟨hbounded, fun snapshot hsnapshot => ?_, by simp, by simp⟩
  rw [terminals_append, (hc.present e rfl).2.1, List.nil_append] at hsnapshot
  exact hreported snapshot hsnapshot

/-- A job that stays in the run has no report to answer for. -/
theorem Ran.stay {u : TaskPlan} {e : Entity} {h : List Effect} (hc : Course u (some e) h)
    (hbounded : u.service = true → starts h ≤ 1 + serviceMaxRestarts) (hstands : e.Stands u h)
    (hahead : e.Ahead .verification → passEffects .verification h = []) : Ran u (some e) h := by
  refine ⟨hbounded, fun snapshot hsnapshot => ?_, ?_, ?_⟩
  · rw [(hc.present e rfl).2.1] at hsnapshot
    cases hsnapshot
  · rintro x ⟨⟩
    exact hstands
  · rintro x ⟨⟩
    exact hahead

theorem ActiveTask.starts_killEffects (t : ActiveTask) : starts t.killEffects = 0 := by
  unfold ActiveTask.killEffects
  split <;> rfl

theorem ActiveTask.verdict_passed {t : ActiveTask} (h : t.verdict.1 = .passed) : t.failures = [] := by
  by_contra hfailed
  rw [ActiveTask.verdict_of_failed hfailed] at h
  cases h

/-- Every move of a job whose services declare no recovery keeps what its history says. -/
theorem EntityMove.ran {failFast : Bool} {e : Entity} {effects : List Effect} {e' : Option Entity}
    (hmove : EntityMove failFast e effects e') {u : TaskPlan} {h : List Effect}
    (hplain : u.service = true → u.recoveryCommands = none) (hc : Course u (some e) h)
    (hr : Ran u (some e) h) : Ran u e' (h ++ historyAt u.position effects) := by
  obtain ⟨hfollows, -, -⟩ := hc.present e rfl
  have hc' := hmove.course hc
  have howns := hmove.owns
  rw [hfollows.position_eq] at howns
  have hstands := hr.stands e rfl
  have hahead := hr.ahead e rfl
  have hstarts := starts_step howns h
  have hpass := fun phase => passEffects_step howns h phase
  -- a job that has started nothing more is within the bound
  have hstill : starts effects = 0 →
      u.service = true → starts (h ++ historyAt u.position effects) ≤ 1 + serviceMaxRestarts := by
    intro hnone hservice
    rw [hstarts, hnone]
    exact hr.bounded hservice
  -- a job that leaves does so with its report as the last effect
  have hreport : ∀ (run : Run) (job : JobId) (first : List Effect) (state : TaskState)
      (durationMs : Option Nat), effects = first ++ [run.terminal (job.snapshot state durationMs)] →
      job = u.job → terminals first = [] →
      (state = .passed → u.OneShell (h ++ historyAt u.position effects) →
        AllRan u .original (h ++ historyAt u.position effects) ∨
          AllRan u .verification (h ++ historyAt u.position effects)) →
      ∀ snapshot ∈ terminals (historyAt u.position effects), snapshot.key = u.job.key ∧
        (snapshot.state = .passed → u.OneShell (h ++ historyAt u.position effects) →
          AllRan u .original (h ++ historyAt u.position effects) ∨
            AllRan u .verification (h ++ historyAt u.position effects)) := by
    intro run job first state durationMs heffects hjob hfirst hran snapshot hsnapshot
    have hlast : terminals [run.terminal (job.snapshot state durationMs)]
        = [job.snapshot state durationMs] := rfl
    rw [terminals_historyAt howns, heffects, terminals_append, hfirst, hlast, List.nil_append,
      List.mem_singleton] at hsnapshot
    subst hsnapshot hjob
    exact ⟨rfl, hran⟩
  have hlater : Phase.verification ≠ .original := by decide
  cases hmove with
  | fill task =>
    obtain ⟨rfl, rfl⟩ := hfollows
    refine Ran.stay hc' (hstill rfl) ⟨fun hservice => ?_, fun _ _ => ?_⟩ fun _ => rfl
    · exact ⟨.fresh rfl rfl rfl rfl, rfl, rfl, not_exits_nil⟩
    · exact .idle 0 rfl .nil rfl
  | task t t' _ hadm hchange =>
    obtain ⟨ht, -, -⟩ := hfollows
    have hservice' : t.service = u.service := ht.service
    have hunparked : u.service = true → Unparked u (h ++ historyAt u.position effects) t' :=
      fun hservice => hchange.unparked howns (hadm.unspawned rfl (hservice'.trans hservice))
        (hstands.1 hservice)
    refine Ran.stay hc' (fun hservice => (hunparked hservice).starts_le)
      ⟨hunparked, fun hfinite hnone => ?_⟩ fun _ => ?_
    · rw [hpass .original]
      exact hchange.standing (hservice'.trans hfinite) hnone (hstands.2 hfinite (hchange.unfailed hnone))
    · rw [hpass .verification, hchange.passEffects_other hlater, List.append_nil]
      exact hahead hlater
  | park t hservice hchild =>
    have hflag : u.service = true := hfollows.1.service.symm.trans hservice
    have hparked := (hstands.1 hflag).park hchild
    rw [show historyAt u.position [] = [] from rfl, List.append_nil] at hc' ⊢
    exact Ran.stay hc' hr.bounded hparked fun _ => hahead hlater
  | record t run durationMs hchild hleft =>
    refine Ran.leave hc (hstill rfl) (hreport run t.job [] _ durationMs rfl hfollows.1.job rfl
      fun hpassed _ => .inl ?_)
    have hnone := ActiveTask.verdict_passed hpassed
    rw [AllRan, hpass .original]
    refine (List.append_nil (passEffects .original h)).symm ▸ ?_
    cases hservice : u.service with
    | false => exact hservice ▸ (hstands.2 hservice hnone).allRan hservice hchild (hleft hnone)
    | true =>
      cases (hstands.1 hservice).stands with
      | fresh _ hall _ hl =>
        have hempty : u.commands = [] := hall.symm.trans (hleft hnone)
        rw [hempty, hl]
        exact .nil
      | failed _ hfailed => exact absurd hnone hfailed
      | started _ hbusy =>
        rw [hchild] at hbusy
        cases hbusy
  | defer t effect hchild heffect hsome =>
    have hsilent : historyAt u.position [effect] = [] := restrict_eq_nil _ fun x hx => by simp_all
    rw [hsilent, List.append_nil] at hc' ⊢
    refine Ran.stay hc' hr.bounded ?_ fun _ => hahead hlater
    by_contra hno
    have hnone := hplain (Bool.eq_true_of_not_eq_false hno)
    rw [hfollows.2.1, hnone] at hsome
    cases hsome
  | stop t run durationMs =>
    refine Ran.leave hc (hstill ?_) (hreport run t.job t.killEffects .cancelled durationMs rfl
      hfollows.1.job t.terminals_killEffects fun h => by cases h)
    rw [starts_append, t.starts_killEffects]
    rfl
  | skip _ task run he =>
    have hjob : task.job = u.job := by
      rcases he with rfl | rfl <;> rw [hfollows.1]
    exact Ran.leave hc (hstill rfl) (hreport run task.job [] .cancelled none rfl hjob rfl fun h => by cases h)
  | service s s' _ results state outcome hserviceMove =>
    have hparked := hserviceMove.parked howns hstands
    refine Ran.stay hc' (fun _ => hparked.starts_le) hparked fun _ => ?_
    rw [hpass .verification, hserviceMove.passEffects_other hlater, List.append_nil]
    exact hahead hlater
  | serviceLeft s inner results state outcome run durationMs hserviceMove =>
    have hservice : u.service = true := hfollows.1.service.symm.trans hfollows.2.1
    have hlast : historyAt u.position [run.terminal (s.job.snapshot state durationMs)]
        = [run.terminal (s.job.snapshot state durationMs)] :=
      historyAt_owned fun x hx => by
        rw [List.mem_singleton.mp hx]
        exact congrArg (fun job : JobId => some job.position) hfollows.1.job
    obtain ⟨hbound, hpassed⟩ := hserviceMove.left
      (fun x hx => howns x (List.mem_append_left _ hx)) hservice hstands
    refine Ran.leave hc (fun _ => ?_) (hreport run s.job inner state durationMs rfl hfollows.1.job
      hserviceMove.terminals_eq fun hstate hshell => .inl ?_)
    · rw [historyAt_append, hlast, ← List.append_assoc, starts_append]
      exact hbound
    · rw [historyAt_append, hlast, ← List.append_assoc] at hshell ⊢
      have hsame : ∀ zero past, Exits zero (past ++
          [run.terminal (s.job.snapshot state durationMs)]) → Exits zero past := by
        intro zero past hexits
        rcases (exits_append zero _ _).mp hexits with hold | hnew
        · exact hold
        · simp [Exits, Run.terminal, Effect.exits] at hnew
      rw [AllRan, passEffects_append]
      refine (List.append_nil (passEffects .original _)).symm ▸ ?_
      refine hpassed hstate fun _ hzero => ?_
      obtain ⟨hone, hagain⟩ := hshell hservice ((exits_append true _ _).mpr (.inl hzero))
      exact ⟨hone, fun hrestarted => hagain ((exits_append false _ _).mpr (.inl hrestarted))⟩
  | retire s =>
    refine Ran.leave hc (hstill s.starts_killEffects) fun snapshot hsnapshot => ?_
    rw [terminals_historyAt howns, s.terminals_killEffects] at hsnapshot
    cases hsnapshot
  | keep t run durationMs hfailed =>
    refine Ran.leave hc (hstill rfl) (hreport run t.job [] _ durationMs rfl hfollows.1.job rfl
      fun hpassed => absurd (ActiveTask.verdict_passed hpassed) hfailed)
  | recover t commands run hcommands =>
    rw [show historyAt u.position [run.recoveryStarted t] = [] from rfl, List.append_nil] at hc' ⊢
    refine Ran.stay hc' hr.bounded ⟨hstands, fun h => by cases h⟩ fun _ => hahead ⟨hlater, ?_⟩
    rw [hcommands]
    simp
  | recovering r t' _ hadm hchange =>
    obtain ⟨ht, hphase, -, -⟩ := hfollows
    refine Ran.stay hc' (hstill (hchange.starts_other hphase)) ⟨hstands.1, fun hverify hnone => ?_⟩
      fun hx => ?_
    · have hverify' : r.phase = .verification := hverify
      rw [hpass .verification]
      rw [hverify'] at hchange
      exact hchange.standing (ht.service.trans hstands.1) hnone
        (hstands.2 hverify' (hchange.unfailed hnone))
    · have hrecovery : r.phase = .recovery := hx.1
      rw [hpass .verification, hchange.passEffects_other (by rw [hrecovery]; decide), List.append_nil]
      exact hahead ⟨hrecovery, rfl⟩
  | recoveryFailed t original run durationMs _ =>
    exact Ran.leave hc (hstill rfl) (hreport run t.job [] .failed durationMs rfl hfollows.1.job rfl fun h => by cases h)
  | verify t original hchild _ =>
    rw [show historyAt u.position [] = [] from rfl, List.append_nil] at hc' ⊢
    refine Ran.stay hc' hr.bounded ⟨hstands.1, fun _ _ => ?_⟩ fun hx => ?_
    · rw [hahead ⟨rfl, rfl⟩]
      exact .idle 0 rfl .nil hfollows.1.original
    · cases hx.1
  | verified t original run durationMs hchild hleft =>
    refine Ran.leave hc (hstill rfl) (hreport run t.job [run.verificationFinished t] _ durationMs rfl
      hfollows.1.job rfl fun hpassed _ => .inr ?_)
    have hnone := ActiveTask.verdict_passed hpassed
    have hempty : t.commands = [] := (hleft hnone).resolve_right (by
      rw [show t.service = u.service from hfollows.1.service, hstands.1]
      decide)
    rw [AllRan, hpass .verification]
    refine (List.append_nil (passEffects .verification h)).symm ▸ ?_
    exact (hstands.2 rfl hnone).allRan hstands.1 hchild hempty
  | interrupt r =>
    refine Ran.stay hc' (hstill r.task.starts_killEffects) hstands.1 fun hx => ?_
    exact absurd hfollows.2.2.1 hx.2

/-! ### All jobs of a run -/

/-- A job on its course whose history says what it may be passed with, when services declare no
    recovery. -/
def Vouched (u : TaskPlan) (e : Option Entity) (h : List Effect) : Prop :=
  Course u e h ∧ ((u.service = true → u.recoveryCommands = none) → Ran u e h)

theorem vouched_claim (failFast : Bool) : JobClaim failFast Vouched where
  planned u := by
    refine ⟨Course.planned u, fun _ => ⟨fun _ => Nat.zero_le _, by simp [terminals], ?_, ?_⟩⟩
    · rintro x ⟨⟩
      trivial
    · rintro x ⟨⟩ _
      rfl
  opened := by
    rintro u task h ⟨hc, hran⟩
    refine ⟨(course_claim failFast).opened hc, fun hplain => ?_⟩
    obtain ⟨hbounded, hreported, -, hahead⟩ := hran hplain
    refine ⟨hbounded, hreported, ?_, ?_⟩
    · rintro x ⟨⟩
      trivial
    · rintro x ⟨⟩ hx
      exact hahead _ rfl hx
  moved := by
    rintro u e effects e' h hmove ⟨hc, hran⟩
    exact ⟨hmove.course hc, fun hplain => hmove.ran hplain hc (hran hplain)⟩

/-- A report belongs to a job of the plan, and is in its history. -/
theorem View.Keeps.reporter {failFast : Bool} {J : TaskPlan → Option Entity → List Effect → Prop}
    {all : List Stage} {v : View} (h : v.Keeps failFast J all) {snapshot : TaskSnapshot}
    (hsnapshot : snapshot ∈ terminals v.trace) : ∃ u ∈ all.flatMap stageTasks, ∃ e,
      J u e (historyAt u.position v.trace) ∧ snapshot ∈ terminals (historyAt u.position v.trace) := by
  obtain ⟨x, hx, hterminal⟩ := List.mem_filterMap.mp hsnapshot
  have hposition : x.position? = some snapshot.position := by
    split at hterminal
    · cases hterminal
      rfl
    · cases hterminal
  have hmem : x ∈ historyAt snapshot.position v.trace :=
    List.mem_filter.mpr ⟨hx, decide_eq_true hposition⟩
  obtain ⟨e, -, ⟨u, hu, hsame, hc⟩ | ⟨-, -, hnone⟩⟩ := h.stands snapshot.position
  · rw [← hsame] at hc hmem
    exact ⟨u, hu, e, hc, List.mem_filterMap.mpr ⟨x, hmem, hterminal⟩⟩
  · rw [hnone] at hmem
    cases hmem

/-- Every outcome that is recorded as passed has been reported as passed. -/
def View.PassesReported (v : View) : Prop :=
  ∀ entry ∈ v.run.outcomes, entry.2.2.2 = .passed →
    ∃ snapshot ∈ terminals v.trace, snapshot.state = .passed ∧ snapshot.key = (entryJob entry).key

theorem View.PassesReported.more {v v' : View} (h : v.PassesReported)
    {entries : List (Nat × String × Option String × TaskOutcome)} {effects : List Effect}
    (houtcomes : v'.run.outcomes = v.run.outcomes ++ entries) (htrace : v'.trace = v.trace ++ effects)
    (hentries : ∀ entry ∈ entries, entry.2.2.2 = .passed → ∃ snapshot ∈ terminals effects,
      snapshot.state = .passed ∧ snapshot.key = (entryJob entry).key) : v'.PassesReported := by
  intro entry hentry hpassed
  rw [houtcomes] at hentry
  simp only [htrace, terminals_append, List.mem_append]
  rcases List.mem_append.mp hentry with hold | hnew
  · obtain ⟨snapshot, hsnapshot, hstate⟩ := h entry hold hpassed
    exact ⟨snapshot, .inl hsnapshot, hstate⟩
  · obtain ⟨snapshot, hsnapshot, hstate⟩ := hentries entry hnew hpassed
    exact ⟨snapshot, .inr hsnapshot, hstate⟩

theorem View.PassesReported.still {v v' : View} (h : v.PassesReported) {effects : List Effect}
    (houtcomes : v'.run.outcomes = v.run.outcomes) (htrace : v'.trace = v.trace ++ effects) :
    v'.PassesReported :=
  h.more (houtcomes.trans (List.append_nil _).symm) htrace (by simp)

/-- A job that is recorded and reported at once. -/
theorem View.PassesReported.reported {v v' : View} (h : v.PassesReported) {job : JobId} {run : Run}
    {state : TaskState} {outcome : TaskOutcome} {durationMs : Option Nat} (first : List Effect)
    (houtcomes : v'.run.outcomes = v.run.outcomes ++ [job.entry outcome])
    (htrace : v'.trace = v.trace ++ (first ++ [run.terminal (job.snapshot state durationMs)]))
    (hpassed : outcome = .passed → state = .passed) : v'.PassesReported := by
  refine h.more houtcomes htrace fun entry hentry houtcome => ?_
  rw [List.mem_singleton.mp hentry] at houtcome ⊢
  refine ⟨job.snapshot state durationMs, ?_, hpassed houtcome, rfl⟩
  rw [terminals_append]
  exact List.mem_append_right _ List.mem_cons_self

theorem ActiveTask.verdict_agrees (t : ActiveTask) : t.verdict.2 = .passed → t.verdict.1 = .passed := by
  unfold ActiveTask.verdict
  split
  · exact fun _ => rfl
  · nofun

theorem ServiceMove.agrees {s : ActiveTask} {effects : List Effect} {s' : Option ActiveTask}
    {results : Results} {state : TaskState} {outcome : TaskOutcome}
    (h : ServiceMove s effects s' results state outcome) : outcome = .passed → state = .passed := by
  cases h <;> first | exact fun _ => rfl | nofun

theorem Move.passesReported {failFast : Bool} {v v' : View} (hmove : Move failFast v v')
    (h : v.PassesReported) : v'.PassesReported := by
  obtain ⟨effects, htrace⟩ := hmove.trace_extends
  cases hmove with
  | record seen rest t durationMs =>
    exact h.reported [] rfl rfl t.verdict_agrees
  | stop t rest durationMs =>
    exact h.reported t.killEffects rfl (List.append_assoc _ _ _) nofun
  | skipQueued | skipStages =>
    refine h.more rfl htrace fun entry hentry hpassed => ?_
    obtain ⟨t, -, rfl⟩ := List.mem_map.mp hentry
    cases hpassed
  | serviceLeft kept rest s inner results state outcome durationMs _ _ hservice =>
    exact h.reported inner rfl (List.append_assoc _ _ _) hservice.agrees
  | keep t rest durationMs => exact h.reported [] rfl rfl t.verdict_agrees
  | recoveryFailed t original failure durationMs => exact h.reported [] rfl rfl nofun
  | verified t original fallback durationMs _ =>
    exact h.reported [v.run.verificationFinished t] rfl rfl t.verdict_agrees
  | _ => exact h.still rfl htrace

theorem View.PassesReported.reconciled {v : View} (h : v.PassesReported) (stopNames : List String) :
    (v.reconciled stopNames).PassesReported := by
  refine h.more rfl rfl fun entry hentry hpassed => ?_
  obtain ⟨t, -, rfl⟩ := List.mem_map.mp hentry
  cases hpassed

/-! ### Whole sessions -/

/-- Every command of the job has run, in its original pass or in its verification. -/
def EverythingRan (u : TaskPlan) (h : List Effect) : Prop :=
  AllRan u .original h ∨ AllRan u .verification h

/-- A service that one of its processes has left with zero, and that declares more than one command, or
    one that is not for the shell and was started again. -/
def StoppedAtWill (u : TaskPlan) (h : List Effect) : Prop :=
  u.service = true ∧ Exits true h ∧ ¬(u.commands.length ≤ 1 ∧
    (Exits false h → ∀ command ∈ u.commands, command = .shell command.display))

/-- What a run vouches for: a job that is reported passed shows it in its history, and the processes of a
    service are started only so often. -/
structure Vouches (shown : TaskPlan → List Effect → Prop) (all : List Stage) (trace : List Effect) :
    Prop where
  passed : ∀ snapshot ∈ terminals trace, snapshot.state = .passed → ∃ u ∈ all.flatMap stageTasks,
    u.job.key = snapshot.key ∧ shown u (historyAt u.position trace)
  bounded : ∀ u ∈ all.flatMap stageTasks, u.service = true →
    starts (historyAt u.position trace) ≤ 1 + serviceMaxRestarts

theorem View.Keeps.vouches {failFast : Bool} {all : List Stage} {v : View}
    (h : v.Keeps failFast Vouched all)
    (hdistinct : ((all.flatMap stageTasks).map (·.position)).Nodup)
    (hplain : ∀ u ∈ all.flatMap stageTasks, u.service = true → u.recoveryCommands = none) :
    Vouches (fun u past => EverythingRan u past ∨ StoppedAtWill u past) all v.trace := by
  refine ⟨fun snapshot hsnapshot hpassed => ?_, fun u hu hservice => ?_⟩
  · obtain ⟨u, hu, e, ⟨-, hran⟩, hmem⟩ := h.reporter hsnapshot
    obtain ⟨hkey, hshown⟩ := (hran (hplain u hu)).reported snapshot hmem
    refine ⟨u, hu, hkey.symm, ?_⟩
    by_cases hone : u.OneShell (historyAt u.position v.trace)
    · exact .inl (hshown hpassed hone)
    · refine .inr ?_
      simp only [TaskPlan.OneShell, not_forall] at hone
      obtain ⟨hservice, hzero, hmore⟩ := hone
      exact ⟨hservice, hzero, hmore⟩
  · obtain ⟨e, -, -, hran⟩ := h.job hdistinct hu
    exact (hran (hplain u hu)).bounded hservice

/-- Every run keeps the vouching: a job is reported passed with all its commands run, in its original pass
    or in its verification, or is a service that was stopped at will, and a service is started no more
    than `1 + serviceMaxRestarts` times. What the outcomes record as passed was reported so. A job is known by
    its position, so appended plans have positions of their own. -/
theorem Session.passes_vouched {W : Type} (ex : LawfulExecutor) (env : Env W) (world : W)
    (metadata : RunMetadata) (plan : RunPlan) (ops : List Op) (hplan : Planned plan)
    (hops : ∀ op ∈ ops, op.Planned)
    (hfresh : FreshPositions plan
      ((Session.start env world metadata plan).appendedStages ex env ops)) :
    let s₀ := Session.start env world metadata plan
    let s := s₀.after ex env ops
    let all := plan.stages ++ s₀.appendedStages ex env ops
    Vouches (fun u past => EverythingRan u past ∨ StoppedAtWill u past) all s.io.trace ∧
      (s.progress = some (.returned .finished) → ∀ entry ∈ s.run.outcomes, entry.2.2.2 = .passed →
        ∃ snapshot ∈ terminals s.io.trace, snapshot.state = .passed ∧
          snapshot.key = (entryJob entry).key) := by
  intro s₀ s all
  have hdistinct := hplan.distinct hfresh
  have hs : s.Holds ex.failFast fun v => v.Keeps ex.failFast Vouched all ∧ v.PassesReported :=
    Session.run_holds ex env world metadata plan ops (P := fun all v => v.Keeps ex.failFast Vouched all ∧ v.PassesReported)
    hplan hfresh
    (fun hall => ⟨View.start_keeps (vouched_claim _) env world metadata plan hall, by
      intro entry hentry
      cases hentry⟩)
    (fun _ _ _ _ hmove hv => ⟨hv.1.move (vouched_claim _) hmove, hmove.passesReported hv.2⟩)
    (fun _ _ _ hall hv => ⟨hv.1.appended (vouched_claim _) hall, hv.2⟩)
    (fun _ _ stopNames _ hv => ⟨hv.1.reconciled (vouched_claim _) stopNames, hv.2.reconciled stopNames⟩)
  refine ⟨?_, fun hfinished => ?_⟩
  · obtain ⟨v, hv, htrace⟩ := hs.exists_view
    exact htrace ▸ hv.1.vouches hdistinct (hplan.unrecoverable hops s₀)
  · rw [Session.Holds, hfinished] at hs
    exact hs.1.2

/-- A service that fails once, is started again and ends with zero. -/
theorem Session.passes_vouched_at_server :
    let plan := RunPlan.fromRules [{ name := "server", commands := ["serve"], service := true }]
    let env := steadyEnv fun task =>
      some (if task.serviceRestartsLeft = serviceMaxRestarts then ⟨some 1, "exit status: 1"⟩
        else ⟨some 0, "exit status: 0"⟩)
    let s := (Session.start env () { runId := 1 } plan).after {} env
      [.advance 1, .advance 1, .advance 1, .advance 1]
    s.progress = some (.returned .finished) ∧ starts s.io.trace = 2 ∧
      Vouches (fun u past => EverythingRan u past ∨ StoppedAtWill u past) plan.stages s.io.trace := by
  intro plan env s
  have hs : (Session.start env () { runId := 1 } plan).after {} env
      [.advance 1, .advance 1, .advance 1, .advance 1] = s := rfl
  have hnone : (Session.start env () { runId := 1 } plan).appendedStages {} env
      [.advance 1, .advance 1, .advance 1, .advance 1] = [] := by decide
  obtain ⟨hvouches, -⟩ := Session.passes_vouched {} env () { runId := 1 } plan
    [.advance 1, .advance 1, .advance 1, .advance 1] (.fromRules _ (by simp [Rules.Consistent]))
    (by simp [Op.Planned]) (by rw [hnone]; exact ⟨.nil, by simp⟩)
  rw [hnone, List.append_nil, hs] at hvouches
  exact ⟨by decide, by decide, hvouches⟩

theorem RanThrough.length_le {service : Bool} {declared : List CommandLine} {k : Nat}
    {h : List Effect} (hran : RanThrough service declared k h) : 2 * k ≤ h.length := by
  induction hran with
  | nil => exact Nat.le_refl 0
  | command _ _ _ _ _ _ ih =>
    rw [List.length_append, List.length_cons, List.length_cons, List.length_nil]
    omega
  | restart _ _ _ _ _ _ _ ih =>
    rw [List.length_append]
    omega

/-- A service of two commands is passed when the first of them ends with zero, and the second is never
    started. -/
theorem Session.first_zero_passes_service :
    let plan := RunPlan.fromRules
      [{ name := "server", commands := ["setup", "serve"], service := true }]
    let env := steadyEnv fun _ => some ⟨some 0, "exit status: 0"⟩
    let s := (Session.start env () { runId := 1 } plan).after {} env [.advance 1, .advance 1]
    s.progress = some (.returned .finished) ∧
      (terminals s.io.trace).map (·.state) = [.passed] ∧
      spawnedCommands s.io.trace = [.shell "setup"] ∧
      ¬Vouches EverythingRan plan.stages s.io.trace := by
  intro plan env s
  have hterminals : (terminals s.io.trace).map (·.state) = [.passed] := by decide
  refine ⟨by decide, hterminals, by decide, fun hvouches => ?_⟩
  obtain ⟨snapshot, hsnapshot, hstate⟩ : ∃ snapshot ∈ terminals s.io.trace, snapshot.state = .passed := by
    have hmem : TaskState.passed ∈ (terminals s.io.trace).map (·.state) := by
      rw [hterminals]
      exact List.mem_singleton_self _
    exact List.mem_map.mp hmem
  obtain ⟨u, hu, -, hran⟩ := hvouches.passed snapshot hsnapshot hstate
  have hshort : ∀ u ∈ plan.stages.flatMap stageTasks, ∀ phase ∈ [Phase.original, .verification],
      (passEffects phase (historyAt u.position s.io.trace)).length < 2 * u.commands.length := by
    decide
  rcases hran with hran | hran
  · exact absurd hran.length_le (Nat.not_le.mpr (hshort u hu .original (by simp)))
  · exact absurd hran.length_le (Nat.not_le.mpr (hshort u hu .verification (by simp)))

end Funzzy
