import Funzzy.Executor.Simulation.Recovery

/-! The stage loop is a sequence of moves, and it ends.

    `advance_advanced` is the result for a whole call: whatever the environment answers, the call is
    a sequence of moves from the view it started in, and `Run.work` bounds its iterations. -/

namespace Funzzy

variable {W : Type}

/-- The plan of a run, its recoveries and its limit are as before; tasks may have been admitted. -/
structure Run.SamePlan (run run' : Run) : Prop where
  stages : run'.stages = run.stages
  stageLimit : run'.stageLimit = run.stageLimit
  metadata : run'.metadata = run.metadata

theorem Run.SamePlan.refl (run : Run) : run.SamePlan run := ⟨rfl, rfl, rfl⟩

theorem Run.SamePlan.trans {a b c : Run} (h : a.SamePlan b) (h' : b.SamePlan c) : a.SamePlan c :=
  ⟨h'.stages.trans h.stages, h'.stageLimit.trans h.stageLimit, h'.metadata.trans h.metadata⟩

/-- Between two calls every task of the stage may move: services are parked as soon as they run, and
    fail-fast ends the stage at its first failure. -/
def Run.Settled (failFast : Bool) (run : Run) : Prop :=
  ∀ t ∈ run.active, t.Admissible .original failFast

theorem Run.Settled.of_active {failFast : Bool} {run run' : Run} (h : run.Settled failFast)
    (hactive : run'.active = run.active) : run'.Settled failFast := by
  intro t ht
  rw [hactive] at ht
  exact h t ht

theorem fillAvailableSlots_moves (failFast : Bool) (io : Io W) :
    ∀ (queued : List TaskPlan) (run : Run), run.queued = queued →
      let run' := fillAvailableSlots queued run
      Moves failFast (view io run) (view io run') ∧ run.SamePlan run' ∧
        (run.Settled failFast → run'.Settled failFast) ∧
        run'.queued.length + run'.active.length = run.queued.length + run.active.length
  | [], run, _ => ⟨.refl, .refl run, id, rfl⟩
  | task :: rest, run, hqueued => by
    rw [fillAvailableSlots]
    by_cases hfree : run.active.length < run.stageLimit
    · rw [if_pos hfree]
      have hadmit : Move failFast (view io run) _ := .fill (view io run) task rest hqueued hfree
      obtain ⟨hmoves, hplan, hsettled, hlength⟩ := fillAvailableSlots_moves failFast io rest
        { run with queued := rest, active := run.active ++ [.ofPlan task] } rfl
      refine ⟨.head hadmit hmoves, ⟨hplan.stages, hplan.stageLimit, hplan.metadata⟩,
        fun h => hsettled ?_, ?_⟩
      · intro t ht
        rcases List.mem_append.mp ht with ht | ht
        · exact h t ht
        · rw [List.mem_singleton.mp ht]; exact ⟨fun _ => rfl, fun _ _ => rfl⟩
      simp only [List.length_append, List.length_singleton] at hlength
      rw [hqueued, List.length_cons]
      omega
    · rw [if_neg hfree]
      exact ⟨.refl, .refl run, id, rfl⟩

/-- A task's own moves, seen from the run that holds it among its active tasks. -/
theorem active_moves {failFast : Bool} {v : View} {seen rest : List ActiveTask} {w w' : Work}
    (h : TaskMoves .original failFast w w') (hactive : v.run.active = seen ++ w.task :: rest)
    (hrec : v.recovering = none) (hresults : w.results = v.run.results)
    (htrace : w.trace = v.trace) :
    Moves failFast v { v with
      run := { v.run with results := w'.results, active := seen ++ w'.task :: rest }
      trace := w'.trace } := by
  induction h with
  | refl =>
    have hsame : ({ v with
        run := { v.run with results := w.results, active := seen ++ w.task :: rest }
        trace := w.trace } : View) = v := by
      obtain ⟨run, recovering, token, trace⟩ := v
      cases run
      simp_all
    rw [hsame]
  | @tail b c _ hmove ih =>
    exact ih.tail (.task _ seen rest b.task c.task c.results c.trace rfl hrec hmove.2 hmove.1)

/-- What the pass over the active tasks promises about the run it returns. -/
def Scanned.Describes (failFast : Bool) (run run' : Run) (finished : Bool) : Scanned → Prop
  | .polled finished' =>
    finished' = true → finished = true ∨ run'.active.length < run.active.length
  | .failedFast => failFast = true ∧ run'.Failing

/-- The pass over the active tasks is a sequence of moves and never adds a task. -/
structure ScannedActive (failFast : Bool) (io : Io W) (run : Run) (finished : Bool)
    (r : Io W × Run × Scanned) : Prop where
  moves : Moves failFast (view io run) (view r.1 r.2.1)
  token_eq : r.1.token = io.token
  plan : run.SamePlan r.2.1
  queued : r.2.1.queued = run.queued
  length : r.2.1.active.length ≤ run.active.length
  settled : r.2.1.Settled failFast
  describes : r.2.2.Describes failFast run r.2.1 finished

theorem ScannedActive.head {failFast finished finished' : Bool} {io io' : Io W} {run run' : Run}
    {r : Io W × Run × Scanned} (h : ScannedActive failFast io' run' finished' r)
    (hmoves : Moves failFast (view io run) (view io' run')) (htoken : io'.token = io.token)
    (hplan : run.SamePlan run') (hqueued : run'.queued = run.queued)
    (hlength : run'.active.length ≤ run.active.length)
    (hfinished : finished' = true → finished = true ∨ run'.active.length < run.active.length) :
    ScannedActive failFast io run finished r := by
  refine ⟨hmoves.trans h.moves, h.token_eq.trans htoken, hplan.trans h.plan,
    h.queued.trans hqueued, h.length.trans hlength, h.settled, ?_⟩
  have hdescribes := h.describes
  have hle := h.length
  rcases hs : r.2.2 with f | _ <;> rw [hs] at hdescribes
  · intro hf
    rcases hdescribes hf with hf | hf
    · exact (hfinished hf).imp id fun hlt => lt_of_le_of_lt hle hlt
    · exact .inr (lt_of_lt_of_le hf hlength)
  · exact hdescribes

theorem scanActive_scanned (ex : LawfulExecutor) (env : Env W) :
    ∀ (rest seen : List ActiveTask) (finished : Bool) (io : Io W) (run : Run),
      run.active = seen ++ rest → (view io run).Ready → run.Settled ex.failFast →
      ScannedActive ex.failFast io run finished (scanActive ex env seen rest finished io run)
  | [], seen, finished, io, run, _, _, hsettled =>
    ⟨.refl, rfl, .refl run, rfl, le_refl _, hsettled, fun h => .inl h⟩
  | task :: rest, seen, finished, io, run, hactive, hready, hsettled => by
    have hfresh : task.Fresh := hready.fresh task (by simp [view, hactive])
    have hadm : ∀ t ∈ seen ++ task :: rest, t.Admissible .original ex.failFast := hactive ▸ hsettled
    have hothers : ∀ t ∈ seen ++ rest, t.Admissible .original ex.failFast := by
      intro t ht
      refine hadm t ?_
      simp only [List.mem_append, List.mem_cons] at ht ⊢; tauto
    have hmoved := advanceTask_moved env .original ex.failFast io task run.results hfresh
      (hadm task (by simp))
    have hlength : run.active.length = seen.length + rest.length + 1 := by
      rw [hactive, List.length_append, List.length_cons]; omega
    rw [scanActive]
    rcases hr : advanceTask env .original ex.failFast io task run.results with
      ⟨io₁, task₁, results₁, step⟩
    rw [hr] at hmoved
    have htoken : io₁.token = io.token := hmoved.token_eq
    have hdescribes := hmoved.describes
    set run₁ : Run := { run with results := results₁, active := seen ++ task₁ :: rest } with hrun₁
    have hstep : Moves ex.failFast (view io run) (view io₁ run₁) := by
      have h : Moves ex.failFast (view io run) _ :=
        active_moves (v := view io run) hmoved.moves hactive rfl rfl rfl
      simpa [view, hrun₁, htoken] using h
    have hrest₁ : ({ run₁ with active := seen ++ rest } : Run).Settled ex.failFast := hothers
    cases step with
    | running =>
      obtain ⟨hchild, -, hunfailed⟩ := hdescribes
      dsimp only
      by_cases hservice : task₁.service = true
      · rw [if_pos hservice]
        have hpark : Moves ex.failFast (view io run) (view io₁ { run₁ with
            active := seen ++ rest, services := run.services ++ [task₁] }) :=
          hstep.tail (.park (view io₁ run₁) seen rest task₁ rfl hservice hchild)
        have hrest := scanActive_scanned ex env rest seen finished io₁
          { run₁ with active := seen ++ rest, services := run.services ++ [task₁] } rfl
          (hpark.ready hready) hothers
        refine hrest.head hpark htoken ⟨rfl, rfl, rfl⟩ rfl ?_ fun h => .inl h
        simp only [List.length_append]; omega
      · rw [if_neg hservice]
        have hsettled₁ : run₁.Settled ex.failFast := by
          intro t ht
          rcases List.mem_append.mp ht with ht | ht
          · exact hothers t (List.mem_append_left _ ht)
          · rcases List.mem_cons.mp ht with rfl | ht
            · exact ⟨hunfailed, fun _ h => absurd h hservice⟩
            · exact hothers t (List.mem_append_right _ ht)
        have hrest := scanActive_scanned ex env rest (seen ++ [task₁]) finished io₁ run₁
          (by simp [hrun₁]) (hstep.ready hready) hsettled₁
        refine hrest.head hstep htoken ⟨rfl, rfl, rfl⟩ rfl ?_ fun h => .inl h
        simp only [hrun₁, List.length_append, List.length_cons]; omega
    | finished =>
      obtain ⟨hchild, hdone⟩ := hdescribes
      have hempty : task₁.commands = [] := by
        have := advanceTask_finished env .original ex.failFast io task run.results
          ((hadm task (by simp)).unspawned rfl) (hadm task (by simp)).unfailed
        rw [hr] at this
        exact (this rfl).1
      obtain ⟨hdefer, htoken₂⟩ := deferOrRecord_moves ex.failFast env io₁ run₁ seen rest task₁ rfl
        hchild (hdone.imp id .inl) fun _ => hempty
      obtain ⟨hact, hq, hst, hl, hm⟩ := deferOrRecord_frame env io₁
        { run₁ with active := seen ++ rest } task₁
      dsimp only
      have hrest := scanActive_scanned ex env rest seen true _ _ hact
        (Moves.ready (hstep.trans hdefer) hready) (hrest₁.of_active hact)
      refine hrest.head (hstep.trans hdefer) (htoken₂.trans htoken) ⟨hst, hl, hm⟩ hq ?_
        fun _ => .inr ?_
      · rw [hact, List.length_append]; omega
      · rw [hact, List.length_append]; omega
    | failedFast =>
      obtain ⟨hchild, hfailed, hff⟩ := hdescribes
      obtain ⟨hdefer, htoken₂⟩ := deferOrRecord_moves ex.failFast env io₁ run₁ seen rest task₁ rfl
        hchild (.inr (.inr ⟨hfailed, hff⟩)) fun hnone => absurd hnone hfailed
      obtain ⟨hact, hq, hst, hl, hm⟩ := deferOrRecord_frame env io₁
        { run₁ with active := seen ++ rest } task₁
      refine ⟨hstep.trans hdefer, htoken₂.trans htoken, ⟨hst, hl, hm⟩, hq, ?_, ?_, hff,
        deferOrRecord_failing env io₁ _ task₁ hfailed⟩
      · dsimp only
        rw [hact, List.length_append]; omega
      · exact hrest₁.of_active hact

theorem beginStage_moves (failFast : Bool) (env : Env W) (io : Io W) (run : Run) (stage : Stage)
    (rest : List Stage) (hdrained : run.Drained) (hpending : run.pendingRecoveries = [])
    (htoken : io.token = false) (hstages : run.stages = stage :: rest) :
    let r := beginStage env io run stage rest
    Moves failFast (view io run) (view r.1 r.2) := by
  refine .single (.begin (view io run) stage rest _ hdrained hpending rfl htoken hstages ?_)
  cases stage with
  | serial => rfl
  | parallel => exact ⟨_, env.concurrencyLimit_pos io.world, rfl⟩

/-- How a call of `advance` ends: with nothing left to run, or with the run as it stands, and with
    pending recoveries only in an unfinished stage unless the token is set. -/
def Advanced (failFast : Bool) (v : View) : Io W × Run × Progress → Prop
  | (io, run, .returned .finished) =>
    Moves failFast v (view io run) ∧ run.Drained ∧ run.stages = [] ∧ run.pendingRecoveries = [] ∧
      (failFast = false → run.services = [])
  | (io, run, .returned .running) =>
    Moves failFast v (view io run) ∧ run.Settled failFast ∧
      (io.token = true ∨ (run.Drained → run.pendingRecoveries = []))
  | (io, _, .waiting) => ∃ v', Moves failFast v v' ∧ v'.trace = io.trace
  | (_, _, .spinning) => False

theorem Advanced.head {failFast : Bool} {v v' : View} {r : Io W × Run × Progress}
    (hr : Advanced failFast v' r) (h : Moves failFast v v') : Advanced failFast v r := by
  rcases r with ⟨io, run, (_ | _) | _ | _⟩
  · exact ⟨h.trans hr.1, hr.2⟩
  · exact ⟨h.trans hr.1, hr.2⟩
  · obtain ⟨v'', hv, htrace⟩ := hr
    exact ⟨v'', h.trans hv, htrace⟩
  · exact hr.elim

theorem endFailFast_advanced (ex : LawfulExecutor) (env : Env W) (polls : Nat) (io : Io W) (run : Run)
    (hff : ex.failFast = true) (hfailing : run.Failing) (htoken : io.token = false)
    (hready : (view io run).Ready) :
    Advanced ex.failFast (view io run) (endFailFast ex env polls io run) := by
  obtain ⟨hmoves, htok, hdrained, hstages⟩ := stopAfterFailure_moves env io run hfailing
  rw [← hff] at hmoves
  unfold endFailFast
  rcases hr : stopAfterFailure env io run with ⟨io₁, run₁⟩
  simp only [hr] at hmoves htok hdrained hstages ⊢
  by_cases hnone : run₁.pendingRecoveries = []
  · rw [if_pos hnone]
    exact ⟨hmoves, hdrained, hstages, hnone, fun h => absurd (hff.symm.trans h) (by decide)⟩
  · rw [if_neg hnone]
    have hres := resolveRecoveries_resolved ex env polls io₁ run₁ hdrained (htok.trans htoken)
      (Moves.ready hmoves hready)
    rcases hr' : resolveRecoveries ex env polls io₁ run₁ with ⟨io₂, run₂, _ | _ | _⟩ <;>
      rw [hr'] at hres
    · obtain ⟨hmoves₂, -, hqueue, hnone₂⟩ := hres
      exact ⟨hmoves.trans hmoves₂, hqueue.drained hdrained, hqueue.stages.trans hstages, hnone₂,
        fun h => absurd (hff.symm.trans h) (by decide)⟩
    · have hidle : run₂.active = [] := hres.2.2.active.trans hdrained.1
      exact ⟨hmoves.trans hres.1, fun t ht => absurd (hidle ▸ ht) List.not_mem_nil, .inl hres.2.1⟩
    · obtain ⟨v', hv', htrace⟩ := hres
      exact ⟨v', hmoves.trans hv', htrace⟩

theorem Run.work_eq_of_same {run run' : Run} (hstages : run'.stages = run.stages)
    (hqueued : run'.queued = run.queued) (hactive : run'.active = run.active) :
    run'.work = run.work := by
  simp [Run.work, hstages, hqueued, hactive]

/-- Filling the slots moves queued tasks to the active ones. -/
theorem fillAvailableSlots_work (run : Run) :
    (fillAvailableSlots run.queued run).work = run.work ∧
      (fillAvailableSlots run.queued run).stages = run.stages := by
  obtain ⟨-, hplan, -, hlength⟩ :=
    fillAvailableSlots_moves true ({ world := () } : Io Unit) run.queued run rfl
  refine ⟨?_, hplan.stages⟩
  rw [Run.work, Run.work, hplan.stages]
  omega

/-- The head of the loop keeps the amount of work, and a drained run has less of it afterwards. -/
theorem openStage_work (env : Env W) (io : Io W) (run : Run)
    (hmore : ¬(run.active = [] ∧ run.queued = [] ∧ run.stages = [])) :
    let r := openStage env io run
    r.2.work ≤ run.work ∧ (run.Drained → r.2.work < run.work) ∧
      (¬run.Drained → r.2.stages = run.stages) := by
  simp only [openStage]
  by_cases hdrained : run.active = [] ∧ run.queued = []
  · rcases hstages : run.stages with _ | ⟨stage, rest⟩
    · exact absurd ⟨hdrained.1, hdrained.2, hstages⟩ hmore
    · simp only [if_pos hdrained]
      obtain ⟨hwork, -⟩ := fillAvailableSlots_work (beginStage env io run stage rest).2
      have hless : (beginStage env io run stage rest).2.work < run.work := by
        simp only [beginStage, Run.work, hstages, hdrained.1, hdrained.2, List.flatMap_cons,
          List.length_append, List.length_cons, List.length_nil, List.nil_append]
        omega
      exact ⟨by omega, fun _ => by omega, fun h => absurd hdrained h⟩
  · obtain ⟨hwork, hsame⟩ := fillAvailableSlots_work run
    rcases hstages : run.stages with _ | ⟨stage, rest⟩
    · exact ⟨hwork.le, fun h => absurd h hdrained, fun _ => hsame.trans hstages⟩
    · simp only [if_neg hdrained]
      exact ⟨hwork.le, fun h => absurd h hdrained, fun _ => hsame.trans hstages⟩

theorem openStage_moves (failFast : Bool) (env : Env W) (io : Io W) (run : Run)
    (htoken : io.token = false) (hpending : run.Drained → run.pendingRecoveries = [])
    (hsettled : run.Settled failFast) :
    let r := openStage env io run
    Moves failFast (view io run) (view r.1 r.2) ∧ r.1.token = false ∧ r.2.Settled failFast := by
  have hfill : ∀ (io : Io W) (run : Run),
      Moves failFast (view io run) (view io (fillAvailableSlots run.queued run)) ∧
        (run.Settled failFast → (fillAvailableSlots run.queued run).Settled failFast) := by
    intro io run
    obtain ⟨hmoves, -, hkeep, -⟩ := fillAvailableSlots_moves failFast io run.queued run rfl
    exact ⟨hmoves, hkeep⟩
  simp only [openStage]
  rcases hstages : run.stages with _ | ⟨stage, rest⟩
  · obtain ⟨hmoves, hkeep⟩ := hfill io run
    exact ⟨hmoves, htoken, hkeep hsettled⟩
  · by_cases hdrained : run.active = [] ∧ run.queued = []
    · simp only [if_pos hdrained]
      have hbegin := beginStage_moves failFast env io run stage rest hdrained (hpending hdrained)
        htoken hstages
      obtain ⟨hmoves, hkeep⟩ := hfill (beginStage env io run stage rest).1
        (beginStage env io run stage rest).2
      exact ⟨hbegin.trans hmoves, htoken, hkeep hsettled⟩
    · simp only [if_neg hdrained]
      obtain ⟨hmoves, hkeep⟩ := hfill io run
      exact ⟨hmoves, htoken, hkeep hsettled⟩

/-- A stage that has drained has used up its tasks. -/
theorem Run.work_lt_of_drained {run run' : Run} (hopen : ¬run.Drained) (hdrained : run'.Drained)
    (hstages : run'.stages = run.stages) : run'.work < run.work := by
  have hpos : 0 < run.queued.length + run.active.length := by
    rcases hlen : run.queued.length + run.active.length with _ | n
    · exact absurd ⟨List.length_eq_zero_iff.mp (by omega),
        List.length_eq_zero_iff.mp (by omega)⟩ hopen
    · omega
  rw [Run.work, hstages, hdrained.1, hdrained.2, Run.work]
  simp only [List.length_nil]
  omega

theorem advanceLoop_advanced (ex : LawfulExecutor) (env : Env W) (polls : Nat) :
    ∀ (fuel : Nat) (io : Io W) (run : Run), run.work < fuel → io.token = false →
      (view io run).Ready → run.Settled ex.failFast → (run.Drained → run.pendingRecoveries = []) →
      Advanced ex.failFast (view io run) (advanceLoop ex env polls fuel io run)
  | 0, _, run, hfuel, _, _, _, _ => absurd hfuel (Nat.not_lt_zero _)
  | fuel + 1, io, run, hfuel, htoken, hready, hsettled, hpending => by
    rw [advanceLoop]
    by_cases hend : run.active = [] ∧ run.queued = [] ∧ run.stages = []
    · rw [if_pos hend]
      have hdrained : run.Drained := ⟨hend.1, hend.2.1⟩
      by_cases hservices : run.services = []
      · rw [if_pos hservices]
        exact ⟨.refl, hdrained, hend.2.2, hpending hdrained, fun _ => hservices⟩
      · rw [if_neg hservices]
        obtain ⟨hmoves, -, hsame⟩ := advanceServices_moves ex.failFast env io run
        exact ⟨hmoves, hsettled.of_active hsame.active,
          .inr fun _ => hsame.pending.trans (hpending hdrained)⟩
    · rw [if_neg hend]
      obtain ⟨hopen, htoken₁, hsettled₁⟩ :=
        openStage_moves ex.failFast env io run htoken hpending hsettled
      obtain ⟨hwork₁, hless₁, hstages₁⟩ := openStage_work env io run hend
      rcases hr₁ : openStage env io run with ⟨io₁, run₁⟩
      simp only [hr₁] at hopen htoken₁ hsettled₁ hwork₁ hless₁ hstages₁ ⊢
      have hscan := scanActive_scanned ex env run₁.active [] false io₁ run₁ rfl
        (Moves.ready hopen hready) hsettled₁
      rcases hr₂ : scanActive ex env [] run₁.active false io₁ run₁ with ⟨io₂, run₂, scanned⟩
      rw [hr₂] at hscan
      obtain ⟨hmoves₂, htoken₂, hplan₂, hqueued₂, hlength₂, hsettled₂, hdescribes₂⟩ := hscan
      dsimp only at hmoves₂ htoken₂ hplan₂ hqueued₂ hlength₂ hsettled₂ hdescribes₂
      have hmoves : Moves ex.failFast (view io run) (view io₂ run₂) := hopen.trans hmoves₂
      have hfalse : io₂.token = false := htoken₂.trans htoken₁
      have hwork₂ : run₂.work ≤ run₁.work := by
        simp only [Run.work, hplan₂.stages, hqueued₂]; omega
      cases scanned with
      | failedFast =>
        exact (endFailFast_advanced ex env polls io₂ run₂ hdescribes₂.1 hdescribes₂.2 hfalse
          (Moves.ready hmoves hready)).head hmoves
      | polled taskFinished =>
        obtain ⟨hserv, htoken₃, hsame₃⟩ := advanceServices_moves ex.failFast env io₂ run₂
        rcases hr₃ : advanceServices env io₂ run₂ with ⟨io₃, run₃⟩
        simp only [hr₃] at hserv htoken₃ hsame₃ ⊢
        have hmoves₃ : Moves ex.failFast (view io run) (view io₃ run₃) := hmoves.trans hserv
        have hwork₃ : run₃.work = run₂.work :=
          Run.work_eq_of_same hsame₃.stages hsame₃.queued hsame₃.active
        have hready₃ := Moves.ready hmoves₃ hready
        have hsettled₃ := hsettled₂.of_active hsame₃.active
        have hfalse₃ : io₃.token = false := htoken₃.trans hfalse
        -- a drained stage has used up work: it was opened here, or it had tasks before
        have hless : run₃.Drained → run₃.work < run.work := by
          intro hdrained'
          by_cases hdrained : run.Drained
          · have := hless₁ hdrained; omega
          · exact run.work_lt_of_drained hdrained hdrained'
              (hsame₃.stages.trans (hplan₂.stages.trans (hstages₁ hdrained)))
        by_cases hdrained₃ : run₃.active = [] ∧ run₃.queued = []
        · rw [if_pos hdrained₃]
          by_cases hsome : run₃.pendingRecoveries ≠ []
          · rw [if_pos hsome]
            have hres := resolveRecoveries_resolved ex env polls io₃ run₃ hdrained₃ hfalse₃ hready₃
            rcases hr₄ : resolveRecoveries ex env polls io₃ run₃ with ⟨io₄, run₄, _ | _ | _⟩ <;>
              rw [hr₄] at hres
            · obtain ⟨hmoves₄, htoken₄, hqueue₄, hnone₄⟩ := hres
              have hwork₄ : run₄.work = run₃.work :=
                Run.work_eq_of_same hqueue₄.stages hqueue₄.queued hqueue₄.active
              have hlt := hless hdrained₃
              have hsettled₄ := hsettled₃.of_active hqueue₄.active
              exact (advanceLoop_advanced ex env polls fuel io₄ run₄ (by omega) htoken₄
                (Moves.ready hmoves₄ hready₃) hsettled₄ fun _ => hnone₄).head
                (hmoves₃.trans hmoves₄)
            · exact ⟨hmoves₃.trans hres.1, hsettled₃.of_active hres.2.2.active, .inl hres.2.1⟩
            · obtain ⟨v', hv', htrace⟩ := hres
              exact ⟨v', hmoves₃.trans hv', htrace⟩
          · rw [if_neg hsome]
            have hnone : run₃.pendingRecoveries = [] := not_not.mp hsome
            by_cases hservices : run₃.services = []
            · rw [if_pos hservices]
              have hlt := hless hdrained₃
              exact (advanceLoop_advanced ex env polls fuel io₃ run₃ (by omega) hfalse₃ hready₃
                hsettled₃ fun _ => hnone).head hmoves₃
            · rw [if_neg hservices]
              exact ⟨hmoves₃, hsettled₃, .inr fun _ => hnone⟩
        · rw [if_neg hdrained₃]
          by_cases hagain : taskFinished = true ∧ run₃.active.length < run₃.stageLimit ∧
              run₃.queued ≠ []
          · rw [if_pos hagain]
            have hlt : run₂.work < run₁.work := by
              rcases hdescribes₂ hagain.1 with h | h
              · cases h
              · simp only [Run.work, hplan₂.stages, hqueued₂]; omega
            exact (advanceLoop_advanced ex env polls fuel io₃ run₃ (by omega) hfalse₃ hready₃
              hsettled₃ fun h => absurd h hdrained₃).head hmoves₃
          · rw [if_neg hagain]
            exact ⟨hmoves₃, hsettled₃, .inr fun h => absurd h hdrained₃⟩

/-- A call of `advance` is a sequence of moves, and its loop always ends. -/
theorem advance_advanced (ex : LawfulExecutor) (env : Env W) (polls : Nat) (io : Io W) (run : Run)
    (hready : (view io run).Ready) (hsettled : run.Settled ex.failFast)
    (hpending : io.token = true ∨ (run.Drained → run.pendingRecoveries = [])) :
    Advanced ex.failFast (view io run) (advance ex env polls io run) := by
  obtain ⟨htrace, htok, hmono⟩ := cancellationRequested_eq env io
  unfold advance
  rcases hc : io.cancellationRequested env with ⟨_ | _, io₁⟩ <;>
    simp only [hc] at htrace htok hmono ⊢
  · have hread : Moves ex.failFast (view io run) (view io₁ run) :=
      token_moves rfl rfl htrace fun h => htok.trans (hmono h)
    have hidle : run.Drained → run.pendingRecoveries = [] :=
      hpending.resolve_left fun h => absurd (hmono h) (by decide)
    exact (advanceLoop_advanced ex env polls _ io₁ run (Nat.lt_succ_self _) htok
      (Moves.ready hread hready) hsettled hidle).head hread
  · exact ⟨token_moves rfl rfl htrace fun _ => htok, hsettled, .inl htok⟩

end Funzzy
