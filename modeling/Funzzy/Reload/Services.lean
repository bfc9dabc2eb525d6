import Funzzy.Lib.Rollout
import Funzzy.Reload.Revision
import Funzzy.Reload.Commit
import Funzzy.Worker.Loop
import Funzzy.Executor.Alive
import Funzzy.Executor.Barrier

/-! Services over a reload (`reload_coordinator.rs`, `config_revision.rs`, `workers.rs`, `executor.rs`).

    After a commit the coordinator sends the worker two commands: one with the names of the services to
    stop, which is answered with the names that still run, and one with the plan of the services to start.
    Between the two the worker goes on, so they are taken in two states of it. A job of a service stands in
    the run in any of its roles; only those in the background are looked at when services are stopped. -/

namespace Funzzy

open CanonicalEncoder

variable {W : Type}

/-! ### Signatures -/

/-- The bytes `service_signature` feeds to the digest. -/
def Rules.serviceBytes (rule : Rules) : List UInt8 :=
  u64 2 ++ (bool true ++ (string rule.name ++ (bool rule.service ++ (string (outputPolicyTag rule.output)
    ++ (optionalString rule.cwd ++ (strings (sorted rule.displayed)
    ++ strings (sorted (rule.environment.map (·.1)))))))))

/-- Rules that are the same service to a reload: the order of the commands, the values of the
    environment, patterns, groups and recoveries are not looked at. -/
structure Rules.SameService (rule other : Rules) : Prop where
  name : rule.name = other.name
  service : rule.service = other.service
  output : rule.output = other.output
  cwd : rule.cwd = other.cwd
  displayed : rule.displayed.Perm other.displayed
  environmentKeys : (rule.environment.map (·.1)).Perm (other.environment.map (·.1))

theorem Rules.serviceBytes_eq_iff {rule other : Rules} (hrule : rule.InMemory)
    (hother : other.InMemory) : rule.serviceBytes = other.serviceBytes ↔ rule.SameService other := by
  constructor
  · intro h
    have h := List.append_cancel_left (List.append_cancel_left h)
    obtain ⟨hname, h⟩ := string_delimits _ _ _ _ hrule.name hother.name h
    obtain ⟨hservice, h⟩ := bool_delimits _ _ _ _ trivial trivial h
    obtain ⟨houtput, h⟩ := string_delimits _ _ _ _ (outputPolicyTag_fits _) (outputPolicyTag_fits _) h
    obtain ⟨hcwd, h⟩ := optionalString_delimits _ _ _ _ hrule.cwd hother.cwd h
    obtain ⟨hdisplayed, h⟩ :=
      strings_delimits _ _ _ _ hrule.displayed.sorted hother.displayed.sorted h
    obtain ⟨hkeys, -⟩ := strings_delimits _ _ [] [] hrule.environment.sorted hother.environment.sorted
      (by simpa using h)
    exact ⟨hname, hservice, outputPolicyTag_injective houtput, hcwd, sorted_eq_iff.mp hdisplayed,
      sorted_eq_iff.mp hkeys⟩
  · intro h
    simp only [Rules.serviceBytes, h.name, h.service, h.output, h.cwd, sorted_eq_iff.mpr h.displayed,
      sorted_eq_iff.mpr h.environmentKeys]

section Coordinator

variable (digest : List UInt8 → String)

def serviceSignature (rule : Rules) : String := digest rule.serviceBytes

/-- `RuntimeConfig::services` of the configuration: a name and a signature for each service. -/
def Watches.services (w : Watches) : List (String × String) :=
  (w.rules.filter (·.service)).map fun rule => (rule.name, serviceSignature digest rule)

/-- The names `reconcile_services` of the coordinator stops. They come in the order of a hash map; the
    worker asks only which names are among them. -/
def stopNames (old new : Watches) : List String :=
  Rollout.obsolete (old.services digest) (new.services digest)

/-- The plan it sends then, if the worker has answered with the names that still run. -/
def startPlan (old new : Watches) (stillRunning : Option (List String)) : Option RunPlan :=
  stillRunning.bind fun names =>
    let toStart := Rollout.missing (old.services digest) (new.services digest) names
    if toStart = [] then none else some (new.servicePlan toStart)

end Coordinator

/-! ### Jobs of services -/

def Entity.name : Entity → String
  | .planned task | .queued task => task.name
  | .active task | .service task | .pending task => task.name
  | .recovering job => job.task.name

def Entity.isService : Entity → Bool
  | .planned task | .queued task => task.service
  | .active task | .pending task => task.service
  | .service _ => true
  | .recovering job => job.task.service

/-- The job is in the pool of background services. -/
def Entity.background : Entity → Bool
  | .service _ => true
  | _ => false

/-- What stopping the job leaves in the trace. -/
def Entity.killEffects : Entity → List Effect
  | .service task => task.killEffects
  | _ => []

/-- The name and the signature of a job. A planned task has its rule; of a task that has been started the
    executor has forgotten it, so `origin` says which rule it was planned from. -/
def Entity.definition (digest : List UInt8 → String) (origin : ActiveTask → Rules) (e : Entity) :
    String × String :=
  (e.name, serviceSignature digest <| match e with
    | .planned task | .queued task => task.rule
    | .active task | .service task | .pending task => origin task
    | .recovering job => origin job.task)

def Run.serviceJobs (run : Run) : List Entity :=
  ({ run, token := false, trace := [] } : View).entities.filter Entity.isService

def State.serviceJobs (s : State W) : List Entity := (s.active.map Run.serviceJobs).getD []

/-- The jobs of a run are its background services, and jobs on either side that are not. -/
theorem Run.serviceJobs_eq (run : Run) : ∃ ahead behind : List Entity,
    (∀ e ∈ ahead, e.background = false) ∧ (∀ e ∈ behind, e.background = false) ∧
      ∀ services outcomes, ({ run with services, outcomes } : Run).serviceJobs
        = ahead ++ services.map .service ++ behind := by
  refine ⟨((run.stages.flatMap stageTasks).map Entity.planned ++ run.queued.map Entity.queued
      ++ run.active.map Entity.active).filter Entity.isService,
    (run.pendingRecoveries.map Entity.pending).filter Entity.isService, ?_, ?_, fun services outcomes => ?_⟩
  · intro e he
    simp only [List.mem_filter, List.mem_append, List.mem_map] at he
    rcases he with ⟨(⟨_, -, rfl⟩ | ⟨_, -, rfl⟩) | ⟨_, -, rfl⟩, -⟩ <;> rfl
  · intro e he
    obtain ⟨_, -, rfl⟩ := List.mem_map.mp (List.mem_filter.mp he).1
    rfl
  · have hall : (services.map Entity.service).filter Entity.isService = services.map .service :=
      List.filter_eq_self.mpr fun e he => by
        obtain ⟨_, -, rfl⟩ := List.mem_map.mp he
        rfl
    simp only [Run.serviceJobs, View.entities, List.filter_append, hall, Option.map_none,
      Option.toList_none, List.append_nil]

/-- Stopping by name takes the named jobs out of the background, and no job from anywhere else. -/
theorem reconcileServices_serviceJobs (env : Env W) (io : Io W) (run : Run) (names : List String) :
    let r := reconcileServices env io run names
    let stops (e : Entity) := e.background && names.contains e.name
    r.2.1.serviceJobs = run.serviceJobs.filter (fun e => !stops e) ∧
      r.1.trace = io.trace ++ (run.serviceJobs.filter stops).flatMap Entity.killEffects ∧
      r.2.2 = ((run.serviceJobs.filter fun e => !stops e).filter Entity.background).map Entity.name := by
  intro r stops
  obtain ⟨htrace, -, hrun⟩ := reconcileFrom_eq env names run.services [] io run rfl
  obtain ⟨ahead, behind, hahead, hbehind, hjobs⟩ := run.serviceJobs_eq
  have hall := hjobs run.services run.outcomes
  have hnone : ∀ l : List Entity, (∀ e ∈ l, e.background = false) →
      l.filter stops = [] ∧ l.filter (fun e => !stops e) = l ∧ l.filter Entity.background = [] := by
    intro l hl
    refine ⟨List.filter_eq_nil_iff.mpr fun e he => by simp [stops, hl e he],
      List.filter_eq_self.mpr fun e he => by simp [stops, hl e he],
      List.filter_eq_nil_iff.mpr fun e he => by simp [hl e he]⟩
  have hstopped : (run.services.map Entity.service).filter stops
      = (run.services.filter fun t => names.contains t.name).map .service := by
    rw [List.filter_map]
    rfl
  have hkept : (run.services.map Entity.service).filter (fun e => !stops e)
      = (run.services.filter fun t => !names.contains t.name).map .service := by
    rw [List.filter_map]
    rfl
  have hpool : ∀ l : List ActiveTask, (l.map Entity.service).filter Entity.background
      = l.map Entity.service :=
    fun l => List.filter_eq_self.mpr fun e he => by
      obtain ⟨_, -, rfl⟩ := List.mem_map.mp he
      rfl
  obtain ⟨hstopsAhead, hstaysAhead, hnoneAhead⟩ := hnone ahead hahead
  obtain ⟨hstopsBehind, hstaysBehind, hnoneBehind⟩ := hnone behind hbehind
  rw [show run.serviceJobs = ahead ++ run.services.map .service ++ behind from hall]
  simp only [List.filter_append, hstopsAhead, hstopsBehind, hstaysAhead, hstaysBehind, hnoneAhead,
    hnoneBehind, hstopped, hkept, hpool, List.nil_append, List.append_nil]
  refine ⟨?_, ?_, ?_⟩
  · simp only [r, reconcileServices, hrun, List.nil_append]
    exact hjobs _ _
  · simp only [r, reconcileServices, htrace, List.flatMap_map]
    rfl
  · simp only [r, reconcileServices, hrun, List.nil_append, List.map_map]
    rfl

/-- An appended plan adds its services as planned jobs. -/
theorem appendPlan_serviceJobs (run : Run) (plan : RunPlan) : (appendPlan run plan).serviceJobs.Perm
    (run.serviceJobs ++ (plan.tasks.filter (·.service)).map .planned) := by
  have hplanned : (plan.tasks.map Entity.planned).filter Entity.isService
      = (plan.tasks.filter (·.service)).map .planned := by
    rw [List.filter_map]
    rfl
  rw [← hplanned]
  simp only [Run.serviceJobs, View.entities, appendPlan, List.flatMap_append, List.map_append,
    List.filter_append, RunPlan.tasks]
  exact List.perm_iff_count.mpr fun e => by simp only [List.count_append]; omega

/-! ### Taking a command -/

/-- The consumer takes a command from the stream: without a run, after a step that left its run running,
    or in the burst drain. -/
def State.take (env : Env W) (s : State W) (m : Message) : Option (State W) :=
  match s.pc, s.active with
  | .top, none => some (s.handleIdle env m)
  | .stepped, some run => some (s.handleBusy env run m)
  | .draining, _ => some (s.handleDrain m)
  | _, _ => none

/-- The places of the consumer's loop at which it takes a command are these. -/
theorem State.consume_take (ex : LawfulExecutor) (env : Env W) (polls : Nat) {s s' : State W} {m : Message}
    {rest : List Message} (hqueue : s.queue = m :: rest) (hpending : s.pc = .top → s.pending = none)
    (h : State.take env { s with queue := rest } m = some s') : s.consume ex env polls = some s' := by
  obtain ⟨nextRunId, calls, senders, queue, closed, registry, cancelled, active, pending, pc, io, log⟩ := s
  simp only at hqueue hpending
  subst hqueue
  cases pc with
  | top =>
    obtain rfl := hpending rfl
    cases active with
    | none => exact h
    | some run => cases h
  | stepped =>
    cases active with
    | none => cases h
    | some run => exact h
  | draining => exact h
  | _ => cases h

/-- The consumer has a run, and takes the command into it. -/
def State.busy (s : State W) : Bool :=
  match s.pc, s.active with
  | .stepped, some _ => true
  | _, _ => false

/-- The consumer drains a burst: it takes the command and forgets it. -/
def State.drains (s : State W) : Bool :=
  match s.pc with
  | .draining => true
  | _ => false

/-- The names that a step gives as its answer to a call. -/
def State.answer (s s' : State W) (ticket : Nat) : Option (List String) :=
  (s'.log.drop s.log.length).findSome? fun
    | .replied call (.services names) => if call = ticket then some names else none
    | _ => none

theorem State.answer_reply {s s' : State W} {ticket : Nat} {names : List String}
    (h : s'.log = s.log ++ [.replied ticket (.services names)]) :
    s.answer s' ticket = some names := by
  simp [State.answer, h]

section Reloads

variable {digest : List UInt8 → String} {old new : Watches} {s s' : State W}

/-- What is left of the jobs of services when the names were taken. -/
abbrev State.left (digest : List UInt8 → String) (origin : ActiveTask → Rules) (old new : Watches)
    (s : State W) : List Entity :=
  Rollout.remaining (Entity.definition digest origin) Entity.background s.busy (old.services digest)
    (new.services digest) s.serviceJobs

/-- The names to stop, taken by the consumer: with a run the named background services are stopped and
    the others answered, without one there is nothing to stop, and a drain forgets the command. -/
theorem State.take_reconcile (origin : ActiveTask → Rules) {env : Env W} {ticket : Nat}
    (h : s.take env ⟨.reconcileServices (stopNames digest old new) ticket, none⟩ = some s') :
    s'.serviceJobs = s.left digest origin old new ∧
      s'.io.trace = s.io.trace ++ (s.serviceJobs.filter fun e => s.busy && e.background
        && (stopNames digest old new).contains e.name).flatMap Entity.killEffects ∧
      s.answer s' ticket = if s.drains then none else
        some (Rollout.running (Entity.definition digest origin) Entity.background (old.services digest)
          (new.services digest) s.serviceJobs) := by
  obtain ⟨nextRunId, calls, senders, queue, closed, registry, cancelled, active, pending, pc, io, log⟩ := s
  cases pc with
  | top =>
    cases active with
    | none =>
      cases h
      refine ⟨rfl, (List.append_nil _).symm, ?_⟩
      exact State.answer_reply rfl
    | some run => cases h
  | stepped =>
    cases active with
    | none => cases h
    | some run =>
      have hjobs := reconcileServices_serviceJobs env io run (stopNames digest old new)
      simp only [State.take, State.handleBusy] at h
      rcases hr : reconcileServices env io run (stopNames digest old new) with ⟨io', run', still⟩
      rw [hr] at h hjobs
      obtain ⟨hleft, htrace, hstill⟩ := hjobs
      cases h
      subst hstill
      exact ⟨hleft, htrace, State.answer_reply rfl⟩
  | draining =>
    cases h
    refine ⟨?_, ?_, ?_⟩
    · exact (List.filter_eq_self.mpr fun e _ => rfl).symm
    · rw [List.filter_eq_nil_iff.mpr fun e _ => by simp [State.busy]]
      exact (List.append_nil _).symm
    · simp [State.answer, State.handleDrain, State.drains]
  | _ => cases h

/-- A plan to start, taken by the consumer: its services are planned in the run or in a run of their own,
    and a drain forgets it. -/
theorem State.take_start {env : Env W} {runId : Nat} {plan : RunPlan}
    {revision : Option ConfigRevision}
    (h : s.take env ⟨.startServices runId plan revision, none⟩ = some s') :
    s'.serviceJobs.Perm (s.serviceJobs ++
      (if s.drains then [] else plan.tasks.filter (·.service)).map .planned) := by
  obtain ⟨nextRunId, calls, senders, queue, closed, registry, cancelled, active, pending, pc, io, log⟩ := s
  cases pc with
  | top =>
    cases active with
    | none =>
      cases h
      exact appendPlan_serviceJobs
        { stages := [], metadata := servicesMetadata runId revision, started := env.now io.world } plan
    | some run => cases h
  | stepped =>
    cases active with
    | none => cases h
    | some run =>
      cases h
      exact appendPlan_serviceJobs run plan
  | draining =>
    cases h
    exact .of_eq (List.append_nil _).symm
  | _ => cases h

/-! ### A reload -/

/-- The two commands of a reload: the first is taken in `s₁`, and its answer makes the plan of the
    second, which is taken in `s₂` if there is something to start. `inTime` says that the answer came within
    the bound the coordinator waits. -/
structure ServiceReload (env : Env W) (digest : List UInt8 → String) (old new : Watches) (inTime : Bool)
    (ticket : Nat) (s₁ s₁' s₂ s₂' : State W) : Prop where
  stops : s₁.take env ⟨.reconcileServices (stopNames digest old new) ticket, none⟩ = some s₁'
  starts : match startPlan digest old new (if inTime then s₁.answer s₁' ticket else none) with
    | some plan => ∃ runId revision, s₂.take env ⟨.startServices runId plan revision, none⟩ = some s₂'
    | none => s₂' = s₂

/-- The reload leaves exactly the services of the new configuration: of the jobs those with one of its
    definitions, untouched, and of the definitions that the old one did not have one job each, newly
    planned. What is stopped is killed. -/
structure ServicesReplaced (digest : List UInt8 → String) (origin : ActiveTask → Rules)
    (old new : Watches) (s₁ s₁' s₂ s₂' : State W) : Prop where
  stopped : s₁'.serviceJobs
    = s₁.serviceJobs.filter fun e => e.definition digest origin ∈ new.services digest
  killed : s₁'.io.trace = s₁.io.trace ++ (s₁.serviceJobs.filter fun e =>
    e.definition digest origin ∉ new.services digest).flatMap Entity.killEffects
  started : ∃ added : List TaskPlan, s₂'.serviceJobs.Perm (s₂.serviceJobs ++ added.map .planned) ∧
    (∀ u ∈ added, (Entity.planned u).definition digest origin ∈ new.services digest) ∧
    ∀ d ∈ new.services digest, (added.map fun u => (Entity.planned u).definition digest origin).count d
      = if d ∈ old.services digest then 0 else (new.services digest).count d

/-- The condition under which it does. -/
abbrev State.Reloads (digest : List UInt8 → String) (origin : ActiveTask → Rules) (old new : Watches)
    (inTime : Bool) (s₁ s₂ : State W) : Prop :=
  Rollout.Exact (Entity.definition digest origin) Entity.background s₁.busy
    (inTime && !s₁.drains && !s₂.drains) (old.services digest) (new.services digest) s₁.serviceJobs

/-- The tasks of the plan to start are those of the named services, with their definitions. -/
theorem servicePlan_definitions (digest : List UInt8 → String) (origin : ActiveTask → Rules)
    (new : Watches) (names : List String) :
    (new.servicePlan names).tasks.filter (·.service) = (new.servicePlan names).tasks ∧
      (new.servicePlan names).tasks.map (fun u => (Entity.planned u).definition digest origin)
        = (new.services digest).filter fun d => names.contains d.1 := by
  constructor
  · refine List.filter_eq_self.mpr fun u hu => ?_
    have hservice : u.service ∈ (new.servicePlan names).tasks.map (·.service) := List.mem_map_of_mem hu
    rw [Watches.servicePlan, RunPlan.fromRules_map (fun _ _ => rfl)] at hservice
    obtain ⟨⟨rule, position⟩, hrule, hsame⟩ := List.mem_map.mp hservice
    have hmem := (List.mem_filter.mp (List.fst_mem_of_mem_zipIdx hrule)).2
    simp only [Bool.and_eq_true] at hmem
    rw [← hsame]
    exact hmem.1
  · rw [Watches.servicePlan, RunPlan.fromRules_map (fun _ _ => rfl)]
    have hrules : ∀ rules : List Rules, (rules.zipIdx.map fun entry =>
        (Entity.planned (TaskPlan.ofRule entry.2 entry.1)).definition digest origin)
        = rules.map fun rule => (rule.name, serviceSignature digest rule) := fun rules => by
      calc _ = (rules.zipIdx.map Prod.fst).map fun rule => (rule.name, serviceSignature digest rule) := by
            rw [List.map_map]
            rfl
        _ = _ := by rw [List.zipIdx_map_fst]
    refine (hrules _).trans ?_
    rw [Watches.services, List.filter_map, List.filter_filter]
    congr 1
    exact List.filter_congr fun rule _ => by simp [Bool.and_comm]

/-- The jobs that a reload plans, with their definitions. -/
theorem ServiceReload.planned {env : Env W} {inTime : Bool} {ticket : Nat} {s₁ s₁' s₂ s₂' : State W}
    (origin : ActiveTask → Rules) (h : ServiceReload env digest old new inTime ticket s₁ s₁' s₂ s₂') :
    ∃ added : List TaskPlan, s₂'.serviceJobs.Perm (s₂.serviceJobs ++ added.map .planned) ∧
      added.map (fun u => (Entity.planned u).definition digest origin)
        = Rollout.started (inTime && !s₁.drains && !s₂.drains)
            (Rollout.missing (old.services digest) (new.services digest)
              (Rollout.running (Entity.definition digest origin) Entity.background
                (old.services digest) (new.services digest) s₁.serviceJobs)) (new.services digest) := by
  obtain ⟨-, -, hanswer⟩ := State.take_reconcile origin h.stops
  have hstarts := h.starts
  rw [hanswer] at hstarts
  by_cases hreached : inTime = true ∧ s₁.drains = false
  · obtain ⟨rfl, hdrains⟩ := hreached
    simp only [hdrains, if_true, Bool.false_eq_true, if_false, startPlan, Option.bind_some] at hstarts
    simp only [hdrains, Bool.not_false, Bool.true_and]
    split at hstarts
    · rename_i plan hplan
      obtain ⟨runId, revision, htake⟩ := hstarts
      refine ⟨_, State.take_start htake, ?_⟩
      split at hplan
      · cases hplan
      · obtain ⟨hservices, hdefinitions⟩ := servicePlan_definitions digest origin new
          (Rollout.missing (old.services digest) (new.services digest)
            (Rollout.running (Entity.definition digest origin) Entity.background (old.services digest)
              (new.services digest) s₁.serviceJobs))
        cases hplan
        rcases hdrain : s₂.drains with _ | _
        · simp only [Bool.false_eq_true, if_false, hservices, hdefinitions, Rollout.started, Bool.not_false,
            Bool.true_and]
        · exact (Rollout.started_eq_nil (.inl rfl)).symm
    · rename_i hplan
      split at hplan
      · rename_i hnone
        refine ⟨[], by rw [hstarts, List.map_nil, List.append_nil], ?_⟩
        exact (Rollout.started_eq_nil (.inr hnone)).symm
      · cases hplan
  · have hnone : (if inTime = true then if s₁.drains = true then none else some
        (Rollout.running (Entity.definition digest origin) Entity.background (old.services digest)
          (new.services digest) s₁.serviceJobs) else none) = none := by
      cases inTime <;> cases hdrain : s₁.drains <;> simp_all
    rw [hnone] at hstarts
    refine ⟨[], by rw [show s₂' = s₂ from hstarts, List.map_nil, List.append_nil], ?_⟩
    refine (Rollout.started_eq_nil (.inl ?_)).symm
    cases inTime <;> cases hdrain : s₁.drains <;> simp_all

/-- A reload leaves exactly the services of the new configuration if and only if the worker answers in time
    and drops neither command, every job of a removed or changed service is in the background, and names
    are not mixed up. The services are those of the run in the worker's hands: a run that is pending or
    queued has started nothing yet, and its services are not counted. -/
theorem ServiceReload.replaced_iff {env : Env W} {digest : List UInt8 → String} {old new : Watches}
    {inTime : Bool} {ticket : Nat} {s₁ s₁' s₂ s₂' : State W}
    (h : ServiceReload env digest old new inTime ticket s₁ s₁' s₂ s₂') (origin : ActiveTask → Rules) :
    ServicesReplaced digest origin old new s₁ s₁' s₂ s₂' ↔ s₁.Reloads digest origin old new inTime s₂ := by
  obtain ⟨hleft, htrace, -⟩ := State.take_reconcile origin h.stops
  obtain ⟨added, hperm, hadded⟩ := h.planned origin
  rw [State.Reloads, ← Rollout.exact_iff]
  constructor
  · rintro ⟨hstopped, -, added', hperm', -, hcount⟩
    refine ⟨hleft.symm.trans hstopped, fun d hd => ?_⟩
    have hsame : (added.map Entity.planned).Perm (added'.map Entity.planned) :=
      (List.perm_append_left_iff _).mp (hperm.symm.trans hperm')
    have hdefinitions := (hsame.map (Entity.definition digest origin)).count_eq d
    simp only [List.map_map, Function.comp_def] at hdefinitions
    rw [← hadded, hdefinitions, hcount d hd]
  · rintro ⟨hremaining, hcount⟩
    refine ⟨hleft.trans hremaining, ?_, added, hperm, fun u hu => ?_, fun d hd => ?_⟩
    · have hstale := Rollout.remaining_eq_iff.mp hremaining
      rw [htrace]
      congr 2
      refine List.filter_congr fun e he => ?_
      rw [Bool.eq_iff_iff, decide_eq_true_eq, hstale e he, ← Rollout.mem_obsolete]
      simp [stopNames, Entity.definition, and_assoc]
    · have hmem : (Entity.planned u).definition digest origin
          ∈ added.map fun u => (Entity.planned u).definition digest origin := List.mem_map_of_mem hu
      rw [hadded] at hmem
      exact (List.mem_filter.mp hmem).1
    · rw [hadded]
      exact hcount d hd

/-- With unique names, and for jobs of the old configuration, what counts is that no job of a removed or
    changed service is outside the background. -/
theorem State.reloads_of_unique {digest : List UInt8 → String} {origin : ActiveTask → Rules}
    {old new : Watches} {s₁ s₂ : State W} (hbusy : s₁.busy = true) (hdrains : s₂.drains = false)
    (hold : ((old.services digest).map Prod.fst).Nodup) (hnew : ((new.services digest).map Prod.fst).Nodup)
    (hjobs : ∀ e ∈ s₁.serviceJobs, e.definition digest origin ∈ old.services digest) :
    s₁.Reloads digest origin old new true s₂ ↔
      ∀ e ∈ s₁.serviceJobs, e.definition digest origin ∉ new.services digest → e.background = true := by
  have hidle : s₁.drains = false := by
    obtain ⟨nextRunId, calls, senders, queue, closed, registry, cancelled, active, pending, pc, io, log⟩ := s₁
    cases pc with
    | stepped => rfl
    | _ => cases hbusy
  rw [State.Reloads, hbusy, hidle, hdrains]
  exact Rollout.exact_of_unique hold hnew hjobs

end Reloads

/-! ### A server behind a build -/

/-- A build, and a server after it. -/
def serverConfig (command : String) : Watches :=
  .withRootAndConcurrency [{ name := "build", commands := ["make"] },
    { name := "server", commands := [command], service := true }] "/w" 1 isAbsolute_w Nat.one_pos

/-- Builds succeed as soon as they are looked at, and servers go on. -/
def quickBuild : Env Unit :=
  steadyEnv fun task => if task.name = "build" then some ⟨some 0, "exit status: 0"⟩ else none

/-- A worker that has started the run of a configuration and spawned the first task. -/
def startedWorker (w : Watches) : Option (State Unit) :=
  Machine.after (State.step {} quickBuild) (State.initial ())
    [.call (.schedule { runId := 0, plan := .fromRules w.rules }), .prepare 0 true, .signal 0,
      .enqueue 0, .consume 0, .consume 0, .consume 0, .consume 0]

/-- A server that is changed while it runs in the background is replaced. -/
theorem ServiceReload.replaced_at_server :
    let old := serverConfig "serve"
    let new := serverConfig "serve --port 4000"
    ∃ s₀ s₁ s₁' s₂ s₂' s₃ : State Unit, startedWorker old = some s₀ ∧
      Machine.after (State.step {} quickBuild) s₀ [.consume 0, .consume 0, .consume 0] = some s₁ ∧
      Machine.after (State.step {} quickBuild) s₁' [.consume 0, .consume 0, .consume 0] = some s₂ ∧
      Machine.after (State.step {} quickBuild) s₂' [.consume 0, .consume 0, .consume 0] = some s₃ ∧
      spawnedCommands s₃.io.trace = [.shell "make", .shell "serve", .shell "serve --port 4000"] ∧
      (alive s₃.io.trace).map (·.name) = ["server"] ∧
      ServicesReplaced asText (fun _ => { name := "server", commands := ["serve"], service := true })
        old new s₁ s₁' s₂ s₂' := by
  intro old new
  let s₀ := (startedWorker old).get (by decide +kernel)
  let s₁ := (Machine.after (State.step {} quickBuild) s₀ [.consume 0, .consume 0, .consume 0]).get
    (by decide +kernel)
  let s₁' := (s₁.take quickBuild ⟨.reconcileServices (stopNames asText old new) 0, none⟩).get
    (by decide +kernel)
  let s₂ := (Machine.after (State.step {} quickBuild) s₁' [.consume 0, .consume 0, .consume 0]).get
    (by decide +kernel)
  let plan := new.servicePlan ["server"]
  let s₂' := (s₂.take quickBuild ⟨.startServices 2 plan none, none⟩).get (by decide +kernel)
  let s₃ := (Machine.after (State.step {} quickBuild) s₂' [.consume 0, .consume 0, .consume 0]).get
    (by decide +kernel)
  have hplan : startPlan asText old new (s₁.answer s₁' 0) = some plan := by decide +kernel
  have hreload : ServiceReload quickBuild asText old new true 0 s₁ s₁' s₂ s₂' := by
    refine ⟨(Option.some_get _).symm, ?_⟩
    rw [if_pos rfl, hplan]
    exact ⟨2, none, (Option.some_get _).symm⟩
  refine ⟨s₀, s₁, s₁', s₂, s₂', s₃, (Option.some_get _).symm, (Option.some_get _).symm,
    (Option.some_get _).symm, (Option.some_get _).symm, by decide +kernel, by decide +kernel, ?_⟩
  exact (hreload.replaced_iff _).mpr ((State.reloads_of_unique (by decide +kernel) (by decide +kernel)
    (by decide +kernel) (by decide +kernel) (by decide +kernel)).mpr (by decide +kernel))

/-- A server that is changed while it waits behind the build is not stopped: it is started after the
    reload, and so is the one of the new configuration. -/
theorem ServiceReload.queued_server_starts :
    let old := serverConfig "serve"
    let new := serverConfig "serve --port 4000"
    ∃ s₁ s₁' s₂ s₂' s₃ : State Unit, startedWorker old = some s₁ ∧
      Machine.after (State.step {} quickBuild) s₁' [.consume 0, .consume 0] = some s₂ ∧
      Machine.after (State.step {} quickBuild) s₂' [.consume 0, .consume 0] = some s₃ ∧
      ServiceReload quickBuild asText old new true 0 s₁ s₁' s₂ s₂' ∧
      spawnedCommands s₃.io.trace = [.shell "make", .shell "serve", .shell "serve --port 4000"] ∧
      (alive s₃.io.trace).map (·.name) = ["server", "server"] ∧
      ¬ServicesReplaced asText (fun _ => { name := "server", commands := ["serve"], service := true })
        old new s₁ s₁' s₂ s₂' := by
  intro old new
  let s₁ := (startedWorker old).get (by decide +kernel)
  let s₁' := (s₁.take quickBuild ⟨.reconcileServices (stopNames asText old new) 0, none⟩).get
    (by decide +kernel)
  let s₂ := (Machine.after (State.step {} quickBuild) s₁' [.consume 0, .consume 0]).get
    (by decide +kernel)
  let plan := new.servicePlan ["server"]
  let s₂' := (s₂.take quickBuild ⟨.startServices 2 plan none, none⟩).get (by decide +kernel)
  let s₃ := (Machine.after (State.step {} quickBuild) s₂' [.consume 0, .consume 0]).get
    (by decide +kernel)
  have hplan : startPlan asText old new (s₁.answer s₁' 0) = some plan := by decide +kernel
  refine ⟨s₁, s₁', s₂, s₂', s₃, (Option.some_get _).symm, (Option.some_get _).symm,
    (Option.some_get _).symm, ⟨(Option.some_get _).symm, ?_⟩, by decide +kernel, by decide +kernel,
    fun h => ?_⟩
  · rw [if_pos rfl, hplan]
    exact ⟨2, none, (Option.some_get _).symm⟩
  · have hlength := congrArg List.length h.stopped
    exact absurd hlength (by decide +kernel)

end Funzzy
