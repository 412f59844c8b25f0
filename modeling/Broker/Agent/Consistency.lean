import Broker.Agent.EventLog

/-!
# Broker.Agent.Consistency — the outcome of a run against the status of its queue row

A terminal event sets `agent_runs.outcome` and moves the queue row to a terminal status in one
transaction, and a quota wait is refused on a closed run.  `requeue_run` is neither fenced nor guarded
on the outcome: a sweep or a cancel that closes the run between the worker's read and its requeue
leaves a run with an outcome whose queue row is `pending` again (`closed_run_requeued`).  As long as
no requeue commits on a closed run the two columns agree in every reachable state
(`consistent_of_requeue_open`).
-/

namespace Broker.Agent

open Broker.Lib Broker.Db

variable {env : Env} {cfg : ExecConfig}

/-- The outcome is set exactly when the queue row is terminal. -/
def Consistent (db : RunDb) : Prop := db.run.outcome.isSome = true ↔ db.job.status.terminal = true

/-- The commit of a `requeue_run`. -/
def Act.isRequeue : Act → Bool
  | .actor _ (.requeue _) => true
  | _ => false

/-- A requeue is committed only while the run has no outcome. -/
def RequeueOpen (s : RunSys) (a : Act) : Prop := a.isRequeue = true → s.db.run.outcome = none

instance (s : RunSys) (a : Act) : Decidable (RequeueOpen s a) :=
  inferInstanceAs (Decidable (_ → _))

/-- A queue row that an open transaction loaded, with a run that is still current, was not closed. -/
def JobOk (db : RunDb) (c : Ctl) : Prop :=
  ∀ r j, c.openRun = some r → c.openJob = some j → r.lastSeq = db.run.lastSeq → j.status.terminal = false

theorem jobOk_of_shut {db : RunDb} {c : Ctl} (h : c.openRun = none) : JobOk db c :=
  fun r _ hr => absurd (h.symm.trans hr) (by simp)

theorem JobOk.mono {db db' : RunDb} {c : Ctl} (h : JobOk db c) (hc : ActorOk db c)
    (hl : Level db.run db'.run) : JobOk db' c := by
  intro r j hr hj heq
  have hle := (hc.level r hr).1
  exact h r j hr hj (le_antisymm hle (heq ▸ hl.1))

theorem not_terminal_of_open {db : RunDb} (h : Consistent db) (ho : db.run.outcome = none) :
    db.job.status.terminal = false := by
  rw [← Bool.not_eq_true]
  intro ht
  exact absurd (h.mpr ht) (by simp [ho])

theorem consistent_of_open {db : RunDb} (ho : db.run.outcome = none) (hs : db.job.status.terminal = false) :
    Consistent db := by
  simp [Consistent, ho, hs]

theorem Reads.jobOk {db : RunDb} {c c' : Ctl} (h : Reads db c c') (hok : ActorOk db c') (hJ : Consistent db)
    (hadm : ∀ r j, c'.openRun = some r → c'.openJob = some j → r.outcome = none) : JobOk db c' := by
  intro r j hr hj heq
  have hopen : db.run.outcome = none := ((hok.level r hr).2 heq).symm.trans (hadm r j hr hj)
  cases h with
  | shut hr' _ _ => exact absurd (hr'.symm.trans hr) (by simp)
  | run _ hj' _ _ => exact absurd (hj'.symm.trans hj) (by simp)
  | job _ hj' _ _ => rw [hj' j hj]; exact not_terminal_of_open hJ hopen

/-- A transaction that has loaded the queue row has passed the check of the outcome. -/
theorem outcome_none_of_openJob {c : Ctl} (ha : c.Admitted) {r : AgentRunRow} {j : AgentJobRow}
    (hr : c.openRun = some r) (hj : c.openJob = some j) : r.outcome = none := by
  unfold Ctl.openJob at hj
  split at hj
  case h_1 => obtain rfl := Option.some.inj hr; exact ha.1
  case h_2 => obtain rfl := Option.some.inj hr; exact ha
  case h_3 => exact absurd hj (by simp)

/-! ### The commits -/

/-- An `append_event` keeps the two rows in step. -/
theorem consistent_append {tx : AppendTx} {now : Time} {run : AgentRunRow} {job : Option AgentJobRow}
    {next : Ctl} {db db' : RunDb} (hI : LogInv db) (hc : ActorOk db (.appending tx (.ready now run job) next))
    (hj : JobOk db (.appending tx (.ready now run job) next)) (hJ : Consistent db)
    (h : commitAppend env tx now run job db = some db') : Consistent db' := by
  have ha := commitAppend_spec hI (hc.level _ rfl) hc.admitted.1 h
  have hjob := commitAppend_job h
  have hcur := not_terminal_of_open hJ ha.opened
  cases job with
  | none =>
    -- the row was not loaded, so the event is not terminal
    have hnt : tx.ev.type.terminal = false := by
      have hneed : needsJob tx.ev.type = false := hc.admitted.2.symm
      simp only [needsJob, Bool.or_eq_false_iff] at hneed
      exact hneed.1.1.1
    have hout : db'.run.outcome = none := by
      have hnt' : (gatedEvent env tx.ev none).type.terminal = false := (gatedEvent_terminal _ _ _).trans hnt
      rw [ha.outcome]
      simpa [EventType.terminal] using hnt'
    refine consistent_of_open hout ?_
    rw [hjob]
    exact hcur
  | some j =>
    have hjs : j.status.terminal = false := hj run j rfl rfl ha.level
    have hout : db'.run.outcome = outcomeByType (gatedEvent env tx.ev j.request.clientJob).type := ha.outcome
    cases ht : (gatedEvent env tx.ev j.request.clientJob).type.terminal with
    | true =>
      have hst : db'.job.status = jobStatus (gatedEvent env tx.ev j.request.clientJob).type := by
        rw [hjob]
        show col j.status (appendJob env now run j _).status db.job.status = _
        rw [appendJob_status_of_terminal env now run j ht]
        refine col_of_ne _ fun heq => ?_
        rw [← heq, jobStatus_terminal] at hjs
        exact absurd hjs (by simp)
      unfold Consistent
      rw [hst, jobStatus_terminal, hout]
      simpa [EventType.terminal] using ht
    | false =>
      refine consistent_of_open ?_ ?_
      · rw [hout]
        simpa [EventType.terminal] using ht
      · rw [hjob]
        show (col j.status (appendJob env now run j _).status db.job.status).terminal = false
        rw [appendJob_status_of_not_terminal env now run j ht, col_self]
        exact hcur

/-- A transaction that sets `pending` on an open run leaves it open. -/
theorem col_pending_not_terminal {l c : Status} (hc : c.terminal = false) :
    (col l .pending c).terminal = false := by
  unfold col
  split_ifs
  · exact hc
  · rfl

theorem consistent_park {p : Park} {leased : Bool} {now : Time} {run : AgentRunRow} {job : AgentJobRow}
    {db db' : RunDb} (hI : LogInv db) (hc : ActorOk db (.parking p leased (.ready now run job)))
    (hJ : Consistent db) (h : commitPark p now run job db = some db') : Consistent db' := by
  obtain ⟨ha, hjob⟩ := commitPark_spec hI (hc.level _ rfl) hc.admitted h
  refine consistent_of_open ha.outcome ?_
  rw [hjob]
  exact col_pending_not_terminal (not_terminal_of_open hJ ha.opened)

theorem consistent_requeue {now : Time} {job : AgentJobRow} {db : RunDb} (hJ : Consistent db)
    (ho : db.run.outcome = none) : Consistent (commitRequeue cfg now job db) :=
  consistent_of_open ho (col_pending_not_terminal (not_terminal_of_open hJ ho))

/-! ### Steps and runs -/

/-- The invariant of the event log together with the agreement of the two rows. -/
structure RunSys.Closed (s : RunSys) : Prop where
  inv : s.Inv
  consistent : Consistent s.db
  jobs : ∀ c ∈ s.actors, JobOk s.db c

/-- One step of an actor keeps the rows in step, a requeue of a closed run excepted. -/
theorem Effect.consistent {db db' : RunDb} {c c' : Ctl} (h : Effect env cfg db c db' c') (hI : LogInv db)
    (hc : ActorOk db c) (hj : JobOk db c) (hJ : Consistent db)
    (hq : ∀ why leased job, c = .requeueOpen why leased job → db.run.outcome = none) :
    Consistent db' ∧ JobOk db' c' := by
  obtain ⟨-, hlev, hc'⟩ := h.inv hI hc
  cases h with
  | quiet hs hr =>
    have hok := hr.actorOk hc
    refine ⟨?_, (hr.jobOk hok hJ fun r j h1 h2 => outcome_none_of_openJob hok.admitted h1 h2).mono hok hlev⟩
    unfold Consistent
    rw [hs.outcome, hs.status]
    exact hJ
  | append hcc hcommit =>
    subst hcc
    exact ⟨consistent_append hI hc hj hJ hcommit, jobOk_of_shut hc.wf.1⟩
  | park hcc hcs hcommit =>
    subst hcc hcs
    exact ⟨consistent_park hI hc hJ hcommit, jobOk_of_shut rfl⟩
  | requeue hcc hdb hr =>
    have ho := hq _ _ _ hcc
    subst hdb
    have hok := hr.actorOk hc
    exact ⟨consistent_requeue hJ ho,
      (hr.jobOk hok hJ fun r j h1 h2 => outcome_none_of_openJob hok.admitted h1 h2).mono hok hlev⟩

/-- Only the move `requeue` commits a requeue. -/
theorem requeue_move {i : ℕ} {db db' : RunDb} {lock lock' : RowLock} {why : Busy} {leased : Bool}
    {job : AgentJobRow} {m : Move} {c' : Ctl}
    (h : stepActor env cfg i db lock (.requeueOpen why leased job) m = some (db', lock', c')) :
    ∃ now, m = .requeue now := by
  cases m with
  | requeue now => exact ⟨now, rfl⟩
  | _ => exact absurd h (by simp [stepActor])

theorem RunSys.step_closed {s s' : RunSys} {a : Act} (h : s.step env cfg a = some s') (hS : s.Closed)
    (hq : RequeueOpen s a) : s'.Closed := by
  suffices hJ : Consistent s'.db ∧ ∀ c ∈ s'.actors, JobOk s'.db c from ⟨s.step_inv h hS.inv, hJ.1, hJ.2⟩
  cases RunSys.step_effect h with
  | claim hclaim hdb hactors =>
    -- a claimed row was pending, so the run is open
    have hp : s.db.job.status = .pending := by
      simp only [claimable, Bool.and_eq_true, decide_eq_true_eq] at hclaim
      exact hclaim.1.2
    have ho : s.db.run.outcome = none := by
      cases ho : s.db.run.outcome with
      | none => rfl
      | some o => exact absurd (hS.consistent.mp (by simp [ho])) (by simp [hp, Status.terminal])
    rw [hdb]
    exact ⟨consistent_of_open ho rfl, forall_mem_spawned hactors hS.jobs (jobOk_of_shut rfl)⟩
  | spawn hc hdb hactors =>
    rw [hdb]
    exact ⟨hS.consistent, forall_mem_spawned hactors hS.jobs (jobOk_of_shut hc.run)⟩
  | actor ha hmem hstep hactors =>
    have hc := hS.inv.actors _ hmem
    have heff := stepActor_effect hstep
    obtain ⟨-, hlev, -⟩ := heff.inv hS.inv.log hc
    obtain ⟨hJ, hj⟩ := heff.consistent hS.inv.log hc (hS.jobs _ hmem) hS.consistent (by
      rintro why leased job rfl
      obtain ⟨now, rfl⟩ := requeue_move hstep
      exact hq (by rw [ha]; rfl))
    exact ⟨hJ, forall_mem_moved hactors (fun d hd => (hS.jobs d hd).mono (hS.inv.actors d hd) hlev) hj⟩

theorem NewRun.start_closed (n : NewRun) : n.start.Closed := by
  refine ⟨n.start_inv, ?_, ?_⟩
  · exact consistent_of_open rfl rfl
  · simp [NewRun.start]

/-- **Run and queue row agree** in every state of every run whose requeues are all committed while the
run has no outcome; then a closed run is never claimable again. -/
theorem consistent_of_requeue_open (env : Env) (cfg : ExecConfig) (n : NewRun) {as : List Act} {s : RunSys}
    (h : Steps (RunSys.step env cfg) RequeueOpen n.start as s) :
    (s.db.run.outcome.isSome = true ↔ s.db.job.status.terminal = true) ∧
    (s.db.run.outcome.isSome = true → s.db.job.status ≠ .pending ∧ s.db.job.status ≠ .running ∧
      ∀ now, s.step env cfg (.claim now) = none) := by
  have hS : s.Closed := h.inv (fun _ _ _ hS hq hs => RunSys.step_closed hs hS hq) n.start_closed
  refine ⟨hS.consistent, fun ho => ?_⟩
  have ht := hS.consistent.mp ho
  have hp : s.db.job.status ≠ .pending := fun he => absurd ht (by simp [he, Status.terminal])
  refine ⟨hp, fun he => absurd ht (by simp [he, Status.terminal]), fun now => ?_⟩
  simp [RunSys.step, claimable, hp]

/-- A worker finds the session of its run busy and requeues the run, which nobody has closed. -/
def requeuedRun : List Act :=
  [.claim 1, .actor 0 .go, .actor 0 .go, .actor 0 (.preflight ⟨true, true, none, true⟩ 2),
    .actor 0 (.lock false), .actor 0 .go, .actor 0 (.requeue 3)]

theorem consistent_of_requeued_run :
    ∃ s, Steps (RunSys.step Env.plain ExecConfig.default) RequeueOpen NewRun.sample.start requeuedRun s ∧
      s.db.job.status = .pending ∧ s.db.run.outcome = none := by
  have hrun : (execAll (guarded (RunSys.step Env.plain ExecConfig.default) RequeueOpen) NewRun.sample.start
      requeuedRun).map (fun s => s.db.job.status) = some .pending := by decide
  obtain ⟨s, hs, hst⟩ := steps_of_observed hrun
  have hall := consistent_of_requeue_open _ _ _ hs.of_guarded
  refine ⟨s, hs.of_guarded, hst, ?_⟩
  cases ho : s.db.run.outcome with
  | none => rfl
  | some o => exact absurd hst (hall.2 (by simp [ho])).1

/-- The worker is slow: between its reads and its requeue the stale sweep closes the run, and the run is
then claimed a second time. -/
def closedThenRequeued : List Act :=
  [.claim 1, .actor 0 .go, .actor 0 .go, .actor 0 (.preflight ⟨true, true, none, true⟩ 2),
    .actor 0 (.lock false), .actor 0 .go,
    .spawnStale, .actor 1 (.scan (seconds 2101) false), .actor 1 (.begin true (seconds 2101)),
    .actor 1 .go, .actor 1 .go, .actor 1 .go,
    .actor 0 (.requeue (seconds 2102)), .claim (seconds 2108)]

/-- A closed run is pending again, and then running again. -/
theorem closed_run_requeued :
    ∃ s, Steps (RunSys.step Env.plain ExecConfig.default) Free NewRun.sample.start closedThenRequeued s ∧
      s.db.run.outcome = some .failed ∧ s.db.job.status = .running ∧ ¬ Consistent s.db := by
  have hrun : (execAll (RunSys.step Env.plain ExecConfig.default) NewRun.sample.start closedThenRequeued).map
      (fun s => (s.db.run.outcome, s.db.job.status)) = some (some .failed, .running) := by decide
  obtain ⟨s, hs, ho⟩ := steps_of_observed hrun
  obtain ⟨ho, hst⟩ := Prod.mk.inj ho
  refine ⟨s, hs, ho, hst, fun hc => ?_⟩
  exact absurd (hc.mp (by simp [ho])) (by simp [hst, Status.terminal])

end Broker.Agent
