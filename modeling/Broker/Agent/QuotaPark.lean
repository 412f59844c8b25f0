import Broker.Agent.EventLog
import Broker.Agent.QuotaWait
import Broker.Lib.Exclusive

/-!
# Broker.Agent.QuotaPark — a run that waits for its quota, over whole runs of the system

While a run is open at most one execution of it is at work, and none while its queue row is pending
(`RunSys.Solo`): a claim needs a pending row, and an execution that puts the row back to pending does
nothing but close the run afterwards.  So nobody appends to a parked run but its closers, and a sweep that
saw it overdue leaves it closed (`closed_of_swept`).  What a park reads is what it writes on
(`parked_of_step`).
-/

namespace Broker.Agent

open Broker.Lib Broker.Db

variable {env : Env} {cfg : ExecConfig}

/-! ### One execution at a time -/

/-- The control states of an execution that may still put the run back to pending or append an event that
does not close it. -/
def Ctl.active : Ctl → Bool
  | .claimed | .loadedRun _ | .checked _ | .locking _ | .requeueRead .. | .requeueOpen .. => true
  | .gating _ | .gatePoll .. | .workspace _ | .started _ | .attested _ | .streaming _ => true
  | .waitUsage .. | .parking .. => true
  | .appending _ _ next => next.active
  | _ => false

/-- Whoever is not an execution at work only appends terminal events. -/
def Ctl.Tidy : Ctl → Prop
  | .finishing ev _ => ev.type.terminal = true
  | .appending tx _ next => (next.active = true ∨ tx.ev.type.terminal = true) ∧ next.Tidy
  | _ => True

def Ctl.isRequeueOpen : Ctl → Bool
  | .requeueOpen .. => true
  | _ => false

/-- What a step of an actor makes of its control: tidy again, and at work only if it was, a requeue apart. -/
structure Follows (c c' : Ctl) : Prop where
  tidy : c'.Tidy
  active : c'.active = true → c.active = true ∧ c.isRequeueOpen = false

theorem preflight_terminal {o : Preflight} {now : Time} {run : AgentRunRow} {job : AgentJobRow}
    {ev : AnyEvent}
    (h : preflight o now run job = some ev) : ev.type.terminal = true := by
  unfold preflight at h
  dsimp only at h
  split_ifs at h
  all_goals try split at h
  all_goals first
    | (obtain rfl := Option.some.inj h; rfl)
    | exact absurd h (by simp)

theorem afterStream_follows (x : Ctx) {ev : AnyEvent} (hev : ev.type.terminal = true) (files : List FileRef)
    (reset : Option Time) (now : Time) :
      Follows (.streaming x) (afterStream env cfg x ev files reset now) := by
  unfold afterStream
  split
  · dsimp only
    split_ifs
    · exact ⟨rfl, fun _ => ⟨rfl, rfl⟩⟩
    · exact ⟨rfl, fun _ => ⟨rfl, rfl⟩⟩
    · exact ⟨trivial, fun _ => ⟨rfl, rfl⟩⟩
  · split <;> exact ⟨rfl, fun _ => ⟨rfl, rfl⟩⟩
  · exact ⟨rfl, fun _ => ⟨rfl, rfl⟩⟩
  · exact ⟨hev, fun _ => ⟨rfl, rfl⟩⟩

theorem stepAppend_follows {i : ℕ} {tx : AppendTx} {next : Ctl} {db db' : RunDb} {lock lock' : RowLock}
    {ph : AppendPhase} {m : Move} {c' : Ctl} (ht : (Ctl.appending tx ph next).Tidy)
    (h : stepAppend env i tx next db lock ph m = some (db', lock', c')) :
    Follows (.appending tx ph next) c' := by
  unfold stepAppend at h
  split at h
  case h_5 => exact absurd h (by simp)
  case h_4 now run job =>
    split_ifs at h
    split at h
    · obtain ⟨-, -, rfl⟩ := by simpa using h
      exact ⟨ht.2, fun ha => ⟨ha, rfl⟩⟩
    · obtain ⟨-, -, rfl⟩ := by simpa using h
      exact ⟨trivial, fun ha => absurd ha (by simp [Ctl.active])⟩
  all_goals try split_ifs at h
  all_goals
    obtain ⟨-, -, rfl⟩ := by simpa using h
    first
      | exact ⟨ht, fun ha => ⟨ha, rfl⟩⟩
      | exact ⟨trivial, fun ha => absurd ha (by simp [Ctl.active])⟩

theorem stepPark_follows {i : ℕ} {p : Park} {leased : Bool} {db db' : RunDb} {lock lock' : RowLock}
    {ph : ParkPhase} {m : Move} {c' : Ctl} (h : stepPark i p leased db lock ph m = some (db', lock', c')) :
    Follows (.parking p leased ph) c' := by
  unfold stepPark at h
  split at h
  case h_4 => exact absurd h (by simp)
  case h_3 =>
    split_ifs at h
    split at h
    all_goals
      obtain ⟨-, -, rfl⟩ := by simpa using h
      exact ⟨trivial, fun _ => ⟨rfl, rfl⟩⟩
  all_goals
    split_ifs at h
    all_goals
      obtain ⟨-, -, rfl⟩ := by simpa using h
      exact ⟨trivial, fun _ => ⟨rfl, rfl⟩⟩

/-- One step of an actor, by what becomes of its control. -/
theorem stepActor_follows {i : ℕ} {db db' : RunDb} {lock lock' : RowLock} {c c' : Ctl} {m : Move}
    (ht : c.Tidy) (h : stepActor env cfg i db lock c m = some (db', lock', c')) : Follows c c' := by
  have step : ∀ {db1 : RunDb} {l1 : RowLock} {c1 : Ctl}, some (db1, l1, c1) = some (db', lock', c') →
      Follows c c1 → Follows c c' := by
    rintro db1 l1 c1 h hf
    obtain ⟨-, -, rfl⟩ := by simpa using h
    exact hf
  unfold stepActor at h
  split at h
  case h_3 x o now =>
    split at h
    case h_1 ev hev => exact step h ⟨preflight_terminal hev, fun _ => ⟨rfl, rfl⟩⟩
    case h_2 => split_ifs at h <;> exact step h ⟨trivial, fun _ => ⟨rfl, rfl⟩⟩
  case h_6 why leased job now =>
    split_ifs at h
    · refine step h ⟨?_, fun ha => absurd ha (by simp [Ctl.active])⟩
      cases why <;> rfl
    · exact step h ⟨trivial, fun ha => absurd ha (by simp [Ctl.active])⟩
  case h_7 x g => cases g <;> exact step h ⟨by trivial, fun _ => ⟨rfl, rfl⟩⟩
  case h_15 x ev files reset now =>
    split_ifs at h with hev
    exact step h (afterStream_follows x hev files reset now)
  case h_20 => exact stepPark_follows h
  case h_21 ev leased ok totals mode =>
    split_ifs at h
    · exact step h ⟨trivial, fun ha => absurd ha (by simp [Ctl.active])⟩
    · exact step h ⟨⟨.inr ht, trivial⟩, fun ha => absurd ha (by simp [Ctl.active])⟩
  case h_22 => exact stepAppend_follows ht h
  case h_14 x ev =>
    split at h
    case h_4 => exact step h ⟨⟨.inl rfl, trivial⟩, fun _ => ⟨rfl, rfl⟩⟩
    all_goals exact absurd h (by simp)
  case h_29 => exact absurd h (by simp)
  all_goals try split_ifs at h
  -- an execution at work moves on, or a route or a sweep opens its terminal append or stops
  all_goals first
    | exact step h ⟨by trivial, fun _ => ⟨rfl, rfl⟩⟩
    | exact step h ⟨⟨.inl rfl, trivial⟩, fun _ => ⟨rfl, rfl⟩⟩
    | exact step h ⟨⟨.inr rfl, trivial⟩, fun ha => absurd ha (by simp [Ctl.active])⟩
    | exact step h ⟨trivial, fun ha => absurd ha (by simp [Ctl.active])⟩

/-! ### What a step leaves of the run row -/

/-- The account, the model, the route, the sessions and the number of quota waits of the run. -/
structure RunKept (run run' : AgentRunRow) : Prop where
  capability : run'.capability = run.capability
  accountId : run'.accountId = run.accountId
  model : run'.model = run.model
  sessionId : run'.sessionId = run.sessionId
  resumeSessionId : run'.resumeSessionId = run.resumeSessionId
  quotaWaits : run'.quotaWaits = run.quotaWaits

theorem RunKept.refl (run : AgentRunRow) : RunKept run run := ⟨rfl, rfl, rfl, rfl, rfl, rfl⟩

/-- Only a committed event or park moves them. -/
inductive RunWrite (env : Env) (db : RunDb) (c : Ctl) (db' : RunDb) (c' : Ctl) : Prop where
  | kept (h : RunKept db.run db'.run)
  | append {tx : AppendTx} {now : Time} {run : AgentRunRow} {job : Option AgentJobRow}
      (hc : c = .appending tx (.ready now run job) c')
      (h : commitAppend env tx now run job db = some db')
  | park {p : Park} {leased : Bool} {now : Time} {run : AgentRunRow} {job : AgentJobRow}
      (hc : c = .parking p leased (.ready now run job))
      (h : commitPark p now run job db = some db')

theorem stepAppend_write {i : ℕ} {tx : AppendTx} {next : Ctl} {db db' : RunDb} {lock lock' : RowLock}
    {ph : AppendPhase} {m : Move} {c' : Ctl}
    (h : stepAppend env i tx next db lock ph m = some (db', lock', c')) :
    RunWrite env db (.appending tx ph next) db' c' := by
  unfold stepAppend at h
  split at h
  case h_5 => exact absurd h (by simp)
  case h_4 now run job =>
    split_ifs at h
    split at h
    case h_1 hcommit =>
      obtain ⟨rfl, -, rfl⟩ := by simpa using h
      exact .append rfl hcommit
    case h_2 =>
      obtain ⟨rfl, -, rfl⟩ := by simpa using h
      exact .kept (.refl _)
  all_goals try split_ifs at h
  all_goals
    obtain ⟨rfl, -, -⟩ := by simpa using h
    exact .kept (.refl _)

theorem stepPark_write {i : ℕ} {p : Park} {leased : Bool} {db db' : RunDb} {lock lock' : RowLock}
    {ph : ParkPhase} {m : Move} {c' : Ctl} (h : stepPark i p leased db lock ph m = some (db', lock', c')) :
    RunWrite env db (.parking p leased ph) db' c' := by
  unfold stepPark at h
  split at h
  case h_4 => exact absurd h (by simp)
  case h_3 =>
    split_ifs at h
    split at h
    case h_1 hcommit =>
      obtain ⟨rfl, -, rfl⟩ := by simpa using h
      exact .park rfl hcommit
    case h_2 =>
      obtain ⟨rfl, -, rfl⟩ := by simpa using h
      exact .kept (.refl _)
  all_goals
    split_ifs at h
    all_goals
      obtain ⟨rfl, -, -⟩ := by simpa using h
      exact .kept (.refl _)

theorem stepActor_write {i : ℕ} {db db' : RunDb} {lock lock' : RowLock} {c c' : Ctl} {m : Move}
    (h : stepActor env cfg i db lock c m = some (db', lock', c')) : RunWrite env db c db' c' := by
  have step : ∀ {db1 : RunDb} {l1 : RowLock} {c1 : Ctl}, some (db1, l1, c1) = some (db', lock', c') →
      RunKept db.run db1.run → RunWrite env db c db' c' := by
    rintro db1 l1 c1 h hk
    obtain ⟨rfl, -, -⟩ := by simpa using h
    exact .kept hk
  unfold stepActor at h
  split at h
  case h_3 x o now =>
    split at h
    · exact step h (.refl _)
    · split_ifs at h <;> exact step h (.refl _)
  case h_7 x g => cases g <;> exact step h (.refl _)
  case h_14 x ev =>
    split at h
    case h_4 => exact step h (.refl _)
    all_goals exact absurd h (by simp)
  case h_20 => exact stepPark_write h
  case h_22 => exact stepAppend_write h
  case h_29 => exact absurd h (by simp)
  all_goals try split_ifs at h
  all_goals exact step h ⟨rfl, rfl, rfl, rfl, rfl, rfl⟩

/-- The actions of the system: a claim, a new route or sweep, or the step of an actor. -/
inductive RunSys.Acts (env : Env) (cfg : ExecConfig) (s s' : RunSys) : Act → Prop where
  | claim {now : Time} (h : claimable now s = true)
      (hs : s' = { s with
        db := { s.db with job := { s.db.job with status := .running, startedAt := some now } }
        actors := s.actors ++ [.claimed] }) : RunSys.Acts env cfg s s' (.claim now)
  | spawn {a : Act} {c : Ctl} (hc : c ∈ [Ctl.cancelLook, .staleScan, .overdueScan, .unclaimedScan])
      (hs : s' = { s with actors := s.actors ++ [c] }) : RunSys.Acts env cfg s s' a
  | actor {i : ℕ} {m : Move} {c c' : Ctl} {db' : RunDb} {lock' : RowLock} (hc : s.actors[i]? = some c)
      (hstep : stepActor env cfg i s.db s.lock c m = some (db', lock', c'))
      (hs : s' = ⟨db', lock', s.actors.set i c'⟩) : RunSys.Acts env cfg s s' (.actor i m)

theorem RunSys.step_acts {s s' : RunSys} {a : Act} (h : s.step env cfg a = some s') :
    RunSys.Acts env cfg s s' a := by
  cases a with
  | claim now =>
    simp only [step] at h
    split_ifs at h with hclaim
    exact .claim hclaim (Option.some.inj h).symm
  | spawnCancel => exact .spawn (by simp) (Option.some.inj h).symm
  | spawnStale => exact .spawn (by simp) (Option.some.inj h).symm
  | spawnOverdue => exact .spawn (by simp) (Option.some.inj h).symm
  | spawnUnclaimed => exact .spawn (by simp) (Option.some.inj h).symm
  | actor i m =>
    simp only [step] at h
    split at h
    · exact absurd h (by simp)
    · rename_i c hc
      split at h
      · rename_i db' lock' c' hstep
        exact .actor hc hstep (Option.some.inj h).symm
      · exact absurd h (by simp)

/-- What a new route or sweep is. -/
theorem spawned_follows {c : Ctl} (hc : c ∈ [Ctl.cancelLook, .staleScan, .overdueScan, .unclaimedScan]) :
    c.Tidy ∧ c.active = false ∧ c.openRun = none ∧ c.openJob = none := by
  simp only [List.mem_cons, List.not_mem_nil, or_false] at hc
  rcases hc with rfl | rfl | rfl | rfl <;> exact ⟨trivial, rfl, rfl, rfl⟩

/-! ### The invariant -/

/-- A loaded run row that is level with the current one has its sessions and its number of waits. -/
def UpToDate (loaded cur : AgentRunRow) : Prop :=
  loaded.lastSeq = cur.lastSeq → loaded.sessionId = cur.sessionId ∧
    loaded.resumeSessionId = cur.resumeSessionId ∧ loaded.quotaWaits = cur.quotaWaits

/-- At most one execution of an open run is at work, only while the queue row is running, and what it has
loaded is fresh. -/
structure RunSys.Solo (s : RunSys) : Prop where
  inv : s.Inv
  tidy : ∀ c ∈ s.actors, c.Tidy
  fresh : ∀ c ∈ s.actors, ∀ r, c.openRun = some r → UpToDate r s.db.run
  unique : s.db.run.outcome = none → AtMostOne Ctl.active s.actors
  running : s.db.run.outcome = none → ∀ c ∈ s.actors, c.active = true →
    s.db.job.status = .running ∧ ∀ j, c.openJob = some j → j.status = .running

/-- A pending row of an open run: nobody is at work on it. -/
theorem RunSys.Solo.none_active {s : RunSys} (h : s.Solo) (ho : s.db.run.outcome = none)
    (hp : s.db.job.status = .pending) : ∀ c ∈ s.actors, c.active = false := by
  intro c hc
  by_contra ha
  have hrun := (h.running ho c hc (by simpa using ha)).1
  rw [hp] at hrun
  exact absurd hrun (by simp)

theorem UpToDate.of_kept {r run run' : AgentRunRow} (h : UpToDate r run) (hseq : run'.lastSeq = run.lastSeq)
    (hk : RunKept run run') : UpToDate r run' := by
  intro heq
  obtain ⟨hs, hr, hq⟩ := h (heq.trans hseq)
  exact ⟨hs.trans hk.sessionId.symm, hr.trans hk.resumeSessionId.symm, hq.trans hk.quotaWaits.symm⟩

/-- A row that was loaded before the last event is no longer level. -/
theorem UpToDate.of_lt {r run run' : AgentRunRow} (hle : r.lastSeq ≤ run.lastSeq)
    (hlt : run.lastSeq < run'.lastSeq) :
    UpToDate r run' := by
  intro heq
  omega

/-- What one step of an actor does, as the invariant needs it: the rows it leaves open are as open before,
the snapshots stay fresh and the status is that of an execution at work. -/
structure ActorStep (db : RunDb) (c : Ctl) (db' : RunDb) (c' : Ctl) : Prop where
  opened : db'.run.outcome = none → db.run.outcome = none
  others : ∀ r, r.lastSeq ≤ db.run.lastSeq → UpToDate r db.run → UpToDate r db'.run
  fresh : ∀ r, c'.openRun = some r → UpToDate r db'.run
  status : db'.run.outcome = none → c'.active = true ∨ c.active = false →
    db'.job.status = db.job.status ∧ ∀ j, c'.openJob = some j → j = db.job

theorem UpToDate.refl (r : AgentRunRow) : UpToDate r r := fun _ => ⟨rfl, rfl, rfl⟩

theorem Reads.fresh {db : RunDb} {c c' : Ctl} (h : Reads db c c')
    (hfresh : ∀ r, c.openRun = some r → UpToDate r db.run) :
      ∀ r, c'.openRun = some r → UpToDate r db.run := by
  intro r hr
  cases h with
  | shut hn _ _ => exact absurd (hn.symm.trans hr) (by simp)
  | run hn _ _ _ =>
    obtain rfl := Option.some.inj (hn.symm.trans hr)
    exact .refl _
  | job hn _ _ _ => exact hfresh r (hn ▸ hr)

theorem Reads.openJob {db : RunDb} {c c' : Ctl} (h : Reads db c c') :
    ∀ j, c'.openJob = some j → j = db.job := by
  intro j hj
  cases h with
  | shut _ hn _ => exact absurd (hn.symm.trans hj) (by simp)
  | run _ hn _ _ => exact absurd (hn.symm.trans hj) (by simp)
  | job _ hn _ _ => exact hn j hj

/-- An event that leaves the run open leaves the status of the queue row. -/
theorem commitAppend_status {tx : AppendTx} {now : Time} {run : AgentRunRow} {job : Option AgentJobRow}
    {db db' : RunDb} (hI : LogInv db) (hl : Level run db.run) (hopen : run.outcome = none)
    (h : commitAppend env tx now run job db = some db') (ho : db'.run.outcome = none) :
    tx.ev.type.terminal = false ∧ db'.job.status = db.job.status := by
  have ha := commitAppend_spec hI hl hopen h
  have hnt : (gatedEvent env tx.ev (job.bind (·.request.clientJob))).type.terminal = false := by
    rw [ha.outcome] at ho
    rw [EventType.terminal, ho]
    rfl
  refine ⟨(gatedEvent_terminal env _ _).symm.trans hnt, ?_⟩
  rw [commitAppend_job h]
  cases job with
  | none => rfl
  | some j =>
    have hst : (appendJob env now run j (gatedEvent env tx.ev j.request.clientJob)).status = j.status :=
      appendJob_status_of_not_terminal env now run j hnt
    show col j.status (appendJob env now run j (gatedEvent env tx.ev j.request.clientJob)).status _ = _
    rw [hst, col_self]

theorem actorStep_of_effect {db db' : RunDb} {c c' : Ctl} (hI : LogInv db) (hok : ActorOk db c)
    (hfresh : ∀ r, c.openRun = some r → UpToDate r db.run) (hf : Follows c c')
    (he : Effect env cfg db c db' c') (hw : RunWrite env db c db' c') : ActorStep db c db' c' := by
  cases he with
  | quiet hs hr =>
    have hk : RunKept db.run db'.run := by
      have hseq := hs.lastSeq
      cases hw with
      | kept h => exact h
      | append hc h =>
        subst hc
        have ha := commitAppend_spec hI (hok.level _ rfl) hok.admitted.1 h
        rw [ha.lastSeq] at hseq
        omega
      | park hc h =>
        subst hc
        obtain ⟨ha, -⟩ := commitPark_spec hI (hok.level _ rfl) hok.admitted h
        rw [ha.lastSeq] at hseq
        omega
    refine ⟨fun ho => hs.outcome ▸ ho, fun r _ h => h.of_kept hs.lastSeq hk, ?_, fun _ _ => ⟨hs.status, ?_⟩⟩
    · exact fun r hr' => (hr.fresh hfresh r hr').of_kept hs.lastSeq hk
    · exact hr.openJob
  | append hc h =>
    subst hc
    have ha := commitAppend_spec hI (hok.level _ rfl) hok.admitted.1 h
    have hlt : db.run.lastSeq < db'.run.lastSeq := by rw [ha.lastSeq]; omega
    refine ⟨fun _ => ha.opened, fun r hle _ => .of_lt hle hlt, fun r hr => ?_, fun ho _ => ⟨?_, fun j hj => ?_⟩⟩
    · exact absurd (hok.wf.1.symm.trans hr) (by simp)
    · exact (commitAppend_status hI (hok.level _ rfl) hok.admitted.1 h ho).2
    · exact absurd (hok.wf.2.1.symm.trans hj) (by simp)
  | park hc hc' h =>
    subst hc hc'
    obtain ⟨ha, -⟩ := commitPark_spec hI (hok.level _ rfl) hok.admitted h
    have hlt : db.run.lastSeq < db'.run.lastSeq := by rw [ha.lastSeq]; omega
    refine ⟨fun _ => ha.opened, fun r hle _ => .of_lt hle hlt, fun r hr => ?_, fun ho hact => ?_⟩
    · exact absurd hr (by simp [Ctl.openRun])
    · simp [Ctl.active] at hact
  | requeue hc h hr =>
    subst hc h
    refine ⟨fun ho => ho, fun r _ h => h, hr.fresh hfresh, fun ho hact => ?_⟩
    rcases hact with hact | hact
    · exact absurd (hf.active hact).2 (by simp [Ctl.isRequeueOpen])
    · exact absurd hact (by simp [Ctl.active])

theorem RunSys.step_solo {s s' : RunSys} {a : Act} (h : s.step env cfg a = some s') (hS : s.Solo) :
    s'.Solo := by
  have hinv := RunSys.step_inv h hS.inv
  cases RunSys.step_acts h with
  | claim hclaim hs =>
    -- a claimed row was pending, so nobody was at work on it
    have hp : s.db.job.status = .pending := by
      simp only [claimable, Bool.and_eq_true, decide_eq_true_eq] at hclaim
      exact hclaim.1.2
    subst hs
    refine ⟨hinv, ?_, ?_, fun ho => ?_, fun ho c hc ha => ⟨rfl, fun j hj => ?_⟩⟩
    · intro c hc
      rcases List.mem_append.mp hc with hc | hc
      · exact hS.tidy c hc
      · rw [List.mem_singleton.mp hc]
        trivial
    · intro c hc r hr
      rcases List.mem_append.mp hc with hc | hc
      · exact hS.fresh c hc r hr
      · rw [List.mem_singleton.mp hc] at hr
        exact absurd hr (by simp [Ctl.openRun])
    · exact .concat_of_none (hS.none_active ho hp) _
    · rcases List.mem_append.mp hc with hc | hc
      · exact absurd (hS.none_active ho hp c hc) (by simp [ha])
      · rw [List.mem_singleton.mp hc] at hj
        exact absurd hj (by simp [Ctl.openJob])
  | spawn hc hs =>
    obtain ⟨htidy, hact, hrun, hjob⟩ := spawned_follows hc
    subst hs
    refine ⟨hinv, ?_, ?_, fun ho => (hS.unique ho).concat hact, fun ho c hc ha => ?_⟩
    · intro c hc
      rcases List.mem_append.mp hc with hc | hc
      · exact hS.tidy c hc
      · rw [List.mem_singleton.mp hc]
        exact htidy
    · intro c hc r hr
      rcases List.mem_append.mp hc with hc | hc
      · exact hS.fresh c hc r hr
      · rw [List.mem_singleton.mp hc, hrun] at hr
        exact absurd hr (by simp)
    · rcases List.mem_append.mp hc with hc | hc
      · exact hS.running ho c hc ha
      · rw [List.mem_singleton.mp hc, hact] at ha
        exact absurd ha (by simp)
  | @actor i m c c' db' lock' hc hstep hs =>
    have hmem := List.mem_of_getElem? hc
    have hok := hS.inv.actors c hmem
    have hf := stepActor_follows (hS.tidy c hmem) hstep
    have hA := actorStep_of_effect hS.inv.log hok (hS.fresh c hmem) hf (stepActor_effect hstep)
      (stepActor_write hstep)
    subst hs
    refine ⟨hinv, ?_, ?_, fun ho => (hS.unique (hA.opened ho)).set hc fun ha => (hf.active ha).1, ?_⟩
    · intro d hd
      rcases List.mem_or_eq_of_mem_set hd with hd | rfl
      · exact hS.tidy d hd
      · exact hf.tidy
    · intro d hd r hr
      rcases List.mem_or_eq_of_mem_set hd with hd | rfl
      · exact hA.others r ((hS.inv.actors d hd).level r hr).1 (hS.fresh d hd r hr)
      · exact hA.fresh r hr
    · intro ho d hd ha
      have hopen := hA.opened ho
      obtain ⟨j, hj⟩ := List.mem_iff_getElem?.mp hd
      rcases AtMostOne.getElem?_set_cases hj with ⟨-, rfl⟩ | ⟨hne, hj⟩
      · obtain ⟨hst, hjobs⟩ := hA.status ho (.inl ha)
        have hrun := (hS.running hopen c hmem (hf.active ha).1).1
        refine ⟨hst.trans hrun, fun k hk => ?_⟩
        rw [hjobs k hk]
        exact hrun
      · -- another actor is at work, so this one was not
        have hca : c.active = false := by
          by_contra hca
          exact hne (hS.unique hopen j i d c hj hc ha (by simpa using hca))
        obtain ⟨hrun, hold⟩ := hS.running hopen d (List.mem_of_getElem? hj) ha
        exact ⟨(hA.status ho (.inr hca)).1.trans hrun, hold⟩

theorem NewRun.start_solo (n : NewRun) : n.start.Solo := by
  refine ⟨n.start_inv, ?_, ?_, fun _ => .nil, ?_⟩
  all_goals simp [NewRun.start]

/-! ### The park -/

theorem commitAppend_run {tx : AppendTx} {now : Time} {run : AgentRunRow} {job : Option AgentJobRow}
    {db db' : RunDb} (h : commitAppend env tx now run job db = some db') :
    db'.run = run.flush (appendRun now run (gatedEvent env tx.ev (job.bind (·.request.clientJob)))) db.run := by
  unfold commitAppend at h
  dsimp only at h
  split_ifs at h
  obtain rfl := Option.some.inj h
  rfl

theorem commitPark_run {p : Park} {now : Time} {run : AgentRunRow} {job : AgentJobRow} {db db' : RunDb}
    (h : commitPark p now run job db = some db') : db'.run = run.flush (parkRun now run) db.run := by
  unfold commitPark at h
  dsimp only at h
  split_ifs at h
  obtain rfl := Option.some.inj h
  rfl

/-- The run stays with its account, its model and its route. -/
structure SameRoute (run run' : AgentRunRow) : Prop where
  capability : run'.capability = run.capability
  accountId : run'.accountId = run.accountId
  model : run'.model = run.model

theorem RunWrite.sameRoute {db db' : RunDb} {c c' : Ctl} (h : RunWrite env db c db' c') :
    SameRoute db.run db'.run := by
  cases h with
  | kept h => exact ⟨h.capability, h.accountId, h.model⟩
  | append _ h => rw [commitAppend_run h]; exact ⟨rfl, rfl, rfl⟩
  | park _ h => rw [commitPark_run h]; exact ⟨rfl, rfl, rfl⟩

theorem RunSys.step_sameRoute {s s' : RunSys} {a : Act} (h : s.step env cfg a = some s') :
    SameRoute s.db.run s'.db.run := by
  cases RunSys.step_acts h with
  | claim _ hs => subst hs; exact ⟨rfl, rfl, rfl⟩
  | spawn _ hs => subst hs; exact ⟨rfl, rfl, rfl⟩
  | actor _ hstep hs => subst hs; exact (stepActor_write hstep).sameRoute

/-- A park: one more wait, the run still open and its queue row pending, on the same route and billing mode,
to resume the session of its own where it has one. -/
structure Parked (db db' : RunDb) : Prop where
  route : SameRoute db.run db'.run
  billingMode : db'.run.billingMode = db.run.billingMode
  resumes : db'.run.resumeSessionId =
    if db.run.sessionId.getD "" = "" then db.run.resumeSessionId else db.run.sessionId
  quotaWaits : db'.run.quotaWaits = db.run.quotaWaits + 1
  outcome : db'.run.outcome = none
  status : db'.job.status = .pending

theorem parked_of_commit {p : Park} {leased : Bool} {now : Time} {run : AgentRunRow} {job : AgentJobRow}
    {db db' : RunDb} (hI : LogInv db) (hok : ActorOk db (.parking p leased (.ready now run job)))
    (hfresh : UpToDate run db.run) (hjob : db.run.outcome = none → job.status = .running)
    (h : commitPark p now run job db = some db') : Parked db db' := by
  obtain ⟨ha, hflush⟩ := commitPark_spec hI (hok.level _ rfl) hok.admitted h
  obtain ⟨hsess, hres, hwait⟩ := hfresh ha.level
  have hrun := commitPark_run h
  refine ⟨?_, ?_, ?_, ?_, ha.outcome, ?_⟩
  · rw [hrun]
    exact ⟨rfl, rfl, rfl⟩
  · rw [hrun]
    exact col_self _ _
  · rw [hrun, ← hsess, ← hres]
    show col run.resumeSessionId (parkRun now run).resumeSessionId db.run.resumeSessionId = _
    rw [← hres]
    exact col_of_loaded _ _
  · rw [hrun]
    show col run.quotaWaits (run.quotaWaits + 1) db.run.quotaWaits = _
    rw [col_of_ne _ (by omega), hwait]
  · rw [hflush]
    show col job.status .pending db.job.status = _
    rw [hjob ha.opened]
    rfl

/-- **Whoever counts one more wait parks the run.** -/
theorem parked_of_step {s s' : RunSys} {a : Act} (h : s.step env cfg a = some s') (hS : s.Solo)
    (hq : s'.db.run.quotaWaits ≠ s.db.run.quotaWaits) : Parked s.db s'.db := by
  cases RunSys.step_acts h with
  | claim _ hs => subst hs; exact absurd rfl hq
  | spawn _ hs => subst hs; exact absurd rfl hq
  | actor hc hstep hs =>
    have hmem := List.mem_of_getElem? hc
    subst hs
    cases stepActor_write hstep with
    | kept hk => exact absurd hk.quotaWaits hq
    | append _ hcommit =>
      have hrun := commitAppend_run hcommit
      refine absurd ?_ hq
      show _ = _
      rw [hrun]
      exact col_self _ _
    | park hcc hcommit =>
      subst hcc
      exact parked_of_commit hS.inv.log (hS.inv.actors _ hmem) (hS.fresh _ hmem _ rfl)
        (fun ho => (hS.running ho _ hmem rfl).2 _ rfl) hcommit

/-! ### The sweep of overdue waits -/

/-- The control states of `expire_overdue_waiting` once it has listed the run. -/
def Ctl.Sweeps : Ctl → Prop
  | .overdueReason => True
  | .appending tx _ next =>
    tx.ev.type = .runFailed ∧ tx.leased = false ∧ tx.onlyIfPending = false ∧ next = .stopped
  | _ => False

/-- Actor `i` is about to close an open run on which nobody is at work, and has loaded it as it is. -/
structure RunSys.Swept (s : RunSys) (i : ℕ) : Prop where
  opened : s.db.run.outcome = none
  idle : ∀ c ∈ s.actors, c.active = false
  sweep : ∃ c, s.actors[i]? = some c ∧ c.Sweeps ∧ ∀ r, c.openRun = some r → r.lastSeq = s.db.run.lastSeq

/-- The step of an actor that is not at work leaves an open run as long as it was. -/
theorem lastSeq_of_idle {db db' : RunDb} {c c' : Ctl} (hI : LogInv db) (hok : ActorOk db c) (ht : c.Tidy)
    (hidle : c.active = false) (he : Effect env cfg db c db' c') (ho : db'.run.outcome = none) :
    SameCore db db' := by
  cases he with
  | quiet hs _ => exact hs
  | append hc h =>
    subst hc
    have hnt := (commitAppend_status hI (hok.level _ rfl) hok.admitted.1 h ho).1
    rcases ht.1 with hact | hterm
    · exact absurd hact (by simpa [Ctl.active] using hidle)
    · exact absurd hterm (by simp [hnt])
  | park hc _ _ => subst hc; exact absurd hidle (by simp [Ctl.active])
  | requeue hc _ _ => subst hc; exact absurd hidle (by simp [Ctl.active])

theorem commitAppend_events {tx : AppendTx} {now : Time} {run : AgentRunRow} {job : Option AgentJobRow}
    {db db' : RunDb} (h : commitAppend env tx now run job db = some db') :
      ∃ row, db'.events = db.events ++ [row] := by
  unfold commitAppend at h
  dsimp only at h
  split_ifs at h
  obtain rfl := Option.some.inj h
  exact ⟨_, rfl⟩

/-- An event on top of the last one finds its key free. -/
theorem commitAppend_isSome {tx : AppendTx} {now : Time} {run : AgentRunRow} {job : Option AgentJobRow}
    {db : RunDb} (hI : LogInv db) (hl : run.lastSeq = db.run.lastSeq) :
    ∃ db', commitAppend env tx now run job db = some db' := by
  unfold commitAppend
  dsimp only
  rw [if_neg]
  · exact ⟨_, rfl⟩
  · simp only [List.any_eq_true, decide_eq_true_eq, not_exists, not_and]
    intro e he hseq
    have hle := hI.dense.key_le he
    have hrow : e.seq = run.lastSeq + 1 := hseq
    omega

/-- A step of the sweep itself that leaves the run open: it goes on, with the run as it is. -/
theorem sweep_step {i : ℕ} {db db' : RunDb} {lock lock' : RowLock} {c c' : Ctl} {m : Move}
    (hI : LogInv db) (hopen : db.run.outcome = none) (hc : c.Sweeps)
    (hload : ∀ r, c.openRun = some r → r.lastSeq = db.run.lastSeq)
    (h : stepActor env cfg i db lock c m = some (db', lock', c')) (hs : SameCore db db') :
    c'.Sweeps ∧ ∀ r, c'.openRun = some r → r.lastSeq = db'.run.lastSeq := by
  rw [hs.lastSeq]
  unfold Ctl.Sweeps at hc
  split at hc
  case h_1 =>
    cases m with
    | go =>
      obtain ⟨-, -, rfl⟩ := by simpa [stepActor] using h
      exact ⟨⟨rfl, rfl, rfl, rfl⟩, fun r hr => absurd hr (by simp [Ctl.openRun])⟩
    | _ => exact absurd h (by simp [stepActor])
  case h_2 tx ph next =>
    obtain ⟨htype, hleased, hpend, rfl⟩ := hc
    replace h : stepAppend env i tx .stopped db lock ph m = some (db', lock', c') := h
    unfold stepAppend at h
    split at h
    case h_1 ok now =>
      simp only [hleased, hpend, Bool.false_and, Bool.false_eq_true, if_false] at h
      obtain ⟨-, -, rfl⟩ := by simpa using h
      exact ⟨⟨htype, hleased, hpend, rfl⟩, fun r hr => absurd hr (by simp [Ctl.openRun])⟩
    case h_2 now =>
      simp only [hopen, Option.isSome_none, Bool.false_eq_true, if_false] at h
      obtain ⟨-, -, rfl⟩ := by simpa using h
      refine ⟨⟨htype, hleased, hpend, rfl⟩, fun r hr => ?_⟩
      obtain rfl := Option.some.inj hr
      rfl
    case h_3 now run =>
      obtain ⟨-, -, rfl⟩ := by simpa using h
      exact ⟨⟨htype, hleased, hpend, rfl⟩, hload⟩
    case h_4 now run job =>
      -- the commit goes through and adds an event, so the run is not as it was
      obtain ⟨db1, hcommit⟩ : ∃ db1, commitAppend env tx now run job db = some db1 :=
        commitAppend_isSome hI (hload run rfl)
      rw [hcommit] at h
      split_ifs at h
      obtain ⟨rfl, -, -⟩ := by simpa using h
      obtain ⟨row, hrow⟩ := commitAppend_events hcommit
      have hlen := congrArg List.length (hs.events.symm.trans hrow)
      simp at hlen
    case h_5 => exact absurd h (by simp)
  case h_3 => exact absurd hc id

/-- No claim of the run. -/
def NoClaim (_ : RunSys) (a : Act) : Prop := ∀ now, a ≠ .claim now

theorem RunSys.Swept.step {s s' : RunSys} {a : Act} {i : ℕ} (hw : s.Swept i) (hS : s.Solo) (hc : NoClaim s a)
    (h : s.step env cfg a = some s') (ho : s'.db.run.outcome = none) : s'.Swept i := by
  obtain ⟨d, hd, hsweep, hload⟩ := hw.sweep
  cases RunSys.step_acts h with
  | claim _ _ => exact absurd rfl (hc _)
  | spawn hcs hs =>
    subst hs
    refine ⟨hw.opened, fun c hmem => ?_, d, ?_, hsweep, hload⟩
    · rcases List.mem_append.mp hmem with hmem | hmem
      · exact hw.idle c hmem
      · rw [List.mem_singleton.mp hmem]
        exact (spawned_follows hcs).2.1
    · have hlt := (List.getElem?_eq_some_iff.mp hd).1
      show (s.actors ++ _)[i]? = some d
      rw [List.getElem?_append_left hlt]
      exact hd
  | @actor j m c c' db' lock' hcj hstep hs =>
    have hmem := List.mem_of_getElem? hcj
    have hf := stepActor_follows (hS.tidy c hmem) hstep
    have hidle := hw.idle c hmem
    subst hs
    have hsame := lastSeq_of_idle hS.inv.log (hS.inv.actors c hmem) (hS.tidy c hmem) hidle
      (stepActor_effect hstep) ho
    refine ⟨ho, fun a ha => ?_, ?_⟩
    · rcases List.mem_or_eq_of_mem_set ha with ha | rfl
      · exact hw.idle a ha
      · by_contra hact
        have hca := (hf.active (by simpa using hact)).1
        exact absurd hca (by simp [hidle])
    · by_cases hij : j = i
      · subst hij
        obtain rfl := Option.some.inj (hd.symm.trans hcj)
        obtain ⟨hsweep', hload'⟩ := sweep_step hS.inv.log hw.opened hsweep hload hstep hsame
        refine ⟨c', ?_, hsweep', hload'⟩
        exact List.getElem?_set_self (List.getElem?_eq_some_iff.mp hd).1
      · refine ⟨d, ?_, hsweep, fun r hr => (hload r hr).trans hsame.lastSeq.symm⟩
        show (s.actors.set j c')[i]? = some d
        rw [List.getElem?_set_ne hij]
        exact hd

/-- **A sweep that has listed an open run leaves it closed**, whoever else moves short of a claim. -/
theorem closed_of_swept {s u : RunSys} {as : List Act} {i : ℕ} (hS : s.Solo) (hw : s.Swept i)
    (h : Steps (RunSys.step env cfg) NoClaim s as u) (hstop : u.actors[i]? = some .stopped) :
    u.db.run.outcome.isSome = true := by
  have hinv : u.Solo ∧ (u.db.run.outcome = none → u.Swept i) := by
    refine h.inv (I := fun t => t.Solo ∧ (t.db.run.outcome = none → t.Swept i)) ?_ ⟨hS, fun _ => hw⟩
    rintro t a v ⟨ht, htw⟩ hc hstep
    refine ⟨RunSys.step_solo hstep ht, fun hv => ?_⟩
    have hopen : t.db.run.outcome = none := by
      cases RunSys.step_acts hstep with
      | claim _ hs => subst hs; exact hv
      | spawn _ hs => subst hs; exact hv
      | actor hget hs' hs =>
        have hmem := List.mem_of_getElem? hget
        subst hs
        exact (actorStep_of_effect ht.inv.log (ht.inv.actors _ hmem) (ht.fresh _ hmem)
          (stepActor_follows (ht.tidy _ hmem) hs') (stepActor_effect hs') (stepActor_write hs')).opened hv
    exact (htw hopen).step ht hc hstep hv
  by_contra hnone
  have ho : u.db.run.outcome = none := by simpa using hnone
  obtain ⟨c, hget, hsweep, -⟩ := (hinv.2 ho).sweep
  obtain rfl := Option.some.inj (hstop.symm.trans hget)
  exact hsweep

/-- The run waits for its quota and its deadline has passed. -/
structure Overdue (now : Time) (db : RunDb) : Prop where
  status : db.job.status = .pending
  waits : 0 < db.run.quotaWaits
  opened : db.run.outcome = none
  deadline : deadlineOf db.job ≤ now

theorem overdueScan_step {i : ℕ} {db : RunDb} {lock : RowLock} {now : Time} {alive : Bool}
    (h : Overdue now db) :
    stepActor env cfg i db lock .overdueScan (.scan now alive) = some (db, lock, .overdueReason) := by
  simp [stepActor, h.status, h.waits, h.opened, h.deadline]

theorem swept_of_scan {s v : RunSys} {i : ℕ} {now : Time} {alive : Bool} (hS : s.Solo)
    (hi : s.actors[i]? = some .overdueScan) (ho : Overdue now s.db)
    (h : s.step env cfg (.actor i (.scan now alive)) = some v) : v.Swept i := by
  simp only [RunSys.step, hi, overdueScan_step ho] at h
  obtain rfl := Option.some.inj h
  have hidle := hS.none_active ho.opened ho.status
  refine ⟨ho.opened, fun c hc => ?_, .overdueReason, ?_, trivial, fun r hr => absurd hr (by simp [Ctl.openRun])⟩
  · rcases List.mem_or_eq_of_mem_set hc with hc | rfl
    · exact hidle c hc
    · rfl
  · exact List.getElem?_set_self (List.getElem?_eq_some_iff.mp hi).1

/-- The last actor moves. -/
theorem steps_last {db db' : RunDb} {lock lock' : RowLock} {l : List Ctl} {c c' : Ctl} {m : Move}
    (h : stepActor env cfg l.length db lock c m = some (db', lock', c')) :
    Steps (RunSys.step env cfg) NoClaim ⟨db, lock, l ++ [c]⟩ [.actor l.length m] ⟨db', lock', l ++ [c']⟩ := by
  refine .single (fun now he => by cases he) ?_
  simp [RunSys.step, h]

/-- **A sweep on its own closes an overdue wait** as failed. -/
theorem sweep_closes {s : RunSys} {now : Time} (hS : s.Solo) (ho : Overdue now s.db) (hlock : s.lock = none) :
    ∃ as u, Steps (RunSys.step env cfg) NoClaim s as u ∧ u.db.run.outcome = some .failed ∧
      u.db.job.status = .error := by
  obtain ⟨db, lock, l⟩ := s
  obtain rfl : lock = none := hlock
  have hopen : db.run.outcome = none := ho.opened
  set ev : AnyEvent := .runFailed "quota_exhausted"
    ((waitReason db.events).1 ++ " (quota wait is past the job deadline)")
    ((waitReason db.events).2.map env.isoformat) with hev
  have hspawn : Steps (RunSys.step env cfg) NoClaim ⟨db, none, l⟩ [.spawnOverdue] ⟨db, none, l ++ [.overdueScan]⟩ :=
    .single (fun now he => by cases he) rfl
  have hscan : stepActor env cfg l.length db none .overdueScan (.scan now true) =
      some (db, none, .overdueReason) := overdueScan_step ho
  have hreason : stepActor env cfg l.length db none .overdueReason .go =
      some (db, none, .appending ⟨ev, false, false⟩ .begin .stopped) := rfl
  have hbegin : stepActor env cfg l.length db none (.appending ⟨ev, false, false⟩ .begin .stopped)
      (.begin true now) = some (db, none, .appending ⟨ev, false, false⟩ (.opened now) .stopped) := rfl
  have hopened : stepActor env cfg l.length db none (.appending ⟨ev, false, false⟩ (.opened now) .stopped) .go =
      some (db, none, .appending ⟨ev, false, false⟩ (.gotRun now db.run) .stopped) := by
    simp [stepActor, stepAppend, hopen]
  have hload : stepActor env cfg l.length db none
      (.appending ⟨ev, false, false⟩ (.gotRun now db.run) .stopped) .go =
      some (db, none, .appending ⟨ev, false, false⟩ (.ready now db.run (some db.job)) .stopped) := rfl
  obtain ⟨db', hcommit⟩ : ∃ db', commitAppend env ⟨ev, false, false⟩ now db.run (some db.job) db = some db' :=
    commitAppend_isSome hS.inv.log rfl
  have hready : stepActor env cfg l.length db none
      (.appending ⟨ev, false, false⟩ (.ready now db.run (some db.job)) .stopped) .go =
      some (db', none, .stopped) := by
    simp [stepActor, stepAppend, RowLock.free, hcommit, AppendTx.unlock]
  refine ⟨_, _, ((((((hspawn.trans (steps_last hscan)).trans (steps_last hreason)).trans (steps_last hbegin)).trans
    (steps_last hopened)).trans (steps_last hload)).trans (steps_last hready)), ?_, ?_⟩
  · exact (commitAppend_spec hS.inv.log (.refl _) ho.opened hcommit).outcome
  · rw [commitAppend_job hcommit]
    exact col_of_loaded _ _

/-! ### Quota waits over every history -/

/-- **A quota wait is safe**: its computation returns and is bounded by the deadline exactly where `WaitFits`
holds; in every run of the system a park keeps the route and resumes the run's own session, a sweep that has
listed an overdue wait leaves it closed unless the run is claimed, and a sweep can always do so. -/
theorem quota_wait_safe (env : Env) (lib : DatetimeLib) (cfg : ExecConfig) (hbase : 0 ≤ cfg.quotaBackoffBase)
    (hcap : 0 ≤ cfg.quotaBackoffCap) :
    (∀ now run job msg resetAt, WaitSafe env lib cfg now run job msg resetAt ↔
      WaitFits lib cfg now run job resetAt) ∧
    ∀ (n : NewRun) (as : List Act) (s : RunSys), Steps (RunSys.step env cfg) Free n.start as s →
      SameRoute n.rows.run s.db.run ∧
      (∀ a v, s.step env cfg a = some v → v.db.run.quotaWaits ≠ s.db.run.quotaWaits → Parked s.db v.db) ∧
      (∀ now, Overdue now s.db →
        (∀ i alive v bs u, s.actors[i]? = some .overdueScan →
          s.step env cfg (.actor i (.scan now alive)) = some v → Steps (RunSys.step env cfg) NoClaim v bs u →
          u.actors[i]? = some .stopped → u.db.run.outcome.isSome = true) ∧
        (s.lock = none → ∃ bs u, Steps (RunSys.step env cfg) NoClaim s bs u ∧
          u.db.run.outcome = some .failed ∧ u.db.job.status = .error)) := by
  refine ⟨fun now run job msg resetAt => waitSafe_iff hbase hcap, fun n as s h => ?_⟩
  have hS : s.Solo := h.inv (fun _ _ _ hS _ hs => RunSys.step_solo hs hS) n.start_solo
  have hroute : SameRoute n.start.db.run s.db.run := by
    refine h.inv (I := fun t => SameRoute n.start.db.run t.db.run) ?_ ⟨rfl, rfl, rfl⟩
    intro t a u ht _ hs
    have hstep := RunSys.step_sameRoute hs
    exact ⟨hstep.capability.trans ht.capability, hstep.accountId.trans ht.accountId, hstep.model.trans ht.model⟩
  refine ⟨hroute, fun a v hs hq => parked_of_step hs hS hq, fun now ho => ⟨?_, sweep_closes hS ho⟩⟩
  intro i alive v bs u hi hs hrun hstop
  exact closed_of_swept (RunSys.step_solo hs hS) (swept_of_scan hS hi ho hs) hrun hstop

/-- The start of the epoch. -/
def Datetime.epoch : Datetime := ⟨0, by decide⟩

/-- A machine in UTC, and the parser on one timestamp. -/
def DatetimeLib.utc : DatetimeLib where
  fromisoformat s :=
    if s = "1970-01-01T01:00:00+00:00" then some (.aware ⟨seconds 3600, by decide⟩ 0) else none
  localToUtc t := .ok t

/-- A run hits its usage limit; the worker is about to commit the park. -/
def limitHit : List Act :=
  [.claim 1, .actor 0 .go, .actor 0 .go, .actor 0 (.preflight ⟨true, true, none, true⟩ 2), .actor 0 (.lock true),
    .actor 0 (.gate .notNeeded), .actor 0 (.mkdir true "w"), .actor 0 (.begin true 3), .actor 0 .go,
    .actor 0 .go, .actor 0 .go, .actor 0 (.attest "" "" true none), .actor 0 (.begin true 4), .actor 0 .go,
    .actor 0 .go, .actor 0 .go, .actor 0 .stream,
    .actor 0 (.ends (.runFailed "quota_exhausted" "usage limit reached" none) [] none 5),
    .actor 0 (.usage true {} none), .actor 0 (.begin true 6), .actor 0 .go]

theorem quota_wait_safe_reported :
    WaitSafe Env.plain .utc .default .epoch NewRun.sample.rows.run NewRun.sample.rows.job "usage limit reached"
      (some "1970-01-01T01:00:00+00:00") ∧
    ∃ s v, Steps (RunSys.step Env.plain .default) Free NewRun.sample.start limitHit s ∧
      s.step Env.plain .default (.actor 0 .go) = some v ∧ Parked s.db v.db := by
  obtain ⟨hwait, hruns⟩ := quota_wait_safe Env.plain .utc .default (by decide) (by decide)
  refine ⟨(hwait _ _ _ _ _).mpr ⟨?_, by decide, by decide +kernel, by decide⟩, ?_⟩
  · rintro stamp hstamp
    obtain rfl := Option.some.inj hstamp
    show InCalendar (seconds 3600 - 0)
    decide
  · have hrun : (execAll (RunSys.step Env.plain .default) NewRun.sample.start limitHit).map (fun s =>
        (s.db.run.quotaWaits, (s.step Env.plain .default (.actor 0 .go)).map (·.db.run.quotaWaits))) =
        some (0, some 1) := by decide
    obtain ⟨s, hs, hobs⟩ := steps_of_observed hrun
    obtain ⟨hbefore, hafter⟩ := Prod.mk.inj hobs
    obtain ⟨v, hv, hwaits⟩ := Option.map_eq_some_iff.mp hafter
    refine ⟨s, v, hs, hv, (hruns NewRun.sample limitHit s hs).2.1 _ v hv ?_⟩
    rw [hwaits, hbefore]
    decide

/-- After 1024 waits a limit without a reported reset raises. -/
theorem quota_wait_raises : ¬ ∀ now run job msg resetAt,
    WaitSafe Env.plain .utc .default now run job msg resetAt := by
  intro h
  obtain ⟨e, he, -⟩ := h .epoch { NewRun.sample.rows.run with quotaWaits := 1024 } NewRun.sample.rows.job
    "usage limit reached" none
  exact absurd ((waitForQuota_ok_iff.mp he).1.waits rfl) (by decide)

end Broker.Agent
