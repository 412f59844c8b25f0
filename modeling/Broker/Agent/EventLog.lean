import Broker.Agent.Worker
import Broker.Lib.DenseLog

/-!
# Broker.Agent.EventLog — integrity of the event log of a run

`last_seq` and `outcome` are read without a lock, and only the primary key `(run_id, seq)` stands
between two writers that read the same `last_seq`.  The invariant links the stored rows (`LogInv`)
with what every open transaction has read (`ActorOk`): a snapshot is never ahead of the row, and while
it is level with it the outcome has not moved either.  So a commit that passes the primary key wrote
on top of exactly the state it read (`commitAppend_spec`, `commitPark_spec`).
-/

namespace Broker.Agent

open Broker.Lib Broker.Db

variable {env : Env} {cfg : ExecConfig}

/-! ### What an open transaction has read -/

/-- The `agent_runs` row an open transaction has loaded. -/
def Ctl.openRun : Ctl → Option AgentRunRow
  | .appending _ (.gotRun _ run) _ => some run
  | .appending _ (.ready _ run _) _ => some run
  | .parking _ _ (.gotRun _ run) => some run
  | .parking _ _ (.ready _ run _) => some run
  | _ => none

/-- The `deep_jobs` row an open transaction has loaded. -/
def Ctl.openJob : Ctl → Option AgentJobRow
  | .appending _ (.ready _ _ job) _ => job
  | .parking _ _ (.ready _ _ job) => some job
  | _ => none

/-- Past the check of the outcome, the loaded row has none, and the queue row is loaded exactly for the
events that need it. -/
def Ctl.Admitted : Ctl → Prop
  | .appending _ (.gotRun _ run) _ => run.outcome = none
  | .appending tx (.ready _ run job) _ => run.outcome = none ∧ job.isSome = needsJob tx.ev.type
  | .parking _ _ (.ready _ run _) => run.outcome = none
  | _ => True

def Ctl.isAppending : Ctl → Bool
  | .appending .. => true
  | _ => false

/-- What follows an `append_event` starts with no open transaction. -/
def Ctl.Wf : Ctl → Prop
  | .appending _ _ next => next.openRun = none ∧ next.openJob = none ∧ next.isAppending = false
  | _ => True

/-- `last_seq`, `outcome`, the events and the status, request and result of the queue row are untouched. -/
structure SameCore (db db' : RunDb) : Prop where
  lastSeq : db'.run.lastSeq = db.run.lastSeq
  outcome : db'.run.outcome = db.run.outcome
  status : db'.job.status = db.job.status
  events : db'.events = db.events
  request : db'.job.request = db.job.request
  resultText : db'.job.resultText = db.job.resultText

theorem SameCore.refl (db : RunDb) : SameCore db db := ⟨rfl, rfl, rfl, rfl, rfl, rfl⟩

/-- How a quiet step moves the control of its actor: no transaction is open afterwards, or it just
loaded the current run, or it just loaded the current queue row. -/
inductive Reads (db : RunDb) (c c' : Ctl) : Prop where
  | shut (hr : c'.openRun = none) (hj : c'.openJob = none) (hw : c.Wf → c'.Wf)
  | run (hr : c'.openRun = some db.run) (hj : c'.openJob = none) (ha : c'.Admitted) (hw : c.Wf → c'.Wf)
  | job (hr : c'.openRun = c.openRun) (hj : ∀ j, c'.openJob = some j → j = db.job)
      (ha : c.Admitted → c'.Admitted) (hw : c.Wf → c'.Wf)

/-- What one step of an actor can do. -/
inductive Effect (env : Env) (cfg : ExecConfig) (db : RunDb) (c : Ctl) (db' : RunDb) (c' : Ctl) : Prop where
  | quiet (hs : SameCore db db') (hr : Reads db c c')
  | append {tx : AppendTx} {now : Time} {run : AgentRunRow} {job : Option AgentJobRow}
      (hc : c = .appending tx (.ready now run job) c')
      (h : commitAppend env tx now run job db = some db')
  | park {p : Park} {leased : Bool} {now : Time} {run : AgentRunRow} {job : AgentJobRow}
      (hc : c = .parking p leased (.ready now run job)) (hc' : c' = .stopped)
      (h : commitPark p now run job db = some db')
  | requeue {why : Busy} {leased : Bool} {now : Time} {job : AgentJobRow}
      (hc : c = .requeueOpen why leased job) (h : db' = commitRequeue cfg now job db)
      (hr : Reads db c c')

theorem stepAppend_effect {i : ℕ} {tx : AppendTx} {next : Ctl} {db db' : RunDb} {lock lock' : RowLock}
    {ph : AppendPhase} {m : Move} {c' : Ctl}
    (h : stepAppend env i tx next db lock ph m = some (db', lock', c')) :
    Effect env cfg db (.appending tx ph next) db' c' := by
  unfold stepAppend at h
  split at h
  case h_1 ok now =>
    split_ifs at h
    all_goals obtain ⟨rfl, -, rfl⟩ := by simpa using h
    · exact .quiet (.refl _) (.shut rfl rfl fun _ => trivial)
    · exact .quiet (.refl _) (.shut rfl rfl fun hw => hw)
    · exact .quiet (.refl _) (.shut rfl rfl fun _ => trivial)
    · exact .quiet (.refl _) (.shut rfl rfl fun hw => hw)
  case h_2 now =>
    split_ifs at h with ho
    all_goals obtain ⟨rfl, -, rfl⟩ := by simpa using h
    · exact .quiet (.refl _) (.shut rfl rfl fun _ => trivial)
    · exact .quiet (.refl _) (.run rfl rfl (by simpa [Ctl.Admitted] using ho) fun hw => hw)
  case h_3 now run =>
    obtain ⟨rfl, -, rfl⟩ := by simpa using h
    refine .quiet (.refl _) (.job rfl ?_ (fun ha => ⟨ha, ?_⟩) fun hw => hw)
    · intro j hj
      simp only [Ctl.openJob] at hj
      split_ifs at hj
      exact (Option.some.inj hj).symm
    · cases needsJob tx.ev.type <;> rfl
  case h_4 now run job =>
    split_ifs at h
    split at h
    case h_1 db'' hcommit =>
      obtain ⟨rfl, -, rfl⟩ := by simpa using h
      exact .append rfl hcommit
    case h_2 =>
      obtain ⟨rfl, -, rfl⟩ := by simpa using h
      exact .quiet (.refl _) (.shut rfl rfl fun _ => trivial)
  case h_5 => exact absurd h (by simp)

theorem stepPark_effect {i : ℕ} {p : Park} {leased : Bool} {db db' : RunDb} {lock lock' : RowLock}
    {ph : ParkPhase} {m : Move} {c' : Ctl}
    (h : stepPark i p leased db lock ph m = some (db', lock', c')) :
    Effect env cfg db (.parking p leased ph) db' c' := by
  unfold stepPark at h
  split at h
  case h_1 ok now =>
    split_ifs at h
    all_goals obtain ⟨rfl, -, rfl⟩ := by simpa using h
    · exact .quiet (.refl _) (.shut rfl rfl fun _ => trivial)
    · exact .quiet (.refl _) (.run rfl rfl trivial fun _ => trivial)
  case h_2 now run =>
    split_ifs at h with ho
    all_goals obtain ⟨rfl, -, rfl⟩ := by simpa using h
    · exact .quiet (.refl _) (.shut rfl rfl fun _ => trivial)
    · refine .quiet (.refl _) (.job rfl ?_ (fun _ => by simpa [Ctl.Admitted] using ho) fun _ => trivial)
      intro j hj
      exact (Option.some.inj hj).symm
  case h_3 now run job =>
    split_ifs at h
    split at h
    case h_1 db'' hcommit =>
      obtain ⟨rfl, -, rfl⟩ := by simpa using h
      exact .park rfl rfl hcommit
    case h_2 =>
      obtain ⟨rfl, -, rfl⟩ := by simpa using h
      exact .quiet (.refl _) (.shut rfl rfl fun _ => trivial)
  case h_4 => exact absurd h (by simp)

theorem afterStream_shut (x : Ctx) (ev : AnyEvent) (files : List FileRef) (reset : Option Time)
    (now : Time) {db : RunDb} {c : Ctl} : Reads db c (afterStream env cfg x ev files reset now) := by
  unfold afterStream
  split
  · dsimp only
    split_ifs <;> exact .shut rfl rfl fun _ => trivial
  · split <;> exact .shut rfl rfl fun _ => trivial
  · exact .shut rfl rfl fun _ => trivial
  · exact .shut rfl rfl fun _ => trivial

theorem clearPendingCall_kept (job : AgentJobRow) : (clearPendingCall job).status = job.status ∧
    (clearPendingCall job).request = job.request ∧ (clearPendingCall job).resultText = job.resultText := by
  unfold clearPendingCall
  split_ifs
  · exact ⟨rfl, rfl, rfl⟩
  · split <;> exact ⟨rfl, rfl, rfl⟩

/-- A control state in which no transaction is open and none is waiting to be resumed. -/
structure Ctl.Shut (c : Ctl) : Prop where
  run : c.openRun = none
  job : c.openJob = none
  wf : c.Wf

theorem Effect.shut {db db' : RunDb} {c c' : Ctl} (hs : SameCore db db') (hc : c'.Shut) :
    Effect env cfg db c db' c' := .quiet hs (.shut hc.run hc.job fun _ => hc.wf)

/-- An `append_event` that has not begun. -/
theorem shut_begin {tx : AppendTx} {next : Ctl} (hn : next.Shut) (h : next.isAppending = false) :
    (Ctl.appending tx .begin next).Shut := ⟨rfl, rfl, hn.run, hn.job, h⟩

/-- One step of an actor, classified. -/
theorem stepActor_effect {i : ℕ} {db db' : RunDb} {lock lock' : RowLock} {c c' : Ctl} {m : Move}
    (h : stepActor env cfg i db lock c m = some (db', lock', c')) : Effect env cfg db c db' c' := by
  have step : ∀ {db1 : RunDb} {l1 : RowLock} {c1 : Ctl}, some (db1, l1, c1) = some (db', lock', c') →
      SameCore db db1 → c1.Shut → Effect env cfg db c db' c' := by
    rintro db1 l1 c1 h hs hc
    obtain ⟨rfl, -, rfl⟩ := by simpa using h
    exact .shut hs hc
  unfold stepActor at h
  split at h
  case h_3 x o now =>
    split at h
    · exact step h (.refl _) ⟨rfl, rfl, trivial⟩
    · split_ifs at h <;> exact step h (.refl _) ⟨rfl, rfl, trivial⟩
  case h_6 why leased job now =>
    split_ifs at h
    all_goals
      obtain ⟨rfl, -, rfl⟩ := by simpa using h
      exact .requeue rfl rfl (.shut rfl rfl fun _ => trivial)
  case h_7 x g => cases g <;> exact step h (.refl _) ⟨rfl, rfl, trivial⟩
  case h_9 x ok path =>
    split_ifs at h
    · exact step h (.refl _) ⟨rfl, rfl, trivial⟩
    · exact step h ⟨rfl, rfl, rfl, rfl, rfl, rfl⟩ (shut_begin ⟨rfl, rfl, trivial⟩ rfl)
  case h_11 => exact step h (.refl _) (shut_begin ⟨rfl, rfl, trivial⟩ rfl)
  case h_14 x ev =>
    split at h
    case h_4 => exact step h (.refl _) (shut_begin ⟨rfl, rfl, trivial⟩ rfl)
    all_goals exact absurd h (by simp)
  case h_15 x ev files reset now =>
    split_ifs at h
    obtain ⟨rfl, -, rfl⟩ := by simpa using h
    exact .quiet (.refl _) (afterStream_shut x ev files reset now)
  case h_18 =>
    split_ifs at h
    obtain ⟨hs, hr, ht⟩ := clearPendingCall_kept db.job
    exact step h ⟨rfl, rfl, hs, rfl, hr, ht⟩ ⟨rfl, rfl, trivial⟩
  case h_20 => exact stepPark_effect h
  case h_21 ev leased ok totals mode =>
    split_ifs at h
    · exact step h (.refl _) ⟨rfl, rfl, trivial⟩
    · exact step h ⟨rfl, rfl, rfl, rfl, rfl, rfl⟩ (shut_begin ⟨rfl, rfl, trivial⟩ rfl)
  case h_22 => exact stepAppend_effect h
  case h_23 =>
    split_ifs at h
    · exact step h (.refl _) ⟨rfl, rfl, trivial⟩
    · exact step h (.refl _) (shut_begin ⟨rfl, rfl, trivial⟩ rfl)
    · exact step h (.refl _) ⟨rfl, rfl, trivial⟩
  case h_25 =>
    split_ifs at h
    · exact step h (.refl _) (shut_begin ⟨rfl, rfl, trivial⟩ rfl)
    · exact step h (.refl _) ⟨rfl, rfl, trivial⟩
  case h_27 => exact step h (.refl _) (shut_begin ⟨rfl, rfl, trivial⟩ rfl)
  case h_28 =>
    split_ifs at h
    · exact step h (.refl _) (shut_begin ⟨rfl, rfl, trivial⟩ rfl)
    · exact step h (.refl _) ⟨rfl, rfl, trivial⟩
  case h_29 => exact absurd h (by simp)
  -- the remaining steps move the control alone, or write columns outside the core
  all_goals try split_ifs at h
  all_goals exact step h ⟨rfl, rfl, rfl, rfl, rfl, rfl⟩ ⟨rfl, rfl, trivial⟩

/-! ### The invariant -/

/-- The stored events against the run row. -/
structure LogInv (db : RunDb) : Prop where
  dense : Dense AgentRunEventRow.seq db.events db.run.lastSeq
  last : ∀ e ∈ db.events, e.type.terminal = true → e.seq = db.run.lastSeq
  outcome : ∀ o, db.run.outcome = some o ↔ ∃ e ∈ db.events, outcomeByType e.type = some o

/-- A loaded run row against the current one: never ahead of it, and while level with it the outcome
has not moved. -/
def Level (loaded cur : AgentRunRow) : Prop :=
  loaded.lastSeq ≤ cur.lastSeq ∧ (loaded.lastSeq = cur.lastSeq → loaded.outcome = cur.outcome)

theorem Level.refl (r : AgentRunRow) : Level r r := ⟨le_rfl, fun _ => rfl⟩

theorem Level.trans {a b c : AgentRunRow} (h : Level a b) (h' : Level b c) : Level a c := by
  refine ⟨le_trans h.1 h'.1, fun hac => ?_⟩
  have hab : a.lastSeq = b.lastSeq := le_antisymm h.1 (hac ▸ h'.1)
  exact (h.2 hab).trans (h'.2 (hab ▸ hac))

structure ActorOk (db : RunDb) (c : Ctl) : Prop where
  wf : c.Wf
  admitted : c.Admitted
  level : ∀ r, c.openRun = some r → Level r db.run

structure RunSys.Inv (s : RunSys) : Prop where
  log : LogInv s.db
  actors : ∀ c ∈ s.actors, ActorOk s.db c

theorem RunSys.inv_iff {s : RunSys} : s.Inv ↔ LogInv s.db ∧ ∀ c ∈ s.actors, ActorOk s.db c :=
  ⟨fun h => ⟨h.log, h.actors⟩, fun h => ⟨h.1, h.2⟩⟩

theorem admitted_of_shut {c : Ctl} (h : c.openRun = none) : c.Admitted := by
  unfold Ctl.Admitted
  split <;> simp_all [Ctl.openRun]

theorem actorOk_of_shut {db : RunDb} {c : Ctl} (hr : c.openRun = none) (hw : c.Wf) : ActorOk db c :=
  ⟨hw, admitted_of_shut hr, fun r h => absurd (hr.symm.trans h) (by simp)⟩

theorem ActorOk.mono {db db' : RunDb} {c : Ctl} (h : ActorOk db c) (hl : Level db.run db'.run) :
    ActorOk db' c := ⟨h.wf, h.admitted, fun r hr => (h.level r hr).trans hl⟩

theorem wf_of_not_appending {c : Ctl} (h : c.isAppending = false) : c.Wf := by
  cases c with
  | appending => exact absurd h (by simp [Ctl.isAppending])
  | _ => trivial

/-! ### Commits -/

/-- What a committed `append_event` changed, and on what state. -/
structure Appended (ev : AnyEvent) (run : AgentRunRow) (db db' : RunDb) : Prop where
  level : run.lastSeq = db.run.lastSeq
  opened : db.run.outcome = none
  lastSeq : db'.run.lastSeq = db.run.lastSeq + 1
  outcome : db'.run.outcome = outcomeByType ev.type
  events : ∃ row : AgentRunEventRow, row.seq = db.run.lastSeq + 1 ∧ row.type = ev.type ∧
    db'.events = db.events ++ [row]

theorem fresh_of_any_false {l : List AgentRunEventRow} {n : ℕ}
    (h : ¬ (l.any fun e => decide (e.seq = n)) = true) : ∀ e ∈ l, e.seq ≠ n := by
  simpa using h

theorem commitAppend_job {tx : AppendTx} {now : Time} {run : AgentRunRow} {job : Option AgentJobRow}
    {db db' : RunDb} (h : commitAppend env tx now run job db = some db') :
    db'.job = job.elim db.job fun j =>
      j.flush (appendJob env now run j (gatedEvent env tx.ev j.request.clientJob)) db.job := by
  unfold commitAppend at h
  dsimp only at h
  split_ifs at h
  obtain rfl := Option.some.inj h
  cases job <;> rfl

theorem commitPark_job {p : Park} {now : Time} {run : AgentRunRow} {job : AgentJobRow} {db db' : RunDb}
    (h : commitPark p now run job db = some db') : db'.job = job.flush (parkJob p job) db.job := by
  unfold commitPark at h
  dsimp only at h
  split_ifs at h
  obtain rfl := Option.some.inj h
  rfl

/-- The primary key admits an `append_event` only on top of the state it read. -/
theorem commitAppend_spec {tx : AppendTx} {now : Time} {run : AgentRunRow} {job : Option AgentJobRow}
    {db db' : RunDb} (hI : LogInv db) (hl : Level run db.run) (ho : run.outcome = none)
    (h : commitAppend env tx now run job db = some db') :
    Appended (gatedEvent env tx.ev (job.bind (·.request.clientJob))) run db db' := by
  unfold commitAppend at h
  dsimp only at h
  split_ifs at h with hk
  obtain rfl := Option.some.inj h
  have hlev : run.lastSeq = db.run.lastSeq := hI.dense.eq_of_fresh hl.1 (fresh_of_any_false hk)
  have hopen : db.run.outcome = none := (hl.2 hlev).symm.trans ho
  refine ⟨hlev, hopen, ?_, ?_, _, ?_, rfl, rfl⟩
  · show col run.lastSeq (run.lastSeq + 1) db.run.lastSeq = _
    rw [col_of_ne _ (by omega), hlev]
  · show col run.outcome ((outcomeByType _).or run.outcome) db.run.outcome = _
    rw [ho, hopen]
    exact (col_of_loaded none _).trans (by simp)
  · show run.lastSeq + 1 = _
    rw [hlev]

/-- The same for a quota wait. -/
theorem commitPark_spec {p : Park} {now : Time} {run : AgentRunRow} {job : AgentJobRow} {db db' : RunDb}
    (hI : LogInv db) (hl : Level run db.run) (ho : run.outcome = none)
    (h : commitPark p now run job db = some db') :
    Appended (.runWaitingQuota p.notBefore 0 false "") run db db' ∧
      db'.job = job.flush (parkJob p job) db.job := by
  unfold commitPark at h
  dsimp only at h
  split_ifs at h with hk
  obtain rfl := Option.some.inj h
  have hlev : run.lastSeq = db.run.lastSeq := hI.dense.eq_of_fresh hl.1 (fresh_of_any_false hk)
  have hopen : db.run.outcome = none := (hl.2 hlev).symm.trans ho
  refine ⟨⟨hlev, hopen, ?_, ?_, _, ?_, rfl, rfl⟩, rfl⟩
  · show col run.lastSeq (run.lastSeq + 1) db.run.lastSeq = _
    rw [col_of_ne _ (by omega), hlev]
  · show col run.outcome run.outcome db.run.outcome = none
    rw [col_self, hopen]
  · show run.lastSeq + 1 = _
    rw [hlev]

theorem Appended.level_run {ev : AnyEvent} {run : AgentRunRow} {db db' : RunDb}
    (h : Appended ev run db db') : Level db.run db'.run :=
  ⟨by rw [h.lastSeq]; omega, fun he => absurd (he.trans h.lastSeq) (by omega)⟩

/-- A commit extends a well-formed log. -/
theorem Appended.logInv {ev : AnyEvent} {run : AgentRunRow} {db db' : RunDb} (h : Appended ev run db db')
    (hI : LogInv db) : LogInv db' := by
  obtain ⟨row, hseq, htype, hev⟩ := h.events
  have hnone : ∀ e ∈ db.events, outcomeByType e.type = none := by
    intro e he
    cases ht : outcomeByType e.type with
    | none => rfl
    | some o => exact absurd ((hI.outcome o).mpr ⟨e, he, ht⟩) (by simp [h.opened])
  refine ⟨?_, ?_, ?_⟩
  · rw [hev, h.lastSeq]
    exact hI.dense.concat hseq
  · intro e he hterm
    rw [hev, List.mem_append, List.mem_singleton] at he
    rcases he with he | rfl
    · exact absurd hterm (by simp [EventType.terminal, hnone e he])
    · rw [hseq, h.lastSeq]
  · intro o
    rw [h.outcome, hev]
    constructor
    · intro ho
      exact ⟨row, by simp, by rw [htype]; exact ho⟩
    · rintro ⟨e, he, ho⟩
      rw [List.mem_append, List.mem_singleton] at he
      rcases he with he | rfl
      · exact absurd ho (by simp [hnone e he])
      · rwa [htype] at ho

theorem SameCore.logInv {db db' : RunDb} (h : SameCore db db') (hI : LogInv db) : LogInv db' := by
  refine ⟨?_, ?_, ?_⟩
  · rw [h.events, h.lastSeq]; exact hI.dense
  · rw [h.events, h.lastSeq]; exact hI.last
  · rw [h.events, h.outcome]; exact hI.outcome

theorem SameCore.level_run {db db' : RunDb} (h : SameCore db db') : Level db.run db'.run :=
  ⟨h.lastSeq.ge, fun _ => h.outcome.symm⟩

theorem Reads.actorOk {db : RunDb} {c c' : Ctl} (h : Reads db c c') (hc : ActorOk db c) : ActorOk db c' := by
  cases h with
  | shut hr _ hw => exact actorOk_of_shut hr (hw hc.wf)
  | run hr _ ha hw =>
    refine ⟨hw hc.wf, ha, fun r h => ?_⟩
    obtain rfl := Option.some.inj (hr.symm.trans h)
    exact .refl _
  | job hr _ ha hw => exact ⟨hw hc.wf, ha hc.admitted, fun r h => hc.level r (hr ▸ h)⟩

/-- A step of an actor keeps the log well formed, moves the run forward only, and leaves the actor's
own snapshot sound. -/
theorem Effect.inv {db db' : RunDb} {c c' : Ctl} (h : Effect env cfg db c db' c') (hI : LogInv db)
    (hc : ActorOk db c) : LogInv db' ∧ Level db.run db'.run ∧ ActorOk db' c' := by
  cases h with
  | quiet hs hr => exact ⟨hs.logInv hI, hs.level_run, (hr.actorOk hc).mono hs.level_run⟩
  | append hcc hcommit =>
    subst hcc
    have ha := commitAppend_spec hI (hc.level _ rfl) hc.admitted.1 hcommit
    obtain ⟨hr, -, hna⟩ := hc.wf
    exact ⟨ha.logInv hI, ha.level_run, actorOk_of_shut hr (wf_of_not_appending hna)⟩
  | park hcc hcs hcommit =>
    subst hcc hcs
    obtain ⟨ha, -⟩ := commitPark_spec hI (hc.level _ rfl) hc.admitted hcommit
    exact ⟨ha.logInv hI, ha.level_run, actorOk_of_shut rfl trivial⟩
  | requeue hcc hdb hr =>
    subst hdb
    exact ⟨⟨hI.dense, hI.last, hI.outcome⟩, .refl _, (hr.actorOk hc).mono (.refl _)⟩

/-- What one action of the system does: a claim, a new actor, or one step of an actor. -/
inductive RunSys.StepEffect (env : Env) (cfg : ExecConfig) (s s' : RunSys) (a : Act) : Prop where
  | claim {now : Time} (hclaim : claimable now s = true)
      (hdb : s'.db = { s.db with job := { s.db.job with status := .running, startedAt := some now } })
      (hactors : s'.actors = s.actors ++ [.claimed])
  | spawn {c : Ctl} (hc : c.Shut) (hdb : s'.db = s.db) (hactors : s'.actors = s.actors ++ [c])
  | actor {i : ℕ} {m : Move} {c c' : Ctl} (ha : a = .actor i m) (hc : c ∈ s.actors)
      (hstep : stepActor env cfg i s.db s.lock c m = some (s'.db, s'.lock, c'))
      (hactors : s'.actors = s.actors.set i c')

theorem RunSys.step_effect {s s' : RunSys} {a : Act} (h : s.step env cfg a = some s') :
    RunSys.StepEffect env cfg s s' a := by
  cases a with
  | claim now =>
    simp only [step] at h
    split_ifs at h with hclaim
    obtain rfl := Option.some.inj h
    exact .claim hclaim rfl rfl
  | spawnCancel =>
    obtain rfl := Option.some.inj h
    exact .spawn (c := .cancelLook) ⟨rfl, rfl, trivial⟩ rfl rfl
  | spawnStale =>
    obtain rfl := Option.some.inj h
    exact .spawn (c := .staleScan) ⟨rfl, rfl, trivial⟩ rfl rfl
  | spawnOverdue =>
    obtain rfl := Option.some.inj h
    exact .spawn (c := .overdueScan) ⟨rfl, rfl, trivial⟩ rfl rfl
  | spawnUnclaimed =>
    obtain rfl := Option.some.inj h
    exact .spawn (c := .unclaimedScan) ⟨rfl, rfl, trivial⟩ rfl rfl
  | actor i m =>
    simp only [step] at h
    split at h
    · exact absurd h (by simp)
    · rename_i c hget
      split at h
      · rename_i db' lock' c' hstep
        obtain rfl := Option.some.inj h
        exact .actor rfl (List.mem_of_getElem? hget) hstep rfl
      · exact absurd h (by simp)

theorem forall_mem_spawned {s s' : RunSys} {P : Ctl → Prop} {c : Ctl} (h : s'.actors = s.actors ++ [c])
    (hold : ∀ d ∈ s.actors, P d) (hnew : P c) : ∀ d ∈ s'.actors, P d := by
  intro d hd
  rw [h, List.mem_append, List.mem_singleton] at hd
  rcases hd with hd | rfl
  · exact hold d hd
  · exact hnew

theorem forall_mem_moved {s s' : RunSys} {P : Ctl → Prop} {i : ℕ} {c : Ctl} (h : s'.actors = s.actors.set i c)
    (hold : ∀ d ∈ s.actors, P d) (hnew : P c) : ∀ d ∈ s'.actors, P d := by
  intro d hd
  rw [h] at hd
  rcases List.mem_or_eq_of_mem_set hd with hd | rfl
  · exact hold d hd
  · exact hnew

/-- The invariant of the event log over one action of the system. -/
theorem RunSys.step_inv {s s' : RunSys} {a : Act} (h : s.step env cfg a = some s') (hI : s.Inv) : s'.Inv := by
  cases RunSys.step_effect h with
  | claim hclaim hdb hactors =>
    rw [RunSys.inv_iff, hdb]
    refine ⟨⟨hI.log.dense, hI.log.last, hI.log.outcome⟩, forall_mem_spawned hactors (fun d hd => ?_) ?_⟩
    · exact (hI.actors d hd).mono (.refl _)
    · exact actorOk_of_shut rfl trivial
  | spawn hc hdb hactors =>
    rw [RunSys.inv_iff, hdb]
    exact ⟨hI.log, forall_mem_spawned hactors hI.actors (actorOk_of_shut hc.run hc.wf)⟩
  | actor ha hmem hstep hactors =>
    obtain ⟨hlog, hlev, hc'⟩ := (stepActor_effect hstep).inv hI.log (hI.actors _ hmem)
    exact ⟨hlog, forall_mem_moved hactors (fun d hd => (hI.actors d hd).mono hlev) hc'⟩

theorem NewRun.start_inv (n : NewRun) : n.start.Inv := by
  refine ⟨⟨.nil, ?_, ?_⟩, ?_⟩
  · simp [NewRun.start, NewRun.rows]
  · simp [NewRun.start, NewRun.rows]
  · simp [NewRun.start]

/-- **Event log integrity**, in every reachable state: the stored sequence numbers are exactly
`1, …, last_seq`, there is at most one terminal event, it is the last one, and `outcome` is set exactly
to the outcome of its type. -/
theorem event_log_integrity (env : Env) (cfg : ExecConfig) (n : NewRun) {as : List Act} {s : RunSys}
    (h : Steps (RunSys.step env cfg) Free n.start as s) :
    s.db.events.map (·.seq) = List.range' 1 s.db.run.lastSeq ∧
    (∀ e ∈ s.db.events, ∀ e' ∈ s.db.events, e.type.terminal = true → e'.type.terminal = true → e = e') ∧
    (∀ e ∈ s.db.events, e.type.terminal = true → ∀ e' ∈ s.db.events, e'.seq ≤ e.seq) ∧
    (∀ o, s.db.run.outcome = some o ↔ ∃ e ∈ s.db.events, outcomeByType e.type = some o) := by
  have hI : s.Inv := h.inv (fun _ _ _ hI _ hs => RunSys.step_inv hs hI) n.start_inv
  refine ⟨hI.log.dense, ?_, ?_, hI.log.outcome⟩
  · intro e he e' he' ht ht'
    exact hI.log.dense.eq_of_key_eq he he' ((hI.log.last e he ht).trans (hI.log.last e' he' ht').symm)
  · intro e he ht e' he'
    rw [hI.log.last e he ht]
    exact hI.log.dense.key_le he'

/-- The client cancels a queued run. -/
def cancelQueued : List Act :=
  [.spawnCancel, .actor 0 .go, .actor 0 (.begin true 7), .actor 0 .go, .actor 0 .go, .actor 0 .go]

theorem event_log_integrity_of_cancelled :
    ∃ s, Steps (RunSys.step Env.plain ExecConfig.default) Free NewRun.sample.start cancelQueued s ∧
      s.db.run.outcome = some .cancelled ∧ s.db.events.map (·.seq) = List.range' 1 s.db.run.lastSeq := by
  have hrun : (execAll (RunSys.step Env.plain ExecConfig.default) NewRun.sample.start cancelQueued).map
      (fun s => s.db.run.outcome) = some (some .cancelled) := by decide
  obtain ⟨s, hs, ho⟩ := steps_of_observed hrun
  exact ⟨s, hs, ho, (event_log_integrity _ _ _ hs).1⟩

end Broker.Agent
