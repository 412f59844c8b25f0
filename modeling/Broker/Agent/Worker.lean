import Broker.Agent.ClientTools
import Broker.Agent.Runs
import Broker.Lib.Trans

/-!
# Broker.Agent.Worker — every writer of one agent run, as one interleaved system

The state holds the two rows of the run, its stored events and the control state of every actor that
is working on it: executions of the run by workers (`execute_run` after a claim), cancel routes
(`cancel_run`) and the three housekeeping sweeps.  One step is one database statement or one
transaction of one actor; a transaction that reads rows without a lock and writes them back at commit
is split into its reads and its commit, so that any other actor may move in between.

What an actor learns from outside the two rows (settings, policy, the CLI, the session lock, the
clock) is part of the move, hence arbitrary.
-/

namespace Broker.Agent

open Broker.Lib Broker.Db

/-- The rows of one run. -/
structure RunDb where
  run : AgentRunRow
  job : AgentJobRow
  events : List AgentRunEventRow
  deriving DecidableEq

/-- The part of `ExecConfig` and of the settings the run's control flow depends on. -/
structure ExecConfig where
  sessionBusyDelay : Time
  sessionBusyMax : ℕ
  quotaBackoffBase : Time
  quotaBackoffCap : Time
  pendingMax : Time

/-- What `execute_run` was told before it drives the CLI: the rows it loaded, and whether it holds the
lease of the session it resumes. -/
structure Ctx where
  run : AgentRunRow
  job : AgentJobRow
  leased : Bool := false

/-- Why a claimed run is put back. -/
inductive Busy | session | codexAuth
  deriving DecidableEq

/-- An `append_event` call. -/
structure AppendTx where
  ev : AnyEvent
  onlyIfPending : Bool := false
  leased : Bool := false

/-- How far an `append_event` transaction begun at `now` has come: fence checked (and the queue row
locked when asked), run read, queue row read when the event needs it. -/
inductive AppendPhase where
  | begin
  | opened (now : Time)
  | gotRun (now : Time) (run : AgentRunRow)
  | ready (now : Time) (run : AgentRunRow) (job : Option AgentJobRow)

/-- How far a `park_for_quota` transaction begun at `now` has come. -/
inductive ParkPhase where
  | begin
  | gotRun (now : Time) (run : AgentRunRow)
  | ready (now : Time) (run : AgentRunRow) (job : AgentJobRow)

/-- Control states of an actor. -/
inductive Ctl where
  -- `execute_run` and what it calls
  | claimed
  | loadedRun (run : AgentRunRow)
  | checked (x : Ctx)
  | locking (x : Ctx)
  | requeueRead (why : Busy) (leased : Bool)
  | requeueOpen (why : Busy) (leased : Bool) (job : AgentJobRow)
  | gating (x : Ctx)
  | gatePoll (x : Ctx) (held : Bool)
  | workspace (x : Ctx)
  | started (x : Ctx)
  | attested (x : Ctx)
  | streaming (x : Ctx)
  | waitUsage (x : Ctx) (p : Park)
  | parking (p : Park) (leased : Bool) (ph : ParkPhase)
  | withdrawing
  | finishing (ev : AnyEvent) (leased : Bool)
  -- an open `append_event`, and what the actor does once it has committed
  | appending (tx : AppendTx) (ph : AppendPhase) (next : Ctl)
  -- `cancel_run`
  | cancelLook
  | cancelFlag
  -- the sweeps
  | staleScan
  | overdueScan
  | overdueReason
  | unclaimedScan
  | stopped

/-- What the checks at the head of `execute_run` are told by settings, policy and registry. -/
structure Preflight where
  codexEnabled : Bool
  toolsAccepted : Bool
  access : Option (String × String)
  adapter : Bool

/-- What `_codex_auth_gate` ended with. -/
inductive Gate | notNeeded | held | cancelled | busy
  deriving DecidableEq

/-- The choices of one step of an actor. -/
inductive Move where
  | go
  | begin (fenceOk : Bool) (now : Time)
  | preflight (o : Preflight) (now : Time)
  | lock (granted : Bool)
  | gate (g : Gate)
  | requeue (now : Time)
  | mkdir (fenceOk : Bool) (path : String)
  | usage (fenceOk : Bool) (totals : Usage) (mode : Option String)
  | refuse (cls msg : String)
  | attest (authMethod apiProvider : String) (verifiedOff : Bool) (cap : Option ℚ)
  | stream
  | emit (ev : AnyEvent)
  | ends (ev : AnyEvent) (files : List FileRef) (reset : Option Time) (now : Time)
  | poll
  | leaseLost
  | scan (now : Time) (alive : Bool)

section Pure

/-- `created_at + timedelta(seconds=request.deadline_s)`. -/
def deadlineOf (job : AgentJobRow) : Time := job.createdAt + seconds (job.request.deadlineS.getD 21600)

/-- The checks of `execute_run` in their order: the terminal event it finishes with, or `none` to go
on to the session. -/
def preflight (o : Preflight) (now : Time) (run : AgentRunRow) (job : AgentJobRow) : Option AnyEvent :=
  let clientTools := job.request.clientJob.elim [] (·.tools)
  if run.capability = .codex ∧ o.codexEnabled = false then
    some (.runFailed "route_disabled" "codex subscription route is not enabled" none)
  else if clientTools ≠ [] ∧ (run.model.getD "" = "" ∨ o.toolsAccepted = false) then
    some (.runFailed "route_disabled" "client tools are not verified" none)
  else match o.access with
    | some (cls, msg) => some (.runFailed cls msg none)
    | none =>
      if deadlineOf job ≤ now then some (.runTimedOut .deadline)
      else if run.cancelRequested then some .runCancelled
      else if o.adapter = false then
        some (.runFailed "adapter_unavailable" ("no adapter for " ++ run.capability.name) none)
      else none

/-- The failure a run ends with when it was requeued too often. -/
def Busy.failure : Busy → AnyEvent
  | .session => .runFailed "session_busy" "session stayed locked" none
  | .codexAuth =>
    .runFailed "codex_auth_busy" "the Codex auth-refresh start-up lease stayed taken" none

/-- The wait of a run that hit its usage limit: until the reported reset plus 5 s, else exponential
backoff. -/
def quotaDelay (cfg : ExecConfig) (now : Time) (reset : Option Time) (quotaWaits : ℕ) : Time :=
  match reset with
  | some r => max 0 (r - now) + seconds 5
  | none => min (cfg.quotaBackoffBase * 2 ^ quotaWaits) cfg.quotaBackoffCap

/-- `started_at + wall timeout + STALE_GRACE_S` has passed. -/
def isStale (now : Time) (job : AgentJobRow) : Bool :=
  match job.startedAt with
  | some t => decide (t + seconds (job.request.wallTimeoutS.getD 1800 + 300) < now)
  | none => false

/-- The wording of the last `run.waiting_quota` event, `usage limit reached` without one. -/
def waitReason (events : List AgentRunEventRow) : String × Option Time :=
  match (events.reverse.find? (fun e => e.type = .runWaitingQuota)).map AgentRunEventRow.payload with
  | some (AnyEvent.runWaitingQuota nb _ reported reason) =>
    (if reason = "" then "usage limit reached" else reason, if reported then some nb else none)
  | _ => ("usage limit reached", none)

end Pure

section Step

variable (env : Env) (cfg : ExecConfig)

/-- The commit of an `append_event` transaction that read `run` and `job`; `none` is the primary-key
conflict that rolls the whole transaction back. -/
def commitAppend (tx : AppendTx) (now : Time) (run : AgentRunRow) (job : Option AgentJobRow) (db : RunDb) :
    Option RunDb :=
  let ev := gatedEvent env tx.ev (job.bind (·.request.clientJob))
  let row := eventRow env now run ev
  if db.events.any (fun e => e.seq = row.seq) then none
  else some
    { run := run.flush (appendRun now run ev) db.run
      job := job.elim db.job fun j => j.flush (appendJob env now run j ev) db.job
      events := db.events ++ [row] }

/-- The commit of a `park_for_quota` transaction. -/
def commitPark (p : Park) (now : Time) (run : AgentRunRow) (job : AgentJobRow) (db : RunDb) :
    Option RunDb :=
  let row := parkRow now p run
  if db.events.any (fun e => e.seq = row.seq) then none
  else some
    { run := run.flush (parkRun now run) db.run
      job := job.flush (parkJob p job) db.job
      events := db.events ++ [row] }

/-- The commit of a `requeue_run` transaction that loaded `job`. -/
def commitRequeue (now : Time) (job : AgentJobRow) (db : RunDb) : RunDb :=
  { db with job := job.flush (requeueRun now cfg.sessionBusyDelay job) db.job }

/-- What the executor does with the event `_stream` returned. -/
def afterStream (x : Ctx) (ev : AnyEvent) (files : List FileRef) (reset : Option Time) (now : Time) :
    Ctl :=
  match ev with
  | .runFailed "quota_exhausted" msg resetAt =>
    let notBefore := now + quotaDelay cfg now reset x.run.quotaWaits
    if deadlineOf x.job ≤ notBefore then
      let at_ := if reset.isSome then "reset " ++ resetAt.getD "" else
        "next retry " ++ env.isoformat notBefore ++ "Z"
      .finishing (.runFailed "quota_exhausted" (msg ++ " (" ++ at_ ++ " is past the job deadline)")
        resetAt) x.leased
    else .waitUsage x ⟨notBefore, reset.isSome, String.ofList (msg.toList.take 300)⟩
  | .runFailed "model_unavailable" msg resetAt =>
    match x.run.model with
    | some m =>
      .finishing (.runFailed "model_unavailable" (m ++ " is not available on this subscription account ("
        ++ String.ofList (msg.toList.take 500) ++ ")") none) x.leased
    | none => .finishing (.runFailed "model_unavailable" msg resetAt) x.leased
  | .runCompleted text _ => .finishing (.runCompleted text files) x.leased
  | ev => .finishing ev x.leased

/-- `lock` is the actor that holds the queue row `FOR UPDATE`, if any. -/
abbrev RowLock := Option ℕ

/-- Actor `i` may write the queue row: nobody else has it locked. -/
def RowLock.free (lock : RowLock) (i : ℕ) : Bool := lock.all (· == i)

/-- The transaction changes a column of the queue row, so its commit waits for the row lock. -/
def writesJob (tx : AppendTx) (now : Time) (run : AgentRunRow) (job : Option AgentJobRow) : Bool :=
  job.any fun j => decide (appendJob env now run j (gatedEvent env tx.ev j.request.clientJob) ≠ j)

/-- The end of the transaction releases the row lock it took. -/
def AppendTx.unlock (tx : AppendTx) (lock : RowLock) : RowLock := if tx.onlyIfPending then none else lock

/-- One step of an open `append_event`. -/
def stepAppend (i : ℕ) (tx : AppendTx) (next : Ctl) (db : RunDb) (lock : RowLock) :
    AppendPhase → Move → Option (RunDb × RowLock × Ctl)
  | .begin, .begin ok now =>
    if tx.leased && !ok then some (db, lock, .stopped)
    else if tx.onlyIfPending then
      if lock.isNone && decide (db.job.status = .pending) then
        some (db, some i, .appending tx (.opened now) next)
      else some (db, lock, .stopped)
    else some (db, lock, .appending tx (.opened now) next)
  | .opened now, .go =>
    if db.run.outcome.isSome then some (db, tx.unlock lock, .stopped)
    else some (db, lock, .appending tx (.gotRun now db.run) next)
  | .gotRun now run, .go =>
    some (db, lock,
      .appending tx (.ready now run (if needsJob tx.ev.type then some db.job else none)) next)
  | .ready now run job, .go =>
    if lock.free i || !writesJob env tx now run job then
      match commitAppend env tx now run job db with
      | some db' => some (db', tx.unlock lock, next)
      | none => some (db, tx.unlock lock, .stopped)
    else none
  | _, _ => none

/-- One step of an open `park_for_quota`. -/
def stepPark (i : ℕ) (p : Park) (leased : Bool) (db : RunDb) (lock : RowLock) :
    ParkPhase → Move → Option (RunDb × RowLock × Ctl)
  | .begin, .begin ok now =>
    if leased && !ok then some (db, lock, .stopped)
    else some (db, lock, .parking p leased (.gotRun now db.run))
  | .gotRun now run, .go =>
    -- both rows are loaded before the outcome is looked at
    if run.outcome.isSome then some (db, lock, .stopped)
    else some (db, lock, .parking p leased (.ready now run db.job))
  | .ready now run job, .go =>
    if lock.free i || decide (parkJob p job = job) then
      match commitPark p now run job db with
      | some db' => some (db', lock, .stopped)
      | none => some (db, lock, .stopped)
    else none
  | _, _ => none

/-- One step of actor `i`. -/
def stepActor (i : ℕ) (db : RunDb) (lock : RowLock) : Ctl → Move → Option (RunDb × RowLock × Ctl)
  | .claimed, .go => some (db, lock, .loadedRun db.run)
  | .loadedRun run, .go =>
    if run.outcome.isSome then some (db, lock, .stopped)
    else some (db, lock, .checked ⟨run, db.job, false⟩)
  | .checked x, .preflight o now =>
    match preflight o now x.run x.job with
    | some ev => some (db, lock, .finishing ev false)
    | none =>
      if x.run.resumeSessionId.getD "" = "" then some (db, lock, .gating x)
      else some (db, lock, .locking x)
  | .locking x, .lock granted =>
    if granted then some (db, lock, .gating { x with leased := true })
    else some (db, lock, .requeueRead .session false)
  | .requeueRead why leased, .go => some (db, lock, .requeueOpen why leased db.job)
  | .requeueOpen why leased job, .requeue now =>
    if lock.free i then
      let next := if cfg.sessionBusyMax < job.retryCount + 1 then .finishing why.failure leased else .stopped
      some (commitRequeue cfg now job db, lock, next)
    else none
  | .gating x, .gate g =>
    match g with
    | .notNeeded => some (db, lock, .workspace x)
    | .held => some (db, lock, .gatePoll x true)
    | .cancelled => some (db, lock, .finishing .runCancelled x.leased)
    | .busy => some (db, lock, .gatePoll x false)
  | .gatePoll x held, .poll =>
    if db.run.cancelRequested then some (db, lock, .finishing .runCancelled x.leased)
    else if held then some (db, lock, .workspace x)
    else some (db, lock, .requeueRead .codexAuth x.leased)
  | .workspace x, .mkdir ok path =>
    if x.leased && !ok then some (db, lock, .stopped)
    else some ({ db with run := { db.run with workspace := some path } }, lock,
      .appending ⟨.runStarted x.run.capability x.run.accountId x.run.resumeSessionId, false, x.leased⟩
        .begin (.started x))
  | .started x, .refuse cls msg => some (db, lock, .finishing (.runFailed cls msg none) x.leased)
  | .started x, .attest auth api off cap =>
    some (db, lock, .appending ⟨.billingAttested auth api off cap x.run.accountId, false, x.leased⟩
      .begin (.attested x))
  | .attested x, .refuse cls msg => some (db, lock, .finishing (.runFailed cls msg none) x.leased)
  | .attested x, .stream => some (db, lock, .streaming x)
  | .streaming x, .emit ev =>
    match ev with
    | .runCompleted .. | .runFailed .. | .runCancelled => none
    | ev => some (db, lock, .appending ⟨ev, false, x.leased⟩ .begin (.streaming x))
  | .streaming x, .ends ev files reset now =>
    if ev.type.terminal then some (db, lock, afterStream env cfg x ev files reset now) else none
  | .streaming x, .poll =>
    if db.run.cancelRequested then some (db, lock, .finishing .runCancelled x.leased)
    else some (db, lock, .streaming x)
  | .streaming x, .leaseLost => if x.leased then some (db, lock, .withdrawing) else none
  | .withdrawing, .go =>
    if lock.free i then some ({ db with job := clearPendingCall db.job }, lock, .stopped) else none
  | .waitUsage x p, .usage ok totals mode =>
    if x.leased && !ok then some (db, lock, .stopped)
    else some ({ db with run := recordUsage totals mode db.run }, lock, .parking p x.leased .begin)
  | .parking p leased ph, m => stepPark i p leased db lock ph m
  | .finishing ev leased, .usage ok totals mode =>
    if leased && !ok then some (db, lock, .stopped)
    else some ({ db with run := recordUsage totals mode db.run }, lock,
      .appending ⟨ev, false, leased⟩ .begin .stopped)
  | .appending tx ph next, m => stepAppend env i tx next db lock ph m
  | .cancelLook, .go =>
    if db.run.outcome.isSome then some (db, lock, .stopped)
    else if db.job.status = .pending then
      some (db, lock, .appending ⟨.runCancelled, false, false⟩ .begin .stopped)
    else some (db, lock, .cancelFlag)
  | .cancelFlag, .go => some ({ db with run := { db.run with cancelRequested := true } }, lock, .stopped)
  | .staleScan, .scan now _ =>
    if db.job.status = .running && isStale now db.job then
      some (db, lock, .appending ⟨.runFailed "worker_lost" "worker died or overran its deadline" none,
        false, false⟩ .begin .stopped)
    else some (db, lock, .stopped)
  | .overdueScan, .scan now _ =>
    if db.job.status = .pending && decide (0 < db.run.quotaWaits) && db.run.outcome.isNone
        && decide (deadlineOf db.job ≤ now) then
      some (db, lock, .overdueReason)
    else some (db, lock, .stopped)
  | .overdueReason, .go =>
    let (reason, resetAt) := waitReason db.events
    some (db, lock, .appending ⟨.runFailed "quota_exhausted"
      (reason ++ " (quota wait is past the job deadline)") (resetAt.map env.isoformat), false, false⟩
      .begin .stopped)
  | .unclaimedScan, .scan now alive =>
    if decide (0 < cfg.pendingMax) && db.job.status = .pending
        && decide (db.job.createdAt < now - cfg.pendingMax) && db.run.lastSeq = 0
        && db.run.quotaWaits = 0 && db.run.outcome.isNone && !alive then
      some (db, lock, .appending ⟨.runFailed "account_unavailable"
        ("no worker claimed this run for account " ++ db.run.accountId ++ " within "
          ++ toString (cfg.pendingMax / 1000000) ++ "s") none, true, false⟩ .begin .stopped)
    else some (db, lock, .stopped)
  | _, _ => none

/-- The whole system: the rows, the row lock and the actors. -/
structure RunSys where
  db : RunDb
  lock : RowLock := none
  actors : List Ctl := []

/-- Who moves: a claim, a new cancel or sweep, or an actor that is already there. -/
inductive Act where
  | claim (now : Time)
  | spawnCancel
  | spawnStale
  | spawnOverdue
  | spawnUnclaimed
  | actor (i : ℕ) (m : Move)

/-- `claim_agent_runs` on this run: `pending`, its backoff over, the row not locked. -/
def claimable (now : Time) (s : RunSys) : Bool :=
  s.lock.isNone && decide (s.db.job.status = .pending) && s.db.job.runAfter.all (fun t => decide (t < now))

def RunSys.step (s : RunSys) : Act → Option RunSys
  | .claim now =>
    if claimable now s then
      some { s with
        db := { s.db with job := { s.db.job with status := .running, startedAt := some now } }
        actors := s.actors ++ [.claimed] }
    else none
  | .spawnCancel => some { s with actors := s.actors ++ [.cancelLook] }
  | .spawnStale => some { s with actors := s.actors ++ [.staleScan] }
  | .spawnOverdue => some { s with actors := s.actors ++ [.overdueScan] }
  | .spawnUnclaimed => some { s with actors := s.actors ++ [.unclaimedScan] }
  | .actor i m =>
    match s.actors[i]? with
    | none => none
    | some c =>
      match stepActor env cfg i s.db s.lock c m with
      | some (db, lock, c') => some ⟨db, lock, s.actors.set i c'⟩
      | none => none

end Step

/-! ### A created run -/

/-- What `create_run` inserts. -/
structure NewRun where
  id : ℕ
  projectId : ℕ
  capability : Capability
  accountId : String
  sessionId : Option String := none
  model : Option String := none
  request : AgentRequest := {}
  createdAt : Time
  priority : ℕ := 1

def NewRun.rows (n : NewRun) : RunDb where
  run := { runId := n.id, projectId := n.projectId, capability := n.capability, accountId := n.accountId,
           resumeSessionId := n.sessionId, model := n.model }
  job := { id := n.id, projectId := n.projectId, capability := n.capability.name, status := .pending,
           request := n.request, resultText := none, resultMeta := none, errorMessage := none,
           retryCount := 0, runAfter := none, startedAt := none, createdAt := n.createdAt,
           completedAt := none, cancelRequested := false, priority := n.priority }
  events := []

/-- The system right after `create_run` committed. -/
def NewRun.start (n : NewRun) : RunSys := { db := n.rows }

/-- The defaults of `ExecConfig` and `AGENT_PENDING_MAX_S`. -/
def ExecConfig.default : ExecConfig where
  sessionBusyDelay := seconds 5
  sessionBusyMax := 60
  quotaBackoffBase := seconds 60
  quotaBackoffCap := seconds 1800
  pendingMax := seconds 1800

/-- Texts without a secret in them, no structured output and inline files. -/
def Env.plain : Env where
  redact := id
  redactFinalText := fun t _ => t
  sanitize := id
  outputProblem := fun _ _ => none
  storeFiles := fun fs => fs.map fun f => { file := f }
  isoformat := fun t => toString t

/-- A run that resumes the session `s-1`. -/
def NewRun.sample : NewRun where
  id := 1
  projectId := 1
  capability := .claude
  accountId := "main"
  sessionId := some "s-1"
  createdAt := 0

end Broker.Agent
