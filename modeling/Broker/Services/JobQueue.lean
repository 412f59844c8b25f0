import Broker.Db.Models
import Broker.Lib.Json
import Broker.Lib.Table
import Mathlib.Data.List.Sort

/-!
# Broker.Services.JobQueue — the statements of the plain job queue

Plain jobs live in `deep_jobs` beside agent runs; every statement below is one `UPDATE` (or one
locked read and write, for the cancel) on the table.  `started_at` is the claim stamp: a worker's
writes match only the row that still carries the stamp it claimed with.
-/

namespace Broker.Services

open Broker.Lib Broker.Db

/-- The keys of a plain job's `request` the queue writes: transcription parks its audio there. -/
structure PlainRequest where
  audioB64 : Option String := none
  rest : Json := .null
  deriving DecidableEq, Repr

/-- A plain job; `result_meta` is the document a poll returns. -/
abbrev PlainJobRow := DeepJobRow PlainRequest Json

/-- `JOB_MAX_RETRIES` and `JOB_MAX_CONTENT_RETRIES`. -/
structure QueueConfig where
  maxRetries : ℕ := 8
  maxContentRetries : ℕ := 1

/-- `_STALE_RUNNING_S`. -/
def staleRunning : Time := seconds (25 * 60)

/-- `capability LIKE 'agent:%'`. -/
def isAgent (capability : String) : Bool := "agent:".toList.isPrefixOf capability.toList

/-! ### `_requeue_stale_running` -/

def isStaleRunning (now : Time) (r : PlainJobRow) : Bool :=
  decide (r.status = .running) && !isAgent r.capability
    && r.startedAt.any fun t => decide (t < now - staleRunning)

def staleRow (cfg : QueueConfig) (now : Time) (r : PlainJobRow) : PlainJobRow :=
  let gaveUp := cfg.maxRetries < r.retryCount + 1
  { r with
    status := if gaveUp then .error else .pending
    errorMessage := if gaveUp then some "gave up after repeated worker deaths mid-run" else r.errorMessage
    completedAt := if gaveUp then some now else r.completedAt
    startedAt := none
    retryCount := r.retryCount + 1 }

/-- A `running` row past the stale window goes back to the queue, or fails when it is out of retries. -/
def requeueStaleRunning (cfg : QueueConfig) (now : Time) (rows : List PlainJobRow) : List PlainJobRow :=
  updateWhere (isStaleRunning now) (staleRow cfg now) rows

/-! ### `_claim_batch` -/

def eligible (now : Time) (r : PlainJobRow) : Bool :=
  decide (r.status = .pending) && !isAgent r.capability && r.runAfter.all fun t => decide (t < now)

/-- `ORDER BY priority, created_at`. -/
def claimOrder (r r' : PlainJobRow) : Prop :=
  r.priority < r'.priority ∨ (r.priority = r'.priority ∧ r.createdAt ≤ r'.createdAt)

instance : DecidableRel claimOrder := fun _ _ => inferInstanceAs (Decidable (_ ∨ _))

/-- The ids the subselect returns: at most `limit` eligible rows that no other transaction has
locked. -/
def claimIds (now : Time) (limit : ℕ) (locked : List ℕ) (rows : List PlainJobRow) : List ℕ :=
  (((rows.filter fun r => eligible now r && !locked.contains r.id).insertionSort claimOrder).take limit).map
    (·.id)

def claimRow (now : Time) (r : PlainJobRow) : PlainJobRow :=
  { r with status := .running, startedAt := some now }

/-- The table after the claim, and the rows it returns. -/
def claimBatch (now : Time) (limit : ℕ) (locked : List ℕ) (rows : List PlainJobRow) :
    List PlainJobRow × List PlainJobRow :=
  let ids := claimIds now limit locked rows
  (updateWhere (fun r => ids.contains r.id) (claimRow now) rows,
    (rows.filter fun r => ids.contains r.id).map (claimRow now))

/-! ### A worker's writes -/

/-- The values of `_finish`; every caller passes a terminal status. -/
structure Finish where
  status : Status
  resultText : Option String := none
  resultMeta : Option Json := none
  errorMessage : Option String := none
  closes : status.terminal = true := by rfl

/-- `_strip_audio_sql`. -/
def stripAudio (q : PlainRequest) : PlainRequest :=
  if q.audioB64.getD "" = "" then q else { q with audioB64 := none }

/-- The claim guard: the row of this id, still carrying the expected stamp when one is given. -/
def guardedBy (jobId : ℕ) (expectStartedAt : Option Time) (r : PlainJobRow) : Bool :=
  decide (r.id = jobId) && expectStartedAt.all fun t => decide (r.startedAt = some t)

def finishRow (now : Time) (f : Finish) (r : PlainJobRow) : PlainJobRow :=
  { r with
    status := f.status
    resultText := f.resultText
    resultMeta := f.resultMeta
    errorMessage := f.errorMessage
    completedAt := some now
    request := stripAudio r.request }

/-- `_finish`: one `UPDATE` under the claim guard, whatever the status of the row. -/
def finish (now : Time) (jobId : ℕ) (f : Finish) (expectStartedAt : Option Time)
    (rows : List PlainJobRow) : List PlainJobRow :=
  updateWhere (guardedBy jobId expectStartedAt) (finishRow now f) rows

/-- `_backoff_s`: 5, 10, 20, … capped at 300 seconds. -/
def backoff (retryCount : ℕ) : Time := seconds (min (5 * 2 ^ (retryCount - 1)) 300)

def requeueRow (now : Time) (retryCount : ℕ) (r : PlainJobRow) : PlainJobRow :=
  { r with
    status := .pending
    startedAt := none
    retryCount := retryCount
    runAfter := some (now + backoff retryCount) }

/-- The `UPDATE` of `_requeue_or_fail`, under the claim guard. -/
def requeue (now : Time) (jobId retryCount : ℕ) (expectStartedAt : Option Time)
    (rows : List PlainJobRow) : List PlainJobRow :=
  updateWhere (guardedBy jobId expectStartedAt) (requeueRow now retryCount) rows

def releaseRow (now : Time) (r : PlainJobRow) : PlainJobRow :=
  { r with status := .pending, startedAt := none, runAfter := some now }

/-- `_release_claim`: guarded on the status too. -/
def releaseClaim (now : Time) (jobId : ℕ) (startedAt : Option Time) (rows : List PlainJobRow) :
    List PlainJobRow :=
  match startedAt with
  | none => rows
  | some t =>
    updateWhere (fun r => decide (r.status = .running) && guardedBy jobId (some t) r) (releaseRow now) rows

/-! ### The cancel -/

/-- `cancel_flag`. -/
def cancelFlag (jobId : ℕ) (rows : List PlainJobRow) : Bool :=
  (rows.find? fun r => r.id = jobId).any (·.cancelRequested)

inductive CancelState | cancelled | cancelRequested | alreadyTerminal
  deriving DecidableEq, Repr

def cancelState : Status → CancelState
  | .pending => .cancelled
  | .running => .cancelRequested
  | _ => .alreadyTerminal

def cancelRow (now : Time) (r : PlainJobRow) : PlainJobRow :=
  match r.status with
  | .pending =>
    { r with status := .cancelled, completedAt := some now, request := stripAudio r.request }
  | .running => { r with cancelRequested := true }
  | _ => r

/-- `_cancel_plain`: the row is held `FOR UPDATE` from the read of its status to the commit. -/
def cancelPlain (now : Time) (jobId projectId : ℕ) (rows : List PlainJobRow) :
    List PlainJobRow × Option CancelState :=
  let mine := fun r : PlainJobRow => decide (r.id = jobId) && decide (r.projectId = projectId)
  (updateWhere mine (cancelRow now) rows, (rows.find? mine).map fun r => cancelState r.status)

/-! ### Column facts -/

@[simp] theorem staleRow_id (cfg : QueueConfig) (now : Time) (r : PlainJobRow) :
    (staleRow cfg now r).id = r.id := rfl

@[simp] theorem claimRow_id (now : Time) (r : PlainJobRow) : (claimRow now r).id = r.id := rfl

@[simp] theorem finishRow_id (now : Time) (f : Finish) (r : PlainJobRow) :
    (finishRow now f r).id = r.id := rfl

@[simp] theorem requeueRow_id (now : Time) (rc : ℕ) (r : PlainJobRow) : (requeueRow now rc r).id = r.id := rfl

@[simp] theorem releaseRow_id (now : Time) (r : PlainJobRow) : (releaseRow now r).id = r.id := rfl

@[simp] theorem cancelRow_id (now : Time) (r : PlainJobRow) : (cancelRow now r).id = r.id := by
  unfold cancelRow
  split <;> rfl

@[simp] theorem cancelRow_startedAt (now : Time) (r : PlainJobRow) :
    (cancelRow now r).startedAt = r.startedAt := by
  unfold cancelRow
  split <;> rfl

theorem staleRow_status (cfg : QueueConfig) (now : Time) (r : PlainJobRow) :
    (staleRow cfg now r).status = .pending ∨ (staleRow cfg now r).status = .error := by
  unfold staleRow
  by_cases h : cfg.maxRetries < r.retryCount + 1
  · exact .inr (by simp [h])
  · exact .inl (by simp [h])

theorem guardedBy_some {jobId : ℕ} {t : Time} {r : PlainJobRow} :
    guardedBy jobId (some t) r = true ↔ r.id = jobId ∧ r.startedAt = some t := by
  simp [guardedBy]

end Broker.Services
