import Broker.Db.Models
import Broker.Lib.Table
import Broker.Lib.Trans
import Broker.Routing.CostGuard

/-!
# Broker.Routing.RecordUsage — the write of a billed call and its retries

`record_usage` inserts a row of `usage_log` and raises the counters of the key in one transaction, and
`retry_terminal_write` repeats it after a transient connection failure.  The wrapper cannot tell a
failure before the commit from a lost acknowledgement: `booked_once_iff` says which failures lead to a
second row.
-/

namespace Broker.Routing.RecordUsage

open Broker.Db Broker.Lib

/-! ### The errors of a write -/

/-- The classes of exception that `retry_terminal_write` and `record_usage` tell apart. -/
inductive ErrorKind | operational | programming | interface | otherDbapi | connection | os | other
  deriving DecidableEq, Repr

/-- An exception: its class, `connection_invalidated`, and the optional columns
`_missing_optional_columns` reads from it. -/
structure DbError where
  kind : ErrorKind
  connectionInvalidated : Bool := false
  missing : List String := []
  deriving DecidableEq

/-- `_is_transient`. -/
def isTransient (e : DbError) : Bool :=
  match e.kind with
  | .operational | .interface | .connection | .os => true
  | .programming | .otherDbapi => e.connectionInvalidated
  | .other => false

/-- `_ATTEMPTS`. -/
def attempts : ℕ := 3

/-- The attempt after the one that raised, if `wrapper` makes one. -/
def nextAttempt (attempt : ℕ) (e : DbError) : Option ℕ :=
  if isTransient e = true ∧ attempt + 1 < attempts then some (attempt + 1) else none

/-! ### The transaction -/

/-- The arguments of `record_usage`. -/
structure UsageCall where
  apiKeyId : ℕ
  projectId : Option ℤ := none
  leaseId : Option String := none
  provider : String
  model : Option String := none
  modelServed : Option String := none
  requestId : Option String := none
  capability : Option String := none
  workflow : Option String := none
  tokensIn : ℤ := 0
  tokensOut : ℤ := 0
  costUsd : ℚ
  latencyMs : Option ℤ := none
  status : String
  errorKind : Option String := none
  httpStatus : Option ℤ := none
  cacheReadTokens : ℤ := 0
  cacheWriteTokens : ℤ := 0
  deriving DecidableEq

/-- A row of `usage_log`, with the call that inserted it and the `CURRENT_DATE` and month of its
transaction. -/
structure UsageLogRow where
  id : ℕ
  call : ℕ
  values : UsageCall
  today : Window → ℕ

/-- The columns of `api_keys` that `record_usage` writes. -/
structure KeyRow extends ApiKeyRow where
  lastError : Option String := none
  errorCount : ℕ := 0
  cooldownUntil : Option Time := none

structure UsageDb where
  usageLog : List UsageLogRow := []
  keys : List KeyRow

/-- The values of the `INSERT` without the optional columns the schema lacks. -/
def insertValues (missing : List String) (call : UsageCall) : UsageCall :=
  { call with
    modelServed := if "model_served" ∈ missing then none else call.modelServed
    requestId := if "request_id" ∈ missing then none else call.requestId }

/-- `_recover_set_sql`. -/
def recoverSet (status : String) (errorKind : Option String) (k : KeyRow) : KeyRow :=
  if status = "ok" ∧ errorKind = none then { k with lastError := none, errorCount := 0, cooldownUntil := none } else k

/-- The `UPDATE` of `api_keys`. -/
def bookKeys (keys : List KeyRow) (row : UsageLogRow) : List KeyRow :=
  updateWhere (fun k => decide (k.id = row.values.apiKeyId))
    (fun k => recoverSet row.values.status row.values.errorKind
      { k with toApiKeyRow := recordUsage row.today row.values.costUsd k.toApiKeyRow }) keys

/-- The commit of `_write`. -/
def UsageDb.commit (db : UsageDb) (row : UsageLogRow) : UsageDb :=
  { usageLog := db.usageLog ++ [row], keys := bookKeys db.keys row }

/-! ### The retried call -/

/-- What becomes of one `_write`: it commits and says so, it commits and the acknowledgement is lost, or
it fails before the commit. -/
inductive Fate
  | done
  | lost (e : DbError)
  | failed (e : DbError)

/-- Where the call is: in the first or the second `_write` of an attempt, or over. -/
inductive Phase
  | first
  | second
  | returned (usageId : ℕ)
  | raised (e : DbError)

structure RetrySys where
  db : UsageDb
  missing : List String := []
  attempt : ℕ := 0
  phase : Phase := .first

/-- One `_write` of the call, whose row gets the id `id`, or the commit of another call. -/
inductive RetryAct
  | write (id : ℕ) (today : Window → ℕ) (fate : Fate)
  | other (row : UsageLogRow)

namespace RetrySys

/-- The `except` of `wrapper`. -/
def retry (s : RetrySys) (e : DbError) : RetrySys :=
  match nextAttempt s.attempt e with
  | some k => { s with attempt := k, phase := .first }
  | none => { s with phase := .raised e }

/-- The `except` of `record_usage`, around its first `_write`. -/
def onFirstError (s : RetrySys) (e : DbError) : RetrySys :=
  if (e.kind = .programming ∨ e.kind = .operational) ∧ e.missing ≠ [] then
    { s with missing := s.missing ++ e.missing, phase := .second }
  else s.retry e

def commit (s : RetrySys) (row : UsageLogRow) : RetrySys := { s with db := s.db.commit row }

/-- One `_write`, with what an exception of it leads to. -/
def write (s : RetrySys) (row : UsageLogRow) (onError : RetrySys → DbError → RetrySys) : Fate → RetrySys
  | .done => { s.commit row with phase := .returned row.id }
  | .lost e => onError (s.commit row) e
  | .failed e => onError s e

/-- `record_usage` under `retry_terminal_write`, for the call numbered `me`. -/
def step (me : ℕ) (call : UsageCall) (s : RetrySys) : RetryAct → Option RetrySys
  | .other row => if row.call = me then none else some (s.commit row)
  | .write id today fate =>
    let row : UsageLogRow := ⟨id, me, insertValues s.missing call, today⟩
    match s.phase with
    | .first => some (s.write row onFirstError fate)
    | .second => some (s.write row retry fate)
    | .returned _ | .raised _ => none

end RetrySys

/-! ### How often a call is booked -/

/-- The acknowledgement of the write was lost. -/
def RetryAct.isLost : RetryAct → Bool
  | .write _ _ (.lost _) => true
  | _ => false

/-- The error that struck a write. -/
def RetryAct.error? : RetryAct → Option DbError
  | .write _ _ (.lost e) | .write _ _ (.failed e) => some e
  | _ => none

/-- The lost acknowledgements among the actions. -/
def lostAcks (as : List RetryAct) : ℕ := as.countP RetryAct.isLost

/-- The rows of a call in a list of rows. -/
def rowsOf (me : ℕ) (rows : List UsageLogRow) : ℕ := rows.countP fun r => decide (r.call = me)

/-- The rows inserted since, and the keys raised once by each of them. -/
structure Booked (db db' : UsageDb) (rows : List UsageLogRow) : Prop where
  log : db'.usageLog = db.usageLog ++ rows
  keys : db'.keys = rows.foldl bookKeys db.keys

/-- One row of the call was inserted, and its counters were raised once for it. -/
def BookedOnce (me : ℕ) (db db' : UsageDb) : Prop := ∃ rows, Booked db db' rows ∧ rowsOf me rows = 1

/-- At most one row of the call was inserted. -/
def BookedAtMostOnce (me : ℕ) (db db' : UsageDb) : Prop := ∃ rows, Booked db db' rows ∧ rowsOf me rows ≤ 1

theorem Booked.unique {db db' : UsageDb} {rows rows' : List UsageLogRow} (h : Booked db db' rows)
    (h' : Booked db db' rows') : rows = rows' :=
  List.append_cancel_left (h.log.symm.trans h'.log)

theorem Booked.commit {db db' : UsageDb} {rows : List UsageLogRow} (h : Booked db db' rows)
    (row : UsageLogRow) :
    Booked db (db'.commit row) (rows ++ [row]) := by
  refine ⟨?_, ?_⟩
  · rw [UsageDb.commit, h.log, List.append_assoc]
  · rw [List.foldl_concat, ← h.keys]
    rfl

def Phase.isReturned : Phase → Bool
  | .returned _ => true
  | _ => false

/-- What a run has inserted: a row for every lost acknowledgement, and one if the call has returned. -/
def Counted (me : ℕ) (db : UsageDb) (as : List RetryAct) (s : RetrySys) : Prop :=
  ∃ rows, Booked db s.db rows ∧ rowsOf me rows = lostAcks as + (if s.phase.isReturned then 1 else 0)

section Run

variable {me : ℕ} {call : UsageCall} {db : UsageDb} {s s' : RetrySys} {as : List RetryAct}

@[simp] theorem retry_db (e : DbError) : (s.retry e).db = s.db := by
  unfold RetrySys.retry
  split <;> rfl

@[simp] theorem retry_isReturned (e : DbError) : (s.retry e).phase.isReturned = false := by
  unfold RetrySys.retry
  split <;> rfl

@[simp] theorem onFirstError_db (e : DbError) : (s.onFirstError e).db = s.db := by
  unfold RetrySys.onFirstError
  split_ifs
  · rfl
  · exact retry_db e

@[simp] theorem onFirstError_isReturned (e : DbError) : (s.onFirstError e).phase.isReturned = false := by
  unfold RetrySys.onFirstError
  split_ifs
  · rfl
  · exact retry_isReturned e

theorem lostAcks_snoc (as : List RetryAct) (a : RetryAct) :
    lostAcks (as ++ [a]) = lostAcks as + (if a.isLost then 1 else 0) := by
  simp [lostAcks, List.countP_append, List.countP_cons]

theorem rowsOf_snoc (rows : List UsageLogRow) (row : UsageLogRow) :
    rowsOf me (rows ++ [row]) = rowsOf me rows + (if row.call = me then 1 else 0) := by
  simp [rowsOf, List.countP_append, List.countP_cons]

/-- A `_write` inserts its row unless it fails before the commit. -/
theorem Counted.write (h : Counted me db as s) (hphase : s.phase.isReturned = false) {row : UsageLogRow}
    (hrow : row.call = me) {onError : RetrySys → DbError → RetrySys} (hdb : ∀ s e, (onError s e).db = s.db)
    (hret : ∀ s e, (onError s e).phase.isReturned = false) (today : Window → ℕ) (fate : Fate) :
    Counted me db (as ++ [.write row.id today fate]) (s.write row onError fate) := by
  obtain ⟨rows, hbooked, hcount⟩ := h
  rw [hphase, if_neg (by simp), Nat.add_zero] at hcount
  cases fate with
  | done =>
    refine ⟨rows ++ [row], hbooked.commit row, ?_⟩
    rw [rowsOf_snoc, lostAcks_snoc, if_pos hrow, hcount]
    rfl
  | lost e =>
    refine ⟨rows ++ [row], ?_, ?_⟩
    · rw [RetrySys.write, hdb]
      exact hbooked.commit row
    · rw [rowsOf_snoc, lostAcks_snoc, if_pos hrow, hcount, RetrySys.write, hret]
      rfl
  | failed e =>
    refine ⟨rows, ?_, ?_⟩
    · rw [RetrySys.write, hdb]
      exact hbooked
    · rw [lostAcks_snoc, hcount, RetrySys.write, hret]
      rfl

theorem Counted.step (h : Counted me db as s) {a : RetryAct} (hs : s.step me call a = some s') :
    Counted me db (as ++ [a]) s' := by
  cases a with
  | other row =>
    simp only [RetrySys.step] at hs
    split_ifs at hs with hrow
    obtain rfl := Option.some.inj hs
    obtain ⟨rows, hbooked, hcount⟩ := h
    refine ⟨rows ++ [row], hbooked.commit row, ?_⟩
    rw [rowsOf_snoc, lostAcks_snoc, if_neg hrow, hcount]
    rfl
  | write id today fate =>
    simp only [RetrySys.step] at hs
    split at hs
    · rename_i hphase
      obtain rfl := Option.some.inj hs
      have hopen : s.phase.isReturned = false := by rw [hphase]; rfl
      have hown : (UsageLogRow.mk id me (insertValues s.missing call) today).call = me := rfl
      exact h.write hopen hown (fun _ => onFirstError_db) (fun _ => onFirstError_isReturned) today fate
    · rename_i hphase
      obtain rfl := Option.some.inj hs
      have hopen : s.phase.isReturned = false := by rw [hphase]; rfl
      have hown : (UsageLogRow.mk id me (insertValues s.missing call) today).call = me := rfl
      exact h.write hopen hown (fun _ => retry_db) (fun _ => retry_isReturned) today fate
    · cases hs
    · cases hs

theorem counted_run {missing : List String} (h : Steps (RetrySys.step me call) Free { db, missing } as s) :
    Counted me db as s := by
  induction h with
  | nil => exact ⟨[], ⟨(List.append_nil _).symm, rfl⟩, rfl⟩
  | snoc _ _ hs ih => exact ih.step hs

end Run

/-- **A billed call is booked once unless an acknowledgement is lost.**  In every run of the retried
call, whatever errors strike it and whatever other calls commit in between: when it returns, one row was
inserted for it and its counters were raised once if and only if no write lost its acknowledgement; when
it raises, at most one row was inserted if and only if at most one write did. -/
theorem booked_once_iff (me : ℕ) (call : UsageCall) (db : UsageDb) (missing : List String)
    {as : List RetryAct}
    {s : RetrySys} (h : Steps (RetrySys.step me call) Free { db, missing } as s) :
    (∀ usageId, s.phase = .returned usageId → (BookedOnce me db s.db ↔ ∀ a ∈ as, a.isLost = false)) ∧
    ∀ e, s.phase = .raised e → (BookedAtMostOnce me db s.db ↔ lostAcks as ≤ 1) := by
  obtain ⟨rows, hbooked, hcount⟩ := counted_run h
  refine ⟨fun usageId hphase => ?_, fun e hphase => ?_⟩
  · have hnone : (∀ a ∈ as, a.isLost = false) ↔ lostAcks as = 0 := by
      simp [lostAcks, List.countP_eq_zero]
    rw [hphase] at hcount
    replace hcount : rowsOf me rows = lostAcks as + 1 := hcount
    rw [hnone]
    constructor
    · rintro ⟨rows', hbooked', hone⟩
      rw [← hbooked.unique hbooked'] at hone
      omega
    · intro hlost
      exact ⟨rows, hbooked, by omega⟩
  · rw [hphase] at hcount
    replace hcount : rowsOf me rows = lostAcks as := hcount
    constructor
    · rintro ⟨rows', hbooked', hone⟩
      rw [← hbooked.unique hbooked'] at hone
      omega
    · intro hlost
      exact ⟨rows, hbooked, by omega⟩

/-! ### Sample runs -/

/-- A dropped connection. -/
def connectionLost : DbError := ⟨.operational, true, []⟩

def sampleCall : UsageCall := { apiKeyId := 1, provider := "anthropic", costUsd := 3, status := "ok" }

def sampleDb : UsageDb := { keys := [⟨⟨1, .paid, ⟨none, 0, none⟩, ⟨none, 0, none⟩, 0, 0⟩, none, 0, none⟩] }

/-- The rows inserted and the cost the key was raised by. -/
def observed (s : RetrySys) : ℕ × List ℚ × Bool :=
  (s.db.usageLog.length, s.db.keys.map fun k => k.totalCost, s.phase.isReturned)

theorem exists_returned {p : Phase} (h : p.isReturned = true) : ∃ usageId, p = .returned usageId := by
  cases p with
  | returned usageId => exact ⟨usageId, rfl⟩
  | first => cases h
  | second => cases h
  | raised e => cases h

/-- The connection drops before the commit of the first attempt: the call is booked once. -/
theorem booked_once_after_failure :
    ∃ s, Steps (RetrySys.step 7 sampleCall) Free { db := sampleDb }
        [.write 1 (fun _ => 0) (.failed connectionLost), .write 1 (fun _ => 0) .done] s ∧
      BookedOnce 7 sampleDb s.db := by
  have hrun : (execAll (RetrySys.step 7 sampleCall) { db := sampleDb }
      [.write 1 (fun _ => 0) (.failed connectionLost), .write 1 (fun _ => 0) .done]).map observed =
      some (1, [3], true) := by
    decide +kernel
  obtain ⟨s, hs, hobs⟩ := steps_of_observed hrun
  obtain ⟨-, -, hret⟩ := by simpa only [observed, Prod.mk.injEq] using hobs
  obtain ⟨usageId, hphase⟩ := exists_returned hret
  exact ⟨s, hs, ((booked_once_iff 7 sampleCall sampleDb [] hs).1 usageId hphase).mpr (by simp [RetryAct.isLost])⟩

/-- The acknowledgement of the first commit is lost: the call returns with two rows and is paid for twice. -/
theorem booked_twice_after_lost_ack :
    ¬ ∀ (me : ℕ) (call : UsageCall) (db : UsageDb) (as : List RetryAct) (s : RetrySys),
      Steps (RetrySys.step me call) Free { db := db } as s →
      (∀ a ∈ as, ∀ e, a.error? = some e → isTransient e = true ∧ e.missing = []) →
      ∀ usageId, s.phase = .returned usageId → BookedOnce me db s.db := by
  intro hclaim
  have hrun : (execAll (RetrySys.step 7 sampleCall) { db := sampleDb }
      [.write 1 (fun _ => 0) (.lost connectionLost), .write 2 (fun _ => 0) .done]).map observed =
      some (2, [6], true) := by
    decide +kernel
  obtain ⟨s, hs, hobs⟩ := steps_of_observed hrun
  obtain ⟨-, -, hret⟩ := by simpa only [observed, Prod.mk.injEq] using hobs
  obtain ⟨usageId, hphase⟩ := exists_returned hret
  have herrors : ∀ a ∈ [RetryAct.write 1 (fun _ => 0) (.lost connectionLost), .write 2 (fun _ => 0) .done],
      ∀ e, a.error? = some e → isTransient e = true ∧ e.missing = [] := by
    intro a ha e he
    rcases List.mem_pair.mp ha with rfl | rfl
    · obtain rfl := Option.some.inj he
      decide
    · cases he
  obtain ⟨rows, hbooked, hone⟩ := hclaim 7 sampleCall sampleDb _ s hs herrors usageId hphase
  obtain ⟨rows', hbooked', hcount⟩ := counted_run hs
  rw [hbooked.unique hbooked', hcount, hret] at hone
  revert hone
  decide

end Broker.Routing.RecordUsage
