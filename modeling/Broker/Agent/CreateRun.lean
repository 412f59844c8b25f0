import Broker.Services.Submit

/-!
# Broker.Agent.CreateRun — creating agent runs under two idempotency keys

`create_run` knows two keys: `idempotency_key` on `agent_runs` and `job_idempotency_key` on `deep_jobs`.
It looks both up, checks the session it is to resume, and inserts the two rows in one transaction;
whoever loses a race on either unique index recovers from the `IntegrityError`.  One step is one
statement of one call, or a change of a run's status or session by its worker.
-/

namespace Broker.Agent

open Broker.Lib Broker.Db Broker.Services

/-! ### The request -/

/-- The arguments of `create_run`. -/
structure CreateArgs where
  projectId : ℕ
  capability : String
  prompt : String
  taskId : String
  accountId : String
  sessionId : Option String := none
  idempotencyKey : Option String := none
  wallTimeoutS : ℤ
  idleTimeoutS : ℤ
  allowedTools : List String := []
  model : Option String := none
  deadlineS : ℤ := 21600
  attachments : Option (List Json) := none
  runMode : String := "autonomous"
  acceptPaidContinuationRisk : Bool := false
  clientJob : Option Json := none
  jobIdempotencyKey : Option String := none
  jobPayloadHash : Option String := none
  traceId : Option String := none
  labels : Option (List (String × String)) := none
  priority : ℕ := 1

def runRequest (a : CreateArgs) : List (String × Json) :=
  [("prompt", .str a.prompt), ("task_id", .str a.taskId), ("account_id", .str a.accountId),
    ("session_id", optJson .str a.sessionId), ("wall_timeout_s", .int a.wallTimeoutS),
    ("idle_timeout_s", .int a.idleTimeoutS), ("allowed_tools", .arr (a.allowedTools.map .str)),
    ("model", optJson .str a.model), ("deadline_s", .int a.deadlineS), ("attachments", .arr (a.attachments.getD [])),
    ("run_mode", .str a.runMode), ("accept_paid_continuation_risk", .bool a.acceptPaidContinuationRisk),
    ("client_job", optJson id a.clientJob)]

/-- A text that is neither absent nor empty. -/
def present (t : Option String) : Bool := t.getD "" ≠ ""

namespace CreateArgs

/-- `job_payload_hash or payload_hash(..)`. -/
def hash (E : HashEnv) (a : CreateArgs) : String :=
  if present a.jobPayloadHash then a.jobPayloadHash.getD ""
  else payloadHash E a.projectId a.capability (runRequest a)

def runSlot (a : CreateArgs) : Option (ℕ × String) := a.idempotencyKey.map fun k => (a.projectId, k)

def jobSlot (a : CreateArgs) : Option (ℕ × String) := a.jobIdempotencyKey.map fun k => (a.projectId, k)

end CreateArgs

/-! ### Rows and calls -/

/-- The two rows of a run, in the columns its lifecycle never writes. -/
structure CreatedRun where
  id : ℕ
  projectId : ℕ
  capability : String
  payloadHash : String
  taskId : String
  accountId : String
  resumeSessionId : Option String
  idempotencyKey : Option String
  jobIdempotencyKey : Option String
  model : Option String
  traceId : Option String
  labels : Option (List (String × String))
  priority : ℕ
  createdAt : Time
  deriving DecidableEq

namespace CreatedRun

/-- The unique index of `agent_runs`. -/
def runSlot (r : CreatedRun) : Option (ℕ × String) := r.idempotencyKey.map fun k => (r.projectId, k)

/-- The unique index of `deep_jobs`. -/
def jobSlot (r : CreatedRun) : Option (ℕ × String) := r.jobIdempotencyKey.map fun k => (r.projectId, k)

end CreatedRun

/-- What a run's worker changes. -/
structure RunLive where
  status : Status := .pending
  sessionId : Option String := none

inductive CreateResult where
  | created (runId : ℕ)
  | existing (runId : ℕ)
  | runConflict
  | idempotencyConflict (jobId : ℕ)
  | runRejected
  | sessionInUse
  | integrityError
  deriving DecidableEq

/-- Where a call stands: before the lookups, before the resume check, before each of the two inserts and the
commit, after an `IntegrityError`, or at its end. -/
inductive CreatePhase where
  | findRun
  | findJob
  | checkResume
  | flushJob
  | flushRun (row : CreatedRun)
  | commit (row : CreatedRun)
  | recover
  | done (r : CreateResult)

structure CreateCall where
  args : CreateArgs
  phase : CreatePhase

/-- Its uncommitted row of `deep_jobs`. -/
def CreateCall.openJob (c : CreateCall) : Option CreatedRun :=
  match c.phase with
  | .flushRun row | .commit row => some row
  | _ => none

/-- Its uncommitted row of `agent_runs`. -/
def CreateCall.openRun (c : CreateCall) : Option CreatedRun :=
  match c.phase with
  | .commit row => some row
  | _ => none

structure CreateSys where
  rows : List CreatedRun := []
  live : ℕ → RunLive := fun _ => {}
  nextId : ℕ := 1
  calls : List CreateCall := []

namespace CreateSys

def openJobs (s : CreateSys) : List CreatedRun := s.calls.filterMap CreateCall.openJob

def openRuns (s : CreateSys) : List CreatedRun := s.calls.filterMap CreateCall.openRun

def setPhase (s : CreateSys) (i : ℕ) (c : CreateCall) (p : CreatePhase) : CreateSys :=
  { s with calls := s.calls.set i { c with phase := p } }

end CreateSys

/-! ### The statements -/

variable (E : HashEnv)

/-- `IN_FLIGHT`. -/
def inFlight (st : Status) : Bool := st = .pending || st = .running

/-- `_find_by_idempotency`. -/
def findByIdempotency (s : CreateSys) (slot : Option (ℕ × String)) : Option CreatedRun :=
  s.rows.find? fun r => r.runSlot = slot

/-- `replayed_job_id`, on the rows of runs. -/
def replayedRun (s : CreateSys) (a : CreateArgs) : Option CreateResult :=
  (s.rows.find? fun r => r.jobSlot = a.jobSlot).map fun r =>
    if r.payloadHash = a.hash E then .existing r.id else .idempotencyConflict r.id

def newestRun (r r' : CreatedRun) : Prop := r'.createdAt ≤ r.createdAt

instance : DecidableRel newestRun := fun r r' => inferInstanceAs (Decidable (r'.createdAt ≤ r.createdAt))

/-- `_find_inflight`. -/
def findInflight (s : CreateSys) (a : CreateArgs) (now : Time) : Option CreatedRun :=
  ((s.rows.filter fun r => r.projectId = a.projectId && r.capability = a.capability && r.payloadHash = a.hash E
    && inFlight (s.live r.id).status && now - dedupWindow < r.createdAt).insertionSort newestRun).head?

/-- `_check_resume`: the exception it raises. -/
def checkResume (s : CreateSys) (a : CreateArgs) (sessionId : String) : Option CreateResult :=
  let owners := s.rows.filter fun r =>
    r.projectId = a.projectId && r.capability = a.capability && (s.live r.id).sessionId = some sessionId
  if owners = [] then some .runRejected
  else if owners.any fun r => r.accountId ≠ a.accountId then some .runRejected
  else if owners.any fun r => inFlight (s.live r.id).status then some .sessionInUse
  else none

/-- The rows a call inserts. -/
def newRun (a : CreateArgs) (id : ℕ) (now : Time) : CreatedRun where
  id := id
  projectId := a.projectId
  capability := a.capability
  payloadHash := a.hash E
  taskId := a.taskId
  accountId := a.accountId
  resumeSessionId := a.sessionId
  idempotencyKey := a.idempotencyKey
  jobIdempotencyKey := a.jobIdempotencyKey
  model := a.model
  traceId := a.traceId
  labels := a.labels
  priority := a.priority
  createdAt := now

/-- A call starts with the first lookup its keys ask for. -/
def firstPhase (a : CreateArgs) : CreatePhase := if present a.idempotencyKey then .findRun else .findJob

def findRunPhase (s : CreateSys) (a : CreateArgs) : CreatePhase :=
  match findByIdempotency s a.runSlot with
  | some hit => .done (if hit.payloadHash = a.hash E then .existing hit.id else .runConflict)
  | none => .findJob

/-- After both lookups. -/
def afterLookups (a : CreateArgs) : CreatePhase := if present a.sessionId then .checkResume else .flushJob

def findJobPhase (s : CreateSys) (a : CreateArgs) (now : Time) : CreatePhase :=
  if present a.jobIdempotencyKey then
    match replayedRun E s a with
    | some r => .done r
    | none => afterLookups a
  else match findInflight E s a now with
    | some hit => .done (.existing hit.id)
    | none => afterLookups a

def checkResumePhase (s : CreateSys) (a : CreateArgs) : CreatePhase :=
  match checkResume s a (a.sessionId.getD "") with
  | some r => .done r
  | none => .flushJob

/-- A committed row holds the slot. -/
def taken (slot : CreatedRun → Option (ℕ × String)) (rows : List CreatedRun) (row : CreatedRun) : Bool :=
  rows.any fun r => slot r ≠ none && slot r = slot row

/-- The handler of `IntegrityError`: the run key's hit is handed over as it is. -/
def recoverPhase (s : CreateSys) (a : CreateArgs) : CreatePhase :=
  if present a.jobIdempotencyKey then .done ((replayedRun E s a).getD .integrityError)
  else if present a.idempotencyKey then
    match findByIdempotency s a.runSlot with
    | some hit => .done (.existing hit.id)
    | none => .done .integrityError
  else .done .integrityError

inductive CreateAct where
  | call (args : CreateArgs)
  | step (i : ℕ) (now : Time)
  | lifecycle (runId : ℕ) (live : RunLive)

/-- The next statement of a call; an insert waits while another open transaction holds its slot. -/
def stepCreate (s : CreateSys) (i : ℕ) (c : CreateCall) (now : Time) : Option CreateSys :=
  match c.phase with
  | .findRun => some (s.setPhase i c (findRunPhase E s c.args))
  | .findJob => some (s.setPhase i c (findJobPhase E s c.args now))
  | .checkResume => some (s.setPhase i c (checkResumePhase s c.args))
  | .flushJob =>
    let row := newRun E c.args s.nextId now
    if taken CreatedRun.jobSlot s.openJobs row then none
    else some { s.setPhase i c (if taken CreatedRun.jobSlot s.rows row then .recover else .flushRun row) with
      nextId := s.nextId + 1 }
  | .flushRun row =>
    if taken CreatedRun.runSlot s.openRuns row then none
    else some (s.setPhase i c (if taken CreatedRun.runSlot s.rows row then .recover else .commit row))
  | .commit row => some { s.setPhase i c (.done (.created row.id)) with rows := s.rows ++ [row] }
  | .recover => some (s.setPhase i c (recoverPhase E s c.args))
  | .done _ => none

def CreateSys.step (s : CreateSys) : CreateAct → Option CreateSys
  | .call args => some { s with calls := s.calls ++ [⟨args, firstPhase args⟩] }
  | .step i now =>
    match s.calls[i]? with
    | none => none
    | some c => stepCreate E s i c now
  | .lifecycle runId live => some { s with live := Function.update s.live runId live }

/-! ### What else writes the tables -/

/-- A step of `create_run` or of a run's worker; a job of `submit_job_ex`, which has no row in `agent_runs`;
or a pass of `purge_finished_jobs` over the rows it selects. -/
inductive TableAct where
  | create (a : CreateAct)
  | submitted (job : CreatedRun)
  | purge (ids : List ℕ)

/-- Both indexes guard every writer; a purge takes a job's row in `agent_runs` along, and no unfinished job. -/
def CreateSys.tableStep (s : CreateSys) : TableAct → Option CreateSys
  | .create a => s.step E a
  | .submitted job =>
    if job.idempotencyKey = none ∧ taken CreatedRun.jobSlot (s.rows ++ s.openJobs) job = false then
      some { s with rows := s.rows ++ [{ job with id := s.nextId }], nextId := s.nextId + 1 }
    else none
  | .purge ids =>
    if ∀ r ∈ s.rows, r.id ∈ ids → inFlight (s.live r.id).status = false then
      some { s with rows := s.rows.filter fun r => decide (r.id ∉ ids) }
    else none

/-! ### The family of one key -/

/-- The calls of one project that share one of the two keys. -/
structure KeyFamily where
  byJob : Bool
  projectId : ℕ
  key : String
  key_ne : key ≠ ""

namespace KeyFamily

variable (F : KeyFamily)

def slot : ℕ × String := (F.projectId, F.key)

def argSlot (a : CreateArgs) : Option (ℕ × String) := if F.byJob then a.jobSlot else a.runSlot

def rowSlot (r : CreatedRun) : Option (ℕ × String) := if F.byJob then r.jobSlot else r.runSlot

/-- The call carries the key. -/
def Includes (a : CreateArgs) : Prop := F.argSlot a = some F.slot

/-- The row holds the key. -/
def Owns (r : CreatedRun) : Prop := F.rowSlot r = some F.slot

instance (a : CreateArgs) : Decidable (F.Includes a) := inferInstanceAs (Decidable (_ = _))

instance (r : CreatedRun) : Decidable (F.Owns r) := inferInstanceAs (Decidable (_ = _))

/-- **The condition on the next statement of a call with the key**: the lookups find no other run than the
key's (the one for an unfinished run of the payload looks at no key); no resume check refuses the call; and
it loses no race for its rows, but, for the run key, one that leads back to the key's run with its own
payload, or to a comparison with it. -/
def SoundCall (s : CreateSys) (c : CreateCall) (now : Time) : Prop :=
  match c.phase with
  | .findRun => ∀ hit ∈ findByIdempotency s c.args.runSlot, F.Owns hit
  | .findJob =>
    if present c.args.jobIdempotencyKey then ∀ w ∈ s.rows, w.jobSlot = c.args.jobSlot → F.Owns w
    else ∀ hit ∈ findInflight E s c.args now, F.Owns hit
  | .checkResume => checkResume s c.args (c.args.sessionId.getD "") = none
  | .flushJob => F.byJob = false → ∀ w ∈ s.rows, w.jobSlot ≠ none → w.jobSlot = c.args.jobSlot →
      F.Owns w ∧ (present c.args.jobIdempotencyKey = true ∨ w.payloadHash = c.args.hash E)
  | .flushRun _ => ∀ w ∈ s.rows, w.runSlot ≠ none → w.runSlot = c.args.runSlot →
      F.byJob = false ∧ present c.args.jobIdempotencyKey = false ∧ w.payloadHash = c.args.hash E
  | _ => True

/-- The condition on a step; beside it, the key's run is not purged. -/
def Sound (s : CreateSys) : TableAct → Prop
  | .create (.step i now) => ∀ c ∈ s.calls[i]?, F.Includes c.args → F.SoundCall E s c now
  | .purge ids => ∀ r ∈ s.rows, F.Owns r → r.id ∉ ids
  | _ => True

instance (s : CreateSys) (c : CreateCall) (now : Time) : Decidable (F.SoundCall E s c now) := by
  unfold SoundCall
  split <;> infer_instance

instance (s : CreateSys) : (a : TableAct) → Decidable (F.Sound E s a)
  | .create (.step i _) => inferInstanceAs (Decidable (∀ c ∈ s.calls[i]?, _ → _))
  | .purge _ => inferInstanceAs (Decidable (∀ r ∈ s.rows, _ → _))
  | .create (.call _) | .create (.lifecycle _ _) | .submitted _ => .isTrue trivial

/-- How a call may end, given the rows: on the key's run, by the comparison of the hashes. -/
def Answers (rows : List CreatedRun) (a : CreateArgs) (r : CreateResult) : Prop :=
  ∃ row ∈ rows, F.Owns row ∧
    ((row.payloadHash = a.hash E ∧ (r = .created row.id ∨ r = .existing row.id)) ∨
      (row.payloadHash ≠ a.hash E ∧ (r = .runConflict ∨ r = .idempotencyConflict row.id)))

end KeyFamily

/-- What holds of a call, given the committed rows; a call with the key may rely on more. -/
def CreateCall.Ok (F : KeyFamily) (rows : List CreatedRun) (c : CreateCall) : Prop :=
  match c.phase with
  | .flushRun row | .commit row =>
    row.payloadHash = c.args.hash E ∧ row.jobSlot = c.args.jobSlot ∧ row.runSlot = c.args.runSlot
  | .recover => F.Includes c.args → ∃ row ∈ rows, F.Owns row ∧
      ((present c.args.jobIdempotencyKey = true ∧ row.jobSlot = c.args.jobSlot) ∨
        (present c.args.jobIdempotencyKey = false ∧ F.byJob = false ∧ row.payloadHash = c.args.hash E))
  | .done r => F.Includes c.args → F.Answers E rows c.args r
  | _ => True

structure CreateSys.Inv (F : KeyFamily) (s : CreateSys) : Prop where
  jobs : Unique CreatedRun.jobSlot (s.rows ++ s.openJobs)
  runs : Unique CreatedRun.runSlot (s.rows ++ s.openRuns)
  calls : ∀ c ∈ s.calls, c.Ok E F s.rows

variable {E} {F : KeyFamily} {s s' : CreateSys} {c : CreateCall}

theorem CreateSys.inv_init : CreateSys.Inv E F {} := ⟨List.Pairwise.nil, List.Pairwise.nil, by simp⟩

/-- A key has one committed run at most. -/
theorem CreateSys.Inv.rows_eq (hi : s.Inv E F) {r r' : CreatedRun} (hr : r ∈ s.rows) (hr' : r' ∈ s.rows)
    (hown : F.Owns r) (hown' : F.Owns r') : r = r' := by
  unfold KeyFamily.Owns KeyFamily.rowSlot at hown hown'
  by_cases hj : F.byJob = true
  · rw [if_pos hj] at hown hown'
    exact hi.jobs.eq_of_slot (List.mem_append_left _ hr) (List.mem_append_left _ hr') hown hown'
  · rw [if_neg hj] at hown hown'
    exact hi.runs.eq_of_slot (List.mem_append_left _ hr) (List.mem_append_left _ hr') hown hown'

theorem present_of_slot {key : Option String} {p : ℕ} (h : key.map (fun k => (p, k)) = some F.slot) :
    present key = true := by
  obtain ⟨k, rfl, hk⟩ := Option.map_eq_some_iff.mp h
  have hne := F.key_ne
  simp only [KeyFamily.slot, Prod.mk.injEq] at hk
  simpa [present, hk.2] using hne

theorem KeyFamily.includes_job (h : F.Includes c.args) (hj : F.byJob = true) :
    present c.args.jobIdempotencyKey = true ∧ c.args.jobSlot = some F.slot := by
  rw [KeyFamily.Includes, KeyFamily.argSlot, hj] at h
  exact ⟨present_of_slot h, h⟩

theorem KeyFamily.includes_run (h : F.Includes c.args) (hj : F.byJob = false) :
    present c.args.idempotencyKey = true ∧ c.args.runSlot = some F.slot := by
  rw [KeyFamily.Includes, KeyFamily.argSlot, hj] at h
  exact ⟨present_of_slot h, h⟩

theorem KeyFamily.owns_of_jobSlot (h : F.Includes c.args) (hj : F.byJob = true) {row : CreatedRun}
    (hslot : row.jobSlot = c.args.jobSlot) : F.Owns row := by
  rw [KeyFamily.Owns, KeyFamily.rowSlot, hj]
  exact hslot.trans (KeyFamily.includes_job h hj).2

theorem KeyFamily.owns_of_runSlot (h : F.Includes c.args) (hj : F.byJob = false) {row : CreatedRun}
    (hslot : row.runSlot = c.args.runSlot) : F.Owns row := by
  rw [KeyFamily.Owns, KeyFamily.rowSlot, hj]
  exact hslot.trans (KeyFamily.includes_run h hj).2

/-- A call relies on the key's run only. -/
theorem CreateCall.Ok.mono {rows rows' : List CreatedRun} (h : c.Ok E F rows)
    (hsub : ∀ r ∈ rows, F.Owns r → r ∈ rows') : c.Ok E F rows' := by
  unfold CreateCall.Ok at h ⊢
  split at h
  · exact h
  · exact h
  · intro hfam
    obtain ⟨row, hrow, hown, hfacts⟩ := h hfam
    exact ⟨row, hsub row hrow hown, hown, hfacts⟩
  · intro hfam
    obtain ⟨row, hrow, hown, hfacts⟩ := h hfam
    exact ⟨row, hsub row hrow hown, hown, hfacts⟩
  · trivial

/-! ### What the statements find -/

/-- The key's run settles a call once the hashes are compared. -/
theorem answers_of_compare {rows : List CreatedRun} {row : CreatedRun} (hrow : row ∈ rows) (hown : F.Owns row)
    (a : CreateArgs) {r r' : CreateResult} (hr : r = .created row.id ∨ r = .existing row.id)
    (hr' : r' = .runConflict ∨ r' = .idempotencyConflict row.id) :
    F.Answers E rows a (if row.payloadHash = a.hash E then r else r') := by
  refine ⟨row, hrow, hown, ?_⟩
  split_ifs with hh
  · exact .inl ⟨hh, hr⟩
  · exact .inr ⟨hh, hr'⟩

/-- The lookup of the job key answers with the key's run when the job key leads to it. -/
theorem replayedRun_some {a : CreateArgs} {r : CreateResult}
    (hown : ∀ w ∈ s.rows, w.jobSlot = a.jobSlot → F.Owns w) (h : replayedRun E s a = some r) :
    F.Answers E s.rows a r := by
  obtain ⟨row, hfind, rfl⟩ := Option.map_eq_some_iff.mp h
  have hrow := List.mem_of_find?_eq_some hfind
  have hslot : row.jobSlot = a.jobSlot := by simpa using List.find?_some hfind
  exact answers_of_compare hrow (hown row hrow hslot) a (.inr rfl) (.inr rfl)

theorem findInflight_some {a : CreateArgs} {now : Time} {hit : CreatedRun}
    (h : findInflight E s a now = some hit) :
    hit ∈ s.rows ∧ hit.payloadHash = a.hash E := by
  have hmem := List.mem_of_mem_head? h
  rw [List.mem_insertionSort, List.mem_filter] at hmem
  simp only [Bool.and_eq_true, decide_eq_true_eq] at hmem
  exact ⟨hmem.1, hmem.2.1.1.2⟩

theorem ok_afterLookups (rows : List CreatedRun) (c : CreateCall) :
    ({ c with phase := afterLookups c.args } : CreateCall).Ok E F rows := by
  unfold afterLookups
  split_ifs <;> trivial

theorem ok_findRunPhase
    (hsound : F.Includes c.args → ∀ hit ∈ findByIdempotency s c.args.runSlot, F.Owns hit) :
    ({ c with phase := findRunPhase E s c.args } : CreateCall).Ok E F s.rows := by
  unfold findRunPhase
  split
  · rename_i hit hhit
    intro hfam
    exact answers_of_compare (List.mem_of_find?_eq_some hhit) (hsound hfam hit hhit) c.args (.inr rfl) (.inl rfl)
  · trivial

theorem ok_findJobPhase {now : Time} (hsound : F.Includes c.args →
      if present c.args.jobIdempotencyKey then ∀ w ∈ s.rows, w.jobSlot = c.args.jobSlot → F.Owns w
      else ∀ hit ∈ findInflight E s c.args now, F.Owns hit) :
    ({ c with phase := findJobPhase E s c.args now } : CreateCall).Ok E F s.rows := by
  unfold findJobPhase
  by_cases hkey : present c.args.jobIdempotencyKey = true
  · simp only [if_pos hkey] at hsound ⊢
    split
    · rename_i r hr
      intro hfam
      exact replayedRun_some (hsound hfam) hr
    · exact ok_afterLookups s.rows c
  · simp only [if_neg hkey] at hsound ⊢
    split
    · rename_i hit hhit
      intro hfam
      obtain ⟨hmem, hh⟩ := findInflight_some hhit
      exact ⟨hit, hmem, hsound hfam hit hhit, .inl ⟨hh, .inr rfl⟩⟩
    · exact ok_afterLookups s.rows c

theorem exists_recoverPhase (E : HashEnv) (s : CreateSys) (a : CreateArgs) :
    ∃ r, recoverPhase E s a = .done r := by
  unfold recoverPhase
  split_ifs
  · exact ⟨_, rfl⟩
  · split
    · exact ⟨_, rfl⟩
    · exact ⟨_, rfl⟩
  · exact ⟨_, rfl⟩

theorem exists_jobSlot {a : CreateArgs} (h : present a.jobIdempotencyKey = true) : ∃ k, a.jobSlot = some k := by
  unfold CreateArgs.jobSlot
  cases hkey : a.jobIdempotencyKey with
  | none => simp [present, hkey] at h
  | some k => exact ⟨_, rfl⟩

/-- After a lost race the winner is found; without a job key its payload is the call's own. -/
theorem ok_recoverPhase (hi : s.Inv E F) (hc : c.phase = .recover) (hok : c.Ok E F s.rows) :
    ({ c with phase := recoverPhase E s c.args } : CreateCall).Ok E F s.rows := by
  obtain ⟨r, hr⟩ := exists_recoverPhase E s c.args
  rw [hr]
  intro hfam
  rw [CreateCall.Ok, hc] at hok
  unfold recoverPhase at hr
  obtain ⟨row, hrow, hown, ⟨hj, hslot⟩ | ⟨hj, hrun, hh⟩⟩ := hok hfam
  · rw [if_pos hj] at hr
    cases hreplay : replayedRun E s c.args with
    | none =>
      have hnone : s.rows.find? (fun r => decide (r.jobSlot = c.args.jobSlot)) = none := by
        simpa [replayedRun] using hreplay
      exact absurd hslot (by simpa using List.find?_eq_none.mp hnone row hrow)
    | some r' =>
      obtain rfl : r' = r := by simpa [hreplay] using hr
      -- the job key leads to one row
      refine replayedRun_some (fun w hw hwslot => ?_) hreplay
      obtain ⟨k, hk⟩ := exists_jobSlot hj
      obtain rfl := hi.jobs.eq_of_slot (List.mem_append_left _ hw) (List.mem_append_left _ hrow)
        (hwslot.trans hk) (hslot.trans hk)
      exact hown
  · obtain ⟨hkey, hkeySlot⟩ := KeyFamily.includes_run hfam hrun
    rw [if_neg (by simp [hj]), if_pos hkey] at hr
    have hslot : row.runSlot = c.args.runSlot := by
      rw [hkeySlot]
      simpa [KeyFamily.Owns, KeyFamily.rowSlot, hrun] using hown
    cases hfind : findByIdempotency s c.args.runSlot with
    | none => exact absurd hslot (by simpa using List.find?_eq_none.mp hfind row hrow)
    | some hit =>
      have hmem := List.mem_of_find?_eq_some hfind
      have hhit : hit.runSlot = c.args.runSlot := by simpa using List.find?_some hfind
      obtain rfl := hi.rows_eq hmem hrow (KeyFamily.owns_of_runSlot hfam hrun hhit) hown
      rw [hfind] at hr
      obtain rfl := CreatePhase.done.inj hr
      exact ⟨hit, hmem, hown, .inl ⟨hh, .inr rfl⟩⟩

/-! ### The invariant holds in every run -/

/-- One call moves: what it held and what it holds, beside what the other calls hold. -/
theorem CreateSys.Inv.set (hi : s.Inv E F) {i : ℕ} (hc : s.calls[i]? = some c) {p : CreatePhase}
    {rows' : List CreatedRun} (hsub : ∀ r ∈ s.rows, r ∈ rows')
    (hjobs : ∀ rest, s.openJobs.Perm (c.openJob.toList ++ rest) →
      Unique CreatedRun.jobSlot (s.rows ++ (c.openJob.toList ++ rest)) →
      Unique CreatedRun.jobSlot (rows' ++ (({ c with phase := p } : CreateCall).openJob.toList ++ rest)))
    (hruns : ∀ rest, s.openRuns.Perm (c.openRun.toList ++ rest) →
      Unique CreatedRun.runSlot (s.rows ++ (c.openRun.toList ++ rest)) →
      Unique CreatedRun.runSlot (rows' ++ (({ c with phase := p } : CreateCall).openRun.toList ++ rest)))
    (hok : ({ c with phase := p } : CreateCall).Ok E F rows') (n : ℕ) :
    CreateSys.Inv E F { s.setPhase i c p with rows := rows', nextId := n } := by
  obtain ⟨restJ, hbeforeJ, hafterJ⟩ := filterMap_set_perm (f := CreateCall.openJob) hc
  obtain ⟨restR, hbeforeR, hafterR⟩ := filterMap_set_perm (f := CreateCall.openRun) hc
  refine ⟨?_, ?_, fun d hd => ?_⟩
  · exact (hjobs restJ hbeforeJ (hi.jobs.perm (hbeforeJ.append_left _))).perm
      ((hafterJ { c with phase := p }).symm.append_left _)
  · exact (hruns restR hbeforeR (hi.runs.perm (hbeforeR.append_left _))).perm
      ((hafterR { c with phase := p }).symm.append_left _)
  · rcases List.mem_or_eq_of_mem_set hd with hd | rfl
    · exact (hi.calls d hd).mono fun r hr _ => hsub r hr
    · exact hok

/-- The phases without an open row. -/
def CreatePhase.closed : CreatePhase → Bool
  | .flushRun _ | .commit _ => false
  | _ => true

theorem openJob_of_closed (h : c.phase.closed = true) : c.openJob = none := by
  unfold CreateCall.openJob
  cases hp : c.phase <;> simp_all [CreatePhase.closed]

theorem openRun_of_closed (h : c.phase.closed = true) : c.openRun = none := by
  unfold CreateCall.openRun
  cases hp : c.phase <;> simp_all [CreatePhase.closed]

theorem closed_afterLookups (a : CreateArgs) : (afterLookups a).closed = true := by
  unfold afterLookups
  split_ifs <;> rfl

theorem closed_findRunPhase (E : HashEnv) (s : CreateSys) (a : CreateArgs) :
    (findRunPhase E s a).closed = true := by
  unfold findRunPhase
  split <;> rfl

theorem closed_findJobPhase (E : HashEnv) (s : CreateSys) (a : CreateArgs) (now : Time) :
    (findJobPhase E s a now).closed = true := by
  unfold findJobPhase
  split_ifs
  · split
    · rfl
    · exact closed_afterLookups a
  · split
    · rfl
    · exact closed_afterLookups a

theorem closed_checkResumePhase (s : CreateSys) (a : CreateArgs) : (checkResumePhase s a).closed = true := by
  unfold checkResumePhase
  split <;> rfl

theorem closed_recoverPhase (E : HashEnv) (s : CreateSys) (a : CreateArgs) :
    (recoverPhase E s a).closed = true := by
  obtain ⟨r, hr⟩ := exists_recoverPhase E s a
  rw [hr]
  rfl

/-- A move between phases without an open row. -/
theorem CreateSys.Inv.quiet (hi : s.Inv E F) {i : ℕ} (hc : s.calls[i]? = some c) {p : CreatePhase}
    (hbefore : c.phase.closed = true) (hafter : p.closed = true)
    (hok : ({ c with phase := p } : CreateCall).Ok E F s.rows) (n : ℕ) :
    CreateSys.Inv E F { s.setPhase i c p with nextId := n } := by
  have hclosed : ({ c with phase := p } : CreateCall).phase.closed = true := hafter
  refine hi.set hc (fun _ h => h) (fun _ _ h => ?_) (fun _ _ h => ?_) hok n
  · rwa [openJob_of_closed hclosed, ← openJob_of_closed hbefore]
  · rwa [openRun_of_closed hclosed, ← openRun_of_closed hbefore]

theorem slot_ne_of_taken {slot : CreatedRun → Option (ℕ × String)} {rows : List CreatedRun} {row : CreatedRun}
    (h : taken slot rows row = false) {k : ℕ × String} (hk : slot row = some k) :
      ∀ x ∈ rows, slot x ≠ some k := by
  intro x hx hxk
  have := List.any_eq_false.mp h x hx
  simp [hxk, hk] at this

theorem exists_of_taken {slot : CreatedRun → Option (ℕ × String)} {rows : List CreatedRun} {row : CreatedRun}
    (h : taken slot rows row = true) : ∃ w ∈ rows, slot w ≠ none ∧ slot w = slot row := by
  obtain ⟨w, hw, hslot⟩ := List.any_eq_true.mp h
  rw [Bool.and_eq_true, decide_eq_true_eq, decide_eq_true_eq] at hslot
  exact ⟨w, hw, hslot⟩

/-- The condition on the next statement of a call with the key. -/
theorem KeyFamily.Sound.call {i : ℕ} {now : Time} (h : F.Sound E s (.create (.step i now)))
    (hc : s.calls[i]? = some c) (hfam : F.Includes c.args) : F.SoundCall E s c now := h c hc hfam

/-- A lost race for the job slot leaves what the recovery needs. -/
theorem ok_lostJob {w : CreatedRun} (hw : w ∈ s.rows) (hslot : w.jobSlot = c.args.jobSlot)
    (hsound : F.Includes c.args → F.byJob = false →
      F.Owns w ∧ (present c.args.jobIdempotencyKey = true ∨ w.payloadHash = c.args.hash E)) :
    ({ c with phase := .recover } : CreateCall).Ok E F s.rows := by
  intro hfam
  by_cases hj : F.byJob = true
  · exact ⟨w, hw, KeyFamily.owns_of_jobSlot hfam hj hslot, .inl ⟨(KeyFamily.includes_job hfam hj).1, hslot⟩⟩
  · have hj : F.byJob = false := by simpa using hj
    obtain ⟨hown, hkey⟩ := hsound hfam hj
    by_cases hp : present c.args.jobIdempotencyKey = true
    · exact ⟨w, hw, hown, .inl ⟨hp, hslot⟩⟩
    · exact ⟨w, hw, hown, .inr ⟨by simpa using hp, hj, hkey.resolve_left hp⟩⟩

theorem CreateSys.Inv.flushJob (hi : s.Inv E F) {i : ℕ} {now : Time} (hc : s.calls[i]? = some c)
    (hphase : c.phase = .flushJob) (hsound : F.Sound E s (.create (.step i now)))
    (hfree : taken CreatedRun.jobSlot s.openJobs (newRun E c.args s.nextId now) = false) :
    CreateSys.Inv E F { s.setPhase i c
      (if taken CreatedRun.jobSlot s.rows (newRun E c.args s.nextId now) then .recover
        else .flushRun (newRun E c.args s.nextId now)) with nextId := s.nextId + 1 } := by
  have hclosed : c.phase.closed = true := by rw [hphase]; rfl
  split_ifs with htaken
  · obtain ⟨w, hw, hne, hslot⟩ := exists_of_taken htaken
    refine hi.quiet hc hclosed rfl (ok_lostJob hw hslot fun hfam hj => ?_) _
    have hcond := hsound.call hc hfam
    rw [KeyFamily.SoundCall, hphase] at hcond
    exact hcond hj w hw hne hslot
  · refine hi.set hc (fun _ h => h) (fun rest hperm h => ?_) (fun _ _ h => ?_) ?_ _
    · -- the slot is free among the committed rows and the open ones
      rw [openJob_of_closed hclosed] at h hperm
      refine Unique.perm (Unique.cons h fun k hk x hx => ?_) List.perm_middle.symm
      rcases List.mem_append.mp hx with hx | hx
      · exact slot_ne_of_taken (by simpa using htaken) hk x hx
      · exact slot_ne_of_taken hfree hk x (hperm.mem_iff.mpr hx)
    · rw [openRun_of_closed hclosed] at h
      exact h
    · exact ⟨rfl, rfl, rfl⟩

theorem CreateSys.Inv.flushRun (hi : s.Inv E F) {i : ℕ} {now : Time} {row : CreatedRun}
    (hc : s.calls[i]? = some c)
    (hphase : c.phase = .flushRun row) (hsound : F.Sound E s (.create (.step i now)))
    (hfree : taken CreatedRun.runSlot s.openRuns row = false) :
    CreateSys.Inv E F (s.setPhase i c
      (if taken CreatedRun.runSlot s.rows row then .recover else .commit row)) := by
  have hok := hi.calls c (List.mem_of_getElem? hc)
  rw [CreateCall.Ok, hphase] at hok
  obtain ⟨hhash, hjob, hrun⟩ := hok
  have hopenJob : c.openJob = some row := by simp [CreateCall.openJob, hphase]
  have hopenRun : c.openRun = none := by simp [CreateCall.openRun, hphase]
  split_ifs with htaken
  · obtain ⟨w, hw, hne, hslot⟩ := exists_of_taken htaken
    refine hi.set hc (fun _ h => h) (fun rest _ h => ?_) (fun _ _ h => ?_) ?_ _
    · rw [hopenJob] at h
      exact h.subperm ((List.subperm_append_left _).mpr (List.sublist_cons_self row rest).subperm)
    · rw [hopenRun] at h
      exact h
    · intro hfam
      have hcond := hsound.call hc hfam
      rw [KeyFamily.SoundCall, hphase] at hcond
      obtain ⟨hj, hp, hh⟩ := hcond w hw hne (hslot.trans hrun)
      exact ⟨w, hw, KeyFamily.owns_of_runSlot hfam hj (hslot.trans hrun), .inr ⟨hp, hj, hh⟩⟩
  · refine hi.set hc (fun _ h => h) (fun rest _ h => ?_) (fun rest hperm h => ?_) ?_ _
    · rw [hopenJob] at h
      exact h
    · rw [hopenRun] at h hperm
      refine Unique.perm (Unique.cons h fun k hk x hx => ?_) List.perm_middle.symm
      rcases List.mem_append.mp hx with hx | hx
      · exact slot_ne_of_taken (by simpa using htaken) hk x hx
      · exact slot_ne_of_taken hfree hk x (hperm.mem_iff.mpr hx)
    · exact ⟨hhash, hjob, hrun⟩

theorem CreateSys.Inv.commit (hi : s.Inv E F) {i : ℕ} {row : CreatedRun} (hc : s.calls[i]? = some c)
    (hphase : c.phase = .commit row) :
    CreateSys.Inv E F { s.setPhase i c (.done (.created row.id)) with rows := s.rows ++ [row] } := by
  have hok := hi.calls c (List.mem_of_getElem? hc)
  rw [CreateCall.Ok, hphase] at hok
  obtain ⟨hhash, hjob, hrun⟩ := hok
  have hopenJob : c.openJob = some row := by simp [CreateCall.openJob, hphase]
  have hopenRun : c.openRun = some row := by simp [CreateCall.openRun, hphase]
  refine hi.set hc (fun r hr => List.mem_append_left _ hr) (fun rest _ h => ?_) (fun rest _ h => ?_)
    ?_ _
  · rw [hopenJob] at h
    rw [List.append_assoc]
    exact h
  · rw [hopenRun] at h
    rw [List.append_assoc]
    exact h
  · intro hfam
    have hown : F.Owns row := by
      rw [KeyFamily.Owns, KeyFamily.rowSlot, hjob, hrun]
      exact hfam
    exact ⟨row, by simp, hown, .inl ⟨hhash, .inl rfl⟩⟩

/-- What the next statement of a call can do: it reads, it inserts unless its slot is held, or it commits. -/
inductive CreateMove (E : HashEnv) (s : CreateSys) (i : ℕ) (c : CreateCall) (now : Time) : CreateSys → Prop
  | findRun (hphase : c.phase = .findRun) : CreateMove E s i c now (s.setPhase i c (findRunPhase E s c.args))
  | findJob (hphase : c.phase = .findJob) :
      CreateMove E s i c now (s.setPhase i c (findJobPhase E s c.args now))
  | checkResume (hphase : c.phase = .checkResume) :
      CreateMove E s i c now (s.setPhase i c (checkResumePhase s c.args))
  | flushJob (hphase : c.phase = .flushJob)
      (hfree : taken CreatedRun.jobSlot s.openJobs (newRun E c.args s.nextId now) = false) :
      CreateMove E s i c now
        { s.setPhase i c (if taken CreatedRun.jobSlot s.rows (newRun E c.args s.nextId now) then .recover
            else .flushRun (newRun E c.args s.nextId now)) with nextId := s.nextId + 1 }
  | flushRun (row : CreatedRun) (hphase : c.phase = .flushRun row)
      (hfree : taken CreatedRun.runSlot s.openRuns row = false) :
      CreateMove E s i c now (s.setPhase i c (if taken CreatedRun.runSlot s.rows row then .recover else .commit row))
  | commit (row : CreatedRun) (hphase : c.phase = .commit row) :
      CreateMove E s i c now { s.setPhase i c (.done (.created row.id)) with rows := s.rows ++ [row] }
  | recover (hphase : c.phase = .recover) : CreateMove E s i c now (s.setPhase i c (recoverPhase E s c.args))

theorem stepCreate_move {i : ℕ} {now : Time} (h : stepCreate E s i c now = some s') :
    CreateMove E s i c now s' := by
  unfold stepCreate at h
  cases hphase : c.phase with
  | flushJob =>
    rw [hphase] at h
    by_cases hblocked : taken CreatedRun.jobSlot s.openJobs (newRun E c.args s.nextId now) = true
    · simp only [hblocked, if_true] at h
      cases h
    · simp only [if_neg hblocked] at h
      obtain rfl := Option.some.inj h
      exact .flushJob hphase (by simpa using hblocked)
  | flushRun row =>
    rw [hphase] at h
    by_cases hblocked : taken CreatedRun.runSlot s.openRuns row = true
    · simp only [hblocked, if_true] at h
      cases h
    · simp only [if_neg hblocked] at h
      obtain rfl := Option.some.inj h
      exact .flushRun row hphase (by simpa using hblocked)
  | done r =>
    rw [hphase] at h
    cases h
  | findRun =>
    rw [hphase] at h
    obtain rfl := Option.some.inj h
    exact .findRun hphase
  | findJob =>
    rw [hphase] at h
    obtain rfl := Option.some.inj h
    exact .findJob hphase
  | checkResume =>
    rw [hphase] at h
    obtain rfl := Option.some.inj h
    exact .checkResume hphase
  | commit row =>
    rw [hphase] at h
    obtain rfl := Option.some.inj h
    exact .commit row hphase
  | recover =>
    rw [hphase] at h
    obtain rfl := Option.some.inj h
    exact .recover hphase

theorem CreateSys.Inv.move (hi : s.Inv E F) {i : ℕ} {now : Time} (hc : s.calls[i]? = some c)
    (hsound : F.Sound E s (.create (.step i now))) (hmove : CreateMove E s i c now s') : s'.Inv E F := by
  have hok := hi.calls c (List.mem_of_getElem? hc)
  cases hmove with
  | findRun hphase =>
    refine hi.quiet hc (by rw [hphase]; rfl) (closed_findRunPhase E s c.args) (ok_findRunPhase fun hfam => ?_) _
    simpa only [KeyFamily.SoundCall, hphase] using hsound.call hc hfam
  | findJob hphase =>
    refine hi.quiet hc (by rw [hphase]; rfl) (closed_findJobPhase E s c.args now) (ok_findJobPhase fun hfam => ?_) _
    simpa only [KeyFamily.SoundCall, hphase] using hsound.call hc hfam
  | checkResume hphase =>
    refine hi.quiet hc (by rw [hphase]; rfl) (closed_checkResumePhase s c.args) ?_ _
    unfold checkResumePhase
    split
    · rename_i r hr
      intro hfam
      -- the condition lets no refused resume in
      have hcond := hsound.call hc hfam
      rw [KeyFamily.SoundCall, hphase, hr] at hcond
      cases hcond
    · trivial
  | flushJob hphase hfree => exact hi.flushJob hc hphase hsound hfree
  | flushRun row hphase hfree => exact hi.flushRun hc hphase hsound hfree
  | commit row hphase => exact hi.commit hc hphase
  | recover hphase =>
    exact hi.quiet hc (by rw [hphase]; rfl) (closed_recoverPhase E s c.args) (ok_recoverPhase hi hphase hok) _

theorem CreateSys.Inv.create (hi : s.Inv E F) {a : CreateAct} (hsound : F.Sound E s (.create a))
    (h : s.step E a = some s') : s'.Inv E F := by
  cases a with
  | call args =>
    obtain rfl := Option.some.inj h
    have hclosed : (firstPhase args).closed = true := by
      unfold firstPhase
      split_ifs <;> rfl
    have hnew : ({ args := args, phase := firstPhase args } : CreateCall).phase.closed = true := hclosed
    refine ⟨?_, ?_, fun d hd => ?_⟩
    · simpa [CreateSys.openJobs, openJob_of_closed hnew] using hi.jobs
    · simpa [CreateSys.openRuns, openRun_of_closed hnew] using hi.runs
    · rcases List.mem_append.mp hd with hd | hd
      · exact hi.calls d hd
      · rw [List.mem_singleton.mp hd]
        unfold firstPhase
        split_ifs <;> trivial
  | step i now =>
    simp only [CreateSys.step] at h
    split at h
    · cases h
    · rename_i c hc
      exact hi.move hc hsound (stepCreate_move h)
  | lifecycle runId live =>
    obtain rfl := Option.some.inj h
    exact ⟨hi.jobs, hi.runs, hi.calls⟩

/-- A job of another writer takes a free job slot and no run slot. -/
theorem CreateSys.Inv.submitted (hi : s.Inv E F) {job : CreatedRun}
    (h : s.tableStep E (.submitted job) = some s') : s'.Inv E F := by
  simp only [CreateSys.tableStep] at h
  split_ifs at h with hguard
  obtain ⟨hkey, hfree⟩ := hguard
  obtain rfl := Option.some.inj h
  have hrow : ∀ (opens : List CreatedRun) (row : CreatedRun),
      (row :: (s.rows ++ opens)).Perm ((s.rows ++ [row]) ++ opens) := by
    intro opens row
    rw [List.append_assoc]
    exact List.perm_middle.symm
  refine ⟨?_, ?_, fun d hd => (hi.calls d hd).mono fun r hr _ => List.mem_append_left _ hr⟩
  · refine Unique.perm (Unique.cons hi.jobs fun k hk => ?_) (hrow s.openJobs { job with id := s.nextId })
    exact slot_ne_of_taken hfree (hk : job.jobSlot = some k)
  · refine Unique.perm (Unique.cons hi.runs fun k hk => ?_) (hrow s.openRuns { job with id := s.nextId })
    rw [CreatedRun.runSlot, hkey] at hk
    cases hk

/-- A purge that spares the key's run. -/
theorem CreateSys.Inv.purge (hi : s.Inv E F) {ids : List ℕ} (hsound : F.Sound E s (.purge ids))
    (h : s.tableStep E (.purge ids) = some s') : s'.Inv E F := by
  simp only [CreateSys.tableStep] at h
  split_ifs at h
  obtain rfl := Option.some.inj h
  have hkeep : ∀ r ∈ s.rows, F.Owns r → r ∈ s.rows.filter fun r => decide (r.id ∉ ids) :=
    fun r hr hown => List.mem_filter.mpr ⟨hr, decide_eq_true (hsound r hr hown)⟩
  refine ⟨?_, ?_, fun d hd => (hi.calls d hd).mono hkeep⟩
  · exact hi.jobs.subperm (List.filter_sublist.append_right _).subperm
  · exact hi.runs.subperm (List.filter_sublist.append_right _).subperm

theorem CreateSys.Inv.step (hi : s.Inv E F) {a : TableAct} (hsound : F.Sound E s a)
    (h : s.tableStep E a = some s') : s'.Inv E F := by
  cases a with
  | create a => exact hi.create hsound h
  | submitted job => exact hi.submitted h
  | purge ids => exact hi.purge hsound h

/-! ### Every call ends -/

/-- How many statements a call has left at most. -/
def CreatePhase.rank : CreatePhase → ℕ
  | .findRun => 6
  | .findJob => 5
  | .checkResume => 4
  | .flushJob => 3
  | .flushRun _ => 2
  | .commit _ | .recover => 1
  | .done _ => 0

def CreateSys.work (s : CreateSys) : ℕ := s.calls.foldr (fun c n => c.phase.rank + n) 0

theorem rank_afterLookups (a : CreateArgs) : (afterLookups a).rank < 5 := by
  unfold afterLookups
  split_ifs <;> decide

/-- Every statement brings its call closer to its end. -/
theorem CreateMove.rank {i : ℕ} {now : Time} (h : CreateMove E s i c now s') :
    ∃ p : CreatePhase, s'.calls = s.calls.set i { c with phase := p } ∧ p.rank < c.phase.rank := by
  cases h with
  | findRun hphase =>
    refine ⟨_, rfl, ?_⟩
    rw [hphase]
    unfold findRunPhase
    split <;> simp [CreatePhase.rank]
  | findJob hphase =>
    have hafter := rank_afterLookups c.args
    refine ⟨_, rfl, ?_⟩
    rw [hphase]
    unfold findJobPhase
    split_ifs
    · split
      · simp [CreatePhase.rank]
      · exact hafter
    · split
      · simp [CreatePhase.rank]
      · exact hafter
  | checkResume hphase =>
    refine ⟨_, rfl, ?_⟩
    rw [hphase]
    unfold checkResumePhase
    split <;> simp [CreatePhase.rank]
  | flushJob hphase hfree | flushRun row hphase hfree =>
    refine ⟨_, rfl, ?_⟩
    rw [hphase]
    split_ifs <;> simp [CreatePhase.rank]
  | commit row hphase =>
    refine ⟨_, rfl, ?_⟩
    rw [hphase]
    exact Nat.zero_lt_one
  | recover hphase =>
    refine ⟨_, rfl, ?_⟩
    rw [hphase]
    unfold recoverPhase
    split_ifs
    · simp [CreatePhase.rank]
    · split <;> simp [CreatePhase.rank]
    · simp [CreatePhase.rank]

theorem foldr_set_lt {α : Type} (f : α → ℕ) {xs : List α} {i : ℕ} {x y : α} (hx : xs[i]? = some x)
    (h : f y < f x) :
    (xs.set i y).foldr (fun a n => f a + n) 0 < xs.foldr (fun a n => f a + n) 0 := by
  induction xs generalizing i with
  | nil => simp at hx
  | cons z xs ih =>
    cases i with
    | zero =>
      obtain rfl : z = x := by simpa using hx
      simpa using h
    | succ i => simpa using ih (i := i) (by simpa using hx)

/-- **No deadlock**: a transaction with both rows commits; without one, nothing blocks the second insert;
without any open row, nothing blocks the first. -/
theorem exists_step {i : ℕ} (hc : s.calls[i]? = some c) (hopen : ∀ r, c.phase ≠ .done r) :
    ∃ j d s', s.calls[j]? = some d ∧ stepCreate E s j d 0 = some s' := by
  by_cases hcommit : ∃ (j : ℕ) (d : CreateCall) (row : CreatedRun), s.calls[j]? = some d ∧
    d.phase = .commit row
  · obtain ⟨j, d, row, hd, hphase⟩ := hcommit
    exact ⟨j, d, _, hd, by simp only [stepCreate, hphase]; rfl⟩
  · have hruns : s.openRuns = [] := by
      refine List.eq_nil_iff_forall_not_mem.mpr fun row hrow => ?_
      obtain ⟨d, hd, hopenRun⟩ := List.mem_filterMap.mp hrow
      obtain ⟨j, hj⟩ := List.mem_iff_getElem?.mp hd
      unfold CreateCall.openRun at hopenRun
      split at hopenRun
      · rename_i row' hphase
        exact hcommit ⟨j, d, row', hj, hphase⟩
      · cases hopenRun
    by_cases hflush : ∃ (j : ℕ) (d : CreateCall) (row : CreatedRun), s.calls[j]? = some d ∧
      d.phase = .flushRun row
    · obtain ⟨j, d, row, hd, hphase⟩ := hflush
      exact ⟨j, d, _, hd, by simp only [stepCreate, hphase, hruns, taken]; rfl⟩
    · have hjobs : s.openJobs = [] := by
        refine List.eq_nil_iff_forall_not_mem.mpr fun row hrow => ?_
        obtain ⟨d, hd, hopenJob⟩ := List.mem_filterMap.mp hrow
        obtain ⟨j, hj⟩ := List.mem_iff_getElem?.mp hd
        unfold CreateCall.openJob at hopenJob
        split at hopenJob
        · rename_i row' hphase
          exact hflush ⟨j, d, row', hj, hphase⟩
        · rename_i row' hphase
          exact hcommit ⟨j, d, row', hj, hphase⟩
        · cases hopenJob
      refine ⟨i, c, ?_⟩
      cases hphase : c.phase with
      | flushRun row => exact absurd ⟨i, c, row, hc, hphase⟩ hflush
      | commit row => exact absurd ⟨i, c, row, hc, hphase⟩ hcommit
      | done r => exact absurd hphase (hopen r)
      | flushJob => exact ⟨_, hc, by simp only [stepCreate, hphase, hjobs, taken]; rfl⟩
      | findRun | findJob | checkResume | recover => exact ⟨_, hc, by simp only [stepCreate, hphase]; rfl⟩

theorem exists_all_done (E : HashEnv) (s : CreateSys) :
    ∃ bs u, Steps (CreateSys.step E) Free s bs u ∧ ∀ c ∈ u.calls, ∃ r, c.phase = .done r := by
  refine exists_run_of_measure (I := fun _ => True) CreateSys.work (fun t _ hgoal => ?_) s trivial
  push Not at hgoal
  obtain ⟨c, hc, hopen⟩ := hgoal
  obtain ⟨i, hi⟩ := List.mem_iff_getElem?.mp hc
  obtain ⟨j, d, t', hd, hstep⟩ := exists_step (E := E) hi hopen
  obtain ⟨p, hcalls, hrank⟩ := (stepCreate_move hstep).rank
  refine ⟨.step j 0, t', ?_, trivial, ?_⟩
  · simp only [CreateSys.step, hd]
    exact hstep
  · unfold CreateSys.work
    rw [hcalls]
    exact foldr_set_lt (fun c : CreateCall => c.phase.rank) hd hrank

/-! ### Idempotency of runs -/

theorem rows_of_step {a : CreateAct} (h : s.step E a = some s') : ∀ r ∈ s.rows, r ∈ s'.rows := by
  intro r hr
  cases a with
  | call args | lifecycle runId live =>
    obtain rfl := Option.some.inj h
    exact hr
  | step i now =>
    simp only [CreateSys.step] at h
    split at h
    · cases h
    · cases stepCreate_move h with
      | commit row hphase => exact List.mem_append_left _ hr
      | findRun _ | findJob _ | checkResume _ | recover _ => exact hr
      | flushJob _ _ | flushRun _ _ _ => exact hr

theorem rows_of_run {C : CreateSys → CreateAct → Prop} {as : List CreateAct}
    (h : Steps (CreateSys.step E) C s as s') : ∀ r ∈ s.rows, r ∈ s'.rows := by
  refine h.rel (I := fun _ => True) (R := fun t u => ∀ r ∈ t.rows, r ∈ u.rows) ?_ ?_ ?_ ?_ trivial
  · exact fun _ _ _ _ _ _ => trivial
  · exact fun _ r hr => hr
  · exact fun _ _ _ h₁ h₂ r hr => h₂ r (h₁ r hr)
  · exact fun _ _ _ _ _ hs => rows_of_step hs

/-- The key's run stays while it is not purged. -/
theorem owned_of_tableStep {a : TableAct} (hsound : F.Sound E s a) (h : s.tableStep E a = some s') :
    ∀ r ∈ s.rows, F.Owns r → r ∈ s'.rows := by
  intro r hr hown
  cases a with
  | create a => exact rows_of_step h r hr
  | submitted job =>
    simp only [CreateSys.tableStep] at h
    split_ifs at h
    obtain rfl := Option.some.inj h
    exact List.mem_append_left _ hr
  | purge ids =>
    simp only [CreateSys.tableStep] at h
    split_ifs at h
    obtain rfl := Option.some.inj h
    exact List.mem_filter.mpr ⟨hr, decide_eq_true (hsound r hr hown)⟩

theorem owned_of_run {as : List TableAct} (h : Steps (CreateSys.tableStep E) (F.Sound E) s as s') :
    ∀ r ∈ s.rows, F.Owns r → r ∈ s'.rows := by
  induction h with
  | nil => exact fun _ hr _ => hr
  | snoc _ hsound hstep ih => exact fun r hr hown => owned_of_tableStep hsound hstep r (ih r hr hown) hown

/-- A run of `create_run`'s statements alone. -/
theorem Steps.tables {as : List CreateAct} (h : Steps (CreateSys.step E) Free s as s') :
    Steps (CreateSys.tableStep E) Free s (as.map .create) s' := by
  induction h with
  | nil => exact .nil _
  | snoc _ _ hstep ih =>
    rw [List.map_append]
    exact ih.snoc trivial hstep

/-- **Idempotency of runs, where it holds**: in every run whose steps all meet the condition, whatever other
calls and writers there are, the key has one run at most, which stays; every call with the key that has ended
is its creator or was handed it if the hashes agree, and was refused otherwise; and all calls can be brought
to their end. -/
theorem create_run_idempotent (E : HashEnv) (F : KeyFamily) {as : List TableAct} {s : CreateSys}
    (h : Steps (CreateSys.tableStep E) (F.Sound E) {} as s) :
    (∀ row ∈ s.rows, ∀ row' ∈ s.rows, F.rowSlot row = some F.slot → F.rowSlot row' = some F.slot → row = row') ∧
    (∀ bs u, Steps (CreateSys.tableStep E) (F.Sound E) s bs u →
      ∀ row ∈ s.rows, F.rowSlot row = some F.slot → row ∈ u.rows) ∧
    (∀ (i : ℕ) (c : CreateCall) (r : CreateResult), s.calls[i]? = some c → F.argSlot c.args = some F.slot →
      c.phase = .done r →
      ∃ row ∈ s.rows, F.rowSlot row = some F.slot ∧
        ((row.payloadHash = c.args.hash E ∧ (r = .created row.id ∨ r = .existing row.id)) ∨
          (row.payloadHash ≠ c.args.hash E ∧ (r = .runConflict ∨ r = .idempotencyConflict row.id)))) ∧
    ∃ bs u, Steps (CreateSys.tableStep E) Free s bs u ∧ ∀ c ∈ u.calls, ∃ r, c.phase = .done r := by
  have hi : s.Inv E F := h.inv (I := CreateSys.Inv E F) (fun _ _ _ ht hc hs => ht.step hc hs) CreateSys.inv_init
  refine ⟨fun row hrow row' hrow' => hi.rows_eq hrow hrow', fun bs u hrun => owned_of_run hrun, ?_, ?_⟩
  · intro i c r hc hfam hr
    have hok := hi.calls c (List.mem_of_getElem? hc)
    rw [CreateCall.Ok, hr] at hok
    exact hok hfam
  · obtain ⟨bs, u, hrun, hdone⟩ := exists_all_done E s
    exact ⟨bs.map .create, u, Steps.tables hrun, hdone⟩

/-- The text `payload_hash` digests for a request below. -/
def codexText (prompt : String) : String :=
  "1:agent:codex:\x7b\"accept_paid_continuation_risk\":false,\"account_id\":\"a\",\"allowed_tools\":[]," ++
  "\"attachments\":[],\"client_job\":null,\"deadline_s\":21600,\"idle_timeout_s\":60,\"model\":null," ++
  "\"prompt\":\"" ++ prompt ++ "\",\"run_mode\":\"autonomous\",\"session_id\":null,\"task_id\":\"t\"," ++
  "\"wall_timeout_s\":600\x7d"

/-- The digests of the two requests below. -/
def codexEnv : HashEnv where
  md5 text :=
    if text = codexText "x" then "653caddd9d452c94dcc44970043c7921"
    else if text = codexText "y" then "275b71dacbc222b9d1ceb4fbf62340b5"
    else ""
  floatRepr _ := []

def codexRun (prompt : String) : CreateArgs where
  projectId := 1
  capability := "agent:codex"
  prompt := prompt
  taskId := "t"
  accountId := "a"
  idempotencyKey := some "k"
  wallTimeoutS := 600
  idleTimeoutS := 60

/-- Two calls of one key do their lookups before either inserts. -/
def codexRace (prompt prompt' : String) : List CreateAct :=
  [.call (codexRun prompt), .call (codexRun prompt'), .step 0 0, .step 1 0, .step 0 0, .step 1 0, .step 0 0, .step 1 0,
    .step 0 0, .step 0 0, .step 1 0, .step 1 0]

/-- How a call ended. -/
def CreateCall.result (c : CreateCall) : Option CreateResult :=
  match c.phase with
  | .done r => some r
  | _ => none

/-- A submission of `/v1/jobs` brings the hash of what the client sent. -/
def submittedRun (key : Option String) (hash : String) : CreateArgs :=
  { codexRun "x" with idempotencyKey := none, jobIdempotencyKey := key, jobPayloadHash := some hash }

def submittedKey : KeyFamily := ⟨true, 1, "k", by decide⟩

/-- Two submissions race on one key; a third one, of another payload and without a key, creates its run first. -/
def submittedRace : List TableAct :=
  let calls : List CreateAct := [.call (submittedRun (some "k") "653caddd9d452c94dcc44970043c7921"),
    .call (submittedRun (some "k") "653caddd9d452c94dcc44970043c7921"),
    .call (submittedRun none "275b71dacbc222b9d1ceb4fbf62340b5")]
  let steps := [0, 1, 2, 2, 2, 2, 0, 0, 0, 1, 1].map fun i => CreateAct.step i 0
  (calls ++ steps).map .create

/-- The loser of the race is handed the winner's run. -/
theorem create_run_idempotent_race :
    ∃ s, Steps (CreateSys.tableStep codexEnv) (submittedKey.Sound codexEnv) {} submittedRace s ∧
      s.calls.map CreateCall.result = [some (.created 2), some (.existing 2), some (.created 1)] ∧
      ∀ row ∈ s.rows, ∀ row' ∈ s.rows, submittedKey.rowSlot row = some submittedKey.slot →
        submittedKey.rowSlot row' = some submittedKey.slot → row = row' := by
  have hrun : (execAll (guarded (CreateSys.tableStep codexEnv) (submittedKey.Sound codexEnv)) {}
      submittedRace).map (fun s => s.calls.map CreateCall.result) =
      some [some (.created 2), some (.existing 2), some (.created 1)] := by decide +kernel
  obtain ⟨s, hs, hres⟩ := steps_of_observed hrun
  exact ⟨s, hs.of_guarded, hres, (create_run_idempotent codexEnv submittedKey hs.of_guarded).1⟩

/-- Two different requests race on one key: the loser is handed the winner's run. -/
theorem create_run_hands_over_other_payload :
    ∃ s, Steps (CreateSys.tableStep codexEnv) Free {} ((codexRace "x" "y").map .create) s ∧
      s.calls.map CreateCall.result = [some (.created 1), some (.existing 1)] ∧
      s.rows.map CreatedRun.payloadHash = [(codexRun "x").hash codexEnv] ∧
      (codexRun "y").hash codexEnv ≠ (codexRun "x").hash codexEnv := by
  have hx : (codexRun "x").hash codexEnv = "653caddd9d452c94dcc44970043c7921" := by decide +kernel
  have hy : (codexRun "y").hash codexEnv = "275b71dacbc222b9d1ceb4fbf62340b5" := by decide +kernel
  have hrun : (execAll (CreateSys.tableStep codexEnv) {} ((codexRace "x" "y").map .create)).map
      (fun s => (s.calls.map CreateCall.result, s.rows.map CreatedRun.payloadHash)) =
      some ([some (.created 1), some (.existing 1)], ["653caddd9d452c94dcc44970043c7921"]) := by decide +kernel
  obtain ⟨s, hs, hobs⟩ := steps_of_observed hrun
  obtain ⟨hres, hrows⟩ := Prod.mk.inj hobs
  exact ⟨s, hs, hres, by rw [hrows, hx], by rw [hx, hy]; decide⟩

end Broker.Agent
