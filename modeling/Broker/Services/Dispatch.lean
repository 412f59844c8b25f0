import Broker.Lib.Trans
import Broker.Services.JobQueue

/-!
# Broker.Services.Dispatch — any number of dispatchers on one queue

Every claimed row becomes a worker: the row as the claim returned it and the point `_execute` has
reached.  One step is one statement of one worker, a claim, a stale sweep, a cancel or a new job; a
worker may be stopped at shutdown, may lose the answer to a terminal write and repeat it, and may die
at any point.  Workers stay in the list when they are gone, so the list is also the history of claims.
-/

namespace Broker.Services

open Broker.Lib Broker.Db

/-- How `run_chat` or the transcription ended. -/
inductive RunOutcome where
  | success (text : String) (doc : Json)
  | budget (window : String)
  | contentFailed
  | noProvider
  | unknownModel (msg : String)
  | invalid (type msg : String)
  | failed (msg : String)

/-- Where `_execute` stands.  `walking` is inside `run_chat` before the next `should_stop`, `armed` after
a `should_stop` that returned `False`, `attempting` inside `run_attempt`. -/
inductive Phase where
  | claimed
  | walking
  | armed
  | attempting
  | transcribing
  | finishing (f : Finish)
  | failing (reason : String) (maxRetries : ℕ)
  | requeuing
  | releasing
  | gone

/-- A claim: the returned row and the stamp it was claimed with. -/
structure Worker where
  row : PlainJobRow
  stamp : Time
  stamped : row.startedAt = some stamp
  phase : Phase

def Worker.setPhase (w : Worker) (p : Phase) : Worker := { w with phase := p }

/-- What identifies a claim. -/
def Worker.claim (w : Worker) : ℕ × Time := (w.row.id, w.stamp)

inductive WorkerMove where
  | lookup (projectExists : Bool)
  | poll
  | skip
  | start
  | settle
  | ends (o : RunOutcome)
  | checkFlag
  | write (now : Time) (again : Bool)
  | requeue (now : Time)
  | stop
  | release (now : Time)
  | die

/-- `cap_message`. -/
def capMessage (window : String) : String :=
  if window = "monthly" then
    "monthly budget cap reached — retry after the 1st of next month, 00:00 UTC"
  else "daily budget cap reached — retry after 00:00 UTC"

section Step

variable (cfg : QueueConfig)

/-- What `_execute` does with the outcome of the run. -/
def afterRun (row : PlainJobRow) : RunOutcome → Phase
  | .success text doc => .finishing { status := .done, resultText := some text, resultMeta := some doc }
  | .budget window => .finishing { status := .error, errorMessage := some (capMessage window) }
  | .contentFailed =>
    .failing "all providers returned empty/invalid JSON for this prompt" cfg.maxContentRetries
  | .noProvider => .failing ("no provider available for " ++ row.capability) cfg.maxRetries
  | .unknownModel msg => .finishing { status := .error, errorMessage := some msg }
  | .invalid type msg =>
    .finishing { status := .error, errorMessage := some ("invalid job (" ++ type ++ "): " ++ msg) }
  | .failed msg => .failing ("run failed: " ++ msg) cfg.maxRetries

/-- The head of `_execute`. -/
def afterLookup (row : PlainJobRow) (projectExists : Bool) : Phase :=
  if projectExists = false then
    .finishing { status := .error, errorMessage := some "project no longer exists" }
  else if row.cancelRequested then .finishing { status := .cancelled }
  else if row.capability = "transcription" then .transcribing
  else .walking

/-- The head of `_requeue_or_fail`. -/
def afterFlag (row : PlainJobRow) (flag : Bool) (reason : String) (maxRetries : ℕ) : Phase :=
  if flag then .finishing { status := .cancelled }
  else if maxRetries < row.retryCount + 1 then
    .finishing
      { status := .error
        errorMessage := some (reason ++ " (gave up after " ++ toString row.retryCount ++ " retries)") }
  else .requeuing

/-- The run of the job is under way. -/
def Phase.inRun : Phase → Bool
  | .walking | .armed | .attempting | .transcribing => true
  | _ => false

/-- The task can still be cancelled by a shutdown. -/
def Phase.live : Phase → Bool
  | .releasing | .gone => false
  | _ => true

/-- One step of a worker: the table and its next phase. -/
def stepWorker (rows : List PlainJobRow) (w : Worker) : WorkerMove → Option (List PlainJobRow × Phase)
  | .lookup ok =>
    match w.phase with
    | .claimed => some (rows, afterLookup w.row ok)
    | _ => none
  | .poll =>
    match w.phase with
    | .walking =>
      some (rows, if cancelFlag w.row.id rows then .finishing { status := .cancelled } else .armed)
    | _ => none
  | .skip =>
    match w.phase with
    | .armed => some (rows, .walking)
    | _ => none
  | .start =>
    match w.phase with
    | .armed => some (rows, .attempting)
    | .transcribing => some (rows, .transcribing)
    | _ => none
  | .settle =>
    match w.phase with
    | .attempting => some (rows, .walking)
    | _ => none
  | .ends o => if w.phase.inRun then some (rows, afterRun cfg w.row o) else none
  | .checkFlag =>
    match w.phase with
    | .failing reason maxRetries =>
      some (rows, afterFlag w.row (cancelFlag w.row.id rows) reason maxRetries)
    | _ => none
  | .write now again =>
    match w.phase with
    | .finishing f =>
      some (finish now w.row.id f w.row.startedAt rows, if again then .finishing f else .gone)
    | _ => none
  | .requeue now =>
    match w.phase with
    | .requeuing => some (requeue now w.row.id (w.row.retryCount + 1) w.row.startedAt rows, .gone)
    | _ => none
  | .stop => if w.phase.live then some (rows, .releasing) else none
  | .release now =>
    match w.phase with
    | .releasing => some (releaseClaim now w.row.id w.row.startedAt rows, .gone)
    | _ => none
  | .die => some (rows, .gone)

/-- The table, the claims so far and, for every provider attempt started, its job and the claim that
started it. -/
structure QueueSys where
  rows : List PlainJobRow := []
  workers : List Worker := []
  started : List (ℕ × ℕ) := []

/-- What `submit_job` inserts. -/
structure NewJob where
  id : ℕ
  projectId : ℕ
  capability : String
  request : PlainRequest := {}
  createdAt : Time
  priority : ℕ := 1

def NewJob.row (j : NewJob) : PlainJobRow where
  id := j.id
  projectId := j.projectId
  capability := j.capability
  status := .pending
  request := j.request
  resultText := none
  resultMeta := none
  errorMessage := none
  retryCount := 0
  runAfter := none
  startedAt := none
  createdAt := j.createdAt
  completedAt := none
  cancelRequested := false
  priority := j.priority

inductive QueueAct where
  | submit (j : NewJob)
  | claim (now : Time) (limit : ℕ) (locked : List ℕ)
  | stale (now : Time)
  | cancel (now : Time) (jobId projectId : ℕ)
  | worker (i : ℕ) (m : WorkerMove)

/-- The workers of a claim, one for each returned row. -/
def newWorkers (now : Time) (rows : List PlainJobRow) : List Worker :=
  rows.map fun r => ⟨claimRow now r, now, rfl, .claimed⟩

/-- The attempt a move of the `i`-th worker starts. -/
def startedBy (i : ℕ) (w : Worker) : WorkerMove → List (ℕ × ℕ)
  | .start => [(w.row.id, i)]
  | _ => []

def QueueSys.step (s : QueueSys) : QueueAct → Option QueueSys
  | .submit j =>
    if j.id ∈ s.rows.map (·.id) ∨ isAgent j.capability then none
    else some { s with rows := s.rows ++ [j.row] }
  | .claim now limit locked =>
    let ids := claimIds now limit locked s.rows
    -- the stamps of different claims of one row are distinct
    if ∃ w ∈ s.workers, w.row.id ∈ ids ∧ w.stamp = now then none
    else some { s with
      rows := (claimBatch now limit locked s.rows).1
      workers := s.workers ++ newWorkers now (s.rows.filter fun r => ids.contains r.id) }
  | .stale now => some { s with rows := requeueStaleRunning cfg now s.rows }
  | .cancel now jobId projectId => some { s with rows := (cancelPlain now jobId projectId s.rows).1 }
  | .worker i m =>
    match s.workers[i]? with
    | none => none
    | some w =>
      match stepWorker cfg s.rows w m with
      | none => none
      | some (rows, p) =>
        some
          { rows := rows
            workers := s.workers.set i (w.setPhase p)
            started := s.started ++ startedBy i w m }

end Step

/-! ### What a worker's step writes -/

variable {cfg : QueueConfig}

/-- With its row closed under its own stamp as `st`, a worker can only repeat that write or leave. -/
def Phase.SettledAs (st : Status) : Phase → Prop
  | .finishing f => f.status = st
  | .releasing | .gone => True
  | _ => False

/-- Everything a worker can do: the move with its guard, the rows and the phase after it. -/
inductive WorkerStep (cfg : QueueConfig) (rows : List PlainJobRow) (w : Worker) :
    WorkerMove → List PlainJobRow → Phase → Prop
  | lookup (ok : Bool) : w.phase = .claimed → WorkerStep cfg rows w (.lookup ok) rows (afterLookup w.row ok)
  | stopped : w.phase = .walking → cancelFlag w.row.id rows = true →
      WorkerStep cfg rows w .poll rows (.finishing { status := .cancelled })
  | arm : w.phase = .walking → cancelFlag w.row.id rows = false → WorkerStep cfg rows w .poll rows .armed
  | skip : w.phase = .armed → WorkerStep cfg rows w .skip rows .walking
  | attempt : w.phase = .armed → WorkerStep cfg rows w .start rows .attempting
  | transcribe : w.phase = .transcribing → WorkerStep cfg rows w .start rows .transcribing
  | settle : w.phase = .attempting → WorkerStep cfg rows w .settle rows .walking
  | ends (o : RunOutcome) : w.phase.inRun = true → WorkerStep cfg rows w (.ends o) rows (afterRun cfg w.row o)
  | checkFlag (reason : String) (n : ℕ) : w.phase = .failing reason n →
      WorkerStep cfg rows w .checkFlag rows (afterFlag w.row (cancelFlag w.row.id rows) reason n)
  | write (f : Finish) (now : Time) (again : Bool) : w.phase = .finishing f →
      WorkerStep cfg rows w (.write now again) (finish now w.row.id f (some w.stamp) rows)
        (if again then .finishing f else .gone)
  | requeue (now : Time) : w.phase = .requeuing →
      WorkerStep cfg rows w (.requeue now)
        (requeue now w.row.id (w.row.retryCount + 1) (some w.stamp) rows) .gone
  | stop : w.phase.live = true → WorkerStep cfg rows w .stop rows .releasing
  | release (now : Time) : w.phase = .releasing →
      WorkerStep cfg rows w (.release now) (releaseClaim now w.row.id (some w.stamp) rows) .gone
  | die : WorkerStep cfg rows w .die rows .gone

/-- **Every move of a worker**, with its guard. -/
theorem stepWorker_cases {rows rows' : List PlainJobRow} {w : Worker} {m : WorkerMove} {p : Phase}
    (h : stepWorker cfg rows w m = some (rows', p)) : WorkerStep cfg rows w m rows' p := by
  cases m with
  | lookup | skip | settle | checkFlag =>
    simp only [stepWorker] at h
    split at h
    · rename_i hp
      obtain ⟨rfl, rfl⟩ := Prod.mk.inj (Option.some.inj h)
      constructor
      exact hp
    · cases h
  | poll =>
    simp only [stepWorker] at h
    split at h
    · rename_i hp
      obtain ⟨rfl, rfl⟩ := Prod.mk.inj (Option.some.inj h)
      by_cases hf : cancelFlag w.row.id rows = true
      · rw [if_pos hf]
        exact .stopped hp hf
      · rw [if_neg hf]
        exact .arm hp (Bool.eq_false_iff.mpr hf)
    · cases h
  | start =>
    simp only [stepWorker] at h
    split at h
    · rename_i hp
      obtain ⟨rfl, rfl⟩ := Prod.mk.inj (Option.some.inj h)
      exact .attempt hp
    · rename_i hp
      obtain ⟨rfl, rfl⟩ := Prod.mk.inj (Option.some.inj h)
      exact .transcribe hp
    · cases h
  | ends o =>
    simp only [stepWorker] at h
    split_ifs at h with hp
    obtain ⟨rfl, rfl⟩ := Prod.mk.inj (Option.some.inj h)
    exact .ends o hp
  | write now again =>
    simp only [stepWorker, w.stamped] at h
    split at h
    · rename_i f hp
      obtain ⟨rfl, rfl⟩ := Prod.mk.inj (Option.some.inj h)
      exact .write f now again hp
    · cases h
  | requeue now | release now =>
    simp only [stepWorker, w.stamped] at h
    split at h
    · rename_i hp
      obtain ⟨rfl, rfl⟩ := Prod.mk.inj (Option.some.inj h)
      constructor
      exact hp
    · cases h
  | stop =>
    simp only [stepWorker] at h
    split_ifs at h with hp
    obtain ⟨rfl, rfl⟩ := Prod.mk.inj (Option.some.inj h)
    exact .stop hp
  | die =>
    obtain ⟨rfl, rfl⟩ := Prod.mk.inj (Option.some.inj h)
    exact .die

/-- A step of a worker writes nothing, or it is its terminal write, its requeue or its release. -/
inductive WorkerWrite (rows : List PlainJobRow) (w : Worker) : List PlainJobRow → Phase → Prop
  | quiet {p : Phase} : (∀ st, w.phase.SettledAs st → p.SettledAs st) → WorkerWrite rows w rows p
  | finish {f : Finish} {now : Time} {p : Phase} : w.phase = .finishing f → (p = .finishing f ∨ p = .gone) →
      WorkerWrite rows w (finish now w.row.id f (some w.stamp) rows) p
  | requeue {now : Time} {rc : ℕ} : w.phase = .requeuing →
      WorkerWrite rows w (requeue now w.row.id rc (some w.stamp) rows) .gone
  | release {now : Time} : w.phase = .releasing →
      WorkerWrite rows w (releaseClaim now w.row.id (some w.stamp) rows) .gone

theorem stepWorker_write {rows rows' : List PlainJobRow} {w : Worker} {m : WorkerMove} {p : Phase}
    (h : stepWorker cfg rows w m = some (rows', p)) : WorkerWrite rows w rows' p := by
  cases stepWorker_cases h with
  | lookup ok hp | stopped hp hf | arm hp hf | skip hp | attempt hp | transcribe hp | settle hp
  | checkFlag reason n hp =>
    -- the worker was in no phase that settles its job
    exact .quiet (by simp [hp, Phase.SettledAs])
  | ends o hp =>
    refine .quiet fun st hst => absurd hp ?_
    cases hph : w.phase <;> simp_all [Phase.SettledAs, Phase.inRun]
  | write f now again hp => exact .finish hp (by cases again <;> simp)
  | requeue now hp => exact .requeue hp
  | release now hp => exact .release hp
  | stop | die => exact .quiet fun _ _ => trivial

/-! ### The invariant -/

/-- A row agrees with the claims: a pending row carries no stamp, a running one the stamp of a claim,
and the claim whose stamp a closed row carries has settled it. -/
structure RowOk (ws : List Worker) (r : PlainJobRow) : Prop where
  pending : r.status = .pending → r.startedAt = none
  running : r.status = .running → ∃ w ∈ ws, w.row.id = r.id ∧ r.startedAt = some w.stamp
  closed : r.status.terminal = true → ∀ w ∈ ws, w.row.id = r.id → r.startedAt = some w.stamp →
    w.phase.SettledAs r.status

structure QueueSys.Inv (s : QueueSys) : Prop where
  ids : (s.rows.map (·.id)).Nodup
  claims : (s.workers.map Worker.claim).Nodup
  rows : ∀ r ∈ s.rows, RowOk s.workers r

/-- A row without a stamp that is not running agrees with any claims. -/
theorem RowOk.of_unstamped {ws : List Worker} {r : PlainJobRow} (hs : r.startedAt = none)
    (hr : r.status ≠ .running) : RowOk ws r :=
  ⟨fun _ => hs, fun h => absurd h hr, fun _ w _ _ h => by rw [hs] at h; cases h⟩

theorem RowOk.staleRow {ws : List Worker} (now : Time) (r : PlainJobRow) : RowOk ws (staleRow cfg now r) := by
  refine .of_unstamped rfl ?_
  rcases staleRow_status cfg now r with h | h <;> simp [h]

theorem RowOk.cancelRow {ws : List Worker} {r : PlainJobRow} (h : RowOk ws r) (now : Time) :
    RowOk ws (cancelRow now r) := by
  cases hst : r.status with
  | pending =>
    refine .of_unstamped ?_ ?_
    · rw [cancelRow_startedAt, h.pending hst]
    · simp [Services.cancelRow, hst]
  | running =>
    have hr : Services.cancelRow now r = { r with cancelRequested := true } := by
      simp [Services.cancelRow, hst]
    rw [hr]
    exact ⟨h.pending, h.running, h.closed⟩
  | done | error | cancelled =>
    have hr : Services.cancelRow now r = r := by simp [Services.cancelRow, hst]
    rw [hr]
    exact h

/-- A worker that moves on keeps a row's agreement, if it keeps what it settled. -/
theorem RowOk.setPhase {ws : List Worker} {i : ℕ} {w : Worker} {p : Phase} {r : PlainJobRow}
    (hw : ws[i]? = some w) (hp : ∀ st, w.phase.SettledAs st → p.SettledAs st) (h : RowOk ws r) :
    RowOk (ws.set i (w.setPhase p)) r := by
  have hi : i < ws.length := (List.getElem?_eq_some_iff.mp hw).1
  refine ⟨h.pending, fun hr => ?_, fun ht w' hw' hid hstamp => ?_⟩
  · obtain ⟨w', hmem, hid, hstamp⟩ := h.running hr
    obtain ⟨j, hj, rfl⟩ := List.mem_iff_getElem.mp hmem
    by_cases hij : i = j
    · subst hij
      obtain rfl : ws[i] = w := by simpa [List.getElem?_eq_getElem hj] using hw
      exact ⟨_, List.mem_set hi _, hid, hstamp⟩
    · refine ⟨ws[j], ?_, hid, hstamp⟩
      rw [List.mem_iff_getElem]
      exact ⟨j, by simpa using hj, by simp [hij]⟩
  · rcases List.mem_or_eq_of_mem_set hw' with hmem | rfl
    · exact h.closed ht w' hmem hid hstamp
    · exact hp _ (h.closed ht w (List.mem_of_getElem? hw) hid hstamp)

theorem map_claim_set {ws : List Worker} {i : ℕ} {w : Worker} (hw : ws[i]? = some w) (p : Phase) :
    (ws.set i (w.setPhase p)).map Worker.claim = ws.map Worker.claim := by
  obtain ⟨hi, rfl⟩ := List.getElem?_eq_some_iff.mp hw
  rw [List.map_set]
  refine List.ext_getElem (by simp) fun j hj hj' => ?_
  rw [List.getElem_set]
  split_ifs with h
  · subst h
    simp [Worker.claim, Worker.setPhase]
  · rfl

/-! ### What a step does to a row -/

/-- The ways a row can change: by a claim, a stale sweep, a cancel, or a write of the worker whose claim
it carries. -/
inductive RowStep (cfg : QueueConfig) (s : QueueSys) (r : PlainJobRow) : PlainJobRow → Prop
  | same : RowStep cfg s r r
  | claim (now : Time) : r.status = .pending → (∀ w ∈ s.workers, w.row.id = r.id → w.stamp ≠ now) →
      RowStep cfg s r (claimRow now r)
  | stale (now : Time) : r.status = .running → RowStep cfg s r (staleRow cfg now r)
  | cancel (now : Time) : RowStep cfg s r (cancelRow now r)
  | finish (w : Worker) (f : Finish) (now : Time) : w ∈ s.workers → w.phase = .finishing f →
      w.row.id = r.id → r.startedAt = some w.stamp → RowStep cfg s r (finishRow now f r)
  | requeue (w : Worker) (rc : ℕ) (now : Time) : w ∈ s.workers → w.phase = .requeuing →
      w.row.id = r.id → r.startedAt = some w.stamp → RowStep cfg s r (requeueRow now rc r)
  | release (w : Worker) (now : Time) : w ∈ s.workers → w.phase = .releasing → r.status = .running →
      w.row.id = r.id → r.startedAt = some w.stamp → RowStep cfg s r (releaseRow now r)

theorem RowStep.id_eq {s : QueueSys} {r r' : PlainJobRow} (h : RowStep cfg s r r') : r'.id = r.id := by
  cases h <;> simp

theorem mem_claimIds {now : Time} {limit : ℕ} {locked : List ℕ} {rows : List PlainJobRow} {id : ℕ}
    (h : id ∈ claimIds now limit locked rows) : ∃ r ∈ rows, r.id = id ∧ r.status = .pending := by
  obtain ⟨r, hr, rfl⟩ := List.mem_map.mp h
  have hr := (List.mem_insertionSort claimOrder).mp (List.mem_of_mem_take hr)
  obtain ⟨hmem, hel⟩ := List.mem_filter.mp hr
  refine ⟨r, hmem, rfl, ?_⟩
  simp only [eligible, Bool.and_eq_true, decide_eq_true_eq] at hel
  exact hel.1.1.1

/-- What a claim takes: pending rows, each for a worker whose claim is new. -/
structure Takes (now : Time) (s : QueueSys) (taken : PlainJobRow → Bool) : Prop where
  listed : ∀ r, taken r = true → ∃ r₀ ∈ s.rows, r₀.id = r.id ∧ r₀.status = .pending
  fresh : ∀ r, taken r = true → ∀ w ∈ s.workers, w.row.id = r.id → w.stamp ≠ now

theorem Takes.pending {now : Time} {s : QueueSys} {taken : PlainJobRow → Bool} (h : Takes now s taken)
    (hids : (s.rows.map (·.id)).Nodup) {r : PlainJobRow} (hr : r ∈ s.rows) (ht : taken r = true) :
    r.status = .pending := by
  obtain ⟨r₀, hr₀, hid, hst⟩ := h.listed r ht
  obtain rfl := eq_of_key hids hr₀ hr hid
  exact hst

/-- The queue after a claim of the rows `taken`. -/
def QueueSys.claimed (s : QueueSys) (now : Time) (taken : PlainJobRow → Bool) : QueueSys :=
  { s with
    rows := updateWhere taken (claimRow now) s.rows
    workers := s.workers ++ newWorkers now (s.rows.filter taken) }

/-- Everything the queue can do. -/
inductive QueueStep (cfg : QueueConfig) (s : QueueSys) : QueueAct → QueueSys → Prop
  | submit (j : NewJob) : j.id ∉ s.rows.map (·.id) →
      QueueStep cfg s (.submit j) { s with rows := s.rows ++ [j.row] }
  | claim (now : Time) (limit : ℕ) (locked : List ℕ) (taken : PlainJobRow → Bool) : Takes now s taken →
      QueueStep cfg s (.claim now limit locked) (s.claimed now taken)
  | stale (now : Time) : QueueStep cfg s (.stale now) { s with rows := requeueStaleRunning cfg now s.rows }
  | cancel (now : Time) (jobId projectId : ℕ) :
      QueueStep cfg s (.cancel now jobId projectId)
        { s with rows := (cancelPlain now jobId projectId s.rows).1 }
  | worker (i : ℕ) (m : WorkerMove) (w : Worker) (rows : List PlainJobRow) (p : Phase) :
      s.workers[i]? = some w → stepWorker cfg s.rows w m = some (rows, p) →
      QueueStep cfg s (.worker i m) ⟨rows, s.workers.set i (w.setPhase p), s.started ++ startedBy i w m⟩

/-- **Every step of the queue**, with its guard. -/
theorem QueueSys.step_cases {s s' : QueueSys} {a : QueueAct} (h : s.step cfg a = some s') :
    QueueStep cfg s a s' := by
  cases a with
  | submit j =>
    simp only [QueueSys.step] at h
    split_ifs at h with hj
    obtain rfl := Option.some.inj h
    exact .submit j fun hmem => hj (.inl hmem)
  | claim now limit locked =>
    simp only [QueueSys.step] at h
    split_ifs at h with hnew
    obtain rfl := Option.some.inj h
    refine .claim now limit locked (fun r => (claimIds now limit locked s.rows).contains r.id) ⟨?_, ?_⟩
    · exact fun r hr => mem_claimIds (List.contains_iff_mem.mp hr)
    · intro r hr w hw hid hst
      refine hnew ⟨w, hw, ?_, hst⟩
      rw [hid]
      exact List.contains_iff_mem.mp hr
  | stale now =>
    obtain rfl := Option.some.inj h
    exact .stale now
  | cancel now jobId projectId =>
    obtain rfl := Option.some.inj h
    exact .cancel now jobId projectId
  | worker i m =>
    simp only [QueueSys.step] at h
    split at h
    · cases h
    · rename_i w hw
      split at h
      · cases h
      · rename_i rows p hstep
        obtain rfl := Option.some.inj h
        exact .worker i m w rows p hw hstep

/-- A row after `updateWhere` is a step of its row before. -/
theorem RowStep.of_updateWhere (cfg : QueueConfig) {s : QueueSys} {p : PlainJobRow → Bool}
    {f : PlainJobRow → PlainJobRow}
    (h : ∀ r ∈ s.rows, p r = true → RowStep cfg s r (f r)) :
    (∀ r' ∈ updateWhere p f s.rows, ∃ r ∈ s.rows, RowStep cfg s r r') ∧
    ∀ r ∈ s.rows, ∃ r' ∈ updateWhere p f s.rows, RowStep cfg s r r' := by
  constructor
  · intro r' hr'
    rcases mem_updateWhere.mp hr' with ⟨hr, -⟩ | ⟨r, hr, hp, rfl⟩
    · exact ⟨r', hr, .same⟩
    · exact ⟨r, hr, h r hr hp⟩
  · intro r hr
    refine ⟨_, mem_updateWhere_of_mem hr, ?_⟩
    split_ifs with hp
    · exact h r hr hp
    · exact .same

theorem WorkerWrite.rowStep (cfg : QueueConfig) {s : QueueSys} {w : Worker} (hw : w ∈ s.workers)
    {rows' : List PlainJobRow}
    {p : Phase} (h : WorkerWrite s.rows w rows' p) :
    (∀ r' ∈ rows', ∃ r ∈ s.rows, RowStep cfg s r r') ∧ ∀ r ∈ s.rows, ∃ r' ∈ rows', RowStep cfg s r r' := by
  cases h with
  | quiet => exact ⟨fun r hr => ⟨r, hr, .same⟩, fun r hr => ⟨r, hr, .same⟩⟩
  | finish hp =>
    refine RowStep.of_updateWhere cfg fun r hr hg => ?_
    obtain ⟨hid, hst⟩ := guardedBy_some.mp hg
    exact .finish w _ _ hw hp hid.symm hst
  | requeue hp =>
    refine RowStep.of_updateWhere cfg fun r hr hg => ?_
    obtain ⟨hid, hst⟩ := guardedBy_some.mp hg
    exact .requeue w _ _ hw hp hid.symm hst
  | release hp =>
    refine RowStep.of_updateWhere cfg fun r hr hg => ?_
    obtain ⟨hrun, hg⟩ := Bool.and_eq_true_iff.mp hg
    obtain ⟨hid, hst⟩ := guardedBy_some.mp hg
    exact .release w _ hw hp (of_decide_eq_true hrun) hid.symm hst

/-- Every row before the step has its row after it, and a row after it is new or a step of one before. -/
theorem QueueSys.step_rows {s s' : QueueSys} {a : QueueAct} (hids : (s.rows.map (·.id)).Nodup)
    (h : s.step cfg a = some s') :
    (∀ r' ∈ s'.rows, (∃ r ∈ s.rows, RowStep cfg s r r') ∨
      ∃ j, a = .submit j ∧ r' = j.row ∧ j.id ∉ s.rows.map (·.id)) ∧
    ∀ r ∈ s.rows, ∃ r' ∈ s'.rows, RowStep cfg s r r' := by
  cases QueueSys.step_cases h with
  | submit j hnew =>
    refine ⟨fun r' hr' => ?_, fun r hr => ⟨r, List.mem_append_left _ hr, .same⟩⟩
    rcases List.mem_append.mp hr' with hr' | hr'
    · exact .inl ⟨r', hr', .same⟩
    · exact .inr ⟨j, rfl, List.mem_singleton.mp hr', hnew⟩
  | claim now limit locked taken ht =>
    have hstep := RowStep.of_updateWhere cfg (s := s) (f := claimRow now) (p := taken) fun r hr hp =>
      .claim now (ht.pending hids hr hp) (ht.fresh r hp)
    exact ⟨fun r' hr' => .inl (hstep.1 r' hr'), hstep.2⟩
  | stale now =>
    have hstep := RowStep.of_updateWhere cfg (s := s) (f := staleRow cfg now)
      (p := isStaleRunning now) fun r hr hp => by
        simp only [isStaleRunning, Bool.and_eq_true, decide_eq_true_eq] at hp
        exact .stale now hp.1.1
    exact ⟨fun r' hr' => .inl (hstep.1 r' hr'), hstep.2⟩
  | cancel now jobId projectId =>
    have hstep := RowStep.of_updateWhere cfg (s := s) (f := cancelRow now)
      (p := fun r => decide (r.id = jobId) && decide (r.projectId = projectId)) fun r hr hp => .cancel now
    exact ⟨fun r' hr' => .inl (hstep.1 r' hr'), hstep.2⟩
  | worker i m w rows p hw hstep =>
    have hrows := (stepWorker_write hstep).rowStep cfg (List.mem_of_getElem? hw)
    exact ⟨fun r' hr' => .inl (hrows.1 r' hr'), hrows.2⟩

/-! ### The invariant holds in every run -/

theorem QueueSys.Inv.claim {s : QueueSys} (hi : s.Inv) {now : Time} {taken : PlainJobRow → Bool}
    (ht : Takes now s taken) : (s.claimed now taken).Inv := by
  have hmem : ∀ w ∈ newWorkers now (s.rows.filter taken),
      w.stamp = now ∧ ∃ r ∈ s.rows, taken r = true ∧ w.row.id = r.id := by
    intro w hw
    obtain ⟨r, hr, rfl⟩ := List.mem_map.mp hw
    obtain ⟨hr, hp⟩ := List.mem_filter.mp hr
    exact ⟨rfl, r, hr, hp, rfl⟩
  refine ⟨?_, ?_, fun r' hr' => ?_⟩
  · rw [QueueSys.claimed, map_updateWhere (claimRow_id now)]
    exact hi.ids
  · rw [QueueSys.claimed, List.map_append, List.nodup_append]
    refine ⟨hi.claims, ?_, ?_⟩
    · have hids : ((s.rows.filter taken).map (·.id)).Nodup := hi.ids.sublist (List.filter_sublist.map _)
      rw [newWorkers, List.map_map]
      refine List.Nodup.of_map Prod.fst ?_
      rw [List.map_map]
      exact hids
    · intro c hc c' hc' heq
      obtain ⟨w, hw, rfl⟩ := List.mem_map.mp hc
      obtain ⟨w', hw', rfl⟩ := List.mem_map.mp hc'
      obtain ⟨hid, hst⟩ := Prod.mk.inj heq
      obtain ⟨hnow, r, -, hp, hid'⟩ := hmem w' hw'
      exact ht.fresh r hp w hw (hid.trans hid') (hst.trans hnow)
  · rcases mem_updateWhere.mp hr' with ⟨hr, hp⟩ | ⟨r, hr, hp, rfl⟩
    · have hok := hi.rows r' hr
      refine ⟨hok.pending, fun hrun => ?_, fun hterm w hw hid hst => ?_⟩
      · obtain ⟨w, hw, h⟩ := hok.running hrun
        exact ⟨w, List.mem_append_left _ hw, h⟩
      · rcases List.mem_append.mp hw with hw | hw
        · exact hok.closed hterm w hw hid hst
        · -- a new worker holds a row that was taken
          obtain ⟨-, r, hr₀, hp', hid'⟩ := hmem w hw
          obtain rfl := eq_of_key hi.ids hr₀ hr (hid'.symm.trans hid)
          rw [hp'] at hp
          cases hp
    · refine ⟨nofun, fun _ => ?_, nofun⟩
      refine ⟨⟨claimRow now r, now, rfl, .claimed⟩, List.mem_append_right _ ?_, rfl, rfl⟩
      exact List.mem_map_of_mem (f := fun r => (⟨claimRow now r, now, rfl, .claimed⟩ : Worker))
        (List.mem_filter.mpr ⟨hr, hp⟩)

theorem QueueSys.Inv.worker {s : QueueSys} (hi : s.Inv) {i : ℕ} {w : Worker} (hw : s.workers[i]? = some w)
    {rows' : List PlainJobRow} {p : Phase} (h : WorkerWrite s.rows w rows' p) (started : List (ℕ × ℕ)) :
    QueueSys.Inv ⟨rows', s.workers.set i (w.setPhase p), started⟩ := by
  have hmem : w ∈ s.workers := List.mem_of_getElem? hw
  -- two claims of one row with one stamp are the same worker
  have huniq : ∀ w' ∈ s.workers, ∀ r : PlainJobRow, w.row.id = r.id → r.startedAt = some w.stamp →
      w'.row.id = r.id → r.startedAt = some w'.stamp → w' = w := by
    intro w' hw' r hid hst hid' hst'
    refine List.inj_on_of_nodup_map hi.claims hw' hmem (Prod.ext (hid'.trans hid.symm) ?_)
    exact Option.some.inj (hst'.symm.trans hst)
  have hclaims : ((s.workers.set i (w.setPhase p)).map Worker.claim).Nodup := by
    rw [map_claim_set hw]
    exact hi.claims
  cases h with
  | quiet hp => exact ⟨hi.ids, hclaims, fun r hr => (hi.rows r hr).setPhase hw hp⟩
  | @finish f now _ hph hp =>
    have hkeep : ∀ st, w.phase.SettledAs st → p.SettledAs st := by
      intro st hst
      rw [hph] at hst
      rcases hp with rfl | rfl
      · exact hst
      · trivial
    refine ⟨by simpa only [Services.finish, map_updateWhere (finishRow_id now f)] using hi.ids, hclaims, ?_⟩
    intro r' hr'
    rcases mem_updateWhere.mp hr' with ⟨hr, -⟩ | ⟨r, hr, hg, rfl⟩
    · exact (hi.rows r' hr).setPhase hw hkeep
    · obtain ⟨hid, hst⟩ := guardedBy_some.mp hg
      refine ⟨fun hpend => ?_, fun hrun => ?_, fun _ w' hw' hid' hst' => ?_⟩
      · exact absurd f.closes (by rw [show f.status = .pending from hpend]; decide)
      · exact absurd f.closes (by rw [show f.status = .running from hrun]; decide)
      · rcases List.mem_or_eq_of_mem_set hw' with hw' | rfl
        · obtain rfl := huniq w' hw' r hid.symm hst hid' hst'
          rw [hph]
          rfl
        · exact hkeep f.status (by rw [hph]; rfl)
  | @requeue now rc hph =>
    refine ⟨by simpa only [Services.requeue, map_updateWhere (requeueRow_id now rc)] using hi.ids, hclaims, ?_⟩
    intro r' hr'
    rcases mem_updateWhere.mp hr' with ⟨hr, -⟩ | ⟨r, hr, -, rfl⟩
    · exact (hi.rows r' hr).setPhase hw fun _ _ => trivial
    · exact .of_unstamped rfl (by simp [requeueRow])
  | @release now hph =>
    refine ⟨by simpa only [releaseClaim, map_updateWhere (releaseRow_id now)] using hi.ids, hclaims, ?_⟩
    intro r' hr'
    rcases mem_updateWhere.mp hr' with ⟨hr, -⟩ | ⟨r, hr, -, rfl⟩
    · exact (hi.rows r' hr).setPhase hw fun _ _ => trivial
    · exact .of_unstamped rfl (by simp [releaseRow])

theorem QueueSys.Inv.step {s s' : QueueSys} {a : QueueAct} (hi : s.Inv) (h : s.step cfg a = some s') :
    s'.Inv := by
  cases QueueSys.step_cases h with
  | submit j hnew =>
    refine ⟨?_, hi.claims, fun r hr => ?_⟩
    · rw [List.map_append, List.nodup_append]
      refine ⟨hi.ids, by simp, ?_⟩
      rintro id hid id' hid' rfl
      obtain rfl : id = j.id := by simpa [NewJob.row] using hid'
      exact hnew hid
    · rcases List.mem_append.mp hr with hr | hr
      · exact hi.rows r hr
      · rw [List.mem_singleton.mp hr]
        exact .of_unstamped rfl (by simp [NewJob.row])
  | claim now limit locked taken ht => exact hi.claim ht
  | stale now =>
    refine ⟨by simpa only [requeueStaleRunning, map_updateWhere (staleRow_id cfg now)] using hi.ids,
      hi.claims, fun r' hr' => ?_⟩
    rcases mem_updateWhere.mp hr' with ⟨hr, -⟩ | ⟨r, hr, -, rfl⟩
    · exact hi.rows r' hr
    · exact .staleRow now r
  | cancel now jobId projectId =>
    refine ⟨by simpa only [cancelPlain, map_updateWhere (cancelRow_id now)] using hi.ids,
      hi.claims, fun r' hr' => ?_⟩
    rcases mem_updateWhere.mp hr' with ⟨hr, -⟩ | ⟨r, hr, -, rfl⟩
    · exact hi.rows r' hr
    · exact (hi.rows r hr).cancelRow now
  | worker i m w rows p hw hstep => exact hi.worker hw (stepWorker_write hstep) _

theorem QueueSys.Inv.run {s s' : QueueSys} {C : QueueSys → QueueAct → Prop} {as : List QueueAct} (hi : s.Inv)
    (h : Steps (QueueSys.step cfg) C s as s') : s'.Inv :=
  h.inv (I := QueueSys.Inv) (fun _ _ _ ht _ hs => ht.step hs) hi

theorem QueueSys.inv_init : QueueSys.Inv {} := ⟨by simp, by simp, by simp⟩

/-- A closed row keeps its status. -/
theorem RowStep.status_of_terminal {s : QueueSys} {r r' : PlainJobRow} (hok : RowOk s.workers r)
    (hs : RowStep cfg s r r') (ht : r.status.terminal = true) : r'.status = r.status := by
  cases hs with
  | same => rfl
  | claim now hst | stale now hst | release w now hw hp hst => rw [hst] at ht; cases ht
  | cancel now =>
    unfold cancelRow
    split
    · rename_i hst; rw [hst] at ht; cases ht
    · rfl
    · rfl
  | finish w f now hw hp hid hst =>
    have := hok.closed ht w hw hid hst
    rw [hp] at this
    exact this
  | requeue w rc now hw hp hid hst =>
    have := hok.closed ht w hw hid hst
    rw [hp] at this
    exact this.elim

/-- A closed row keeps its status in every later state. -/
theorem status_of_terminal_run {s u : QueueSys} {bs : List QueueAct} (hi : s.Inv)
    (h : Steps (QueueSys.step cfg) Free s bs u) {r : PlainJobRow} (hr : r ∈ s.rows)
    (ht : r.status.terminal = true) : ∃ r' ∈ u.rows, r'.id = r.id ∧ r'.status = r.status := by
  refine (h.inv (I := fun t => t.Inv ∧ ∃ r' ∈ t.rows, r'.id = r.id ∧ r'.status = r.status) ?_
    ⟨hi, r, hr, rfl, rfl⟩).2
  rintro t a v ⟨hi, r₁, hr₁, hid, hst⟩ - hs
  obtain ⟨r₂, hr₂, hstep⟩ := (QueueSys.step_rows hi.ids hs).2 r₁ hr₁
  refine ⟨hi.step hs, r₂, hr₂, hstep.id_eq.trans hid, ?_⟩
  rw [hstep.status_of_terminal (hi.rows r₁ hr₁) (hst ▸ ht), hst]

/-- A worker whose stamp the row no longer carries changes nothing. -/
theorem stepWorker_of_reclaimed {rows rows' : List PlainJobRow} {w : Worker} {m : WorkerMove} {p : Phase}
    (h : stepWorker cfg rows w m = some (rows', p))
    (hlost : ∀ r ∈ rows, r.id = w.row.id → r.startedAt ≠ some w.stamp) : rows' = rows := by
  have hg : ∀ r ∈ rows, guardedBy w.row.id (some w.stamp) r = false := by
    intro r hr
    by_contra hne
    obtain ⟨hid, hst⟩ := guardedBy_some.mp (Bool.eq_true_of_not_eq_false hne)
    exact hlost r hr hid hst
  cases stepWorker_write h with
  | quiet => rfl
  | finish | requeue => exact updateWhere_of_not_mem hg
  | release => exact updateWhere_of_not_mem fun r hr => by simp [hg r hr]

/-- **Claim safety.**  In every state any number of dispatchers can reach: every pending row has no
stamp; every running row carries the stamp of exactly one claim; a worker whose claim is not the one
the row carries changes nothing; and a closed row keeps its status for ever. -/
theorem queue_claim_safety (cfg : QueueConfig) {as : List QueueAct} {s : QueueSys}
    (h : Steps (QueueSys.step cfg) Free {} as s) :
    (∀ r ∈ s.rows, r.status.terminal = true → ∀ bs u, Steps (QueueSys.step cfg) Free s bs u →
      ∃! r', r' ∈ u.rows ∧ r'.id = r.id ∧ r'.status = r.status) ∧
    (∀ r ∈ s.rows, r.status = .pending → r.startedAt = none) ∧
    (∀ i w m s', s.workers[i]? = some w → s.step cfg (.worker i m) = some s' →
      (∀ r ∈ s.rows, r.id = w.row.id → r.startedAt ≠ some w.stamp) → s'.rows = s.rows) ∧
    (∀ r ∈ s.rows, r.status = .running →
      ∃! i : ℕ, ∃ w : Worker, s.workers[i]? = some w ∧ w.row.id = r.id ∧ r.startedAt = some w.stamp) := by
  have hi : s.Inv := QueueSys.inv_init.run h
  refine ⟨fun r hr ht bs u hrun => ?_, fun r hr => (hi.rows r hr).pending, ?_, fun r hr hrun => ?_⟩
  · obtain ⟨r', hr', hid, hst⟩ := status_of_terminal_run hi hrun hr ht
    refine ⟨r', ⟨hr', hid, hst⟩, ?_⟩
    rintro r'' ⟨hr'', hid', -⟩
    exact eq_of_key (hi.run hrun).ids hr'' hr' (hid'.trans hid.symm)
  · intro i w m s' hw hs hlost
    cases QueueSys.step_cases hs with
    | worker _ _ w' rows p hw' hstep =>
      obtain rfl := Option.some.inj (hw.symm.trans hw')
      exact stepWorker_of_reclaimed hstep hlost
  · obtain ⟨w, hw, hid, hst⟩ := (hi.rows r hr).running hrun
    obtain ⟨i, hlt, rfl⟩ := List.mem_iff_getElem.mp hw
    refine ⟨i, ⟨_, List.getElem?_eq_getElem hlt, hid, hst⟩, ?_⟩
    rintro j ⟨w', hw', hid', hst'⟩
    obtain ⟨hlt', rfl⟩ := List.getElem?_eq_some_iff.mp hw'
    -- the claim is in the list of claims at one place only
    refine (List.getElem?_inj (by simpa using hlt') hi.claims).mp ?_
    rw [List.getElem?_map, List.getElem?_map, List.getElem?_eq_getElem hlt', List.getElem?_eq_getElem hlt]
    exact congrArg some (Prod.ext (hid'.trans hid.symm) (Option.some.inj (hst'.symm.trans hst)))

def NewJob.sample : NewJob where
  id := 1
  projectId := 1
  capability := "chat:fast"
  createdAt := 0

/-- A job claimed, reclaimed after the stale window and claimed again, with the first worker's result
arriving late. -/
def reclaimed : List QueueAct :=
  [.submit .sample, .claim 0 24 [], .worker 0 (.lookup true), .stale (seconds 1501),
    .claim (seconds 1502) 24 [],
   .worker 0 (.ends (.success "late" .null)), .worker 0 (.write (seconds 1503) false)]

theorem queue_claim_safety_of_reclaimed :
    ∃ s, Steps (QueueSys.step {}) Free {} reclaimed s ∧
      s.rows.map (fun r => (r.status, r.startedAt, r.resultText)) = [(.running, some (seconds 1502), none)] ∧
      ∀ r ∈ s.rows, r.status = .running →
        ∃! i : ℕ, ∃ w : Worker, s.workers[i]? = some w ∧ w.row.id = r.id ∧ r.startedAt = some w.stamp := by
  have hrun : (execAll (QueueSys.step {}) {} reclaimed).map
      (fun s => s.rows.map fun r => (r.status, r.startedAt, r.resultText)) =
      some [(.running, some (seconds 1502), none)] := by decide
  obtain ⟨s, hs, hobs⟩ := steps_of_observed hrun
  exact ⟨s, hs, hobs, (queue_claim_safety {} hs).2.2.2⟩

end Broker.Services
