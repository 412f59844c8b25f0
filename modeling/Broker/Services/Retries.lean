import Broker.Services.JobCancel

/-!
# Broker.Services.Retries — the retry budget of a plain job

`retry_count` is written from a worker's snapshot by `_requeue_or_fail`, incremented in SQL by
`_requeue_stale_running` and left alone by `_release_claim`.  `RetrySys` is the queue with the claims a
shutdown handed back; every other claim of a job is an execution of it.
-/

namespace Broker.Services

open Broker.Lib Broker.Db

/-- The queue and the claims that ended by a release. -/
structure RetrySys where
  queue : QueueSys := {}
  released : List (ℕ × Time) := []

/-- The claim a step releases: `_release_claim` returned `True`. -/
def releasedBy (s : QueueSys) : QueueAct → List (ℕ × Time)
  | .worker i (.release _) =>
    match s.workers[i]? with
    | none => []
    | some w =>
      if s.rows.any fun r => decide (r.status = .running) && guardedBy w.row.id w.row.startedAt r then [w.claim]
      else []
  | _ => []

section

variable (cfg : QueueConfig)

def RetrySys.step (s : RetrySys) (a : QueueAct) : Option RetrySys :=
  (s.queue.step cfg a).map fun q => { queue := q, released := releasedBy s.queue a ++ s.released }

/-- The larger of the two retry limits. -/
def QueueConfig.budget : ℕ := max cfg.maxRetries cfg.maxContentRetries

end

/-- All claims so far. -/
def QueueSys.claims (s : QueueSys) : List (ℕ × Time) := s.workers.map Worker.claim

/-- How many times job `jobId` was executed, claims that ended by a release apart. -/
def RetrySys.executions (s : RetrySys) (jobId : ℕ) : ℕ :=
  s.queue.claims.countP fun c => decide (c.1 = jobId) && decide (c ∉ s.released)

/-- Whether the statement requeues or reclaims the row. -/
def retries (s : QueueSys) (r : PlainJobRow) : QueueAct → Bool
  | .stale now => isStaleRunning now r
  | .worker i (.requeue _) => (s.workers[i]?).any fun w => guardedBy w.row.id w.row.startedAt r
  | _ => false

variable {cfg : QueueConfig}

/-! ### What a worker's move does -/

/-- A move of a worker writes nothing or its terminal state, unless it is its requeue or its release. -/
inductive MoveEffect (rows : List PlainJobRow) (w : Worker) : WorkerMove → List PlainJobRow → Prop
  | quiet {m : WorkerMove} : (∀ now, m ≠ .requeue now) → (∀ now, m ≠ .release now) → MoveEffect rows w m rows
  | finish {m : WorkerMove} (f : Finish) (now : Time) :
      (∀ now, m ≠ .requeue now) → (∀ now, m ≠ .release now) →
      MoveEffect rows w m (finish now w.row.id f (some w.stamp) rows)
  | requeue (now : Time) : w.phase = .requeuing → MoveEffect rows w (.requeue now)
      (requeue now w.row.id (w.row.retryCount + 1) (some w.stamp) rows)
  | release (now : Time) : w.phase = .releasing → MoveEffect rows w (.release now)
      (releaseClaim now w.row.id (some w.stamp) rows)

theorem stepWorker_effect {rows rows' : List PlainJobRow} {w : Worker} {m : WorkerMove} {p : Phase}
    (h : stepWorker cfg rows w m = some (rows', p)) : MoveEffect rows w m rows' := by
  cases stepWorker_cases h with
  | write f now again hp => exact .finish f now (by simp) (by simp)
  | requeue now hp => exact .requeue now hp
  | release now hp => exact .release now hp
  | _ => exact .quiet (by simp) (by simp)

/-- A worker about to requeue has a retry left in the larger budget. -/
def Phase.Within (cfg : QueueConfig) (retryCount : ℕ) : Phase → Prop
  | .failing _ maxRetries => maxRetries ≤ cfg.budget
  | .requeuing => retryCount + 1 ≤ cfg.budget
  | _ => True

theorem afterLookup_within (row : PlainJobRow) (ok : Bool) (rc : ℕ) : (afterLookup row ok).Within cfg rc := by
  unfold afterLookup
  split_ifs <;> trivial

theorem afterRun_within (row : PlainJobRow) (o : RunOutcome) (rc : ℕ) :
    (afterRun cfg row o).Within cfg rc := by
  cases o with
  | contentFailed => exact le_max_right _ _
  | noProvider | failed => exact le_max_left _ _
  | _ => trivial

theorem afterFlag_within {row : PlainJobRow} {flag : Bool} {reason : String} {maxRetries : ℕ}
    (h : maxRetries ≤ cfg.budget) : (afterFlag row flag reason maxRetries).Within cfg row.retryCount := by
  unfold afterFlag
  split_ifs with hf hr
  · trivial
  · trivial
  · show row.retryCount + 1 ≤ cfg.budget
    omega

theorem PhaseStep.within {row : PlainJobRow} {flag : Bool} {p p' : Phase} {m : WorkerMove}
    (hp : p.Within cfg row.retryCount) (h : PhaseStep cfg row flag p m p') :
      p'.Within cfg row.retryCount := by
  cases h with
  | lookup ok => exact afterLookup_within row ok _
  | ends _ o _ => exact afterRun_within row o _
  | checkFlag reason n => exact afterFlag_within hp
  | _ => trivial

theorem stepWorker_within {rows rows' : List PlainJobRow} {w : Worker} {m : WorkerMove} {p : Phase}
    (hw : w.phase.Within cfg w.row.retryCount) (h : stepWorker cfg rows w m = some (rows', p)) :
    p.Within cfg w.row.retryCount :=
  (stepWorker_phase h).within hw

/-! ### The budget of a row -/

/-- The executions a row accounts for: one for every retry, and the current one. -/
def spent (r : PlainJobRow) : ℕ := r.retryCount + r.startedAt.isSome.toNat

/-- A row is within its budget, and a pending one has an execution left. -/
structure RowBudget (cfg : QueueConfig) (r : PlainJobRow) : Prop where
  spent : spent r ≤ cfg.budget + 1
  pending : r.status = .pending → r.retryCount ≤ cfg.budget

/-- A change of a row that starts no execution: the row loses its claim or keeps it with its count. -/
structure KeepsBudget (cfg : QueueConfig) (r r' : PlainJobRow) : Prop where
  id : r'.id = r.id
  spent : spent r' = spent r
  claim : (r'.startedAt = r.startedAt ∧ r'.retryCount = r.retryCount) ∨ r'.startedAt = none
  budget : RowBudget cfg r → RowBudget cfg r'

namespace KeepsBudget

variable {r : PlainJobRow}

theorem refl (cfg : QueueConfig) (r : PlainJobRow) : KeepsBudget cfg r r :=
  ⟨rfl, rfl, .inl ⟨rfl, rfl⟩, fun hb => hb⟩

theorem stale {now : Time} (h : isStaleRunning now r = true) : KeepsBudget cfg r (staleRow cfg now r) := by
  have hsome : r.startedAt.isSome = true := by
    simp only [isStaleRunning, Bool.and_eq_true] at h
    exact Option.isSome_of_any h.2
  have hspent : Services.spent (staleRow cfg now r) = Services.spent r := by
    simp [Services.spent, staleRow, hsome]
  refine ⟨rfl, hspent, .inr rfl, fun hb => ⟨hspent ▸ hb.spent, fun hpend => ?_⟩⟩
  by_cases hmax : cfg.maxRetries < r.retryCount + 1
  · simp [staleRow, hmax] at hpend
  · have hle : cfg.maxRetries ≤ cfg.budget := le_max_left _ _
    show r.retryCount + 1 ≤ cfg.budget
    omega

theorem cancel (now : Time) (r : PlainJobRow) : KeepsBudget cfg r (cancelRow now r) := by
  have hrc : (cancelRow now r).retryCount = r.retryCount := by
    unfold cancelRow
    split <;> rfl
  have hspent : Services.spent (cancelRow now r) = Services.spent r := by
    rw [Services.spent, Services.spent, hrc, cancelRow_startedAt]
  refine ⟨cancelRow_id now r, hspent, .inl ⟨cancelRow_startedAt now r, hrc⟩, fun hb => ⟨hspent ▸ hb.spent, ?_⟩⟩
  intro hpend
  rw [hrc]
  refine hb.pending ?_
  unfold cancelRow at hpend
  split at hpend
  · cases hpend
  · exact hpend
  · exact hpend

theorem finish (now : Time) (f : Finish) (r : PlainJobRow) : KeepsBudget cfg r (finishRow now f r) := by
  refine ⟨rfl, rfl, .inl ⟨rfl, rfl⟩, fun hb => ⟨hb.spent, fun hpend => ?_⟩⟩
  exact absurd f.closes (by rw [show f.status = .pending from hpend]; decide)

theorem requeue {t now : Time} (hst : r.startedAt = some t) (hle : r.retryCount + 1 ≤ cfg.budget) :
    KeepsBudget cfg r (requeueRow now (r.retryCount + 1) r) := by
  have hspent : Services.spent (requeueRow now (r.retryCount + 1) r) = Services.spent r := by
    simp [Services.spent, requeueRow, hst]
  exact ⟨rfl, hspent, .inr rfl, fun hb => ⟨hspent ▸ hb.spent, fun _ => hle⟩⟩

end KeepsBudget

theorem spent_releaseRow {r : PlainJobRow} {t : Time} (now : Time) (hst : r.startedAt = some t) :
    spent (releaseRow now r) + 1 = spent r := by
  simp [spent, releaseRow, hst]

/-- A row that gives its execution back may be executed again. -/
theorem RowBudget.release {r : PlainJobRow} {t : Time} (hb : RowBudget cfg r) (now : Time)
    (hst : r.startedAt = some t) : RowBudget cfg (releaseRow now r) := by
  have hspent := spent_releaseRow now hst
  have hone : Services.spent r = r.retryCount + 1 := by simp [Services.spent, hst]
  have hle := hb.spent
  refine ⟨by omega, fun _ => ?_⟩
  show r.retryCount ≤ cfg.budget
  omega

/-- A pending row has an execution left for its claim. -/
theorem RowBudget.claim {r : PlainJobRow} (hb : RowBudget cfg r) (now : Time) (hp : r.status = .pending) :
    RowBudget cfg (claimRow now r) := by
  have hle := hb.pending hp
  refine ⟨?_, fun h => absurd h (by simp [claimRow])⟩
  show r.retryCount + 1 ≤ cfg.budget + 1
  omega

/-! ### The invariant -/

/-- The row a claim returned still has the count of the row that carries its stamp; a worker about to
requeue has a retry left; a released claim is no longer carried; and every row accounts for the executions
of its job, within the budget. -/
structure RetrySys.Inv (cfg : QueueConfig) (s : RetrySys) : Prop where
  queue : s.queue.Inv
  snapshot : ∀ r ∈ s.queue.rows, ∀ w ∈ s.queue.workers, w.row.id = r.id → r.startedAt = some w.stamp →
    w.row.retryCount = r.retryCount
  within : ∀ w ∈ s.queue.workers, w.phase.Within cfg w.row.retryCount
  known : ∀ c ∈ s.queue.claims, c.1 ∈ s.queue.rows.map (·.id)
  released : ∀ c ∈ s.released, c ∈ s.queue.claims ∧ ∀ r ∈ s.queue.rows, r.id = c.1 → r.startedAt ≠ some c.2
  counted : ∀ r ∈ s.queue.rows, s.executions r.id = spent r
  budget : ∀ r ∈ s.queue.rows, RowBudget cfg r

/-- Every claim the rows of `q` carry is one that the rows of `s` carry with the same count, or a new one. -/
def QueueSys.Carried (s q : QueueSys) : Prop :=
  ∀ r ∈ q.rows, ∀ t, r.startedAt = some t →
    (∃ r₀ ∈ s.rows, r₀.id = r.id ∧ r₀.startedAt = some t ∧ r₀.retryCount = r.retryCount) ∨
      (r.id, t) ∉ s.claims

namespace RetrySys.Inv

variable {s : RetrySys}

/-- A claim that was released is not carried again. -/
theorem released_of_carried (hi : s.Inv cfg) {q : QueueSys} (hq : s.queue.Carried q) {c : ℕ × Time}
    (hc : c ∈ s.released) : ∀ r ∈ q.rows, r.id = c.1 → r.startedAt ≠ some c.2 := by
  intro r hr hid hst
  obtain ⟨hmem, hlost⟩ := hi.released c hc
  rcases hq r hr c.2 hst with ⟨r₀, hr₀, hid₀, hst₀, -⟩ | hnew
  · exact hlost r₀ hr₀ (hid₀.trans hid) hst₀
  · exact hnew (hid ▸ hmem)

/-- The workers that were there keep a true snapshot. -/
theorem snapshot_of_carried (hi : s.Inv cfg) {q : QueueSys} (hq : s.queue.Carried q) {w : Worker}
    (hw : w ∈ s.queue.workers) {r : PlainJobRow} (hr : r ∈ q.rows) (hid : w.row.id = r.id)
    (hst : r.startedAt = some w.stamp) : w.row.retryCount = r.retryCount := by
  rcases hq r hr w.stamp hst with ⟨r₀, hr₀, hid₀, hst₀, hrc⟩ | hnew
  · rw [← hrc]
    exact hi.snapshot r₀ hr₀ w hw (hid.trans hid₀.symm) hst₀
  · have hclaim : w.claim ∈ s.queue.claims := List.mem_map_of_mem hw
    exact absurd (hid ▸ hclaim) hnew

/-- A step that neither claims nor releases a job keeps the invariant when its rows keep their budget. -/
theorem update (hi : s.Inv cfg) {q : QueueSys} (hq : q.Inv)
    (hids : q.rows.map (·.id) = s.queue.rows.map (·.id)) (hclaims : q.claims = s.queue.claims)
    (hworkers : ∀ w ∈ q.workers, w.phase.Within cfg w.row.retryCount ∧
      ∃ w₀ ∈ s.queue.workers, w₀.row = w.row ∧ w₀.stamp = w.stamp)
    (hrows : ∀ r ∈ q.rows, ∃ r₀ ∈ s.queue.rows, KeepsBudget cfg r₀ r) :
    Inv cfg { s with queue := q } := by
  have hcarried : s.queue.Carried q := by
    intro r hr t hst
    obtain ⟨r₀, hr₀, hk⟩ := hrows r hr
    rcases hk.claim with ⟨hsame, hrc⟩ | hnone
    · exact .inl ⟨r₀, hr₀, hk.id.symm, by rw [← hsame, hst], hrc.symm⟩
    · rw [hnone] at hst
      cases hst
  refine ⟨hq, fun r hr w hw hid hst => ?_, fun w hw => (hworkers w hw).1, ?_, fun c hc => ?_, fun r hr => ?_,
    fun r hr => ?_⟩
  · obtain ⟨w₀, hw₀, hrow, hstamp⟩ := (hworkers w hw).2
    rw [← hrow]
    exact hi.snapshot_of_carried hcarried hw₀ hr (by rw [hrow, hid]) (by rw [hstamp, hst])
  · rw [hclaims, hids]
    exact hi.known
  · exact ⟨hclaims ▸ (hi.released c hc).1, hi.released_of_carried hcarried hc⟩
  · obtain ⟨r₀, hr₀, hk⟩ := hrows r hr
    rw [hk.spent, hk.id, ← hi.counted r₀ hr₀, executions, executions, hclaims]
  · obtain ⟨r₀, hr₀, hk⟩ := hrows r hr
    exact hk.budget (hi.budget r₀ hr₀)

/-- `update` for one statement on the table. -/
theorem statement (hi : s.Inv cfg) {p : PlainJobRow → Bool} {f : PlainJobRow → PlainJobRow}
    (hf : ∀ r, (f r).id = r.id) {q : QueueSys} (hq : q.Inv) (hrows : q.rows = updateWhere p f s.queue.rows)
    (hclaims : q.claims = s.queue.claims)
    (hworkers : ∀ w ∈ q.workers, w.phase.Within cfg w.row.retryCount ∧
      ∃ w₀ ∈ s.queue.workers, w₀.row = w.row ∧ w₀.stamp = w.stamp)
    (hkeep : ∀ r ∈ s.queue.rows, p r = true → KeepsBudget cfg r (f r)) : Inv cfg { s with queue := q } := by
  refine hi.update hq ?_ hclaims hworkers fun r hr => ?_
  · rw [hrows, map_updateWhere hf]
  · rw [hrows] at hr
    rcases mem_updateWhere.mp hr with ⟨hr, -⟩ | ⟨r₀, hr₀, hp, rfl⟩
    · exact ⟨r, hr, .refl cfg r⟩
    · exact ⟨r₀, hr₀, hkeep r₀ hr₀ hp⟩

theorem same_workers (hi : s.Inv cfg) : ∀ w ∈ s.queue.workers, w.phase.Within cfg w.row.retryCount ∧
    ∃ w₀ ∈ s.queue.workers, w₀.row = w.row ∧ w₀.stamp = w.stamp :=
  fun w hw => ⟨hi.within w hw, w, hw, rfl, rfl⟩

theorem moved_worker (hi : s.Inv cfg) {i : ℕ} {w : Worker} (hw : s.queue.workers[i]? = some w) {p : Phase}
    (hp : p.Within cfg w.row.retryCount) :
    ∀ w' ∈ s.queue.workers.set i (w.setPhase p), w'.phase.Within cfg w'.row.retryCount ∧
      ∃ w₀ ∈ s.queue.workers, w₀.row = w'.row ∧ w₀.stamp = w'.stamp := by
  intro w' hw'
  rcases List.mem_or_eq_of_mem_set hw' with hw' | rfl
  · exact hi.same_workers w' hw'
  · exact ⟨hp, w, List.mem_of_getElem? hw, rfl, rfl⟩

/-- The count of a job's claims once one more claim is released. -/
theorem countP_release {claims released : List (ℕ × Time)} {c : ℕ × Time} (h : claims.Nodup) (hc : c ∈ claims)
    (hnew : c ∉ released) (jobId : ℕ) :
    (claims.countP fun x => decide (x.1 = jobId) && decide (x ∉ [c] ++ released)) +
        (decide (c.1 = jobId)).toNat =
      claims.countP fun x => decide (x.1 = jobId) && decide (x ∉ released) := by
  have hsplit : (claims.countP fun x => decide (x.1 = jobId) && decide (x ∉ [c] ++ released)) =
      claims.countP fun x => (decide (x.1 = jobId) && decide (x ∉ released)) && decide (x ≠ c) := by
    refine List.countP_congr fun x _ => ?_
    simp [and_left_comm, and_comm]
  rw [hsplit]
  by_cases hj : c.1 = jobId
  · rw [decide_eq_true hj]
    exact countP_ne_succ (q := fun x => decide (x.1 = jobId) && decide (x ∉ released)) h hc (by simp [hj, hnew])
  · rw [decide_eq_false hj]
    refine List.countP_congr fun x _ => ?_
    simp only [Bool.and_eq_true, decide_eq_true_eq, and_iff_left_iff_imp]
    rintro ⟨hx, -⟩ rfl
    exact hj hx

/-- What a release matches. -/
theorem release_guard {w : Worker} {r : PlainJobRow}
    (h : (decide (r.status = .running) && guardedBy w.row.id (some w.stamp) r) = true) :
    r.id = w.row.id ∧ r.startedAt = some w.stamp :=
  guardedBy_some.mp (Bool.and_eq_true_iff.mp h).2

/-- The rows after the release of the claim that `r₁` carries. -/
theorem release_row (hi : s.Inv cfg) {w : Worker} {now : Time} {r₁ : PlainJobRow} (hr₁ : r₁ ∈ s.queue.rows)
    (hg₁ : (decide (r₁.status = .running) && guardedBy w.row.id (some w.stamp) r₁) = true) :
    ∀ r ∈ releaseClaim now w.row.id (some w.stamp) s.queue.rows,
      (r ∈ s.queue.rows ∧ r.id ≠ w.row.id) ∨ r = releaseRow now r₁ := by
  intro r hr
  obtain ⟨hid₁, -⟩ := release_guard hg₁
  rcases mem_updateWhere.mp hr with ⟨hr, hp⟩ | ⟨r₀, hr₀, hp, rfl⟩
  · refine .inl ⟨hr, fun hid => ?_⟩
    obtain rfl := eq_of_key hi.queue.ids hr hr₁ (hid.trans hid₁.symm)
    rw [hg₁] at hp
    cases hp
  · obtain ⟨hid₀, -⟩ := release_guard hp
    rw [eq_of_key hi.queue.ids hr₀ hr₁ (hid₀.trans hid₁.symm)]
    exact .inr rfl

/-- A release takes its claim out of the executions of its job. -/
theorem release (hi : s.Inv cfg) {i : ℕ} {w : Worker} (hw : s.queue.workers[i]? = some w) (now : Time)
    {q : QueueSys} (hq : q.Inv) (hrows : q.rows = releaseClaim now w.row.id (some w.stamp) s.queue.rows)
    {p : Phase} (hp : p.Within cfg w.row.retryCount)
    (hworkers : q.workers = s.queue.workers.set i (w.setPhase p)) :
    Inv cfg { queue := q, released := releasedBy s.queue (.worker i (.release now)) ++ s.released } := by
  have hclaims : q.claims = s.queue.claims := by rw [QueueSys.claims, hworkers, map_claim_set hw]; rfl
  have hmoved := hi.moved_worker hw hp
  simp only [releasedBy, hw, w.stamped]
  split_ifs with hany
  · -- the row carries the claim: it is released now, and was not before
    obtain ⟨r₁, hr₁, hg₁⟩ := List.any_eq_true.mp hany
    obtain ⟨hid₁, hst₁⟩ := release_guard hg₁
    have hmem : w.claim ∈ s.queue.claims := List.mem_map_of_mem (List.mem_of_getElem? hw)
    have hfresh : w.claim ∉ s.released := fun hc => (hi.released w.claim hc).2 r₁ hr₁ hid₁ hst₁
    have hcount : ∀ jobId, executions ⟨q, [w.claim] ++ s.released⟩ jobId + (decide (w.row.id = jobId)).toNat =
        s.executions jobId := by
      intro jobId
      rw [executions, hclaims]
      exact countP_release hi.queue.claims hmem hfresh jobId
    have hrow : ∀ r ∈ q.rows, (r ∈ s.queue.rows ∧ r.id ≠ w.row.id) ∨ r = releaseRow now r₁ := by
      rw [hrows]
      exact hi.release_row hr₁ hg₁
    have hcarried : s.queue.Carried q := by
      intro r hr t hst
      rcases hrow r hr with ⟨hr₀, -⟩ | rfl
      · exact .inl ⟨r, hr₀, rfl, hst, rfl⟩
      · cases hst
    refine ⟨hq, fun r hr w' hw' hid hst => ?_, fun w' hw' => ?_, ?_, fun c hc => ?_, fun r hr => ?_,
      fun r hr => ?_⟩
    · rw [hworkers] at hw'
      obtain ⟨w₀, hw₀, hrow₀, hst₀⟩ := (hmoved w' hw').2
      rw [← hrow₀]
      exact hi.snapshot_of_carried hcarried hw₀ hr (hrow₀ ▸ hid) (hst₀ ▸ hst)
    · rw [hworkers] at hw'
      exact (hmoved w' hw').1
    · have hids : q.rows.map (·.id) = s.queue.rows.map (·.id) := by
        rw [hrows, releaseClaim, map_updateWhere (releaseRow_id now)]
      rw [hclaims, hids]
      exact hi.known
    · rw [hclaims]
      rcases List.mem_cons.mp hc with rfl | hc
      · refine ⟨hmem, fun r hr hid hst => ?_⟩
        rcases hrow r hr with ⟨-, hne⟩ | rfl
        · exact hne hid
        · cases hst
      · exact ⟨(hi.released c hc).1, hi.released_of_carried hcarried hc⟩
    · rcases hrow r hr with ⟨hr₀, hne⟩ | rfl
      · have hc := hcount r.id
        rw [decide_eq_false (Ne.symm hne), Bool.toNat_false, Nat.add_zero] at hc
        rw [hc, hi.counted r hr₀]
      · have hc := hcount r₁.id
        have hspent := spent_releaseRow now hst₁
        rw [decide_eq_true hid₁.symm, Bool.toNat_true, hi.counted r₁ hr₁] at hc
        show executions _ r₁.id = _
        omega
    · rcases hrow r hr with ⟨hr₀, -⟩ | rfl
      · exact hi.budget r hr₀
      · exact (hi.budget r₁ hr₁).release now hst₁
  · -- no row carries the claim: the statement matches nothing
    refine hi.statement (releaseRow_id now) hq hrows hclaims (by rw [hworkers]; exact hmoved) fun r hr hg => ?_
    exact absurd (List.any_eq_true.mpr ⟨r, hr, hg⟩) hany

end RetrySys.Inv

/-! ### A claim -/

section Claimed

variable {s : QueueSys} {now : Time} {taken : PlainJobRow → Bool}

theorem claims_claimed : (s.claimed now taken).claims =
    s.claims ++ (s.rows.filter taken).map fun r => (r.id, now) := by
  simp only [QueueSys.claims, QueueSys.claimed, newWorkers, List.map_append, List.map_map]
  rfl

theorem Takes.not_mem_claims (h : Takes now s taken) {r : PlainJobRow} (hp : taken r = true) :
    (r.id, now) ∉ s.claims := by
  intro hmem
  obtain ⟨w, hw, hclaim⟩ := List.mem_map.mp hmem
  obtain ⟨hid, hst⟩ := Prod.mk.inj hclaim
  exact h.fresh r hp w hw hid hst

theorem Takes.carried (h : Takes now s taken) : s.Carried (s.claimed now taken) := by
  intro r hr t hst
  rcases mem_updateWhere.mp hr with ⟨hr₀, -⟩ | ⟨r₀, -, hp, rfl⟩
  · exact .inl ⟨r, hr₀, rfl, hst, rfl⟩
  · obtain rfl := Option.some.inj hst
    have hnew : (r₀.id, now) ∉ s.claims := h.not_mem_claims hp
    exact .inr hnew

/-- A new worker holds the row it claimed. -/
theorem snapshot_claimed (hids : (s.rows.map (·.id)).Nodup) {w : Worker}
    (hw : w ∈ newWorkers now (s.rows.filter taken)) {r : PlainJobRow} (hr : r ∈ (s.claimed now taken).rows)
    (hid : w.row.id = r.id) : w.row.retryCount = r.retryCount := by
  obtain ⟨r₁, hr₁, rfl⟩ := List.mem_map.mp hw
  obtain ⟨hr₁, hp₁⟩ := List.mem_filter.mp hr₁
  rcases mem_updateWhere.mp hr with ⟨hr, hp⟩ | ⟨r₀, hr₀, -, rfl⟩
  · obtain rfl := eq_of_key hids hr₁ hr hid
    rw [hp₁] at hp
    cases hp
  · obtain rfl := eq_of_key hids hr₁ hr₀ hid
    rfl

end Claimed

namespace RetrySys.Inv

variable {s : RetrySys}

/-- A claim adds one execution to each job it takes. -/
theorem executions_claimed (hi : s.Inv cfg) {now : Time} {taken : PlainJobRow → Bool}
    (ht : Takes now s.queue taken) {r : PlainJobRow} (hr : r ∈ s.queue.rows) :
    executions { s with queue := s.queue.claimed now taken } r.id = s.executions r.id + (taken r).toNat := by
  rw [executions, claims_claimed, List.countP_append, List.countP_map, List.countP_filter,
    ← countP_of_key hi.queue.ids hr taken]
  refine congrArg (s.executions r.id + ·) (List.countP_congr fun x _ => ?_)
  simp only [Function.comp_apply, Bool.and_eq_true, decide_eq_true_eq]
  refine and_congr_left fun hx => and_iff_left fun hrel => ?_
  exact ht.not_mem_claims hx (hi.released _ hrel).1

theorem claim (hi : s.Inv cfg) {now : Time} {taken : PlainJobRow → Bool} (ht : Takes now s.queue taken) :
    Inv cfg { s with queue := s.queue.claimed now taken } := by
  refine ⟨hi.queue.claim ht, fun r hr w hw hid hst => ?_, fun w hw => ?_, ?_, fun c hc => ?_, fun r hr => ?_,
    fun r hr => ?_⟩
  · rcases List.mem_append.mp hw with hw | hw
    · exact hi.snapshot_of_carried ht.carried hw hr hid hst
    · exact snapshot_claimed hi.queue.ids hw hr hid
  · rcases List.mem_append.mp hw with hw | hw
    · exact hi.within w hw
    · obtain ⟨r₁, -, rfl⟩ := List.mem_map.mp hw
      trivial
  · intro c hc
    rw [claims_claimed] at hc
    rw [QueueSys.claimed, map_updateWhere (claimRow_id now)]
    rcases List.mem_append.mp hc with hc | hc
    · exact hi.known c hc
    · obtain ⟨r₁, hr₁, rfl⟩ := List.mem_map.mp hc
      exact List.mem_map_of_mem (List.mem_filter.mp hr₁).1
  · rw [claims_claimed]
    exact ⟨List.mem_append_left _ (hi.released c hc).1, hi.released_of_carried ht.carried hc⟩
  · rcases mem_updateWhere.mp hr with ⟨hr, hp⟩ | ⟨r₀, hr₀, hp, rfl⟩
    · rw [hi.executions_claimed ht hr, hp, Bool.toNat_false, Nat.add_zero, hi.counted r hr]
    · -- a pending row carries no claim, so its new one is one more
      have hpend := ht.pending hi.queue.ids hr₀ hp
      have hnone : r₀.startedAt = none := (hi.queue.rows r₀ hr₀).pending hpend
      show executions _ r₀.id = _
      rw [hi.executions_claimed ht hr₀, hp, hi.counted r₀ hr₀]
      simp [spent, claimRow, hnone]
  · rcases mem_updateWhere.mp hr with ⟨hr, -⟩ | ⟨r₀, hr₀, hp, rfl⟩
    · exact hi.budget r hr
    · exact (hi.budget r₀ hr₀).claim now (ht.pending hi.queue.ids hr₀ hp)

/-- A new job has no executions yet. -/
theorem submit (hi : s.Inv cfg) {j : NewJob} (hfresh : j.id ∉ s.queue.rows.map (·.id))
    (hq : QueueSys.Inv { s.queue with rows := s.queue.rows ++ [j.row] }) :
    Inv cfg { s with queue := { s.queue with rows := s.queue.rows ++ [j.row] } } := by
  have hcarried : s.queue.Carried { s.queue with rows := s.queue.rows ++ [j.row] } := by
    intro r hr t hst
    rcases List.mem_append.mp hr with hr | hr
    · exact .inl ⟨r, hr, rfl, hst, rfl⟩
    · rw [List.mem_singleton.mp hr] at hst
      cases hst
  refine ⟨hq, fun r hr w hw hid hst => hi.snapshot_of_carried hcarried hw hr hid hst, hi.within,
    fun c hc => ?_, fun c hc => ⟨(hi.released c hc).1, hi.released_of_carried hcarried hc⟩, fun r hr => ?_,
    fun r hr => ?_⟩
  · rw [List.map_append]
    exact List.mem_append_left _ (hi.known c hc)
  · rcases List.mem_append.mp hr with hr | hr
    · exact hi.counted r hr
    · rw [List.mem_singleton.mp hr]
      show s.queue.claims.countP _ = 0
      rw [List.countP_eq_zero]
      intro c hc hcount
      have hid : c.1 = j.id := of_decide_eq_true (Bool.and_eq_true_iff.mp hcount).1
      exact hfresh (hid ▸ hi.known c hc)
  · rcases List.mem_append.mp hr with hr | hr
    · exact hi.budget r hr
    · rw [List.mem_singleton.mp hr]
      exact ⟨Nat.zero_le _, fun _ => Nat.zero_le _⟩

end RetrySys.Inv

/-- Only a release adds to the released claims. -/
theorem releasedBy_of_not_release {s : QueueSys} {a : QueueAct} (h : ∀ i now, a ≠ .worker i (.release now)) :
    releasedBy s a = [] := by
  unfold releasedBy
  split
  · exact absurd rfl (h _ _)
  · rfl

/-- **Every step keeps the retry budget.** -/
theorem RetrySys.Inv.step {s s' : RetrySys} {a : QueueAct} (hi : s.Inv cfg) (h : s.step cfg a = some s') :
    s'.Inv cfg := by
  obtain ⟨q, hstep, rfl⟩ := Option.map_eq_some_iff.mp h
  have hq : q.Inv := hi.queue.step hstep
  cases QueueSys.step_cases hstep with
  | submit j hnew =>
    rw [releasedBy_of_not_release (by simp)]
    exact hi.submit hnew hq
  | claim now limit locked taken ht =>
    rw [releasedBy_of_not_release (by simp)]
    exact hi.claim ht
  | stale now =>
    rw [releasedBy_of_not_release (by simp)]
    exact hi.statement (staleRow_id cfg now) hq rfl rfl hi.same_workers fun r _ hp => .stale hp
  | cancel now jobId projectId =>
    rw [releasedBy_of_not_release (by simp)]
    exact hi.statement (cancelRow_id now) hq rfl rfl hi.same_workers fun r _ _ => .cancel now r
  | worker i m w rows p hw hmove =>
    have hmem := List.mem_of_getElem? hw
    have hwithin := stepWorker_within (hi.within w hmem) hmove
    have hmoved := hi.moved_worker hw hwithin
    have hclaims : QueueSys.claims ⟨rows, s.queue.workers.set i (w.setPhase p), s.queue.started ++ startedBy i w m⟩ =
        s.queue.claims := map_claim_set hw p
    cases stepWorker_effect hmove with
    | quiet hnq hnr =>
      rw [releasedBy_of_not_release fun _ now heq => hnr now (by cases heq; rfl)]
      exact hi.update hq rfl hclaims hmoved fun r hr => ⟨r, hr, .refl cfg r⟩
    | finish f now hnq hnr =>
      rw [releasedBy_of_not_release fun _ now heq => hnr now (by cases heq; rfl)]
      exact hi.statement (finishRow_id now f) hq rfl hclaims hmoved fun r _ _ => .finish now f r
    | requeue now hph =>
      rw [releasedBy_of_not_release (by simp)]
      refine hi.statement (requeueRow_id now _) hq rfl hclaims hmoved fun r hr hg => ?_
      obtain ⟨hid, hst⟩ := guardedBy_some.mp hg
      -- the snapshot of the worker is still the count of the row
      have hrc := hi.snapshot r hr w hmem hid.symm hst
      have hle := hi.within w hmem
      rw [hph] at hle
      rw [hrc] at hle ⊢
      exact .requeue hst hle
    | release now hph => exact hi.release hw now hq rfl hwithin rfl

theorem RetrySys.inv_init (cfg : QueueConfig) : RetrySys.Inv cfg {} :=
  ⟨QueueSys.inv_init, by simp, by simp, by simp [QueueSys.claims], by simp, by simp, by simp⟩

/-- The row after a statement, for a row whose key is known. -/
theorem retryCount_updateWhere {rows : List PlainJobRow} (hids : (rows.map (·.id)).Nodup)
    {p : PlainJobRow → Bool}
    {f : PlainJobRow → PlainJobRow} (hf : ∀ r, (f r).id = r.id) {r r' : PlainJobRow} {n : ℕ} (hr : r ∈ rows)
    (hr' : r' ∈ updateWhere p f rows) (hid : r'.id = r.id) (hp : p r = true → (f r).retryCount = n)
    (hn : p r = false → r.retryCount = n) : r'.retryCount = n := by
  rcases mem_updateWhere.mp hr' with ⟨hmem, hno⟩ | ⟨r₀, hmem, hyes, rfl⟩
  · obtain rfl := eq_of_key hids hmem hr hid
    exact hn hno
  · obtain rfl := eq_of_key hids hmem hr ((hf r₀).symm.trans hid)
    exact hp hyes

/-- **A retry is counted once.**  A step raises the count of a row by one when it requeues or reclaims
the row, and leaves it otherwise. -/
theorem RetrySys.Inv.retryCount_step {s s' : RetrySys} {a : QueueAct} (hi : s.Inv cfg)
    (h : s.step cfg a = some s') {r r' : PlainJobRow} (hr : r ∈ s.queue.rows) (hr' : r' ∈ s'.queue.rows)
    (hid : r'.id = r.id) : r'.retryCount = r.retryCount + (retries s.queue r a).toNat := by
  obtain ⟨q, hstep, rfl⟩ := Option.map_eq_some_iff.mp h
  have hids := hi.queue.ids
  cases QueueSys.step_cases hstep with
  | submit j hnew =>
    rcases List.mem_append.mp hr' with hr' | hr'
    · rw [eq_of_key hids hr' hr hid]
      rfl
    · rw [List.mem_singleton.mp hr'] at hid
      exact absurd (List.mem_map.mpr ⟨r, hr, hid.symm⟩) hnew
  | claim now limit locked taken ht =>
    exact retryCount_updateWhere hids (claimRow_id now) hr hr' hid (fun _ => rfl) (fun _ => rfl)
  | stale now =>
    refine retryCount_updateWhere hids (staleRow_id cfg now) hr hr' hid (fun hp => ?_) (fun hp => ?_)
    · simp [retries, hp, staleRow]
    · simp [retries, hp]
  | cancel now jobId projectId =>
    refine retryCount_updateWhere hids (cancelRow_id now) hr hr' hid (fun _ => ?_) (fun _ => rfl)
    unfold cancelRow
    split <;> rfl
  | worker i m w rows p hw hmove =>
    have hquiet : (∀ now, m ≠ .requeue now) → retries s.queue r (.worker i m) = false := by
      intro hnq
      unfold retries
      split
      · rename_i heq
        cases heq
      · rename_i heq
        cases heq
        exact absurd rfl (hnq _)
      · rfl
    cases stepWorker_effect hmove with
    | quiet hnq hnr =>
      rw [hquiet hnq, eq_of_key hids hr' hr hid]
      rfl
    | finish f now hnq hnr =>
      rw [hquiet hnq]
      exact retryCount_updateWhere hids (finishRow_id now f) hr hr' hid (fun _ => rfl) (fun _ => rfl)
    | requeue now hph =>
      have hret : retries s.queue r (.worker i (.requeue now)) = guardedBy w.row.id (some w.stamp) r := by
        simp [retries, hw, w.stamped]
      rw [hret]
      refine retryCount_updateWhere hids (requeueRow_id now _) hr hr' hid (fun hp => ?_) (fun hp => ?_)
      · obtain ⟨hwid, hst⟩ := guardedBy_some.mp hp
        rw [hp, ← hi.snapshot r hr w (List.mem_of_getElem? hw) hwid.symm hst]
        rfl
      · rw [hp]
        rfl
    | release now hph =>
      rw [hquiet (by simp)]
      exact retryCount_updateWhere hids (releaseRow_id now) hr hr' hid (fun _ => rfl) (fun _ => rfl)

/-- **Retries are bounded and counted.**  In every run of any dispatchers, sweeps, cancels, failures and
shutdowns, a step raises the `retry_count` of a row by one when it requeues or reclaims it and leaves it
otherwise, releases included; and a job is executed at most once more than the larger of the two retry
limits, executions that a release ended apart. -/
theorem retries_bounded (cfg : QueueConfig) {as : List QueueAct} {s : RetrySys}
    (h : Steps (RetrySys.step cfg) Free {} as s) :
    (∀ a s', s.step cfg a = some s' → ∀ r ∈ s.queue.rows, (∃ r' ∈ s'.queue.rows, r'.id = r.id) ∧
      ∀ r' ∈ s'.queue.rows, r'.id = r.id →
        r'.retryCount = r.retryCount + (retries s.queue r a).toNat) ∧
    ∀ r ∈ s.queue.rows, s.executions r.id ≤ max cfg.maxRetries cfg.maxContentRetries + 1 := by
  have hi : s.Inv cfg := h.inv (fun _ _ _ ht _ hs => ht.step hs) (RetrySys.inv_init cfg)
  refine ⟨fun a s' hs r hr => ⟨?_, fun r' hr' hid => hi.retryCount_step hs hr hr' hid⟩, fun r hr => ?_⟩
  · obtain ⟨q, hstep, rfl⟩ := Option.map_eq_some_iff.mp hs
    obtain ⟨r', hr', hrow⟩ := (QueueSys.step_rows hi.queue.ids hstep).2 r hr
    exact ⟨r', hr', hrow.id_eq⟩
  · rw [hi.counted r hr]
    exact (hi.budget r hr).spent

/-- A job handed back by a shutdown, reclaimed as stale and claimed again: three claims, two executions. -/
theorem retries_bounded_of_released_job :
    ∃ s, Steps (RetrySys.step {}) Free {}
        [.submit .sample, .claim 0 24 [], .worker 0 .stop, .worker 0 (.release (seconds 1)),
          .claim (seconds 2) 24 [], .stale (seconds 1600), .claim (seconds 1700) 24 []] s ∧
      s.queue.claims.length = 3 ∧ s.queue.rows.map (fun r => (r.status, r.retryCount)) = [(.running, 1)] ∧
      s.executions 1 = 2 ∧ ∀ r ∈ s.queue.rows, s.executions r.id ≤ 9 := by
  have hrun : (execAll (RetrySys.step {}) {}
      [.submit .sample, .claim 0 24 [], .worker 0 .stop, .worker 0 (.release (seconds 1)),
        .claim (seconds 2) 24 [], .stale (seconds 1600), .claim (seconds 1700) 24 []]).map
      (fun s => (s.queue.claims.length, s.queue.rows.map (fun r => (r.status, r.retryCount)), s.executions 1)) =
      some (3, [(.running, 1)], 2) := by decide +kernel
  obtain ⟨s, hs, hobs⟩ := steps_of_observed hrun
  simp only [Prod.mk.injEq] at hobs
  exact ⟨s, hs, hobs.1, hobs.2.1, hobs.2.2, (retries_bounded {} hs).2⟩

/-- With no retries configured, a job whose content fails is still run again: the content retry is its own. -/
theorem content_retry_past_max_retries :
    ∃ s, Steps (RetrySys.step { maxRetries := 0 }) Free {}
        [.submit .sample, .claim 0 24 [], .worker 0 (.lookup true), .worker 0 (.ends .contentFailed),
          .worker 0 .checkFlag, .worker 0 (.requeue (seconds 1)), .claim (seconds 100) 24 [],
          .worker 1 (.lookup true)] s ∧
      s.released = [] ∧ s.executions 1 = 2 ∧ ¬ s.executions 1 ≤ 0 + 1 := by
  have hrun : (execAll (RetrySys.step { maxRetries := 0 }) {}
      [.submit .sample, .claim 0 24 [], .worker 0 (.lookup true), .worker 0 (.ends .contentFailed),
        .worker 0 .checkFlag, .worker 0 (.requeue (seconds 1)), .claim (seconds 100) 24 [],
        .worker 1 (.lookup true)]).map (fun s => (s.released, s.executions 1)) = some ([], 2) := by decide +kernel
  obtain ⟨s, hs, hobs⟩ := steps_of_observed hrun
  obtain ⟨hrel, hexec⟩ := Prod.mk.inj hobs
  exact ⟨s, hs, hrel, hexec, by rw [hexec]; decide⟩

end Broker.Services
