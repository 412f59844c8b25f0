import Broker.Services.Retries

/-!
# Broker.Services.PaidEscalation — the paid-only run of a job's last attempts

Two functions compare `retry_count` with `_MAX_RETRIES`: `_execute` when it chooses the paid tail, and
`_requeue_or_fail` when it gives a job up.  `runCall` is what `_execute` starts for a claimed row,
`requeueOrFail` what a failure of that run writes; the audio walk takes no `paid_only`.
-/

namespace Broker.Services

open Broker.Lib Broker.Db

/-- The chain table and what the provider registry says of it. -/
structure Catalog where
  chain : String → List String
  paid : List String
  modelFor : String → String → Option String

/-- `has_paid_tail`. -/
def Catalog.hasPaidTail (cat : Catalog) (capability : String) : Bool :=
  (cat.chain capability).any fun p => cat.paid.contains p && (cat.modelFor p capability).any fun m => m ≠ ""

/-- The run of a claimed row: `_run_transcription_job`, or `run_chat` with its `paid_only`. -/
inductive RunCall where
  | transcribe
  | chat (paidOnly : Bool)

/-- The run demands a paid key on every pick. -/
def RunCall.paidOnly : RunCall → Bool
  | .transcribe => false
  | .chat paidOnly => paidOnly

section

variable (cfg : QueueConfig) (cat : Catalog)

/-- The run `_execute` starts. -/
def runCall (row : PlainJobRow) : RunCall :=
  let paidOnly := decide ((cfg.maxRetries : ℤ) - 1 ≤ row.retryCount) && cat.hasPaidTail row.capability
  if row.capability = "transcription" then .transcribe else .chat paidOnly

/-- `_requeue_or_fail`. -/
def requeueOrFail (now : Time) (row : PlainJobRow) (reason : String) (maxRetries : ℕ)
    (rows : List PlainJobRow) : List PlainJobRow :=
  match afterFlag row (cancelFlag row.id rows) reason maxRetries with
  | .finishing f => finish now row.id f row.startedAt rows
  | _ => requeue now row.id (row.retryCount + 1) row.startedAt rows

/-- The table after the run of `row` found no provider. -/
def afterNoCapacity (now : Time) (row : PlainJobRow) (rows : List PlainJobRow) : List PlainJobRow :=
  requeueOrFail now row ("no provider available for " ++ row.capability) cfg.maxRetries rows

/-- A no-capacity failure of the run of `row` ends the job. -/
def FailureEnds (rows : List PlainJobRow) (row : PlainJobRow) : Prop :=
  ∀ now, ∃ r ∈ afterNoCapacity cfg now row rows, r.id = row.id ∧ r.status.terminal = true

/-- The run is paid-only exactly when its own no-capacity failure ends the job. -/
def LastShot (rows : List PlainJobRow) (row : PlainJobRow) : Prop :=
  (runCall cfg cat row).paidOnly = true ↔ FailureEnds cfg rows row

end

variable {cfg : QueueConfig} {cat : Catalog}

/-- The three moves with which a worker records that its run found no provider. -/
theorem afterNoCapacity_run {s : QueueSys} {i : ℕ} {w : Worker} (hw : s.workers[i]? = some w)
    (hin : w.phase.inRun = true) (now : Time) :
    ∃ m s', Steps (QueueSys.step cfg) Free s
      [.worker i (.ends .noProvider), .worker i .checkFlag, .worker i m] s' ∧
      s'.rows = afterNoCapacity cfg now w.row s.rows := by
  set reason := "no provider available for " ++ w.row.capability with hreason
  have hlt : i < s.workers.length := (List.getElem?_eq_some_iff.mp hw).1
  -- the run is over
  have h₁ : s.step cfg (.worker i (.ends .noProvider)) =
      some ⟨s.rows, s.workers.set i (w.setPhase (.failing reason cfg.maxRetries)), s.started ++ []⟩ := by
    simp only [QueueSys.step, hw, stepWorker, hin, if_true, afterRun, startedBy, hreason]
  set s₁ : QueueSys := ⟨s.rows, s.workers.set i (w.setPhase (.failing reason cfg.maxRetries)), s.started ++ []⟩
  have hw₁ : s₁.workers[i]? = some (w.setPhase (.failing reason cfg.maxRetries)) :=
    List.getElem?_set_self hlt
  -- the flag is read
  set p := afterFlag w.row (cancelFlag w.row.id s.rows) reason cfg.maxRetries with hp
  have h₂ : s₁.step cfg (.worker i .checkFlag) =
      some ⟨s.rows, s₁.workers.set i (w.setPhase p), s₁.started ++ []⟩ := by
    simp only [QueueSys.step, hw₁, stepWorker, Worker.setPhase, startedBy]
    rfl
  set s₂ : QueueSys := ⟨s.rows, s₁.workers.set i (w.setPhase p), s₁.started ++ []⟩
  have hw₂ : s₂.workers[i]? = some (w.setPhase p) :=
    List.getElem?_set_self (by simpa [s₁] using hlt)
  have hrun : Steps (QueueSys.step cfg) Free s [.worker i (.ends .noProvider), .worker i .checkFlag] s₂ :=
    (Steps.single trivial h₁).trans (Steps.single trivial h₂)
  -- the row is closed or requeued
  cases hph : p with
  | finishing f =>
    refine ⟨.write now false, ⟨finish now w.row.id f w.row.startedAt s.rows,
      s₂.workers.set i (w.setPhase .gone), s₂.started ++ []⟩, hrun.trans (Steps.single trivial ?_), ?_⟩
    · simp only [QueueSys.step, hw₂, stepWorker, Worker.setPhase, hph, startedBy]
      rfl
    · simp only [afterNoCapacity, requeueOrFail, ← hreason, ← hp, hph]
  | requeuing =>
    refine ⟨.requeue now, ⟨requeue now w.row.id (w.row.retryCount + 1) w.row.startedAt s.rows,
      s₂.workers.set i (w.setPhase .gone), s₂.started ++ []⟩, hrun.trans (Steps.single trivial ?_), ?_⟩
    · simp only [QueueSys.step, hw₂, stepWorker, Worker.setPhase, hph, startedBy]
      rfl
    · simp only [afterNoCapacity, requeueOrFail, ← hreason, ← hp, hph]
  | _ =>
    exfalso
    rw [hp] at hph
    unfold afterFlag at hph
    split_ifs at hph

/-- The failure of a run that holds its claim and is not to be cancelled ends the job exactly when the count
has reached the limit. -/
theorem failureEnds_iff {rows : List PlainJobRow} (hids : (rows.map (·.id)).Nodup) {w : Worker}
    {r : PlainJobRow}
    (hr : r ∈ rows) (hid : r.id = w.row.id) (hst : r.startedAt = some w.stamp)
    (hflag : r.cancelRequested = false) :
    FailureEnds cfg rows w.row ↔ cfg.maxRetries ≤ w.row.retryCount := by
  have hread : cancelFlag w.row.id rows = false := by rw [← hid, cancelFlag_eq hids hr, hflag]
  have hg : guardedBy w.row.id w.row.startedAt r = true := by
    rw [w.stamped]
    exact guardedBy_some.mpr ⟨hid, hst⟩
  by_cases hmax : cfg.maxRetries < w.row.retryCount + 1
  · refine iff_of_true (fun now => ?_) (by omega)
    simp only [afterNoCapacity, requeueOrFail, hread, afterFlag, hmax, if_true]
    refine ⟨_, mem_updateWhere.mpr (.inr ⟨r, hr, hg, rfl⟩), hid, rfl⟩
  · refine iff_of_false (fun hends => ?_) (by omega)
    obtain ⟨r', hr', hid', hterm⟩ := hends 0
    simp only [afterNoCapacity, requeueOrFail, hread, afterFlag, hmax, if_false] at hr'
    rcases mem_updateWhere.mp hr' with ⟨hmem, hno⟩ | ⟨r₀, -, -, rfl⟩
    · obtain rfl := eq_of_key hids hmem hr (hid'.trans hid.symm)
      rw [hg] at hno
      cases hno
    · cases hterm

theorem runCall_paidOnly {row : PlainJobRow} (hpaid : cat.hasPaidTail row.capability = true) :
    (runCall cfg cat row).paidOnly = true ↔
      row.capability ≠ "transcription" ∧ cfg.maxRetries ≤ row.retryCount + 1 := by
  unfold runCall
  split_ifs with htr
  · simp [RunCall.paidOnly, htr]
  · simp only [RunCall.paidOnly, hpaid, Bool.and_true, decide_eq_true_eq, ne_eq, htr, not_false_eq_true,
      true_and]
    omega

/-- **When paid escalation is the last shot.**  In every run of the queue, an execution of a job with a paid
tail that holds its claim and is not to be cancelled is paid-only exactly when its failure would end the job
if and only if its count is not one below the limit, and for audio, whose run is never paid-only, if and only
if the count is below the limit.  The count is the number of the job's executions before this one, the
released ones apart. -/
theorem paid_escalation_last_shot_iff (cfg : QueueConfig) (cat : Catalog) {as : List QueueAct} {s : RetrySys}
    (h : Steps (RetrySys.step cfg) Free {} as s) {w : Worker} (hw : w ∈ s.queue.workers)
    (hpaid : cat.hasPaidTail w.row.capability = true) {r : PlainJobRow} (hr : r ∈ s.queue.rows)
    (hid : r.id = w.row.id) (hst : r.startedAt = some w.stamp) (hflag : r.cancelRequested = false) :
    (LastShot cfg cat s.queue.rows w.row ↔
      if w.row.capability = "transcription" then w.row.retryCount < cfg.maxRetries
      else w.row.retryCount + 1 ≠ cfg.maxRetries) ∧
    s.executions r.id = w.row.retryCount + 1 := by
  have hi : s.Inv cfg := h.inv (fun _ _ _ ht _ hs => ht.step hs) (RetrySys.inv_init cfg)
  refine ⟨?_, ?_⟩
  · rw [LastShot, runCall_paidOnly hpaid, failureEnds_iff hi.queue.ids hr hid hst hflag]
    split_ifs with htr
    · simp only [htr, ne_eq, not_true_eq_false, false_and, false_iff, not_le]
    · simp only [ne_eq, htr, not_false_eq_true, true_and]
      omega
  · rw [hi.counted r hr, spent, hst, hi.snapshot r hr w hw hid.symm hst]
    rfl

/-! ### Two runs -/

def NewJob.smart : NewJob where
  id := 1
  projectId := 1
  capability := "chat:smart"
  createdAt := 0

/-- The chain of `chat:smart` with the wired models of its providers. -/
def Catalog.smart : Catalog where
  chain := fun c => if c = "chat:smart" then ["gemini", "deepseek", "sambanova", "anthropic"] else []
  paid := ["deepseek", "anthropic", "openai"]
  modelFor := fun p _ => some (p ++ "/m")

/-- A job whose worker died `n` times, claimed once more. -/
def workerDeaths (n : ℕ) : List QueueAct :=
  .submit .smart :: ((List.range n).flatMap fun k =>
    [.claim (seconds (2000 * k)) 24 [], .stale (seconds (2000 * k + 1600))]) ++
    [.claim (seconds (2000 * n)) 24 [], .worker n (.lookup true)]

/-- The last claim, and the rows. -/
def lastClaim (s : RetrySys) : Option (ℕ × String × ℕ × Time) :=
  s.queue.workers.getLast?.map fun w => (w.row.id, w.row.capability, w.row.retryCount, w.stamp)

/-- What an observed end of `workerDeaths` says of its last worker and of the job's row. -/
theorem lastClaim_spec {s : RetrySys} {id rc : ℕ} {capability : String} {t : Time}
    (h : lastClaim s = some (id, capability, rc, t))
    (hrows : s.queue.rows.map (fun r => (r.id, r.startedAt)) = [(id, some t)])
    (hflags : s.queue.rows.map (·.cancelRequested) = [false]) :
    ∃ w ∈ s.queue.workers, w.row.capability = capability ∧ w.row.retryCount = rc ∧
      ∃ r ∈ s.queue.rows, r.id = w.row.id ∧ r.startedAt = some w.stamp ∧ r.cancelRequested = false := by
  obtain ⟨w, hw, hobs⟩ := Option.map_eq_some_iff.mp h
  obtain ⟨hwid, hcap, hrc, hstamp⟩ := by simpa only [Prod.mk.injEq] using hobs
  have hmem : (id, some t) ∈ s.queue.rows.map fun r => (r.id, r.startedAt) := by
    rw [hrows]
    exact List.mem_singleton_self _
  obtain ⟨r, hr, hreq⟩ := List.mem_map.mp hmem
  obtain ⟨hid, hst⟩ := Prod.mk.inj hreq
  refine ⟨w, List.mem_of_getLast? hw, hcap, hrc, r, hr, hid.trans hwid.symm, by rw [hst, hstamp], ?_⟩
  have hflag := List.mem_map_of_mem (f := fun r : PlainJobRow => r.cancelRequested) hr
  rw [hflags] at hflag
  exact List.mem_singleton.mp hflag

/-- The run of a job's first execution is not paid-only, and its failure does not end the job. -/
theorem paid_escalation_last_shot_of_first_execution :
    ∃ s, Steps (RetrySys.step {}) Free {} (workerDeaths 0) s ∧
      ∃ w ∈ s.queue.workers, LastShot {} .smart s.queue.rows w.row := by
  have hrun : (execAll (RetrySys.step {}) {} (workerDeaths 0)).map (fun s =>
      (decide (lastClaim s = some (1, "chat:smart", 0, 0)),
        decide (s.queue.rows.map (fun r => (r.id, r.startedAt)) = [(1, some 0)]),
        s.queue.rows.map (·.cancelRequested))) = some (true, true, [false]) := by decide +kernel
  obtain ⟨s, hs, hobs⟩ := steps_of_observed hrun
  obtain ⟨hclaim, hrows, hflags⟩ := by simpa only [Prod.mk.injEq, decide_eq_true_eq] using hobs
  obtain ⟨w, hw, hcap, hrc, r, hr, hid, hst, hflag⟩ := lastClaim_spec hclaim hrows hflags
  refine ⟨s, hs, w, hw, ?_⟩
  refine ((paid_escalation_last_shot_iff {} .smart hs hw (by rw [hcap]; decide) hr hid hst hflag).1).mpr ?_
  rw [hcap, hrc]
  decide

/-- With the default limit of 8, the eighth execution of a job is paid-only though a ninth follows its
failure. -/
theorem paid_only_before_last_execution :
    ∃ s, Steps (RetrySys.step {}) Free {} (workerDeaths 7) s ∧
      ∃ w ∈ s.queue.workers, (runCall {} .smart w.row).paidOnly = true ∧
        ¬ LastShot {} .smart s.queue.rows w.row := by
  have hrun : (execAll (RetrySys.step {}) {} (workerDeaths 7)).map (fun s =>
      (decide (lastClaim s = some (1, "chat:smart", 7, seconds 14000)),
        decide (s.queue.rows.map (fun r => (r.id, r.startedAt)) = [(1, some (seconds 14000))]),
        s.queue.rows.map (·.cancelRequested))) = some (true, true, [false]) := by decide +kernel
  obtain ⟨s, hs, hobs⟩ := steps_of_observed hrun
  obtain ⟨hclaim, hrows, hflags⟩ := by simpa only [Prod.mk.injEq, decide_eq_true_eq] using hobs
  obtain ⟨w, hw, hcap, hrc, r, hr, hid, hst, hflag⟩ := lastClaim_spec hclaim hrows hflags
  have hids : (s.queue.rows.map (·.id)).Nodup :=
    (hs.inv (I := RetrySys.Inv {}) (fun _ _ _ ht _ h => ht.step h) (RetrySys.inv_init {})).queue.ids
  have hpaid : (runCall {} .smart w.row).paidOnly = true := by
    rw [runCall_paidOnly (by rw [hcap]; decide), hcap, hrc]
    decide
  refine ⟨s, hs, w, hw, hpaid, fun hlast => ?_⟩
  have hends := (failureEnds_iff hids hr hid hst hflag).mp (hlast.mp hpaid)
  rw [hrc] at hends
  exact absurd hends (by decide)

end Broker.Services
