import Broker.Lib.Locks
import Broker.Lib.PyConv
import Broker.Lib.Table
import Broker.Lib.Trans
import Broker.Services.Dispatch

/-!
# Broker.Services.Compare — one open question per visitor of the compare page

`create_request` checks and inserts in one transaction under the advisory locks of the browser and of the
address; `fan_out` stores what became of each submit, `sync_request` what became of each job.  `CompareSys`
runs any number of each, interleaved at every statement; a transaction holds its locks until it ends.
-/

namespace Broker.Services

open Broker.Lib Broker.Db

/-! ### The tables -/

/-- `compare_results.status`. -/
inductive ResultStatus | pending | done | truncated | error | refused
  deriving DecidableEq, Repr

/-- `TERMINAL`. -/
def ResultStatus.terminal : ResultStatus → Bool
  | .pending => false
  | _ => true

structure CompareRequest where
  id : ℕ
  prompt : String
  browserId : String
  clientIp : String
  createdAt : Time
  deriving DecidableEq

structure CompareResult where
  id : ℕ
  requestId : ℕ
  modelId : String
  capability : String
  status : ResultStatus := .pending
  jobId : Option ℕ := none
  answer : Option String := none
  error : Option String := none
  finishReason : Option String := none
  createdAt : Time
  completedAt : Option Time := none

/-- A model the visitor ticked. -/
structure ComparedModel where
  id : String
  capability : String

/-- `ACTIVE_TIMEOUT_S`. -/
def activeTimeout : Time := seconds 300

/-- `active_request_id`, with the cutoff it read. -/
def activeRequestId (requests : List CompareRequest) (results : List CompareResult) (cutoff : Time)
    (browserId ip : String) : Option ℕ :=
  ((requests.filter fun r =>
      (decide (r.browserId = browserId) || (decide (ip ≠ "") && decide (r.clientIp = ip)))
        && decide (cutoff < r.createdAt)
        && results.any fun x => decide (x.requestId = r.id) && !x.status.terminal).map (·.id)).max?

/-! ### `create_request` -/

/-- Where the transaction stands: its locks taken one by one, the cutoff read, no active request found, its
request inserted, or over. -/
inductive CreatePhase where
  | started
  | browserLocked
  | locked
  | guard (cutoff : Time)
  | admitted
  | inserted (id : ℕ) (createdAt : Time)
  | ended (requestId : Option ℕ)

structure CreateTx where
  prompt : String
  browserId : String
  clientIp : String
  models : List ComparedModel
  phase : CreatePhase := .started

/-- The two advisory locks, and the lock on a row that is not committed yet. -/
inductive CompareLock where
  | browser (id : String)
  | ip (addr : String)
  | row (id : ℕ)
  deriving DecidableEq

/-- `_lock_caller`: the browser first, then the address if there is one. -/
def CreateTx.callerLocks (tx : CreateTx) : List CompareLock :=
  .browser tx.browserId :: if tx.clientIp = "" then [] else [.ip tx.clientIp]

def CreateTx.locks (tx : CreateTx) : List CompareLock :=
  match tx.phase with
  | .started | .ended _ => []
  | .browserLocked => [.browser tx.browserId]
  | .locked | .guard _ | .admitted => tx.callerLocks
  | .inserted id _ => .row id :: tx.callerLocks

inductive CreateMove | lockBrowser | lockIp | readCutoff | check | insert | commit | abort
  deriving DecidableEq

/-- The result rows of a new request. -/
def newResults (requestId firstId : ℕ) (now : Time) (models : List ComparedModel) : List CompareResult :=
  (models.zipIdx firstId).map fun m => ⟨m.2, requestId, m.1.id, m.1.capability, .pending, none, none, none,
    none, now, none⟩

/-! ### `fan_out` and `sync_request` -/

/-- How a submit ended. -/
inductive SubmitOutcome where
  | job (id : ℕ)
  | refused (reason : String)
  | failed (type : String)

/-- The unguarded `UPDATE` of `fan_out`. -/
def fanOutValues (o : SubmitOutcome) (now : Time) (x : CompareResult) : CompareResult :=
  match o with
  | .job id => { x with jobId := some id }
  | .refused reason => { x with status := .refused, error := some reason, completedAt := some now }
  | .failed type =>
    { x with status := .error, completedAt := some now, error := some ("ошибка отправки: " ++ type) }

/-- What `sync_request` reads of a job. -/
structure JobReply where
  status : Status
  text : Option String := none
  error : Option String := none
  finishReason : Option String := none

def truncatedNote : String := "обрезано: модель упёрлась в лимит длины ответа"

def truncatedEmptyNote : String := "пусто — всё ушло на рассуждение"

def timeoutMessage : String := "таймаут: модель не ответила за 5 минут"

/-- `is_cap_error`. -/
def isCapError (message : String) : Bool :=
  decide (message = capMessage "daily") || decide (message = capMessage "monthly")

/-- `job.error or job.status`. -/
def JobReply.reason (j : JobReply) : String :=
  match j.error with
  | some e => if e = "" then (if j.status = .error then "error" else "cancelled") else e
  | none => if j.status = .error then "error" else "cancelled"

/-- The values `sync_request` writes for a row, if any. -/
def syncValues (expired : Bool) (job : Option JobReply) (now : Time) :
    Option (CompareResult → CompareResult) :=
  let late := if expired then
      some fun x : CompareResult =>
        { x with status := .error, error := some timeoutMessage, completedAt := some now }
    else none
  match job with
  | none => late
  | some j =>
    match j.status with
    | .done =>
      if j.finishReason = some "length" then
        let blank := (PyConv.strip (j.text.getD "").toList).isEmpty
        some fun x => { x with
          status := .truncated
          answer := j.text
          finishReason := j.finishReason
          completedAt := some now
          error := some (if blank then truncatedNote ++ "; " ++ truncatedEmptyNote else truncatedNote) }
      else some fun x => { x with
        status := .done, answer := j.text, finishReason := j.finishReason, completedAt := some now }
    | .error | .cancelled =>
      if isCapError j.reason then
        some fun x => { x with
          status := .refused
          error := some ("отказ: лимит проекта (" ++ j.reason ++ ")")
          completedAt := some now }
      else some fun x => { x with status := .error, error := some j.reason, completedAt := some now }
    | .pending | .running => late

/-- A `sync_request` under way: the pending rows it read, and whether the request was over its time when it
looked at the clock. -/
structure SyncTask where
  createdAt : Time
  project : Bool
  rows : List CompareResult
  expired : Option Bool := none

/-! ### Any interleaving -/

/-- The committed tables, the clock, the next ids, and the calls under way; `fans` are the result rows whose
submit is under way. -/
structure CompareSys where
  clock : Time := 0
  requests : List CompareRequest := []
  results : List CompareResult := []
  nextRequest : ℕ := 1
  nextResult : ℕ := 1
  txs : List CreateTx := []
  fans : List ℕ := []
  syncs : List SyncTask := []

inductive CompareAct where
  | tick (now : Time)
  | begin (prompt browserId clientIp : String) (models : List ComparedModel)
  | create (i : ℕ) (m : CreateMove)
  | fanOut (requestId : ℕ)
  | submitted (resultId : ℕ) (o : SubmitOutcome) (now : Time)
  | syncRead (requestId : ℕ) (project : Bool)
  | syncClock (k : ℕ)
  | syncRow (k : ℕ) (reply : Option JobReply) (now : Time)

namespace CompareSys

variable (s : CompareSys)

/-- No transaction holds the lock. -/
def free (k : CompareLock) : Bool := s.txs.all fun tx => !tx.locks.contains k

def setTx (i : ℕ) (tx : CreateTx) (p : CreatePhase) : CompareSys :=
  { s with txs := s.txs.set i { tx with phase := p } }

/-- One statement of the `i`-th `create_request`. -/
def createStep (i : ℕ) (tx : CreateTx) : CreateMove → Option CompareSys
  | .lockBrowser =>
    match tx.phase with
    | .started => if s.free (.browser tx.browserId) then some (s.setTx i tx .browserLocked) else none
    | _ => none
  | .lockIp =>
    match tx.phase with
    | .browserLocked =>
      if tx.clientIp = "" ∨ s.free (.ip tx.clientIp) then some (s.setTx i tx .locked) else none
    | _ => none
  | .readCutoff =>
    match tx.phase with
    | .locked => some (s.setTx i tx (.guard (s.clock - activeTimeout)))
    | _ => none
  | .check =>
    match tx.phase with
    | .guard cutoff =>
      if (activeRequestId s.requests s.results cutoff tx.browserId tx.clientIp).isSome then
        some (s.setTx i tx (.ended none))
      else some (s.setTx i tx .admitted)
    | _ => none
  | .insert =>
    match tx.phase with
    | .admitted =>
      some { s.setTx i tx (.inserted s.nextRequest s.clock) with nextRequest := s.nextRequest + 1 }
    | _ => none
  | .commit =>
    match tx.phase with
    | .inserted id createdAt =>
      some { s.setTx i tx (.ended (some id)) with
        requests := s.requests ++ [⟨id, tx.prompt, tx.browserId, tx.clientIp, createdAt⟩]
        results := s.results ++ newResults id s.nextResult createdAt tx.models
        nextResult := s.nextResult + tx.models.length }
    | _ => none
  | .abort =>
    match tx.phase with
    | .ended _ => none
    | _ => some (s.setTx i tx (.ended none))

/-- `UPDATE compare_results … WHERE id = :id`, if the row is still pending where the statement asks for it. -/
def updateResult (id : ℕ) (onlyPending : Bool) (f : CompareResult → CompareResult) : CompareSys :=
  let matched := fun x : CompareResult => decide (x.id = id) && (!onlyPending || decide (x.status = .pending))
  { s with results := updateWhere matched f s.results }

def step : CompareAct → Option CompareSys
  | .tick now => if s.clock ≤ now then some { s with clock := now } else none
  | .begin prompt browserId clientIp models =>
    some { s with txs := s.txs ++ [⟨prompt, browserId, clientIp, models, .started⟩] }
  | .create i m => (s.txs[i]?).bind fun tx => s.createStep i tx m
  | .fanOut requestId =>
    some { s with fans := s.fans ++ (s.results.filter fun x => x.requestId = requestId).map (·.id) }
  | .submitted resultId o now =>
    if resultId ∈ s.fans then
      some { s.updateResult resultId false (fanOutValues o now) with fans := s.fans.erase resultId }
    else none
  | .syncRead requestId project =>
    match s.requests.find? fun r => r.id = requestId with
    | none => some s
    | some r =>
      let rows := s.results.filter fun x => decide (x.requestId = requestId) && decide (x.status = .pending)
      if rows.isEmpty then some s else some { s with syncs := s.syncs ++ [⟨r.createdAt, project, rows, none⟩] }
  | .syncClock k =>
    (s.syncs[k]?).bind fun t =>
      if t.expired.isSome then none
      else some { s with
        syncs := s.syncs.set k { t with expired := some (decide (activeTimeout < s.clock - t.createdAt)) } }
  | .syncRow k reply now =>
    (s.syncs[k]?).bind fun t =>
      match t.expired, t.rows with
      | some expired, x :: rest =>
        let job := if t.project && x.jobId.isSome then reply else none
        let s' := match syncValues expired job now with
          | some f => s.updateResult x.id true f
          | none => s
        some { s' with syncs := s.syncs.set k { t with rows := rest } }
      | _, _ => none

/-- A request younger than the timeout with a result that is not terminal. -/
def active (r : CompareRequest) : Bool :=
  decide (s.clock - activeTimeout < r.createdAt)
    && s.results.any fun x => decide (x.requestId = r.id) && !x.status.terminal

end CompareSys

/-! ### Results only settle -/

/-- A change of result rows that keeps what they belong to and never reopens a terminal one. -/
structure KeepsTerminal (f : CompareResult → CompareResult) : Prop where
  id : ∀ x, (f x).id = x.id
  requestId : ∀ x, (f x).requestId = x.requestId
  terminal : ∀ x, x.status.terminal = true → (f x).status.terminal = true

theorem KeepsTerminal.refl : KeepsTerminal fun x => x := ⟨fun _ => rfl, fun _ => rfl, fun _ h => h⟩

theorem KeepsTerminal.guarded {f : CompareResult → CompareResult} (h : KeepsTerminal f)
    (p : CompareResult → Bool) :
    KeepsTerminal fun x => if p x then f x else x := by
  refine ⟨fun x => ?_, fun x => ?_, fun x hx => ?_⟩ <;> by_cases hp : p x = true
  · simp only [if_pos hp, h.id]
  · simp only [if_neg hp]
  · simp only [if_pos hp, h.requestId]
  · simp only [if_neg hp]
  · simpa only [if_pos hp] using h.terminal x hx
  · simpa only [if_neg hp] using hx

theorem fanOutValues_keeps (o : SubmitOutcome) (now : Time) : KeepsTerminal (fanOutValues o now) := by
  cases o with
  | job id => exact ⟨fun _ => rfl, fun _ => rfl, fun _ h => h⟩
  | refused reason => exact ⟨fun _ => rfl, fun _ => rfl, fun _ _ => rfl⟩
  | failed type => exact ⟨fun _ => rfl, fun _ => rfl, fun _ _ => rfl⟩

theorem syncValues_keeps {expired : Bool} {job : Option JobReply} {now : Time}
    {f : CompareResult → CompareResult}
    (h : syncValues expired job now = some f) : KeepsTerminal f := by
  unfold syncValues at h
  have hlate : ∀ {g}, (if expired = true then
      some (fun x : CompareResult => { x with
        status := .error, error := some timeoutMessage, completedAt := some now }) else none) = some g →
      KeepsTerminal g := by
    intro g hg
    split_ifs at hg
    obtain rfl := Option.some.inj hg
    exact ⟨fun _ => rfl, fun _ => rfl, fun _ _ => rfl⟩
  cases job with
  | none => exact hlate h
  | some j =>
    cases hst : j.status with
    | pending | running =>
      simp only [hst] at h
      exact hlate h
    | done | error | cancelled =>
      simp only [hst] at h
      split_ifs at h <;> obtain rfl := Option.some.inj h <;>
        exact ⟨fun _ => rfl, fun _ => rfl, fun _ _ => rfl⟩

namespace CompareSys

variable {s s' : CompareSys}

theorem active_iff {r : CompareRequest} : s.active r = true ↔ s.clock - activeTimeout < r.createdAt ∧
    ∃ x ∈ s.results, x.requestId = r.id ∧ x.status.terminal = false := by
  simp [active]

/-- The later state of the tables: no request is lost or active again, no terminal result reopened. -/
structure Later (s s' : CompareSys) : Prop where
  requests : ∀ r ∈ s.requests, r ∈ s'.requests
  active : ∀ r ∈ s.requests, s'.active r = true → s.active r = true
  results : ∀ x ∈ s.results, ∃ x' ∈ s'.results, x'.id = x.id ∧
    (x.status.terminal = true → x'.status.terminal = true)

theorem Later.refl (s : CompareSys) : Later s s :=
  ⟨fun _ h => h, fun _ _ h => h, fun x hx => ⟨x, hx, rfl, id⟩⟩

theorem Later.trans {t : CompareSys} (h : Later s t) (h' : Later t s') : Later s s' := by
  refine ⟨fun r hr => h'.requests r (h.requests r hr), fun r hr ha => ?_, fun x hx => ?_⟩
  · exact h.active r hr (h'.active r (h.requests r hr) ha)
  · obtain ⟨y, hy, hid, ht⟩ := h.results x hx
    obtain ⟨z, hz, hid', ht'⟩ := h'.results y hy
    exact ⟨z, hz, hid'.trans hid, fun hx => ht' (ht hx)⟩

/-- Time passing and results settling make no request active. -/
theorem active_of_quiet (hclock : s.clock ≤ s'.clock) {g : CompareResult → CompareResult}
    (hg : KeepsTerminal g)
    (hres : s'.results = s.results.map g) {r : CompareRequest} (h : s'.active r = true) :
      s.active r = true := by
  rw [active_iff] at h ⊢
  obtain ⟨hage, x', hx', hreq, hopen⟩ := h
  rw [hres] at hx'
  obtain ⟨x, hx, rfl⟩ := List.mem_map.mp hx'
  have hcutoff : s.clock - activeTimeout ≤ s'.clock - activeTimeout := Int.sub_le_sub_right hclock _
  refine ⟨Int.lt_of_le_of_lt hcutoff hage, x, hx, (hg.requestId x).symm.trans hreq, ?_⟩
  by_contra hterm
  have hkept := hg.terminal x (Bool.eq_true_of_not_eq_false hterm)
  rw [hkept] at hopen
  cases hopen

theorem Later.of_quiet (hreq : s'.requests = s.requests) (hclock : s.clock ≤ s'.clock)
    {g : CompareResult → CompareResult} (hg : KeepsTerminal g) (hres : s'.results = s.results.map g) :
    Later s s' := by
  refine ⟨fun r hr => hreq ▸ hr, fun r _ ha => active_of_quiet hclock hg hres ha, fun x hx => ?_⟩
  exact ⟨g x, hres ▸ List.mem_map_of_mem hx, hg.id x, hg.terminal x⟩

end CompareSys

/-! ### The invariant -/

/-- The transaction asks about this request. -/
def CreateTx.Sees (tx : CreateTx) (r : CompareRequest) : Prop :=
  r.browserId = tx.browserId ∨ (tx.clientIp ≠ "" ∧ r.clientIp = tx.clientIp)

/-- The check of the transaction passed, and it has not ended. -/
def CreatePhase.Cleared : CreatePhase → Prop
  | .admitted | .inserted _ _ => True
  | _ => False

/-- Two requests of one browser, or of one non-empty address. -/
def CompareRequest.Clash (r r' : CompareRequest) : Prop :=
  r.browserId = r'.browserId ∨ (r.clientIp ≠ "" ∧ r.clientIp = r'.clientIp)

namespace CompareSys

variable {s s' : CompareSys}

/-- A lock is held by one transaction; a cutoff is in the past; a transaction whose check passed still sees no
active request; and no two active requests clash. -/
structure Inv (s : CompareSys) : Prop where
  requestIds : (s.requests.map (·.id)).Nodup
  known : ∀ r ∈ s.requests, r.id < s.nextRequest
  resultIds : (s.results.map (·.id)).Nodup
  numbered : ∀ x ∈ s.results, x.id < s.nextResult
  owned : ∀ x ∈ s.results, x.requestId ∈ s.requests.map (·.id)
  inserted : ∀ tx ∈ s.txs, ∀ id c, tx.phase = .inserted id c →
    id < s.nextRequest ∧ id ∉ s.requests.map (·.id)
  cutoff : ∀ tx ∈ s.txs, ∀ c, tx.phase = .guard c → c ≤ s.clock - activeTimeout
  locks : Exclusive (fun tx k => k ∈ CreateTx.locks tx) s.txs
  cleared : ∀ tx ∈ s.txs, tx.phase.Cleared → ∀ r ∈ s.requests, tx.Sees r → s.active r = false
  single : ∀ r ∈ s.requests, ∀ r' ∈ s.requests, s.active r = true → s.active r' = true → r.Clash r' → r = r'

theorem Inv.quiet (hi : s.Inv) (hreq : s'.requests = s.requests) (hnext : s'.nextRequest = s.nextRequest)
    (hres' : s'.nextResult = s.nextResult) (htxs : s'.txs = s.txs) (hclock : s.clock ≤ s'.clock)
    {g : CompareResult → CompareResult} (hg : KeepsTerminal g) (hres : s'.results = s.results.map g) :
    s'.Inv := by
  have hmap : s'.results.map (·.id) = s.results.map (·.id) := by
    rw [hres, List.map_map]
    exact List.map_congr_left fun x _ => hg.id x
  have hquiet : ∀ {r}, s.active r = false → s'.active r = false := by
    intro r hr
    by_contra ha
    rw [active_of_quiet hclock hg hres (Bool.eq_true_of_not_eq_false ha)] at hr
    cases hr
  refine ⟨hreq ▸ hi.requestIds, ?_, hmap ▸ hi.resultIds, ?_, ?_, ?_, ?_, htxs ▸ hi.locks, ?_, ?_⟩
  · rw [hreq, hnext]
    exact hi.known
  · rw [hres, hres']
    intro x' hx'
    obtain ⟨x, hx, rfl⟩ := List.mem_map.mp hx'
    rw [hg.id]
    exact hi.numbered x hx
  · rw [hres, hreq]
    intro x' hx'
    obtain ⟨x, hx, rfl⟩ := List.mem_map.mp hx'
    rw [hg.requestId]
    exact hi.owned x hx
  · rw [htxs, hreq, hnext]
    exact hi.inserted
  · rw [htxs]
    intro tx htx c hc
    exact (hi.cutoff tx htx c hc).trans (Int.sub_le_sub_right hclock _)
  · rw [htxs, hreq]
    exact fun tx htx hc r hr hsees => hquiet (hi.cleared tx htx hc r hr hsees)
  · rw [hreq]
    exact fun r hr r' hr' ha ha' => hi.single r hr r' hr' (active_of_quiet hclock hg hres ha)
      (active_of_quiet hclock hg hres ha')

/-! ### The steps of a transaction -/

theorem not_mem_locks_of_free {k : CompareLock} (h : s.free k = true) :
    ∀ z ∈ s.txs, k ∉ CreateTx.locks z := by
  intro z hz hk
  have hno := List.all_eq_true.mp h z hz
  simp [hk] at hno

/-- A transaction moves on, with the locks it had and those no other holds. -/
theorem Inv.move (hi : s.Inv) {i : ℕ} {tx : CreateTx} (htx : s.txs[i]? = some tx) {p : CreatePhase} {n : ℕ}
    (hn : s.nextRequest ≤ n)
    (hlocks : ∀ k ∈ CreateTx.locks { tx with phase := p }, k ∈ tx.locks ∨ ∀ z ∈ s.txs, k ∉ CreateTx.locks z)
    (hins : ∀ id c, p = .inserted id c → id < n ∧ id ∉ s.requests.map (·.id))
    (hcut : ∀ c, p = .guard c → c ≤ s.clock - activeTimeout)
    (hclr : p.Cleared → ∀ r ∈ s.requests, tx.Sees r → s.active r = false) :
    Inv { s.setTx i tx p with nextRequest := n } := by
  have hmem : ∀ z ∈ s.txs.set i { tx with phase := p }, z ∈ s.txs ∨ z = { tx with phase := p } :=
    fun z hz => List.mem_or_eq_of_mem_set hz
  refine ⟨hi.requestIds, fun r hr => (hi.known r hr).trans_le hn, hi.resultIds, hi.numbered, hi.owned, ?_, ?_,
    hi.locks.set htx hlocks, ?_, hi.single⟩
  · intro z hz id c hph
    rcases hmem z hz with hz | rfl
    · obtain ⟨hlt, hnot⟩ := hi.inserted z hz id c hph
      exact ⟨hlt.trans_le hn, hnot⟩
    · exact hins id c hph
  · intro z hz c hph
    rcases hmem z hz with hz | rfl
    · exact hi.cutoff z hz c hph
    · exact hcut c hph
  · intro z hz hc r hr hsees
    rcases hmem z hz with hz | rfl
    · exact hi.cleared z hz hc r hr hsees
    · exact hclr hc r hr hsees

/-- What the check found: no active request of the browser or of the address. -/
theorem active_of_activeRequestId {cutoff : Time} {tx : CreateTx} (hcut : cutoff ≤ s.clock - activeTimeout)
    (h : ¬ (activeRequestId s.requests s.results cutoff tx.browserId tx.clientIp).isSome = true)
    {r : CompareRequest} (hr : r ∈ s.requests) (hsees : tx.Sees r) : s.active r = false := by
  by_contra ha
  obtain ⟨hage, x, hx, hreq, hopen⟩ := active_iff.mp (Bool.eq_true_of_not_eq_false ha)
  have hfound : r ∈ s.requests.filter fun r =>
      (decide (r.browserId = tx.browserId) || (decide (tx.clientIp ≠ "") && decide (r.clientIp = tx.clientIp)))
        && decide (cutoff < r.createdAt)
        && s.results.any fun x => decide (x.requestId = r.id) && !x.status.terminal := by
    refine List.mem_filter.mpr ⟨hr, ?_⟩
    simp only [Bool.and_eq_true, Bool.or_eq_true, decide_eq_true_eq, List.any_eq_true, Bool.not_eq_true']
    exact ⟨⟨hsees, Int.lt_of_le_of_lt hcut hage⟩, x, hx, hreq, hopen⟩
  refine h ?_
  unfold activeRequestId
  rw [List.isSome_max?_iff]
  exact List.ne_nil_of_mem (List.mem_map_of_mem hfound)

theorem mem_newResults {requestId firstId : ℕ} {now : Time} {models : List ComparedModel} {x : CompareResult}
    (h : x ∈ newResults requestId firstId now models) : x.requestId = requestId := by
  obtain ⟨m, -, rfl⟩ := List.mem_map.mp h
  rfl

theorem map_id_newResults (requestId firstId : ℕ) (now : Time) (models : List ComparedModel) :
    (newResults requestId firstId now models).map (·.id) = List.range' firstId models.length := by
  unfold newResults
  rw [List.map_map, ← List.zipIdx_map_snd]
  rfl

/-- The result rows of another request do not matter. -/
theorem active_append {new : List CompareResult} {r : CompareRequest} (hclock : s'.clock = s.clock)
    (hres : s'.results = s.results ++ new) (hnew : ∀ x ∈ new, x.requestId ≠ r.id) :
    s'.active r = s.active r := by
  rw [Bool.eq_iff_iff, active_iff, active_iff, hclock, hres]
  constructor
  · rintro ⟨hage, x, hx, hreq, hopen⟩
    rcases List.mem_append.mp hx with hx | hx
    · exact ⟨hage, x, hx, hreq, hopen⟩
    · exact absurd hreq (hnew x hx)
  · rintro ⟨hage, x, hx, hreq, hopen⟩
    exact ⟨hage, x, List.mem_append_left _ hx, hreq, hopen⟩

/-- The lock of a browser or of an address two transactions share. -/
theorem shared_lock {tx z : CreateTx}
    (h : z.browserId = tx.browserId ∨ (z.clientIp ≠ "" ∧ tx.clientIp = z.clientIp)) :
    ∃ k, k ∈ tx.callerLocks ∧ k ∈ z.callerLocks := by
  rcases h with hb | ⟨hne, hip⟩
  · exact ⟨.browser tx.browserId, by simp [CreateTx.callerLocks], by simp [CreateTx.callerLocks, hb]⟩
  · refine ⟨.ip tx.clientIp, ?_, ?_⟩
    · simp [CreateTx.callerLocks, hip, hne]
    · simp [CreateTx.callerLocks, hip, hne]

theorem callerLocks_of_cleared {tx : CreateTx} (h : tx.phase.Cleared) :
    ∀ k ∈ tx.callerLocks, k ∈ tx.locks := by
  intro k hk
  unfold CreateTx.locks
  cases hph : tx.phase with
  | admitted => exact hk
  | inserted id c => exact List.mem_cons_of_mem _ hk
  | started | browserLocked | locked | guard | ended => simp [hph, CreatePhase.Cleared] at h

/-- The tables after the `i`-th transaction committed its request. -/
structure Committed (i : ℕ) (tx : CreateTx) (id : ℕ) (createdAt : Time) (s s' : CompareSys) : Prop where
  requests : s'.requests = s.requests ++ [⟨id, tx.prompt, tx.browserId, tx.clientIp, createdAt⟩]
  results : s'.results = s.results ++ newResults id s.nextResult createdAt tx.models
  nextRequest : s'.nextRequest = s.nextRequest
  nextResult : s'.nextResult = s.nextResult + tx.models.length
  txs : s'.txs = s.txs.set i { tx with phase := .ended (some id) }
  clock : s'.clock = s.clock

namespace Committed

variable {i id : ℕ} {tx : CreateTx} {createdAt : Time}

theorem ids (hc : Committed i tx id createdAt s s') :
    s'.requests.map (·.id) = s.requests.map (·.id) ++ [id] := by
  rw [hc.requests, List.map_append]
  rfl

/-- The new results belong to the new request, so the others are as active as before. -/
theorem active (hc : Committed i tx id createdAt s s') (hfresh : id ∉ s.requests.map (·.id))
    {r : CompareRequest} (hr : r ∈ s.requests) : s'.active r = s.active r := by
  refine active_append hc.clock hc.results fun x hx heq => hfresh ?_
  rw [← mem_newResults hx, heq]
  exact List.mem_map_of_mem hr

/-- The transactions that have not ended are apart from the one that committed. -/
theorem other (hi : s.Inv) (htx : s.txs[i]? = some tx) (hc : Committed i tx id createdAt s s') {z : CreateTx}
    (hz : z ∈ s'.txs) (hph : z.phase ≠ .ended (some id)) :
    z ∈ s.txs ∧ ∀ k ∈ z.locks, k ∉ tx.locks := by
  rw [hc.txs] at hz
  rcases hi.locks.of_mem_set htx hz with rfl | hz
  · exact absurd rfl hph
  · exact hz

theorem resultIds (hi : s.Inv) (hc : Committed i tx id createdAt s s') :
    (s'.results.map (·.id)).Nodup ∧ ∀ x ∈ s'.results, x.id < s'.nextResult := by
  have hnew := map_id_newResults id s.nextResult createdAt tx.models
  rw [hc.results, hc.nextResult, List.map_append, hnew, List.nodup_append]
  refine ⟨⟨hi.resultIds, List.nodup_range', ?_⟩, fun x hx => ?_⟩
  · rintro a ha b hb rfl
    obtain ⟨x, hx, rfl⟩ := List.mem_map.mp ha
    exact absurd (hi.numbered x hx) (Nat.not_lt.mpr (List.mem_range'_1.mp hb).1)
  · rcases List.mem_append.mp hx with hx | hx
    · exact Nat.lt_add_right _ (hi.numbered x hx)
    · have hrange : x.id ∈ List.range' s.nextResult tx.models.length := hnew ▸ List.mem_map_of_mem hx
      exact (List.mem_range'_1.mp hrange).2

/-- Whoever could see the new request shares a lock with it. -/
theorem cleared (hi : s.Inv) (htx : s.txs[i]? = some tx) (hcleared : tx.phase.Cleared)
    (hfresh : id ∉ s.requests.map (·.id)) (hc : Committed i tx id createdAt s s') :
    ∀ z ∈ s'.txs, z.phase.Cleared → ∀ r ∈ s'.requests, z.Sees r → s'.active r = false := by
  intro z hz hclr r hr hsees
  obtain ⟨hz, hapart⟩ := other hi htx hc hz fun hend => by rw [hend] at hclr; exact hclr
  rw [hc.requests] at hr
  rcases List.mem_append.mp hr with hr | hr
  · rw [hc.active hfresh hr]
    exact hi.cleared z hz hclr r hr hsees
  · rw [List.mem_singleton.mp hr] at hsees
    obtain ⟨k, hk, hkz⟩ := shared_lock (hsees.imp Eq.symm fun h => h)
    exact absurd (callerLocks_of_cleared hcleared k hk) (hapart k (callerLocks_of_cleared hclr k hkz))

/-- The transaction saw no active request that clashes with its own. -/
theorem single (hi : s.Inv) (htx : s.txs[i]? = some tx) (hcleared : tx.phase.Cleared)
    (hfresh : id ∉ s.requests.map (·.id)) (hc : Committed i tx id createdAt s s') :
    ∀ r ∈ s'.requests, ∀ r' ∈ s'.requests, s'.active r = true → s'.active r' = true → r.Clash r' → r = r' := by
  have hnone : ∀ r ∈ s.requests, tx.Sees r → s'.active r = false := by
    intro r hr hsees
    rw [hc.active hfresh hr]
    exact hi.cleared tx (List.mem_of_getElem? htx) hcleared r hr hsees
  rw [hc.requests]
  intro r hr r' hr' ha ha' hclash
  rcases List.mem_append.mp hr with hr | hr <;> rcases List.mem_append.mp hr' with hr' | hr'
  · rw [hc.active hfresh hr] at ha
    rw [hc.active hfresh hr'] at ha'
    exact hi.single r hr r' hr' ha ha' hclash
  · rw [List.mem_singleton.mp hr'] at hclash
    have hsees : tx.Sees r := by
      rcases hclash with hb | ⟨hne, hip⟩
      · exact .inl hb
      · exact .inr ⟨fun hempty => hne (hip.trans hempty), hip⟩
    rw [hnone r hr hsees] at ha
    cases ha
  · rw [List.mem_singleton.mp hr] at hclash
    rw [hnone r' hr' (hclash.imp Eq.symm fun ⟨hne, hip⟩ => ⟨hne, hip.symm⟩)] at ha'
    cases ha'
  · rw [List.mem_singleton.mp hr, List.mem_singleton.mp hr']

theorem later (hfresh : id ∉ s.requests.map (·.id)) (hc : Committed i tx id createdAt s s') : Later s s' := by
  refine ⟨fun r hr => ?_, fun r hr ha => hc.active hfresh hr ▸ ha, fun x hx => ⟨x, ?_, rfl, fun h => h⟩⟩
  · rw [hc.requests]
    exact List.mem_append_left _ hr
  · rw [hc.results]
    exact List.mem_append_left _ hx

end Committed

/-- **The commit of a new request.**  Whoever could have a clashing one shares a lock with it. -/
theorem Inv.commit (hi : s.Inv) {i : ℕ} {tx : CreateTx} (htx : s.txs[i]? = some tx) {id : ℕ}
    {createdAt : Time} (hph : tx.phase = .inserted id createdAt) (hc : Committed i tx id createdAt s s') :
    s'.Inv ∧ Later s s' := by
  obtain ⟨hlt, hfresh⟩ := hi.inserted tx (List.mem_of_getElem? htx) id createdAt hph
  have hcleared : tx.phase.Cleared := by rw [hph]; trivial
  obtain ⟨hresultIds, hnumbered⟩ := Committed.resultIds hi hc
  refine ⟨⟨?_, ?_, hresultIds, hnumbered, ?_, ?_, ?_, ?_, Committed.cleared hi htx hcleared hfresh hc,
    Committed.single hi htx hcleared hfresh hc⟩, hc.later hfresh⟩
  · rw [hc.ids, List.nodup_append]
    refine ⟨hi.requestIds, by simp, ?_⟩
    rintro a ha b hb rfl
    exact hfresh (List.mem_singleton.mp hb ▸ ha)
  · rw [hc.requests, hc.nextRequest]
    intro r hr
    rcases List.mem_append.mp hr with hr | hr
    · exact hi.known r hr
    · rw [List.mem_singleton.mp hr]
      exact hlt
  · rw [hc.results, hc.ids]
    intro x hx
    rcases List.mem_append.mp hx with hx | hx
    · exact List.mem_append_left _ (hi.owned x hx)
    · exact List.mem_append_right _ (List.mem_singleton.mpr (mem_newResults hx))
  · intro z hz id' c hphz
    obtain ⟨hz, hapart⟩ := Committed.other hi htx hc hz (by simp [hphz])
    obtain ⟨hlt', hnot⟩ := hi.inserted z hz id' c hphz
    refine ⟨hc.nextRequest ▸ hlt', ?_⟩
    rw [hc.ids]
    intro hin
    rcases List.mem_append.mp hin with hin | hin
    · exact hnot hin
    · -- both would hold the lock of the row
      refine hapart (.row id') (by simp [CreateTx.locks, hphz]) ?_
      rw [List.mem_singleton.mp hin]
      simp [CreateTx.locks, hph]
  · intro z hz c hphz
    obtain ⟨hz, -⟩ := Committed.other hi htx hc hz (by simp [hphz])
    rw [hc.clock]
    exact hi.cutoff z hz c hphz
  · rw [hc.txs]
    exact hi.locks.set htx fun k hk => by simp [CreateTx.locks] at hk

/-- Only the transaction that inserted a row holds its lock. -/
theorem phase_of_row_mem {tx : CreateTx} {id : ℕ} (h : CompareLock.row id ∈ tx.locks) :
    ∃ c, tx.phase = .inserted id c := by
  have hcaller : CompareLock.row id ∉ tx.callerLocks := by
    unfold CreateTx.callerLocks
    split_ifs <;> simp
  unfold CreateTx.locks at h
  cases hph : tx.phase with
  | inserted id' c =>
    simp only [hph] at h
    rcases List.mem_cons.mp h with heq | hmem
    · cases heq
      exact ⟨c, rfl⟩
    · exact absurd hmem hcaller
  | started | ended | browserLocked => simp [hph] at h
  | locked | guard | admitted =>
    simp only [hph] at h
    exact absurd h hcaller

/-- One statement of `create_request`. -/
theorem Inv.createStep (hi : s.Inv) {i : ℕ} {tx : CreateTx} (htx : s.txs[i]? = some tx) {m : CreateMove}
    (h : s.createStep i tx m = some s') : s'.Inv ∧ Later s s' := by
  have hmem : tx ∈ s.txs := List.mem_of_getElem? htx
  have hlater : ∀ {p : CreatePhase} {n : ℕ}, Later s { s.setTx i tx p with nextRequest := n } :=
    fun {p n} => ⟨fun _ hr => hr, fun _ _ ha => ha, fun x hx => ⟨x, hx, rfl, fun ht => ht⟩⟩
  have hend : ∀ {o : Option ℕ}, Inv { s.setTx i tx (.ended o) with nextRequest := s.nextRequest } := by
    intro o
    refine hi.move htx le_rfl (fun k hk => ?_) nofun nofun nofun
    simp [CreateTx.locks] at hk
  cases m with
  | lockBrowser =>
    simp only [CompareSys.createStep] at h
    split at h
    · split_ifs at h with hfree
      obtain rfl := Option.some.inj h
      refine ⟨hi.move htx le_rfl (fun k hk => .inr ?_) nofun nofun nofun, hlater⟩
      obtain rfl := List.mem_singleton.mp hk
      exact not_mem_locks_of_free hfree
    · cases h
  | lockIp =>
    simp only [CompareSys.createStep] at h
    split at h
    · rename_i hph
      split_ifs at h with hfree
      obtain rfl := Option.some.inj h
      refine ⟨hi.move htx le_rfl (fun k hk => ?_) nofun nofun nofun, hlater⟩
      rcases List.mem_cons.mp hk with rfl | hk
      · exact .inl (by simp [CreateTx.locks, hph])
      · split_ifs at hk with hempty
        · cases hk
        · obtain rfl := List.mem_singleton.mp hk
          exact .inr (not_mem_locks_of_free (hfree.resolve_left hempty))
    · cases h
  | readCutoff =>
    simp only [CompareSys.createStep] at h
    split at h
    · rename_i hph
      obtain rfl := Option.some.inj h
      refine ⟨hi.move htx le_rfl (fun k hk => .inl ?_) nofun ?_ nofun, hlater⟩
      · rw [CreateTx.locks, hph]
        exact hk
      · intro c hc
        cases hc
        exact le_rfl
    · cases h
  | check =>
    simp only [CompareSys.createStep] at h
    split at h
    · rename_i cutoff hph
      split_ifs at h with hactive
      · obtain rfl := Option.some.inj h
        exact ⟨hend, hlater⟩
      · obtain rfl := Option.some.inj h
        refine ⟨hi.move htx le_rfl (fun k hk => .inl ?_) nofun nofun fun _ r hr hsees => ?_, hlater⟩
        · rw [CreateTx.locks, hph]
          exact hk
        · exact active_of_activeRequestId (hi.cutoff tx hmem cutoff hph) hactive hr hsees
    · cases h
  | insert =>
    simp only [CompareSys.createStep] at h
    split at h
    · rename_i hph
      obtain rfl := Option.some.inj h
      refine ⟨hi.move htx (Nat.le_succ _) (fun k hk => ?_) ?_ nofun fun _ => ?_, hlater⟩
      · rcases List.mem_cons.mp hk with rfl | hk
        · -- the id is new: no other transaction has inserted it
          refine .inr fun z hz hkz => ?_
          obtain ⟨c, hphz⟩ := phase_of_row_mem hkz
          exact absurd (hi.inserted z hz _ c hphz).1 (lt_irrefl _)
        · refine .inl ?_
          rw [CreateTx.locks, hph]
          exact hk
      · rintro id c hc
        cases hc
        refine ⟨Nat.lt_succ_self _, fun hin => ?_⟩
        obtain ⟨r, hr, hid⟩ := List.mem_map.mp hin
        exact absurd (hi.known r hr) (by omega)
      · exact hi.cleared tx hmem (by rw [hph]; trivial)
    · cases h
  | commit =>
    simp only [CompareSys.createStep] at h
    split at h
    · rename_i id createdAt hph
      obtain rfl := Option.some.inj h
      exact hi.commit htx hph ⟨rfl, rfl, rfl, rfl, rfl, rfl⟩
    · cases h
  | abort =>
    simp only [CompareSys.createStep] at h
    split at h
    · cases h
    · obtain rfl := Option.some.inj h
      exact ⟨hend, hlater⟩

/-- A step that only moves the clock or settles results. -/
theorem Inv.quiet_step (hi : s.Inv) (hreq : s'.requests = s.requests) (hnext : s'.nextRequest = s.nextRequest)
    (hres' : s'.nextResult = s.nextResult) (htxs : s'.txs = s.txs) (hclock : s.clock ≤ s'.clock)
    {g : CompareResult → CompareResult} (hg : KeepsTerminal g) (hres : s'.results = s.results.map g) :
    s'.Inv ∧ Later s s' :=
  ⟨hi.quiet hreq hnext hres' htxs hclock hg hres, .of_quiet hreq hclock hg hres⟩

/-- **Every statement** keeps the invariant, makes no request active again and reopens no terminal result. -/
theorem Inv.step (hi : s.Inv) {a : CompareAct} (h : s.step a = some s') : s'.Inv ∧ Later s s' := by
  cases a with
  | tick now =>
    simp only [CompareSys.step] at h
    split_ifs at h with hle
    obtain rfl := Option.some.inj h
    exact hi.quiet_step rfl rfl rfl rfl hle .refl (List.map_id' _).symm
  | begin prompt browserId clientIp models =>
    obtain rfl := Option.some.inj h
    refine ⟨⟨hi.requestIds, hi.known, hi.resultIds, hi.numbered, hi.owned, ?_, ?_, ?_, ?_, hi.single⟩,
      ⟨fun _ hr => hr, fun _ _ ha => ha, fun x hx => ⟨x, hx, rfl, fun ht => ht⟩⟩⟩
    · intro z hz id c hph
      rcases List.mem_append.mp hz with hz | hz
      · exact hi.inserted z hz id c hph
      · rw [List.mem_singleton.mp hz] at hph
        cases hph
    · intro z hz c hph
      rcases List.mem_append.mp hz with hz | hz
      · exact hi.cutoff z hz c hph
      · rw [List.mem_singleton.mp hz] at hph
        cases hph
    · exact hi.locks.append fun k hk => by simp [CreateTx.locks] at hk
    · intro z hz hc
      rcases List.mem_append.mp hz with hz | hz
      · exact hi.cleared z hz hc
      · rw [List.mem_singleton.mp hz] at hc
        exact hc.elim
  | create i m =>
    obtain ⟨tx, htx, hstep⟩ := Option.bind_eq_some_iff.mp h
    exact hi.createStep htx hstep
  | fanOut requestId =>
    obtain rfl := Option.some.inj h
    exact hi.quiet_step rfl rfl rfl rfl le_rfl .refl (List.map_id' _).symm
  | submitted resultId o now =>
    simp only [CompareSys.step] at h
    split_ifs at h
    obtain rfl := Option.some.inj h
    exact hi.quiet_step rfl rfl rfl rfl le_rfl ((fanOutValues_keeps o now).guarded _) rfl
  | syncRead requestId project =>
    simp only [CompareSys.step] at h
    split at h
    · obtain rfl := Option.some.inj h
      exact ⟨hi, .refl s⟩
    · split_ifs at h
      · obtain rfl := Option.some.inj h
        exact ⟨hi, .refl s⟩
      · obtain rfl := Option.some.inj h
        exact hi.quiet_step rfl rfl rfl rfl le_rfl .refl (List.map_id' _).symm
  | syncClock k =>
    obtain ⟨t, -, hstep⟩ := Option.bind_eq_some_iff.mp h
    split_ifs at hstep
    obtain rfl := Option.some.inj hstep
    exact hi.quiet_step rfl rfl rfl rfl le_rfl .refl (List.map_id' _).symm
  | syncRow k reply now =>
    obtain ⟨t, -, hstep⟩ := Option.bind_eq_some_iff.mp h
    split at hstep
    · rename_i expired x rest hexp hrows
      obtain rfl := Option.some.inj hstep
      cases hval : syncValues expired (if t.project && x.jobId.isSome then reply else none) now with
      | none =>
        simp only
        exact hi.quiet_step rfl rfl rfl rfl le_rfl .refl (List.map_id' _).symm
      | some f =>
        simp only
        exact hi.quiet_step rfl rfl rfl rfl le_rfl ((syncValues_keeps hval).guarded _) rfl
    · cases hstep

theorem inv_init (clock : Time) : Inv { clock := clock } :=
  ⟨by simp, by simp, by simp, by simp, by simp, by simp, by simp, .nil, by simp, by simp⟩

theorem Inv.run (hi : s.Inv) {as : List CompareAct} (h : Steps CompareSys.step Free s as s') :
    s'.Inv ∧ Later s s' :=
  ⟨h.inv (I := Inv) (fun _ _ _ ht _ hs => (ht.step hs).1) hi,
    h.rel (I := Inv) (fun _ _ _ ht _ hs => (ht.step hs).1) Later.refl (fun _ _ _ => Later.trans)
      (fun _ _ _ ht _ hs => (ht.step hs).2) hi⟩

end CompareSys

/-- **One open question per visitor.**  At every moment of every interleaving of `create_request`,
`fan_out` and `sync_request` each browser and each non-empty address has at most one active request; a
request that is not active never becomes active again; and no terminal result returns to pending. -/
theorem compare_one_open_question (clock : Time) {as : List CompareAct} {s : CompareSys}
    (h : Steps CompareSys.step Free { clock := clock } as s) :
    (∀ r ∈ s.requests, ∀ r' ∈ s.requests, s.active r = true → s.active r' = true →
      r.browserId = r'.browserId ∨ (r.clientIp ≠ "" ∧ r.clientIp = r'.clientIp) → r = r') ∧
    ∀ bs u, Steps CompareSys.step Free s bs u →
      (∀ r ∈ s.requests, r ∈ u.requests ∧ (s.active r = false → u.active r = false)) ∧
      ∀ x ∈ s.results, x.status.terminal = true →
        ∃! x', x' ∈ u.results ∧ x'.id = x.id ∧ x'.status.terminal = true := by
  obtain ⟨hi, -⟩ := (CompareSys.inv_init clock).run h
  refine ⟨hi.single, fun bs u hrun => ?_⟩
  obtain ⟨hiu, hlater⟩ := hi.run hrun
  refine ⟨fun r hr => ⟨hlater.requests r hr, fun hoff => ?_⟩, fun x hx ht => ?_⟩
  · by_contra hon
    rw [hlater.active r hr (Bool.eq_true_of_not_eq_false hon)] at hoff
    cases hoff
  · obtain ⟨x', hx', hid, hterm⟩ := hlater.results x hx
    refine ⟨x', ⟨hx', hid, hterm ht⟩, ?_⟩
    rintro y ⟨hy, hyid, -⟩
    exact eq_of_key hiu.resultIds hy hx' (hyid.trans hid.symm)

/-- All statements of the `i`-th `create_request`. -/
def createAll (i : ℕ) : List CompareAct :=
  [.lockBrowser, .lockIp, .readCutoff, .check, .insert, .commit].map (.create i)

/-- A question, one of another browser of the same address that is refused meanwhile, and once the only model
has refused the submit, the next question of the first browser. -/
def twoVisitors : List CompareAct :=
  [.begin "a" "browser-0123456789" "10.0.0.1" [⟨"m", "chat:fast"⟩],
    .begin "b" "browser-9876543210" "10.0.0.1" [⟨"m", "chat:fast"⟩]] ++ createAll 0 ++
  [.create 1 .lockBrowser, .create 1 .lockIp, .create 1 .readCutoff, .create 1 .check, .tick (seconds 5),
    .fanOut 1, .submitted 1 (.refused "отказ") (seconds 5),
    .begin "c" "browser-0123456789" "10.0.0.1" [⟨"m", "chat:fast"⟩]] ++ createAll 2

theorem compare_one_open_question_of_two_visitors :
    ∃ s, Steps CompareSys.step Free { clock := seconds 1 } twoVisitors s ∧
      s.requests.map (·.prompt) = ["a", "c"] ∧ s.requests.map s.active = [false, true] ∧
      ∀ r ∈ s.requests, ∀ r' ∈ s.requests, s.active r = true → s.active r' = true →
        r.browserId = r'.browserId ∨ (r.clientIp ≠ "" ∧ r.clientIp = r'.clientIp) → r = r' := by
  have hrun : (execAll CompareSys.step { clock := seconds 1 } twoVisitors).map
      (fun s => (s.requests.map (·.prompt), s.requests.map s.active)) = some (["a", "c"], [false, true]) := by
    decide +kernel
  obtain ⟨s, hs, hobs⟩ := steps_of_observed hrun
  obtain ⟨hprompts, hactive⟩ := Prod.mk.inj hobs
  exact ⟨s, hs, hprompts, hactive, (compare_one_open_question _ hs).1⟩

end Broker.Services
