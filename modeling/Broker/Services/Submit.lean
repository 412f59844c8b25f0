import Broker.Lib.JsonDump
import Broker.Lib.OrderedDict
import Broker.Lib.UniqueIndex
import Broker.Services.Dispatch

/-!
# Broker.Services.Submit — submitting a job under an Idempotency-Key

`submit_job_ex` looks the key up in one transaction and inserts in another; a loser of the race between
the two recovers from the `IntegrityError` by looking the key up again.  One step is one database
statement of one call (or a step of the job queue, which owns the jobs' lifecycle): a row is visible to
the others once its transaction commits, and an insert waits while another open transaction holds its
key.
-/

namespace Broker.Services

open Broker.Lib Broker.Db

/-! ### The request and its hash -/

/-- The arguments of `submit_job_ex`. -/
structure SubmitArgs where
  projectId : ℕ
  capability : String
  messages : List Json
  model : Option String := none
  maxTokens : ℤ
  temperature : ℚ
  responseFormat : Option Json := none
  workflow : Option String := none
  extra : List (String × Json) := []
  traceId : Option String := none
  labels : Option (List (String × String)) := none
  idempotencyKey : Option String := none
  priority : ℕ := 1

def optJson {α : Type} (f : α → Json) (o : Option α) : Json := (o.map f).getD .null

/-- `build_request`. -/
def buildRequest (a : SubmitArgs) : List (String × Json) :=
  a.extra.foldl (fun d e => OrderedDict.setItem d e.1 e.2)
    [("messages", .arr a.messages), ("model", optJson .str a.model), ("max_tokens", .int a.maxTokens),
      ("temperature", .float a.temperature), ("response_format", optJson id a.responseFormat),
      ("workflow", optJson .str a.workflow)]

/-- A message without its null fields. -/
def dropNulls : Json → Json
  | .obj es => .obj (es.filter fun e => match e.2 with | .null => false | _ => true)
  | m => m

/-- `_without_null_message_fields`. -/
def withoutNullMessageFields (request : List (String × Json)) : List (String × Json) :=
  match OrderedDict.get request "messages" with
  | some (.arr messages) => OrderedDict.setItem request "messages" (.arr (messages.map dropNulls))
  | _ => request

/-- What the hash takes from the interpreter: `hashlib.md5(..).hexdigest()` of a text and `float.__repr__`. -/
structure HashEnv where
  md5 : String → String
  floatRepr : ℚ → List Char

/-- `payload_hash`. -/
def payloadHash (E : HashEnv) (projectId : ℕ) (capability : String)
    (request : List (String × Json)) : String :=
  let style : DumpStyle ℚ := ⟨[','], [':'], JsonText.asciiQuote, E.floatRepr⟩
  let canonical := String.ofList ((Val.ofJson (.obj (withoutNullMessageFields request))).dumps style)
  E.md5 (toString projectId ++ ":" ++ capability ++ ":" ++ canonical)

def SubmitArgs.hash (E : HashEnv) (a : SubmitArgs) : String :=
  payloadHash E a.projectId a.capability (buildRequest a)

/-- `if idempotency_key:`. -/
def SubmitArgs.keyed (a : SubmitArgs) : Bool := a.idempotencyKey.getD "" ≠ ""

/-- `(project_id, idempotency_key)` under the partial unique index. -/
def SubmitArgs.slot (a : SubmitArgs) : Option (ℕ × String) := a.idempotencyKey.map fun k => (a.projectId, k)

/-- `AUDIO_FIELD` and the rest of the request, as the queue stores it. -/
def plainRequest (request : List (String × Json)) : PlainRequest where
  audioB64 := match OrderedDict.get request "audio_b64" with
    | some (.str s) => some s
    | _ => none
  rest := .obj (OrderedDict.pop request "audio_b64")

/-! ### Rows and calls -/

/-- The columns of a `deep_jobs` row that its lifecycle never writes. -/
structure KeyCols where
  id : ℕ
  projectId : ℕ
  capability : String
  payloadHash : Option String := none
  idempotencyKey : Option String := none
  traceId : Option String := none
  labels : Option (List (String × String)) := none
  deriving DecidableEq

/-- `ux_deep_jobs_idempotency`. -/
def KeyCols.slot (r : KeyCols) : Option (ℕ × String) := r.idempotencyKey.map fun k => (r.projectId, k)

inductive SubmitResult where
  | returned (jobId : ℕ) (replayed : Bool)
  | conflict (existingJobId : ℕ)
  | integrityError
  | failed
  deriving DecidableEq

/-- Where a call stands: before its lookup, before its insert (or the one that names no key column), with an
uncommitted row, after an `IntegrityError`, or at its end. -/
inductive SubmitPhase where
  | lookup
  | insert
  | degraded
  | inserted (row : KeyCols) (job : NewJob)
  | recover
  | done (r : SubmitResult)

/-- A call, in one of the worker processes. -/
structure SubmitCall where
  worker : ℕ
  args : SubmitArgs
  phase : SubmitPhase

/-- Its uncommitted row. -/
def SubmitCall.pending (c : SubmitCall) : Option KeyCols :=
  match c.phase with
  | .inserted row _ => some row
  | _ => none

/-- The queue, the key columns of all committed rows, the sequence of ids, the processes whose
`_dedup_available` has flipped, and the calls. -/
structure SubmitSys where
  queue : QueueSys := {}
  cols : List KeyCols := []
  nextId : ℕ := 1
  dedupOff : List ℕ := []
  calls : List SubmitCall := []

namespace SubmitSys

/-- The rows of open transactions. -/
def pending (s : SubmitSys) : List KeyCols := s.calls.filterMap SubmitCall.pending

def setPhase (s : SubmitSys) (i : ℕ) (c : SubmitCall) (p : SubmitPhase) : SubmitSys :=
  { s with calls := s.calls.set i { c with phase := p } }

end SubmitSys

/-! ### The statements -/

/-- `find_by_idempotency_key`. -/
def findByIdempotencyKey (cols : List KeyCols) (slot : Option (ℕ × String)) : Option KeyCols :=
  cols.find? fun r => r.slot = slot

/-- `replayed_job_id`. -/
def replayedJobId (cols : List KeyCols) (slot : Option (ℕ × String)) (hash : String) : Option SubmitResult :=
  (findByIdempotencyKey cols slot).map fun hit =>
    if hit.payloadHash = some hash then .returned hit.id true else .conflict hit.id

/-- `_DEDUP_WINDOW_S`. -/
def dedupWindow : Time := seconds (30 * 60)

/-- `ORDER BY created_at DESC`. -/
def newestFirst (r r' : PlainJobRow) : Prop := r'.createdAt ≤ r.createdAt

instance : DecidableRel newestFirst := fun r r' => inferInstanceAs (Decidable (r'.createdAt ≤ r.createdAt))

/-- `_find_inflight_duplicate`. -/
def findInflightDuplicate (s : SubmitSys) (a : SubmitArgs) (hash : String) (now : Time) : Option ℕ :=
  let ids := (s.cols.filter fun r =>
    r.projectId = a.projectId && r.capability = a.capability && r.payloadHash = some hash).map KeyCols.id
  let rows := s.queue.rows.filter fun r =>
    ids.contains r.id && !r.status.terminal && now - dedupWindow < r.createdAt
  ((rows.insertionSort newestFirst).head?).map (·.id)

/-- The row a call inserts; the degraded statement names no key column. -/
def newCols (E : HashEnv) (a : SubmitArgs) (raw : Bool) (id : ℕ) : KeyCols :=
  if raw then { id := id, projectId := a.projectId, capability := a.capability }
  else
    { id := id
      projectId := a.projectId
      capability := a.capability
      payloadHash := some (a.hash E)
      idempotencyKey := a.idempotencyKey
      traceId := a.traceId
      labels := a.labels }

def newJob (a : SubmitArgs) (raw : Bool) (id : ℕ) (now : Time) : NewJob where
  id := id
  projectId := a.projectId
  capability := a.capability
  request := plainRequest (buildRequest a)
  createdAt := now
  priority := if raw then 1 else a.priority

/-- One statement of the `i`-th call, a step of the queue, or another writer of `deep_jobs`. -/
inductive SubmitAct where
  | call (worker : ℕ) (args : SubmitArgs)
  | lookup (i : ℕ) (now : Time)
  | lookupBroken (i : ℕ)
  | flush (i : ℕ) (now : Time)
  | commit (i : ℕ)
  | commitFails (i : ℕ) (committed : Bool)
  | recover (i : ℕ)
  | fails (i : ℕ)
  | queue (a : QueueAct)
  | agentRun (row : KeyCols)

section Step

variable (cfg : QueueConfig) (E : HashEnv)

/-- The lookup of a call. -/
def lookupPhase (s : SubmitSys) (c : SubmitCall) (now : Time) : SubmitPhase :=
  if c.args.keyed then
    match replayedJobId s.cols c.args.slot (c.args.hash E) with
    | some r => .done r
    | none => .insert
  else if c.worker ∈ s.dedupOff then .degraded
  else match findInflightDuplicate s c.args (c.args.hash E) now with
    | some id => .done (.returned id false)
    | none => .insert

/-- The insert of a call: it conflicts with a committed row of its key, or leaves an uncommitted one. -/
def flushPhase (s : SubmitSys) (c : SubmitCall) (raw : Bool) (now : Time) : SubmitPhase :=
  let row := newCols E c.args raw s.nextId
  if row.slot ≠ none ∧ ∃ r ∈ s.cols, r.slot = row.slot then
    if c.args.keyed then .recover else .done .integrityError
  else .inserted row (newJob c.args raw s.nextId now)

/-- Another open transaction holds the key. -/
def blocked (s : SubmitSys) (row : KeyCols) :
    Bool := s.pending.any fun r => r.slot ≠ none && r.slot = row.slot

/-- The recovery of a call that lost the race. -/
def recoverPhase (s : SubmitSys) (c : SubmitCall) : SubmitPhase :=
  .done ((replayedJobId s.cols c.args.slot (c.args.hash E)).getD .integrityError)

/-- A committed row joins the table; the queue sees it when it is a plain job. -/
def SubmitSys.publish (s : SubmitSys) (row : KeyCols) (job : NewJob) : SubmitSys :=
  { s with cols := s.cols ++ [row], queue := (s.queue.step cfg (.submit job)).getD s.queue }

def stepCall (s : SubmitSys) (i : ℕ) (c : SubmitCall) : SubmitAct → Option SubmitSys
  | .lookup _ now =>
    match c.phase with
    | .lookup => some (s.setPhase i c (lookupPhase E s c now))
    | _ => none
  | .lookupBroken _ =>
    match c.phase with
    | .lookup =>
      if c.args.keyed ∨ c.worker ∈ s.dedupOff then none
      else some { s.setPhase i c .degraded with dedupOff := c.worker :: s.dedupOff }
    | _ => none
  | .flush _ now =>
    match c.phase with
    | .insert =>
      if blocked s (newCols E c.args false s.nextId) then none
      else some { s.setPhase i c (flushPhase E s c false now) with nextId := s.nextId + 1 }
    | .degraded => some { s.setPhase i c (flushPhase E s c true now) with nextId := s.nextId + 1 }
    | _ => none
  | .commit _ =>
    match c.phase with
    | .inserted row job => some ((s.setPhase i c (.done (.returned row.id false))).publish cfg row job)
    | _ => none
  | .commitFails _ committed =>
    match c.phase with
    | .inserted row job =>
      let s' := s.setPhase i c (.done .failed)
      some (if committed then s'.publish cfg row job else s')
    | _ => none
  | .recover _ =>
    match c.phase with
    | .recover => some (s.setPhase i c (recoverPhase E s c))
    | _ => none
  | .fails _ =>
    match c.phase with
    | .lookup | .insert | .degraded | .recover => some (s.setPhase i c (.done .failed))
    | _ => none
  | _ => none

/-- The call an action is of. -/
def SubmitAct.call? : SubmitAct → Option ℕ
  | .lookup i _ | .lookupBroken i | .flush i _ | .commit i | .commitFails i _ | .recover i | .fails i => some i
  | _ => none

/-- The database fails the call. -/
def SubmitAct.isFailure : SubmitAct → Bool
  | .commitFails _ _ | .fails _ => true
  | _ => false

/-- A step of the jobs' lifecycle; new jobs come from the calls. -/
def SubmitSys.stepQueue (s : SubmitSys) : QueueAct → Option SubmitSys
  | .submit _ => none
  | a => (s.queue.step cfg a).map fun q => { s with queue := q }

def SubmitSys.step (s : SubmitSys) (a : SubmitAct) : Option SubmitSys :=
  match a with
  | .call worker args => some { s with calls := s.calls ++ [⟨worker, args, .lookup⟩] }
  | .queue a => s.stepQueue cfg a
  | .agentRun row =>
    let row := { row with id := s.nextId }
    if row.slot ≠ none ∧ ∃ r ∈ s.cols ++ s.pending, r.slot = row.slot then none
    else some { s with cols := s.cols ++ [row], nextId := s.nextId + 1 }
  | a =>
    match a.call? with
    | none => none
    | some i =>
      match s.calls[i]? with
      | none => none
      | some c => stepCall cfg E s i c a

end Step

/-! ### What a call may rely on -/

/-- The row a call answers with is the one of its key: with its own hash when it returns, with another when it
raises `IdempotencyConflict`; a call that lost the race finds the winner's row committed. -/
def SubmitCall.Ok (E : HashEnv) (cols : List KeyCols) (c : SubmitCall) : Prop :=
  match c.phase with
  | .inserted row _ => c.args.keyed = true → row.slot = c.args.slot ∧ row.payloadHash = some (c.args.hash E)
  | .degraded => c.args.keyed = false
  | .recover => ∃ row ∈ cols, row.slot = c.args.slot
  | .done (.returned id _) => c.args.keyed = true →
      ∃ row ∈ cols, row.id = id ∧ row.slot = c.args.slot ∧ row.payloadHash = some (c.args.hash E)
  | .done (.conflict id) =>
      ∃ row ∈ cols, row.id = id ∧ row.slot = c.args.slot ∧ row.payloadHash ≠ some (c.args.hash E)
  | .done .integrityError => c.args.keyed = false
  | _ => True

variable {cfg : QueueConfig} {E : HashEnv} {s s' : SubmitSys} {c : SubmitCall} {cols : List KeyCols}

/-- A call relies on the rows of its own key alone. -/
theorem SubmitCall.Ok.mono {cols' : List KeyCols} (h : c.Ok E cols)
    (hsub : ∀ r ∈ cols, r.slot = c.args.slot → r ∈ cols') : c.Ok E cols' := by
  unfold SubmitCall.Ok at h ⊢
  split at h
  · exact h
  · exact h
  · obtain ⟨row, hrow, hslot⟩ := h
    exact ⟨row, hsub row hrow hslot, hslot⟩
  · intro hk
    obtain ⟨row, hrow, hid, hslot, hhash⟩ := h hk
    exact ⟨row, hsub row hrow hslot, hid, hslot, hhash⟩
  · obtain ⟨row, hrow, hid, hslot, hhash⟩ := h
    exact ⟨row, hsub row hrow hslot, hid, hslot, hhash⟩
  · exact h
  · trivial

/-- What `replayed_job_id` finds is a committed row of the slot. -/
theorem replayedJobId_some {slot : Option (ℕ × String)} {hash : String} {r : SubmitResult}
    (h : replayedJobId cols slot hash = some r) :
    ∃ row ∈ cols, row.slot = slot ∧ ((row.payloadHash = some hash ∧ r = .returned row.id true) ∨
      (row.payloadHash ≠ some hash ∧ r = .conflict row.id)) := by
  obtain ⟨row, hrow, rfl⟩ := Option.map_eq_some_iff.mp h
  have hslot : row.slot = slot := by simpa using List.find?_some hrow
  refine ⟨row, List.mem_of_find?_eq_some hrow, hslot, ?_⟩
  split_ifs with hh
  · exact .inl ⟨hh, rfl⟩
  · exact .inr ⟨hh, rfl⟩

theorem replayedJobId_none {slot : Option (ℕ × String)} {hash : String}
    (h : replayedJobId cols slot hash = none) :
    ∀ row ∈ cols, row.slot ≠ slot := by
  have hfind : cols.find? (fun r => decide (r.slot = slot)) = none := by
    simpa [replayedJobId, findByIdempotencyKey] using h
  simpa using hfind

theorem SubmitCall.ok_of_replayed {hash : String} {r : SubmitResult} (hhash : hash = c.args.hash E)
    (h : replayedJobId cols c.args.slot hash = some r) :
      ({ c with phase := .done r } : SubmitCall).Ok E cols := by
  obtain ⟨row, hrow, hslot, ⟨hh, rfl⟩ | ⟨hh, rfl⟩⟩ := replayedJobId_some h
  · exact fun _ => ⟨row, hrow, rfl, hslot, hhash ▸ hh⟩
  · exact ⟨row, hrow, rfl, hslot, hhash ▸ hh⟩

/-! ### What a step does -/

/-- A step of one call, from phase to phase: without a row, inserting one in a free slot, committing it, or
losing it. -/
inductive CallMove (E : HashEnv) (s : SubmitSys) (c : SubmitCall) : SubmitPhase → SubmitSys → Prop where
  | quiet {p : SubmitPhase} {s' : SubmitSys} (hc : c.pending = none) (hp : ∀ row job, p ≠ .inserted row job)
      (hok : c.Ok E s.cols → ({ c with phase := p } : SubmitCall).Ok E s.cols) (hcols : s'.cols = s.cols)
      (hid : s.nextId ≤ s'.nextId) : CallMove E s c p s'
  | insert {row : KeyCols} {job : NewJob} {s' : SubmitSys} (hc : c.pending = none)
      (hrow : c.args.keyed = true → c.Ok E s.cols →
        row.slot = c.args.slot ∧ row.payloadHash = some (c.args.hash E))
      (hid : row.id = s.nextId) (hfree : ∀ k, row.slot = some k → ∀ x ∈ s.cols ++ s.pending, x.slot ≠ some k)
      (hcols : s'.cols = s.cols) (hnext : s'.nextId = s.nextId + 1) : CallMove E s c (.inserted row job) s'
  | commit {row : KeyCols} {job : NewJob} {r : SubmitResult} {s' : SubmitSys} (hc : c.phase = .inserted row job)
      (hr : r = .returned row.id false ∨ r = .failed) (hcols : s'.cols = s.cols ++ [row])
      (hnext : s'.nextId = s.nextId) : CallMove E s c (.done r) s'
  | rollback {row : KeyCols} {job : NewJob} {s' : SubmitSys} (hc : c.phase = .inserted row job)
      (hcols : s'.cols = s.cols) (hnext : s'.nextId = s.nextId) : CallMove E s c (.done .failed) s'

theorem newCols_slot (E : HashEnv) (a : SubmitArgs) (id : ℕ) : (newCols E a false id).slot = a.slot := rfl

theorem newCols_raw_slot (E : HashEnv) (a : SubmitArgs) (id : ℕ) : (newCols E a true id).slot = none := rfl

theorem newCols_id (E : HashEnv) (a : SubmitArgs) (raw : Bool) (id : ℕ) : (newCols E a raw id).id = id := by
  cases raw <;> rfl

/-- The insert either conflicts with a committed row or takes a slot nobody holds. -/
theorem flushPhase_move {i : ℕ} {raw : Bool} {now : Time} (hc : c.pending = none)
    (hraw : raw = true → c.Ok E s.cols → c.args.keyed = false)
    (hblocked : blocked s (newCols E c.args raw s.nextId) = false) :
    CallMove E s c (flushPhase E s c raw now)
      { s.setPhase i c (flushPhase E s c raw now) with nextId := s.nextId + 1 } := by
  unfold flushPhase
  simp only
  split_ifs with htaken hkeyed
  · refine .quiet hc (by simp) (fun hok => ?_) rfl (Nat.le_succ _)
    obtain ⟨hne, row, hrow, hslot⟩ := htaken
    cases raw with
    | true => exact absurd (newCols_raw_slot E c.args s.nextId) hne
    | false => exact ⟨row, hrow, hslot⟩
  · exact .quiet hc (by simp) (fun _ => by simpa [SubmitCall.Ok] using hkeyed) rfl (Nat.le_succ _)
  · refine .insert hc (fun hk hok => ?_) (newCols_id E c.args raw s.nextId) (fun k hk x hx hxk => ?_) rfl rfl
    · cases raw with
      | true => rw [hraw rfl hok] at hk; cases hk
      | false => exact ⟨rfl, rfl⟩
    · rcases List.mem_append.mp hx with hx | hx
      · exact htaken ⟨by simp [hk], x, hx, hxk.trans hk.symm⟩
      · have hany := List.any_eq_false.mp hblocked x hx
        simp [hxk, hk] at hany

theorem lookupPhase_move {i : ℕ} {now : Time} (hc : c.phase = .lookup) :
    CallMove E s c (lookupPhase E s c now) (s.setPhase i c (lookupPhase E s c now)) := by
  have hpending : c.pending = none := by simp [SubmitCall.pending, hc]
  unfold lookupPhase
  split_ifs with hk hoff
  · split
    · rename_i r hr
      exact .quiet hpending (by simp) (fun _ => SubmitCall.ok_of_replayed rfl hr) rfl le_rfl
    · exact .quiet hpending (by simp) (fun _ => trivial) rfl le_rfl
  · exact .quiet hpending (by simp) (fun _ => by simpa [SubmitCall.Ok] using hk) rfl le_rfl
  · split
    · exact .quiet hpending (by simp) (fun _ hkeyed => absurd hkeyed hk) rfl le_rfl
    · exact .quiet hpending (by simp) (fun _ => trivial) rfl le_rfl

theorem recoverPhase_move {i : ℕ} (hc : c.phase = .recover) :
    CallMove E s c (recoverPhase E s c) (s.setPhase i c (recoverPhase E s c)) := by
  have hpending : c.pending = none := by simp [SubmitCall.pending, hc]
  refine .quiet hpending (by simp [recoverPhase]) (fun hok => ?_) rfl le_rfl
  have hwinner : ∃ row ∈ s.cols, row.slot = c.args.slot := by simpa [SubmitCall.Ok, hc] using hok
  unfold recoverPhase
  cases hr : replayedJobId s.cols c.args.slot (c.args.hash E) with
  | some r => exact SubmitCall.ok_of_replayed rfl hr
  | none =>
    -- the winner's row was committed and rows stay
    obtain ⟨row, hrow, hslot⟩ := hwinner
    exact absurd hslot (replayedJobId_none hr row hrow)

theorem replayedJobId_ne_failed (cols : List KeyCols) (slot : Option (ℕ × String)) (hash : String) :
    replayedJobId cols slot hash ≠ some .failed := by
  intro h
  obtain ⟨row, -, -, ⟨-, hr⟩ | ⟨-, hr⟩⟩ := replayedJobId_some h <;> cases hr

theorem lookupPhase_ne_failed (E : HashEnv) (s : SubmitSys) (c : SubmitCall) (now : Time) :
    lookupPhase E s c now ≠ .done .failed := by
  unfold lookupPhase
  split_ifs
  · split
    · rename_i r hr
      intro h
      exact replayedJobId_ne_failed _ _ _ (hr.trans (by rw [SubmitPhase.done.inj h]))
    · simp
  · simp
  · split <;> simp

theorem flushPhase_ne_failed (E : HashEnv) (s : SubmitSys) (c : SubmitCall) (raw : Bool) (now : Time) :
    flushPhase E s c raw now ≠ .done .failed := by
  unfold flushPhase
  simp only
  split_ifs <;> simp

theorem recoverPhase_ne_failed (E : HashEnv) (s : SubmitSys) (c : SubmitCall) :
    recoverPhase E s c ≠ .done .failed := by
  unfold recoverPhase
  cases hr : replayedJobId s.cols c.args.slot (c.args.hash E) with
  | none => simp
  | some r =>
    intro h
    exact replayedJobId_ne_failed _ _ _ (hr.trans (by simpa using h))

/-- Every action of a call is one of the four moves of that call; it fails only by the database. -/
theorem stepCall_move {i : ℕ} {a : SubmitAct} (h : stepCall cfg E s i c a = some s') :
    ∃ p, s'.calls = s.calls.set i { c with phase := p } ∧ CallMove E s c p s' ∧
      (p = .done .failed → a.isFailure = true) := by
  cases a with
  | lookup j now =>
    simp only [stepCall] at h
    split at h
    · rename_i hc
      obtain rfl := Option.some.inj h
      exact ⟨_, rfl, lookupPhase_move hc, fun hp => absurd hp (lookupPhase_ne_failed E s c now)⟩
    · cases h
  | lookupBroken j =>
    simp only [stepCall] at h
    split at h
    · rename_i hc
      split_ifs at h with hk
      obtain rfl := Option.some.inj h
      refine ⟨.degraded, rfl, .quiet (by simp [SubmitCall.pending, hc]) (by simp) (fun _ => ?_) rfl le_rfl, by simp⟩
      have hnk : ¬ c.args.keyed = true := fun hkeyed => hk (.inl hkeyed)
      simpa [SubmitCall.Ok] using hnk
    · cases h
  | flush j now =>
    simp only [stepCall] at h
    split at h
    · rename_i hc
      split_ifs at h with hb
      obtain rfl := Option.some.inj h
      exact ⟨_, rfl, flushPhase_move (by simp [SubmitCall.pending, hc]) (by simp) (by simpa using hb),
        fun hp => absurd hp (flushPhase_ne_failed E s c false now)⟩
    · rename_i hc
      obtain rfl := Option.some.inj h
      refine ⟨_, rfl, flushPhase_move (by simp [SubmitCall.pending, hc]) (fun _ hok => ?_) ?_,
        fun hp => absurd hp (flushPhase_ne_failed E s c true now)⟩
      · simpa [SubmitCall.Ok, hc] using hok
      · refine List.any_eq_false.mpr fun r _ => ?_
        rw [newCols_raw_slot]
        simp
    · cases h
  | commit j =>
    simp only [stepCall] at h
    split at h
    · rename_i row job hc
      obtain rfl := Option.some.inj h
      exact ⟨_, rfl, .commit hc (.inl rfl) rfl rfl, by simp⟩
    · cases h
  | commitFails j committed =>
    simp only [stepCall] at h
    split at h
    · rename_i row job hc
      obtain rfl := Option.some.inj h
      cases committed with
      | true => exact ⟨_, rfl, .commit hc (.inr rfl) rfl rfl, fun _ => rfl⟩
      | false => exact ⟨_, rfl, .rollback hc rfl rfl, fun _ => rfl⟩
    · cases h
  | recover j =>
    simp only [stepCall] at h
    split at h
    · rename_i hc
      obtain rfl := Option.some.inj h
      exact ⟨_, rfl, recoverPhase_move hc, fun hp => absurd hp (recoverPhase_ne_failed E s c)⟩
    · cases h
  | fails j =>
    simp only [stepCall] at h
    split at h
    case h_5 => cases h
    all_goals
      rename_i hc
      obtain rfl := Option.some.inj h
      exact ⟨_, rfl, .quiet (by simp [SubmitCall.pending, hc]) (by simp) (fun _ => trivial) rfl le_rfl, fun _ => rfl⟩
  | call w args => cases h
  | queue a => cases h
  | agentRun row => cases h

/-- **A step of the system**: a new call, a row of another writer in a free slot, a move of one call, or
nothing that these columns and calls would show. -/
theorem SubmitSys.step_cases {a : SubmitAct} (h : s.step cfg E a = some s') :
    (s'.cols = s.cols ∧ s'.nextId = s.nextId ∧ s'.calls = s.calls) ∨
    (s'.cols = s.cols ∧ s'.nextId = s.nextId ∧ ∃ w args, s'.calls = s.calls ++ [⟨w, args, .lookup⟩]) ∨
    (∃ row : KeyCols, s'.cols = s.cols ++ [row] ∧ s'.nextId = s.nextId + 1 ∧ s'.calls = s.calls ∧
      row.id = s.nextId ∧ ∀ k, row.slot = some k → ∀ x ∈ s.cols ++ s.pending, x.slot ≠ some k) ∨
    ∃ i c p, a.call? = some i ∧ s.calls[i]? = some c ∧ s'.calls = s.calls.set i { c with phase := p } ∧
      CallMove E s c p s' ∧ (p = .done .failed → a.isFailure = true) := by
  have hcall : ∀ {i : ℕ} {a : SubmitAct}, a.call? = some i →
      (match s.calls[i]? with
        | none => none
        | some c => stepCall cfg E s i c a) = some s' →
      ∃ i c p, a.call? = some i ∧ s.calls[i]? = some c ∧ s'.calls = s.calls.set i { c with phase := p } ∧
        CallMove E s c p s' ∧ (p = .done .failed → a.isFailure = true) := by
    intro i a hi h
    split at h
    · cases h
    · rename_i c hc
      obtain ⟨p, hp, hmove⟩ := stepCall_move h
      exact ⟨i, c, p, hi, hc, hp, hmove⟩
  cases a with
  | call w args =>
    obtain rfl := Option.some.inj h
    exact .inr (.inl ⟨rfl, rfl, w, args, rfl⟩)
  | queue qa =>
    have hq : ∃ q, s' = { s with queue := q } := by
      simp only [SubmitSys.step] at h
      unfold SubmitSys.stepQueue at h
      split at h
      · cases h
      · obtain ⟨q, -, rfl⟩ := Option.map_eq_some_iff.mp h
        exact ⟨q, rfl⟩
    obtain ⟨q, rfl⟩ := hq
    exact .inl ⟨rfl, rfl, rfl⟩
  | agentRun row =>
    simp only [SubmitSys.step] at h
    split_ifs at h with hfree
    obtain rfl := Option.some.inj h
    refine .inr (.inr (.inl ⟨_, rfl, rfl, rfl, rfl, fun k hk x hx hxk => ?_⟩))
    exact hfree ⟨by simp [hk], x, hx, hxk.trans hk.symm⟩
  | lookup i now | lookupBroken i | flush i now | commit i | commitFails i committed | recover i | fails i =>
    exact .inr (.inr (.inr (hcall rfl h)))

/-! ### The invariant -/

/-- The rows are told apart by their ids and by their keys, and the calls of `P` rely on them. -/
structure SubmitSys.InvFor (P : SubmitArgs → Prop) (E : HashEnv) (s : SubmitSys) : Prop where
  ids : Unique (fun r : KeyCols => some r.id) (s.cols ++ s.pending)
  keys : Unique KeyCols.slot (s.cols ++ s.pending)
  fresh : ∀ r ∈ s.cols ++ s.pending, r.id < s.nextId
  calls : ∀ c ∈ s.calls, P c.args → c.Ok E s.cols

abbrev SubmitSys.Inv (E : HashEnv) (s : SubmitSys) : Prop := s.InvFor (fun _ => True) E

variable {P : SubmitArgs → Prop}

theorem SubmitSys.inv_init (P : SubmitArgs → Prop) (E : HashEnv) : SubmitSys.InvFor P E {} :=
  ⟨List.Pairwise.nil, List.Pairwise.nil, by simp [SubmitSys.pending], by simp⟩

/-- The three row clauses survive any change that permutes the rows of the table and the open
transactions, adds one in a free slot under a fresh id, or drops some. -/
theorem SubmitSys.InvFor.of_rows (hi : s.InvFor P E) (hcalls : ∀ c ∈ s'.calls, P c.args → c.Ok E s'.cols)
    {new : List KeyCols}
    (hrows : (s'.cols ++ s'.pending).Subperm (new ++ (s.cols ++ s.pending)))
    (hnext : s.nextId ≤ s'.nextId)
    (hnew : new = [] ∨ ∃ row, new = [row] ∧ row.id = s.nextId ∧ s.nextId < s'.nextId ∧
      ∀ k, row.slot = some k → ∀ x ∈ s.cols ++ s.pending, x.slot ≠ some k) : s'.InvFor P E := by
  have hall : Unique (fun r : KeyCols => some r.id) (new ++ (s.cols ++ s.pending)) ∧
      Unique KeyCols.slot (new ++ (s.cols ++ s.pending)) ∧
      ∀ r ∈ new ++ (s.cols ++ s.pending), r.id < s'.nextId := by
    rcases hnew with rfl | ⟨row, rfl, hid, hlt, hfree⟩
    · exact ⟨hi.ids, hi.keys, fun r hr => (hi.fresh r hr).trans_le hnext⟩
    · refine ⟨hi.ids.cons fun k hk x hx hxk => ?_, hi.keys.cons hfree, fun r hr => ?_⟩
      · have := hi.fresh x hx
        rw [Option.some.injEq] at hk hxk
        omega
      · rcases List.mem_cons.mp hr with rfl | hr
        · omega
        · exact (hi.fresh r hr).trans_le hnext
  exact ⟨hall.1.subperm hrows, hall.2.1.subperm hrows, fun r hr => hall.2.2 r (hrows.subset hr), hcalls⟩

theorem SubmitSys.InvFor.move (hi : s.InvFor P E) {i : ℕ} {p : SubmitPhase} (hc : s.calls[i]? = some c)
    (hcalls : s'.calls = s.calls.set i { c with phase := p }) (hmove : CallMove E s c p s') : s'.InvFor P E := by
  have hmem : c ∈ s.calls := List.mem_of_getElem? hc
  obtain ⟨rest, hbefore, hafter⟩ := filterMap_set_perm (f := SubmitCall.pending) hc
  have hp' := hafter { c with phase := p }
  rw [← hcalls] at hp'
  change s'.pending.Perm _ at hp'
  change s.pending.Perm _ at hbefore
  -- the other calls keep what they rely on, since committed rows stay
  have hothers : (∀ r ∈ s.cols, r ∈ s'.cols) → (P c.args → ({ c with phase := p } : SubmitCall).Ok E s'.cols) →
      ∀ d ∈ s'.calls, P d.args → d.Ok E s'.cols := by
    intro hsub hok d hd hP
    rw [hcalls] at hd
    rcases List.mem_or_eq_of_mem_set hd with hd | rfl
    · exact (hi.calls d hd hP).mono fun r hr _ => hsub r hr
    · exact hok hP
  cases hmove with
  | quiet hpend hp hok hcols hid =>
    have hnone : ({ c with phase := p } : SubmitCall).pending = none := by
      unfold SubmitCall.pending
      split
      · rename_i row job hrow
        exact absurd hrow (hp row job)
      · rfl
    rw [hpend] at hbefore
    rw [hnone] at hp'
    refine hi.of_rows (hothers (by simp [hcols]) fun hP => hcols ▸ hok (hi.calls c hmem hP)) ?_ hid (.inl rfl)
    rw [hcols]
    exact ((hp'.trans hbefore.symm).append_left _).subperm
  | @insert row job s' hpend hrow hid hfree hcols hnext =>
    rw [hpend] at hbefore
    refine hi.of_rows (hothers (by simp [hcols]) fun hP hk => hrow hk (hi.calls c hmem hP)) ?_ (by omega)
      (.inr ⟨row, rfl, hid, by omega, hfree⟩)
    rw [hcols]
    exact (((hp'.trans (hbefore.symm.cons row)).append_left _).trans List.perm_middle).subperm
  | @commit row job r s' hphase hr hcols hnext =>
    have hpend : c.pending = some row := by simp [SubmitCall.pending, hphase]
    have hrow : P c.args → c.args.keyed = true →
        row.slot = c.args.slot ∧ row.payloadHash = some (c.args.hash E) := by
      intro hP
      simpa [SubmitCall.Ok, hphase] using hi.calls c hmem hP
    rw [hpend] at hbefore
    have hok : P c.args → ({ c with phase := .done r } : SubmitCall).Ok E s'.cols := by
      intro hP
      rcases hr with rfl | rfl
      · exact fun hk => ⟨row, by simp [hcols], rfl, hrow hP hk⟩
      · trivial
    refine hi.of_rows (hothers (fun x hx => by simp [hcols, hx]) hok) ?_ hnext.ge (.inl rfl)
    rw [hcols, List.append_assoc]
    exact (((hp'.cons row).trans hbefore.symm).append_left _).subperm
  | @rollback row job s' hphase hcols hnext =>
    have hpend : c.pending = some row := by simp [SubmitCall.pending, hphase]
    rw [hpend] at hbefore
    refine hi.of_rows (hothers (by simp [hcols]) fun _ => trivial) ?_ hnext.ge (.inl rfl)
    have hdrop : s'.pending.Subperm s.pending :=
      hp'.subperm.trans ((List.sublist_cons_self row rest).subperm.trans hbefore.symm.subperm)
    rw [hcols]
    exact (List.subperm_append_left _).mpr hdrop

theorem SubmitSys.InvFor.step (hi : s.InvFor P E) {a : SubmitAct} (h : s.step cfg E a = some s') :
    s'.InvFor P E := by
  rcases SubmitSys.step_cases h with ⟨hcols, hnext, hcalls⟩ | ⟨hcols, hnext, w, args, hcalls⟩ |
    ⟨row, hcols, hnext, hcalls, hid, hfree⟩ | ⟨i, c, p, -, hc, hcalls, hmove, -⟩
  · have hpend : s'.pending = s.pending := by rw [SubmitSys.pending, hcalls, SubmitSys.pending]
    exact ⟨by rw [hcols, hpend]; exact hi.ids, by rw [hcols, hpend]; exact hi.keys,
      by rw [hcols, hpend, hnext]; exact hi.fresh, by rw [hcols, hcalls]; exact hi.calls⟩
  · have hpend : s'.pending = s.pending := by
      simp [SubmitSys.pending, hcalls, SubmitCall.pending]
    refine ⟨by rw [hcols, hpend]; exact hi.ids, by rw [hcols, hpend]; exact hi.keys,
      by rw [hcols, hpend, hnext]; exact hi.fresh, fun d hd hP => ?_⟩
    rw [hcalls] at hd
    rcases List.mem_append.mp hd with hd | hd
    · rw [hcols]
      exact hi.calls d hd hP
    · rw [List.mem_singleton.mp hd]
      trivial
  · have hpend : s'.pending = s.pending := by rw [SubmitSys.pending, hcalls, SubmitSys.pending]
    refine hi.of_rows (fun d hd hP => ?_) ?_ (by omega) (.inr ⟨row, rfl, hid, by omega, hfree⟩)
    · rw [hcalls] at hd
      exact (hi.calls d hd hP).mono fun r hr _ => by simp [hcols, hr]
    · rw [hcols, hpend, List.append_assoc]
      exact List.perm_middle.subperm
  · exact hi.move hc hcalls hmove

theorem SubmitSys.InvFor.run {C : SubmitSys → SubmitAct → Prop} {as : List SubmitAct} (hi : s.InvFor P E)
    (h : Steps (SubmitSys.step cfg E) C s as s') : s'.InvFor P E :=
  h.inv (I := SubmitSys.InvFor P E) (fun _ _ _ ht _ hs => ht.step hs) hi

/-- Committed rows stay. -/
theorem cols_of_step {a : SubmitAct} (h : s.step cfg E a = some s') : ∀ r ∈ s.cols, r ∈ s'.cols := by
  intro r hr
  rcases SubmitSys.step_cases h with ⟨hcols, -, -⟩ | ⟨hcols, -, -⟩ | ⟨row, hcols, -⟩ | ⟨i, c, p, -, -, -, hmove, -⟩
  · rwa [hcols]
  · rwa [hcols]
  · rw [hcols]
    exact List.mem_append_left _ hr
  · cases hmove with
    | quiet _ _ _ hcols _ | insert _ _ _ _ hcols _ | rollback _ hcols _ => rwa [hcols]
    | commit _ _ hcols _ =>
      rw [hcols]
      exact List.mem_append_left _ hr

theorem cols_of_run {C : SubmitSys → SubmitAct → Prop} {as : List SubmitAct}
    (h : Steps (SubmitSys.step cfg E) C s as s') : ∀ r ∈ s.cols, r ∈ s'.cols := by
  refine h.rel (I := fun _ => True) (R := fun t u => ∀ r ∈ t.cols, r ∈ u.cols) ?_ ?_ ?_ ?_ trivial
  · exact fun _ _ _ _ _ _ => trivial
  · exact fun _ r hr => hr
  · exact fun _ _ _ h₁ h₂ r hr => h₂ r (h₁ r hr)
  · exact fun _ _ _ _ _ hs => cols_of_step hs

/-! ### Every call ends -/

/-- The call can be brought to an end other than a database failure. -/
def CanEnd (cfg : QueueConfig) (E : HashEnv) (s : SubmitSys) (i : ℕ) : Prop :=
  ∃ bs u c r, Steps (SubmitSys.step cfg E) Free s bs u ∧ u.calls[i]? = some c ∧ c.phase = .done r ∧
    r ≠ .failed

theorem CanEnd.of_step {a : SubmitAct} {i : ℕ} (h : s.step cfg E a = some s') (he : CanEnd cfg E s' i) :
    CanEnd cfg E s i := by
  obtain ⟨bs, u, c, r, hrun, hc, hr, hne⟩ := he
  exact ⟨_, u, c, r, (Steps.single trivial h).trans hrun, hc, hr, hne⟩

theorem CanEnd.of_done {i : ℕ} {r : SubmitResult} (hc : s.calls[i]? = some c) (hr : c.phase = .done r)
    (hne : r ≠ .failed) : CanEnd cfg E s i := ⟨[], s, c, r, .nil s, hc, hr, hne⟩

theorem getElem?_setPhase {i : ℕ} (hc : s.calls[i]? = some c) (p : SubmitPhase) :
    (s.setPhase i c p).calls[i]? = some { c with phase := p } := by
  have hi : i < s.calls.length := (List.getElem?_eq_some_iff.mp hc).1
  simp [SubmitSys.setPhase, hi]

theorem canEnd_of_inserted {i : ℕ} {row : KeyCols} {job : NewJob} (hc : s.calls[i]? = some c)
    (hphase : c.phase = .inserted row job) : CanEnd cfg E s i := by
  have hstep : s.step cfg E (.commit i) =
      some ((s.setPhase i c (.done (.returned row.id false))).publish cfg row job) := by
    simp only [SubmitSys.step, SubmitAct.call?, hc, stepCall, hphase]
  exact CanEnd.of_step hstep (.of_done (getElem?_setPhase hc _) rfl (by simp))

theorem canEnd_of_recover (hi : s.Inv E) {i : ℕ} (hc : s.calls[i]? = some c) (hphase : c.phase = .recover) :
    CanEnd cfg E s i := by
  have hstep : s.step cfg E (.recover i) = some (s.setPhase i c (recoverPhase E s c)) := by
    simp only [SubmitSys.step, SubmitAct.call?, hc, stepCall, hphase]
  refine CanEnd.of_step hstep (.of_done (getElem?_setPhase hc _) rfl ?_)
  have hwinner : ∃ row ∈ s.cols, row.slot = c.args.slot := by
    simpa [SubmitCall.Ok, hphase] using hi.calls c (List.mem_of_getElem? hc) trivial
  cases hr : replayedJobId s.cols c.args.slot (c.args.hash E) with
  | none =>
    obtain ⟨row, hrow, hslot⟩ := hwinner
    exact absurd hslot (replayedJobId_none hr row hrow)
  | some r =>
    obtain ⟨row, -, -, ⟨-, rfl⟩ | ⟨-, rfl⟩⟩ := replayedJobId_some hr <;> simp

/-- An insert nobody blocks ends in a commit or in a recovery. -/
theorem canEnd_of_unblocked (hi : s.Inv E) {i : ℕ} (hc : s.calls[i]? = some c) (hphase : c.phase = .insert)
    (hkeyed : c.args.keyed = true) (hfree : blocked s (newCols E c.args false s.nextId) = false) :
    CanEnd cfg E s i := by
  have hstep : s.step cfg E (.flush i 0) =
      some { s.setPhase i c (flushPhase E s c false 0) with nextId := s.nextId + 1 } := by
    simp [SubmitSys.step, SubmitAct.call?, hc, stepCall, hphase, hfree]
  have hi' := hi.step hstep
  have hget := getElem?_setPhase hc (flushPhase E s c false 0)
  refine CanEnd.of_step hstep ?_
  by_cases htaken : (newCols E c.args false s.nextId).slot ≠ none ∧
      ∃ r ∈ s.cols, r.slot = (newCols E c.args false s.nextId).slot
  · have hp : flushPhase E s c false 0 = .recover := by
      unfold flushPhase
      simp only
      rw [if_pos htaken, if_pos hkeyed]
    exact canEnd_of_recover hi' hget hp
  · have hp : flushPhase E s c false 0 = .inserted (newCols E c.args false s.nextId)
        (newJob c.args false s.nextId 0) := by
      unfold flushPhase
      simp only
      rw [if_neg htaken]
    exact canEnd_of_inserted hget hp

/-- A blocked insert goes on once the transaction that holds its key has committed. -/
theorem canEnd_of_insert (hi : s.Inv E) {i : ℕ} (hc : s.calls[i]? = some c) (hphase : c.phase = .insert)
    (hkeyed : c.args.keyed = true) : CanEnd cfg E s i := by
  by_cases hfree : blocked s (newCols E c.args false s.nextId) = false
  · exact canEnd_of_unblocked hi hc hphase hkeyed hfree
  · have hany : s.pending.any (fun r => r.slot ≠ none && r.slot = (newCols E c.args false s.nextId).slot) = true := by
      simpa [blocked] using hfree
    obtain ⟨row, hrow, hslot⟩ := List.any_eq_true.mp hany
    rw [Bool.and_eq_true, decide_eq_true_eq, decide_eq_true_eq, newCols_slot] at hslot
    obtain ⟨hne, hslot⟩ := hslot
    obtain ⟨k, hk⟩ := Option.ne_none_iff_exists'.mp hne
    obtain ⟨d, hd, hpend⟩ := List.mem_filterMap.mp hrow
    obtain ⟨j, hj⟩ := List.mem_iff_getElem?.mp hd
    obtain ⟨job, hdphase⟩ : ∃ job, d.phase = .inserted row job := by
      unfold SubmitCall.pending at hpend
      split at hpend
      · rename_i row' job hp
        obtain rfl := Option.some.inj hpend
        exact ⟨job, hp⟩
      · cases hpend
    have hij : j ≠ i := by
      rintro rfl
      rw [hc] at hj
      obtain rfl := Option.some.inj hj
      rw [hphase] at hdphase
      cases hdphase
    have hstep : s.step cfg E (.commit j) =
        some ((s.setPhase j d (.done (.returned row.id false))).publish cfg row job) := by
      simp only [SubmitSys.step, SubmitAct.call?, hj, stepCall, hdphase]
    have hi' := hi.step hstep
    have hc' : ((s.setPhase j d (.done (.returned row.id false))).publish cfg row job).calls[i]? = some c := by
      simpa [SubmitSys.setPhase, SubmitSys.publish, List.getElem?_set_ne hij] using hc
    refine CanEnd.of_step hstep (canEnd_of_unblocked hi' hc' hphase hkeyed ?_)
    refine List.any_eq_false.mpr fun x hx => ?_
    -- the slot is now taken by a committed row
    have hxk := hi'.keys.ne_of_append (a := row) (by simp [SubmitSys.publish]) hx hk
    rw [newCols_slot, ← hslot, hk]
    simpa using fun _ => hxk

theorem canEnd_of_keyed (hi : s.Inv E) {i : ℕ} (hc : s.calls[i]? = some c) (hkeyed : c.args.keyed = true)
    (hopen : ∀ r, c.phase ≠ .done r) : CanEnd cfg E s i := by
  cases hphase : c.phase with
  | lookup =>
    have hstep : s.step cfg E (.lookup i 0) = some (s.setPhase i c (lookupPhase E s c 0)) := by
      simp only [SubmitSys.step, SubmitAct.call?, hc, stepCall, hphase]
    have hi' := hi.step hstep
    have hget := getElem?_setPhase hc (lookupPhase E s c 0)
    refine CanEnd.of_step hstep ?_
    cases hr : replayedJobId s.cols c.args.slot (c.args.hash E) with
    | some r =>
      have hp : lookupPhase E s c 0 = .done r := by simp [lookupPhase, hkeyed, hr]
      refine .of_done hget hp ?_
      obtain ⟨row, -, -, ⟨-, rfl⟩ | ⟨-, rfl⟩⟩ := replayedJobId_some hr <;> simp
    | none =>
      have hp : lookupPhase E s c 0 = .insert := by simp [lookupPhase, hkeyed, hr]
      exact canEnd_of_insert hi' hget hp hkeyed
  | insert => exact canEnd_of_insert hi hc hphase hkeyed
  | degraded =>
    have hok : c.args.keyed = false := by
      simpa [SubmitCall.Ok, hphase] using hi.calls c (List.mem_of_getElem? hc) trivial
    rw [hkeyed] at hok
    cases hok
  | inserted row job => exact canEnd_of_inserted hc hphase
  | recover => exact canEnd_of_recover hi hc hphase
  | done r => exact absurd hphase (hopen r)

/-- A call fails only by a failure of the database in one of its own statements. -/
theorem failed_of_run {as : List SubmitAct} (h : Steps (SubmitSys.step cfg E) Free {} as s) :
    ∀ i c, s.calls[i]? = some c → c.phase = .done .failed → ∃ a ∈ as, a.call? = some i ∧
      a.isFailure = true := by
  induction h with
  | nil => simp
  | @snoc t u as a hrun _ hstep ih =>
    intro i c hc hfailed
    have hold : t.calls[i]? = some c → ∃ b ∈ as ++ [a], b.call? = some i ∧ b.isFailure = true := by
      intro hct
      obtain ⟨b, hb, hfacts⟩ := ih i c hct hfailed
      exact ⟨b, List.mem_append_left _ hb, hfacts⟩
    rcases SubmitSys.step_cases hstep with ⟨-, -, hcalls⟩ | ⟨-, -, w, args, hcalls⟩ | ⟨row, -, -, hcalls, -⟩ |
      ⟨j, d, p, hj, hd, hcalls, -, hp⟩
    · exact hold (hcalls ▸ hc)
    · rw [hcalls] at hc
      by_cases hi : i < t.calls.length
      · rw [List.getElem?_append_left hi] at hc
        exact hold hc
      · -- the new call has not started
        rw [List.getElem?_append_right (Nat.le_of_not_lt hi)] at hc
        have hmem := List.mem_of_getElem? hc
        rw [List.mem_singleton.mp hmem] at hfailed
        cases hfailed
    · exact hold (hcalls ▸ hc)
    · rw [hcalls] at hc
      by_cases hij : j = i
      · subst hij
        have hlt : j < t.calls.length := (List.getElem?_eq_some_iff.mp hd).1
        obtain rfl : { d with phase := p } = c := by simpa [hlt] using hc
        exact ⟨a, by simp, hj, hp hfailed⟩
      · rw [List.getElem?_set_ne hij] at hc
        exact hold hc

/-! ### Idempotency -/

/-- **Idempotency-Key**, over every interleaving of any number of calls with the lifecycle of the jobs
and with other writers: a key has at most one row, which stays; a keyed call that has ended, unless the
database failed one of its own statements, has returned the id of its key's row if the hashes agree and
raised `IdempotencyConflict` over that row otherwise; and every call that has not ended can be brought to
such an end. -/
theorem submit_idempotent (cfg : QueueConfig) (E : HashEnv) {as : List SubmitAct} {s : SubmitSys}
    (h : Steps (SubmitSys.step cfg E) Free {} as s) :
    (∀ row ∈ s.cols, ∀ row' ∈ s.cols, ∀ k, row.slot = some k → row'.slot = some k → row = row') ∧
    (∀ bs u, Steps (SubmitSys.step cfg E) Free s bs u → ∀ row ∈ s.cols, row ∈ u.cols) ∧
    (∀ i c r, s.calls[i]? = some c → c.args.keyed = true → c.phase = .done r →
      (r = .failed ∧ ∃ a ∈ as, a.call? = some i ∧ a.isFailure = true) ∨
      ∃ row ∈ s.cols, row.slot = c.args.slot ∧
        ((row.payloadHash = some (c.args.hash E) ∧ ∃ replayed, r = .returned row.id replayed) ∨
          (row.payloadHash ≠ some (c.args.hash E) ∧ r = .conflict row.id))) ∧
    ∀ i c, s.calls[i]? = some c → c.args.keyed = true → (∀ r, c.phase ≠ .done r) → CanEnd cfg E s i := by
  have hi : s.Inv E := (SubmitSys.inv_init _ E).run h
  refine ⟨?_, fun bs u hrun => cols_of_run hrun, ?_, fun i c hc hk hopen => canEnd_of_keyed hi hc hk hopen⟩
  · intro row hrow row' hrow' k hk hk'
    exact hi.keys.eq_of_slot (List.mem_append_left _ hrow) (List.mem_append_left _ hrow') hk hk'
  · intro i c r hc hk hr
    have hok := hi.calls c (List.mem_of_getElem? hc) trivial
    rw [SubmitCall.Ok, hr] at hok
    cases r with
    | returned id replayed =>
      obtain ⟨row, hrow, rfl, hslot, hh⟩ := hok hk
      exact .inr ⟨row, hrow, hslot, .inl ⟨hh, replayed, rfl⟩⟩
    | conflict id =>
      obtain ⟨row, hrow, rfl, hslot, hh⟩ := hok
      exact .inr ⟨row, hrow, hslot, .inr ⟨hh, rfl⟩⟩
    | integrityError =>
      rw [hk] at hok
      cases hok
    | failed => exact .inl ⟨rfl, failed_of_run h i c hc hr⟩

/-- The text `payload_hash` digests for a request below. -/
def greetingText (content : String) : String :=
  "1:chat:fast:\x7b\"max_tokens\":5,\"messages\":[\x7b\"content\":\"" ++ content ++
  "\",\"role\":\"user\"\x7d],\"model\":null,\"response_format\":null,\"temperature\":1.0,\"workflow\":null\x7d"

/-- The digests of the two requests below. -/
def greetingEnv : HashEnv where
  md5 text :=
    if text = greetingText "hi" then "6f3281a0cd3dd1b8d9975144cd4fcdda"
    else if text = greetingText "ho" then "403738321a37fd5cf1f3428046ec45f4"
    else ""
  floatRepr _ := "1.0".toList

def greeting (content : String) : SubmitArgs where
  projectId := 1
  capability := "chat:fast"
  messages := [.obj [("role", .str "user"), ("content", .str content)]]
  maxTokens := 5
  temperature := 1
  idempotencyKey := some "k"

/-- Two equal requests look the key up before either inserts; a third one with another payload comes late. -/
def greetingRace : List SubmitAct :=
  [.call 0 (greeting "hi"), .call 1 (greeting "hi"), .lookup 0 0, .lookup 1 0, .flush 0 0, .commit 0, .flush 1 0,
    .recover 1, .call 0 (greeting "ho"), .lookup 2 0]

/-- How a call ended. -/
def SubmitCall.result (c : SubmitCall) : Option SubmitResult :=
  match c.phase with
  | .done r => some r
  | _ => none

theorem submit_idempotent_race :
    ∃ s, Steps (SubmitSys.step {} greetingEnv) Free {} greetingRace s ∧
      s.calls.map SubmitCall.result =
        [some (.returned 1 false), some (.returned 1 true), some (.conflict 1)] ∧
          s.cols.map KeyCols.id = [1] ∧
      ∀ row ∈ s.cols, ∀ row' ∈ s.cols, ∀ k, row.slot = some k → row'.slot = some k → row = row' := by
  have hrun : (execAll (SubmitSys.step {} greetingEnv) {} greetingRace).map
      (fun s => (s.calls.map SubmitCall.result, s.cols.map KeyCols.id)) =
      some ([some (.returned 1 false), some (.returned 1 true), some (.conflict 1)], [1]) := by decide +kernel
  obtain ⟨s, hs, hobs⟩ := steps_of_observed hrun
  obtain ⟨hres, hcols⟩ := Prod.mk.inj hobs
  exact ⟨s, hs, hres, hcols, (submit_idempotent {} greetingEnv hs).1⟩

end Broker.Services
