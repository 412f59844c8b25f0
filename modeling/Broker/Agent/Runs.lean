import Broker.Agent.Rows

/-!
# Broker.Agent.Runs — what the run service computes on the rows it loaded

The bodies of `append_event`, `requeue_run`, `park_for_quota` and `record_usage` as functions of the
loaded rows.  When the rows are read, which checks stand between the reads and how the changed
columns reach the database is the business of `Broker.Agent.Worker`.
-/

namespace Broker.Agent

open Broker.Lib Broker.Db

/-- What the run service uses of the redaction, the output gate, the file store and the clock's text
form. -/
structure Env where
  redact : String → String
  redactFinalText : String → Option Json → String
  /-- `_clip(redact_obj(payload))`. -/
  sanitize : AnyEvent → AnyEvent
  outputProblem : String → Option Json → Option String
  storeFiles : List FileRef → List StoredFile
  isoformat : Time → String

/-! ### Model observations -/

/-- `_MAX_MODEL_OBSERVATIONS`. -/
def maxModelObservations : ℕ := 10

/-- `_EVIDENCE_RANK`. -/
def EvidenceKind.rank : EvidenceKind → ℕ
  | .response => 3
  | .threadConfig => 2
  | .sessionInit => 1

/-- `min(range(len(items)), key=rank)`: the first index of minimal rank. -/
def weakest : List Observation → ℕ
  | [] => 0
  | [_] => 0
  | o :: os =>
    let j := weakest os
    match os[j]? with
    | some p => if p.kind.rank < o.kind.rank then j + 1 else 0
    | none => 0

/-- Fold one observation in; the flag says that an observation was dropped or an entry evicted. -/
def foldObservation (existing : Option (List Observation)) (model : String) (kind : EvidenceKind)
    (source : String) : List Observation × Bool :=
  let items := existing.getD []
  if items.any (fun o => o.kind = kind ∧ o.model = model) then (items, false)
  else if items.length < maxModelObservations then (items ++ [⟨model, kind, source⟩], false)
  else
    let w := weakest items
    let rankW := (items[w]?).elim 0 (·.kind.rank)
    (if kind.rank > rankW then items.set w ⟨model, kind, source⟩ else items, true)

/-- `max(items, key=rank)`: the first entry of maximal rank. -/
def strongest : List Observation → Option Observation
  | [] => none
  | o :: os =>
    match strongest os with
    | some p => if o.kind.rank < p.kind.rank then some p else some o
    | none => some o

/-- The served-model fields: the strongest evidence wins, the first seen within a kind; the strict
top-level value needs response-level evidence and, in a truncated list, a single response model. -/
def servedModelMeta (items : List Observation) (truncated : Bool) : ServedModel :=
  match strongest items with
  | none => ⟨none, none, none, "none", !truncated⟩
  | some best =>
    let responses := ((items.filter (fun o => o.kind = .response)).map (·.model)).eraseDups
    let strict := decide (best.kind = .response) && !(truncated && decide (1 < responses.length))
    ⟨if strict then some best.model else none, some best.model, some best.kind,
      if best.source = "" then "none" else best.source, !truncated⟩

/-! ### `append_event` -/

section AppendEvent

variable (env : Env) (now : Time)

/-- A completed client job whose answer fails the output gate, before or after redaction, is stored
as a failed one. -/
def gatedEvent (ev : AnyEvent) (clientJob : Option ClientJob) : AnyEvent :=
  match ev, clientJob with
  | .runCompleted text _, some c =>
    match (env.outputProblem text c.responseFormat).or
        (env.outputProblem (env.redactFinalText text c.responseFormat) c.responseFormat) with
    | some problem => .runFailed "invalid_json" problem none
    | none => ev
  | _, _ => ev

/-- The queue row is read only for events that touch it. -/
def needsJob (t : EventType) : Bool :=
  t.terminal || t == .modelObserved || t == .usage || t == .runStarted

/-- The event stream keeps no file bytes. -/
def dropFileBytes : AnyEvent → AnyEvent
  | .runCompleted t files => .runCompleted t (files.map fun f => { f with contentB64 := none })
  | ev => ev

def eventRow (run : AgentRunRow) (ev : AnyEvent) : AgentRunEventRow :=
  ⟨run.lastSeq + 1, now, ev.type, env.sanitize (dropFileBytes ev)⟩

/-- The columns of `agent_runs` an event changes. -/
def appendRun (run : AgentRunRow) (ev : AnyEvent) : AgentRunRow :=
  { run with
    lastSeq := run.lastSeq + 1
    lastEventAt := some now
    sessionId := match ev with
      | .sessionAssigned sid => run.sessionId.or (some sid)
      | _ => run.sessionId
    outcome := (outcomeByType ev.type).or run.outcome }

/-- `usage_observed` after a usage event: both counters are additive. -/
def addUsage (o : UsageObserved) (u : Usage) : UsageObserved :=
  { totalTokens := u.totalTokens.elim o.totalTokens fun v => some (o.totalTokens.getD 0 + v)
    reasoningTokens :=
      u.reasoningTokens.elim o.reasoningTokens fun v => some (o.reasoningTokens.getD 0 + v) }

/-- `result_meta` after a non-terminal event. -/
def foldMeta (job : AgentJobRow) (ev : AnyEvent) : Option ResultMeta :=
  match ev with
  | .usage u =>
    let observed := addUsage ((metaOf job).usageObserved.getD {}) u
    if observed = {} then job.resultMeta
    else some { metaOf job with usageObserved := some observed }
  | .modelObserved model kind source =>
    if job.request.clientJob.isSome then
      let (items, cut) := foldObservation (metaOf job).modelObservations model kind source
      some { metaOf job with
        modelObservations := some items
        observationsTruncated := if cut then some true else (metaOf job).observationsTruncated }
    else job.resultMeta
  | .runStarted .. =>
    -- the first execution start: a requeue or a quota wait must not reset it
    if (metaOf job).firstStartedAt.isSome then job.resultMeta
    else some { metaOf job with firstStartedAt := some now }
  | _ => job.resultMeta

/-- `result_meta` of a closed job: the history, the usage and the evidence survive, everything else
of the in-flight document (a pending client call included) is replaced. -/
def closeMeta (run : AgentRunRow) (job : AgentJobRow) (ev : AnyEvent) : ResultMeta :=
  let m := metaOf job
  let observed := m.usageObserved.getD {}
  let base : ResultMeta :=
    { clientToolHistory := some m.history
      usageObserved := some observed
      firstStartedAt := m.firstStartedAt }
  let base := match job.request.clientJob, outcomeByType ev.type with
    | some c, some o =>
      let items := m.modelObservations.getD []
      let truncated := m.observationsTruncated.getD false
      { base with
        served := some (servedModelMeta items truncated)
        modelObservations := some items
        observationsTruncated := some truncated
        envelope := some ⟨run.accountId, c.provider, c.model, run.billingMode, o,
          !c.tools.isEmpty && decide (run.capability = .codex)⟩ }
    | _, _ => base
  match ev with
  | .runCompleted _ files =>
    { base with
      files := some (env.storeFiles files)
      counters := job.request.clientJob.map fun _ =>
        ⟨run.usageInputTokens, run.usageOutputTokens, run.usageCacheReadTokens,
          observed.totalTokens, observed.reasoningTokens⟩ }
  | .runFailed cls _ _ => { base with errorClass := some cls }
  | _ => base

/-- The status a terminal event gives the queue row. -/
def jobStatus : EventType → Status
  | .runCompleted => .done
  | .runCancelled => .cancelled
  | _ => .error

/-- A terminal event closes the queue row. -/
def closeJob (run : AgentRunRow) (job : AgentJobRow) (ev : AnyEvent) : AgentJobRow :=
  { job with
    status := jobStatus ev.type
    completedAt := some now
    resultText := match ev with
      | .runCompleted text _ =>
        some (env.redactFinalText text (job.request.clientJob.bind (·.responseFormat)))
      | _ => job.resultText
    resultMeta := some (closeMeta env run job ev)
    errorMessage := match ev with
      | .runCompleted .. => job.errorMessage
      | .runFailed cls msg _ => some (env.redact (cls ++ ": " ++ msg))
      | .runCancelled => some "run.cancelled"
      | _ => some "run.timed_out"
    request :=
      if job.request.attachments = [] then job.request
      else { job.request with attachments := stripAttachmentData job.request.attachments } }

def appendJob (run : AgentRunRow) (job : AgentJobRow) (ev : AnyEvent) : AgentJobRow :=
  if ev.type.terminal then closeJob env now run job ev
  else { job with resultMeta := foldMeta now job ev }

end AppendEvent

/-! ### Requeue, quota wait, usage -/

/-- Put a claimed but blocked run back to pending. -/
def requeueRun (now delay : Time) (job : AgentJobRow) : AgentJobRow :=
  { job with
    status := .pending
    startedAt := none
    retryCount := job.retryCount + 1
    runAfter := some (now + delay)
    resultMeta := some { metaOf job with pendingReason := some .capacityBusy } }

/-- The arguments of `park_for_quota`. -/
structure Park where
  notBefore : Time
  resetReported : Bool
  reason : String
  deriving DecidableEq, Repr

/-- `park_for_quota` on `agent_runs`. -/
def parkRun (now : Time) (run : AgentRunRow) : AgentRunRow :=
  { run with
    quotaWaits := run.quotaWaits + 1
    lastSeq := run.lastSeq + 1
    lastEventAt := some now
    resumeSessionId := if run.sessionId.getD "" = "" then run.resumeSessionId else run.sessionId }

/-- `park_for_quota` on `deep_jobs`. -/
def parkJob (p : Park) (job : AgentJobRow) : AgentJobRow :=
  { job with
    status := .pending
    startedAt := none
    runAfter := some p.notBefore
    resultMeta := some { metaOf job with pendingReason := some .waitingQuota } }

/-- The `run.waiting_quota` event of a quota wait. -/
def parkRow (now : Time) (p : Park) (run : AgentRunRow) : AgentRunEventRow :=
  ⟨run.lastSeq + 1, now, .runWaitingQuota,
    .runWaitingQuota p.notBefore (run.quotaWaits + 1) p.resetReported
      (String.ofList (p.reason.toList.take 300))⟩

/-- `record_usage`: additive over the attempts of a run. -/
def recordUsage (totals : Usage) (billingMode : Option String) (run : AgentRunRow) : AgentRunRow :=
  let add (old new : Option ℤ) : Option ℤ := new.elim old fun v => some (old.getD 0 + v)
  { run with
    billingMode := billingMode
    usageSource := if totals = { source := totals.source } then run.usageSource else some "cli_reported"
    usageInputTokens := add run.usageInputTokens totals.inputTokens
    usageOutputTokens := add run.usageOutputTokens totals.outputTokens
    usageCacheReadTokens := add run.usageCacheReadTokens totals.cacheReadTokens
    usageTurns := add run.usageTurns totals.turns }

/-! ### The status a writer leaves -/

theorem gatedEvent_terminal (env : Env) (ev : AnyEvent) (cj : Option ClientJob) :
    (gatedEvent env ev cj).type.terminal = ev.type.terminal := by
  unfold gatedEvent
  split
  · split <;> rfl
  · rfl

theorem jobStatus_terminal (t : EventType) : (jobStatus t).terminal = true := by
  cases t <;> rfl

theorem appendJob_status_of_terminal (env : Env) (now : Time) (run : AgentRunRow) (job : AgentJobRow)
    {ev : AnyEvent} (h : ev.type.terminal = true) :
    (appendJob env now run job ev).status = jobStatus ev.type := by
  simp [appendJob, h, closeJob]

theorem appendJob_status_of_not_terminal (env : Env) (now : Time) (run : AgentRunRow)
    (job : AgentJobRow) {ev : AnyEvent} (h : ev.type.terminal = false) :
    (appendJob env now run job ev).status = job.status := by
  simp [appendJob, h]

end Broker.Agent
