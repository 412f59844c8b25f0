import Broker.Agent.Events

/-!
# Broker.Agent.Rows — the two rows of an agent run

A run is a `deep_jobs` row (`AgentJobRow`) plus an `agent_runs` side row (`AgentRunRow`).  The JSON
column `result_meta` is shared by the event recorder, the client-tool handoff and the requeue paths;
an absent key is `none`.
-/

namespace Broker.Agent

open Broker.Lib Broker.Db

structure AgentRunRow where
  runId : ℕ
  projectId : ℕ
  capability : Capability
  accountId : String
  sessionId : Option String := none
  resumeSessionId : Option String := none
  workspace : Option String := none
  cancelRequested : Bool := false
  lastEventAt : Option Time := none
  lastSeq : ℕ := 0
  outcome : Option Outcome := none
  model : Option String := none
  billingMode : Option String := none
  usageSource : Option String := none
  usageInputTokens : Option ℤ := none
  usageOutputTokens : Option ℤ := none
  usageCacheReadTokens : Option ℤ := none
  usageTurns : Option ℤ := none
  quotaWaits : ℕ := 0
  deriving DecidableEq, Repr

/-- Write back what the session changed of the row it loaded. -/
def AgentRunRow.flush (loaded new cur : AgentRunRow) : AgentRunRow where
  runId := cur.runId
  projectId := cur.projectId
  capability := cur.capability
  accountId := cur.accountId
  sessionId := col loaded.sessionId new.sessionId cur.sessionId
  resumeSessionId := col loaded.resumeSessionId new.resumeSessionId cur.resumeSessionId
  workspace := col loaded.workspace new.workspace cur.workspace
  cancelRequested := col loaded.cancelRequested new.cancelRequested cur.cancelRequested
  lastEventAt := col loaded.lastEventAt new.lastEventAt cur.lastEventAt
  lastSeq := col loaded.lastSeq new.lastSeq cur.lastSeq
  outcome := col loaded.outcome new.outcome cur.outcome
  model := cur.model
  billingMode := col loaded.billingMode new.billingMode cur.billingMode
  usageSource := col loaded.usageSource new.usageSource cur.usageSource
  usageInputTokens := col loaded.usageInputTokens new.usageInputTokens cur.usageInputTokens
  usageOutputTokens := col loaded.usageOutputTokens new.usageOutputTokens cur.usageOutputTokens
  usageCacheReadTokens :=
    col loaded.usageCacheReadTokens new.usageCacheReadTokens cur.usageCacheReadTokens
  usageTurns := col loaded.usageTurns new.usageTurns cur.usageTurns
  quotaWaits := col loaded.quotaWaits new.quotaWaits cur.quotaWaits

/-! ### The request of a run -/

structure Attachment where
  name : Option String
  mediaType : Option String
  dataB64 : Option String
  deriving DecidableEq, Repr

/-- `request.client_job`: the subscription-job contract, absent on a bare agent run. -/
structure ClientJob where
  provider : String
  model : String
  responseFormat : Option Json := none
  tools : List Json := []
  toolChoice : Option Json := none
  terminalTools : List String := []
  deriving DecidableEq, Repr

/-- The keys of `deep_jobs.request` the run's writers read. -/
structure AgentRequest where
  wallTimeoutS : Option ℤ := none
  deadlineS : Option ℤ := none
  attachments : List Attachment := []
  clientJob : Option ClientJob := none
  deriving DecidableEq, Repr

/-- Keep name and type, drop the bytes. -/
def stripAttachmentData (atts : List Attachment) : List Attachment :=
  atts.map fun a => { a with dataB64 := none }

/-! ### `result_meta` -/

/-- A pending call is waiting for its result or holds a committed one. -/
inductive CallState where
  | waiting
  | ready (success : Bool) (content : String) (digest : String) (terminal : Bool)
  deriving DecidableEq, Repr

/-- `result_meta.client_tool`. -/
structure ClientCall where
  callId : String
  name : String
  arguments : String
  deadline : Time
  state : CallState
  deriving DecidableEq, Repr

/-- An entry of `result_meta.client_tool_history`. -/
structure HistoryItem where
  callId : String
  digest : String
  terminal : Bool
  deriving DecidableEq, Repr

/-- `result_meta.usage_observed`. -/
structure UsageObserved where
  totalTokens : Option ℤ := none
  reasoningTokens : Option ℤ := none
  deriving DecidableEq, Repr

/-- An entry of `result_meta.model_observations`. -/
structure Observation where
  model : String
  kind : EvidenceKind
  source : String
  deriving DecidableEq, Repr

inductive PendingReason | capacityBusy | waitingQuota
  deriving DecidableEq, Repr

/-- The served-model fields of a closed subscription job, the two observation keys apart. -/
structure ServedModel where
  modelServed : Option String
  modelObservedBest : Option String
  kind : Option EvidenceKind
  source : String
  complete : Bool
  deriving DecidableEq, Repr

/-- The rest of the evidence envelope of a closed subscription job. -/
structure Envelope where
  accountId : String
  provider : String
  model : String
  billingType : Option String
  runOutcome : Outcome
  appServerPath : Bool
  deriving DecidableEq, Repr

/-- The counters of a completed subscription job; `cost_usd` is always null and `finish_reason`
always `stop`. -/
structure Counters where
  tokensIn : Option ℤ
  tokensOut : Option ℤ
  cacheReadTokens : Option ℤ
  totalTokens : Option ℤ
  reasoningTokens : Option ℤ
  deriving DecidableEq, Repr

/-- A file entry of a completed job: inline, or its bytes moved to `deep_job_files`. -/
structure StoredFile where
  file : FileRef
  contentRef : Option ℕ := none
  deriving DecidableEq, Repr

structure ResultMeta where
  firstStartedAt : Option Time := none
  clientTool : Option ClientCall := none
  clientToolHistory : Option (List HistoryItem) := none
  usageObserved : Option UsageObserved := none
  modelObservations : Option (List Observation) := none
  observationsTruncated : Option Bool := none
  pendingReason : Option PendingReason := none
  files : Option (List StoredFile) := none
  served : Option ServedModel := none
  envelope : Option Envelope := none
  counters : Option Counters := none
  errorClass : Option String := none
  deriving DecidableEq, Repr

/-- The queue row of an agent run. -/
abbrev AgentJobRow := DeepJobRow AgentRequest ResultMeta

/-- `job.result_meta or {}`. -/
def metaOf (job : AgentJobRow) : ResultMeta := job.resultMeta.getD {}

/-- `job.result_meta = meta`. -/
def setMeta (job : AgentJobRow) (m : ResultMeta) : AgentJobRow := { job with resultMeta := some m }

@[simp] theorem metaOf_setMeta (job : AgentJobRow) (m : ResultMeta) : metaOf (setMeta job m) = m := rfl

@[simp] theorem setMeta_status (job : AgentJobRow) (m : ResultMeta) :
    (setMeta job m).status = job.status := rfl

/-- `meta.get("client_tool_history") or []`. -/
def ResultMeta.history (m : ResultMeta) : List HistoryItem := m.clientToolHistory.getD []

end Broker.Agent
