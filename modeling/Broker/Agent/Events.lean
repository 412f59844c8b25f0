import Broker.Lib.Json
import Broker.Db.Models

/-!
# Broker.Agent.Events — the typed events of an agent run

`AnyEvent` is the discriminated union of `agent/events.py`.  An adapter yields events, `append_event`
stamps `seq` and `ts` and stores them as `AgentRunEventRow`s.
-/

namespace Broker.Agent

open Broker.Lib Broker.Db

/-- The two agent capabilities. -/
inductive Capability | codex | claude
  deriving DecidableEq, Repr

/-- The capability column of a run. -/
def Capability.name : Capability → String
  | .codex => "agent:codex"
  | .claude => "agent:claude"

/-- How strong a model observation is. -/
inductive EvidenceKind | response | sessionInit | threadConfig
  deriving DecidableEq, Repr

inductive FileAction | created | modified | deleted
  deriving DecidableEq, Repr

inductive Limit | wall | idle | deadline
  deriving DecidableEq, Repr

/-- A produced file; `contentB64` is filled by the executor within the caps. -/
structure FileRef where
  path : String
  size : ℤ := 0
  contentB64 : Option String := none
  skipped : Option String := none
  expiresAt : Option String := none
  expired : Bool := false
  sha256 : Option String := none
  width : Option ℤ := none
  height : Option ℤ := none
  imageCallId : Option String := none
  imageProvenance : Option String := none
  deriving DecidableEq, Repr

/-- The counters of a `usage` event, as the CLI reported them. -/
structure Usage where
  inputTokens : Option ℤ := none
  outputTokens : Option ℤ := none
  totalTokens : Option ℤ := none
  cacheReadTokens : Option ℤ := none
  turns : Option ℤ := none
  reasoningTokens : Option ℤ := none
  source : String := "cli_reported"
  deriving DecidableEq, Repr

inductive AnyEvent where
  | runStarted (capability : Capability) (accountId : String) (resumedSessionId : Option String)
  | sessionAssigned (sessionId : String)
  | modelRerouted (fromModel toModel : String)
  | modelObserved (model : String) (kind : EvidenceKind) (source : String)
  | messageDelta (text : String)
  | toolCall (callId name : String) (input : Json)
  | toolResult (callId : String) (ok : Bool) (output : String)
  | fileChanged (path : String) (action : FileAction)
  | usage (u : Usage)
  | runWaitingQuota (notBefore : Time) (attempt : ℕ) (resetReported : Bool) (reason : String)
  | billingAttested (authMethod apiProvider : String) (paidContinuationVerifiedOff : Bool)
      (projectDailyCapUsd : Option ℚ) (accountId : String)
  | runCompleted (finalText : String) (files : List FileRef)
  | runFailed (errorClass message : String) (resetAt : Option String)
  | runCancelled
  | runTimedOut (limit : Limit)
  deriving DecidableEq, Repr

/-- `agent_runs.outcome`. -/
inductive Outcome | completed | failed | cancelled | timedOut
  deriving DecidableEq, Repr

/-- The discriminator of an event, stored as `agent_run_events.type`. -/
inductive EventType
  | runStarted | sessionAssigned | modelRerouted | modelObserved | messageDelta | toolCall | toolResult
  | fileChanged | usage | runWaitingQuota | billingAttested
  | runCompleted | runFailed | runCancelled | runTimedOut
  deriving DecidableEq, Repr

/-- `OUTCOME_BY_TYPE`; a type without an entry is not terminal. -/
def outcomeByType : EventType → Option Outcome
  | .runCompleted => some .completed
  | .runFailed => some .failed
  | .runCancelled => some .cancelled
  | .runTimedOut => some .timedOut
  | _ => none

/-- Membership in `TERMINAL_TYPES`. -/
def EventType.terminal (t : EventType) : Bool := (outcomeByType t).isSome

def AnyEvent.type : AnyEvent → EventType
  | .runStarted .. => .runStarted
  | .sessionAssigned .. => .sessionAssigned
  | .modelRerouted .. => .modelRerouted
  | .modelObserved .. => .modelObserved
  | .messageDelta .. => .messageDelta
  | .toolCall .. => .toolCall
  | .toolResult .. => .toolResult
  | .fileChanged .. => .fileChanged
  | .usage .. => .usage
  | .runWaitingQuota .. => .runWaitingQuota
  | .billingAttested .. => .billingAttested
  | .runCompleted .. => .runCompleted
  | .runFailed .. => .runFailed
  | .runCancelled => .runCancelled
  | .runTimedOut .. => .runTimedOut

/-- One row of `agent_run_events`; the primary key is `(run_id, seq)`. -/
structure AgentRunEventRow where
  seq : ℕ
  ts : Time
  type : EventType
  payload : AnyEvent
  deriving DecidableEq, Repr

end Broker.Agent
