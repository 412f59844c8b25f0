import Broker.Lib.History
import Broker.Lib.PyVal
import Broker.Agent.Events
import Broker.Agent.ClientTools

/-!
# Broker.Agent.ToolTurn — a turn whose tools the client runs

`codex_app_server.run_tool_turn` and `claude_tool_turn.run_tool_turn` speak different protocols to their
CLI and keep one discipline to the rest of the broker.  A turn leaves a history of events: what it read,
took up, published, took from the client, answered, started, interrupted and yielded.  `Allowed` says
when an event may come; the two turns are shown to come up with nothing else.
-/

namespace Broker.Agent

open Broker.Lib Broker.Db

/-- `StreamEvent`, and the cancellation a turn yields beside it. -/
inductive StreamEvent where
  | sessionAssigned (sessionId : String)
  | modelRerouted (fromModel toModel : String)
  | modelObserved (model : String) (kind : EvidenceKind) (source : String)
  | messageDelta (text : String)
  | toolCall (callId name : String) (input : Doc)
  | toolResult (callId : String) (ok : Bool) (output : String)
  | fileChanged (path : String) (action : FileAction)
  | usage (u : Usage)
  | runCompleted (finalText : String)
  | runFailed (errorClass message : String) (resetAt : Option String)
  | runCancelled

def StreamEvent.type : StreamEvent → EventType
  | .sessionAssigned .. => .sessionAssigned
  | .modelRerouted .. => .modelRerouted
  | .modelObserved .. => .modelObserved
  | .messageDelta .. => .messageDelta
  | .toolCall .. => .toolCall
  | .toolResult .. => .toolResult
  | .fileChanged .. => .fileChanged
  | .usage .. => .usage
  | .runCompleted .. => .runCompleted
  | .runFailed .. => .runFailed
  | .runCancelled => .runCancelled

/-! ### What a turn is given -/

/-- `AgentRunSpec.tool_choice`. -/
inductive ToolChoice where
  | unset
  | text (s : String)
  | named (choice : Doc)

/-- What a turn reads of its `AgentRunSpec`, the settings and the interpreter. -/
structure TurnSpec where
  runId : ℕ
  /-- What the first turn is started with. -/
  prompt : String
  toolChoice : ToolChoice := .unset
  clientTools : List (Val PyFloat) := []
  /-- `AGENT_TOOL_ARG_RETRIES`. -/
  argRetries : ℕ := 2
  /-- `AGENT_TOOL_REQUIRED_REMINDERS`. -/
  requiredReminders : ℕ := 1
  interp : PyConv.Interp

/-- `run.tool_choice == "required" or isinstance(run.tool_choice, dict)`. -/
def TurnSpec.toolRequired (run : TurnSpec) : Bool :=
  match run.toolChoice with
  | .unset => false
  | .text s => s = "required"
  | .named _ => true

/-- The tool a reminder names; nothing where reading it raises. -/
def reminderName (run : TurnSpec) : Option (Val PyFloat) :=
  match run.toolChoice with
  | .named choice => (Doc.get choice "function").orDict.map fun f => Doc.get f "name"
  | _ =>
    match run.clientTools with
    | [tool] => (tool.item "function").bind fun f => f.item "name"
    | _ => some .null

/-- `_reminder_text`. -/
def reminderText (run : TurnSpec) : Option String :=
  (reminderName run).map fun name =>
    let target := match name with
      | .str s => "the " ++ s ++ " tool"
      | _ => "one of the declared tools"
    "You must now call " ++ target ++ " with your final answer; do not reply with plain text."

/-! ### Exceptions -/

/-- What an await of a turn raises; `uncaught` is any exception its handlers do not name. -/
inductive TurnError where
  | cancelled
  | conflict (msg : String)
  | invalidArguments (label detail : String)
  | valueError (msg : String)
  | osError (msg : String)
  | uncaught
  deriving DecidableEq, Repr

/-- `run.failed` of a turn. -/
def protocolFailure (msg : String) : StreamEvent := .runFailed "client_tool_protocol" (cut 500 msg) none

/-- The event the handlers yield. -/
def TurnError.handled : TurnError → Option StreamEvent
  | .cancelled => some .runCancelled
  | .conflict msg | .valueError msg | .osError msg => some (protocolFailure msg)
  | .invalidArguments label detail =>
    some (protocolFailure ("tool call is outside the declared schema [" ++ label ++ "]"
      ++ if detail = "" then "" else ": " ++ detail))
  | .uncaught => none

/-- What a model is told of a call whose arguments were refused. -/
def rejectionText (label detail name : String) : String :=
  "Tool arguments rejected: " ++ (if detail = "" then label else detail) ++ ". Call " ++ cut 80 name
    ++ " again with arguments that satisfy its schema."

/-- How a `send` ends: the frame is written or not before it raises. -/
inductive Sent where
  | ok
  | lost (e : TurnError)
  | broken (e : TurnError)

/-- One round of the wait for a client's result: a result, another second, the end of the process, an
exception. -/
inductive Poll where
  | result (r : ToolResult)
  | pending
  | stopped
  | raised (e : TurnError)

/-- `TERMINAL_STOP_S`. -/
def terminalStop : Time := seconds 30

def stopUnconfirmed : TurnError :=
  .conflict "terminal_stop_unconfirmed: the turn did not stop after the terminal result"

/-! ### Histories -/

/-- What crosses the pipes of a turn: the CLI's messages, our turn starts, its requests and our replies. -/
structure Wire where
  Message : Type
  Start : Type
  Request : Type
  Reply : Type

inductive TurnEvent (W : Wire) where
  | read (m : W.Message)
  | accepted (q : W.Request)
  | published (q : W.Request) (callId name : String) (arguments : Val PyFloat)
  | took (callId : String) (r : ToolResult)
  | replied (q : W.Request) (r : W.Reply)
  | started (m : W.Start)
  | interrupted
  | confirmed
  | completed (m : W.Message)
  | yielded (e : StreamEvent)

namespace TurnEvent

variable {W : Wire}

def request? : TurnEvent W → Option W.Request
  | .accepted q => some q
  | _ => none

def reply? : TurnEvent W → Option W.Request
  | .replied q _ => some q
  | _ => none

def callId? : TurnEvent W → Option String
  | .published _ c _ _ => some c
  | _ => none

def isTerminalResult : TurnEvent W → Bool
  | .took _ r => r.terminal
  | _ => false

def isStart : TurnEvent W → Bool
  | .started _ => true
  | _ => false

def isInterrupt : TurnEvent W → Bool
  | .interrupted => true
  | _ => false

def isConfirmation : TurnEvent W → Bool
  | .confirmed => true
  | _ => false

def isLast : TurnEvent W → Bool
  | .yielded e => e.type.terminal
  | _ => false

end TurnEvent

section History

variable {W : Wire} (h : List (TurnEvent W))

/-- The requests taken up. -/
def requests : List W.Request := h.filterMap TurnEvent.request?

/-- The requests answered. -/
def answered : List W.Request := h.filterMap TurnEvent.reply?

/-- The calls published to the client. -/
def callIds : List String := h.filterMap TurnEvent.callId?

/-- How many results of the client were terminal. -/
def terminals : ℕ := h.countP TurnEvent.isTerminalResult

def turnsStarted : ℕ := h.countP TurnEvent.isStart

def interrupts : ℕ := h.countP TurnEvent.isInterrupt

def confirmations : ℕ := h.countP TurnEvent.isConfirmation

/-- A terminal event was yielded. -/
def closed : Bool := h.any TurnEvent.isLast

variable (e : TurnEvent W)

@[simp] theorem requests_snoc : requests (h ++ [e]) = requests h ++ e.request?.toList := by
  cases he : e.request? <;> simp [requests, he]

@[simp] theorem answered_snoc : answered (h ++ [e]) = answered h ++ e.reply?.toList := by
  cases he : e.reply? <;> simp [answered, he]

@[simp] theorem callIds_snoc : callIds (h ++ [e]) = callIds h ++ e.callId?.toList := by
  cases he : e.callId? <;> simp [callIds, he]

@[simp] theorem terminals_snoc :
    terminals (h ++ [e]) = terminals h + if e.isTerminalResult then 1 else 0 := by
  simp [terminals, List.countP_singleton]

@[simp] theorem turnsStarted_snoc :
    turnsStarted (h ++ [e]) = turnsStarted h + if e.isStart then 1 else 0 := by
  simp [turnsStarted, List.countP_singleton]

@[simp] theorem interrupts_snoc : interrupts (h ++ [e]) = interrupts h + if e.isInterrupt then 1 else 0 := by
  simp [interrupts, List.countP_singleton]

@[simp] theorem confirmations_snoc :
    confirmations (h ++ [e]) = confirmations h + if e.isConfirmation then 1 else 0 := by
  simp [confirmations, List.countP_singleton]

@[simp] theorem closed_snoc : closed (h ++ [e]) = (closed h || e.isLast) := by
  simp [closed]

attribute [simp] TurnEvent.request? TurnEvent.reply? TurnEvent.callId? TurnEvent.isTerminalResult TurnEvent.isStart
  TurnEvent.isInterrupt TurnEvent.isConfirmation TurnEvent.isLast

end History

/-- An event that no count of the history sees. -/
def TurnEvent.Quiet {W : Wire} : TurnEvent W → Prop
  | .read _ | .completed _ => True
  | .yielded e => e.type.terminal = false
  | _ => False

/-- Two histories that all counts agree on. -/
structure SameCounts {W : Wire} (h h' : List (TurnEvent W)) : Prop where
  closed : closed h = closed h'
  requests : requests h = requests h'
  answered : answered h = answered h'
  callIds : callIds h = callIds h'
  terminals : terminals h = terminals h'
  turnsStarted : turnsStarted h = turnsStarted h'
  interrupts : interrupts h = interrupts h'
  confirmations : confirmations h = confirmations h'

theorem SameCounts.opened {W : Wire} {h h' : List (TurnEvent W)} (hs : SameCounts h h') {q : W.Request}
    (hopen : Agent.requests h' = Agent.answered h' ++ [q]) : Agent.requests h = Agent.answered h ++ [q] := by
  rw [hs.requests, hs.answered, hopen]

theorem TurnEvent.Quiet.same {W : Wire} {e : TurnEvent W} (he : e.Quiet) (h : List (TurnEvent W)) :
    SameCounts (h ++ [e]) h := by
  cases e with
  | read m | completed m => constructor <;> simp
  | yielded e =>
    have hlast : e.type.terminal = false := he
    constructor <;> simp [hlast]
  | _ => exact he.elim

/-- Beside the quiet events, those that change neither a counter nor the calls: a request, a result and a
reply. -/
def TurnEvent.Passing {W : Wire} : TurnEvent W → Prop
  | .accepted _ | .took _ _ | .replied _ _ => True
  | e => e.Quiet

/-! ### The counters -/

/-- What the counters of a turn that has not ended say of its history; `pending` turns are still to be
started. -/
structure Tally {W : Wire} (run : TurnSpec) (pending calls remindersLeft : ℕ) (confirmed stopping : Bool)
    (h : List (TurnEvent W)) : Prop where
  notClosed : closed h = false
  callCount : calls = (callIds h).length
  terminals : 0 < terminals h → 0 < calls
  confirmed : confirmations h = confirmed.toNat
  interrupts : interrupts h = stopping.toNat
  turns : turnsStarted h + remindersLeft + pending = 1 + run.requiredReminders

namespace Tally

variable {W : Wire} {run : TurnSpec} {pending calls left : ℕ} {confirmed stopping : Bool}
    {h : List (TurnEvent W)}

theorem first (run : TurnSpec) (m : W.Start) :
    Tally run 0 0 run.requiredReminders false false ([.started m] : List (TurnEvent W)) :=
  ⟨rfl, rfl, fun hpos => (by cases hpos), rfl, rfl, rfl⟩

theorem pass (hc : Tally run pending calls left confirmed stopping h) {e : TurnEvent W} (he : e.Passing)
    (hterm : e.isTerminalResult = true → 0 < calls) :
    Tally run pending calls left confirmed stopping (h ++ [e]) := by
  have hsame : closed (h ++ [e]) = closed h ∧ callIds (h ++ [e]) = callIds h ∧
      confirmations (h ++ [e]) = confirmations h ∧ Agent.interrupts (h ++ [e]) = Agent.interrupts h ∧
      turnsStarted (h ++ [e]) = turnsStarted h := by
    cases e with
    | accepted q | took c r | replied q r | read m | completed m => simp
    | yielded e =>
      have hlast : e.type.terminal = false := he
      simp [hlast]
    | _ => exact he.elim
  obtain ⟨hclosed, hids, hconf, hint, hturns⟩ := hsame
  refine ⟨hclosed.trans hc.notClosed, ?_, ?_, hconf.trans hc.confirmed, hint.trans hc.interrupts, ?_⟩
  · rw [hids]
    exact hc.callCount
  · rw [terminals_snoc]
    intro hpos
    by_cases hres : e.isTerminalResult = true
    · exact hterm hres
    · rw [if_neg hres] at hpos
      exact hc.terminals hpos
  · rw [hturns]
    exact hc.turns

theorem quiet (hc : Tally run pending calls left confirmed stopping h) {e : TurnEvent W} (he : e.Quiet) :
    Tally run pending calls left confirmed stopping (h ++ [e]) := by
  cases e with
  | read m | completed m | yielded e => exact hc.pass he (fun h => by cases h)
  | _ => exact he.elim

theorem publish (hc : Tally run pending calls left confirmed stopping h) (q : W.Request) (c name : String)
    (arguments : Val PyFloat) :
    Tally run pending (calls + 1) left confirmed stopping (h ++ [.published q c name arguments]) := by
  refine ⟨?_, ?_, fun _ => Nat.succ_pos _, ?_, ?_, ?_⟩
  · simpa using hc.notClosed
  · simpa using hc.callCount
  · simpa using hc.confirmed
  · simpa using hc.interrupts
  · simpa using hc.turns

theorem confirm (hc : Tally run pending calls left false stopping h) :
    Tally run pending calls left true stopping (h ++ [.confirmed]) := by
  have hnone : confirmations h = 0 := hc.confirmed
  refine ⟨?_, ?_, ?_, by simp [hnone], ?_, ?_⟩
  · simpa using hc.notClosed
  · simpa using hc.callCount
  · simpa using hc.terminals
  · simpa using hc.interrupts
  · simpa using hc.turns

theorem interrupt (hc : Tally run pending calls left confirmed false h) :
    Tally run pending calls left confirmed true (h ++ [.interrupted]) := by
  have hnone : Agent.interrupts h = 0 := hc.interrupts
  refine ⟨?_, ?_, ?_, ?_, by simp [hnone], ?_⟩
  · simpa using hc.notClosed
  · simpa using hc.callCount
  · simpa using hc.terminals
  · simpa using hc.confirmed
  · simpa using hc.turns

theorem start (hc : Tally run (pending + 1) calls left confirmed stopping h) (m : W.Start) :
    Tally run pending calls left confirmed stopping (h ++ [.started m]) := by
  have hturns := hc.turns
  refine ⟨?_, ?_, ?_, ?_, ?_, ?_⟩
  · simpa using hc.notClosed
  · simpa using hc.callCount
  · simpa using hc.terminals
  · simpa using hc.confirmed
  · simpa using hc.interrupts
  · simp only [turnsStarted_snoc, TurnEvent.isStart, if_true]
    omega

/-- A reminder is taken from those left. -/
theorem remind (hc : Tally run pending calls left confirmed stopping h) (hleft : left ≠ 0) :
    Tally run (pending + 1) calls (left - 1) confirmed stopping h := by
  have hturns := hc.turns
  exact ⟨hc.notClosed, hc.callCount, hc.terminals, hc.confirmed, hc.interrupts, by omega⟩

end Tally

/-! ### The discipline -/

/-- **When an event may come.** -/
def Allowed {W : Wire} (run : TurnSpec) (h : List (TurnEvent W)) : TurnEvent W → Prop
  | .read _ | .completed _ => closed h = false
  | .accepted _ => closed h = false ∧ answered h = requests h
  | .published _ c _ _ => closed h = false ∧ terminals h = 0 ∧ c ∉ callIds h
  | .took c _ => closed h = false ∧ terminals h = 0 ∧ c ∈ callIds h
  | .replied q _ => closed h = false ∧ requests h = answered h ++ [q]
  | .started _ => closed h = false ∧ turnsStarted h ≤ run.requiredReminders
  | .interrupted => closed h = false ∧ 0 < terminals h ∧ interrupts h = 0
  | .confirmed => closed h = false ∧ 0 < interrupts h ∧ confirmations h = 0
  | .yielded e => closed h = false ∧ ∀ text, e = .runCompleted text →
      answered h = requests h ∧ (0 < terminals h → confirmations h = 1) ∧
      (run.toolRequired = true → callIds h ≠ [])

namespace Allowed

variable {W : Wire} {run : TurnSpec} {h : List (TurnEvent W)}

theorem interrupts_le (hh : AtEach (Allowed run) h) : interrupts h ≤ 1 := by
  refine hh.countP_le fun us a ha hp => ?_
  cases a with
  | interrupted =>
    have hnone : interrupts us = 0 := ha.2.2
    unfold interrupts at hnone
    omega
  | _ => cases hp

theorem turnsStarted_le (hh : AtEach (Allowed run) h) : turnsStarted h ≤ 1 + run.requiredReminders := by
  refine hh.countP_le fun us a ha hp => ?_
  cases a with
  | started m =>
    have hle : turnsStarted us ≤ run.requiredReminders := ha.2
    unfold turnsStarted at hle
    omega
  | _ => cases hp

theorem not_closed {a : TurnEvent W} (ha : Allowed run h a) : closed h = false := by
  cases a with
  | read m | completed m => exact ha
  | _ => exact ha.1

/-- Nothing comes after a terminal event. -/
theorem nil_of_closed (hh : AtEach (Allowed run) h) {us vs : List (TurnEvent W)} {e : StreamEvent}
    (heq : h = us ++ .yielded e :: vs) (he : e.type.terminal = true) : vs = [] := by
  cases vs with
  | nil => rfl
  | cons b ws =>
    have hb : Allowed run (us ++ [.yielded e]) b := hh (us ++ [.yielded e]) b ws (by rw [heq]; simp)
    have hclosed : closed (us ++ [TurnEvent.yielded e]) = true := by simp [he]
    rw [not_closed hb] at hclosed
    cases hclosed

/-- Requests are answered in their order, each before the next is taken up. -/
theorem answered_prefix (hh : AtEach (Allowed run) h) :
    answered h = requests h ∨ ∃ q, requests h = answered h ++ [q] := by
  induction h using List.reverseRecOn with
  | nil => exact .inl rfl
  | append_singleton us a ih =>
    have hlast := hh.last
    have hus := ih hh.init
    cases a with
    | accepted q =>
      have heq : answered us = requests us := hlast.2
      exact .inr ⟨q, by simp [heq]⟩
    | replied q r =>
      have heq : requests us = answered us ++ [q] := hlast.2
      exact .inl (by simp [heq])
    | _ => simpa using hus

end Allowed

end Broker.Agent
