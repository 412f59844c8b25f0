import Broker.Lib.Trans
import Broker.Agent.ClaudeParser

/-!
# Broker.Agent.ClaudeTurn — a turn of the Claude CLI

The loop of `claude_tool_turn.run_tool_turn`.  Control lines carry the traffic of the SDK MCP server
`broker`, every other line goes through `ClaudeParser.feed`.  Each step is one await, as in the App
Server's turn; the events of a line are worked through between two awaits, save where a reminder is sent.
-/

namespace Broker.Agent

open Broker.Lib Broker.Db

/-! ### Control messages -/

/-- `PREFIX`. -/
def toolPrefix : String := "mcp__broker__"

/-- `_INIT`. -/
def initRequest : String := "broker-init-1"

/-- `_INTERRUPT`. -/
def interruptRequest : String := "broker-interrupt-1"

/-- An `mcp_message` of the CLI. -/
structure McpRequest where
  requestId : Val PyFloat
  message : Doc

abbrev claudeWire : Wire := ⟨String, String, McpRequest, Val PyFloat⟩

structure ClaudeRun extends TurnSpec where
  parser : ParserEnv

/-- An entry of `_mcp_tools`. -/
def mcpTool (tool : Val PyFloat) : Option (Val PyFloat) := do
  let f ← tool.item "function"
  let name ← f.item "name"
  let parameters ← f.item "parameters"
  let d ← f.asDict
  let description := Doc.get d "description"
  return .obj [("name", name), ("description", if description.truthy then description else name),
    ("inputSchema", parameters)]

/-- `_mcp_tools`; it has been called for the command line before the loop starts, so it does not raise
there. -/
def mcpTools (run : TurnSpec) : List (Val PyFloat) :=
  match run.toolChoice with
  | .text "none" => []
  | _ => (run.clientTools.mapM mcpTool).getD []

/-- `_tool_text`. -/
def toolText (text : String) (isError : Bool) : Val PyFloat :=
  .obj [("content", .arr [.obj [("type", .str "text"), ("text", .str text)]]), ("isError", .bool isError)]

/-- The JSON-RPC reply; a notification has no id. -/
def mcpReply (mid result : Val PyFloat) : Val PyFloat :=
  .obj ([("jsonrpc", .str "2.0"), ("result", result)] ++ if mid.isNull then [] else [("id", mid)])

def methodNotFound (mid : Val PyFloat) : Val PyFloat :=
  .obj [("jsonrpc", .str "2.0"), ("id", mid),
    ("error", .obj [("code", .int (-32601)), ("message", .str "method not found")])]

/-- The result of `initialize`. -/
def initializeResult (version : Val PyFloat) : Val PyFloat :=
  .obj [("protocolVersion", match version with
      | .str v => .str v
      | _ => .str "2025-06-18"),
    ("capabilities", .obj [("tools", .obj [])]),
    ("serverInfo", .obj [("name", .str "broker"), ("version", .str "1")])]

/-! ### The result of an interrupted turn -/

/-- What `errors or []` iterates over, the texts among it; a number does not iterate. -/
def errorTexts (errors : Val PyFloat) : Option (List (Option String)) :=
  if errors.truthy then
    match errors with
    | .arr xs => some (xs.map fun x => match x with
        | .str e => some e
        | _ => none)
    | .str s => some (s.toList.map fun c => some (String.singleton c))
    | .obj es => some (es.map fun e => some e.1)
    | _ => none
  else some []

/-- An error of the CLI about the interrupt itself. -/
def isDiagnostic : Option String → Bool
  | some e => "[ede_diagnostic]".toList.isPrefixOf e.toList
  | none => false

/-- `interrupt_was_clean`; nothing where it raises. -/
def interruptWasClean (result : Doc) : Option Bool :=
  let reason := result.get "terminal_reason"
  if (reason.isText "aborted_streaming" || reason.isText "aborted_tools") && (result.get "api_error_status").isNull
      && !(result.get "result").truthy then
    (errorTexts (result.get "errors")).map fun es => es.all isDiagnostic
  else some false

/-- `_result_shape` is only logged, but it may raise. -/
def resultShape (P : ParserEnv) (result : Doc) : Except TurnError Unit := do
  let _ ← ClaudeParser.text P (result.get "subtype")
  let _ ← ClaudeParser.text P (result.get "terminal_reason")
  let _ ← ClaudeParser.text P (result.get "api_error_status")
  let _ ← ClaudeParser.text P (result.get "is_error")
  let _ ← ClaudeParser.textOrEmpty P (result.get "result")
  match errorTexts (result.get "errors") with
  | none => throw .uncaught
  | some _ => return ()

/-! ### The state -/

inductive ClaudePhase where
  | reading
  | publishing (q : McpRequest) (callId name : String) (arguments : Val PyFloat)
  | waiting (q : McpRequest) (callId : String)
  | replying (q : McpRequest) (reply : Val PyFloat)
  | interrupting
  | reminding (data : Doc) (rest : List StreamEvent) (text : String)
  | closing
  | ended

/-- The request being handled. -/
def ClaudePhase.request? : ClaudePhase → Option McpRequest
  | .publishing q _ _ _ | .waiting q _ | .replying q _ => some q
  | _ => none

structure ClaudeTurn where
  phase : ClaudePhase := .reading
  rejected : ℕ := 0
  remindersLeft : ℕ
  calls : ℕ := 0
  seq : ℕ := 0
  brokerUses : List String := []
  answeredIds : List String := []
  terminal : Bool := false
  usage : Usage := { turns := some 0, source := "claude_stream_json" }
  stopDeadline : Option Time := none
  interruptConfirmed : Bool := false
  log : List (TurnEvent claudeWire)

namespace ClaudeTurn

/-- After the control initialize and the first user message. -/
def start (run : ClaudeRun) : ClaudeTurn :=
  { remindersLeft := run.requiredReminders, log := [.started run.prompt] }

def emit (s : ClaudeTurn) (e : TurnEvent claudeWire) : ClaudeTurn := { s with log := s.log ++ [e] }

/-- `_counted`. -/
def counted (u : Usage) : Bool := u.inputTokens.isSome || u.outputTokens.isSome || u.cacheReadTokens.isSome

/-- `_sum`. -/
def addCount : Option ℤ → Option ℤ → Option ℤ
  | none, b => b
  | a, none => a
  | some a, some b => some (a + b)

def addUsage (u v : Usage) : Usage where
  inputTokens := addCount u.inputTokens v.inputTokens
  outputTokens := addCount u.outputTokens v.outputTokens
  cacheReadTokens := addCount u.cacheReadTokens v.cacheReadTokens
  turns := addCount u.turns v.turns
  source := "claude_stream_json"

/-- A run that does not complete reports what it spent. -/
def emitUsage (s : ClaudeTurn) :
    ClaudeTurn := if counted s.usage then s.emit (.yielded (.usage s.usage)) else s

/-- The last event of the turn. -/
def close (s : ClaudeTurn) (e : StreamEvent) : ClaudeTurn := { s.emit (.yielded e) with phase := .ended }

/-- The turn leaves its loop with an exception. -/
def raise (s : ClaudeTurn) (x : TurnError) : ClaudeTurn :=
  match x.handled with
  | some e => s.emitUsage.close e
  | none => { s with phase := .ended }

def conflict (s : ClaudeTurn) (msg : String) : ClaudeTurn := s.raise (.conflict msg)

/-- Back at the top of the loop. -/
def loop (s : ClaudeTurn) : ClaudeTurn := { s with phase := .reading }

variable (run : ClaudeRun)

/-! ### Control lines -/

/-- `control_response`. -/
def onControlResponse (s : ClaudeTurn) (data : Doc) : ClaudeTurn :=
  match (data.get "response").orDict with
  | none => s.raise .uncaught
  | some response =>
    let id := Doc.get response "request_id"
    let expected := id.isText initRequest || (s.stopDeadline.isSome && id.isText interruptRequest)
    if expected = false ∨ (Doc.get response "subtype").isText "success" = false then
      s.conflict "Claude refused the control initialize or interrupt"
    else if id.isText interruptRequest then
      if s.interruptConfirmed then s.conflict "duplicate Claude interrupt confirmation"
      else { s.emit .confirmed with interruptConfirmed := true }
    else s

def callId (run : ClaudeRun) (seq : ℕ) : String := "call_claude_" ++ toString run.runId ++ "_" ++ toString seq

/-- `tools/call`, up to the call of `publish_call`. -/
def onToolsCall (s : ClaudeTurn) (q : McpRequest) (params : Option Doc) : ClaudeTurn :=
  if s.stopDeadline.isSome then s.conflict "model requested another tool after terminal output"
  else
    let s := { s with seq := s.seq + 1 }
    match params with
    | none => s.raise .uncaught
    | some p =>
      match Doc.get p "name" with
      | .str name =>
        let arguments := Doc.get p "arguments"
        { s with phase := .publishing q (callId run s.seq) name (if arguments.isNull then .obj [] else arguments) }
      | _ => s.conflict "invalid MCP tool call"

/-- An `mcp_message` of the `broker` server. -/
def onMcpMessage (s : ClaudeTurn) (q : McpRequest) : ClaudeTurn :=
  let s := s.emit (.accepted q)
  let mid := q.message.get "id"
  let method := q.message.get "method"
  let params := (q.message.get "params").orDict
  if mid.isNull then { s with phase := .replying q (mcpReply mid (.obj [])) }
  else if method.isText "initialize" then
    match params with
    | none => s.raise .uncaught
    | some p => { s with phase := .replying q (mcpReply mid (initializeResult (Doc.get p "protocolVersion"))) }
  else if method.isText "tools/list" then
    { s with phase := .replying q (mcpReply mid (.obj [("tools", .arr (mcpTools run.toTurnSpec))])) }
  else if method.isText "tools/call" then onToolsCall run s q params
  else if method.isText "ping" then { s with phase := .replying q (mcpReply mid (.obj [])) }
  else { s with phase := .replying q (methodNotFound mid) }

/-- `control_request` and what is left of `control_cancel_request`. -/
def onControlRequest (s : ClaudeTurn) (data : Doc) : ClaudeTurn :=
  match (data.get "request").orDict with
  | none => s.raise .uncaught
  | some request =>
    match Doc.get request "message" with
    | .obj message =>
      if (data.get "type").isText "control_request" && (Doc.get request "subtype").isText "mcp_message"
          && (Doc.get request "server_name").isText "broker" then
        onMcpMessage run s ⟨data.get "request_id", message⟩
      else s.conflict "Claude requested an unapproved operation"
    | _ => s.conflict "Claude requested an unapproved operation"

/-- `request_id in answered`; nothing where it raises. -/
def isAnswered (s : ClaudeTurn) : Val PyFloat → Option Bool
  | .str t => some (t ∈ s.answeredIds)
  | .arr _ | .obj _ => none
  | _ => some false

/-! ### Parsed events -/

/-- What follows an event of a line: the next one, the end of the turn, or a reminder. -/
inductive Next where
  | go (s : ClaudeTurn)
  | stop (s : ClaudeTurn)
  | remind (s : ClaudeTurn) (text : String)

/-- A terminal event after the interrupt was sent and its usage reported. -/
def onStopped (s : ClaudeTurn) : ClaudeTurn :=
  if s.interruptConfirmed then s.close (.runCompleted "")
  else s.conflict "terminal_stop_unconfirmed: Claude did not confirm the interrupt"

/-- A failure after the interrupt was sent: only a clean interrupt is no failure. -/
def onStoppedFailure (s : ClaudeTurn) (data : Doc) (item : StreamEvent) : ClaudeTurn :=
  let cancelled := if (data.get "type").isText "result" then interruptWasClean data else some false
  match cancelled, resultShape run.parser data with
  | some cancelled, .ok () =>
    if s.interruptConfirmed && cancelled then s.onStopped else s.close item
  | _, _ => s.raise .uncaught

/-- A completed turn, no interrupt sent. -/
def onCompleted (s : ClaudeTurn) (item : StreamEvent) : Next :=
  if s.calls = 0 ∧ run.toolRequired = true then
    if s.remindersLeft = 0 then .stop (s.conflict "required client tool was not called")
    else
      let s := { s with remindersLeft := s.remindersLeft - 1 }
      match reminderText run.toTurnSpec with
      | none => .stop (s.raise .uncaught)
      | some text => .remind s text
  else .stop ((s.emit (.yielded (.usage s.usage))).close item)

/-- One event of a line. -/
def onItem (data : Doc) (s : ClaudeTurn) (item : StreamEvent) : Next :=
  match item with
  | .toolCall callId name _ =>
    if toolPrefix.toList.isPrefixOf name.toList then .go { s with brokerUses := callId :: s.brokerUses }
    else .go (s.emit (.yielded item))
  | .toolResult callId _ _ => if callId ∈ s.brokerUses then .go s else .go (s.emit (.yielded item))
  | .usage u => .go { s with usage := addUsage s.usage u }
  | .messageDelta _ => if s.stopDeadline.isSome then .go s else .go (s.emit (.yielded item))
  | .runFailed _ _ _ =>
    if s.stopDeadline.isSome then .stop (onStoppedFailure run s.emitUsage data item)
    else .stop (s.emitUsage.close item)
  | .runCompleted _ => if s.stopDeadline.isSome then .stop s.emitUsage.onStopped else onCompleted run s item
  | .runCancelled => if s.stopDeadline.isSome then .stop s.emitUsage.onStopped else .stop (s.emitUsage.close item)
  | _ => .go (s.emit (.yielded item))

/-- The events of a line, from here on. -/
def onItems (data : Doc) : ClaudeTurn → List StreamEvent → ClaudeTurn
  | s, [] => s.loop
  | s, item :: rest =>
    match onItem run data s item with
    | .go s => onItems data s rest
    | .stop s => s
    | .remind s text => { s with phase := .reminding data rest text }

/-! ### The awaits -/

/-- The object of a line. -/
def onData (s : ClaudeTurn) (data : Doc) : ClaudeTurn :=
  let kind := data.get "type"
  let items : ClaudeTurn :=
    match ClaudeParser.feed run.parser (some data) with
    | .error x => s.raise x
    | .ok items => onItems run data s items
  if kind.isText "control_response" then s.onControlResponse data
  else if kind.isText "control_cancel_request" then
    match s.isAnswered (data.get "request_id") with
    | none => s.raise .uncaught
    | some true => s
    | some false => onControlRequest run s data
  else if kind.isText "control_request" then onControlRequest run s data
  else items

/-- One line; what is no object has no events. -/
def onLine (s : ClaudeTurn) (line : String) : ClaudeTurn :=
  match ClaudeParser.json run.parser line with
  | .error x => s.raise x
  | .ok none => s
  | .ok (some data) => onData run s data

/-- What `readline` comes back with: a line, the end of the stream, an exception, the timeout. -/
inductive Frame where
  | line (raw : String)
  | closed
  | refused (x : TurnError)
  | late

inductive Act where
  | frame (now : Time) (f : Frame)
  | publish (r : Except TurnError Unit)
  | poll (r : Poll)
  | send (now : Time) (r : Sent)
  | exit (r : Except TurnError (ℤ × String))

def onFrame (s : ClaudeTurn) (now : Time) (f : Frame) : Option ClaudeTurn :=
  if s.stopDeadline.any (· ≤ now) then some (s.raise stopUnconfirmed)
  else match f with
    | .line raw => some (onLine run (s.emit (.read (PyConv.stripText raw))) (PyConv.stripText raw))
    | .closed => some { s with phase := .closing }
    | .refused x => some (s.raise x)
    | .late => if s.stopDeadline.isSome then some (s.raise stopUnconfirmed) else none

def onPublished (s : ClaudeTurn) (q : McpRequest) (callId name : String) (arguments : Val PyFloat) :
    ClaudeTurn :=
  let s := { s.emit (.published q callId name arguments) with calls := s.calls + 1 }
  { s.emit (.yielded (.toolCall callId name (arguments.asDict.getD []))) with phase := .waiting q callId }

def onRefused (s : ClaudeTurn) (q : McpRequest) (callId name : String) (x : TurnError) : ClaudeTurn :=
  match x with
  | .invalidArguments label detail =>
    if run.argRetries ≤ s.rejected then s.raise x
    else { s.emit (.yielded (.toolResult callId false "[arguments rejected]")) with
      rejected := s.rejected + 1
      phase := .replying q (mcpReply (q.message.get "id") (toolText (rejectionText label detail name) true)) }
  | _ => s.raise x

def onPoll (s : ClaudeTurn) (q : McpRequest) (callId : String) : Poll → ClaudeTurn
  | .result r =>
    { (s.emit (.took callId r)).emit (.yielded (.toolResult callId r.success "[client tool result withheld]")) with
      terminal := r.terminal
      phase := .replying q (mcpReply (q.message.get "id") (toolText r.content (!r.success))) }
  | .pending => s
  | .stopped => s.conflict "Claude stopped while waiting for client tool"
  | .raised x => s.raise x

/-- A `send`: the event is what a written frame leaves in the history, `k` goes on. -/
def sending (s : ClaudeTurn) (e : TurnEvent claudeWire) (k : ClaudeTurn → ClaudeTurn) : Sent → ClaudeTurn
  | .ok => k (s.emit e)
  | .lost x => s.raise x
  | .broken x => (s.emit e).raise x

/-- After a reply was sent. -/
def afterReply (s : ClaudeTurn) (q : McpRequest) : ClaudeTurn :=
  match ClaudeParser.text run.parser q.requestId with
  | .error x => s.raise x
  | .ok id =>
    let s := { s with answeredIds := id :: s.answeredIds }
    if s.terminal = true ∧ s.stopDeadline = none then { s with phase := .interrupting } else s.loop

def onSend (s : ClaudeTurn) (now : Time) (r : Sent) : Option ClaudeTurn :=
  match s.phase with
  | .replying q reply => some (s.sending (.replied q reply) (fun s => afterReply run s q) r)
  | .interrupting =>
    some (s.sending .interrupted (fun s => { s.loop with stopDeadline := some (now + terminalStop) }) r)
  | .reminding data rest text => some (s.sending (.started text) (fun s => onItems run data s rest) r)
  | _ => none

/-- After the stream ended and the process was waited for. -/
def onExit (s : ClaudeTurn) : Except TurnError (ℤ × String) → ClaudeTurn
  | .error x => s.raise x
  | .ok (rc, stderr) =>
    match ClaudeParser.finish run.parser rc stderr with
    | .error x => s.emitUsage.raise x
    | .ok e => s.emitUsage.close e

/-- **One await of the loop.** -/
def step (s : ClaudeTurn) : Act → Option ClaudeTurn
  | .frame now f =>
    match s.phase with
    | .reading => onFrame run s now f
    | _ => none
  | .publish r =>
    match s.phase, r with
    | .publishing q callId name arguments, .ok () => some (s.onPublished q callId name arguments)
    | .publishing q callId name _, .error x => some (onRefused run s q callId name x)
    | _, _ => none
  | .poll r =>
    match s.phase with
    | .waiting q callId => some (s.onPoll q callId r)
    | _ => none
  | .send now r => onSend run s now r
  | .exit r =>
    match s.phase with
    | .closing => some (onExit run s r)
    | _ => none

end ClaudeTurn

end Broker.Agent
