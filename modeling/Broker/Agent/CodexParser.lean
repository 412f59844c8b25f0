import Broker.Agent.ClaudeParser

/-!
# Broker.Agent.CodexParser — the events of a line of `codex exec`

`CodexParser` remembers the last message, whether the turn was completed and the last error; only
`finish` reports how the run ended.
-/

namespace Broker.Agent

open Broker.Lib

/-- The fields of a `CodexParser`, the logging apart. -/
structure CodexState where
  finalText : String := ""
  turnDone : Bool := false
  error : Option String := none
  calls : ℕ := 0

/-- What the parser needs besides. -/
structure CodexEnv extends ParserEnv where
  /-- `sandbox_failure`. -/
  sandboxFailure : String → Bool

namespace CodexParser

variable (P : CodexEnv)

/-- `str(v or default)`. -/
def textOr (v : Val PyFloat) (default : String) : Except TurnError String :=
  ClaudeParser.text P.toParserEnv (if v.truthy then v else .str default)

/-- `item.get("exit_code", 0) in (0, None) and item.get("status") != "failed"`. -/
def succeeded (item : Doc) : Bool :=
  let code := (OrderedDict.get item "exit_code").getD (.int 0)
  (code.isNumber 0 || code.isNull) && !(item.get "status").isText "failed"

/-- `kinds.get(kind, "modified")`; an unhashable kind raises. -/
def changeAction (kind : Val PyFloat) : Except TurnError FileAction :=
  match kind with
  | .str k => .ok (if k = "add" then .created else if k = "delete" then .deleted else .modified)
  | .arr _ | .obj _ => .error .uncaught
  | _ => .ok .modified

/-- One change of a `file_change`. -/
def onChange (change : Val PyFloat) : Except TurnError (List StreamEvent) :=
  match change with
  | .obj c =>
    if (Doc.get c "path").truthy then do
      let path ← ClaudeParser.text P.toParserEnv (Doc.get c "path")
      let action ← changeAction (Doc.get c "kind")
      return [.fileChanged path action]
    else .ok []
  | _ => .error .uncaught

/-- The name of a command or a tool. -/
def callName (item : Doc) (shell : Bool) : Except TurnError String :=
  if shell then .ok "shell" else textOr P (item.get "tool") "mcp"

/-- A command or a tool call. -/
def onCall (s : CodexState) (item : Doc) (shell : Bool) : Except TurnError (CodexState × List StreamEvent) := do
  let callId ← textOr P (item.get "id") ("call-" ++ toString (s.calls + 1))
  let name ← callName P item shell
  let inp : Doc := if shell then [("command", item.get "command")] else [("arguments", item.get "arguments")]
  let shown := item.get "aggregated_output"
  let out ← ClaudeParser.textOrEmpty P.toParserEnv (if shown.truthy then shown else item.get "result")
  let refused := !succeeded item && P.sandboxFailure out
  return ({ s with calls := s.calls + 1 },
    [.toolCall callId name inp, .toolResult callId (succeeded item) out] ++
      if refused then [.runFailed "sandbox_unavailable" (cut 500 out) none] else [])

/-- `_item`. -/
def onItem (s : CodexState) (item : Doc) : Except TurnError (CodexState × List StreamEvent) := do
  if (item.get "type").isText "agent_message" then
    let said ← ClaudeParser.textOrEmpty P.toParserEnv (item.get "text")
    return ({ s with finalText := said }, [.messageDelta said])
  else if (item.get "type").isText "command_execution" then onCall P s item true
  else if (item.get "type").isText "mcp_tool_call" then onCall P s item false
  else if (item.get "type").isText "file_change" then
    let changes ← ClaudeParser.blocksOf (item.get "changes")
    let events ← changes.mapM (onChange P)
    return (s, events.flatten)
  else return (s, [])

/-- `turn.completed`. -/
def onCompleted (s : CodexState) (data : Doc) : Except TurnError (CodexState × List StreamEvent) := do
  let u ← ClaudeParser.dict (data.get "usage")
  let input ← P.count (Doc.get u "input_tokens")
  let output ← P.count (Doc.get u "output_tokens")
  let total ← P.count (Doc.get u "total_tokens")
  let cacheRead ← P.count (Doc.get u "cached_input_tokens")
  let reasoning ← P.count (Doc.get u "reasoning_output_tokens")
  return ({ s with turnDone := true },
    [.usage { inputTokens := input, outputTokens := output, totalTokens := total, cacheReadTokens := cacheRead,
              reasoningTokens := reasoning, turns := some 1 }])

/-- `CodexParser.feed`, on the object of the line. -/
def feed (s : CodexState) (data : Option Doc) : Except TurnError (CodexState × List StreamEvent) :=
  match data with
  | none => .ok (s, [])
  | some data => do
    let kind := data.get "type"
    if kind.isText "thread.started" && (data.get "thread_id").truthy then
      let id ← ClaudeParser.text P.toParserEnv (data.get "thread_id")
      let events ← ClaudeParser.sessionAssigned P.toParserEnv id
      return (s, events)
    else if kind.isText "turn.completed" then onCompleted P s data
    else if kind.isText "turn.failed" then
      let failure ← ClaudeParser.dict (data.get "error")
      let msg ← textOr P (Doc.get failure "message") "turn failed"
      return ({ s with error := some msg }, [])
    else if kind.isText "error" then
      let msg ← textOr P (data.get "message") "error"
      return ({ s with error := some msg }, [])
    else if kind.isText "item.completed" then
      let item ← ClaudeParser.dict (data.get "item")
      onItem P s item
    else return (s, [])

/-- The message of a run that did not complete. -/
def failureMessage (s : CodexState) (returncode : ℤ) (stderrTail : String) : String :=
  if s.error.getD "" ≠ "" then s.error.getD ""
  else if PyConv.stripText stderrTail ≠ "" then PyConv.stripText stderrTail
  else "codex exited " ++ toString returncode ++ " without a finished turn"

/-- `CodexParser.finish`. -/
def finish (s : CodexState) (returncode : ℤ) (stderrTail : String) : Except TurnError StreamEvent :=
  if s.turnDone = true ∧ returncode = 0 ∧ s.error = none then .ok (.runCompleted s.finalText)
  else
    let msg := failureMessage s returncode stderrTail
    if P.sandboxFailure msg || P.sandboxFailure stderrTail then
      .ok (.runFailed "sandbox_unavailable" (cut 2000 msg) none)
    else do
      let reset ← P.parseResetAt msg
      return .runFailed (P.classifyFailure msg) (cut 2000 msg) reset

end CodexParser

end Broker.Agent
