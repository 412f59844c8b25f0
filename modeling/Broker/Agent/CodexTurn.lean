import Broker.Lib.Trans
import Broker.Agent.ToolTurn

/-!
# Broker.Agent.CodexTurn — a turn of the Codex App Server

The loop of `codex_app_server.run_tool_turn` after its handshake.  Each step is one await: a frame of the
server, the end of `publish_call`, one round of the wait for `take_result`, the end of a `send`.  The
server may send any object at any time.
-/

namespace Broker.Agent

open Broker.Lib Broker.Db

/-! ### Messages -/

/-- `_INTERRUPT`. -/
def interruptId : ℤ := 1000

/-- `_is_response`. -/
def isResponse (m : Doc) (expected : ℤ) : Bool := (m.get "id").isNumber expected && !m.has "method"

/-- `_reported_count`. -/
def reportedCount (usage : Doc) (name : String) : Option ℤ :=
  match usage.get name with
  | .int n => if 0 ≤ n then some n else none
  | _ => none

/-- A tool call the server asks for. -/
structure ToolRequest where
  id : Val PyFloat
  threadId : Val PyFloat
  turnId : Val PyFloat
  callId : String
  name : String
  /-- Absent where `params` has no such key. -/
  arguments : Option (Val PyFloat)

structure CallReply where
  text : String
  success : Bool

/-- `turn/start`, with its request id. -/
structure TurnStart where
  request : ℕ
  text : String

abbrev codexWire : Wire := ⟨Doc, TurnStart, ToolRequest, CallReply⟩

structure CodexRun extends TurnSpec where
  threadId : String
  threadId_ne : threadId ≠ ""

/-! ### The state -/

/-- Which await the loop stands at. -/
inductive CodexPhase where
  | reading
  | publishing (q : ToolRequest)
  | rejecting (q : ToolRequest) (text : String)
  | waiting (q : ToolRequest)
  | replying (q : ToolRequest) (r : ToolResult)
  | interrupting
  | reminding (text : String)
  | ended

/-- The request being handled. -/
def CodexPhase.request? : CodexPhase → Option ToolRequest
  | .publishing q | .rejecting q _ | .waiting q | .replying q _ => some q
  | _ => none

structure CodexTurn where
  phase : CodexPhase := .reading
  rejected : ℕ := 0
  remindersLeft : ℕ
  turnRequest : ℕ := 3
  oldTurnRequests : List ℕ := []
  finalText : String := ""
  calls : ℕ := 0
  turnId : Option String := none
  seenRequests : List HashKey := []
  seenCalls : List String := []
  threadUsage : Option Doc := none
  stopDeadline : Option Time := none
  interruptConfirmed : Bool := false
  log : List (TurnEvent codexWire)

namespace CodexTurn

/-- After the handshake: the first turn was asked for. -/
def start (run : CodexRun) : CodexTurn :=
  { remindersLeft := run.requiredReminders, log := [.started ⟨3, run.prompt⟩] }

def emit (s : CodexTurn) (e : TurnEvent codexWire) : CodexTurn := { s with log := s.log ++ [e] }

/-- The turn leaves its loop with an exception. -/
def raise (s : CodexTurn) (x : TurnError) : CodexTurn :=
  match x.handled with
  | some e => { s.emit (.yielded e) with phase := .ended }
  | none => { s with phase := .ended }

def conflict (s : CodexTurn) (msg : String) : CodexTurn := s.raise (.conflict msg)

variable (run : CodexRun)

/-! ### The messages of the server -/

/-- The reply to `turn/interrupt`. -/
def onInterruptResponse (s : CodexTurn) (m : Doc) : CodexTurn :=
  if s.stopDeadline = none ∨ m.has "result" = false ∨ m.has "error" = true then
    s.conflict "App Server refused the turn interrupt"
  else if s.interruptConfirmed then s.conflict "duplicate App Server interrupt confirmation"
  else { s.emit .confirmed with interruptConfirmed := true }

/-- `((message.get("result") or {}).get("turn") or {}).get("id")`; nothing where it raises. -/
def assignedTurn (m : Doc) : Option (Val PyFloat) :=
  (m.get "result").orDict.bind fun result => (Doc.get result "turn").orDict.map fun turn => Doc.get turn "id"

/-- The reply to the current `turn/start`. -/
def onTurnResponse (s : CodexTurn) (m : Doc) : CodexTurn :=
  if s.turnId.isSome then s.conflict "duplicate turn response"
  else if (m.get "error").truthy then s.conflict "App Server refused the turn"
  else match assignedTurn m with
    | none => s.raise .uncaught
    | some (.str t) =>
      if t = "" then s.conflict "App Server did not assign a turn" else { s with turnId := some t }
    | some _ => s.conflict "App Server did not assign a turn"

/-- `item/tool/call`, up to the call of `publish_call`. -/
def onToolCall (s : CodexTurn) (m : Doc) (params : Option Doc) : CodexTurn :=
  if s.stopDeadline.isSome then s.conflict "model requested another tool after terminal output"
  else if m.has "id" = false then s.conflict "invalid dynamic tool request identity"
  else match params with
    | none => s.raise .uncaught
    | some p =>
      if (p.get "threadId").isText run.threadId = false ∨ (p.get "turnId").isOptText s.turnId = false
          ∨ (p.get "namespace").isNull = false then
        s.conflict "invalid dynamic tool request identity"
      else match p.get "callId", p.get "tool" with
        | .str callId, .str name =>
          match (m.get "id").hashKey with
          | none => s.raise .uncaught
          | some key =>
            if key ∈ s.seenRequests ∨ callId ∈ s.seenCalls then s.conflict "duplicate dynamic tool call"
            else
              let q : ToolRequest :=
                ⟨m.get "id", p.get "threadId", p.get "turnId", callId, name, OrderedDict.get p "arguments"⟩
              { s.emit (.accepted q) with
                seenRequests := key :: s.seenRequests
                seenCalls := callId :: s.seenCalls
                phase := .publishing q }
        | _, _ => s.conflict "invalid dynamic tool call"

/-- `model/rerouted`. -/
def onRerouted (s : CodexTurn) (p : Doc) : CodexTurn :=
  if (p.get "threadId").isText run.threadId = false ∨ (p.get "turnId").isOptText s.turnId = false then
    s.conflict "invalid model reroute notification"
  else match p.get "fromModel", p.get "toModel" with
    | .str a, .str b => (s.emit (.yielded (.modelRerouted a b))).conflict "App Server reported a model reroute"
    | _, _ => s.conflict "invalid model reroute notification"

/-- `thread/tokenUsage/updated`. -/
def onTokenUsage (s : CodexTurn) (p : Doc) : CodexTurn :=
  if (p.get "threadId").isText run.threadId = false ∨ (p.get "turnId").isOptText s.turnId = false then
    s.conflict "usage notification has wrong turn identity"
  else match (p.get "tokenUsage").orDict with
    | none => s.raise .uncaught
    | some u =>
      match Doc.get u "total" with
      | .obj observed => { s with threadUsage := some observed }
      | _ => s

/-- `v not in (None, t)`. -/
def isForeign (v : Val PyFloat) (t : Option String) : Bool := !(v.isNull || v.isOptText t)

/-- `item/completed`. -/
def onItemCompleted (s : CodexTurn) (p : Doc) : CodexTurn :=
  if isForeign (p.get "threadId") (some run.threadId) = true ∨ isForeign (p.get "turnId") s.turnId = true then
    s.conflict "item notification has wrong turn identity"
  else match (p.get "item").orDict with
    | none => s.raise .uncaught
    | some item =>
      if (Doc.get item "type").isText "agentMessage" = true ∧ s.stopDeadline = none then
        let text := Doc.get item "text"
        match PyConv.toStr run.interp (if text.truthy then text else .str "") with
        | .ok t => { s with finalText := t }
        | .error _ => s.raise .uncaught
      else s

/-- The usage a finished turn reports. -/
def usageOf (u : Doc) : Usage where
  inputTokens := reportedCount u "inputTokens"
  outputTokens := reportedCount u "outputTokens"
  totalTokens := reportedCount u "totalTokens"
  cacheReadTokens := reportedCount u "cachedInputTokens"
  reasoningTokens := reportedCount u "reasoningOutputTokens"
  turns := some 1
  source := "codex_app_server"

def counted (u : Usage) : Bool :=
  u.inputTokens.isSome || u.outputTokens.isSome || u.totalTokens.isSome || u.cacheReadTokens.isSome
    || u.reasoningTokens.isSome

def emitUsage (s : CodexTurn) : CodexTurn :=
  match s.threadUsage with
  | none => s
  | some u => if counted (usageOf u) then s.emit (.yielded (.usage (usageOf u))) else s

def finish (s : CodexTurn) (text : String) : CodexTurn :=
  { s.emitUsage.emit (.yielded (.runCompleted text)) with phase := .ended }

/-- The next turn, before its `turn/start` is sent. -/
def remind (s : CodexTurn) : CodexTurn :=
  let s := { s with
    remindersLeft := s.remindersLeft - 1
    oldTurnRequests := s.turnRequest :: s.oldTurnRequests
    turnRequest := s.turnRequest + 1
    turnId := none }
  match reminderText run.toTurnSpec with
  | none => s.raise .uncaught
  | some text => { s with phase := .reminding text }

/-- What follows a completion of the current turn. -/
def afterCompletion (s : CodexTurn) : CodexTurn :=
  if s.stopDeadline.isSome then
    if s.interruptConfirmed then s.finish ""
    else s.conflict "terminal_stop_unconfirmed: App Server did not confirm the interrupt"
  else if s.calls = 0 ∧ run.toolRequired = true then
    if s.remindersLeft = 0 then s.conflict "required client tool was not called" else remind run s
  else s.finish s.finalText

/-- `turn/completed`. -/
def onTurnCompleted (s : CodexTurn) (m p : Doc) : CodexTurn :=
  if isForeign (p.get "threadId") (some run.threadId) then s.conflict "completion has wrong turn identity"
  else match (p.get "turn").orDict with
    | none => s.raise .uncaught
    | some turn =>
      let status := Doc.get turn "status"
      if (Doc.get turn "id").isOptText s.turnId = false then s.conflict "completion has wrong turn identity"
      else if status.isText "completed" = false ∧
        (s.stopDeadline = none ∨ status.isText "interrupted" = false) then
        s.conflict "App Server turn did not complete"
      else afterCompletion run (s.emit (.completed m))

/-- A notification that reads its `params`. -/
def onNotification (s : CodexTurn) (m : Doc) (method : Val PyFloat) (params : Option Doc) : CodexTurn :=
  let reading (k : Doc → CodexTurn) : CodexTurn := match params with
    | none => s.raise .uncaught
    | some p => k p
  if method.isText "model/rerouted" then reading (onRerouted run s)
  else if method.isText "thread/tokenUsage/updated" then reading (onTokenUsage run s)
  else if method.isText "item/completed" then reading (onItemCompleted run s)
  else if method.isText "turn/completed" then reading (onTurnCompleted run s m)
  else s

/-- One message. -/
def onMessage (s : CodexTurn) (m : Doc) : CodexTurn :=
  if isResponse m interruptId then s.onInterruptResponse m
  else if s.oldTurnRequests.any fun old => isResponse m old then s.conflict "duplicate turn response"
  else if isResponse m s.turnRequest then s.onTurnResponse m
  else
    let method := m.get "method"
    let params := (m.get "params").orDict
    if method.isText "item/tool/call" then onToolCall run s m params
    else if m.has "id" = true ∧ method.truthy = true then
      s.conflict "App Server requested an unapproved operation"
    else onNotification run s m method params

/-! ### The awaits -/

/-- What the read of a frame comes back with: an object, the end of the stream, a refused frame, the
timeout. -/
inductive Frame where
  | message (m : Doc)
  | closed
  | refused (msg : String)
  | late

inductive Act where
  | frame (now : Time) (f : Frame)
  | publish (r : Except TurnError Unit)
  | poll (r : Poll)
  | send (now : Time) (r : Sent)

def onFrame (s : CodexTurn) (now : Time) (f : Frame) : Option CodexTurn :=
  if s.stopDeadline.any (· ≤ now) then some (s.raise stopUnconfirmed)
  else match f with
    | .message m => some (onMessage run (s.emit (.read m)) m)
    | .closed => some (s.conflict "App Server closed before turn completion")
    | .refused msg => some (s.conflict msg)
    | .late => if s.stopDeadline.isSome then some (s.raise stopUnconfirmed) else none

/-- After `publish_call` accepted the call: `params["arguments"]` is read again. -/
def onPublished (s : CodexTurn) (q : ToolRequest) : CodexTurn :=
  let s := { s.emit (.published q q.callId q.name (q.arguments.getD .null)) with calls := s.calls + 1 }
  match q.arguments with
  | none => s.raise .uncaught
  | some v =>
    { s.emit (.yielded (.toolCall q.callId q.name (v.asDict.getD []))) with phase := .waiting q }

/-- After `publish_call` raised. -/
def onRefused (s : CodexTurn) (q : ToolRequest) (x : TurnError) : CodexTurn :=
  match x with
  | .invalidArguments label detail =>
    if run.argRetries ≤ s.rejected then s.raise x
    else { s with rejected := s.rejected + 1, phase := .rejecting q (rejectionText label detail q.name) }
  | _ => s.raise x

def onPoll (s : CodexTurn) (q : ToolRequest) : Poll → CodexTurn
  | .result r => { s.emit (.took q.callId r) with phase := .replying q r }
  | .pending => s
  | .stopped => s.conflict "App Server stopped while waiting for client tool"
  | .raised x => s.raise x

/-- A `send`: the event is what a written frame leaves in the history, `k` goes on. -/
def sending (s : CodexTurn) (e : TurnEvent codexWire) (k : CodexTurn → CodexTurn) : Sent → CodexTurn
  | .ok => k (s.emit e)
  | .lost x => s.raise x
  | .broken x => (s.emit e).raise x

/-- Back at the top of the loop. -/
def loop (s : CodexTurn) : CodexTurn := { s with phase := .reading }

def onSend (s : CodexTurn) (now : Time) (r : Sent) : Option CodexTurn :=
  match s.phase with
  | .rejecting q text =>
    some (s.sending (.replied q ⟨text, false⟩)
      (fun s => (s.emit (.yielded (.toolResult q.callId false "[arguments rejected]"))).loop) r)
  | .replying q res =>
    some (s.sending (.replied q ⟨res.content, res.success⟩)
      (fun s =>
        let s := s.emit (.yielded (.toolResult q.callId res.success "[client tool result withheld]"))
        if res.terminal then { s with phase := .interrupting } else s.loop) r)
  | .interrupting =>
    some (s.sending .interrupted (fun s => { s.loop with stopDeadline := some (now + terminalStop) }) r)
  | .reminding text => some (s.sending (.started ⟨s.turnRequest, text⟩) loop r)
  | _ => none

/-- **One await of the loop.** -/
def step (s : CodexTurn) : Act → Option CodexTurn
  | .frame now f =>
    match s.phase with
    | .reading => onFrame run s now f
    | _ => none
  | .publish r =>
    match s.phase, r with
    | .publishing q, .ok () => some (s.onPublished q)
    | .publishing q, .error x => some (onRefused run s q x)
    | _, _ => none
  | .poll r =>
    match s.phase with
    | .waiting q => some (s.onPoll q r)
    | _ => none
  | .send now r => s.onSend now r

/-! ### What a message does -/

/-- The message names a turn, if any: the server's own threads and turns only. -/
def OwnTurn (s : CodexTurn) (m : Doc) : Prop :=
  ∃ p turn, (m.get "params").orDict = some p ∧ (Doc.get p "turn").orDict = some turn ∧
    isForeign (Doc.get p "threadId") (some run.threadId) = false ∧
    (Doc.get turn "id").isOptText s.turnId = true

/-- **Everything a message can do**, given the state it is read in. -/
inductive Move (s : CodexTurn) (m : Doc) : CodexTurn → Prop
  | raised (x : TurnError) : Move s m (s.raise x)
  | noted (text : String) (usage : Option Doc) : Move s m { s with finalText := text, threadUsage := usage }
  | confirmed (hstop : s.stopDeadline.isSome = true) (hnew : s.interruptConfirmed = false) :
      Move s m { s.emit .confirmed with interruptConfirmed := true }
  | assigned (t : String) (hreply : isResponse m s.turnRequest = true) (hnone : s.turnId = none)
      (ht : assignedTurn m = some (.str t)) : Move s m { s with turnId := some t }
  | accepted (q : ToolRequest) (key : HashKey) (hstop : s.stopDeadline = none)
      (hthread : q.threadId = .str run.threadId) (hturn : q.turnId.isOptText s.turnId = true)
      (hkey : q.id.hashKey = some key) (hnew : key ∉ s.seenRequests) (hcall : q.callId ∉ s.seenCalls)
      (hmethod : m.get "method" = .str "item/tool/call")
      (hparams : ∃ p, (m.get "params").orDict = some p ∧ q.threadId = Doc.get p "threadId" ∧
        q.turnId = Doc.get p "turnId") :
      Move s m { s.emit (.accepted q) with
        seenRequests := key :: s.seenRequests
        seenCalls := q.callId :: s.seenCalls
        phase := .publishing q }
  | rerouted (a b : String) (x : TurnError) : Move s m ((s.emit (.yielded (.modelRerouted a b))).raise x)
  | completed (hmethod : m.get "method" = .str "turn/completed") (hturn : OwnTurn run s m) :
      Move s m (afterCompletion run (s.emit (.completed m)))

variable {run}

theorem Move.unchanged (s : CodexTurn) (m : Doc) : Move run s m s := .noted s.finalText s.threadUsage

theorem onInterruptResponse_move (s : CodexTurn) (m : Doc) : Move run s m (s.onInterruptResponse m) := by
  unfold onInterruptResponse
  split_ifs with h hc
  · exact .raised _
  · exact .raised _
  · rw [not_or] at h
    exact .confirmed (by simpa [Option.isSome_iff_ne_none] using h.1) (by simpa using hc)

theorem onTurnResponse_move (s : CodexTurn) (m : Doc) (hreply : isResponse m s.turnRequest = true) :
    Move run s m (s.onTurnResponse m) := by
  unfold onTurnResponse
  split_ifs with hsome herr
  · exact .raised _
  · exact .raised _
  · split
    · exact .raised _
    · rename_i t ht
      split_ifs
      · exact .raised _
      · exact .assigned t hreply (by simpa using hsome) ht
    · exact .raised _

theorem onToolCall_move (s : CodexTurn) (m : Doc) (hmethod : m.get "method" = .str "item/tool/call") :
    Move run s m (onToolCall run s m (m.get "params").orDict) := by
  unfold onToolCall
  split_ifs with hstop hid
  · exact .raised _
  · exact .raised _
  · split
    · exact .raised _
    · rename_i p hp
      split_ifs with hident
      · exact .raised _
      · split
        · rename_i callId name hcallId hname
          split
          · exact .raised _
          · rename_i key hkey
            split_ifs with hseen
            · exact .raised _
            · simp only [not_or, Bool.not_eq_false] at hident hseen
              obtain ⟨hthread, hturn, -⟩ := hident
              exact .accepted ⟨m.get "id", p.get "threadId", p.get "turnId", callId, name, _⟩ key (by simpa using hstop)
                (Val.isText_iff.mp hthread) hturn hkey hseen.1 hseen.2 hmethod ⟨p, hp, rfl, rfl⟩
        · exact .raised _

theorem onRerouted_move (s : CodexTurn) (m p : Doc) : Move run s m (onRerouted run s p) := by
  unfold onRerouted
  split_ifs
  · exact .raised _
  · split
    · exact .rerouted _ _ _
    · exact .raised _

theorem onTokenUsage_move (s : CodexTurn) (m p : Doc) : Move run s m (onTokenUsage run s p) := by
  unfold onTokenUsage
  split_ifs
  · exact .raised _
  · split
    · exact .raised _
    · split
      · exact .noted s.finalText _
      · exact .unchanged s m

theorem onItemCompleted_move (s : CodexTurn) (m p : Doc) : Move run s m (onItemCompleted run s p) := by
  unfold onItemCompleted
  split_ifs
  · exact .raised _
  · split
    · exact .raised _
    · split_ifs
      · simp only
        split
        · exact .noted _ s.threadUsage
        · exact .raised _
      · exact .unchanged s m

theorem onTurnCompleted_move (s : CodexTurn) (m p : Doc) (hmethod : m.get "method" = .str "turn/completed")
    (hp : (m.get "params").orDict = some p) : Move run s m (onTurnCompleted run s m p) := by
  unfold onTurnCompleted
  split_ifs with hthread
  · exact .raised _
  · split
    · exact .raised _
    · rename_i turn hturn
      simp only
      split_ifs with hid hstatus
      · exact .raised _
      · exact .raised _
      · exact .completed hmethod ⟨p, turn, hp, hturn, by simpa using hthread, by simpa using hid⟩

theorem onNotification_move (s : CodexTurn) (m : Doc) :
    Move run s m (onNotification run s m (m.get "method") (m.get "params").orDict) := by
  unfold onNotification
  cases hp : (m.get "params").orDict with
  | none =>
    simp only
    split_ifs
    · exact .raised _
    · exact .raised _
    · exact .raised _
    · exact .raised _
    · exact .unchanged s m
  | some p =>
    simp only
    split_ifs with _ _ _ hcompleted
    · exact onRerouted_move s m p
    · exact onTokenUsage_move s m p
    · exact onItemCompleted_move s m p
    · exact onTurnCompleted_move s m p (Val.isText_iff.mp hcompleted) hp
    · exact .unchanged s m

theorem onMessage_move (s : CodexTurn) (m : Doc) : Move run s m (onMessage run s m) := by
  unfold onMessage
  split_ifs with _ _ hreply
  · exact onInterruptResponse_move s m
  · exact .raised _
  · exact onTurnResponse_move s m hreply
  · simp only
    split_ifs with hcall
    · exact onToolCall_move s m (Val.isText_iff.mp hcall)
    · exact .raised _
    · exact onNotification_move s m

end CodexTurn

end Broker.Agent
