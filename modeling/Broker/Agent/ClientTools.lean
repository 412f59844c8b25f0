import Broker.Agent.Rows
import Broker.Lib.JsonText

/-!
# Broker.Agent.ClientTools — the durable handoff of a client tool call

`publish_call`, `submit_result`, `take_result` and `clear_pending_call` each hold the queue row
`FOR UPDATE` from their read of `result_meta` to their commit, so each is one function of the row it
finds; one that raises leaves the row alone.  `callTool_effect` says once what any of them does to the
document: it publishes, accepts, delivers or withdraws the one call, or does nothing.
-/

namespace Broker.Agent

open Broker.Lib Broker.Db

/-- What the handoff uses of the settings, the hash and the tool contract. -/
structure ToolEnv where
  /-- Hex digest of the UTF-8 bytes. -/
  sha256 : String → String
  /-- `json.dumps(.., ensure_ascii=False, separators=(",", ":"))`. -/
  dumps : Json → String
  /-- The label of `validate_result` on the one call `(id, name, arguments)`. -/
  validateResult : List Json → Option Json → String → String → String → Option String
  schemaViolation : List Json → String → Json → String
  /-- `AGENT_TOOL_WAIT_S`. -/
  toolWait : Time

/-- `MAX_CALLS`. -/
def maxCalls : ℕ := 16

/-- `MAX_ARGUMENT_BYTES`. -/
def maxArgumentBytes : ℕ := 64 * 1024

/-- `MAX_RESULT_BYTES`. -/
def maxResultBytes : ℕ := 64 * 1024

/-- `AGENT_CAPABILITIES`. -/
def agentCapabilities : List String := ["agent:codex", "agent:claude"]

/-- The exceptions of the handoff. -/
inductive ToolError where
  | conflict (msg : String)
  | invalidArguments (label detail : String)
  | cancelled (msg : String)
  | valueError (msg : String)
  | lookupError (msg : String)
  | staleLease
  deriving DecidableEq, Repr

/-- The exception of a call `validate_result` labelled: only a broken argument schema may be retried. -/
def outsideSchema (label detail : String) : ToolError :=
  if label ≠ "InvalidToolArguments" then
    .conflict ("tool call is outside the declared schema [" ++ label ++ "]"
      ++ if detail = "" then "" else ": " ++ detail)
  else .invalidArguments label detail

/-- What a client submits for a call and the worker takes. -/
structure ToolResult where
  success : Bool
  content : String
  terminal : Bool := false
  deriving DecidableEq, Repr

/-! ### The digest -/

/-- The text `_digest` hashes: the terminal flag joins it only when set. -/
def digestBody (r : ToolResult) : String :=
  String.ofList ('[' :: ((if r.success then "true" else "false").toList ++ ", ".toList ++
    JsonText.quote r.content.toList ++ (if r.terminal then ", true]" else "]").toList))

/-- `_digest`. -/
def digest (te : ToolEnv) (r : ToolResult) : String := te.sha256 (digestBody r)

theorem digestBody_injective : Function.Injective digestBody := by
  rintro ⟨s, c, t⟩ ⟨s', c', t'⟩ h
  have h : _ = _ := String.ofList_injective h
  simp only [List.cons.injEq, true_and, List.append_assoc] at h
  obtain rfl : s = s' := by
    cases s <;> cases s' <;> first | rfl | exact absurd h (by simp)
  obtain ⟨hc, ht⟩ := JsonText.quote_append_inj (List.append_cancel_left (List.append_cancel_left h))
  obtain rfl : c = c' := String.toList_injective hc
  obtain rfl : t = t' := by
    cases t <;> cases t' <;> first | rfl | exact absurd ht (by simp)
  rfl

theorem digest_injective {te : ToolEnv} (hsha : Function.Injective te.sha256) :
    Function.Injective (digest te) :=
  hsha.comp digestBody_injective

/-! ### The four transactions -/

section Transactions

variable (te : ToolEnv) (now : Time)

/-- Expose a validated callback on a running job; `fencesOk` says that every lease of the call still
passes `check_fence`. -/
def publishCall (fencesOk : Bool) (run : AgentRunRow) (job : AgentJobRow) (callId name : String)
    (arguments : Json) : Except ToolError AgentJobRow :=
  let raw := te.dumps arguments
  let m := metaOf job
  let tools := job.request.clientJob.elim [] (·.tools)
  if callId.length < 1 ∨ 128 < callId.length then .error (.conflict "invalid call id")
  else if maxArgumentBytes < raw.utf8ByteSize then .error (.conflict "tool arguments exceed limit")
  else if fencesOk = false then .error .staleLease
  else if job.status ≠ .running ∨ job.capability ∉ agentCapabilities then
    .error (.conflict "job is not running")
  else if run.cancelRequested then .error (.conflict "job was cancelled")
  else match te.validateResult tools (job.request.clientJob.bind (·.toolChoice)) callId name raw with
    | some label =>
      .error (outsideSchema label (te.schemaViolation tools name arguments))
    | none =>
      if m.clientTool.isSome ∨ maxCalls ≤ m.history.length ∨ callId ∈ m.history.map (·.callId) then
        .error (.conflict "tool call already pending or limit reached")
      else .ok (setMeta job
        { m with clientTool := some ⟨callId, name, raw, now + te.toolWait, .waiting⟩ })

/-- Why a waiting call does not take a result. -/
def refusal (terminalTools : List String) (call : ClientCall) (r : ToolResult) : Option String :=
  if call.deadline ≤ now then some "tool call expired"
  else if r.terminal ∧ ¬ r.success then some "a failed tool result cannot be terminal output"
  else if r.terminal ∧ call.name ∉ terminalTools then
    some "terminal is allowed only for a declared terminal output tool"
  else none

/-- Commit a same-project result once; the flag is `false` for an identical retry. -/
def submitResult (run : AgentRunRow) (job : AgentJobRow) (projectId : ℕ) (callId : String)
    (r : ToolResult) : Except ToolError (AgentJobRow × Bool) :=
  let d := digest te r
  let m := metaOf job
  if maxResultBytes < r.content.utf8ByteSize then .error (.valueError "tool result exceeds limit")
  else if job.projectId ≠ projectId then .error (.lookupError "job not found")
  else if job.status ≠ .running ∨ job.capability ∉ agentCapabilities then
    .error (.conflict "job is not waiting for a client tool")
  else if run.cancelRequested then .error (.conflict "job was cancelled")
  else if ∃ item ∈ m.history, item.callId = callId ∧ item.digest = d then .ok (job, false)
  else match m.clientTool with
    | none => .error (.conflict "call id does not match the pending tool")
    | some call =>
      if call.callId ≠ callId then .error (.conflict "call id does not match the pending tool")
      else match call.state with
        | .ready _ _ d' _ =>
          if d' = d then .ok (job, false)
          else .error (.conflict "a different result was already submitted")
        | .waiting =>
          match refusal now (job.request.clientJob.elim [] (·.terminalTools)) call r with
          | some msg => .error (.conflict msg)
          | none => .ok (setMeta job { m with
              clientTool := some { call with state := .ready r.success r.content d r.terminal } }, true)

/-- The worker consumes a committed result and keeps only its digest; a waiting call is `none`.  The
deadline bounds the wait only: a committed result is delivered after it too. -/
def takeResult (fencesOk : Bool) (run : AgentRunRow) (job : AgentJobRow) (callId : String) :
    Except ToolError (AgentJobRow × Option ToolResult) :=
  let m := metaOf job
  if fencesOk = false then .error .staleLease
  else if job.status ≠ .running then .error (.conflict "job stopped while waiting for a tool")
  else if run.cancelRequested then .error (.cancelled "job was cancelled")
  else match m.clientTool with
    | none => .error (.conflict "pending tool changed")
    | some call =>
      if call.callId ≠ callId then .error (.conflict "pending tool changed")
      else match call.state with
        | .waiting =>
          if call.deadline ≤ now then .error (.conflict "tool call expired") else .ok (job, none)
        | .ready success content d terminal =>
          .ok (setMeta job { m with
            clientTool := none
            clientToolHistory := some (m.history ++ [⟨callId, d, terminal⟩]) },
            some ⟨success, content, terminal⟩)

/-- Withdraw a still-waiting call; a `ready` one was acknowledged and is kept. -/
def clearPendingCall (job : AgentJobRow) : AgentJobRow :=
  if job.status ≠ .running then job
  else match (metaOf job).clientTool with
    | some ⟨_, _, _, _, .waiting⟩ => setMeta job { metaOf job with clientTool := none }
    | _ => job

end Transactions

/-! ### What a transaction that returns did -/

section Returns

variable {te : ToolEnv} {now : Time} {fencesOk : Bool} {run : AgentRunRow} {job job' : AgentJobRow}
  {callId : String}

theorem publishCall_ok {name : String} {arguments : Json}
    (h : publishCall te now fencesOk run job callId name arguments = .ok job') :
    (metaOf job).clientTool = none ∧ (metaOf job).history.length < maxCalls ∧
      callId ∉ (metaOf job).history.map (·.callId) ∧
      job' = setMeta job { metaOf job with
        clientTool := some ⟨callId, name, te.dumps arguments, now + te.toolWait, .waiting⟩ } := by
  simp only [publishCall] at h
  split_ifs at h with _ _ _ _ _ hfree
  · split at h <;> cases h
  · split at h
    · cases h
    · simp only [not_or, not_le] at hfree
      obtain ⟨hnone, hlen, hid⟩ := hfree
      exact ⟨by simpa using hnone, hlen, hid, (Except.ok.inj h).symm⟩

/-- The digest of `r` is on record for `callId`, in the history or in the ready call. -/
def OnRecord (te : ToolEnv) (m : ResultMeta) (callId : String) (r : ToolResult) : Prop :=
  (∃ item ∈ m.history, item.callId = callId ∧ item.digest = digest te r) ∨
  ∃ call s c t, m.clientTool = some call ∧ call.callId = callId ∧
    call.state = .ready s c (digest te r) t

theorem submitResult_ok {projectId : ℕ} {r : ToolResult} {fresh : Bool}
    (h : submitResult te now run job projectId callId r = .ok (job', fresh)) :
    (fresh = false ∧ job' = job ∧ OnRecord te (metaOf job) callId r) ∨
    (fresh = true ∧ r.content.utf8ByteSize ≤ maxResultBytes ∧
      ∃ call, (metaOf job).clientTool = some call ∧ call.callId = callId ∧ call.state = .waiting ∧
      job' = setMeta job { metaOf job with
        clientTool := some { call with
          state := .ready r.success r.content (digest te r) r.terminal } }) := by
  simp only [submitResult] at h
  split_ifs at h with hsize _ _ _ hrec
  · obtain ⟨rfl, rfl⟩ := by simpa using h
    exact .inl ⟨rfl, rfl, .inl hrec⟩
  · split at h
    · cases h
    · rename_i call hcall
      split_ifs at h with hid
      split at h
      · rename_i s c d' t hst
        split_ifs at h with hd
        obtain ⟨rfl, rfl⟩ := by simpa using h
        exact .inl ⟨rfl, rfl, .inr ⟨call, s, c, t, hcall, not_not.mp hid, by rw [hst, hd]⟩⟩
      · rename_i hst
        split at h
        · cases h
        · obtain ⟨rfl, rfl⟩ := by simpa using h
          exact .inr ⟨rfl, not_lt.mp hsize, call, hcall, not_not.mp hid, hst, rfl⟩

theorem takeResult_ok {res : Option ToolResult}
    (h : takeResult now fencesOk run job callId = .ok (job', res)) :
    ∃ call, (metaOf job).clientTool = some call ∧ call.callId = callId ∧
      ((call.state = .waiting ∧ res = none ∧ job' = job) ∨
       ∃ s c d t, call.state = .ready s c d t ∧ res = some ⟨s, c, t⟩ ∧
        job' = setMeta job { metaOf job with
          clientTool := none
          clientToolHistory := some ((metaOf job).history ++ [⟨callId, d, t⟩]) }) := by
  simp only [takeResult] at h
  split_ifs at h
  split at h
  · cases h
  · rename_i call hcall
    by_cases hid : call.callId = callId
    · rw [if_neg (not_not.mpr hid)] at h
      refine ⟨call, hcall, hid, ?_⟩
      split at h
      · rename_i hst
        split_ifs at h
        obtain ⟨rfl, rfl⟩ := by simpa using h
        exact .inl ⟨hst, rfl, rfl⟩
      · rename_i s c d t hst
        obtain ⟨rfl, rfl⟩ := by simpa using h
        exact .inr ⟨s, c, d, t, hst, rfl, rfl⟩
    · rw [if_pos hid] at h
      cases h

theorem takeResult_running {res : Option ToolResult}
    (h : takeResult now fencesOk run job callId = .ok (job', res)) : job.status = .running := by
  by_contra hne
  simp only [takeResult, if_pos hne] at h
  split_ifs at h

theorem clearPendingCall_cases (job : AgentJobRow) :
    clearPendingCall job = job ∨
    ∃ call, (metaOf job).clientTool = some call ∧ call.state = .waiting ∧
      clearPendingCall job = setMeta job { metaOf job with clientTool := none } := by
  unfold clearPendingCall
  split_ifs
  · exact .inl rfl
  · split
    · rename_i hcall
      exact .inr ⟨_, hcall, rfl, rfl⟩
    · exact .inl rfl

end Returns

/-! ### The effect of a call -/

/-- A call of the handoff by the worker or by a client; `now` is the clock it reads. -/
inductive ToolOp where
  | publish (now : Time) (fencesOk : Bool) (callId name : String) (arguments : Json)
  | submit (now : Time) (projectId : ℕ) (callId : String) (r : ToolResult)
  | take (now : Time) (fencesOk : Bool) (callId : String)
  | clear

inductive ToolReply where
  | published
  | submitted (fresh : Bool)
  | taken (res : Option ToolResult)
  | cleared
  | raised (e : ToolError)
  deriving DecidableEq

section Run

variable (te : ToolEnv) (run : AgentRunRow)

/-- One transaction and its reply; an exception rolls it back. -/
def callTool (job : AgentJobRow) : ToolOp → AgentJobRow × ToolReply
  | .publish now ok callId name arguments =>
    match publishCall te now ok run job callId name arguments with
    | .ok job' => (job', .published)
    | .error e => (job, .raised e)
  | .submit now projectId callId r =>
    match submitResult te now run job projectId callId r with
    | .ok (job', fresh) => (job', .submitted fresh)
    | .error e => (job, .raised e)
  | .take now ok callId =>
    match takeResult now ok run job callId with
    | .ok (job', res) => (job', .taken res)
    | .error e => (job, .raised e)
  | .clear => (clearPendingCall job, .cleared)

end Run

/-- A `submit_result` that returned `True`. -/
def accepted : ToolOp × ToolReply → Option (String × ToolResult)
  | (.submit _ _ callId r, .submitted true) => some (callId, r)
  | _ => none

/-- A `take_result` that returned a result. -/
def delivered : ToolOp × ToolReply → Option (String × ToolResult)
  | (.take _ _ callId, .taken (some r)) => some (callId, r)
  | _ => none

/-- What a call does to the document, with the result it accepts and the result it delivers. -/
inductive ToolEffect (te : ToolEnv) (m : ResultMeta) :
    ResultMeta → Option (String × ToolResult) → Option (String × ToolResult) → Prop
  | quiet : ToolEffect te m m none none
  | publish (call : ClientCall) : m.clientTool = none → m.history.length < maxCalls →
      call.callId ∉ m.history.map (·.callId) → call.state = .waiting →
      ToolEffect te m { m with clientTool := some call } none none
  | accept (call : ClientCall) (r : ToolResult) : m.clientTool = some call → call.state = .waiting →
      r.content.utf8ByteSize ≤ maxResultBytes →
      ToolEffect te m { m with clientTool := some { call with
        state := .ready r.success r.content (digest te r) r.terminal } } (some (call.callId, r)) none
  | deliver (call : ClientCall) (r : ToolResult) (d : String) : m.clientTool = some call →
      call.state = .ready r.success r.content d r.terminal →
      ToolEffect te m { m with
        clientTool := none
        clientToolHistory := some (m.history ++ [⟨call.callId, d, r.terminal⟩]) }
        none (some (call.callId, r))
  | withdraw (call : ClientCall) : m.clientTool = some call → call.state = .waiting →
      ToolEffect te m { m with clientTool := none } none none

/-- A call changes nothing of the row but `result_meta`. -/
def SameJob (job job' : AgentJobRow) : Prop :=
  job'.status = job.status ∧ job'.capability = job.capability ∧ job'.projectId = job.projectId

theorem SameJob.refl (job : AgentJobRow) : SameJob job job := ⟨rfl, rfl, rfl⟩

theorem sameJob_setMeta (job : AgentJobRow) (m : ResultMeta) : SameJob job (setMeta job m) :=
  ⟨rfl, rfl, rfl⟩

theorem callTool_effect (te : ToolEnv) (run : AgentRunRow) (job : AgentJobRow) (op : ToolOp) :
    SameJob job (callTool te run job op).1 ∧
    ToolEffect te (metaOf job) (metaOf (callTool te run job op).1)
      (accepted (op, (callTool te run job op).2)) (delivered (op, (callTool te run job op).2)) := by
  cases op with
  | publish now ok callId name arguments =>
    cases h : publishCall te now ok run job callId name arguments with
    | error e =>
      simp only [callTool, h]
      exact ⟨.refl _, .quiet⟩
    | ok job' =>
      obtain ⟨hnone, hlen, hid, rfl⟩ := publishCall_ok h
      simp only [callTool, h]
      exact ⟨sameJob_setMeta _ _, .publish _ hnone hlen hid rfl⟩
  | submit now projectId callId r =>
    cases h : submitResult te now run job projectId callId r with
    | error e =>
      simp only [callTool, h]
      exact ⟨.refl _, .quiet⟩
    | ok x =>
      obtain ⟨job', fresh⟩ := x
      simp only [callTool, h]
      rcases submitResult_ok h with ⟨rfl, rfl, -⟩ | ⟨rfl, hsize, call, hcall, rfl, hst, rfl⟩
      · exact ⟨.refl _, .quiet⟩
      · exact ⟨sameJob_setMeta _ _, .accept call r hcall hst hsize⟩
  | take now ok callId =>
    cases h : takeResult now ok run job callId with
    | error e =>
      simp only [callTool, h]
      exact ⟨.refl _, .quiet⟩
    | ok x =>
      obtain ⟨job', res⟩ := x
      simp only [callTool, h]
      obtain ⟨call, hcall, rfl, hcase⟩ := takeResult_ok h
      rcases hcase with ⟨-, rfl, rfl⟩ | ⟨s, c, d, t, hst, rfl, rfl⟩
      · exact ⟨.refl _, .quiet⟩
      · exact ⟨sameJob_setMeta _ _, .deliver call ⟨s, c, t⟩ d hcall hst⟩
  | clear =>
    simp only [callTool]
    rcases clearPendingCall_cases job with h | ⟨call, hcall, hst, h⟩
    · rw [h]
      exact ⟨.refl _, .quiet⟩
    · rw [h]
      exact ⟨sameJob_setMeta _ _, .withdraw call hcall hst⟩

/-! ### A concrete job -/

/-- An environment whose hash is the real one on the text of `[true, "42"]`. -/
def ToolEnv.sample : ToolEnv where
  sha256 := fun s =>
    if s = "[true, \"42\"]" then "e6d52958fd9a82fc48740e498c48952d17ca8763632dfd85a9350a0bcce3f190"
    else "#" ++ s
  dumps := fun _ => "{}"
  validateResult := fun _ _ _ _ _ => none
  schemaViolation := fun _ _ _ => ""
  toolWait := seconds 300

/-- A running Claude job that declares no tools. -/
def AgentJobRow.sample : AgentJobRow where
  id := 1
  projectId := 1
  capability := "agent:claude"
  status := .running
  request := {}
  resultText := none
  resultMeta := none
  errorMessage := none
  retryCount := 0
  runAfter := none
  startedAt := some 0
  createdAt := 0
  completedAt := none
  cancelRequested := false
  priority := 1

def AgentRunRow.sample : AgentRunRow where
  runId := 1
  projectId := 1
  capability := .claude
  accountId := "main"

end Broker.Agent
