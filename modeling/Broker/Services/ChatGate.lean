import Broker.Agent.SubscriptionJob
import Broker.Services.Attempt

/-!
# Broker.Services.ChatGate — the quality gate of a chat attempt

An answer is rejected when it breaks the tool contract of its request, when it is empty and the provider
is not trusted with empty answers, and when it fails the structured-output check.  What the gate lets
through for a JSON request passes that check (`chatGate_none`), and a rejection always sends the walk to
another provider.
-/

namespace Broker.Services

open Broker.Lib Broker.Routing Broker.Agent

/-! ### The tool contract -/

/-- A declared function. -/
structure ToolDecl where
  name : String
  parameters : Val PyFloat

/-- `tool_choice`: a text, or an object that names a function. -/
inductive ToolChoice where
  | text (s : String)
  | function (name : String)
  deriving DecidableEq, Repr

/-- An answer: its text and the fields of its `meta` the gate reads. -/
structure ChatAnswer where
  text : String
  finishReason : Option String := none
  refusal : Val PyFloat := .null
  toolCalls : Val PyFloat := .null

/-- `not text.strip()`. -/
def isBlankText (text : String) : Bool := text.toList.all PyConv.isStripped

/-- `schemas.get(name)`: the last declaration of a name counts. -/
def schemaOfTool (tools : List ToolDecl) (name : String) : Option (Val PyFloat) :=
  (tools.reverse.find? fun t => t.name = name).map ToolDecl.parameters

section Gate

variable (lib : SchemaLib) (room : ℕ) (tools : List ToolDecl) (choice : Option ToolChoice)

/-- The arguments of a call to a declared function. -/
def argumentsProblem (schema : Val PyFloat) (arguments : Val PyFloat) : Option String :=
  match arguments with
  | .str text =>
    match JsonLoad.loadsStrict room text with
    | .ok value => if lib.accepts schema value then none else some "InvalidToolArguments"
    | .error _ => some "InvalidToolArguments"
  | _ => some "InvalidToolArguments"

/-- The function a call names, and its arguments; a missing key raises inside the `try`. -/
def functionProblem (function : Val PyFloat) : Option String :=
  match function.item "name" with
  | some (.str name) =>
    match schemaOfTool tools name with
    | none => some "UnknownToolCall"
    | some schema =>
      if (match choice with | some (.function chosen) => decide (name ≠ chosen) | _ => false) then
        some "UnexpectedToolCall"
      else match function.item "arguments" with
        | some arguments => argumentsProblem lib room schema arguments
        | none => some "InvalidToolArguments"
  -- a name that has no hash cannot be looked up, any other is unknown
  | some v => if v.hashKey.isSome then some "UnknownToolCall" else some "InvalidToolArguments"
  | none => some "InvalidToolArguments"

/-- The loop of `validate_result` over the calls; `seen` are the ids before. -/
def callsProblem (seen : List String) : List (Val PyFloat) → Option String
  | [] => none
  | call :: rest =>
    if ((call.getField "type").isText "function") = false then some "InvalidToolCall"
    else match call.item "id" with
      | some (.str id) =>
        if id = "" ∨ id ∈ seen then some "InvalidToolCall"
        else match call.item "function" with
          | some function =>
            match functionProblem lib room tools choice function with
            | some failure => some failure
            | none => callsProblem (id :: seen) rest
          | none => some "InvalidToolArguments"
      | some _ => some "InvalidToolCall"
      | none => some "InvalidToolArguments"

/-- `validate_result`. -/
def validateResult (a : ChatAnswer) : Option String :=
  if a.refusal.truthy ∨ a.finishReason = some "content_filter" then some "ToolRefusal"
  else if a.finishReason ≠ some "stop" ∧ a.finishReason ≠ some "tool_calls" then some "IncompleteToolResponse"
  else if a.toolCalls.truthy = false then
    if choice = some (.text "required") ∨ (match choice with | some (.function _) => true | _ => false) = true
        ∨ a.finishReason = some "tool_calls" then some "MissingToolCall"
    else if isBlankText a.text then some "EmptyBody" else none
  else match a.toolCalls with
    | .arr calls =>
      if choice = some (.text "none") ∨ 16 < calls.length then some "InvalidToolCall"
      else if a.finishReason ≠ some "tool_calls" then some "IncompleteToolResponse"
      else callsProblem lib room tools choice [] calls
    | _ => some "InvalidToolCall"

/-! ### The gate -/

variable {φ : Type} (repr : φ → List Char) (responseFormat : Val φ)

/-- The structured-output part of `_chat_gate`: empty and malformed answers are told apart. -/
def jsonRejection (a : ChatAnswer) : Except OutputError (Option Rejection) :=
  if wantsJson responseFormat then
    (outputProblem lib room repr a.text responseFormat).map fun problem => problem.map fun _ =>
      { errorKind := if isBlankText a.text then "EmptyBody" else "InvalidJSON", flow := .nextProvider }
  else .ok none

/-- `_chat_gate`, for a provider whose spec has `empty_is_failure` as given. -/
def chatGate (emptyIsFailure : Bool) (a : ChatAnswer) : Except OutputError (Option Rejection) :=
  match (if tools = [] then none else validateResult lib room tools choice a) with
  | some failure => .ok (some { errorKind := failure, flow := .nextProvider, httpStatus := 502 })
  | none =>
    if emptyIsFailure && isBlankText a.text then
      .ok (some { errorKind := "EmptyBody", flow := .nextProvider, httpStatus := 502, bill := false })
    else jsonRejection lib room repr responseFormat a

end Gate

section Laws

variable {lib : SchemaLib} {room : ℕ} {tools : List ToolDecl} {choice : Option ToolChoice} {φ : Type}
  {repr : φ → List Char} {rf : Val φ} {emptyIsFailure : Bool} {a : ChatAnswer}

/-- **What the gate lets through passes the structured-output check.** -/
theorem chatGate_none (h : chatGate lib room tools choice repr rf emptyIsFailure a = .ok none)
    (hjson : wantsJson rf = true) : outputProblem lib room repr a.text rf = .ok none := by
  unfold chatGate at h
  split at h
  · cases h
  · split_ifs at h
    · cases h
    · unfold jsonRejection at h
      rw [if_pos hjson] at h
      cases hp : outputProblem lib room repr a.text rf with
      | error e =>
        rw [hp] at h
        cases h
      | ok problem =>
        rw [hp] at h
        cases problem with
        | none => rfl
        | some why => cases h

theorem chatGate_flow {rej : Rejection}
    (h : chatGate lib room tools choice repr rf emptyIsFailure a = .ok (some rej)) :
    rej.flow = .nextProvider := by
  unfold chatGate at h
  split at h
  · obtain rfl := Option.some.inj (Except.ok.inj h)
    rfl
  · split_ifs at h
    · obtain rfl := Option.some.inj (Except.ok.inj h)
      rfl
    · unfold jsonRejection at h
      by_cases hjson : wantsJson rf = true
      · rw [if_pos hjson] at h
        cases hp : outputProblem lib room repr a.text rf with
        | error e =>
          rw [hp] at h
          cases h
        | ok problem =>
          rw [hp] at h
          cases problem with
          | none => cases h
          | some why =>
            obtain rfl := Option.some.inj (Except.ok.inj h)
            rfl
      · rw [if_neg hjson] at h
        cases h

end Laws

end Broker.Services
