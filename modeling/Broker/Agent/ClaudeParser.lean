import Broker.Agent.ToolTurn

/-!
# Broker.Agent.ClaudeParser — the events of a line of the Claude CLI

`ClaudeParser.feed` reads one line of `--output-format stream-json`.  It returns the events of the line
or raises: a `ValueError` where a field does not fit its event, anything else where a value has not the
shape the code takes for granted.
-/

namespace Broker.Agent

open Broker.Lib

/-- What the parser needs of the validation of event fields, the regular expressions, the clock and the
paths. -/
structure ParserEnv where
  interp : PyConv.Interp
  /-- `repr(v)`. -/
  repr : Val PyFloat → Except TurnError String
  /-- A counter of `Usage`, as the field takes it. -/
  count : Val PyFloat → Except TurnError (Option ℤ)
  /-- The text of the `ValidationError` of an event. -/
  invalid : EventType → Val PyFloat → String
  /-- `classify_failure`. -/
  classifyFailure : String → String
  /-- `parse_reset_at`. -/
  parseResetAt : String → Except TurnError (Option String)
  /-- `_rel`. -/
  rel : String → String

namespace ClaudeParser

variable (P : ParserEnv)

/-- `_json` of a stripped line: its object, or nothing. -/
def json (line : String) : Except TurnError (Option Doc) :=
  if line.toList.head? = some '\x7b' then
    match JsonLoad.loads P.interp.room line with
    | .ok (.obj es) => .ok (some es)
    | .error .recursion => .error .uncaught
    | .ok _ | .error .decode | .error .fuel => .ok none
  else .ok none

/-- The characters of a line decide. -/
theorem json_stripText {line : String} {cs : List Char} {es : Doc} (hline : line = String.ofList cs)
    (hopen : (PyConv.strip cs).head? = some '\x7b')
    (h : JsonLoad.loadsChars P.interp.room (PyConv.strip cs) = .ok (.obj es)) :
    json P (PyConv.stripText line) = .ok (some es) := by
  have hstrip : PyConv.stripText line = String.ofList (PyConv.strip cs) := by
    rw [hline, PyConv.stripText, String.toList_ofList]
  rw [json, hstrip, JsonLoad.loads, String.toList_ofList, if_pos hopen, hopen, if_neg (by decide), h]

/-- `str(v)`. -/
def text (v : Val PyFloat) : Except TurnError String :=
  match PyConv.toStr P.interp v with
  | .ok t => .ok t
  | .error _ => .error .uncaught

/-- `str(v or "")`. -/
def textOrEmpty (v : Val PyFloat) : Except TurnError String := text P (if v.truthy then v else .str "")

/-- `_observed`. -/
def observed (model : Val PyFloat) (kind : EvidenceKind) (source : String) : List StreamEvent :=
  match model with
  | .str m =>
    if PyConv.stripText m = "" ∨ PyConv.stripText m = "<synthetic>" then []
    else [.modelObserved (cut 200 (PyConv.stripText m)) kind source]
  | _ => []

/-- The dictionary of `v or {}`, for `.get`. -/
def dict (v : Val PyFloat) : Except TurnError Doc :=
  match v.orDict with
  | some d => .ok d
  | none => .error .uncaught

/-- `BILLING_REFUSED`. -/
def billingRefused : String := "billing_mode_refused"

/-- `SessionAssigned`: an id of 1 to 128 characters. -/
def sessionAssigned (id : String) : Except TurnError (List StreamEvent) :=
  if 1 ≤ id.length ∧ id.length ≤ 128 then .ok [.sessionAssigned id]
  else .error (.valueError (P.invalid .sessionAssigned (.str id)))

def sessionOf (v : Val PyFloat) : Except TurnError (List StreamEvent) :=
  if v.truthy then do sessionAssigned P (← text P v) else .ok []

/-- `system` / `init`. -/
def onInit (data : Doc) : Except TurnError (List StreamEvent) := do
  let src := data.get "apiKeySource"
  if src.isNull || src.isText "none" then
    let session ← sessionOf P (data.get "session_id")
    return session ++ observed (data.get "model") .sessionInit "claude.system.init"
  else
    let shown ← P.repr src
    return [.runFailed billingRefused ("CLI reports apiKeySource=" ++ shown ++ ", not subscription") none]

/-- `_FILE_TOOLS`. -/
def fileTools (name : String) : Option FileAction :=
  if name = "Write" then some .created
  else if name = "Edit" ∨ name = "MultiEdit" ∨ name = "NotebookEdit" then some .modified
  else none

/-- The file a tool call changes; an unhashable name raises. -/
def fileChanged (name : Val PyFloat) (inp : Doc) : Except TurnError (List StreamEvent) :=
  match name with
  | .str n =>
    match fileTools n with
    | some action =>
      if (inp.get "file_path").truthy then do return [.fileChanged (P.rel (← text P (inp.get "file_path"))) action]
      else .ok []
    | none => .ok []
  | .arr _ | .obj _ => .error .uncaught
  | _ => .ok []

/-- One block of an assistant message. -/
def onBlock (block : Val PyFloat) : Except TurnError (List StreamEvent) := do
  match block with
  | .obj b =>
    if (Doc.get b "type").isText "text" && (Doc.get b "text").truthy then
      return [.messageDelta (← text P (Doc.get b "text"))]
    else if (Doc.get b "type").isText "tool_use" then
      let callId ← text P (Doc.get b "id")
      let name ← text P (Doc.get b "name")
      match (Doc.get b "input").orDict with
      | none => throw (.valueError (P.invalid .toolCall (Doc.get b "input")))
      | some inp => return .toolCall callId name inp :: (← fileChanged P (Doc.get b "name") inp)
    else return []
  | _ => throw .uncaught

/-- Whatever is no list raises at its first element, unless it is false. -/
def blocksOf (content : Val PyFloat) : Except TurnError (List (Val PyFloat)) :=
  match content with
  | .arr xs => .ok xs
  | v => if v.truthy then .error .uncaught else .ok []

def onAssistant (data : Doc) : Except TurnError (List StreamEvent) := do
  let message ← dict (data.get "message")
  let blocks ← blocksOf (Doc.get message "content")
  let events ← blocks.mapM (onBlock P)
  return observed (Doc.get message "model") .response "claude.assistant.message" ++ events.flatten

/-- `_text`. -/
def contentText (content : Val PyFloat) : Except TurnError String := do
  match content with
  | .arr xs =>
    let parts ← xs.mapM fun x => match x with
      | .obj b => text P ((OrderedDict.get b "text").getD (.str ""))
      | _ => pure ""
    return String.join parts
  | v => textOrEmpty P v

/-- A tool result of a `user` message; other blocks are skipped. -/
def onUserBlock (block : Val PyFloat) : Except TurnError (List StreamEvent) := do
  match block with
  | .obj b =>
    if (Doc.get b "type").isText "tool_result" then
      let callId ← text P (Doc.get b "tool_use_id")
      let output ← contentText P (Doc.get b "content")
      return [.toolResult callId (!(Doc.get b "is_error").truthy) output]
    else return []
  | _ => return []

/-- Texts and dictionaries iterate over texts, which are skipped; a number does not iterate. -/
def onUser (data : Doc) : Except TurnError (List StreamEvent) := do
  let message ← dict (data.get "message")
  match Doc.get message "content" with
  | .arr xs => return (← xs.mapM (onUserBlock P)).flatten
  | .str _ | .obj _ => return []
  | v => if v.truthy then throw .uncaught else return []

/-- The result is an error: `is_error`, or a subtype that starts so. -/
def isFailing (data : Doc) : Except TurnError Bool := do
  if (data.get "is_error").truthy then return true
  let subtype ← text P ((OrderedDict.get data "subtype").getD (.str "success"))
  return "error".toList.isPrefixOf subtype.toList

/-- `text or str(data.get("subtype"))`. -/
def failureText (answer : String) (subtype : Val PyFloat) : Except TurnError String :=
  if answer = "" then text P subtype else .ok answer

def onResult (data : Doc) : Except TurnError (List StreamEvent) := do
  let u ← dict (data.get "usage")
  let input ← P.count (Doc.get u "input_tokens")
  let output ← P.count (Doc.get u "output_tokens")
  let cacheRead ← P.count (Doc.get u "cache_read_input_tokens")
  let turns ← P.count (data.get "num_turns")
  let usage : StreamEvent :=
    .usage { inputTokens := input, outputTokens := output, cacheReadTokens := cacheRead, turns := turns }
  let answer ← textOrEmpty P (data.get "result")
  if ← isFailing P data then
    let msg ← failureText P answer (data.get "subtype")
    return [usage, .runFailed (P.classifyFailure msg) (cut 2000 msg) (← P.parseResetAt msg)]
  else return [usage, .runCompleted answer]

/-- `ClaudeParser.feed`, on the object of the line. -/
def feed (data : Option Doc) : Except TurnError (List StreamEvent) :=
  match data with
  | none => .ok []
  | some data =>
    let kind := data.get "type"
    if kind.isText "system" && (data.get "subtype").isText "init" then onInit P data
    else if kind.isText "assistant" then onAssistant P data
    else if kind.isText "user" then onUser P data
    else if kind.isText "result" then onResult P data
    else .ok []

/-- `ClaudeParser.finish`. -/
def finish (returncode : ℤ) (stderrTail : String) : Except TurnError StreamEvent := do
  let msg := if PyConv.stripText stderrTail = "" then
      "claude exited " ++ toString returncode ++ " without a result"
    else PyConv.stripText stderrTail
  return .runFailed (P.classifyFailure msg) (cut 2000 msg) (← P.parseResetAt msg)

/-! ### Which lines end a turn -/

/-- What an event says of the line it comes from. -/
def Ending (data : Doc) : StreamEvent → Prop
  | .runCompleted _ => (data.get "type").isText "result" = true ∧ isFailing P data = .ok false
  | .runFailed _ _ _ => (data.get "type").isText "result" = true → isFailing P data = .ok true
  | .runCancelled => False
  | _ => True

/-- The events that end no turn. -/
def Plain : StreamEvent → Prop
  | .runCompleted _ | .runFailed _ _ _ | .runCancelled => False
  | _ => True

/-- The events that neither end a turn nor say what it spent. -/
def Spoken : StreamEvent → Prop
  | .usage _ => False
  | item => Plain item

variable {P} {data : Doc} {items : List StreamEvent}

theorem Spoken.plain {item : StreamEvent} (h : Spoken item) : Plain item := by
  cases item with
  | usage u => exact h.elim
  | _ => exact h

theorem Plain.ending {item : StreamEvent} (h : Plain item) : Ending P data item := by
  cases item with
  | runCompleted _ | runFailed _ _ _ | runCancelled => exact h.elim
  | _ => trivial

theorem ok_of_bind {α β : Type} {x : Except TurnError α} {f : α → Except TurnError β} {b : β}
    (h : (x >>= f) = .ok b) : ∃ a, x = .ok a ∧ f a = .ok b := by
  cases x with
  | error e => cases h
  | ok a => exact ⟨a, rfl, h⟩

theorem forall_of_mapM {α β : Type} {f : α → Except TurnError (List β)} {Q : β → Prop}
    (hf : ∀ x ys, f x = .ok ys → ∀ y ∈ ys, Q y) :
    ∀ {xs : List α} {yss : List (List β)}, xs.mapM f = .ok yss → ∀ y ∈ yss.flatten, Q y
  | [], yss, h => by
    obtain rfl : [] = yss := Except.ok.inj h
    simp
  | x :: xs, yss, h => by
    rw [List.mapM_cons] at h
    obtain ⟨ys, hys, h⟩ := ok_of_bind h
    obtain ⟨zss, hzss, h⟩ := ok_of_bind h
    obtain rfl : ys :: zss = yss := Except.ok.inj h
    intro y hy
    rcases List.mem_append.mp (by simpa using hy : y ∈ ys ++ zss.flatten) with hy | hy
    · exact hf x ys hys y hy
    · exact forall_of_mapM hf hzss y hy

theorem spoken_observed (model : Val PyFloat) (kind : EvidenceKind) (source : String) :
    ∀ item ∈ observed model kind source, Spoken item := by
  intro item hitem
  unfold observed at hitem
  split at hitem
  · split_ifs at hitem
    · cases hitem
    · rw [List.mem_singleton.mp hitem]
      trivial
  · cases hitem

theorem spoken_fileChanged {name : Val PyFloat} {inp : Doc} (h : fileChanged P name inp = .ok items) :
    ∀ item ∈ items, Spoken item := by
  unfold fileChanged at h
  split at h
  · split at h
    · split_ifs at h
      · obtain ⟨path, -, h⟩ := ok_of_bind h
        obtain rfl := Except.ok.inj h
        simp [Spoken, Plain]
      · obtain rfl := Except.ok.inj h
        simp
    · obtain rfl := Except.ok.inj h
      simp
  · cases h
  · cases h
  · obtain rfl := Except.ok.inj h
    simp

theorem spoken_onBlock (block : Val PyFloat) (items : List StreamEvent) (h : onBlock P block = .ok items) :
    ∀ item ∈ items, Spoken item := by
  unfold onBlock at h
  split at h
  · split_ifs at h
    · obtain ⟨t, -, h⟩ := ok_of_bind h
      obtain rfl := Except.ok.inj h
      simp [Spoken, Plain]
    · obtain ⟨callId, -, h⟩ := ok_of_bind h
      obtain ⟨name, -, h⟩ := ok_of_bind h
      split at h
      · cases h
      · obtain ⟨files, hfiles, h⟩ := ok_of_bind h
        obtain rfl := Except.ok.inj h
        intro item hitem
        rcases List.mem_cons.mp hitem with rfl | hitem
        · trivial
        · exact spoken_fileChanged hfiles item hitem
    · obtain rfl := Except.ok.inj h
      simp
  · cases h

theorem spoken_onAssistant (h : onAssistant P data = .ok items) : ∀ item ∈ items, Spoken item := by
  obtain ⟨message, -, h⟩ := ok_of_bind h
  obtain ⟨blocks, -, h⟩ := ok_of_bind h
  obtain ⟨events, hevents, h⟩ := ok_of_bind h
  obtain rfl := Except.ok.inj h
  intro item hitem
  rcases List.mem_append.mp hitem with hitem | hitem
  · exact spoken_observed _ _ _ item hitem
  · exact forall_of_mapM spoken_onBlock hevents item hitem

theorem spoken_onUserBlock (block : Val PyFloat) (items : List StreamEvent)
    (h : onUserBlock P block = .ok items) :
    ∀ item ∈ items, Spoken item := by
  unfold onUserBlock at h
  split at h
  · split_ifs at h
    · obtain ⟨callId, -, h⟩ := ok_of_bind h
      obtain ⟨output, -, h⟩ := ok_of_bind h
      obtain rfl := Except.ok.inj h
      simp [Spoken, Plain]
    · obtain rfl := Except.ok.inj h
      simp
  · obtain rfl := Except.ok.inj h
    simp

theorem spoken_onUser (h : onUser P data = .ok items) : ∀ item ∈ items, Spoken item := by
  obtain ⟨message, -, h⟩ := ok_of_bind h
  split at h
  · obtain ⟨events, hevents, h⟩ := ok_of_bind h
    obtain rfl := Except.ok.inj h
    exact forall_of_mapM spoken_onUserBlock hevents
  · obtain rfl := Except.ok.inj h
    simp
  · obtain rfl := Except.ok.inj h
    simp
  · split_ifs at h
    obtain rfl := Except.ok.inj h
    simp

theorem spoken_sessionOf {v : Val PyFloat} (h : sessionOf P v = .ok items) : ∀ item ∈ items, Spoken item := by
  unfold sessionOf at h
  split_ifs at h
  · obtain ⟨id, -, h⟩ := ok_of_bind h
    unfold sessionAssigned at h
    split_ifs at h
    obtain rfl := Except.ok.inj h
    simp [Spoken, Plain]
  · obtain rfl := Except.ok.inj h
    simp

theorem ending_onInit (hkind : (data.get "type").isText "result" = false) (h : onInit P data = .ok items) :
    ∀ item ∈ items, Ending P data item := by
  unfold onInit at h
  simp only at h
  split_ifs at h with hsrc
  · obtain ⟨session, hs, h⟩ := ok_of_bind h
    obtain rfl := Except.ok.inj h
    intro item hitem
    rcases List.mem_append.mp hitem with hitem | hitem
    · exact (spoken_sessionOf hs item hitem).plain.ending
    · exact (spoken_observed _ _ _ item hitem).plain.ending
  · obtain ⟨shown, -, h⟩ := ok_of_bind h
    obtain rfl := Except.ok.inj h
    intro item hitem
    rw [List.mem_singleton.mp hitem]
    intro hresult
    rw [hkind] at hresult
    cases hresult

theorem ending_onResult (hkind : (data.get "type").isText "result" = true) (h : onResult P data = .ok items) :
    ∀ item ∈ items, Ending P data item := by
  unfold onResult at h
  obtain ⟨u, -, h⟩ := ok_of_bind h
  obtain ⟨input, -, h⟩ := ok_of_bind h
  obtain ⟨output, -, h⟩ := ok_of_bind h
  obtain ⟨cacheRead, -, h⟩ := ok_of_bind h
  obtain ⟨turns, -, h⟩ := ok_of_bind h
  obtain ⟨answer, -, h⟩ := ok_of_bind h
  obtain ⟨failing, hfailing, h⟩ := ok_of_bind h
  cases failing with
  | true =>
    simp only [if_true] at h
    obtain ⟨msg, -, h⟩ := ok_of_bind h
    obtain ⟨reset, -, h⟩ := ok_of_bind h
    obtain rfl := Except.ok.inj h
    simp [Ending, hfailing]
  | false =>
    obtain rfl := Except.ok.inj h
    simp [Ending, hfailing, hkind]

/-- **Only a `result` completes a turn, and only one that is no error.** -/
theorem ending_feed (h : feed P (some data) = .ok items) : ∀ item ∈ items, Ending P data item := by
  unfold feed at h
  simp only at h
  split_ifs at h with hinit hassistant huser hresult
  · refine ending_onInit ?_ h
    rw [Bool.and_eq_true] at hinit
    rw [Val.isText_iff.mp hinit.1]
    decide
  · exact fun item hitem => (spoken_onAssistant h item hitem).plain.ending
  · exact fun item hitem => (spoken_onUser h item hitem).plain.ending
  · exact ending_onResult hresult h
  · obtain rfl := Except.ok.inj h
    simp

end ClaudeParser

end Broker.Agent
