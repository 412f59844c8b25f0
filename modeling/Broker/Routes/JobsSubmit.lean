import Broker.Lib.PyConv
import Broker.Providers.Subscriptions
import Broker.Services.PayloadHash

/-!
# Broker.Routes.JobsSubmit — `POST /v1/jobs` with an Idempotency-Key

The route hashes the client's payload for its own lookup of the key (`_client_request`) and `submit_job_ex`
hashes the request it stores; the two dictionaries are built apart from each other.  For a body of the
plain path they are one (`clientRequest_eq`), so a retry meets the row its first submission left with its
own hash on it, until `purge_finished_jobs` deletes that row.
-/

namespace Broker.Routes

open Broker.Lib Broker.Db Broker.Services Broker.Providers

/-! ### The body -/

/-- A declared tool: the name the validators read, and what `model_dump(exclude_none=True)` writes. -/
structure ToolDefinition where
  name : String
  dump : Json

/-- The payload of a `ChatRequest`; a message is what `model_dump(exclude_unset=True)` writes. -/
structure ChatBody where
  messages : List Json
  model : Option String := none
  maxTokens : ℤ := 1024
  temperature : ℚ
  responseFormat : Option (List (String × Json)) := none
  workflow : Option String := none
  tools : Option (List ToolDefinition) := none
  toolChoice : Option Json := none
  terminalTools : Option (List String) := none
  noShell : Bool := false

/-- A submission: the body, its place, and what never enters the hash. -/
structure Submission where
  projectId : ℕ
  capability : String
  body : ChatBody
  idempotencyKey : Option String := none
  traceId : Option String := none
  labels : Option (List (String × String)) := none
  priority : ℕ := 1

namespace ChatBody

/-- `self.tools or []`. -/
def declared (b : ChatBody) : List ToolDefinition := b.tools.getD []

/-- `subscription_model`. -/
def subscriptionModel (specs : List ModelSpec) (model : Option String) : Option ModelSpec :=
  model.bind fun m => specs.find? fun spec => spec.id = m

/-- `tool_model_provider`: a native model names its provider before the first slash. -/
def toolModelProvider (providers : List String) : Option String → Except String (Option String)
  | none => .ok none
  | some model =>
    let provider := String.ofList (model.toList.takeWhile (· ≠ '/'))
    let name := (model.toList.dropWhile (· ≠ '/')).drop 1
    if !model.toList.contains '/' || !providers.contains provider || PyConv.strip name = [] then
      .error "native tool model must be qualified by an enabled provider"
    else .ok (some provider)

/-- The function a `tool_choice` document selects. -/
def selected (choice : List (String × Json)) : Option String :=
  match OrderedDict.get choice "type", OrderedDict.get choice "function" with
  | some (.str "function"), some (.obj function) =>
    match OrderedDict.get function "name" with
    | some (.str name) => some name
    | _ => none
  | _, _ => none

/-- `validate_choice`. -/
def validateChoice (names : List String) (choice : Option Json) : Except String Unit :=
  if ¬names.Nodup then .error "duplicate tool names"
  else match choice with
    | none => .ok ()
    | some (.str s) =>
      if ["auto", "none", "required"].contains s then .ok ()
      else .error "tool_choice must select a declared function"
    | some (.obj choice) =>
      match selected choice with
      | some name =>
        if names.contains name then .ok () else .error "tool_choice must select a declared function"
      | none => .error "tool_choice must select a declared function"
    | some _ => .error "tool_choice must select a declared function"

/-- What `valid_tools` asks of the tools and the choice among them. -/
def checkTools (specs : List ModelSpec) (providers : List String) (b : ChatBody) : Except String Unit :=
  if b.declared = [] then
    if b.toolChoice.isSome then .error "tool_choice requires tools" else .ok ()
  else do
    if (subscriptionModel specs b.model).isNone then
      let _ ← toolModelProvider providers b.model
    if b.responseFormat.getD [] ≠ [] then .error "tools and response_format are mutually exclusive"
    validateChoice (b.declared.map ToolDefinition.name) b.toolChoice

/-- What it asks of `terminal_tools`. -/
def checkTerminal (specs : List ModelSpec) (b : ChatBody) : Except String Unit :=
  match b.terminalTools with
  | none => .ok ()
  | some names =>
    if b.declared = [] ∨ (subscriptionModel specs b.model).isNone ∨ ¬names.Nodup ∨
        ¬∀ n ∈ names, n ∈ b.declared.map ToolDefinition.name then
      .error "terminal_tools must name declared tools of a subscription job"
    else .ok ()

/-- `valid_tools`, up to the walk over the messages. -/
def validTools (specs : List ModelSpec) (providers : List String) (b : ChatBody) : Except String Unit := do
  checkTools specs providers b
  checkTerminal specs b

end ChatBody

/-! ### The two requests -/

/-- `response_format` as it is stored. -/
def ChatBody.format (b : ChatBody) : Option Json := b.responseFormat.map .obj

namespace Submission

/-- The tools both requests hold. -/
def toolEntries (b : ChatBody) : List (String × Json) :=
  [("tools", .arr (b.declared.map ToolDefinition.dump)), ("tool_choice", optJson id b.toolChoice)]

/-- `_client_request`. -/
def clientRequest (q : Submission) : List (String × Json) :=
  let b := q.body
  let terminal := if b.terminalTools.getD [] = [] then []
    else [("terminal_tools", Json.arr ((b.terminalTools.getD []).map .str))]
  buildRequest
    { projectId := q.projectId
      capability := q.capability
      messages := b.messages
      model := b.model
      maxTokens := b.maxTokens
      temperature := b.temperature
      responseFormat := b.format
      workflow := b.workflow
      extra := (if b.declared = [] then [] else toolEntries b ++ terminal) ++
        (if b.noShell then [("no_shell", .bool true)] else []) }

/-- What the plain path hands to `submit_job_ex`. -/
def args (q : Submission) : SubmitArgs where
  projectId := q.projectId
  capability := q.capability
  messages := q.body.messages
  model := q.body.model
  maxTokens := q.body.maxTokens
  temperature := q.body.temperature
  responseFormat := q.body.format
  workflow := q.body.workflow
  extra := if q.body.declared = [] then [] else toolEntries q.body
  traceId := q.traceId
  labels := q.labels
  idempotencyKey := q.idempotencyKey
  priority := q.priority

end Submission

/-! ### The route -/

/-- `client_hash`. -/
def Submission.clientHash (E : HashEnv) (q : Submission) : Option String :=
  if q.idempotencyKey.getD "" = "" then none
  else some (payloadHash E q.projectId q.capability q.clientRequest)

/-- `known_job_id`. -/
def knownJobId (cols : List KeyCols) (projectId : ℕ) : Option String → Option String → Option SubmitResult
  | some key, some phash => if key = "" then none else replayedJobId cols (some (projectId, key)) phash
  | _, _ => none

/-- How the route goes on: an error, the answer to a known key, or a job to submit. -/
inductive PlainRoute where
  | badRequest (detail : String)
  | replay (jobId : ℕ)
  | keyConflict (jobId : ℕ)
  | submit (args : SubmitArgs)

/-- `jobs_submit` on the plain path, from the hash to the lookup of the key; the checks of the caller come
before, those of the pin and the budget behind it. -/
def jobsSubmit (E : HashEnv) (specs : List ModelSpec) (cols : List KeyCols) (q : Submission) : PlainRoute :=
  if q.body.noShell ∧ (ChatBody.subscriptionModel specs q.body.model).isNone then
    .badRequest "unsupported_for_subscription_model: no_shell"
  else match knownJobId cols q.projectId q.idempotencyKey (q.clientHash E) with
    | some (.returned id _) => .replay id
    | some (.conflict id) => .keyConflict id
    | _ => .submit q.args

/-- A body of the plain path: it is valid, and no field of it asks for a subscription model. -/
structure Submission.Plain (specs : List ModelSpec) (providers : List String) (q : Submission) : Prop where
  valid : q.body.validTools specs providers = .ok ()
  model : ChatBody.subscriptionModel specs q.body.model = none
  shell : q.body.noShell = false

variable {specs : List ModelSpec} {providers : List String} {q : Submission} {E : HashEnv}

/-- Terminal tools belong to subscription jobs. -/
theorem Submission.Plain.terminalTools (h : q.Plain specs providers) : q.body.terminalTools = none := by
  have hvalid := h.valid
  simp only [ChatBody.validTools, bind, Except.bind] at hvalid
  cases htools : q.body.checkTools specs providers with
  | error e => simp [htools] at hvalid
  | ok u =>
    rw [htools] at hvalid
    simp only [ChatBody.checkTerminal] at hvalid
    cases hterm : q.body.terminalTools with
    | none => rfl
    | some names => simp [hterm, h.model] at hvalid

/-- **One request**: what the route hashes is what `submit_job_ex` stores. -/
theorem Submission.Plain.clientRequest_eq (h : q.Plain specs providers) :
    q.clientRequest = buildRequest q.args := by
  unfold Submission.clientRequest Submission.args
  simp [h.terminalTools, h.shell, buildRequest]

theorem Submission.Plain.hash_eq (h : q.Plain specs providers) (E : HashEnv) :
    payloadHash E q.projectId q.capability q.clientRequest = q.args.hash E := by
  rw [h.clientRequest_eq]
  rfl

/-! ### The retention of finished jobs -/

/-- `JOB_RETENTION_DAYS` and `JOB_RETENTION_BATCH`. -/
structure Retention where
  days : ℕ := 7
  batch : ℕ := 5000

/-- A step of the submit system, or a pass of `purge_finished_jobs` over the rows it selects. -/
inductive RetainAct where
  | submit (a : SubmitAct)
  | purge (now : Time) (ids : List ℕ)

section Retention

variable (ret : Retention) (cfg : QueueConfig) (E : HashEnv)

/-- The `WHERE` of `purge_finished_jobs`. -/
def Retention.finished (now : Time) (r : PlainJobRow) : Bool :=
  r.status.terminal && r.completedAt.any fun t => decide (t < now - seconds (ret.days * 24 * 3600))

/-- `purge_finished_jobs`: a batch of finished rows goes.  The rows of agent jobs finish elsewhere. -/
def purgeFinishedJobs (s : SubmitSys) (now : Time) (ids : List ℕ) : Option SubmitSys :=
  if ids.length ≤ ret.batch ∧ ∀ r ∈ s.queue.rows, r.id ∈ ids → ret.finished now r = true then
    some { s with
      cols := s.cols.filter fun r => decide (r.id ∉ ids)
      queue := { s.queue with rows := s.queue.rows.filter fun r => decide (r.id ∉ ids) } }
  else none

def retainStep (s : SubmitSys) : RetainAct → Option SubmitSys
  | .submit a => s.step cfg E a
  | .purge now ids => purgeFinishedJobs ret s now ids

/-- No row of the key is purged. -/
def Keeps (slot : Option (ℕ × String)) (s : SubmitSys) : RetainAct → Prop
  | .submit _ => True
  | .purge _ ids => ∀ r ∈ s.cols, r.slot = slot → r.id ∉ ids

end Retention

variable {ret : Retention} {cfg : QueueConfig} {slot : Option (ℕ × String)} {s u : SubmitSys}

theorem purge_eq {now : Time} {ids : List ℕ} (h : purgeFinishedJobs ret s now ids = some u) :
    u.cols = s.cols.filter (fun r => decide (r.id ∉ ids)) ∧ u.calls = s.calls ∧ u.nextId = s.nextId := by
  unfold purgeFinishedJobs at h
  split_ifs at h
  obtain rfl := Option.some.inj h
  exact ⟨rfl, rfl, rfl⟩

/-- **Purging the rows of other keys** keeps what the calls of a key rely on. -/
theorem invFor_retainStep {a : RetainAct} (hi : s.InvFor (fun args => args.slot = slot) E)
    (hkeep : Keeps slot s a) (h : retainStep ret cfg E s a = some u) :
    u.InvFor (fun args => args.slot = slot) E := by
  cases a with
  | submit a => exact hi.step h
  | purge now ids =>
    obtain ⟨hcols, hcalls, hnext⟩ := purge_eq h
    have hpend : u.pending = s.pending := by rw [SubmitSys.pending, hcalls, SubmitSys.pending]
    have hrows : (u.cols ++ u.pending).Subperm ([] ++ (s.cols ++ s.pending)) := by
      rw [hcols, hpend, List.nil_append]
      exact (List.filter_sublist.append_right _).subperm
    refine hi.of_rows (fun c hc hslot => ?_) hrows hnext.ge (.inl rfl)
    rw [hcalls] at hc
    refine (hi.calls c hc hslot).mono fun r hr hrow => ?_
    rw [hcols]
    exact List.mem_filter.mpr ⟨hr, decide_eq_true (hkeep r hr (hrow.trans hslot))⟩

theorem invFor_retainRun {as : List RetainAct} (hi : s.InvFor (fun args => args.slot = slot) E)
    (h : Steps (retainStep ret cfg E) (Keeps slot) s as u) : u.InvFor (fun args => args.slot = slot) E :=
  h.inv (I := SubmitSys.InvFor (fun args => args.slot = slot) E)
    (fun _ _ _ ht hkeep hs => invFor_retainStep ht hkeep hs) hi

/-- The rows of a key that is kept stay. -/
theorem rows_of_retainRun {as : List RetainAct} (h : Steps (retainStep ret cfg E) (Keeps slot) s as u) :
    ∀ r ∈ s.cols, r.slot = slot → r ∈ u.cols := by
  induction h with
  | nil => exact fun _ hr _ => hr
  | @snoc t u as a _ hkeep hstep ih =>
    intro r hr hslot
    have ht := ih r hr hslot
    cases a with
    | submit a => exact cols_of_step hstep r ht
    | purge now ids =>
      rw [(purge_eq hstep).1]
      exact List.mem_filter.mpr ⟨ht, decide_eq_true (hkeep r ht hslot)⟩

/-- A run of the submit system, in which nothing is purged. -/
theorem retainRun_of_submits (ret : Retention) (slot : Option (ℕ × String)) {as : List SubmitAct}
    (h : Steps (SubmitSys.step cfg E) Free s as u) :
    Steps (retainStep ret cfg E) (Keeps slot) s (as.map .submit) u := by
  induction h with
  | nil => exact .nil _
  | snoc _ _ hstep ih =>
    rw [List.map_append]
    exact ih.snoc trivial hstep

/-! ### Retries -/

/-- The same key over a payload that differs at most in the order of keys and in null fields of messages. -/
structure Submission.Retries (retry first : Submission) : Prop where
  project : retry.projectId = first.projectId
  capability : retry.capability = first.capability
  key : retry.idempotencyKey = first.idempotencyKey
  keyed : first.idempotencyKey.getD "" ≠ ""
  dict : (Val.obj (Val.ofJsonEntries first.clientRequest)).Dict
  payload : Val.Same (.obj (withoutNullFields (Val.ofJsonEntries first.clientRequest)))
    (.obj (withoutNullFields (Val.ofJsonEntries retry.clientRequest)))

theorem Submission.Retries.hash_eq {first retry : Submission} (h : retry.Retries first) (E : HashEnv) :
    payloadHash E retry.projectId retry.capability retry.clientRequest =
      payloadHash E first.projectId first.capability first.clientRequest := by
  rw [payloadHash_eq, payloadHash_eq, h.project, h.capability]
  rw [payloadText_congr E.floatRepr first.projectId first.capability h.dict h.payload]

/-- The row of a key answers every submission with its hash. -/
theorem replayedJobId_of_row {P : SubmitArgs → Prop} (hi : s.InvFor P E) {row : KeyCols} (hrow : row ∈ s.cols)
    {slot : ℕ × String} (hslot : row.slot = some slot) {hash : String} (hhash : row.payloadHash = some hash) :
    replayedJobId s.cols (some slot) hash = some (.returned row.id true) := by
  cases hr : replayedJobId s.cols (some slot) hash with
  | none => exact absurd hslot (replayedJobId_none hr row hrow)
  | some r =>
    obtain ⟨row', hrow', hslot', hres⟩ := replayedJobId_some hr
    have hsame : row = row' :=
      hi.keys.eq_of_slot (List.mem_append_left _ hrow) (List.mem_append_left _ hrow') hslot hslot'
    subst hsame
    rcases hres with ⟨-, rfl⟩ | ⟨hne, -⟩
    · rfl
    · exact absurd hhash hne

/-- **The payload hash identifies requests exactly**: the digested texts are equal precisely when project,
capability and the documents without null message fields are; the hash the plain path looks a key up with
is the one it stores; and once a submission has been answered, every faithful retry, in any later state of
any run that purges no job of its key, is a replay of its job, and none that races it ends in a conflict. -/
theorem payload_hash_identifies {φ : Type} (F : FlatFloatText φ) (ret : Retention) (cfg : QueueConfig)
    (E : HashEnv) (specs : List ModelSpec) (providers : List String) :
    (∀ (p p' : ℕ) (c c' : String) (r r' : JsonRequest φ),
      payloadText F.repr p c r.entries = payloadText F.repr p' c' r'.entries ↔
        p = p' ∧ c = c' ∧ Val.Same (.obj (withoutNullFields r.entries)) (.obj (withoutNullFields r'.entries))) ∧
    (∀ (p : ℕ) (c : String) (r : List (String × Json)),
      payloadHash E p c r = E.md5 (String.ofList (payloadText E.floatRepr p c (Val.ofJsonEntries r)))) ∧
    (∀ q : Submission, q.Plain specs providers →
      payloadHash E q.projectId q.capability q.clientRequest = q.args.hash E) ∧
    ∀ first retry : Submission, first.Plain specs providers → retry.Plain specs providers →
      retry.Retries first → ∀ as s, Steps (retainStep ret cfg E) (Keeps first.args.slot) {} as s →
      ∀ (i w id : ℕ) (replayed : Bool), s.calls[i]? = some (SubmitCall.mk w first.args (.done (.returned id replayed))) →
      ∀ bs u, Steps (retainStep ret cfg E) (Keeps first.args.slot) s bs u →
        jobsSubmit E specs u.cols retry = .replay id ∧
        ∀ (j w' : ℕ) r, u.calls[j]? = some (SubmitCall.mk w' retry.args (.done r)) → ∀ id', r ≠ .conflict id' := by
  refine ⟨fun p p' c c' r r' => payloadText_eq_iff F p p' c c' r r', payloadHash_eq E,
    fun q hq => hq.hash_eq E, ?_⟩
  intro first retry hfirst hretry h as s hrun i w id replayed hcall bs u hrun'
  have hs := invFor_retainRun (SubmitSys.inv_init _ E) hrun
  have hu := invFor_retainRun hs hrun'
  have hkeyed : first.args.keyed = true := decide_eq_true h.keyed
  obtain ⟨key, hkey, hne⟩ : ∃ key, first.idempotencyKey = some key ∧ key ≠ "" := by
    have hk := h.keyed
    cases hkey : first.idempotencyKey with
    | none => simp [hkey] at hk
    | some key => exact ⟨key, rfl, by simpa [hkey] using hk⟩
  -- the row of the first submission stays, with the hash of both
  obtain ⟨row, hrow, rfl, hslot, hhash⟩ : ∃ row ∈ s.cols, row.id = id ∧ row.slot = first.args.slot ∧
      row.payloadHash = some (first.args.hash E) := hs.calls _ (List.mem_of_getElem? hcall) rfl hkeyed
  have hrow' : row ∈ u.cols := rows_of_retainRun hrun' row hrow hslot
  have hslot' : row.slot = some (first.projectId, key) := by
    simpa [SubmitArgs.slot, Submission.args, hkey] using hslot
  have hsame : retry.args.hash E = first.args.hash E := by
    rw [← hretry.hash_eq E, h.hash_eq E, hfirst.hash_eq E]
  refine ⟨?_, ?_⟩
  · have hlookup := replayedJobId_of_row hu hrow' hslot' (hhash.trans (congrArg some hsame.symm))
    have hroute : knownJobId u.cols retry.projectId retry.idempotencyKey (retry.clientHash E) =
        some (.returned row.id true) := by
      rw [Submission.clientHash, hretry.hash_eq E, h.key, hkey, h.project]
      simp only [Option.getD_some, if_neg hne, knownJobId]
      exact hlookup
    unfold jobsSubmit
    rw [if_neg (by simp [hretry.shell])]
    simp only [hroute]
  · rintro j w' r hcall' id' rfl
    have hretrySlot : retry.args.slot = first.args.slot := by
      simp [SubmitArgs.slot, Submission.args, h.key, h.project]
    obtain ⟨row', hmem, -, hslot'', hne'⟩ := hu.calls _ (List.mem_of_getElem? hcall') hretrySlot
    have hslots : row'.slot = some (first.projectId, key) := by
      simpa [SubmitArgs.slot, Submission.args, h.key, h.project, hkey] using hslot''
    have heq : row = row' :=
      hu.keys.eq_of_slot (List.mem_append_left _ hrow') (List.mem_append_left _ hmem) hslot' hslots
    subst heq
    exact hne' (hhash.trans (congrArg some hsame.symm))

/-- A greeting under the key `k`; the message may name its absent tool calls. -/
def greetingQ (extra : List (String × Json)) : Submission where
  projectId := 1
  capability := "chat:fast"
  body := { messages := [.obj ([("role", .str "user"), ("content", .str "hi")] ++ extra)]
            maxTokens := 5, temperature := 1 }
  idempotencyKey := some "k"

/-- The first submission is answered with job 1. -/
def greetingSteps : List SubmitAct := [.call 0 (greetingQ []).args, .lookup 0 0, .flush 0 0, .commit 0]

theorem payload_hash_identifies_greeting :
    ∃ s, Steps (retainStep {} {} greetingEnv) (Keeps (some (1, "k"))) {} (greetingSteps.map .submit) s ∧
      jobsSubmit greetingEnv [] s.cols (greetingQ [("tool_calls", .null)]) = .replay 1 := by
  have hfirst : (greetingQ []).Plain [] [] := ⟨rfl, rfl, rfl⟩
  have hretry : (greetingQ [("tool_calls", .null)]).Plain [] [] := ⟨rfl, rfl, rfl⟩
  have hretries : (greetingQ [("tool_calls", .null)]).Retries (greetingQ []) := by
    refine ⟨rfl, rfl, rfl, by decide, ?_, ?_⟩
    · simp [Submission.clientRequest, greetingQ, buildRequest, Val.ofJsonEntries, Val.ofJson, Val.ofJsonItems,
        ChatBody.declared, ChatBody.format, optJson, Val.Dict, Val.DictEntries, Val.DictItems]
    · have heq : withoutNullFields (Val.ofJsonEntries (greetingQ [("tool_calls", .null)]).clientRequest) =
          withoutNullFields (Val.ofJsonEntries (greetingQ []).clientRequest) := by rfl
      rw [heq]
      exact Val.Same.refl _
  have hrun : (execAll (SubmitSys.step {} greetingEnv) {} greetingSteps).map (·.calls) =
      some [⟨0, (greetingQ []).args, .done (.returned 1 false)⟩] := by rfl
  obtain ⟨s, hs, hcalls⟩ := steps_of_observed hrun
  have hcall : s.calls[0]? = some ⟨0, (greetingQ []).args, .done (.returned 1 false)⟩ := by rw [hcalls]; rfl
  have hkept := retainRun_of_submits {} (some (1, "k")) hs
  obtain ⟨-, -, -, hretried⟩ := payload_hash_identifies fractionFloats {} {} greetingEnv [] []
  exact ⟨s, hkept, (hretried _ _ hfirst hretry hretries _ s hkept 0 0 1 false hcall _ s (.nil s)).1⟩

/-- Job 1 is answered, and eight days later its row is purged. -/
def eightDays : List RetainAct :=
  [.submit (.queue (.claim 0 1 [])), .submit (.queue (.worker 0 (.lookup true))),
    .submit (.queue (.worker 0 (.ends (.success "hello" .null)))), .submit (.queue (.worker 0 (.write 1 false))),
    .purge (seconds (8 * 24 * 3600)) [1]]

/-- Another payload takes the key. -/
def otherPayload : List RetainAct :=
  [.submit (.call 0 (greeting "ho")), .submit (.lookup 1 0), .submit (.flush 1 0), .submit (.commit 1)]

/-- The lookup of a retry of the greeting. -/
def greetingLookup (cols : List KeyCols) : Option SubmitResult :=
  knownJobId cols 1 (some "k") ((greetingQ []).clientHash greetingEnv)

/-- Once the job of its key is purged, a faithful retry is a new job, and a conflict if another payload has
taken the key. -/
theorem retry_after_purge :
    ∃ s u v, Steps (retainStep {} {} greetingEnv) Free {} (greetingSteps.map .submit) s ∧
      s.calls.map SubmitCall.result = [some (.returned 1 false)] ∧
      Steps (retainStep {} {} greetingEnv) Free s eightDays u ∧
      jobsSubmit greetingEnv [] u.cols (greetingQ []) = .submit (greetingQ []).args ∧
      Steps (retainStep {} {} greetingEnv) Free u otherPayload v ∧
      jobsSubmit greetingEnv [] v.cols (greetingQ []) = .keyConflict 2 := by
  have hrun : ((execAll (retainStep {} {} greetingEnv) {} (greetingSteps.map .submit)).bind fun s =>
      (execAll (retainStep {} {} greetingEnv) s eightDays).bind fun u =>
        (execAll (retainStep {} {} greetingEnv) u otherPayload).map fun v =>
          (s.calls.map SubmitCall.result, greetingLookup u.cols, greetingLookup v.cols)) =
      some ([some (.returned 1 false)], none, some (.conflict 2)) := by decide +kernel
  obtain ⟨s, hs, hrun⟩ := Option.bind_eq_some_iff.mp hrun
  obtain ⟨u, hu, hrun⟩ := Option.bind_eq_some_iff.mp hrun
  obtain ⟨v, hv, hobs⟩ := Option.map_eq_some_iff.mp hrun
  simp only [Prod.mk.injEq] at hobs
  obtain ⟨hres, hgone, htaken⟩ := hobs
  have hroute : ∀ cols, jobsSubmit greetingEnv [] cols (greetingQ []) =
      match greetingLookup cols with
      | some (.returned id _) => .replay id
      | some (.conflict id) => .keyConflict id
      | _ => .submit (greetingQ []).args := fun cols => rfl
  refine ⟨s, u, v, steps_of_execAll hs, hres, steps_of_execAll hu, ?_, steps_of_execAll hv, ?_⟩
  · rw [hroute, hgone]
  · rw [hroute, htaken]

end Broker.Routes
