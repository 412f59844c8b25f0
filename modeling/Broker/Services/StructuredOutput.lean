import Broker.Agent.StoredOutput
import Broker.Services.ChatGate
import Broker.Services.ChatWalk
import Broker.Services.ResponseCache

/-!
# Broker.Services.StructuredOutput — JSON answers from `run_chat`, through the shared cache

Calls of `run_chat` share one response cache and interleave at their awaits: a call looks its request up, and
when nothing is found it walks and, if an attempt succeeds, stores the answer and returns it.  Every entry of
the cache is an answer that passed the structured-output check of the request it was stored for, and a hit
belongs to the same request, so what a call returns passes the check of its own request
(`structured_output_valid`).
-/

namespace Broker.Services

open Broker.Lib Broker.Db Broker.Routing Broker.Agent

/-- The arguments of `run_chat` that the gate and the cache read. -/
structure ChatRequest (φ : Type) where
  projectId : ℤ
  capability : String
  messages : Val φ
  model : Option String := none
  maxTokens : ℤ
  temperature : φ
  responseFormat : Val φ := .null
  tools : List ToolDecl := []
  toolChoice : Option ToolChoice := none
  dicts : messages.Dict ∧ responseFormat.Dict

/-- What `run_chat` passes to the cache: never the tools. -/
def ChatRequest.cacheRequest {φ : Type} (r : ChatRequest φ) : CacheRequest φ where
  capability := r.capability
  messages := r.messages
  model := r.model
  maxTokens := r.maxTokens
  temperature := r.temperature
  projectId := r.projectId
  responseFormat := r.responseFormat
  dicts := ⟨r.dicts.1, r.dicts.2, by simp [Val.Dict], by simp [Val.Dict]⟩

/-! ### One call -/

/-- What a pass of the walk adds to the request, and the fates of its attempt. -/
structure KeyAttempt where
  key : ApiKeyRow
  project : ProjectCaps
  estimatedCost : ℚ := 0
  knownFree : Bool := false
  billsOnFreeKey : Bool := false
  estTokens : ℕ := 0
  emptyIsFailure : Bool := false
  surroundings : Surroundings
  fates : AttemptFates ChatAnswer

section Chat

variable {φ : Type} (lib : SchemaLib) (room : ℕ) (F : FloatText φ)

/-- The gate of a request. -/
def ChatRequest.gate (r : ChatRequest φ) (emptyIsFailure : Bool) (a : ChatAnswer) :
    Except OutputError (Option Rejection) :=
  chatGate lib room r.tools r.toolChoice F.repr r.responseFormat emptyIsFailure a

/-- The `Attempt` that `run_chat` builds; what it does not set has its default. -/
def KeyAttempt.attempt (k : KeyAttempt) (r : ChatRequest φ) : Attempt ChatAnswer where
  key := k.key
  project := k.project
  estimatedCost := k.estimatedCost
  knownFree := k.knownFree
  billsOnFreeKey := k.billsOnFreeKey
  estTokens := k.estTokens
  check := fun a _ => (r.gate lib room F k.emptyIsFailure a).mapError OutputError.name

/-- The attempt returned `res`. -/
def KeyAttempt.Returns (k : KeyAttempt) (r : ChatRequest φ) (res : AttemptResult ChatAnswer) : Prop :=
  (runAttempt (k.attempt lib room F r) k.surroundings k.fates).out = .ok res

/-- A call past its cache lookup: the walk it is on, and for every pass the attempt that gave its reply.  A
call that an exception ends has no further replies and never finishes. -/
structure ChatCall where
  request : ChatRequest φ
  env : ChatEnv
  capability : env.capability = request.capability
  paid : List String
  steps : List Step
  target : Option AffinityTarget
  start : Time
  replies : ℕ → Reply ChatAnswer
  attempts : ℕ → KeyAttempt
  returned : ∀ n, (attempts n).Returns lib room F request (replies n).result

variable {lib room F}

/-- The text of `_chat_outcome`, when the walk succeeds. -/
def ChatCall.answer (c : ChatCall lib room F) : Option String :=
  match runChat c.env c.paid c.steps c.target c.replies c.start with
  | .outcome _ res => res.payload.map ChatAnswer.text
  | _ => none

variable (lib room F) (sha256 : String → String)

/-- A `ChatOutcome`, with the request it answers. -/
structure ChatOutcome (φ : Type) where
  request : ChatRequest φ
  text : String

/-- The shared cache, the calls on their walk, what was returned, and the requests that came in. -/
structure ChatSys where
  store : CacheStore := []
  calls : List (ChatCall lib room F) := []
  outcomes : List (ChatOutcome φ) := []
  requests : List (CacheRequest φ) := []

/-- A call starts, or call `i` comes to the end of its walk; the clock is read by the cache alone. -/
inductive ChatAct where
  | enter (c : ChatCall lib room F) (now : Time)
  | finish (i : ℕ) (now : Time)

variable {lib room F}

namespace ChatSys

variable (s : ChatSys lib room F)

/-- The lookup of a call without tools. -/
def lookup (c : ChatCall lib room F) (now : Time) : CacheStore × Option String :=
  if c.request.tools = [] then cacheGet F sha256 now c.request.cacheRequest s.store else (s.store, none)

def enter (c : ChatCall lib room F) (now : Time) : ChatSys lib room F :=
  match s.lookup sha256 c now with
  | (store, some text) =>
    { s with
      store := store
      outcomes := s.outcomes ++ [⟨c.request, text⟩]
      requests := s.requests ++ [c.request.cacheRequest] }
  | (store, none) =>
    { s with
      store := store
      calls := s.calls ++ [c]
      requests := s.requests ++ [c.request.cacheRequest] }

/-- The store after a successful call: only one without tools writes it. -/
def stored (c : ChatCall lib room F) (now : Time) (text : String) : CacheStore :=
  if c.request.tools = [] then cachePut F sha256 now c.request.cacheRequest text s.store else s.store

def finish (i : ℕ) (c : ChatCall lib room F) (now : Time) : ChatSys lib room F :=
  match c.answer with
  | some text =>
    { s with
      store := s.stored sha256 c now text
      calls := s.calls.eraseIdx i
      outcomes := s.outcomes ++ [⟨c.request, text⟩] }
  | none => { s with calls := s.calls.eraseIdx i }

def step : ChatAct lib room F → Option (ChatSys lib room F)
  | .enter c now => some (s.enter sha256 c now)
  | .finish i now => s.calls[i]?.map fun c => s.finish sha256 i c now

end ChatSys

end Chat

section Laws

variable {φ : Type} {lib : SchemaLib} {room : ℕ} {F : FloatText φ} {sha256 : String → String}

/-- The text passes the structured-output check of the format, where the format asks for JSON. -/
def AnswersFormat (lib : SchemaLib) (room : ℕ) (F : FloatText φ) (responseFormat : Val φ)
    (text : String) : Prop :=
  wantsJson responseFormat = true → outputProblem lib room F.repr text responseFormat = .ok none

theorem AnswersFormat.same {rf rf' : Val φ} {text : String} (h : AnswersFormat lib room F rf text)
    (hd : rf.Dict) (hd' : rf'.Dict) (hs : rf.Same rf') : AnswersFormat lib room F rf' text := by
  intro hjson
  rw [← wantsJson_same hd hd' hs] at hjson
  exact outputProblem_same hd hd' hs (h hjson)

/-! ### What a walk returns -/

theorem KeyAttempt.Returns.answers {k : KeyAttempt} {r : ChatRequest φ} {res : AttemptResult ChatAnswer}
    (h : k.Returns lib room F r res) (hs : res.flow = .success) :
    ∃ a, res.payload = some a ∧ AnswersFormat lib room F r.responseFormat a.text := by
  have hcap : (k.attempt lib room F r).capFlow ≠ .success := by simp [KeyAttempt.attempt]
  have hgate : ∀ {a info v}, (k.attempt lib room F r).check a info = .ok v →
      r.gate lib room F k.emptyIsFailure a = .ok v := by
    intro a info v hcheck
    simp only [KeyAttempt.attempt] at hcheck
    cases hg : r.gate lib room F k.emptyIsFailure a with
    | error e =>
      rw [hg] at hcheck
      cases hcheck
    | ok verdict =>
      rw [hg] at hcheck
      rw [Except.ok.inj hcheck]
  have hrej : ∀ a info rej, (k.attempt lib room F r).check a info = .ok (some rej) → rej.flow ≠ .success := by
    intro a info rej hcheck
    rw [chatGate_flow (hgate hcheck)]
    simp
  obtain ⟨a, info, -, hpayload, hcheck⟩ := runAttempt_success hcap hrej h hs
  exact ⟨a, hpayload, fun hjson => chatGate_none (hgate hcheck) hjson⟩

/-- **A walk returns only texts that pass the check of its request.** -/
theorem ChatCall.answers {c : ChatCall lib room F} {text : String} (h : c.answer = some text) :
    AnswersFormat lib room F c.request.responseFormat text := by
  unfold ChatCall.answer at h
  split at h
  · rename_i p res hrun
    obtain ⟨n, hres, hflow⟩ := runChat_outcome hrun
    obtain ⟨a, hpayload, hans⟩ :=
      (hres ▸ c.returned n : (c.attempts n).Returns lib room F c.request res).answers hflow
    rw [hpayload] at h
    obtain rfl : a.text = text := by simpa using h
    exact hans
  · cases h

/-! ### The cache -/

/-- An entry of the store is an answer to one of the requests that came in. -/
def EntryOk (lib : SchemaLib) (room : ℕ) (F : FloatText φ) (sha256 : String → String)
    (requests : List (CacheRequest φ)) (e : String × (Time × String)) : Prop :=
  ∃ r ∈ requests, cacheKey F sha256 r = e.1 ∧ AnswersFormat lib room F r.responseFormat e.2.2

/-- What the store, the open calls and the returned outcomes satisfy; a hash collision may serve a text to
another request, so the outcomes are sound as long as there is none. -/
structure ChatSys.Inv (sha256 : String → String) (s : ChatSys lib room F) : Prop where
  store : ∀ e ∈ s.store, EntryOk lib room F sha256 s.requests e
  calls : ∀ c ∈ s.calls, c.request.cacheRequest ∈ s.requests
  outcomes : CollisionFree F sha256 s.requests →
    ∀ o ∈ s.outcomes, AnswersFormat lib room F o.request.responseFormat o.text

theorem EntryOk.mono {rs rs' : List (CacheRequest φ)} {e : String × (Time × String)}
    (h : EntryOk lib room F sha256 rs e) (hsub : ∀ r ∈ rs, r ∈ rs') : EntryOk lib room F sha256 rs' e := by
  obtain ⟨r, hr, hk, ha⟩ := h
  exact ⟨r, hsub r hr, hk, ha⟩

theorem CollisionFree.mono {rs rs' : List (CacheRequest φ)} (h : CollisionFree F sha256 rs')
    (hsub : ∀ r ∈ rs, r ∈ rs') : CollisionFree F sha256 rs :=
  fun r hr r' hr' => h r (hsub r hr) r' (hsub r' hr')

/-- A hit is an answer to the request that is looked up. -/
theorem answers_of_cacheGet {rs : List (CacheRequest φ)} {store : CacheStore} {r : CacheRequest φ}
    {now : Time} {text : String} (hstore : ∀ e ∈ store, EntryOk lib room F sha256 rs e) (hr : r ∈ rs)
    (hfree : CollisionFree F sha256 rs) (h : (cacheGet F sha256 now r store).2 = some text) :
    AnswersFormat lib room F r.responseFormat text := by
  obtain ⟨limit, t, -, hmem, -⟩ := cacheGet_some h
  obtain ⟨r', hr', hk, hans⟩ := hstore _ hmem
  -- equal digests are equal texts, and these are one request
  have hsame : r'.SameAs r := keyText_eq_iff.mp (hfree r' hr' r hr hk)
  exact hans.same r'.dicts.2.1 r.dicts.2.1 hsame.responseFormat

theorem ChatSys.Inv.enter {s : ChatSys lib room F} (hi : s.Inv sha256) (c : ChatCall lib room F)
    (now : Time) : (s.enter sha256 c now).Inv sha256 := by
  have hsub : ∀ r ∈ s.requests, r ∈ s.requests ++ [c.request.cacheRequest] :=
    fun r hr => List.mem_append_left _ hr
  have hself : c.request.cacheRequest ∈ s.requests ++ [c.request.cacheRequest] := by simp
  -- the lookup only drops or moves entries
  have hstore : ∀ e ∈ (s.lookup sha256 c now).1,
      EntryOk lib room F sha256 (s.requests ++ [c.request.cacheRequest]) e := by
    intro e he
    refine (hi.store e ?_).mono hsub
    unfold ChatSys.lookup at he
    split_ifs at he
    · exact (cacheGet_store now _ s.store).1 e he
    · exact he
  unfold ChatSys.enter
  split
  · rename_i store text hlook
    rw [hlook] at hstore
    refine ⟨hstore, fun d hd => hsub _ (hi.calls d hd), fun hfree o ho => ?_⟩
    rcases List.mem_append.mp ho with ho | ho
    · exact hi.outcomes (CollisionFree.mono hfree hsub) o ho
    · obtain rfl := List.mem_singleton.mp ho
      have hhit : (cacheGet F sha256 now c.request.cacheRequest s.store).2 = some text := by
        unfold ChatSys.lookup at hlook
        split_ifs at hlook
        · rw [hlook]
        · cases hlook
      exact answers_of_cacheGet (fun e he => (hi.store e he).mono hsub) hself hfree hhit
  · rename_i store hlook
    rw [hlook] at hstore
    refine ⟨hstore, fun d hd => ?_, fun hfree => hi.outcomes (CollisionFree.mono hfree hsub)⟩
    rcases List.mem_append.mp hd with hd | hd
    · exact hsub _ (hi.calls d hd)
    · obtain rfl := List.mem_singleton.mp hd
      exact hself

theorem ChatSys.Inv.finish {s : ChatSys lib room F} (hi : s.Inv sha256) {i : ℕ} {c : ChatCall lib room F}
    (hc : c ∈ s.calls) (now : Time) : (s.finish sha256 i c now).Inv sha256 := by
  have hcalls : ∀ d ∈ s.calls.eraseIdx i, d.request.cacheRequest ∈ s.requests :=
    fun d hd => hi.calls d ((List.eraseIdx_sublist s.calls i).subset hd)
  unfold ChatSys.finish
  cases hans : c.answer with
  | none => exact ⟨hi.store, hcalls, hi.outcomes⟩
  | some text =>
    have hvalid := ChatCall.answers hans
    refine ⟨fun e he => ?_, hcalls, fun hfree o ho => ?_⟩
    · unfold ChatSys.stored at he
      split_ifs at he
      · rcases mem_cachePut he with ⟨rfl, -⟩ | ⟨he, -⟩
        · exact ⟨c.request.cacheRequest, hi.calls c hc, rfl, hvalid⟩
        · exact hi.store e he
      · exact hi.store e he
    · rcases List.mem_append.mp ho with ho | ho
      · exact hi.outcomes hfree o ho
      · obtain rfl := List.mem_singleton.mp ho
        exact hvalid

theorem ChatSys.Inv.step {s s' : ChatSys lib room F} {a : ChatAct lib room F} (hi : s.Inv sha256)
    (h : s.step sha256 a = some s') : s'.Inv sha256 := by
  cases a with
  | enter c now =>
    obtain rfl := Option.some.inj h
    exact hi.enter c now
  | finish i now =>
    obtain ⟨c, hget, rfl⟩ := Option.map_eq_some_iff.mp h
    exact hi.finish (List.mem_of_getElem? hget) now

/-- **JSON answers of `run_chat`**, in every interleaving of its calls. -/
theorem chat_outcomes_answer {as : List (ChatAct lib room F)} {s : ChatSys lib room F}
    (h : Steps (ChatSys.step sha256) Free {} as s) (hfree : CollisionFree F sha256 s.requests) :
    ∀ o ∈ s.outcomes, AnswersFormat lib room F o.request.responseFormat o.text := by
  have hi : s.Inv sha256 := by
    refine h.inv (I := ChatSys.Inv sha256) (fun _ _ _ hi _ hs => ChatSys.Inv.step hi hs) ⟨?_, ?_, ?_⟩
    · exact List.forall_mem_nil _
    · exact List.forall_mem_nil _
    · exact fun _ => List.forall_mem_nil _
  exact hi.outcomes hfree

/-- **Structured output is always valid.**  For every schema library, stack room and hash.  Every outcome that
`run_chat` returns for a JSON format, with or without tools, from the cache or from a provider, in every
interleaving of calls over one cache and without a hash collision among their requests, has a text for which
`output_problem` returns `None`.  And in every interleaving of the workers, cancels and sweeps of a run, for
every masking of its texts, a row that is done and whose contract asks for JSON holds a result text for which
`output_problem` returns `None`. -/
theorem structured_output_valid (lib : SchemaLib) (room : ℕ) (F : FloatText φ) (sha256 : String → String) :
    (∀ {as : List (ChatAct lib room F)} {s : ChatSys lib room F}, Steps (ChatSys.step sha256) Free {} as s →
      CollisionFree F sha256 s.requests → ∀ o ∈ s.outcomes, wantsJson o.request.responseFormat = true →
        outputProblem lib room F.repr o.text o.request.responseFormat = .ok none) ∧
    ∀ (env : Env) (cfg : ExecConfig) (n : NewRun) (stack : ℕ) (repr : ℚ → List Char)
      (floatRepr : PyFloat → List Char) {as : List Act} {s : RunSys},
      Steps (RunSys.step (env.gated lib room stack repr floatRepr) cfg) Free n.start as s →
        s.db.job.status = .done →
      ∀ c, s.db.job.request.clientJob = some c → wantsJson (formatOf c.responseFormat) = true →
        ∃ text, s.db.job.resultText = some text ∧
          outputProblem lib room repr text (formatOf c.responseFormat) = .ok none := by
  refine ⟨fun h hfree o ho hjson => chat_outcomes_answer h hfree o ho hjson, ?_⟩
  intro env cfg n stack repr floatRepr as s h hdone c hc _
  obtain ⟨hsame, hresult⟩ := stored_result_passes (env.gated lib room stack repr floatRepr) cfg n h
  obtain ⟨text, htext, hpass⟩ := hresult hdone
  exact ⟨text, htext, outputProblem_of_gated (hpass c (hsame.symm.trans hc))⟩

end Laws

/-- A library that accepts every schema and every value. -/
def permissiveLib : SchemaLib where
  checkSchema _ := true
  root _ := true
  lookup _ _ := .found
  validate _ _ := .valid
  accepts _ _ := true

/-- A classification that asks for a JSON object. -/
def objectRequest : ChatRequest ℕ where
  capability := "prefilter"
  messages := .arr [.obj [("role", .str "user"), ("content", .str "ok")]]
  maxTokens := 16
  temperature := 0
  projectId := 7
  responseFormat := .obj [("type", .str "json_object")]
  dicts := by simp [Val.Dict, Val.DictItems, Val.DictEntries]

def uncappedKey : ApiKeyRow := { id := 1, tier := .free, daily := ⟨none, 0, none⟩, monthly := ⟨none, 0, none⟩ }

/-- An attempt on a key without caps, whose provider answers with an empty object. -/
def objectAttempt : KeyAttempt where
  key := uncappedKey
  project := ⟨none, none⟩
  surroundings :=
    { today := fun _ => 0
      stored := uncappedKey
      projectDaily := { used := 0 }
      projectMonthly := { used := 0 }
      globalCap := 0
      globalDaily := { used := 0 } }
  fates := { call := .returned { text := "\x7b\x7d" } { cost := 0 } }

def objectResult : AttemptResult ChatAnswer := ⟨.success, some { text := "\x7b\x7d" }, none⟩

theorem objectAttempt_returns :
    objectAttempt.Returns permissiveLib 10 naturalFloats objectRequest objectResult := rfl

/-- One step, one key, one answer. -/
def objectCall : ChatCall permissiveLib 10 naturalFloats where
  request := objectRequest
  env :=
    { capability := "prefilter"
      modelFor := fun _ => some "gemini/flash"
      rotationFor := fun _ => []
      transportTimeout := fun _ => none }
  capability := rfl
  paid := []
  steps := [{ provider := "gemini" }]
  target := none
  start := 0
  replies _ := { key := some ⟨1, .free⟩, result := objectResult }
  attempts _ := objectAttempt
  returned _ := objectAttempt_returns

/-- A subscription job that asks for a JSON object. -/
def objectRun : NewRun where
  id := 1
  projectId := 1
  capability := .claude
  accountId := "main"
  request :=
    { clientJob := some { provider := "anthropic", model := "sonnet",
                          responseFormat := some (.obj [("type", .str "json_object")]) } }
  createdAt := 0

/-- A worker drives the run, and the CLI answers with an empty object. -/
def objectRunActs : List Act :=
  [.claim 1, .actor 0 .go, .actor 0 .go, .actor 0 (.preflight ⟨true, true, none, true⟩ 2),
    .actor 0 (.gate .notNeeded), .actor 0 (.mkdir true "w"), .actor 0 (.begin true 3), .actor 0 .go, .actor 0 .go,
    .actor 0 .go, .actor 0 (.attest "oauth" "firstParty" true none), .actor 0 (.begin true 4), .actor 0 .go,
    .actor 0 .go, .actor 0 .go, .actor 0 .stream,
    .actor 0 (.ends (.runCompleted "\x7b\x7d" []) [] none 5), .actor 0 (.usage true {} none),
    .actor 0 (.begin true 6), .actor 0 .go, .actor 0 .go, .actor 0 .go]

/-- A call walks and the same call again is served from the cache; a subscription run is done. -/
theorem structured_output_valid_of_object :
    (∃ s, Steps (ChatSys.step id) Free ({} : ChatSys permissiveLib 10 naturalFloats)
        [.enter objectCall 0, .finish 0 (seconds 1), .enter objectCall (seconds 2)] s ∧
      s.outcomes.map (fun o => (o.text, wantsJson o.request.responseFormat)) =
        [("\x7b\x7d", true), ("\x7b\x7d", true)] ∧
      ∀ o ∈ s.outcomes,
        outputProblem permissiveLib 10 naturalFloats.repr o.text o.request.responseFormat = .ok none) ∧
    ∃ s, Steps (RunSys.step (Env.plain.gated permissiveLib 10 10 (fun _ => []) fun _ => []) ExecConfig.default) Free
        objectRun.start objectRunActs s ∧
      ∃ text, s.db.job.resultText = some text ∧
        outputProblem permissiveLib 10 (fun _ => []) text (formatOf (some (.obj [("type", .str "json_object")]))) =
          .ok none := by
  have hchat : (execAll (ChatSys.step id) ({} : ChatSys permissiveLib 10 naturalFloats)
      [.enter objectCall 0, .finish 0 (seconds 1), .enter objectCall (seconds 2)]).map
        (fun s => s.outcomes.map fun o => (o.text, wantsJson o.request.responseFormat)) =
      some [("\x7b\x7d", true), ("\x7b\x7d", true)] := rfl
  have hrun : (execAll (RunSys.step (Env.plain.gated permissiveLib 10 10 (fun _ => []) fun _ => []) ExecConfig.default)
      objectRun.start objectRunActs).map (fun s => (s.db.job.status, s.db.job.request.clientJob)) =
        some (.done, objectRun.request.clientJob) := by decide
  obtain ⟨s, hs, houts⟩ := steps_of_observed hchat
  obtain ⟨t, ht, hend⟩ := steps_of_observed hrun
  obtain ⟨hdone, hcontract⟩ := Prod.mk.inj hend
  obtain ⟨hvalid, hstored⟩ := structured_output_valid permissiveLib 10 naturalFloats id
  refine ⟨⟨s, hs, houts, fun o ho => hvalid hs (fun _ _ _ _ h => h) o ho ?_⟩, t, ht, ?_⟩
  · -- both outcomes answer a request for JSON
    have hmem := List.mem_map_of_mem (f := fun o => (o.text, wantsJson o.request.responseFormat)) ho
    rw [houts] at hmem
    obtain ⟨-, hjson⟩ : o.text = "\x7b\x7d" ∧ wantsJson o.request.responseFormat = true := by simpa using hmem
    exact hjson
  · exact hstored Env.plain ExecConfig.default objectRun 10 (fun _ => []) (fun _ => []) ht hdone _ hcontract rfl

end Broker.Services
