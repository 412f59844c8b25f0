import Broker.Agent.Accounts
import Broker.Agent.RunDedup
import Broker.Routes.JobsSubmit
import Broker.Services.InflightDedup

/-!
# Broker.Routes.Resubmit — resubmitting an unfinished request without a key

`POST /v1/jobs` answers a second submission of a payload with the job of the first while that is unfinished
and recent.  A plain request is stored as the client sent it; a subscription request is stored with the
account the broker picked for it, and the pick reads the load the first submission has changed.  So the
second one finds the first run exactly when the same account is picked again (`resubmit_returns_first_iff`),
which with two idle accounts never happens (`resubmit_creates_second_run`).
-/

namespace Broker.Routes

open Broker.Lib Broker.Db Broker.Services Broker.Providers Broker.Agent

/-- The same payload of one project, both times without a key. -/
structure Submission.Resubmits (second first : Submission) : Prop where
  project : second.projectId = first.projectId
  capability : second.capability = first.capability
  body : second.body = first.body
  keys : first.idempotencyKey = none ∧ second.idempotencyKey = none

/-! ### The plain path -/

/-- The lookup of a plain submission that the checks behind the route's own lookup (the pin, the schema, the
request cap) do not refuse. -/
def plainAnswer (E : HashEnv) (specs : List ModelSpec) (u : SubmitSys) (worker : ℕ) (refusal : Option String)
    (q : Submission) (now : Time) : Option SubmitPhase :=
  match jobsSubmit E specs u.cols q, refusal with
  | .submit args, none => some (lookupPhase E u ⟨worker, args, .lookup⟩ now)
  | _, _ => none

/-- A call answered by its lookup has ended: no row is added. -/
theorem lookup_ends {cfg : QueueConfig} {E : HashEnv} {u : SubmitSys} {k w : ℕ} {args : SubmitArgs} {now : Time}
    {r : SubmitResult} (hcall : u.calls[k]? = some ⟨w, args, .lookup⟩)
    (h : lookupPhase E u ⟨w, args, .lookup⟩ now = .done r) :
    ∃ u', u.step cfg E (.lookup k now) = some u' ∧ u'.calls[k]? = some ⟨w, args, .done r⟩ ∧
      u'.cols = u.cols ∧ u'.queue = u.queue := by
  refine ⟨u.setPhase k ⟨w, args, .lookup⟩ (.done r), ?_, getElem?_setPhase hcall _, rfl, rfl⟩
  simp only [SubmitSys.step, SubmitAct.call?, hcall, stepCall, h]

/-! ### The subscription path -/

/-- What the route knows of one subscription model and project: the model and its agent capability, the
accounts of the policy in their order and the excluded ones, `policy_violation` of an account, the checks of
the body, and the prompt and attachments made of it. -/
structure SubscriptionRoute where
  spec : ModelSpec
  capability : String
  policy : Option (List String) := none
  excluded : List String := []
  violation : String → Option String := fun _ => none
  problem : ChatBody → Option String := fun _ => none
  prompt : ChatBody → Except String (String × List Json)

namespace SubscriptionRoute

variable (R : SubscriptionRoute)

/-- The account of a new run; only Claude rotates accounts. -/
def account (s : CreateSys) (paused : String → Option Time) : Except String String :=
  match R.policy with
  | none => .ok "owner"
  | some candidates =>
    if R.spec.provider = "claude-sub" then
      match pickAccount R.excluded paused (unfinishedRuns s R.capability) candidates with
      | some a => .ok (if a = "" then "owner" else a)
      | none =>
        if candidates = [] then .ok "owner"
        else .error "every Claude account of this project is excluded (AGENT_CLAUDE_EXCLUDED_ACCOUNTS)"
    else .ok "owner"

def clientJob (q : Submission) : Json :=
  .obj ([("capability", .str q.capability), ("provider", .str R.spec.provider), ("model", .str R.spec.id),
    ("response_format", optJson id q.body.format), ("workflow", optJson .str q.body.workflow),
    ("tools", .arr (q.body.declared.map ToolDefinition.dump)), ("tool_choice", optJson id q.body.toolChoice),
    ("terminal_tools", .arr ((q.body.terminalTools.getD []).map .str))] ++
    (if q.body.noShell then [("no_shell", .bool true)] else []))

/-- What the route hands to `create_run`. -/
def runArgs (E : HashEnv) (q : Submission) (account prompt : String) (attachments : List Json) : CreateArgs where
  projectId := q.projectId
  capability := R.capability
  prompt := prompt
  taskId := "jobs"
  accountId := account
  wallTimeoutS := 1800
  idleTimeoutS := 300
  model := some R.spec.bareId
  attachments := some attachments
  clientJob := some (R.clientJob q)
  jobIdempotencyKey := q.idempotencyKey
  jobPayloadHash := q.clientHash E
  traceId := q.traceId
  labels := q.labels
  priority := q.priority

/-- `jobs_submit` on the subscription path, from the pick of the account to `create_run`; `refusal` is what
`admit_request` answers. -/
def submit (E : HashEnv) (s : CreateSys) (paused : String → Option Time) (refusal : Option String)
    (q : Submission) : Except String CreateArgs := do
  let account ← R.account s paused
  if let some v := R.violation account then .error v
  if let some p := R.problem q.body then .error p
  let (prompt, attachments) ← R.prompt q.body
  if let some e := refusal then .error e
  .ok (R.runArgs E q account prompt attachments)

variable {R}

/-- What `submit` hands on, and when. -/
theorem submit_ok_iff {E : HashEnv} {s : CreateSys} {paused : String → Option Time} {refusal : Option String}
    {q : Submission} {args : CreateArgs} : R.submit E s paused refusal q = .ok args ↔
      ∃ account prompt attachments, R.account s paused = .ok account ∧ R.violation account = none ∧
        R.problem q.body = none ∧ R.prompt q.body = .ok (prompt, attachments) ∧ refusal = none ∧
        args = R.runArgs E q account prompt attachments := by
  unfold submit
  cases haccount : R.account s paused with
  | error e => simp [bind, Except.bind]
  | ok account =>
    cases hviolation : R.violation account with
    | some v => simp [bind, Except.bind, hviolation]
    | none =>
      cases hproblem : R.problem q.body with
      | some p => simp [bind, Except.bind, hviolation]
      | none =>
        cases hprompt : R.prompt q.body with
        | error e => simp [bind, Except.bind, hviolation]
        | ok made =>
          obtain ⟨prompt, attachments⟩ := made
          cases refusal with
          | some e => simp [bind, Except.bind, hviolation]
          | none => simp [bind, Except.bind, hviolation, eq_comm]

/-- The digested text of a run's request. -/
def digestText (repr : ℚ → List Char) (a : CreateArgs) : String :=
  String.ofList (payloadText repr a.projectId a.capability (Val.ofJsonEntries (runRequest a)))

/-- Without a key the run is hashed as it is stored. -/
theorem runArgs_hash {E : HashEnv} {q : Submission} (hkey : q.idempotencyKey = none) (account prompt : String)
    (attachments : List Json) :
    (R.runArgs E q account prompt attachments).hash E =
      E.md5 (digestText E.floatRepr (R.runArgs E q account prompt attachments)) := by
  have hclient : q.clientHash E = none := by simp [Submission.clientHash, hkey]
  unfold CreateArgs.hash
  rw [if_neg (by simp [runArgs, hclient, present]), payloadHash_eq]
  rfl

/-- The text holds the account. -/
theorem account_of_digestText_eq (F : FlatFloatText ℚ) {a a' : CreateArgs}
    (h : digestText F.repr a = digestText F.repr a') : a.accountId = a'.accountId := by
  obtain ⟨-, -, hsame⟩ := same_of_payloadText_eq F (String.ofList_inj.mp h)
  have hplain : ∀ a : CreateArgs, withoutNullFields (Val.ofJsonEntries (runRequest a)) =
      Val.ofJsonEntries (runRequest a) := fun _ => rfl
  rw [hplain, hplain] at hsame
  obtain ⟨fs, hfs, -, hentries⟩ := hsame
  obtain rfl := Val.obj.inj hfs
  simp only [runRequest, Val.ofJsonEntries, Val.ofJson, Val.SameEntries] at hentries
  obtain ⟨-, -, ⟨z, hz, hsamez⟩, -⟩ := hentries
  rw [Val.same_str] at hsamez
  subst hsamez
  simpa using hz

/-- Two submissions of a payload that get the same account, prompt and attachments hash alike. -/
theorem runArgs_hash_congr {E : HashEnv} {first second : Submission} (h : second.Resubmits first)
    (account prompt : String) (attachments : List Json) :
    (R.runArgs E second account prompt attachments).hash E = (R.runArgs E first account prompt attachments).hash E := by
  rw [runArgs_hash h.keys.2, runArgs_hash h.keys.1]
  simp only [digestText, runArgs, runRequest, clientJob, h.project, h.capability, h.body]

theorem keyless_runArgs {E : HashEnv} {q : Submission} (hkey : q.idempotencyKey = none) (account prompt : String)
    (attachments : List Json) : (R.runArgs E q account prompt attachments).Keyless := ⟨rfl, hkey⟩

end SubscriptionRoute

/-- The lookup of a call without a key answers with a run exactly when it finds it. -/
theorem findJobPhase_existing_iff {E : HashEnv} {u : CreateSys} {args : CreateArgs} (hkey : args.Keyless)
    {now : Time} {id : ℕ} :
    findJobPhase E u args now = .done (.existing id) ↔ ∃ hit, findInflight E u args now = some hit ∧ hit.id = id := by
  have habsent : ¬present args.jobIdempotencyKey = true := by rw [not_present_of_none hkey.2]; simp
  simp only [findJobPhase, if_neg habsent]
  cases hf : findInflight E u args now with
  | none =>
    simp only [afterLookups]
    split_ifs <;> simp
  | some hit => simp

/-- A call answered by its lookup has ended: no row is added. -/
theorem findJob_ends {E : HashEnv} {u : CreateSys} {k : ℕ} {args : CreateArgs} {now : Time} {r : CreateResult}
    (hcall : u.calls[k]? = some ⟨args, .findJob⟩) (h : findJobPhase E u args now = .done r) :
    ∃ u', u.step E (.step k now) = some u' ∧ u'.calls[k]? = some ⟨args, .done r⟩ ∧ u'.rows = u.rows ∧
      u'.nextId = u.nextId := by
  refine ⟨u.setPhase k ⟨args, .findJob⟩ (.done r), ?_, ?_, rfl, rfl⟩
  · simp only [CreateSys.step, hcall, stepCreate, h]
  · have hk : k < u.calls.length := (List.getElem?_eq_some_iff.mp hcall).1
    simp [CreateSys.setPhase, hk]

/-! ### Resubmitting -/

/-- An unfinished, recent plain job. -/
def PlainInFlight (u : SubmitSys) (id : ℕ) (now : Time) : Prop :=
  ∃ q ∈ u.queue.rows, q.id = id ∧ q.status.terminal = false ∧ now - dedupWindow < q.createdAt

/-- The answer of a subscription submission that arrives at `t` and looks its payload up at `u`. -/
def runAnswer (E : HashEnv) (R : SubscriptionRoute) (t : CreateSys) (paused : String → Option Time)
    (refusal : Option String) (q : Submission) (u : CreateSys) (now : Time) : Except String Agent.CreatePhase :=
  (R.submit E t paused refusal q).map fun args => findJobPhase E u args now

/-- The two digests, if both are taken, are of one text. -/
def NoCollision (md5 : String → String) (t t' : String) : Prop := md5 t = md5 t' → t = t'

variable {cfg : QueueConfig} {md5 : String → String} {F : FlatFloatText ℚ} {specs : List ModelSpec}
  {providers : List String} {first second : Submission}

/-- **Plain resubmissions** find the first job unless a newer one of the payload overtakes it. -/
theorem plain_returns_first_iff (h : second.Resubmits first) (hplain : first.Plain specs providers)
    {as bs : List SubmitAct} {s u : SubmitSys} {E : HashEnv}
    (hrun : Steps (SubmitSys.step cfg E) LookupsSucceed {} as s) {i w id : ℕ} {replayed : Bool}
    (hcall : s.calls[i]? = some ⟨w, first.args, .done (.returned id replayed)⟩)
    (hrun' : Steps (SubmitSys.step cfg E) LookupsSucceed s bs u) {now : Time} (hlive : PlainInFlight u id now)
    (worker : ℕ) (refusal : Option String) :
    plainAnswer E specs u worker refusal second now = some (.done (.returned id false)) ↔
      refusal = none ∧ ¬Overtaken (fun q : PlainJobRow => q.createdAt) (fun q => q.id = id)
        (inflightMatches u first.args (first.args.hash E) now) := by
  have hs : DedupInv E s := DedupInv.run ⟨rfl, by simp⟩ hrun
  have hkeyed : ∀ q : Submission, q.idempotencyKey = none → q.args.keyed = false := fun q hq => by
    simp [SubmitArgs.keyed, Submission.args, hq]
  obtain ⟨row, hrow, rfl, hof⟩ := hs.row (List.mem_of_getElem? hcall) rfl (hkeyed first h.keys.1)
  have hlookup := lookup_returns_iff (c := ⟨worker, second.args, .lookup⟩) (hs.run hrun').on
    (cols_of_run hrun' row hrow) hof (hkeyed second h.keys.2) ⟨h.project, h.capability⟩
    (by simp [SubmitArgs.hash, buildRequest, Submission.args, h.project, h.capability, h.body]) hlive
  have hroute : jobsSubmit E specs u.cols second = .submit second.args := by
    have hshell : ¬(second.body.noShell = true ∧ (ChatBody.subscriptionModel specs second.body.model).isNone) := by
      rw [h.body, hplain.shell]
      simp
    simp only [jobsSubmit, if_neg hshell, h.keys.2, knownJobId]
  cases refusal with
  | none => simp only [plainAnswer, hroute, Option.some.injEq, hlookup, true_and]
  | some e => simp [plainAnswer, hroute]

/-- **Subscription resubmissions** find the first run exactly when the same account is picked again and no
newer run of the payload overtakes it. -/
theorem subscription_returns_first_iff (h : second.Resubmits first) {R : SubscriptionRoute} {s₀ : CreateSys}
    {paused₀ : String → Option Time} {args₁ : CreateArgs}
    (hfirst : R.submit ⟨md5, F.repr⟩ s₀ paused₀ none first = .ok args₁) {as bs : List CreateAct}
    {s t u : CreateSys} (hrun : Steps (CreateSys.step ⟨md5, F.repr⟩) Free {} as s) {i : ℕ} {r : CreateResult}
    {id : ℕ} (hcall : s.calls[i]? = some ⟨args₁, .done r⟩) (hid : r.runId? = some id)
    (hrun' : Steps (CreateSys.step ⟨md5, F.repr⟩) Free s bs u) {now : Time} (hlive : RunInFlight u id now)
    {paused : String → Option Time} {refusal : Option String}
    (hmd5 : ∀ args₂, R.submit ⟨md5, F.repr⟩ t paused refusal second = .ok args₂ →
      NoCollision md5 (SubscriptionRoute.digestText F.repr args₂) (SubscriptionRoute.digestText F.repr args₁)) :
    runAnswer ⟨md5, F.repr⟩ R t paused refusal second u now = .ok (.done (.existing id)) ↔
      refusal = none ∧ R.account t paused = .ok args₁.accountId ∧
        ¬Overtaken CreatedRun.createdAt (fun r => r.id = id)
          (inflightRuns u args₁ (args₁.hash ⟨md5, F.repr⟩) now) := by
  obtain ⟨account, prompt, attachments, haccount, hviolation, hproblem, hprompt, -, rfl⟩ :=
    SubscriptionRoute.submit_ok_iff.mp hfirst
  have hs : RunDedupInv ⟨md5, F.repr⟩ s := RunDedupInv.init.run hrun
  obtain ⟨row, hrow, rfl, hof⟩ := hs.row (List.mem_of_getElem? hcall) rfl hid
    (SubscriptionRoute.keyless_runArgs h.keys.1 account prompt attachments)
  have hlookup := fun args => findInflight_returns_iff (hs.run hrun') (rows_of_run hrun' row hrow) hof args
  have hanswer : runAnswer ⟨md5, F.repr⟩ R t paused refusal second u now = .ok (.done (.existing row.id)) ↔
      ∃ args₂, R.submit ⟨md5, F.repr⟩ t paused refusal second = .ok args₂ ∧
        findJobPhase ⟨md5, F.repr⟩ u args₂ now = .done (.existing row.id) := by
    unfold runAnswer
    cases R.submit ⟨md5, F.repr⟩ t paused refusal second with
    | error e => simp [Except.map]
    | ok args₂ => simp [Except.map]
  rw [hanswer]
  constructor
  · rintro ⟨args₂, hsubmit, hfound⟩
    have hcollide := hmd5 args₂ hsubmit
    obtain ⟨account₂, prompt₂, attachments₂, haccount₂, -, -, hprompt₂, hrefusal, rfl⟩ :=
      SubscriptionRoute.submit_ok_iff.mp hsubmit
    have hkeyless := SubscriptionRoute.keyless_runArgs (E := ⟨md5, F.repr⟩) (R := R) h.keys.2 account₂ prompt₂
      attachments₂
    obtain ⟨hhash, hnot⟩ := (hlookup (R.runArgs ⟨md5, F.repr⟩ second account₂ prompt₂ attachments₂)
      ⟨h.project, rfl⟩ hlive).mp ((findJobPhase_existing_iff hkeyless).mp hfound)
    refine ⟨hrefusal, ?_, hnot⟩
    -- equal digests are of one text, and the text holds the account
    rw [SubscriptionRoute.runArgs_hash h.keys.2, SubscriptionRoute.runArgs_hash h.keys.1] at hhash
    have hsame := SubscriptionRoute.account_of_digestText_eq F (hcollide hhash)
    exact haccount₂.trans (congrArg Except.ok hsame)
  · rintro ⟨rfl, hagain, hnot⟩
    have hsubmit : R.submit ⟨md5, F.repr⟩ t paused none second =
        .ok (R.runArgs ⟨md5, F.repr⟩ second account prompt attachments) :=
      SubscriptionRoute.submit_ok_iff.mpr ⟨account, prompt, attachments, hagain, hviolation,
        by rw [h.body]; exact hproblem, by rw [h.body]; exact hprompt, rfl, rfl⟩
    refine ⟨_, hsubmit, ?_⟩
    refine (findJobPhase_existing_iff (SubscriptionRoute.keyless_runArgs h.keys.2 _ _ _)).mpr ?_
    refine (hlookup (R.runArgs ⟨md5, F.repr⟩ second account prompt attachments) ⟨h.project, rfl⟩ hlive).mpr
      ⟨?_, hnot⟩
    exact SubscriptionRoute.runArgs_hash_congr h account prompt attachments

/-- **Resubmitting an unfinished request**, over every run in which the first submission was answered with a
job, that job is still unfinished and recent, and anything else happened in between: the answer to the
second is that job exactly when no check refuses it, no newer job of the payload overtakes the first, and,
for a subscription model, the account picked for it is that of the first run.  A call answered by its lookup
adds no row. -/
theorem resubmit_returns_first_iff (cfg : QueueConfig) (md5 : String → String) (F : FlatFloatText ℚ)
    (specs : List ModelSpec) (providers : List String) (first second : Submission) (h : second.Resubmits first) :
    (first.Plain specs providers →
      ∀ as s, Steps (SubmitSys.step cfg ⟨md5, F.repr⟩) LookupsSucceed {} as s →
      ∀ (i w id : ℕ) (replayed : Bool),
        s.calls[i]? = some (SubmitCall.mk w first.args (.done (.returned id replayed))) →
      ∀ bs u, Steps (SubmitSys.step cfg ⟨md5, F.repr⟩) LookupsSucceed s bs u →
      ∀ (now : Time) (worker : ℕ) (refusal : Option String), PlainInFlight u id now →
        (plainAnswer ⟨md5, F.repr⟩ specs u worker refusal second now = some (.done (.returned id false)) ↔
          refusal = none ∧ ¬Overtaken (fun q : PlainJobRow => q.createdAt) (fun q => q.id = id)
            (inflightMatches u first.args (first.args.hash ⟨md5, F.repr⟩) now))) ∧
    (∀ (R : SubscriptionRoute) s₀ paused₀ args₁, R.submit ⟨md5, F.repr⟩ s₀ paused₀ none first = .ok args₁ →
      ∀ as s, Steps (CreateSys.step ⟨md5, F.repr⟩) Free {} as s →
      ∀ (i : ℕ) r id, s.calls[i]? = some (CreateCall.mk args₁ (.done r)) → r.runId? = some id →
      ∀ bs t, Steps (CreateSys.step ⟨md5, F.repr⟩) Free s bs t → ∀ paused refusal,
      ∀ cs u, Steps (CreateSys.step ⟨md5, F.repr⟩) Free t cs u → ∀ now, RunInFlight u id now →
        (∀ args₂, R.submit ⟨md5, F.repr⟩ t paused refusal second = .ok args₂ →
          NoCollision md5 (SubscriptionRoute.digestText F.repr args₂)
            (SubscriptionRoute.digestText F.repr args₁)) →
        (runAnswer ⟨md5, F.repr⟩ R t paused refusal second u now = .ok (.done (.existing id)) ↔
          refusal = none ∧ R.account t paused = .ok args₁.accountId ∧
            ¬Overtaken CreatedRun.createdAt (fun r => r.id = id)
              (inflightRuns u args₁ (args₁.hash ⟨md5, F.repr⟩) now))) ∧
    (∀ (u : SubmitSys) (k w : ℕ) (now : Time) r, u.calls[k]? = some (SubmitCall.mk w second.args .lookup) →
      lookupPhase ⟨md5, F.repr⟩ u ⟨w, second.args, .lookup⟩ now = .done r →
      ∃ u', u.step cfg ⟨md5, F.repr⟩ (.lookup k now) = some u' ∧
        u'.calls[k]? = some (SubmitCall.mk w second.args (.done r)) ∧ u'.cols = u.cols ∧ u'.queue = u.queue) ∧
    ∀ (u : CreateSys) (k : ℕ) args (now : Time) r, u.calls[k]? = some (CreateCall.mk args .findJob) →
      findJobPhase ⟨md5, F.repr⟩ u args now = .done r →
      ∃ u', u.step ⟨md5, F.repr⟩ (.step k now) = some u' ∧ u'.calls[k]? = some (CreateCall.mk args (.done r)) ∧
        u'.rows = u.rows ∧ u'.nextId = u.nextId := by
  refine ⟨?_, ?_, fun u k w now r hcall hdone => lookup_ends hcall hdone,
    fun u k args now r hcall hdone => findJob_ends hcall hdone⟩
  · intro hplain as s hrun i w id replayed hcall bs u hrun' now worker refusal hlive
    exact plain_returns_first_iff h hplain hrun hcall hrun' hlive worker refusal
  · intro R s₀ paused₀ args₁ hfirst as s hrun i r id hcall hid bs t hrun' paused refusal cs u hrun'' now hlive hmd5
    exact subscription_returns_first_iff h hfirst hrun hcall hid (hrun'.trans hrun'') hlive hmd5

/-! ### One account and two -/

/-- The prompt of the conversation below. -/
def helloPrompt : String :=
  "Continue this conversation. Respect the roles in the JSON transcript:\n" ++
  "[\x7b\"role\": \"user\", \"content\": \"hi\"\x7d]"

/-- A greeting for a subscription model. -/
def hello (model : String) : Submission where
  projectId := 1
  capability := "chat:fast"
  body := { messages := [.obj [("role", .str "user"), ("content", .str "hi")]], model := some model
            temperature := 7 / 10 }

/-- Codex has a single login. -/
def codexRoute : SubscriptionRoute where
  spec := ⟨"codex-sub/gpt-6.1-sol", "codex-sub"⟩
  capability := "agent:codex"
  prompt _ := .ok (helloPrompt, [])

/-- The digest of the one text below. -/
def codexDigest (text : String) : String :=
  if text = SubscriptionRoute.digestText fractionFloats.repr
      (codexRoute.runArgs ⟨id, fractionFloats.repr⟩ (hello "codex-sub/gpt-6.1-sol") "owner" helloPrompt []) then
    "b974d80c45b4bf5c8b7c9ae609c67b6e"
  else ""

def codexHello : CreateArgs :=
  codexRoute.runArgs ⟨codexDigest, fractionFloats.repr⟩ (hello "codex-sub/gpt-6.1-sol") "owner" helloPrompt []

/-- With one account the second submission is answered with the run of the first. -/
theorem resubmit_returns_first_codex :
    ∃ u, Steps (CreateSys.step ⟨codexDigest, fractionFloats.repr⟩) Free {}
        (.call codexHello :: List.replicate 4 (.step 0 0)) u ∧
      runAnswer ⟨codexDigest, fractionFloats.repr⟩ codexRoute u (fun _ => none) none
        (hello "codex-sub/gpt-6.1-sol") u 1 = .ok (.done (.existing 1)) := by
  have hrun : (execAll (CreateSys.step ⟨codexDigest, fractionFloats.repr⟩) {}
      (.call codexHello :: List.replicate 4 (.step 0 0))).map
        (fun u => (u.calls, u.rows.map (fun r => (r.id, r.createdAt)), (u.live 1).status)) =
      some ([⟨codexHello, .done (.created 1)⟩], [(1, 0)], .pending) := rfl
  obtain ⟨u, hu, hobs⟩ := steps_of_observed hrun
  obtain ⟨hcalls, hobs⟩ := Prod.mk.inj hobs
  obtain ⟨hrows, hstatus⟩ := Prod.mk.inj hobs
  have hcall : u.calls[0]? = some ⟨codexHello, .done (.created 1)⟩ := by rw [hcalls]; rfl
  have hall : ∀ row ∈ u.rows, row.id = 1 ∧ row.createdAt = 0 := by
    intro row hrow
    have hmem : (row.id, row.createdAt) ∈ u.rows.map fun r => (r.id, r.createdAt) := List.mem_map_of_mem hrow
    simpa [hrows] using hmem
  have hlive : RunInFlight u 1 1 := by
    obtain ⟨row, hrow⟩ : ∃ row, row ∈ u.rows := by
      cases hu : u.rows with
      | nil => simp [hu] at hrows
      | cons row rows => exact ⟨row, List.mem_cons_self⟩
    refine ⟨row, hrow, (hall row hrow).1, by rw [hstatus]; rfl, ?_⟩
    rw [(hall row hrow).2]
    decide
  have hsubmit : ∀ s : CreateSys, codexRoute.submit ⟨codexDigest, fractionFloats.repr⟩ s (fun _ => none) none
      (hello "codex-sub/gpt-6.1-sol") = .ok codexHello := fun s =>
    SubscriptionRoute.submit_ok_iff.mpr ⟨"owner", helloPrompt, [], rfl, rfl, rfl, rfl, rfl, rfl⟩
  obtain ⟨-, hsub, -⟩ := resubmit_returns_first_iff {} codexDigest fractionFloats [] []
    (hello "codex-sub/gpt-6.1-sol") (hello "codex-sub/gpt-6.1-sol") ⟨rfl, rfl, rfl, rfl, rfl⟩
  refine ⟨u, hu, (hsub codexRoute {} (fun _ => none) codexHello (hsubmit {}) _ u hu 0 _ 1 hcall rfl [] u (.nil u)
    (fun _ => none) none [] u (.nil u) 1 hlive fun args₂ h => ?_).mpr ⟨rfl, rfl, ?_⟩⟩
  · obtain rfl := Except.ok.inj ((hsubmit u).symm.trans h)
    exact fun _ => rfl
  · rintro ⟨as, x, bs, hsplit, hne, -⟩
    have hx : x ∈ as ++ x :: bs := by simp
    rw [← hsplit] at hx
    exact hne (hall x (mem_inflightRuns.mp hx).1).1

/-- The digested text of the greeting on an account. -/
def helloText (account : String) : String :=
  "1:agent:claude:\x7b\"accept_paid_continuation_risk\":false,\"account_id\":\"" ++ account ++
  "\",\"allowed_tools\":[],\"attachments\":[],\"client_job\":\x7b\"capability\":\"chat:fast\"," ++
  "\"model\":\"claude-sub/claude-sonnet-5-5\",\"provider\":\"claude-sub\",\"response_format\":null," ++
  "\"terminal_tools\":[],\"tool_choice\":null,\"tools\":[],\"workflow\":null\x7d,\"deadline_s\":21600," ++
  "\"idle_timeout_s\":300,\"model\":\"claude-sonnet-5-5\",\"prompt\":\"Continue this conversation. " ++
  "Respect the roles in the JSON transcript:\\n[\x7b\\\"role\\\": \\\"user\\\", \\\"content\\\": " ++
  "\\\"hi\\\"\x7d]\",\"run_mode\":\"autonomous\",\"session_id\":null,\"task_id\":\"jobs\"," ++
  "\"wall_timeout_s\":1800\x7d"

/-- The digests of the two texts below. -/
def helloEnv : HashEnv where
  md5 text :=
    if text = helloText "owner" then "5e352e73fce39372a7ff5b809a56e8de"
    else if text = helloText "claude-2" then "c4be9f1d59f6507f596b9d1094f13602"
    else ""
  floatRepr := fractionFloats.repr

/-- Two logins share the work. -/
def rotating : SubscriptionRoute where
  spec := ⟨"claude-sub/claude-sonnet-5-5", "claude-sub"⟩
  capability := "agent:claude"
  policy := some ["owner", "claude-2"]
  prompt _ := .ok (helloPrompt, [])

/-- The greeting as a run of an account. -/
def helloRun (account : String) : CreateArgs :=
  rotating.runArgs helloEnv (hello "claude-sub/claude-sonnet-5-5") account helloPrompt []

def noPause (_ : String) : Option Time := none

/-- The statements of a call that finds nothing, at one instant. -/
def createSteps (i : ℕ) (account : String) (now : Time) : List CreateAct :=
  .call (helloRun account) :: List.replicate 4 (.step i now)

/-- A slot nobody names is free. -/
theorem taken_eq_false {slot : CreatedRun → Option (ℕ × String)} {row : CreatedRun} (h : slot row = none)
    (rows : List CreatedRun) : taken slot rows row = false := by
  simp [taken, h]

/-- A call without keys that finds no run of its payload goes to its end and leaves a run. -/
theorem exec_unkeyed_call {E : HashEnv} {s : CreateSys} {a : CreateArgs} {now : Time} {i : ℕ}
    (hi : s.calls.length = i) (hkey : a.idempotencyKey = none) (hjob : a.jobIdempotencyKey = none)
    (hsession : a.sessionId = none) (hfind : findInflight E s a now = none) :
    execAll (CreateSys.step E) s (.call a :: List.replicate 4 (.step i now)) =
      some { s with
        rows := s.rows ++ [newRun E a s.nextId now]
        nextId := s.nextId + 1
        calls := s.calls ++ [⟨a, .done (.created s.nextId)⟩] } := by
  subst hi
  have hrunslot : (newRun E a s.nextId now).runSlot = none := by simp [newRun, CreatedRun.runSlot, hkey]
  have hjobslot : (newRun E a s.nextId now).jobSlot = none := by simp [newRun, CreatedRun.jobSlot, hjob]
  have hfirst : firstPhase a = .findJob := by simp [firstPhase, present, hkey]
  have hafter : afterLookups a = .flushJob := by simp [afterLookups, present, hsession]
  have hlookups : ∀ calls, findJobPhase E { s with calls := calls } a now = .flushJob := by
    intro calls
    have h : findInflight E { s with calls := calls } a now = none := hfind
    simp [findJobPhase, present, hjob, h, hafter]
  simp only [List.replicate, execAll, CreateSys.step, hfirst, Option.bind_some, List.getElem?_concat_length,
    stepCreate, CreateSys.setPhase, hlookups, List.set_append_right, Nat.le_refl, Nat.sub_self,
    List.set_cons_zero, taken_eq_false hjobslot, taken_eq_false hrunslot, Bool.false_eq_true, if_false]
  rfl

theorem digestText_helloRun :
    SubscriptionRoute.digestText helloEnv.floatRepr (helloRun "owner") = helloText "owner" := by
  refine JsonText.ofList_eq (JsonText.append_eq_ofList (JsonText.append_eq_ofList (JsonText.append_eq_ofList
    (JsonText.append_eq_ofList (JsonText.append_eq_ofList (JsonText.append_eq_ofList (JsonText.append_eq_ofList
    (JsonText.append_eq_ofList rfl rfl) rfl) rfl) rfl) rfl) rfl) rfl) rfl) ?_
  decide +kernel

/-- The texts of two accounts differ, and only the first one's is hashed to its digest. -/
theorem hash_helloRun_ne : (helloRun "owner").hash helloEnv ≠ (helloRun "claude-2").hash helloEnv := by
  have htexts : SubscriptionRoute.digestText helloEnv.floatRepr (helloRun "claude-2") ≠ helloText "owner" := by
    intro h
    rw [← digestText_helloRun] at h
    have haccount : (helloRun "claude-2").accountId = (helloRun "owner").accountId :=
      SubscriptionRoute.account_of_digestText_eq fractionFloats h
    exact absurd haccount (by decide)
  have hhash : ∀ account, (helloRun account).hash helloEnv =
      helloEnv.md5 (SubscriptionRoute.digestText helloEnv.floatRepr (helloRun account)) := fun account =>
    SubscriptionRoute.runArgs_hash rfl account helloPrompt []
  have hmd5 : ∀ text, helloEnv.md5 text = if text = helloText "owner" then "5e352e73fce39372a7ff5b809a56e8de"
      else if text = helloText "claude-2" then "c4be9f1d59f6507f596b9d1094f13602" else "" := fun _ => rfl
  have howner : (helloRun "owner").hash helloEnv = "5e352e73fce39372a7ff5b809a56e8de" := by
    rw [hhash, digestText_helloRun, hmd5, if_pos rfl]
  have hother : (helloRun "claude-2").hash helloEnv = "c4be9f1d59f6507f596b9d1094f13602" ∨
      (helloRun "claude-2").hash helloEnv = "" := by
    rw [hhash, hmd5, if_neg htexts]
    split_ifs
    · exact .inl rfl
    · exact .inr rfl
  rw [howner]
  rcases hother with h | h <;> rw [h] <;> decide

/-- The first run loads its account, so the same request goes to the other one and is run again. -/
theorem resubmit_creates_second_run :
    ∃ t u, Steps (CreateSys.step helloEnv) Free {} (createSteps 0 "owner" 0) t ∧
      Steps (CreateSys.step helloEnv) Free t (createSteps 1 "claude-2" 1) u ∧
      rotating.submit helloEnv {} noPause none (hello "claude-sub/claude-sonnet-5-5") = .ok (helloRun "owner") ∧
      rotating.submit helloEnv t noPause none (hello "claude-sub/claude-sonnet-5-5") = .ok (helloRun "claude-2") ∧
      RunInFlight t 1 1 ∧ u.calls.map CreateCall.result = [some (.created 1), some (.created 2)] := by
  let t : CreateSys := { rows := [newRun helloEnv (helloRun "owner") 1 0], nextId := 2
                         calls := [⟨helloRun "owner", .done (.created 1)⟩] }
  have ht : Steps (CreateSys.step helloEnv) Free {} (createSteps 0 "owner" 0) t :=
    steps_of_execAll (exec_unkeyed_call rfl rfl rfl rfl rfl)
  have hfind : findInflight helloEnv t (helloRun "claude-2") 1 = none := by
    have hrows : ∀ r ∈ t.rows, r.payloadHash ≠ (helloRun "claude-2").hash helloEnv := by
      intro r hr
      obtain rfl := List.mem_singleton.mp hr
      have hhash : ∀ a id now, (newRun helloEnv a id now).payloadHash = a.hash helloEnv := fun _ _ _ => rfl
      rw [hhash]
      exact hash_helloRun_ne
    simp only [findInflight]
    rw [List.filter_eq_nil_iff.mpr fun r hr => by simp [hrows r hr]]
    rfl
  have hsubmit : ∀ s account, rotating.account s noPause = .ok account →
      rotating.submit helloEnv s noPause none (hello "claude-sub/claude-sonnet-5-5") = .ok (helloRun account) :=
    fun s account hs => SubscriptionRoute.submit_ok_iff.mpr ⟨account, helloPrompt, [], hs, rfl, rfl, rfl, rfl, rfl⟩
  refine ⟨t, _, ht, steps_of_execAll (exec_unkeyed_call rfl rfl rfl rfl hfind),
    hsubmit {} "owner" (by decide +kernel), hsubmit t "claude-2" (by decide +kernel), ?_, rfl⟩
  exact ⟨_, List.mem_singleton.mpr rfl, rfl, rfl, by decide⟩

end Broker.Routes
