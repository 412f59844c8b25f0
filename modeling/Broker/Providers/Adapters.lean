import Broker.Agent.Redact
import Broker.Providers.Cost

/-!
# Broker.Providers.Adapters — what a provider's adapter changes of a request

`litellm_chat` builds the arguments of a call from what `run_chat` passes; the adapter of the model's provider
then rewrites them.  `none` is a call that raises before it is sent.  The number of output tokens asked for is
the caller's, except that a DeepSeek hybrid thinking about a large JSON prompt is given at least 3000
(`request_maxTokens`), although the cost was reserved for the caller's number.
-/

namespace Broker.Providers

open Broker.Lib Broker.Agent

/-! ### Sizes -/

/-- `len(v or "")`. -/
def lenOr (v : Val PyFloat) : Option ℕ :=
  if v.truthy then
    match v with
    | .str s => some s.length
    | .arr xs => some xs.length
    | .obj es => some es.length
    | _ => none
  else some 0

/-- What a block of a multimodal message counts for; an image or audio block counts as 1000. -/
def blockChars : Val PyFloat → Option ℕ
  | .obj b => if (Doc.get b "type").isText "text" then lenOr (Doc.get b "text") else some 1000
  | _ => some 0

/-- `content_chars`. -/
def contentChars : Val PyFloat → Option ℕ
  | .str s => some s.length
  | .arr bs => (bs.mapM blockChars).map List.sum
  | _ => some 0

/-- `_prompt_chars`. -/
def promptChars (messages : List Doc) : Option ℕ :=
  (messages.mapM fun m => contentChars (Doc.get m "content")).map List.sum

/-! ### The arguments of a call -/

/-- The arguments of `litellm.acompletion` that an adapter reads or writes. -/
structure Kwargs where
  model : String
  messages : List Doc
  maxTokens : ℤ
  temperature : Option PyFloat
  responseFormat : Option Doc := none
  reasoningEffort : Option String := none
  extraBody : Option Doc := none
  apiBase : Option String := none

/-- `model.split("/", 1)[-1]`. -/
def modelTail (model : String) : String :=
  match model.toList.dropWhile (· ≠ '/') with
  | [] => model
  | _ :: tail => String.ofList tail

/-- `text.startswith(p)`. -/
def startsWith (text p : String) : Bool := p.toList.isPrefixOf text.toList

/-- `text.startswith(prefixes)`. -/
def startsWithAny (text : String) (prefixes : List String) : Bool := prefixes.any (startsWith text)

/-- `kwargs.setdefault("extra_body", {}).setdefault(key, v)`. -/
def Kwargs.setExtra (kw : Kwargs) (key : String) (v : Val PyFloat) : Kwargs :=
  let body := kw.extraBody.getD []
  { kw with extraBody := some (if Doc.has body key then body else OrderedDict.setItem body key v) }

/-- The body parameter that turns thinking off. -/
def Kwargs.disableThinking (kw : Kwargs) : Kwargs :=
  kw.setExtra "thinking" (.obj [("type", .str "disabled")])

def isUser (m : Doc) : Bool := (Doc.get m "role").isText "user"

def textBlock (text : String) : Val PyFloat := .obj [("type", .str "text"), ("text", .str text)]

/-- The suffix behind a message's own content; a content that is no text cannot be added to. -/
def appendSuffix (suffix : String) (m : Doc) : Option Doc :=
  match Doc.get m "content" with
  | .arr bs => some (OrderedDict.setItem m "content" (.arr (bs ++ [textBlock suffix])))
  | .str s => some (OrderedDict.setItem m "content" (.str (s ++ suffix)))
  | v => if v.truthy then none else some (OrderedDict.setItem m "content" (.str suffix))

/-- `_append_to_last_user_message`. -/
def appendToLastUserMessage (messages : List Doc) (suffix : String) : Option (List Doc) :=
  let later := messages.reverse.takeWhile (fun m => !isUser m)
  match messages.reverse.dropWhile (fun m => !isUser m) with
  | [] => some (messages ++ [[("role", .str "user"), ("content", .str (String.ofList (PyConv.strip suffix.toList)))]])
  | m :: earlier => (appendSuffix suffix m).map fun m' => earlier.reverse ++ m' :: later.reverse

/-- `_JSON_SCHEMA_HINT`. -/
def jsonSchemaHint : String := "\n\nRespond with a single JSON object that matches this JSON schema:\n"

/-- `_GEMINI_NO_DISABLE_PREFIXES`. -/
def geminiNoDisablePrefixes : List String := ["gemini-3.7", "gemini-3.8", "gemini-4"]

/-- `_DEEPSEEK_JSON_EMPTY_CHARS`. -/
def deepseekJsonEmptyChars : ℕ := 16000

/-- `_DEEPSEEK_THINKING_MT_FLOOR`. -/
def deepseekThinkingMtFloor : ℤ := 1000

/-- `_DEEPSEEK_THINKING_HEADROOM_TOKENS`. -/
def deepseekThinkingHeadroomTokens : ℤ := 3000

/-- `_DEEPSEEK_HYBRID_PREFIXES`. -/
def deepseekHybridPrefixes : List String := ["deepseek-v4", "deepseek-flash"]

/-- `str(rf.get("type", "")).startswith("json")`; only a text starts so. -/
def jsonType (rf : Option Doc) : Bool :=
  match Doc.get (rf.getD []) "type" with
  | .str s => startsWith s "json"
  | _ => false

/-- `_has_image_block`. -/
def hasImageBlock (messages : List Doc) : Bool :=
  messages.any fun m =>
    match Doc.get m "content" with
    | .arr bs => bs.any fun
      | .obj b => (Doc.get b "type").isText "image_url"
      | _ => false
    | _ => false

/-! ### The adapters -/

/-- The adapter classes; a provider without quirks has the default one. -/
inductive Adapter | default | zai | gemini | anthropic | deepseek | cerebras | cloudflare | sambanova
  deriving DecidableEq, Repr

/-- `adapter_for`. -/
def adapterFor (provider : String) : Adapter :=
  if provider = "zai" then .zai
  else if provider = "gemini" then .gemini
  else if provider = "anthropic" then .anthropic
  else if provider = "deepseek" then .deepseek
  else if provider = "cerebras" then .cerebras
  else if provider = "cloudflare" then .cloudflare
  else if provider = "sambanova" then .sambanova
  else .default

section Prepare

-- the digits `json.dumps` writes for a float
variable (floatRepr : PyFloat → List Char)

/-- `downgrade_json_schema`. -/
def downgradeJsonSchema (kw : Kwargs) : Option Kwargs :=
  match kw.responseFormat with
  | none => some kw
  | some rf =>
    if rf = [] ∨ !(Doc.get rf "type").isText "json_schema" then some kw
    else
      (Doc.get rf "json_schema").orDict.bind fun js =>
        let plain := { kw with responseFormat := some [("type", .str "json_object")] }
        if (Doc.get js "schema").isNull then some plain
        else (appendToLastUserMessage kw.messages (jsonSchemaHint ++ dumpsPlain floatRepr (Doc.get js "schema"))).map
          fun messages => { plain with messages := messages }

/-- `keep_thinking`: the prompt is measured only for a JSON reply. -/
def keepThinking (kw : Kwargs) : Option Bool :=
  if jsonType kw.responseFormat then
    (promptChars kw.messages).map fun n => deepseekJsonEmptyChars ≤ n && deepseekThinkingMtFloor ≤ kw.maxTokens
  else some false

/-- `_DeepseekAdapter.prepare`. -/
def deepseekPrepare (model : String) (kw : Kwargs) : Option Kwargs :=
  (downgradeJsonSchema floatRepr kw).bind fun kw =>
    if startsWithAny (modelTail model) deepseekHybridPrefixes then
      (keepThinking kw).map fun keep =>
        if keep then { kw with maxTokens := max kw.maxTokens deepseekThinkingHeadroomTokens }
        else kw.disableThinking
    else some kw

/-- `_GeminiAdapter.prepare`. -/
def geminiPrepare (model : String) (kw : Kwargs) : Kwargs :=
  let tail := modelTail model
  { kw with
    reasoningEffort := some (if startsWithAny tail geminiNoDisablePrefixes then "low" else "disable")
    temperature := if startsWith tail "gemini-3" then none else kw.temperature }

/-- `_AnthropicAdapter.prepare`: a permissive schema forces the tool call. -/
def anthropicPrepare (kw : Kwargs) : Kwargs :=
  match kw.responseFormat with
  | some rf =>
    if rf ≠ [] ∧ (Doc.get rf "type").isText "json_object" then
      { kw with
        responseFormat := some [("type", .str "json_schema"),
          ("json_schema", .obj [("name", .str "reply"),
            ("schema", .obj [("type", .str "object"), ("additionalProperties", .bool true)])])] }
    else kw
  | none => kw

/-- `_SambanovaAdapter.prepare`. -/
def sambanovaPrepare (model : String) (kw : Kwargs) : Kwargs :=
  if hasImageBlock kw.messages then
    { kw with model := "openai/" ++ modelTail model, apiBase := some "https://api.sambanova.ai/v1" }
  else kw

/-- `adapter.prepare`; no adapter reads the lane. -/
def Adapter.prepare (a : Adapter) (model : String) (kw : Kwargs) (_capability : Option String) : Option Kwargs :=
  match a with
  | .default | .cloudflare => some kw
  | .zai => some kw.disableThinking
  | .gemini => some (geminiPrepare model kw)
  | .anthropic => some (anthropicPrepare kw)
  | .deepseek => deepseekPrepare floatRepr model kw
  | .cerebras => downgradeJsonSchema floatRepr kw
  | .sambanova => some (sambanovaPrepare model kw)

end Prepare

/-- `_CF_API_BASE`. -/
def cfApiBase (accountId : String) : String :=
  "https://api.cloudflare.com/client/v4/accounts/" ++ accountId ++ "/ai/run/"

/-- `adapter.key_extra`: the one key it may hold is `api_base`. -/
def Adapter.keyExtra (a : Adapter) (accountId : Option String) : Option String :=
  match a, accountId with
  | .cloudflare, some id => if id = "" then none else some (cfApiBase id)
  | _, _ => none

/-! ### Prompt-cache marks -/

/-- `spec.explicit_cache`. -/
def explicitCache (provider : String) : Bool := provider = "anthropic"

/-- `spec.cache_key_param`. -/
def cacheKeyParam (provider : String) : Option String :=
  if provider ∈ ["cerebras", "mistral", "openai"] then some "prompt_cache_key"
  else if provider = "openrouter" then some "session_id"
  else none

/-- `_MAX_CACHE_MARKS`. -/
def maxCacheMarks : ℕ := 4

/-- `_markable`: a text that is not blank. -/
def markable (m : Doc) : Bool :=
  match Doc.get m "content" with
  | .str s => !(PyConv.strip s.toList).isEmpty
  | _ => false

/-- The positions that are marked: leading system messages, and the end of the conversation. -/
def cacheMarks (messages : List Doc) : List ℕ :=
  let system := messages.takeWhile fun m => (Doc.get m "role").isText "system"
  let ends := (system.zipIdx.filter fun e => markable e.1).map Prod.snd
  let last := ((messages.zipIdx.filter fun e => markable e.1).map Prod.snd).getLast?
  ends.take (maxCacheMarks - 1) ++ last.toList

/-- A marked message: its text as one block. -/
def markMessage (m : Doc) : Doc :=
  OrderedDict.setItem m "content" (.arr [.obj [("type", .str "text"), ("text", Doc.get m "content"),
    ("cache_control", .obj [("type", .str "ephemeral"), ("ttl", .str "1h")])]])

/-- `apply_prompt_cache`. -/
def applyPromptCache (model : String) (messages : List Doc) : List Doc :=
  if explicitCache (routePrefix model) then
    messages.zipIdx.map fun e => if e.2 ∈ cacheMarks messages then markMessage e.1 else e.1
  else messages

/-- `apply_cache_key`. -/
def applyCacheKey (provider : String) (cacheKey : Option String) (kw : Kwargs) : Kwargs :=
  match cacheKey, cacheKeyParam provider with
  | some key, some param => if key = "" then kw else kw.setExtra param (.str key)
  | _, _ => kw

/-! ### The request -/

/-- What `run_chat` passes to one call: the same `maxTokens` is in its estimate. -/
structure ChatCall where
  provider : String
  model : String
  messages : List Doc
  maxTokens : ℤ
  temperature : PyFloat
  responseFormat : Option Doc
  capability : Option String
  cacheKey : Option String
  accountId : Option String

/-- `estimated_cost` of an attempt with the key's tier. -/
def ChatCall.estimatedCost (c : ChatCall) (spec : String → Option ModelPrice)
    (litellm : String → ℤ → ℤ → Option ℚ) (freeTier : Bool) (now : Broker.Db.Time) (estTokens : ℤ) : ℚ :=
  if freeTier && !billsOnFreeKey spec c.model then 0
  else estimateLlmCost spec litellm now c.model estTokens c.maxTokens

/-- The arguments `litellm_chat` starts from. -/
def ChatCall.kwargs (c : ChatCall) : Kwargs where
  model := c.model
  messages := applyPromptCache c.model c.messages
  maxTokens := c.maxTokens
  temperature := some c.temperature
  responseFormat := c.responseFormat.filter (· ≠ [])

/-- The arguments `litellm_chat` sends: the adapter's quirks, the cache key, the key's own address. -/
def ChatCall.request (floatRepr : PyFloat → List Char) (c : ChatCall) : Option Kwargs :=
  let provider := routePrefix c.model
  ((adapterFor provider).prepare floatRepr c.model c.kwargs c.capability).map fun kw =>
    let kw := applyCacheKey provider c.cacheKey kw
    match (adapterFor c.provider).keyExtra c.accountId with
    | some base => { kw with apiBase := some base }
    | none => kw

/-! ### The output tokens a request asks for -/

@[simp] theorem setExtra_maxTokens (kw : Kwargs) (key : String) (v : Val PyFloat) :
    (kw.setExtra key v).maxTokens = kw.maxTokens := rfl

theorem applyCacheKey_maxTokens (provider : String) (key : Option String) (kw : Kwargs) :
    (applyCacheKey provider key kw).maxTokens = kw.maxTokens := by
  unfold applyCacheKey
  split
  · split_ifs <;> rfl
  · rfl

section MaxTokens

variable {floatRepr : PyFloat → List Char}

theorem downgradeJsonSchema_maxTokens {kw kw' : Kwargs} (h : downgradeJsonSchema floatRepr kw = some kw') :
    kw'.maxTokens = kw.maxTokens := by
  unfold downgradeJsonSchema at h
  split at h
  · obtain rfl := Option.some.inj h
    rfl
  · split_ifs at h
    · obtain rfl := Option.some.inj h
      rfl
    · obtain ⟨js, -, h⟩ := Option.bind_eq_some_iff.mp h
      dsimp only at h
      split_ifs at h
      · obtain rfl := Option.some.inj h
        rfl
      · obtain ⟨ms, -, rfl⟩ := Option.map_eq_some_iff.mp h
        rfl

/-- The call whose number of output tokens is raised: a DeepSeek hybrid, a JSON reply, a prompt of at least
16000 characters with the schema it was given, and between 1000 and 2999 tokens asked for. -/
def Raised (floatRepr : PyFloat → List Char) (c : ChatCall) : Prop :=
  routePrefix c.model = "deepseek" ∧ startsWithAny (modelTail c.model) deepseekHybridPrefixes = true ∧
    (∃ kw n, downgradeJsonSchema floatRepr c.kwargs = some kw ∧ jsonType kw.responseFormat = true ∧
      promptChars kw.messages = some n ∧ 16000 ≤ n) ∧ 1000 ≤ c.maxTokens ∧ c.maxTokens < 3000

/-- What DeepSeek's adapter makes of the number of output tokens. -/
theorem deepseekPrepare_maxTokens {model : String} {kw req : Kwargs}
    (h : deepseekPrepare floatRepr model kw = some req) :
    (∃ down n, downgradeJsonSchema floatRepr kw = some down ∧ startsWithAny (modelTail model) deepseekHybridPrefixes = true ∧
        jsonType down.responseFormat = true ∧ promptChars down.messages = some n ∧ 16000 ≤ n ∧
        1000 ≤ kw.maxTokens ∧ req.maxTokens = max kw.maxTokens 3000) ∨
      req.maxTokens = kw.maxTokens ∧
        ¬ (startsWithAny (modelTail model) deepseekHybridPrefixes = true ∧
          (∃ down n, downgradeJsonSchema floatRepr kw = some down ∧ jsonType down.responseFormat = true ∧
            promptChars down.messages = some n ∧ 16000 ≤ n) ∧ 1000 ≤ kw.maxTokens) := by
  obtain ⟨down, hdown, h⟩ := Option.bind_eq_some_iff.mp h
  have hmt := downgradeJsonSchema_maxTokens hdown
  split_ifs at h with hhybrid
  · obtain ⟨keep, hkeep, rfl⟩ := Option.map_eq_some_iff.mp h
    unfold keepThinking at hkeep
    split_ifs at hkeep with hjson
    · obtain ⟨n, hn, rfl⟩ := Option.map_eq_some_iff.mp hkeep
      by_cases hbig : 16000 ≤ n ∧ 1000 ≤ down.maxTokens
      · refine .inl ⟨down, n, hdown, hhybrid, hjson, hn, hbig.1, by rw [← hmt]; exact hbig.2, ?_⟩
        have htrue : (decide (deepseekJsonEmptyChars ≤ n) && decide (deepseekThinkingMtFloor ≤ down.maxTokens)) =
            true := by
          rw [Bool.and_eq_true, decide_eq_true_eq, decide_eq_true_eq]
          exact hbig
        rw [htrue]
        show max down.maxTokens deepseekThinkingHeadroomTokens = _
        rw [hmt]
        rfl
      · refine .inr ⟨?_, ?_⟩
        · have hfalse : (decide (deepseekJsonEmptyChars ≤ n) && decide (deepseekThinkingMtFloor ≤ down.maxTokens)) =
              false := by
            rw [Bool.eq_false_iff]
            intro htrue
            rw [Bool.and_eq_true, decide_eq_true_eq, decide_eq_true_eq] at htrue
            exact hbig htrue
          rw [hfalse]
          exact hmt
        · rintro ⟨-, ⟨down', n', hdown', -, hn', hsize⟩, hfloor⟩
          obtain rfl := Option.some.inj (hdown.symm.trans hdown')
          obtain rfl := Option.some.inj (hn.symm.trans hn')
          exact hbig ⟨hsize, by rw [hmt]; exact hfloor⟩
    · obtain rfl := Option.some.inj hkeep
      refine .inr ⟨hmt, ?_⟩
      rintro ⟨-, ⟨down', n', hdown', hjson', -⟩, -⟩
      obtain rfl := Option.some.inj (hdown.symm.trans hdown')
      exact hjson hjson'
  · obtain rfl := Option.some.inj h
    exact .inr ⟨hmt, fun hraise => hhybrid hraise.1⟩

theorem adapterFor_eq_deepseek {provider : String} : adapterFor provider = .deepseek ↔ provider = "deepseek" := by
  constructor
  · intro h
    unfold adapterFor at h
    split_ifs at h
    assumption
  · rintro rfl
    decide

/-- No other adapter touches the number. -/
theorem prepare_maxTokens {a : Adapter} {model : String} {kw req : Kwargs} {capability : Option String}
    (ha : a ≠ .deepseek) (h : a.prepare floatRepr model kw capability = some req) : req.maxTokens = kw.maxTokens := by
  cases a with
  | default | cloudflare | zai | gemini =>
    obtain rfl := Option.some.inj h
    rfl
  | anthropic =>
    obtain rfl := Option.some.inj h
    unfold anthropicPrepare
    split
    · split_ifs <;> rfl
    · rfl
  | deepseek => exact absurd rfl ha
  | cerebras => exact downgradeJsonSchema_maxTokens h
  | sambanova =>
    obtain rfl := Option.some.inj h
    unfold sambanovaPrepare
    split_ifs <;> rfl

/-- The request of a call: the caller's number, or 3000 where it is raised. -/
theorem request_maxTokens {c : ChatCall} {req : Kwargs} (h : c.request floatRepr = some req) :
    (Raised floatRepr c ∧ req.maxTokens = 3000) ∨ (¬ Raised floatRepr c ∧ req.maxTokens = c.maxTokens) := by
  unfold ChatCall.request at h
  obtain ⟨kw, hprep, hreq⟩ := Option.map_eq_some_iff.mp h
  have hkeep : req.maxTokens = kw.maxTokens := by
    rw [← hreq, ← applyCacheKey_maxTokens (routePrefix c.model) c.cacheKey kw]
    dsimp only
    split <;> rfl
  rw [hkeep]
  by_cases hd : routePrefix c.model = "deepseek"
  · rw [adapterFor_eq_deepseek.mpr hd] at hprep
    rcases deepseekPrepare_maxTokens hprep with ⟨down, n, hdown, hhybrid, hjson, hn, hsize, hfloor, hmax⟩ | ⟨hmt, hno⟩
    · by_cases hlow : c.maxTokens < 3000
      · refine .inl ⟨⟨hd, hhybrid, ⟨down, n, hdown, hjson, hn, hsize⟩, hfloor, hlow⟩, ?_⟩
        rw [hmax]
        exact max_eq_right hlow.le
      · refine .inr ⟨fun hr => hlow hr.2.2.2.2, ?_⟩
        rw [hmax]
        exact max_eq_left (not_lt.mp hlow)
    · exact .inr ⟨fun hr => hno ⟨hr.2.1, hr.2.2.1, hr.2.2.2.1⟩, hmt⟩
  · refine .inr ⟨fun hr => hd hr.1, ?_⟩
    exact prepare_maxTokens (fun ha => hd (adapterFor_eq_deepseek.mp ha)) hprep

/-- Where the number is not raised, the reserved amount of a paid key is the price of what is asked for. -/
theorem estimatedCost_of_not_raised {c : ChatCall} {req : Kwargs} (h : c.request floatRepr = some req)
    (hr : ¬ Raised floatRepr c) (spec : String → Option ModelPrice) (litellm : String → ℤ → ℤ → Option ℚ)
    (now : Broker.Db.Time) (estTokens : ℤ) :
    c.estimatedCost spec litellm false now estTokens =
      estimateLlmCost spec litellm now c.model estTokens req.maxTokens := by
  rcases request_maxTokens h with ⟨hraised, -⟩ | ⟨-, hmt⟩
  · exact absurd hraised hr
  · rw [hmt, ChatCall.estimatedCost]
    rfl

/-- **The reservation covers what the provider may generate, except where the number is raised.**  The number of
output tokens in the request is at most the one the estimate was made with exactly when the call is not one
whose number DeepSeek's adapter raises. -/
theorem request_maxTokens_le_iff (floatRepr : PyFloat → List Char) (c : ChatCall) (req : Kwargs)
    (h : c.request floatRepr = some req) : req.maxTokens ≤ c.maxTokens ↔ ¬ Raised floatRepr c := by
  rcases request_maxTokens h with ⟨hr, hmt⟩ | ⟨hr, hmt⟩
  · have hlow := hr.2.2.2.2
    rw [hmt]
    constructor
    · intro hle
      omega
    · intro hno
      exact absurd hr hno
  · rw [hmt]
    exact ⟨fun _ => hr, fun _ => le_rfl⟩

end MaxTokens

/-- A JSON request about sixteen images. -/
def imagesCall (maxTokens : ℤ) : ChatCall where
  provider := "deepseek"
  model := "deepseek/deepseek-v4-flash"
  messages := [[("role", .str "user"),
    ("content", .arr (List.replicate 16 (.obj [("type", .str "image_url")])))]]
  maxTokens := maxTokens
  temperature := .fin 1
  responseFormat := some [("type", .str "json_object")]
  capability := some "chat:smart"
  cacheKey := none
  accountId := none

theorem request_maxTokens_le_imagesCall :
    ∃ req, (imagesCall 4000).request (fun _ => []) = some req ∧ req.maxTokens ≤ 4000 := by
  have hsome : ((imagesCall 4000).request fun _ => []).isSome = true := by decide +kernel
  obtain ⟨req, hreq⟩ := Option.isSome_iff_exists.mp hsome
  refine ⟨req, hreq, (request_maxTokens_le_iff (fun _ => []) (imagesCall 4000) req hreq).mpr ?_⟩
  intro hraised
  have hlow : (4000 : ℤ) < 3000 := hraised.2.2.2.2
  omega

/-- 2000 tokens are reserved and 3000 asked for. -/
theorem reservation_exceeded :
    ¬ ∀ (c : ChatCall) (req : Kwargs), c.request (fun _ => []) = some req → req.maxTokens ≤ c.maxTokens := by
  intro h
  have hmt : ((imagesCall 2000).request fun _ => []).map (·.maxTokens) = some 3000 := by decide +kernel
  obtain ⟨req, hreq, h3000⟩ := Option.map_eq_some_iff.mp hmt
  have hle := h _ req hreq
  rw [h3000] at hle
  exact absurd hle (by decide)

end Broker.Providers
