import Broker.Lib.PyConv
import Broker.Providers.Cost
import Broker.Providers.Subscriptions
import Mathlib.Data.List.Sort
import Mathlib.Data.Prod.Lex

/-!
# Broker.Providers.Catalog — what a pin resolves to

The registry holds one entry for each provider, and `build_provider` derives the models of an entry from the
lanes that name them.  A pin is a routing id or a bare name; `resolve_pin` orders the models it names by the
rank of their provider, the paid providers last.  No model that OpenRouter bills shares a name with another,
so a pin that resolves to one resolves to nothing else (`eq_singleton_of_billed`).
-/

namespace Broker.Providers

open Broker.Lib

/-! ### The registry -/

/-- The overrides of a model: an entry of `model_meta`. -/
structure ModelMeta where
  pricing : Pricing := .litellm
  inputUsdPerMtok : Option ℚ := none
  outputUsdPerMtok : Option ℚ := none
  capabilities : List String := []

/-- A `ModelSpec`, as far as a pin and a price look at it. -/
structure RegisteredModel extends ModelPrice where
  id : String
  capabilities : List String

/-- What a definition under `provider_specs` passes to `build_provider`. -/
structure ProviderEntry where
  name : String
  rank : ℕ
  paid : Bool := false
  defaults : List (String × String) := []
  rotation : List (String × List String) := []
  modelMeta : List (String × ModelMeta) := []

namespace ProviderEntry

variable (e : ProviderEntry)

/-- The lanes of the models: the loops of `build_provider` over `defaults` and `rotation`. -/
def lanes : List (String × String) :=
  e.defaults.map (fun d => (d.2, d.1)) ++ e.rotation.flatMap fun r => r.2.map fun m => (m, r.1)

/-- The keys of `caps`, in the order they are set. -/
def modelIds : List String := (e.lanes.map Prod.fst ++ e.modelMeta.map Prod.fst).eraseDups

/-- The model `id` of the entry. -/
def model (id : String) : RegisteredModel :=
  let info := (OrderedDict.get e.modelMeta id).getD {}
  { id := id
    provider := e.name
    capabilities := (e.lanes.filter fun l => l.1 = id).map Prod.snd ++ info.capabilities
    pricing := info.pricing
    inputUsdPerMtok := info.inputUsdPerMtok
    outputUsdPerMtok := info.outputUsdPerMtok }

/-- The `models` of the spec. -/
def models : List RegisteredModel := e.modelIds.map e.model

end ProviderEntry

/-- A list price of OpenRouter's catalog, on the lane chat:code. -/
def codeRoute (input output : ℚ) : ModelMeta := ⟨.override, some input, some output, ["chat:code"]⟩

def ProviderEntry.cerebras : ProviderEntry where
  name := "cerebras"
  rank := 10
  defaults := ["chat:fast", "chat:smart", "chat:code", "structured"].map (·, "cerebras/gpt-oss-120b")

def ProviderEntry.groq : ProviderEntry where
  name := "groq"
  rank := 20
  defaults := ["chat:fast", "chat:smart", "chat:code", "prefilter", "structured", "translate"].map
      (·, "groq/openai/gpt-oss-120b") ++ [("transcription", "groq/whisper-large-v3-turbo")]
  modelMeta := [("groq/whisper-large-v3-turbo", { pricing := .perMinute }),
    ("groq/whisper-large-v3", { pricing := .perMinute })]

/-- `GEMINI_CHAT_LANES`. -/
def geminiChatLanes : List String :=
  ["chat:fast", "chat:smart", "chat:sales", "chat:code", "chat:edit", "structured", "prefilter", "translate"]

/-- `GEMINI_CHAT_ROTATION`. -/
def geminiChatRotation : List String :=
  ["gemini/gemini-3.5-flash-lite", "gemini/gemini-3.6-flash", "gemini/gemini-3.1-flash-lite",
    "gemini/gemini-3.5-flash"]

/-- `GEMINI_VISION_ROTATION`. -/
def geminiVisionRotation : List String :=
  ["gemini/gemini-3.5-flash-lite", "gemini/gemini-3.5-flash", "gemini/gemini-3.1-flash-lite"]

def ProviderEntry.gemini : ProviderEntry where
  name := "gemini"
  rank := 30
  defaults := ["chat:fast", "chat:smart", "chat:sales", "chat:code", "chat:edit", "structured", "vision"].map
      (·, "gemini/gemini-2.5-flash") ++
    [("prefilter", "gemini/gemini-2.5-flash-lite"), ("translate", "gemini/gemini-2.5-flash-lite"),
      ("transcription", "gemini/gemini-3.5-transcribe")]
  rotation := geminiChatLanes.map (·, geminiChatRotation) ++ [("vision", geminiVisionRotation)]
  modelMeta := [("gemini/gemini-3.5-transcribe", { pricing := .perMinute })]

def ProviderEntry.sambanova : ProviderEntry where
  name := "sambanova"
  rank := 40
  defaults := [("chat:fast", "sambanova/gemma-4-31B-it"), ("chat:smart", "sambanova/DeepSeek-V3.2"),
    ("chat:sales", "sambanova/DeepSeek-V3.2"), ("chat:code", "sambanova/DeepSeek-V3.2"),
    ("prefilter", "sambanova/gemma-4-31B-it"), ("vision", "sambanova/gemma-4-31B-it")]

def ProviderEntry.zai : ProviderEntry where
  name := "zai"
  rank := 50
  defaults := ["chat:fast", "prefilter"].map (·, "zai/glm-4.7-flash")

def ProviderEntry.cloudflare : ProviderEntry where
  name := "cloudflare"
  rank := 60
  defaults := ("vision", "cloudflare/@cf/llava-hf/llava-1.5-7b-hf") ::
    ["chat:fast", "chat:smart", "chat:code", "prefilter"].map (·, "cloudflare/@cf/openai/gpt-oss-120b")
  modelMeta := [("cloudflare/@cf/llava-hf/llava-1.5-7b-hf", { pricing := .free })]

def ProviderEntry.openrouter : ProviderEntry where
  name := "openrouter"
  rank := 70
  defaults := ["chat:fast", "chat:smart", "chat:code", "prefilter", "structured", "vision"].map
      (·, "openrouter/google/gemma-4-31b-it:free") ++ [("decision", "openrouter/typesafe/jev-1.13")]
  modelMeta := [("openrouter/typesafe/jev-1.13", ⟨.override, some (42 / 1000), some 0, []⟩),
    ("openrouter/google/gemma-4-31b-it:free", { pricing := .free }),
    ("openrouter/meta/muse-wonder", codeRoute 4 20),
    ("openrouter/x-ai/grok-4.7", codeRoute 2 6),
    ("openrouter/xiaomi/mimo-v2.6-pro", codeRoute (435 / 1000) (87 / 100)),
    ("openrouter/qwen/qwen3.8-max-0902", codeRoute 2 6),
    ("openrouter/moonshotai/kimi-k3", codeRoute (45 / 100) 15),
    ("openrouter/inception/mercury-decide:free", { pricing := .free, capabilities := ["decision"] })]

def ProviderEntry.mistral : ProviderEntry where
  name := "mistral"
  rank := 80
  defaults := [("chat:fast", "mistral/mistral-small-latest"), ("chat:smart", "mistral/mistral-large-latest"),
    ("chat:code", "mistral/codestral-latest"), ("prefilter", "mistral/mistral-small-latest"),
    ("structured", "mistral/mistral-small-latest"), ("translate", "mistral/mistral-small-latest")]

def ProviderEntry.cohere : ProviderEntry where
  name := "cohere"
  rank := 90
  defaults := ["chat:fast", "chat:smart", "chat:code", "prefilter", "structured", "translate"].map
      (·, "cohere/command-r7b-12-2024") ++ [("embedding", "cohere/embed-english-v3.0")]

def ProviderEntry.nvidia : ProviderEntry where
  name := "nvidia"
  rank := 100
  defaults := [("chat:deep", "nvidia_nim/nvidia/nemotron-3-ultra-550b-a55b")]
  modelMeta := [("nvidia_nim/nvidia/nemotron-3-ultra-550b-a55b", { pricing := .free })]

def ProviderEntry.voyage : ProviderEntry where
  name := "voyage"
  rank := 300
  defaults := [("embedding", "voyage/voyage-4")]
  modelMeta := [("voyage/voyage-4", ⟨.override, some (6 / 100), some 0, []⟩)]

/-- The provider `local`. -/
def ProviderEntry.selfHosted : ProviderEntry where
  name := "local"
  rank := 5
  defaults := [("vision", "local/qwen3vl")]
  modelMeta := [("local/qwen3vl", { pricing := .selfHosted })]

def ProviderEntry.deepseek : ProviderEntry where
  name := "deepseek"
  rank := 200
  paid := true
  defaults := ["chat:fast", "chat:smart", "chat:sales", "chat:edit", "chat:code", "vision"].map
    (·, "deepseek/deepseek-flash")
  modelMeta := [("deepseek/deepseek-flash", ⟨.override, some (15 / 100), some (60 / 100), []⟩)]

def ProviderEntry.anthropic : ProviderEntry where
  name := "anthropic"
  rank := 210
  paid := true
  defaults := ("chat:fast", "anthropic/claude-haiku-4-5") ::
    ["chat:smart", "chat:sales", "chat:code", "chat:edit"].map (·, "anthropic/claude-sonnet-5") ++
    [("structured", "anthropic/claude-haiku-4-5"), ("vision", "anthropic/claude-sonnet-5")]

def ProviderEntry.openai : ProviderEntry where
  name := "openai"
  rank := 220
  paid := true
  defaults := [("chat:fast", "openai/gpt-5-mini"), ("chat:smart", "openai/gpt-5"), ("chat:code", "openai/gpt-5"),
    ("structured", "openai/gpt-5-mini"), ("vision", "openai/gpt-5-mini"), ("transcription", "openai/whisper-1")]
  modelMeta := [("openai/whisper-1", { pricing := .perMinute })]

/-- `REGISTRY`, in the order of `specs.py`. -/
def registry : List ProviderEntry :=
  [.cerebras, .groq, .gemini, .sambanova, .zai, .cloudflare, .openrouter, .mistral, .cohere, .nvidia, .voyage,
    .selfHosted, .deepseek, .anthropic, .openai]

/-- `get_spec`. -/
def getSpec (provider : String) : Option ProviderEntry := registry.find? fun e => e.name = provider

/-- `all_models`. -/
def allModels : List RegisteredModel := registry.flatMap ProviderEntry.models

/-- `id in spec.models`, and the model. -/
def ProviderEntry.find (e : ProviderEntry) (id : String) : Option RegisteredModel :=
  e.models.find? fun m => m.id = id

/-- `model_spec`. -/
def modelSpec (id : String) : Option RegisteredModel :=
  ((getSpec (routePrefix id)).bind fun e => e.find id).or (registry.findSome? fun e => e.find id)

/-- The price of a registered model. -/
def registryPrice (id : String) : Option ModelPrice := (modelSpec id).map RegisteredModel.toModelPrice

/-! ### Names -/

/-- `text.split("/", 1)[-1]`. -/
def afterFirst (text : List Char) : List Char :=
  if '/' ∈ text then (text.dropWhile (· ≠ '/')).drop 1 else text

/-- `text.rsplit("/", 1)[-1]`. -/
def afterLast (text : List Char) : List Char := text.rtakeWhile (· ≠ '/')

/-- `text.removesuffix(":free")`. -/
def dropFree (text : List Char) : List Char :=
  if text.drop (text.length - 5) = [':', 'f', 'r', 'e', 'e'] then text.take (text.length - 5) else text

/-- `canonical_name`; an id of the catalog is ASCII. -/
def canonicalName (id : String) : List Char := dropFree ((afterLast (afterFirst id.toList)).map Char.toLower)

/-- The names a model answers to: its canonical name and its id without the prefix. -/
def RegisteredModel.names (m : RegisteredModel) : List (List Char) :=
  [canonicalName m.id, dropFree ((afterFirst m.id.toList).map Char.toLower)]

/-! ### Pins -/

/-- `_CHAT_FAMILY`. -/
def chatFamily : List String :=
  ["chat:fast", "chat:smart", "chat:sales", "chat:code", "chat:edit", "chat:deep", "structured", "prefilter",
    "translate"]

/-- `capability_family`. -/
def capabilityFamily (capability : String) : String := if capability ∈ chatFamily then "chat" else capability

/-- `_serves`. -/
def RegisteredModel.serves (capability : String) (m : RegisteredModel) : Bool :=
  m.capabilities.any fun c => capabilityFamily c = capabilityFamily capability

/-- The key of `_order`; a provider outside the registry is free and has the rank 1000. -/
def orderKey (m : RegisteredModel) : Bool ×ₗ ℕ ×ₗ String :=
  toLex (((getSpec m.provider).any (·.paid)), toLex (((getSpec m.provider).map (·.rank)).getD 1000, m.id))

/-- `_order`. -/
def pinOrder (specs : List RegisteredModel) : List RegisteredModel :=
  specs.insertionSort fun a b => orderKey a ≤ orderKey b

/-- `subscription_models`, whose providers `_configured_ids` checks. -/
structure SubscriptionCatalog where
  models : List RegisteredModel := []
  provider : ∀ m ∈ models, m.provider = "claude-sub" ∨ m.provider = "codex-sub" := by simp

/-- The catalog that the settings give; `vision` holds the ids verified for images. -/
def SubscriptionCatalog.ofSettings {I : PyConv.Interp} {s : CatalogSettings} {specs : List ModelSpec}
    (h : subscriptionModels I s = .ok specs) (vision : List String) : SubscriptionCatalog where
  models := specs.map fun spec =>
    { id := spec.id
      provider := spec.provider
      pricing := .subscription
      capabilities := chatFamily ++ if spec.id ∈ vision then ["vision"] else [] }
  provider := by
    intro m hm
    obtain ⟨spec, hspec, rfl⟩ := List.mem_map.mp hm
    exact (mem_subscriptionModels h hspec).1

/-- Why `resolve_pin` raises `UnknownModel`. -/
inductive UnknownModel where
  | unknown
  | doesNotServe (capability : String)
  | notInChain (capability : String) (chain : List String)
  deriving DecidableEq, Repr

section Resolve

variable (lower : List Char → List Char) (subs : SubscriptionCatalog)

/-- `pinnable_models`. -/
def pinnableModels : List RegisteredModel :=
  pinOrder ((allModels ++ subs.models).filter fun m => m.capabilities ≠ [])

/-- The `matches` of `resolve_pin`: the model of a routing id, or those of a bare name. -/
def pinMatches (name : List Char) : List RegisteredModel :=
  match (modelSpec (String.ofList name)).or (subs.models.find? fun m => m.id = String.ofList name) with
  | some exact => [exact]
  | none => (pinnableModels subs).filter fun m =>
      decide (m.provider ∉ ["claude-sub", "codex-sub"]) && m.names.any (· = dropFree (lower name))

/-- `resolve_pin`: the provider and the routing id of each target. -/
def resolvePin (model : List Char) (capability : String) (chain : List String) :
    Except UnknownModel (List (String × String)) :=
  let found := pinMatches lower subs (PyConv.strip model)
  if found.isEmpty then .error .unknown
  else
    let servable := found.filter (RegisteredModel.serves capability)
    if servable.isEmpty then .error (.doesNotServe capability)
    else
      let served := (pinOrder servable).filter fun m => m.provider ∈ chain
      if served.isEmpty then .error (.notInChain capability chain)
      else .ok (served.map fun m => (m.provider, m.id))

end Resolve

variable {lower : List Char → List Char} {subs : SubscriptionCatalog}

/-! ### A billed model is alone under its names -/

theorem nodup_allModels : (allModels.map RegisteredModel.id).Nodup := by
  decide +kernel

/-- **No name of a model that OpenRouter bills is a name of another.** -/
theorem billed_alone : ∀ b ∈ allModels, billsOnFreeKey registryPrice b.id = true →
    ∀ m ∈ allModels, m.id ≠ b.id → ∀ name ∈ m.names, name ∉ b.names := by
  decide +kernel

theorem mem_pinnableModels {m : RegisteredModel} (h : m ∈ pinnableModels subs)
    (hsub : m.provider ∉ ["claude-sub", "codex-sub"]) : m ∈ allModels := by
  have hmem := (List.mem_filter.mp ((List.perm_insertionSort _ _).mem_iff.mp h)).1
  rcases List.mem_append.mp hmem with hall | hcat
  · exact hall
  · exact absurd (subs.provider m hcat) (by simpa using hsub)

/-- Distinct items with one value of `f` are one item. -/
theorem eq_singleton_of_nodup_map {α β : Type} {f : α → β} {xs : List α} {x : α} (hnodup : (xs.map f).Nodup)
    (hx : x ∈ xs) (heq : ∀ y ∈ xs, f y = f x) : xs = [x] := by
  have hrep : xs.map f = List.replicate xs.length (f x) :=
    List.eq_replicate_iff.mpr ⟨List.length_map f, by simpa using heq⟩
  have hlen : xs.length ≤ 1 := List.nodup_replicate.mp (hrep ▸ hnodup)
  obtain ⟨y, rfl⟩ := List.length_eq_one_iff.mp (le_antisymm hlen (List.length_pos_of_mem hx))
  rw [List.mem_singleton.mp hx]

theorem pinMatches_billed {name : List Char} {b : RegisteredModel} (hb : b ∈ pinMatches lower subs name)
    (hbills : billsOnFreeKey registryPrice b.id = true) : pinMatches lower subs name = [b] := by
  unfold pinMatches at hb ⊢
  split at hb
  · rw [List.mem_singleton.mp hb]
  · set named := fun m : RegisteredModel =>
      decide (m.provider ∉ ["claude-sub", "codex-sub"]) && m.names.any (· = dropFree (lower name)) with hnamed
    have hspec : ∀ m ∈ (pinnableModels subs).filter named, m ∈ allModels ∧ dropFree (lower name) ∈ m.names := by
      intro m hm
      obtain ⟨hin, hm⟩ := List.mem_filter.mp hm
      obtain ⟨hsub, hname⟩ := Bool.and_eq_true_iff.mp hm
      exact ⟨mem_pinnableModels hin (of_decide_eq_true hsub), by simpa using hname⟩
    -- the subscription models are filtered out, so every id occurs once
    have hnodup : (((pinnableModels subs).filter named).map RegisteredModel.id).Nodup := by
      have hperm := ((List.perm_insertionSort (fun a b => orderKey a ≤ orderKey b)
        ((allModels ++ subs.models).filter fun m => m.capabilities ≠ [])).filter named).map RegisteredModel.id
      refine hperm.nodup_iff.mpr ?_
      have hnone : ((subs.models.filter fun m => m.capabilities ≠ []).filter named) = [] := by
        refine List.filter_eq_nil_iff.mpr fun m hm hname => ?_
        have hsub := of_decide_eq_true (Bool.and_eq_true_iff.mp hname).1
        exact absurd (subs.provider m (List.mem_filter.mp hm).1) (by simpa using hsub)
      rw [List.filter_append, List.filter_append, hnone, List.append_nil]
      exact nodup_allModels.sublist ((List.filter_sublist.trans List.filter_sublist).map _)
    refine eq_singleton_of_nodup_map hnodup hb fun m hm => ?_
    obtain ⟨hall, hname⟩ := hspec m hm
    obtain ⟨hball, hbname⟩ := hspec b hb
    by_contra hne
    exact billed_alone b hball hbills m hall hne _ hname hbname

/-- **A pin that resolves to a billed route resolves to nothing else.** -/
theorem eq_singleton_of_billed {model : List Char} {capability : String} {chain : List String}
    {targets : List (String × String)} (h : resolvePin lower subs model capability chain = .ok targets)
    {t : String × String} (ht : t ∈ targets) (hbills : billsOnFreeKey registryPrice t.2 = true) :
    targets = [t] := by
  unfold resolvePin at h
  dsimp only at h
  split_ifs at h
  obtain rfl := Except.ok.inj h
  obtain ⟨b, hb, rfl⟩ := List.mem_map.mp ht
  obtain ⟨hserved, hchain⟩ := List.mem_filter.mp hb
  obtain ⟨hfound, hserves⟩ := List.mem_filter.mp ((List.perm_insertionSort _ _).mem_iff.mp hserved)
  rw [pinMatches_billed hfound hbills, List.filter_singleton, hserves]
  simp [pinOrder, of_decide_eq_true hchain]

end Broker.Providers
