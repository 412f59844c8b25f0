import Broker.Lib.Checked
import Broker.Lib.PyVal
import Broker.Routing.SharedState

/-!
# Broker.Providers.Subscriptions — the catalog of subscription models

`_catalog` of `providers/subscriptions.py`: three settings hold JSON lists of model ids for each provider, and
a setting that is no such list, or that names a model the one before it does not, empties the catalog.  Only a
text nested past the interpreter's stack gets through its `except ValueError`.
-/

namespace Broker.Providers

open Broker.Lib Broker.Lib.PyConv Broker.Routing

/-- `PROVIDERS`. -/
def providers : List (String × String) := [("claude-sub", "agent:claude"), ("codex-sub", "agent:codex")]

/-- The catalog's settings, `AGENT_SUBSCRIPTION_MODELS` and its two lists of verified models. -/
structure CatalogSettings where
  models : String
  verified : String
  vision : String

/-- Their defaults. -/
def CatalogSettings.default : CatalogSettings where
  models := "\x7b\"claude-sub\":[\"claude-sonnet-5-5\",\"claude-opus-5-5\",\"claude-haiku-5-5\"],\"codex-sub\":[" ++
    "\"gpt-6.1-sol\",\"gpt-6-astra\",\"gpt-6.1-terra\",\"gpt-6-sol\"," ++
    "\"gpt-6-luna\",\"gpt-5.6-sol\",\"gpt-5.6-terra\",\"gpt-5.6-luna\"]\x7d"
  verified := "\x7b\"claude-sub\":[\"claude-sonnet-5-5\"],\"codex-sub\":[]\x7d"
  vision := "\x7b\"codex-sub\":[]\x7d"

/-- A routable model: its id, with the provider in front, and the provider. -/
structure ModelSpec where
  id : String
  provider : String
  deriving DecidableEq, Repr

/-- `spec.id.split("/", 1)[1]`. -/
def ModelSpec.bareId (spec : ModelSpec) : String :=
  String.ofList ((spec.id.toList.dropWhile (· ≠ '/')).drop 1)

/-! ### Reading the settings -/

def isAsciiAlnum (c : Char) : Bool := c.isDigit || c.isUpper || c.isLower

/-- `_MODEL_ID.fullmatch`. -/
def isModelId (s : String) : Bool :=
  match s.toList with
  | [] => false
  | c :: cs => isAsciiAlnum c && cs.all fun d => isAsciiAlnum d || d == '_' || d == '.' || d == '-'

/-- One id of a provider's list. -/
def modelId : Val PyFloat → Except PyError String
  | .str s => if isModelId s then .ok s else .error .valueError
  | _ => .error .valueError

/-- The ids of one provider, each once. -/
def modelIds : Val PyFloat → Except PyError (List String)
  | .arr xs => do
    let ids ← xs.mapM modelId
    if ids.Nodup then .ok ids else .error .valueError
  | _ => .error .valueError

variable (I : Interp)

/-- The loop of `_configured_ids` over the entries. -/
def providerIds (data : Doc) : Except PyError (List (String × List String)) :=
  data.mapM fun e => do
    let ids ← modelIds e.2
    .ok (e.1, ids)

/-- `_configured_ids`. -/
def configuredIds (default configured : String) : Except PyError (List (String × List String)) := do
  match ← loads I (if configured = "default" then default else configured) with
  | .obj data =>
    if data.all fun e => (OrderedDict.get providers e.1).isSome then providerIds data else .error .valueError
  | _ => .error .valueError

/-- Some id of `ids` is not among its provider's in `known`. -/
def strays (ids known : List (String × List String)) : Bool :=
  ids.any fun e => e.2.any fun mid => mid ∉ (OrderedDict.get known e.1).getD []

/-- The body of `_catalog`'s `try`: the models and the ids of the verified ones. -/
def readCatalog (s : CatalogSettings) : Except PyError (List ModelSpec × List String) := do
  let data ← configuredIds I CatalogSettings.default.models s.models
  let verified ← configuredIds I CatalogSettings.default.verified s.verified
  let vision ← configuredIds I CatalogSettings.default.vision s.vision
  if strays verified data then .error .valueError
  else if strays vision verified then .error .valueError
  else .ok (data.flatMap fun e => e.2.map fun mid => ⟨e.1 ++ "/" ++ mid, e.1⟩,
    verified.flatMap fun e => e.2.map fun mid => e.1 ++ "/" ++ mid)

/-- `_catalog`. -/
def catalog (s : CatalogSettings) : Except PyError (List ModelSpec × List String) :=
  Checked.catching (· = .valueError) ([], []) (readCatalog I s)

/-- `subscription_models`. -/
def subscriptionModels (s : CatalogSettings) : Except PyError (List ModelSpec) := (catalog I s).map Prod.fst

/-! ### What the catalog holds -/

variable {I : Interp}

theorem provider_of_get {p : String} (h : (OrderedDict.get providers p).isSome = true) :
    p = "claude-sub" ∨ p = "codex-sub" := by
  have h : "claude-sub" = p ∨ "codex-sub" = p := by
    simpa [OrderedDict.get, providers, List.find?_isSome] using h
  exact h.imp Eq.symm Eq.symm

theorem configuredIds_provider {default configured : String} {ids : List (String × List String)}
    (h : configuredIds I default configured = .ok ids) {e : String × List String} (he : e ∈ ids) :
    e.1 = "claude-sub" ∨ e.1 = "codex-sub" := by
  obtain ⟨v, -, h⟩ := Checked.bind_ok.mp h
  cases v with
  | obj data =>
    simp only at h
    split_ifs at h with hall
    obtain ⟨x, hx, hex⟩ := Checked.mem_of_mapM h he
    obtain ⟨_, -, heq⟩ := Checked.bind_ok.mp hex
    obtain rfl := Except.ok.inj heq
    exact provider_of_get (List.all_eq_true.mp hall x hx)
  | _ => cases h

/-- **A catalog model** is served by one of the two providers, and its id is the provider's name and its
own. -/
theorem mem_subscriptionModels {s : CatalogSettings} {specs : List ModelSpec}
    (h : subscriptionModels I s = .ok specs) {spec : ModelSpec} (hspec : spec ∈ specs) :
    (spec.provider = "claude-sub" ∨ spec.provider = "codex-sub") ∧
      spec.id = spec.provider ++ "/" ++ spec.bareId := by
  unfold subscriptionModels at h
  cases hc : catalog I s with
  | error e =>
    rw [hc] at h
    cases h
  | ok r =>
    rw [hc] at h
    obtain rfl := Except.ok.inj h
    rcases Checked.catching_ok hc with hr | ⟨rfl, -⟩
    · obtain ⟨data, hdata, hr⟩ := Checked.bind_ok.mp hr
      obtain ⟨verified, -, hr⟩ := Checked.bind_ok.mp hr
      obtain ⟨vision, -, hr⟩ := Checked.bind_ok.mp hr
      split_ifs at hr
      obtain rfl := Except.ok.inj hr
      obtain ⟨e, he, hmid⟩ := List.mem_flatMap.mp hspec
      obtain ⟨mid, -, rfl⟩ := List.mem_map.mp hmid
      have hp := configuredIds_provider hdata he
      refine ⟨hp, ?_⟩
      have hbare : ModelSpec.bareId ⟨e.1 ++ "/" ++ mid, e.1⟩ = mid := by
        rcases hp with hp | hp <;> simp [ModelSpec.bareId, hp]
      rw [hbare]
    · cases hspec

/-- The only exception that leaves `subscription_models`. -/
theorem subscriptionModels_error {s : CatalogSettings} {e : PyError} (h : subscriptionModels I s = .error e) :
    e ≠ .valueError := by
  unfold subscriptionModels at h
  cases hc : catalog I s with
  | ok r =>
    rw [hc] at h
    cases h
  | error e' =>
    rw [hc] at h
    obtain rfl := Except.error.inj h
    obtain ⟨-, he⟩ := Checked.catching_error.mp hc
    simpa using he

end Broker.Providers
