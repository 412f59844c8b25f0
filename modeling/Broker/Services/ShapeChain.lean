import Broker.Providers.Adapters
import Broker.Routing.Chains
import Broker.Routing.Circuit

/-!
# Broker.Services.ShapeChain — the provider order of one request

`_shape_chain` composes the three steps of `Broker.Routing.Chains` under the flags of the request.  What the
composition keeps is proved from what each step keeps, for every registry.
-/

open scoped List

namespace Broker.Services

open Broker.Db Broker.Lib Broker.Agent Broker.Providers Broker.Routing

/-- `_EMPTY_STORM_MIN_KEYS`. -/
def emptyStormMinKeys : ℕ := 2

/-- `is_deepseek_big_json_prompt`; `none` when the prompt cannot be measured. -/
def isDeepseekBigJsonPrompt (responseFormat : Val PyFloat) (messages : List Doc) : Option Bool :=
  let rf := if responseFormat.given then responseFormat else .obj []
  if (rf.getField "type").isStr "json_object" || (rf.getField "type").isStr "json_schema" then
    (promptChars messages).map fun n => decide (deepseekJsonEmptyChars ≤ n)
  else some false

/-- `should_defer_deepseek`; `clock` is the monotonic time the circuit reads. -/
def shouldDeferDeepseek (responseFormat : Val PyFloat) (messages : List Doc) (now : Time) (clock : ℚ)
    (circuit : Circuit.Breaker) : Option Bool :=
  if 1 < peakMultiplier "deepseek" now then some true
  else (isDeepseekBigJsonPrompt responseFormat messages).map fun big =>
    big || decide ("deepseek" ∈ (Circuit.providersInEmptyStorm emptyStormMinKeys clock circuit).1)

/-- The chain after the steps before the savings. -/
def afterJson (reg : Registry) (chain : List String) (capability : String) (paidOnly : Bool)
    (responseFormat : Val PyFloat) : List String :=
  let chain := freeFirstWalk reg capability chain paidOnly
  if wantsJson responseFormat then deprioritizeForJson reg chain else chain

/-- `_shape_chain`. -/
def shapeChain (reg : Registry) (chain : List String) (capability : String) (paidOnly : Bool)
    (responseFormat : Val PyFloat) (messages : List Doc) (now : Time) (clock : ℚ) (circuit : Circuit.Breaker) :
    Option (List String) :=
  (shouldDeferDeepseek responseFormat messages now clock circuit).map
    (deprioritizeDeepseekForSavings reg (afterJson reg chain capability paidOnly responseFormat))

variable {reg : Registry} {chain : List String} {p q : String}

/-- The free-first and the JSON step together. -/
theorem afterJson_reorders (reg : Registry) (chain : List String) (capability : String) (paidOnly : Bool)
    (responseFormat : Val PyFloat) :
    Reorders (fun p q => wantsJson responseFormat = true ∧ jsonReliability reg p ≠ jsonReliability reg q)
      (chain.filter (keeps reg capability paidOnly (wantsJson responseFormat)))
      (afterJson reg chain capability paidOnly responseFormat) := by
  unfold afterJson
  rw [freeFirstWalk_eq]
  by_cases hjson : wantsJson responseFormat = true
  · have hkeeps : chain.filter (keeps reg capability paidOnly true) =
        (chain.filter (keeps reg capability paidOnly false)).filter
          fun p => !decide (jsonReliability reg p = .incapable) := by
      rw [List.filter_filter]
      refine List.filter_congr fun p _ => ?_
      simp [keeps, Bool.and_comm]
    rw [hjson, if_pos rfl, hkeeps]
    exact (deprioritizeForJson_reorders reg _).mono fun p q _ h => ⟨rfl, h⟩
  · rw [if_neg hjson, Bool.not_eq_true _ |>.mp hjson]
    exact Reorders.refl _ _

/-- What the shaped chain `out` keeps of `chain`; `middle` is the chain after the JSON step. -/
structure Shaped (reg : Registry) (kept : String → Bool) (json shouldDefer : Bool)
    (chain middle out : List String) : Prop where
  nodup : out.Nodup
  perm : out.Perm (chain.filter kept)
  swapped : ∀ p q, [p, q] <+ chain → [q, p] <+ out →
    (json = true ∧ jsonReliability reg p ≠ jsonReliability reg q) ∨ p = "deepseek" ∨ q = "deepseek" ∨
      (shouldDefer = true ∧ ["deepseek", p] <+ middle ∧ ["deepseek", q] <+ middle ∧
        paidProviders reg p = true ∧ paidProviders reg q = false)
  deferred : shouldDefer = true → ∀ front suffix, middle = front ++ "deepseek" :: suffix →
    ∃ between behind, out = front ++ (between ++ "deepseek" :: behind) ∧
      ∀ p ∈ behind, paidProviders reg p = true

/-- **What shaping a chain keeps.**  The result has the kept providers once each; a pair is swapped only
if their JSON reliability differs in a JSON request, one of them is deepseek, or deepseek is deferred and
a free provider behind it passes a paid one there.  A deferred deepseek has in front of it what was in
front of it after the JSON step, in that order, and behind it no free provider. -/
theorem shapeChain_lawful (reg : Registry) {chain : List String} (hchain : chain.Nodup) (capability : String)
    (paidOnly : Bool) (responseFormat : Val PyFloat) (messages : List Doc) (now : Time) (clock : ℚ)
    (circuit : Circuit.Breaker) :
    ((shapeChain reg chain capability paidOnly responseFormat messages now clock circuit).isSome =
      (shouldDeferDeepseek responseFormat messages now clock circuit).isSome) ∧
    ∀ out shouldDefer, shouldDeferDeepseek responseFormat messages now clock circuit = some shouldDefer →
      shapeChain reg chain capability paidOnly responseFormat messages now clock circuit = some out →
      Shaped reg (keeps reg capability paidOnly (wantsJson responseFormat)) (wantsJson responseFormat) shouldDefer
        chain (afterJson reg chain capability paidOnly responseFormat) out := by
  refine ⟨Option.isSome_map, fun out shouldDefer hdefer hout => ?_⟩
  rw [shapeChain, hdefer, Option.map_some] at hout
  obtain rfl := Option.some.inj hout
  have hjson := afterJson_reorders reg chain capability paidOnly responseFormat
  have hsave := deprioritizeDeepseekForSavings_reorders reg
    (afterJson reg chain capability paidOnly responseFormat) shouldDefer
  have hboth := hjson.trans hsave
  have hkept : (chain.filter (keeps reg capability paidOnly (wantsJson responseFormat))).Nodup :=
    hchain.filter _
  refine ⟨hboth.perm.nodup_iff.mpr hkept, hboth.perm, ?_, ?_⟩
  · intro p q hpq hqp
    obtain ⟨hq, hp⟩ := mem_of_pair_sublist hqp
    have hkeepsPair := pair_sublist_filter.mpr ⟨hpq, List.of_mem_filter (hboth.perm.mem_iff.mp hp),
      List.of_mem_filter (hboth.perm.mem_iff.mp hq)⟩
    rcases hboth.moved_of_swapped hkept hkeepsPair hqp with hmoved | ⟨hd, hp' | hbehind⟩
    · exact .inl hmoved
    · exact .inr (.inl hp')
    · exact .inr (.inr (.inr ⟨hd, hbehind⟩))
  · intro hd front suffix heq
    have hfront : "deepseek" ∉ front := by
      have hnodup := hjson.perm.nodup_iff.mpr hkept
      rw [heq] at hnodup
      exact fun hmem => (List.disjoint_of_nodup_append hnodup) hmem (by simp)
    rw [hd, heq, deprioritizeDeepseekForSavings_eq reg suffix hfront]
    exact ⟨_, _, rfl, fun p hp => List.of_mem_filter hp⟩

/-! ### A free provider passes a paid one -/

/-- DeepSeek and Anthropic bill, every other provider is free. -/
def sampleRegistry : Registry := fun p => some { paid := decide (p = "deepseek" ∨ p = "anthropic") }

/-- One o'clock UTC on the first day of the peak prices. -/
def peakTime : Time := seconds (20649 * 86400 + 3600)

/-- The shaped chain of a sample request for plain text at the peak. -/
theorem shapeChain_lawful_sample :
    ["anthropic", "deepseek", "gemini"].Nodup ∧
      shapeChain sampleRegistry ["anthropic", "deepseek", "gemini"] "chat:sales" false .null [] peakTime 0 {} =
        some ["anthropic", "gemini", "deepseek"] ∧
      ["anthropic", "gemini", "deepseek"].Perm ["anthropic", "deepseek", "gemini"] := by
  have hnodup : ["anthropic", "deepseek", "gemini"].Nodup := by decide
  have hdefer : shouldDeferDeepseek .null [] peakTime 0 {} = some true := by decide +kernel
  have hout : shapeChain sampleRegistry ["anthropic", "deepseek", "gemini"] "chat:sales" false .null [] peakTime 0 {} =
      some ["anthropic", "gemini", "deepseek"] := by
    rw [shapeChain, hdefer]
    decide +kernel
  have hlaw := (shapeChain_lawful sampleRegistry hnodup "chat:sales" false .null [] peakTime 0 {}).2 _ _ hdefer hout
  have hkeep : ["anthropic", "deepseek", "gemini"].filter (keeps sampleRegistry "chat:sales" false (wantsJson (.null : Val PyFloat))) =
      ["anthropic", "deepseek", "gemini"] := by decide +kernel
  exact ⟨hnodup, hout, hkeep ▸ hlaw.perm⟩

/-- A pair of neither reliability nor deepseek changes its order: a free provider passes a paid one behind
deepseek. -/
theorem shapeChain_swaps_behind_deepseek :
    ¬ ∀ (reg : Registry) (chain : List String), chain.Nodup → ∀ (capability : String) (paidOnly : Bool)
      (responseFormat : Val PyFloat) (messages : List Doc) (now : Time) (clock : ℚ) (circuit : Circuit.Breaker)
      (out : List String),
      shapeChain reg chain capability paidOnly responseFormat messages now clock circuit = some out →
      ∀ p q, [p, q] <+ chain → [q, p] <+ out →
        (wantsJson responseFormat = true ∧ jsonReliability reg p ≠ jsonReliability reg q) ∨
          p = "deepseek" ∨ q = "deepseek" := by
  intro h
  have hdefer : shouldDeferDeepseek .null [] peakTime 0 {} = some true := by decide +kernel
  have hout : shapeChain sampleRegistry ["deepseek", "anthropic", "gemini"] "chat:smart" false .null [] peakTime 0 {} =
      some ["gemini", "deepseek", "anthropic"] := by
    rw [shapeChain, hdefer]
    decide +kernel
  have hswap := h sampleRegistry ["deepseek", "anthropic", "gemini"] (by decide) "chat:smart" false .null [] peakTime
    0 {} _ hout "anthropic" "gemini" (by decide) (by decide)
  revert hswap
  decide

end Broker.Services
