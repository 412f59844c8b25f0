import Broker.Db.Models
import Mathlib.Algebra.Order.Ring.Rat
import Mathlib.Tactic.Linarith
import Mathlib.Tactic.Positivity

/-!
# Broker.Providers.Cost — what a call is estimated to cost

Prices come from the registry and from LiteLLM's map.  A route of OpenRouter with a list price costs at least
that price whatever LiteLLM knows of it, and it is billed on a key marked free as well.  Amounts are exact
rationals.
-/

namespace Broker.Providers

open Broker.Db

/-- `Pricing`. -/
inductive Pricing | litellm | override | perMinute | free | selfHosted | subscription
  deriving DecidableEq, Repr

/-- The price of a `ModelSpec`. -/
structure ModelPrice where
  provider : String
  pricing : Pricing := .litellm
  inputUsdPerMtok : Option ℚ := none
  outputUsdPerMtok : Option ℚ := none

/-- `spec.provider == "openrouter" and spec.pricing == "override"`. -/
def ModelPrice.listed (spec : ModelPrice) : Bool := spec.provider = "openrouter" && spec.pricing = .override

/-! ### Peak hours -/

/-- Days since the epoch. -/
def dayOf (now : Time) : ℤ := now / seconds 86400

/-- `hour`, in UTC. -/
def hourOf (now : Time) : ℤ := now % seconds 86400 / seconds 3600

/-- `weekday`: Monday is 0, and the epoch was a Thursday. -/
def weekdayOf (now : Time) : ℤ := (dayOf now + 3) % 7

/-- `DEEPSEEK_PEAK_FROM`, 15 July 2026. -/
def deepseekPeakFrom : ℤ := 20649

/-- `DEEPSEEK_PEAK_HOURS_UTC`. -/
def deepseekPeakHours : List ℤ := [1, 2, 3, 6, 7, 8, 9]

/-- `peak_multiplier`. -/
def peakMultiplier (provider : String) (now : Time) : ℚ :=
  if provider = "deepseek" ∧ deepseekPeakFrom ≤ dayOf now ∧ weekdayOf now ≤ 4 ∧
      hourOf now ∈ deepseekPeakHours then 2
  else 1

theorem one_le_peakMultiplier (provider : String) (now : Time) : 1 ≤ peakMultiplier provider now := by
  unfold peakMultiplier
  split_ifs <;> norm_num

/-! ### Estimates -/

/-- `model.split("/", 1)[0]`. -/
def routePrefix (model : String) : String := String.ofList (model.toList.takeWhile (· ≠ '/'))

section Estimate

-- `spec` is `model_spec`; `litellm` the price of a call without cached tokens or audio, `none` when it raises
variable (spec : String → Option ModelPrice) (litellm : String → ℤ → ℤ → Option ℚ)

/-- `bills_on_free_key`. -/
def billsOnFreeKey (model : String) : Bool :=
  (if model = "" then none else spec model).any fun m =>
    m.listed && (decide (0 < m.inputUsdPerMtok.getD 0) || decide (0 < m.outputUsdPerMtok.getD 0))

/-- `override_cost`. -/
def overrideCost (model : String) (tokensIn tokensOut : ℤ) : Option ℚ :=
  (spec model).bind fun m =>
    if m.listed then
      some ((tokensIn * m.inputUsdPerMtok.getD 0 + tokensOut * m.outputUsdPerMtok.getD 0) / 1000000)
    else none

/-- `estimate_llm_cost`. -/
def estimateLlmCost (now : Time) (model : String) (tokensIn tokensOut : ℤ) : ℚ :=
  let factor := peakMultiplier (routePrefix model) now
  match litellm model tokensIn tokensOut, overrideCost spec model tokensIn tokensOut with
  | none, none => 0
  | none, some cost => cost * factor
  | some base, none => base * factor
  | some base, some cost => max base cost * factor

end Estimate

variable {spec : String → Option ModelPrice} {litellm : String → ℤ → ℤ → Option ℚ}

/-- The estimate is never below the list price. -/
theorem le_estimateLlmCost {now : Time} {model : String} {tokensIn tokensOut : ℤ} {cost : ℚ}
    (h : overrideCost spec model tokensIn tokensOut = some cost) (hcost : 0 ≤ cost) :
    cost ≤ estimateLlmCost spec litellm now model tokensIn tokensOut := by
  have hfactor := one_le_peakMultiplier (routePrefix model) now
  unfold estimateLlmCost
  rw [h]
  cases litellm model tokensIn tokensOut with
  | none => exact le_mul_of_one_le_right hcost hfactor
  | some base =>
    have hmax : cost ≤ max base cost := le_max_right _ _
    exact hmax.trans (le_mul_of_one_le_right (hcost.trans hmax) hfactor)

/-- **A priced route has a price**: with tokens both ways, its estimate is positive. -/
theorem estimateLlmCost_pos {model : String} (h : billsOnFreeKey spec model = true)
    (hprices : ∀ m, spec model = some m → 0 ≤ m.inputUsdPerMtok.getD 0 ∧ 0 ≤ m.outputUsdPerMtok.getD 0)
    {tokensIn tokensOut : ℤ} (hin : 0 < tokensIn) (hout : 0 < tokensOut) (now : Time) :
    0 < estimateLlmCost spec litellm now model tokensIn tokensOut := by
  unfold billsOnFreeKey at h
  split_ifs at h with hmodel
  · cases h
  obtain ⟨m, hm, hpriced⟩ := (Option.any_eq_true _ _).mp h
  simp only [Bool.and_eq_true, Bool.or_eq_true, decide_eq_true_eq] at hpriced
  obtain ⟨hlisted, hpos⟩ := hpriced
  obtain ⟨hinput, houtput⟩ := hprices m hm
  have hover : overrideCost spec model tokensIn tokensOut =
      some ((tokensIn * m.inputUsdPerMtok.getD 0 + tokensOut * m.outputUsdPerMtok.getD 0) / 1000000) := by
    rw [overrideCost, hm, Option.bind_some, if_pos hlisted]
  have htin : (0 : ℚ) < tokensIn := by exact_mod_cast hin
  have htout : (0 : ℚ) < tokensOut := by exact_mod_cast hout
  have hcost : 0 < ((tokensIn : ℚ) * m.inputUsdPerMtok.getD 0 +
      tokensOut * m.outputUsdPerMtok.getD 0) / 1000000 := by
    -- one of the two prices is positive
    rcases hpos with hpos | hpos
    · have hprod := mul_pos htin hpos
      have hrest := mul_nonneg htout.le houtput
      linarith
    · have hprod := mul_pos htout hpos
      have hrest := mul_nonneg htin.le hinput
      linarith
  exact hcost.trans_le (le_estimateLlmCost hover hcost.le)

end Broker.Providers
