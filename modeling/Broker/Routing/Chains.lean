import Broker.Lib.Reorder

/-!
# Broker.Routing.Chains — the three steps that shape a provider chain

The walk of a free-walk capability leaves out the paid providers; a JSON request leaves out those that never
answer in JSON and puts the reliable ones first; deepseek sinks behind the free providers that follow it.
-/

open scoped List

namespace Broker.Routing

open Broker.Lib

/-- `JsonReliability`. -/
inductive JsonReliability | reliable | unreliable | incapable
  deriving DecidableEq, Repr

/-- What a chain is shaped by, of a `ProviderSpec`. -/
structure ProviderSpec where
  jsonReliability : JsonReliability := .reliable
  paid : Bool := false

/-- `REGISTRY`. -/
abbrev Registry := String → Option ProviderSpec

/-- `FREE_WALK_CAPABILITIES`. -/
def freeWalkCapabilities : List String := ["vision"]

section Steps

variable (reg : Registry)

/-- `paid_providers`: is the provider in the set? -/
def paidProviders (p : String) : Bool := (reg p).any (·.paid)

/-- `providers_with_json`: is the provider in the set? -/
def providersWithJson (level : JsonReliability) (p : String) : Bool :=
  (reg p).any fun s => decide (s.jsonReliability = level)

/-- `free_first_walk`. -/
def freeFirstWalk (capability : String) (chain : List String) (paidOnly : Bool) : List String :=
  if paidOnly = true ∨ capability ∉ freeWalkCapabilities then chain
  else chain.filter fun p => !paidProviders reg p

/-- `deprioritize_for_json`. -/
def deprioritizeForJson (chain : List String) : List String :=
  let capable := chain.filter fun p => !providersWithJson reg .incapable p
  (capable.filter fun p => !providersWithJson reg .unreliable p) ++ capable.filter (providersWithJson reg .unreliable)

/-- `deprioritize_deepseek_for_savings`. -/
def deprioritizeDeepseekForSavings (chain : List String) (shouldDefer : Bool) : List String :=
  if shouldDefer = false ∨ "deepseek" ∉ chain then chain
  else
    let idx := chain.idxOf "deepseek"
    let front := chain.take idx
    let suffix := chain.drop (idx + 1)
    let freeAfter := suffix.filter fun p => !paidProviders reg p
    if freeAfter = [] then chain
    else front ++ freeAfter ++ "deepseek" :: suffix.filter (paidProviders reg)

end Steps

variable {reg : Registry} {chain : List String} {p q : String}

/-! ### What each step keeps and moves -/

/-- A provider's reliability; one that is not registered counts as reliable. -/
def jsonReliability (reg : Registry) (p : String) :
    JsonReliability := (reg p).elim .reliable (·.jsonReliability)

theorem providersWithJson_iff {level : JsonReliability} (hlevel : level ≠ .reliable) :
    providersWithJson reg level p = true ↔ jsonReliability reg p = level := by
  unfold providersWithJson jsonReliability
  cases reg p with
  | none => simpa using hlevel.symm
  | some s => simp

/-- The providers a request keeps. -/
def keeps (reg : Registry) (capability : String) (paidOnly json : Bool) (p : String) : Bool :=
  !(decide (capability ∈ freeWalkCapabilities) && !paidOnly && paidProviders reg p) &&
    !(json && decide (jsonReliability reg p = .incapable))

theorem freeFirstWalk_eq (capability : String) (chain : List String) (paidOnly : Bool) :
    freeFirstWalk reg capability chain paidOnly = chain.filter (keeps reg capability paidOnly false) := by
  unfold freeFirstWalk keeps
  split_ifs with h
  · symm
    rw [List.filter_eq_self]
    intro p _
    rcases h with h | h <;> simp [h]
  · have hpaid : paidOnly = false := by
      by_contra hne
      exact h (.inl (by simpa using hne))
    have hcap : capability ∈ freeWalkCapabilities := by
      by_contra hne
      exact h (.inr hne)
    simp [hpaid, hcap]

/-- The JSON step drops the incapable providers and lets a pair swap only where the second is more
reliable. -/
theorem deprioritizeForJson_reorders (reg : Registry) (chain : List String) :
    Reorders (fun p q => jsonReliability reg p ≠ jsonReliability reg q)
      (chain.filter fun p => !decide (jsonReliability reg p = .incapable))
      (deprioritizeForJson reg chain) := by
  have hcapable : (chain.filter fun p => !providersWithJson reg .incapable p) =
      chain.filter fun p => !decide (jsonReliability reg p = .incapable) := by
    refine List.filter_congr fun p _ => ?_
    have hiff : providersWithJson reg .incapable p = true ↔ jsonReliability reg p = .incapable :=
      providersWithJson_iff (by simp)
    by_cases hp : jsonReliability reg p = .incapable <;> simp_all
  have hpart := Reorders.partition (fun p => !providersWithJson reg .unreliable p)
    (chain.filter fun p => !providersWithJson reg .incapable p)
  simp only [Bool.not_not] at hpart
  rw [← hcapable]
  refine hpart.mono fun p q _ hmoved heq => ?_
  have hp : providersWithJson reg .unreliable p = true ↔ jsonReliability reg p = .unreliable :=
    providersWithJson_iff (by simp)
  have hq : providersWithJson reg .unreliable q = true ↔ jsonReliability reg q = .unreliable :=
    providersWithJson_iff (by simp)
  rw [← heq] at hq
  have hsame := hp.trans hq.symm
  obtain ⟨hp', hq'⟩ := hmoved
  simp_all

/-- Deepseek sinks behind the free providers that follow it; with none of them, nothing moves. -/
theorem deprioritizeDeepseekForSavings_eq (reg : Registry) {front : List String} (suffix : List String)
    (hfront : "deepseek" ∉ front) :
    deprioritizeDeepseekForSavings reg (front ++ "deepseek" :: suffix) true =
      front ++ ((suffix.filter fun p => !paidProviders reg p) ++ "deepseek" :: suffix.filter (paidProviders reg)) := by
  have hidx : (front ++ "deepseek" :: suffix).idxOf "deepseek" = front.length := by
    rw [List.idxOf_append_of_notMem hfront, List.idxOf_cons_self, Nat.add_zero]
  have hdrop : (front ++ "deepseek" :: suffix).drop (front.length + 1) = suffix := by
    rw [← List.drop_drop, List.drop_left]
    rfl
  unfold deprioritizeDeepseekForSavings
  rw [if_neg (by simp), hidx]
  simp only [List.take_left, hdrop]
  by_cases hfree : (suffix.filter fun p => !paidProviders reg p) = []
  · have hpaid : suffix.filter (paidProviders reg) = suffix := by
      rw [List.filter_eq_self]
      intro p hp
      simpa using List.filter_eq_nil_iff.mp hfree p hp
    simp [hfree, hpaid]
  · simp [hfree]

/-- A pair the savings step may swap. -/
def Sunk (reg : Registry) (chain : List String) (p q : String) : Prop :=
  p = "deepseek" ∨ ["deepseek", p] <+ chain ∧ ["deepseek", q] <+ chain ∧
    paidProviders reg p = true ∧ paidProviders reg q = false

theorem deprioritizeDeepseekForSavings_reorders (reg : Registry) (chain : List String) (shouldDefer : Bool) :
    Reorders (fun p q => shouldDefer = true ∧ Sunk reg chain p q) chain
      (deprioritizeDeepseekForSavings reg chain shouldDefer) := by
  by_cases hstay : shouldDefer = false ∨ "deepseek" ∉ chain
  · rw [deprioritizeDeepseekForSavings, if_pos hstay]
    exact Reorders.refl _ chain
  · have hdefer : shouldDefer = true := by
      by_contra hne
      exact hstay (.inl (by simpa using hne))
    have hmem : "deepseek" ∈ chain := by
      by_contra hne
      exact hstay (.inr hne)
    obtain ⟨front, suffix, rfl, hfront⟩ := List.eq_append_cons_of_mem hmem
    have hsink := Reorders.sink (fun p => !paidProviders reg p) "deepseek" suffix
    simp only [Bool.not_not] at hsink
    rw [hdefer, deprioritizeDeepseekForSavings_eq reg suffix hfront]
    refine (hsink.append_left front).mono fun p q _ hmoved => ⟨rfl, ?_⟩
    have hbehind : ∀ x ∈ suffix, ["deepseek", x] <+ front ++ "deepseek" :: suffix := fun x hx =>
      pair_sublist_append.mpr (.inr (.inl (pair_sublist_cons.mpr (.inr ⟨rfl, hx⟩))))
    obtain ⟨rfl | ⟨hp, hpaid⟩, hq, hfree⟩ := hmoved
    · exact .inl rfl
    · exact .inr ⟨hbehind p hp, hbehind q hq, by simpa using hpaid, by simpa using hfree⟩

end Broker.Routing
