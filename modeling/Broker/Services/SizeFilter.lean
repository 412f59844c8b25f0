import Broker.Providers.Observations

/-!
# Broker.Services.SizeFilter — the size filter of a chain

`_size_filtered` drops the providers a prompt does not fit, unless none is left; for a prompt below the
smallest ceiling that can be learned it returns the chain without reading the table.
-/

namespace Broker.Services

open Broker.Providers Broker.Db

section

variable (seed learned : String → Option ℤ)

/-- `fits_context` of each provider, falling back to the full chain. -/
def bySize (fullChain : List String) (estTokens : ℤ) : List String :=
  let sized := fullChain.filter fun p => fitsContext estTokens (seed p) (learned p)
  if sized = [] then fullChain else sized

/-- `_size_filtered`. -/
def sizeFiltered (fullChain : List String) (estTokens : ℤ) : List String :=
  if estTokens < minLearnableCeiling then fullChain else bySize seed learned fullChain estTokens

end

variable {seed learned : String → Option ℤ} {chain : List String} {est : ℤ}

/-- The filter keeps a chain exactly when every provider fits or none does. -/
theorem bySize_eq_iff : bySize seed learned chain est = chain ↔
    (∀ p ∈ chain, fitsContext est (seed p) (learned p) = true) ∨
      ∀ p ∈ chain, fitsContext est (seed p) (learned p) = false := by
  unfold bySize
  dsimp only
  split_ifs with hnone
  · refine iff_of_true rfl (.inr fun p hp => ?_)
    exact Bool.eq_false_iff.mpr (List.filter_eq_nil_iff.mp hnone p hp)
  · rw [List.filter_eq_self]
    refine ⟨.inl, fun h => h.resolve_right fun hall => hnone ?_⟩
    exact List.filter_eq_nil_iff.mpr fun p hp => by simp [hall p hp]

/-- **When the small-prompt path agrees with the filter.**  For every prompt below the floor, every table of
learned ceilings and seeds from the floor on, the chain returned unread is the filtered one exactly when every
provider of the chain fits the prompt or none does; a provider it does not fit has a ceiling of at most 4443,
and the prompt more than 3600 tokens. -/
theorem small_prompt_path_iff (seed : String → Option ℤ) (hseed : ∀ p, ∀ c ∈ seed p, minLearnableCeiling ≤ c)
    (calls : List TooLarge) (now : Time) (chain : List String) {est : ℤ} (hest : est < minLearnableCeiling) :
    (sizeFiltered seed (ceilingOf now (recordAll calls)) chain est =
        bySize seed (ceilingOf now (recordAll calls)) chain est ↔
      (∀ p ∈ chain, fitsContext est (seed p) (ceilingOf now (recordAll calls) p) = true) ∨
        ∀ p ∈ chain, fitsContext est (seed p) (ceilingOf now (recordAll calls) p) = false) ∧
    ∀ p, fitsContext est (seed p) (ceilingOf now (recordAll calls) p) = false →
      3600 < est ∧ ∃ c, effectiveCeiling (seed p) (ceilingOf now (recordAll calls) p) = some c ∧
        c ≤ 4443 := by
  refine ⟨?_, fun p hp => ?_⟩
  · rw [sizeFiltered, if_pos hest, eq_comm]
    exact bySize_eq_iff
  · exact band_of_not_fits hest (hseed p) (fun c hc => floor_le_ceilingOf hc) hp

/-- The seed of groq, the only one of the specs. -/
def groqSeed (p : String) : Option ℤ := if p = "groq" then some 8000 else none

/-- groq rejected a prompt of the floor's size. -/
def groqRejects : List TooLarge := [⟨"groq", 4000, 0, 0, false⟩]

/-- A prompt of 3600 tokens still fits. -/
theorem small_prompt_path_of_3600 :
    sizeFiltered groqSeed (ceilingOf 1 (recordAll groqRejects)) ["groq", "gemini"] 3600 =
      bySize groqSeed (ceilingOf 1 (recordAll groqRejects)) ["groq", "gemini"] 3600 := by
  have hseed : ∀ p, ∀ c ∈ groqSeed p, minLearnableCeiling ≤ c := by
    intro p c hc
    unfold groqSeed at hc
    split_ifs at hc
    · obtain rfl : (8000 : ℤ) = c := Option.some.inj hc
      decide
    · cases hc
  refine (small_prompt_path_iff groqSeed hseed groqRejects 1 ["groq", "gemini"] (by decide)).1.mpr (.inl ?_)
  decide +kernel

/-- A prompt of 3700 tokens is sent to groq, which the filter would drop. -/
theorem small_prompt_sent_to_full_provider :
    sizeFiltered groqSeed (ceilingOf 1 (recordAll groqRejects)) ["groq", "gemini"] 3700 = ["groq", "gemini"] ∧
    bySize groqSeed (ceilingOf 1 (recordAll groqRejects)) ["groq", "gemini"] 3700 = ["gemini"] := by
  decide +kernel

end Broker.Services
