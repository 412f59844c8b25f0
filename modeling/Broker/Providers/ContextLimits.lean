import Broker.Lib.Double

/-!
# Broker.Providers.ContextLimits — the size ceiling of a provider

A prompt fits a provider when its estimate is at most nine tenths of the provider's ceiling, the smaller of
the learned one and the seed of its spec.  The product is a double and `int` cuts it off.
-/

namespace Broker.Providers

open Broker.Lib

/-- `MIN_LEARNABLE_CEILING`. -/
def minLearnableCeiling : ℤ := 4000

/-- `_FIT_MARGIN`. -/
def fitMargin : ℚ := PyFloat.roundDouble (9 / 10)

/-- `effective_ceiling`: the tighter of the two known ceilings. -/
def effectiveCeiling (seed learned : Option ℤ) : Option ℤ :=
  match learned, seed with
  | none, none => none
  | some c, none | none, some c => some c
  | some c, some c' => some (min c c')

/-- `int(cap * _FIT_MARGIN)`. -/
def fitLimit (cap : ℤ) : ℤ := PyFloat.toInt (PyFloat.mul (PyFloat.roundDouble cap) fitMargin)

/-- `fits_context`. -/
def fitsContext (estTokens : ℤ) (seed learned : Option ℤ) : Bool :=
  match effectiveCeiling seed learned with
  | none => true
  | some cap => decide (estTokens ≤ fitLimit cap)

/-! ### The limit of a ceiling -/

theorem fitMargin_eq : fitMargin = 8106479329266893 / 2 ^ 53 := by decide +kernel

/-- A limit is not below an integer that nine tenths of the ceiling are not below. -/
theorem le_fitLimit {cap n : ℤ} (cap₀ : ℤ) (hcap₀ : 0 < cap₀) (hexact : cap₀ ≤ 2 ^ 53) (hn : n ≤ 2 ^ 53)
    (hn₀ : 0 ≤ n) (h : (n : ℚ) ≤ cap₀ * fitMargin) (hle : cap₀ ≤ cap) : n ≤ fitLimit cap := by
  have hcap : (0 : ℚ) < cap := by exact_mod_cast hcap₀.trans_le hle
  have hround : (cap₀ : ℚ) ≤ PyFloat.roundDouble cap :=
    PyFloat.le_roundDouble hcap hexact (by exact_mod_cast hle)
  have hmargin : (0 : ℚ) < fitMargin := by
    rw [fitMargin_eq]
    norm_num
  have hprod : (n : ℚ) ≤ PyFloat.roundDouble cap * fitMargin :=
    h.trans (mul_le_mul_of_nonneg_right hround hmargin.le)
  have hpos : (0 : ℚ) < PyFloat.roundDouble cap * fitMargin := by
    refine mul_pos (lt_of_lt_of_le ?_ hround) hmargin
    exact_mod_cast hcap₀
  have hmul : (n : ℚ) ≤ PyFloat.mul (PyFloat.roundDouble cap) fitMargin :=
    PyFloat.le_roundDouble hpos hn hprod
  have hzero : (0 : ℚ) ≤ PyFloat.mul (PyFloat.roundDouble cap) fitMargin :=
    le_trans (by exact_mod_cast hn₀) hmul
  rw [fitLimit, PyFloat.toInt, if_pos hzero]
  exact Rat.le_floor_iff.mpr hmul

/-- Every ceiling from the floor on leaves room for 3600 tokens. -/
theorem le_fitLimit_of_floor {cap : ℤ} (h : minLearnableCeiling ≤ cap) : 3600 ≤ fitLimit cap := by
  refine le_fitLimit 4000 (by norm_num) (by norm_num) (by norm_num) (by norm_num) ?_ h
  rw [fitMargin_eq]
  norm_num

/-- A ceiling from 4444 on leaves room for every prompt below the floor. -/
theorem le_fitLimit_of_band {cap : ℤ} (h : 4444 ≤ cap) : 3999 ≤ fitLimit cap := by
  refine le_fitLimit 4444 (by norm_num) (by norm_num) (by norm_num) (by norm_num) ?_ h
  rw [fitMargin_eq]
  norm_num

example : fitLimit 4000 = 3600 ∧ fitLimit 4443 = 3998 := by decide +kernel

theorem effectiveCeiling_mem {seed learned : Option ℤ} {c : ℤ} (h : effectiveCeiling seed learned = some c) :
    learned = some c ∨ seed = some c := by
  cases hl : learned with
  | none =>
    cases hs : seed with
    | none =>
      rw [hl, hs] at h
      cases h
    | some c' =>
      rw [hl, hs] at h
      exact .inr h
  | some c' =>
    cases hs : seed with
    | none =>
      rw [hl, hs] at h
      exact .inl h
    | some c'' =>
      rw [hl, hs] at h
      obtain hmin : min c' c'' = c := Option.some.inj h
      rcases min_choice c' c'' with hle | hle
      · exact .inl (by rw [← hmin, hle])
      · exact .inr (by rw [← hmin, hle])

/-- A small prompt misses a provider only in a narrow band: more than 3600 tokens, a ceiling of at most
4443. -/
theorem band_of_not_fits {estTokens : ℤ} {seed learned : Option ℤ} (hsmall : estTokens < minLearnableCeiling)
    (hseed : ∀ c ∈ seed, minLearnableCeiling ≤ c) (hlearned : ∀ c ∈ learned, minLearnableCeiling ≤ c)
    (h : fitsContext estTokens seed learned = false) :
    3600 < estTokens ∧ ∃ c, effectiveCeiling seed learned = some c ∧ c ≤ 4443 := by
  unfold fitsContext at h
  cases heff : effectiveCeiling seed learned with
  | none =>
    rw [heff] at h
    cases h
  | some c =>
    rw [heff] at h
    have hlt : fitLimit c < estTokens := not_le.mp (of_decide_eq_false h)
    have hfloor : minLearnableCeiling ≤ c := by
      rcases effectiveCeiling_mem heff with hc | hc
      · exact hlearned c hc
      · exact hseed c hc
    refine ⟨(le_fitLimit_of_floor hfloor).trans_lt hlt, c, rfl, ?_⟩
    by_contra hband
    have hle : 3999 ≤ fitLimit c := le_fitLimit_of_band (by omega)
    unfold minLearnableCeiling at hsmall
    omega

end Broker.Providers
