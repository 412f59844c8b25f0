import Broker.Db.Models
import Broker.Lib.Double
import Broker.Routing.CostGuard

/-!
# Broker.Routing.PaidTail — the monitor's view of the paid tail

`pick_and_reserve` picks a key by the conditions of its `WHERE`; the monitor asks the same question of a row
in Python to tell whether a capability has a usable paid key left.  The cost columns are floats that
`POST /admin/keys` sets to whatever JSON reads as a float, a NaN too, and the two sides order a NaN
differently.
-/

namespace Broker.Routing

open Broker.Lib Broker.Db

/-- The columns of one window of a key: its cap, the amount used and the day or month that amount is of. -/
structure CostColumns where
  cap : Option PyFloat
  used : PyFloat
  resetAt : Option ℕ
  deriving DecidableEq

/-- The columns that hold the exact amounts of a counter. -/
def Counter.columns (k : Counter) : CostColumns := ⟨k.cap.map .fin, .fin k.used, k.resetAt⟩

/-- The columns of `api_keys` a pick looks at. -/
structure PickRow where
  id : ℕ
  tier : Tier
  provider : String
  scopes : List String
  daily : CostColumns
  monthly : CostColumns
  isActive : Bool := true
  isAlive : Bool := true
  cooldownUntil : Option Time := none
  dailyUsed : ℕ := 0
  dailyLimit : ℤ := 999999

namespace CostColumns

variable (t : ℕ) (k : CostColumns)

/-- `FRESH_DAILY_COST_SQL`, `FRESH_MONTHLY_COST_SQL`, and the two expressions of the monitor. -/
def fresh : PyFloat := if k.resetAt = some t then k.used else .fin 0

/-- `MONTHLY_CAP_OK_SQL`, and the same of the daily cap. -/
def capOk : Bool := k.cap.isNone || k.cap.any fun cap => (k.fresh t).ltNanLast cap

/-- The monitor's `used < cap`, where there is a cap. -/
def below : Bool := k.cap.isNone || k.cap.any fun cap => (k.fresh t).lt cap

/-- The monitor's `m_used >= cap`, where there is a cap. -/
def reached : Bool := k.cap.any fun cap => cap.le (k.fresh t)

/-- The cap is a NaN and the amount is a number. -/
def NanCap : Prop := k.cap = some .nan ∧ k.fresh t ≠ .nan

/-- There is a cap and the amount is a NaN. -/
def NanUsed : Prop := k.cap.isSome = true ∧ k.fresh t = .nan

variable {t} {k}

/-- The `WHERE` admits what is below its cap, and every number below a NaN. -/
theorem capOk_iff : k.capOk t = true ↔ k.below t = true ∨ k.NanCap t := by
  unfold capOk below NanCap
  cases k.cap <;> simp [PyFloat.ltNanLast_iff]

theorem NanCap.not_below (h : k.NanCap t) : ¬ k.below t = true := by
  simp [below, h.1, PyFloat.lt_nan_right]

theorem NanUsed.not_capOk (h : k.NanUsed t) : ¬ k.capOk t = true := by
  obtain ⟨cap, hcap⟩ := Option.isSome_iff_exists.mp h.1
  simp [capOk, hcap, h.2, PyFloat.ltNanLast]

/-- A cap that is not reached admits, unless the amount is a NaN. -/
theorem reached_eq_false_iff : k.reached t = false ↔ k.capOk t = true ∨ k.NanUsed t := by
  unfold reached capOk NanUsed
  rcases k.cap with _ | cap
  · simp
  · simp only [Option.any_some, Option.isNone_some, Bool.false_or, Option.isSome_some, true_and,
      PyFloat.le_eq_false_iff, PyFloat.ltNanLast_iff]
    tauto

end CostColumns

section

variable (now : Time) (today : Window → ℕ)

/-- `FRESH_DAILY_USED_SQL`. -/
def freshDailyUsed (k : PickRow) : ℕ := if k.daily.resetAt = some (today .daily) then k.dailyUsed else 0

/-- The `WHERE` of `pick_and_reserve` at `now`, whose day and month start are `today`. -/
def pickConds (provider scope : String) (requireTier : Option Tier) (k : PickRow) : Bool :=
  decide (k.provider = provider) && k.isActive && k.isAlive && k.scopes.contains scope
    && (k.cooldownUntil.isNone || k.cooldownUntil.any fun t => decide (t < now))
    && k.daily.capOk (today .daily) && k.monthly.capOk (today .monthly)
    && (decide (k.dailyLimit = 0) || decide ((freshDailyUsed today k : ℤ) < k.dailyLimit))
    && requireTier.all fun tier => decide (k.tier = tier)

/-- Some provider of the chain can pick the key from its paid tail. -/
def pickable (chain : List String) (scope : String) (k : PickRow) : Bool :=
  chain.any fun provider => pickConds now today provider scope (some .paid) k

/-- `_paid_key_usable`. -/
def paidKeyUsable (capProviders : List String) (scope : String) (k : PickRow) : Bool :=
  if k.provider ∉ capProviders ∨ k.isActive = false ∨ k.isAlive = false then false
  else if k.cooldownUntil.any fun t => decide (now < t) then false
  else if scope ∉ k.scopes then false
  else if k.monthly.reached (today .monthly) then false
  else k.daily.below (today .daily)

/-- What `_check_paid_tail` reports of a capability: some active paid key is usable. -/
def paidTailUsable (chain : List String) (scope : String) (rows : List PickRow) : Bool :=
  rows.any fun k => k.isActive && decide (k.tier = .paid) && paidKeyUsable now today chain scope k

/-! ### Where the two agree -/

/-- The conditions the two ask alike: an active, alive key of the chain, in scope. -/
structure Eligible (chain : List String) (scope : String) (k : PickRow) : Prop where
  provider : k.provider ∈ chain
  active : k.isActive = true
  alive : k.isAlive = true
  scope : scope ∈ k.scopes

/-- The key has requests left today. -/
def UnderLimit (k : PickRow) : Prop :=
  k.dailyLimit = 0 ∨ (freshDailyUsed today k : ℤ) < k.dailyLimit

/-- The key's cooldown is over, up to its last instant. -/
def CooledDown (k : PickRow) : Prop := ∀ t ∈ k.cooldownUntil, t ≤ now

/-- Within its caps by either reading, with its cooldown over, the key waits for the last instant of it, has
its requests of the day used, or has a NaN for the amount of its month. -/
structure Overrated (k : PickRow) : Prop where
  cooled : CooledDown now k
  daily : k.daily.below (today .daily) = true
  monthly : k.monthly.capOk (today .monthly) = true ∨ k.monthly.NanUsed (today .monthly)
  barred : k.cooldownUntil = some now ∨ ¬ UnderLimit today k ∨ k.monthly.NanUsed (today .monthly)

/-- The key's daily cap is a NaN, and nothing else keeps a pick from it. -/
structure Underrated (k : PickRow) : Prop where
  cooled : ∀ t ∈ k.cooldownUntil, t < now
  limit : UnderLimit today k
  daily : k.daily.NanCap (today .daily)
  monthly : k.monthly.capOk (today .monthly) = true

/-- A key the monitor is wrong about. -/
def Misjudged (chain : List String) (scope : String) (k : PickRow) : Prop :=
  Eligible chain scope k ∧ (Overrated now today k ∨ Underrated now today k)

end

variable {now : Time} {today : Window → ℕ} {chain : List String} {scope : String} {k : PickRow}

/-- What a pick asks of a paid key. -/
theorem pickable_iff (hpaid : k.tier = .paid) : pickable now today chain scope k = true ↔
    Eligible chain scope k ∧ (∀ t ∈ k.cooldownUntil, t < now) ∧ UnderLimit today k ∧
      k.daily.capOk (today .daily) = true ∧ k.monthly.capOk (today .monthly) = true := by
  have hcool : (k.cooldownUntil.isNone || k.cooldownUntil.any fun t => decide (t < now)) = true ↔
      ∀ t ∈ k.cooldownUntil, t < now := by
    cases k.cooldownUntil <;> simp
  simp only [pickable, pickConds, List.any_eq_true, Bool.and_eq_true, hcool, List.contains_iff_mem,
    Bool.or_eq_true, decide_eq_true_eq, Option.all_some, hpaid, and_true]
  constructor
  · rintro ⟨p, hp, ⟨⟨⟨⟨⟨⟨rfl, hact⟩, hal⟩, hsc⟩, hcd⟩, hd⟩, hm⟩, hlim⟩
    exact ⟨⟨hp, hact, hal, hsc⟩, hcd, hlim, hd, hm⟩
  · rintro ⟨⟨hp, hact, hal, hsc⟩, hcd, hlim, hd, hm⟩
    exact ⟨k.provider, hp, ⟨⟨⟨⟨⟨⟨rfl, hact⟩, hal⟩, hsc⟩, hcd⟩, hd⟩, hm⟩, hlim⟩

/-- What the monitor asks of it. -/
theorem paidKeyUsable_iff : paidKeyUsable now today chain scope k = true ↔
    Eligible chain scope k ∧ CooledDown now k ∧ k.daily.below (today .daily) = true ∧
      k.monthly.reached (today .monthly) = false := by
  have hcool : (k.cooldownUntil.any fun t => decide (now < t)) = true ↔ ¬ CooledDown now k := by
    unfold CooledDown
    cases k.cooldownUntil <;> simp
  unfold paidKeyUsable
  split_ifs with hout hwait hscope hcap
  · refine iff_of_false (by simp) fun ⟨he, _⟩ => ?_
    rcases hout with hp | ha | hl
    · exact hp he.provider
    · exact absurd he.active (by simp [ha])
    · exact absurd he.alive (by simp [hl])
  · exact iff_of_false (by simp) fun ⟨_, hc, _⟩ => hcool.mp hwait hc
  · exact iff_of_false (by simp) fun ⟨_, _, _, hm⟩ => absurd hcap (by simp [hm])
  · push Not at hout
    obtain ⟨hp, ha, hl⟩ := hout
    have hcd : CooledDown now k := not_not.mp fun hc => hwait (hcool.mpr hc)
    refine ⟨fun hd => ⟨⟨hp, ?_, ?_, hscope⟩, hcd, hd, by simpa using hcap⟩, fun ⟨_, _, hd, _⟩ => hd⟩
    · simpa using ha
    · simpa using hl
  · exact iff_of_false (by simp) fun ⟨he, _⟩ => hscope he.scope

/-- A key the monitor reports usable and no pick takes. -/
theorem usable_not_pickable_iff (hpaid : k.tier = .paid) :
    paidKeyUsable now today chain scope k = true ∧ ¬ pickable now today chain scope k = true ↔
      Eligible chain scope k ∧ Overrated now today k := by
  rw [paidKeyUsable_iff, pickable_iff hpaid, CostColumns.reached_eq_false_iff]
  constructor
  · rintro ⟨⟨he, hc, hd, hm⟩, hnot⟩
    refine ⟨he, hc, hd, hm, ?_⟩
    by_contra hfree
    push Not at hfree
    obtain ⟨hne, hlim, hnum⟩ := hfree
    have hbefore : ∀ t ∈ k.cooldownUntil, t < now := by
      intro t ht
      refine lt_of_le_of_ne (hc t ht) ?_
      rintro rfl
      exact hne ht
    have hmonth : k.monthly.capOk (today .monthly) = true := hm.resolve_right hnum
    exact hnot ⟨he, hbefore, hlim, CostColumns.capOk_iff.mpr (.inl hd), hmonth⟩
  · rintro ⟨he, hc, hd, hm, hbar⟩
    refine ⟨⟨he, hc, hd, hm⟩, fun ⟨_, hbefore, hlim, _, hmonth⟩ => ?_⟩
    rcases hbar with hnow | hspent | hnan
    · exact lt_irrefl now (hbefore now hnow)
    · exact hspent hlim
    · exact hnan.not_capOk hmonth

/-- A key a pick takes and the monitor reports spent. -/
theorem pickable_not_usable_iff (hpaid : k.tier = .paid) :
    pickable now today chain scope k = true ∧ ¬ paidKeyUsable now today chain scope k = true ↔
      Eligible chain scope k ∧ Underrated now today k := by
  rw [paidKeyUsable_iff, pickable_iff hpaid, CostColumns.reached_eq_false_iff]
  constructor
  · rintro ⟨⟨he, hbefore, hlim, hd, hm⟩, hnot⟩
    have hcap : k.daily.NanCap (today .daily) := by
      refine (CostColumns.capOk_iff.mp hd).resolve_left fun hbelow => hnot ?_
      exact ⟨he, fun t ht => (hbefore t ht).le, hbelow, .inl hm⟩
    exact ⟨he, hbefore, hlim, hcap, hm⟩
  · rintro ⟨he, hbefore, hlim, hcap, hm⟩
    exact ⟨⟨he, hbefore, hlim, CostColumns.capOk_iff.mpr (.inr hcap), hm⟩,
      fun ⟨_, _, hbelow, _⟩ => hcap.not_below hbelow⟩

/-- The two answers differ about the keys the monitor misjudges. -/
theorem differ_iff_misjudged (hpaid : k.tier = .paid) :
    ¬ (paidKeyUsable now today chain scope k = true ↔ pickable now today chain scope k = true) ↔
      Misjudged now today chain scope k := by
  rw [Misjudged, and_or_left, ← usable_not_pickable_iff hpaid, ← pickable_not_usable_iff hpaid]
  tauto

/-- **Where the monitor and the pick agree.**  `_paid_key_usable` gives the answer of the `WHERE` about a paid
key unless the key is active, alive and in scope and either passes the monitor's caps while its cooldown ends
at this very instant, its requests of the day are used or its month's amount is a NaN, or its daily cap is a
NaN and nothing else keeps a pick from it. -/
theorem paid_key_usable_agrees_iff (hpaid : k.tier = .paid) :
    (paidKeyUsable now today chain scope k = true ↔ pickable now today chain scope k = true) ↔
      ¬ Misjudged now today chain scope k := by
  rw [← differ_iff_misjudged hpaid, not_not]

/-- A pick that asks for the paid tier takes paid keys only. -/
theorem tier_of_pickable (h : pickable now today chain scope k = true) : k.tier = .paid := by
  obtain ⟨p, -, hp⟩ := List.any_eq_true.mp h
  simp only [pickConds, Bool.and_eq_true, Option.all_some, decide_eq_true_eq] at hp
  exact hp.2

/-- The tail is reported usable exactly when a pick can use it, where no paid key is misjudged. -/
theorem paidTailUsable_iff {rows : List PickRow}
    (h : ∀ k ∈ rows, k.tier = .paid → ¬ Misjudged now today chain scope k) :
    paidTailUsable now today chain scope rows = true ↔
      ∃ k ∈ rows, pickable now today chain scope k = true := by
  simp only [paidTailUsable, List.any_eq_true, Bool.and_eq_true, decide_eq_true_eq]
  have hagree : ∀ k ∈ rows, k.tier = .paid →
      (paidKeyUsable now today chain scope k = true ↔ pickable now today chain scope k = true) := by
    intro k hk hpaid
    exact not_not.mp fun hdiffer => h k hk hpaid ((differ_iff_misjudged hpaid).mp hdiffer)
  constructor
  · rintro ⟨k, hk, ⟨-, hpaid⟩, huse⟩
    exact ⟨k, hk, (hagree k hk hpaid).mp huse⟩
  · rintro ⟨k, hk, hpick⟩
    have hpaid := tier_of_pickable hpick
    exact ⟨k, hk, ⟨((pickable_iff hpaid).mp hpick).1.active, hpaid⟩, (hagree k hk hpaid).mpr hpick⟩

/-- A paid key with its ten requests of the day used. -/
def PickRow.spentLimit : PickRow where
  id := 1
  tier := .paid
  provider := "anthropic"
  scopes := ["llm:chat"]
  daily := ⟨none, .fin 0, some 1⟩
  monthly := ⟨none, .fin 0, none⟩
  dailyUsed := 10
  dailyLimit := 10

/-- A paid key whose daily cap was set to NaN. -/
def PickRow.nanCap : PickRow where
  id := 2
  tier := .paid
  provider := "anthropic"
  scopes := ["llm:chat"]
  daily := ⟨some .nan, .fin 0, none⟩
  monthly := ⟨none, .fin 0, none⟩

/-- The monitor reports the first key as usable and no pick takes it; a pick takes the second and the monitor
reports it spent. -/
theorem spent_limit_reported_usable :
    PickRow.spentLimit.tier = .paid ∧
      paidKeyUsable 0 (fun _ => 1) ["anthropic"] "llm:chat" .spentLimit = true ∧
      pickable 0 (fun _ => 1) ["anthropic"] "llm:chat" .spentLimit = false ∧
      PickRow.nanCap.tier = .paid ∧
      paidKeyUsable 0 (fun _ => 1) ["anthropic"] "llm:chat" .nanCap = false ∧
      pickable 0 (fun _ => 1) ["anthropic"] "llm:chat" .nanCap = true := by
  decide +kernel

/-- The next day the limit counts from zero again, and the two agree. -/
theorem paid_key_usable_agrees_of_next_day :
    paidKeyUsable 0 (fun _ => 2) ["anthropic"] "llm:chat" .spentLimit = true ↔
      pickable 0 (fun _ => 2) ["anthropic"] "llm:chat" .spentLimit = true := by
  refine (paid_key_usable_agrees_iff rfl).mpr ?_
  rintro ⟨-, ⟨-, -, -, hnow | hspent | hnan⟩ | hunder⟩
  · cases hnow
  · exact hspent (.inr (by decide +kernel))
  · exact absurd hnan.1 (by decide)
  · exact absurd hunder.daily.1 (by decide)

end Broker.Routing
