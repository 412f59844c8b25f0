import Broker.Db.Models
import Broker.Lib.Table
import Broker.Routing.CostGuard

/-!
# Broker.Routing.Quota — the daily quota of a key, in Python and in SQL

A key is capped on four axes.  `quota_for_key` resolves each limit as manual, then discovered, then the seed
of the provider, with no seeds for a paid key; `_saturated_key_ids` resolves them by `COALESCE` over a table
of the seeds.
-/

namespace Broker.Routing

open Broker.Lib Broker.Db

inductive Axis | requests | tokens | input | output
  deriving DecidableEq

/-- `Quota`; `none` leaves an axis uncapped. -/
structure Quota where
  reqPerDay : Option ℤ := none
  tokPerDay : Option ℤ := none
  tokInPerDay : Option ℤ := none
  tokOutPerDay : Option ℤ := none

def Quota.limit (q : Quota) : Axis → Option ℤ
  | .requests => q.reqPerDay
  | .tokens => q.tokPerDay
  | .input => q.tokInPerDay
  | .output => q.tokOutPerDay

/-- The columns of `api_keys` the limits are resolved from. -/
structure QuotaRow where
  id : ℕ
  provider : String
  tier : Tier
  manualReqLimit : Option ℤ := none
  manualTokLimit : Option ℤ := none
  manualTokInLimit : Option ℤ := none
  manualTokOutLimit : Option ℤ := none
  discoveredReqLimit : Option ℤ := none
  discoveredTokLimit : Option ℤ := none

/-- A row of `usage_log`. -/
structure UsageLogRow where
  apiKeyId : Option ℕ
  createdAt : Time
  tokensIn : ℤ
  tokensOut : ℤ

/-- What a key used on each axis. -/
structure Usage where
  reqs : ℤ
  toks : ℤ
  toksIn : ℤ
  toksOut : ℤ

def Usage.used (u : Usage) : Axis → ℤ
  | .requests => u.reqs
  | .tokens => u.toks
  | .input => u.toksIn
  | .output => u.toksOut

/-- The registry: the seed quota of each known provider. -/
abbrev Seeds := String → Option Quota

/-- `quota_for`: an unknown provider has an empty quota. -/
def quotaFor (seeds : Seeds) (provider : String) : Quota := (seeds provider).getD {}

/-- `quota_for_key`. -/
def quotaForKey (seeds : Seeds) (key : QuotaRow) : Quota :=
  let base := if key.tier = .paid then {} else quotaFor seeds key.provider
  { reqPerDay := (key.manualReqLimit.or key.discoveredReqLimit).or base.reqPerDay
    tokPerDay := (key.manualTokLimit.or key.discoveredTokLimit).or base.tokPerDay
    tokInPerDay := key.manualTokInLimit.or base.tokInPerDay
    tokOutPerDay := key.manualTokOutLimit.or base.tokOutPerDay }

/-! ### `_saturated_key_ids` -/

/-- `_INF`. -/
def inf : ℤ := 999999999999

/-- `usage >= limit * 0.95`, exactly. -/
def reached (used limit : ℤ) : Bool := decide (19 * limit ≤ 20 * used)

/-- The rows of one key on the day that starts at `dayStart`. -/
def usageOf (dayStart : Time) (usage : List UsageLogRow) (keyId : ℕ) : List UsageLogRow :=
  usage.filter fun u => decide (dayStart ≤ u.createdAt) && decide (u.createdAt < dayStart + seconds 86400)
    && decide (u.apiKeyId = some keyId)

/-- The aggregates of `toks_today`. -/
def totals (rows : List UsageLogRow) : Usage where
  reqs := rows.length
  toks := rows.foldr (fun u n => u.tokensIn + u.tokensOut + n) 0
  toksIn := rows.foldr (fun u n => u.tokensIn + n) 0
  toksOut := rows.foldr (fun u n => u.tokensOut + n) 0

/-- A seed in `_quota_values_sql`: 0 is written as `NULL`. -/
def seedSql (v : Option ℤ) : Option ℤ := v.filter (· ≠ 0)

/-- The effective limits of the query: `COALESCE` over the columns of the key, its row of `defaults` and
`_INF`. -/
def saturationLimit (seeds : Seeds) (k : QuotaRow) : Axis → ℤ
  | .requests =>
    ((k.manualReqLimit.or k.discoveredReqLimit).or ((seeds k.provider).bind fun q => seedSql q.reqPerDay)).getD inf
  | .tokens =>
    ((k.manualTokLimit.or k.discoveredTokLimit).or ((seeds k.provider).bind fun q => seedSql q.tokPerDay)).getD inf
  | .input => k.manualTokInLimit.getD inf
  | .output => k.manualTokOutLimit.getD inf

/-- The `WHERE` of the query. -/
def overQuota (seeds : Seeds) (u : Usage) (k : QuotaRow) : Bool :=
  reached u.reqs (saturationLimit seeds k .requests) || reached u.toks (saturationLimit seeds k .tokens)
    || reached u.toksIn (saturationLimit seeds k .input) || reached u.toksOut (saturationLimit seeds k .output)

/-- The query of `_saturated_key_ids`: the join drops a key without a row of usage today. -/
def saturatedQueryIds (seeds : Seeds) (dayStart : Time) (usage : List UsageLogRow)
    (keys : List QuotaRow) : List ℕ :=
  (keys.filter fun k =>
    !(usageOf dayStart usage k.id).isEmpty && overQuota seeds (totals (usageOf dayStart usage k.id)) k).map (·.id)

/-! ### Where the two read a limit -/

namespace QuotaRow

variable (seeds : Seeds) (k : QuotaRow)

/-- The manual or discovered limit of an axis. -/
def explicitLimit : Axis → Option ℤ
  | .requests => k.manualReqLimit.or k.discoveredReqLimit
  | .tokens => k.manualTokLimit.or k.discoveredTokLimit
  | .input => k.manualTokInLimit
  | .output => k.manualTokOutLimit

/-- The seed of an axis. -/
def seed (a : Axis) : Option ℤ := (quotaFor seeds k.provider).limit a

/-- The seed the query reads: it has none for input and output, and none where the seed is 0. -/
def querySeed : Axis → Option ℤ
  | .requests => seedSql (k.seed seeds .requests)
  | .tokens => seedSql (k.seed seeds .tokens)
  | .input | .output => none

/-- The limit both read: an explicit one, or for a key that is not paid the seed the query has. -/
def sharedLimit (a : Axis) : Option ℤ :=
  (k.explicitLimit a).or (if k.tier = .paid then none else k.querySeed seeds a)

/-- The limit only Python reads: a seed of 0, or any seed of input and output, of a key that is not paid. -/
def pythonOnly (a : Axis) : Option ℤ :=
  if k.explicitLimit a = none ∧ k.tier ≠ .paid ∧ k.querySeed seeds a = none then k.seed seeds a else none

/-- The limit only the query reads: the seed of a paid key, or `_INF`. -/
def queryOnly (a : Axis) : Option ℤ :=
  if k.explicitLimit a = none ∧ (k.tier = .paid ∨ k.querySeed seeds a = none) then
    some ((k.querySeed seeds a).getD inf)
  else none

end QuotaRow

variable {seeds : Seeds} {k : QuotaRow}

/-- Some axis has its limit reached. -/
def Hit (limit : Axis → Option ℤ) (u : Usage) : Prop := ∃ a, ∃ l ∈ limit a, reached (u.used a) l = true

theorem hit_or {f g : Axis → Option ℤ} (hdisj : ∀ a, f a = none ∨ g a = none) {u : Usage} :
    Hit (fun a => (f a).or (g a)) u ↔ Hit f u ∨ Hit g u := by
  constructor
  · rintro ⟨a, l, hl, hr⟩
    rcases Option.or_eq_some_iff.mp (Option.mem_def.mp hl) with h | ⟨-, h⟩
    · exact .inl ⟨a, l, h, hr⟩
    · exact .inr ⟨a, l, h, hr⟩
  · rintro (⟨a, l, hl, hr⟩ | ⟨a, l, hl, hr⟩)
    · exact ⟨a, l, Option.or_eq_some_iff.mpr (.inl hl), hr⟩
    · refine ⟨a, l, Option.or_eq_some_iff.mpr (.inr ⟨?_, hl⟩), hr⟩
      rcases hdisj a with h | h
      · exact h
      · rw [Option.mem_def.mp hl] at h
        cases h

namespace QuotaRow

/-- An axis has a shared limit or one of one side, never both. -/
theorem shared_or_pythonOnly (a : Axis) : k.sharedLimit seeds a = none ∨ k.pythonOnly seeds a = none := by
  unfold sharedLimit pythonOnly
  by_cases h : k.explicitLimit a = none ∧ k.tier ≠ .paid ∧ k.querySeed seeds a = none
  · obtain ⟨he, ht, hq⟩ := h
    simp [he, ht, hq]
  · simp [h]

theorem shared_or_queryOnly (a : Axis) : k.sharedLimit seeds a = none ∨ k.queryOnly seeds a = none := by
  unfold sharedLimit queryOnly
  by_cases h : k.explicitLimit a = none ∧ (k.tier = .paid ∨ k.querySeed seeds a = none)
  · obtain ⟨he, ht | hq⟩ := h
    · simp [he, ht]
    · simp [he, hq]
  · simp [h]

/-- What `quota_for_key` resolves an axis to. -/
theorem limit_quotaForKey (a : Axis) :
    (quotaForKey seeds k).limit a = (k.sharedLimit seeds a).or (k.pythonOnly seeds a) := by
  have hbase : (quotaForKey seeds k).limit a =
      (k.explicitLimit a).or (if k.tier = .paid then none else k.seed seeds a) := by
    unfold quotaForKey seed explicitLimit
    by_cases hpaid : k.tier = .paid
    · cases a <;> simp [hpaid, Quota.limit]
    · cases a <;> simp [hpaid, Quota.limit]
  rw [hbase]
  unfold sharedLimit pythonOnly
  cases hexp : k.explicitLimit a with
  | some l => simp
  | none =>
    by_cases hpaid : k.tier = .paid
    · simp [hpaid]
    · cases hq : k.querySeed seeds a with
      | none => simp [hpaid]
      | some l =>
        -- the query has the seed unless it is 0
        have hseed : k.seed seeds a = some l := by
          cases a <;> simp_all [querySeed, seedSql, Option.filter_eq_some_iff]
        simp [hpaid, hseed]

/-- What the query resolves an axis to. -/
theorem saturationLimit_eq (a : Axis) :
    saturationLimit seeds k a = ((k.explicitLimit a).or (k.querySeed seeds a)).getD inf := by
  have hseed : ∀ f : Quota → Option ℤ, f {} = none →
      ((seeds k.provider).bind fun q => seedSql (f q)) = seedSql (f (quotaFor seeds k.provider)) := by
    intro f hf
    unfold quotaFor
    cases seeds k.provider with
    | none => simp [hf, seedSql]
    | some q => simp
  cases a with
  | requests => simp only [saturationLimit, explicitLimit, querySeed, seed, Quota.limit, hseed (·.reqPerDay) rfl]
  | tokens => simp only [saturationLimit, explicitLimit, querySeed, seed, Quota.limit, hseed (·.tokPerDay) rfl]
  | input | output => simp [saturationLimit, explicitLimit, querySeed]

theorem saturationLimit_split (a : Axis) :
    some (saturationLimit seeds k a) = (k.sharedLimit seeds a).or (k.queryOnly seeds a) := by
  rw [saturationLimit_eq]
  unfold sharedLimit queryOnly
  cases hexp : k.explicitLimit a with
  | some l => simp
  | none =>
    by_cases hpaid : k.tier = .paid
    · simp [hpaid]
    · cases hq : k.querySeed seeds a with
      | none => simp [hpaid]
      | some l => simp [hpaid]

end QuotaRow

theorem overQuota_iff {u : Usage} :
    overQuota seeds u k = true ↔ Hit (k.sharedLimit seeds) u ∨ Hit (k.queryOnly seeds) u := by
  rw [← hit_or fun a => k.shared_or_queryOnly a]
  simp only [← QuotaRow.saturationLimit_split]
  unfold overQuota
  simp only [Bool.or_eq_true]
  constructor
  · rintro (((h | h) | h) | h)
    · exact ⟨.requests, _, rfl, h⟩
    · exact ⟨.tokens, _, rfl, h⟩
    · exact ⟨.input, _, rfl, h⟩
    · exact ⟨.output, _, rfl, h⟩
  · rintro ⟨a, l, hl, h⟩
    obtain rfl := Option.some.inj hl
    cases a with
    | requests => exact .inl (.inl (.inl h))
    | tokens => exact .inl (.inl (.inr h))
    | input => exact .inl (.inr h)
    | output => exact .inr h

theorem quotaForKey_hit_iff {u : Usage} :
    Hit (quotaForKey seeds k).limit u ↔ Hit (k.sharedLimit seeds) u ∨ Hit (k.pythonOnly seeds) u := by
  rw [← hit_or fun a => k.shared_or_pythonOnly a]
  have hlimit : (quotaForKey seeds k).limit = fun a => (k.sharedLimit seeds a).or (k.pythonOnly seeds a) :=
    funext k.limit_quotaForKey
  rw [hlimit]

/-- The key is in the saturated set when it has usage today and is over its quota. -/
theorem mem_saturatedQueryIds {dayStart : Time} {usage : List UsageLogRow} {keys : List QuotaRow}
    (hids : (keys.map (·.id)).Nodup) (hk : k ∈ keys) : k.id ∈ saturatedQueryIds seeds dayStart usage keys ↔
      usageOf dayStart usage k.id ≠ [] ∧ overQuota seeds (totals (usageOf dayStart usage k.id)) k = true := by
  unfold saturatedQueryIds
  rw [List.mem_map]
  constructor
  · rintro ⟨k', hk', hid⟩
    obtain ⟨hmem, hp⟩ := List.mem_filter.mp hk'
    obtain rfl : k' = k := eq_of_key hids hmem hk hid
    simpa using hp
  · rintro ⟨hne, hover⟩
    refine ⟨k, List.mem_filter.mpr ⟨hk, ?_⟩, rfl⟩
    simp [hne, hover]

/-- **Where the selector and the quota model agree.**  The query puts a key in the saturated set exactly when
some limit of `quota_for_key` is reached, if and only if: with usage today, a limit both read is reached, or
one that only the query reads is reached exactly when one that only Python reads is; without usage today, no
limit that Python reads is 0 or less. -/
theorem saturation_agrees_iff (seeds : Seeds) (dayStart : Time) (usage : List UsageLogRow)
    {keys : List QuotaRow} (hids : (keys.map (·.id)).Nodup) {k : QuotaRow} (hk : k ∈ keys) :
    (k.id ∈ saturatedQueryIds seeds dayStart usage keys ↔
      Hit (quotaForKey seeds k).limit (totals (usageOf dayStart usage k.id))) ↔
    if usageOf dayStart usage k.id = [] then
      ∀ a, (∀ l ∈ k.sharedLimit seeds a, 0 < l) ∧ ∀ l ∈ k.pythonOnly seeds a, 0 < l
    else
      Hit (k.sharedLimit seeds) (totals (usageOf dayStart usage k.id)) ∨
        (Hit (k.queryOnly seeds) (totals (usageOf dayStart usage k.id)) ↔
          Hit (k.pythonOnly seeds) (totals (usageOf dayStart usage k.id))) := by
  rw [mem_saturatedQueryIds hids hk, overQuota_iff, quotaForKey_hit_iff]
  split_ifs with hnone
  · rw [hnone]
    have hzero : ∀ f : Axis → Option ℤ, Hit f (totals []) ↔ ∃ a, ∃ l ∈ f a, l ≤ 0 := by
      intro f
      have hused : ∀ (a : Axis) (l : ℤ), reached ((totals []).used a) l = true ↔ l ≤ 0 := by
        intro a l
        have h0 : (totals []).used a = 0 := by cases a <;> rfl
        rw [h0, reached, decide_eq_true_eq]
        omega
      simp only [Hit, hused]
    simp only [ne_eq, not_true_eq_false, false_and, false_iff, hzero]
    constructor
    · intro hno a
      refine ⟨fun l hl => ?_, fun l hl => ?_⟩
      · by_contra hle
        exact hno (.inl ⟨a, l, hl, not_lt.mp hle⟩)
      · by_contra hle
        exact hno (.inr ⟨a, l, hl, not_lt.mp hle⟩)
    · rintro hpos (⟨a, l, hl, hle⟩ | ⟨a, l, hl, hle⟩)
      · exact absurd ((hpos a).1 l hl) (not_lt.mpr hle)
      · exact absurd ((hpos a).2 l hl) (not_lt.mpr hle)
  · simp only [ne_eq, hnone, not_false_eq_true, true_and]
    by_cases hshared : Hit (k.sharedLimit seeds) (totals (usageOf dayStart usage k.id))
    · simp [hshared]
    · simp [hshared]

/-- A registry with one provider, seeded with twenty requests a day. -/
def Seeds.sample : Seeds := fun provider => if provider = "sambanova" then some
    { reqPerDay := some 20 } else none

/-- Nineteen requests of key 1 on the first day. -/
def UsageLogRow.sample : List UsageLogRow := List.replicate 19 ⟨some 1, seconds 60, 10, 10⟩

def QuotaRow.sample (tier : Tier) : QuotaRow where
  id := 1
  provider := "sambanova"
  tier := tier

/-- The seed of its provider saturates a paid key that `quota_for_key` leaves uncapped. -/
theorem paid_key_saturated_by_seed :
    1 ∈ saturatedQueryIds .sample 0 UsageLogRow.sample [.sample .paid] ∧
      ∀ a, (quotaForKey .sample (.sample .paid)).limit a = none := by
  refine ⟨by decide +kernel, fun a => ?_⟩
  cases a <;> rfl

/-- A free key of the provider is saturated on both sides. -/
theorem saturation_agrees_of_free_key :
    1 ∈ saturatedQueryIds .sample 0 UsageLogRow.sample [.sample .free] ↔
      Hit (quotaForKey .sample (.sample .free)).limit (totals (usageOf 0 UsageLogRow.sample 1)) := by
  refine (saturation_agrees_iff .sample 0 UsageLogRow.sample (k := .sample .free) (by decide)
    (List.mem_singleton_self _)).mpr ?_
  rw [if_neg (by decide +kernel)]
  exact .inl ⟨.requests, 20, rfl, by decide +kernel⟩

end Broker.Routing
