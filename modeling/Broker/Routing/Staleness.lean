import Broker.Lib.TtlCache
import Broker.Routing.Quota
import Broker.Routing.Selector

/-!
# Broker.Routing.Staleness — how old the cached sums of a pick and of the global cap can be

`_saturated_key_ids` keeps the verdict of its query in each worker and shares it through Redis;
`_global_cost_today` keeps the day's spend in each worker only.  Both sum `usage_log`, whose rows of a
day are only added to.  A key that has reached 95 % of a limit is in every verdict, of every worker, from
two lifetimes of the cache and the length of a call on (`saturated_everywhere`).  The global cap is
checked against all that was spent until one lifetime ago (`global_cap_recent`).
-/

namespace Broker.Routing

open Broker.Lib Broker.Lib.TtlCache Broker.Db

namespace Staleness

/-- The start of the UTC day. -/
def dayStart (t : Time) : Time := t - t % seconds 86400

/-- The rows of the day that starts at `start`. -/
def ofDay {ρ : Type} (created : ρ → Time) (start : Time) (rows : List ρ) : List ρ :=
  rows.filter fun r => decide (start ≤ created r) && decide (created r < start + seconds 86400)

/-- During a day its rows are only added to. -/
def OnlyGrows {ρ : Type} (created : ρ → Time) (log : Time → List ρ) : Prop :=
  ∀ t t', t ≤ t' → dayStart t = dayStart t' →
    List.Sublist (ofDay created (dayStart t) (log t)) (ofDay created (dayStart t) (log t'))

theorem dayStart_mono {t t' : Time} (h : t ≤ t') : dayStart t ≤ dayStart t' := by
  have hfloor : ∀ a b : ℤ, a ≤ b → a - a % 86400000000 ≤ b - b % 86400000000 := by
    intro a b hab
    omega
  exact hfloor t t' h

/-- A moment between two of one day. -/
theorem dayStart_eq_of_between {t u t' : Time} (htu : t ≤ u) (hut : u ≤ t') (h : dayStart t = dayStart t') :
    dayStart u = dayStart t' :=
  le_antisymm (dayStart_mono hut) (h ▸ dayStart_mono htu)

/-! ### The saturation verdict -/

/-- The tables at each moment. -/
structure Tables where
  seeds : Seeds
  usage : Time → List UsageLogRow
  keys : Time → List QuotaRow

/-- The query of `_saturated_key_ids`, which takes the day from the database clock. -/
def verdictQuery (tables : Tables) (_ snap : Time) : List ℕ :=
  saturatedQueryIds tables.seeds (dayStart snap) (tables.usage snap) (tables.keys snap)

theorem usageOf_eq (start : Time) (usage : List UsageLogRow) (keyId : ℕ) :
    usageOf start usage keyId =
      (ofDay UsageLogRow.createdAt start usage).filter fun u => decide (u.apiKeyId = some keyId) := by
  rw [usageOf, ofDay, List.filter_filter]
  exact List.filter_congr fun u _ => by rw [Bool.and_comm]

theorem foldr_add_le {f : UsageLogRow → ℤ} {rows rows' : List UsageLogRow} (h : rows.Sublist rows')
    (hf : ∀ u ∈ rows', 0 ≤ f u) :
    rows.foldr (fun u n => f u + n) 0 ≤ rows'.foldr (fun u n => f u + n) 0 := by
  induction h with
  | slnil => exact le_rfl
  | cons u _ ih =>
    have hle := ih fun x hx => hf x (List.mem_cons_of_mem u hx)
    have hu := hf u List.mem_cons_self
    rw [List.foldr_cons]
    omega
  | cons_cons u _ ih =>
    have hle := ih fun x hx => hf x (List.mem_cons_of_mem u hx)
    rw [List.foldr_cons, List.foldr_cons]
    omega

/-- More rows reach every limit that fewer rows reach. -/
theorem overQuota_mono {seeds : Seeds} {k : QuotaRow} {rows rows' : List UsageLogRow} (h : rows.Sublist rows')
    (hin : ∀ u ∈ rows', 0 ≤ u.tokensIn) (hout : ∀ u ∈ rows', 0 ≤ u.tokensOut)
    (hover : overQuota seeds (totals rows) k = true) : overQuota seeds (totals rows') k = true := by
  have reached_mono : ∀ {used used' limit : ℤ}, used ≤ used' → reached used limit = true →
      reached used' limit = true := by
    intro used used' limit hle hreached
    simp only [reached, decide_eq_true_eq] at hreached ⊢
    omega
  have hreqs : (totals rows).reqs ≤ (totals rows').reqs := Int.ofNat_le.mpr h.length_le
  have htoks : (totals rows).toks ≤ (totals rows').toks := by
    have hsum := foldr_add_le (f := fun u => u.tokensIn + u.tokensOut) h
      fun u hu => add_nonneg (hin u hu) (hout u hu)
    exact hsum
  have hinput : (totals rows).toksIn ≤ (totals rows').toksIn := foldr_add_le (f := (·.tokensIn)) h hin
  have houtput : (totals rows).toksOut ≤ (totals rows').toksOut := foldr_add_le (f := (·.tokensOut)) h hout
  simp only [overQuota, Bool.or_eq_true] at hover ⊢
  rcases hover with ((hover | hover) | hover) | hover
  · exact .inl (.inl (.inl (reached_mono hreqs hover)))
  · exact .inl (.inl (.inr (reached_mono htoks hover)))
  · exact .inl (.inr (reached_mono hinput hover))
  · exact .inr (reached_mono houtput hover)

/-- The key stays as it is from `t` on, and its tokens are counted upwards. -/
structure Settled (tables : Tables) (k : QuotaRow) (t : Time) : Prop where
  keys : ∀ u, t ≤ u → k ∈ tables.keys u ∧ ((tables.keys u).map (·.id)).Nodup
  grows : OnlyGrows UsageLogRow.createdAt tables.usage
  tokensIn : ∀ u, ∀ r ∈ tables.usage u, 0 ≤ r.tokensIn
  tokensOut : ∀ u, ∀ r ∈ tables.usage u, 0 ≤ r.tokensOut

/-- A key in the result of the query stays in it for the day. -/
theorem verdictQuery_mono {tables : Tables} {k : QuotaRow} {t u : Time} (hk : Settled tables k t)
    (htu : t ≤ u)
    (hday : dayStart t = dayStart u) {b b' : Time} (h : k.id ∈ verdictQuery tables b t) :
    k.id ∈ verdictQuery tables b' u := by
  obtain ⟨hmem, hids⟩ := hk.keys t le_rfl
  obtain ⟨hmem', hids'⟩ := hk.keys u htu
  obtain ⟨hused, hover⟩ := (mem_saturatedQueryIds hids hmem).mp h
  have hsub : (usageOf (dayStart t) (tables.usage t) k.id).Sublist
      (usageOf (dayStart u) (tables.usage u) k.id) := by
    rw [← hday, usageOf_eq, usageOf_eq]
    exact (hk.grows t u htu hday).filter _
  have hrow : ∀ r ∈ usageOf (dayStart u) (tables.usage u) k.id, r ∈ tables.usage u :=
    fun r hr => List.mem_of_mem_filter hr
  refine (mem_saturatedQueryIds hids' hmem').mpr ⟨fun hnone => hused ?_, ?_⟩
  · rw [hnone] at hsub
    exact List.sublist_nil.mp hsub
  · exact overQuota_mono hsub (fun r hr => hk.tokensIn u r (hrow r hr))
      (fun r hr => hk.tokensOut u r (hrow r hr)) hover

/-- **How old a saturation verdict can be.**  In every run of picks of any number of workers, with a
Redis that answers or fails as it likes, a call over within `d` and verdicts invalidated at any time: a
verdict that a pick uses is what the query returned less than two lifetimes and `d` ago.  So a key that
has reached 95 % of a limit is in every verdict used from then on, of whichever worker, for the rest of
the day. -/
theorem saturated_everywhere {tables : Tables} {d start : Time} (hd : 0 ≤ d) {as : List Act}
    {s : Sys (List ℕ)}
    (h : Steps (Sys.step (verdictQuery tables) saturationTtl) (InTime saturationTtl d (d + saturationTtl))
      { now := start } as s) :
    ∀ a ∈ s.answers, (∃ snap, snap ≤ a.2 ∧ a.2 < snap + 2 * saturationTtl + d ∧
        a.1 = saturatedQueryIds tables.seeds (dayStart snap) (tables.usage snap) (tables.keys snap)) ∧
      ∀ (k : QuotaRow) (t : Time), Settled tables k t →
        k.id ∈ saturatedQueryIds tables.seeds (dayStart t) (tables.usage t) (tables.keys t) →
        t + 2 * saturationTtl + d ≤ a.2 → dayStart t = dayStart a.2 → k.id ∈ a.1 := by
  intro a ha
  have httl : (0 : ℤ) < saturationTtl := by decide
  obtain ⟨entered, snap, hquery, hle, hsnap, hage⟩ :=
    answers_recent httl.le hd (add_nonneg hd httl.le) h a ha
  have hrecent : a.2 < snap + 2 * saturationTtl + d := by
    have hd' : (0 : ℤ) ≤ d := hd
    have hentered : entered ≤ snap := hle
    have hage' : a.2 < entered + (d + saturationTtl) + saturationTtl ∨ a.2 ≤ entered + d := hage
    show (a.2 : ℤ) < snap + 2 * saturationTtl + d
    generalize saturationTtl = ttl at hage' httl
    rcases hage' with hage' | hage' <;> linarith
  refine ⟨⟨snap, hsnap, hrecent, hquery⟩, fun k t hk hover hlate hday => ?_⟩
  have htu : t ≤ snap := by
    have hlt : t + 2 * saturationTtl + d < snap + 2 * saturationTtl + d := lt_of_le_of_lt hlate hrecent
    linarith
  rw [hquery]
  exact verdictQuery_mono (b := t) hk htu (hday.trans (dayStart_eq_of_between htu hsnap hday).symm) hover

/-- A key with a limit of one request a day, used from the first microsecond on. -/
def usedOnce : Tables where
  seeds := fun _ => none
  usage t := if t < 1 then [] else [⟨some 1, 0, 5, 5⟩]
  keys _ := [{ id := 1, provider := "groq", tier := .free, manualReqLimit := some 1 }]

/-- The first worker asks before the key is used; the second takes its verdict from Redis just before it
expires, and keeps it until just before thirty seconds are over. -/
def lateVerdicts : List Act :=
  [.enter 0, .miss 0, .snapshot 0, .keep 0, .publish 0 true, .tick 14999999, .enter 1, .hit 1, .tick 29999998,
    .enter 1, .tick 31000000, .enter 1, .miss 2, .snapshot 2, .keep 2, .publish 2 false]

theorem saturated_everywhere_second : ∃ s,
    execAll (guarded (Sys.step (verdictQuery usedOnce) saturationTtl)
      (InTime saturationTtl 0 (0 + saturationTtl))) {} lateVerdicts = some s ∧
    s.answers.map Prod.snd = [0, 14999999, 29999998, 31000000] ∧
    s.answers.take 3 = [([], 0), ([], 14999999), ([], 29999998)] ∧
    ∀ a ∈ s.answers, a.2 = 31000000 → 1 ∈ a.1 := by
  obtain ⟨s, hrun, htimes, hstale⟩ : ∃ s,
      execAll (guarded (Sys.step (verdictQuery usedOnce) saturationTtl)
        (InTime saturationTtl 0 (0 + saturationTtl))) {} lateVerdicts = some s ∧
      s.answers.map Prod.snd = [0, 14999999, 29999998, 31000000] ∧
      s.answers.take 3 = [([], 0), ([], 14999999), ([], 29999998)] := ⟨_, rfl, rfl, rfl⟩
  have hsteps := (steps_of_execAll hrun).of_guarded
  have hk : Settled usedOnce { id := 1, provider := "groq", tier := .free, manualReqLimit := some 1 } 1 := by
    refine ⟨fun u _ => ⟨List.mem_singleton_self _, by simp [usedOnce]⟩, fun t t' htt' _ => ?_, ?_, ?_⟩
    · refine List.Sublist.filter _ ?_
      simp only [usedOnce]
      by_cases ht : t < 1
      · rw [if_pos ht]
        exact List.nil_sublist _
      · rw [if_neg ht, if_neg (not_lt.mpr ((not_lt.mp ht).trans htt'))]
    · intro u r hr
      simp only [usedOnce] at hr
      split_ifs at hr
      · cases hr
      · obtain rfl := List.mem_singleton.mp hr
        decide
    · intro u r hr
      simp only [usedOnce] at hr
      split_ifs at hr
      · cases hr
      · obtain rfl := List.mem_singleton.mp hr
        decide
  refine ⟨s, hrun, htimes, hstale, fun a ha hat => ?_⟩
  obtain ⟨-, hknown⟩ := saturated_everywhere le_rfl hsteps a ha
  refine hknown _ 1 hk (by decide) ?_ ?_
  · rw [hat]
    decide
  · rw [hat]
    decide

/-! ### The global spend -/

/-- A row of `usage_log`, as far as the cap reads it. -/
structure SpendRow where
  createdAt : Time
  costUsd : ℚ

/-- `_GLOBAL_TTL_S`. -/
def globalTtl : Time := seconds 30

/-- The sum over the rows of a day. -/
def spentOn (start : Time) (log : List SpendRow) :
    ℚ := ((ofDay SpendRow.createdAt start log).map (·.costUsd)).sum

/-- The query of `_global_cost_today`: the day is that of the call. -/
def globalCostQuery (log : Time → List SpendRow) (entered snap : Time) :
    ℚ := spentOn (dayStart entered) (log snap)

theorem sum_costs_le {rows rows' : List SpendRow} (h : rows.Sublist rows')
    (hcost : ∀ r ∈ rows', 0 ≤ r.costUsd) :
    (rows.map (·.costUsd)).sum ≤ (rows'.map (·.costUsd)).sum := by
  induction h with
  | slnil => exact le_rfl
  | cons r _ ih =>
    have hle := ih fun x hx => hcost x (List.mem_cons_of_mem r hx)
    rw [List.map_cons, List.sum_cons]
    exact hle.trans (le_add_of_nonneg_left (hcost r List.mem_cons_self))
  | cons_cons r _ ih =>
    have hle := ih fun x hx => hcost x (List.mem_cons_of_mem r hx)
    rw [List.map_cons, List.map_cons, List.sum_cons, List.sum_cons]
    exact add_le_add le_rfl hle

/-- **The global cap is checked against all that was spent until one lifetime ago.**  In every run of
calls of `_global_cost_today`, of any number of workers and any number at once, where a call is over
within `d`: when the check passes, what was booked on this day until a lifetime ago, and longer than `d`
ago, fits under the cap together with the estimate.  Just after midnight the spend of yesterday may be
the one that is checked, but it is then no older either. -/
theorem global_cap_recent {log : Time → List SpendRow} (hgrows : OnlyGrows SpendRow.createdAt log)
    (hcost : ∀ u, ∀ r ∈ log u, 0 ≤ r.costUsd) {d start : Time} (hd : 0 ≤ d) {as : List Act} {s : Sys ℚ}
    (h : Steps (Sys.step (globalCostQuery log) globalTtl) (InTime globalTtl d 0) { now := start } as s) :
    ∀ a ∈ s.answers, ∀ est cap : ℚ, a.1 + est ≤ cap → ∀ t : Time, dayStart t = dayStart a.2 →
      t + globalTtl ≤ a.2 → t + d < a.2 → spentOn (dayStart a.2) (log t) + est ≤ cap := by
  intro a ha est cap hadmits t hday hlifetime hlate
  have httl : (0 : ℤ) < globalTtl := by decide
  obtain ⟨entered, snap, hquery, hle, hsnap, hage⟩ := answers_recent httl.le hd le_rfl h a ha
  have htentered : t ≤ entered := by
    have hlifetime' : (t : ℤ) + globalTtl ≤ a.2 := hlifetime
    have hlate' : (t : ℤ) + d < a.2 := hlate
    have hage' : a.2 < entered + 0 + (globalTtl : ℤ) ∨ a.2 ≤ entered + (d : ℤ) := hage
    show (t : ℤ) ≤ entered
    rcases hage' with hage' | hage' <;> linarith
  have hsameday : dayStart entered = dayStart a.2 :=
    dayStart_eq_of_between htentered (le_trans hle hsnap) hday
  have hsnapday : dayStart snap = dayStart a.2 :=
    dayStart_eq_of_between (le_trans htentered hle) hsnap hday
  have hsub := hgrows t snap (le_trans htentered hle) (hday.trans hsnapday.symm)
  have hspent : spentOn (dayStart a.2) (log t) ≤ a.1 := by
    rw [hquery, globalCostQuery, hsameday, ← hday]
    exact sum_costs_le hsub fun r hr => hcost snap r (List.mem_of_mem_filter hr)
  exact (add_le_add hspent le_rfl).trans hadmits

/-- Two dollars at noon of the first day and one a minute later. -/
def twoDollars (t : Time) : List SpendRow :=
  if t < seconds 43200 then [] else if t < seconds 43260 then [⟨seconds 43200, 2⟩]
  else [⟨seconds 43200, 2⟩, ⟨seconds 43260, 1⟩]

theorem twoDollars_grows : OnlyGrows SpendRow.createdAt twoDollars := by
  intro t t' htt' _
  refine List.Sublist.filter _ ?_
  simp only [twoDollars]
  by_cases hnoon : t < seconds 43200
  · rw [if_pos hnoon]
    exact List.nil_sublist _
  · rw [if_neg hnoon, if_neg (not_lt.mpr ((not_lt.mp hnoon).trans htt'))]
    by_cases hminute : t < seconds 43260
    · rw [if_pos hminute]
      split_ifs
      · exact List.Sublist.refl _
      · exact List.sublist_append_left ([⟨seconds 43200, 2⟩] : List SpendRow) [⟨seconds 43260, 1⟩]
    · rw [if_neg hminute, if_neg (not_lt.mpr ((not_lt.mp hminute).trans htt'))]

/-- The second check still reads the two dollars of the first. -/
def twoChecks : List Act :=
  [.enter 0, .miss 0, .snapshot 0, .keep 0, .publish 0 false, .tick (seconds 43269), .enter 0]

theorem global_cap_recent_second : ∃ s : Sys ℚ,
    execAll (guarded (Sys.step (globalCostQuery twoDollars) globalTtl) (InTime globalTtl 0 0))
      { now := seconds 43240 } twoChecks = some s ∧
    s.answers = [(2, seconds 43240), (2, seconds 43269)] ∧
    spentOn 0 (twoDollars (seconds 43239)) + 1 ≤ 3 := by
  obtain ⟨s, hrun, hanswers⟩ : ∃ s : Sys ℚ,
      execAll (guarded (Sys.step (globalCostQuery twoDollars) globalTtl) (InTime globalTtl 0 0))
        { now := seconds 43240 } twoChecks = some s ∧
      s.answers = [(2, seconds 43240), (2, seconds 43269)] := ⟨_, rfl, by decide +kernel⟩
  have hcost : ∀ u, ∀ r ∈ twoDollars u, 0 ≤ r.costUsd := by
    intro u r hr
    simp only [twoDollars] at hr
    split_ifs at hr
    · cases hr
    · obtain rfl := List.mem_singleton.mp hr
      decide
    · rcases List.mem_cons.mp hr with rfl | hr
      · decide
      · obtain rfl := List.mem_singleton.mp hr
        decide
  have hmem : (2, seconds 43269) ∈ s.answers := by rw [hanswers]; simp
  have hsteps := (steps_of_execAll hrun).of_guarded
  have hchecked := global_cap_recent twoDollars_grows hcost le_rfl hsteps _ hmem 1 3 (by norm_num)
    (seconds 43239) (by decide) (by decide) (by decide)
  exact ⟨s, hrun, hanswers, hchecked⟩

end Staleness

end Broker.Routing
