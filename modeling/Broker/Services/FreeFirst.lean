import Broker.Providers.Cost
import Broker.Routing.PaidTail
import Broker.Services.PinnedWalk

/-!
# Broker.Services.FreeFirst — free keys first

Three mechanisms keep a walk off paid keys while free ones are left: the affinity leg of a free head
drops a key that is not free, the free pass of a pinned walk asks for the tier, and a cap block asks for
it for the rest of an unpinned walk.  What an attempt on the leg may cost is decided by its model as
well: a free OpenRouter key debits credits for a priced route.
-/

namespace Broker.Services

open Broker.Db Broker.Routing Broker.Providers

/-- The steps of a walk that is not pinned. -/
def unpinnedSteps (chain : List String) : List Step := chain.map fun p => { provider := p }

/-- A walk's normal steps: pinned or not, when it is not the final retry. -/
inductive NormalSteps (paid : List String) : List Step → Prop
  | pinned (targets : List PinTarget) : NormalSteps paid (pinnedSteps paid targets false)
  | unpinned (chain : List String) : NormalSteps paid (unpinnedSteps chain)

theorem NormalSteps.keyId {paid : List String} {steps : List Step} (h : NormalSteps paid steps) :
    ∀ st ∈ steps, st.keyId = none := by
  cases h with
  | pinned targets => exact fun st hst => (mem_pinnedSteps hst).2.1
  | unpinned chain =>
    intro st hst
    obtain ⟨p, -, rfl⟩ := List.mem_map.mp hst
    rfl

variable {π : Type}

/-- The pass is on the affinity leg. -/
def WalkVisit.onLeg (v : WalkVisit π) : Bool := v.step.keyId.isSome

/-- The key of the pass, if it got one, is a row that meets the conditions of `pick_and_reserve`. -/
def WalkVisit.Served (v : WalkVisit π) : Prop :=
  ∀ key, v.reply.key = some key → ∃ (now : Time) (today : Window → ℕ) (scope : String) (row : PickRow),
    row.id = key.id ∧ row.tier = key.tier ∧
      pickConds now today v.step.provider scope v.before.requireTier row = true

variable {env : ChatEnv} {finishBy : Time} {cap : ℕ} {replies : ℕ → Reply π}

/-- A pick that asks for a tier gets a key of it. -/
theorem WalkVisit.Served.tier {v : WalkVisit π} (h : v.Served) {key : PickedKey}
    (hkey : v.reply.key = some key)
    {t : Tier} (ht : v.before.requireTier = some t) : key.tier = t := by
  obtain ⟨now, today, scope, row, -, htier, hconds⟩ := h key hkey
  simp only [pickConds, ht, Option.all_some, Bool.and_eq_true, decide_eq_true_eq] at hconds
  rw [← htier]
  exact hconds.2

/-! ### The leg -/

/-- A leg that must not spend attempts on free keys only. -/
theorem tier_of_attempt {v : WalkVisit π} (h : v.step.freeOnly = true) {key : PickedKey} {model : String}
    (hatt : v.attempt env finishBy cap = some (key, model)) : key.tier = .free := by
  have hfilter := (Option.filter_eq_some_iff.mp (WalkVisit.of_attempt hatt).1).2
  rw [h] at hfilter
  simpa using hfilter

theorem picked_of_attempt {v : WalkVisit π} {key : PickedKey} {model : String}
    (hatt : v.attempt env finishBy cap = some (key, model)) : v.reply.key = some key :=
  (Option.filter_eq_some_iff.mp (WalkVisit.of_attempt hatt).1).1

/-- The leg in front of a free head must not spend, and has no tier. -/
theorem leg_of_free_head {paid : List String} {head : Step} {rest : List Step}
    {target : Option AffinityTarget}
    (hnormal : ∀ st ∈ head :: rest, st.keyId = none) (hfree : head.provider ∉ paid) {st : Step}
    (hst : st ∈ withAffinity paid (head :: rest) target false) (hleg : st.keyId.isSome = true) :
    st.freeOnly = true ∧ st.tier = none := by
  rcases withAffinity_cases paid (head :: rest) target false with heq | ⟨head', rest', t, hcons, -, heq⟩
  · rw [heq] at hst
    rw [hnormal st hst] at hleg
    cases hleg
  · rw [heq] at hst
    obtain ⟨rfl, -⟩ := List.cons.inj hcons
    rcases List.mem_cons.mp hst with rfl | hst
    · exact ⟨by simp [hfree], rfl⟩
    · rw [hnormal st hst] at hleg
      cases hleg

/-! ### After a cap block -/

/-- A pass behind a blocked attempt asks for a free key. -/
def FreeAfterBlock (env : ChatEnv) (finishBy : Time) (cap : ℕ) (pre : List (WalkVisit π))
    (v : WalkVisit π) : Prop :=
  (∃ u ∈ pre, u.blocked env finishBy cap) → v.before.requireTier = some .free

/-- So far every pass behind a blocked attempt asked for a free key, and the walk remembers the block. -/
structure Downgraded (env : ChatEnv) (finishBy : Time) (cap : ℕ) (vs : List (WalkVisit π)) (s : WalkState) :
    Prop where
  visits : EachVisit (FreeAfterBlock env finishBy cap) vs
  degraded : (∃ u ∈ vs, u.blocked env finishBy cap) → s.degradedFree = true

/-- One more pass, in a step that asks for free keys exactly when the walk is degraded. -/
theorem Downgraded.concat {vs : List (WalkVisit π)} {v : WalkVisit π} {s' : WalkState}
    (h : Downgraded env finishBy cap vs v.before)
    (hiff : v.before.degradedFree = true ↔ v.before.requireTier = some .free)
    (hv : v.blocked env finishBy cap → s'.degradedFree = true)
    (hkeep : v.before.degradedFree = true → s'.degradedFree = true) :
    Downgraded env finishBy cap (vs ++ [v]) s' := by
  refine ⟨h.visits.concat fun hb => hiff.mp (h.degraded hb), ?_⟩
  rintro ⟨u, hu, hb⟩
  rcases List.mem_append.mp hu with hu | hu
  · exact hkeep (h.degraded ⟨u, hu, hb⟩)
  · exact hv (List.mem_singleton.mp hu ▸ hb)

/-- **The rule of the downgrade**: the first block asks for free keys for the rest of the walk. -/
theorem downgraded_rule (finishBy : Time) (cap : ℕ) (replies : ℕ → Reply π) {steps : List Step}
    (hpaid : env.paidOnly = false) (htier : ∀ st ∈ steps, st.tier = none) :
    WalkRule env finishBy cap replies steps
      (fun _ vs s => Downgraded env finishBy cap vs s)
      (fun _ _ _ vs s => Downgraded env finishBy cap vs s ∧ (s.degradedFree = true ↔ s.requireTier = some .free))
      (fun vs _ _ => EachVisit (FreeAfterBlock env finishBy cap) vs) where
  enter := by
    intro idx st vs s hst h
    have hnone := htier st (List.mem_of_getElem? hst)
    refine ⟨⟨h.visits, h.degraded⟩, ?_⟩
    simp only [enterStep, hnone, hpaid, and_true]
    by_cases hdeg : s.degradedFree = true
    · rw [if_pos hdeg]
      exact iff_of_true hdeg rfl
    · rw [if_neg hdeg]
      exact iff_of_false hdeg (by simp)
  next := by
    rintro idx st i vs s s' hst ⟨h, hiff⟩ hout
    cases hout with
    | degrades _ _ _ _ _ htier' hdeg _ =>
      exact ⟨h.concat hiff (fun _ => hdeg) fun _ => hdeg, iff_of_true hdeg htier'⟩
    | nextKey _ hflow _ hkept _ =>
      refine ⟨h.concat hiff (fun hb => absurd hb (not_blocked_of_flow hflow (by decide)))
        fun hdeg => hkept.2.trans hdeg, ?_⟩
      rw [hkept.1, hkept.2]
      exact hiff
  leave := by
    rintro idx st i vs s s' hst ⟨h, hiff⟩ hout
    cases hout with
    | noKey _ hkey _ hkept =>
      exact h.concat hiff (fun hb => absurd hb (not_blocked_of_none (WalkVisit.attempt_of_noKey hkey)))
        fun hdeg => hkept.2.trans hdeg
    | noModel _ hkey hmodel _ hkept =>
      exact h.concat hiff (fun hb => absurd hb (not_blocked_of_none (WalkVisit.attempt_of_noModel hkey hmodel)))
        fun hdeg => hkept.2.trans hdeg
    | freeBlocked _ _ _ hfree _ hkept =>
      exact h.concat hiff (fun _ => hkept.2.trans (hiff.mpr hfree)) fun hdeg => hkept.2.trans hdeg
    | nextProvider _ hflow _ hkept =>
      exact h.concat hiff (fun hb => absurd hb (not_blocked_of_flow hflow (by decide)))
        fun hdeg => hkept.2.trans hdeg
  exhaust := fun _ _ _ _ _ h => h.1
  ends := fun _ _ _ _ _ _ _ _ h _ => h.1.visits.concat fun hb => h.2.mp (h.1.degraded hb)
  walked := fun _ _ h => h.visits

theorem freeAfterBlock_walk (steps : List Step) (hpaid : env.paidOnly = false)
    (htier : ∀ st ∈ steps, st.tier = none) (start : Time) :
    EachVisit (FreeAfterBlock env (start + env.wallBudget) (attemptBudget steps))
      (walkVisits env replies steps start) :=
  (downgraded_rule (start + env.wallBudget) (attemptBudget steps) replies hpaid htier).walk
    ⟨EachVisit.nil _, by simp⟩

/-! ### Free first -/

/-- Every free-pass step was visited. -/
def FreePassVisited (steps : List Step) (vs : List (WalkVisit π)) : Prop :=
  ∀ j st, steps[j]? = some st → st.isFreePass → ∃ u ∈ vs, u.idx = j

/-- A pass with a paid step of a pinned walk comes after its free pass. -/
theorem freePassVisited_of_paid {paid : List String} {targets : List PinTarget}
    {target : Option AffinityTarget}
    {pre : List (WalkVisit π)} {v : WalkVisit π} (h : VisitSpec (pinnedWalk paid targets target) pre v)
    (hpaid : v.step.tier = some .paid) : FreePassVisited (pinnedWalk paid targets target) pre :=
  fun j _ hst hfree => h.earlier j (lt_of_free_of_paid h.step hpaid hst hfree)

/-- A pinned walk whose leg may spend has no free pass. -/
theorem freePassVisited_of_spending_leg {paid : List String} {targets : List PinTarget}
    {target : Option AffinityTarget} {st : Step} (hst : st ∈ pinnedWalk paid targets target)
    (hleg : st.keyId.isSome = true) (hspend : st.freeOnly = false) (vs : List (WalkVisit π)) :
    FreePassVisited (pinnedWalk paid targets target) vs := by
  intro j st' hst' hfree
  exfalso
  have hmem := mem_pinnedWalk (List.mem_of_getElem? hst') (by rw [hfree]; rfl)
  have hnormal : ∀ st ∈ pinnedSteps paid targets false, st.keyId = none :=
    (NormalSteps.pinned targets).keyId
  -- a free-pass step stands at the head, so the head is free
  rw [pinnedSteps, if_neg (by simp)] at hmem hnormal
  cases hfilter : targets.filter fun t => !paid.contains t.provider with
  | nil =>
    rw [hfilter] at hmem
    obtain ⟨t, -, rfl⟩ := List.mem_map.mp (by simpa using hmem)
    cases hfree
  | cons t rest =>
    have ht : t.provider ∉ paid := by
      have hin : t ∈ targets.filter fun t => !paid.contains t.provider := by
        rw [hfilter]
        exact List.mem_cons_self
      simpa using (List.mem_filter.mp hin).2
    rw [pinnedWalk, pinnedSteps, if_neg (by simp), hfilter, List.map_cons, List.cons_append] at hst
    rw [hfilter, List.map_cons, List.cons_append] at hnormal
    have hfo := (leg_of_free_head hnormal ht hst hleg).1
    rw [hspend] at hfo
    cases hfo

/-- A paid key a normal step of a pinned walk picks comes after the free pass. -/
theorem freePassVisited_of_paid_key {paid : List String} {targets : List PinTarget}
    {target : Option AffinityTarget} {pre : List (WalkVisit π)} {v : WalkVisit π}
    (h : VisitSpec (pinnedWalk paid targets target) pre v) (hserved : v.Served) (hleg : v.onLeg = false)
    {key : PickedKey} (hkey : v.reply.key = some key) (hpaid : key.tier = .paid) :
    FreePassVisited (pinnedWalk paid targets target) pre := by
  have hmem : v.step ∈ pinnedSteps paid targets false := by
    have hst := List.mem_of_getElem? h.step
    rcases withAffinity_cases paid (pinnedSteps paid targets false) target false with
      heq | ⟨head, rest, t, -, -, heq⟩
    · rwa [pinnedWalk, heq] at hst
    · rw [pinnedWalk, heq] at hst
      rcases List.mem_cons.mp hst with hst | hst
      · rw [WalkVisit.onLeg, hst] at hleg
        cases hleg
      · exact hst
  rcases (mem_pinnedSteps hmem).2.2.1 with ht | ht
  · have hfree := hserved.tier hkey ((h.tier (by rw [ht]; rfl)).trans ht)
    rw [hpaid] at hfree
    cases hfree
  · exact freePassVisited_of_paid h ht

/-- **Free first.**  In every walk that is not the final retry: when the first normal step is on a free
provider, the affinity leg starts no attempt on a key that is not free; in a pinned walk, when picks meet
the conditions they ask for, no paid key is picked by a normal step and none is attempted on the leg
before every free-pass step was visited; and in an unpinned walk every pick after the first project or
global block asks for a free key. -/
theorem free_first (env : ChatEnv) (hpaid : env.paidOnly = false) (paid : List String)
    (target : Option AffinityTarget) (replies : ℕ → Reply π) (start : Time) :
    (∀ head rest, NormalSteps paid (head :: rest) → head.provider ∉ paid →
      ∀ v ∈ walkVisits env replies (withAffinity paid (head :: rest) target false) start, v.onLeg = true →
      ∀ key model, v.attempt env (start + env.wallBudget)
          (attemptBudget (withAffinity paid (head :: rest) target false)) = some (key, model) →
            key.tier = .free) ∧
    (∀ targets : List PinTarget, ∀ pre v post,
      walkVisits env replies (pinnedWalk paid targets target) start = pre ++ v :: post → v.Served →
      (v.onLeg = false → ∀ key, v.picked env (start + env.wallBudget)
          (attemptBudget (pinnedWalk paid targets target)) = some key → key.tier = .paid →
        FreePassVisited (pinnedWalk paid targets target) pre) ∧
      ∀ key model, v.attempt env (start + env.wallBudget)
          (attemptBudget (pinnedWalk paid targets target)) = some (key, model) → key.tier = .paid →
        FreePassVisited (pinnedWalk paid targets target) pre) ∧
    ∀ chain : List String, EachVisit
      (FreeAfterBlock env (start + env.wallBudget)
        (attemptBudget (withAffinity paid (unpinnedSteps chain) target false)))
      (walkVisits env replies (withAffinity paid (unpinnedSteps chain) target false) start) := by
  refine ⟨fun head rest hsteps hfree v hv hleg key model hatt => ?_, fun targets pre v post hsplit hserved => ?_,
    fun chain => freeAfterBlock_walk _ hpaid (fun st hst => ?_) start⟩
  · have hstep := List.mem_of_getElem? (step_of_visit hv)
    exact tier_of_attempt (leg_of_free_head hsteps.keyId hfree hstep hleg).1 hatt
  · have hspec := walkVisits_spec env (pinnedWalk paid targets target) replies start pre v post hsplit
    have hmem := List.mem_of_getElem? hspec.step
    refine ⟨fun hleg key hpicked htier => ?_, fun key model hatt htier => ?_⟩
    · unfold WalkVisit.picked at hpicked
      split_ifs at hpicked
      exact freePassVisited_of_paid_key hspec hserved hleg hpicked htier
    · cases hleg : v.onLeg with
      | false => exact freePassVisited_of_paid_key hspec hserved hleg (picked_of_attempt hatt) htier
      | true =>
        cases hfo : v.step.freeOnly with
        | false => exact freePassVisited_of_spending_leg hmem hleg hfo pre
        | true =>
          rw [tier_of_attempt hfo hatt] at htier
          cases htier
  · rcases withAffinity_cases paid (unpinnedSteps chain) target false with heq | ⟨head, rest, t, -, -, heq⟩
    · rw [heq] at hst
      obtain ⟨p, -, rfl⟩ := List.mem_map.mp hst
      rfl
    · rw [heq] at hst
      rcases List.mem_cons.mp hst with rfl | hst
      · rfl
      · obtain ⟨p, -, rfl⟩ := List.mem_map.mp hst
        rfl

/-- gemini has a paid key beside its free ones; the first pass gets it and a cap blocks it. -/
def paidKeyBlocked (k : ℕ) : Reply Unit :=
  { key := some ⟨k + 7, if k = 0 then .paid else .free⟩
    result := { flow := if k = 0 then .budgetExhausted else .nextProvider } }

/-- After the block the same provider is asked for a free key. -/
theorem free_first_of_block :
    ∃ v₀ v₁,
      walkVisits codeEnv paidKeyBlocked (withAffinity [] (unpinnedSteps ["gemini"]) none false) 0 = [v₀, v₁] ∧
      v₁.before.requireTier = some .free := by
  have hobs : (walkVisits codeEnv paidKeyBlocked (withAffinity [] (unpinnedSteps ["gemini"]) none false) 0).map
      (fun v => ((v.attempt codeEnv (0 + codeEnv.wallBudget)
        (attemptBudget (withAffinity [] (unpinnedSteps ["gemini"]) none false))).isSome, v.reply.result.flow)) =
      [(true, .budgetExhausted), (true, .nextProvider)] := by decide +kernel
  have hlen := congrArg List.length hobs
  rw [List.length_map] at hlen
  obtain ⟨v₀, v₁, hvisits⟩ := List.length_eq_two.mp hlen
  rw [hvisits] at hobs
  obtain ⟨hsome, hflow⟩ := Prod.mk.inj (List.cons.inj hobs).1
  exact ⟨v₀, v₁, hvisits, (free_first codeEnv rfl [] none paidKeyBlocked 0).2.2 ["gemini"] [v₀] v₁ [] hvisits
    ⟨v₀, List.mem_singleton_self _, hsome, hflow⟩⟩

/-- The paid key the request family last succeeded on. -/
def PickRow.warm : PickRow where
  id := 7
  tier := .paid
  provider := "gemini"
  scopes := ["llm:chat"]
  daily := ⟨none, .fin 0, none⟩
  monthly := ⟨none, .fin 0, none⟩

/-- The leg of a pinned walk picks that key before the free pass, and drops it. -/
theorem leg_picks_paid_key_before_free_pass :
    ∃ v post, walkVisits codeEnv paidKeyBlocked (pinnedWalk [] [{ provider := "gemini", model := "gemini/flash" }]
        (some ⟨"gemini", "gemini/flash", 7⟩)) 0 = [] ++ v :: post ∧ v.Served ∧
      v.picked codeEnv (0 + codeEnv.wallBudget) (attemptBudget (pinnedWalk []
        [{ provider := "gemini", model := "gemini/flash" }] (some ⟨"gemini", "gemini/flash", 7⟩))) =
        some ⟨7, .paid⟩ ∧
      ¬ FreePassVisited (π := Unit) (pinnedWalk [] [{ provider := "gemini", model := "gemini/flash" }]
        (some ⟨"gemini", "gemini/flash", 7⟩)) [] := by
  refine ⟨_, _, rfl, ?_, rfl, fun hvisited => ?_⟩
  · intro key hkey
    obtain rfl : (⟨7, .paid⟩ : PickedKey) = key := Option.some.inj hkey
    exact ⟨0, fun _ => 0, "llm:chat", PickRow.warm, rfl, rfl, by decide⟩
  · obtain ⟨u, hu, -⟩ := hvisited 1 _ rfl rfl
    cases hu

/-! ### What the leg spends -/

/-- What an attempt of the walk takes from the request. -/
structure SpendRequest (π : Type) where
  project : ProjectCaps
  estTokens : ℕ
  maxTokens : ℤ
  check : π → CallMeta → Except String (Option Rejection) := fun _ _ => .ok none

section Spend

variable (spec : String → Option ModelPrice) (litellm : String → ℤ → ℤ → Option ℚ)

/-- The `Attempt` that `run_chat` builds for a key and a model. -/
def chatAttempt (req : SpendRequest π) (now : Time) (key : ApiKeyRow) (model : String) : Attempt π where
  key := key
  project := req.project
  estimatedCost :=
    if key.tier = .free ∧ billsOnFreeKey spec model = false then 0
    else estimateLlmCost spec litellm now model req.estTokens req.maxTokens
  knownFree := (spec model).any fun m => m.pricing = .free
  billsOnFreeKey := billsOnFreeKey spec model
  estTokens := req.estTokens
  check := req.check

end Spend

section Spend

variable {spec : String → Option ModelPrice} {litellm : String → ℤ → ℤ → Option ℚ}

/-- An attempt on a free key reserves and costs nothing unless its model is billed there. -/
theorem spends_nothing_iff {req : SpendRequest π} {now : Time} {key : ApiKeyRow} {model : String}
    (hfree : key.tier = .free) (info : CallMeta) :
    (chatAttempt spec litellm req now key model).reserved = 0 ∧
        billedCost (chatAttempt spec litellm req now key model) info = 0 ↔
      billsOnFreeKey spec model = false ∨
        estimateLlmCost spec litellm now model req.estTokens req.maxTokens ≤ 0 ∧ info.cost = 0 := by
  cases hbills : billsOnFreeKey spec model with
  | false =>
    refine iff_of_true ⟨?_, ?_⟩ (.inl rfl)
    · simp [Attempt.reserved, chatAttempt, hfree, hbills]
    · simp [billedCost, chatAttempt, hfree, hbills]
  | true =>
    have hreserved : (chatAttempt spec litellm req now key model).reserved = 0 ↔
        estimateLlmCost spec litellm now model req.estTokens req.maxTokens ≤ 0 := by
      simp only [Attempt.reserved, chatAttempt, hbills, Bool.true_eq_false, and_false, if_false, true_and]
      by_cases hest : 0 < estimateLlmCost spec litellm now model req.estTokens req.maxTokens
      · rw [if_pos hest]
        exact iff_of_false hest.ne' (not_le.mpr hest)
      · rw [if_neg hest]
        exact iff_of_true rfl (not_lt.mp hest)
    have hbilled : billedCost (chatAttempt spec litellm req now key model) info = info.cost := by
      simp [billedCost, chatAttempt, hbills]
    rw [hreserved, hbilled]
    simp

/-- **What the affinity leg spends.**  For every walk that is not the final retry and whose first normal
step is on a free provider, an attempt on the leg reserves nothing and is billed nothing if and only if
its model is not one that is billed on a free key, or the request comes to no cost; and with tokens both
ways a model that is billed there always comes to a reservation. -/
theorem leg_spends_nothing_iff (env : ChatEnv) (paid : List String) {head : Step}
    {rest : List Step} (hsteps : NormalSteps paid (head :: rest)) (hfree : head.provider ∉ paid)
    (target : Option AffinityTarget) (replies : ℕ → Reply π) (start : Time) {v : WalkVisit π}
    (hv : v ∈ walkVisits env replies (withAffinity paid (head :: rest) target false) start)
    (hleg : v.onLeg = true) {key : PickedKey} {model : String}
    (hatt : v.attempt env (start + env.wallBudget)
      (attemptBudget (withAffinity paid (head :: rest) target false)) = some (key, model))
    (req : SpendRequest π) (now : Time) (row : ApiKeyRow) (hrow : row.tier = key.tier) (info : CallMeta) :
    ((chatAttempt spec litellm req now row model).reserved = 0 ∧
          billedCost (chatAttempt spec litellm req now row model) info = 0 ↔
        billsOnFreeKey spec model = false ∨
          estimateLlmCost spec litellm now model req.estTokens req.maxTokens ≤ 0 ∧ info.cost = 0) ∧
      (billsOnFreeKey spec model = true →
        (∀ m, spec model = some m → 0 ≤ m.inputUsdPerMtok.getD 0 ∧ 0 ≤ m.outputUsdPerMtok.getD 0) →
        0 < req.estTokens → 0 < req.maxTokens →
          0 < (chatAttempt spec litellm req now row model).reserved) := by
  have hstep := List.mem_of_getElem? (step_of_visit hv)
  have htier : row.tier = .free :=
    hrow.trans (tier_of_attempt (leg_of_free_head hsteps.keyId hfree hstep hleg).1 hatt)
  refine ⟨spends_nothing_iff htier info, fun hbills hprices hin hout => ?_⟩
  have hpos : 0 < estimateLlmCost spec litellm now model req.estTokens req.maxTokens :=
    estimateLlmCost_pos hbills hprices (Int.natCast_pos.mpr hin) hout now
  simp only [Attempt.reserved, chatAttempt, hbills, Bool.true_eq_false, and_false, if_false, true_and]
  rwa [if_pos hpos]

end Spend

/-- Two entries of the registry. -/
def codeSpecs (model : String) : Option ModelPrice :=
  if model = "openrouter/meta/muse-wonder" then
    some { provider := "openrouter", pricing := .override, inputUsdPerMtok := some 4, outputUsdPerMtok := some 20 }
  else if model = "gemini/m" then some { provider := "gemini" }
  else none

def codeRequest : SpendRequest Unit := { project := ⟨none, none⟩, estTokens := 1000, maxTokens := 4096 }

/-- A key marked free. -/
def freeKey (id : ℕ) : ApiKeyRow :=
  { id := id, tier := .free, daily := ⟨none, 0, none⟩, monthly := ⟨none, 0, none⟩ }

/-- The leg on a free key of gemini, whose calls have a list price: nothing is spent. -/
theorem leg_spends_nothing_of_gemini :
    ∃ v ∈ walkVisits codeEnv (blockedAt 9) (withAffinity [] (unpinnedSteps ["gemini"])
        (some ⟨"gemini", "gemini/m", 1⟩) false) 0, v.onLeg = true ∧
      (chatAttempt codeSpecs (fun _ _ _ => some 1) codeRequest 0 (freeKey 1) "gemini/m").reserved = 0 ∧
      billedCost (chatAttempt codeSpecs (fun _ _ _ => some 1) codeRequest 0 (freeKey 1) "gemini/m")
        { cost := 1 } = 0 := by
  refine ⟨_, List.mem_cons_self, rfl, ?_⟩
  have hatt : (visitOf (blockedAt 9) 0 ⟨"gemini", some "gemini/m", none, some 1, true⟩ 0
      (enterStep codeEnv 0 ⟨"gemini", some "gemini/m", none, some 1, true⟩ { clock := 0 })).attempt codeEnv
        (0 + codeEnv.wallBudget) (attemptBudget (withAffinity [] (unpinnedSteps ["gemini"])
          (some ⟨"gemini", "gemini/m", 1⟩) false)) = some (⟨1, .free⟩, "gemini/m") := rfl
  exact (leg_spends_nothing_iff codeEnv [] (NormalSteps.unpinned ["gemini"]) (by simp)
    (some ⟨"gemini", "gemini/m", 1⟩) (blockedAt 9) 0 List.mem_cons_self rfl hatt codeRequest 0 (freeKey 1) rfl
    { cost := 1 }).1.mpr (.inl (by decide))

/-- The leg on a priced route of OpenRouter with a key marked free: the estimate is reserved and billed. -/
theorem leg_spends_on_priced_route :
    ∃ v ∈ walkVisits codeEnv (blockedAt 9) (withAffinity [] (pinnedSteps []
        [{ provider := "openrouter", model := "openrouter/meta/muse-wonder" }] false)
        (some ⟨"openrouter", "openrouter/meta/muse-wonder", 1⟩) false) 0, v.onLeg = true ∧
      v.attempt codeEnv (0 + codeEnv.wallBudget) (attemptBudget (withAffinity [] (pinnedSteps []
        [{ provider := "openrouter", model := "openrouter/meta/muse-wonder" }] false)
        (some ⟨"openrouter", "openrouter/meta/muse-wonder", 1⟩) false)) =
          some (⟨1, .free⟩, "openrouter/meta/muse-wonder") ∧
      0 < (chatAttempt codeSpecs (fun _ _ _ => none) codeRequest 0 (freeKey 1)
        "openrouter/meta/muse-wonder").reserved ∧
      0 < billedCost (chatAttempt codeSpecs (fun _ _ _ => none) codeRequest 0 (freeKey 1)
        "openrouter/meta/muse-wonder") { cost := 1 / 100 } := by
  refine ⟨_, List.mem_cons_self, rfl, rfl, ?_, ?_⟩
  · decide +kernel
  · decide +kernel

end Broker.Services
