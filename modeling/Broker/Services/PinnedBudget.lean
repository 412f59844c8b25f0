import Broker.Providers.Catalog
import Broker.Services.FreeFirst
import Broker.Services.StructuredOutput

/-!
# Broker.Services.PinnedBudget — a pinned request fails on budget when nothing free is left

An attempt on a free key is blocked by a cap only where OpenRouter bills its model, and a pin that resolves
to such a model resolves to nothing else.  The free pass that is cut short has that one step, so a pinned
walk that ends out of budget has tried its free pass.
-/

namespace Broker.Services

open Broker.Lib Broker.Db Broker.Routing Broker.Providers

/-! ### What blocks an attempt on a free key -/

section Attempt

variable {π : Type} {a : Attempt π} {w : Surroundings} {f : AttemptFates π}

/-- **With nothing to reserve, no cap blocks an attempt on a free key.** -/
theorem flow_of_free_attempt (hfree : a.key.tier = .free) (hest : a.estimatedCost ≤ 0)
    (hgate : ∀ payload info rej, a.check payload info = .ok (some rej) → rej.flow ≠ .budgetExhausted)
    {res : AttemptResult π} (h : (runAttempt a w f).out = .ok res) : res.flow ≠ .budgetExhausted := by
  have hreserve : (reserveOrBlock a w f).out = .ok none := by
    have hnone : reservation a w = pure () := by
      rw [reservation, reserveCost, if_pos ⟨hfree, hest⟩]
    unfold reserveOrBlock
    rw [hnone]
    split_ifs <;> rfl
  unfold runAttempt at h
  rw [Proc.bind_of_ok hreserve] at h
  have hafter : (afterReserve a f).out = .ok res := h
  unfold afterReserve at hafter
  split at hafter
  · obtain ⟨_, -, hbook⟩ := Proc.bind_returns.mp hafter
    unfold bookAnswer at hbook
    split at hbook
    · cases hbook
    · rename_i rej hcheck
      obtain ⟨_, -, hres⟩ := Proc.bind_returns.mp hbook
      obtain rfl := Except.ok.inj hres
      exact hgate _ _ _ hcheck
    · obtain ⟨_, -, hbook⟩ := Proc.bind_returns.mp hbook
      obtain ⟨_, -, hres⟩ := Proc.bind_returns.mp hbook
      obtain rfl := Except.ok.inj hres
      simp
  · obtain ⟨_, -, hhandled⟩ := Proc.bind_returns.mp hafter
    obtain ⟨flow, hflow, hres⟩ := Proc.bind_returns.mp hhandled
    obtain rfl := Except.ok.inj hres
    rcases handleCallError_flow hflow with rfl | rfl <;> simp
  · obtain ⟨_, -, hraise⟩ := Proc.bind_returns.mp hafter
    cases hraise

end Attempt

/-! ### The pin of a request -/

/-- What a pin resolves in: `str.lower`, the catalog of the subscription models, and the provider filters of
`run_chat` for tools, JSON and size. -/
structure PinSetting where
  lower : List Char → List Char
  subs : SubscriptionCatalog
  chain : List String
  keeps : String → Bool

section Pinned

variable {φ : Type} (lib : Agent.SchemaLib) (room : ℕ) (F : FloatText φ) (litellm : String → ℤ → ℤ → Option ℚ)

/-- A call with a pinned model that is not the final retry: its targets are those the pin resolves to and the
filters keep, its picks return rows that meet their conditions, and its attempts are those `run_chat` builds
of the rows. -/
structure PinnedCall extends ChatCall lib room F where
  setting : PinSetting
  pin : String
  pinned : request.model = some pin
  normal : env.paidOnly = false
  targets : List PinTarget
  resolved : ∃ pairs, resolvePin setting.lower setting.subs pin.toList request.capability setting.chain = .ok pairs ∧
    targets.map (fun t => (t.provider, t.model)) = pairs.filter fun p => setting.keeps p.1
  walk : steps = pinnedSteps paid targets false
  served : ∀ v ∈ walkVisits env replies (pinnedWalk paid targets target) start, v.Served
  built : ∀ v ∈ walkVisits env replies (pinnedWalk paid targets target) start, ∀ key model,
    v.attempt env (start + env.wallBudget) (attemptBudget (pinnedWalk paid targets target)) = some (key, model) →
      ∃ (req : SpendRequest ChatAnswer) (now : Time) (row : ApiKeyRow), row.tier = key.tier ∧
        (attempts v.before.passes).attempt lib room F request = chatAttempt registryPrice litellm req now row model

end Pinned

/-! ### The free pass of a billed route -/

section Visits

variable {π : Type} {env : ChatEnv} {finishBy : Time} {cap : ℕ} {replies : ℕ → Reply π}

theorem reply_of_keyVisits {idx : ℕ} {st : Step} (n : ℕ) {i : ℕ} {s : WalkState} {v : WalkVisit π}
    (h : v ∈ keyVisits env finishBy cap replies idx st n i s) : v.reply = replies v.before.passes := by
  induction n generalizing i s with
  | zero => cases h
  | succ n ih =>
    rw [keyVisits] at h
    rcases List.mem_cons.mp h with rfl | h
    · rfl
    · split at h
      · exact ih h
      · cases h

/-- A visit has the reply of its number. -/
theorem reply_of_visit {steps : List Step} {start : Time} {v : WalkVisit π}
    (h : v ∈ walkVisits env replies steps start) : v.reply = replies v.before.passes := by
  have hsteps : ∀ {bound : Time} {cap : ℕ} (rest : List Step) {idx : ℕ} {s : WalkState},
      v ∈ stepVisits env bound cap replies idx rest s → v.reply = replies v.before.passes := by
    intro bound cap rest
    induction rest with
    | nil => exact fun h => by cases h
    | cons st rest ih =>
      intro idx s h
      rw [stepVisits] at h
      rcases List.mem_append.mp h with h | h
      · exact reply_of_keyVisits _ h
      · split at h
        · exact ih h
        · cases h
  exact hsteps steps h

/-- An attempt of a step with a model is on that model. -/
theorem model_of_attempt {v : WalkVisit π} {key : PickedKey} {model : String}
    (hatt : v.attempt env finishBy cap = some (key, model)) (hst : v.step.model.getD "" ≠ "") :
    v.step.model.getD "" = model := by
  have hchosen := (WalkVisit.of_attempt hatt).2
  unfold WalkVisit.chosen useModel at hchosen
  rwa [if_pos hst] at hchosen

/-- The step of a free pass is that of a target. -/
theorem target_of_freePass {paid : List String} {targets : List PinTarget} {st : Step}
    (h : st ∈ pinnedSteps paid targets false) (hfree : st.isFreePass) : ∃ t ∈ targets, st.model = some t.model := by
  rw [pinnedSteps, if_neg (by simp)] at h
  rcases List.mem_append.mp h with h | h
  · obtain ⟨t, ht, rfl⟩ := List.mem_map.mp h
    exact ⟨t, (List.mem_filter.mp ht).1, rfl⟩
  · obtain ⟨t, -, rfl⟩ := List.mem_map.mp h
    cases hfree

/-- One target has one free-pass step at most. -/
theorem freePass_alone (paid : List String) (t : PinTarget) (target : Option AffinityTarget) :
    (pinnedWalk paid [t] target).Pairwise fun a b => a.isFreePass → ¬ b.isFreePass := by
  have hsteps : (pinnedSteps paid [t] false).Pairwise fun a b => a.isFreePass → ¬ b.isFreePass := by
    rw [pinnedSteps, if_neg (by simp), List.filter_singleton]
    cases paid.contains t.provider <;> simp [Step.isFreePass]
  rcases withAffinity_cases paid (pinnedSteps paid [t] false) target false with heq | ⟨_, _, _, -, -, heq⟩
  · rwa [pinnedWalk, heq]
  · rw [pinnedWalk, heq, List.pairwise_cons]
    refine ⟨fun _ _ hfree => ?_, hsteps⟩
    cases hfree

theorem freePass_unique {paid : List String} {t : PinTarget} {target : Option AffinityTarget} {i j : ℕ} {a b : Step}
    (ha : (pinnedWalk paid [t] target)[i]? = some a) (hafree : a.isFreePass)
    (hb : (pinnedWalk paid [t] target)[j]? = some b) (hbfree : b.isFreePass) : i = j := by
  obtain ⟨hi, rfl⟩ := List.getElem?_eq_some_iff.mp ha
  obtain ⟨hj, rfl⟩ := List.getElem?_eq_some_iff.mp hb
  have halone := List.pairwise_iff_getElem.mp (freePass_alone paid t target)
  rcases lt_trichotomy i j with hlt | heq | hgt
  · exact absurd hbfree (halone i j hi hj hlt hafree)
  · exact heq
  · exact absurd hafree (halone j i hj hi hgt hbfree)

end Visits

section Pinned

variable {φ : Type} {lib : Agent.SchemaLib} {room : ℕ} {F : FloatText φ} {litellm : String → ℤ → ℤ → Option ℚ}

/-- The gate of `run_chat` never reports a spent budget. -/
theorem KeyAttempt.gate_not_budget (k : KeyAttempt) (r : ChatRequest φ) {answer : ChatAnswer} {info : CallMeta}
    {rej : Rejection} (h : (k.attempt lib room F r).check answer info = .ok (some rej)) :
    rej.flow ≠ .budgetExhausted := by
  simp only [KeyAttempt.attempt] at h
  cases hg : r.gate lib room F k.emptyIsFailure answer with
  | error e =>
    rw [hg] at h
    cases h
  | ok verdict =>
    rw [hg] at h
    rw [Except.ok.inj h] at hg
    rw [chatGate_flow hg]
    decide

namespace PinnedCall

variable (c : PinnedCall lib room F litellm)

/-- **A blocked attempt of the free pass** is on the only target, one that is billed on a free key. -/
theorem target_of_blocked {v : WalkVisit ChatAnswer}
    (hv : v ∈ walkVisits c.env c.replies (pinnedWalk c.paid c.targets c.target) c.start)
    (hblocked : v.blocked c.env (c.start + c.env.wallBudget)
      (attemptBudget (pinnedWalk c.paid c.targets c.target))) (hfree : v.step.isFreePass) :
    ∃ t, c.targets = [t] ∧ billsOnFreeKey registryPrice t.model = true := by
  obtain ⟨⟨key, model⟩, hatt⟩ := Option.isSome_iff_exists.mp hblocked.1
  obtain ⟨req, now, row, hrow, hbuilt⟩ := c.built v hv key model hatt
  -- the key is free, since the pick asked for it
  have hkey : key.tier = .free := by
    obtain ⟨pre, post, hsplit⟩ := List.append_of_mem hv
    have hspec := walkVisits_spec c.env (pinnedWalk c.paid c.targets c.target) c.replies c.start pre v post hsplit
    refine (c.served v hv).tier (picked_of_attempt hatt) ((hspec.tier ?_).trans hfree)
    rw [hfree]
    rfl
  have hstep : v.step ∈ pinnedSteps c.paid c.targets false :=
    mem_pinnedWalk (List.mem_of_getElem? (step_of_visit hv)) (by rw [hfree]; rfl)
  obtain ⟨t, ht, hmodel⟩ := target_of_freePass hstep hfree
  have hnamed : v.step.model.getD "" = t.model := by rw [hmodel]; rfl
  obtain rfl : t.model = model := hnamed.symm.trans (model_of_attempt hatt (by rw [hnamed]; exact t.named))
  have hbills : billsOnFreeKey registryPrice t.model = true := by
    by_contra hbills
    have hnone := Bool.eq_false_of_not_eq_true hbills
    have hran := c.returned v.before.passes
    rw [KeyAttempt.Returns, hbuilt] at hran
    refine flow_of_free_attempt (hrow.trans hkey) ?_ ?_ hran ?_
    · simp [chatAttempt, hrow.trans hkey, hnone]
    · rw [← hbuilt]
      exact fun _ _ _ h => KeyAttempt.gate_not_budget _ _ h
    · rw [← reply_of_visit hv]
      exact hblocked.2
  refine ⟨t, ?_, hbills⟩
  -- the pin resolves to this target alone
  obtain ⟨pairs, hpairs, hkept⟩ := c.resolved
  have hin : (t.provider, t.model) ∈ pairs.filter fun p => c.setting.keeps p.1 := by
    rw [← hkept]
    exact List.mem_map_of_mem ht
  rw [eq_singleton_of_billed hpairs (List.mem_filter.mp hin).1 hbills] at hkept
  have hlen : c.targets.length ≤ 1 := by
    have hmap := congrArg List.length hkept
    rw [List.length_map] at hmap
    rw [hmap]
    exact List.length_filter_le _ _
  obtain ⟨u, hu⟩ := List.length_eq_one_iff.mp (le_antisymm hlen (List.length_pos_of_mem ht))
  rw [hu] at ht ⊢
  rw [List.mem_singleton.mp ht]

/-- **A pinned request fails on budget only when nothing free is left**: every free-pass step of its walk was
visited, and ended by a failed attempt or without a free key. -/
theorem budget_after_free_pass (c : PinnedCall lib room F litellm)
    (hbudget : ∃ res, runChat c.env c.paid c.steps c.target c.replies c.start = .budgetExhausted res) :
    FreePassTried c.env (pinnedWalk c.paid c.targets c.target) c.replies c.start := by
  rw [c.walk] at hbudget
  refine (pinned_budget_iff c.env c.normal c.paid c.targets c.target c.replies c.start).mpr ?_ hbudget
  intro v hv hblocked hfree j st hst hstfree
  obtain ⟨t, ht, -⟩ := c.target_of_blocked hv hblocked hfree
  have hstep := step_of_visit hv
  rw [ht] at hst hstep
  exact (freePass_unique hst hstfree hstep hfree).le

end PinnedCall

end Pinned

/-! ### A priced route -/

/-- The pin of a model that OpenRouter bills. -/
def grok : String := "openrouter/x-ai/grok-4.7"

def grokTarget : PinTarget := { provider := "openrouter", model := grok, named := by decide }

/-- The project pays for nothing. -/
def unpaidRequest : SpendRequest ChatAnswer := { project := ⟨some 0, none⟩, estTokens := 1000, maxTokens := 4096 }

/-- A key marked free, on the priced route. -/
def grokAttempt : KeyAttempt where
  key := uncappedKey
  project := unpaidRequest.project
  estimatedCost := (chatAttempt registryPrice (fun _ _ _ => none) unpaidRequest 0 uncappedKey grok).estimatedCost
  knownFree := (chatAttempt registryPrice (fun _ _ _ => none) unpaidRequest 0 uncappedKey grok).knownFree
  billsOnFreeKey := billsOnFreeKey registryPrice grok
  estTokens := 1000
  surroundings := objectAttempt.surroundings
  fates := objectAttempt.fates

def grokRequest : ChatRequest ℕ :=
  { objectRequest with capability := "chat:code", model := some grok, dicts := objectRequest.dicts }

theorem grokAttempt_returns :
    grokAttempt.Returns permissiveLib 10 naturalFloats grokRequest ⟨.budgetExhausted, none, none⟩ := by
  have hout : ((runAttempt (grokAttempt.attempt permissiveLib 10 naturalFloats grokRequest)
      grokAttempt.surroundings grokAttempt.fates).out.toOption.map fun r =>
        (r.flow, r.payload.isNone, r.rejection)) = some (.budgetExhausted, true, none) := by
    decide +kernel
  unfold KeyAttempt.Returns
  cases h : (runAttempt (grokAttempt.attempt permissiveLib 10 naturalFloats grokRequest)
      grokAttempt.surroundings grokAttempt.fates).out with
  | error e =>
    rw [h] at hout
    cases hout
  | ok r =>
    obtain ⟨flow, payload, rejection⟩ := r
    rw [h] at hout
    simpa [Except.toOption] using hout

def grokWalk : ChatCall permissiveLib 10 naturalFloats where
  request := grokRequest
  env := codeEnv
  capability := rfl
  paid := ["deepseek", "anthropic", "openai"]
  steps := pinnedSteps ["deepseek", "anthropic", "openai"] [grokTarget] false
  target := none
  start := 0
  replies _ := { key := some ⟨1, .free⟩, result := ⟨.budgetExhausted, none, none⟩ }
  attempts _ := grokAttempt
  returned _ := grokAttempt_returns

def grokCall : PinnedCall permissiveLib 10 naturalFloats fun _ _ _ => none where
  toChatCall := grokWalk
  setting := { lower := id, subs := {}, chain := ["cerebras", "groq", "openrouter"], keeps := fun _ => true }
  pin := grok
  pinned := rfl
  normal := rfl
  targets := [grokTarget]
  resolved := ⟨[("openrouter", grok)], by decide +kernel, rfl⟩
  walk := rfl
  served := by
    intro v hv key hkey
    obtain rfl : v = visitOf grokWalk.replies 0 ⟨"openrouter", some grok, some .free, none, false⟩ 0
        (enterStep codeEnv 0 ⟨"openrouter", some grok, some .free, none, false⟩ { clock := 0 }) :=
      List.mem_singleton.mp hv
    obtain rfl : (⟨1, .free⟩ : PickedKey) = key := Option.some.inj hkey
    exact ⟨0, fun _ => 0, "llm:chat", { PickRow.warm with id := 1, tier := .free, provider := "openrouter" },
      rfl, rfl, by decide⟩
  built := by
    intro v hv key model hatt
    obtain rfl : v = visitOf grokWalk.replies 0 ⟨"openrouter", some grok, some .free, none, false⟩ 0
        (enterStep codeEnv 0 ⟨"openrouter", some grok, some .free, none, false⟩ { clock := 0 }) :=
      List.mem_singleton.mp hv
    have hpair : some ((⟨1, .free⟩ : PickedKey), grok) = some (key, model) := hatt
    obtain ⟨rfl, rfl⟩ := Prod.mk.inj (Option.some.inj hpair)
    exact ⟨{ unpaidRequest with check := (grokAttempt.attempt permissiveLib 10 naturalFloats grokRequest).check }, 0,
      uncappedKey, rfl, rfl⟩

/-- The free pass of the priced route is blocked, and it was the last. -/
theorem budget_after_free_pass_of_grok :
    (∃ res, runChat grokCall.env grokCall.paid grokCall.steps grokCall.target grokCall.replies grokCall.start =
        .budgetExhausted res) ∧
      FreePassTried grokCall.env (pinnedWalk grokCall.paid grokCall.targets grokCall.target) grokCall.replies
        grokCall.start := by
  have hbudget : ∃ res, runChat grokCall.env grokCall.paid grokCall.steps grokCall.target grokCall.replies
      grokCall.start = .budgetExhausted res := ⟨_, rfl⟩
  exact ⟨hbudget, grokCall.budget_after_free_pass hbudget⟩

end Broker.Services
