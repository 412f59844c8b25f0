import Broker.Services.ContentVerdict

/-!
# Broker.Services.PinnedWalk — a pinned walk out of budget

A pinned walk asks the free keys of every target first, then the paid ones.  A project or global cap that
blocks one of its attempts ends it: on the paid pass the free pass has run, and a block on the free pass
leaves its later steps untried.
-/

namespace Broker.Services

open Broker.Db Broker.Routing

/-- `PinTarget`: the model is a routing id of the catalog. -/
structure PinTarget where
  provider : String
  model : String
  named : model ≠ "" := by decide

/-- `_pinned_steps`. -/
def pinnedSteps (paid : List String) (targets : List PinTarget) (paidOnly : Bool) : List Step :=
  (if paidOnly then []
    else (targets.filter fun t => !paid.contains t.provider).map fun t =>
      { provider := t.provider, model := some t.model, tier := some .free }) ++
    targets.map fun t => { provider := t.provider, model := some t.model, tier := some .paid }

/-- The steps of a pinned walk that is not the final retry, with the affinity leg. -/
def pinnedWalk (paid : List String) (targets : List PinTarget) (target : Option AffinityTarget) : List Step :=
  withAffinity paid (pinnedSteps paid targets false) target false

variable {π : Type}

section

variable (env : ChatEnv) (finishBy : Time) (cap : ℕ)

/-- The attempt of the pass was blocked by a project or a global cap. -/
def WalkVisit.blocked (v : WalkVisit π) : Prop :=
  (v.attempt env finishBy cap).isSome = true ∧ v.reply.result.flow = .budgetExhausted

/-- The attempt of the pass failed. -/
def WalkVisit.failed (v : WalkVisit π) : Prop :=
  (v.attempt env finishBy cap).isSome = true ∧ v.reply.result.flow ≠ .success

/-- The pick of the pass found no key. -/
def WalkVisit.foundNoKey (v : WalkVisit π) : Prop := v.picks env finishBy cap = true ∧ v.reply.key = none

/-- The step was visited, and its passes failed or found no key. -/
structure Tried (vs : List (WalkVisit π)) (j : ℕ) : Prop where
  visited : ∃ v ∈ vs, v.idx = j
  ended : ∀ v ∈ vs, v.idx = j → v.failed env finishBy cap ∨ v.foundNoKey env finishBy cap

end

/-- A step of the free pass. -/
def Step.isFreePass (st : Step) : Prop := st.tier = some .free

variable {env : ChatEnv} {finishBy : Time} {cap : ℕ} {replies : ℕ → Reply π}

/-! ### The order of the steps -/

theorem mem_pinnedSteps {paid : List String} {targets : List PinTarget} {st : Step}
    (h : st ∈ pinnedSteps paid targets false) :
    st.freeOnly = false ∧ st.keyId = none ∧ (st.tier = some .free ∨ st.tier = some .paid) ∧
      st.model.getD "" ≠ "" := by
  rw [pinnedSteps, if_neg (by simp)] at h
  rcases List.mem_append.mp h with h | h
  · obtain ⟨t, -, rfl⟩ := List.mem_map.mp h
    exact ⟨rfl, rfl, .inl rfl, t.named⟩
  · obtain ⟨t, -, rfl⟩ := List.mem_map.mp h
    exact ⟨rfl, rfl, .inr rfl, t.named⟩

/-- No paid step stands before a free one. -/
theorem pinnedSteps_ordered (paid : List String) (targets : List PinTarget) :
    (pinnedSteps paid targets false).Pairwise fun a b => a.tier = some .paid → b.tier ≠ some .free := by
  rw [pinnedSteps, if_neg (by simp), List.pairwise_append]
  refine ⟨?_, ?_, ?_⟩
  · exact List.pairwise_map.mpr (List.pairwise_of_forall fun _ _ h => by cases h)
  · exact List.pairwise_map.mpr (List.pairwise_of_forall fun _ _ _ => by simp)
  · intro a ha b hb hpaid
    obtain ⟨t, -, rfl⟩ := List.mem_map.mp ha
    cases hpaid

/-- The walk is its steps, or the leg and its steps. -/
theorem withAffinity_cases (paid : List String) (steps : List Step) (target : Option AffinityTarget)
    (paidOnly : Bool) :
    withAffinity paid steps target paidOnly = steps ∨
      ∃ head rest t, steps = head :: rest ∧ target = some t ∧ withAffinity paid steps target paidOnly =
        { provider := t.provider
          model := some t.model
          tier := if paidOnly then some .paid else none
          keyId := some t.keyId
          freeOnly := !paidOnly && !paid.contains head.provider } :: steps := by
  unfold withAffinity
  split
  · exact .inl rfl
  · exact .inl rfl
  · rename_i head rest t
    by_cases hmay : mayPromote paid t head.provider paidOnly = false
    · exact .inl (if_pos hmay)
    rw [if_neg hmay]
    by_cases hshaped : (head :: rest).any (fun s => s.provider = t.provider ∧
        (s.model.getD "" = "" ∨ s.model = some t.model)) = false
    · exact .inl (if_pos hshaped)
    rw [if_neg hshaped]
    exact .inr ⟨head, rest, t, rfl, rfl, rfl⟩

theorem mem_pinnedWalk {paid : List String} {targets : List PinTarget} {target : Option AffinityTarget}
    {st : Step}
    (h : st ∈ pinnedWalk paid targets target) (ht : st.tier.isSome = true) :
    st ∈ pinnedSteps paid targets false := by
  rcases withAffinity_cases paid (pinnedSteps paid targets false) target false with heq | ⟨head, rest, t, -, -, heq⟩
  · rwa [pinnedWalk, heq] at h
  · rw [pinnedWalk, heq] at h
    rcases List.mem_cons.mp h with rfl | h
    · cases ht
    · exact h

theorem pinnedWalk_ordered (paid : List String) (targets : List PinTarget) (target : Option AffinityTarget) :
    (pinnedWalk paid targets target).Pairwise fun a b => a.tier = some .paid → b.tier ≠ some .free := by
  rcases withAffinity_cases paid (pinnedSteps paid targets false) target false with heq | ⟨head, rest, t, -, -, heq⟩
  · rw [pinnedWalk, heq]
    exact pinnedSteps_ordered paid targets
  · rw [pinnedWalk, heq, List.pairwise_cons]
    exact ⟨fun _ _ h => absurd h (by simp), pinnedSteps_ordered paid targets⟩

/-- A step of the free pass stands before a paid one. -/
theorem lt_of_free_of_paid {paid : List String} {targets : List PinTarget} {target : Option AffinityTarget}
    {i j : ℕ} {a b : Step} (ha : (pinnedWalk paid targets target)[i]? = some a) (hpaid : a.tier = some .paid)
    (hb : (pinnedWalk paid targets target)[j]? = some b) (hfree : b.isFreePass) : j < i := by
  by_contra hge
  have hne : i ≠ j := by
    rintro rfl
    obtain rfl : a = b := Option.some.inj (ha.symm.trans hb)
    rw [Step.isFreePass, hpaid] at hfree
    cases hfree
  obtain ⟨hi, rfl⟩ := List.getElem?_eq_some_iff.mp ha
  obtain ⟨hj, rfl⟩ := List.getElem?_eq_some_iff.mp hb
  exact List.pairwise_iff_getElem.mp (pinnedWalk_ordered paid targets target) i j hi hj (by omega) hpaid hfree

/-! ### The walk so far -/

/-- Before the step `idx`: the passes lie in earlier steps, the earlier steps of the free pass were tried, and
no attempt of a step with a tier was blocked. -/
structure FreePassSoFar (env : ChatEnv) (finishBy : Time) (cap : ℕ) (steps : List Step) (idx : ℕ)
    (vs : List (WalkVisit π)) : Prop where
  earlier : ∀ v ∈ vs, v.idx < idx
  tried : ∀ j < idx, ∀ st, steps[j]? = some st → st.isFreePass → Tried env finishBy cap vs j
  unblocked : ∀ v ∈ vs, v.step.tier.isSome = true → ¬ v.blocked env finishBy cap

/-- Inside the step `idx`, after `i` of its passes, all of which started an attempt that failed. -/
structure InFreePass (env : ChatEnv) (finishBy : Time) (cap : ℕ) (steps : List Step) (idx : ℕ)
    (st : Step) (i : ℕ)
    (vs : List (WalkVisit π)) : Prop where
  split : ∃ ws us, vs = ws ++ us ∧ FreePassSoFar env finishBy cap steps idx ws ∧ us.length = i ∧
    ∀ v ∈ us, v.idx = idx ∧ v.failed env finishBy cap ∧
      (st.tier.isSome = true → ¬ v.blocked env finishBy cap) ∧
      v.step = st

/-- How a walk that ran out of budget ended: with a blocked attempt of a step with a tier, behind which every
step of the free pass was tried. -/
structure BudgetEnd (env : ChatEnv) (finishBy : Time) (cap : ℕ) (steps : List Step) (vs : List (WalkVisit π))
    (v : WalkVisit π) : Prop where
  mem : v ∈ vs
  step : steps[v.idx]? = some v.step
  blocked : v.blocked env finishBy cap
  tier : v.step.tier.isSome = true
  last : ∀ u ∈ vs, u.idx ≤ v.idx
  only : ∀ u ∈ vs, u.step.tier.isSome = true → u.blocked env finishBy cap → u.idx = v.idx
  tried : ∀ j ≤ v.idx, ∀ st, steps[j]? = some st → st.isFreePass → Tried env finishBy cap vs j

theorem Tried.append {vs us : List (WalkVisit π)} {j : ℕ} (h : Tried env finishBy cap vs j)
    (hus : ∀ v ∈ us, v.idx ≠ j) : Tried env finishBy cap (vs ++ us) j := by
  obtain ⟨v, hv, hidx⟩ := h.visited
  refine ⟨⟨v, List.mem_append_left _ hv, hidx⟩, fun u hu heq => ?_⟩
  rcases List.mem_append.mp hu with hu | hu
  · exact h.ended u hu heq
  · exact absurd heq (hus u hu)

/-- A step behind, its passes failed or found no key. -/
theorem FreePassSoFar.step {steps : List Step} {idx : ℕ} {ws us : List (WalkVisit π)} {st : Step}
    (h : FreePassSoFar env finishBy cap steps idx ws) (hst : steps[idx]? = some st) (hne : us ≠ [])
    (hus : ∀ v ∈ us, v.idx = idx ∧ v.step = st ∧ (st.isFreePass →
        v.failed env finishBy cap ∨ v.foundNoKey env finishBy cap) ∧
      (st.tier.isSome = true → ¬ v.blocked env finishBy cap)) :
    FreePassSoFar env finishBy cap steps (idx + 1) (ws ++ us) := by
  refine ⟨fun v hv => ?_, fun j hj st' hst' hfree => ?_, fun v hv ht => ?_⟩
  · rcases List.mem_append.mp hv with hv | hv
    · exact (h.earlier v hv).trans (Nat.lt_succ_self _)
    · rw [(hus v hv).1]
      exact Nat.lt_succ_self _
  · rcases Nat.lt_succ_iff_lt_or_eq.mp hj with hlt | rfl
    · refine (h.tried j hlt st' hst' hfree).append fun v hv => ?_
      rw [(hus v hv).1]
      omega
    · obtain rfl : st = st' := Option.some.inj (hst.symm.trans hst')
      obtain ⟨v, hv⟩ := List.exists_mem_of_ne_nil us hne
      refine ⟨⟨v, List.mem_append_right _ hv, (hus v hv).1⟩, fun u hu heq => ?_⟩
      rcases List.mem_append.mp hu with hu | hu
      · exact absurd heq (h.earlier u hu).ne
      · exact (hus u hu).2.2.1 hfree
  · rcases List.mem_append.mp hv with hv | hv
    · exact h.unblocked v hv ht
    · exact (hus v hv).2.2.2 ((hus v hv).2.1 ▸ ht)

/-- The passes of the free pass do what their steps ask: nothing is dropped, and the model is the target's. -/
def Pinned (steps : List Step) : Prop :=
  ∀ st ∈ steps, st.isFreePass → st.freeOnly = false ∧ st.model.getD "" ≠ ""

theorem failed_of_attempt {v : WalkVisit π} {a : PickedKey × String} {flow : Flow}
    (hatt : v.attempt env finishBy cap = some a) (hflow : v.reply.result.flow = flow) (hne : flow ≠ .success) :
    v.failed env finishBy cap :=
  ⟨by rw [hatt]; rfl, by rw [hflow]; exact hne⟩

theorem not_blocked_of_flow {v : WalkVisit π} {flow : Flow} (hflow : v.reply.result.flow = flow)
    (hne : flow ≠ .budgetExhausted) : ¬ v.blocked env finishBy cap :=
  fun h => hne (hflow.symm.trans h.2)

theorem not_blocked_of_none {v : WalkVisit π} (hatt : (v.attempt env finishBy cap).isSome = false) :
    ¬ v.blocked env finishBy cap := by
  rintro ⟨hsome, -⟩
  rw [hatt] at hsome
  cases hsome

namespace WalkVisit.Outcome

variable {v : WalkVisit π} {s' : WalkState}

/-- A pass after which the step goes on failed, and with a tier it was not blocked. -/
theorem of_continues (h : v.Outcome env finishBy cap s' .continues) :
    v.failed env finishBy cap ∧ (v.step.tier.isSome = true → ¬ v.blocked env finishBy cap) := by
  cases h with
  | degrades hatt hflow hends _ _ _ _ _ =>
    exact ⟨failed_of_attempt hatt hflow (by decide), fun ht => absurd (.inr ht) hends⟩
  | nextKey hatt hflow _ _ _ =>
    exact ⟨failed_of_attempt hatt hflow (by decide), fun _ => not_blocked_of_flow hflow (by decide)⟩

/-- A pass that leaves a step with a tier was not blocked. -/
theorem unblocked_of_breaks (h : v.Outcome env finishBy cap s' .breaks) (ht : v.step.tier.isSome = true) :
    ¬ v.blocked env finishBy cap := by
  cases h with
  | noKey _ hkey _ _ => exact not_blocked_of_none (WalkVisit.attempt_of_noKey hkey)
  | noModel _ hkey hnone _ _ => exact not_blocked_of_none (WalkVisit.attempt_of_noModel hkey hnone)
  | freeBlocked _ _ hends _ _ _ => exact absurd (.inr ht) hends
  | nextProvider _ hflow _ _ => exact not_blocked_of_flow hflow (by decide)

/-- A pass that leaves a step which drops no key and has its own model failed or found no key. -/
theorem ended_of_breaks (h : v.Outcome env finishBy cap s' .breaks) (hfo : v.step.freeOnly = false)
    (hmodel : v.step.model.getD "" ≠ "") : v.failed env finishBy cap ∨ v.foundNoKey env finishBy cap := by
  cases h with
  | noKey hpicks hkey _ _ =>
    have hsame : usableKey v.step v.reply = v.reply.key := by
      unfold usableKey
      rw [hfo]
      cases v.reply.key <;> rfl
    exact .inr ⟨hpicks, hsame ▸ hkey⟩
  | noModel _ _ hnone _ _ =>
    refine absurd hnone ?_
    unfold WalkVisit.chosen useModel
    rw [if_pos hmodel]
    exact hmodel
  | freeBlocked hatt hflow _ _ _ _ | nextProvider hatt hflow _ _ =>
    exact .inl (failed_of_attempt hatt hflow (by decide))

end WalkVisit.Outcome

namespace InFreePass

variable {steps : List Step} {idx : ℕ} {st : Step} {i : ℕ} {vs : List (WalkVisit π)} {v : WalkVisit π}

theorem unblocked (h : InFreePass env finishBy cap steps idx st i vs) :
    ∀ v ∈ vs, v.step.tier.isSome = true → ¬ v.blocked env finishBy cap := by
  obtain ⟨ws, us, rfl, hws, -, hus⟩ := h.split
  intro v hv ht
  rcases List.mem_append.mp hv with hv | hv
  · exact hws.unblocked v hv ht
  · obtain ⟨-, -, hblock, hstep⟩ := hus v hv
    exact hblock (hstep ▸ ht)

/-- A last pass that was not blocked. -/
theorem unblocked_concat (h : InFreePass env finishBy cap steps idx st i vs) (hv : ¬ v.blocked env finishBy cap) :
    ∀ u ∈ vs ++ [v], u.step.tier.isSome = true → ¬ u.blocked env finishBy cap := by
  intro u hu ht
  rcases List.mem_append.mp hu with hu | hu
  · exact h.unblocked u hu ht
  · rw [List.mem_singleton.mp hu]
    exact hv

/-- **A pass that is blocked** in a step with a tier ends the walk there. -/
theorem budgetEnd (h : InFreePass env finishBy cap steps idx st i vs) (hst : steps[idx]? = some st)
    (hidx : v.idx = idx) (hstep : v.step = st) (hblocked : v.blocked env finishBy cap)
    (ht : st.tier.isSome = true) : BudgetEnd env finishBy cap steps (vs ++ [v]) v := by
  have hunblocked := h.unblocked
  obtain ⟨ws, us, rfl, hws, -, hus⟩ := h.split
  have hfail : v.failed env finishBy cap := ⟨hblocked.1, by rw [hblocked.2]; decide⟩
  -- the passes of the step, the blocked one included
  have hhere : ∀ u ∈ us ++ [v], u.idx = idx ∧ u.failed env finishBy cap := by
    intro u hu
    rcases List.mem_append.mp hu with hu | hu
    · exact ⟨(hus u hu).1, (hus u hu).2.1⟩
    · rw [List.mem_singleton.mp hu]
      exact ⟨hidx, hfail⟩
  refine ⟨List.mem_append_right _ (List.mem_singleton_self _), ?_, hblocked, hstep ▸ ht, fun u hu => ?_,
    fun u hu ht' hb => ?_, fun j hj st' hst' hfree => ?_⟩
  · rw [hidx, hstep]
    exact hst
  · rw [List.append_assoc] at hu
    rcases List.mem_append.mp hu with hu | hu
    · exact hidx ▸ (hws.earlier u hu).le
    · exact ((hhere u hu).1.trans hidx.symm).le
  · rcases List.mem_append.mp hu with hu | hu
    · exact absurd hb (hunblocked u hu ht')
    · rw [List.mem_singleton.mp hu]
  · rw [List.append_assoc]
    rw [hidx] at hj
    rcases Nat.lt_or_eq_of_le hj with hlt | rfl
    · refine (hws.tried j hlt st' hst' hfree).append fun u hu => ?_
      rw [(hhere u hu).1]
      exact hlt.ne'
    · refine ⟨⟨v, by simp, hidx⟩, fun u hu heq => .inl ?_⟩
      rcases List.mem_append.mp hu with hu | hu
      · exact absurd heq (hws.earlier u hu).ne
      · exact (hhere u hu).2

end InFreePass

/-- **The rule of the free pass.** -/
theorem freePass_rule (finishBy : Time) (cap : ℕ) (replies : ℕ → Reply π) {steps : List Step}
    (hpaid : env.paidOnly = false) (hpinned : Pinned steps) :
    WalkRule env finishBy cap replies steps
      (fun idx vs _ => FreePassSoFar env finishBy cap steps idx vs)
      (fun idx st i vs _ => InFreePass env finishBy cap steps idx st i vs)
      (fun vs _ e => ((∃ v, BudgetEnd env finishBy cap steps vs v) ∧ ∃ res, e = .budget res) ∨
        ((∀ v ∈ vs, v.step.tier.isSome = true → ¬ v.blocked env finishBy cap) ∧ ∀ res, e ≠ .budget res)) where
  enter := fun idx st vs s hst h => ⟨vs, [], (List.append_nil vs).symm, h, rfl, by simp⟩
  next := by
    rintro idx st i vs s s' hst ⟨ws, us, rfl, hws, hlen, hus⟩ hout
    refine ⟨ws, us ++ [visitOf replies idx st i s], List.append_assoc .., hws, by simp [hlen], fun v hv => ?_⟩
    rcases List.mem_append.mp hv with hv | hv
    · exact hus v hv
    · rw [List.mem_singleton.mp hv]
      exact ⟨rfl, hout.of_continues.1, hout.of_continues.2, rfl⟩
  leave := by
    rintro idx st i vs s s' hst ⟨ws, us, rfl, hws, hlen, hus⟩ hout
    rw [List.append_assoc]
    refine hws.step hst (by simp) fun v hv => ?_
    rcases List.mem_append.mp hv with hv | hv
    · obtain ⟨hidx, hfail, hblock, hstep⟩ := hus v hv
      exact ⟨hidx, hstep, fun _ => .inl hfail, hblock⟩
    · rw [List.mem_singleton.mp hv]
      refine ⟨rfl, rfl, fun hfree => ?_, hout.unblocked_of_breaks⟩
      obtain ⟨hfo, hmodel⟩ := hpinned st (List.mem_of_getElem? hst) hfree
      exact hout.ended_of_breaks hfo hmodel
  exhaust := by
    rintro idx st vs s hst ⟨ws, us, rfl, hws, hlen, hus⟩
    have hallow := one_le_allowance st
    refine hws.step hst (fun hnil => ?_) fun v hv => ?_
    · rw [hnil] at hlen
      simp only [List.length_nil] at hlen
      omega
    · obtain ⟨hidx, hfail, hblock, hstep⟩ := hus v hv
      exact ⟨hidx, hstep, fun _ => .inl hfail, hblock⟩
  ends := by
    intro idx st i vs s s' e hst h hout
    cases hout with
    | stopped hpicks _ he =>
      refine .inr ⟨h.unblocked_concat (not_blocked_of_none (WalkVisit.attempt_of_not_picks hpicks)), ?_⟩
      intro res heq
      rw [heq] at he
      rcases he with he | he | he <;> cases he
    | success _ hflow _ =>
      refine .inr ⟨h.unblocked_concat (not_blocked_of_flow hflow (by decide)), fun res heq => ?_⟩
      cases heq
    | budget hatt hflow hends _ =>
      have htier : st.tier.isSome = true := by
        rcases hends with hp | ht
        · rw [hpaid] at hp
          cases hp
        · exact ht
      have hblocked : (visitOf replies idx st i s).blocked env finishBy cap := ⟨by rw [hatt]; rfl, hflow⟩
      exact .inl ⟨⟨_, h.budgetEnd hst rfl rfl hblocked htier⟩, _, rfl⟩
  walked := fun vs s h => .inr ⟨h.unblocked, by simp⟩

/-! ### Out of budget -/

theorem pinned_pinnedWalk (paid : List String) (targets : List PinTarget) (target : Option AffinityTarget) :
    Pinned (pinnedWalk paid targets target) := by
  intro st hst hfree
  obtain ⟨hfo, -, -, hmodel⟩ := mem_pinnedSteps (mem_pinnedWalk hst (by rw [hfree]; rfl))
  exact ⟨hfo, hmodel⟩

/-- Every free-pass step of the walk was tried. -/
def FreePassTried (env : ChatEnv) (steps : List Step) (replies : ℕ → Reply π) (start : Time) : Prop :=
  ∀ j st, steps[j]? = some st → st.isFreePass →
    Tried (π := π) env (start + env.wallBudget) (attemptBudget steps) (walkVisits env replies steps start) j

/-- No project or global cap blocked an attempt of a free-pass step but the last of them. -/
def FreePassUnblocked (env : ChatEnv) (steps : List Step) (replies : ℕ → Reply π) (start : Time) : Prop :=
  ∀ v ∈ walkVisits env replies steps start, v.blocked env (start + env.wallBudget) (attemptBudget steps) →
    v.step.isFreePass → ∀ j st, steps[j]? = some st → st.isFreePass → j ≤ v.idx

/-- When a pinned request out of budget had nothing free left.  For every list of targets, with or without
the affinity leg, and every sequence of replies: a budget-exhausted outcome comes only after every free-pass
step was tried, if and only if no cap blocked an attempt of a free-pass step before the last one. -/
theorem pinned_budget_iff (env : ChatEnv) (hpaid : env.paidOnly = false) (paid : List String)
    (targets : List PinTarget) (target : Option AffinityTarget) (replies : ℕ → Reply π) (start : Time) :
    ((∃ res, runChat env paid (pinnedSteps paid targets false) target replies start = .budgetExhausted res) →
        FreePassTried env (pinnedWalk paid targets target) replies start) ↔
      FreePassUnblocked env (pinnedWalk paid targets target) replies start := by
  set steps := pinnedWalk paid targets target with hsteps
  have hwalk : chatWalk env (withAffinity paid (pinnedSteps paid targets false) target env.paidOnly) replies start =
      chatWalk env steps replies start := by rw [hpaid, hsteps, pinnedWalk]
  have hrule := freePass_rule (start + env.wallBudget) (attemptBudget steps) replies hpaid
    (pinned_pinnedWalk paid targets target)
  have hend := hrule.walk ⟨by simp, by simp, by simp⟩
  have hresult : (∃ res, runChat env paid (pinnedSteps paid targets false) target replies start =
      .budgetExhausted res) ↔ ∃ res, (chatWalk env steps replies start).2 = .budget res := by
    unfold runChat
    rw [hwalk]
    rcases chatWalk env steps replies start with ⟨s, e⟩
    cases e with
    | walked =>
      simp only [WalkEnd.result]
      split_ifs <;> simp
    | _ => simp [WalkEnd.result]
  rw [hresult]
  rcases hend with ⟨⟨v, hv⟩, hbudget⟩ | ⟨hunblocked, hno⟩
  · -- the walk ended at `v`
    constructor
    · intro htried u hu hblocked hfree j st hst hstfree
      obtain ⟨x, hx, rfl⟩ := (htried hbudget j st hst hstfree).visited
      rw [hv.only u hu (by rw [hfree]; rfl) hblocked]
      exact hv.last x hx
    · intro hun _ j st hst hfree
      refine hv.tried j ?_ st hst hfree
      rcases (mem_pinnedSteps (mem_pinnedWalk (List.mem_of_getElem? hv.step) hv.tier)).2.2.1 with ht | ht
      · exact hun v hv.mem hv.blocked ht j st hst hfree
      · exact (lt_of_free_of_paid hv.step ht hst hfree).le
  · refine iff_of_true (fun hbudget => ?_) fun v hv hblocked hfree => ?_
    · obtain ⟨res, hres⟩ := hbudget
      exact absurd hres (hno res)
    · exact absurd hblocked (hunblocked v hv (by rw [hfree]; rfl))

/-! ### Two walks -/

def codeEnv : ChatEnv :=
  { capability := "chat:code"
    modelFor := fun p => some (p ++ "/m")
    rotationFor := fun _ => []
    transportTimeout := fun _ => none }

/-- The free keys fail, and the first paid one is blocked by the project's cap. -/
def blockedAt (n k : ℕ) : Reply Unit :=
  { key := some ⟨k + 1, if k < 2 then .free else .paid⟩
    result := { flow := if k = n then .budgetExhausted else .nextProvider } }

end Broker.Services
