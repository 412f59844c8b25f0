import Broker.Services.ChatWalk

/-!
# Broker.Services.WalkVisits — the passes of a walk, and a rule for its loops

A `WalkVisit` is one pass of the inner loop: its step, its turn in the step, the variables it found and
what the others answered.  `walkVisits` lists the passes of a walk in order, beside the walk and by the
same recursion. `WalkVisit.outcome` says once what a pass can do; `WalkRule.walk` carries an invariant of
the variables and the passes so far through both loops, with one exit for the end of the walk.
-/

namespace Broker.Services

open Broker.Db Broker.Routing

/-- A pass of the inner loop. -/
structure WalkVisit (π : Type) where
  idx : ℕ
  step : Step
  turn : ℕ
  before : WalkState
  reply : Reply π

section Visits

variable {π : Type} (env : ChatEnv) (finishBy : Time) (cap : ℕ)

namespace WalkVisit

variable (v : WalkVisit π)

def polled : WalkState := v.before.polled v.reply.stopTook

/-- The pass gets as far as its pick. -/
def picks : Bool :=
  !v.reply.stop && decide (v.polled.attempts < cap)
    && decide (v.polled.clock + env.callTimeout v.step.provider ≤ finishBy)

/-- The key `pick_and_reserve` returned. -/
def picked : Option PickedKey := if v.picks env finishBy cap then v.reply.key else none

/-- The variables and the model of the attempt, with a key. -/
def chosen (key : PickedKey) : WalkState × String :=
  useModel env v.step v.turn key v.reply (v.polled.wait v.reply.pickTook).counted

/-- The key and the model of the attempt the pass starts. -/
def attempt : Option (PickedKey × String) :=
  if v.picks env finishBy cap then
    (usableKey v.step v.reply).bind fun key =>
      if (v.chosen env key).2 = "" then none else some (key, (v.chosen env key).2)
  else none

def run : WalkState × PassEnd π := pass env finishBy cap v.idx v.step v.turn v.reply v.before

end WalkVisit

variable (replies : ℕ → Reply π)

/-- The visit of a pass from `s`. -/
def visitOf (idx : ℕ) (st : Step) (i : ℕ) (s : WalkState) : WalkVisit π := ⟨idx, st, i, s, replies s.passes⟩

/-- The passes of the inner loop with `n` left. -/
def keyVisits (idx : ℕ) (st : Step) : ℕ → ℕ → WalkState → List (WalkVisit π)
  | 0, _, _ => []
  | n + 1, i, s =>
    visitOf replies idx st i s ::
      match (visitOf replies idx st i s).run env finishBy cap with
      | (s', .continues) => keyVisits idx st n (i + 1) s'
      | _ => []

/-- The passes of the outer loop. -/
def stepVisits : ℕ → List Step → WalkState → List (WalkVisit π)
  | _, [], _ => []
  | idx, st :: rest, s =>
    keyVisits env finishBy cap replies idx st st.allowance 0 (enterStep env idx st s) ++
      match keyLoop env finishBy cap replies idx st st.allowance 0 (enterStep env idx st s) with
      | (s', none) => stepVisits (idx + 1) rest s'
      | _ => []

/-- The passes of the walk of `run_chat`. -/
def walkVisits (steps : List Step) (start : Time) : List (WalkVisit π) :=
  stepVisits env (start + env.wallBudget) (attemptBudget steps) replies 0 steps { clock := start }

end Visits

variable {π : Type} {env : ChatEnv} {finishBy : Time} {cap : ℕ} {replies : ℕ → Reply π}

/-! ### What a pass can do -/

/-- The failure counters are as they were. -/
def KeepsCounts (s s' : WalkState) : Prop :=
  s'.contentFailures = s.contentFailures ∧ s'.otherFailures = s.otherFailures

/-- The tier asked for is as it was. -/
def KeepsTier (s s' : WalkState) : Prop := s'.requireTier = s.requireTier ∧ s'.degradedFree = s.degradedFree

/-- A failed attempt is counted. -/
def CountsFailure (res : AttemptResult π) (s s' : WalkState) : Prop :=
  s'.contentFailures = s.contentFailures + (isContentFailure res).toNat ∧
    s'.otherFailures = (s.otherFailures || !isContentFailure res)

/-- **Everything a pass can do**: end the walk before its pick, leave the step without an attempt, or start
one, with the six ways its result is taken. -/
inductive WalkVisit.Outcome (env : ChatEnv) (finishBy : Time) (cap : ℕ) (v : WalkVisit π) :
    WalkState → PassEnd π → Prop
  | stopped {s' : WalkState} {e : WalkEnd π} : v.picks env finishBy cap = false → KeepsCounts v.before s' →
      e = .cancelled ∨ e = .capReached ∨ e = .deadline → v.Outcome env finishBy cap s' (.ends e)
  | noKey {s' : WalkState} : v.picks env finishBy cap = true → usableKey v.step v.reply = none →
      KeepsCounts v.before s' → KeepsTier v.before s' → v.Outcome env finishBy cap s' .breaks
  | noModel {s' : WalkState} {key : PickedKey} : v.picks env finishBy cap = true →
      usableKey v.step v.reply = some key →
      (v.chosen env key).2 = "" → KeepsCounts v.before s' → KeepsTier v.before s' →
      v.Outcome env finishBy cap s' .breaks
  | success {s' : WalkState} {key : PickedKey} {model : String} :
      v.attempt env finishBy cap = some (key, model) → v.reply.result.flow = .success →
        KeepsCounts v.before s' →
      v.Outcome env finishBy cap s' (.ends (.success v.step.provider v.reply.result))
  | budget {s' : WalkState} {key : PickedKey} {model : String} :
      v.attempt env finishBy cap = some (key, model) → v.reply.result.flow = .budgetExhausted →
      env.paidOnly = true ∨ v.step.tier.isSome = true → CountsFailure v.reply.result v.before s' →
      v.Outcome env finishBy cap s' (.ends (.budget v.reply.result))
  | degrades {s' : WalkState} {key : PickedKey} {model : String} :
      v.attempt env finishBy cap = some (key, model) → v.reply.result.flow = .budgetExhausted →
      ¬ (env.paidOnly = true ∨ v.step.tier.isSome = true) → v.before.requireTier ≠ some .free →
      CountsFailure v.reply.result v.before s' → s'.requireTier = some .free → s'.degradedFree = true →
      s'.rotationBase = (v.chosen env key).1.rotationBase → v.Outcome env finishBy cap s' .continues
  | freeBlocked {s' : WalkState} {key : PickedKey} {model : String} :
      v.attempt env finishBy cap = some (key, model) → v.reply.result.flow = .budgetExhausted →
      ¬ (env.paidOnly = true ∨ v.step.tier.isSome = true) → v.before.requireTier = some .free →
      CountsFailure v.reply.result v.before s' → KeepsTier v.before s' → v.Outcome env finishBy cap s' .breaks
  | nextProvider {s' : WalkState} {key : PickedKey} {model : String} :
      v.attempt env finishBy cap = some (key, model) → v.reply.result.flow = .nextProvider →
      CountsFailure v.reply.result v.before s' → KeepsTier v.before s' → v.Outcome env finishBy cap s' .breaks
  | nextKey {s' : WalkState} {key : PickedKey} {model : String} :
      v.attempt env finishBy cap = some (key, model) → v.reply.result.flow = .nextKey →
      CountsFailure v.reply.result v.before s' → KeepsTier v.before s' →
      s'.rotationBase = (v.chosen env key).1.rotationBase → v.Outcome env finishBy cap s' .continues

/-- An attempt has a usable key and the model chosen for it. -/
theorem WalkVisit.of_attempt {v : WalkVisit π} {key : PickedKey} {model : String}
    (hatt : v.attempt env finishBy cap = some (key, model)) :
    usableKey v.step v.reply = some key ∧ (v.chosen env key).2 = model := by
  unfold WalkVisit.attempt at hatt
  split_ifs at hatt
  obtain ⟨key', hkey, hsome⟩ := Option.bind_eq_some_iff.mp hatt
  split_ifs at hsome
  obtain ⟨rfl, hmodel⟩ := Prod.mk.inj (Option.some.inj hsome)
  exact ⟨hkey, hmodel⟩

theorem useModel_keeps (st : Step) (i : ℕ) (key : PickedKey) (r : Reply π) (s : WalkState) :
    KeepsCounts s (useModel env st i key r s).1 ∧ KeepsTier s (useModel env st i key r s).1 := by
  unfold useModel
  split_ifs
  · exact ⟨⟨rfl, rfl⟩, rfl, rfl⟩
  · cases env.modelFor st.provider <;> exact ⟨⟨rfl, rfl⟩, rfl, rfl⟩

/-- What `countFailure` leaves of the variables after an attempt that failed. -/
theorem countFailure_of_failed (res : AttemptResult π) (h : res.flow ≠ .success) {s₀ s : WalkState}
    (hc : KeepsCounts s₀ s) (ht : KeepsTier s₀ s) :
    CountsFailure res s₀ (countFailure res s) ∧ KeepsTier s₀ (countFailure res s) ∧
      (countFailure res s).rotationBase = s.rotationBase := by
  unfold countFailure
  rw [if_neg h]
  cases hcf : isContentFailure res with
  | true =>
    rw [if_pos rfl]
    exact ⟨⟨by simp [hc.1, hcf], by simp [hc.2, hcf]⟩, ht, rfl⟩
  | false =>
    rw [if_neg (by simp)]
    exact ⟨⟨by simp [hc.1, hcf], by simp [hcf]⟩, ht, rfl⟩

/-- **One pass.** -/
theorem WalkVisit.outcome (v : WalkVisit π) :
    v.Outcome env finishBy cap (v.run env finishBy cap).1 (v.run env finishBy cap).2 := by
  have hpolled : KeepsCounts v.before v.polled ∧ KeepsTier v.before v.polled := ⟨⟨rfl, rfl⟩, rfl, rfl⟩
  have hsame : v.before.polled v.reply.stopTook = v.polled := rfl
  unfold WalkVisit.run pass
  rw [hsame]
  by_cases hstop : v.reply.stop = true
  · rw [if_pos hstop]
    exact .stopped (by simp [WalkVisit.picks, hstop]) hpolled.1 (.inl rfl)
  rw [if_neg hstop]
  by_cases hcap : cap ≤ v.polled.attempts
  · rw [if_pos hcap]
    exact .stopped (by simp [WalkVisit.picks, hcap]) hpolled.1 (.inr (.inl rfl))
  rw [if_neg hcap]
  by_cases hdead : finishBy < v.polled.clock + env.callTimeout v.step.provider
  · rw [if_pos hdead]
    exact .stopped (by simp [WalkVisit.picks, hdead]) hpolled.1 (.inr (.inr rfl))
  rw [if_neg hdead]
  have hpicks : v.picks env finishBy cap = true := by
    simp only [WalkVisit.picks, Bool.and_eq_true, Bool.not_eq_true', decide_eq_true_eq]
    exact ⟨⟨Bool.eq_false_iff.mpr hstop, not_le.mp hcap⟩, not_lt.mp hdead⟩
  cases hkey : usableKey v.step v.reply with
  | none => exact .noKey hpicks hkey hpolled.1 hpolled.2
  | some key =>
    show v.Outcome env finishBy cap (withModel env v.idx v.step _ v.reply (v.chosen env key)).1
      (withModel env v.idx v.step _ v.reply (v.chosen env key)).2
    have hchosen : KeepsCounts v.before (v.chosen env key).1 ∧ KeepsTier v.before (v.chosen env key).1 :=
      useModel_keeps v.step v.turn key v.reply (v.polled.wait v.reply.pickTook).counted
    unfold withModel
    by_cases hmodel : (v.chosen env key).2 = ""
    · rw [if_pos hmodel]
      exact .noModel hpicks hkey hmodel hchosen.1 hchosen.2
    rw [if_neg hmodel]
    have hatt : v.attempt env finishBy cap = some (key, (v.chosen env key).2) := by
      rw [WalkVisit.attempt, if_pos hpicks, hkey, Option.bind_some, if_neg hmodel]
    set started := startAttempt env v.idx v.step v.polled.clock v.reply
      (v.chosen env key).1 with hstarted
    have hkept : KeepsCounts v.before started ∧ KeepsTier v.before started := hchosen
    have hbase : started.rotationBase = (v.chosen env key).1.rotationBase := rfl
    unfold afterAttempt
    cases hflow : v.reply.result.flow with
    | success =>
      have huncounted : countFailure v.reply.result started = started := if_pos hflow
      refine .success hatt hflow ?_
      rw [huncounted]
      exact hkept.1
    | budgetExhausted =>
      obtain ⟨hcount, htier, hrot⟩ := countFailure_of_failed v.reply.result (by rw [hflow]; decide)
        hkept.1 hkept.2
      dsimp only
      by_cases hends : env.paidOnly = true ∨ v.step.tier.isSome = true
      · rw [if_pos hends]
        exact .budget hatt hflow hends hcount
      rw [if_neg hends]
      by_cases hfree : (countFailure v.reply.result started).requireTier ≠ some .free
      · rw [if_pos hfree]
        exact .degrades hatt hflow hends (htier.1 ▸ hfree) hcount rfl rfl (hrot.trans hbase)
      · rw [if_neg hfree]
        exact .freeBlocked hatt hflow hends (htier.1 ▸ not_not.mp hfree) hcount htier
    | nextProvider =>
      obtain ⟨hcount, htier, -⟩ := countFailure_of_failed v.reply.result (by rw [hflow]; decide)
        hkept.1 hkept.2
      exact .nextProvider hatt hflow hcount htier
    | nextKey =>
      obtain ⟨hcount, htier, hrot⟩ := countFailure_of_failed v.reply.result (by rw [hflow]; decide)
        hkept.1 hkept.2
      exact .nextKey hatt hflow hcount htier (hrot.trans hbase)

/-! ### The rule of the loops -/

/-- An invariant of a walk over `steps`: `J` between the steps, `I` between the passes of a step, `E` at the
end; each from the passes so far and the variables. -/
structure WalkRule (env : ChatEnv) (finishBy : Time) (cap : ℕ) (replies : ℕ → Reply π) (steps : List Step)
    (J : ℕ → List (WalkVisit π) → WalkState → Prop) (I : ℕ → Step → ℕ → List (WalkVisit π) → WalkState → Prop)
    (E : List (WalkVisit π) → WalkState → WalkEnd π → Prop) : Prop where
  enter : ∀ idx st vs s, steps[idx]? = some st → J idx vs s → I idx st 0 vs (enterStep env idx st s)
  next : ∀ idx st i vs s s', steps[idx]? = some st → I idx st i vs s →
    (visitOf replies idx st i s).Outcome env finishBy cap s' .continues →
    I idx st (i + 1) (vs ++ [visitOf replies idx st i s]) s'
  leave : ∀ idx st i vs s s', steps[idx]? = some st → I idx st i vs s →
    (visitOf replies idx st i s).Outcome env finishBy cap s' .breaks →
    J (idx + 1) (vs ++ [visitOf replies idx st i s]) s'
  exhaust : ∀ idx st vs s, steps[idx]? = some st → I idx st st.allowance vs s → J (idx + 1) vs s
  ends : ∀ idx st i vs s s' e, steps[idx]? = some st → I idx st i vs s →
    (visitOf replies idx st i s).Outcome env finishBy cap s' (.ends e) →
    E (vs ++ [visitOf replies idx st i s]) s' e
  walked : ∀ vs s, J steps.length vs s → E vs s .walked

namespace WalkRule

variable {steps : List Step} {J : ℕ → List (WalkVisit π) → WalkState → Prop}
  {I : ℕ → Step → ℕ → List (WalkVisit π) → WalkState → Prop} {E : List (WalkVisit π) → WalkState → WalkEnd π → Prop}

/-- **The inner loop**, by induction on the passes it has left. -/
theorem keyLoop (h : WalkRule env finishBy cap replies steps J I E) {idx : ℕ} {st : Step}
    (hst : steps[idx]? = some st) (n : ℕ) {i : ℕ} (hn : i + n = st.allowance) {vs : List (WalkVisit π)}
    {s : WalkState} (hI : I idx st i vs s) :
    match Services.keyLoop env finishBy cap replies idx st n i s with
    | (s', none) => J (idx + 1) (vs ++ keyVisits env finishBy cap replies idx st n i s) s'
    | (s', some e) => E (vs ++ keyVisits env finishBy cap replies idx st n i s) s' e := by
  induction n generalizing i vs s with
  | zero =>
    obtain rfl : i = st.allowance := by omega
    simpa [Services.keyLoop, keyVisits] using h.exhaust idx st vs s hst hI
  | succ n ih =>
    have hout : (visitOf replies idx st i s).Outcome env finishBy cap
        ((visitOf replies idx st i s).run env finishBy cap).1
        ((visitOf replies idx st i s).run env finishBy cap).2 :=
      (visitOf replies idx st i s).outcome
    unfold Services.keyLoop keyVisits
    rcases hrun : pass env finishBy cap idx st i (replies s.passes) s with ⟨s', e⟩
    have hvisit : (visitOf replies idx st i s).run env finishBy cap = (s', e) := hrun
    rw [hvisit] at hout ⊢
    cases e with
    | ends e => exact h.ends idx st i vs s s' e hst hI hout
    | breaks => exact h.leave idx st i vs s s' hst hI hout
    | continues =>
      have hrest := ih (i := i + 1) (by omega) (h.next idx st i vs s s' hst hI hout)
      rw [List.append_assoc] at hrest
      exact hrest

/-- **The outer loop**, by induction on the steps. -/
theorem stepLoop (h : WalkRule env finishBy cap replies steps J I E) (rest : List Step) {idx : ℕ}
    (hrest : steps.drop idx = rest) (hle : idx ≤ steps.length) {vs : List (WalkVisit π)} {s : WalkState}
    (hJ : J idx vs s) :
    E (vs ++ stepVisits env finishBy cap replies idx rest s)
      (Services.stepLoop env finishBy cap replies idx rest s).1
      (Services.stepLoop env finishBy cap replies idx rest s).2 := by
  induction rest generalizing idx vs s with
  | nil =>
    obtain rfl : idx = steps.length := le_antisymm hle (List.drop_eq_nil_iff.mp hrest)
    simpa [Services.stepLoop, stepVisits] using h.walked vs s hJ
  | cons st rest ih =>
    have hlt : idx < steps.length := by
      by_contra hge
      rw [List.drop_eq_nil_of_le (not_lt.mp hge)] at hrest
      cases hrest
    have hst : steps[idx]? = some st := by
      rw [← List.head?_drop, hrest]
      rfl
    have hkey := h.keyLoop hst st.allowance (Nat.zero_add _) (h.enter idx st vs s hst hJ)
    unfold Services.stepLoop stepVisits
    rcases hloop : Services.keyLoop env finishBy cap replies idx st st.allowance 0 (enterStep env idx st s)
      with ⟨s', o⟩
    rw [hloop] at hkey
    cases o with
    | some e => simpa using hkey
    | none =>
      have htail : steps.drop (idx + 1) = rest := by
        rw [← List.tail_drop, hrest]
        rfl
      have := ih htail hlt hkey
      rw [List.append_assoc] at this
      exact this

/-- **The walk.** -/
theorem walk {start : Time}
    (h : WalkRule env (start + env.wallBudget) (attemptBudget steps) replies steps J I E)
    (h0 : J 0 [] { clock := start }) :
    E (walkVisits env replies steps start) (chatWalk env steps replies start).1
      (chatWalk env steps replies start).2 := by
  have := h.stepLoop steps rfl (Nat.zero_le _) h0
  rwa [List.nil_append] at this

end WalkRule

/-! ### Each pass after the passes before it -/

/-- Each pass meets `P` with the passes before it. -/
def EachVisit (P : List (WalkVisit π) → WalkVisit π → Prop) (vs : List (WalkVisit π)) : Prop :=
  ∀ pre v post, vs = pre ++ v :: post → P pre v

theorem EachVisit.nil (P : List (WalkVisit π) → WalkVisit π → Prop) : EachVisit P [] := by
  intro pre v post h
  simp at h

theorem EachVisit.concat {P : List (WalkVisit π) → WalkVisit π → Prop} {vs : List (WalkVisit π)}
    {v : WalkVisit π}
    (h : EachVisit P vs) (hv : P vs v) : EachVisit P (vs ++ [v]) := by
  intro pre u post heq
  cases post using List.reverseRecOn with
  | nil =>
    obtain ⟨rfl, hu⟩ := List.append_inj' heq rfl
    obtain rfl := List.singleton_inj.mp hu
    exact hv
  | append_singleton post w =>
    have hassoc : pre ++ u :: (post ++ [w]) = (pre ++ u :: post) ++ [w] := by simp
    rw [hassoc] at heq
    exact h pre u post (List.append_inj' heq rfl).1

/-- What every pass of a walk over `steps` finds. -/
structure VisitSpec (steps : List Step) (pre : List (WalkVisit π)) (v : WalkVisit π) : Prop where
  step : steps[v.idx]? = some v.step
  earlier : ∀ j < v.idx, ∃ u ∈ pre, u.idx = j
  tier : v.step.tier.isSome = true → v.before.requireTier = v.step.tier

theorem one_le_allowance (st : Step) : 1 ≤ st.allowance := by
  unfold Step.allowance
  split_ifs
  · exact le_rfl
  · exact one_le_maxKeys _

/-- The passes go through the steps in order, each step visited, and a step with a tier asks for it. -/
theorem walkVisits_spec (env : ChatEnv) (steps : List Step) (replies : ℕ → Reply π) (start : Time) :
    EachVisit (VisitSpec steps) (walkVisits env replies steps start) := by
  have hvisit : ∀ idx st i vs s, steps[idx]? = some st → (∀ j < idx, ∃ u ∈ vs, u.idx = j) →
      (st.tier.isSome = true → s.requireTier = st.tier) → VisitSpec steps vs (visitOf replies idx st i s) :=
    fun _ _ _ _ _ hst hseen htier => ⟨hst, hseen, htier⟩
  have hmore : ∀ {idx : ℕ} {vs : List (WalkVisit π)} (v : WalkVisit π), (∀ j < idx, ∃ u ∈ vs, u.idx = j) →
      ∀ j < idx, ∃ u ∈ vs ++ [v], u.idx = j := by
    intro idx vs v h j hj
    obtain ⟨u, hu, heq⟩ := h j hj
    exact ⟨u, List.mem_append_left _ hu, heq⟩
  have hrule : WalkRule env (start + env.wallBudget) (attemptBudget steps) replies steps
      (fun idx vs _ => EachVisit (VisitSpec steps) vs ∧ ∀ j < idx, ∃ u ∈ vs, u.idx = j)
      (fun idx st i vs s => EachVisit (VisitSpec steps) vs ∧ (∀ j < idx, ∃ u ∈ vs, u.idx = j) ∧
        (0 < i → ∃ u ∈ vs, u.idx = idx) ∧ (st.tier.isSome = true → s.requireTier = st.tier))
      (fun vs _ _ => EachVisit (VisitSpec steps) vs) := {
    enter := by
      rintro idx st vs s hst ⟨hall, hseen⟩
      refine ⟨hall, hseen, fun h => absurd h (lt_irrefl 0), fun ht => ?_⟩
      obtain ⟨t, hsome⟩ := Option.isSome_iff_exists.mp ht
      simp [enterStep, hsome]
    next := by
      rintro idx st i vs s s' hst ⟨hall, hseen, -, htier⟩ hout
      refine ⟨hall.concat (hvisit idx st i vs s hst hseen htier), hmore _ hseen, fun _ => ?_, fun ht => ?_⟩
      · exact ⟨_, List.mem_append_right _ (List.mem_singleton_self _), rfl⟩
      · cases hout with
        | degrades _ _ hends _ _ _ _ _ => exact absurd (.inr ht) hends
        | nextKey _ _ _ hkept _ => exact hkept.1.trans (htier ht)
    leave := by
      rintro idx st i vs s s' hst ⟨hall, hseen, -, htier⟩ -
      refine ⟨hall.concat (hvisit idx st i vs s hst hseen htier), fun j hj => ?_⟩
      rcases Nat.lt_succ_iff_lt_or_eq.mp hj with hlt | rfl
      · exact hmore _ hseen j hlt
      · exact ⟨_, List.mem_append_right _ (List.mem_singleton_self _), rfl⟩
    exhaust := by
      rintro idx st vs s hst ⟨hall, hseen, hhere, -⟩
      refine ⟨hall, fun j hj => ?_⟩
      rcases Nat.lt_succ_iff_lt_or_eq.mp hj with hlt | rfl
      · exact hseen j hlt
      · exact hhere (one_le_allowance st)
    ends := by
      rintro idx st i vs s s' e hst ⟨hall, hseen, -, htier⟩ -
      exact hall.concat (hvisit idx st i vs s hst hseen htier)
    walked := fun _ _ h => h.1 }
  exact hrule.walk ⟨EachVisit.nil _, by simp⟩

theorem step_of_visit {steps : List Step} {start : Time} {v : WalkVisit π}
    (h : v ∈ walkVisits env replies steps start) :
    steps[v.idx]? = some v.step := by
  obtain ⟨pre, post, heq⟩ := List.append_of_mem h
  exact (walkVisits_spec env steps replies start pre v post heq).step

end Broker.Services
