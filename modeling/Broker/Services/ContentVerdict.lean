import Broker.Services.WalkVisits

/-!
# Broker.Services.ContentVerdict — when a walk returns `CONTENT_FAILED`

The verdict is read from two counters where the loops run out of steps; the attempt cap and the deadline
return `None` before it.
-/

namespace Broker.Services

open Broker.Db Broker.Routing

variable {π : Type}

/-- The passes that started an attempt. -/
def attempted (env : ChatEnv) (finishBy : Time) (cap : ℕ) (vs : List (WalkVisit π)) : List (WalkVisit π) :=
  vs.filter fun v => (v.attempt env finishBy cap).isSome

/-- The attempts of the walk of `run_chat`. -/
def walkAttempts (env : ChatEnv) (steps : List Step) (replies : ℕ → Reply π) (start : Time) :
    List (WalkVisit π) :=
  attempted env (start + env.wallBudget) (attemptBudget steps) (walkVisits env replies steps start)

/-- The attempt came back `EmptyBody` or `InvalidJSON`. -/
def WalkVisit.contentFailed (v : WalkVisit π) : Bool := isContentFailure v.reply.result

variable {env : ChatEnv} {finishBy : Time} {cap : ℕ} {replies : ℕ → Reply π}

/-- The counters are those of the attempts so far, none of which succeeded. -/
structure Tally (env : ChatEnv) (finishBy : Time) (cap : ℕ) (vs : List (WalkVisit π))
    (s : WalkState) : Prop where
  content : s.contentFailures = (attempted env finishBy cap vs).countP WalkVisit.contentFailed
  other : s.otherFailures = (attempted env finishBy cap vs).any fun v => !v.contentFailed

theorem attempted_concat_of_none {vs : List (WalkVisit π)} {v : WalkVisit π}
    (h : (v.attempt env finishBy cap).isSome = false) :
    attempted env finishBy cap (vs ++ [v]) = attempted env finishBy cap vs := by
  simp [attempted, List.filter_append, h]

theorem attempted_concat_of_some {vs : List (WalkVisit π)} {v : WalkVisit π}
    (h : (v.attempt env finishBy cap).isSome = true) :
    attempted env finishBy cap (vs ++ [v]) = attempted env finishBy cap vs ++ [v] := by
  simp [attempted, List.filter_append, h]

theorem Tally.skip {vs : List (WalkVisit π)} {v : WalkVisit π} {s' : WalkState}
    (h : Tally env finishBy cap vs v.before)
    (hnone : (v.attempt env finishBy cap).isSome = false) (hkept : KeepsCounts v.before s') :
    Tally env finishBy cap (vs ++ [v]) s' := by
  refine ⟨?_, ?_⟩
  · rw [attempted_concat_of_none hnone, hkept.1, h.content]
  · rw [attempted_concat_of_none hnone, hkept.2, h.other]

theorem Tally.count {vs : List (WalkVisit π)} {v : WalkVisit π} {s' : WalkState}
    (h : Tally env finishBy cap vs v.before)
    {a : PickedKey × String} (hatt : v.attempt env finishBy cap = some a)
    (hc : CountsFailure v.reply.result v.before s') : Tally env finishBy cap (vs ++ [v]) s' := by
  have hsome : (v.attempt env finishBy cap).isSome = true := by rw [hatt]; rfl
  refine ⟨?_, ?_⟩
  · rw [attempted_concat_of_some hsome, List.countP_append, hc.1, h.content, List.countP_singleton]
    show _ + (isContentFailure v.reply.result).toNat = _ + if isContentFailure v.reply.result = true then 1 else 0
    cases isContentFailure v.reply.result <;> rfl
  · rw [attempted_concat_of_some hsome, List.any_append, hc.2, h.other]
    simp [WalkVisit.contentFailed]

/-- **What the two counters say** of the attempts so far. -/
theorem Tally.verdict {vs : List (WalkVisit π)} {s : WalkState} (h : Tally env finishBy cap vs s) :
    s.contentFailures ≠ 0 ∧ s.otherFailures = false ↔
      attempted env finishBy cap vs ≠ [] ∧ ∀ v ∈ attempted env finishBy cap vs, v.contentFailed = true := by
  rw [h.content, h.other]
  simp only [List.any_eq_false, Bool.not_eq_true', Bool.not_eq_false]
  refine and_congr_left fun hcontent => ?_
  rw [List.countP_eq_length.mpr hcontent, ne_eq, List.length_eq_zero_iff]

/-- A pass that leaves no attempt running has none. -/
theorem WalkVisit.attempt_of_not_picks {v : WalkVisit π} (h : v.picks env finishBy cap = false) :
    (v.attempt env finishBy cap).isSome = false := by
  rw [WalkVisit.attempt, h, if_neg (by simp)]
  rfl

theorem WalkVisit.attempt_of_noKey {v : WalkVisit π} (h : usableKey v.step v.reply = none) :
    (v.attempt env finishBy cap).isSome = false := by
  rw [WalkVisit.attempt, h]
  split_ifs <;> rfl

theorem WalkVisit.attempt_of_noModel {v : WalkVisit π} {key : PickedKey}
    (hkey : usableKey v.step v.reply = some key)
    (h : (v.chosen env key).2 = "") : (v.attempt env finishBy cap).isSome = false := by
  rw [WalkVisit.attempt, hkey, Option.bind_some, if_pos h]
  split_ifs <;> rfl

/-- The counters through one pass that does not end the walk with an answer. -/
theorem Tally.pass {vs : List (WalkVisit π)} {v : WalkVisit π} {s' : WalkState} {e : PassEnd π}
    (h : Tally env finishBy cap vs v.before) (hout : v.Outcome env finishBy cap s' e)
    (he : ∀ p res, e ≠ .ends (.success p res)) : Tally env finishBy cap (vs ++ [v]) s' := by
  cases hout with
  | stopped hpick hkept _ => exact h.skip (WalkVisit.attempt_of_not_picks hpick) hkept
  | noKey _ hkey hkept _ => exact h.skip (WalkVisit.attempt_of_noKey hkey) hkept
  | noModel _ hkey hmodel hkept _ => exact h.skip (WalkVisit.attempt_of_noModel hkey hmodel) hkept
  | success _ _ _ => exact absurd rfl (he _ _)
  | budget hatt _ _ hc | degrades hatt _ _ _ hc _ _ _ | freeBlocked hatt _ _ _ hc _ | nextProvider hatt _ hc _
  | nextKey hatt _ hc _ _ => exact h.count hatt hc

/-- The counters when a walk ends, but for an answer. -/
theorem tally_walk (env : ChatEnv) (replies : ℕ → Reply π) (steps : List Step) (start : Time)
    (he : ∀ p res, (chatWalk env steps replies start).2 ≠ .success p res) :
    Tally env (start + env.wallBudget) (attemptBudget steps) (walkVisits env replies steps start)
      (chatWalk env steps replies start).1 := by
  have hrule : WalkRule env (start + env.wallBudget) (attemptBudget steps) replies steps
      (fun _ vs s => Tally env (start + env.wallBudget) (attemptBudget steps) vs s)
      (fun _ _ _ vs s => Tally env (start + env.wallBudget) (attemptBudget steps) vs s)
      (fun vs s e => (∀ p res, e ≠ .success p res) →
        Tally env (start + env.wallBudget) (attemptBudget steps) vs s) := {
    enter := fun _ _ _ _ _ h => ⟨h.content, h.other⟩
    next := fun _ _ _ _ _ _ _ h hout => h.pass hout (by simp)
    leave := fun _ _ _ _ _ _ _ h hout => h.pass hout (by simp)
    exhaust := fun _ _ _ _ _ h => h
    ends := fun _ _ _ _ _ _ _ _ h hout hne => h.pass hout fun p res heq => hne p res (PassEnd.ends.inj heq)
    walked := fun _ _ h _ => h }
  exact hrule.walk ⟨rfl, rfl⟩ he

/-- **When content failures are classified exactly.**  A walk that is not cancelled, not answered and not out
of budget returns `CONTENT_FAILED` exactly when it started an attempt and all of them came back `EmptyBody` or
`InvalidJSON`, if and only if its steps ran out, or it started no attempt, or one of them ended otherwise: not
where the cap or the deadline ends a walk of content failures. -/
theorem content_verdict_iff (env : ChatEnv) (paid : List String) (steps₀ : List Step)
    (target : Option AffinityTarget) (replies : ℕ → Reply π) (start : Time)
    (hres : runChat env paid steps₀ target replies start = .contentFailed ∨
      runChat env paid steps₀ target replies start = .noProvider) :
    let steps := withAffinity paid steps₀ target env.paidOnly
    let attempts := walkAttempts env steps replies start
    ((runChat env paid steps₀ target replies start = .contentFailed ↔
        attempts ≠ [] ∧ ∀ v ∈ attempts, v.contentFailed = true) ↔
      (∃ s, chatWalk env steps replies start = (s, .walked)) ∨ attempts = [] ∨
        ∃ v ∈ attempts, v.contentFailed = false) := by
  intro steps attempts
  have hrun : runChat env paid steps₀ target replies start =
      (chatWalk env steps replies start).2.result (chatWalk env steps replies start).1 := rfl
  rcases hwalk : chatWalk env steps replies start with ⟨s, e⟩
  have htally := tally_walk env replies steps start
  rw [hwalk] at hrun htally
  have hall : (¬ ∃ v ∈ attempts, v.contentFailed = false) ↔ ∀ v ∈ attempts, v.contentFailed = true := by
    simp only [not_exists, not_and, Bool.not_eq_false]
  cases e with
  | walked =>
    refine iff_of_true ?_ (.inl ⟨s, rfl⟩)
    have hverdict : s.contentFailures ≠ 0 ∧ s.otherFailures = false ↔
        attempts ≠ [] ∧ ∀ v ∈ attempts, v.contentFailed = true := (htally (by simp)).verdict
    rw [hrun]
    simp only [WalkEnd.result]
    by_cases hv : s.contentFailures ≠ 0 ∧ s.otherFailures = false
    · rw [if_pos hv]
      exact iff_of_true rfl (hverdict.mp hv)
    · rw [if_neg hv]
      exact iff_of_false (by simp) fun h => hv (hverdict.mpr h)
  | capReached | deadline =>
    -- `None` whatever the attempts were
    rw [hrun]
    simp only [WalkEnd.result, Prod.mk.injEq, reduceCtorEq, and_false, exists_false, false_or, false_iff]
    rw [not_and_or, not_not, ← hall, not_not]
  | success p res =>
    rw [hrun] at hres
    rcases hres with h | h <;> cases h
  | budget res =>
    rw [hrun] at hres
    rcases hres with h | h <;> cases h
  | cancelled =>
    rw [hrun] at hres
    rcases hres with h | h <;> cases h

/-! ### Two walks -/

def nemotron : String := "nvidia_nim/nvidia/nemotron-3-ultra-550b-a55b"

def deepEnv : ChatEnv :=
  { capability := "chat:deep"
    modelFor := fun _ => some nemotron
    rotationFor := fun _ => []
    transportTimeout := fun _ => none }

/-- An attempt of six minutes with an empty body, on one key after the other. -/
def slowEmptyBody (flow : Flow) (k : ℕ) : Reply Unit :=
  { key := some ⟨k + 1, .free⟩
    result := { flow := flow, rejection := some "EmptyBody" }
    callTook := 360000000 }

/-- The only provider answers with an empty body: the steps run out, and the verdict is the content's. -/
theorem content_verdict_of_empty_body :
    (runChat deepEnv [] [{ provider := "nvidia" }] none (slowEmptyBody .nextProvider) 0 = .contentFailed ↔
      walkAttempts deepEnv [{ provider := "nvidia" }] (slowEmptyBody .nextProvider) 0 ≠ [] ∧
        ∀ v ∈ walkAttempts deepEnv [{ provider := "nvidia" }] (slowEmptyBody .nextProvider) 0,
          v.contentFailed = true) := by
  have hres : runChat deepEnv [] [{ provider := "nvidia" }] none (slowEmptyBody .nextProvider) 0 = .contentFailed :=
    rfl
  exact (content_verdict_iff deepEnv [] [{ provider := "nvidia" }] none (slowEmptyBody .nextProvider) 0
    (.inl hres)).mpr (.inl ⟨_, rfl⟩)

/-- The route that served the request's family before. -/
def nemotronRoute : AffinityTarget := { provider := "nvidia", model := nemotron, keyId := 1 }

/-- The deep chain behind the affinity leg: after the leg's empty body the deadline leaves no room for another
attempt, and the walk returns `None` though its only attempt was a content failure. -/
theorem deadline_hides_content_failure :
    runChat deepEnv [] [{ provider := "nvidia" }] (some nemotronRoute) (slowEmptyBody .nextProvider) 0 =
      .noProvider ∧
    ¬ (runChat deepEnv [] [{ provider := "nvidia" }] (some nemotronRoute) (slowEmptyBody .nextProvider) 0 =
          .contentFailed ↔
        walkAttempts deepEnv (withAffinity [] [{ provider := "nvidia" }] (some nemotronRoute) false)
            (slowEmptyBody .nextProvider) 0 ≠ [] ∧
          ∀ v ∈ walkAttempts deepEnv (withAffinity [] [{ provider := "nvidia" }] (some nemotronRoute) false)
            (slowEmptyBody .nextProvider) 0, v.contentFailed = true) := by
  have hnone : runChat deepEnv [] [{ provider := "nvidia" }] (some nemotronRoute) (slowEmptyBody .nextProvider) 0 =
      .noProvider := rfl
  have hmap : (walkAttempts deepEnv (withAffinity [] [{ provider := "nvidia" }] (some nemotronRoute) false)
      (slowEmptyBody .nextProvider) 0).map WalkVisit.contentFailed = [true] := by decide +kernel
  refine ⟨hnone, fun hiff => ?_⟩
  rw [hnone] at hiff
  refine absurd (hiff.mpr ⟨fun hnil => ?_, fun v hv => ?_⟩) (by simp)
  · rw [hnil] at hmap
    cases hmap
  · have hmem := List.mem_map_of_mem (f := WalkVisit.contentFailed) hv
    rw [hmap] at hmem
    exact List.mem_singleton.mp hmem

end Broker.Services
