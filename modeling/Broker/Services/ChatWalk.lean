import Broker.Routing.Selector
import Broker.Services.Attempt
import Broker.Services.JobQueue

/-!
# Broker.Services.ChatWalk — the walk of `run_chat` over its steps

Two nested loops: over the steps of the walk and over the keys of a step's provider.  What the other
parties answer in one pass of the inner loop (the cancel poll, the key, the model, the attempt, and how
long each took) is a `Reply`; a run is fixed by the sequence of its replies.  The walk keeps, beside the
counters of the source, the attempts it started and the steps it entered.
-/

namespace Broker.Services

open Broker.Db Broker.Routing

/-! ### Constants -/

/-- `_MAX_ATTEMPTS_ABS`. -/
def maxAttemptsAbs : ℕ := 100

/-- `_CALL_TIMEOUT_S`. -/
def defaultCallTimeout : Time := seconds 60

/-- `_DEEP_CALL_TIMEOUT_S`. -/
def deepCallTimeout : Time := seconds (19 * 60)

/-- `_CHAT_WALL_DEADLINE_S`. -/
def chatWallDeadline : Time := seconds (18 * 60)

/-- `_DEEP_WALL_DEADLINE_S`. -/
def deepWallDeadline : Time := seconds (5 * 60)

/-- `_DEEP_FINISH_BY_S`. -/
def deepFinishBy : Time := deepWallDeadline + deepCallTimeout

/-- `max_keys_for`: the two specs that set it, and `DEFAULT_MAX_KEYS`. -/
def maxKeys (provider : String) : ℕ := if provider = "cerebras" ∨ provider = "gemini" then 3 else 5

/-! ### Steps -/

/-- `_Step`. -/
structure Step where
  provider : String
  model : Option String := none
  tier : Option Tier := none
  keyId : Option ℤ := none
  freeOnly : Bool := false

/-- `step.key_id` holds: the step is the affinity leg. -/
def Step.isLeg (st : Step) : Bool := st.keyId.any fun k => k ≠ 0

/-- The passes of the inner loop a step is given. -/
def Step.allowance (st : Step) : ℕ := if st.isLeg then 1 else maxKeys st.provider

/-- `may_promote`. -/
def mayPromote (paid : List String) (target : AffinityTarget) (head : String) (paidOnly : Bool) : Bool :=
  paidOnly || !(paid.contains target.provider && !paid.contains head)

/-- `_with_affinity`: the affine target, when the walk would allow it anyway, goes first. -/
def withAffinity (paid : List String) (steps : List Step) (target : Option AffinityTarget) (paidOnly : Bool) :
    List Step :=
  match steps, target with
  | [], _ => []
  | steps, none => steps
  | head :: rest, some t =>
    if mayPromote paid t head.provider paidOnly = false then head :: rest
    else if (head :: rest).any (fun s => s.provider = t.provider ∧ (s.model.getD "" = "" ∨ s.model = some t.model))
        = false then head :: rest
    else
      { provider := t.provider
        model := some t.model
        tier := if paidOnly then some .paid else none
        keyId := some t.keyId
        freeOnly := !paidOnly && !paid.contains head.provider } :: head :: rest

/-- `_attempt_budget`. -/
def attemptBudget (steps : List Step) : ℕ := min maxAttemptsAbs (steps.map fun s => maxKeys s.provider).sum

/-! ### The walk -/

/-- What `run_chat` looks up for the request: the model of a provider, the models it may rotate over, and
the timeout a model's transport asks for. -/
structure ChatEnv where
  capability : String
  paidOnly : Bool := false
  modelFor : String → Option String
  rotationFor : String → List String
  transportTimeout : String → Option Time

namespace ChatEnv

variable (env : ChatEnv)

/-- `_call_timeout`. -/
def callTimeout (provider : String) : Time :=
  if env.capability = "chat:deep" then deepCallTimeout
  else
    let own := (env.modelFor provider).bind fun m => if m = "" then none else env.transportTimeout m
    own.getD defaultCallTimeout

/-- The wall-clock budget of the walk. -/
def wallBudget : Time := if env.capability = "chat:deep" then deepFinishBy else chatWallDeadline

/-- `_model_pool`. -/
def modelPool (provider : String) (pinned : Option String) : List String :=
  if pinned.getD "" ≠ "" then pinned.toList
  else match env.modelFor provider with
    | none => []
    | some primary => primary :: (env.rotationFor provider).filter (· ≠ primary)

end ChatEnv

/-- A key as `pick_and_reserve` returns it. -/
structure PickedKey where
  id : ℕ
  tier : Tier

/-- What the others answer in one pass of the inner loop, and how long each took.  `rotate` is
`_rotate_model` at a start index. -/
structure Reply (π : Type) where
  stop : Bool := false
  stopTook : ℕ := 0
  key : Option PickedKey := none
  pickTook : ℕ := 0
  rotate : List String → ℕ → String := fun pool i => pool.getD i ""
  rotateTook : ℕ := 0
  result : AttemptResult π
  callTook : ℕ := 0
  settleTook : ℕ := 0

/-- An attempt that was started: its step, the time the deadline gate read, its timeout, and when the call
started and ended. -/
structure StartedAttempt where
  step : ℕ
  gate : Time
  timeout : Time
  start : Time
  finish : Time
  flow : Flow

/-- Why the walk is over. -/
inductive WalkEnd (π : Type) where
  | success (provider : String) (res : AttemptResult π)
  | budget (res : AttemptResult π)
  | cancelled
  | capReached
  | deadline
  | walked

/-- The variables of the loops; `log` and `entered` are what happened. -/
structure WalkState where
  clock : Time
  passes : ℕ := 0
  attempts : ℕ := 0
  contentFailures : ℕ := 0
  otherFailures : Bool := false
  degradedFree : Bool := false
  requireTier : Option Tier := none
  rotationBase : Option ℕ := none
  log : List StartedAttempt := []
  entered : List ℕ := []

def WalkState.wait (s : WalkState) (took : ℕ) : WalkState := { s with clock := s.clock + took }

/-- How a pass of the inner loop leaves it. -/
inductive PassEnd (π : Type) where
  | ends (e : WalkEnd π)
  | breaks
  | continues

section Walk

variable {π : Type} (env : ChatEnv) (finishBy : Time) (cap : ℕ)

/-- `res.rejection in _CONTENT_FAILURES`. -/
def isContentFailure (res : AttemptResult π) : Bool :=
  res.rejection = some "EmptyBody" || res.rejection = some "InvalidJSON"

/-- The failure counters after an attempt. -/
def countFailure (res : AttemptResult π) (s : WalkState) : WalkState :=
  if res.flow = .success then s
  else if isContentFailure res then { s with contentFailures := s.contentFailures + 1 }
  else { s with otherFailures := true }

/-- What the loop does with the flow of an attempt. -/
def afterAttempt (st : Step) (res : AttemptResult π) (s : WalkState) : WalkState × PassEnd π :=
  match res.flow with
  | .success => (s, .ends (.success st.provider res))
  | .budgetExhausted =>
    if env.paidOnly ∨ st.tier.isSome then (s, .ends (.budget res))
    else if s.requireTier ≠ some .free then
      ({ s with requireTier := some .free, degradedFree := true }, .continues)
    else (s, .breaks)
  | .nextProvider => (s, .breaks)
  | .nextKey => (s, .continues)

/-- The model of the attempt, and the rotation base it fixes. -/
def useModel (st : Step) (attemptInProvider : ℕ) (key : PickedKey) (r : Reply π) (s : WalkState) :
    WalkState × String :=
  if st.model.getD "" ≠ "" then (s, st.model.getD "")
  else match env.modelFor st.provider with
    | none => (s, "")
    | some _ =>
      let base := s.rotationBase.getD key.id
      let pool := env.modelPool st.provider st.model
      ({ s.wait r.rotateTook with rotationBase := some base },
        r.rotate pool ((base + attemptInProvider) % pool.length))

/-- `run_attempt`, started at the current time after its gate had read `gate`. -/
def startAttempt (idx : ℕ) (st : Step) (gate : Time) (r : Reply π) (s : WalkState) : WalkState :=
  let finish := s.clock + r.callTook
  { s with
    clock := finish + r.settleTook
    log := s.log ++ [⟨idx, gate, env.callTimeout st.provider, s.clock, finish, r.result.flow⟩] }

/-- A pass with a key and the model it is to use; no model leaves the provider. -/
def withModel (idx : ℕ) (st : Step) (gate : Time) (r : Reply π) (m : WalkState × String) :
    WalkState × PassEnd π :=
  if m.2 = "" then (m.1, .breaks)
  else afterAttempt env st r.result (countFailure r.result (startAttempt env idx st gate r m.1))

def WalkState.counted (s : WalkState) : WalkState := { s with attempts := s.attempts + 1 }

/-- The state after the cancel poll. -/
def WalkState.polled (s : WalkState) (took : ℕ) : WalkState :=
  { s with clock := s.clock + took, passes := s.passes + 1 }

/-- The picked key, unless the leg must not spend. -/
def usableKey (st : Step) (r : Reply π) : Option PickedKey :=
  r.key.filter fun k => !(st.freeOnly && k.tier ≠ .free)

/-- One pass of the inner loop. -/
def pass (idx : ℕ) (st : Step) (attemptInProvider : ℕ) (r : Reply π) (s₀ : WalkState) :
    WalkState × PassEnd π :=
  if r.stop then (s₀.polled r.stopTook, .ends .cancelled)
  else if cap ≤ (s₀.polled r.stopTook).attempts then (s₀.polled r.stopTook, .ends .capReached)
  else if finishBy < (s₀.polled r.stopTook).clock + env.callTimeout st.provider then
    (s₀.polled r.stopTook, .ends .deadline)
  else match usableKey st r with
    | none => ((s₀.polled r.stopTook).wait r.pickTook, .breaks)
    | some key =>
      withModel env idx st (s₀.polled r.stopTook).clock r
        (useModel env st attemptInProvider key r ((s₀.polled r.stopTook).wait r.pickTook).counted)

variable (replies : ℕ → Reply π)

/-- The inner loop with `n` passes left; `none` is leaving it for the next step. -/
def keyLoop (idx : ℕ) (st : Step) : ℕ → ℕ → WalkState → WalkState × Option (WalkEnd π)
  | 0, _, s => (s, none)
  | n + 1, i, s =>
    match pass env finishBy cap idx st i (replies s.passes) s with
    | (s', .ends e) => (s', some e)
    | (s', .breaks) => (s', none)
    | (s', .continues) => keyLoop idx st n (i + 1) s'

/-- The head of the outer loop's body. -/
def enterStep (idx : ℕ) (st : Step) (s : WalkState) : WalkState :=
  { s with
    requireTier :=
      if s.degradedFree ∧ st.tier = none then some .free
      else st.tier.or (if env.paidOnly then some .paid else none)
    rotationBase := none
    entered := s.entered ++ [idx] }

/-- The outer loop. -/
def stepLoop : ℕ → List Step → WalkState → WalkState × WalkEnd π
  | _, [], s => (s, .walked)
  | idx, st :: rest, s =>
    match keyLoop env finishBy cap replies idx st st.allowance 0 (enterStep env idx st s) with
    | (s', some e) => (s', e)
    | (s', none) => stepLoop (idx + 1) rest s'

end Walk

/-- What `run_chat` returns. -/
inductive ChatResult (π : Type) where
  | outcome (provider : String) (res : AttemptResult π)
  | budgetExhausted (res : AttemptResult π)
  | contentFailed
  | cancelled
  | noProvider

def WalkEnd.result {π : Type} (s : WalkState) : WalkEnd π → ChatResult π
  | .success provider res => .outcome provider res
  | .budget res => .budgetExhausted res
  | .cancelled => .cancelled
  | .capReached | .deadline => .noProvider
  | .walked => if s.contentFailures ≠ 0 ∧ s.otherFailures = false then .contentFailed else .noProvider

/-- The walk of `run_chat` over its steps, from the time `start` it computes its deadline at. -/
def chatWalk {π : Type} (env : ChatEnv) (steps : List Step) (replies : ℕ → Reply π) (start : Time) :
    WalkState × WalkEnd π :=
  stepLoop env (start + env.wallBudget) (attemptBudget steps) replies 0 steps { clock := start }

/-- `run_chat` past the shaping of its chain: the affinity leg, the walk, the result. -/
def runChat {π : Type} (env : ChatEnv) (paid : List String) (steps : List Step)
    (target : Option AffinityTarget) (replies : ℕ → Reply π) (start : Time) : ChatResult π :=
  let (s, e) := chatWalk env (withAffinity paid steps target env.paidOnly) replies start
  e.result s

/-! ### What one pass does -/

variable {π : Type} {env : ChatEnv} {finishBy : Time} {cap : ℕ}

/-- Everything but the provider call took no time. -/
def Reply.Instant (r : Reply π) : Prop :=
  r.stopTook = 0 ∧ r.pickTook = 0 ∧ r.rotateTook = 0 ∧ r.settleTook = 0

/-- The attempt a pass of the step `idx` started from the state `s`: it passed the gate, and when everything
else takes no time it starts when the gate read the clock and the pass is over when the call is. -/
structure StartedBy (env : ChatEnv) (finishBy : Time) (idx : ℕ) (st : Step) (r : Reply π) (s s' : WalkState)
    (a : StartedAttempt) : Prop where
  log : s'.log = s.log ++ [a]
  step : a.step = idx
  timeout : a.timeout = env.callTimeout st.provider
  gate : a.gate + a.timeout ≤ finishBy
  start : a.gate ≤ a.start
  instant : r.Instant → a.start = a.gate ∧ s'.clock = a.finish

/-- Why a pass of the step `st` ended the walk in the state `s`, the attempt cap aside: an attempt succeeded
or was blocked by a budget, the client cancelled, or the next attempt would end past the deadline. -/
def WalkEnd.Why (env : ChatEnv) (finishBy : Time) (r : Reply π) (st : Step) (s : WalkState) : WalkEnd π → Prop
  | .success _ _ => ∃ a ∈ s.log, a.flow = .success
  | .budget _ => ∃ a ∈ s.log, a.flow = .budgetExhausted
  | .cancelled => r.stop = true
  | .deadline => finishBy < s.clock + env.callTimeout st.provider
  | .capReached | .walked => False

/-- What a pass can do: nothing that lasts, or start one attempt.  Only the cap ends the walk for the cap. -/
structure PassSpec (env : ChatEnv) (finishBy : Time) (cap idx : ℕ) (st : Step) (r : Reply π)
    (s s' : WalkState) (e : PassEnd π) : Prop where
  entered : s'.entered = s.entered
  attempts : s'.attempts ≤ s.attempts + 1
  effect : (s'.log = s.log ∧ (r.Instant → s'.clock = s.clock)) ∨
    ∃ a, StartedBy env finishBy idx st r s s' a
  cap : e = .ends .capReached → cap ≤ s.attempts
  why : ∀ w, e = .ends w → w = .capReached ∨ w.Why env finishBy r st s'

theorem countFailure_kept (res : AttemptResult π) (s : WalkState) :
    (countFailure res s).log = s.log ∧ (countFailure res s).clock = s.clock ∧
    (countFailure res s).attempts = s.attempts ∧ (countFailure res s).entered = s.entered := by
  unfold countFailure
  split_ifs <;> exact ⟨rfl, rfl, rfl, rfl⟩

theorem afterAttempt_kept (st : Step) (res : AttemptResult π) (s : WalkState) :
    (afterAttempt env st res s).1.log = s.log ∧ (afterAttempt env st res s).1.clock = s.clock ∧
    (afterAttempt env st res s).1.attempts = s.attempts ∧ (afterAttempt env st res s).1.entered = s.entered ∧
    ∀ w, (afterAttempt env st res s).2 = .ends w →
      ((∃ p, w = .success p res) ∧ res.flow = .success) ∨
        (w = .budget res ∧ res.flow = .budgetExhausted) := by
  unfold afterAttempt
  split
  · rename_i hflow
    refine ⟨rfl, rfl, rfl, rfl, fun w h => .inl ⟨⟨st.provider, ?_⟩, hflow⟩⟩
    exact (PassEnd.ends.inj h).symm
  · rename_i hflow
    split_ifs
    · exact ⟨rfl, rfl, rfl, rfl, fun w h => .inr ⟨(PassEnd.ends.inj h).symm, hflow⟩⟩
    · exact ⟨rfl, rfl, rfl, rfl, by simp⟩
    · exact ⟨rfl, rfl, rfl, rfl, by simp⟩
  · exact ⟨rfl, rfl, rfl, rfl, by simp⟩
  · exact ⟨rfl, rfl, rfl, rfl, by simp⟩

theorem useModel_kept (st : Step) (i : ℕ) (key : PickedKey) (r : Reply π) (s : WalkState) :
    (useModel env st i key r s).1.log = s.log ∧ (useModel env st i key r s).1.attempts = s.attempts ∧
    (useModel env st i key r s).1.entered = s.entered ∧ s.clock ≤ (useModel env st i key r s).1.clock ∧
    (r.Instant → (useModel env st i key r s).1.clock = s.clock) := by
  unfold useModel
  split_ifs
  · exact ⟨rfl, rfl, rfl, le_rfl, fun _ => rfl⟩
  · cases env.modelFor st.provider with
    | none => exact ⟨rfl, rfl, rfl, le_rfl, fun _ => rfl⟩
    | some m =>
      refine ⟨rfl, rfl, rfl, ?_, fun h => ?_⟩
      · simp [WalkState.wait]
      · simp [WalkState.wait, h.2.2.1]

theorem withModel_spec (idx : ℕ) (st : Step) {gate : Time} (r : Reply π) {s : WalkState}
    {m : WalkState × String} (hgate : gate + env.callTimeout st.provider ≤ finishBy) (hle : gate ≤ m.1.clock)
    (hinst : r.Instant → m.1.clock = gate ∧ gate = s.clock)
    (hlog : m.1.log = s.log) (hatt : m.1.attempts = s.attempts + 1) (hent : m.1.entered = s.entered) :
    PassSpec env finishBy cap idx st r s (withModel env idx st gate r m).1 (withModel env idx st gate r m).2 := by
  unfold withModel
  split_ifs with hmodel
  · exact ⟨hent, hatt.le, .inl ⟨hlog, fun h => (hinst h).1.trans (hinst h).2⟩, by simp, by simp⟩
  · obtain ⟨hfl, hfc, hfa, hfe⟩ := countFailure_kept r.result (startAttempt env idx st gate r m.1)
    obtain ⟨hal, hac, haa, hae, hends⟩ := @afterAttempt_kept π env st r.result
      (countFailure r.result (startAttempt env idx st gate r m.1))
    set a : StartedAttempt := ⟨idx, gate, env.callTimeout st.provider, m.1.clock, m.1.clock + r.callTook,
      r.result.flow⟩ with ha
    have hlog' : (afterAttempt env st r.result
        (countFailure r.result (startAttempt env idx st gate r m.1))).1.log = s.log ++ [a] := by
      rw [hal, hfl]
      show m.1.log ++ _ = s.log ++ _
      rw [hlog]
    refine ⟨?_, ?_, .inr ⟨a, hlog', rfl, rfl, hgate, hle, fun h => ⟨(hinst h).1, ?_⟩⟩, fun h => ?_, fun w h => ?_⟩
    · rw [hae, hfe]
      exact hent
    · rw [haa, hfa]
      exact hatt.le
    · rw [hac, hfc]
      simp [ha, startAttempt, h.2.2.2]
    · rcases hends _ h with ⟨⟨p, h⟩, -⟩ | ⟨h, -⟩ <;> cases h
    · have hmem : a ∈ (afterAttempt env st r.result
          (countFailure r.result (startAttempt env idx st gate r m.1))).1.log := by simp [hlog']
      rcases hends w h with ⟨⟨p, rfl⟩, hflow⟩ | ⟨rfl, hflow⟩
      · exact .inr ⟨a, hmem, hflow⟩
      · exact .inr ⟨a, hmem, hflow⟩

/-- **One pass.** -/
theorem pass_spec (idx : ℕ) (st : Step) (i : ℕ) (r : Reply π) (s : WalkState) :
    PassSpec env finishBy cap idx st r s (pass env finishBy cap idx st i r s).1
      (pass env finishBy cap idx st i r s).2 := by
  have hstop : r.Instant → (s.polled r.stopTook).clock = s.clock := fun h => by simp [WalkState.polled, h.1]
  unfold pass
  split_ifs with h1 h2 h3
  · refine ⟨rfl, Nat.le_succ _, .inl ⟨rfl, hstop⟩, by simp, fun w h => .inr ?_⟩
    obtain rfl := PassEnd.ends.inj h
    exact h1
  · exact ⟨rfl, Nat.le_succ _, .inl ⟨rfl, hstop⟩, fun _ => h2, fun w h => .inl (PassEnd.ends.inj h).symm⟩
  · refine ⟨rfl, Nat.le_succ _, .inl ⟨rfl, hstop⟩, by simp, fun w h => .inr ?_⟩
    obtain rfl := PassEnd.ends.inj h
    exact h3
  · cases usableKey st r with
    | none =>
      refine ⟨rfl, Nat.le_succ _, .inl ⟨rfl, fun h => ?_⟩, by simp, by simp⟩
      simp [WalkState.wait, WalkState.polled, h.1, h.2.1]
    | some key =>
      obtain ⟨hml, hma, hme, hmc, hmi⟩ :=
        @useModel_kept π env st i key r ((s.polled r.stopTook).wait r.pickTook).counted
      refine withModel_spec idx st r (not_lt.mp h3) (le_trans ?_ hmc) (fun h => ⟨?_, hstop h⟩) hml hma hme
      · simp [WalkState.wait, WalkState.counted]
      · rw [hmi h]
        simp [WalkState.wait, WalkState.counted, h.2.1]

/-! ### The loops -/

variable {replies : ℕ → Reply π}

/-- An attempt of the step `idx` that passed the deadline gate. -/
structure Admitted (env : ChatEnv) (finishBy : Time) (replies : ℕ → Reply π) (idx : ℕ) (st : Step)
    (a : StartedAttempt) : Prop where
  step : a.step = idx
  timeout : a.timeout = env.callTimeout st.provider
  gate : a.gate + a.timeout ≤ finishBy
  start : a.gate ≤ a.start
  instant : (∀ k, (replies k).Instant) → a.start = a.gate

/-- Every call of the log ended within the timeout it was given. -/
def Timely (log : List StartedAttempt) : Prop := ∀ a ∈ log, a.finish - a.start ≤ a.timeout

theorem Timely.of_append {l l' : List StartedAttempt} (h : Timely (l ++ l')) : Timely l :=
  fun a ha => h a (List.mem_append_left _ ha)

/-- What the inner loop does with `n` passes left. -/
structure KeyLoopSpec (env : ChatEnv) (finishBy : Time) (cap : ℕ) (replies : ℕ → Reply π) (idx : ℕ)
    (st : Step) (n : ℕ) (s s' : WalkState) (e : Option (WalkEnd π)) : Prop where
  entered : s'.entered = s.entered
  attempts : s'.attempts ≤ s.attempts + n
  log : ∃ l, s'.log = s.log ++ l ∧ l.length ≤ n ∧ ∀ a ∈ l, Admitted env finishBy replies idx st a
  cap : s.attempts + n ≤ cap → e ≠ some .capReached
  why : ∀ w, e = some w → w = .capReached ∨ ∃ k, w.Why env finishBy (replies k) st s'
  clock : (∀ k, (replies k).Instant) → Timely s'.log → s.clock ≤ finishBy → s'.clock ≤ finishBy

theorem KeyLoopSpec.of_pass {idx : ℕ} {st : Step} {k n : ℕ} {s s' : WalkState} {e : PassEnd π}
    (h : PassSpec env finishBy cap idx st (replies k) s s' e) {o : Option (WalkEnd π)}
    (ho : ∀ w, o = some w → e = .ends w) :
    KeyLoopSpec env finishBy cap replies idx st (n + 1) s s' o where
  entered := h.entered
  attempts := h.attempts.trans (by omega)
  log := by
    rcases h.effect with ⟨hlog, -⟩ | ⟨a, ha⟩
    · exact ⟨[], by simp [hlog], by simp, by simp⟩
    · refine ⟨[a], ha.log, by simp, fun b hb => ?_⟩
      obtain rfl := List.mem_singleton.mp hb
      exact ⟨ha.step, ha.timeout, ha.gate, ha.start, fun hi => (ha.instant (hi k)).1⟩
  cap := by
    intro hle heq
    have := h.cap (ho _ heq)
    omega
  why := by
    intro w heq
    rcases h.why w (ho w heq) with hw | hw
    · exact .inl hw
    · exact .inr ⟨k, hw⟩
  clock := by
    intro hi htimely hclock
    rcases h.effect with ⟨-, hsame⟩ | ⟨a, ha⟩
    · rw [hsame (hi k)]
      exact hclock
    · -- the call took at most its timeout, and the gate left room for it
      obtain ⟨hstart, hend⟩ := ha.instant (hi k)
      have htook := htimely a (by simp [ha.log])
      have hgate := ha.gate
      rw [hend]
      linarith

theorem KeyLoopSpec.trans {idx : ℕ} {st : Step} {n : ℕ} {s t u : WalkState} {e : Option (WalkEnd π)}
    (h : KeyLoopSpec env finishBy cap replies idx st 1 s t none)
    (h' : KeyLoopSpec env finishBy cap replies idx st n t u e) :
    KeyLoopSpec env finishBy cap replies idx st (n + 1) s u e := by
  obtain ⟨l, hl, hlen, hadm⟩ := h.log
  obtain ⟨l', hl', hlen', hadm'⟩ := h'.log
  have hatt := h.attempts
  have hatt' := h'.attempts
  refine ⟨h'.entered.trans h.entered, by omega, ⟨l ++ l', ?_, ?_, ?_⟩, ?_, h'.why, ?_⟩
  · rw [hl', hl, List.append_assoc]
  · rw [List.length_append]
    omega
  · intro a ha
    exact (List.mem_append.mp ha).elim (hadm a) (hadm' a)
  · intro hle
    exact h'.cap (by omega)
  · intro hi htimely hclock
    have ht : Timely t.log := by
      rw [hl'] at htimely
      exact htimely.of_append
    exact h'.clock hi htimely (h.clock hi ht hclock)

/-- **The inner loop**, by induction on the passes it has left. -/
theorem keyLoop_spec (idx : ℕ) (st : Step) (n : ℕ) (i : ℕ) (s : WalkState) :
    KeyLoopSpec env finishBy cap replies idx st n s (keyLoop env finishBy cap replies idx st n i s).1
      (keyLoop env finishBy cap replies idx st n i s).2 := by
  induction n generalizing i s with
  | zero => exact ⟨rfl, le_rfl, ⟨[], by simp [keyLoop], by simp, by simp⟩, fun _ => by simp [keyLoop],
      by simp [keyLoop], fun _ _ h => h⟩
  | succ n ih =>
    have hp := @pass_spec π env finishBy cap idx st i (replies s.passes) s
    unfold keyLoop
    rcases hpass : pass env finishBy cap idx st i (replies s.passes) s with ⟨s', e⟩
    rw [hpass] at hp
    cases e with
    | ends e =>
      refine KeyLoopSpec.of_pass hp fun w h => ?_
      rw [Option.some.inj h]
    | breaks => exact KeyLoopSpec.of_pass hp fun w h => by cases h
    | continues => exact (KeyLoopSpec.of_pass hp fun w h => by cases h).trans (ih (i + 1) s')

/-- What the outer loop does on the steps `steps`, the first of which has the index `idx`. -/
structure StepLoopSpec (env : ChatEnv) (finishBy : Time) (cap : ℕ) (replies : ℕ → Reply π) (idx : ℕ)
    (steps : List Step) (s s' : WalkState) (e : WalkEnd π) : Prop where
  log : ∃ l, s'.log = s.log ++ l ∧
    (∀ a ∈ l, ∃ j st, steps[j]? = some st ∧ Admitted env finishBy replies (idx + j) st a) ∧
    ∀ j st, steps[j]? = some st → (l.filter fun a => a.step = idx + j).length ≤ st.allowance
  cap : s.attempts + (steps.map Step.allowance).sum ≤ cap → e ≠ .capReached
  entered : (∃ k, ∃ st ∈ steps, e.Why env finishBy (replies k) st s') ∨ e = .capReached ∨
    s'.entered = s.entered ++ List.range' idx steps.length
  clock : (∀ k, (replies k).Instant) → Timely s'.log → s.clock ≤ finishBy → s'.clock ≤ finishBy

/-- The attempts of one pass of the outer loop, among those of the walk. -/
theorem filter_step_of_admitted {l : List StartedAttempt} {idx k : ℕ} {st : Step}
    (h : ∀ a ∈ l, Admitted env finishBy replies idx st a) :
    (l.filter fun a => a.step = k) = if k = idx then l else [] := by
  split_ifs with hk
  · refine List.filter_eq_self.mpr fun a ha => ?_
    simp [(h a ha).step, hk]
  · refine List.filter_eq_nil_iff.mpr fun a ha => ?_
    simp [(h a ha).step, Ne.symm hk]

theorem StepLoopSpec.of_keyLoop {idx : ℕ} {st : Step} {rest : List Step} {s s' : WalkState}
    {e : WalkEnd π}
    (h : KeyLoopSpec env finishBy cap replies idx st st.allowance (enterStep env idx st s) s' (some e)) :
    StepLoopSpec env finishBy cap replies idx (st :: rest) s s' e := by
  obtain ⟨l, hl, hlen, hadm⟩ := h.log
  refine ⟨⟨l, hl, fun a ha => ⟨0, st, rfl, hadm a ha⟩, ?_⟩, ?_, ?_, h.clock⟩
  · intro j st' hj
    rw [filter_step_of_admitted hadm]
    split_ifs with hji
    · obtain rfl : j = 0 := by omega
      obtain rfl : st = st' := by simpa using hj
      exact hlen
    · exact Nat.zero_le _
  · intro hle heq
    refine h.cap ?_ (by rw [heq])
    simp only [List.map_cons, List.sum_cons] at hle
    show s.attempts + st.allowance ≤ cap
    omega
  · rcases h.why e rfl with he | ⟨k, he⟩
    · exact .inr (.inl he)
    · exact .inl ⟨k, st, List.mem_cons_self, he⟩

theorem StepLoopSpec.cons {idx : ℕ} {st : Step} {rest : List Step} {s t u : WalkState} {e : WalkEnd π}
    (h : KeyLoopSpec env finishBy cap replies idx st st.allowance (enterStep env idx st s) t none)
    (h' : StepLoopSpec env finishBy cap replies (idx + 1) rest t u e) :
    StepLoopSpec env finishBy cap replies idx (st :: rest) s u e := by
  obtain ⟨l, hl, hlen, hadm⟩ := h.log
  obtain ⟨l', hl', hadm', hcount⟩ := h'.log
  have hatt : t.attempts ≤ s.attempts + st.allowance := h.attempts
  refine ⟨⟨l ++ l', by rw [hl', hl, List.append_assoc]; rfl, ?_, ?_⟩, ?_, ?_, ?_⟩
  · intro a ha
    rcases List.mem_append.mp ha with ha | ha
    · exact ⟨0, st, rfl, hadm a ha⟩
    · obtain ⟨j, st', hj, hadm⟩ := hadm' a ha
      exact ⟨j + 1, st', hj, by rwa [show idx + (j + 1) = idx + 1 + j by omega]⟩
  · intro j st' hj
    rw [List.filter_append, List.length_append, filter_step_of_admitted hadm]
    cases j with
    | zero =>
      obtain rfl : st = st' := by simpa using hj
      -- the later steps have larger indices
      have hnone : (l'.filter fun a => a.step = idx + 0) = [] := by
        refine List.filter_eq_nil_iff.mpr fun a ha => ?_
        obtain ⟨j, st', -, hadm⟩ := hadm' a ha
        have := hadm.step
        simp only [decide_eq_true_eq]
        omega
      rw [hnone]
      simpa using hlen
    | succ j =>
      have := hcount j st' (by simpa using hj)
      rw [if_neg (by omega), show idx + (j + 1) = idx + 1 + j by omega]
      simpa using this
  · intro hle
    simp only [List.map_cons, List.sum_cons] at hle
    exact h'.cap (by omega)
  · rcases h'.entered with ⟨k, st', hst', he⟩ | he | he
    · exact .inl ⟨k, st', List.mem_cons_of_mem _ hst', he⟩
    · exact .inr (.inl he)
    · refine .inr (.inr ?_)
      rw [he, h.entered]
      simp [enterStep, List.range'_succ]
  · intro hi htimely hclock
    have ht : Timely t.log := by
      rw [hl'] at htimely
      exact htimely.of_append
    exact h'.clock hi htimely (h.clock hi ht hclock)

/-- **The outer loop**, by induction on the steps. -/
theorem stepLoop_spec (steps : List Step) (idx : ℕ) (s : WalkState) :
    StepLoopSpec env finishBy cap replies idx steps s (stepLoop env finishBy cap replies idx steps s).1
      (stepLoop env finishBy cap replies idx steps s).2 := by
  induction steps generalizing idx s with
  | nil =>
    exact ⟨⟨[], by simp [stepLoop], by simp, by simp⟩, fun _ => by simp [stepLoop],
      .inr (.inr (by simp [stepLoop])), fun _ _ h => h⟩
  | cons st rest ih =>
    have hk := @keyLoop_spec π env finishBy cap replies idx st
      st.allowance 0 (enterStep env idx st s)
    unfold stepLoop
    rcases hloop : keyLoop env finishBy cap replies idx st st.allowance 0 (enterStep env idx st s) with ⟨s', o⟩
    rw [hloop] at hk
    cases o with
    | none => exact .cons hk (ih (idx + 1) s')
    | some e => exact .of_keyLoop hk

/-! ### The walk -/

theorem one_le_maxKeys (provider : String) : 1 ≤ maxKeys provider := by
  unfold maxKeys
  split_ifs <;> decide

theorem allowance_le_maxKeys (st : Step) : st.allowance ≤ maxKeys st.provider := by
  unfold Step.allowance
  split_ifs
  · exact one_le_maxKeys _
  · exact le_rfl

/-- A walk whose allowances sum to at most 100 has an attempt for each of them. -/
theorem allowances_le_attemptBudget {steps : List Step} (h : (steps.map Step.allowance).sum ≤ 100) :
    (steps.map Step.allowance).sum ≤ attemptBudget steps :=
  le_min h (List.sum_le_sum fun st _ => allowance_le_maxKeys st)

theorem wallBudget_lt_stale (env : ChatEnv) : env.wallBudget < staleRunning := by
  unfold ChatEnv.wallBudget
  split_ifs <;> decide

theorem wallBudget_nonneg (env : ChatEnv) : 0 ≤ env.wallBudget := by
  unfold ChatEnv.wallBudget
  split_ifs <;> decide

/-! ### The answer of a walk -/

/-- A pass that ends the walk with an answer ends it with the answer of its attempt. -/
theorem pass_success {idx : ℕ} {st : Step} {i : ℕ} {r : Reply π} {s : WalkState} {p : String}
    {res : AttemptResult π} (h : (pass env finishBy cap idx st i r s).2 = .ends (.success p res)) :
    res = r.result ∧ res.flow = .success := by
  unfold pass at h
  split_ifs at h
  · cases h
  · cases h
  · cases h
  · cases hkey : usableKey st r with
    | none =>
      rw [hkey] at h
      cases h
    | some key =>
      rw [hkey] at h
      dsimp only at h
      unfold withModel at h
      split_ifs at h
      obtain ⟨-, -, -, -, hends⟩ := afterAttempt_kept st r.result (countFailure r.result (startAttempt env idx st
        (s.polled r.stopTook).clock r (useModel env st i key r ((s.polled r.stopTook).wait r.pickTook).counted).1))
      rcases hends _ h with ⟨⟨p', hp⟩, hflow⟩ | ⟨hp, -⟩
      · obtain ⟨rfl, rfl⟩ := by simpa using hp
        exact ⟨rfl, hflow⟩
      · cases hp

theorem keyLoop_success {idx : ℕ} {st : Step} {p : String} {res : AttemptResult π} :
    ∀ {n i : ℕ} {s : WalkState},
    (keyLoop env finishBy cap replies idx st n i s).2 = some (.success p res) →
      ∃ k, res = (replies k).result ∧ res.flow = .success
  | 0, _, _, h => by cases h
  | n + 1, i, s, h => by
    unfold keyLoop at h
    rcases hpass : pass env finishBy cap idx st i (replies s.passes) s with ⟨s', e⟩
    rw [hpass] at h
    cases e with
    | ends e =>
      obtain rfl := Option.some.inj h
      exact ⟨s.passes, pass_success (by rw [hpass])⟩
    | breaks => cases h
    | continues => exact keyLoop_success h

/-- By induction on the steps: what ends the walk with an answer ended one of the inner loops. -/
theorem stepLoop_success {p : String} {res : AttemptResult π} :
    ∀ {steps : List Step} {idx : ℕ} {s : WalkState},
    (stepLoop env finishBy cap replies idx steps s).2 = .success p res →
      ∃ k, res = (replies k).result ∧ res.flow = .success
  | [], _, _, h => by cases h
  | st :: rest, idx, s, h => by
    unfold stepLoop at h
    rcases hloop : keyLoop env finishBy cap replies idx st st.allowance 0 (enterStep env idx st s) with ⟨s', o⟩
    rw [hloop] at h
    cases o with
    | some e =>
      have he : e = .success p res := h
      subst he
      have hkey : (keyLoop env finishBy cap replies idx st st.allowance 0 (enterStep env idx st s)).2
          = some (.success p res) := by rw [hloop]
      exact keyLoop_success hkey
    | none => exact stepLoop_success h

/-- **The outcome of `run_chat` is the answer of one of its attempts.** -/
theorem runChat_outcome {paid : List String} {steps : List Step} {target : Option AffinityTarget}
    {start : Time}
    {p : String} {res : AttemptResult π} (h : runChat env paid steps target replies start = .outcome p res) :
    ∃ k, res = (replies k).result ∧ res.flow = .success := by
  unfold runChat at h
  rcases hwalk : chatWalk env (withAffinity paid steps target env.paidOnly) replies start with ⟨s, e⟩
  rw [hwalk] at h
  cases e with
  | success p' res' =>
    obtain ⟨rfl, rfl⟩ := by simpa [WalkEnd.result] using h
    have hend : (stepLoop env (start + env.wallBudget) (attemptBudget (withAffinity paid steps target env.paidOnly))
        replies 0 (withAffinity paid steps target env.paidOnly) { clock := start }).2 = .success p' res' :=
      congrArg Prod.snd hwalk
    exact stepLoop_success hend
  | walked =>
    simp only [WalkEnd.result] at h
    split_ifs at h
  | _ => cases h

/-- **The chat walk is exhaustive and bounded.**  For every list of steps, with or without the affinity leg,
and every sequence of replies: the leg gets at most one attempt and every other step at most its provider's
allowance; when the allowances sum to at most 100 the cap does not end the walk, and every step is entered
unless an attempt succeeded, a budget or the client ended the walk, or the deadline did; every attempt starts
with its timeout inside the deadline; and when every call ends within its timeout and nothing else takes time,
the walk is over before the row it was claimed with, at the walk's start, can be taken for stale. -/
theorem chat_walk_bounded (env : ChatEnv) (paid : List String) (steps₀ : List Step)
    (target : Option AffinityTarget) (replies : ℕ → Reply π) (start : Time) :
    let steps := withAffinity paid steps₀ target env.paidOnly
    let s := (chatWalk env steps replies start).1
    let e := (chatWalk env steps replies start).2
    let finishBy := start + env.wallBudget
    (∀ j st, steps[j]? = some st →
      (s.log.filter fun a => a.step = j).length ≤ if st.isLeg then 1 else maxKeys st.provider) ∧
    ((steps.map Step.allowance).sum ≤ 100 → e ≠ .capReached ∧
      ((∃ k, ∃ st ∈ steps, e.Why env finishBy (replies k) st s) ∨ s.entered = List.range steps.length)) ∧
    (∀ a ∈ s.log, (∃ st, steps[a.step]? = some st ∧ a.timeout = env.callTimeout st.provider) ∧
      a.gate + a.timeout ≤ finishBy ∧ a.gate ≤ a.start ∧ ((∀ k, (replies k).Instant) → a.start = a.gate)) ∧
    ((∀ k, (replies k).Instant) → Timely s.log →
      s.clock < start + staleRunning ∧
      ∀ now ≤ s.clock, ∀ r : PlainJobRow, r.startedAt = some start → isStaleRunning now r = false) := by
  intro steps s e finishBy
  have hspec : StepLoopSpec env finishBy (attemptBudget steps) replies 0 steps { clock := start } s e :=
    stepLoop_spec steps 0 { clock := start }
  obtain ⟨l, hl, hadm, hcount⟩ := hspec.log
  obtain rfl : s.log = l := by simpa using hl
  have hbudget := wallBudget_lt_stale env
  refine ⟨fun j st hj => ?_, fun hsum => ?_, fun a ha => ?_, fun hi htimely => ?_⟩
  · simpa [Step.allowance] using hcount j st hj
  · have hcap : e ≠ .capReached := hspec.cap (by simpa using allowances_le_attemptBudget hsum)
    refine ⟨hcap, ?_⟩
    rcases hspec.entered with he | he | he
    · exact .inl he
    · exact absurd he hcap
    · exact .inr (by simpa [List.range_eq_range'] using he)
  · obtain ⟨j, st, hj, hadm⟩ := hadm a ha
    have hstep : a.step = j := by simpa using hadm.step
    exact ⟨⟨st, hstep ▸ hj, hadm.timeout⟩, hadm.gate, hadm.start, hadm.instant⟩
  · have hstart : start ≤ finishBy := by
      have := wallBudget_nonneg env
      simp only [finishBy]
      linarith
    have hclock : s.clock ≤ finishBy := hspec.clock hi htimely hstart
    refine ⟨?_, fun now hnow r hr => ?_⟩
    · simp only [finishBy] at hclock
      linarith
    · -- the stamp is younger than the stale window
      have hfresh : ¬ start < now - staleRunning := by
        simp only [finishBy] at hclock
        linarith
      simp [isStaleRunning, hr, hfresh]

/-- A key that fails first and a key that answers, two seconds each. -/
def secondKeyAnswers (k : ℕ) : Reply Unit :=
  { key := some ⟨k + 4, .free⟩
    result := if k = 0 then { flow := .nextKey, rejection := some "EmptyBody" } else { flow := .success }
    callTook := 2000000 }

def geminiEnv : ChatEnv :=
  { capability := "chat:fast"
    modelFor := fun _ => some "gemini/flash"
    rotationFor := fun _ => []
    transportTimeout := fun _ => none }

/-- The affinity leg fails once, the next step answers, and the walk is far from stale. -/
theorem chat_walk_bounded_leg :
    let steps := withAffinity [] [{ provider := "gemini" }] (some ⟨"gemini", "gemini/flash", 4⟩) false
    let s := (chatWalk geminiEnv steps secondKeyAnswers 0).1
    s.log.map (·.step) = [0, 1] ∧ s.clock = seconds 4 ∧ s.clock < staleRunning := by
  have hlog : Timely (chatWalk geminiEnv (withAffinity [] [{ provider := "gemini" }]
      (some ⟨"gemini", "gemini/flash", 4⟩) false) secondKeyAnswers 0).1.log := by
    unfold Timely
    decide
  have h := (chat_walk_bounded geminiEnv [] [{ provider := "gemini" }] (some ⟨"gemini", "gemini/flash", 4⟩)
    secondKeyAnswers 0).2.2.2 (fun _ => ⟨rfl, rfl, rfl, rfl⟩) hlog
  rw [zero_add] at h
  exact ⟨by decide, by decide, h.1⟩

end Broker.Services
