import Broker.Db.Models
import Broker.Lib.Trans
import Mathlib.Algebra.Order.Ring.Int
import Mathlib.Logic.Function.Basic

/-!
# Broker.Routing.Cooldown — how long a rate-limited key is parked

A rate-limited call parks its key, or one model of its key, until the moment `cooldown_until` resolves from
the provider's error.  Three statements store such a moment: `mark_cooldown` overwrites the one of the key,
the upsert of `mark_model_cooldown` and the probe's `_extend_cooldown_values` keep the later of the two.

`CooldownDb` runs the penalties of any attempts, each with the moment it computed, and the probes of the
monitor.
-/

namespace Broker.Routing

open Broker.Lib Broker.Db

/-! ### `cooldown_until` -/

/-- What `cooldown_until` reads in the error: the provider's retry hint and the span of the quota it names. -/
structure QuotaSigns where
  retryAfter : Option Time := none
  monthly : Bool := false
  daily : Bool := false
  hourly : Bool := false

/-- What the moment depends on beside the error: the clock and `next_utc_month_start`, the random offset past
a boundary, and for the adaptive wait the provider's base, the recent strikes of the key, whether the call
timed out and the random stretch. -/
structure CooldownClock where
  now : Time
  nextMonth : Time
  boundaryJitter : Time := 0
  base : ℕ
  recent : ℕ := 0
  timedOut : Bool := false
  stretch : Time := 0

/-- `MAX_COOLDOWN_S`. -/
def maxCooldown : ℕ := 30 * 60

/-- `cooldown_seconds`: the provider's base, doubled by every recent strike. -/
def cooldownSeconds (base recent : ℕ) (timeoutBump : Bool) : ℕ :=
  min (base * 2 ^ (recent + timeoutBump.toNat)) maxCooldown

/-- `adaptive_cooldown`. -/
def adaptiveCooldown (c : CooldownClock) : Time :=
  c.now + seconds (cooldownSeconds c.base c.recent c.timedOut) + c.stretch

/-- The first multiple of `unit` after `now`: `next_hour_boundary` and `next_utc_midnight`. -/
def nextBoundary (unit now : Time) : Time := (now / unit + 1) * unit

def nextHourBoundary : Time → Time := nextBoundary (seconds 3600)

def nextUtcMidnight : Time → Time := nextBoundary (seconds 86400)

/-- `cooldown_until`: a hint is never waited for less than the adaptive backoff. -/
def cooldownUntil (q : QuotaSigns) (c : CooldownClock) : Time :=
  match q.retryAfter with
  | some retry => max (c.now + retry) (adaptiveCooldown c)
  | none =>
    if q.monthly then c.nextMonth + c.boundaryJitter
    else if q.daily then nextUtcMidnight c.now + c.boundaryJitter
    else if q.hourly then nextHourBoundary c.now + c.boundaryJitter
    else adaptiveCooldown c

/-! ### The writers -/

/-- The columns of `api_keys` that say how healthy a key is. -/
structure KeyHealth where
  cooldownUntil : Option Time := none
  errorCount : ℕ := 0
  lastError : Option String := none
  isAlive : Bool := true
  lastAliveCheckAt : Option Time := none

/-- A row of `api_key_model_cooldowns`. -/
structure ModelCooldown where
  cooldownUntil : Time
  reason : Option String

/-- The two tables, by their primary keys. -/
structure CooldownDb where
  keys : ℕ → Option KeyHealth
  models : ℕ × String → Option ModelCooldown := fun _ => none

/-- `(reason or "")[:200] or None`. -/
def clipReason (reason : String) : Option String :=
  if reason = "" then none else some (String.ofList (reason.toList.take 200))

/-- `UPDATE api_keys … WHERE id = :id`. -/
def CooldownDb.updateKey (db : CooldownDb) (id : ℕ) (f : KeyHealth → KeyHealth) : CooldownDb :=
  { db with keys := Function.update db.keys id ((db.keys id).map f) }

/-- `mark_cooldown`. -/
def markCooldown (id : ℕ) (until_ : Time) (reason : String) (db : CooldownDb) : CooldownDb :=
  db.updateKey id fun k => { k with
    cooldownUntil := some until_
    errorCount := k.errorCount + 1
    lastError := clipReason reason }

/-- `model[:120]`. -/
def clipModel (model : String) : String := String.ofList (model.toList.take 120)

/-- `_UPSERT`. -/
def upsertCooldown (until_ : Time) (reason : Option String) : Option ModelCooldown → ModelCooldown
  | none => ⟨until_, reason⟩
  | some old => ⟨if until_ < old.cooldownUntil then old.cooldownUntil else until_, reason⟩

/-- `mark_model_cooldown`; the foreign key refuses a pair whose key is gone. -/
def markModelCooldown (id : ℕ) (model : String) (until_ : Time) (reason : String) (db : CooldownDb) :
    Option CooldownDb :=
  let pair := (id, clipModel model)
  if (db.keys id).isNone then none
  else some { db with
    models := Function.update db.models pair (some (upsertCooldown until_ (clipReason reason) (db.models pair))) }

/-- `mark_dead`. -/
def markDead (id : ℕ) (reason : String) (db : CooldownDb) : CooldownDb :=
  db.updateKey id fun k => { k with
    isAlive := false, errorCount := k.errorCount + 1, lastError := clipReason reason }

/-- `_extend_cooldown_values`. -/
def extendCooldownValues (cdUntil : Time) (hint : String) (k : KeyHealth) : KeyHealth :=
  let keepLong := k.cooldownUntil.any fun t => decide (cdUntil < t)
  { k with
    cooldownUntil := if keepLong then k.cooldownUntil else some cdUntil
    lastError := if keepLong then k.lastError else if hint = "" then none else some hint }

/-- `_cooldown_end`. -/
def cooldownEnd (hint : String) (now nextMonth : Time) : Time :=
  if hint = "monthly quota" then nextMonth else now + seconds 300

inductive Verdict | skip | alive | cooldown | dead
  deriving DecidableEq

/-- What `tick` writes for a probe's verdict. -/
def probeValues (verdict : Verdict) (hint : String) (now nextMonth : Time) (k : KeyHealth) : KeyHealth :=
  match verdict with
  | .skip => k
  | .alive => { k with isAlive := true, errorCount := 0, lastError := none, lastAliveCheckAt := some now }
  | .cooldown =>
    { extendCooldownValues (cooldownEnd hint now nextMonth) hint k with
      isAlive := true, lastAliveCheckAt := some now }
  | .dead =>
    { k with
      isAlive := false
      errorCount := k.errorCount + 1
      lastAliveCheckAt := some now
      lastError := if hint = "" then none else some hint }

/-- A rate-limited attempt of one key: the model of the call, whether the error names a quota metered for that
model, and the end of the cooldown, five minutes off when resolving it failed. -/
structure RateLimit where
  apiKeyId : ℕ
  model : Option String
  modelScoped : Bool
  reason : String
  now : Time
  resolved : Option (QuotaSigns × CooldownClock)

def RateLimit.until (p : RateLimit) : Time :=
  match p.resolved with
  | some (q, c) => cooldownUntil q c
  | none => p.now + seconds 300

/-- The model a penalty is limited to: `bool(model) and is_model_scoped_quota(…)`. -/
def RateLimit.scope (p : RateLimit) : Option String :=
  if p.modelScoped then p.model.filter (· ≠ "") else none

inductive CooldownAct where
  | penalize (p : RateLimit)
  | died (id : ℕ) (reason : String)
  | probe (id : ℕ) (verdict : Verdict) (hint : String) (now nextMonth : Time)

/-- One statement of an attempt or of the monitor; no call succeeds. -/
def CooldownDb.step (db : CooldownDb) : CooldownAct → Option CooldownDb
  | .penalize p =>
    match p.scope with
    | some model => markModelCooldown p.apiKeyId model p.until p.reason db
    | none => some (markCooldown p.apiKeyId p.until p.reason db)
  | .died id reason => some (markDead id reason db)
  | .probe id verdict hint now nextMonth => some (db.updateKey id (probeValues verdict hint now nextMonth))

/-! ### Parks that are not cut short -/

/-- The park of a key. -/
def CooldownDb.keyUntil (db : CooldownDb) (id : ℕ) : Option Time := (db.keys id).bind (·.cooldownUntil)

/-- The park of a model of a key. -/
def CooldownDb.modelUntil (db : CooldownDb) (pair : ℕ × String) : Option Time :=
  (db.models pair).map (·.cooldownUntil)

/-- A park is not ended earlier. -/
def NotEarlier (a b : Option Time) : Prop := ∀ t ∈ a, ∃ t' ∈ b, t ≤ t'

theorem NotEarlier.refl (a : Option Time) : NotEarlier a a := fun t ht => ⟨t, ht, le_rfl⟩

theorem NotEarlier.trans {a b c : Option Time} (h : NotEarlier a b) (h' : NotEarlier b c) :
    NotEarlier a c := by
  intro t ht
  obtain ⟨t₁, ht₁, hle⟩ := h t ht
  obtain ⟨t₂, ht₂, hle'⟩ := h' t₁ ht₁
  exact ⟨t₂, ht₂, hle.trans hle'⟩

/-- No park of a key or of a model ends earlier than it did. -/
structure CooldownDb.Extends (db db' : CooldownDb) : Prop where
  key : ∀ id, NotEarlier (db.keyUntil id) (db'.keyUntil id)
  model : ∀ pair, NotEarlier (db.modelUntil pair) (db'.modelUntil pair)

/-- A penalty of the whole key does not end before the park the key has. -/
def CooldownDb.NotShorter (db : CooldownDb) : CooldownAct → Prop
  | .penalize p => p.scope = none → ∀ t ∈ db.keyUntil p.apiKeyId, t ≤ p.until
  | _ => True

namespace CooldownDb

theorem Extends.refl (db : CooldownDb) : db.Extends db := ⟨fun _ => .refl _, fun _ => .refl _⟩

theorem Extends.trans {db db' db'' : CooldownDb} (h : db.Extends db') (h' : db'.Extends db'') :
    db.Extends db'' :=
  ⟨fun id => (h.key id).trans (h'.key id), fun pair => (h.model pair).trans (h'.model pair)⟩

/-- An update of one key extends the parks exactly when it extends the one of that key. -/
theorem extends_updateKey_iff (db : CooldownDb) (id : ℕ) (f : KeyHealth → KeyHealth) :
    db.Extends (db.updateKey id f) ↔ ∀ k ∈ db.keys id, NotEarlier k.cooldownUntil (f k).cooldownUntil := by
  have hself : (db.updateKey id f).keyUntil id = (db.keys id).bind fun k => (f k).cooldownUntil := by
    simp only [keyUntil, updateKey, Function.update_self]
    cases db.keys id <;> rfl
  constructor
  · intro h k hk
    have hkey := h.key id
    rw [hself, keyUntil, Option.mem_def.mp hk] at hkey
    exact hkey
  · intro h
    refine ⟨fun id' => ?_, fun pair => .refl _⟩
    by_cases hid : id' = id
    · subst hid
      rw [hself, keyUntil]
      cases hk : db.keys id' with
      | none => exact .refl _
      | some k => exact h k hk
    · have hother : (db.updateKey id f).keyUntil id' = db.keyUntil id' := by
        simp only [keyUntil, updateKey, Function.update_of_ne hid]
      rw [hother]
      exact .refl _

theorem notEarlier_extendCooldownValues (cdUntil : Time) (hint : String) (k : KeyHealth) :
    NotEarlier k.cooldownUntil (extendCooldownValues cdUntil hint k).cooldownUntil := by
  intro t ht
  have hk := Option.mem_def.mp ht
  by_cases hlt : cdUntil < t
  · exact ⟨t, by simp [extendCooldownValues, hk, hlt], le_rfl⟩
  · exact ⟨cdUntil, by simp [extendCooldownValues, hk, hlt], not_lt.mp hlt⟩

theorem notEarlier_upsertCooldown (until_ : Time) (reason : Option String) (old : Option ModelCooldown) :
    NotEarlier (old.map (·.cooldownUntil)) (some (upsertCooldown until_ reason old).cooldownUntil) := by
  intro t ht
  obtain ⟨m, rfl, rfl⟩ := Option.map_eq_some_iff.mp (Option.mem_def.mp ht)
  refine ⟨_, rfl, ?_⟩
  simp only [upsertCooldown]
  split_ifs with hlt
  · exact le_rfl
  · exact not_lt.mp hlt

/-- **One statement.**  Every writer but `mark_cooldown` extends; `mark_cooldown` does so exactly when the key
is not parked for longer. -/
theorem extends_step_iff {db db' : CooldownDb} {a : CooldownAct} (h : db.step a = some db') :
    db.Extends db' ↔ db.NotShorter a := by
  cases a with
  | died id reason =>
    obtain rfl := Option.some.inj h
    refine iff_of_true ((extends_updateKey_iff db id _).mpr fun k _ => ?_) trivial
    exact .refl _
  | probe id verdict hint now nextMonth =>
    obtain rfl := Option.some.inj h
    refine iff_of_true ((extends_updateKey_iff db id _).mpr fun k _ => ?_) trivial
    cases verdict with
    | cooldown => exact notEarlier_extendCooldownValues _ hint k
    | skip | alive | dead => exact .refl _
  | penalize p =>
    simp only [step] at h
    cases hscope : p.scope with
    | some model =>
      rw [hscope] at h
      simp only [markModelCooldown] at h
      split_ifs at h
      obtain rfl := Option.some.inj h
      refine iff_of_true ⟨fun _ => .refl _, fun pair => ?_⟩ (fun hnone => nomatch hscope.symm.trans hnone)
      by_cases hpair : pair = (p.apiKeyId, clipModel model)
      · subst hpair
        simp only [modelUntil, Function.update_self, Option.map_some]
        exact notEarlier_upsertCooldown _ _ _
      · simp only [modelUntil, Function.update_of_ne hpair]
        exact .refl _
    | none =>
      rw [hscope] at h
      obtain rfl := Option.some.inj h
      refine (extends_updateKey_iff db p.apiKeyId _).trans ⟨fun hext _ t ht => ?_, fun hle k hk t ht => ?_⟩
      · obtain ⟨k, hk, hkt⟩ := Option.bind_eq_some_iff.mp (Option.mem_def.mp ht)
        obtain ⟨t', ht', hle⟩ := hext k hk t hkt
        exact hle.trans (Option.some.inj ht').ge
      · exact ⟨p.until, rfl, hle hscope t (Option.bind_eq_some_iff.mpr ⟨k, hk, ht⟩)⟩

end CooldownDb

/-- **Cooldowns only extend, exactly when no whole-key penalty is shorter than the park it finds.**
Between any two moments of any run of penalties and probes no park ends earlier than it did, if and only
if every `mark_cooldown` of the run carries a moment no earlier than the one its key is parked until. -/
theorem cooldowns_extend_iff {as : List CooldownAct} {db db' : CooldownDb}
    (h : Steps CooldownDb.step Free db as db') :
    (∀ pre mid suf t u, pre ++ mid ++ suf = as → Steps CooldownDb.step Free db pre t →
      Steps CooldownDb.step Free t mid u → t.Extends u) ↔
    ∀ pre a suf t, pre ++ a :: suf = as → Steps CooldownDb.step Free db pre t → t.NotShorter a :=
  h.forall_between_iff (R := CooldownDb.Extends) .refl (fun _ _ _ => .trans)
    fun _ _ _ _ hs => CooldownDb.extends_step_iff hs

namespace RateLimit

/-- A call whose provider names the monthly quota, with the month ending in twenty days. -/
def monthly : RateLimit where
  apiKeyId := 1
  model := some "mistral-large"
  modelScoped := false
  reason := "monthly quota exceeded"
  now := 0
  resolved := some ({ monthly := true }, { now := 0, nextMonth := seconds 1728000, base := 10 })

/-- A call of the same key, in flight since before, that is asked to retry in 24 seconds. -/
def retrySoon : RateLimit where
  apiKeyId := 1
  model := some "mistral-large"
  modelScoped := false
  reason := "rate limited, retry after 24s"
  now := seconds 1
  resolved := some ({ retryAfter := some (seconds 24) }, { now := seconds 1, nextMonth := seconds 1728000, base := 10 })

end RateLimit

/-- The park until next month is cut to 24 seconds by the answer of a call that was already in flight. -/
theorem park_cut_by_call_in_flight :
    ∃ db db', Steps CooldownDb.step Free { keys := fun _ => some {} } [.penalize .monthly] db ∧
      Steps CooldownDb.step Free db [.penalize .retrySoon] db' ∧
      db.keyUntil 1 = some (seconds 1728000) ∧ db'.keyUntil 1 = some (seconds 25) ∧ ¬ db.Extends db' := by
  refine ⟨_, _, .single trivial rfl, .single trivial rfl, by decide, by decide, fun hext => ?_⟩
  obtain ⟨t, ht, hle⟩ := hext.key 1 (seconds 1728000) (by decide)
  obtain rfl : seconds 25 = t := Option.some.inj ht
  revert hle
  decide

/-- A shorter penalty after a longer one breaks the run that it is part of. -/
theorem cooldowns_extend_iff_of_shorter_penalty :
    ∃ db', Steps CooldownDb.step Free { keys := fun _ => some {} } [.penalize .monthly, .penalize .retrySoon] db' ∧
      ∃ pre mid suf t u, pre ++ mid ++ suf = [.penalize .monthly, .penalize .retrySoon] ∧
        Steps CooldownDb.step Free { keys := fun _ => some {} } pre t ∧ Steps CooldownDb.step Free t mid u ∧
        ¬ t.Extends u := by
  have h1 : Steps CooldownDb.step Free { keys := fun _ => some {} } [.penalize .monthly] _ :=
    .single trivial rfl
  have h2 := h1.snoc (a := .penalize .retrySoon) trivial rfl
  refine ⟨_, h2, ?_⟩
  by_contra hall
  push Not at hall
  have hlater := (cooldowns_extend_iff h2).mp hall [.penalize .monthly] (.penalize .retrySoon) [] _ rfl h1
  have hle := hlater rfl (seconds 1728000) (by decide)
  revert hle
  decide

end Broker.Routing
