import Broker.Agent.Worker
import Broker.Lib.Checked
import Broker.Lib.Double

/-!
# Broker.Agent.QuotaWait — the delay of a run that hit its usage limit

`_wait_for_quota` computes when to try again: from the reset time the CLI reported, parsed and brought to
UTC, or from a power of two that grows with the number of waits.  Python's clock arithmetic stops at the
years 1 and 9999 and its floats at `2 ^ 1024`, and every step past them raises; `WaitFits` says what keeps
inside (`waitSafe_iff`).  What is returned is what the system of `Broker.Agent.Worker` moves to after the
CLI's stream (`afterStream_of_waitForQuota`).
-/

namespace Broker.Agent

open Broker.Lib Broker.Lib.PyFloat Broker.Db

/-! ### The calendar -/

/-- `datetime.min`. -/
def minTime : Time := -62135596800000000

/-- `datetime.max`. -/
def maxTime : Time := 253402300799999999

/-- The years 1 to 9999. -/
def InCalendar (t : Time) : Prop := minTime ≤ t ∧ t ≤ maxTime

instance (t : Time) : Decidable (InCalendar t) := inferInstanceAs (Decidable (_ ∧ _))

/-- A naive datetime. -/
abbrev Datetime := {t : Time // InCalendar t}

/-- What the clock arithmetic raises. -/
inductive DateError | valueError | overflowError | osError
  deriving DecidableEq

/-- A parsed timestamp: without a zone, or a local time at an offset from UTC. -/
inductive Stamp where
  | naive (t : Datetime)
  | aware (t : Datetime) (offset : Time)

/-- The parser of timestamps (`none` is its `ValueError`) and the machine's time zone. -/
structure DatetimeLib where
  fromisoformat : String → Option Stamp
  localToUtc : Datetime → Except DateError Datetime

/-- The result of an addition of a datetime and a duration. -/
def checked (t : Time) : Except DateError Datetime :=
  if h : InCalendar t then .ok ⟨t, h⟩ else .error .overflowError

theorem checked_ok {t : Time} {d : Datetime} : checked t = .ok d ↔ InCalendar t ∧ d.1 = t := by
  unfold checked
  constructor
  · intro h
    split_ifs at h with hin
    obtain rfl := Except.ok.inj h
    exact ⟨hin, rfl⟩
  · rintro ⟨hin, rfl⟩
    rw [dif_pos hin]

/-- `.astimezone(UTC).replace(tzinfo=None)`. -/
def astimezone (lib : DatetimeLib) : Stamp → Except DateError Datetime
  | .naive t => lib.localToUtc t
  | .aware t offset => checked (t.1 - offset)

/-- `timedelta.total_seconds()`. -/
def totalSeconds (d : Time) : ℚ := roundDouble (d / 1000000)

/-- `timedelta(seconds=x)` of a float that is not negative: the whole seconds exactly, the fraction to the
nearest microsecond. -/
def timedeltaSeconds (x : ℚ) : Time := x.floor * 1000000 + roundEven (roundDouble (1000000 * (x - x.floor)))

/-! ### `_wait_for_quota` -/

/-- The reported reset, where there is one and it parses. -/
def reportedReset (lib : DatetimeLib) (resetAt : Option String) : Option Stamp :=
  if resetAt.getD "" = "" then none else resetAt.bind lib.fromisoformat

/-- The reset in naive UTC; a `ValueError` on the way is suppressed. -/
def readReset (lib : DatetimeLib) (resetAt : Option String) : Except DateError (Option Datetime) :=
  match reportedReset lib resetAt with
  | none => .ok none
  | some stamp => Checked.catching (fun e => decide (e = .valueError)) none ((astimezone lib stamp).map some)

/-- `max(0.0, (reset - now).total_seconds()) + 5.0` as a duration. -/
def resetDelay (now reset : Time) : Time :=
  timedeltaSeconds (roundDouble (max 0 (totalSeconds (reset - now)) + 5))

/-- `min(quota_backoff_base_s * 2 ** quota_waits, quota_backoff_cap_s)` as a duration: from `2 ** 1024` on
the power is no float; below, a product past the largest float is an infinity, which the cap bounds. -/
def backoff (cfg : ExecConfig) (quotaWaits : ℕ) : Except DateError Time :=
  if 1024 ≤ quotaWaits then .error .overflowError
  else .ok (min (cfg.quotaBackoffBase * 2 ^ quotaWaits) cfg.quotaBackoffCap)

/-- The delay of the next attempt. -/
def quotaWait (cfg : ExecConfig) (now : Time) (reset : Option Datetime) (quotaWaits : ℕ) :
    Except DateError Time :=
  match reset with
  | some r => .ok (resetDelay now r.1)
  | none => backoff cfg quotaWaits

/-- How `_wait_for_quota` ends: the run waits, or it is finished with a terminal event. -/
inductive QuotaEnd where
  | parks (p : Park)
  | closes (ev : AnyEvent)
  deriving DecidableEq

/-- The end of `_wait_for_quota`, the next attempt known. -/
def quotaEnd (env : Env) (job : AgentJobRow) (msg : String) (resetAt : Option String) (reported : Bool)
    (notBefore : Time) : QuotaEnd :=
  if deadlineOf job ≤ notBefore then
    let at_ := if reported then "reset " ++ resetAt.getD "" else
      "next retry " ++ env.isoformat notBefore ++ "Z"
    .closes (.runFailed "quota_exhausted" (msg ++ " (" ++ at_ ++ " is past the job deadline)") resetAt)
  else .parks ⟨notBefore, reported, String.ofList (msg.toList.take 300)⟩

/-- `_wait_for_quota` up to its writes. -/
def waitForQuota (env : Env) (lib : DatetimeLib) (cfg : ExecConfig) (now : Datetime) (run : AgentRunRow)
    (job : AgentJobRow) (msg : String) (resetAt : Option String) : Except DateError QuotaEnd := do
  let reset ← readReset lib resetAt
  let delay ← quotaWait cfg now.1 reset run.quotaWaits
  let notBefore ← checked (now.1 + delay)
  let _deadline ← checked (deadlineOf job)
  return quotaEnd env job msg resetAt reset.isSome notBefore.1

/-! ### What keeps inside the calendar and the floats -/

/-- The stamp has a UTC time in the calendar, or its zone refuses it by a `ValueError`. -/
def StampFits (lib : DatetimeLib) : Stamp → Prop
  | .naive t => lib.localToUtc t ≠ .error .overflowError ∧ lib.localToUtc t ≠ .error .osError
  | .aware t offset => InCalendar (t.1 - offset)

/-- The reset time the delay is taken from. -/
def usableReset (lib : DatetimeLib) (resetAt : Option String) : Option Datetime :=
  (reportedReset lib resetAt).bind fun stamp => (astimezone lib stamp).toOption

/-- The delay as it is meant: no power is too large for it. -/
def meantDelay (cfg : ExecConfig) (now : Time) (reset : Option Datetime) (quotaWaits : ℕ) : Time :=
  match reset with
  | some r => resetDelay now r.1
  | none => min (cfg.quotaBackoffBase * 2 ^ quotaWaits) cfg.quotaBackoffCap

/-- The reported time has a UTC time, a run without one has waited fewer than 1024 times, and both the next
attempt and the deadline fall before the end of the year 9999. -/
structure WaitFits (lib : DatetimeLib) (cfg : ExecConfig) (now : Datetime) (run : AgentRunRow)
    (job : AgentJobRow) (resetAt : Option String) : Prop where
  stamp : ∀ stamp, reportedReset lib resetAt = some stamp → StampFits lib stamp
  waits : usableReset lib resetAt = none → run.quotaWaits < 1024
  notBefore : InCalendar (now.1 + meantDelay cfg now.1 (usableReset lib resetAt) run.quotaWaits)
  deadline : InCalendar (deadlineOf job)

/-- The wait is bounded by the deadline: the run is parked from now on and before it, or closed. -/
def QuotaEnd.Within (now deadline : Time) (resetAt : Option String) : QuotaEnd → Prop
  | .parks p => now ≤ p.notBefore ∧ p.notBefore < deadline
  | .closes ev => ∃ msg, ev = .runFailed "quota_exhausted" msg resetAt

/-- `_wait_for_quota` returns, and its wait is bounded by the deadline. -/
def WaitSafe (env : Env) (lib : DatetimeLib) (cfg : ExecConfig) (now : Datetime) (run : AgentRunRow)
    (job : AgentJobRow) (msg : String) (resetAt : Option String) : Prop :=
  ∃ e, waitForQuota env lib cfg now run job msg resetAt = .ok e ∧ e.Within now.1 (deadlineOf job) resetAt

section Lemmas

variable {env : Env} {lib : DatetimeLib} {cfg : ExecConfig} {now : Datetime} {run : AgentRunRow}
  {job : AgentJobRow} {msg : String} {resetAt : Option String}

theorem timedeltaSeconds_ge {x : ℚ} {n : ℤ} (h : (n : ℚ) ≤ x) : seconds n ≤ timedeltaSeconds x := by
  have hfloor : n ≤ x.floor := Rat.le_floor_iff.mpr h
  have hfrac : 0 ≤ x - x.floor := sub_nonneg.mpr (Rat.floor_le x)
  have hround : 0 ≤ roundEven (roundDouble (1000000 * (x - x.floor))) := by
    refine le_roundEven ?_
    exact_mod_cast roundDouble_nonneg (mul_nonneg (by norm_num) hfrac)
  unfold timedeltaSeconds seconds
  linarith

/-- A retry after a reset is at least the 5 s away. -/
theorem resetDelay_ge (now reset : Time) : seconds 5 ≤ resetDelay now reset := by
  refine timedeltaSeconds_ge (le_roundDouble ?_ (by norm_num) ?_)
  · have hmax : (0 : ℚ) ≤ max 0 (totalSeconds (reset - now)) := le_max_left _ _
    linarith
  · have hmax : (0 : ℚ) ≤ max 0 (totalSeconds (reset - now)) := le_max_left _ _
    push_cast
    linarith

theorem meantDelay_nonneg (hbase : 0 ≤ cfg.quotaBackoffBase) (hcap : 0 ≤ cfg.quotaBackoffCap)
    (now : Time) (reset : Option Datetime) (n : ℕ) : 0 ≤ meantDelay cfg now reset n := by
  cases reset with
  | some r =>
    have hge : seconds 5 ≤ resetDelay now r.1 := resetDelay_ge now r.1
    exact le_trans (by decide) hge
  | none =>
    have hpow : 0 ≤ cfg.quotaBackoffBase * 2 ^ n := mul_nonneg hbase (pow_nonneg (by norm_num) n)
    exact le_min hpow hcap

theorem readReset_ok_iff {reset : Option Datetime} :
    readReset lib resetAt = .ok reset ↔
      (∀ stamp, reportedReset lib resetAt = some stamp → StampFits lib stamp) ∧
        reset = usableReset lib resetAt := by
  unfold readReset usableReset
  cases reportedReset lib resetAt with
  | none => simp [eq_comm]
  | some stamp =>
    cases stamp with
    | naive t =>
      cases hlocal : lib.localToUtc t with
      | ok u => simp [astimezone, StampFits, hlocal, Checked.catching, Except.map, Except.toOption, eq_comm]
      | error e =>
        cases e <;> simp [astimezone, StampFits, hlocal, Checked.catching, Except.map, Except.toOption, eq_comm]
    | aware t offset =>
      by_cases hin : InCalendar (t.1 - offset)
      · simp [astimezone, StampFits, checked, hin, Checked.catching, Except.map, Except.toOption, eq_comm]
      · simp [astimezone, StampFits, checked, hin, Checked.catching, Except.map]

theorem quotaWait_ok_iff {t : Time} {reset : Option Datetime} {n : ℕ} {d : Time} :
    quotaWait cfg t reset n = .ok d ↔ (reset = none → n < 1024) ∧ meantDelay cfg t reset n = d := by
  cases reset with
  | some r => simp [quotaWait, meantDelay]
  | none =>
    unfold quotaWait backoff meantDelay
    dsimp only
    split_ifs with hn
    · simp [hn]
    · simp [not_le.mp hn]

/-- When `_wait_for_quota` returns, and what. -/
theorem waitForQuota_ok_iff {e : QuotaEnd} :
    waitForQuota env lib cfg now run job msg resetAt = .ok e ↔
      WaitFits lib cfg now run job resetAt ∧
        quotaEnd env job msg resetAt (usableReset lib resetAt).isSome
          (now.1 + meantDelay cfg now.1 (usableReset lib resetAt) run.quotaWaits) = e := by
  unfold waitForQuota
  rw [Checked.bind_ok]
  constructor
  · rintro ⟨reset, hread, h⟩
    obtain ⟨hstamp, rfl⟩ := readReset_ok_iff.mp hread
    obtain ⟨delay, hwait, h⟩ := Checked.bind_ok.mp h
    obtain ⟨hwaits, rfl⟩ := quotaWait_ok_iff.mp hwait
    obtain ⟨notBefore, hnext, h⟩ := Checked.bind_ok.mp h
    obtain ⟨hnext, heq⟩ := checked_ok.mp hnext
    obtain ⟨deadline, hdead, h⟩ := Checked.bind_ok.mp h
    refine ⟨⟨hstamp, hwaits, hnext, (checked_ok.mp hdead).1⟩, ?_⟩
    rw [← heq]
    exact Except.ok.inj h
  · rintro ⟨hfit, rfl⟩
    refine ⟨_, readReset_ok_iff.mpr ⟨hfit.stamp, rfl⟩, ?_⟩
    refine Checked.bind_ok.mpr ⟨_, quotaWait_ok_iff.mpr ⟨hfit.waits, rfl⟩, ?_⟩
    refine Checked.bind_ok.mpr ⟨⟨_, hfit.notBefore⟩, checked_ok.mpr ⟨hfit.notBefore, rfl⟩, ?_⟩
    exact Checked.bind_ok.mpr ⟨⟨_, hfit.deadline⟩, checked_ok.mpr ⟨hfit.deadline, rfl⟩, rfl⟩

theorem quotaEnd_within {reported : Bool} {now notBefore : Time} (h : now ≤ notBefore) :
    (quotaEnd env job msg resetAt reported notBefore).Within now (deadlineOf job) resetAt := by
  unfold quotaEnd
  by_cases hlate : deadlineOf job ≤ notBefore
  · rw [if_pos hlate]
    exact ⟨_, rfl⟩
  · rw [if_neg hlate]
    exact ⟨h, not_le.mp hlate⟩

/-- **When a quota wait is safe**: exactly when its arithmetic stays inside the calendar and the floats. -/
theorem waitSafe_iff (hbase : 0 ≤ cfg.quotaBackoffBase) (hcap : 0 ≤ cfg.quotaBackoffCap) :
    WaitSafe env lib cfg now run job msg resetAt ↔ WaitFits lib cfg now run job resetAt := by
  constructor
  · rintro ⟨e, he, -⟩
    exact (waitForQuota_ok_iff.mp he).1
  · intro hfit
    refine ⟨_, waitForQuota_ok_iff.mpr ⟨hfit, rfl⟩, quotaEnd_within ?_⟩
    have hdelay := meantDelay_nonneg hbase hcap now.1 (usableReset lib resetAt) run.quotaWaits
    exact le_add_of_nonneg_right hdelay

/-! ### The wait of the system -/

/-- The control state the executor is in after `_wait_for_quota`. -/
def QuotaEnd.ctl (x : Ctx) : QuotaEnd → Ctl
  | .parks p => .waitUsage x p
  | .closes ev => .finishing ev x.leased

/-- **The system waits as `_wait_for_quota` does**: what it returns is what the executor moves to on some
reset time, the one that is 5 s before the computed attempt. -/
theorem afterStream_of_waitForQuota {x : Ctx} {e : QuotaEnd}
    (h : waitForQuota env lib cfg now x.run x.job msg resetAt = .ok e) (files : List FileRef) :
    ∃ reset, afterStream env cfg x (.runFailed "quota_exhausted" msg resetAt) files reset now.1 = e.ctl x := by
  obtain ⟨-, rfl⟩ := waitForQuota_ok_iff.mp h
  have ends : ∀ reset : Option Time, ∀ next :
    Time, now.1 + quotaDelay cfg now.1 reset x.run.quotaWaits = next →
      afterStream env cfg x (.runFailed "quota_exhausted" msg resetAt) files reset now.1 =
        (quotaEnd env x.job msg resetAt reset.isSome next).ctl x := by
    rintro reset next rfl
    unfold quotaEnd
    rw [apply_ite (QuotaEnd.ctl x)]
    rfl
  cases hreset : usableReset lib resetAt with
  | none => exact ⟨none, ends none _ rfl⟩
  | some r =>
    refine ⟨some (now.1 + resetDelay now.1 r.1 - seconds 5), ends (some _) _ ?_⟩
    have hge : seconds 5 ≤ resetDelay now.1 r.1 := resetDelay_ge now.1 r.1
    show now.1 + (max 0 (now.1 + resetDelay now.1 r.1 - seconds 5 - now.1) + seconds 5) =
      now.1 + resetDelay now.1 r.1
    rw [max_eq_right (by linarith)]
    ring

end Lemmas

end Broker.Agent
