import Broker.Db.Models
import Mathlib.Algebra.Order.Field.Rat
import Mathlib.Data.List.Induction
import Mathlib.Tactic.Linarith

/-!
# Broker.Services.TickFailures — the backoff of the dispatcher loop

`_dispatch` counts the ticks that failed in a row and asks `_TickFailures.failed` how long to wait.  The
count is an exponent of a float power, and the call stands in the handler that keeps the loop alive: what
it raises ends the dispatcher.  A double holds `2.0 ** k` exactly for every `k` up to 1023 and Python raises
from 1024 on, before the cap is applied.
-/

namespace Broker.Services

open Broker.Db

/-- `OverflowError`, of a float power past the double range. -/
inductive TickError | overflow
  deriving DecidableEq, Repr

/-- `_TICK_BACKOFF_MAX_S`. -/
def tickBackoffMax : ℚ := 30

/-- `_TICK_TRACEBACK_EVERY_S`. -/
def tickTracebackEvery : Time := seconds 60

/-- `2.0 ** k`. -/
def floatPowTwo (k : ℕ) : Except TickError ℚ := if k < 1024 then .ok (2 ^ k) else .error .overflow

/-- `_TickFailures`; no traceback yet is `-inf`. -/
structure TickFailures where
  consecutive : ℕ := 0
  lastTraceback : Option Time := none

namespace TickFailures

def ok (t : TickFailures) : TickFailures := { t with consecutive := 0 }

/-- `failed` at `now`: the tracker, and the wait with whether to log the full traceback. -/
def failed (now : Time) (t : TickFailures) : TickFailures × Except TickError (ℚ × Bool) :=
  let consecutive := t.consecutive + 1
  let full := t.lastTraceback.all fun last => decide (tickTracebackEvery ≤ now - last)
  ({ consecutive := consecutive, lastTraceback := if full then some now else t.lastTraceback },
    (floatPowTwo (consecutive - 1)).map fun p => (min p tickBackoffMax, full))

end TickFailures

/-- How the body of a tick ended: normally, or with an exception at `now`. -/
inductive TickEnd where
  | done
  | raised (now : Time)

def TickEnd.isRaised : TickEnd → Bool
  | .done => false
  | .raised _ => true

/-- The ticks of `_dispatch`: the tracker after them and the extra waits of the failed ones, or the error
that ended the loop. -/
def dispatch : TickFailures → List TickEnd → Except TickError (TickFailures × List ℚ)
  | t, [] => .ok (t, [])
  | t, .done :: rest => dispatch t.ok rest
  | t, .raised now :: rest =>
    match t.failed now with
    | (_, .error e) => .error e
    | (t', .ok (wait, _)) => (dispatch t' rest).map fun r => (r.1, wait :: r.2)

/-- The loop outlives the ticks, and every failed one waits longer than nothing and at most the cap. -/
def Outlives (t : TickFailures) (ticks : List TickEnd) : Prop :=
  ∃ t' waits, dispatch t ticks = .ok (t', waits) ∧ ∀ w ∈ waits, 0 < w ∧ w ≤ tickBackoffMax

/-! ### One failed tick -/

/-- The wait after `k` failures before this one. -/
theorem wait_bounds (k : ℕ) :
    0 < min ((2 : ℚ) ^ k) tickBackoffMax ∧ min ((2 : ℚ) ^ k) tickBackoffMax ≤ tickBackoffMax := by
  have hpos : (0 : ℚ) < 2 ^ k := pow_pos (by norm_num) k
  exact ⟨lt_min hpos (by norm_num [tickBackoffMax]), min_le_right _ _⟩

theorem failed_of_lt {t : TickFailures} (h : t.consecutive < 1024) (now : Time) :
    ∃ full, (t.failed now).2 = .ok (min (2 ^ t.consecutive) tickBackoffMax, full) := by
  refine ⟨t.lastTraceback.all fun last => decide (tickTracebackEvery ≤ now - last), ?_⟩
  have hpow : floatPowTwo (t.consecutive + 1 - 1) = .ok (2 ^ t.consecutive) := if_pos h
  simp only [TickFailures.failed, hpow]
  rfl

theorem failed_of_le {t : TickFailures} (h : 1024 ≤ t.consecutive) (now : Time) :
    (t.failed now).2 = .error .overflow := by
  have hpow : floatPowTwo (t.consecutive + 1 - 1) = .error .overflow := if_neg (by omega)
  simp only [TickFailures.failed, hpow]
  rfl

/-- **The call returns a wait within the cap exactly for the first 1024 failures in a row.** -/
theorem failed_returns_iff (t : TickFailures) (now : Time) :
    (∃ wait full, (t.failed now).2 = .ok (wait, full) ∧ 0 < wait ∧ wait ≤ tickBackoffMax) ↔
      t.consecutive + 1 ≤ 1024 := by
  constructor
  · rintro ⟨wait, full, hret, -⟩
    by_contra hlt
    rw [failed_of_le (by omega) now] at hret
    cases hret
  · intro hle
    obtain ⟨full, hret⟩ := failed_of_lt (t := t) (by omega) now
    exact ⟨_, full, hret, wait_bounds t.consecutive⟩

/-! ### Runs of the loop -/

/-- The failures in a row after the ticks, when there were `n` before them. -/
def failuresAfter : ℕ → List TickEnd → ℕ
  | n, [] => n
  | _, .done :: rest => failuresAfter 0 rest
  | n, .raised _ :: rest => failuresAfter (n + 1) rest

theorem outlives_done {t : TickFailures} {rest : List TickEnd} :
    Outlives t (.done :: rest) ↔ Outlives t.ok rest := Iff.rfl

theorem outlives_raised {t : TickFailures} {now : Time} {rest : List TickEnd} :
    Outlives t (.raised now :: rest) ↔ t.consecutive + 1 ≤ 1024 ∧ Outlives (t.failed now).1 rest := by
  by_cases hlt : t.consecutive < 1024
  · obtain ⟨full, hret⟩ := failed_of_lt hlt now
    have hpair : t.failed now = ((t.failed now).1, .ok (min (2 ^ t.consecutive) tickBackoffMax, full)) :=
      Prod.ext rfl hret
    have hstep : dispatch t (.raised now :: rest) = (dispatch (t.failed now).1 rest).map
        fun r => (r.1, min (2 ^ t.consecutive) tickBackoffMax :: r.2) := by
      rw [dispatch, hpair]
    constructor
    · rintro ⟨t', waits, hrun, hwaits⟩
      refine ⟨by omega, ?_⟩
      rw [hstep] at hrun
      cases hrest : dispatch (t.failed now).1 rest with
      | error e => rw [hrest] at hrun; cases hrun
      | ok r =>
        rw [hrest] at hrun
        obtain ⟨rfl, rfl⟩ := Prod.mk.inj (Except.ok.inj hrun)
        exact ⟨r.1, r.2, hrest, fun w hw => hwaits w (List.mem_cons_of_mem _ hw)⟩
    · rintro ⟨-, t', waits, hrun, hwaits⟩
      refine ⟨t', min (2 ^ t.consecutive) tickBackoffMax :: waits, by rw [hstep, hrun]; rfl, fun w hw => ?_⟩
      rcases List.mem_cons.mp hw with rfl | hw
      · exact wait_bounds t.consecutive
      · exact hwaits w hw
  · have hret := failed_of_le (not_lt.mp hlt) now
    have hpair : t.failed now = ((t.failed now).1, .error .overflow) := Prod.ext rfl hret
    refine iff_of_false ?_ (by omega)
    rintro ⟨t', waits, hrun, -⟩
    rw [dispatch, hpair] at hrun
    cases hrun

/-- By induction on the ticks: the loop outlives them when no prefix leaves more than 1024 failures in a
row. -/
theorem outlives_iff_prefixes (ticks : List TickEnd) (t : TickFailures) (h : t.consecutive ≤ 1024) :
    Outlives t ticks ↔ ∀ pre suf, ticks = pre ++ suf → failuresAfter t.consecutive pre ≤ 1024 := by
  induction ticks generalizing t with
  | nil =>
    refine iff_of_true ⟨t, [], rfl, by simp⟩ fun pre suf heq => ?_
    obtain ⟨rfl, -⟩ := List.append_eq_nil_iff.mp heq.symm
    exact h
  | cons e rest ih =>
    -- a prefix is empty or begins with the first tick
    have hcons : (∀ pre suf, e :: rest = pre ++ suf → failuresAfter t.consecutive pre ≤ 1024) ↔
        ∀ pre suf, rest = pre ++ suf → failuresAfter t.consecutive (e :: pre) ≤ 1024 := by
      constructor
      · intro hall pre suf heq
        exact hall (e :: pre) suf (by rw [heq]; rfl)
      · intro hall pre suf heq
        cases pre with
        | nil => exact h
        | cons e' pre =>
          obtain ⟨rfl, hrest⟩ := List.cons.inj heq
          exact hall pre suf hrest
    rw [hcons]
    cases e with
    | done => exact outlives_done.trans (ih t.ok (Nat.zero_le _))
    | raised now =>
      rw [outlives_raised]
      by_cases hle : t.consecutive + 1 ≤ 1024
      · rw [ih (t.failed now).1 hle]
        exact and_iff_right hle
      · refine iff_of_false (fun hall => hle hall.1) fun hall => hle ?_
        exact hall [] rest rfl

theorem failuresAfter_append (n : ℕ) (l l' : List TickEnd) :
    failuresAfter n (l ++ l') = failuresAfter (failuresAfter n l) l' := by
  induction l generalizing n with
  | nil => rfl
  | cons e l ih => cases e <;> exact ih _

theorem failuresAfter_of_raised {l : List TickEnd} (h : ∀ e ∈ l, e.isRaised = true) (n : ℕ) :
    failuresAfter n l = n + l.length := by
  induction l generalizing n with
  | nil => rfl
  | cons e l ih =>
    cases e with
    | done => exact absurd (h .done List.mem_cons_self) (by decide)
    | raised now =>
      have htail := ih (fun e he => h e (List.mem_cons_of_mem _ he)) (n + 1)
      simp only [failuresAfter, List.length_cons, htail]
      omega

/-- The count is the length of the failed ticks the list ends with. -/
theorem exists_failed_suffix (l : List TickEnd) :
    ∃ a b, l = a ++ b ∧ (∀ e ∈ b, e.isRaised = true) ∧ b.length = failuresAfter 0 l := by
  induction l using List.reverseRecOn with
  | nil => exact ⟨[], [], rfl, by simp, rfl⟩
  | append_singleton l e ih =>
    obtain ⟨a, b, rfl, hb, hlen⟩ := ih
    rw [failuresAfter_append]
    cases e with
    | done => exact ⟨a ++ b ++ [.done], [], by simp, by simp, rfl⟩
    | raised now =>
      refine ⟨a, b ++ [.raised now], by simp, fun e he => ?_, by simp [failuresAfter, hlen]⟩
      rcases List.mem_append.mp he with he | he
      · exact hb e he
      · rw [List.mem_singleton.mp he]
        rfl

/-- **The dispatcher outlives its ticks exactly when no more than 1024 of them fail in a row**, and each call
of `failed` returns exactly for the first 1024 failures in a row. -/
theorem dispatcher_outlives_iff (ticks : List TickEnd) :
    (Outlives {} ticks ↔
      ∀ pre mid suf, ticks = pre ++ mid ++ suf → (∀ e ∈ mid, e.isRaised = true) → mid.length ≤ 1024) ∧
    ∀ (t : TickFailures) (now : Time),
      (∃ wait full, (t.failed now).2 = .ok (wait, full) ∧ 0 < wait ∧ wait ≤ tickBackoffMax) ↔
        t.consecutive + 1 ≤ 1024 := by
  refine ⟨(outlives_iff_prefixes ticks {} (Nat.zero_le _)).trans ⟨fun hall pre mid suf heq hmid => ?_,
    fun hall pre suf heq => ?_⟩, failed_returns_iff⟩
  · have hle := hall (pre ++ mid) suf heq
    rw [failuresAfter_append, failuresAfter_of_raised hmid] at hle
    omega
  · obtain ⟨a, b, rfl, hb, hlen⟩ := exists_failed_suffix pre
    rw [← hlen]
    exact hall a b suf heq hb

/-- The tracker of an outage that has lasted 1024 ticks raises at the next one. -/
theorem long_outage_ends_dispatcher :
    (¬ ∀ ticks : List TickEnd, (∀ e ∈ ticks, e.isRaised = true) → Outlives {} ticks) ∧
    failuresAfter 0 (List.replicate 1024 (.raised 0)) = 1024 ∧
    (TickFailures.failed 0 { consecutive := 1024 }).2 = .error .overflow := by
  have hraised : ∀ n, ∀ e ∈ List.replicate n (TickEnd.raised 0), e.isRaised = true := by
    intro n e he
    rw [List.eq_of_mem_replicate he]
    rfl
  have hcount : ∀ n, failuresAfter 0 (List.replicate n (TickEnd.raised 0)) = n := by
    intro n
    rw [failuresAfter_of_raised (hraised n), List.length_replicate, Nat.zero_add]
  refine ⟨fun hall => ?_, hcount 1024, failed_of_le le_rfl 0⟩
  have hout := hall (List.replicate 1025 (.raised 0)) (hraised 1025)
  have hle := (outlives_iff_prefixes _ {} (Nat.zero_le _)).mp hout _ [] (List.append_nil _).symm
  rw [hcount 1025] at hle
  omega

end Broker.Services
