import Broker.Lib.Trans
import Mathlib.Algebra.Order.BigOperators.Group.List
import Mathlib.Algebra.Order.Ring.Rat
import Mathlib.Tactic.Linarith
import Mathlib.Tactic.Ring

/-!
# Broker.Routing.CostGuard — the cost counters of a key

A key has a daily and a monthly cost counter, each with an optional cap and the stamp of the window it
belongs to.  `reserve_cost` and `record_usage` read a counter of another window as 0 and stamp it;
`release_cost` subtracts from whatever is stored.  Amounts are exact rationals.

`CostSys` runs any reservations, refunds and bookings on one key inside one day and one month, and keeps
the estimates still outstanding and the total booked.
-/

namespace Broker.Routing

open Broker.Lib

/-- One cost counter of a key: the day or the first day of the month it counts, if it ever counted. -/
structure Counter where
  cap : Option ℚ
  used : ℚ
  resetAt : Option ℕ
  deriving DecidableEq

namespace Counter

variable (today : ℕ) (c : ℚ)

/-- `CASE WHEN reset_at IS DISTINCT FROM today THEN 0 ELSE used END`. -/
def fresh (k : Counter) : ℚ := if k.resetAt = some today then k.used else 0

/-- The counter with `c` added to its fresh value and the stamp of today. -/
def add (k : Counter) : Counter := { k with used := k.fresh today + c, resetAt := some today }

/-- `fresh + c <= cap`, asked of a window the request loaded with a cap; a cap removed since is `NULL` and
no row matches. -/
def admits (k loaded : Counter) : Bool :=
  loaded.cap.isNone || k.cap.any fun cap => decide (k.fresh today + c ≤ cap)

/-- The `SET` of a reservation, which leaves an uncapped window alone. -/
def debit (k loaded : Counter) : Counter := if loaded.cap.isSome then k.add today c else k

/-- The `SET` of a refund: `GREATEST(0, used - c)`, whatever the stamp. -/
def refund (k loaded : Counter) : Counter :=
  if loaded.cap.isSome then { k with used := max 0 (k.used - c) } else k

end Counter

inductive Window | daily | monthly
  deriving DecidableEq

inductive Tier | free | trial | paid
  deriving DecidableEq

/-- The columns of `api_keys` the cost guard reads and writes. -/
structure ApiKeyRow where
  id : ℕ
  tier : Tier
  daily : Counter
  monthly : Counter
  dailyUsed : ℕ := 0
  totalCost : ℚ := 0

def ApiKeyRow.counter (k : ApiKeyRow) : Window → Counter
  | .daily => k.daily
  | .monthly => k.monthly

/-- `key_daily or key_monthly`. -/
def ApiKeyRow.capped (k : ApiKeyRow) : Bool := k.daily.cap.isSome || k.monthly.cap.isSome

section Statements

variable (today : Window → ℕ) (loaded : ApiKeyRow)

/-- The admission of `reserve_cost`: every capped window has room. -/
def admitsKey (c : ℚ) (k : ApiKeyRow) : Bool :=
  k.daily.admits (today .daily) c loaded.daily && k.monthly.admits (today .monthly) c loaded.monthly

/-- The `UPDATE … WHERE … RETURNING` of `reserve_cost` on the stored row `k`, for the key the request
loaded earlier; `none` when no row matched. -/
def reserveKey (c : ℚ) (k : ApiKeyRow) : Option ApiKeyRow :=
  if admitsKey today loaded c k then
    some { k with
      daily := k.daily.debit (today .daily) c loaded.daily
      monthly := k.monthly.debit (today .monthly) c loaded.monthly }
  else none

/-- `release_cost`. -/
def releaseCost (c : ℚ) (k : ApiKeyRow) : ApiKeyRow :=
  if loaded.capped = false ∨ c ≤ 0 then k
  else { k with daily := k.daily.refund c loaded.daily, monthly := k.monthly.refund c loaded.monthly }

/-- The counter update of `record_usage`: both windows, capped or not. -/
def recordUsage (co : ℚ) (k : ApiKeyRow) : ApiKeyRow :=
  { k with
    dailyUsed := (if k.daily.resetAt = some (today .daily) then k.dailyUsed else 0) + 1
    daily := k.daily.add (today .daily) co
    monthly := k.monthly.add (today .monthly) co
    totalCost := k.totalCost + co }

/-! ### Any statements on one key inside one window -/

/-- The key, the estimates reserved and not yet released, and the costs booked. -/
structure CostSys where
  key : ApiKeyRow
  outstanding : List ℚ := []
  booked : ℚ := 0

inductive CostAct where
  | reserve (c : ℚ)
  | release (c : ℚ)
  | book (co : ℚ)

/-- Amounts are non-negative, and a release matches an earlier reservation of the same amount.  No
statement here changes a cap, so the caps a request loaded are the stored ones. -/
def CostSys.step (s : CostSys) : CostAct → Option CostSys
  | .reserve c =>
    if c < 0 then none
    else match reserveKey today s.key c s.key with
      | some key => some { s with key := key, outstanding := c :: s.outstanding }
      | none => some s
  | .release c =>
    if c ∈ s.outstanding then
      some { s with key := releaseCost s.key c s.key, outstanding := s.outstanding.erase c }
    else none
  | .book co =>
    if co < 0 then none
    else some { s with key := recordUsage today co s.key, booked := s.booked + co }

end Statements

variable {today : Window → ℕ}

/-! ### The statements, window by window -/

theorem Counter.fresh_add (t : ℕ) (c : ℚ) (k : Counter) : (k.add t c).fresh t = k.fresh t + c := by
  simp [Counter.add, Counter.fresh]

theorem reserveKey_some {c : ℚ} {key k k' : ApiKeyRow} (h : reserveKey today key c k = some k') (w : Window) :
    (k.counter w).admits (today w) c (key.counter w) = true ∧
      k'.counter w = (k.counter w).debit (today w) c (key.counter w) := by
  unfold reserveKey at h
  split_ifs at h with ha
  obtain rfl := Option.some.inj h
  obtain ⟨hd, hm⟩ := Bool.and_eq_true_iff.mp ha
  cases w with
  | daily => exact ⟨hd, rfl⟩
  | monthly => exact ⟨hm, rfl⟩

/-- A window without a cap, or a refund of nothing from a counter that is not negative, is left alone. -/
theorem Counter.refund_eq_self {c : ℚ} {loaded k : Counter}
    (h : loaded.cap.isSome = true → c = 0 ∧ 0 ≤ k.used) :
    k.refund c loaded = k := by
  unfold Counter.refund
  split_ifs with hcap
  · obtain ⟨rfl, hk⟩ := h hcap
    rw [sub_zero, max_eq_right hk]
  · rfl

theorem releaseCost_counter {c : ℚ} (hc : 0 ≤ c) (k : ApiKeyRow) (w : Window)
    (hused : (k.counter w).cap.isSome = true → 0 ≤ (k.counter w).used) :
    (releaseCost k c k).counter w = (k.counter w).refund c (k.counter w) := by
  unfold releaseCost
  split_ifs with hskip
  · refine (Counter.refund_eq_self fun hcap => ?_).symm
    rcases hskip with hnone | hzero
    · unfold ApiKeyRow.capped at hnone
      cases w <;> simp_all [ApiKeyRow.counter]
    · have hc0 : c = 0 := le_antisymm hzero hc
      exact ⟨hc0, hused hcap⟩
  · cases w <;> rfl

theorem recordUsage_counter (co : ℚ) (k : ApiKeyRow) (w : Window) :
    (recordUsage today co k).counter w = (k.counter w).add (today w) co := by
  cases w <;> rfl

/-! ### Conservation -/

/-- What holds of one capped window: its cap is the one it started with, its fresh value is the start plus
the bookings plus the outstanding estimates, and while an estimate is outstanding it bears today's stamp. -/
structure Balanced (t : ℕ) (start : Counter) (booked : ℚ) (outstanding : List ℚ) (k : Counter) : Prop where
  cap : k.cap = start.cap
  fresh : k.cap.isSome = true → k.fresh t = start.fresh t + booked + outstanding.sum
  stamped : k.cap.isSome = true → outstanding ≠ [] → k.resetAt = some t

namespace Balanced

variable {t : ℕ} {start k : Counter} {booked c : ℚ} {outstanding : List ℚ}

theorem of_uncapped (hc : k.cap = start.cap) (hcap : k.cap.isSome = false) :
    Balanced t start booked outstanding k := by
  refine ⟨hc, fun hs => ?_, fun hs => ?_⟩ <;> rw [hcap] at hs <;> cases hs

theorem reserve (h : Balanced t start booked outstanding k) (c : ℚ) :
    Balanced t start booked (c :: outstanding) (k.debit t c k) := by
  cases hcap : k.cap.isSome with
  | false =>
    have hdebit : k.debit t c k = k := by simp [Counter.debit, hcap]
    rw [hdebit]
    exact of_uncapped h.cap hcap
  | true =>
    have hdebit : k.debit t c k = k.add t c := by simp [Counter.debit, hcap]
    rw [hdebit]
    refine ⟨h.cap, fun _ => ?_, fun _ _ => rfl⟩
    rw [Counter.fresh_add, h.fresh hcap, List.sum_cons]
    ring

theorem book (h : Balanced t start booked outstanding k) (co : ℚ) :
    Balanced t start (booked + co) outstanding (k.add t co) := by
  refine ⟨h.cap, fun hcap => ?_, fun _ _ => rfl⟩
  rw [Counter.fresh_add, h.fresh hcap]
  ring

/-- With an estimate outstanding the stored value is the fresh one and covers the estimate. -/
theorem le_used (h : Balanced t start booked outstanding k) (hstart : 0 ≤ start.used) (hb : 0 ≤ booked)
    (hpos : ∀ x ∈ outstanding, 0 ≤ x) (hc : c ∈ outstanding) (hcap : k.cap.isSome = true) : c ≤ k.used := by
  have hstamp := h.stamped hcap (List.ne_nil_of_mem hc)
  have hfresh : k.used = start.fresh t + booked + outstanding.sum := by
    rw [← h.fresh hcap, Counter.fresh, if_pos hstamp]
  have hs : 0 ≤ start.fresh t := by
    unfold Counter.fresh
    split_ifs
    · exact hstart
    · exact le_rfl
  have hsum : c ≤ outstanding.sum := List.single_le_sum hpos c hc
  linarith

theorem release (h : Balanced t start booked outstanding k) (hc : c ∈ outstanding)
    (hle : k.cap.isSome = true → c ≤ k.used) :
    Balanced t start booked (outstanding.erase c) (k.refund c k) := by
  cases hcap : k.cap.isSome with
  | false =>
    have hrefund : k.refund c k = k := by simp [Counter.refund, hcap]
    rw [hrefund]
    exact of_uncapped h.cap hcap
  | true =>
    have hstamp := h.stamped hcap (List.ne_nil_of_mem hc)
    have hrefund : k.refund c k = { k with used := k.used - c } := by
      rw [Counter.refund, if_pos hcap, max_eq_right (by linarith [hle hcap])]
    rw [hrefund]
    refine ⟨h.cap, fun _ => ?_, fun _ _ => hstamp⟩
    have hfresh := h.fresh hcap
    rw [Counter.fresh, if_pos hstamp] at hfresh
    have hnew : Counter.fresh t { k with used := k.used - c } = k.used - c := by simp [Counter.fresh, hstamp]
    rw [hnew, hfresh, ← List.sum_erase hc]
    ring

end Balanced

structure CostSys.Inv (today : Window → ℕ) (start : ApiKeyRow) (s : CostSys) : Prop where
  nonneg : ∀ c ∈ s.outstanding, 0 ≤ c
  booked : 0 ≤ s.booked
  window : ∀ w, Balanced (today w) (start.counter w) s.booked s.outstanding (s.key.counter w)

theorem CostSys.Inv.le_used {start : ApiKeyRow} (hstart : ∀ w, 0 ≤ (start.counter w).used) {s : CostSys}
    (hi : s.Inv today start) {c : ℚ} (hc : c ∈ s.outstanding) (w : Window)
    (hcap : (s.key.counter w).cap.isSome = true) : c ≤ (s.key.counter w).used :=
  (hi.window w).le_used (hstart w) hi.booked hi.nonneg hc hcap

theorem CostSys.Inv.step {start : ApiKeyRow} (hstart : ∀ w, 0 ≤ (start.counter w).used) {s s' : CostSys}
    {a : CostAct} (hi : s.Inv today start) (h : s.step today a = some s') : s'.Inv today start := by
  cases a with
  | reserve c =>
    simp only [CostSys.step] at h
    split_ifs at h with hneg
    split at h
    · rename_i key hkey
      obtain rfl := Option.some.inj h
      refine ⟨?_, hi.booked, fun w => ?_⟩
      · rintro x (_ | ⟨_, hx⟩)
        · exact not_lt.mp hneg
        · exact hi.nonneg x hx
      · simp only [(reserveKey_some hkey w).2]
        exact (hi.window w).reserve c
    · obtain rfl := Option.some.inj h
      exact hi
  | release c =>
    simp only [CostSys.step] at h
    split_ifs at h with hc
    obtain rfl := Option.some.inj h
    refine ⟨fun x hx => hi.nonneg x (List.mem_of_mem_erase hx), hi.booked, fun w => ?_⟩
    have hle := hi.le_used hstart hc w
    have hused := fun hcap => (hi.nonneg c hc).trans (hle hcap)
    simp only [releaseCost_counter (hi.nonneg c hc) s.key w hused]
    exact (hi.window w).release hc hle
  | book co =>
    simp only [CostSys.step] at h
    split_ifs at h with hneg
    obtain rfl := Option.some.inj h
    refine ⟨hi.nonneg, add_nonneg hi.booked (not_lt.mp hneg), fun w => ?_⟩
    simp only [recordUsage_counter]
    exact (hi.window w).book co

/-- **Reservations are conserved.**  After any reservations, refunds and bookings on one key inside one day
and one month, each capped counter is its value at the start plus the bookings plus the outstanding
estimates; the refund of an outstanding estimate is not clamped; and a reservation is admitted with room
in every capped window, all of them debited, or refused by one that has none, with nothing written. -/
theorem reservations_conserved (today : Window → ℕ) (k : ApiKeyRow) (hk : ∀ w, 0 ≤ (k.counter w).used)
    {as : List CostAct} {s : CostSys} (h : Steps (CostSys.step today) Free { key := k } as s) :
    (∀ w, (k.counter w).cap.isSome = true → (s.key.counter w).fresh (today w) =
      (k.counter w).fresh (today w) + s.booked + s.outstanding.sum) ∧
    (∀ c ∈ s.outstanding, ∀ w, (k.counter w).cap.isSome = true →
      max 0 ((s.key.counter w).used - c) = (s.key.counter w).used - c) ∧
    (∀ c, match reserveKey today s.key c s.key with
      | some k' => ∀ w cap, (k.counter w).cap = some cap →
          (s.key.counter w).fresh (today w) + c ≤ cap ∧
          (k'.counter w).fresh (today w) = (s.key.counter w).fresh (today w) + c
      | none => ∃ w cap, (k.counter w).cap = some cap ∧ cap < (s.key.counter w).fresh (today w) + c) := by
  have hi : s.Inv today k := by
    refine h.inv (I := CostSys.Inv today k) (fun _ _ _ ht _ hs => ht.step hk hs)
      ⟨by simp, le_rfl, fun w => ?_⟩
    exact ⟨rfl, fun _ => by simp, fun _ hne => absurd rfl hne⟩
  have hcap : ∀ w, (s.key.counter w).cap = (k.counter w).cap := fun w => (hi.window w).cap
  refine ⟨fun w hw => (hi.window w).fresh (by rw [hcap]; exact hw), fun c hc w hw => ?_, fun c => ?_⟩
  · refine max_eq_right (sub_nonneg.mpr ?_)
    exact hi.le_used hk hc w (by rw [hcap]; exact hw)
  · cases hres : reserveKey today s.key c s.key with
    | some k' =>
      intro w cap hw
      obtain ⟨hadm, hdebit⟩ := reserveKey_some hres w
      rw [← hcap w] at hw
      refine ⟨by simpa [Counter.admits, hw] using hadm, ?_⟩
      rw [hdebit, Counter.debit, if_pos (by simp [hw]), Counter.fresh_add]
    | none =>
      have href : admitsKey today s.key c s.key = false := by
        by_contra hne
        simp [reserveKey, Bool.eq_true_of_not_eq_false hne] at hres
      -- the window that refused is capped and over its cap
      obtain ⟨w, hw⟩ : ∃ w, (s.key.counter w).admits (today w) c (s.key.counter w) = false := by
        rcases Bool.and_eq_false_iff.mp href with hd | hm
        · exact ⟨.daily, hd⟩
        · exact ⟨.monthly, hm⟩
      cases hwc : (s.key.counter w).cap with
      | none => simp [Counter.admits, hwc] at hw
      | some cap => exact ⟨w, cap, (hcap w).symm.trans hwc, by simpa [Counter.admits, hwc] using hw⟩

/-- A key whose daily counter is still yesterday's. -/
def ApiKeyRow.sample : ApiKeyRow where
  id := 1
  tier := .paid
  daily := ⟨some 5, 3, some 0⟩
  monthly := ⟨some 20, 7, some 0⟩

/-- Two reservations, a booking and a refund: 2 of the first estimate stay outstanding, 1/2 is booked. -/
theorem reservations_conserved_of_two_attempts :
    ∃ s, Steps (CostSys.step fun | .daily => 1 | .monthly => 0) Free { key := .sample }
        [.reserve 2, .reserve 1, .book (1 / 2), .release 1] s ∧
      s.key.daily.fresh 1 = 5 / 2 := by
  have hrun : (execAll (CostSys.step fun | .daily => 1 | .monthly => 0) { key := .sample }
      [.reserve 2, .reserve 1, .book (1 / 2), .release 1]).map (fun s => (s.booked, s.outstanding)) =
      some (1 / 2, [2]) := by
    norm_num [execAll, CostSys.step, reserveKey, admitsKey, recordUsage, releaseCost, ApiKeyRow.sample,
      ApiKeyRow.capped, Counter.admits, Counter.fresh, Counter.debit, Counter.add, Counter.refund]
  obtain ⟨s, hs, hobs⟩ := steps_of_observed hrun
  obtain ⟨hbooked, hout⟩ := Prod.mk.inj hobs
  refine ⟨s, hs, ?_⟩
  have hpos : ∀ w, 0 ≤ (ApiKeyRow.sample.counter w).used := by
    intro w
    cases w <;> norm_num [ApiKeyRow.counter, ApiKeyRow.sample]
  have hsum := (reservations_conserved _ .sample hpos hs).1 .daily rfl
  rw [hbooked, hout] at hsum
  norm_num [ApiKeyRow.counter, ApiKeyRow.sample, Counter.fresh] at hsum ⊢
  exact hsum

end Broker.Routing
