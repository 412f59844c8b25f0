import Broker.Lib.Double
import Broker.Routing.CostGuard

/-!
# Broker.Routing.Windows — the cost counters across a window boundary

Every statement on a key bears the day and the month it was given before it ran: `CURRENT_DATE` of its
transaction and its `month_start`.  A write of `reserve_cost` or `record_usage` starts the counter afresh
when its stamp is not the stored one, on whichever side of it; `release_cost` reads no stamp.

`SpendSys` runs any such statements on one key and keeps what they booked, reserved and refunded, each
with the stamps it was written with.  `step` computes with exact amounts; `columnStep` rounds every sum and
difference to a double, as the columns do, and is `step` where the results are doubles (`columnStep_eq`).
-/

namespace Broker.Routing

open Broker.Lib

/-- The day and the month of a statement. -/
structure Stamps where
  day : ℕ
  month : ℕ
  deriving DecidableEq

def Stamps.at (t : Stamps) : Window → ℕ
  | .daily => t.day
  | .monthly => t.month

/-- An amount and the stamps of the statement that wrote it. -/
structure Entry where
  stamps : Stamps
  amount : ℚ
  deriving DecidableEq

inductive SpendAct where
  | reserve (c : ℚ)
  | release (e : Entry)
  | book (co : ℚ)

/-- A statement and its stamps; for a refund, which has none, the day and the month it executes in. -/
structure Stamped where
  stamps : Stamps
  act : SpendAct

/-- The key, the estimates outstanding, the costs booked, the refunds with the stamps of the moment they
executed, and the stamps of the statements executed, last first. -/
structure SpendSys where
  key : ApiKeyRow
  outstanding : List Entry := []
  booked : List Entry := []
  refunded : List (Entry × Stamps) := []
  ran : List Stamps := []

/-- Amounts are non-negative, and a refund returns an outstanding estimate. -/
def SpendSys.step (s : SpendSys) (a : Stamped) : Option SpendSys :=
  match a.act with
  | .reserve c =>
    if c < 0 then none
    else match reserveKey a.stamps.at s.key c s.key with
      | some key =>
        some { s with key := key, outstanding := ⟨a.stamps, c⟩ :: s.outstanding, ran := a.stamps :: s.ran }
      | none => some { s with ran := a.stamps :: s.ran }
  | .release e =>
    if e ∈ s.outstanding then
      some { s with
        key := releaseCost s.key e.amount s.key
        outstanding := s.outstanding.erase e
        refunded := (e, a.stamps) :: s.refunded
        ran := a.stamps :: s.ran }
    else none
  | .book co =>
    if co < 0 then none
    else some { s with
      key := recordUsage a.stamps.at co s.key
      booked := ⟨a.stamps, co⟩ :: s.booked
      ran := a.stamps :: s.ran }

/-! ### What was spent in a window -/

/-- The sum of the amounts written with stamp `t`. -/
def sumAt (w : Window) (t : ℕ) (l : List Entry) : ℚ :=
  (l.map fun e => if e.stamps.at w = t then e.amount else 0).sum

namespace SpendSys

variable (w : Window) (t : ℕ) (s : SpendSys)

def bookedAt : ℚ := sumAt w t s.booked

def outstandingAt : ℚ := sumAt w t s.outstanding

/-- The sum of the estimates reserved before window `t` and refunded in it. -/
def lateAt : ℚ :=
  (s.refunded.map fun r => if r.1.stamps.at w < t ∧ r.2.at w = t then r.1.amount else 0).sum

end SpendSys

variable {w : Window} {t : ℕ}

theorem sumAt_cons (e : Entry) (l : List Entry) :
    sumAt w t (e :: l) = (if e.stamps.at w = t then e.amount else 0) + sumAt w t l := by
  simp [sumAt]

theorem sumAt_erase {e : Entry} {l : List Entry} (he : e ∈ l) :
    sumAt w t l = (if e.stamps.at w = t then e.amount else 0) + sumAt w t (l.erase e) := by
  unfold sumAt
  exact (List.sum_map_erase (fun e : Entry => if e.stamps.at w = t then e.amount else 0) he).symm

theorem sumAt_nonneg {l : List Entry} (h : ∀ e ∈ l, 0 ≤ e.amount) : 0 ≤ sumAt w t l := by
  refine List.sum_nonneg fun x hx => ?_
  obtain ⟨e, he, rfl⟩ := List.mem_map.mp hx
  split_ifs
  · exact h e he
  · exact le_rfl

theorem sumAt_eq_zero {l : List Entry} (h : ∀ e ∈ l, e.stamps.at w ≠ t) : sumAt w t l = 0 := by
  induction l with
  | nil => rfl
  | cons e l ih =>
    rw [sumAt_cons, if_neg (h e (by simp)), zero_add]
    exact ih fun e' he' => h e' (by simp [he'])

theorem lateAt_cons {s : SpendSys} {r : Entry × Stamps} {l : List (Entry × Stamps)}
    (hr : s.refunded = r :: l) :
    s.lateAt w t = (if r.1.stamps.at w < t ∧ r.2.at w = t then r.1.amount else 0) +
      SpendSys.lateAt w t { s with refunded := l } := by
  simp [SpendSys.lateAt, hr]

/-! ### Every statement is recorded -/

/-- What was reserved and booked is not negative and bears the stamps of an executed statement, and no
counter is negative. -/
structure SpendSys.Recorded (s : SpendSys) : Prop where
  outstanding : ∀ e ∈ s.outstanding, 0 ≤ e.amount ∧ e.stamps ∈ s.ran
  booked : ∀ e ∈ s.booked, 0 ≤ e.amount ∧ e.stamps ∈ s.ran
  refunded : ∀ r ∈ s.refunded, 0 ≤ r.1.amount
  used : ∀ w, 0 ≤ (s.key.counter w).used

theorem Counter.fresh_nonneg {k : Counter} (h : 0 ≤ k.used) : 0 ≤ k.fresh t := by
  unfold Counter.fresh
  split_ifs
  · exact h
  · exact le_rfl

theorem Counter.debit_used_nonneg {k loaded : Counter} {c : ℚ} (h : 0 ≤ k.used) (hc : 0 ≤ c) :
    0 ≤ (k.debit t c loaded).used := by
  unfold Counter.debit
  split_ifs
  · exact add_nonneg (fresh_nonneg h) hc
  · exact h

theorem Counter.fresh_add_of_ne {t t' : ℕ} (h : t ≠ t') (c : ℚ) (k : Counter) : (k.add t c).fresh t' = 0 := by
  simp [Counter.add, Counter.fresh, h]

theorem admitsKey_of_reserveKey {today : Window → ℕ} {loaded k k' : ApiKeyRow} {c : ℚ}
    (h : reserveKey today loaded c k = some k') : admitsKey today loaded c k = true := by
  unfold reserveKey at h
  split_ifs at h with ha
  exact ha

theorem admitsKey_of_reserveKey_none {today : Window → ℕ} {loaded k : ApiKeyRow} {c : ℚ}
    (h : reserveKey today loaded c k = none) : admitsKey today loaded c k = false := by
  unfold reserveKey at h
  split_ifs at h with ha
  exact Bool.eq_false_of_not_eq_true ha

namespace SpendSys

variable {s s' : SpendSys} {a : Stamped}

/-- **What a statement does**: a reservation debits the key or changes nothing in it, a refund returns an
outstanding estimate, a booking adds to both windows; each leaves its stamps. -/
theorem step_cases (h : s.step a = some s') :
    (∃ c, a.act = .reserve c ∧ 0 ≤ c ∧ s'.outstanding = ⟨a.stamps, c⟩ :: s.outstanding ∧
      reserveKey a.stamps.at s.key c s.key = some s'.key ∧ s'.booked = s.booked ∧
      s'.refunded = s.refunded ∧ s'.ran = a.stamps :: s.ran) ∨
    (∃ c, a.act = .reserve c ∧ 0 ≤ c ∧ reserveKey a.stamps.at s.key c s.key = none ∧
      s' = { s with ran := a.stamps :: s.ran }) ∨
    (∃ e ∈ s.outstanding, a.act = .release e ∧ s' = { s with
      key := releaseCost s.key e.amount s.key, outstanding := s.outstanding.erase e
      refunded := (e, a.stamps) :: s.refunded, ran := a.stamps :: s.ran }) ∨
    ∃ co, a.act = .book co ∧ 0 ≤ co ∧ s' = { s with
      key := recordUsage a.stamps.at co s.key, booked := ⟨a.stamps, co⟩ :: s.booked
      ran := a.stamps :: s.ran } := by
  unfold step at h
  cases hact : a.act with
  | reserve c =>
    simp only [hact] at h
    split_ifs at h with hneg
    cases hkey : reserveKey a.stamps.at s.key c s.key with
    | some key =>
      rw [hkey] at h
      obtain rfl := Option.some.inj h
      exact .inl ⟨c, rfl, not_lt.mp hneg, rfl, hkey, rfl, rfl, rfl⟩
    | none =>
      rw [hkey] at h
      exact .inr (.inl ⟨c, rfl, not_lt.mp hneg, hkey, (Option.some.inj h).symm⟩)
  | release e =>
    simp only [hact] at h
    split_ifs at h with he
    exact .inr (.inr (.inl ⟨e, he, rfl, (Option.some.inj h).symm⟩))
  | book co =>
    simp only [hact] at h
    split_ifs at h with hneg
    exact .inr (.inr (.inr ⟨co, rfl, not_lt.mp hneg, (Option.some.inj h).symm⟩))

theorem ran_of_step (h : s.step a = some s') : s'.ran = a.stamps :: s.ran := by
  rcases step_cases h with ⟨c, -, -, -, -, -, -, hran⟩ | ⟨c, -, -, -, rfl⟩ | ⟨e, -, -, rfl⟩ | ⟨co, -, -, rfl⟩
  · exact hran
  all_goals rfl

theorem Recorded.release_counter (hr : s.Recorded) {e : Entry} (he : e ∈ s.outstanding) (w : Window) :
    (releaseCost s.key e.amount s.key).counter w = (s.key.counter w).refund e.amount (s.key.counter w) :=
  releaseCost_counter (hr.outstanding e he).1 s.key w fun _ => hr.used w

theorem Recorded.step (hr : s.Recorded) (h : s.step a = some s') : s'.Recorded := by
  have hold : ∀ {x : Stamps}, x ∈ s.ran → x ∈ a.stamps :: s.ran := fun hx => List.mem_cons_of_mem _ hx
  have hout : ∀ e ∈ s.outstanding, 0 ≤ e.amount ∧ e.stamps ∈ a.stamps :: s.ran :=
    fun e he => ⟨(hr.outstanding e he).1, hold (hr.outstanding e he).2⟩
  have hbook : ∀ e ∈ s.booked, 0 ≤ e.amount ∧ e.stamps ∈ a.stamps :: s.ran :=
    fun e he => ⟨(hr.booked e he).1, hold (hr.booked e he).2⟩
  rcases step_cases h with ⟨c, -, hc, ho, hkey, hb, hf, hran⟩ | ⟨c, -, -, -, rfl⟩ | ⟨e, he, -, rfl⟩ |
    ⟨co, -, hco, rfl⟩
  · refine ⟨?_, ?_, ?_, fun w => ?_⟩
    · rw [ho, hran]
      rintro e (_ | ⟨_, he⟩)
      · exact ⟨hc, List.mem_cons_self⟩
      · exact hout e he
    · rw [hb, hran]
      exact hbook
    · rw [hf]
      exact hr.refunded
    · rw [(reserveKey_some hkey w).2]
      exact Counter.debit_used_nonneg (hr.used w) hc
  · exact ⟨hout, hbook, hr.refunded, hr.used⟩
  · refine ⟨fun x hx => hout x (List.mem_of_mem_erase hx), hbook, ?_, fun w => ?_⟩
    · rintro r (_ | ⟨_, hx⟩)
      · exact (hr.outstanding e he).1
      · exact hr.refunded r hx
    · simp only [hr.release_counter he w]
      unfold Counter.refund
      split_ifs
      · exact le_max_left 0 _
      · exact hr.used w
  · refine ⟨hout, ?_, hr.refunded, fun w => ?_⟩
    · rintro e (_ | ⟨_, he⟩)
      · exact ⟨hco, List.mem_cons_self⟩
      · exact hbook e he
    · simp only [recordUsage_counter]
      exact add_nonneg (Counter.fresh_nonneg (hr.used w)) hco

theorem recorded_start {k : ApiKeyRow} (hk : ∀ w, 0 ≤ (k.counter w).used) : Recorded { key := k } :=
  ⟨by simp, by simp, by simp, hk⟩

/-! ### Current spend and stale stamps -/

/-- Whether the statement writes the counter of `w` under its own stamp. -/
def stampsCounter (s : SpendSys) (w : Window) (a : Stamped) : Bool :=
  match a.act with
  | .reserve c => (s.key.counter w).cap.isSome && admitsKey a.stamps.at s.key c s.key
  | .release _ => false
  | .book _ => true

/-- Reservations and bookings only, each stamped `W` or `W'`. -/
def SpendsIn (w : Window) (W W' : ℕ) (_ : SpendSys) (a : Stamped) : Prop :=
  (a.stamps.at w = W ∨ a.stamps.at w = W') ∧ ∀ e, a.act ≠ .release e

/-- Once a statement stamped `W'` has run, the counter read in `W'` covers the costs booked in `W'`. -/
def SpendKept (w : Window) (W' : ℕ) (s : SpendSys) : Prop :=
  (∃ r ∈ s.ran, r.at w = W') → s.bookedAt w W' ≤ (s.key.counter w).fresh W'

/-- A statement stamped `W` writes the counter only while no cost is booked in `W'`. -/
def StaleFirst (w : Window) (W W' : ℕ) (s : SpendSys) (a : Stamped) : Prop :=
  a.stamps.at w = W → s.stampsCounter w a = true → s.bookedAt w W' = 0

theorem Recorded.bookedAt_nonneg (hr : s.Recorded) : 0 ≤ s.bookedAt w t :=
  sumAt_nonneg fun e he => (hr.booked e he).1

/-- Without a statement stamped `t` nothing is booked in `t`. -/
theorem Recorded.bookedAt_eq_zero (hr : s.Recorded) (h : ∀ r ∈ s.ran, r.at w ≠ t) : s.bookedAt w t = 0 :=
  sumAt_eq_zero fun e he => h e.stamps (hr.booked e he).2

theorem Recorded.outstandingAt_eq_zero (hr : s.Recorded) (h : ∀ r ∈ s.ran, r.at w ≠ t) :
    s.outstandingAt w t = 0 :=
  sumAt_eq_zero fun e he => h e.stamps (hr.outstanding e he).2

/-- The guard of `SpendKept` only leaves out states with nothing booked. -/
theorem Recorded.spendKept_iff (hr : s.Recorded) :
    s.SpendKept w t ↔ s.bookedAt w t ≤ (s.key.counter w).fresh t := by
  constructor
  · intro h
    by_cases hran : ∃ r ∈ s.ran, r.at w = t
    · exact h hran
    · rw [hr.bookedAt_eq_zero fun r hr' ht => hran ⟨r, hr', ht⟩]
      exact Counter.fresh_nonneg (hr.used w)
  · exact fun h _ => h

/-- After a write under stamp `W` the counter reads 0 in `W'`; after one under `W'` it keeps what it had. -/
theorem Recorded.spendKept_step {W W' : ℕ} (hW : W < W') (hr : s.Recorded) (hk : s.SpendKept w W')
    (hc : SpendsIn w W W' s a) (h : s.step a = some s') : s'.SpendKept w W' ↔ StaleFirst w W W' s a := by
  have hb0 : 0 ≤ s.bookedAt w W' := hr.bookedAt_nonneg
  rw [(hr.step h).spendKept_iff]
  rw [hr.spendKept_iff] at hk
  rcases step_cases h with ⟨c, hact, hc0, -, hkey, hb, -, -⟩ | ⟨c, hact, hc0, hkey, rfl⟩ | ⟨e, -, hact, -⟩ |
    ⟨co, hact, hco, rfl⟩
  · obtain ⟨hadm, hdebit⟩ := reserveKey_some hkey w
    have hall : admitsKey a.stamps.at s.key c s.key = true := admitsKey_of_reserveKey hkey
    have hbooked : s'.bookedAt w W' = s.bookedAt w W' := by rw [bookedAt, hb, bookedAt]
    rw [hbooked, hdebit]
    unfold Counter.debit StaleFirst stampsCounter
    simp only [hact, hall, Bool.and_true]
    split_ifs with hcap
    · rcases hc.1 with hold | hnew
      · rw [hold, Counter.fresh_add_of_ne hW.ne]
        exact ⟨fun hle _ _ => le_antisymm hle hb0, fun hz => (hz rfl hcap).le⟩
      · rw [hnew, Counter.fresh_add]
        exact ⟨fun _ heq => absurd heq hW.ne', fun _ => by linarith⟩
    · exact ⟨fun _ _ hcap' => absurd hcap' hcap, fun _ => hk⟩
  · have hnone : admitsKey a.stamps.at s.key c s.key = false := admitsKey_of_reserveKey_none hkey
    refine ⟨fun _ _ hw => ?_, fun _ => hk⟩
    simp [stampsCounter, hact, hnone] at hw
  · exact absurd hact (hc.2 e)
  · have hbooked : bookedAt w W' { s with
        key := recordUsage a.stamps.at co s.key, booked := ⟨a.stamps, co⟩ :: s.booked
        ran := a.stamps :: s.ran } = (if a.stamps.at w = W' then co else 0) + s.bookedAt w W' :=
      sumAt_cons _ _
    rw [hbooked, recordUsage_counter]
    rcases hc.1 with hold | hnew
    · rw [hold, if_neg hW.ne, zero_add, Counter.fresh_add_of_ne hW.ne]
      refine ⟨fun hle _ _ => le_antisymm hle hb0, fun hz => ?_⟩
      have hwrites : s.stampsCounter w a = true := by simp [stampsCounter, hact]
      exact (hz hold hwrites).le
    · rw [hnew, if_pos rfl, Counter.fresh_add]
      exact ⟨fun _ heq => absurd (heq.symm.trans hnew) hW.ne, fun _ => by linarith⟩

end SpendSys

/-- **The lazy reset keeps the current spend exactly when stale stamps come first.**  In any order of
reservations and bookings stamped `W` or `W'` on one key, the counter read in `W'` covers the costs booked
in `W'` in every state reached if and only if every write stamped `W` finds nothing booked in `W'` yet. -/
theorem current_spend_kept_iff (w : Window) {W W' : ℕ} (hW : W < W') (k : ApiKeyRow)
    (hk : ∀ w, 0 ≤ (k.counter w).used) {as : List Stamped} {s : SpendSys}
    (h : Steps SpendSys.step (SpendSys.SpendsIn w W W') { key := k } as s) :
    (∀ pre suf t, pre ++ suf = as → Steps SpendSys.step (SpendSys.SpendsIn w W W') { key := k } pre t →
      t.SpendKept w W') ↔
    ∀ pre a suf t, pre ++ a :: suf = as →
      Steps SpendSys.step (SpendSys.SpendsIn w W W') { key := k } pre t → t.StaleFirst w W W' a := by
  have hr := SpendSys.recorded_start hk
  refine h.forall_states_iff (I := SpendSys.Recorded) (fun _ _ _ ht _ hs => ht.step hs)
    (fun _ _ _ ht hkept hc hs => ht.spendKept_step hW hkept hc hs) hr ?_
  rw [hr.spendKept_iff]
  exact Counter.fresh_nonneg (hk w)

theorem SpendSys.step_book (s : SpendSys) (st : Stamps) {co : ℚ} (hco : 0 ≤ co) :
    s.step ⟨st, .book co⟩ = some { s with
      key := recordUsage st.at co s.key, booked := ⟨st, co⟩ :: s.booked, ran := st :: s.ran } :=
  if_neg (not_lt.mpr hco)

theorem SpendSys.spendsIn_book {w : Window} {W W' : ℕ} (s : SpendSys) (st : Stamps) (co : ℚ)
    (hst : st.at w = W ∨ st.at w = W') : SpendsIn w W W' s ⟨st, .book co⟩ :=
  ⟨hst, fun _ h => nomatch h⟩

/-- A booking of yesterday that executes after one of today breaks the run that it is part of. -/
theorem current_spend_kept_iff_of_stale_booking :
    ∃ s, Steps SpendSys.step (SpendSys.SpendsIn .daily 0 1) { key := .sample }
        [⟨⟨1, 0⟩, .book 3⟩, ⟨⟨0, 0⟩, .book 1⟩] s ∧
      ∃ pre suf t, pre ++ suf = [⟨⟨1, 0⟩, .book 3⟩, ⟨⟨0, 0⟩, .book 1⟩] ∧
        Steps SpendSys.step (SpendSys.SpendsIn .daily 0 1) { key := .sample } pre t ∧
        ¬ t.SpendKept .daily 1 := by
  have h1 := Steps.single (C := SpendSys.SpendsIn .daily 0 1)
    (SpendSys.spendsIn_book { key := .sample } ⟨1, 0⟩ 3 (.inr rfl)) (SpendSys.step_book _ _ (by norm_num))
  have h2 := h1.snoc (SpendSys.spendsIn_book _ ⟨0, 0⟩ 1 (.inl rfl)) (SpendSys.step_book _ _ (by norm_num))
  refine ⟨_, h2, ?_⟩
  have hpos : ∀ w, 0 ≤ (ApiKeyRow.sample.counter w).used := by
    intro w
    cases w <;> norm_num [ApiKeyRow.counter, ApiKeyRow.sample]
  by_contra hall
  push Not at hall
  have hfirst := (current_spend_kept_iff .daily Nat.zero_lt_one .sample hpos h2).mp hall
    [⟨⟨1, 0⟩, .book 3⟩] ⟨⟨0, 0⟩, .book 1⟩ [] _ rfl h1 rfl rfl
  norm_num [SpendSys.bookedAt, sumAt, Stamps.at] at hfirst

/-- New, old, new: of the 5 booked today the counter keeps the last 2. -/
theorem stale_booking_drops_spend :
    ∃ s, Steps SpendSys.step (SpendSys.SpendsIn .daily 0 1) { key := .sample }
        [⟨⟨1, 0⟩, .book 3⟩, ⟨⟨0, 0⟩, .book 1⟩, ⟨⟨1, 0⟩, .book 2⟩] s ∧
      (∃ r ∈ s.ran, r.at .daily = 1) ∧ s.bookedAt .daily 1 = 5 ∧ s.key.daily.fresh 1 = 2 ∧
      ¬ s.SpendKept .daily 1 := by
  have h1 := Steps.single (C := SpendSys.SpendsIn .daily 0 1)
    (SpendSys.spendsIn_book { key := .sample } ⟨1, 0⟩ 3 (.inr rfl)) (SpendSys.step_book _ _ (by norm_num))
  have h2 := h1.snoc (SpendSys.spendsIn_book _ ⟨0, 0⟩ 1 (.inl rfl)) (SpendSys.step_book _ _ (by norm_num))
  have h3 := h2.snoc (SpendSys.spendsIn_book _ ⟨1, 0⟩ 2 (.inr rfl)) (SpendSys.step_book _ _ (by norm_num))
  refine ⟨_, h3, ?_⟩
  norm_num [SpendSys.SpendKept, SpendSys.bookedAt, sumAt, Stamps.at, recordUsage, Counter.add, Counter.fresh,
    ApiKeyRow.counter]

/-! ### Late refunds -/

namespace SpendSys

variable {s s' : SpendSys} {a : Stamped}

/-- The stamps of window `w` never decrease in the order of execution. -/
def InOrder (w : Window) (s : SpendSys) (a : Stamped) : Prop :=
  ∀ r ∈ s.ran, r.at w ≤ a.stamps.at w

instance (w : Window) (s : SpendSys) (a : Stamped) : Decidable (InOrder w s a) :=
  inferInstanceAs (Decidable (∀ r ∈ s.ran, r.at w ≤ a.stamps.at w))

/-- In every window from the newest stamp on, the counter falls short of the costs booked and the estimates
outstanding by at most the late refunds. -/
def Covered (w : Window) (s : SpendSys) : Prop :=
  ∀ t, (∀ r ∈ s.ran, r.at w ≤ t) →
    s.bookedAt w t + s.outstandingAt w t ≤ (s.key.counter w).fresh t + s.lateAt w t

theorem Recorded.lateAt_nonneg (hr : s.Recorded) : 0 ≤ s.lateAt w t := by
  refine List.sum_nonneg fun x hx => ?_
  obtain ⟨r, hmem, rfl⟩ := List.mem_map.mp hx
  split_ifs
  · exact hr.refunded r hmem
  · exact le_rfl

/-- A window no statement was stamped with holds no spend. -/
theorem Recorded.covered_of_unseen (hr : s.Recorded) (h : ∀ r ∈ s.ran, r.at w ≠ t) :
    s.bookedAt w t + s.outstandingAt w t ≤ (s.key.counter w).fresh t + s.lateAt w t := by
  rw [hr.bookedAt_eq_zero h, hr.outstandingAt_eq_zero h, add_zero]
  exact add_nonneg (Counter.fresh_nonneg (hr.used w)) hr.lateAt_nonneg

/-- A refund takes at most its amount from any window. -/
theorem fresh_le_refund {k : Counter} {c : ℚ} (hc : 0 ≤ c) (t : ℕ) :
    k.fresh t ≤ (k.refund c k).fresh t + c := by
  unfold Counter.refund Counter.fresh
  by_cases hcap : k.cap.isSome = true
  · rw [if_pos hcap]
    by_cases ht : k.resetAt = some t
    · have hmax := le_max_right 0 (k.used - c)
      simp only [if_pos ht]
      linarith
    · simpa only [if_neg ht, zero_add] using hc
  · rw [if_neg hcap]
    split_ifs <;> linarith

theorem Covered.step (hr : s.Recorded) (hcov : s.Covered w) (hcap : (s.key.counter w).cap.isSome = true)
    (hc : InOrder w s a) (h : s.step a = some s') : s'.Covered w := by
  intro t ht
  have hrec := hr.step h
  by_cases hnew : a.stamps.at w = t
  · -- the statement's own window: what held of it before still holds up to the amount of the statement
    have hold := hcov t fun r hr' => hnew ▸ hc r hr'
    rcases step_cases h with ⟨c, -, -, ho, hkey, hb, hf, -⟩ | ⟨c, -, -, -, rfl⟩ | ⟨e, he, -, rfl⟩ |
      ⟨co, -, -, rfl⟩
    · have hout : s'.outstandingAt w t = c + s.outstandingAt w t := by
        rw [outstandingAt, ho, sumAt_cons, if_pos hnew, outstandingAt]
      have hdebit : (s'.key.counter w).fresh t = (s.key.counter w).fresh t + c := by
        rw [(reserveKey_some hkey w).2, Counter.debit, if_pos hcap, hnew, Counter.fresh_add]
      have hbooked : s'.bookedAt w t = s.bookedAt w t := by rw [bookedAt, hb, bookedAt]
      have hlate : s'.lateAt w t = s.lateAt w t := by rw [lateAt, hf, lateAt]
      rw [hout, hdebit, hbooked, hlate]
      linarith
    · exact hold
    · obtain ⟨hpos, hmem⟩ := hr.outstanding e he
      have hfresh := fresh_le_refund (k := s.key.counter w) hpos t
      have hout := sumAt_erase (w := w) (t := t) he
      rw [lateAt_cons rfl]
      simp only [hr.release_counter he w, bookedAt, outstandingAt, lateAt, hnew, and_true] at hold ⊢
      have hle : e.stamps.at w ≤ t := hnew ▸ hc e.stamps hmem
      by_cases hlate : e.stamps.at w < t
      · rw [if_pos hlate]
        rw [if_neg hlate.ne, zero_add] at hout
        linarith
      · rw [if_neg hlate]
        rw [if_pos (le_antisymm hle (not_lt.mp hlate))] at hout
        linarith
    · have hbooked := sumAt_cons (w := w) (t := t) ⟨a.stamps, co⟩ s.booked
      rw [if_pos hnew] at hbooked
      simp only [bookedAt, outstandingAt, lateAt, recordUsage_counter, hnew, Counter.fresh_add] at hold ⊢
      linarith
  · refine hrec.covered_of_unseen fun r hr' heq => hnew ?_
    have hran : s'.ran = a.stamps :: s.ran := ran_of_step h
    rw [hran] at hr' ht
    have ha : a.stamps.at w ≤ t := ht a.stamps List.mem_cons_self
    rcases List.mem_cons.mp hr' with rfl | hr'
    · exact heq
    · exact le_antisymm ha (heq ▸ hc r hr')

/-- No statement changes a cap. -/
theorem cap_of_step (hr : s.Recorded) (h : s.step a = some s') (w : Window) :
    (s'.key.counter w).cap = (s.key.counter w).cap := by
  rcases step_cases h with ⟨c, -, -, -, hkey, -⟩ | ⟨c, -, -, -, rfl⟩ | ⟨e, he, -, rfl⟩ | ⟨co, -, -, rfl⟩
  · rw [(reserveKey_some hkey w).2]
    unfold Counter.debit
    split_ifs <;> rfl
  · rfl
  · simp only [hr.release_counter he w]
    unfold Counter.refund
    split_ifs <;> rfl
  · simp only [recordUsage_counter]
    rfl

end SpendSys

/-! ### The arithmetic of the columns -/

/-- What a statement writes into a counter of doubles. -/
def Counter.column (w : Window) (a : Stamped) (k : Counter) : Counter :=
  let t := a.stamps.at w
  match a.act with
  | .reserve c =>
    if k.cap.isSome then { k with used := PyFloat.roundDouble (k.fresh t + c), resetAt := some t } else k
  | .release e =>
    if k.cap.isSome ∧ 0 < e.amount then { k with used := max 0 (PyFloat.roundDouble (k.used - e.amount)) } else k
  | .book co => { k with used := PyFloat.roundDouble (k.fresh t + co), resetAt := some t }

namespace SpendSys

/-- `fresh + c <= cap` of every capped window, the sum a double. -/
def columnAdmits (s : SpendSys) (t : Stamps) (c : ℚ) (w : Window) : Bool :=
  (s.key.counter w).cap.all fun cap =>
    decide (PyFloat.roundDouble ((s.key.counter w).fresh (t.at w) + c) ≤ cap)

/-- The row after a statement, `base` but for the two counters. -/
def columnKey (s : SpendSys) (a : Stamped) (base : ApiKeyRow) : ApiKeyRow :=
  { base with daily := s.key.daily.column .daily a, monthly := s.key.monthly.column .monthly a }

/-- The statements of `step`, their sums and differences rounded. -/
def columnStep (s : SpendSys) (a : Stamped) : Option SpendSys :=
  match a.act with
  | .reserve c =>
    if c < 0 then none
    else if s.columnAdmits a.stamps c .daily && s.columnAdmits a.stamps c .monthly then
      some { s with
        key := s.columnKey a s.key
        outstanding := ⟨a.stamps, c⟩ :: s.outstanding
        ran := a.stamps :: s.ran }
    else some { s with ran := a.stamps :: s.ran }
  | .release e =>
    if e ∈ s.outstanding then
      some { s with
        key := s.columnKey a s.key
        outstanding := s.outstanding.erase e
        refunded := (e, a.stamps) :: s.refunded
        ran := a.stamps :: s.ran }
    else none
  | .book co =>
    if co < 0 then none
    else some { s with
      key := s.columnKey a (recordUsage a.stamps.at co s.key)
      booked := ⟨a.stamps, co⟩ :: s.booked
      ran := a.stamps :: s.ran }

/-- What a statement computes for a counter. -/
def computed (s : SpendSys) (a : Stamped) (w : Window) : ℚ :=
  match a.act with
  | .reserve c | .book c => (s.key.counter w).fresh (a.stamps.at w) + c
  | .release e => (s.key.counter w).used - e.amount

/-- Its sums and differences are doubles. -/
def Exact (s : SpendSys) (a : Stamped) : Prop := ∀ w, PyFloat.roundDouble (s.computed a w) = s.computed a w

instance (s : SpendSys) (a : Stamped) : Decidable (s.Exact a) :=
  decidable_of_iff (∀ w ∈ [Window.daily, .monthly], PyFloat.roundDouble (s.computed a w) = s.computed a w)
    ⟨fun h w => h w (by cases w <;> simp), fun h w _ => h w⟩

theorem columnAdmits_eq {s : SpendSys} {t : Stamps} {c : ℚ} (h : s.Exact ⟨t, .reserve c⟩) :
    (s.columnAdmits t c .daily && s.columnAdmits t c .monthly) = admitsKey t.at s.key c s.key := by
  have hwindow : ∀ w, s.columnAdmits t c w = (s.key.counter w).admits (t.at w) c (s.key.counter w) := by
    intro w
    have hw : PyFloat.roundDouble ((s.key.counter w).fresh (t.at w) + c) = (s.key.counter w).fresh (t.at w) + c := h w
    unfold columnAdmits Counter.admits
    rw [hw]
    cases (s.key.counter w).cap <;> rfl
  rw [hwindow, hwindow]
  rfl

/-- **Where its results are doubles, a statement writes what the exact one writes.** -/
theorem columnStep_eq {s : SpendSys} {a : Stamped} (h : s.Exact a) : s.columnStep a = s.step a := by
  obtain ⟨t, act⟩ := a
  cases act with
  | reserve c =>
    have hcounter : ∀ w, (s.key.counter w).column w ⟨t, .reserve c⟩ =
        (s.key.counter w).debit (t.at w) c (s.key.counter w) := by
      intro w
      have hw : PyFloat.roundDouble ((s.key.counter w).fresh (t.at w) + c) =
        (s.key.counter w).fresh (t.at w) + c := h w
      simp only [Counter.column, Counter.debit, Counter.add, hw]
    have hkey : s.columnKey ⟨t, .reserve c⟩ s.key = { s.key with
        daily := s.key.daily.debit (t.at .daily) c s.key.daily
        monthly := s.key.monthly.debit (t.at .monthly) c s.key.monthly } := by
      rw [columnKey]
      exact congrArg₂ (fun d m => { s.key with daily := d, monthly := m }) (hcounter .daily) (hcounter .monthly)
    simp only [columnStep, step, columnAdmits_eq h, hkey, reserveKey]
    split_ifs <;> rfl
  | release e =>
    have hcounter : ∀ w, (s.key.counter w).column w ⟨t, .release e⟩ =
        if 0 < e.amount then (s.key.counter w).refund e.amount (s.key.counter w) else s.key.counter w := by
      intro w
      have hw : PyFloat.roundDouble ((s.key.counter w).used - e.amount) = (s.key.counter w).used - e.amount := h w
      simp only [Counter.column, Counter.refund, hw]
      by_cases hpos : 0 < e.amount
      · simp only [hpos, and_true, if_true]
      · simp only [hpos, and_false, if_false]
    have hkey : s.columnKey ⟨t, .release e⟩ s.key = releaseCost s.key e.amount s.key := by
      have hd := hcounter .daily
      have hm := hcounter .monthly
      simp only [ApiKeyRow.counter] at hd hm
      rw [columnKey, hd, hm, releaseCost]
      by_cases hpos : 0 < e.amount
      · rw [if_pos hpos, if_pos hpos]
        split_ifs with hskip
        · -- a key without caps is left alone by both
          have hnone := hskip.resolve_right (not_le.mpr hpos)
          simp only [ApiKeyRow.capped, Bool.or_eq_false_iff] at hnone
          simp only [Counter.refund, hnone.1, hnone.2, Bool.false_eq_true, if_false]
        · rfl
      · rw [if_neg hpos, if_neg hpos, if_pos (.inr (not_lt.mp hpos))]
    simp only [columnStep, step, hkey]
  | book co =>
    have hcounter : ∀ w, (s.key.counter w).column w ⟨t, .book co⟩ = (s.key.counter w).add (t.at w) co := by
      intro w
      have hw : PyFloat.roundDouble ((s.key.counter w).fresh (t.at w) + co) =
        (s.key.counter w).fresh (t.at w) + co := h w
      simp only [Counter.column, Counter.add, hw]
    have hkey : s.columnKey ⟨t, .book co⟩ (recordUsage t.at co s.key) = recordUsage t.at co s.key := by
      have hd := hcounter .daily
      have hm := hcounter .monthly
      simp only [ApiKeyRow.counter] at hd hm
      rw [columnKey, hd, hm]
      rfl
    simp only [columnStep, step, hkey]

theorem steps_of_column {C : SpendSys → Stamped → Prop} {s u : SpendSys} {as : List Stamped}
    (h : Steps columnStep (fun s a => C s a ∧ s.Exact a) s as u) : Steps step C s as u := by
  induction h with
  | nil => exact .nil _
  | snoc _ hc hstep ih => exact ih.snoc hc.1 (columnStep_eq hc.2 ▸ hstep)

end SpendSys

/-- **The damage of late refunds is bounded.**  In any interleaving of reservations, refunds and bookings on
one key whose sums and differences are doubles and whose window stamps never decrease, a capped counter read
in the newest window falls short of the costs booked and the estimates outstanding in it by at most the
estimates reserved earlier and refunded in it, and no reservation is admitted that takes these past the cap by
more than that sum. -/
theorem late_refunds_bounded (w : Window) (k : ApiKeyRow) (hk : ∀ w, 0 ≤ (k.counter w).used) {cap : ℚ}
    (hcap : (k.counter w).cap = some cap) {as : List Stamped} {s : SpendSys}
    (h : Steps SpendSys.columnStep (fun s a => SpendSys.InOrder w s a ∧ s.Exact a) { key := k } as s) :
    (∀ t, (∀ r ∈ s.ran, r.at w ≤ t) →
      s.bookedAt w t + s.outstandingAt w t - (s.key.counter w).fresh t ≤ s.lateAt w t) ∧
    ∀ (st : Stamps) (c : ℚ), (∀ r ∈ s.ran, r.at w ≤ st.at w) → s.Exact ⟨st, .reserve c⟩ →
      (s.columnAdmits st c .daily && s.columnAdmits st c .monthly) = true →
      s.bookedAt w (st.at w) + s.outstandingAt w (st.at w) + c ≤ cap + s.lateAt w (st.at w) := by
  have hr := SpendSys.recorded_start hk
  have hi : s.Recorded ∧ (s.key.counter w).cap = some cap ∧ s.Covered w := by
    refine (SpendSys.steps_of_column h).inv (I := fun s => s.Recorded ∧ (s.key.counter w).cap = some cap ∧
      s.Covered w) ?_ ⟨hr, hcap, ?_⟩
    · rintro t a u ⟨ht, hcapt, hcov⟩ hc hs
      exact ⟨ht.step hs, (SpendSys.cap_of_step ht hs w).trans hcapt, hcov.step ht (by rw [hcapt]; rfl) hc hs⟩
    · intro t _
      exact hr.covered_of_unseen (by simp)
  obtain ⟨-, hcaps, hcov⟩ := hi
  refine ⟨fun t ht => ?_, fun st c hst hexact hres => ?_⟩
  · have hle := hcov t ht
    linarith
  · rw [SpendSys.columnAdmits_eq hexact, admitsKey, Bool.and_eq_true] at hres
    have hadm : (s.key.counter w).admits (st.at w) c (s.key.counter w) = true := by
      cases w with
      | daily => exact hres.1
      | monthly => exact hres.2
    have hroom : (s.key.counter w).fresh (st.at w) + c ≤ cap := by simpa [Counter.admits, hcaps] using hadm
    have hle := hcov (st.at w) hst
    linarith

/-- Two estimates of one dollar are refunded after midnight: of the 4 booked today the counter shows 2. -/
def twoRefunds : List Stamped :=
  [⟨⟨0, 0⟩, .reserve 1⟩, ⟨⟨0, 0⟩, .reserve 1⟩, ⟨⟨1, 0⟩, .book 4⟩, ⟨⟨1, 0⟩, .release ⟨⟨0, 0⟩, 1⟩⟩,
    ⟨⟨1, 0⟩, .release ⟨⟨0, 0⟩, 1⟩⟩]

theorem late_refunds_bounded_of_two_refunds :
    ∃ s, Steps SpendSys.columnStep (fun s a => SpendSys.InOrder .daily s a ∧ s.Exact a) { key := .sample }
        twoRefunds s ∧
      s.bookedAt .daily 1 = 4 ∧ s.key.daily.fresh 1 = 2 ∧
      s.bookedAt .daily 1 + s.outstandingAt .daily 1 - s.key.daily.fresh 1 ≤ s.lateAt .daily 1 := by
  have hrun : (execAll (guarded SpendSys.columnStep fun s a => SpendSys.InOrder .daily s a ∧ s.Exact a)
      { key := .sample } twoRefunds).map (fun s => (s.booked, s.key.daily.fresh 1, s.ran)) =
      some ([⟨⟨1, 0⟩, 4⟩], 2, [⟨1, 0⟩, ⟨1, 0⟩, ⟨1, 0⟩, ⟨0, 0⟩, ⟨0, 0⟩]) := by
    decide +kernel
  obtain ⟨s, hs, hobs⟩ := steps_of_observed hrun
  simp only [Prod.mk.injEq] at hobs
  obtain ⟨hbooked, hfresh, hran⟩ := hobs
  have hpos : ∀ w, 0 ≤ (ApiKeyRow.sample.counter w).used := by
    intro w
    cases w <;> norm_num [ApiKeyRow.counter, ApiKeyRow.sample]
  refine ⟨s, hs.of_guarded, by norm_num [SpendSys.bookedAt, hbooked, sumAt, Stamps.at], hfresh, ?_⟩
  refine (@late_refunds_bounded .daily .sample hpos 5 rfl _ _ hs.of_guarded).1 1 ?_
  rw [hran]
  decide

/-- A cost of 10 cents and an estimate of 70, as doubles. -/
def tenCents : ℚ := PyFloat.roundDouble (1 / 10)

def seventyCents : ℚ := PyFloat.roundDouble (7 / 10)

/-- After midnight 10 cents are booked and 70 reserved and refunded, all of today: no refund is late, and yet
the counter falls short of the 10 cents. -/
theorem rounded_refund_falls_short :
    ∃ s, Steps SpendSys.columnStep (SpendSys.InOrder .daily) { key := .sample }
        [⟨⟨0, 0⟩, .book 1⟩, ⟨⟨1, 0⟩, .book tenCents⟩, ⟨⟨1, 0⟩, .reserve seventyCents⟩,
          ⟨⟨1, 0⟩, .release ⟨⟨1, 0⟩, seventyCents⟩⟩] s ∧
      s.lateAt .daily 1 = 0 ∧
      0 < s.bookedAt .daily 1 + s.outstandingAt .daily 1 - s.key.daily.fresh 1 := by
  have hrun : (execAll (guarded SpendSys.columnStep (SpendSys.InOrder .daily)) { key := .sample }
      [⟨⟨0, 0⟩, .book 1⟩, ⟨⟨1, 0⟩, .book tenCents⟩, ⟨⟨1, 0⟩, .reserve seventyCents⟩,
        ⟨⟨1, 0⟩, .release ⟨⟨1, 0⟩, seventyCents⟩⟩]).map (fun s => (decide (s.lateAt .daily 1 = 0),
      decide (0 < s.bookedAt .daily 1 + s.outstandingAt .daily 1 - s.key.daily.fresh 1))) =
      some (true, true) := by
    decide +kernel
  obtain ⟨s, hs, hobs⟩ := steps_of_observed hrun
  simp only [Prod.mk.injEq, decide_eq_true_eq] at hobs
  exact ⟨s, hs.of_guarded, hobs.1, hobs.2⟩

end Broker.Routing
