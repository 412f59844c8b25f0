import Mathlib.Data.Int.ModEq
import Mathlib.Order.Bounds.Basic
import Mathlib.Tactic.Ring
import Mathlib.Tactic.Linarith

/-!
# Broker.Lib.Calendar — days and years of the proleptic Gregorian calendar

Days are counted from the first of January of the year 1, a Monday; instants are microseconds from its
midnight.  `yearOf` is the year of a day (`yearOf_spec`).  The next instant of a repeated time is a
residue away (`isLeast_nextMod`).
-/

namespace Broker.Lib

namespace Calendar

/-! ### Years -/

def isLeap (y : ℤ) : Bool := y % 4 = 0 ∧ (y % 100 ≠ 0 ∨ y % 400 = 0)

/-- The days before the first of January. -/
def daysBeforeYear (y : ℤ) : ℤ := (y - 1) * 365 + (y - 1) / 4 - (y - 1) / 100 + (y - 1) / 400

theorem daysBeforeYear_succ (y : ℤ) :
    daysBeforeYear (y + 1) = daysBeforeYear y + 365 + if isLeap y = true then 1 else 0 := by
  unfold daysBeforeYear isLeap
  by_cases h4 : y % 4 = 0
  · by_cases h : y % 100 ≠ 0 ∨ y % 400 = 0
    · simp only [h4, h, and_self, decide_true, if_true]
      omega
    · simp only [h, and_false, decide_false, Bool.false_eq_true, if_false]
      omega
  · simp only [h4, false_and, decide_false, Bool.false_eq_true, if_false]
    omega

theorem daysBeforeYear_mono {y z : ℤ} (h : y ≤ z) : daysBeforeYear y + 365 * (z - y) ≤ daysBeforeYear z := by
  unfold daysBeforeYear
  omega

/-- The year of a day: whole cycles of 400, 100, 4 and 1 years; the last day of a cycle would begin a fifth
part of it. -/
def yearOf (d : ℤ) : ℤ :=
  let n400 := d / 146097
  let n100 := d % 146097 / 36524
  let n4 := d % 146097 % 36524 / 1461
  let n1 := d % 146097 % 36524 % 1461 / 365
  let year := n400 * 400 + n100 * 100 + n4 * 4 + n1 + 1
  if n1 = 4 ∨ n100 = 4 then year - 1 else year

/-- The days before a year that is `e` years into a cycle of 4, the `c`-th of a century, the `b`-th of 400
years. -/
theorem daysBeforeYear_cycles {a b c e : ℤ} (hb : 0 ≤ b ∧ b ≤ 3) (hc : 0 ≤ c ∧ c ≤ 24) (he : 0 ≤ e ∧ e ≤ 3) :
    daysBeforeYear (a * 400 + b * 100 + c * 4 + e + 1) = a * 146097 + b * 36524 + c * 1461 + e * 365 := by
  have h4 : (a * 400 + b * 100 + c * 4 + e + 1 - 1) / 4 = a * 100 + b * 25 + c := by omega
  have h100 : (a * 400 + b * 100 + c * 4 + e + 1 - 1) / 100 = a * 4 + b := by omega
  have h400 : (a * 400 + b * 100 + c * 4 + e + 1 - 1) / 400 = a := by omega
  unfold daysBeforeYear
  rw [h4, h100, h400]
  ring

theorem yearOf_spec (d : ℤ) : daysBeforeYear (yearOf d) ≤ d ∧ d < daysBeforeYear (yearOf d + 1) := by
  have hlast : ∀ y, daysBeforeYear y + 365 ≤ daysBeforeYear (y + 1) := by
    intro y
    rw [daysBeforeYear_succ]
    split_ifs
    · omega
    · omega
  unfold yearOf
  generalize ha : d / 146097 = a
  generalize hb : d % 146097 / 36524 = b
  generalize hc : d % 146097 % 36524 / 1461 = c
  generalize he : d % 146097 % 36524 % 1461 / 365 = e
  have hbounds : 0 ≤ b ∧ b ≤ 4 ∧ 0 ≤ c ∧ c ≤ 24 ∧ 0 ≤ e ∧ e ≤ 4 := by omega
  obtain ⟨hb0, hb4, hc0, hc24, he0, he4⟩ := hbounds
  dsimp only
  by_cases h100 : b = 4
  · -- the last day of 400 years
    have hrest : c = 0 ∧ e = 0 := by omega
    obtain ⟨rfl, rfl⟩ := hrest
    rw [if_pos (.inr h100), h100]
    have hstart := daysBeforeYear_cycles (a := a) (b := 3) (c := 24) (e := 3) (by omega) (by omega) (by omega)
    have hend := daysBeforeYear_cycles (a := a + 1) (b := 0) (c := 0) (e := 0) (by omega) (by omega) (by omega)
    ring_nf at hstart hend ⊢
    omega
  · have hb3 : b ≤ 3 := by omega
    by_cases h1 : e = 4
    · -- the last day of 4 years
      have hc23 : c ≤ 23 := by omega
      rw [if_pos (.inl h1), h1]
      have hstart := daysBeforeYear_cycles (a := a) (b := b) (c := c) (e := 3) (by omega) (by omega) (by omega)
      have hend := daysBeforeYear_cycles (a := a) (b := b) (c := c + 1) (e := 0) (by omega) (by omega) (by omega)
      ring_nf at hstart hend ⊢
      omega
    · rw [if_neg (by omega)]
      have hstart := daysBeforeYear_cycles (a := a) (b := b) (c := c) (e := e) (by omega) (by omega) (by omega)
      have hend := hlast (a * 400 + b * 100 + c * 4 + e + 1)
      omega

theorem yearOf_eq {d y : ℤ} (hlo : daysBeforeYear y ≤ d) (hhi : d < daysBeforeYear (y + 1)) : yearOf d = y := by
  obtain ⟨hlo', hhi'⟩ := yearOf_spec d
  rcases lt_trichotomy (yearOf d) y with hlt | heq | hgt
  · have hmono := daysBeforeYear_mono (y := yearOf d + 1) (z := y) (by omega)
    omega
  · exact heq
  · have hmono := daysBeforeYear_mono (y := y + 1) (z := yearOf d) (by omega)
    omega

/-! ### Dates -/

/-- The days before the first of a month. -/
def daysBeforeMonth (leap : Bool) (m : ℕ) : ℤ :=
  [0, 31, 59, 90, 120, 151, 181, 212, 243, 273, 304, 334].getD (m - 1) 0 + if leap = true ∧ 2 < m then 1 else 0

def daysInMonth (leap : Bool) (m : ℕ) : ℤ :=
  if m = 2 ∧ leap = true then 29 else [31, 28, 31, 30, 31, 30, 31, 31, 30, 31, 30, 31].getD (m - 1) 0

/-- The date exists. -/
def ValidDate (y : ℤ) (m d : ℕ) : Prop := 1 ≤ m ∧ m ≤ 12 ∧ 1 ≤ d ∧ (d : ℤ) ≤ daysInMonth (isLeap y) m

instance (y : ℤ) (m d : ℕ) : Decidable (ValidDate y m d) := inferInstanceAs (Decidable (_ ∧ _ ∧ _ ∧ _))

/-- The day of a date. -/
def dayOf (y : ℤ) (m d : ℕ) : ℤ := daysBeforeYear y + daysBeforeMonth (isLeap y) m + d - 1

theorem daysBeforeMonth_bounds (leap : Bool) {m : ℕ} (h1 : 1 ≤ m) (h12 : m ≤ 12) :
    0 ≤ daysBeforeMonth leap m ∧
      daysBeforeMonth leap m + daysInMonth leap m ≤ 365 + if leap = true then 1 else 0 := by
  have hall : ∀ leap : Bool, ∀ m : Fin 13, 1 ≤ m.1 → 0 ≤ daysBeforeMonth leap m ∧
      daysBeforeMonth leap m + daysInMonth leap m ≤ 365 + if leap = true then 1 else 0 := by decide
  exact hall leap ⟨m, by omega⟩ h1

theorem daysBeforeMonth_leap (m : ℕ) :
    daysBeforeMonth false m ≤ daysBeforeMonth true m ∧ daysBeforeMonth true m ≤ daysBeforeMonth false m + 1 := by
  unfold daysBeforeMonth
  by_cases h : 2 < m
  · simp [h]
  · simp [h]

/-- A date falls into its year. -/
theorem dayOf_bounds {y : ℤ} {m d : ℕ} (h : ValidDate y m d) :
    daysBeforeYear y ≤ dayOf y m d ∧ dayOf y m d < daysBeforeYear (y + 1) := by
  obtain ⟨hm1, hm12, hd1, hdim⟩ := h
  have hyear := daysBeforeYear_succ y
  obtain ⟨hmonth0, hmonth⟩ := daysBeforeMonth_bounds (isLeap y) hm1 hm12
  unfold dayOf
  omega

/-- The same date a year later is at most 366 days away. -/
theorem dayOf_succ_le (y : ℤ) (m d : ℕ) : dayOf (y + 1) m d ≤ dayOf y m d + 366 := by
  have hyear := daysBeforeYear_succ y
  have hmonth := daysBeforeMonth_leap m
  unfold dayOf
  cases hy : isLeap y with
  | true =>
    rw [hy] at hyear
    cases hz : isLeap (y + 1) with
    | true =>
      simp only [if_true] at hyear
      omega
    | false =>
      simp only [if_true] at hyear
      omega
  | false =>
    rw [hy] at hyear
    simp only [Bool.false_eq_true, if_false] at hyear
    cases hz : isLeap (y + 1) with
    | true => omega
    | false => omega

/-! ### Instants -/

/-- Microseconds of a day. -/
def dayLength : ℤ := 86400000000

/-- The day of an instant. -/
def dayAt (t : ℤ) : ℤ := t / dayLength

/-- Its time of day. -/
def timeOfDay (t : ℤ) : ℤ := t % dayLength

/-- The weekday of a day, Monday being 0. -/
def weekday (d : ℤ) : ℤ := d % 7

/-- The instant at a time of a day. -/
def instant (day micros : ℤ) : ℤ := day * dayLength + micros

section Instants

variable {t n micros wd : ℤ}

theorem dayAt_bounds (h0 : 0 ≤ t) (h : t < n * dayLength) : 0 ≤ dayAt t ∧ dayAt t < n := by
  unfold dayAt
  unfold dayLength at h ⊢
  omega

theorem instant_bounds {day : ℤ} (hday : 0 ≤ day ∧ day < n) (hmicros : 0 ≤ micros ∧ micros < dayLength) :
    0 ≤ instant day micros ∧ instant day micros < n * dayLength := by
  unfold instant
  unfold dayLength at hmicros ⊢
  omega

theorem instant_parts (t : ℤ) : instant (dayAt t) (timeOfDay t) = t := by
  unfold instant dayAt timeOfDay dayLength
  omega

theorem instant_add_days (day k micros : ℤ) :
    instant day micros + k * dayLength = instant (day + k) micros := by
  unfold instant
  ring

theorem instant_add_day (day micros : ℤ) : instant day micros + dayLength = instant (day + 1) micros := by
  unfold instant
  ring

theorem parts_instant (day : ℤ) (hmicros : 0 ≤ micros ∧ micros < dayLength) :
    dayAt (instant day micros) = day ∧ timeOfDay (instant day micros) = micros := by
  unfold dayAt timeOfDay instant
  unfold dayLength at hmicros ⊢
  omega

/-! ### The next instant of a repeated time -/

/-- The next instant, from `a` on, that is `r` modulo `p`. -/
def nextMod (p r a : ℤ) : ℤ := a + (r - a) % p

theorem isLeast_nextMod {p r a : ℤ} (hp : 0 < p) : IsLeast {t | a ≤ t ∧ t ≡ r [ZMOD p]} (nextMod p r a) := by
  unfold nextMod
  constructor
  · have hnonneg := Int.emod_nonneg (r - a) hp.ne'
    refine ⟨by omega, ?_⟩
    have hmod : a + (r - a) % p ≡ a + (r - a) [ZMOD p] := (Int.mod_modEq _ _).add_left a
    rwa [add_sub_cancel] at hmod
  · rintro t ⟨hle, hmod⟩
    have hres : (t - a) % p = (r - a) % p := hmod.sub_right a
    have hquot : 0 ≤ p * ((t - a) / p) := mul_nonneg hp.le (Int.ediv_nonneg (by omega) hp.le)
    have hsplit := Int.mul_ediv_add_emod (t - a) p
    linarith

theorem nextMod_lt {p r a : ℤ} (hp : 0 < p) : nextMod p r a < a + p := by
  have h := Int.emod_lt_of_pos (r - a) hp
  unfold nextMod
  omega

/-- The next time of day is today's or tomorrow's. -/
theorem nextMod_day (hmicros : 0 ≤ micros ∧ micros < dayLength) :
    nextMod dayLength micros t =
      if instant (dayAt t) micros < t then instant (dayAt t) micros + dayLength
      else instant (dayAt t) micros := by
  unfold nextMod instant dayAt
  unfold dayLength at hmicros ⊢
  split_ifs with h
  · omega
  · omega

/-- The next time of a weekday is that of the next such day from today on, or a week later. -/
theorem nextMod_week (hmicros : 0 ≤ micros ∧ micros < dayLength) :
    nextMod (7 * dayLength) (instant wd micros) t =
      if instant (dayAt t + (wd - weekday (dayAt t)) % 7) micros < t then
        instant (dayAt t + (wd - weekday (dayAt t)) % 7) micros + 7 * dayLength
      else instant (dayAt t + (wd - weekday (dayAt t)) % 7) micros := by
  unfold nextMod instant weekday dayAt
  unfold dayLength at hmicros ⊢
  split_ifs with h
  · omega
  · omega

theorem modEq_day (hmicros : 0 ≤ micros ∧ micros < dayLength) :
    t ≡ micros [ZMOD dayLength] ↔ timeOfDay t = micros := by
  unfold Int.ModEq timeOfDay
  unfold dayLength at hmicros ⊢
  omega

theorem modEq_week (hmicros : 0 ≤ micros ∧ micros < dayLength) (hwd : 0 ≤ wd ∧ wd < 7) :
    t ≡ instant wd micros [ZMOD 7 * dayLength] ↔ timeOfDay t = micros ∧ weekday (dayAt t) = wd := by
  unfold Int.ModEq timeOfDay weekday dayAt instant
  unfold dayLength at hmicros ⊢
  omega

end Instants

end Calendar

end Broker.Lib
