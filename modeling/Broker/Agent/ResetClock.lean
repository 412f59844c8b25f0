import Broker.Agent.QuotaWait
import Broker.Agent.ResetMessage
import Broker.Lib.Calendar

/-!
# Broker.Agent.ResetClock — the next occurrence of a stated clock time

`_parse_resets_clock` reads `resets [month day | weekday] h[:mm] am/pm [(zone)]` and answers the time it
means, from the clock of the stated zone: today's, or that of the next such weekday or date.  In a zone
of one offset the answer is the earliest instant from now on whose local clock shows what is stated
(`resets_next_occurrence`).
-/

namespace Broker.Agent

open Broker.Lib Broker.Db

/-! ### Zones -/

/-- A zone: the offset of a wall time, which may come twice, and the offset in force at a UTC time, with
which of the two it shows. -/
structure Zone where
  utcoffset : Time → Bool → Time
  fromutc : Time → Time × Bool

/-- `UTC`. -/
def Zone.utc : Zone := ⟨fun _ _ => 0, fun _ => (0, false)⟩

/-- A zone of one offset. -/
structure Zone.Fixed (zone : Zone) (offset : Time) : Prop where
  utcoffset : ∀ t fold, zone.utcoffset t fold = offset
  fromutc : ∀ t, (zone.fromutc t).1 = offset

/-- A wall time of a zone, and which of two equal ones it is. -/
structure Wall where
  time : Datetime
  fold : Bool

/-- What the parser needs: word characters, the machine's clock and the zones (`none` where `ZoneInfo` raises
one of the exceptions that are caught). -/
structure ResetEnv where
  word : Char → Bool
  lib : DatetimeLib
  zoneInfo : String → Option Zone

/-! ### Wall times -/

/-- The time since the first instant of the calendar. -/
def sinceMin (t : Time) : ℤ := t - minTime

/-- A time of the clock. -/
def IsClock (hour minute : ℕ) : Prop := hour < 24 ∧ minute < 60

instance (hour minute : ℕ) : Decidable (IsClock hour minute) := inferInstanceAs (Decidable (_ ∧ _))

/-- Microseconds from midnight. -/
def clockMicros (hour minute : ℕ) : ℤ := (hour * 60 + minute) * 60000000

theorem clockMicros_bounds {hour minute : ℕ} (h : IsClock hour minute) :
    0 ≤ clockMicros hour minute ∧ clockMicros hour minute < Calendar.dayLength := by
  obtain ⟨hh, hm⟩ := h
  unfold clockMicros Calendar.dayLength
  omega

theorem inCalendar_iff {u : ℤ} : InCalendar (minTime + u) ↔ 0 ≤ u ∧ u < 3652059 * Calendar.dayLength := by
  have hlast : (3652059 * Calendar.dayLength : ℤ) = (maxTime - minTime) + 1 := by decide
  rw [hlast, Int.lt_add_one_iff]
  unfold InCalendar
  constructor
  · rintro ⟨hlo, hhi⟩
    exact ⟨by linarith, by linarith⟩
  · rintro ⟨hlo, hhi⟩
    exact ⟨by linarith, by linarith⟩

/-- The year of a wall time. -/
def yearAt (t : Time) : ℤ := Calendar.yearOf (Calendar.dayAt (sinceMin t))

theorem day_inCalendar {t : Time} (h : InCalendar t) :
    0 ≤ Calendar.dayAt (sinceMin t) ∧ Calendar.dayAt (sinceMin t) < 3652059 := by
  have hmin : minTime + sinceMin t = t := add_sub_cancel _ _
  rw [← hmin, inCalendar_iff] at h
  exact Calendar.dayAt_bounds h.1 h.2

theorem instant_inCalendar {day micros : ℤ} (hday : 0 ≤ day ∧ day < 3652059)
    (hmicros : 0 ≤ micros ∧ micros < Calendar.dayLength) :
    InCalendar (minTime + Calendar.instant day micros) :=
  inCalendar_iff.mpr (Calendar.instant_bounds hday hmicros)

theorem date_inCalendar {year : ℤ} {month day : ℕ} (hyear : 1 ≤ year ∧ year ≤ 9999)
    (hdate : Calendar.ValidDate year month day) :
    0 ≤ Calendar.dayOf year month day ∧ Calendar.dayOf year month day < 3652059 := by
  obtain ⟨hlo, hhi⟩ := Calendar.dayOf_bounds hdate
  have hfirst := Calendar.daysBeforeYear_mono hyear.1
  have hlast := Calendar.daysBeforeYear_mono (y := year + 1) (z := 10000) (by omega)
  have h1 : Calendar.daysBeforeYear 1 = 0 := by decide
  have h10000 : Calendar.daysBeforeYear 10000 = 3652059 := by decide
  omega

/-- `datetime(year, month, day, hour, minute)`. -/
def datetime (year : ℤ) (month day hour minute : ℕ) : Except DateError Datetime :=
  if h : ((1 ≤ year ∧ year ≤ 9999) ∧ Calendar.ValidDate year month day) ∧ IsClock hour minute then
    .ok ⟨minTime + Calendar.instant (Calendar.dayOf year month day) (clockMicros hour minute),
      instant_inCalendar (date_inCalendar h.1.1 h.1.2) (clockMicros_bounds h.2)⟩
  else .error .valueError

/-- `t.replace(hour=hour, minute=minute, second=0, microsecond=0)`. -/
def replaceClock (t : Datetime) (hour minute : ℕ) : Except DateError Datetime :=
  if h : IsClock hour minute then
    .ok ⟨minTime + Calendar.instant (Calendar.dayAt (sinceMin t.1)) (clockMicros hour minute),
      instant_inCalendar (day_inCalendar t.2) (clockMicros_bounds h)⟩
  else .error .valueError

/-- `t + timedelta(days=n)`. -/
def addDays (t : Datetime) (n : ℤ) : Except DateError Datetime := checked (t.1 + n * Calendar.dayLength)

/-! ### `_parse_resets_clock` -/

/-- `_MONTHS.get(m["mon"].lower())`. -/
def monthNumber (mon : List Char) : Option ℕ :=
  (["jan", "feb", "mar", "apr", "may", "jun", "jul", "aug", "sep", "oct", "nov", "dec"].idxOf?
    (String.ofList (mon.map lowerAscii))).map (· + 1)

/-- `_WEEKDAYS.get(m["wd"].lower())`. -/
def weekdayNumber (wd : List Char) : Option ℕ :=
  ["mon", "tue", "wed", "thu", "fri", "sat", "sun"].idxOf? (String.ofList (wd.map lowerAscii))

/-- `_TZ_TOKEN.fullmatch(name)`. -/
def isZoneToken (name : List Char) : Bool :=
  let isWord (extra : List Char) (part : List Char) : Bool :=
    !part.isEmpty && part.all fun c => c.isAlpha || c == '_' || extra.contains c
  match name.splitOn '/' with
  | [] => false
  | first :: rest => isWord [] first && rest.length ≤ 2 && rest.all (isWord ['+', '-'])

/-- The stated zone, UTC where none is; `none` where it is malformed or unknown. -/
def statedZone (env : ResetEnv) (tz : Option (List Char)) : Option Zone :=
  let name := PyConv.strip (if (tz.getD []).isEmpty then "UTC".toList else tz.getD [])
  if 64 < name.length ∨ isZoneToken name = false then none
  else if ["UTC", "GMT", "Z"].contains (String.ofList (name.map Char.toUpper)) then some .utc
  else env.zoneInfo (String.ofList name)

namespace ResetMatch

variable (m : ResetMatch)

/-- `int(m["hour"]) % 12 + (12 if m["ap"].lower() == "pm" else 0)`. -/
def hour24 : ℕ :=
  digitsValue m.hour % 12 + if m.ap.map lowerAscii = ['p', 'm'] then 12 else 0

/-- `int(m["min"] or 0)`. -/
def minute : ℕ := (m.min.map digitsValue).getD 0

/-- The date of this year, or of the next. -/
def nextDate (localNow : Wall) (month day : ℕ) : Except DateError Wall := do
  let at_ ← datetime (yearAt localNow.time.1) month day m.hour24 m.minute
  if at_.1 < localNow.time.1 then
    let at_ ← datetime (yearAt localNow.time.1 + 1) month day m.hour24 m.minute
    return ⟨at_, false⟩
  else return ⟨at_, false⟩

/-- Today or tomorrow. -/
def nextDay (localNow : Wall) : Except DateError Wall := do
  let at_ ← replaceClock localNow.time m.hour24 m.minute
  if at_.1 < localNow.time.1 then
    let at_ ← addDays at_ 1
    return ⟨at_, false⟩
  else return ⟨at_, localNow.fold⟩

/-- The next such weekday from today on, or a week later. -/
def nextWeekday (localNow : Wall) (wd : ℕ) : Except DateError Wall := do
  let at_ ← replaceClock localNow.time m.hour24 m.minute
  let today := Calendar.weekday (Calendar.dayAt (sinceMin localNow.time.1))
  let at_ ← addDays at_ ((wd - today) % 7)
  if at_.1 < localNow.time.1 then
    let at_ ← addDays at_ 7
    return ⟨at_, false⟩
  else return ⟨at_, false⟩

/-- The body of the `try`. -/
def wallAt (localNow : Wall) : Except DateError (Option Wall) :=
  match m.date with
  | .monthDay mon day =>
    match monthNumber mon with
    | none => .ok none
    | some month => (m.nextDate localNow month (digitsValue day)).map some
  | .weekday wd =>
    match weekdayNumber wd with
    | none => (replaceClock localNow.time m.hour24 m.minute).map fun _ => none
    | some wd => (m.nextWeekday localNow wd).map some
  | .any => (m.nextDay localNow).map some

end ResetMatch

/-- `now.astimezone(zone)`. -/
def astimezoneIn (env : ResetEnv) (zone : Zone) (now : Stamp) : Except DateError Wall := do
  let utcNow ← astimezone env.lib now
  let (offset, fold) := zone.fromutc utcNow.1
  let t ← checked (utcNow.1 + offset)
  return ⟨t, fold⟩

/-- `at.astimezone(UTC)`. -/
def Wall.toUtc (zone : Zone) (w : Wall) : Except DateError Datetime :=
  checked (w.time.1 - zone.utcoffset w.time.1 w.fold)

/-- `_parse_resets_clock`, up to `isoformat`. -/
def parseResetsClock (env : ResetEnv) (message : List Char) (now : Stamp) :
    Except DateError (Option Datetime) :=
  match (resets env.word).search message with
  | none => .ok none
  | some m =>
    if 1 ≤ digitsValue m.hour ∧ digitsValue m.hour ≤ 12 then
      match statedZone env m.tz with
      | none => .ok none
      | some zone => do
        let localNow ← astimezoneIn env zone now
        let at_ ← Checked.catching (fun e => decide (e = .valueError)) none (m.wallAt localNow)
        match at_ with
        | none => return none
        | some at_ => (at_.toUtc zone).map some
    else .ok none

/-! ### What is stated -/

/-- The day carries the stated date. -/
def ResetDate.On (day : ℤ) : ResetDate → Prop
  | .any => True
  | .weekday wd => ∃ n, weekdayNumber wd = some n ∧ Calendar.weekday day = n
  | .monthDay mon d => ∃ month year, monthNumber mon = some month ∧
      Calendar.ValidDate year month (digitsValue d) ∧ day = Calendar.dayOf year month (digitsValue d)

/-- A time of the 12-hour clock: 12 am is midnight. -/
def clock12 (hour : ℕ) (pm : Bool) : ℕ :=
  if pm then (if hour = 12 then 12 else hour + 12) else if hour = 12 then 0 else hour

namespace ResetMatch

/-- The match says `pm`. -/
def pm (m : ResetMatch) : Bool := m.ap.map lowerAscii = ['p', 'm']

/-- The wall clock shows the stated time, on the stated day. -/
def Shows (m : ResetMatch) (wall : Time) : Prop :=
  m.minute < 60 ∧
    Calendar.timeOfDay (sinceMin wall) = clockMicros (clock12 (digitsValue m.hour) m.pm) m.minute ∧
    m.date.On (Calendar.dayAt (sinceMin wall))

/-- The wall time that is meant: the first from now on that shows what is stated.  A date that this year does
not have, or whose next year is another than the next, is not read. -/
structure Means (m : ResetMatch) (localNow w : Time) : Prop where
  least : IsLeast {u | localNow ≤ u ∧ m.Shows u} w
  date : ∀ mon day, m.date = .monthDay mon day → ∀ month, monthNumber mon = some month →
    Calendar.ValidDate (yearAt localNow) month (digitsValue day) ∧ yearAt w ≤ yearAt localNow + 1 ∧
      yearAt w ≤ 9999

/-- Which of two equal wall times is meant: only that of today without a date is taken from the clock. -/
def meantFold (m : ResetMatch) (localNow : Wall) (w : Time) : Bool :=
  match m.date with
  | .any => decide (Calendar.dayAt (sinceMin w) = Calendar.dayAt (sinceMin localNow.time.1)) && localNow.fold
  | _ => false

end ResetMatch

section Clock

variable {m : ResetMatch} {localNow w : Wall} {t : Time}

theorem sinceMin_add (u : ℤ) : sinceMin (minTime + u) = u := add_sub_cancel_left _ _

theorem add_sinceMin (t : Time) : minTime + sinceMin t = t := add_sub_cancel _ _

theorem eq_add_iff {u : ℤ} : t = minTime + u ↔ sinceMin t = u := by
  constructor
  · rintro rfl
    exact sinceMin_add u
  · rintro rfl
    exact (add_sinceMin t).symm

theorem sinceMin_le {a b : Time} : sinceMin a ≤ sinceMin b ↔ a ≤ b := sub_le_sub_iff_right minTime

theorem sinceMin_lt {a b : Time} : sinceMin a < sinceMin b ↔ a < b := sub_lt_sub_iff_right minTime

/-- The least elements on the two scales. -/
theorem isLeast_sinceMin {P : ℤ → Prop} {a w : Time} :
    IsLeast {u : Time | a ≤ u ∧ P (sinceMin u)} w ↔ IsLeast {u : ℤ | sinceMin a ≤ u ∧ P u} (sinceMin w) := by
  constructor
  · rintro ⟨⟨hle, hw⟩, hleast⟩
    refine ⟨⟨sinceMin_le.mpr hle, hw⟩, ?_⟩
    rintro u ⟨hu, hP⟩
    rw [← sinceMin_add u] at hu hP ⊢
    exact sinceMin_le.mpr (hleast ⟨sinceMin_le.mp hu, hP⟩)
  · rintro ⟨⟨hle, hw⟩, hleast⟩
    refine ⟨⟨sinceMin_le.mp hle, hw⟩, ?_⟩
    rintro u ⟨hu, hP⟩
    exact sinceMin_le.mp (hleast ⟨sinceMin_le.mpr hu, hP⟩)

/-- The 24-hour clock. -/
theorem hour24_eq (h : 1 ≤ digitsValue m.hour ∧ digitsValue m.hour ≤ 12) :
    m.hour24 = clock12 (digitsValue m.hour) m.pm ∧ m.hour24 < 24 := by
  obtain ⟨hlo, hhi⟩ := h
  unfold ResetMatch.hour24 clock12 ResetMatch.pm
  by_cases hpm : m.ap.map lowerAscii = ['p', 'm']
  · simp only [hpm, if_true, decide_true]
    split_ifs
    · omega
    · omega
  · simp only [hpm, if_false, decide_false, Bool.false_eq_true]
    split_ifs
    · omega
    · omega

/-- A repeated time: the next one is meant. -/
theorem means_of_modEq {p r : ℤ} (hp : 0 < p) (hdate : ∀ mon day, m.date ≠ .monthDay mon day)
    (hshows : ∀ u : ℤ, m.Shows (minTime + u) ↔ u ≡ r [ZMOD p]) :
    m.Means localNow.time.1 t ↔ sinceMin t = Calendar.nextMod p r (sinceMin localNow.time.1) := by
  have hleast := Calendar.isLeast_nextMod (r := r) (a := sinceMin localNow.time.1) hp
  have hscale : IsLeast {u | localNow.time.1 ≤ u ∧ m.Shows u} t ↔
      IsLeast {u : ℤ | sinceMin localNow.time.1 ≤ u ∧ u ≡ r [ZMOD p]} (sinceMin t) := by
    rw [← isLeast_sinceMin]
    have hset : {u | localNow.time.1 ≤ u ∧ m.Shows u} =
        {u : Time | localNow.time.1 ≤ u ∧ sinceMin u ≡ r [ZMOD p]} := by
      ext u
      have hu := hshows (sinceMin u)
      rw [add_sinceMin] at hu
      exact and_congr_right fun _ => hu
    rw [hset]
  constructor
  · intro h
    exact (hscale.mp h.least).unique hleast
  · intro h
    refine ⟨hscale.mpr (h ▸ hleast), fun mon day heq => absurd heq (hdate mon day)⟩

theorem shows_any (hdate : m.date = .any) (hh : m.hour24 = clock12 (digitsValue m.hour) m.pm)
    (hc : IsClock m.hour24 m.minute) (u : ℤ) :
    m.Shows (minTime + u) ↔ u ≡ clockMicros m.hour24 m.minute [ZMOD Calendar.dayLength] := by
  rw [Calendar.modEq_day (clockMicros_bounds hc)]
  unfold ResetMatch.Shows
  rw [sinceMin_add, ← hh, hdate]
  simp [hc.2, ResetDate.On]

theorem shows_weekday {wd : List Char} {n : ℕ} (hdate : m.date = .weekday wd) (hn : weekdayNumber wd = some n)
    (hh : m.hour24 = clock12 (digitsValue m.hour) m.pm) (hc : IsClock m.hour24 m.minute) (u : ℤ) :
    m.Shows (minTime + u) ↔
      u ≡ Calendar.instant n (clockMicros m.hour24 m.minute) [ZMOD 7 * Calendar.dayLength] := by
  have hlt : n < 7 := (List.idxOf?_eq_some_iff.mp hn).1
  rw [Calendar.modEq_week (clockMicros_bounds hc) ⟨by omega, by omega⟩]
  unfold ResetMatch.Shows
  rw [sinceMin_add, ← hh, hdate]
  simp [hc.2, ResetDate.On, hn]

theorem replaceClock_of_clock {a : Datetime} (hc : IsClock m.hour24 m.minute) :
    ∃ b : Datetime, replaceClock a m.hour24 m.minute = .ok b ∧
      sinceMin b.1 = Calendar.instant (Calendar.dayAt (sinceMin a.1)) (clockMicros m.hour24 m.minute) := by
  unfold replaceClock
  rw [dif_pos hc]
  exact ⟨_, rfl, sinceMin_add _⟩

theorem addDays_eq {a : Datetime} {n : ℤ} :
    addDays a n = checked (minTime + (sinceMin a.1 + n * Calendar.dayLength)) := by
  unfold addDays
  rw [← add_assoc, add_sinceMin]

/-- Today's time of day, or tomorrow's. -/
theorem nextDay_eq (hdate : m.date = .any) (hc : IsClock m.hour24 m.minute) :
    m.nextDay localNow = (checked (minTime + Calendar.nextMod Calendar.dayLength
      (clockMicros m.hour24 m.minute) (sinceMin localNow.time.1))).map fun a =>
        ⟨a, m.meantFold localNow a.1⟩ := by
  obtain ⟨b, hb, hbt⟩ := replaceClock_of_clock (a := localNow.time) hc
  unfold ResetMatch.nextDay
  rw [hb, Calendar.nextMod_day (clockMicros_bounds hc), ← hbt]
  show (if b.1 < localNow.time.1 then _ else _) = _
  by_cases hlt : b.1 < localNow.time.1
  · rw [if_pos hlt, if_pos (sinceMin_lt.mpr hlt), addDays_eq, one_mul]
    cases hchecked : checked (minTime + (sinceMin b.1 + Calendar.dayLength)) with
    | error e => rfl
    | ok a =>
      have hday : Calendar.dayAt (sinceMin a.1) ≠ Calendar.dayAt (sinceMin localNow.time.1) := by
        rw [(checked_ok.mp hchecked).2, sinceMin_add, hbt, Calendar.instant_add_day,
          (Calendar.parts_instant _ (clockMicros_bounds hc)).1]
        omega
      simp [Except.map, ResetMatch.meantFold, hdate, hday]
  · rw [if_neg hlt, if_neg (mt sinceMin_lt.mp hlt), add_sinceMin, checked_ok.mpr ⟨b.2, rfl⟩]
    have hday : Calendar.dayAt (sinceMin b.1) = Calendar.dayAt (sinceMin localNow.time.1) := by
      rw [hbt, (Calendar.parts_instant _ (clockMicros_bounds hc)).1]
    simp [Except.map, ResetMatch.meantFold, hdate, hday]
    rfl

/-- The next such weekday from today on, or a week later. -/
theorem nextWeekday_eq (n : ℕ) (hc : IsClock m.hour24 m.minute) :
    m.nextWeekday localNow n = (checked (minTime + Calendar.nextMod (7 * Calendar.dayLength)
      (Calendar.instant n (clockMicros m.hour24 m.minute)) (sinceMin localNow.time.1))).map fun a =>
        ⟨a, false⟩ := by
  obtain ⟨b, hb, hbt⟩ := replaceClock_of_clock (a := localNow.time) hc
  unfold ResetMatch.nextWeekday
  rw [hb, Calendar.nextMod_week (clockMicros_bounds hc)]
  show (addDays b _ >>= _) = _
  rw [addDays_eq, hbt, Calendar.instant_add_days]
  -- the first such day from today on
  generalize hx : Calendar.instant (Calendar.dayAt (sinceMin localNow.time.1) +
    (n - Calendar.weekday (Calendar.dayAt (sinceMin localNow.time.1))) % 7)
      (clockMicros m.hour24 m.minute) = x
  by_cases hin : InCalendar (minTime + x)
  · have hok : checked (minTime + x) = .ok ⟨minTime + x, hin⟩ := checked_ok.mpr ⟨hin, rfl⟩
    rw [hok]
    show (if minTime + x < localNow.time.1 then _ else _) = _
    have hscale : minTime + x < localNow.time.1 ↔ x < sinceMin localNow.time.1 := by
      rw [← sinceMin_lt, sinceMin_add]
    by_cases hlt : x < sinceMin localNow.time.1
    · rw [if_pos (hscale.mpr hlt), if_pos hlt, addDays_eq, sinceMin_add]
      rfl
    · rw [if_neg (mt hscale.mp hlt), if_neg hlt, hok]
      rfl
  · have hnow := inCalendar_iff.mp ((add_sinceMin localNow.time.1).symm ▸ localNow.time.2)
    have hpos : 0 ≤ x := by
      have hday := (day_inCalendar localNow.time.2).1
      have hmod := Int.emod_nonneg (n - Calendar.weekday (Calendar.dayAt (sinceMin localNow.time.1)))
        (by decide : (7 : ℤ) ≠ 0)
      rw [← hx]
      exact (Calendar.instant_bounds ⟨by omega, Int.lt_succ _⟩ (clockMicros_bounds hc)).1
    have hlt : ¬x < sinceMin localNow.time.1 := by
      intro hlt
      exact hin (inCalendar_iff.mpr ⟨hpos, hlt.trans hnow.2⟩)
    rw [if_neg hlt]
    unfold checked
    rw [dif_neg hin]
    rfl

/-! ### A date -/

theorem year_bounds (a : Datetime) : 1 ≤ yearAt a.1 ∧ yearAt a.1 ≤ 9999 := by
  obtain ⟨hlo, hhi⟩ := day_inCalendar a.2
  obtain ⟨hyear, hnext⟩ := Calendar.yearOf_spec (Calendar.dayAt (sinceMin a.1))
  have h1 : Calendar.daysBeforeYear 1 = 0 := by decide
  have h10000 : Calendar.daysBeforeYear 10000 = 3652059 := by decide
  show 1 ≤ Calendar.yearOf _ ∧ Calendar.yearOf _ ≤ 9999
  generalize Calendar.yearOf (Calendar.dayAt (sinceMin a.1)) = y at hyear hnext
  constructor
  · by_contra hy
    have hmono := Calendar.daysBeforeYear_mono (y := y + 1) (z := 1) (by omega)
    omega
  · by_contra hy
    have hmono := Calendar.daysBeforeYear_mono (y := 10000) (z := y) (by omega)
    omega

/-- The stated time on a date. -/
def ResetMatch.onDate (m : ResetMatch) (y : ℤ) (month day : ℕ) : ℤ :=
  Calendar.instant (Calendar.dayOf y month day) (clockMicros m.hour24 m.minute)

section Date

variable {mon day : List Char} {month : ℕ} {y z : ℤ}

theorem year_onDate {d : ℕ} (hc : IsClock m.hour24 m.minute) (h : Calendar.ValidDate y month d) :
    Calendar.yearOf (Calendar.dayAt (m.onDate y month d)) = y := by
  unfold ResetMatch.onDate
  rw [(Calendar.parts_instant _ (clockMicros_bounds hc)).1]
  obtain ⟨hlo, hhi⟩ := Calendar.dayOf_bounds h
  exact Calendar.yearOf_eq hlo hhi

theorem onDate_lt {d : ℕ} (hc : IsClock m.hour24 m.minute) (hy : Calendar.ValidDate y month d)
    (hz : Calendar.ValidDate z month d) (hlt : y < z) : m.onDate y month d < m.onDate z month d := by
  obtain ⟨-, hyhi⟩ := Calendar.dayOf_bounds hy
  obtain ⟨hzlo, -⟩ := Calendar.dayOf_bounds hz
  have hmono := Calendar.daysBeforeYear_mono (y := y + 1) (z := z) (by omega)
  obtain ⟨hlo, hhi⟩ := clockMicros_bounds hc
  unfold ResetMatch.onDate Calendar.instant
  unfold Calendar.dayLength at hhi ⊢
  omega

theorem shows_date (hdate : m.date = .monthDay mon day) (hmonth : monthNumber mon = some month)
    (hh : m.hour24 = clock12 (digitsValue m.hour) m.pm) (hc : IsClock m.hour24 m.minute) :
    m.Shows t ↔ ∃ y, Calendar.ValidDate y month (digitsValue day) ∧
      sinceMin t = m.onDate y month (digitsValue day) := by
  unfold ResetMatch.Shows
  rw [← hh, hdate]
  constructor
  · rintro ⟨-, htime, month', y, hmonth', hvalid, hday⟩
    obtain rfl : month = month' := Option.some.inj (hmonth.symm.trans hmonth')
    refine ⟨y, hvalid, ?_⟩
    rw [← Calendar.instant_parts (sinceMin t), htime, hday]
    rfl
  · rintro ⟨y, hvalid, ht⟩
    obtain ⟨hday, htime⟩ := Calendar.parts_instant (Calendar.dayOf y month (digitsValue day))
      (clockMicros_bounds hc)
    rw [ht]
    exact ⟨hc.2, htime, month, y, hmonth, hvalid, hday⟩

theorem datetime_eq {d : ℕ} (hy : 1 ≤ y ∧ y ≤ 9999) (hvalid : Calendar.ValidDate y month d)
    (hc : IsClock m.hour24 m.minute) :
    datetime y month d m.hour24 m.minute = checked (minTime + m.onDate y month d) := by
  unfold datetime
  rw [dif_pos ⟨⟨hy, hvalid⟩, hc⟩]
  exact (checked_ok.mpr ⟨instant_inCalendar (date_inCalendar hy hvalid) (clockMicros_bounds hc), rfl⟩).symm

theorem datetime_error {d : ℕ}
    (h : ¬((y ≤ 9999 ∧ Calendar.ValidDate y month d) ∧ IsClock m.hour24 m.minute)) :
    datetime y month d m.hour24 m.minute = .error .valueError := by
  unfold datetime
  rw [dif_neg fun h' => h ⟨⟨h'.1.1.2, h'.1.2⟩, h'.2⟩]

/-- The year a date falls into is that of the clock or a later one. -/
theorem year_le_of_le {d : ℕ} (hc : IsClock m.hour24 m.minute) (hvalid : Calendar.ValidDate y month d)
    (hle : sinceMin localNow.time.1 ≤ m.onDate y month d) : yearAt localNow.time.1 ≤ y := by
  by_contra hlt
  have hyear := (Calendar.yearOf_spec (Calendar.dayAt (sinceMin localNow.time.1))).1
  obtain ⟨-, hhi⟩ := Calendar.dayOf_bounds hvalid
  have hmono := Calendar.daysBeforeYear_mono (y := y + 1) (z := yearAt localNow.time.1) (by omega)
  have hday : Calendar.dayAt (sinceMin localNow.time.1) ≤ Calendar.dayAt (m.onDate y month d) :=
    Int.ediv_le_ediv (by decide) hle
  unfold ResetMatch.onDate at hday
  rw [(Calendar.parts_instant _ (clockMicros_bounds hc)).1] at hday
  unfold yearAt at hlt hmono
  omega

theorem lt_onDate {d : ℕ} (hc : IsClock m.hour24 m.minute) (hvalid : Calendar.ValidDate y month d)
    (hlt : yearAt localNow.time.1 < y) : sinceMin localNow.time.1 < m.onDate y month d := by
  by_contra hle
  have hyear := (Calendar.yearOf_spec (Calendar.dayAt (sinceMin localNow.time.1))).2
  obtain ⟨hlo, -⟩ := Calendar.dayOf_bounds hvalid
  have hmono := Calendar.daysBeforeYear_mono (y := yearAt localNow.time.1 + 1) (z := y) (by omega)
  have hday : Calendar.dayAt (m.onDate y month d) ≤ Calendar.dayAt (sinceMin localNow.time.1) :=
    Int.ediv_le_ediv (by decide) (not_lt.mp hle)
  unfold ResetMatch.onDate at hday
  rw [(Calendar.parts_instant _ (clockMicros_bounds hc)).1] at hday
  unfold yearAt at hlt hmono
  omega

/-- A date is meant when it is this year's and not past, or next year's with this year's past. -/
theorem means_date (hdate : m.date = .monthDay mon day) (hmonth : monthNumber mon = some month)
    (hh : m.hour24 = clock12 (digitsValue m.hour) m.pm) (hc : IsClock m.hour24 m.minute) :
    m.Means localNow.time.1 t ↔
      Calendar.ValidDate (yearAt localNow.time.1) month (digitsValue day) ∧
        ∃ y, Calendar.ValidDate y month (digitsValue day) ∧ y ≤ 9999 ∧
          sinceMin t = m.onDate y month (digitsValue day) ∧
          (y = yearAt localNow.time.1 ∧ sinceMin localNow.time.1 ≤ sinceMin t ∨
            y = yearAt localNow.time.1 + 1 ∧
              m.onDate (yearAt localNow.time.1) month (digitsValue day) < sinceMin localNow.time.1) := by
  constructor
  · rintro ⟨⟨⟨hle, hshows⟩, hleast⟩, hread⟩
    obtain ⟨hthis, hnext, hlast⟩ := hread mon day hdate month hmonth
    obtain ⟨y, hvalid, ht⟩ := (shows_date hdate hmonth hh hc).mp hshows
    have hyear : yearAt t = y := by
      unfold yearAt
      rw [ht]
      exact year_onDate hc hvalid
    rw [hyear] at hnext hlast
    have hfrom : yearAt localNow.time.1 ≤ y := year_le_of_le hc hvalid (ht ▸ sinceMin_le.mpr hle)
    refine ⟨hthis, y, hvalid, hlast, ht, ?_⟩
    by_cases hy : y = yearAt localNow.time.1
    · exact .inl ⟨hy, sinceMin_le.mpr hle⟩
    · refine .inr ⟨by omega, ?_⟩
      by_contra hpast
      have hshown : m.Shows (minTime + m.onDate (yearAt localNow.time.1) month (digitsValue day)) :=
        (shows_date hdate hmonth hh hc).mpr ⟨_, hthis, sinceMin_add _⟩
      have hearly : t ≤ minTime + m.onDate (yearAt localNow.time.1) month (digitsValue day) := by
        refine hleast ⟨?_, hshown⟩
        rw [← sinceMin_le, sinceMin_add]
        exact not_lt.mp hpast
      rw [← sinceMin_le, sinceMin_add, ht] at hearly
      have hlater := onDate_lt hc hthis hvalid (by omega : yearAt localNow.time.1 < y)
      omega
  · rintro ⟨hthis, y, hvalid, hlast, ht, hcase⟩
    have hyear : yearAt t = y := by
      unfold yearAt
      rw [ht]
      exact year_onDate hc hvalid
    have hle : sinceMin localNow.time.1 ≤ sinceMin t := by
      rcases hcase with ⟨-, hle⟩ | ⟨hy, -⟩
      · exact hle
      · rw [ht]
        exact (lt_onDate hc hvalid (by omega)).le
    refine ⟨⟨⟨sinceMin_le.mp hle, (shows_date hdate hmonth hh hc).mpr ⟨y, hvalid, ht⟩⟩, ?_⟩, ?_⟩
    · rintro u ⟨hu, hshows⟩
      obtain ⟨z, hz, hut⟩ := (shows_date hdate hmonth hh hc).mp hshows
      rw [← sinceMin_le] at hu ⊢
      rw [ht, hut]
      rw [hut] at hu
      have hfrom := year_le_of_le hc hz hu
      have hyz : y ≤ z := by
        rcases hcase with ⟨hy, -⟩ | ⟨hy, hpast⟩
        · omega
        · by_contra hlt
          obtain rfl : z = yearAt localNow.time.1 := by omega
          omega
      rcases hyz.eq_or_lt with rfl | hlt
      · exact le_refl _
      · exact (onDate_lt hc hvalid hz hlt).le
    · intro mon' day' hdate' month' hmonth'
      obtain ⟨rfl, rfl⟩ := ResetDate.monthDay.inj (hdate.symm.trans hdate')
      obtain rfl : month = month' := Option.some.inj (hmonth.symm.trans hmonth')
      refine ⟨hthis, ?_, by omega⟩
      rcases hcase with ⟨hy, -⟩ | ⟨hy, -⟩
      · omega
      · omega

end Date

/-! ### What the body of the `try` answers -/

/-- The answer is the wall time that is meant; it overflows when that is past the calendar. -/
structure FindsMeant (m : ResetMatch) (localNow : Wall) (x : Except DateError (Option Wall)) : Prop where
  some_iff : ∀ w, x = .ok (some w) ↔
    m.Means localNow.time.1 w.time.1 ∧ w.fold = m.meantFold localNow w.time.1
  overflow_iff : x = .error .overflowError ↔ ∃ t, m.Means localNow.time.1 t ∧ ¬InCalendar t
  osError : x ≠ .error .osError

theorem findsMeant_next {u : ℤ} (hmeans : ∀ t, m.Means localNow.time.1 t ↔ sinceMin t = u) :
    FindsMeant m localNow ((checked (minTime + u)).map fun a => some ⟨a, m.meantFold localNow a.1⟩) := by
  by_cases hin : InCalendar (minTime + u)
  · have hok : checked (minTime + u) = .ok ⟨minTime + u, hin⟩ := checked_ok.mpr ⟨hin, rfl⟩
    rw [hok]
    refine ⟨fun w => ?_, ?_, fun h => nomatch h⟩
    · rw [hmeans, ← eq_add_iff]
      constructor
      · intro h
        obtain rfl := Option.some.inj (Except.ok.inj h)
        exact ⟨rfl, rfl⟩
      · rintro ⟨htime, hfold⟩
        obtain ⟨⟨a, ha⟩, fold⟩ := w
        obtain rfl : a = minTime + u := htime
        obtain rfl : fold = m.meantFold localNow (minTime + u) := hfold
        rfl
    · refine iff_of_false (fun h => nomatch h) ?_
      rintro ⟨t, ht, hout⟩
      rw [hmeans, ← eq_add_iff] at ht
      exact hout (ht ▸ hin)
  · have herror : checked (minTime + u) = .error .overflowError := by
      unfold checked
      rw [dif_neg hin]
    rw [herror]
    refine ⟨fun w => iff_of_false (fun h => nomatch h) ?_, iff_of_true rfl ?_, fun h => nomatch h⟩
    · rintro ⟨htime, -⟩
      rw [hmeans, ← eq_add_iff] at htime
      exact hin (htime ▸ w.time.2)
    · exact ⟨minTime + u, (hmeans _).mpr (sinceMin_add u), hin⟩

theorem findsMeant_none {x : Except DateError (Option Wall)} (hmeans : ∀ t, ¬m.Means localNow.time.1 t)
    (hx : x = .ok none ∨ x = .error .valueError) : FindsMeant m localNow x := by
  rcases hx with rfl | rfl
  · exact ⟨fun w => iff_of_false (fun h => nomatch h) fun h => hmeans _ h.1,
      iff_of_false (fun h => nomatch h) fun ⟨t, ht, _⟩ => hmeans t ht, fun h => nomatch h⟩
  · exact ⟨fun w => iff_of_false (fun h => nomatch h) fun h => hmeans _ h.1,
      iff_of_false (fun h => nomatch h) fun ⟨t, ht, _⟩ => hmeans t ht, fun h => nomatch h⟩

theorem map_some {α β ε : Type} (x : Except ε α) (f : α → β) :
    (x.map f).map some = x.map fun a => some (f a) := by
  cases x with
  | ok a => rfl
  | error e => rfl

theorem map_some_bind {α β ε : Type} (x : Except ε α) (f : α → β) :
    Except.map some (x >>= fun a => pure (f a)) = x.map fun a => some (f a) := by
  cases x with
  | ok a => rfl
  | error e => rfl

theorem replaceClock_error {a : Datetime} (hc : ¬IsClock m.hour24 m.minute) :
    replaceClock a m.hour24 m.minute = .error .valueError := by
  unfold replaceClock
  rw [dif_neg hc]

theorem nextDate_findsMeant {mon day : List Char} {month : ℕ} (hdate : m.date = .monthDay mon day)
    (hmonth : monthNumber mon = some month) (hh : m.hour24 = clock12 (digitsValue m.hour) m.pm)
    (hc : IsClock m.hour24 m.minute) (localNow : Wall) :
    FindsMeant m localNow ((m.nextDate localNow month (digitsValue day)).map some) := by
  have hmeans : ∀ t, m.Means localNow.time.1 t ↔ _ := fun t => means_date hdate hmonth hh hc
  have hfold : ∀ t, m.meantFold localNow t = false := by
    intro t
    unfold ResetMatch.meantFold
    rw [hdate]
  obtain ⟨hfirst, hlast⟩ := year_bounds localNow.time
  unfold ResetMatch.nextDate
  generalize hY : yearAt localNow.time.1 = Y at hmeans hfirst hlast
  by_cases hthis : Calendar.ValidDate Y month (digitsValue day)
  · have hin := instant_inCalendar (date_inCalendar ⟨hfirst, hlast⟩ hthis) (clockMicros_bounds hc)
    have hok : checked (minTime + m.onDate Y month (digitsValue day)) = .ok ⟨_, hin⟩ :=
      checked_ok.mpr ⟨hin, rfl⟩
    rw [datetime_eq ⟨hfirst, hlast⟩ hthis hc, hok]
    show FindsMeant m localNow (Except.map some
      (if minTime + m.onDate Y month (digitsValue day) < localNow.time.1 then _ else _))
    have hscale : minTime + m.onDate Y month (digitsValue day) < localNow.time.1 ↔
        m.onDate Y month (digitsValue day) < sinceMin localNow.time.1 := by
      rw [← sinceMin_lt, sinceMin_add]
    by_cases hpast : m.onDate Y month (digitsValue day) < sinceMin localNow.time.1
    · rw [if_pos (hscale.mpr hpast)]
      by_cases hnext : Y + 1 ≤ 9999 ∧ Calendar.ValidDate (Y + 1) month (digitsValue day)
      · rw [datetime_eq ⟨by omega, hnext.1⟩ hnext.2 hc]
        have hfound : FindsMeant m localNow _ := findsMeant_next
          (u := m.onDate (Y + 1) month (digitsValue day)) fun t => ?_
        · simp only [hfold] at hfound
          rwa [map_some_bind]
        · rw [hmeans t]
          constructor
          · rintro ⟨-, y, -, -, ht, ⟨rfl, hle⟩ | ⟨rfl, -⟩⟩
            · omega
            · exact ht
          · exact fun ht => ⟨hthis, Y + 1, hnext.2, hnext.1, ht, .inr ⟨rfl, hpast⟩⟩
      · rw [datetime_error fun h => hnext h.1]
        refine findsMeant_none (fun t ht => ?_) (.inr rfl)
        obtain ⟨-, y, hvalid, hyear, htime, ⟨rfl, hle⟩ | ⟨rfl, -⟩⟩ := (hmeans t).mp ht
        · omega
        · exact hnext ⟨hyear, hvalid⟩
    · rw [if_neg (mt hscale.mp hpast)]
      have hfound : FindsMeant m localNow _ := findsMeant_next
        (u := m.onDate Y month (digitsValue day)) fun t => ?_
      · simp only [hfold] at hfound
        rw [hok] at hfound
        exact hfound
      · rw [hmeans t]
        constructor
        · rintro ⟨-, y, -, -, ht, ⟨rfl, -⟩ | ⟨rfl, hlt⟩⟩
          · exact ht
          · exact absurd hlt hpast
        · exact fun ht => ⟨hthis, Y, hthis, hlast, ht, .inl ⟨rfl, by omega⟩⟩
  · rw [datetime_error fun h => hthis h.1.2]
    exact findsMeant_none (fun t ht => hthis ((hmeans t).mp ht).1) (.inr rfl)

/-- **What `_parse_resets_clock` takes for the stated wall time.** -/
theorem wallAt_findsMeant (h : 1 ≤ digitsValue m.hour ∧ digitsValue m.hour ≤ 12) (localNow : Wall) :
    FindsMeant m localNow (m.wallAt localNow) := by
  obtain ⟨hh, h24⟩ := hour24_eq h
  by_cases hc : IsClock m.hour24 m.minute
  · unfold ResetMatch.wallAt
    split
    · rename_i mon day hdate
      split
      · rename_i hmonth
        refine findsMeant_none (fun t ht => ?_) (.inl rfl)
        obtain ⟨-, -, -, hon⟩ := ht.least.1
        rw [hdate] at hon
        obtain ⟨month, y, hmonth', -⟩ := hon
        rw [hmonth] at hmonth'
        cases hmonth'
      · rename_i month hmonth
        exact nextDate_findsMeant hdate hmonth hh hc localNow
    · rename_i wd hdate
      split
      · rename_i hwd
        obtain ⟨b, hb, -⟩ := replaceClock_of_clock (a := localNow.time) hc
        rw [hb]
        refine findsMeant_none (fun t ht => ?_) (.inl rfl)
        obtain ⟨-, -, -, hon⟩ := ht.least.1
        rw [hdate] at hon
        obtain ⟨n, hn, -⟩ := hon
        rw [hwd] at hn
        cases hn
      · rename_i n hwd
        have hfold : ∀ t, m.meantFold localNow t = false := by
          intro t
          unfold ResetMatch.meantFold
          rw [hdate]
        have hnext : FindsMeant m localNow _ := findsMeant_next fun t => means_of_modEq (by decide)
          (by simp [hdate]) (shows_weekday hdate hwd hh hc)
        simp only [hfold] at hnext
        rw [nextWeekday_eq n hc, map_some]
        exact hnext
    · rename_i hdate
      rw [nextDay_eq hdate hc, map_some]
      exact findsMeant_next fun t => means_of_modEq (by decide) (by simp [hdate]) (shows_any hdate hh hc)
  · have hno : ∀ t, ¬m.Means localNow.time.1 t := fun t ht => hc ⟨h24, ht.least.1.2.1⟩
    refine findsMeant_none hno ?_
    unfold ResetMatch.wallAt
    split
    · split
      · exact .inl rfl
      · unfold ResetMatch.nextDate
        rw [datetime_error fun h => hc h.2]
        exact .inr rfl
    · rw [replaceClock_error hc]
      split
      · exact .inr rfl
      · unfold ResetMatch.nextWeekday
        rw [replaceClock_error hc]
        exact .inr rfl
    · unfold ResetMatch.nextDay
      rw [replaceClock_error hc]
      exact .inr rfl

/-! ### How far ahead -/

/-- A day, a week or a year of 366 days. -/
def ResetDate.horizon : ResetDate → ℤ
  | .any => Calendar.dayLength
  | .weekday _ => 7 * Calendar.dayLength
  | .monthDay _ _ => 366 * Calendar.dayLength

theorem onDate_horizon {month d : ℕ} (hc : IsClock m.hour24 m.minute)
    (hvalid : Calendar.ValidDate (yearAt localNow.time.1) month d) :
    m.onDate (yearAt localNow.time.1) month d < sinceMin localNow.time.1 + 366 * Calendar.dayLength := by
  have hyear := (Calendar.yearOf_spec (Calendar.dayAt (sinceMin localNow.time.1))).1
  have hnext := Calendar.daysBeforeYear_succ (yearAt localNow.time.1)
  obtain ⟨-, hhi⟩ := Calendar.dayOf_bounds hvalid
  have hlen : Calendar.daysBeforeYear (yearAt localNow.time.1 + 1) ≤
      Calendar.daysBeforeYear (yearAt localNow.time.1) + 366 := by
    rw [hnext]
    split_ifs
    · omega
    · omega
  obtain ⟨hlo, hclock⟩ := clockMicros_bounds hc
  have hparts := Calendar.instant_parts (sinceMin localNow.time.1)
  have htime : 0 ≤ Calendar.timeOfDay (sinceMin localNow.time.1) := Int.emod_nonneg _ (by decide)
  rw [← hparts]
  change Calendar.daysBeforeYear (yearAt localNow.time.1) ≤ _ at hyear
  unfold ResetMatch.onDate Calendar.instant
  unfold Calendar.dayLength at hclock ⊢
  omega

/-- A week stays within the next year. -/
theorem year_le_of_week (h : sinceMin t < sinceMin localNow.time.1 + 7 * Calendar.dayLength) :
    yearAt t ≤ yearAt localNow.time.1 + 1 := by
  have hnow := (Calendar.yearOf_spec (Calendar.dayAt (sinceMin localNow.time.1))).2
  have hthen := (Calendar.yearOf_spec (Calendar.dayAt (sinceMin t))).1
  have hday : Calendar.dayAt (sinceMin t) ≤ Calendar.dayAt (sinceMin localNow.time.1) + 7 := by
    unfold Calendar.dayAt
    unfold Calendar.dayLength at h ⊢
    omega
  change Calendar.daysBeforeYear (yearAt t) ≤ _ at hthen
  change _ < Calendar.daysBeforeYear (yearAt localNow.time.1 + 1) at hnow
  by_contra hlt
  have hmono := Calendar.daysBeforeYear_mono (y := yearAt localNow.time.1 + 1) (z := yearAt t) (by omega)
  omega

theorem means_horizon (h : 1 ≤ digitsValue m.hour ∧ digitsValue m.hour ≤ 12)
    (hmeans : m.Means localNow.time.1 t) :
    sinceMin t < sinceMin localNow.time.1 + m.date.horizon ∧ yearAt t ≤ yearAt localNow.time.1 + 1 := by
  obtain ⟨hh, h24⟩ := hour24_eq h
  obtain ⟨-, hmin, -, hon⟩ := hmeans.least.1
  have hc : IsClock m.hour24 m.minute := ⟨h24, hmin⟩
  cases hdate : m.date with
  | any =>
    have hnext := (means_of_modEq (by decide) (by simp [hdate]) (shows_any hdate hh hc)).mp hmeans
    have hlt : sinceMin t < sinceMin localNow.time.1 + Calendar.dayLength := by
      rw [hnext]
      exact Calendar.nextMod_lt (by decide)
    refine ⟨hlt, year_le_of_week ?_⟩
    have hpos : 0 < Calendar.dayLength := by decide
    linarith
  | weekday wd =>
    rw [hdate] at hon
    obtain ⟨n, hn, -⟩ := hon
    have hnext := (means_of_modEq (by decide) (by simp [hdate]) (shows_weekday hdate hn hh hc)).mp hmeans
    have hlt : sinceMin t < sinceMin localNow.time.1 + 7 * Calendar.dayLength := by
      rw [hnext]
      exact Calendar.nextMod_lt (by decide)
    exact ⟨hlt, year_le_of_week hlt⟩
  | monthDay mon day =>
    rw [hdate] at hon
    obtain ⟨month, -, hmonth, -⟩ := hon
    refine ⟨?_, (hmeans.date mon day hdate month hmonth).2.1⟩
    obtain ⟨hthis, y, -, -, htime, hcase⟩ := (means_date hdate hmonth hh hc).mp hmeans
    show sinceMin t < sinceMin localNow.time.1 + 366 * Calendar.dayLength
    rw [htime]
    rcases hcase with ⟨rfl, -⟩ | ⟨rfl, hpast⟩
    · exact onDate_horizon hc hthis
    · have hstep := Calendar.dayOf_succ_le (yearAt localNow.time.1) month (digitsValue day)
      unfold ResetMatch.onDate Calendar.instant at hpast ⊢
      unfold Calendar.dayLength at hpast ⊢
      omega

/-! ### The answer -/

/-- What an answer comes from. -/
theorem parseResetsClock_some {env : ResetEnv} {message : List Char} {now : Stamp} {answer : Datetime}
    (h : parseResetsClock env message now = .ok (some answer)) :
    ∃ (m : ResetMatch) (zone : Zone) (utcNow : Datetime) (localNow w : Wall), (resets env.word).search message = some m ∧
      (1 ≤ digitsValue m.hour ∧ digitsValue m.hour ≤ 12) ∧ statedZone env m.tz = some zone ∧
      astimezone env.lib now = .ok utcNow ∧
      localNow.time.1 = utcNow.1 + (zone.fromutc utcNow.1).1 ∧ m.Means localNow.time.1 w.time.1 ∧
      answer.1 = w.time.1 - zone.utcoffset w.time.1 w.fold := by
  unfold parseResetsClock at h
  split at h
  · cases h
  · rename_i m hm
    by_cases hhour : 1 ≤ digitsValue m.hour ∧ digitsValue m.hour ≤ 12
    · rw [if_pos hhour] at h
      split at h
      · cases h
      rename_i zone hzone
      obtain ⟨localNow, hlocal, hrest⟩ := Checked.bind_ok.mp h
      obtain ⟨at_, hat, hend⟩ := Checked.bind_ok.mp hrest
      obtain ⟨utcNow, hutc, hwall⟩ := Checked.bind_ok.mp hlocal
      obtain ⟨u, hu, hnow⟩ := Checked.bind_ok.mp hwall
      obtain rfl := Except.ok.inj hnow
      cases at_ with
      | none => cases hend
      | some w =>
        rcases Checked.catching_ok hat with hat | ⟨hnone, -⟩
        · obtain ⟨hmeans, -⟩ := ((wallAt_findsMeant hhour _).some_iff w).mp hat
          cases htoUtc : w.toUtc zone with
          | error e =>
            simp [htoUtc, Except.map] at hend
          | ok a =>
            obtain rfl : a = answer := by simpa [htoUtc, Except.map] using hend
            exact ⟨m, zone, utcNow, _, w, hm, hhour, hzone, hutc, (checked_ok.mp hu).2, hmeans,
              (checked_ok.mp htoUtc).2⟩
        · cases hnone
    · rw [if_neg hhour] at h
      cases h

/-- **A stated reset time means its next occurrence**: in a zone of one offset it is the earliest instant from
now on whose local clock shows the stated time on the stated date or weekday, less than a day, a week or a
year away. -/
theorem resets_next_occurrence (env : ResetEnv) (message : String) (now : Stamp) (answer : Datetime)
    (h : parseResetsClock env message.toList now = .ok (some answer)) :
    ∃ m zone utcNow, (resets env.word).search message.toList = some m ∧
      (∃ pre s post, message.toList = pre ++ (s ++ post) ∧ m.Spells s) ∧
      (1 ≤ digitsValue m.hour ∧ digitsValue m.hour ≤ 12) ∧ statedZone env m.tz = some zone ∧
      astimezone env.lib now = .ok utcNow ∧
      ∀ offset, zone.Fixed offset →
        IsLeast {u : Time | utcNow.1 ≤ u ∧ m.Shows (u + offset)} answer.1 ∧
        answer.1 < utcNow.1 + m.date.horizon ∧
        yearAt (answer.1 + offset) ≤ yearAt (utcNow.1 + offset) + 1 := by
  obtain ⟨m, zone, utcNow, localNow, w, hm, hhour, hzone, hutc, hlocal, hmeans, hanswer⟩ :=
    parseResetsClock_some h
  refine ⟨m, zone, utcNow, hm, resets_spells hm, hhour, hzone, hutc, fun offset hfixed => ?_⟩
  rw [hfixed.fromutc] at hlocal
  rw [hfixed.utcoffset] at hanswer
  have hw : w.time.1 = answer.1 + offset := by
    rw [hanswer]
    exact (sub_add_cancel _ _).symm
  obtain ⟨hhorizon, hyear⟩ := means_horizon hhour hmeans
  obtain ⟨⟨hle, hshows⟩, hleast⟩ := hmeans.least
  rw [hlocal] at hle hyear hleast
  rw [hw] at hle hshows hleast hyear
  refine ⟨⟨⟨le_of_add_le_add_right hle, hshows⟩, ?_⟩, ?_, hyear⟩
  · rintro u ⟨hu, hus⟩
    have hwall := hleast ⟨add_le_add_left hu offset, hus⟩
    exact le_of_add_le_add_right hwall
  · rw [hw, hlocal] at hhorizon
    unfold sinceMin at hhorizon
    linarith

end Clock

/-! ### An evening in New York -/

def eastern : Zone := ⟨fun _ _ => -18000000000, fun _ => (-18000000000, false)⟩

/-- ASCII words, a machine on UTC, and one zone besides. -/
def easternEnv : ResetEnv where
  word c := c.isAlphanum || c == '_'
  lib := { fromisoformat := fun _ => none, localToUtc := .ok }
  zoneInfo name := if name = "EST" then some eastern else none

/-- 12 October 2026, 10:00 UTC. -/
def mondayMorning : Datetime := ⟨1791799200000000, by decide⟩

/-- 16 October 2026, 1:00 UTC: the evening of the 15th. -/
def eveningAnswer : Datetime := ⟨1792112400000000, by decide⟩

def eveningMatch : ResetMatch :=
  ⟨.monthDay "Oct".toList "15".toList, "8".toList, none, "pm".toList, some "EST".toList⟩

theorem resets_next_occurrence_evening :
    IsLeast {u : Time | mondayMorning.1 ≤ u ∧ eveningMatch.Shows (u + -18000000000)} eveningAnswer.1 := by
  have hparse : parseResetsClock easternEnv "resets Oct 15, 8pm (EST)".toList (.aware mondayMorning 0) =
      .ok (some eveningAnswer) := rfl
  have hfound : (resets easternEnv.word).search "resets Oct 15, 8pm (EST)".toList = some eveningMatch := rfl
  have heastern : statedZone easternEnv eveningMatch.tz = some eastern := rfl
  have hnow : astimezone easternEnv.lib (.aware mondayMorning 0) = .ok mondayMorning := rfl
  obtain ⟨m, zone, utcNow, hm, -, -, hzone, hutc, hleast⟩ :=
    resets_next_occurrence easternEnv "resets Oct 15, 8pm (EST)" (.aware mondayMorning 0) eveningAnswer hparse
  obtain rfl : eveningMatch = m := Option.some.inj (hfound.symm.trans hm)
  obtain rfl : eastern = zone := Option.some.inj (heastern.symm.trans hzone)
  obtain rfl : mondayMorning = utcNow := Except.ok.inj (hnow.symm.trans hutc)
  exact (hleast (-18000000000) ⟨fun _ _ => rfl, fun _ => rfl⟩).1

end Broker.Agent
