import Broker.Agent.ResetClock

/-!
# Broker.Agent.ResetAt — when `parse_reset_at` returns

`parse_reset_at` tries an epoch behind a bar, a number of minutes or hours, and a clock time.  Python's
clock stops at the years 1 and 9999; of what is raised past them only a `ValueError` is caught.
`ResetFits` says when nothing past them is asked for (`parseResetAt_returns_iff`).
-/

namespace Broker.Agent

open Broker.Lib Broker.Db Matcher

/-! ### `parse_reset_at` -/

/-- `_MAX_SCAN`. -/
def maxScan : ℕ := 2000

/-- `datetime.fromtimestamp(n, UTC)`. -/
def fromtimestamp (n : ℕ) : Except DateError Datetime := checked (n * 1000000)

/-- `int(digits)`: a longer text is refused. -/
def intOfDigits (digits : List Char) : Except DateError ℕ :=
  if 4300 < digits.length then .error .valueError else .ok (digitsValue digits)

/-- `timedelta.max` in microseconds. -/
def maxDelta : ℤ := 86399999999999999999

/-- The microseconds of an hour or a minute. -/
def stepOf (unit : List Char) : ℤ := if (unit.map lowerAscii).head? = some 'h' then 3600000000 else 60000000

/-- `n * step` as a `timedelta`. -/
def timedelta (micros : ℤ) : Except DateError ℤ :=
  if maxDelta < micros then .error .overflowError else .ok micros

/-- `now + delta`. -/
def Stamp.add (now : Stamp) (delta : ℤ) : Except DateError Stamp :=
  match now with
  | .naive t => (checked (t.1 + delta)).map .naive
  | .aware t offset => (checked (t.1 + delta)).map fun u => .aware u offset

/-- `parse_reset_at`, up to `isoformat`. -/
def parseResetAt (env : ResetEnv) (message : String) (now : Stamp) : Except DateError (Option Stamp) :=
  let head := message.toList.take maxScan
  match (epoch env.word).search head with
  | some digits => do
    let n ← intOfDigits digits
    let t ← fromtimestamp n
    return some (.aware t 0)
  | none =>
    match (relative env.word).search head with
    | some (count, unit) => do
      let n ← intOfDigits count
      let delta ← timedelta (n * stepOf unit)
      let t ← now.add delta
      return some t
    | none => do
      let answer ← parseResetsClock env head now
      return answer.map fun t => .aware t 0

/-! ### What it asks for -/

/-- The wall time of a moment. -/
def Stamp.wall : Stamp → Time
  | .naive t => t.1
  | .aware t _ => t.1

/-- Whatever is meant is inside the calendar, and so is its UTC. -/
def MeantFits (m : ResetMatch) (zone : Zone) (localNow : Wall) : Prop :=
  ∀ w, m.Means localNow.time.1 w → InCalendar w ∧ InCalendar (w - zone.utcoffset w (m.meantFold localNow w))

/-- A stated clock time stays in the calendar: now has a time in UTC and one in the zone, and so has the next
occurrence. -/
def ClockFits (env : ResetEnv) (text : List Char) (now : Stamp) : Prop :=
  ∀ m, (resets env.word).search text = some m → 1 ≤ digitsValue m.hour ∧ digitsValue m.hour ≤ 12 →
    ∀ zone, statedZone env m.tz = some zone →
      ∃ utcNow, astimezone env.lib now = .ok utcNow ∧
        ∃ localNow : Wall, localNow.time.1 = utcNow.1 + (zone.fromutc utcNow.1).1 ∧
          localNow.fold = (zone.fromutc utcNow.1).2 ∧ MeantFits m zone localNow

/-- A message of which the epoch is read, or a number of minutes or hours that stays in the calendar, or a clock
time that does. -/
def ResetFits (env : ResetEnv) (message : String) (now : Stamp) : Prop :=
  let text := message.toList.take maxScan
  (epoch env.word).search text = none →
    (∀ count unit, (relative env.word).search text = some (count, unit) →
      InCalendar (now.wall + digitsValue count * stepOf unit)) ∧
    ((relative env.word).search text = none → ClockFits env text now)

section Fits

variable {env : ResetEnv} {now : Stamp} {text : List Char}

theorem decimalValue_lt {c : Char} {d : ℕ} (h : PyConv.decimalValue c = some d) : d < 10 := by
  unfold PyConv.decimalValue at h
  obtain ⟨z, hz, rfl⟩ := Option.map_eq_some_iff.mp h
  have hrange := List.find?_some hz
  simp only [decide_eq_true_eq] at hrange
  omega

/-- Digits spell a number below the power of ten. -/
theorem digitsValue_lt (cs : List Char) : digitsValue cs < 10 ^ cs.length := by
  have hfold : ∀ (cs : List Char) (n : ℕ),
      cs.foldl (fun n c => 10 * n + (PyConv.decimalValue c).getD 0) n < (n + 1) * 10 ^ cs.length := by
    intro cs
    induction cs with
    | nil => simp
    | cons c cs ih =>
      intro n
      have hdigit : (PyConv.decimalValue c).getD 0 < 10 := by
        cases hc : PyConv.decimalValue c with
        | none => simp
        | some d => exact decimalValue_lt hc
      have hstep : 10 * n + (PyConv.decimalValue c).getD 0 + 1 ≤ (n + 1) * 10 := by omega
      calc (c :: cs).foldl (fun n c => 10 * n + (PyConv.decimalValue c).getD 0) n
          < (10 * n + (PyConv.decimalValue c).getD 0 + 1) * 10 ^ cs.length := ih _
        _ ≤ (n + 1) * 10 * 10 ^ cs.length := Nat.mul_le_mul_right _ hstep
        _ = (n + 1) * 10 ^ (c :: cs).length := by
          rw [List.length_cons, pow_succ]
          ring
  have hzero := hfold cs 0
  rw [zero_add, one_mul] at hzero
  exact hzero

theorem digits_of_epoch {digits : List Char} (h : (epoch env.word).search text = some digits) :
    digits.length = 10 := by
  obtain ⟨pre, s, post, -, h⟩ := search_spec h
  obtain ⟨bar, u₁, v₁, r₁, -, -, h⟩ := mem_bind.mp h
  obtain ⟨ds, u₂, v₂, r₂, -, hds, h⟩ := mem_bind.mp h
  obtain ⟨b, u₃, v₃, r₃, -, -, h⟩ := mem_bind.mp h
  obtain ⟨rfl, -, -⟩ := mem_pure.mp h
  obtain ⟨rfl, hmem⟩ := mem_group.mp hds
  exact Regex.length_of_mem_times hmem

theorem length_of_relative {count unit : List Char} (h : (relative env.word).search text = some (count, unit)) :
    count.length ≤ text.length := by
  obtain ⟨pre, s, post, htext, h⟩ := search_spec h
  obtain ⟨word, u₁, v₁, r₁, rfl, -, h⟩ := mem_bind.mp h
  obtain ⟨ds, u₂, v₂, r₂, rfl, hds, h⟩ := mem_bind.mp h
  obtain ⟨gap, u₃, v₃, r₃, rfl, -, h⟩ := mem_bind.mp h
  obtain ⟨un, u₄, v₄, r₄, rfl, -, h⟩ := mem_bind.mp h
  obtain ⟨plural, u₅, v₅, r₅, rfl, -, h⟩ := mem_bind.mp h
  obtain ⟨heq, -, -⟩ := mem_pure.mp h
  obtain ⟨rfl, -⟩ := Prod.mk.inj heq
  obtain ⟨rfl, -⟩ := mem_group.mp hds
  rw [htext]
  simp only [List.length_append]
  omega

theorem checked_iff {t : Time} : (∃ d, checked t = .ok d) ↔ InCalendar t := by
  constructor
  · rintro ⟨d, hd⟩
    exact (checked_ok.mp hd).1
  · intro h
    exact ⟨⟨t, h⟩, checked_ok.mpr ⟨h, rfl⟩⟩

theorem map_iff {α β ε : Type} {x : Except ε α} {f : α → β} : (∃ b, x.map f = .ok b) ↔ ∃ a, x = .ok a := by
  cases x with
  | ok a => exact iff_of_true ⟨f a, rfl⟩ ⟨a, rfl⟩
  | error e => exact iff_of_false (fun ⟨_, h⟩ => nomatch h) fun ⟨_, h⟩ => nomatch h

theorem bind_iff {α β ε : Type} {x : Except ε α} {f : α → β} :
    (∃ b, (x >>= fun a => pure (f a)) = .ok b) ↔ ∃ a, x = .ok a := map_iff

theorem add_ok_iff {delta : ℤ} : (∃ t, now.add delta = .ok t) ↔ InCalendar (now.wall + delta) := by
  cases now with
  | naive t => exact map_iff.trans checked_iff
  | aware t offset => exact map_iff.trans checked_iff

/-- The local time of now. -/
theorem astimezoneIn_ok_iff {zone : Zone} {localNow : Wall} :
    astimezoneIn env zone now = .ok localNow ↔
      ∃ utcNow, astimezone env.lib now = .ok utcNow ∧
        localNow.time.1 = utcNow.1 + (zone.fromutc utcNow.1).1 ∧
        localNow.fold = (zone.fromutc utcNow.1).2 := by
  unfold astimezoneIn
  rw [Checked.bind_ok]
  refine exists_congr fun utcNow => and_congr_right fun _ => ?_
  rw [Checked.bind_ok]
  constructor
  · rintro ⟨t, ht, h⟩
    obtain rfl := Except.ok.inj h
    exact ⟨(checked_ok.mp ht).2, rfl⟩
  · rintro ⟨htime, hfold⟩
    obtain ⟨t, fold⟩ := localNow
    obtain rfl : fold = (zone.fromutc utcNow.1).2 := hfold
    exact ⟨t, checked_ok.mpr ⟨htime ▸ t.2, htime⟩, rfl⟩

/-- The `try` and what follows it. -/
theorem answer_returns_iff {m : ResetMatch} {zone : Zone} {localNow : Wall}
    (h : 1 ≤ digitsValue m.hour ∧ digitsValue m.hour ≤ 12) :
    (∃ at_, Checked.catching (fun e => decide (e = .valueError)) none (m.wallAt localNow) = .ok at_ ∧
      ∃ r : Option Datetime, (match at_ with
        | none => (pure none : Except DateError (Option Datetime))
        | some at_ => (at_.toUtc zone).map some) = .ok r) ↔ MeantFits m zone localNow := by
  have hfinds := wallAt_findsMeant h localNow
  constructor
  · rintro ⟨at_, hat, r, hr⟩ w hw
    have hin : InCalendar w := by
      by_contra hout
      rw [hfinds.overflow_iff.mpr ⟨w, hw, hout⟩] at hat
      cases hat
    refine ⟨hin, ?_⟩
    have hwall : m.wallAt localNow = .ok (some ⟨⟨w, hin⟩, m.meantFold localNow w⟩) :=
      (hfinds.some_iff _).mpr ⟨hw, rfl⟩
    rw [hwall] at hat
    obtain rfl := Except.ok.inj hat
    exact checked_iff.mp (map_iff.mp ⟨r, hr⟩)
  · intro hfits
    cases hwall : m.wallAt localNow with
    | error e =>
      cases e with
      | valueError => exact ⟨none, rfl, none, rfl⟩
      | overflowError =>
        obtain ⟨w, hw, hout⟩ := hfinds.overflow_iff.mp hwall
        exact absurd (hfits w hw).1 hout
      | osError => exact absurd hwall hfinds.osError
    | ok at_ =>
      refine ⟨at_, rfl, ?_⟩
      cases at_ with
      | none => exact ⟨none, rfl⟩
      | some w =>
        obtain ⟨hmeans, hfold⟩ := (hfinds.some_iff w).mp hwall
        have hutc := (hfits _ hmeans).2
        rw [← hfold] at hutc
        exact map_iff.mpr (checked_iff.mpr hutc)

theorem parseResetsClock_returns_iff :
    (∃ r, parseResetsClock env text now = .ok r) ↔ ClockFits env text now := by
  unfold parseResetsClock ClockFits
  cases hm : (resets env.word).search text with
  | none => exact iff_of_true ⟨none, rfl⟩ fun m h => nomatch h
  | some m =>
    by_cases hhour : 1 ≤ digitsValue m.hour ∧ digitsValue m.hour ≤ 12
    · cases hzone : statedZone env m.tz with
      | none =>
        refine iff_of_true ⟨none, by simp [hhour, hzone]⟩ fun m' hm' _ zone hzone' => ?_
        obtain rfl := Option.some.inj hm'
        rw [hzone] at hzone'
        cases hzone'
      | some zone =>
        simp only [if_pos hhour, hzone]
        constructor
        · rintro ⟨r, hr⟩ m' hm' - zone' hzone'
          obtain rfl := Option.some.inj hm'
          obtain rfl := Option.some.inj (hzone.symm.trans hzone')
          obtain ⟨localNow, hlocal, hrest⟩ := Checked.bind_ok.mp hr
          obtain ⟨at_, hat, hend⟩ := Checked.bind_ok.mp hrest
          obtain ⟨utcNow, hutc, htime, hfold⟩ := astimezoneIn_ok_iff.mp hlocal
          exact ⟨utcNow, hutc, localNow, htime, hfold, (answer_returns_iff hhour).mp ⟨at_, hat, r, hend⟩⟩
        · intro hfits
          obtain ⟨utcNow, hutc, localNow, htime, hfold, hmeant⟩ := hfits m rfl hhour zone hzone
          obtain ⟨at_, hat, r, hend⟩ := (answer_returns_iff hhour).mpr hmeant
          refine ⟨r, Checked.bind_ok.mpr ⟨localNow, ?_, Checked.bind_ok.mpr ⟨at_, hat, hend⟩⟩⟩
          exact astimezoneIn_ok_iff.mpr ⟨utcNow, hutc, htime, hfold⟩
    · refine iff_of_true ⟨none, by simp [hhour]⟩ fun m' hm' hhour' => ?_
      obtain rfl := Option.some.inj hm'
      exact absurd hhour' hhour

/-- Ten digits of seconds end in the year 2286. -/
theorem fromtimestamp_ok {digits : List Char} (h : digits.length = 10) :
    ∃ n t, intOfDigits digits = .ok n ∧ fromtimestamp n = .ok t := by
  have hlt := digitsValue_lt digits
  rw [h] at hlt
  have hin : InCalendar ((digitsValue digits : ℤ) * 1000000) := by
    have hnonneg : (0 : ℤ) ≤ digitsValue digits := Int.natCast_nonneg _
    have hbound : (digitsValue digits : ℤ) < 10 ^ 10 := by exact_mod_cast hlt
    refine ⟨?_, ?_⟩
    · show (-62135596800000000 : ℤ) ≤ _
      linarith
    · show _ ≤ (253402300799999999 : ℤ)
      linarith
  refine ⟨digitsValue digits, ⟨_, hin⟩, ?_, checked_ok.mpr ⟨hin, rfl⟩⟩
  unfold intOfDigits
  rw [if_neg (by omega)]

/-- A difference past `timedelta.max` would leave the calendar. -/
theorem later_returns_iff (now : Stamp) (delta : ℤ) :
    (∃ d, timedelta delta = .ok d ∧ ∃ t, now.add d = .ok t) ↔ InCalendar (now.wall + delta) := by
  unfold timedelta
  by_cases hmax : maxDelta < delta
  · rw [if_pos hmax]
    refine iff_of_false (fun ⟨_, h, _⟩ => nomatch h) ?_
    rintro ⟨-, hhi⟩
    have hwall : minTime ≤ now.wall := by
      cases now with
      | naive t => exact t.2.1
      | aware t offset => exact t.2.1
    have hlo : (-62135596800000000 : ℤ) ≤ now.wall := hwall
    have hlast : (now.wall + delta : ℤ) ≤ 253402300799999999 := hhi
    have hdelta : (86399999999999999999 : ℤ) < delta := hmax
    linarith
  · rw [if_neg hmax, ← add_ok_iff]
    constructor
    · rintro ⟨d, hd, h⟩
      obtain rfl := Except.ok.inj hd
      exact h
    · exact fun h => ⟨delta, rfl, h⟩

/-- **When `parse_reset_at` returns**: exactly when nothing past the calendar is asked for. -/
theorem parseResetAt_returns_iff {message : String} :
    (∃ r, parseResetAt env message now = .ok r) ↔ ResetFits env message now := by
  unfold parseResetAt ResetFits
  dsimp only
  cases hepoch : (epoch env.word).search (message.toList.take maxScan) with
  | some digits =>
    obtain ⟨n, t, hn, ht⟩ := fromtimestamp_ok (digits_of_epoch hepoch)
    refine iff_of_true ⟨some (.aware t 0), ?_⟩ fun h => nomatch h
    exact Checked.bind_ok.mpr ⟨n, hn, Checked.bind_ok.mpr ⟨t, ht, rfl⟩⟩
  | none =>
    cases hrel : (relative env.word).search (message.toList.take maxScan) with
    | some r =>
      obtain ⟨count, unit⟩ := r
      have hshort : ¬4300 < count.length := by
        have hcount := length_of_relative hrel
        have htake : (message.toList.take maxScan).length ≤ 2000 := List.length_take_le _ _
        omega
      have hint : intOfDigits count = .ok (digitsValue count) := by
        unfold intOfDigits
        rw [if_neg hshort]
      dsimp only
      rw [hint]
      have hlater := later_returns_iff now (digitsValue count * stepOf unit)
      constructor
      · rintro ⟨r, hr⟩ -
        obtain ⟨n, hn, hrest⟩ := Checked.bind_ok.mp hr
        obtain rfl := Except.ok.inj hn
        obtain ⟨d, hd, hadd⟩ := Checked.bind_ok.mp hrest
        obtain ⟨t, ht, -⟩ := Checked.bind_ok.mp hadd
        refine ⟨fun count' unit' h => ?_, fun h => nomatch h⟩
        obtain ⟨rfl, rfl⟩ := Prod.mk.inj (Option.some.inj h)
        exact hlater.mp ⟨d, hd, t, ht⟩
      · intro hfits
        obtain ⟨d, hd, t, ht⟩ := hlater.mpr ((hfits rfl).1 count unit rfl)
        refine ⟨some t, Checked.bind_ok.mpr ⟨_, rfl, Checked.bind_ok.mpr ⟨d, hd, ?_⟩⟩⟩
        exact Checked.bind_ok.mpr ⟨t, ht, rfl⟩
    | none =>
      dsimp only
      rw [bind_iff, parseResetsClock_returns_iff]
      exact ⟨fun h _ => ⟨fun _ _ h' => (nomatch h'), fun _ => h⟩, fun h => (h rfl).2 rfl⟩

end Fits

end Broker.Agent
