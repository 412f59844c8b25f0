import Broker.Agent.Lock
import Broker.Lib.Exclusive
import Mathlib.Tactic.Linarith
import Mathlib.Tactic.Ring

/-!
# Broker.Agent.Heartbeat — the holder of a session lease against the clock of its row

One `_heartbeat` from the statement that acquired the lease, with the executor that drives the session.
Time passes between any two moves (`tick`); a renewal is sent, begins its transaction (whose `now()` is the
time of the row) and commits whenever it likes, also after its attempt was given up, and the lease may be
taken over as soon as the row allows it.

The heartbeat counts its deadline on its own clock: from its own start, later from the start of the last
renewal it heard of.  It looks at it only when an attempt has ended, and the executor looks at `lost` only
when it polls.  `OnTime` says which delays keep the holder ahead of the row (`lease_loss_in_time`).
-/

namespace Broker.Agent

open Broker.Lib Broker.Db

/-- A `renew_lease` request: sent, its transaction begun at a database time, or committed. -/
inductive Renewal where
  | sent
  | opened (now : Time)
  | done (ok : Bool)
  deriving DecidableEq

/-- Where the heartbeat stands: the lease is granted and its task not started, it sleeps, it waits for a
renewal, it has set `lost`, or the holder has left `session_lock`. -/
inductive Beat where
  | granted
  | sleeping (wake : Time)
  | renewing (started timeout : Time)
  | lost
  | released
  deriving DecidableEq

/-- The holder may assume the lease: `lost` is not set and it has not released. -/
def Beat.assumes : Beat → Bool
  | .granted | .sleeping _ | .renewing .. => true
  | .lost | .released => false

/-- The start of the attempt under way. -/
def Beat.started : Beat → Option Time
  | .renewing started _ => some started
  | _ => none

/-- `acquired` is the database time of the acquisition, `counted` the time the local deadline is counted
from, `renewed` whether a renewal has committed; `driving` says that the executor lets the CLI run. -/
structure BeatSys where
  clock : Time
  row : Option LeaseRow
  acquired : Time
  counted : Time
  renewed : Bool := false
  beat : Beat := .granted
  driving : Bool := false
  renewals : List Renewal := []
  deriving DecidableEq

inductive BeatAct where
  | tick (d : ℕ)
  -- the heartbeat
  | spawn
  | wake
  | answered
  | raised
  -- the database
  | «open» (i : ℕ)
  | commit (i : ℕ)
  | takeover (now ttl : Time) (runId : ℕ)
  -- the executor
  | stop
  | release

section Step

variable (ttl heartbeat : Time) (lease : Lease)

/-- `min(heartbeat_s, ttl_s / 3)`. -/
def everyOf : Time := min heartbeat (ttl / 3)

/-- The least timeout of a renewal, 0.001 s. -/
def grain : Time := 1000

/-- The end of a pass of the loop. -/
def BeatSys.settle (s : BeatSys) (counted : Time) : BeatSys :=
  { s with
    counted := counted
    beat := if counted + ttl ≤ s.clock then .lost else .sleeping (s.clock + everyOf ttl heartbeat) }

def BeatSys.step (s : BeatSys) : BeatAct → Option BeatSys
  | .tick d => some { s with clock := s.clock + d }
  | .spawn =>
    if s.beat = .granted then
      some { s with
        counted := s.clock
        beat := .sleeping (s.clock + everyOf ttl heartbeat)
        driving := true }
    else none
  | .wake =>
    match s.beat with
    | .sleeping wake =>
      if wake ≤ s.clock then
        some { s with
          beat := .renewing s.clock (s.clock + max (s.counted + ttl - s.clock) grain)
          renewals := s.renewals ++ [.sent] }
      else none
    | _ => none
  | .answered =>
    match s.beat, s.renewals.getLast? with
    | .renewing started timeout, some (.done ok) =>
      if timeout < s.clock then none
      else if ok then some (s.settle ttl heartbeat started) else some { s with beat := .lost }
    | _, _ => none
  | .raised =>
    match s.beat with
    | .renewing .. => some (s.settle ttl heartbeat s.counted)
    | _ => none
  | .open i =>
    if s.renewals[i]? = some .sent then some { s with renewals := s.renewals.set i (.opened s.clock) } else none
  | .commit i =>
    match s.renewals[i]? with
    | some (.opened now) =>
      let (row, ok) := renewLease now ttl lease s.row
      some { s with row := row, renewed := s.renewed || ok, renewals := s.renewals.set i (.done ok) }
    | _ => none
  | .takeover now ttl' runId =>
    if now ≤ s.clock then some { s with row := (acquireLease now ttl' runId s.row).1 } else none
  | .stop => some { s with driving := false }
  | .release =>
    if s.driving = false ∧ s.beat ≠ .granted then
      some { s with row := releaseLease s.clock lease s.row, beat := .released }
    else none

end Step

/-- `acquire_lease` has just granted the lease, at the database time `now`. -/
def BeatSys.start (now : Time) (row : Option LeaseRow) : BeatSys where
  clock := now
  row := row
  acquired := now
  counted := now

/-! ### The delays that keep the holder ahead -/

/-- The row is the holder's and has not expired, so nobody else can acquire the session. -/
def BeatSys.Ahead (lease : Lease) (s : BeatSys) : Prop :=
  (∃ r, s.row = some r ∧ holds lease (some r) = true ∧ s.clock ≤ r.leaseUntil) ∧
  ∀ now ttl runId, now ≤ s.clock → (acquireLease now ttl runId s.row).2 = none

/-- Where the lease is assumed, or the session driven, nobody else can have it. -/
def BeatSys.Safe (lease : Lease) (s : BeatSys) : Prop :=
  s.beat.assumes = true ∨ s.driving = true → s.Ahead lease

/-- The commit of renewal `i` does not put the row's time back. -/
def BeatSys.inOrder (ttl : Time) (s : BeatSys) (i : ℕ) : Bool :=
  match s.renewals[i]?, s.row with
  | some (.opened now), some r => decide (r.leaseUntil ≤ now + ttl)
  | _, _ => true

/-- A pass that ends now is at the deadline counted from `counted`, or leaves the sleep and one attempt of the
least timeout before it. -/
def BeatSys.fits (ttl heartbeat lag : Time) (s : BeatSys) (counted : Time) : Bool :=
  decide (counted + ttl ≤ s.clock) || decide (s.clock + everyOf ttl heartbeat + lag + grain ≤ counted + ttl)

/-- A delay of `d` keeps to the timers: a sleep overshoots by `lag` at most, an attempt ends by its
timeout, and the executor has stopped the session by the deadline at which `lost` was set. -/
def BeatSys.keepsTime (ttl lag : Time) (s : BeatSys) (d : ℕ) : Bool :=
  match s.beat with
  | .sleeping wake => decide (s.clock + d ≤ wake + lag)
  | .renewing _ timeout => decide (s.clock + d ≤ timeout)
  | .lost => !s.driving || decide (s.clock + d ≤ s.counted + ttl)
  | .granted | .released => true

/-- The side condition of a run.  Delays keep to the timers and, until a renewal has committed, the lease is
not assumed past a `ttl` after its acquisition; no pass ends with too little time for the next one; and
renewals commit in the order of their database times. -/
def OnTime (ttl heartbeat lag : Time) (s : BeatSys) : BeatAct → Prop
  | .tick d =>
    s.keepsTime ttl lag d = true ∧
      (s.beat.assumes = true ∨ s.driving = true → s.renewed = false → s.clock + d ≤ s.acquired + ttl)
  | .spawn => everyOf ttl heartbeat + lag + grain ≤ ttl
  | .answered => ∀ started ∈ s.beat.started, s.fits ttl heartbeat lag started = true
  | .raised => s.fits ttl heartbeat lag s.counted = true
  | .commit i => s.inOrder ttl i = true
  | _ => True

instance (ttl heartbeat lag : Time) (s : BeatSys) (a : BeatAct) : Decidable (OnTime ttl heartbeat lag s a) :=
  match a with
  | .tick _ => inferInstanceAs (Decidable (_ ∧ _))
  | .spawn => inferInstanceAs (Decidable (_ ≤ _))
  | .raised | .commit _ => inferInstanceAs (Decidable (_ = true))
  | .answered => inferInstanceAs (Decidable (∀ started ∈ s.beat.started, s.fits ttl heartbeat lag started = true))
  | .wake | .open _ | .takeover .. | .stop | .release => .isTrue trivial

/-! ### The invariant -/

/-- What the renewal on its way has reached, for an attempt begun at `started`. -/
def Renewal.From (ttl started : Time) (r : LeaseRow) (renewed : Bool) : Renewal → Prop
  | .sent => True
  | .opened now => started ≤ now
  | .done ok => ok = true → started + ttl ≤ r.leaseUntil ∧ renewed = true

/-- The holder is ahead of its row: the local deadline is not before now, and from the first renewal on not
after the row's time. -/
structure BeatSys.Holding (ttl lag : Time) (lease : Lease) (r : LeaseRow) (s : BeatSys) : Prop where
  live : s.beat ≠ .released
  row : s.row = some r
  held : holds lease (some r) = true
  counted : s.counted ≤ s.clock ∧ s.clock ≤ s.counted + ttl
  first : s.renewed = false → r.leaseUntil = s.acquired + ttl ∧ s.clock ≤ s.acquired + ttl
  later : s.renewed = true → s.counted + ttl ≤ r.leaseUntil
  opened : s.renewed = false → ∀ now, .opened now ∈ s.renewals → s.counted ≤ now
  granted : s.beat = .granted → s.counted = s.acquired ∧ s.renewed = false ∧ s.renewals = []
  asleep : ∀ wake, s.beat = .sleeping wake →
    s.clock + grain ≤ s.counted + ttl ∧ wake + lag + grain ≤ s.counted + ttl
  attempt : ∀ started timeout, s.beat = .renewing started timeout → timeout = s.counted + ttl ∧
    s.counted ≤ started ∧ started ≤ s.clock ∧ ∃ q, s.renewals.getLast? = some q ∧
      q.From ttl started r s.renewed

variable {ttl heartbeat lag : Time} {lease : Lease}

theorem acquireLease_of_live {now ttl : Time} {runId : ℕ} {r : LeaseRow} (h : now ≤ r.leaseUntil) :
    acquireLease now ttl runId (some r) = (some r, none) := by
  unfold acquireLease
  dsimp only
  rw [if_neg (not_lt.mpr h)]

theorem BeatSys.Holding.clock_le {r : LeaseRow} {s : BeatSys} (h : s.Holding ttl lag lease r) :
    s.clock ≤ r.leaseUntil := by
  cases hr : s.renewed with
  | false =>
    obtain ⟨heq, hle⟩ := h.first hr
    linarith
  | true =>
    have hlater := h.later hr
    have hcount := h.counted.2
    linarith

theorem BeatSys.Holding.ahead {r : LeaseRow} {s : BeatSys} (h : s.Holding ttl lag lease r) :
    s.Ahead lease := by
  refine ⟨⟨r, h.row, h.held, h.clock_le⟩, fun now ttl' runId hnow => ?_⟩
  rw [h.row, acquireLease_of_live (le_trans hnow h.clock_le)]

/-- The last entry of a list of which one entry is replaced. -/
theorem getLast?_set {α : Type} {l : List α} {i : ℕ} {a x q : α} (hi : l[i]? = some a)
    (hq : l.getLast? = some q) :
    (l.set i x).getLast? = some q ∨ (a = q ∧ (l.set i x).getLast? = some x) := by
  rw [List.getLast?_eq_getElem?] at hq
  rw [List.getLast?_eq_getElem?, List.length_set]
  by_cases hlast : i = l.length - 1
  · rw [← hlast] at hq ⊢
    refine .inr ⟨Option.some.inj (hi.symm.trans hq), ?_⟩
    exact List.getElem?_set_self (List.getElem?_eq_some_iff.mp hi).1
  · rw [List.getElem?_set_ne hlast]
    exact .inl hq

theorem everyOf_nonneg (httl : 0 ≤ ttl) (hbeat : 0 ≤ heartbeat) : 0 ≤ everyOf ttl heartbeat :=
  le_min hbeat (Int.ediv_nonneg httl (by norm_num))

/-- A pass ends in time. -/
theorem BeatSys.Holding.settle {r : LeaseRow} {s : BeatSys} (h : s.Holding ttl lag lease r) {counted : Time}
    (hevery : 0 ≤ everyOf ttl heartbeat) (hlag : 0 ≤ lag) (hge : s.counted ≤ counted) (hle : counted ≤ s.clock)
    (hlater : s.renewed = true → counted + ttl ≤ r.leaseUntil) (hfirst : s.renewed = false → counted = s.counted)
    (hfits : s.fits ttl heartbeat lag counted = true) :
    (s.settle ttl heartbeat counted).Holding ttl lag lease r := by
  have hcount := h.counted
  refine ⟨?_, h.row, h.held, ⟨hle, ?_⟩, h.first, hlater, fun hr now hm => ?_, fun hb => ?_, fun wake hb => ?_,
    fun started timeout hb => ?_⟩
  · simp only [BeatSys.settle]
    split_ifs <;> simp
  · show s.clock ≤ counted + ttl
    linarith
  · have hopen := h.opened hr now hm
    show counted ≤ now
    rw [hfirst hr]
    exact hopen
  · simp only [BeatSys.settle] at hb
    split_ifs at hb
  · simp only [BeatSys.settle] at hb
    split_ifs at hb with hover
    obtain rfl := Beat.sleeping.inj hb
    simp only [BeatSys.fits, Bool.or_eq_true, decide_eq_true_eq] at hfits
    have hroom := hfits.resolve_left hover
    constructor
    · show s.clock + grain ≤ counted + ttl
      linarith
    · show s.clock + everyOf ttl heartbeat + lag + grain ≤ counted + ttl
      exact hroom
  · simp only [BeatSys.settle] at hb
    split_ifs at hb

/-- A step of the database on the renewals keeps what the current attempt knows of the last one. -/
theorem attempt_set {r r' : LeaseRow} {renewed renewed' : Bool} {renewals : List Renewal}
    {started : Time} {i : ℕ}
    {a x : Renewal} (hi : renewals[i]? = some a)
    (h : ∃ q, renewals.getLast? = some q ∧ q.From ttl started r renewed)
    (hkeep : ∀ q : Renewal, q.From ttl started r renewed → q.From ttl started r' renewed')
    (hnew : a.From ttl started r renewed → x.From ttl started r' renewed') :
    ∃ q, (renewals.set i x).getLast? = some q ∧ q.From ttl started r' renewed' := by
  obtain ⟨q, hq, hfrom⟩ := h
  rcases getLast?_set hi hq with hlast | ⟨rfl, hlast⟩
  · exact ⟨q, hlast, hkeep q hfrom⟩
  · exact ⟨x, hlast, hnew hfrom⟩

/-- The holder's own request is granted as long as the row is its own. -/
theorem renewLease_of_holds {now : Time} {r : LeaseRow} (h : holds lease (some r) = true) :
    renewLease now ttl lease (some r) = (some { r with leaseUntil := now + ttl, heartbeatAt := now }, true) := by
  unfold renewLease
  rw [if_pos h]
  rfl

/-- A renewal commits: the row's time is its own plus the `ttl`, and not before what it was. -/
theorem BeatSys.Holding.commit {r : LeaseRow} {s : BeatSys} (h : s.Holding ttl lag lease r) {i : ℕ}
    {now : Time}
    (hi : s.renewals[i]? = some (.opened now)) (hord : r.leaseUntil ≤ now + ttl) :
    BeatSys.Holding ttl lag lease { r with leaseUntil := now + ttl, heartbeatAt := now }
      { s with
        row := some { r with leaseUntil := now + ttl, heartbeatAt := now }
        renewed := s.renewed || true
        renewals := s.renewals.set i (.done true) } := by
  have hlate : s.counted + ttl ≤ now + ttl := by
    cases hr : s.renewed with
    | false =>
      have hopen := h.opened hr now (List.mem_of_getElem? hi)
      linarith
    | true => exact le_trans (h.later hr) hord
  refine ⟨h.live, rfl, h.held, h.counted, fun hr => ?_, fun _ => hlate, fun hr => ?_, fun hb => ?_, h.asleep,
    fun started timeout hb => ?_⟩
  · simp at hr
  · simp at hr
  · exfalso
    rw [(h.granted hb).2.2] at hi
    simp at hi
  · obtain ⟨htime, hge, hle, hlast⟩ := h.attempt started timeout hb
    refine ⟨htime, hge, hle, attempt_set hi hlast (fun q hq => ?_) fun hq _ => ⟨?_, by simp⟩⟩
    · cases q with
      | sent => trivial
      | opened _ => exact hq
      | done ok => exact fun hok => ⟨le_trans (hq hok).1 hord, by simp⟩
    · have hstart : started ≤ now := hq
      show started + ttl ≤ now + ttl
      linarith

/-- A delay in time leaves the local deadline ahead. -/
theorem BeatSys.Holding.tick {r : LeaseRow} {s : BeatSys} (h : s.Holding ttl lag lease r) {d : ℕ}
    (hact : s.beat.assumes = true ∨ s.driving = true) (hc : OnTime ttl heartbeat lag s (.tick d)) :
    BeatSys.Holding ttl lag lease r { s with clock := s.clock + d } := by
  obtain ⟨hkeeps, hfirst⟩ := hc
  have hd : (0 : ℤ) ≤ d := Int.natCast_nonneg d
  have hcount := h.counted
  have hlocal : s.clock + d ≤ s.counted + ttl := by
    cases hb : s.beat with
    | granted =>
      obtain ⟨heq, hn, -⟩ := h.granted hb
      rw [heq]
      exact hfirst hact hn
    | sleeping wake =>
      have hroom := (h.asleep wake hb).2
      have hdue : s.clock + d ≤ wake + lag := by simpa [keepsTime, hb] using hkeeps
      unfold grain at hroom
      linarith
    | renewing started timeout =>
      have hdue : s.clock + d ≤ timeout := by simpa [keepsTime, hb] using hkeeps
      rwa [(h.attempt started timeout hb).1] at hdue
    | lost =>
      have hdrive : s.driving = true := hact.resolve_left (by simp [hb, Beat.assumes])
      simpa [keepsTime, hb, hdrive] using hkeeps
    | released => exact absurd hb h.live
  refine ⟨h.live, h.row, h.held, ⟨?_, hlocal⟩, fun hn => ⟨(h.first hn).1, hfirst hact hn⟩, h.later, h.opened,
    h.granted, fun wake hb => ⟨?_, (h.asleep wake hb).2⟩, fun started timeout hb => ?_⟩
  · show s.counted ≤ s.clock + d
    linarith
  · have hroom := (h.asleep wake hb).2
    have hdue : s.clock + d ≤ wake + lag := by
      have hb' : s.beat = .sleeping wake := hb
      simpa [keepsTime, hb'] using hkeeps
    show s.clock + d + grain ≤ s.counted + ttl
    linarith
  · obtain ⟨htime, hge, hle, hlast⟩ := h.attempt started timeout hb
    refine ⟨htime, hge, ?_, hlast⟩
    show started ≤ s.clock + d
    linarith

/-- **One step keeps the holder ahead**, where its delay is in time. -/
theorem BeatSys.step_holding {s s' : BeatSys} {a : BeatAct} (httl : 0 ≤ ttl) (hbeat : 0 ≤ heartbeat)
    (hlag : 0 ≤ lag) (hI : s.beat.assumes = true ∨ s.driving = true → ∃ r, s.Holding ttl lag lease r)
    (hc : OnTime ttl heartbeat lag s a) (h : s.step ttl heartbeat lease a = some s') :
    s'.beat.assumes = true ∨ s'.driving = true → ∃ r, s'.Holding ttl lag lease r := by
  have hevery := everyOf_nonneg httl hbeat
  intro hact
  cases a with
  | tick d =>
    obtain rfl := Option.some.inj h
    obtain ⟨r, hr⟩ := hI hact
    exact ⟨r, hr.tick hact hc⟩
  | spawn =>
    simp only [step] at h
    split_ifs at h with hg
    obtain rfl := Option.some.inj h
    obtain ⟨r, hr⟩ := hI (.inl (by rw [hg]; rfl))
    obtain ⟨-, hn, hnil⟩ := hr.granted hg
    refine ⟨r, by simp, hr.row, hr.held, ⟨le_rfl, ?_⟩, hr.first, fun ht => ?_, fun _ now hm => ?_, fun hb => ?_,
      fun wake hb => ?_, fun started timeout hb => ?_⟩
    · show s.clock ≤ s.clock + ttl
      linarith
    · exact absurd (hn.symm.trans ht) (by simp)
    · exact absurd hm (by simp [hnil])
    · exact absurd hb (by simp)
    · obtain rfl := Beat.sleeping.inj hb
      have hroom : everyOf ttl heartbeat + lag + grain ≤ ttl := hc
      constructor
      · show s.clock + grain ≤ s.clock + ttl
        linarith
      · show s.clock + everyOf ttl heartbeat + lag + grain ≤ s.clock + ttl
        linarith
    · exact absurd hb (by simp)
  | wake =>
    simp only [step] at h
    split at h
    · rename_i wake hb
      split_ifs at h
      obtain rfl := Option.some.inj h
      obtain ⟨r, hr⟩ := hI (.inl (by rw [hb]; rfl))
      have hroom := (hr.asleep wake hb).1
      refine ⟨r, by simp, hr.row, hr.held, hr.counted, hr.first, hr.later, fun hn now hm => ?_, fun hb' => ?_,
        fun _ hb' => ?_, fun started timeout hb' => ?_⟩
      · rcases List.mem_append.mp hm with hm | hm
        · exact hr.opened hn now hm
        · exact absurd (List.mem_singleton.mp hm) (by simp)
      · exact absurd hb' (by simp)
      · exact absurd hb' (by simp)
      · obtain ⟨rfl, rfl⟩ := Beat.renewing.inj hb'
        refine ⟨?_, hr.counted.1, le_rfl, .sent, by simp, trivial⟩
        show s.clock + max (s.counted + ttl - s.clock) grain = s.counted + ttl
        rw [max_eq_left (by linarith)]
        ring
    · exact absurd h (by simp)
  | answered =>
    simp only [step] at h
    split at h
    · rename_i started timeout ok hb hlast
      obtain ⟨r, hr⟩ := hI (.inl (by rw [hb]; rfl))
      obtain ⟨-, hge, hle, q, hq, hfrom⟩ := hr.attempt started timeout hb
      obtain rfl := Option.some.inj (hlast.symm.trans hq)
      split_ifs at h with hout hok
      · obtain rfl := Option.some.inj h
        obtain ⟨hlate, hren⟩ := hfrom hok
        have hfits := hc started (by rw [hb]; rfl)
        exact ⟨r, hr.settle hevery hlag hge hle (fun _ => hlate)
          (fun hn => absurd (hren.symm.trans hn) (by simp)) hfits⟩
      · obtain rfl := Option.some.inj h
        exact ⟨r, by simp, hr.row, hr.held, hr.counted, hr.first, hr.later, hr.opened, fun hb' => absurd hb' (by simp),
          fun _ hb' => absurd hb' (by simp), fun _ _ hb' => absurd hb' (by simp)⟩
    · exact absurd h (by simp)
  | raised =>
    simp only [step] at h
    split at h
    · rename_i started timeout hb
      obtain rfl := Option.some.inj h
      obtain ⟨r, hr⟩ := hI (.inl (by rw [hb]; rfl))
      exact ⟨r, hr.settle hevery hlag le_rfl hr.counted.1 hr.later (fun _ => rfl) hc⟩
    · exact absurd h (by simp)
  | «open» i =>
    simp only [step] at h
    split_ifs at h with hi
    obtain rfl := Option.some.inj h
    obtain ⟨r, hr⟩ := hI hact
    refine ⟨r, hr.live, hr.row, hr.held, hr.counted, hr.first, hr.later, fun hn now hm => ?_, fun hb => ?_, hr.asleep,
      fun started timeout hb => ?_⟩
    · rcases List.mem_or_eq_of_mem_set hm with hm | hm
      · exact hr.opened hn now hm
      · obtain rfl := Renewal.opened.inj hm
        exact hr.counted.1
    · obtain ⟨-, -, hnil⟩ := hr.granted hb
      exact absurd hi (by simp [hnil])
    · obtain ⟨htime, hge, hle, hlast⟩ := hr.attempt started timeout hb
      exact ⟨htime, hge, hle, attempt_set hi hlast (fun _ hq => hq) fun _ => hle⟩
  | commit i =>
    simp only [step] at h
    split at h
    · rename_i now hi
      obtain ⟨r, hr⟩ : ∃ r, s.Holding ttl lag lease r := by
        obtain rfl := Option.some.inj h
        exact hI hact
      rw [hr.row, renewLease_of_holds hr.held] at h
      obtain rfl := Option.some.inj h
      have hord : r.leaseUntil ≤ now + ttl := by
        have hin : s.inOrder ttl i = true := hc
        simpa [inOrder, hi, hr.row] using hin
      exact ⟨_, hr.commit hi hord⟩
    · exact absurd h (by simp)
  | takeover now ttl' runId =>
    simp only [step] at h
    split_ifs at h with hnow
    obtain rfl := Option.some.inj h
    obtain ⟨r, hr⟩ := hI hact
    refine ⟨r, hr.live, ?_, hr.held, hr.counted, hr.first, hr.later, hr.opened, hr.granted, hr.asleep, hr.attempt⟩
    -- the row has not expired, so nobody takes it
    show (acquireLease now ttl' runId s.row).1 = some r
    rw [hr.row, acquireLease_of_live (hnow.trans hr.clock_le)]
  | stop =>
    obtain rfl := Option.some.inj h
    have hassumes : s.beat.assumes = true := hact.resolve_right (by simp)
    obtain ⟨r, hr⟩ := hI (.inl hassumes)
    exact ⟨r, hr.live, hr.row, hr.held, hr.counted, hr.first, hr.later, hr.opened, hr.granted, hr.asleep, hr.attempt⟩
  | release =>
    simp only [step] at h
    split_ifs at h with hidle
    obtain rfl := Option.some.inj h
    rcases hact with hact | hact
    · exact absurd hact (by simp [Beat.assumes])
    · exact absurd (hidle.1.symm.trans hact) (by simp)

theorem acquireLease_row {now : Time} {runId : ℕ} {row row' : Option LeaseRow}
    (h : acquireLease now ttl runId row = (row', some lease)) :
    ∃ r, row' = some r ∧ holds lease (some r) = true ∧ r.leaseUntil = now + ttl := by
  cases row with
  | none =>
    obtain ⟨rfl, rfl⟩ := by simpa [acquireLease] using h
    exact ⟨_, rfl, by simp [holds], rfl⟩
  | some r =>
    simp only [acquireLease] at h
    split_ifs at h
    · obtain ⟨rfl, rfl⟩ := by simpa using h
      exact ⟨_, rfl, by simp [holds], rfl⟩
    · exact absurd h (by simp)

/-- **Lease loss is noticed in time**, in every state of every run whose steps are in time: where the holder
assumes the lease, or its executor drives the session, the row is its own and has not expired, and nobody else
can acquire the session. -/
theorem lease_loss_in_time {ttl heartbeat lag : Time} (httl : 0 ≤ ttl) (hbeat : 0 ≤ heartbeat)
    (hlag : 0 ≤ lag)
    {now : Time} {runId : ℕ} {row row' : Option LeaseRow} {lease : Lease}
    (hacq : acquireLease now ttl runId row = (row', some lease)) {as : List BeatAct} {s : BeatSys}
    (h : Steps (BeatSys.step ttl heartbeat lease) (OnTime ttl heartbeat lag) (BeatSys.start now row') as s) :
    s.Safe lease := by
  obtain ⟨r, rfl, hheld, huntil⟩ := acquireLease_row hacq
  have hstart : (BeatSys.start now (some r)).Holding ttl lag lease r := by
    refine ⟨by simp [BeatSys.start], rfl, hheld, ⟨le_rfl, ?_⟩, fun _ => ⟨huntil, ?_⟩, fun hn => ?_,
      fun _ _ hm => ?_, fun _ => ⟨rfl, rfl, rfl⟩, fun _ hb => ?_, fun _ _ hb => ?_⟩
    · show now ≤ now + ttl
      linarith
    · show now ≤ now + ttl
      linarith
    · exact absurd hn (by simp [BeatSys.start])
    · exact absurd hm (by simp [BeatSys.start])
    · exact absurd hb (by simp [BeatSys.start])
    · exact absurd hb (by simp [BeatSys.start])
  intro hact
  have hI := h.inv (I := fun t => t.beat.assumes = true ∨ t.driving = true → ∃ r, t.Holding ttl lag lease r)
    (fun _ _ _ hI hc hs => BeatSys.step_holding httl hbeat hlag hI hc hs) fun _ => ⟨r, hstart⟩
  obtain ⟨r', hr⟩ := hI hact
  exact hr.ahead

/-- Until a renewal commits the condition on the acquisition is exact: past it the lease is assumed and
expired. -/
theorem BeatSys.Holding.not_safe_of_late {r : LeaseRow} {s : BeatSys} (h : s.Holding ttl lag lease r)
    (hn : s.renewed = false) (hact : s.beat.assumes = true ∨ s.driving = true) {d : ℕ}
    (hlate : s.acquired + ttl < s.clock + d) : ¬ BeatSys.Safe lease { s with clock := s.clock + d } := by
  intro hsafe
  obtain ⟨⟨r', hrow, -, hle⟩, -⟩ := hsafe hact
  obtain rfl := Option.some.inj (h.row.symm.trans hrow)
  have huntil := (h.first hn).1
  have hclock : s.clock + d ≤ r.leaseUntil := hle
  linarith

/-- A lease of two minutes: the first renewal is heard of, the second attempt fails. -/
def renewedOnce : List BeatAct :=
  [.spawn, .tick 30000000, .wake, .open 0, .tick 1000, .commit 0, .answered, .tick 30000000, .wake, .raised]

theorem lease_loss_in_time_renewed :
    ∃ s, Steps (BeatSys.step (seconds 120) (seconds 30) ⟨1, 1⟩) (OnTime (seconds 120) (seconds 30) 0)
      (BeatSys.start 0 (some ⟨1, seconds 120, 0, 1⟩)) renewedOnce s ∧ s.Ahead ⟨1, 1⟩ := by
  have hrun : (execAll (guarded (BeatSys.step (seconds 120) (seconds 30) ⟨1, 1⟩) (OnTime (seconds 120) (seconds 30) 0))
      (BeatSys.start 0 (some ⟨1, seconds 120, 0, 1⟩)) renewedOnce).map (·.beat.assumes) = some true := by decide
  obtain ⟨s, hs, hbeat⟩ := steps_of_observed hrun
  have hacq : acquireLease 0 (seconds 120) 1 none = (some ⟨1, seconds 120, 0, 1⟩, some ⟨1, 1⟩) := by decide
  exact ⟨s, hs.of_guarded, lease_loss_in_time (by decide) (by decide) le_rfl hacq hs.of_guarded (.inl hbeat)⟩

/-- The database is away: three attempts fail, the third shortly before the deadline, and the heartbeat goes
to sleep across it. -/
def sleptAcross : List BeatAct :=
  [.spawn, .tick 30000000, .wake, .raised, .tick 30000000, .wake, .raised, .tick 30000000, .wake, .tick 25000000,
    .raised, .tick 10000000]

/-- Five seconds after its expiry the lease is still assumed. -/
theorem lease_loss_late : ¬ ∀ (ttl heartbeat now : Time) (runId : ℕ) (row row' : Option LeaseRow)
    (lease : Lease)
    (as : List BeatAct) (s : BeatSys), 0 ≤ ttl → acquireLease now ttl runId row = (row', some lease) →
    Steps (BeatSys.step ttl heartbeat lease) Free (BeatSys.start now row') as s → s.Safe lease := by
  intro h
  have hrun : (execAll (BeatSys.step (seconds 120) (seconds 30) ⟨1, 1⟩)
      (BeatSys.start 0 (some ⟨1, seconds 120, 0, 1⟩)) sleptAcross).map
      (fun s => (s.beat.assumes, (acquireLease s.clock (seconds 120) 2 s.row).2)) =
      some (true, some ⟨2, 2⟩) := by decide
  obtain ⟨s, hs, hobs⟩ := steps_of_observed hrun
  obtain ⟨hbeat, htaken⟩ := Prod.mk.inj hobs
  have hacq : acquireLease 0 (seconds 120) 1 none = (some ⟨1, seconds 120, 0, 1⟩, some ⟨1, 1⟩) := by decide
  have hahead := h _ _ _ _ _ _ _ _ s (by decide) hacq hs (.inl hbeat)
  exact absurd ((hahead.2 s.clock (seconds 120) 2 le_rfl).symm.trans htaken) (by simp)

end Broker.Agent
