import Broker.Agent.Lock
import Broker.Lib.Exclusive
import Mathlib.Algebra.Order.Ring.Int

/-!
# Broker.Agent.RefreshGate — who may refresh the shared Codex login

All runs of Codex share one login, and its refresh token rotates: two refreshes at once can lose it.  A run
whose login may be due for a refresh starts alone, under one lease, until its first model call; a run that
sees a login that is not due, or one that such a call has just proved, starts with no lease.  Codex itself
refreshes while it starts, once the last refresh is as old as its own interval.  When this interval is longer
than the broker's limits and a start together, only a run with the lease refreshes, and one at a time
(`refreshes_alone`).  The refresh that Codex makes after a 401 is left out.
-/

namespace Broker.Agent

open Broker.Lib Broker.Db

namespace RefreshGate

/-- `ExecConfig`, as far as the gate reads it, and the time a lease lasts. -/
structure Limits where
  dueAfter : Time
  proofWindow : Time
  proofMaxAge : Time
  ttl : Time

/-- `refresh_due`: an unreadable timestamp is due. -/
def refreshDue (afterS now : Time) (last : Option Time) : Bool := last.all fun l => decide (afterS ≤ now - l)

structure RefreshProof where
  lastRefresh : Option Time := none
  provenAt : Option Time := none

namespace RefreshProof

/-- `RefreshProof.record`: a proof only when the timestamp was readable and did not change. -/
def record (p : RefreshProof) (before after : Option Time) (now : Time) : RefreshProof :=
  if before.isNone || after != before then p else ⟨before, some now⟩

/-- `RefreshProof.covers`. -/
def covers (p : RefreshProof) (lastRefresh : Option Time) (window maxAge now : Time) : Bool :=
  match lastRefresh, p.provenAt with
  | some last, some provenAt =>
    decide (0 < window) && p.lastRefresh == some last && decide (now - last < maxAge) &&
      decide (now - provenAt ≤ window)
  | _, _ => false

end RefreshProof

/-- `_AuthGate`: the lease, and the timestamp when the gate was taken. -/
structure AuthGate where
  lease : Lease
  lastRefresh : Option Time

inductive Phase where
  | waiting (lastRefresh : Option Time)
  | starting (gate : Option AuthGate) (since : Time)
  | called
  | ended

structure Run where
  runId : ℕ
  phase : Phase

/-- The run starts its CLI under the lease. -/
def Run.gated (r : Run) : Bool :=
  match r.phase with
  | .starting (some _) _ => true
  | _ => false

/-- `lastRefresh` is the timestamp in `auth.json`, `row` the lease row of the refresh. -/
structure Sys where
  now : Time
  lastRefresh : Option Time
  proof : RefreshProof := {}
  row : Option LeaseRow := none
  runs : List Run := []

inductive Act where
  | tick (now : Time)
  | start (runId : ℕ)
  | poll (i : ℕ)
  | renew (i : ℕ)
  | refresh (i : ℕ)
  | call (i : ℕ) (released : Bool)
  | stop (i : ℕ) (released : Bool)
  | login
  | crash

section Step

variable (lim : Limits)

/-- The decision of `_codex_auth_gate`: the run starts with no lease. -/
def skipsGate (s : Sys) : Bool :=
  !refreshDue lim.dueAfter s.now s.lastRefresh ||
    s.proof.covers s.lastRefresh lim.proofWindow lim.proofMaxAge s.now

/-- The gate is closed by giving the lease back; `session_lock` suppresses a release that fails. -/
def Sys.close (s : Sys) (gate : Option AuthGate) (released : Bool) : Option LeaseRow :=
  match gate with
  | some g => if released then releaseLease s.now g.lease s.row else s.row
  | none => s.row

/-- One step of a run, of Codex, of the owner who signs in again, or of the clock; a crash ends every CLI. -/
def step (s : Sys) : Act → Option Sys
  | .tick now => if s.now ≤ now then some { s with now := now } else none
  | .start runId =>
    let phase := if skipsGate lim s then .starting none s.now else .waiting s.lastRefresh
    some { s with runs := s.runs ++ [⟨runId, phase⟩] }
  | .poll i =>
    match s.runs[i]? with
    | some ⟨runId, .waiting last⟩ =>
      match acquireLease s.now lim.ttl runId s.row with
      | (row, some l) =>
        some { s with row := row, runs := s.runs.set i ⟨runId, .starting (some ⟨l, last⟩) s.now⟩ }
      | (_, none) => some s
    | _ => none
  | .renew i =>
    match s.runs[i]? with
    | some ⟨_, .starting (some g) _⟩ => some { s with row := (renewLease s.now lim.ttl g.lease s.row).1 }
    | _ => none
  | .refresh i =>
    match s.runs[i]? with
    | some ⟨_, .starting _ _⟩ => some { s with lastRefresh := some s.now }
    | _ => none
  | .call i released =>
    match s.runs[i]? with
    | some ⟨runId, .starting gate _⟩ =>
      let proof := match gate with
        | some g => s.proof.record g.lastRefresh s.lastRefresh s.now
        | none => s.proof
      some { s with proof := proof, row := s.close gate released, runs := s.runs.set i ⟨runId, .called⟩ }
    | _ => none
  | .stop i released =>
    match s.runs[i]? with
    | some ⟨runId, .starting gate _⟩ =>
      some { s with row := s.close gate released, runs := s.runs.set i ⟨runId, .ended⟩ }
    | some ⟨runId, _⟩ => some { s with runs := s.runs.set i ⟨runId, .ended⟩ }
    | none => none
  | .login => some { s with lastRefresh := some s.now }
  | .crash => some { s with proof := {}, runs := [] }

end Step

/-- The environment: a start that has the lease renews it in time or is stopped, one that has none makes its
first model call within `startTime`, and Codex refreshes a login only after its own `interval`. -/
def InTime (startTime interval : Time) (s : Sys) : Act → Prop
  | .tick now => ∀ r ∈ s.runs,
    (∀ g since, r.phase = .starting (some g) since → ∀ row ∈ s.row, now ≤ row.leaseUntil) ∧
    ∀ since, r.phase = .starting none since → now ≤ since + startTime
  | .refresh _ => ∀ last ∈ s.lastRefresh, interval ≤ s.now - last
  | _ => True

/-- Codex's interval is longer than the limits of the gate and a start together. -/
structure Margin (lim : Limits) (startTime interval : Time) : Prop where
  due : 0 < lim.dueAfter
  ttl : 0 ≤ lim.ttl
  start : 0 ≤ startTime
  interval : max lim.dueAfter lim.proofMaxAge + startTime ≤ interval

/-! ### The lease -/

/-- A run that starts with a lease has the one the row accepts, and no other run has. -/
structure Held (s : Sys) : Prop where
  lease : ∀ r ∈ s.runs, ∀ g since, r.phase = .starting (some g) since →
    token s.row = some g.lease ∧ ∀ row ∈ s.row, s.now ≤ row.leaseUntil
  alone : AtMostOne Run.gated s.runs

variable {lim : Limits} {startTime interval : Time} {s t : Sys}

theorem gated_iff {r : Run} : r.gated = true ↔ ∃ g since, r.phase = .starting (some g) since := by
  obtain ⟨runId, phase⟩ := r
  cases phase with
  | starting gate since => cases gate <;> simp [Run.gated]
  | _ => simp [Run.gated]

theorem Held.of_none (h : ∀ r ∈ s.runs, r.gated = false) : Held s := by
  refine ⟨fun r hr g since hphase => ?_, .of_none h⟩
  have hgated := gated_iff.mpr ⟨g, since, hphase⟩
  rw [h r hr] at hgated
  cases hgated

/-- While a start holds the lease, nobody acquires it. -/
theorem Held.none_of_acquire (hs : Held s) {runId : ℕ} {row : Option LeaseRow} {l : Lease}
    (h : acquireLease s.now lim.ttl runId s.row = (row, some l)) : ∀ r ∈ s.runs, r.gated = false := by
  intro r hr
  by_contra hgated
  obtain ⟨g, since, hphase⟩ := gated_iff.mp (by simpa using hgated)
  obtain ⟨htoken, huntil⟩ := hs.lease r hr g since hphase
  cases hrow : s.row with
  | none =>
    rw [hrow] at htoken
    cases htoken
  | some current =>
    rw [hrow] at h
    have hle := huntil current hrow
    simp only [acquireLease] at h
    rw [if_neg (not_lt.mpr hle)] at h
    cases (Prod.mk.inj h).2

theorem leaseUntil_of_acquire {now ttl : Time} {runId : ℕ} {row row' : Option LeaseRow} {l : Lease}
    (h : acquireLease now ttl runId row = (row', some l)) : ∀ r ∈ row', r.leaseUntil = now + ttl := by
  intro r hr
  cases row with
  | none =>
    obtain ⟨rfl, -⟩ := Prod.mk.inj h
    obtain rfl := Option.some.inj hr
    rfl
  | some current =>
    simp only [acquireLease] at h
    split_ifs at h
    · obtain ⟨rfl, -⟩ := Prod.mk.inj h
      obtain rfl := Option.some.inj hr
      rfl
    · cases (Prod.mk.inj h).2

/-- The run that acquires the lease is the only one that has it. -/
theorem Held.acquire (hs : Held s) (httl : 0 ≤ lim.ttl) {i runId : ℕ} {last : Option Time} {row : Option LeaseRow}
    {l : Lease} (hacq : acquireLease s.now lim.ttl runId s.row = (row, some l)) :
    Held { s with row := row, runs := s.runs.set i ⟨runId, .starting (some ⟨l, last⟩) s.now⟩ } := by
  have hnone := hs.none_of_acquire hacq
  refine ⟨fun r hr g since hphase => ?_, ?_⟩
  · rcases List.mem_or_eq_of_mem_set hr with hr | rfl
    · have hgated := gated_iff.mpr ⟨g, since, hphase⟩
      rw [hnone r hr] at hgated
      cases hgated
    · obtain ⟨hgate, -⟩ := Phase.starting.inj hphase
      obtain rfl := Option.some.inj hgate
      refine ⟨(acquireLease_some hacq).1, fun r hr => ?_⟩
      rw [leaseUntil_of_acquire hacq r hr]
      exact le_add_of_nonneg_right httl
  · have hold : ∀ {j : ℕ} {r : Run}, (s.runs.set i ⟨runId, .starting (some ⟨l, last⟩) s.now⟩)[j]? = some r →
        r.gated = true → j = i := by
      intro j r hj hgated
      rcases AtMostOne.getElem?_set_cases hj with ⟨rfl, -⟩ | ⟨-, hj⟩
      · rfl
      · rw [hnone r (List.mem_of_getElem? hj)] at hgated
        cases hgated
    intro j k a b ha hb hpa hpb
    rw [hold ha hpa, hold hb hpb]

/-- A renewal moves the end of the lease only. -/
theorem Held.renew (hs : Held s) (httl : 0 ≤ lim.ttl) {l : Lease} (hl : token s.row = some l) :
    Held { s with row := (renewLease s.now lim.ttl l s.row).1 } := by
  refine ⟨fun r hr g since hphase => ?_, hs.alone⟩
  have htoken := (hs.lease r hr g since hphase).1
  refine ⟨by rw [token_renewLease, htoken], fun row hrow => ?_⟩
  rw [renewLease, if_pos (holds_iff.mpr hl)] at hrow
  obtain ⟨current, -, rfl⟩ := Option.map_eq_some_iff.mp hrow
  exact le_add_of_nonneg_right httl

/-- A run that starts with a lease leaves the start: no run has the lease then. -/
theorem Held.leave (hs : Held s) {i : ℕ} {runId : ℕ} {gate : Option AuthGate} {since : Time} {phase : Phase}
    (hi : s.runs[i]? = some ⟨runId, .starting gate since⟩) (hphase : (⟨runId, phase⟩ : Run).gated = false)
    {proof : RefreshProof} {released : Bool} :
    Held { s with proof := proof, row := s.close gate released, runs := s.runs.set i ⟨runId, phase⟩ } := by
  cases gate with
  | some g => exact .of_none (hs.alone.none_of_set hi rfl hphase)
  | none =>
    refine ⟨fun r hr g' since' hstart => ?_, hs.alone.set hi fun hgated => ?_⟩
    · rcases List.mem_or_eq_of_mem_set hr with hr | rfl
      · exact hs.lease r hr g' since' hstart
      · rw [gated_iff.mpr ⟨g', since', hstart⟩] at hphase
        cases hphase
    · rw [hphase] at hgated
      cases hgated

/-- **One step keeps the lease with one start.** -/
theorem held_step (hm : Margin lim startTime interval) {a : Act} (hs : Held s)
    (hc : InTime startTime interval s a) (h : step lim s a = some t) : Held t := by
  cases a with
  | tick now =>
    simp only [step] at h
    split_ifs at h
    obtain rfl := Option.some.inj h
    refine ⟨fun r hr g since hphase => ?_, hs.alone⟩
    exact ⟨(hs.lease r hr g since hphase).1, (hc r hr).1 g since hphase⟩
  | start runId =>
    obtain rfl := Option.some.inj h
    have hnone :
        (⟨runId, if skipsGate lim s then .starting none s.now else .waiting s.lastRefresh⟩ : Run).gated =
        false := by
      split_ifs <;> rfl
    refine ⟨fun r hr g since hphase => ?_, hs.alone.concat hnone⟩
    rcases List.mem_append.mp hr with hr | hr
    · exact hs.lease r hr g since hphase
    · obtain rfl := List.mem_singleton.mp hr
      rw [gated_iff.mpr ⟨g, since, hphase⟩] at hnone
      cases hnone
  | poll i =>
    simp only [step] at h
    split at h
    · rename_i runId last hi
      split at h
      · rename_i row l hacq
        exact Option.some.inj h ▸ hs.acquire hm.ttl hacq
      · exact Option.some.inj h ▸ hs
    · cases h
  | renew i =>
    simp only [step] at h
    split at h
    · rename_i runId g since hi
      exact Option.some.inj h ▸ hs.renew hm.ttl (hs.lease _ (List.mem_of_getElem? hi) g since rfl).1
    · cases h
  | refresh i =>
    simp only [step] at h
    split at h
    · exact Option.some.inj h ▸ ⟨hs.lease, hs.alone⟩
    · cases h
  | call i released =>
    simp only [step] at h
    split at h
    · rename_i runId gate since hi
      exact Option.some.inj h ▸ hs.leave hi rfl
    · cases h
  | stop i released =>
    simp only [step] at h
    split at h
    · rename_i runId gate since hi
      exact Option.some.inj h ▸ hs.leave hi rfl
    · rename_i runId phase hstart hi
      obtain rfl := Option.some.inj h
      refine ⟨fun r hr g since hphase => ?_, hs.alone.set hi fun hgated => ?_⟩
      · rcases List.mem_or_eq_of_mem_set hr with hr | rfl
        · exact hs.lease r hr g since hphase
        · cases hphase
      · cases hgated
    · cases h
  | login => exact Option.some.inj h ▸ ⟨hs.lease, hs.alone⟩
  | crash => exact Option.some.inj h ▸ .of_none fun r hr => (List.not_mem_nil hr).elim

/-! ### The starts without a lease -/

/-- A run that starts with no lease has seen a login younger than the limits, it is no older now than then,
and the start is not over its time. -/
def Fresh (lim : Limits) (startTime : Time) (s : Sys) : Prop :=
  ∀ r ∈ s.runs, ∀ since, r.phase = .starting none since → since ≤ s.now ∧ s.now ≤ since + startTime ∧
    ∃ last, s.lastRefresh = some last ∧ since - last < max lim.dueAfter lim.proofMaxAge

/-- What a run has seen that starts with no lease. -/
theorem young_of_skipsGate (h : skipsGate lim s = true) :
    ∃ last, s.lastRefresh = some last ∧ s.now - last < max lim.dueAfter lim.proofMaxAge := by
  simp only [skipsGate, Bool.or_eq_true, Bool.not_eq_true'] at h
  cases hlast : s.lastRefresh with
  | none =>
    rw [hlast] at h
    rcases h with h | h
    · cases h
    · cases h
  | some last =>
    refine ⟨last, rfl, ?_⟩
    rw [hlast] at h
    rcases h with hyoung | hproven
    · simp only [refreshDue, Option.all_some, decide_eq_false_iff_not, not_le] at hyoung
      exact hyoung.trans_le (le_max_left _ _)
    · simp only [RefreshProof.covers] at hproven
      split at hproven
      · rename_i last' provenAt heq _
        obtain rfl := Option.some.inj heq
        simp only [Bool.and_eq_true, decide_eq_true_eq] at hproven
        exact hproven.1.2.trans_le (le_max_right _ _)
      · cases hproven

/-- Runs that start with no lease are among those that did, and the login is the same or has just been
refreshed. -/
theorem Fresh.keep (hm : Margin lim startTime interval) (hs : Fresh lim startTime s) (hnow : t.now = s.now)
    (hlast : t.lastRefresh = s.lastRefresh ∨ t.lastRefresh = some s.now)
    (hruns : ∀ r ∈ t.runs, r ∈ s.runs ∨ ∀ since, r.phase ≠ .starting none since) : Fresh lim startTime t := by
  intro r hr since hphase
  obtain ⟨hsince, hover, last, hfile, hyoung⟩ := hs r ((hruns r hr).resolve_right fun hno => hno since hphase)
    since hphase
  rw [hnow]
  refine ⟨hsince, hover, ?_⟩
  rcases hlast with hlast | hlast
  · exact ⟨last, hlast.trans hfile, hyoung⟩
  · refine ⟨s.now, hlast, ?_⟩
    have hpos : 0 < max lim.dueAfter lim.proofMaxAge := hm.due.trans_le (le_max_left _ _)
    exact (sub_nonpos.mpr hsince).trans_lt hpos

theorem fresh_step (hm : Margin lim startTime interval) {a : Act} (hs : Fresh lim startTime s)
    (hc : InTime startTime interval s a) (h : step lim s a = some t) : Fresh lim startTime t := by
  have hset : ∀ {i : ℕ} {c : Run}, (∀ since, c.phase ≠ .starting none since) →
      ∀ r ∈ s.runs.set i c, r ∈ s.runs ∨ ∀ since, r.phase ≠ .starting none since := by
    intro i c hc r hr
    rcases List.mem_or_eq_of_mem_set hr with hr | rfl
    · exact .inl hr
    · exact .inr hc
  cases a with
  | tick now =>
    simp only [step] at h
    split_ifs at h with hle
    obtain rfl := Option.some.inj h
    intro r hr since hphase
    obtain ⟨hsince, -, hyoung⟩ := hs r hr since hphase
    exact ⟨hsince.trans hle, (hc r hr).2 since hphase, hyoung⟩
  | start runId =>
    obtain rfl := Option.some.inj h
    intro r hr since hphase
    rcases List.mem_append.mp hr with hr | hr
    · exact hs r hr since hphase
    · obtain rfl := List.mem_singleton.mp hr
      by_cases hskip : skipsGate lim s = true
      · simp only [hskip, if_true] at hphase
        obtain rfl := (Phase.starting.inj hphase).2
        exact ⟨le_rfl, le_add_of_nonneg_right hm.start, young_of_skipsGate hskip⟩
      · simp only [hskip, Bool.false_eq_true, if_false] at hphase
        cases hphase
  | poll i =>
    simp only [step] at h
    split at h
    · split at h
      · obtain rfl := Option.some.inj h
        exact hs.keep hm rfl (.inl rfl) (hset fun since hphase => by cases hphase)
      · exact Option.some.inj h ▸ hs
    · cases h
  | renew i =>
    simp only [step] at h
    split at h
    · obtain rfl := Option.some.inj h
      exact hs.keep hm rfl (.inl rfl) fun r hr => .inl hr
    · cases h
  | refresh i =>
    simp only [step] at h
    split at h
    · obtain rfl := Option.some.inj h
      exact hs.keep hm rfl (.inr rfl) fun r hr => .inl hr
    · cases h
  | call i released =>
    simp only [step] at h
    split at h
    · obtain rfl := Option.some.inj h
      exact hs.keep hm rfl (.inl rfl) (hset fun since hphase => by cases hphase)
    · cases h
  | stop i released =>
    simp only [step] at h
    split at h
    · obtain rfl := Option.some.inj h
      exact hs.keep hm rfl (.inl rfl) (hset fun since hphase => by cases hphase)
    · obtain rfl := Option.some.inj h
      exact hs.keep hm rfl (.inl rfl) (hset fun since hphase => by cases hphase)
    · cases h
  | login =>
    obtain rfl := Option.some.inj h
    exact hs.keep hm rfl (.inr rfl) fun r hr => .inl hr
  | crash =>
    obtain rfl := Option.some.inj h
    intro r hr
    exact (List.not_mem_nil hr).elim

/-- **Codex refreshes the shared login only under the lease, and in one start at a time.**  In every run of
starts, polls, renewals, first model calls, failures, releases that fail, sign-ins and crashes, where leases
are renewed in time and the interval of Codex leaves the margin, a start that refreshes has the lease that the
row accepts, and no other start has it. -/
theorem refreshes_alone (hm : Margin lim startTime interval) {as : List Act} (hs : s.runs = [])
    (h : Steps (step lim) (InTime startTime interval) s as t) {i : ℕ} {u : Sys}
    (hrefresh : step lim t (.refresh i) = some u) (hc : InTime startTime interval t (.refresh i)) :
    ∃ runId g since, t.runs[i]? = some ⟨runId, .starting (some g) since⟩ ∧ token t.row = some g.lease ∧
      ∀ (j : ℕ) (r : Run), t.runs[j]? = some r → r.gated = true → j = i := by
  have hheld : Held t :=
    h.inv (fun _ _ _ hi hc hstep => held_step hm hi hc hstep) (.of_none (by simp [hs]))
  have hfresh : Fresh lim startTime t :=
    h.inv (fun _ _ _ hi hc hstep => fresh_step hm hi hc hstep) fun r hr => by simp [hs] at hr
  simp only [step] at hrefresh
  split at hrefresh
  · rename_i runId gate since hi
    have hmem := List.mem_of_getElem? hi
    cases gate with
    | some g =>
      refine ⟨runId, g, since, hi, (hheld.lease _ hmem g since rfl).1, fun j r hj hgated => ?_⟩
      exact hheld.alone j i r _ hj hi hgated rfl
    | none =>
      -- a start with no lease is over before the login is that old
      obtain ⟨-, hover, last, hlast, hyoung⟩ := hfresh _ hmem since rfl
      have hold : interval ≤ t.now - last := hc last hlast
      have hage : t.now - last ≤ since + startTime - last := sub_le_sub_right hover last
      have hlimit : since + startTime - last < max lim.dueAfter lim.proofMaxAge + startTime := by
        rw [add_sub_right_comm]
        exact add_lt_add_left hyoung startTime
      exact absurd (hm.interval.trans (hold.trans hage)) (not_le.mpr hlimit)
  · cases hrefresh

/-! Codex refreshes after eight days, and a start takes an hour at most. -/

def defaults : Limits where
  dueAfter := seconds (4 * 86400)
  proofWindow := seconds 1800
  proofMaxAge := seconds 561600
  ttl := seconds 120

theorem refreshes_alone_first : ∃ t u, step defaults t (.refresh 0) = some u ∧
    t.runs.map Run.gated = [true, false] ∧ ∀ (j : ℕ) (r : Run), t.runs[j]? = some r → r.gated = true →
      j = 0 := by
  have hmargin : Margin defaults (seconds 3600) (seconds (8 * 86400)) := by
    refine ⟨?_, ?_, ?_, ?_⟩ <;> decide
  have hrun : ∃ t, Steps (step defaults) (InTime (seconds 3600) (seconds (8 * 86400)))
      ⟨seconds (9 * 86400), some 0, {}, none, []⟩ [.start 7, .start 8, .poll 0, .poll 1] t ∧
      t.runs.map Run.gated = [true, false] ∧ t.now = seconds (9 * 86400) ∧ t.lastRefresh = some 0 ∧
      (step defaults t (.refresh 0)).isSome = true :=
    ⟨_, ((((Steps.nil _).snoc trivial rfl).snoc trivial rfl).snoc trivial rfl).snoc trivial rfl, rfl, rfl,
      rfl, rfl⟩
  obtain ⟨t, hsteps, hgated, hnow, hlast, hsome⟩ := hrun
  obtain ⟨u, hrefresh⟩ := Option.isSome_iff_exists.mp hsome
  have hold : InTime (seconds 3600) (seconds (8 * 86400)) t (.refresh 0) := by
    intro last hmem
    obtain rfl : 0 = last := Option.some.inj (hlast.symm.trans hmem)
    rw [hnow]
    decide
  obtain ⟨-, -, -, -, -, halone⟩ := refreshes_alone hmargin rfl hsteps hrefresh hold
  exact ⟨t, u, hrefresh, hgated, halone⟩

end RefreshGate

end Broker.Agent
