import Broker.Agent.Lane
import Broker.Lib.WakeLoop

/-!
# Broker.Agent.Refill — no wake-up of an agent worker is lost

A worker's loop clears `refill`, makes the two claims of each lane and sleeps until `refill` is set or a
second is over.  The RPC of `wake_worker` sets it, which the API sends once a run is committed, and so
does the end of a run, which frees its slot.  One lane of one worker is modelled, with everything else
(the other lanes and workers, the housekeeping, the writers of the rows) as changes of the table at any
time.  While the worker sleeps with `refill` unset, a slot stays free only for want of runs that may take
it (`no_refill_lost`).
-/

namespace Broker.Agent

open Broker.Lib Broker.Db

deriving instance DecidableEq for LaneRow

/-- Where the pass over the lane stands, with the free slots it read and the runs it has claimed. -/
inductive RefillPhase where
  | top
  | tick
  | anyPriority (free : ℤ)
  | reserved (free : ℤ) (claimed : ℕ)
  | spawning (claimed : ℕ)
  | asleep (failed : Bool)

/-- `busy` is `len(inflight[cap])`; the two times are those of the last claims. -/
structure RefillLoop where
  board : Board LaneRow := {}
  busy : ℕ := 0
  anyAt : Time := 0
  reservedAt : Time := 0
  phase : RefillPhase := .top

inductive RefillEvent where
  | arrive (r : LaneRow) (hinted : Bool)
  | nudged (id : ℕ)
  | lost (id : ℕ)
  | write (rows : List LaneRow)
  | done

inductive RefillStep where
  | clear
  | read
  | claimAny (now : Time) (locked : List ℕ)
  | claimReserved (now : Time) (locked : List ℕ)
  | spawn
  | raised (committed : Option (Time × List ℕ))
  | wake

section Lane

variable (cfg : LaneSettings) (c : Capability)

/-- A pending run of the lane, due or not. -/
def waitsForLane (r : LaneRow) : Bool :=
  decide (r.job.capability = c.name) && decide (r.job.status = .pending)
    && (decide (cfg.accountId = "") || decide (r.accountId = cfg.accountId))

/-- The runs a claim of the lane may take. -/
def MayTake (interactiveOnly : Bool) (r : LaneRow) : Prop :=
  interactiveOnly = true → r.job.priority = priorityInteractive

/-- The table after a claim. -/
def laneRowsAfter (now : Time) (picked rows : List LaneRow) : List LaneRow :=
  updateWhere (fun r => (picked.map (·.job.id)).contains r.job.id) (claimedRow now) rows

namespace RefillLoop

def env (s : RefillLoop) : RefillEvent → Option RefillLoop
  | .arrive r hinted => some { s with board := s.board.put (·.job.id) r hinted }
  | .nudged id => if s.board.transit.contains id then some { s with board := s.board.arrive id } else none
  | .lost id => some { s with board := s.board.lose fun x => x == id }
  | .write rows => some { s with board := s.board.write (·.job.id) (waitsForLane cfg c) rows }
  | .done => if 0 < s.busy then some { s with busy := s.busy - 1 } else none

/-- What the first claim of `claim_for_lane` picks. -/
def pickAny (s : RefillLoop) (now : Time) (locked : List ℕ) (free : ℤ) : List LaneRow :=
  claimAgentRuns cfg c (free - cfg.reserve c) false now locked s.board.rows

/-- What the second one picks, after `claimed` runs of the first. -/
def pickReserved (s : RefillLoop) (now : Time) (locked : List ℕ) (free : ℤ) (claimed : ℕ) : List LaneRow :=
  claimAgentRuns cfg c (free - claimed) true now locked s.board.rows

/-- The first claim starts what a pass has missed. -/
def afterAny (s : RefillLoop) (now : Time) (locked : List ℕ) (free : ℤ) : RefillLoop :=
  { s with
    board := s.board.look (laneRowsAfter now (s.pickAny cfg c now locked free) s.board.rows) locked
    anyAt := now }

def afterReserved (s : RefillLoop) (now : Time) (locked : List ℕ) (free : ℤ) (claimed : ℕ) : RefillLoop :=
  { s with
    board := s.board.look (laneRowsAfter now (s.pickReserved cfg c now locked free claimed) s.board.rows)
      (s.board.missed ++ locked)
    reservedAt := now }

/-- The body of the loop of `agent_worker_loop`, for one lane. -/
def loop (s : RefillLoop) : RefillStep → Option RefillLoop
  | .clear =>
    match s.phase with
    | .top => some { s with phase := .tick }
    | _ => none
  | .read =>
    match s.phase with
    | .tick => some { s with phase := .anyPriority (concurrencyFor cfg c - s.busy) }
    | _ => none
  | .claimAny now locked =>
    match s.phase with
    | .anyPriority free =>
      some { s.afterAny cfg c now locked free with
        phase := .reserved free (s.pickAny cfg c now locked free).length }
    | _ => none
  | .claimReserved now locked =>
    match s.phase with
    | .reserved free n =>
      some { s.afterReserved cfg c now locked free n with
        phase := .spawning (n + (s.pickReserved cfg c now locked free n).length) }
    | _ => none
  | .spawn =>
    match s.phase with
    | .spawning n => some { s with busy := s.busy + n, phase := .asleep false }
    | _ => none
  | .raised committed =>
    -- the statement may have committed; what the pass has claimed has no task then
    match s.phase, committed with
    | .anyPriority free, some (now, locked) =>
      some { s.afterAny cfg c now locked free with phase := .asleep true }
    | .reserved free n, some (now, locked) =>
      some { s.afterReserved cfg c now locked free n with phase := .asleep true }
    | .tick, none | .anyPriority _, none | .reserved _ _, none => some { s with phase := .asleep true }
    | _, _ => none
  | .wake =>
    match s.phase with
    | .asleep _ => some { s with phase := .top }
    | _ => none

/-- The lane with the event `refill`. -/
def system : WakeLoop RefillLoop RefillEvent RefillStep where
  env := env cfg c
  raises
    | .nudged _ | .done => true
    | _ => false
  loop := loop cfg c
  clears
    | .clear => true
    | _ => false

/-- Every run that waits and may be taken is accounted for. -/
def Accounted (s : RefillLoop) (interactiveOnly : Bool) (since : Time) : Prop :=
  s.board.Covered (·.job.id) (waitsForLane cfg c) (MayTake interactiveOnly) fun r =>
    ∃ runAfter ∈ r.job.runAfter, since ≤ runAfter

end RefillLoop

end Lane

variable {cfg : LaneSettings} {c : Capability}

/-! ### A claim -/

theorem laneClaimable_of_waits {io : Bool} {now : Time} {r : LaneRow} (hwaits : waitsForLane cfg c r = true)
    (hmay : MayTake io r) (hdue : ¬ ∃ runAfter ∈ r.job.runAfter, now ≤ runAfter) :
    laneClaimable cfg c io now r = true := by
  simp only [waitsForLane, Bool.and_eq_true] at hwaits
  obtain ⟨⟨hcapability, hpending⟩, haccount⟩ := hwaits
  have hpast : r.job.runAfter.all (fun t => decide (t < now)) = true := by
    rw [Option.all_eq_true]
    intro t ht
    have hlt : t < now := by
      by_contra hle
      exact hdue ⟨t, ht, not_lt.mp hle⟩
    simpa using hlt
  have hpriority : (!io || decide (r.job.priority = priorityInteractive)) = true := by
    cases io with
    | false => rfl
    | true => simpa using hmay rfl
  simp only [laneClaimable, hcapability, hpending, hpast, hpriority, haccount, Bool.and_self]

/-- A run that waits after a claim waited before it, and was not picked. -/
theorem mem_laneRowsAfter {now : Time} {picked rows : List LaneRow} {r : LaneRow}
    (hr : r ∈ laneRowsAfter now picked rows) (hwaits : waitsForLane cfg c r = true) :
    r ∈ rows ∧ r ∉ picked := by
  rcases mem_updateWhere.mp hr with ⟨hmem, hout⟩ | ⟨x, -, -, rfl⟩
  · refine ⟨hmem, fun hpicked => ?_⟩
    have hin : (picked.map (·.job.id)).contains r.job.id = true := by simpa using ⟨r, hpicked, rfl⟩
    rw [hin] at hout
    cases hout
  · simp [waitsForLane, claimedRow] at hwaits

/-- **A claim takes as many runs as it may, or leaves only what is locked or not due.** -/
theorem claimAgentRuns_covers (b : Board LaneRow) (limit : ℤ) (io : Bool) (now : Time)
    (locked missed : List ℕ)
    (hmissed : ∀ id ∈ locked, id ∈ missed) :
    limit ≤ (claimAgentRuns cfg c limit io now locked b.rows).length ∨
      (b.look (laneRowsAfter now (claimAgentRuns cfg c limit io now locked b.rows) b.rows) missed).Covered
        (·.job.id) (waitsForLane cfg c) (MayTake io)
        fun r => ∃ runAfter ∈ r.job.runAfter, now ≤ runAfter := by
  by_cases hlimit : limit ≤ 0
  · exact .inl (hlimit.trans (Int.natCast_nonneg _))
  have hpicked : claimAgentRuns cfg c limit io now locked b.rows = ((b.rows.filter fun r =>
      laneClaimable cfg c io now r && !locked.contains r.job.id).insertionSort laneOrder).take limit.toNat :=
    if_neg hlimit
  by_cases hfull : limit.toNat ≤ (claimAgentRuns cfg c limit io now locked b.rows).length
  · exact .inl (by omega)
  · refine .inr fun r hr hwaits hmay => .inr ?_
    obtain ⟨hmem, hout⟩ := mem_laneRowsAfter hr hwaits
    by_cases hlocked : r.job.id ∈ locked
    · exact .inl (hmissed _ hlocked)
    · refine .inr ?_
      by_contra hdue
      have hclaimable : laneClaimable cfg c io now r = true := laneClaimable_of_waits hwaits hmay hdue
      have hok : (laneClaimable cfg c io now r && !locked.contains r.job.id) = true := by
        simp [hclaimable, hlocked]
      rw [hpicked, not_le] at hfull
      rw [hpicked] at hout
      exact hout (Board.mem_take_of_length_lt hfull hmem hok)

namespace RefillLoop

/-! ### The invariant of a pass -/

/-- The slots a claim may fill are taken, or every run that may take one is accounted for. -/
def Filled (cfg : LaneSettings) (c : Capability) (s : RefillLoop) (taken : ℕ) : Prop :=
  (concurrencyFor cfg c - cfg.reserve c ≤ taken ∨ s.Accounted cfg c false s.anyAt) ∧
    (concurrencyFor cfg c ≤ taken ∨ s.Accounted cfg c true s.reservedAt)

def Rested (cfg : LaneSettings) (c : Capability) (s : RefillLoop) : Prop :=
  match s.phase with
  | .top | .tick | .asleep true => True
  | .anyPriority free => concurrencyFor cfg c ≤ s.busy + free
  | .reserved free n =>
    concurrencyFor cfg c ≤ s.busy + free ∧ (free - cfg.reserve c ≤ n ∨ s.Accounted cfg c false s.anyAt)
  | .spawning n => s.Filled cfg c (s.busy + n)
  | .asleep false => s.Filled cfg c s.busy

theorem Rested.keep {s t : RefillLoop} (h : s.Rested cfg c) (hphase : t.phase = s.phase)
    (hbusy : t.busy = s.busy)
    (hany : s.Accounted cfg c false s.anyAt → t.Accounted cfg c false t.anyAt)
    (hreserved : s.Accounted cfg c true s.reservedAt → t.Accounted cfg c true t.reservedAt) :
    t.Rested cfg c := by
  rw [Rested, hphase, hbusy]
  rw [Rested] at h
  split
  · trivial
  · trivial
  · trivial
  · rename_i heq
    rw [heq] at h
    exact h
  · rename_i heq
    rw [heq] at h
    exact ⟨h.1, h.2.imp_right hany⟩
  · rename_i heq
    rw [heq] at h
    exact ⟨h.1.imp_right hany, h.2.imp_right hreserved⟩
  · rename_i heq
    rw [heq] at h
    exact ⟨h.1.imp_right hany, h.2.imp_right hreserved⟩

theorem rested_env {s t : RefillLoop} {a : RefillEvent} (h : s.Rested cfg c) (hstep : s.env cfg c a = some t)
    (hraises : (system cfg c).raises a = false) : t.Rested cfg c := by
  cases a with
  | arrive r hinted =>
    obtain rfl := Option.some.inj hstep
    exact h.keep rfl rfl (fun hany => hany.put r _) fun hreserved => hreserved.put r _
  | nudged id => cases hraises
  | lost id =>
    obtain rfl := Option.some.inj hstep
    exact h.keep rfl rfl (fun hany => hany.lose _) fun hreserved => hreserved.lose _
  | write rows =>
    obtain rfl := Option.some.inj hstep
    exact h.keep rfl rfl (fun hany => hany.write rows) fun hreserved => hreserved.write rows
  | done => cases hraises

theorem rested_loop {s t : RefillLoop} {b : RefillStep} (h : s.Rested cfg c)
    (hstep : s.loop cfg c b = some t) : t.Rested cfg c := by
  rw [Rested] at h
  cases b with
  | clear =>
    simp only [loop] at hstep
    split at hstep
    · obtain rfl := Option.some.inj hstep
      trivial
    · cases hstep
  | read =>
    simp only [loop] at hstep
    split at hstep
    · obtain rfl := Option.some.inj hstep
      show concurrencyFor cfg c ≤ s.busy + (concurrencyFor cfg c - s.busy)
      omega
    · cases hstep
  | claimAny now locked =>
    simp only [loop] at hstep
    split at hstep
    · rename_i free hphase
      obtain rfl := Option.some.inj hstep
      rw [hphase] at h
      exact ⟨h, claimAgentRuns_covers s.board _ false now locked locked fun _ hid => hid⟩
    · cases hstep
  | claimReserved now locked =>
    simp only [loop] at hstep
    split at hstep
    · rename_i free n hphase
      obtain rfl := Option.some.inj hstep
      rw [hphase] at h
      obtain ⟨hslots, hany⟩ := h
      refine ⟨?_, ?_⟩
      · rcases hany with hfull | hany
        · refine .inl ?_
          show concurrencyFor cfg c - cfg.reserve c ≤
            ((s.busy + (n + (s.pickReserved cfg c now locked free n).length) : ℕ) : ℤ)
          omega
        · refine .inr (hany.look (fun r hr hwaits => (mem_laneRowsAfter hr hwaits).1) fun id hid => ?_)
          exact List.mem_append_left _ hid
      · rcases claimAgentRuns_covers s.board (free - n) true now locked (s.board.missed ++ locked)
          (fun id hid => List.mem_append_right _ hid) with hfull | hreserved
        · refine .inl ?_
          have hpicked : free - n ≤ (s.pickReserved cfg c now locked free n).length := hfull
          show concurrencyFor cfg c ≤
            ((s.busy + (n + (s.pickReserved cfg c now locked free n).length) : ℕ) : ℤ)
          omega
        · exact .inr hreserved
    · cases hstep
  | spawn =>
    simp only [loop] at hstep
    split at hstep
    · rename_i n hphase
      obtain rfl := Option.some.inj hstep
      rw [hphase] at h
      exact h
    · cases hstep
  | raised committed =>
    simp only [loop] at hstep
    have hphase : t.phase = .asleep true := by
      split at hstep <;> first
        | exact congrArg phase (Option.some.inj hstep).symm
        | cases hstep
    rw [Rested, hphase]
    trivial
  | wake =>
    simp only [loop] at hstep
    split at hstep
    · obtain rfl := Option.some.inj hstep
      trivial
    · cases hstep

/-- **No wake-up of a worker is lost.**  In every run of arrivals, nudges, lost nudges, writes of others, ends
of runs and passes that succeed or fail at any statement: while the worker sleeps after a pass over the lane
that did not fail, with `refill` unset, a free slot means that every pending interactive run of the lane, and
a slot free beyond the reserve that every pending run of it, has its nudge on the way, was not due at the
claim, or is one of `missed`: locked by another transaction at a claim of the pass, or pending since then with
no nudge on its way. -/
theorem no_refill_lost {s t : Flagged RefillLoop} {as : List (RefillEvent ⊕ RefillStep)}
    (h : Steps (system cfg c).step Free s as t) (hs : s.inner.phase = .top)
    (hasleep : t.inner.phase = .asleep false) (hrefill : t.flag = false) :
    (t.inner.busy < concurrencyFor cfg c → ∀ r ∈ t.inner.board.rows, waitsForLane cfg c r = true →
      r.job.priority = priorityInteractive → r.job.id ∈ t.inner.board.transit ∨
        r.job.id ∈ t.inner.board.missed ∨ ∃ runAfter ∈ r.job.runAfter, t.inner.reservedAt ≤ runAfter) ∧
    (t.inner.busy < concurrencyFor cfg c - cfg.reserve c → ∀ r ∈ t.inner.board.rows,
      waitsForLane cfg c r = true → r.job.id ∈ t.inner.board.transit ∨
        r.job.id ∈ t.inner.board.missed ∨ ∃ runAfter ∈ r.job.runAfter, t.inner.anyAt ≤ runAfter) := by
  have hstart : s.inner.Rested cfg c := by
    rw [Rested, hs]
    trivial
  have hclear : ∀ u b v, loop cfg c u b = some v → (system cfg c).clears b = true → v.Rested cfg c := by
    intro u b v hstep hb
    cases b with
    | clear =>
      simp only [loop] at hstep
      split at hstep
      · obtain rfl := Option.some.inj hstep
        trivial
      · cases hstep
    | _ => cases hb
  have hrested := (system cfg c).holds_while_down hclear (fun _ _ _ hu hstep => rested_loop hu hstep)
    (fun _ _ _ hu hstep hraises => rested_env hu hstep hraises) h hstart hrefill
  rw [Rested, hasleep] at hrested
  obtain ⟨hany, hreserved⟩ := hrested
  constructor
  · intro hslot r hr hwaits hinteractive
    rcases hreserved with hfull | hreserved
    · exact absurd hslot (not_lt.mpr hfull)
    · exact hreserved r hr hwaits fun _ => hinteractive
  · intro hslot r hr hwaits
    rcases hany with hfull | hany
    · exact absurd hslot (not_lt.mpr hfull)
    · exact hany r hr hwaits fun hno => by cases hno

/-- Two batch runs for one slot that is not reserved, and an interactive one when the worker sleeps. -/
def lateInteractive : List (RefillEvent ⊕ RefillStep) :=
  [.inl (.arrive (pendingRun 1 1) true), .inl (.nudged 1), .inl (.arrive (pendingRun 2 1) true),
    .inl (.nudged 2), .inr .clear, .inr .read, .inr (.claimAny 10 []), .inr (.claimReserved 11 []),
    .inr .spawn, .inl (.arrive (pendingRun 3 0) true)]

theorem no_refill_lost_interactive : ∃ t,
    execAll (system { concurrencyCodex := 2 } .codex).step ⟨{}, false⟩ lateInteractive = some t ∧
    t.inner.board.rows.map (·.job.status) = [.running, .pending, .pending] ∧
    3 ∈ t.inner.board.transit := by
  obtain ⟨t, hrun, hphase, hflag, hbusy, hrows, hmissed⟩ : ∃ t,
      execAll (system { concurrencyCodex := 2 } .codex).step ⟨{}, false⟩ lateInteractive = some t ∧
      t.inner.phase = .asleep false ∧ t.flag = false ∧ t.inner.busy = 1 ∧
      t.inner.board.rows = [claimedRow 10 (pendingRun 1 1), pendingRun 2 1, pendingRun 3 0] ∧
      t.inner.board.missed = [] := ⟨_, rfl, rfl, rfl, rfl, rfl, rfl⟩
  refine ⟨t, hrun, by rw [hrows]; rfl, ?_⟩
  have hslot : (t.inner.busy : ℤ) < concurrencyFor { concurrencyCodex := 2 } .codex := by
    rw [hbusy]
    decide
  have hmem : pendingRun 3 0 ∈ t.inner.board.rows := by rw [hrows]; simp
  obtain ⟨hinteractive, -⟩ := no_refill_lost (steps_of_execAll hrun) rfl hphase hflag
  rcases hinteractive hslot (pendingRun 3 0) hmem (by decide) rfl with h | h | ⟨runAfter, h, -⟩
  · exact h
  · rw [hmissed] at h
    cases h
  · cases h

end RefillLoop

end Broker.Agent
