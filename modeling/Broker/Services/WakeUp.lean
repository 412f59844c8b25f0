import Broker.Lib.WakeLoop
import Broker.Services.JobQueue

/-!
# Broker.Services.WakeUp — no wake-up of the dispatcher is lost

The loop of `_dispatch` clears `wake`, claims jobs for its free slots and sleeps until `wake` is set or a
timeout is over.  A NOTIFY sets it, which Postgres delivers after the job is committed, and so does the end of
a job, which frees a slot.  Jobs, notifications and ends may fall anywhere between the statements of a pass.
While the dispatcher sleeps with a free slot and `wake` unset, the jobs that wait are those whose NOTIFY is on
its way and those only the timeout can find (`no_wakeup_lost`).
-/

namespace Broker.Services

open Broker.Lib Broker.Db

/-- Where the loop stands.  A tick is `failed` when its body raised; `spawning` has the number of rows that
the claim returned. -/
inductive DispatchPhase where
  | top
  | tick
  | claiming (free : ℤ)
  | spawning (claimed : ℕ)
  | asleep (failed : Bool)

/-- `busy` is `len(inflight)`; `listening` says that the LISTEN connection is up, `claimedAt` when the last
claim was. -/
structure Dispatcher where
  board : Board PlainJobRow := {}
  busy : ℕ := 0
  listening : Bool := false
  claimedAt : Time := 0
  phase : DispatchPhase := .top

/-- A plain job that is pending, due or not. -/
def waitsForClaim (r : PlainJobRow) : Bool := decide (r.status = .pending) && !isAgent r.capability

/-- `write` is any other statement on the table, of this process too. -/
inductive QueueEvent where
  | submit (r : PlainJobRow) (notified : Bool)
  | notified (id : ℕ)
  | connect
  | disconnect
  | write (rows : List PlainJobRow)
  | done

/-- `raised` may come after the claim is committed. -/
inductive DispatchStep where
  | clear
  | read
  | claim (now : Time) (locked : List ℕ)
  | spawn
  | raised (claimed : Option (Time × List ℕ))
  | wake

namespace Dispatcher

/-- The job is committed with its NOTIFY, which reaches who listens then. -/
def env (s : Dispatcher) : QueueEvent → Option Dispatcher
  | .submit r notified => some { s with board := s.board.put (·.id) r (notified && s.listening) }
  | .notified id => if s.board.transit.contains id then some { s with board := s.board.arrive id } else none
  | .connect => some { s with listening := true }
  | .disconnect => some { s with listening := false, board := s.board.lose fun _ => true }
  | .write rows => some { s with board := s.board.write (·.id) waitsForClaim rows }
  | .done => if 0 < s.busy then some { s with busy := s.busy - 1 } else none

/-- The table after a claim, and what the claim was told. -/
def claimed (s : Dispatcher) (now : Time) (locked : List ℕ) (free : ℤ) : Dispatcher :=
  { s with
    board := s.board.look (claimBatch now free.toNat locked s.board.rows).1 locked
    claimedAt := now }

/-- The body of the loop of `_dispatch`; `postgres` says that there is a listener. -/
def loop (maxConcurrency : ℤ) (postgres : Bool) (s : Dispatcher) : DispatchStep → Option Dispatcher
  | .clear =>
    match s.phase with
    | .top => some { s with phase := .tick }
    | _ => none
  | .read =>
    match s.phase with
    | .tick =>
      let free := maxConcurrency - s.busy
      some { s with phase := if 0 < free then .claiming free else .asleep false }
    | _ => none
  | .claim now locked =>
    match s.phase with
    | .claiming free =>
      let rows := (claimBatch now free.toNat locked s.board.rows).2
      some { s.claimed now locked free with phase := .spawning rows.length }
    | _ => none
  | .spawn =>
    match s.phase with
    | .spawning n =>
      -- the queue is still hot: the next pass comes at once
      some { s with busy := s.busy + n, phase := if postgres && decide (0 < n) then .top else .asleep false }
    | _ => none
  | .raised committed =>
    match s.phase, committed with
    | .tick, none => some { s with phase := .asleep true }
    | .claiming _, none => some { s with phase := .asleep true }
    | .claiming free, some (now, locked) => some { s.claimed now locked free with phase := .asleep true }
    | _, _ => none
  | .wake =>
    match s.phase with
    | .asleep _ => some { s with phase := .top }
    | _ => none

/-- `_dispatch` with its event `wake`. -/
def system (maxConcurrency : ℤ) (postgres : Bool) : WakeLoop Dispatcher QueueEvent DispatchStep where
  env := env
  raises
    | .notified _ | .done => true
    | _ => false
  loop := loop maxConcurrency postgres
  clears
    | .clear => true
    | _ => false

/-! ### A claim -/

/-- Not due at the last claim. -/
def NotDue (s : Dispatcher) (r : PlainJobRow) : Prop := ∃ runAfter ∈ r.runAfter, s.claimedAt ≤ runAfter

/-- Every job that waits is accounted for. -/
def AllCovered (s : Dispatcher) : Prop := s.board.Covered (·.id) waitsForClaim (fun _ => True) s.NotDue

theorem eligible_of_waits {now : Time} {r : PlainJobRow} (hwaits : waitsForClaim r = true)
    (hdue : ¬ ∃ runAfter ∈ r.runAfter, now ≤ runAfter) : eligible now r = true := by
  obtain ⟨hpending, hplain⟩ := Bool.and_eq_true_iff.mp hwaits
  have hpast : r.runAfter.all (fun t => decide (t < now)) = true := by
    rw [Option.all_eq_true]
    intro t ht
    have hlt : t < now := by
      by_contra hle
      exact hdue ⟨t, ht, not_lt.mp hle⟩
    simpa using hlt
  simp only [eligible, hpending, hplain, hpast, Bool.and_true]

/-- A row that waits after a claim waited before it, and was not picked. -/
theorem mem_claimBatch_waits {now : Time} {limit : ℕ} {locked : List ℕ} {rows : List PlainJobRow}
    {r : PlainJobRow} (hr : r ∈ (claimBatch now limit locked rows).1) (hwaits : waitsForClaim r = true) :
    r ∈ rows ∧ r.id ∉ claimIds now limit locked rows := by
  rcases mem_updateWhere.mp hr with ⟨hmem, hout⟩ | ⟨x, -, -, rfl⟩
  · exact ⟨hmem, by simpa using hout⟩
  · cases hwaits

/-- A claim returns at least the rows it picked. -/
theorem length_claimIds_le (now : Time) (limit : ℕ) (locked : List ℕ) (rows : List PlainJobRow) :
    (claimIds now limit locked rows).length ≤ (claimBatch now limit locked rows).2.length := by
  obtain ⟨picked, hpicked⟩ : ∃ picked, picked = ((rows.filter fun r => eligible now r &&
    !locked.contains r.id).insertionSort claimOrder).take limit := ⟨_, rfl⟩
  have hids : claimIds now limit locked rows = picked.map (·.id) := by rw [hpicked]; rfl
  have hsub : picked.Subperm rows := by
    rw [hpicked]
    exact ((List.take_sublist _ _).subperm.trans (List.perm_insertionSort _ _).subperm).trans
      List.filter_sublist.subperm
  have hfilter : picked.filter (fun r => (picked.map (·.id)).contains r.id) = picked := by
    rw [List.filter_eq_self]
    intro r hr
    simpa using ⟨r, hr, rfl⟩
  have hle : picked.length ≤ (rows.filter fun r => (picked.map (·.id)).contains r.id).length := by
    rw [← congrArg List.length hfilter]
    exact (hsub.filter _).length_le
  simpa only [claimBatch, hids, List.length_map] using hle

/-- **A claim takes as many rows as there are slots, or leaves only what is locked or not due.** -/
theorem claimed_covered (s : Dispatcher) (now : Time) (locked : List ℕ) (free : ℤ) :
    free ≤ (claimBatch now free.toNat locked s.board.rows).2.length ∨
      (s.claimed now locked free).AllCovered := by
  by_cases hfull : free.toNat ≤ (claimIds now free.toNat locked s.board.rows).length
  · have hle := length_claimIds_le now free.toNat locked s.board.rows
    exact .inl (by omega)
  · refine .inr fun r hr hwaits _ => .inr ?_
    obtain ⟨hmem, hout⟩ := mem_claimBatch_waits hr hwaits
    by_cases hlocked : r.id ∈ locked
    · exact .inl hlocked
    · refine .inr ?_
      by_contra hdue
      have heligible : eligible now r = true := eligible_of_waits hwaits hdue
      have hok : (eligible now r && !locked.contains r.id) = true := by simp [heligible, hlocked]
      rw [claimIds, List.length_map, not_le] at hfull
      exact hout (List.mem_map_of_mem (Board.mem_take_of_length_lt hfull hmem hok))

/-! ### The invariant of a pass -/

/-- The slots are taken or every job that waits is accounted for, from the claim of a pass on. -/
def Rested (maxConcurrency : ℤ) (s : Dispatcher) : Prop :=
  match s.phase with
  | .top | .tick | .asleep true => True
  | .claiming free => maxConcurrency ≤ s.busy + free
  | .spawning n => maxConcurrency ≤ s.busy + n ∨ s.AllCovered
  | .asleep false => maxConcurrency ≤ s.busy ∨ s.AllCovered

variable {maxConcurrency : ℤ} {postgres : Bool}

/-- A step that keeps the phase and the slots, and what is accounted for. -/
theorem Rested.keep {s t : Dispatcher} (h : s.Rested maxConcurrency) (hphase : t.phase = s.phase)
    (hbusy : t.busy = s.busy) (hcovered : s.AllCovered → t.AllCovered) : t.Rested maxConcurrency := by
  rw [Rested, hphase, hbusy]
  rw [Rested] at h
  split
  · trivial
  · trivial
  · trivial
  · rename_i heq
    rw [heq] at h
    exact h
  · rename_i heq
    rw [heq] at h
    exact h.imp_right hcovered
  · rename_i heq
    rw [heq] at h
    exact h.imp_right hcovered

theorem rested_env {s t : Dispatcher} {a : QueueEvent} (h : s.Rested maxConcurrency)
    (hstep : s.env a = some t)
    (hraises : (system maxConcurrency postgres).raises a = false) : t.Rested maxConcurrency := by
  cases a with
  | submit r notified =>
    obtain rfl := Option.some.inj hstep
    exact h.keep rfl rfl fun hcovered => hcovered.put r _
  | notified id => cases hraises
  | connect =>
    obtain rfl := Option.some.inj hstep
    exact h.keep rfl rfl id
  | disconnect =>
    obtain rfl := Option.some.inj hstep
    exact h.keep rfl rfl fun hcovered => hcovered.lose _
  | write rows =>
    obtain rfl := Option.some.inj hstep
    exact h.keep rfl rfl fun hcovered => hcovered.write rows
  | done => cases hraises

theorem rested_loop {s t : Dispatcher} {b : DispatchStep} (h : s.Rested maxConcurrency)
    (hstep : s.loop maxConcurrency postgres b = some t) : t.Rested maxConcurrency := by
  rw [Rested] at h
  cases b with
  | clear =>
    simp only [loop] at hstep
    split at hstep
    · obtain rfl := Option.some.inj hstep
      trivial
    · cases hstep
  | read =>
    simp only [loop] at hstep
    split at hstep
    · obtain rfl := Option.some.inj hstep
      by_cases hfree : 0 < maxConcurrency - s.busy
      · rw [Rested, if_pos hfree]
        show maxConcurrency ≤ s.busy + (maxConcurrency - s.busy)
        omega
      · rw [Rested, if_neg hfree]
        refine .inl ?_
        show maxConcurrency ≤ s.busy
        omega
    · cases hstep
  | claim now locked =>
    simp only [loop] at hstep
    split at hstep
    · rename_i free hphase
      obtain rfl := Option.some.inj hstep
      rw [hphase] at h
      rcases s.claimed_covered now locked free with hfull | hcovered
      · refine .inl ?_
        show maxConcurrency ≤ s.busy + ((claimBatch now free.toNat locked s.board.rows).2.length : ℤ)
        omega
      · exact .inr hcovered
    · cases hstep
  | spawn =>
    simp only [loop] at hstep
    split at hstep
    · rename_i n hphase
      obtain rfl := Option.some.inj hstep
      rw [hphase] at h
      by_cases hhot : (postgres && decide (0 < n)) = true
      · rw [Rested, if_pos hhot]
        trivial
      · rw [Rested, if_neg hhot]
        refine h.imp_left fun hfull => ?_
        show maxConcurrency ≤ ((s.busy + n : ℕ) : ℤ)
        omega
    · cases hstep
  | raised committed =>
    simp only [loop] at hstep
    split at hstep
    · obtain rfl := Option.some.inj hstep
      trivial
    · obtain rfl := Option.some.inj hstep
      trivial
    · obtain rfl := Option.some.inj hstep
      trivial
    · cases hstep
  | wake =>
    simp only [loop] at hstep
    split at hstep
    · obtain rfl := Option.some.inj hstep
      trivial
    · cases hstep

/-- **No wake-up of the dispatcher is lost.**  In every run of submissions, notifications, lost connections,
statements of others, ends of jobs and passes that succeed or fail at any statement: while the dispatcher
sleeps after a pass that did not fail, with `wake` unset and a slot free, every plain job that is pending has
its NOTIFY on the way to this dispatcher, was not due at its last claim, or is one of `missed`: locked by
another transaction at that claim, or pending since then with no NOTIFY that reaches it. -/
theorem no_wakeup_lost {s t : Flagged Dispatcher} {as : List (QueueEvent ⊕ DispatchStep)}
    (h : Steps (system maxConcurrency postgres).step Free s as t) (hs : s.inner.phase = .top)
    (hasleep : t.inner.phase = .asleep false) (hwake : t.flag = false)
    (hslot : t.inner.busy < maxConcurrency) :
    ∀ r ∈ t.inner.board.rows, r.status = .pending → isAgent r.capability = false →
      r.id ∈ t.inner.board.transit ∨ r.id ∈ t.inner.board.missed ∨
        ∃ runAfter ∈ r.runAfter, t.inner.claimedAt ≤ runAfter := by
  have hstart : s.inner.Rested maxConcurrency := by
    rw [Rested, hs]
    trivial
  have hclear : ∀ u b v, loop maxConcurrency postgres u b = some v →
      (system maxConcurrency postgres).clears b = true → v.Rested maxConcurrency := by
    intro u b v hstep hb
    cases b with
    | clear =>
      simp only [loop] at hstep
      split at hstep
      · obtain rfl := Option.some.inj hstep
        trivial
      · cases hstep
    | _ => cases hb
  have hrested := (system maxConcurrency postgres).holds_while_down hclear
    (fun _ _ _ hu hstep => rested_loop hu hstep) (fun _ _ _ hu hstep hraises => rested_env hu hstep hraises)
    h hstart hwake
  rw [Rested, hasleep] at hrested
  intro r hr hpending hplain
  rcases hrested with hfull | hcovered
  · exact absurd hslot (not_lt.mpr hfull)
  · exact hcovered r hr (by simp [waitsForClaim, hpending, hplain]) trivial

/-- A plain job. -/
def greeting (id : ℕ) (createdAt : Time) : PlainJobRow where
  id := id
  projectId := 1
  capability := "chat:fast"
  status := .pending
  request := {}
  resultText := none
  resultMeta := none
  errorMessage := none
  retryCount := 0
  runAfter := none
  startedAt := none
  createdAt := createdAt
  completedAt := none
  cancelRequested := false
  priority := 5

/-- The first job comes before the claim, the second while the loop takes the first and the third when it
sleeps again. -/
def threeJobs : List (QueueEvent ⊕ DispatchStep) :=
  [.inl .connect, .inr .clear, .inl (.submit (greeting 1 10) true), .inl (.notified 1), .inr .read,
    .inr (.claim 20 []), .inl (.submit (greeting 2 21) true), .inr .spawn, .inr .clear, .inl (.notified 2),
    .inr .read, .inr (.claim 30 []), .inr .spawn, .inr .clear, .inr .read, .inr (.claim 31 []), .inr .spawn,
    .inl (.submit (greeting 3 40) true)]

theorem no_wakeup_lost_third : ∃ t, execAll (system 24 true).step ⟨{}, false⟩ threeJobs = some t ∧
    t.inner.board.rows.map (·.status) = [.running, .running, .pending] ∧
    3 ∈ t.inner.board.transit := by
  obtain ⟨t, hrun, hphase, hflag, hbusy, hrows, hmissed⟩ : ∃ t,
      execAll (system 24 true).step ⟨{}, false⟩ threeJobs = some t ∧ t.inner.phase = .asleep false ∧
      t.flag = false ∧ t.inner.busy = 2 ∧
      t.inner.board.rows = [claimRow 20 (greeting 1 10), claimRow 30 (greeting 2 21), greeting 3 40] ∧
      t.inner.board.missed = [] := ⟨_, rfl, rfl, rfl, rfl, rfl, rfl⟩
  refine ⟨t, hrun, by rw [hrows]; rfl, ?_⟩
  have hsteps := steps_of_execAll hrun
  have hslot : (t.inner.busy : ℤ) < 24 := by rw [hbusy]; decide
  have hmem : greeting 3 40 ∈ t.inner.board.rows := by rw [hrows]; simp
  rcases no_wakeup_lost hsteps rfl hphase hflag hslot (greeting 3 40) hmem rfl rfl with
    h | h | ⟨runAfter, h, -⟩
  · exact h
  · rw [hmissed] at h
    cases h
  · cases h

end Dispatcher

end Broker.Services
