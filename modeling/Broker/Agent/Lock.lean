import Broker.Db.Models
import Broker.Lib.Trans

/-!
# Broker.Agent.Lock — the session lease and its fence

One row of `agent_session_leases` for a fixed `(account_id, session_id)`.  `acquire_lease`,
`renew_lease` and `release_lease` are single statements; `check_fence` locks the row inside the
caller's write transaction until that transaction ends, so every other statement on the row waits.
`LeaseSys` interleaves them for any number of runs, keeps every Lease ever issued, and records
acquisitions and fenced writes in the order they commit.
-/

namespace Broker.Agent

open Broker.Lib Broker.Db

structure LeaseRow where
  runId : ℕ
  leaseUntil : Time
  heartbeatAt : Time
  fence : ℕ
  deriving DecidableEq, Repr

/-- A held lease and its fence token. -/
structure Lease where
  runId : ℕ
  fence : ℕ
  deriving DecidableEq, Repr

/-- `_RELEASED_S`. -/
def releasedPast : Time := seconds 86400

/-- Take the lease if the session is free or its lease expired; every acquisition bumps the fence. -/
def acquireLease (now ttl : Time) (runId : ℕ) : Option LeaseRow → Option LeaseRow × Option Lease
  | none => (some ⟨runId, now + ttl, now, 1⟩, some ⟨runId, 1⟩)
  | some r =>
    if r.leaseUntil < now then
      (some ⟨runId, now + ttl, now, r.fence + 1⟩, some ⟨runId, r.fence + 1⟩)
    else (some r, none)

/-- The `WHERE` of renew and release, and the test of `check_fence`: same run and same fence. -/
def holds (l : Lease) (row : Option LeaseRow) : Bool :=
  row.any fun r => r.runId == l.runId && r.fence == l.fence

/-- Extend the lease of the current holder; `false` when it is no longer ours. -/
def renewLease (now ttl : Time) (l : Lease) (row : Option LeaseRow) : Option LeaseRow × Bool :=
  if holds l row then
    (row.map fun r => { r with leaseUntil := now + ttl, heartbeatAt := now }, true)
  else (row, false)

/-- Free the session by expiring the row in place. -/
def releaseLease (now : Time) (l : Lease) (row : Option LeaseRow) : Option LeaseRow :=
  if holds l row then row.map fun r => { r with leaseUntil := now - releasedPast } else row

/-- `check_fence`: a run that holds no lease has nothing to check. -/
def checkFence (l : Option Lease) (row : Option LeaseRow) : Bool := l.all (holds · row)

/-! ### The interleaved system -/

/-- What commits, in order. -/
inductive LeaseEvent where
  | acquired (l : Lease)
  | wrote (l : Lease)
  deriving DecidableEq, Repr

/-- `holder` is the lease of the write transaction that has the row locked, if any. -/
structure LeaseSys where
  clock : Time
  row : Option LeaseRow := none
  holder : Option Lease := none
  issued : List Lease := []
  log : List LeaseEvent := []

/-- `now` is the clock of the statement's own transaction, which may have started before it got the
row. -/
inductive LeaseAct where
  | tick (d : ℕ)
  | acquire (runId : ℕ) (now ttl : Time)
  | renew (l : Lease) (now ttl : Time)
  | release (l : Lease) (now : Time)
  | beginWrite (l : Lease)
  | commitWrite
  | abortWrite

def LeaseSys.step (s : LeaseSys) : LeaseAct → Option LeaseSys
  | .tick d => some { s with clock := s.clock + d }
  | .acquire runId now ttl =>
    if s.holder = none ∧ now ≤ s.clock then
      match acquireLease now ttl runId s.row with
      | (row, some l) => some { s with row := row, issued := l :: s.issued, log := s.log ++ [.acquired l] }
      | (row, none) => some { s with row := row }
    else none
  | .renew l now ttl =>
    if s.holder = none ∧ now ≤ s.clock then some { s with row := (renewLease now ttl l s.row).1 } else none
  | .release l now =>
    if s.holder = none ∧ now ≤ s.clock then some { s with row := releaseLease now l s.row } else none
  | .beginWrite l =>
    if s.holder = none then
      if checkFence (some l) s.row then some { s with holder := some l } else some s
    else none
  | .commitWrite =>
    match s.holder with
    | some l => some { s with holder := none, log := s.log ++ [.wrote l] }
    | none => none
  | .abortWrite => if s.holder = none then none else some { s with holder := none }

/-! ### The token of a row -/

/-- The only Lease a row accepts. -/
def token (row : Option LeaseRow) : Option Lease := row.map fun r => ⟨r.runId, r.fence⟩

theorem holds_iff {l : Lease} {row : Option LeaseRow} : holds l row = true ↔ token row = some l := by
  cases row with
  | none => simp [holds, token]
  | some r =>
    cases l
    simp [holds, token]

@[simp] theorem token_renewLease (now ttl : Time) (l : Lease) (row : Option LeaseRow) :
    token (renewLease now ttl l row).1 = token row := by
  unfold renewLease
  split_ifs
  · cases row <;> rfl
  · rfl

@[simp] theorem token_releaseLease (now : Time) (l : Lease) (row : Option LeaseRow) :
    token (releaseLease now l row) = token row := by
  unfold releaseLease
  split_ifs
  · cases row <;> rfl
  · rfl

/-- The fence of the row, `0` before the first acquisition. -/
def fenceOf (row : Option LeaseRow) : ℕ := (token row).elim 0 (·.fence)

theorem acquireLease_some {now ttl : Time} {runId : ℕ} {row row' : Option LeaseRow} {l : Lease}
    (h : acquireLease now ttl runId row = (row', some l)) :
    token row' = some l ∧ l.fence = fenceOf row + 1 := by
  cases row with
  | none =>
    obtain ⟨rfl, rfl⟩ := by simpa [acquireLease] using h
    exact ⟨rfl, rfl⟩
  | some r =>
    simp only [acquireLease] at h
    split_ifs at h
    · obtain ⟨rfl, rfl⟩ := by simpa using h
      exact ⟨rfl, rfl⟩
    · exact absurd h (by simp)

theorem acquireLease_none {now ttl : Time} {runId : ℕ} {row row' : Option LeaseRow}
    (h : acquireLease now ttl runId row = (row', none)) : row' = row := by
  cases row with
  | none => exact absurd h (by simp [acquireLease])
  | some r =>
    simp only [acquireLease] at h
    split_ifs at h
    · exact absurd h (by simp)
    · exact (Prod.mk.inj h).1.symm

/-! ### Steps -/

/-- What one step can do: leave the token alone, grant the next one while no write holds the row, or
commit a fenced write. -/
inductive LeaseSys.Effect (s s' : LeaseSys) : Prop where
  | keep (ht : token s'.row = token s.row) (hi : s'.issued = s.issued) (hl : s'.log = s.log)
      (hh : ∀ l, s'.holder = some l → s.holder = some l ∨ token s.row = some l)
  | grant (l : Lease) (ht : token s'.row = some l) (hf : l.fence = fenceOf s.row + 1)
      (hi : s'.issued = l :: s.issued) (hl : s'.log = s.log ++ [.acquired l]) (hh : s'.holder = none)
  | write (l : Lease) (ht : token s'.row = token s.row) (hi : s'.issued = s.issued)
      (hl : s'.log = s.log ++ [.wrote l]) (hs : s.holder = some l) (hh : s'.holder = none)

theorem LeaseSys.step_effect {s s' : LeaseSys} {a : LeaseAct} (h : s.step a = some s') : s.Effect s' := by
  cases a with
  | tick d => obtain rfl := Option.some.inj h; exact .keep rfl rfl rfl fun l hl => .inl hl
  | acquire runId now ttl =>
    simp only [step] at h
    split_ifs at h with hc
    split at h
    · rename_i row l hacq
      obtain rfl := Option.some.inj h
      obtain ⟨ht, hf⟩ := acquireLease_some hacq
      exact .grant l ht hf rfl rfl hc.1
    · rename_i row hacq
      obtain rfl := Option.some.inj h
      obtain rfl := acquireLease_none hacq
      exact .keep rfl rfl rfl fun l hl => .inl hl
  | renew l now ttl =>
    simp only [step] at h
    split_ifs at h
    obtain rfl := Option.some.inj h
    exact .keep (token_renewLease ..) rfl rfl fun l hl => .inl hl
  | release l now =>
    simp only [step] at h
    split_ifs at h
    obtain rfl := Option.some.inj h
    exact .keep (token_releaseLease ..) rfl rfl fun l hl => .inl hl
  | beginWrite l =>
    simp only [step] at h
    split_ifs at h with hc hf
    · obtain rfl := Option.some.inj h
      refine .keep rfl rfl rfl fun l' hl' => .inr ?_
      obtain rfl := Option.some.inj hl'
      exact holds_iff.mp hf
    · obtain rfl := Option.some.inj h
      exact .keep rfl rfl rfl fun l hl => .inl hl
  | commitWrite =>
    simp only [step] at h
    split at h
    · rename_i l hh
      obtain rfl := Option.some.inj h
      exact .write l rfl rfl rfl hh rfl
    · exact absurd h (by simp)
  | abortWrite =>
    simp only [step] at h
    split_ifs at h
    obtain rfl := Option.some.inj h
    exact .keep rfl rfl rfl fun l hl => absurd hl (by simp)

/-! ### The invariant -/

/-- An acquisition that precedes a fenced write is not newer than the writer. -/
def LeaseEvent.NotNewer : LeaseEvent → LeaseEvent → Prop
  | .acquired l', .wrote l => l'.fence ≤ l.fence
  | _, _ => True

/-- The row carries the newest token ever issued, and a write in progress carries it too. -/
structure LeaseSys.Inv (s : LeaseSys) : Prop where
  newest : ∀ l ∈ s.issued, l.fence ≤ fenceOf s.row ∧ (l.fence = fenceOf s.row → token s.row = some l)
  holder : ∀ l, s.holder = some l → token s.row = some l
  acquired : ∀ l, .acquired l ∈ s.log → l ∈ s.issued
  ordered : s.log.Pairwise LeaseEvent.NotNewer

theorem fenceOf_of_token {row : Option LeaseRow} {l : Lease} (h : token row = some l) :
    fenceOf row = l.fence := by simp [fenceOf, h]

theorem LeaseSys.Effect.inv {s s' : LeaseSys} (h : s.Effect s') (hI : s.Inv) : s'.Inv := by
  cases h with
  | keep ht hi hl hh =>
    have hf : fenceOf s'.row = fenceOf s.row := by rw [fenceOf, ht, fenceOf]
    refine ⟨?_, ?_, ?_, ?_⟩
    · rw [hi, hf, ht]; exact hI.newest
    · intro l hl'
      rw [ht]
      exact (hh l hl').elim (hI.holder l) id
    · rw [hl, hi]; exact hI.acquired
    · rw [hl]; exact hI.ordered
  | grant l ht hf hi hl hh =>
    have hf' : fenceOf s'.row = l.fence := fenceOf_of_token ht
    refine ⟨?_, ?_, ?_, ?_⟩
    · intro l' hl'
      rw [hi, List.mem_cons] at hl'
      rcases hl' with rfl | hl'
      · exact ⟨by omega, fun _ => ht⟩
      · have hle := (hI.newest l' hl').1
        exact ⟨by omega, fun he => absurd he (by omega)⟩
    · intro l' hl'
      exact absurd (hh.symm.trans hl') (by simp)
    · intro l' hl'
      rw [hl, List.mem_append, List.mem_singleton] at hl'
      rw [hi]
      rcases hl' with hl' | hl'
      · exact List.mem_cons_of_mem _ (hI.acquired l' hl')
      · obtain rfl := LeaseEvent.acquired.inj hl'
        exact List.mem_cons_self
    · rw [hl, List.pairwise_append]
      refine ⟨hI.ordered, List.pairwise_singleton _ _, fun a _ b hb => ?_⟩
      obtain rfl := List.mem_singleton.mp hb
      cases a <;> trivial
  | write l ht hi hl hs hh =>
    have hf : fenceOf s'.row = fenceOf s.row := by rw [fenceOf, ht, fenceOf]
    refine ⟨?_, ?_, ?_, ?_⟩
    · rw [hi, hf, ht]; exact hI.newest
    · intro l' hl'
      exact absurd (hh.symm.trans hl') (by simp)
    · intro l' hl'
      rw [hl, List.mem_append, List.mem_singleton] at hl'
      rw [hi]
      exact hI.acquired l' (hl'.resolve_right (by simp))
    · rw [hl, List.pairwise_append]
      refine ⟨hI.ordered, List.pairwise_singleton _ _, fun a ha b hb => ?_⟩
      obtain rfl := List.mem_singleton.mp hb
      cases a with
      | wrote => trivial
      | acquired l' =>
        -- the write's lease still is the row's token, and no issued token is newer
        have hle := (hI.newest l' (hI.acquired l' ha)).1
        rwa [fenceOf_of_token (hI.holder l hs)] at hle

/-- A Lease that fails the check fails it for good. -/
def LeaseSys.Fails (s s' : LeaseSys) : Prop :=
  ∀ l ∈ s.issued, l ∈ s'.issued ∧ (holds l s.row = false → holds l s'.row = false)

theorem LeaseSys.Effect.fails {s s' : LeaseSys} (h : s.Effect s') (hI : s.Inv) : s.Fails s' := by
  intro l hl
  have hkeep : token s'.row = token s.row → (holds l s.row = false → holds l s'.row = false) := by
    intro ht hf
    rw [← Bool.not_eq_true, holds_iff] at hf ⊢
    rwa [ht]
  cases h with
  | keep ht hi _ _ => exact ⟨hi ▸ hl, hkeep ht⟩
  | write _ ht hi _ _ _ => exact ⟨hi ▸ hl, hkeep ht⟩
  | grant l' ht hf hi _ _ =>
    refine ⟨by rw [hi]; exact List.mem_cons_of_mem _ hl, fun _ => ?_⟩
    rw [← Bool.not_eq_true, holds_iff, ht]
    intro he
    obtain rfl := Option.some.inj he
    exact absurd (hI.newest l' hl).1 (by omega)

theorem LeaseSys.start_inv (clock : Time) : LeaseSys.Inv { clock := clock } :=
  ⟨by simp, by simp, by simp, .nil⟩

theorem LeaseSys.step_inv {s s' : LeaseSys} {a : LeaseAct} (hI : s.Inv) (h : s.step a = some s') : s'.Inv :=
  (step_effect h).inv hI

/-- **Session lease fencing**, in every reachable state: the next acquisition gets a fence above every
fence issued before; at most one issued Lease passes `check_fence`; an issued Lease that fails it fails
it in every later state; renew and release with a stale Lease change nothing; and of the commits so far,
no fenced write follows the acquisition of a newer holder. -/
theorem session_lease_fencing (clock : Time) {as : List LeaseAct} {s : LeaseSys}
    (h : Steps LeaseSys.step Free { clock := clock } as s) :
    (∀ now ttl runId row l, acquireLease now ttl runId s.row = (row, some l) →
      ∀ l' ∈ s.issued, l'.fence < l.fence) ∧
    (∀ l ∈ s.issued, ∀ l' ∈ s.issued, checkFence (some l) s.row = true → checkFence (some l') s.row = true →
      l = l') ∧
    (∀ l ∈ s.issued, checkFence (some l) s.row = false → ∀ bs s', Steps LeaseSys.step Free s bs s' →
      checkFence (some l) s'.row = false) ∧
    (∀ l, checkFence (some l) s.row = false → ∀ now ttl, renewLease now ttl l s.row = (s.row, false) ∧
      releaseLease now l s.row = s.row) ∧
    s.log.Pairwise LeaseEvent.NotNewer := by
  have hI : s.Inv := h.inv (fun _ _ _ hI _ hs => LeaseSys.step_inv hI hs) (LeaseSys.start_inv clock)
  refine ⟨?_, ?_, ?_, ?_, hI.ordered⟩
  · intro now ttl runId row l hacq l' hl'
    rw [(acquireLease_some hacq).2]
    exact Nat.lt_succ_of_le (hI.newest l' hl').1
  · intro l _ l' _ hl hl'
    exact Option.some.inj ((holds_iff.mp hl).symm.trans (holds_iff.mp hl'))
  · intro l hl hf bs s' hrun
    have hrel : s.Fails s' := hrun.rel (fun _ _ _ hI _ hs => LeaseSys.step_inv hI hs)
      (fun _ l hl => ⟨hl, id⟩)
      (fun _ _ _ h1 h2 l hl => ⟨(h2 l (h1 l hl).1).1, fun hf => (h2 l (h1 l hl).1).2 ((h1 l hl).2 hf)⟩)
      (fun _ _ _ hI _ hs => (LeaseSys.step_effect hs).fails hI) hI
    exact (hrel l hl).2 hf
  · intro l hf now ttl
    have hh : holds l s.row = false := hf
    simp [renewLease, releaseLease, hh]

/-- A holder that stalls past its lease is taken over; its late write is refused. -/
def takenOver : List LeaseAct :=
  [.acquire 1 0 10, .tick 20, .acquire 2 20 10, .beginWrite ⟨1, 1⟩, .beginWrite ⟨2, 2⟩, .commitWrite]

theorem session_lease_fencing_of_taken_over :
    ∃ s, Steps LeaseSys.step Free { clock := 0 } takenOver s ∧ s.issued = [⟨2, 2⟩, ⟨1, 1⟩] ∧
      s.log.Pairwise LeaseEvent.NotNewer := by
  have hrun : (execAll LeaseSys.step { clock := 0 } takenOver).map (·.issued) = some [⟨2, 2⟩, ⟨1, 1⟩] := by
    decide
  obtain ⟨s, hs, hi⟩ := steps_of_observed hrun
  exact ⟨s, hs, hi, (session_lease_fencing 0 hs).2.2.2.2⟩

end Broker.Agent
