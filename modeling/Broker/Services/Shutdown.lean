import Broker.Lib.OrderedDict
import Broker.Services.Retries

/-!
# Broker.Services.Shutdown — one dispatcher's tasks, and what its shutdown hands back

Each claimed row becomes a task.  A task enters its claim in `_CLAIMED` when it begins and takes the
entry of its job out when it ends on its own; a cancelled task leaves it.  The shutdown waits, cancels
what is left and releases the entries one by one.  Everything else (the other dispatchers, the clients,
the sweeps) is any step of the queue that moves none of these tasks.  `_CLAIMED` is keyed by the job, so
two executions of one job in one process share an entry.
-/

namespace Broker.Services

open Broker.Lib Broker.Db

/-- A task: created by the dispatcher, inside `_execute`, told to cancel, and over in either way. -/
inductive TaskState | created | running | cancelling | cancelled | finished
  deriving DecidableEq, Repr

/-- `_execute_guarded` of one claim. -/
structure Task where
  worker : ℕ
  state : TaskState

namespace Task

/-- The task is in `inflight`. -/
def inflight (t : Task) : Bool := t.state = .created || t.state = .running || t.state = .cancelling

/-- The task has made its entry and did not take it out. -/
def held (t : Task) : Bool := t.state = .running || t.state = .cancelling || t.state = .cancelled

/-- `t.cancel()` on a task that is not done. -/
def cancel (t : Task) : Task := if t.state = .running then { t with state := .cancelling } else t

@[simp] theorem cancel_worker (t : Task) : t.cancel.worker = t.worker := by
  unfold cancel
  split_ifs <;> rfl

@[simp] theorem cancel_inflight (t : Task) : t.cancel.inflight = t.inflight := by
  unfold cancel
  split_ifs with h
  · simp [inflight, h]
  · rfl

@[simp] theorem cancel_held (t : Task) : t.cancel.held = t.held := by
  unfold cancel
  split_ifs with h
  · simp [held, h]
  · rfl

theorem cancel_state_ne (t : Task) : t.cancel.state ≠ .running := by
  unfold cancel
  split_ifs with h
  · simp
  · exact h

@[simp] theorem cancel_created (t : Task) : t.cancel.state = .created ↔ t.state = .created := by
  unfold cancel
  split_ifs with h
  · simp [h]
  · rfl

theorem cancel_of_cancelled {t : Task} (h : t.state = .cancelled) : t.cancel = t := by
  unfold cancel
  rw [if_neg (by simp [h])]

end Task

/-- Where `dispatcher_loop` stands; `releasing` has the entries it still goes through. -/
inductive Stage where
  | dispatching
  | waiting
  | cancelling
  | releasing (rest : List (ℕ × Time))
  | stopped
  deriving DecidableEq

/-- The queue and one dispatcher: its tasks, its `_CLAIMED`, and the `LIMIT` of the claim it awaits. -/
structure ShutdownSys where
  queue : QueueSys := {}
  tasks : List Task := []
  claimed : List (ℕ × Time) := []
  limit : ℕ := 0
  stage : Stage := .dispatching

inductive ShutdownAct where
  | others (a : QueueAct)
  | tick (late : ℕ)
  | claim (now : Time) (locked : List ℕ)
  | begins (k : ℕ)
  | move (k : ℕ) (m : WorkerMove)
  | ends (k : ℕ)
  | leave
  | cancel
  | struck (k : ℕ)
  | gathered
  | release (now : Time)
  | stopped

/-- The worker a step of the queue moves. -/
def QueueAct.mover : QueueAct → Option ℕ
  | .worker i _ => some i
  | _ => none

/-- The move is one of `_execute`. -/
def WorkerMove.ofExecute : WorkerMove → Bool
  | .stop | .release _ | .die => false
  | _ => true

/-- The move commits a statement. -/
def WorkerMove.commits : WorkerMove → Bool
  | .write _ _ | .requeue _ => true
  | _ => false

/-- A running task makes any move; of a cancelled one the statement under way may still commit. -/
def Task.may (t : Task) (m : WorkerMove) : Bool :=
  (t.state = .running && m.ofExecute) || (t.state = .cancelling && m.commits)

theorem Task.inflight_of_may {t : Task} {m : WorkerMove} (h : t.may m = true) : t.inflight = true := by
  unfold Task.may at h
  unfold Task.inflight
  cases hst : t.state <;> simp_all

/-- The tasks of the rows a claim returned. -/
def newTasks (before after : ℕ) : List Task :=
  (List.range' before (after - before)).map fun i => ⟨i, .created⟩

theorem mem_newTasks {before after : ℕ} {u : Task} (h : u ∈ newTasks before after) :
    before ≤ u.worker ∧ u.worker < after ∧ u.state = .created := by
  obtain ⟨i, hmem, rfl⟩ := List.mem_map.mp h
  obtain ⟨hle, hlt⟩ := List.mem_range'_1.mp hmem
  refine ⟨hle, ?_, rfl⟩
  show i < after
  omega

theorem worker_of_newTasks {before after k : ℕ} {u : Task} (h : (newTasks before after)[k]? = some u) :
    u.worker = before + k := by
  unfold newTasks at h
  rw [List.getElem?_map] at h
  obtain ⟨i, hmem, rfl⟩ := Option.map_eq_some_iff.mp h
  obtain ⟨hi, rfl⟩ := List.getElem?_eq_some_iff.mp hmem
  rw [List.getElem_range', Nat.one_mul]

theorem length_newTasks (before after : ℕ) : (newTasks before after).length = after - before := by
  rw [newTasks, List.length_map, List.length_range']

/-- The row runs under the claim. -/
structure RunsUnder (c : ℕ × Time) (r : PlainJobRow) : Prop where
  id : r.id = c.1
  startedAt : r.startedAt = some c.2
  status : r.status = .running

instance (c : ℕ × Time) (r : PlainJobRow) : Decidable (RunsUnder c r) :=
  decidable_of_iff (r.id = c.1 ∧ r.startedAt = some c.2 ∧ r.status = .running)
    ⟨fun h => ⟨h.1, h.2.1, h.2.2⟩, fun h => ⟨h.id, h.startedAt, h.status⟩⟩

namespace ShutdownSys

/-- The tasks that are not done. -/
def inflight (s : ShutdownSys) : ℕ := s.tasks.countP Task.inflight

/-- The claim a task executes. -/
def claimOf (s : ShutdownSys) (t : Task) : Option (ℕ × Time) := s.queue.claims[t.worker]?

variable (cfg : QueueConfig) (maxConcurrency : ℤ)

def step (s : ShutdownSys) : ShutdownAct → Option ShutdownSys
  | .others a =>
    if ∃ t ∈ s.tasks, a.mover = some t.worker then none
    else (s.queue.step cfg a).map fun q => { s with queue := q }
  | .tick late =>
    -- `len(inflight)` still has the done tasks whose callback is yet to run
    if s.stage = .dispatching then some { s with limit := (maxConcurrency - (s.inflight + late : ℕ)).toNat }
    else none
  | .claim now locked =>
    if s.stage = .dispatching ∧ 0 < s.limit then
      (s.queue.step cfg (.claim now s.limit locked)).map fun q =>
        { s with
          queue := q
          tasks := s.tasks ++ newTasks s.queue.workers.length q.workers.length
          limit := 0 }
    else none
  | .begins k =>
    (s.tasks[k]?).bind fun t =>
      (s.claimOf t).bind fun c =>
        -- tasks begin in the order they were created
        if t.state = .created ∧ ∀ u ∈ s.tasks.take k, u.state ≠ .created then
          some { s with
            tasks := s.tasks.set k { t with state := .running }
            claimed := OrderedDict.setItem s.claimed c.1 c.2 }
        else none
  | .move k m =>
    (s.tasks[k]?).bind fun t =>
      if t.may m then (s.queue.step cfg (.worker t.worker m)).map fun q => { s with queue := q } else none
  | .ends k =>
    (s.tasks[k]?).bind fun t =>
      (s.claimOf t).bind fun c =>
        if t.state = .running then
          (s.queue.step cfg (.worker t.worker .die)).map fun q =>
            { s with
              queue := q
              tasks := s.tasks.set k { t with state := .finished }
              claimed := OrderedDict.pop s.claimed c.1 }
        else none
  | .leave => if s.stage = .dispatching then some { s with stage := .waiting, limit := 0 } else none
  | .cancel =>
    -- whatever was created has begun by the time the grace wait returns
    if s.stage = .waiting ∧ ∀ t ∈ s.tasks, t.state ≠ .created then
      some { s with stage := .cancelling, tasks := s.tasks.map Task.cancel }
    else none
  | .struck k =>
    (s.tasks[k]?).bind fun t =>
      if t.state = .cancelling then
        (s.queue.step cfg (.worker t.worker .die)).map fun q =>
          { s with queue := q, tasks := s.tasks.set k { t with state := .cancelled } }
      else none
  | .gathered =>
    if s.stage = .cancelling ∧ ∀ t ∈ s.tasks, t.state ≠ .cancelling then
      some { s with stage := .releasing s.claimed }
    else none
  | .release now =>
    match s.stage with
    | .releasing (c :: rest) =>
      some { s with
        queue := { s.queue with rows := releaseClaim now c.1 (some c.2) s.queue.rows }
        claimed := OrderedDict.pop s.claimed c.1
        stage := .releasing rest }
    | _ => none
  | .stopped =>
    match s.stage with
    | .releasing [] => some { s with stage := .stopped }
    | _ => none

/-- When a task ends on its own, `_CLAIMED` has no current claim of another execution of its job. -/
def ownEntry (s : ShutdownSys) : ShutdownAct → Bool
  | .ends k =>
    ((s.tasks[k]?).bind s.claimOf).all fun c => s.claimed.all fun e =>
      e.1 ≠ c.1 || e = c || s.queue.rows.all fun r => ¬ RunsUnder e r
  | _ => true

/-- The task's claim is current: its row runs under it. -/
def Holds (s : ShutdownSys) (t : Task) (r : PlainJobRow) : Prop := ∃ c, s.claimOf t = some c ∧ RunsUnder c r

instance (s : ShutdownSys) (t : Task) (r : PlainJobRow) : Decidable (s.Holds t r) :=
  inferInstanceAs (Decidable (∃ c ∈ s.claimOf t, RunsUnder c r))

end ShutdownSys

/-- The row is back in the queue, its retries as they were. -/
structure HandedBack (r r' : PlainJobRow) : Prop where
  id : r'.id = r.id
  status : r'.status = .pending
  startedAt : r'.startedAt = none
  retryCount : r'.retryCount = r.retryCount

theorem HandedBack.releaseRow (now : Time) (r : PlainJobRow) : HandedBack r (releaseRow now r) :=
  ⟨rfl, rfl, rfl, rfl⟩

/-- The steps of `_shutdown_inflight`. -/
def ShutdownAct.ofShutdown : ShutdownAct → Bool
  | .cancel | .gathered | .release _ | .stopped => true
  | _ => false

/-! ### Every step -/

/-- Everything the system can do, with its guards. -/
inductive ShutdownStep (cfg : QueueConfig) (maxConcurrency : ℤ) (s : ShutdownSys) :
    ShutdownAct → ShutdownSys → Prop
  | others {a : QueueAct} {q : QueueSys} : (∀ t ∈ s.tasks, a.mover ≠ some t.worker) →
      s.queue.step cfg a = some q → ShutdownStep cfg maxConcurrency s (.others a) { s with queue := q }
  | tick {late : ℕ} : s.stage = .dispatching →
      ShutdownStep cfg maxConcurrency s (.tick late)
        { s with limit := (maxConcurrency - (s.inflight + late : ℕ)).toNat }
  | claim {now : Time} {locked : List ℕ} {q : QueueSys} : s.stage = .dispatching →
      s.queue.step cfg (.claim now s.limit locked) = some q →
      ShutdownStep cfg maxConcurrency s (.claim now locked)
        { s with
          queue := q
          tasks := s.tasks ++ newTasks s.queue.workers.length q.workers.length
          limit := 0 }
  | begins {k : ℕ} {t : Task} {c : ℕ × Time} :
      s.tasks[k]? = some t → s.claimOf t = some c → t.state = .created →
      (∀ u ∈ s.tasks.take k, u.state ≠ .created) →
      ShutdownStep cfg maxConcurrency s (.begins k)
        { s with
          tasks := s.tasks.set k { t with state := .running }
          claimed := OrderedDict.setItem s.claimed c.1 c.2 }
  | move {k : ℕ} {m : WorkerMove} {t : Task} {q : QueueSys} : s.tasks[k]? = some t → t.may m = true →
      s.queue.step cfg (.worker t.worker m) = some q →
      ShutdownStep cfg maxConcurrency s (.move k m) { s with queue := q }
  | ends {k : ℕ} {t : Task} {c : ℕ × Time} {q : QueueSys} : s.tasks[k]? = some t → s.claimOf t = some c →
      t.state = .running → s.queue.step cfg (.worker t.worker .die) = some q →
      ShutdownStep cfg maxConcurrency s (.ends k)
        { s with
          queue := q
          tasks := s.tasks.set k { t with state := .finished }
          claimed := OrderedDict.pop s.claimed c.1 }
  | leave : s.stage = .dispatching →
      ShutdownStep cfg maxConcurrency s .leave { s with stage := .waiting, limit := 0 }
  | cancel : s.stage = .waiting → (∀ t ∈ s.tasks, t.state ≠ .created) →
      ShutdownStep cfg maxConcurrency s .cancel
        { s with stage := .cancelling, tasks := s.tasks.map Task.cancel }
  | struck {k : ℕ} {t : Task} {q : QueueSys} : s.tasks[k]? = some t → t.state = .cancelling →
      s.queue.step cfg (.worker t.worker .die) = some q →
      ShutdownStep cfg maxConcurrency s (.struck k)
        { s with queue := q, tasks := s.tasks.set k { t with state := .cancelled } }
  | gathered : s.stage = .cancelling → (∀ t ∈ s.tasks, t.state ≠ .cancelling) →
      ShutdownStep cfg maxConcurrency s .gathered { s with stage := .releasing s.claimed }
  | release {now : Time} {c : ℕ × Time} {rest : List (ℕ × Time)} : s.stage = .releasing (c :: rest) →
      ShutdownStep cfg maxConcurrency s (.release now)
        { s with
          queue := { s.queue with rows := releaseClaim now c.1 (some c.2) s.queue.rows }
          claimed := OrderedDict.pop s.claimed c.1
          stage := .releasing rest }
  | stopped : s.stage = .releasing [] →
      ShutdownStep cfg maxConcurrency s .stopped { s with stage := .stopped }

variable {cfg : QueueConfig} {maxConcurrency : ℤ}

/-- **Every step of the system**, with its guards. -/
theorem ShutdownSys.step_cases {s s' : ShutdownSys} {a : ShutdownAct}
    (h : s.step cfg maxConcurrency a = some s') :
    ShutdownStep cfg maxConcurrency s a s' := by
  cases a with
  | others a =>
    simp only [ShutdownSys.step] at h
    split_ifs at h with hmine
    obtain ⟨q, hq, rfl⟩ := Option.map_eq_some_iff.mp h
    exact .others (fun t ht heq => hmine ⟨t, ht, heq⟩) hq
  | tick late =>
    simp only [ShutdownSys.step] at h
    split_ifs at h with hst
    obtain rfl := Option.some.inj h
    exact .tick hst
  | claim now locked =>
    simp only [ShutdownSys.step] at h
    split_ifs at h with hst
    obtain ⟨q, hq, rfl⟩ := Option.map_eq_some_iff.mp h
    exact .claim hst.1 hq
  | begins k =>
    simp only [ShutdownSys.step] at h
    obtain ⟨t, ht, h⟩ := Option.bind_eq_some_iff.mp h
    obtain ⟨c, hc, h⟩ := Option.bind_eq_some_iff.mp h
    split_ifs at h with hst
    obtain rfl := Option.some.inj h
    exact .begins ht hc hst.1 hst.2
  | move k m =>
    simp only [ShutdownSys.step] at h
    obtain ⟨t, ht, h⟩ := Option.bind_eq_some_iff.mp h
    split_ifs at h with hmay
    obtain ⟨q, hq, rfl⟩ := Option.map_eq_some_iff.mp h
    exact .move ht hmay hq
  | ends k =>
    simp only [ShutdownSys.step] at h
    obtain ⟨t, ht, h⟩ := Option.bind_eq_some_iff.mp h
    obtain ⟨c, hc, h⟩ := Option.bind_eq_some_iff.mp h
    split_ifs at h with hst
    obtain ⟨q, hq, rfl⟩ := Option.map_eq_some_iff.mp h
    exact .ends ht hc hst hq
  | leave =>
    simp only [ShutdownSys.step] at h
    split_ifs at h with hst
    obtain rfl := Option.some.inj h
    exact .leave hst
  | cancel =>
    simp only [ShutdownSys.step] at h
    split_ifs at h with hst
    obtain rfl := Option.some.inj h
    exact .cancel hst.1 hst.2
  | struck k =>
    simp only [ShutdownSys.step] at h
    obtain ⟨t, ht, h⟩ := Option.bind_eq_some_iff.mp h
    split_ifs at h with hst
    obtain ⟨q, hq, rfl⟩ := Option.map_eq_some_iff.mp h
    exact .struck ht hst hq
  | gathered =>
    simp only [ShutdownSys.step] at h
    split_ifs at h with hst
    obtain rfl := Option.some.inj h
    exact .gathered hst.1 hst.2
  | release now =>
    simp only [ShutdownSys.step] at h
    split at h
    · rename_i hst
      obtain rfl := Option.some.inj h
      exact .release hst
    · cases h
  | stopped =>
    simp only [ShutdownSys.step] at h
    split at h
    · rename_i hst
      obtain rfl := Option.some.inj h
      exact .stopped hst
    · cases h

/-! ### What a step of the queue does to claims -/

/-- No row runs under the claim. -/
def QueueSys.Idle (s : QueueSys) (c : ℕ × Time) : Prop := ∀ r ∈ s.rows, ¬ RunsUnder c r

section Claims

variable {s q : QueueSys} {a : QueueAct} {c : ℕ × Time}

theorem claims_step (h : s.step cfg a = some q) : ∃ new, q.claims = s.claims ++ new := by
  cases QueueSys.step_cases h with
  | submit | stale | cancel => exact ⟨[], (List.append_nil _).symm⟩
  | claim now limit locked taken => exact ⟨_, claims_claimed⟩
  | worker i m w rows p hw =>
    refine ⟨[], ?_⟩
    rw [List.append_nil]
    exact map_claim_set hw p

theorem claim_of_step (h : s.step cfg a = some q) {i : ℕ} (hc : s.claims[i]? = some c) :
    q.claims[i]? = some c := by
  obtain ⟨new, hnew⟩ := claims_step h
  rw [hnew, List.getElem?_append_left (List.getElem?_eq_some_iff.mp hc).1]
  exact hc

/-- A worker that a step does not move is as it was. -/
theorem worker_of_step (h : s.step cfg a = some q) {i : ℕ} (hi : i < s.workers.length)
    (hne : a.mover ≠ some i) :
    q.workers[i]? = s.workers[i]? := by
  cases QueueSys.step_cases h with
  | submit | stale | cancel => rfl
  | claim now limit locked taken => exact List.getElem?_append_left hi
  | worker j m w rows p hw =>
    have hij : j ≠ i := fun heq => hne (congrArg some heq)
    exact List.getElem?_set_ne hij

theorem gone_of_die {i : ℕ} (h : s.step cfg (.worker i .die) = some q) {w : Worker}
    (hw : q.workers[i]? = some w) :
    w.phase = .gone := by
  cases QueueSys.step_cases h with
  | worker _ _ w₀ rows p hw₀ hstep =>
    cases stepWorker_cases hstep
    have hi := (List.getElem?_eq_some_iff.mp hw₀).1
    rw [List.getElem?_set_self hi] at hw
    obtain rfl := Option.some.inj hw
    rfl

/-- **A claim under which no row runs stays so**: a later claim of the job has another stamp. -/
theorem QueueSys.Idle.step (hidle : s.Idle c) (hids : (s.rows.map (·.id)).Nodup) (hc : c ∈ s.claims)
    (h : s.step cfg a = some q) : q.Idle c := by
  intro r' hr' hruns
  rcases (QueueSys.step_rows hids h).1 r' hr' with ⟨r, hr, hstep⟩ | ⟨j, -, rfl, -⟩
  · have hid : r.id = c.1 := hstep.id_eq.symm.trans hruns.id
    cases hstep with
    | same => exact hidle _ hr hruns
    | claim now _ hfresh =>
      obtain ⟨w, hw, rfl⟩ := List.mem_map.mp hc
      exact hfresh w hw hid.symm (Option.some.inj hruns.startedAt).symm
    | stale | requeue | release =>
      have hst := hruns.startedAt
      cases hst
    | cancel now =>
      refine hidle r hr ⟨hid, (cancelRow_startedAt now r).symm.trans hruns.startedAt, ?_⟩
      have hrun := hruns.status
      unfold cancelRow at hrun
      split at hrun
      · cases hrun
      · assumption
      · exact hrun
    | finish w f =>
      have hclosed := f.closes
      rw [show f.status = .running from hruns.status] at hclosed
      cases hclosed
  · have hst := hruns.startedAt
    cases hst

/-- A row running under a claim goes on running under it, or it is swept, or its own worker writes. -/
theorem RunsUnder.step (hids : (s.rows.map (·.id)).Nodup) (h : s.step cfg a = some q) {r : PlainJobRow}
    (hr : r ∈ s.rows) (hruns : RunsUnder c r) :
    (∃ r' ∈ q.rows, RunsUnder c r' ∧ r'.retryCount = r.retryCount) ∨
      (∃ now, a = .stale now ∧ staleRow cfg now r ∈ q.rows) ∨
      ∃ w ∈ s.workers, w.claim = c ∧ w.phase ≠ .gone := by
  cases QueueSys.step_cases h with
  | submit j => exact .inl ⟨r, List.mem_append_left _ hr, hruns, rfl⟩
  | claim now limit locked taken ht =>
    have hnot : taken r = false := by
      by_contra hp
      have hpend := ht.pending hids hr (Bool.eq_true_of_not_eq_false hp)
      rw [hruns.status] at hpend
      cases hpend
    exact .inl ⟨r, mem_updateWhere.mpr (.inl ⟨hr, hnot⟩), hruns, rfl⟩
  | stale now =>
    by_cases hp : isStaleRunning now r = true
    · exact .inr (.inl ⟨now, rfl, mem_updateWhere.mpr (.inr ⟨r, hr, hp, rfl⟩)⟩)
    · exact .inl ⟨r, mem_updateWhere.mpr (.inl ⟨hr, Bool.eq_false_iff.mpr hp⟩), hruns, rfl⟩
  | cancel now jobId projectId =>
    have heq : cancelRow now r = { r with cancelRequested := true } := by simp [cancelRow, hruns.status]
    refine .inl ⟨_, mem_updateWhere_of_mem hr, ?_⟩
    split_ifs
    · rw [heq]
      exact ⟨⟨hruns.id, hruns.startedAt, hruns.status⟩, rfl⟩
    · exact ⟨hruns, rfl⟩
  | worker i m w rows p hw hstep =>
    have hmem := List.mem_of_getElem? hw
    -- a statement of the worker that matches the row is guarded by the row's own claim
    have hown : ∀ f : PlainJobRow → PlainJobRow, ∀ g : PlainJobRow → Bool,
        (g r = true → guardedBy w.row.id (some w.stamp) r = true) → w.phase ≠ .gone →
        (∃ r' ∈ updateWhere g f s.rows, RunsUnder c r' ∧ r'.retryCount = r.retryCount) ∨
          (∃ now, QueueAct.worker i m = .stale now ∧ staleRow cfg now r ∈ updateWhere g f s.rows) ∨
          ∃ w ∈ s.workers, w.claim = c ∧ w.phase ≠ .gone := by
      intro f g hg hph
      by_cases hp : g r = true
      · obtain ⟨hid, hst⟩ := guardedBy_some.mp (hg hp)
        rw [hruns.startedAt] at hst
        have hclaim : w.claim = c := Prod.ext (hid.symm.trans hruns.id) (Option.some.inj hst).symm
        exact .inr (.inr ⟨w, hmem, hclaim, hph⟩)
      · exact .inl ⟨r, mem_updateWhere.mpr (.inl ⟨hr, Bool.eq_false_iff.mpr hp⟩), hruns, rfl⟩
    cases stepWorker_write hstep with
    | quiet => exact .inl ⟨r, hr, hruns, rfl⟩
    | finish hph => exact hown _ _ (fun hg => hg) (by simp [hph])
    | requeue hph => exact hown _ _ (fun hg => hg) (by simp [hph])
    | release hph => exact hown _ _ (fun hg => (Bool.and_eq_true_iff.mp hg).2) (by simp [hph])

/-- A claim takes no more rows than its limit. -/
theorem length_claims_le {now : Time} {limit : ℕ} {locked : List ℕ} (hids : (s.rows.map (·.id)).Nodup)
    (h : s.step cfg (.claim now limit locked) = some q) : q.workers.length ≤ s.workers.length + limit := by
  simp only [QueueSys.step] at h
  split_ifs at h with hnew
  obtain rfl := Option.some.inj h
  set ids := claimIds now limit locked s.rows with hids'
  have hlimit : ids.length ≤ limit := by
    rw [hids', claimIds, List.length_map]
    exact List.length_take_le _ _
  have hsub : ((s.rows.filter fun r => ids.contains r.id).map (·.id)).length ≤ ids.length := by
    refine (List.subperm_of_subset (hids.sublist (List.filter_sublist.map _)) fun id hid => ?_).length_le
    obtain ⟨r, hr, rfl⟩ := List.mem_map.mp hid
    exact List.contains_iff_mem.mp (List.mem_filter.mp hr).2
  rw [List.length_map] at hsub
  rw [List.length_append, newWorkers, List.length_map]
  omega

/-- The rows a claim took carry its stamp. -/
theorem startedAt_of_new {now : Time} {limit : ℕ} {locked : List ℕ} (hids : (s.rows.map (·.id)).Nodup)
    (h : s.step cfg (.claim now limit locked) = some q) {i : ℕ} (hi : s.claims.length ≤ i)
    (hc : q.claims[i]? = some c) : ∀ r ∈ q.rows, r.id = c.1 → r.startedAt = some c.2 := by
  cases QueueSys.step_cases h with
  | claim _ _ _ taken ht =>
    rw [claims_claimed, List.getElem?_append_right hi] at hc
    obtain ⟨r₀, hr₀, rfl⟩ := List.mem_map.mp (List.mem_of_getElem? hc)
    obtain ⟨hr₀, htaken⟩ := List.mem_filter.mp hr₀
    intro r hr hid
    rcases mem_updateWhere.mp hr with ⟨hr, hp⟩ | ⟨r₁, hr₁, hp, rfl⟩
    · obtain rfl := eq_of_key hids hr hr₀ hid
      rw [htaken] at hp
      cases hp
    · rfl

/-- No row runs under an older claim of a job that was just claimed. -/
theorem idle_of_claim {now : Time} {limit : ℕ} {locked : List ℕ} (hi : s.Inv)
    (h : s.step cfg (.claim now limit locked) = some q) {i j : ℕ} (hij : i ≠ j) (hj : s.claims.length ≤ j)
    {d : ℕ × Time} (hc : q.claims[i]? = some c) (hd : q.claims[j]? = some d) (hcd : c.1 = d.1) : q.Idle c := by
  intro r hr hruns
  have hstamp := startedAt_of_new hi.ids h hj hd r hr (hruns.id.trans hcd)
  have heq : c = d := Prod.ext hcd (Option.some.inj (hruns.startedAt.symm.trans hstamp))
  subst heq
  have hlt := (List.getElem?_eq_some_iff.mp hc).1
  exact hij ((List.getElem?_inj hlt (hi.step h).claims).mp (hc.trans hd.symm))

end Claims

end Broker.Services
