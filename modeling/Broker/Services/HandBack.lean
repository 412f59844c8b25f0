import Broker.Services.Shutdown

/-!
# Broker.Services.HandBack — what a shutdown hands back

The entries of `_CLAIMED` are claims of tasks that began and did not end on their own.  As long as no
task ends while its job's entry is another execution's current claim, every such task whose claim is
current has its entry, and the shutdown returns its row.
-/

namespace Broker.Services

open Broker.Lib Broker.Db

variable {cfg : QueueConfig} {maxConcurrency : ℤ}

/-! ### The invariant -/

/-- Of two tasks the earlier one has the smaller worker and began first, and where both execute one job, no
running row carries the earlier one's claim. -/
structure Task.Before (q : QueueSys) (t u : Task) : Prop where
  worker : t.worker < u.worker
  order : t.state = .created → u.state = .created
  superseded : ∀ c d, q.claims[t.worker]? = some c → q.claims[u.worker]? = some d → c.1 = d.1 → q.Idle c

/-- What the stages of the shutdown have behind them. -/
def ShutdownSys.StageOk (s : ShutdownSys) : Prop :=
  match s.stage with
  | .dispatching | .waiting => True
  | .cancelling => ∀ t ∈ s.tasks, t.state ≠ .created ∧ t.state ≠ .running
  | .releasing rest => s.claimed = rest ∧ ∀ t ∈ s.tasks, t.inflight = false
  | .stopped => s.claimed = [] ∧ ∀ t ∈ s.tasks, t.inflight = false

/-- The entries are claims of tasks that began and did not end on their own, and every such task whose
claim is current has its entry. -/
structure ShutdownSys.Inv (s : ShutdownSys) : Prop where
  queue : s.queue.Inv
  bound : ∀ t ∈ s.tasks, t.worker < s.queue.workers.length
  before : ∀ (j k : ℕ) (t u : Task), s.tasks[j]? = some t → s.tasks[k]? = some u → j < k → t.Before s.queue u
  keys : (s.claimed.map Prod.fst).Nodup
  entry : ∀ c ∈ s.claimed, ∃ t ∈ s.tasks, t.held = true ∧ s.claimOf t = some c
  kept : ∀ t ∈ s.tasks, t.held = true → ∀ c, s.claimOf t = some c → c ∈ s.claimed ∨ s.queue.Idle c
  gone : ∀ t ∈ s.tasks, t.inflight = false → ∀ w, s.queue.workers[t.worker]? = some w → w.phase = .gone
  stage : s.StageOk

section Lists

variable {α : Type*} {l : List α} {k : ℕ} {x y : α}

theorem mem_set_cases (h : y ∈ l.set k x) : y = x ∨ ∃ j, j ≠ k ∧ l[j]? = some y := by
  obtain ⟨j, hj, rfl⟩ := List.getElem_of_mem h
  by_cases hjk : j = k
  · subst hjk
    exact .inl (List.getElem_set_self hj)
  · refine .inr ⟨j, hjk, ?_⟩
    rw [List.getElem_set_ne (Ne.symm hjk) hj, List.getElem?_eq_getElem]

theorem mem_set_of_ne {j : ℕ} (h : l[j]? = some y) (hjk : j ≠ k) : y ∈ l.set k x := by
  refine List.mem_of_getElem? (i := j) ?_
  rw [List.getElem?_set_ne (Ne.symm hjk)]
  exact h

end Lists

namespace ShutdownSys.Inv

variable {s : ShutdownSys}

theorem idx_of_worker (hi : s.Inv) {j k : ℕ} {t u : Task} (ht : s.tasks[j]? = some t)
    (hu : s.tasks[k]? = some u)
    (h : t.worker = u.worker) : j = k := by
  rcases Nat.lt_trichotomy j k with hlt | heq | hlt
  · exact absurd h (hi.before j k t u ht hu hlt).worker.ne
  · exact heq
  · exact absurd h.symm (hi.before k j u t hu ht hlt).worker.ne

/-- A step that moves an unfinished task's worker moves no finished one's. -/
theorem mover_of_inflight (hi : s.Inv) {k : ℕ} {t : Task} (ht : s.tasks[k]? = some t)
    (hin : t.inflight = true) (m : WorkerMove) : ∀ u ∈ s.tasks, u.inflight = false →
      (QueueAct.worker t.worker m).mover ≠ some u.worker := by
  intro u hu hout heq
  obtain ⟨j, hj, rfl⟩ := List.getElem_of_mem hu
  have hjk := hi.idx_of_worker ht (List.getElem?_eq_getElem hj) (Option.some.inj heq)
  subst hjk
  rw [List.getElem?_eq_getElem hj] at ht
  rw [Option.some.inj ht, hin] at hout
  cases hout

theorem claimOf_step (hi : s.Inv) {a : QueueAct} {q : QueueSys} (h : s.queue.step cfg a = some q) {t : Task}
    (ht : t ∈ s.tasks) : q.claims[t.worker]? = s.claimOf t := by
  have hlt : t.worker < s.queue.claims.length := by
    rw [QueueSys.claims, List.length_map]
    exact hi.bound t ht
  rw [ShutdownSys.claimOf, List.getElem?_eq_getElem hlt]
  exact claim_of_step h (List.getElem?_eq_getElem hlt)

/-- **A step of the queue** that leaves the workers of finished tasks alone. -/
theorem queue_step (hi : s.Inv) {a : QueueAct} {q : QueueSys} (h : s.queue.step cfg a = some q)
    (hmine : ∀ t ∈ s.tasks, t.inflight = false → a.mover ≠ some t.worker) : Inv { s with queue := q } := by
  have hidle : ∀ t ∈ s.tasks, ∀ c, s.claimOf t = some c → s.queue.Idle c → q.Idle c := fun t _ c hc hidle =>
    hidle.step hi.queue.ids (List.mem_of_getElem? hc) h
  refine ⟨hi.queue.step h, fun t ht => ?_, fun j k t u ht hu hjk => ?_, hi.keys, fun c hc => ?_,
    fun t ht hheld c hc => ?_, fun t ht hout w hw => ?_, hi.stage⟩
  · obtain ⟨new, hnew⟩ := claims_step h
    have hlen := congrArg List.length hnew
    rw [List.length_append, QueueSys.claims, QueueSys.claims, List.length_map, List.length_map] at hlen
    have hlt := hi.bound t ht
    show t.worker < q.workers.length
    omega
  · have hbefore := hi.before j k t u ht hu hjk
    have htmem := List.mem_of_getElem? ht
    refine ⟨hbefore.worker, hbefore.order, fun c d hc hd hcd => ?_⟩
    have hc' : s.claimOf t = some c := (hi.claimOf_step h htmem).symm.trans hc
    have hd' : s.claimOf u = some d := (hi.claimOf_step h (List.mem_of_getElem? hu)).symm.trans hd
    exact hidle t htmem c hc' (hbefore.superseded c d hc' hd' hcd)
  · obtain ⟨t, ht, hheld, hclaim⟩ := hi.entry c hc
    exact ⟨t, ht, hheld, (hi.claimOf_step h ht).trans hclaim⟩
  · have hc' : s.claimOf t = some c := (hi.claimOf_step h ht).symm.trans hc
    exact (hi.kept t ht hheld c hc').imp id (hidle t ht c hc')
  · refine hi.gone t ht hout w ?_
    rw [← worker_of_step h (hi.bound t ht) (hmine t ht hout)]
    exact hw

/-- The rows a claim returned become tasks. -/
theorem append_tasks (hi : s.Inv) {now : Time} {limit : ℕ} {locked : List ℕ} {q : QueueSys}
    (h : s.queue.step cfg (.claim now limit locked) = some q) (hst : s.stage = .dispatching) (n : ℕ) :
    Inv { s with
      queue := q
      tasks := s.tasks ++ newTasks s.queue.workers.length q.workers.length
      limit := n } := by
  have hq := hi.queue_step h fun _ _ _ => by simp [QueueAct.mover]
  -- a task of the claim stands behind every one that was there, and its row carries the new stamp
  have hbehind : ∀ t u : Task, t.worker < u.worker → u ∈ newTasks s.queue.workers.length q.workers.length →
      t.Before q u := by
    intro t u hlt hu
    obtain ⟨hle, -, hcreated⟩ := mem_newTasks hu
    refine ⟨hlt, fun _ => hcreated, fun c d hc hd hcd => idle_of_claim hi.queue h hlt.ne ?_ hc hd hcd⟩
    rw [QueueSys.claims, List.length_map]
    exact hle
  refine ⟨hq.queue, fun t ht => ?_, fun j k t u ht hu hjk => ?_, hq.keys, fun c hc => ?_,
    fun t ht hheld c hc => ?_, fun t ht hout w hw => ?_, ?_⟩
  · rcases List.mem_append.mp ht with ht | ht
    · exact hq.bound t ht
    · exact (mem_newTasks ht).2.1
  · rw [List.getElem?_append] at ht hu
    split_ifs at ht hu with hj hk hk
    · exact hq.before j k t u ht hu hjk
    · have hlt := hi.bound t (List.mem_of_getElem? ht)
      have humem := List.mem_of_getElem? hu
      exact hbehind t u (hlt.trans_le (mem_newTasks humem).1) humem
    · omega
    · refine hbehind t u ?_ (List.mem_of_getElem? hu)
      rw [worker_of_newTasks ht, worker_of_newTasks hu]
      omega
  · obtain ⟨t, ht, hheld, hclaim⟩ := hq.entry c hc
    exact ⟨t, List.mem_append_left _ ht, hheld, hclaim⟩
  · rcases List.mem_append.mp ht with ht | ht
    · exact hq.kept t ht hheld c hc
    · rw [Task.held, (mem_newTasks ht).2.2] at hheld
      cases hheld
  · rcases List.mem_append.mp ht with ht | ht
    · exact hq.gone t ht hout w hw
    · rw [Task.inflight, (mem_newTasks ht).2.2] at hout
      cases hout
  · simp only [ShutdownSys.StageOk, hst]

/-- The task whose entry it is. -/
theorem entry_at (hi : s.Inv) {c : ℕ × Time} (hc : c ∈ s.claimed) :
    ∃ (j : ℕ) (u : Task), s.tasks[j]? = some u ∧ u.held = true ∧ s.claimOf u = some c := by
  obtain ⟨u, hu, hheld, hclaim⟩ := hi.entry c hc
  obtain ⟨j, hj⟩ := List.mem_iff_getElem?.mp hu
  exact ⟨j, u, hj, hheld, hclaim⟩

/-- Two tasks have different claims. -/
theorem idx_of_claim (hi : s.Inv) {j k : ℕ} {t u : Task} (ht : s.tasks[j]? = some t)
    (hu : s.tasks[k]? = some u)
    {c : ℕ × Time} (hct : s.claimOf t = some c) (hcu : s.claimOf u = some c) : j = k := by
  refine hi.idx_of_worker ht hu ?_
  have hlt := (List.getElem?_eq_some_iff.mp hct).1
  exact (List.getElem?_inj hlt hi.queue.claims).mp (Eq.trans hct (Eq.symm hcu))

/-- **A task that moves on**, with the entries after it. -/
theorem set_task (hi : s.Inv) {k : ℕ} {t : Task} (ht : s.tasks[k]? = some t) {st : TaskState}
    {claimed : List (ℕ × Time)} (hst : st ≠ .created)
    (hfirst : t.state = .created → ∀ u ∈ s.tasks.take k, u.state ≠ .created)
    (hkeys : (claimed.map Prod.fst).Nodup)
    (hentry : ∀ c ∈ claimed, (Task.held { t with state := st } = true ∧ s.claimOf t = some c) ∨
      ∃ (j : ℕ) (u : Task), j ≠ k ∧ s.tasks[j]? = some u ∧ u.held = true ∧ s.claimOf u = some c)
    (hkept : Task.held { t with state := st } = true → ∀ c, s.claimOf t = some c → c ∈ claimed ∨ s.queue.Idle c)
    (hothers : ∀ (j : ℕ) (u : Task), j ≠ k → s.tasks[j]? = some u → u.held = true → ∀ c, s.claimOf u = some c →
      c ∈ claimed ∨ s.queue.Idle c)
    (hgone : Task.inflight { t with state := st } = false → ∀ w, s.queue.workers[t.worker]? = some w →
      w.phase = .gone)
    (hstage : StageOk { s with tasks := s.tasks.set k { t with state := st }, claimed := claimed }) :
    Inv { s with tasks := s.tasks.set k { t with state := st }, claimed := claimed } := by
  have hmem := List.mem_of_getElem? ht
  have hk := (List.getElem?_eq_some_iff.mp ht).1
  have hself : { t with state := st } ∈ s.tasks.set k { t with state := st } := List.mem_set hk _
  refine ⟨hi.queue, fun u hu => ?_, fun j j' u v hu hv hjj => ?_, hkeys, fun c hc => ?_,
    fun u hu hheld c hc => ?_, fun u hu hout w hw => ?_, hstage⟩
  · rcases mem_set_cases hu with rfl | ⟨j, -, hj⟩
    · exact hi.bound t hmem
    · exact hi.bound u (List.mem_of_getElem? hj)
  · by_cases hj : j = k
    · -- the task itself is no longer `created`
      subst hj
      rw [List.getElem?_set_self hk] at hu
      rw [List.getElem?_set_ne hjj.ne] at hv
      obtain rfl := Option.some.inj hu
      have hbefore := hi.before j j' t v ht hv hjj
      exact ⟨hbefore.worker, fun h => absurd h hst, hbefore.superseded⟩
    · rw [List.getElem?_set_ne (Ne.symm hj)] at hu
      by_cases hj' : j' = k
      · subst hj'
        rw [List.getElem?_set_self hk] at hv
        obtain rfl := Option.some.inj hv
        have hbefore := hi.before j j' u t hu ht hjj
        refine ⟨hbefore.worker, fun hcreated => ?_, hbefore.superseded⟩
        -- an earlier task that is still `created` would have had to begin first
        have htake : u ∈ s.tasks.take j' := by
          refine List.mem_of_getElem? (i := j) ?_
          rw [List.getElem?_take_of_lt hjj]
          exact hu
        exact absurd hcreated (hfirst (hbefore.order hcreated) u htake)
      · rw [List.getElem?_set_ne (Ne.symm hj')] at hv
        exact hi.before j j' u v hu hv hjj
  · rcases hentry c hc with ⟨hheld, hclaim⟩ | ⟨j, u, hj, hu, hheld, hclaim⟩
    · exact ⟨_, hself, hheld, hclaim⟩
    · exact ⟨u, mem_set_of_ne hu hj, hheld, hclaim⟩
  · rcases mem_set_cases hu with rfl | ⟨j, hj, hu⟩
    · exact hkept hheld c hc
    · exact hothers j u hj hu hheld c hc
  · rcases mem_set_cases hu with rfl | ⟨j, -, hu⟩
    · exact hgone hout w hw
    · exact hi.gone u (List.mem_of_getElem? hu) hout w hw

/-- While a task has not begun or runs uncancelled, no task was cancelled yet. -/
theorem stage_of_active (hi : s.Inv) {t : Task} (ht : t ∈ s.tasks)
    (h : t.state = .created ∨ t.state = .running) :
    s.stage = .dispatching ∨ s.stage = .waiting := by
  have hstage := hi.stage
  have hin : t.inflight = true := by
    rcases h with h | h <;> simp [Task.inflight, h]
  unfold ShutdownSys.StageOk at hstage
  split at hstage
  · rename_i hst
    exact .inl hst
  · rename_i hst
    exact .inr hst
  · exact absurd h (not_or.mpr (hstage t ht))
  · rw [hstage.2 t ht] at hin
    cases hin
  · rw [hstage.2 t ht] at hin
    cases hin

theorem begins (hi : s.Inv) {k : ℕ} {t : Task} {c : ℕ × Time} (ht : s.tasks[k]? = some t)
    (hc : s.claimOf t = some c) (hst : t.state = .created) (hfirst : ∀ u ∈ s.tasks.take k, u.state ≠ .created) :
    Inv { s with
      tasks := s.tasks.set k { t with state := .running }
      claimed := OrderedDict.setItem s.claimed c.1 c.2 } := by
  have hnot : t.held = false := by simp [Task.held, hst]
  refine hi.set_task ht (by simp) (fun _ => hfirst) (OrderedDict.keys_setItem_nodup hi.keys) (fun e he => ?_)
    (fun _ d hd => ?_) (fun j u hj hu hheld d hd => ?_) (fun h => by simp [Task.inflight] at h) ?_
  · rcases OrderedDict.mem_setItem.mp he with rfl | ⟨he, -⟩
    · exact .inl ⟨rfl, hc⟩
    · obtain ⟨j, u, hu, hheld, hclaim⟩ := hi.entry_at he
      refine .inr ⟨j, u, fun heq => ?_, hu, hheld, hclaim⟩
      subst heq
      rw [Option.some.inj (hu.symm.trans ht), hnot] at hheld
      cases hheld
  · obtain rfl := Option.some.inj (hc.symm.trans hd)
    exact .inl (OrderedDict.mem_setItem.mpr (.inl rfl))
  · by_cases hid : d.1 = c.1
    · -- the entry of another execution of the job is overwritten: that execution began before, and lost its claim
      refine .inr ?_
      rcases Nat.lt_or_gt_of_ne hj with hlt | hlt
      · exact (hi.before j k u t hu ht hlt).superseded d c hd hc hid
      · have hcreated := (hi.before k j t u ht hu hlt).order hst
        simp [Task.held, hcreated] at hheld
    · exact (hi.kept u (List.mem_of_getElem? hu) hheld d hd).imp
        (fun h => OrderedDict.mem_setItem.mpr (.inr ⟨h, hid⟩)) id
  · rcases hi.stage_of_active (List.mem_of_getElem? ht) (.inl hst) with h | h
    · simp only [ShutdownSys.StageOk, h]
    · simp only [ShutdownSys.StageOk, h]

theorem ends (hi : s.Inv) {k : ℕ} {t : Task} {c : ℕ × Time} {q : QueueSys} (ht : s.tasks[k]? = some t)
    (hc : s.claimOf t = some c) (hst : t.state = .running) (h : s.queue.step cfg (.worker t.worker .die) = some q)
    (hown : s.ownEntry (.ends k) = true) :
    Inv { s with
      queue := q
      tasks := s.tasks.set k { t with state := .finished }
      claimed := OrderedDict.pop s.claimed c.1 } := by
  have hin : t.inflight = true := by simp [Task.inflight, hst]
  have hq := hi.queue_step h (hi.mover_of_inflight ht hin .die)
  have hcq : q.claims[t.worker]? = some c := (hi.claimOf_step h (List.mem_of_getElem? ht)).trans hc
  have hentries : ∀ e ∈ s.claimed, e.1 ≠ c.1 ∨ e = c ∨ s.queue.Idle e := by
    simpa [ShutdownSys.ownEntry, ht, hc, or_assoc, QueueSys.Idle] using hown
  refine hq.set_task ht (by simp) (fun h => absurd h (by simp [hst])) (OrderedDict.keys_pop_nodup hi.keys)
    (fun e he => ?_) (fun h => by simp [Task.held] at h) (fun j u hj hu hheld d hd => ?_)
    (fun _ w hw => gone_of_die h hw) ?_
  · obtain ⟨he, hid⟩ := OrderedDict.mem_pop.mp he
    obtain ⟨j, u, hu, hheld, hclaim⟩ := hq.entry_at he
    refine .inr ⟨j, u, fun heq => hid ?_, hu, hheld, hclaim⟩
    subst heq
    obtain rfl := Option.some.inj (ht.symm.trans hu)
    rw [Option.some.inj (hcq.symm.trans hclaim)]
  · rcases hq.kept u (List.mem_of_getElem? hu) hheld d hd with hmem | hidle
    · rcases hentries d hmem with hne | rfl | hidle
      · exact .inl (OrderedDict.mem_pop.mpr ⟨hmem, hne⟩)
      · exact absurd (hq.idx_of_claim hu ht hd hcq) hj
      · have hd' := (hi.claimOf_step h (List.mem_of_getElem? hu)).symm.trans hd
        exact .inr (hidle.step hi.queue.ids (List.mem_of_getElem? hd') h)
    · exact .inr hidle
  · rcases hi.stage_of_active (List.mem_of_getElem? ht) (.inr hst) with h | h
    · simp only [ShutdownSys.StageOk, h]
    · simp only [ShutdownSys.StageOk, h]

theorem struck (hi : s.Inv) {k : ℕ} {t : Task} {q : QueueSys} (ht : s.tasks[k]? = some t)
    (hst : t.state = .cancelling) (h : s.queue.step cfg (.worker t.worker .die) = some q) :
    Inv { s with queue := q, tasks := s.tasks.set k { t with state := .cancelled } } := by
  have hin : t.inflight = true := by simp [Task.inflight, hst]
  have hheld : t.held = true := by simp [Task.held, hst]
  have hq := hi.queue_step h (hi.mover_of_inflight ht hin .die)
  refine hq.set_task ht (by simp) (fun h => absurd h (by simp [hst])) hi.keys (fun e he => ?_)
    (fun _ => hq.kept t (List.mem_of_getElem? ht) hheld)
    (fun j u _ hu => hq.kept u (List.mem_of_getElem? hu)) (fun _ w hw => gone_of_die h hw) ?_
  · obtain ⟨j, u, hu, hheld', hclaim⟩ := hq.entry_at he
    by_cases heq : j = k
    · subst heq
      obtain rfl := Option.some.inj (ht.symm.trans hu)
      exact .inl ⟨rfl, hclaim⟩
    · exact .inr ⟨j, u, heq, hu, hheld', hclaim⟩
  · have hstage := hi.stage
    have htmem := List.mem_of_getElem? ht
    unfold ShutdownSys.StageOk at hstage ⊢
    split at hstage
    · rename_i hs
      simp only [hs]
    · rename_i hs
      simp only [hs]
    · rename_i hs
      simp only [hs]
      intro u hu
      rcases mem_set_cases hu with rfl | ⟨j, -, hu⟩
      · exact ⟨by simp, by simp⟩
      · exact hstage u (List.mem_of_getElem? hu)
    · rw [hstage.2 t htmem] at hin
      cases hin
    · rw [hstage.2 t htmem] at hin
      cases hin

theorem cancel (hi : s.Inv) (hst : ∀ t ∈ s.tasks, t.state ≠ .created) :
    Inv { s with stage := .cancelling, tasks := s.tasks.map Task.cancel } := by
  refine ⟨hi.queue, fun u hu => ?_, fun j k u v hu hv hjk => ?_, hi.keys, fun c hc => ?_,
    fun u hu hheld c hc => ?_, fun u hu hout w hw => ?_, fun u hu => ?_⟩
  · obtain ⟨t, ht, rfl⟩ := List.mem_map.mp hu
    rw [Task.cancel_worker]
    exact hi.bound t ht
  · rw [List.getElem?_map] at hu hv
    obtain ⟨t, ht, rfl⟩ := Option.map_eq_some_iff.mp hu
    obtain ⟨t', ht', rfl⟩ := Option.map_eq_some_iff.mp hv
    have hbefore := hi.before j k t t' ht ht' hjk
    refine ⟨?_, ?_, ?_⟩
    · simpa using hbefore.worker
    · simpa using hbefore.order
    · simpa using hbefore.superseded
  · obtain ⟨t, ht, hheld, hclaim⟩ := hi.entry c hc
    refine ⟨t.cancel, List.mem_map_of_mem ht, by rw [Task.cancel_held, hheld], ?_⟩
    rw [ShutdownSys.claimOf, Task.cancel_worker]
    exact hclaim
  · obtain ⟨t, ht, rfl⟩ := List.mem_map.mp hu
    rw [ShutdownSys.claimOf, Task.cancel_worker] at hc
    rw [Task.cancel_held] at hheld
    exact hi.kept t ht hheld c hc
  · obtain ⟨t, ht, rfl⟩ := List.mem_map.mp hu
    rw [Task.cancel_inflight] at hout
    rw [Task.cancel_worker] at hw
    exact hi.gone t ht hout w hw
  · obtain ⟨t, ht, rfl⟩ := List.mem_map.mp hu
    exact ⟨fun h => hst t ht (t.cancel_created.mp h), t.cancel_state_ne⟩

theorem gathered (hi : s.Inv) (hs : s.stage = .cancelling) (hst : ∀ t ∈ s.tasks, t.state ≠ .cancelling) :
    Inv { s with stage := .releasing s.claimed } := by
  have hstage := hi.stage
  rw [ShutdownSys.StageOk, hs] at hstage
  refine ⟨hi.queue, hi.bound, hi.before, hi.keys, hi.entry, hi.kept, hi.gone, rfl, fun t ht => ?_⟩
  simp [Task.inflight, (hstage t ht).1, (hstage t ht).2, hst t ht]

/-- **The release of one entry.** -/
theorem release (hi : s.Inv) {c : ℕ × Time} {rest : List (ℕ × Time)} (hs : s.stage = .releasing (c :: rest))
    (now : Time) :
    Inv { s with
      queue := { s.queue with rows := releaseClaim now c.1 (some c.2) s.queue.rows }
      claimed := OrderedDict.pop s.claimed c.1
      stage := .releasing rest } := by
  have hstage := hi.stage
  rw [ShutdownSys.StageOk, hs] at hstage
  obtain ⟨hclaimed, hout⟩ := hstage
  have hpop : OrderedDict.pop s.claimed c.1 = rest := by
    have hkeys := hi.keys
    rw [hclaimed] at hkeys ⊢
    exact OrderedDict.pop_head hkeys
  -- a row that still runs after the statement was not matched by it
  have hrow : ∀ d, ∀ r ∈ releaseClaim now c.1 (some c.2) s.queue.rows, RunsUnder d r →
      r ∈ s.queue.rows ∧ d ≠ c := by
    intro d r hr hruns
    rcases mem_updateWhere.mp hr with ⟨hr, hp⟩ | ⟨r₀, -, -, rfl⟩
    · refine ⟨hr, fun heq => ?_⟩
      subst heq
      have hmatch : (decide (r.status = .running) && guardedBy d.1 (some d.2) r) = true := by
        rw [guardedBy_some.mpr ⟨hruns.id, hruns.startedAt⟩, hruns.status]
        rfl
      rw [hmatch] at hp
      cases hp
    · have hst := hruns.startedAt
      cases hst
  have hidle : ∀ d, s.queue.Idle d →
      QueueSys.Idle { s.queue with rows := releaseClaim now c.1 (some c.2) s.queue.rows } d :=
    fun d hd r hr hruns => hd r (hrow d r hr hruns).1 hruns
  refine ⟨⟨?_, hi.queue.claims, fun r hr => ?_⟩, hi.bound, fun j k t u ht hu hjk => ?_, ?_, fun e he => ?_,
    fun t ht hheld d hd => ?_, hi.gone, hpop, hout⟩
  · have hids : (releaseClaim now c.1 (some c.2) s.queue.rows).map (·.id) = s.queue.rows.map (·.id) :=
      map_updateWhere (releaseRow_id now)
    rw [hids]
    exact hi.queue.ids
  · rcases mem_updateWhere.mp hr with ⟨hr, -⟩ | ⟨r₀, -, -, rfl⟩
    · exact hi.queue.rows r hr
    · exact .of_unstamped rfl (by simp [releaseRow])
  · have hbefore := hi.before j k t u ht hu hjk
    exact ⟨hbefore.worker, hbefore.order, fun d e hd he hde => hidle d (hbefore.superseded d e hd he hde)⟩
  · exact OrderedDict.keys_pop_nodup hi.keys
  · exact hi.entry e (OrderedDict.mem_pop.mp he).1
  · rcases hi.kept t ht hheld d hd with hmem | hd
    · by_cases hdc : d = c
      · exact .inr fun r hr hruns => (hrow d r hr hruns).2 hdc
      · refine .inl ?_
        rw [hpop]
        rw [hclaimed] at hmem
        exact (List.mem_cons.mp hmem).resolve_left hdc
    · exact .inr (hidle d hd)

theorem stopped (hi : s.Inv) (hs : s.stage = .releasing []) : Inv { s with stage := .stopped } := by
  have hstage := hi.stage
  rw [ShutdownSys.StageOk, hs] at hstage
  exact ⟨hi.queue, hi.bound, hi.before, hi.keys, hi.entry, hi.kept, hi.gone, hstage⟩

/-- **Every step keeps the invariant**, where a task that ends finds its own entry. -/
theorem step (hi : s.Inv) {a : ShutdownAct} {s' : ShutdownSys} (hown : s.ownEntry a = true)
    (h : s.step cfg maxConcurrency a = some s') : s'.Inv := by
  cases ShutdownSys.step_cases h with
  | others hmine hq => exact hi.queue_step hq fun t ht _ => hmine t ht
  | tick => exact ⟨hi.queue, hi.bound, hi.before, hi.keys, hi.entry, hi.kept, hi.gone, hi.stage⟩
  | claim hst hq => exact hi.append_tasks hq hst 0
  | begins ht hc hst hfirst => exact hi.begins ht hc hst hfirst
  | move ht hmay hq => exact hi.queue_step hq (hi.mover_of_inflight ht (Task.inflight_of_may hmay) _)
  | ends ht hc hst hq => exact hi.ends ht hc hst hq hown
  | leave => exact ⟨hi.queue, hi.bound, hi.before, hi.keys, hi.entry, hi.kept, hi.gone, trivial⟩
  | cancel _ hst => exact hi.cancel hst
  | struck ht hst hq => exact hi.struck ht hst hq
  | gathered hs hst => exact hi.gathered hs hst
  | release hs => exact hi.release hs _
  | stopped hs => exact hi.stopped hs

end ShutdownSys.Inv

theorem ShutdownSys.inv_init : ShutdownSys.Inv {} :=
  ⟨QueueSys.inv_init, by simp, by simp, by simp, by simp, by simp, by simp, trivial⟩

theorem ShutdownSys.Inv.run {s s' : ShutdownSys} {as : List ShutdownAct} (hi : s.Inv)
    (h : Steps (ShutdownSys.step cfg maxConcurrency) (fun s a => s.ownEntry a = true) s as s') : s'.Inv :=
  h.inv (I := ShutdownSys.Inv) (fun _ _ _ ht hown hs => ht.step hown hs) hi

/-! ### How many tasks there are -/

section Counts

variable {α : Type*} {p : α → Bool} {l : List α} {k : ℕ} {x y : α}

theorem countP_set_le (hx : l[k]? = some x) (h : p y = true → p x = true) :
    (l.set k y).countP p ≤ l.countP p := by
  obtain ⟨hk, rfl⟩ := List.getElem?_eq_some_iff.mp hx
  rw [List.countP_set hk]
  by_cases hp : p l[k] = true
  · have hpos : 0 < l.countP p := List.countP_pos_iff.mpr ⟨_, List.getElem_mem hk, hp⟩
    rw [if_pos hp]
    split_ifs <;> omega
  · rw [if_neg hp, if_neg fun hy => hp (h hy)]
    omega

end Counts

/-- **No step passes `_MAX_CONCURRENCY`**: the tasks and the claim under way stay within it. -/
theorem ShutdownSys.inflight_step {s s' : ShutdownSys} {a : ShutdownAct} (hi : s.Inv)
    (hle : s.inflight + s.limit ≤ maxConcurrency.toNat) (h : s.step cfg maxConcurrency a = some s') :
    s'.inflight + s'.limit ≤ maxConcurrency.toNat := by
  have hset : ∀ {k : ℕ} {t : Task} (st : TaskState), s.tasks[k]? = some t → t.inflight = true →
      (s.tasks.set k { t with state := st }).countP Task.inflight ≤ s.inflight := fun st ht hin =>
    countP_set_le ht fun _ => hin
  cases ShutdownSys.step_cases h with
  | others | move | gathered | release | stopped => exact hle
  | @tick late =>
    show s.inflight + (maxConcurrency - (s.inflight + late : ℕ)).toNat ≤ _
    omega
  | @claim now locked q hst hq =>
    show (s.tasks ++ newTasks s.queue.workers.length q.workers.length).countP Task.inflight + 0 ≤ _
    have hnew := length_claims_le hi.queue.ids hq
    have hcount : (newTasks s.queue.workers.length q.workers.length).countP Task.inflight ≤ _ :=
      List.countP_le_length
    rw [length_newTasks] at hcount
    rw [List.countP_append]
    unfold ShutdownSys.inflight at hle
    omega
  | begins ht _ hst =>
    have hcount := hset .running ht (by simp [Task.inflight, hst])
    exact (Nat.add_le_add_right hcount _).trans hle
  | ends ht _ hst =>
    have hcount := hset .finished ht (by simp [Task.inflight, hst])
    exact (Nat.add_le_add_right hcount _).trans hle
  | leave =>
    show s.inflight + 0 ≤ _
    omega
  | cancel =>
    show (s.tasks.map Task.cancel).countP Task.inflight + s.limit ≤ _
    rw [List.countP_map]
    have hsame : (Task.inflight ∘ Task.cancel) = Task.inflight := funext Task.cancel_inflight
    rw [hsame]
    exact hle
  | struck ht hst =>
    have hcount := hset .cancelled ht (by simp [Task.inflight, hst])
    exact (Nat.add_le_add_right hcount _).trans hle

/-! ### The executions a shutdown cut short -/

/-- A cancelled task and its row, that runs under the task's claim with `retryCount` retries. -/
structure ShutdownSys.Owes (s : ShutdownSys) (t : Task) (c : ℕ × Time) (retryCount : ℕ) : Prop where
  task : t ∈ s.tasks
  claim : s.claimOf t = some c
  row : ∃ r ∈ s.queue.rows, RunsUnder c r ∧ r.retryCount = retryCount

/-- What ends it: the shutdown hands the row back, or a sweep takes it. -/
inductive ShutdownSys.Settles (cfg : QueueConfig) (s s' : ShutdownSys) (r : PlainJobRow) : ShutdownAct → Prop
  | release {r' : PlainJobRow} (now : Time) :
      r' ∈ s'.queue.rows → HandedBack r r' → Settles cfg s s' r (.release now)
  | stale (now : Time) : staleRow cfg now r ∈ s'.queue.rows → Settles cfg s s' r (.others (.stale now))

theorem mem_set_of_state {tasks : List Task} {k : ℕ} {t u v : Task} (ht : t ∈ tasks) (hu : tasks[k]? = some u)
    (hne : t.state ≠ u.state) : t ∈ tasks.set k v := by
  obtain ⟨j, hj⟩ := List.mem_iff_getElem?.mp ht
  refine mem_set_of_ne hj fun heq => hne ?_
  subst heq
  rw [Option.some.inj (hj.symm.trans hu)]

namespace ShutdownSys.Owes

variable {s s' : ShutdownSys} {t : Task} {c : ℕ × Time} {rc : ℕ}

/-- **A step of the queue**: the task's worker is gone, so only a sweep can take the row. -/
theorem queue_step (ho : s.Owes t c rc) (hi : s.Inv) (ht : t.state = .cancelled) {a : QueueAct} {q : QueueSys}
    (h : s.queue.step cfg a = some q) :
    q.claims[t.worker]? = some c ∧ ((∃ r ∈ q.rows, RunsUnder c r ∧ r.retryCount = rc) ∨
      ∃ now, a = .stale now ∧ ∃ r ∈ s.queue.rows, RunsUnder c r ∧ r.retryCount = rc ∧
        staleRow cfg now r ∈ q.rows) := by
  obtain ⟨r, hr, hruns, hrc⟩ := ho.row
  refine ⟨(hi.claimOf_step h ho.task).trans ho.claim, ?_⟩
  rcases hruns.step hi.queue.ids h hr with ⟨r', hr', hruns', hrc'⟩ | ⟨now, rfl, hstale⟩ | ⟨w, hw, hwc, hph⟩
  · exact .inl ⟨r', hr', hruns', hrc'.trans hrc⟩
  · exact .inr ⟨now, rfl, r, hr, hruns, hrc, hstale⟩
  · -- the worker with that claim is the task's
    obtain ⟨i, hworker⟩ := List.mem_iff_getElem?.mp hw
    have hclaim : s.queue.claims[i]? = some c := by
      rw [QueueSys.claims, List.getElem?_map, hworker]
      exact congrArg some hwc
    have hlt := (List.getElem?_eq_some_iff.mp hclaim).1
    have hidx : i = t.worker := (List.getElem?_inj hlt hi.queue.claims).mp (hclaim.trans ho.claim.symm)
    subst hidx
    exact absurd (hi.gone t ho.task (by simp [Task.inflight, ht]) w hworker) hph

/-- **A step keeps the debt or settles it.** -/
theorem step (ho : s.Owes t c rc) (hi : s.Inv) (ht : t.state = .cancelled) {a : ShutdownAct}
    (h : s.step cfg maxConcurrency a = some s') :
    s'.Owes t c rc ∨ ∃ r ∈ s.queue.rows, RunsUnder c r ∧ r.retryCount = rc ∧ Settles cfg s s' r a := by
  obtain ⟨r, hr, hruns, hrc⟩ := ho.row
  cases ShutdownSys.step_cases h with
  | others _ hq =>
    obtain ⟨hclaim, hrow | ⟨now, rfl, r, hr, hruns, hrc, hstale⟩⟩ := ho.queue_step hi ht hq
    · exact .inl ⟨ho.task, hclaim, hrow⟩
    · exact .inr ⟨r, hr, hruns, hrc, .stale now hstale⟩
  | tick | leave | gathered | stopped => exact .inl ⟨ho.task, ho.claim, ho.row⟩
  | claim _ hq =>
    obtain ⟨hclaim, hrow | ⟨now, heq, -⟩⟩ := ho.queue_step hi ht hq
    · exact .inl ⟨List.mem_append_left _ ho.task, hclaim, hrow⟩
    · cases heq
  | begins hk _ hst => exact .inl ⟨mem_set_of_state ho.task hk (by simp [ht, hst]), ho.claim, ho.row⟩
  | move _ _ hq =>
    obtain ⟨hclaim, hrow | ⟨now, heq, -⟩⟩ := ho.queue_step hi ht hq
    · exact .inl ⟨ho.task, hclaim, hrow⟩
    · cases heq
  | ends hk _ hst hq | struck hk hst hq =>
    obtain ⟨hclaim, hrow | ⟨now, heq, -⟩⟩ := ho.queue_step hi ht hq
    · exact .inl ⟨mem_set_of_state ho.task hk (by simp [ht, hst]), hclaim, hrow⟩
    · cases heq
  | cancel =>
    refine .inl ⟨?_, ho.claim, ho.row⟩
    rw [← Task.cancel_of_cancelled ht]
    exact List.mem_map_of_mem ho.task
  | @release now d rest hs =>
    by_cases hdc : d = c
    · subst hdc
      have hmatch : (decide (r.status = .running) && guardedBy d.1 (some d.2) r) = true := by
        rw [guardedBy_some.mpr ⟨hruns.id, hruns.startedAt⟩, hruns.status]
        rfl
      refine .inr ⟨r, hr, hruns, hrc, .release now ?_ (.releaseRow now r)⟩
      exact mem_updateWhere.mpr (.inr ⟨r, hr, hmatch, rfl⟩)
    · refine .inl ⟨ho.task, ho.claim, r, mem_updateWhere.mpr (.inl ⟨hr, ?_⟩), hruns, hrc⟩
      by_contra hne
      obtain ⟨-, hg⟩ := Bool.and_eq_true_iff.mp (Bool.eq_true_of_not_eq_false hne)
      obtain ⟨hid, hst⟩ := guardedBy_some.mp hg
      refine hdc (Prod.ext (hid.symm.trans hruns.id) ?_)
      exact Option.some.inj (hst.symm.trans hruns.startedAt)

/-- **Once the shutdown is over nothing is owed.** -/
theorem not_stopped (ho : s.Owes t c rc) (hi : s.Inv) (ht : t.state = .cancelled) : s.stage ≠ .stopped := by
  intro hs
  have hstage := hi.stage
  rw [ShutdownSys.StageOk, hs] at hstage
  obtain ⟨r, hr, hruns, -⟩ := ho.row
  rcases hi.kept t ho.task (by simp [Task.held, ht]) c ho.claim with hmem | hidle
  · rw [hstage.1] at hmem
    cases hmem
  · exact hidle r hr hruns

end ShutdownSys.Owes

/-- A step of the shutdown leaves a row as it is, unless a cancelled task holds it. -/
theorem ShutdownSys.row_of_shutdown {s s' : ShutdownSys} {a : ShutdownAct} (hi : s.Inv)
    (ha : a.ofShutdown = true)
    (h : s.step cfg maxConcurrency a = some s') {r : PlainJobRow} (hr : r ∈ s.queue.rows) :
    r ∈ s'.queue.rows ∨ ∃ t ∈ s.tasks, t.state = .cancelled ∧ s.Holds t r ∧
      ∃ r' ∈ s'.queue.rows, HandedBack r r' := by
  cases ShutdownSys.step_cases h with
  | cancel | gathered | stopped => exact .inl hr
  | @release now c rest hs =>
    have hrow := mem_updateWhere_of_mem (f := releaseRow now)
      (p := fun r => decide (r.status = .running) && guardedBy c.1 (some c.2) r) hr
    split_ifs at hrow with hg
    · -- the entry is a claim of a task that is over, and it did not end on its own
      obtain ⟨hrun, hg⟩ := Bool.and_eq_true_iff.mp hg
      obtain ⟨hid, hst⟩ := guardedBy_some.mp hg
      have hstage := hi.stage
      rw [ShutdownSys.StageOk, hs] at hstage
      obtain ⟨hclaimed, hout⟩ := hstage
      obtain ⟨t, ht, hheld, hclaim⟩ := hi.entry c (by rw [hclaimed]; exact List.mem_cons_self)
      refine .inr ⟨t, ht, ?_, ⟨c, hclaim, hid, hst, of_decide_eq_true hrun⟩, _, hrow, .releaseRow now r⟩
      have hnot := hout t ht
      unfold Task.held at hheld
      unfold Task.inflight at hnot
      simp_all
    · exact .inl hrow
  | _ => cases ha

/-- Some step of the run `suf` from `s₀` settles the row the task holds. -/
def ShutdownSys.SettledIn (cfg : QueueConfig) (maxConcurrency : ℤ) (s₀ : ShutdownSys) (suf : List ShutdownAct)
    (t : Task) (r : PlainJobRow) : Prop :=
  ∃ mid a rest s₁ s₂, suf = mid ++ a :: rest ∧ Steps (ShutdownSys.step cfg maxConcurrency) Free s₀ mid s₁ ∧
    s₁.step cfg maxConcurrency a = some s₂ ∧
    ∃ r₁ ∈ s₁.queue.rows, r₁.id = r.id ∧ r₁.retryCount = r.retryCount ∧ s₁.Holds t r₁ ∧
      ShutdownSys.Settles cfg s₁ s₂ r₁ a

/-- **What is owed when a run begins is settled before the shutdown is over.** -/
theorem ShutdownSys.Inv.settled {s₀ s : ShutdownSys} {suf : List ShutdownAct} (hi : s₀.Inv)
    (h : Steps (ShutdownSys.step cfg maxConcurrency) (fun s a => s.ownEntry a = true) s₀ suf s)
    (hstop : s.stage = .stopped) {t : Task} (ht : t ∈ s₀.tasks) (hst : t.state = .cancelled) {r : PlainJobRow}
    (hr : r ∈ s₀.queue.rows) (hholds : s₀.Holds t r) : s₀.SettledIn cfg maxConcurrency suf t r := by
  obtain ⟨c, hc, hruns⟩ := hholds
  have howes : s₀.Owes t c r.retryCount := ⟨ht, hc, r, hr, hruns, rfl⟩
  have hnot : ¬ s.Owes t c r.retryCount := fun ho => ho.not_stopped (hi.run h) hst hstop
  obtain ⟨mid, a, rest, s₁, s₂, hsuf, hmid, ho, hown, hstep, hnot₂⟩ :=
    h.exists_leave (P := fun s => s.Owes t c r.retryCount) howes hnot
  rcases ho.step (hi.run hmid) hst hstep with ho₂ | ⟨r₁, hr₁, hruns₁, hrc, hsettles⟩
  · exact absurd ho₂ hnot₂
  · refine ⟨mid, a, rest, s₁, s₂, hsuf, hmid.mono fun _ _ _ => trivial, hstep, r₁, hr₁, ?_, hrc, ?_, hsettles⟩
    · exact hruns₁.id.trans hruns.id.symm
    · exact ⟨c, ho.claim, hruns₁⟩

/-- **The shutdown hands back the unfinished work**, where no task ends while its job's entry is the
current claim of another execution: at most `_MAX_CONCURRENCY` tasks are in flight, a step of the
shutdown changes no row but one that a cancelled task holds, which it returns to `pending`, and each row
that a cancelled task held before the shutdown was over is returned with its retries, or is swept first. -/
theorem shutdown_hands_back {as : List ShutdownAct} {s : ShutdownSys}
    (h : Steps (ShutdownSys.step cfg maxConcurrency) (fun s a => s.ownEntry a = true) {} as s) :
    s.inflight ≤ maxConcurrency.toNat ∧
      (∀ a s', a.ofShutdown = true → s.step cfg maxConcurrency a = some s' → ∀ r ∈ s.queue.rows,
        r ∈ s'.queue.rows ∨
          ∃ t ∈ s.tasks, t.state = .cancelled ∧ s.Holds t r ∧ ∃ r' ∈ s'.queue.rows, HandedBack r r') ∧
      (s.stage = .stopped → ∀ pre suf s₀, as = pre ++ suf →
        Steps (ShutdownSys.step cfg maxConcurrency) Free {} pre s₀ →
        ∀ t ∈ s₀.tasks, t.state = .cancelled → ∀ r ∈ s₀.queue.rows, s₀.Holds t r →
          s₀.SettledIn cfg maxConcurrency suf t r) := by
  have hi := ShutdownSys.inv_init.run h
  refine ⟨?_, fun a s' ha hs r hr => ShutdownSys.row_of_shutdown hi ha hs hr, ?_⟩
  · have hle := (h.inv (I := fun s => s.Inv ∧ s.inflight + s.limit ≤ maxConcurrency.toNat)
      (fun _ _ _ ht hown hs => ⟨ht.1.step hown hs, ShutdownSys.inflight_step ht.1 ht.2 hs⟩)
      ⟨ShutdownSys.inv_init, Nat.zero_le _⟩).2
    omega
  · rintro hstop pre suf s₀ rfl hpre t ht hst r hr hholds
    obtain ⟨s₁, hpre₁, hsuf⟩ := h.split
    obtain rfl := hpre.unique (hpre₁.mono fun _ _ _ => trivial)
    exact (ShutdownSys.inv_init.run hpre₁).settled hsuf hstop ht hst hr hholds

/-- Some cancelled task holds a row. -/
def ShutdownSys.Unfinished (s : ShutdownSys) : Prop :=
  ∃ t ∈ s.tasks, t.state = .cancelled ∧ ∃ r ∈ s.queue.rows, s.Holds t r

instance (s : ShutdownSys) : Decidable s.Unfinished :=
  inferInstanceAs (Decidable (∃ t ∈ s.tasks, t.state = .cancelled ∧ ∃ r ∈ s.queue.rows, s.Holds t r))

/-- One job, cancelled in its run. -/
def cutShort : List ShutdownAct :=
  [.others (.submit .sample), .tick 0, .claim (seconds 1) [], .begins 0, .move 0 (.lookup true), .leave, .cancel,
    .struck 0]

/-- One job cancelled in its run is handed back. -/
theorem shutdown_hands_back_cutShort :
    ∃ (s₀ s : ShutdownSys) (t : Task) (r : PlainJobRow), Steps (ShutdownSys.step {} 2) Free {} cutShort s₀ ∧
      s.stage = .stopped ∧ s.inflight ≤ 2 ∧ t ∈ s₀.tasks ∧ t.state = .cancelled ∧ r ∈ s₀.queue.rows ∧
      s₀.Holds t r ∧ s₀.SettledIn {} 2 [.gathered, .release (seconds 9), .stopped] t r := by
  have hobs : (execAll (guarded (ShutdownSys.step {} 2) fun s a => s.ownEntry a = true) {} cutShort).bind
      (fun s₀ => (execAll (guarded (ShutdownSys.step {} 2) fun s a => s.ownEntry a = true) s₀
        [.gathered, .release (seconds 9), .stopped]).map fun s => (decide s₀.Unfinished, s.stage)) =
      some (true, .stopped) := by decide +kernel
  obtain ⟨s₀, s, hpre, hsuf, hobs⟩ := steps_of_observed_then (g := id) hobs
  obtain ⟨hun, hstop⟩ := Prod.mk.inj hobs
  obtain ⟨t, ht, hst, r, hr, hholds⟩ := of_decide_eq_true hun
  have hpre' := Steps.of_guarded hpre
  have hrun := hpre'.trans (Steps.of_guarded hsuf)
  have hfree : Steps (ShutdownSys.step {} 2) Free {} cutShort s₀ := hpre'.mono fun _ _ _ => trivial
  obtain ⟨hle, -, hsettled⟩ := shutdown_hands_back hrun
  exact ⟨s₀, s, t, r, hfree, hstop, hle, ht, hst, hr, hholds, hsettled hstop _ _ s₀ rfl hfree t ht hst r hr hholds⟩

/-- A job requeued by its first execution and claimed again before that execution has left. -/
def requeuedAndReclaimed : List ShutdownAct :=
  [.others (.submit .sample), .tick 0, .claim (seconds 1) [], .begins 0, .move 0 (.lookup true),
    .move 0 (.ends .noProvider), .move 0 .checkFlag, .move 0 (.requeue (seconds 2)),
    .tick 0, .claim (seconds 9) [], .begins 1, .move 1 (.lookup true), .ends 0,
    .leave, .cancel, .struck 1, .gathered, .stopped]

/-- The first execution takes the second one's entry out, and the shutdown leaves the second's row running. -/
theorem shutdown_leaves_row_running :
    ∃ s, Steps (ShutdownSys.step {} 2) Free {} requeuedAndReclaimed s ∧ s.stage = .stopped ∧
      ∃ t ∈ s.tasks, t.state = .cancelled ∧ ∃ r ∈ s.queue.rows, s.Holds t r := by
  have hrun : (execAll (ShutdownSys.step {} 2) {} requeuedAndReclaimed).map
      (fun s => (s.stage, decide s.Unfinished)) = some (.stopped, true) := by decide +kernel
  obtain ⟨s, hs, hobs⟩ := steps_of_observed hrun
  obtain ⟨hstop, hun⟩ := Prod.mk.inj hobs
  exact ⟨s, hs, hstop, of_decide_eq_true hun⟩

end Broker.Services
