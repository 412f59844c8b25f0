import Broker.Agent.Rows
import Broker.Lib.Table
import Broker.Lib.Trans
import Mathlib.Data.List.Sort

/-!
# Broker.Agent.Lane — the claims of the agent workers

Any number of worker processes claim runs of the two capabilities.  A worker's tick on a lane reads how many
slots are free, claims runs of any priority for the slots above the interactive reserve, claims interactive
runs for the rest, and starts a task for each; runs finish at any time in between.  An execution is a claimed
run with the number of times the run had been requeued or parked before the claim; executions stay in the list
when they are gone, so the list is also the history of claims.
-/

namespace Broker.Agent

open Broker.Lib Broker.Db

/-- `PRIORITY_INTERACTIVE`. -/
def priorityInteractive : ℕ := 0

/-- The settings of one worker process; the account is stripped, empty for none. -/
structure LaneSettings where
  concurrencyCodex : ℤ := 1
  concurrencyClaude : ℤ := 1
  interactiveReserve : ℤ := 1
  accountId : String := ""

def concurrencyFor (cfg : LaneSettings) (c : Capability) : ℤ :=
  max 0 (match c with | .codex => cfg.concurrencyCodex | .claude => cfg.concurrencyClaude)

def effectiveInteractiveReserve (reserve concurrency : ℤ) : ℤ := max 0 (min reserve (concurrency - 1))

/-- The slots of a lane kept for interactive runs. -/
def LaneSettings.reserve (cfg : LaneSettings) (c : Capability) : ℤ :=
  effectiveInteractiveReserve cfg.interactiveReserve (concurrencyFor cfg c)

/-- A queue row with the account of its run. -/
structure LaneRow where
  job : AgentJobRow
  accountId : String

/-! ### `claim_agent_runs` -/

def laneClaimable (cfg : LaneSettings) (c : Capability) (interactiveOnly : Bool) (now : Time)
    (r : LaneRow) : Bool :=
  decide (r.job.capability = c.name) && decide (r.job.status = .pending)
    && r.job.runAfter.all (fun t => decide (t < now))
    && (!interactiveOnly || decide (r.job.priority = priorityInteractive))
    && (decide (cfg.accountId = "") || decide (r.accountId = cfg.accountId))

/-- `ORDER BY priority, created_at`. -/
def laneOrder (r r' : LaneRow) : Prop :=
  r.job.priority < r'.job.priority ∨ (r.job.priority = r'.job.priority ∧ r.job.createdAt ≤ r'.job.createdAt)

instance : DecidableRel laneOrder := fun _ _ => inferInstanceAs (Decidable (_ ∨ _))

/-- The rows one claim takes: at most `limit` claimable ones that no other transaction has locked. -/
def claimAgentRuns (cfg : LaneSettings) (c : Capability) (limit : ℤ) (interactiveOnly : Bool) (now : Time)
    (locked : List ℕ) (rows : List LaneRow) : List LaneRow :=
  if limit ≤ 0 then []
  else ((rows.filter fun r => laneClaimable cfg c interactiveOnly now r && !locked.contains r.job.id).insertionSort
    laneOrder).take limit.toNat

def claimedRow (now : Time) (r : LaneRow) : LaneRow :=
  { r with job := { r.job with status := .running, startedAt := some now } }

/-! ### The workers -/

/-- `claimed` is a run whose task is not yet started, `running` one in `inflight`. -/
inductive ExecPhase | claimed | running | gone
  deriving DecidableEq, Repr

structure Exec where
  worker : ℕ
  capability : Capability
  runId : ℕ
  epoch : ℕ
  priority : ℕ
  phase : ExecPhase

/-- An execution of this worker's lane in a phase. -/
def Exec.on (w : ℕ) (c : Capability) (p : ExecPhase) (e : Exec) : Bool :=
  decide (e.worker = w) && decide (e.capability = c) && decide (e.phase = p)

def Exec.batch (e : Exec) : Bool := decide (e.priority ≠ priorityInteractive)

inductive TickPhase | anyPriority | reserved | spawn
  deriving DecidableEq, Repr

/-- A tick of a lane under way: the free slots it read, and the statement it is at. -/
structure Tick where
  free : ℤ
  phase : TickPhase
  deriving DecidableEq

structure LaneSys where
  rows : List LaneRow := []
  execs : List Exec := []
  ticks : ℕ → Capability → Option Tick := fun _ _ => none
  requeues : List ℕ := []

namespace LaneSys

/-- How often the run was requeued or parked. -/
def epoch (s : LaneSys) (runId : ℕ) : ℕ := s.requeues.count runId

/-- The executions of a lane in a phase that are of a kind. -/
def tally (s : LaneSys) (k : Exec → Bool) (w : ℕ) (c : Capability) (p : ExecPhase) : ℕ :=
  s.execs.countP fun e => e.on w c p && k e

/-- `len(inflight[cap])` for the phase `running`. -/
def count (s : LaneSys) : ℕ → Capability → ExecPhase → ℕ := s.tally fun _ => true

def countBatch (s : LaneSys) : ℕ → Capability → ExecPhase → ℕ := s.tally Exec.batch

def setTick (s : LaneSys) (w : ℕ) (c : Capability) (t : Option Tick) : LaneSys :=
  { s with ticks := fun w' c' => if w' = w ∧ c' = c then t else s.ticks w' c' }

/-- The rows `picked` become executions of the lane. -/
def claim (s : LaneSys) (w : ℕ) (c : Capability) (now : Time) (picked : List LaneRow) : LaneSys :=
  { s with
    rows := updateWhere (fun r => (picked.map (·.job.id)).contains r.job.id) (claimedRow now) s.rows
    execs := s.execs ++ picked.map fun r => ⟨w, c, r.job.id, s.epoch r.job.id, r.job.priority, .claimed⟩ }

/-- Move the executions that meet `p` to another phase. -/
def retag (s : LaneSys) (p : Exec → Bool) (ph : ExecPhase) : LaneSys :=
  { s with execs := s.execs.map fun e => if p e then { e with phase := ph } else e }

end LaneSys

/-- One step: a statement of a tick, the end of a task, or a write of anybody else to a row.  `write` makes no
row pending; `requeue` (also the parking for a quota) does. -/
inductive LaneAct where
  | arrive (r : LaneRow)
  | tick (w : ℕ) (c : Capability)
  | claimAny (w : ℕ) (c : Capability) (now : Time) (locked : List ℕ)
  | claimReserved (w : ℕ) (c : Capability) (now : Time) (locked : List ℕ)
  | spawn (w : ℕ) (c : Capability)
  | abort (w : ℕ) (c : Capability)
  | finish (w runId epoch : ℕ)
  | write (id : ℕ) (job : AgentJobRow)
  | requeue (id : ℕ) (job : AgentJobRow)

/-- A write keeps the columns nobody writes. -/
def keepsIdentity (old new : AgentJobRow) : Prop :=
  new.id = old.id ∧ new.capability = old.capability ∧ new.priority = old.priority

instance (old new : AgentJobRow) :
    Decidable (keepsIdentity old new) := inferInstanceAs (Decidable (_ ∧ _ ∧ _))

def LaneSys.setJob (s : LaneSys) (id : ℕ) (job : AgentJobRow) : LaneSys :=
  { s with rows := updateWhere (fun r => decide (r.job.id = id)) (fun r => { r with job := job }) s.rows }

section Step

variable (settings : ℕ → LaneSettings)

def LaneSys.step (s : LaneSys) : LaneAct → Option LaneSys
  | .arrive r =>
    if r.job.id ∈ s.rows.map (·.job.id) ∨ r.job.status ≠ .pending then none
    else some { s with rows := s.rows ++ [r] }
  | .tick w c =>
    match s.ticks w c with
    | none => some (s.setTick w c (some ⟨concurrencyFor (settings w) c - s.count w c .running, .anyPriority⟩))
    | some _ => none
  | .claimAny w c now locked =>
    match s.ticks w c with
    | some ⟨free, .anyPriority⟩ =>
      let picked := claimAgentRuns (settings w) c (free - (settings w).reserve c) false now locked s.rows
      some ((s.claim w c now picked).setTick w c (some ⟨free, .reserved⟩))
    | _ => none
  | .claimReserved w c now locked =>
    match s.ticks w c with
    | some ⟨free, .reserved⟩ =>
      let picked := claimAgentRuns (settings w) c (free - s.count w c .claimed) true now locked s.rows
      some ((s.claim w c now picked).setTick w c (some ⟨free, .spawn⟩))
    | _ => none
  | .spawn w c =>
    match s.ticks w c with
    | some ⟨_, .spawn⟩ => some ((s.retag (Exec.on w c .claimed) .running).setTick w c none)
    | _ => none
  | .abort w c =>
    match s.ticks w c with
    | some _ => some ((s.retag (Exec.on w c .claimed) .gone).setTick w c none)
    | none => none
  | .finish w runId epoch =>
    some (s.retag (fun e => decide (e.worker = w ∧ e.runId = runId ∧ e.epoch = epoch ∧ e.phase = .running)) .gone)
  | .write id job =>
    if ∀ r ∈ s.rows, r.job.id = id → keepsIdentity r.job job ∧
      (job.status = .pending → r.job.status = .pending)
    then some (s.setJob id job) else none
  | .requeue id job =>
    if ∀ r ∈ s.rows, r.job.id = id → keepsIdentity r.job job then
      some { s.setJob id job with requeues := s.requeues ++ [id] }
    else none

end Step

/-! ### What a claim takes -/

theorem claimAgentRuns_length (cfg : LaneSettings) (c : Capability) (limit : ℤ) (io : Bool) (now : Time)
    (locked : List ℕ) (rows : List LaneRow) :
    ((claimAgentRuns cfg c limit io now locked rows).length : ℤ) ≤ max 0 limit := by
  unfold claimAgentRuns
  split_ifs with h
  · simp
  · have := List.length_take_le limit.toNat
      ((rows.filter fun r => laneClaimable cfg c io now r && !locked.contains r.job.id).insertionSort laneOrder)
    omega

theorem mem_claimAgentRuns {cfg : LaneSettings} {c : Capability} {limit : ℤ} {io : Bool} {now : Time}
    {locked : List ℕ} {rows : List LaneRow} {r : LaneRow} (h : r ∈ claimAgentRuns cfg c limit io now locked rows) :
    r ∈ rows ∧ r.job.status = .pending ∧ (io = true → r.job.priority = priorityInteractive) := by
  unfold claimAgentRuns at h
  split_ifs at h
  · cases h
  · have hmem := (List.mem_insertionSort _).mp (List.mem_of_mem_take h)
    obtain ⟨hr, hc⟩ := List.mem_filter.mp hmem
    simp only [laneClaimable, Bool.and_eq_true, decide_eq_true_eq, Bool.or_eq_true] at hc
    refine ⟨hr, hc.1.1.1.1.2, fun hio => ?_⟩
    rcases hc.1.1.2 with hno | hp
    · simp [hio] at hno
    · exact hp

theorem nodup_claimAgentRuns {cfg : LaneSettings} {c : Capability} {limit : ℤ} {io : Bool} {now : Time}
    {locked : List ℕ} {rows : List LaneRow} (h : (rows.map (·.job.id)).Nodup) :
    ((claimAgentRuns cfg c limit io now locked rows).map (·.job.id)).Nodup := by
  unfold claimAgentRuns
  split_ifs
  · simp
  · have hsort := (List.perm_insertionSort laneOrder
      (rows.filter fun r => laneClaimable cfg c io now r && !locked.contains r.job.id)).map (·.job.id)
    have hfilter := h.sublist ((List.filter_sublist
      (p := fun r => laneClaimable cfg c io now r && !locked.contains r.job.id)).map (·.job.id))
    exact (hsort.nodup_iff.mpr hfilter).sublist ((List.take_sublist _ _).map _)

/-! ### Counting executions -/

theorem countP_or_of_disjoint {α : Type} {p q : α → Bool} (h : ∀ x, p x = true → q x = false) (l : List α) :
    l.countP (fun x => p x || q x) = l.countP p + l.countP q := by
  induction l with
  | nil => rfl
  | cons x l ih =>
    rw [List.countP_cons, List.countP_cons, List.countP_cons, ih]
    cases hp : p x with
    | true =>
      simp [h x hp]
      omega
    | false => simp [Nat.add_assoc]

theorem Exec.on_iff {w : ℕ} {c : Capability} {p : ExecPhase} {e : Exec} :
    e.on w c p = true ↔ e.worker = w ∧ e.capability = c ∧ e.phase = p := by
  simp [Exec.on, and_assoc]

namespace LaneSys

variable (s : LaneSys) (w : ℕ) (c : Capability)

theorem countBatch_le (p : ExecPhase) : s.countBatch w c p ≤ s.count w c p :=
  List.countP_mono_left fun _ _ h => by
    rw [(Bool.and_eq_true_iff.mp h).1]
    rfl

/-- The executions a claim adds are of its lane, and not yet started. -/
theorem tally_claim (now : Time) (picked : List LaneRow) (k : Exec → Bool) (w' : ℕ) (c' : Capability)
    (p : ExecPhase) :
    (s.claim w c now picked).tally k w' c' p = s.tally k w' c' p + picked.countP fun r =>
      Exec.on w' c' p ⟨w, c, r.job.id, s.epoch r.job.id, r.job.priority, .claimed⟩ &&
        k ⟨w, c, r.job.id, s.epoch r.job.id, r.job.priority, .claimed⟩ := by
  simp only [tally, claim, List.countP_append, List.countP_map]
  rfl

theorem count_claim_self (now : Time) (picked : List LaneRow) :
    (s.claim w c now picked).count w c .claimed = s.count w c .claimed + picked.length := by
  unfold count
  rw [tally_claim]
  simp [Exec.on]

/-- A claim of interactive runs adds no batch run. -/
theorem countBatch_claim_interactive (now : Time) {picked : List LaneRow}
    (h : ∀ r ∈ picked, r.job.priority = priorityInteractive) (p : ExecPhase) :
    (s.claim w c now picked).countBatch w c p = s.countBatch w c p := by
  unfold countBatch
  rw [tally_claim, Nat.add_eq_left, List.countP_eq_zero]
  intro r hr
  simp [Exec.batch, h r hr]

/-- Elsewhere a claim changes no count. -/
theorem tally_claim_of_ne (now : Time) (picked : List LaneRow) (k : Exec → Bool) {w' : ℕ} {c' : Capability}
    {p : ExecPhase} (h : ¬ (w' = w ∧ c' = c ∧ p = .claimed)) :
    (s.claim w c now picked).tally k w' c' p = s.tally k w' c' p := by
  rw [tally_claim, Nat.add_eq_left, List.countP_eq_zero]
  intro r _ hr
  obtain ⟨rfl, rfl, rfl⟩ := Exec.on_iff.mp (Bool.and_eq_true_iff.mp hr).1
  exact h ⟨rfl, rfl, rfl⟩

/-! ### Counting after a change of phase -/

/-- A kind of executions that does not look at the phase. -/
def Blind (k : Exec → Bool) : Prop := ∀ (e : Exec) (ph : ExecPhase), k { e with phase := ph } = k e

theorem blind_true : Blind fun _ => true := fun _ _ => rfl

theorem blind_batch : Blind Exec.batch := fun _ _ => rfl

theorem tally_retag (p : Exec → Bool) (ph : ExecPhase) (k : Exec → Bool) (w' : ℕ) (c' : Capability)
    (p' : ExecPhase) :
    (s.retag p ph).tally k w' c' p' = s.execs.countP fun e =>
      if p e then Exec.on w' c' p' { e with phase := ph } && k { e with phase := ph } else e.on w' c' p' && k e := by
  simp only [tally, retag, List.countP_map]
  refine List.countP_congr fun e _ => ?_
  simp only [Function.comp_apply]
  split_ifs <;> rfl

/-- The claimed executions of a lane leave their phase. -/
theorem tally_retag_claimed (k : Exec → Bool) {ph : ExecPhase} (hph : ph ≠ .claimed) :
    (s.retag (Exec.on w c .claimed) ph).tally k w c .claimed = 0 := by
  rw [tally_retag, List.countP_eq_zero]
  intro e _ he
  split_ifs at he with hp
  · exact hph (Exec.on_iff.mp (Bool.and_eq_true_iff.mp he).1).2.2
  · exact hp (Bool.and_eq_true_iff.mp he).1

/-- Started, they count as running. -/
theorem tally_retag_running {k : Exec → Bool} (hk : Blind k) :
    (s.retag (Exec.on w c .claimed) .running).tally k w c .running
      = s.tally k w c .running + s.tally k w c .claimed := by
  rw [tally_retag]
  unfold tally
  rw [← countP_or_of_disjoint]
  · refine List.countP_congr fun e _ => ?_
    cases hp : e.on w c .claimed with
    | true =>
      obtain ⟨rfl, rfl, he⟩ := Exec.on_iff.mp hp
      simp [Exec.on, he, hk e .running]
    | false => simp
  · intro e he
    obtain ⟨-, -, hr⟩ := Exec.on_iff.mp (Bool.and_eq_true_iff.mp he).1
    simp [Exec.on, hr]

/-- Dropped, they count nowhere. -/
theorem tally_retag_gone (k : Exec → Bool) :
    (s.retag (Exec.on w c .claimed) .gone).tally k w c .running = s.tally k w c .running := by
  rw [tally_retag]
  refine List.countP_congr fun e _ => ?_
  split_ifs with hp
  · obtain ⟨-, -, he⟩ := Exec.on_iff.mp hp
    simp [Exec.on, he]
  · rfl

/-- The other lanes are as they were. -/
theorem tally_retag_of_ne (k : Exec → Bool) (ph : ExecPhase) {w' : ℕ} {c' : Capability} {p : ExecPhase}
    (h : ¬ (w' = w ∧ c' = c)) : (s.retag (Exec.on w c .claimed) ph).tally k w' c' p = s.tally k w' c' p := by
  rw [tally_retag]
  refine List.countP_congr fun e _ => ?_
  split_ifs with hp
  · obtain ⟨rfl, rfl, -⟩ := Exec.on_iff.mp hp
    have hno : ∀ ph', Exec.on w' c' p { e with phase := ph' } = false := by
      intro ph'
      rw [Bool.eq_false_iff]
      intro hon
      obtain ⟨rfl, rfl, -⟩ := Exec.on_iff.mp hon
      exact h ⟨rfl, rfl⟩
    simp [hno]
  · rfl

/-- A task that ends leaves its lane with fewer running, and no other count changed. -/
theorem tally_finish {q : Exec → Bool} (hq : ∀ e, q e = true → e.phase = .running) (k : Exec → Bool) (w' : ℕ)
    (c' : Capability) :
    (s.retag q .gone).tally k w' c' .running ≤ s.tally k w' c' .running ∧
    (s.retag q .gone).tally k w' c' .claimed = s.tally k w' c' .claimed := by
  rw [tally_retag, tally_retag]
  constructor
  · refine List.countP_mono_left fun e _ he => ?_
    split_ifs at he with hp
    · simp [Exec.on] at he
    · exact he
  · refine List.countP_congr fun e _ => ?_
    split_ifs with hp
    · simp [Exec.on, hq e hp]
    · rfl

end LaneSys

/-! ### The capacity of a lane -/

theorem concurrencyFor_nonneg (cfg : LaneSettings) (c : Capability) :
    0 ≤ concurrencyFor cfg c := le_max_left _ _

theorem reserve_nonneg (cfg : LaneSettings) (c : Capability) : 0 ≤ cfg.reserve c := le_max_left _ _

theorem reserve_le (cfg : LaneSettings) (c : Capability) : cfg.reserve c ≤ concurrencyFor cfg c := by
  have := concurrencyFor_nonneg cfg c
  unfold LaneSettings.reserve effectiveInteractiveReserve
  omega

/-- The counts of a lane of capacity `conc`, `reserve` of it kept for interactive runs: `cl` claimed and `ru`
running, `bcl` and `bru` of them batch.  A tick under way leaves the slots it read free, and takes no more of
them than it may. -/
structure LaneOk (conc reserve : ℤ) (t : Option Tick) (cl ru bcl bru : ℕ) : Prop where
  idle : t = none → cl = 0
  ticking : ∀ free phase, t = some ⟨free, phase⟩ →
    ru ≤ conc - free ∧ cl ≤ max 0 free ∧ bcl ≤ max 0 (free - reserve) ∧ (phase = .anyPriority → cl = 0)
  running : ru ≤ conc
  batch : bru ≤ conc - reserve
  sub : bcl ≤ cl ∧ bru ≤ ru

/-- Claimed and running together stay within the capacity, the batch ones outside the reserve. -/
theorem LaneOk.total {conc reserve : ℤ} {t : Option Tick} {cl ru bcl bru : ℕ}
    (h : LaneOk conc reserve t cl ru bcl bru) :
    ((cl + ru : ℕ) : ℤ) ≤ conc ∧ ((bcl + bru : ℕ) : ℤ) ≤ conc - reserve := by
  have hr := h.running
  have hb := h.batch
  have hs := h.sub
  cases ht : t with
  | none =>
    have hi := h.idle ht
    omega
  | some t =>
    obtain ⟨h1, h2, h3, -⟩ := h.ticking t.free t.phase ht
    constructor <;> push_cast <;> omega

def LaneSys.LanesOk (settings : ℕ → LaneSettings) (s : LaneSys) : Prop :=
  ∀ w c, LaneOk (concurrencyFor (settings w) c) ((settings w).reserve c) (s.ticks w c)
    (s.count w c .claimed) (s.count w c .running) (s.countBatch w c .claimed) (s.countBatch w c .running)

section Lanes

variable {settings : ℕ → LaneSettings} {s : LaneSys}

@[simp] theorem LaneSys.setTick_self (s : LaneSys) (w : ℕ) (c : Capability) (t : Option Tick) :
    (s.setTick w c t).ticks w c = t := by simp [LaneSys.setTick]

theorem LaneSys.setTick_of_ne (s : LaneSys) {w w' : ℕ} {c c' : Capability} (t : Option Tick)
    (h : ¬ (w' = w ∧ c' = c)) : (s.setTick w c t).ticks w' c' = s.ticks w' c' := by
  simp [LaneSys.setTick, h]

/-- A step on one lane: the others keep their ticks and counts. -/
theorem LaneSys.LanesOk.of_lane (h : s.LanesOk settings) {s' : LaneSys} {w : ℕ} {c : Capability}
    (hother : ∀ w' c', ¬ (w' = w ∧ c' = c) → s'.ticks w' c' = s.ticks w' c' ∧
      ∀ k p, s'.tally k w' c' p = s.tally k w' c' p)
    (hself : LaneOk (concurrencyFor (settings w) c) ((settings w).reserve c) (s'.ticks w c)
      (s'.count w c .claimed) (s'.count w c .running) (s'.countBatch w c .claimed)
      (s'.countBatch w c .running)) : s'.LanesOk settings := by
  intro w' c'
  by_cases hw : w' = w ∧ c' = c
  · obtain ⟨rfl, rfl⟩ := hw
    exact hself
  · obtain ⟨htick, htally⟩ := hother w' c' hw
    have hl := h w' c'
    unfold LaneSys.count LaneSys.countBatch at hl ⊢
    rw [htick, htally, htally, htally, htally]
    exact hl

theorem LaneSys.LanesOk.tick (h : s.LanesOk settings) {w : ℕ} {c : Capability} (ht : s.ticks w c = none) :
    (s.setTick w c (some ⟨concurrencyFor (settings w) c - s.count w c .running, .anyPriority⟩)).LanesOk settings := by
  refine h.of_lane (fun w' c' hw => ⟨LaneSys.setTick_of_ne _ _ hw, fun _ _ => rfl⟩) ?_
  have hl := h w c
  have hidle := hl.idle ht
  have hsub := hl.sub
  rw [LaneSys.setTick_self]
  refine ⟨fun hno => (by cases hno), ?_, hl.running, hl.batch, hl.sub⟩
  intro free phase heq
  obtain ⟨rfl, rfl⟩ : _ = free ∧ _ = phase := by simpa using heq
  refine ⟨?_, ?_, ?_, fun _ => hidle⟩
  · show (s.count w c .running : ℤ) ≤ _
    omega
  · show (s.count w c .claimed : ℤ) ≤ _
    omega
  · show (s.countBatch w c .claimed : ℤ) ≤ _
    omega

/-- A claim of a tick: what it adds fits what the tick may still take. -/
theorem LaneSys.LanesOk.claim (h : s.LanesOk settings) {w : ℕ} {c : Capability} {free : ℤ}
    {phase phase' : TickPhase}
    (ht : s.ticks w c = some ⟨free, phase⟩) (now : Time) {picked : List LaneRow} (hphase : phase' ≠ .anyPriority)
    (hcl : (s.count w c .claimed : ℤ) + picked.length ≤ max 0 free)
    (hbcl : ((s.claim w c now picked).countBatch w c .claimed : ℤ) ≤ max 0 (free - (settings w).reserve c)) :
    ((s.claim w c now picked).setTick w c (some ⟨free, phase'⟩)).LanesOk settings := by
  refine h.of_lane (fun w' c' hw => ⟨LaneSys.setTick_of_ne _ _ hw, fun k p => ?_⟩) ?_
  · exact s.tally_claim_of_ne w c now picked k fun heq => hw ⟨heq.1, heq.2.1⟩
  · have hl := h w c
    obtain ⟨hfree, -, -, -⟩ := hl.ticking free phase ht
    have hrun : ∀ k, (s.claim w c now picked).tally k w c .running = s.tally k w c .running := fun k =>
      s.tally_claim_of_ne w c now picked k (by simp)
    have hcr : (s.claim w c now picked).count w c .running = s.count w c .running := hrun _
    have hbr : (s.claim w c now picked).countBatch w c .running = s.countBatch w c .running := hrun _
    have hself := s.count_claim_self w c now picked
    rw [LaneSys.setTick_self]
    show LaneOk _ _ _ ((s.claim w c now picked).count w c .claimed) ((s.claim w c now picked).count w c .running)
      ((s.claim w c now picked).countBatch w c .claimed) ((s.claim w c now picked).countBatch w c .running)
    refine ⟨fun hno => (by cases hno), ?_, ?_, ?_, LaneSys.countBatch_le _ _ _ _, LaneSys.countBatch_le _ _ _ _⟩
    · intro free₁ phase₁ heq
      obtain ⟨rfl, rfl⟩ : free = free₁ ∧ phase' = phase₁ := by simpa using heq
      refine ⟨by rw [hcr]; exact hfree, ?_, hbcl, fun hno => absurd hno hphase⟩
      rw [hself]
      push_cast
      exact hcl
    · rw [hcr]
      exact hl.running
    · rw [hbr]
      exact hl.batch

theorem LaneSys.LanesOk.claimAny (h : s.LanesOk settings) {w : ℕ} {c : Capability} {free : ℤ}
    (ht : s.ticks w c = some ⟨free, .anyPriority⟩) (now : Time) {picked : List LaneRow}
    (hlen : (picked.length : ℤ) ≤ max 0 (free - (settings w).reserve c)) :
    ((s.claim w c now picked).setTick w c (some ⟨free, .reserved⟩)).LanesOk settings := by
  obtain ⟨-, -, -, hzero⟩ := (h w c).ticking free .anyPriority ht
  have hcl := hzero rfl
  have hres := reserve_nonneg (settings w) c
  refine h.claim ht now (by simp) (by omega) ?_
  have hle := (s.claim w c now picked).countBatch_le w c .claimed
  have hself := s.count_claim_self w c now picked
  omega

theorem LaneSys.LanesOk.claimReserved (h : s.LanesOk settings) {w : ℕ} {c : Capability} {free : ℤ}
    (ht : s.ticks w c = some ⟨free, .reserved⟩) (now : Time) {picked : List LaneRow}
    (hlen : (picked.length : ℤ) ≤ max 0 (free - s.count w c .claimed))
    (hint : ∀ r ∈ picked, r.job.priority = priorityInteractive) :
    ((s.claim w c now picked).setTick w c (some ⟨free, .spawn⟩)).LanesOk settings := by
  obtain ⟨-, hcl, hbcl, -⟩ := (h w c).ticking free .reserved ht
  refine h.claim ht now (by simp) (by omega) ?_
  rw [s.countBatch_claim_interactive w c now hint]
  exact hbcl

/-- The end of a tick: its claimed runs start, or are dropped. -/
theorem LaneSys.LanesOk.retag (h : s.LanesOk settings) (w : ℕ) (c : Capability) {ph : ExecPhase}
    (hph : ph ≠ .claimed) :
    ((s.retag (Exec.on w c .claimed) ph).setTick w c none).LanesOk settings := by
  refine h.of_lane (fun w' c' hw => ⟨LaneSys.setTick_of_ne _ _ hw, fun k p => ?_⟩) ?_
  · exact s.tally_retag_of_ne w c k ph hw
  · obtain ⟨htotal, hbatch⟩ := (h w c).total
    have hz : ∀ k, (s.retag (Exec.on w c .claimed) ph).tally k w c .claimed = 0 := fun k =>
      s.tally_retag_claimed w c k hph
    rw [LaneSys.setTick_self]
    show LaneOk _ _ _ ((s.retag (Exec.on w c .claimed) ph).tally _ w c .claimed)
      ((s.retag (Exec.on w c .claimed) ph).tally _ w c .running)
      ((s.retag (Exec.on w c .claimed) ph).tally _ w c .claimed)
      ((s.retag (Exec.on w c .claimed) ph).tally _ w c .running)
    rw [hz, hz]
    -- at most the claimed runs joined the running ones
    have hle : ∀ k, LaneSys.Blind k → (s.retag (Exec.on w c .claimed) ph).tally k w c .running ≤
        s.tally k w c .claimed + s.tally k w c .running := by
      intro k hk
      cases ph with
      | claimed => exact absurd rfl hph
      | running => exact (s.tally_retag_running w c hk).le.trans (by omega)
      | gone => exact (s.tally_retag_gone w c k).le.trans (by omega)
    have hrun := hle _ LaneSys.blind_true
    have hrunBatch := hle _ LaneSys.blind_batch
    refine ⟨fun _ => rfl, fun _ _ hno => (by cases hno), ?_, ?_, le_rfl, LaneSys.countBatch_le _ _ _ _⟩
    · exact (Int.ofNat_le.mpr hrun).trans htotal
    · exact (Int.ofNat_le.mpr hrunBatch).trans hbatch

theorem LaneSys.LanesOk.finish (h : s.LanesOk settings) {q : Exec → Bool}
    (hq : ∀ e, q e = true → e.phase = .running) : (s.retag q .gone).LanesOk settings := by
  intro w c
  have hl := h w c
  obtain ⟨hr, hc⟩ := s.tally_finish hq (fun _ => true) w c
  obtain ⟨hbr, hbc⟩ := s.tally_finish hq Exec.batch w c
  unfold LaneSys.count LaneSys.countBatch at hl ⊢
  rw [hc, hbc]
  refine ⟨hl.idle, fun free phase ht => ?_, ?_, ?_, hl.sub.1, LaneSys.countBatch_le _ _ _ _⟩
  · obtain ⟨h1, h2, h3, h4⟩ := hl.ticking free phase ht
    exact ⟨(Int.ofNat_le.mpr hr).trans h1, h2, h3, h4⟩
  · exact (Int.ofNat_le.mpr hr).trans hl.running
  · exact (Int.ofNat_le.mpr hbr).trans hl.batch

end Lanes

/-! ### One claim for each epoch -/

/-- What identifies a claim: the run and how often it had been requeued. -/
def Exec.key (e : Exec) : ℕ × ℕ := (e.runId, e.epoch)

/-- The executions agree with the table: each has its row, no two have one key, and a run claimed since its
last requeue is not pending. -/
structure LaneSys.ClaimsOk (s : LaneSys) : Prop where
  ids : (s.rows.map (·.job.id)).Nodup
  known : ∀ e ∈ s.execs, e.runId ∈ s.rows.map (·.job.id)
  keys : (s.execs.map Exec.key).Nodup
  epochs : ∀ e ∈ s.execs, e.epoch ≤ s.epoch e.runId
  taken : ∀ e ∈ s.execs, e.epoch = s.epoch e.runId → ∀ r ∈ s.rows, r.job.id = e.runId →
    r.job.status ≠ .pending

theorem LaneSys.ClaimsOk.arrive {s : LaneSys} (h : s.ClaimsOk) {r : LaneRow}
    (hr : r.job.id ∉ s.rows.map (·.job.id)) :
    LaneSys.ClaimsOk { s with rows := s.rows ++ [r] } := by
  refine ⟨?_, fun e he => ?_, h.keys, h.epochs, fun e he hep r' hr' hid => ?_⟩
  · rw [List.map_append]
    refine List.nodup_append.mpr ⟨h.ids, by simp, ?_⟩
    rintro a ha b hb rfl
    rw [List.map_singleton, List.mem_singleton] at hb
    exact hr (hb ▸ ha)
  · rw [List.map_append]
    exact List.mem_append_left _ (h.known e he)
  · rcases List.mem_append.mp hr' with hr' | hr'
    · exact h.taken e he hep r' hr' hid
    · -- a new row has no execution
      obtain rfl := List.mem_singleton.mp hr'
      exact absurd (hid ▸ h.known e he) hr

/-- A step that keeps the rows and the keys of the executions. -/
theorem LaneSys.ClaimsOk.of_keys {s s' : LaneSys} (h : s.ClaimsOk) (hrows : s'.rows = s.rows)
    (hre : s'.requeues = s.requeues) (hkeys : s'.execs.map Exec.key = s.execs.map Exec.key) :
      s'.ClaimsOk := by
  have hback : ∀ e' ∈ s'.execs, ∃ e ∈ s.execs, e.runId = e'.runId ∧ e.epoch = e'.epoch := by
    intro e' he'
    have hmem : e'.key ∈ s.execs.map Exec.key := hkeys ▸ List.mem_map_of_mem he'
    obtain ⟨e, he, hk⟩ := List.mem_map.mp hmem
    exact ⟨e, he, (Prod.mk.inj hk).1, (Prod.mk.inj hk).2⟩
  have hep : ∀ id, s'.epoch id = s.epoch id := fun id => by unfold LaneSys.epoch; rw [hre]
  refine ⟨by rw [hrows]; exact h.ids, ?_, by rw [hkeys]; exact h.keys, ?_, ?_⟩
  · intro e' he'
    obtain ⟨e, he, hid, -⟩ := hback e' he'
    rw [hrows, ← hid]
    exact h.known e he
  · intro e' he'
    obtain ⟨e, he, hid, hepoch⟩ := hback e' he'
    rw [hep, ← hid, ← hepoch]
    exact h.epochs e he
  · intro e' he' heq r hr hrid
    obtain ⟨e, he, hid, hepoch⟩ := hback e' he'
    rw [hep, ← hid, ← hepoch] at heq
    exact h.taken e he heq r (hrows ▸ hr) (hrid.trans hid.symm)

theorem LaneSys.map_key_retag (s : LaneSys) (p : Exec → Bool) (ph : ExecPhase) :
    (s.retag p ph).execs.map Exec.key = s.execs.map Exec.key := by
  simp only [LaneSys.retag, List.map_map]
  refine List.map_congr_left fun e _ => ?_
  simp only [Function.comp_apply]
  split_ifs <;> rfl

theorem LaneSys.ClaimsOk.claim {s : LaneSys} (h : s.ClaimsOk) (w : ℕ) (c : Capability) (now : Time)
    {picked : List LaneRow} (hin : ∀ r ∈ picked, r ∈ s.rows ∧ r.job.status = .pending)
    (hnd : (picked.map (·.job.id)).Nodup) : (s.claim w c now picked).ClaimsOk := by
  have hids : (s.claim w c now picked).rows.map (·.job.id) = s.rows.map (·.job.id) :=
    map_updateWhere_of_mem fun _ _ _ => rfl
  have hnew : ∀ e ∈ (s.claim w c now picked).execs, e ∈ s.execs ∨
      ∃ r ∈ picked, e.runId = r.job.id ∧ e.epoch = s.epoch r.job.id := by
    intro e he
    rcases List.mem_append.mp he with he | he
    · exact .inl he
    · obtain ⟨r, hr, rfl⟩ := List.mem_map.mp he
      exact .inr ⟨r, hr, rfl, rfl⟩
  refine ⟨by rw [hids]; exact h.ids, fun e he => ?_, ?_, fun e he => ?_, fun e he hep r hr hid => ?_⟩
  · rw [hids]
    rcases hnew e he with he | ⟨r, hr, hid, -⟩
    · exact h.known e he
    · rw [hid]
      exact List.mem_map_of_mem (f := (·.job.id)) (hin r hr).1
  · simp only [LaneSys.claim, List.map_append, List.map_map]
    refine List.nodup_append.mpr ⟨h.keys, ?_, ?_⟩
    · refine List.Nodup.of_map Prod.fst ?_
      rw [List.map_map]
      exact hnd
    · -- a run claimed in this epoch before would not be pending
      intro k hk k' hk' heq
      obtain ⟨e, he, rfl⟩ := List.mem_map.mp hk
      obtain ⟨r, hr, rfl⟩ := List.mem_map.mp hk'
      obtain ⟨hid, hep⟩ : e.runId = r.job.id ∧ e.epoch = s.epoch r.job.id := Prod.mk.inj heq
      exact h.taken e he (by rw [hep, hid]) r (hin r hr).1 hid.symm (hin r hr).2
  · rcases hnew e he with he | ⟨r, -, hid, hep⟩
    · exact h.epochs e he
    · rw [hep, hid]
      exact le_rfl
  · rcases mem_updateWhere.mp hr with ⟨hr, hno⟩ | ⟨r₀, -, -, rfl⟩
    · rcases hnew e he with he | ⟨r', hr', hid', -⟩
      · exact h.taken e he hep r hr hid
      · rw [hid, hid'] at hno
        exact absurd (List.contains_iff_mem.mpr (List.mem_map_of_mem (f := (·.job.id)) hr'))
          (by rw [hno]; simp)
    · simp [claimedRow]

theorem LaneSys.ClaimsOk.setJob_ids {s : LaneSys} {id : ℕ} {job : AgentJobRow}
    (hkeep : ∀ r ∈ s.rows, r.job.id = id → keepsIdentity r.job job) :
    (s.setJob id job).rows.map (·.job.id) = s.rows.map (·.job.id) :=
  map_updateWhere_of_mem fun r hr hp => (hkeep r hr (of_decide_eq_true hp)).1

theorem LaneSys.ClaimsOk.write {s : LaneSys} (h : s.ClaimsOk) {id : ℕ} {job : AgentJobRow}
    (hkeep : ∀ r ∈ s.rows, r.job.id = id → keepsIdentity r.job job ∧
      (job.status = .pending → r.job.status = .pending)) : (s.setJob id job).ClaimsOk := by
  have hids := LaneSys.ClaimsOk.setJob_ids fun r hr hid => (hkeep r hr hid).1
  refine ⟨by rw [hids]; exact h.ids, fun e he => by rw [hids]; exact h.known e he, h.keys, h.epochs,
    fun e he hep r hr hid => ?_⟩
  rcases mem_updateWhere.mp hr with ⟨hr, -⟩ | ⟨r₀, hr₀, hp, rfl⟩
  · exact h.taken e he hep r hr hid
  · obtain ⟨⟨hid', -, -⟩, hpend⟩ := hkeep r₀ hr₀ (of_decide_eq_true hp)
    exact fun hno => h.taken e he hep r₀ hr₀ (hid'.symm.trans hid) (hpend hno)

theorem LaneSys.ClaimsOk.requeue {s : LaneSys} (h : s.ClaimsOk) {id : ℕ} {job : AgentJobRow}
    (hkeep : ∀ r ∈ s.rows, r.job.id = id → keepsIdentity r.job job) :
    LaneSys.ClaimsOk { s.setJob id job with requeues := s.requeues ++ [id] } := by
  have hids := LaneSys.ClaimsOk.setJob_ids hkeep
  have hep : ∀ i, (s.requeues ++ [id]).count i = s.epoch i + if id = i then 1 else 0 := by
    intro i
    rw [List.count_append, List.count_singleton]
    simp [LaneSys.epoch]
  refine ⟨by rw [hids]; exact h.ids, fun e he => by rw [hids]; exact h.known e he, h.keys, fun e he => ?_,
    fun e he heq r hr hrid => ?_⟩
  · show e.epoch ≤ (s.requeues ++ [id]).count e.runId
    rw [hep]
    exact (h.epochs e he).trans (Nat.le_add_right _ _)
  · change e.epoch = (s.requeues ++ [id]).count e.runId at heq
    rw [hep] at heq
    have hle := h.epochs e he
    -- an execution of the current epoch is not of the requeued run
    have hne : id ≠ e.runId := by
      intro heq'
      rw [if_pos heq'] at heq
      omega
    rw [if_neg hne] at heq
    rcases mem_updateWhere.mp hr with ⟨hr, -⟩ | ⟨r₀, hr₀, hp, rfl⟩
    · exact h.taken e he heq r hr hrid
    · obtain ⟨hid', -, -⟩ := hkeep r₀ hr₀ (of_decide_eq_true hp)
      exact absurd ((of_decide_eq_true hp).symm.trans (hid'.symm.trans hrid)) hne

/-! ### Runs -/

structure LaneSys.Inv (settings : ℕ → LaneSettings) (s : LaneSys) : Prop where
  lanes : s.LanesOk settings
  claims : s.ClaimsOk

theorem LaneSys.inv_init (settings : ℕ → LaneSettings) : LaneSys.Inv settings {} := by
  refine ⟨fun w c => ?_, by simp, by simp, by simp, by simp, by simp⟩
  have hc := concurrencyFor_nonneg (settings w) c
  have hr := reserve_le (settings w) c
  refine ⟨fun _ => rfl, fun _ _ hno => (by cases hno), hc, ?_, le_rfl, le_rfl⟩
  show ((0 : ℕ) : ℤ) ≤ _
  omega

/-- **One step keeps the invariant.** -/
theorem LaneSys.Inv.step {settings : ℕ → LaneSettings} {s s' : LaneSys} {a : LaneAct} (hi : s.Inv settings)
    (h : s.step settings a = some s') : s'.Inv settings := by
  cases a with
  | arrive r =>
    simp only [LaneSys.step] at h
    split_ifs at h with hno
    obtain rfl := Option.some.inj h
    exact ⟨hi.lanes, hi.claims.arrive fun hmem => hno (.inl hmem)⟩
  | tick w c =>
    simp only [LaneSys.step] at h
    split at h
    · rename_i ht
      obtain rfl := Option.some.inj h
      exact ⟨hi.lanes.tick ht, hi.claims.of_keys rfl rfl rfl⟩
    · cases h
  | claimAny w c now locked =>
    simp only [LaneSys.step] at h
    split at h
    · rename_i free ht
      obtain rfl := Option.some.inj h
      refine ⟨hi.lanes.claimAny ht now (claimAgentRuns_length _ _ _ _ _ _ _), ?_⟩
      refine (hi.claims.claim w c now (fun r hr => ?_) (nodup_claimAgentRuns hi.claims.ids)).of_keys rfl rfl rfl
      exact ⟨(mem_claimAgentRuns hr).1, (mem_claimAgentRuns hr).2.1⟩
    · cases h
  | claimReserved w c now locked =>
    simp only [LaneSys.step] at h
    split at h
    · rename_i free ht
      obtain rfl := Option.some.inj h
      refine ⟨hi.lanes.claimReserved ht now (claimAgentRuns_length _ _ _ _ _ _ _)
        fun r hr => (mem_claimAgentRuns hr).2.2 rfl, ?_⟩
      refine (hi.claims.claim w c now (fun r hr => ?_) (nodup_claimAgentRuns hi.claims.ids)).of_keys rfl rfl rfl
      exact ⟨(mem_claimAgentRuns hr).1, (mem_claimAgentRuns hr).2.1⟩
    · cases h
  | spawn w c =>
    simp only [LaneSys.step] at h
    split at h
    · obtain rfl := Option.some.inj h
      exact ⟨hi.lanes.retag w c (by simp), hi.claims.of_keys rfl rfl (s.map_key_retag _ _)⟩
    · cases h
  | abort w c =>
    simp only [LaneSys.step] at h
    split at h
    · obtain rfl := Option.some.inj h
      exact ⟨hi.lanes.retag w c (by simp), hi.claims.of_keys rfl rfl (s.map_key_retag _ _)⟩
    · cases h
  | finish w runId epoch =>
    obtain rfl := Option.some.inj h
    refine ⟨hi.lanes.finish fun e he => ?_, hi.claims.of_keys rfl rfl (s.map_key_retag _ _)⟩
    exact (of_decide_eq_true he).2.2.2
  | write id job =>
    simp only [LaneSys.step] at h
    split_ifs at h with hkeep
    obtain rfl := Option.some.inj h
    exact ⟨hi.lanes, hi.claims.write hkeep⟩
  | requeue id job =>
    simp only [LaneSys.step] at h
    split_ifs at h with hkeep
    obtain rfl := Option.some.inj h
    exact ⟨hi.lanes, hi.claims.requeue hkeep⟩

/-- The executions of a worker's lane: claimed or running. -/
def LaneSys.executing (s : LaneSys) (w : ℕ) (c : Capability) : List Exec :=
  s.execs.filter fun e => decide (e.worker = w ∧ e.capability = c ∧ e.phase ≠ .gone)

theorem LaneSys.countP_executing (s : LaneSys) (w : ℕ) (c : Capability) (k : Exec → Bool) :
    (s.executing w c).countP k = s.tally k w c .claimed + s.tally k w c .running := by
  unfold LaneSys.executing LaneSys.tally
  rw [List.countP_filter, ← countP_or_of_disjoint]
  · refine List.countP_congr fun e _ => ?_
    cases hp : e.phase <;> simp [Exec.on, hp, and_comm]
  · intro e he
    obtain ⟨-, -, hp⟩ := Exec.on_iff.mp (Bool.and_eq_true_iff.mp he).1
    simp [Exec.on, hp]

/-- **Lane capacity and interactive reserve.**  In every state that any number of workers can reach, with
any settings: a worker's executions of a capability, those it has claimed and not yet started included,
are at most its concurrency; the batch ones are at most the concurrency less the interactive reserve; and
two executions of one run, wherever they are, are one execution unless the run was requeued or parked
between their claims. -/
theorem lane_capacity (settings : ℕ → LaneSettings) {as : List LaneAct} {s : LaneSys}
    (h : Steps (LaneSys.step settings) Free {} as s) :
    (∀ w c, ((s.executing w c).length : ℤ) ≤ concurrencyFor (settings w) c ∧
      (((s.executing w c).filter Exec.batch).length : ℤ) ≤ concurrencyFor (settings w) c -
        effectiveInteractiveReserve (settings w).interactiveReserve (concurrencyFor (settings w) c)) ∧
    ∀ (i j : ℕ) (e f : Exec), s.execs[i]? = some e → s.execs[j]? = some f → e.runId = f.runId →
      e.epoch = f.epoch →
      i = j := by
  have hi : s.Inv settings := h.inv (fun t a u ht _ hs => ht.step hs) (LaneSys.inv_init settings)
  refine ⟨fun w c => ?_, fun i j e f he hf hid hep => ?_⟩
  · obtain ⟨htotal, hbatch⟩ := (hi.lanes w c).total
    have hall := s.countP_executing w c fun _ => true
    rw [List.countP_true] at hall
    have hb := s.countP_executing w c Exec.batch
    rw [List.countP_eq_length_filter] at hb
    rw [hall, hb]
    exact ⟨htotal, hbatch⟩
  · have hnd := hi.claims.keys
    have hk : (s.execs.map Exec.key)[i]? = (s.execs.map Exec.key)[j]? := by
      rw [List.getElem?_map, List.getElem?_map, he, hf]
      simp [Exec.key, hid, hep]
    have hlt : i < (s.execs.map Exec.key).length := by
      rw [List.length_map]
      exact (List.getElem?_eq_some_iff.mp he).1
    exact (List.getElem?_inj hlt hnd).mp hk

/-- A pending Codex run. -/
def pendingRun (id priority : ℕ) : LaneRow where
  job :=
    { id := id
      projectId := 1
      capability := "agent:codex"
      status := .pending
      request := {}
      resultText := none
      resultMeta := none
      errorMessage := none
      retryCount := 0
      runAfter := none
      startedAt := none
      createdAt := id
      completedAt := none
      cancelRequested := false
      priority := priority }
  accountId := "a"

/-- Two batch runs and an interactive one on a lane of two slots, one of them reserved. -/
def reservedTick : List LaneAct :=
  [.arrive (pendingRun 1 1), .arrive (pendingRun 2 1), .arrive (pendingRun 3 0), .tick 0 .codex,
    .claimAny 0 .codex 10 [], .claimReserved 0 .codex 10 [], .spawn 0 .codex]

/-- The interactive run takes the open slot, and the reserved one stays empty. -/
theorem lane_capacity_reserve :
    ∃ s, Steps (LaneSys.step fun _ => { concurrencyCodex := 2 }) Free {} reservedTick s ∧
      s.execs.map (·.runId) = [3] ∧ ((s.executing 0 .codex).filter Exec.batch).length ≤ 1 := by
  have hrun : (execAll (LaneSys.step fun _ => { concurrencyCodex := 2 }) {} reservedTick).map
      (fun u => u.execs.map (·.runId)) = some [3] := by decide
  obtain ⟨s, hs, hobs⟩ := steps_of_observed hrun
  have h := ((lane_capacity (fun _ => { concurrencyCodex := 2 }) hs).1 0 .codex).2
  exact ⟨s, hs, hobs, Int.ofNat_le.mp h⟩

end Broker.Agent
