import Broker.Routing.Cooldown
import Broker.Routing.PaidTail
import Broker.Routing.Selector
import Mathlib.Data.List.MinMax
import Mathlib.Data.Prod.Lex

/-!
# Broker.Routing.KeyPool — picking a key of a pool that others write

The pool is the rows of `api_keys` with the cooldowns of keys and of models, and the row locks of open
transactions.  `KeyPool.exec` is what the three statements of `pick_and_reserve` find in it, so a pool is
a database for `pickAndReserve` (`KeyPool.keyDb`).  The attempts, the monitor and the dashboard write
rows in any order; a key they have parked or marked dead is picked by no run before it is back
(`out_of_rotation`).
-/

namespace Broker.Routing

open Broker.Lib Broker.Db Broker.Lib.PyConv

/-- The columns of `api_keys` that no penalty writes. -/
structure PoolKey where
  costs : ApiKeyRow
  provider : String
  scopes : List String
  isActive : Bool := true
  dailyLimit : ℤ := 999999
  isReserve : Bool := false

def PoolKey.id (k : PoolKey) : ℕ := k.costs.id

structure KeyPool where
  rows : List PoolKey
  health : CooldownDb
  held : List (ℕ × ℕ) := []
  now : Time

/-- The key is in the table and alive. -/
def CooldownDb.alive (db : CooldownDb) (id : ℕ) : Bool := (db.keys id).any (·.isAlive)

/-- The row that the `WHERE` of a pick sees. -/
def PoolKey.row (k : PoolKey) (db : CooldownDb) : PickRow where
  id := k.id
  tier := k.costs.tier
  provider := k.provider
  scopes := k.scopes
  daily := k.costs.daily.columns
  monthly := k.costs.monthly.columns
  isActive := k.isActive
  isAlive := db.alive k.id
  cooldownUntil := db.keyUntil k.id
  dailyUsed := k.costs.dailyUsed
  dailyLimit := k.dailyLimit

namespace KeyPool

section Exec

variable (today : Time → Window → ℕ) (pool : KeyPool)

/-- The model is parked on the key. -/
def cooling (id : ℕ) (model : String) : Bool :=
  (pool.health.modelUntil (id, model)).any fun t => decide (pool.now < t)

/-- Fewer models of the request are parked on the key than it names; one that names none asks for none. -/
def modelLeft (models : List String) (id : ℕ) : Bool :=
  models.isEmpty || decide ((models.dedup.filter (pool.cooling id)).length < models.dedup.length)

/-- The `WHERE` of `pick_and_reserve`. -/
def usable (f : PickFilter) (k : PoolKey) : Bool :=
  pickConds pool.now (today pool.now) f.provider f.scope f.requireTier (k.row pool.health) &&
    pool.modelLeft f.models k.id

/-- No other transaction holds the row. -/
def free (txn id : ℕ) : Bool := pool.held.all fun h => decide (h.2 = id → h.1 = txn)

/-- `ORDER BY is_reserve, saturated, timed out, (id = aff) DESC`, as one number. -/
def rank (saturated timedOut : Finset ℤ) (aff : ℤ) (k : PoolKey) : ℕ :=
  8 * k.isReserve.toNat + 4 * (decide ((k.id : ℤ) ∈ saturated)).toNat +
    2 * (decide ((k.id : ℤ) ∈ timedOut)).toNat + (decide ((k.id : ℤ) ≠ aff)).toNat

/-- The row of a statement that names its key, which waits for the row's lock. -/
def named (f : PickFilter) (id : ℤ) : Option PoolKey :=
  pool.rows.find? fun k => decide ((k.id : ℤ) = id) && pool.usable today f k

/-- The row of the ordered statement, which skips the locked rows; `draw` is `random()`. -/
def ordered (txn : ℕ) (draw : ℕ → ℕ) (f : PickFilter) (saturated timedOut : Finset ℤ) (aff : ℤ) :
    Option PoolKey :=
  (pool.rows.filter fun k => pool.usable today f k && pool.free txn k.id).argmin fun k =>
    toLex (rank saturated timedOut aff k, draw k.id)

/-- The row that a statement of transaction `txn` updates and returns. -/
def exec (txn : ℕ) (draw : ℕ → ℕ) (f : PickFilter) : PickStmt → Option PoolKey
  | .exact only => pool.named today f only
  | .sticky aff => pool.named today f aff
  | .ordered saturated timedOut aff => pool.ordered today txn draw f saturated timedOut aff

/-- The pool as the database of a pick; the driver refuses an id outside `bigint` and a text with U+0000. -/
def keyDb (txn : ℕ) (draw : ℕ → ℕ) (overQuota : Finset ℤ) (hquota : ∀ n ∈ overQuota, IsBigint n) : KeyDb where
  exec f st :=
    if f.Bindable ∧ ∀ n ∈ st.ids, IsBigint n then
      .ok ((pool.exec today txn draw f st).map fun k => (k.id : ℤ))
    else .error .dataError
  exec_isOk f st := by
    split_ifs with h
    · exact iff_of_true rfl h
    · exact iff_of_false Bool.false_ne_true h
  overQuota := overQuota
  overQuota_bigint := hquota

end Exec

variable {today : Time → Window → ℕ} {pool : KeyPool} {txn : ℕ} {draw : ℕ → ℕ} {f : PickFilter}

theorem named_some {id : ℤ} {k : PoolKey} (h : pool.named today f id = some k) :
    k ∈ pool.rows ∧ (k.id : ℤ) = id ∧ pool.usable today f k = true := by
  have hk := List.find?_some h
  simp only [Bool.and_eq_true, decide_eq_true_eq] at hk
  exact ⟨List.mem_of_find?_eq_some h, hk.1, hk.2⟩

theorem named_none {id : ℤ} (h : pool.named today f id = none) {k : PoolKey} (hk : k ∈ pool.rows)
    (hid : (k.id : ℤ) = id) : pool.usable today f k = false := by
  have hnot := List.find?_eq_none.mp h k hk
  simpa [hid] using hnot

/-- A row of the ordered statement is usable and free, and none that is has a lower rank. -/
theorem ordered_some {saturated timedOut : Finset ℤ} {aff : ℤ} {k : PoolKey}
    (h : pool.ordered today txn draw f saturated timedOut aff = some k) :
    k ∈ pool.rows ∧ pool.usable today f k = true ∧ pool.free txn k.id = true ∧
      ∀ k' ∈ pool.rows, pool.usable today f k' = true → pool.free txn k'.id = true →
        rank saturated timedOut aff k ≤ rank saturated timedOut aff k' := by
  have hmem := List.mem_filter.mp (List.argmin_mem h)
  simp only [Bool.and_eq_true] at hmem
  refine ⟨hmem.1, hmem.2.1, hmem.2.2, fun k' hk' husable hfree => ?_⟩
  have hle := List.le_of_mem_argmin (List.mem_filter.mpr ⟨hk', by simp [husable, hfree]⟩) h
  rcases Prod.Lex.le_iff.mp hle with hlt | ⟨heq, -⟩
  · exact hlt.le
  · exact heq.le

theorem ordered_none {saturated timedOut : Finset ℤ} {aff : ℤ}
    (h : pool.ordered today txn draw f saturated timedOut aff = none) {k : PoolKey} (hk : k ∈ pool.rows)
    (husable : pool.usable today f k = true) : pool.free txn k.id = false := by
  have hnil := List.argmin_eq_none.mp h
  have hnot := List.filter_eq_nil_iff.mp hnil k hk
  simpa [husable] using hnot

/-- A usable key is alive and its park is over. -/
theorem usable_health {k : PoolKey} (h : pool.usable today f k = true) :
    pool.health.alive k.id = true ∧ ∀ t ∈ pool.health.keyUntil k.id, t < pool.now := by
  simp only [usable, pickConds, PoolKey.row, Bool.and_eq_true] at h
  obtain ⟨⟨⟨⟨⟨⟨⟨⟨⟨-, -⟩, halive⟩, -⟩, hcool⟩, -⟩, -⟩, -⟩, -⟩, -⟩ := h
  refine ⟨halive, fun t ht => ?_⟩
  rw [Option.mem_def.mp ht] at hcool
  simpa using hcool

/-- A usable key has a model left, when the request names models. -/
theorem usable_model {k : PoolKey} (h : pool.usable today f k = true) (hne : f.models ≠ []) :
    ∃ m ∈ f.models, pool.cooling k.id m = false := by
  simp only [usable, modelLeft, Bool.and_eq_true, Bool.or_eq_true, decide_eq_true_eq, List.isEmpty_iff] at h
  have hlt := h.2.resolve_left hne
  by_contra hall
  push Not at hall
  have hself : f.models.dedup.filter (pool.cooling k.id) = f.models.dedup := by
    refine List.filter_eq_self.mpr fun m hm => ?_
    simpa using hall m (List.mem_dedup.mp hm)
  rw [hself] at hlt
  exact lt_irrefl _ hlt

/-! ### `pick_and_reserve` on a pool -/

/-- What the statements of a pick return. -/
structure PickKey (pool : KeyPool) (today : Time → Window → ℕ) (txn : ℕ) (env : PickEnv) (f : PickFilter)
    (only aff : Option ℤ) (saturated : Finset ℤ) (k : PoolKey) : Prop where
  row : k ∈ pool.rows
  usable : pool.usable today f k = true
  model : f.models ≠ [] → ∃ m ∈ f.models, pool.cooling k.id m = false
  asked : ∀ n ∈ only, (k.id : ℤ) = n
  best : only = none → aff = some (k.id : ℤ) ∧ f.provider ∈ env.cacheSticky ∧ f.requireTier ≠ some .free ∨
    pool.free txn k.id = true ∧ ∀ k' ∈ pool.rows, pool.usable today f k' = true → pool.free txn k'.id = true →
      rank (orNoKey saturated) (orNoKey env.timedOut) (aff.getD (-1)) k ≤
        rank (orNoKey saturated) (orNoKey env.timedOut) (aff.getD (-1)) k'

/-- When they return nothing. -/
def NoKey (pool : KeyPool) (today : Time → Window → ℕ) (txn : ℕ) (f : PickFilter) (only : Option ℤ) : Prop :=
  match only with
  | some n => ∀ k ∈ pool.rows, (k.id : ℤ) = n → pool.usable today f k = false
  | none => ∀ k ∈ pool.rows, pool.usable today f k = true → pool.free txn k.id = false

section Pick

variable {overQuota : Finset ℤ} {hquota : ∀ n ∈ overQuota, IsBigint n} {env : PickEnv} {only aff : Option ℤ}
  {saturated : Finset ℤ}

theorem keyDb_exec {st : PickStmt} {r : Option ℤ}
    (h : (pool.keyDb today txn draw overQuota hquota).exec f st = .ok r) :
    (pool.exec today txn draw f st).map (fun k => (k.id : ℤ)) = r := by
  dsimp only [keyDb] at h
  split_ifs at h
  exact Except.ok.inj h

/-- The ordered statement of a pick. -/
theorem ordered_spec {r : Option ℤ} (honly : only = none)
    (h : (pool.keyDb today txn draw overQuota hquota).exec f
      (.ordered (orNoKey saturated) (orNoKey env.timedOut) (aff.getD (-1))) = .ok r) :
    (∀ id ∈ r, ∃ k, (k.id : ℤ) = id ∧ PickKey pool today txn env f only aff saturated k) ∧
      (r = none → NoKey pool today txn f only) := by
  have hexec := keyDb_exec h
  subst honly
  constructor
  · rintro id rfl
    obtain ⟨k, hk, hid⟩ := Option.map_eq_some_iff.mp hexec
    obtain ⟨hrow, husable, hfree, hbest⟩ := ordered_some hk
    exact ⟨k, hid, hrow, husable, usable_model husable, fun n hn => (Option.not_mem_none n hn).elim,
      fun _ => .inr ⟨hfree, hbest⟩⟩
  · rintro rfl k hk husable
    exact ordered_none (Option.map_eq_none_iff.mp hexec) hk husable

/-- **The statements of a pick return the best usable key that is free, or none is.** -/
theorem pickKey_spec {r : Option ℤ}
    (h : pickKey (pool.keyDb today txn draw overQuota hquota) env f only aff saturated = .ok r) :
    (∀ id ∈ r, ∃ k, (k.id : ℤ) = id ∧ PickKey pool today txn env f only aff saturated k) ∧
      (r = none → NoKey pool today txn f only) := by
  unfold pickKey at h
  cases only with
  | some only =>
    have hexec := keyDb_exec h
    constructor
    · rintro id rfl
      obtain ⟨k, hk, hid⟩ := Option.map_eq_some_iff.mp hexec
      obtain ⟨hrow, honly, husable⟩ := named_some hk
      refine ⟨k, hid, hrow, husable, usable_model husable, fun n hn => ?_, fun hnone => nomatch hnone⟩
      rw [honly]
      exact Option.some.inj hn
    · rintro rfl k hk hid
      exact named_none (Option.map_eq_none_iff.mp hexec) hk hid
  | none =>
    cases aff with
    | none => exact ordered_spec rfl h
    | some aff =>
      dsimp only at h
      split_ifs at h with hsticky
      · split at h
        · exact ordered_spec rfl h
        · rename_i hnone
          have hexec := keyDb_exec h
          cases r with
          | none => exact absurd h hnone
          | some id =>
            refine ⟨fun id' hid' => ?_, fun hr => nomatch hr⟩
            obtain ⟨k, hk, hid⟩ := Option.map_eq_some_iff.mp hexec
            obtain ⟨hrow, haff, husable⟩ := named_some hk
            obtain rfl := Option.some.inj hid'
            refine ⟨k, hid, hrow, husable, usable_model husable, fun n hn => (Option.not_mem_none n hn).elim,
              fun _ => .inl ⟨?_, hsticky⟩⟩
            rw [haff]
      · exact ordered_spec rfl h

/-- **`pick_and_reserve` on a pool.**  A key it returns is usable for the request, is the key that was
asked for, and otherwise the pinned key of a cache-sticky provider or the first of the free usable keys
by reserve, saturation, recent timeout and pin, where the saturated keys and the pin are the ones it read
and a key that has just timed out is no pin; it returns none only for a provider that storms, for a named
key that is not usable, or when no usable key is free. -/
theorem pickAndReserve_picks (I : Interp) {store : Store} {L L' : Local} {project : Option ℤ}
    {r : Option ℤ}
    (h : pickAndReserve I (pool.keyDb today txn draw overQuota hquota) env store L f project only =
      (.ok r, L')) :
    f.requireTier ≠ some .paid ∧ env.inStorm f.provider f.scope = true ∧ r = none ∨
    ∃ saturated L₁ aff L₂,
      saturatedKeyIds I (pool.keyDb today txn draw overQuota hquota) store env.clk.now L =
        (.ok saturated, L₁) ∧
      affinityForShared I store env.clk L₁ project f.provider = (.ok aff, L₂) ∧
      (∀ id ∈ r, ∃ k, (k.id : ℤ) = id ∧
        PickKey pool today txn env f only (aff.filter fun n => n ∉ env.timedOut) saturated k) ∧
      (r = none → NoKey pool today txn f only) := by
  rw [pickAndReserve] at h
  split_ifs at h with hstorm
  · exact .inl ⟨hstorm.1, hstorm.2, (Except.ok.inj (Prod.mk.inj h).1).symm⟩
  · refine .inr ?_
    split at h
    · cases (Prod.mk.inj h).1
    · rename_i saturated L₁ hsat
      split at h
      · cases (Prod.mk.inj h).1
      · rename_i aff L₂ haff
        have hpicked := pickKey_spec (Prod.mk.inj h).1
        exact ⟨saturated, L₁, aff, L₂, hsat, haff, hpicked.1, hpicked.2⟩

end Pick

/-! ### A pool with a key in reserve -/

def shared : PoolKey where
  costs := { id := 2, tier := .free, daily := ⟨none, 0, none⟩, monthly := ⟨none, 0, none⟩ }
  provider := "gemini"
  scopes := ["llm:chat"]

def reserved : PoolKey := { shared with costs := { shared.costs with id := 1 }, isReserve := true }

/-- Key 2 is parked until the tenth minute. -/
def twoKeys (now : Time) : KeyPool where
  rows := [reserved, shared]
  health := { keys := fun id => if id = 2 then some { cooldownUntil := some (seconds 600) } else some {} }
  now := now

def anyDay : Time → Window → ℕ := fun _ _ => 0

def chatPick : PickFilter where
  provider := "gemini"
  scope := "llm:chat"
  models := ["gemini-flash"]

/-- Key 2 has just timed out. -/
def calmEnv : PickEnv where
  inStorm := fun _ _ => false
  cacheSticky := []
  timedOut := {2}
  timedOut_bigint := by decide
  clk := ⟨0, 0⟩

theorem pickAndReserve_picks_shared : ∃ k, (k.id : ℤ) = 2 ∧
    PickKey (twoKeys (seconds 601)) anyDay 0 calmEnv chatPick none none ∅ k := by
  have hquota : ∀ n ∈ (∅ : Finset ℤ), IsBigint n := fun n hn => (Finset.notMem_empty n hn).elim
  have hpick : ∃ L', pickAndReserve ⟨1000, 1000, fun _ => ""⟩
      ((twoKeys (seconds 601)).keyDb anyDay 0 (fun _ => 0) ∅ hquota) calmEnv (fun _ => .miss) {} chatPick none
      none = (.ok (some 2), L') := ⟨_, rfl⟩
  obtain ⟨L', hpick⟩ := hpick
  rcases pickAndReserve_picks _ hpick with ⟨-, hstorm, -⟩ | ⟨saturated, L₁, aff, L₂, hsat, haff, hsome, -⟩
  · exact absurd hstorm (by decide)
  · obtain rfl : ∅ = saturated := Except.ok.inj (congrArg Prod.fst hsat)
    obtain rfl : none = aff := Except.ok.inj (congrArg Prod.fst haff)
    exact hsome 2 rfl

/-! ### Runs -/

/-- A write of the other parties to a row: one that leaves the health of the key alone (a reservation, a
refund, `dash_edit_key`, `disable_key`), the one of `tick` for a token that does not decrypt, `dash_toggle_key`,
a key created again under its label, a new key, and a deletion. -/
inductive KeyEdit where
  | columns (row : PoolKey)
  | unreadable (id : ℕ)
  | toggle (id : ℕ)
  | recreate (row : PoolKey)
  | create (row : PoolKey)
  | delete (id : ℕ)

def KeyEdit.id : KeyEdit → ℕ
  | .columns row | .recreate row | .create row => row.id
  | .unreadable id | .toggle id | .delete id => id

/-- A statement of a transaction on the pool. -/
inductive Act where
  | pick (txn : ℕ) (draw : ℕ → ℕ) (f : PickFilter) (st : PickStmt)
  | health (txn : ℕ) (a : CooldownAct)
  | book (txn id : ℕ) (cost : ℚ) (recovers : Bool)
  | edit (txn : ℕ) (e : KeyEdit)
  | finish (txn : ℕ)
  | tick (now : Time)

def keyOf : CooldownAct → ℕ
  | .penalize p => p.apiKeyId
  | .died id _ => id
  | .probe id _ _ _ _ => id

/-- `_recover_set_sql`. -/
def recovered (k : KeyHealth) :
    KeyHealth := { k with lastError := none, errorCount := 0, cooldownUntil := none }

/-- The row of the key is switched off. -/
def switchedOff (pool : KeyPool) (id : ℕ) : Bool := pool.rows.any fun k => decide (k.id = id) && !k.isActive

/-- The rows with the one of `row`'s key replaced. -/
def replaceRow (pool : KeyPool) (row : PoolKey) : List PoolKey :=
  pool.rows.map fun k => if k.id = row.id then row else k

/-- An edit without its lock.  A key switched on or created again gets another chance; a new key takes an id
that is in no row, and a deletion takes the cooldowns of the key's models with it. -/
def edited (pool : KeyPool) : KeyEdit → Option KeyPool
  | .columns row => some { pool with rows := pool.replaceRow row }
  | .unreadable id => some { pool with
      health := pool.health.updateKey id fun k =>
        { k with isAlive := false, lastError := some "token decrypt failed" } }
  | .toggle id => some { pool with
      rows := pool.rows.map fun k => if k.id = id then { k with isActive := !k.isActive } else k
      health := if pool.switchedOff id then
          pool.health.updateKey id fun k => { k with isAlive := true, errorCount := 0 }
        else pool.health }
  | .recreate row => some { pool with
      rows := pool.replaceRow { row with isActive := true }
      health := pool.health.updateKey row.id fun k => { k with isAlive := true } }
  | .create row =>
    if (pool.health.keys row.id).isNone ∧ ∀ k ∈ pool.rows, k.id ≠ row.id then
      some { pool with
        rows := row :: pool.rows
        health := { pool.health with keys := Function.update pool.health.keys row.id (some {}) } }
    else none
  | .delete id => some { pool with
      rows := pool.rows.filter fun k => decide (k.id ≠ id)
      health :=
        { keys := Function.update pool.health.keys id none
          models := fun pair => if pair.1 = id then none else pool.health.models pair } }

section Step

variable (today : Time → Window → ℕ)

/-- Statements that write a row wait for it. -/
def step (pool : KeyPool) : Act → Option KeyPool
  | .pick txn draw f st =>
    match pool.exec today txn draw f st with
    | none => some pool
    | some k => if pool.free txn k.id then some { pool with held := (txn, k.id) :: pool.held } else none
  | .health txn a =>
    if pool.free txn (keyOf a) then
      (pool.health.step a).map fun db => { pool with health := db, held := (txn, keyOf a) :: pool.held }
    else none
  | .book txn id cost recovers =>
    if pool.free txn id then
      some { pool with
        rows := pool.rows.map fun k =>
          if k.id = id then { k with costs := recordUsage (today pool.now) cost k.costs } else k
        health := if recovers then pool.health.updateKey id recovered else pool.health
        held := (txn, id) :: pool.held }
    else none
  | .edit txn e =>
    if pool.free txn e.id then
      (pool.edited e).map fun pool' => { pool' with held := (txn, e.id) :: pool.held }
    else none
  | .finish txn => some { pool with held := pool.held.filter fun h => decide (h.1 ≠ txn) }
  | .tick now => if pool.now ≤ now then some { pool with now := now } else none

end Step

/-- The edit does not bring a dead key back: it is none that switches the key on or creates it again while it
is dead, nor the creation of a key under its id (the sequence hands out no id twice). -/
def KeyEdit.KeepsOut (id : ℕ) (pool : KeyPool) : KeyEdit → Prop
  | .toggle id' => id' = id → pool.switchedOff id = true → pool.health.alive id = true
  | .recreate row => row.id = id → pool.health.alive id = true
  | .create row => row.id ≠ id
  | .columns _ | .unreadable _ | .delete _ => True

/-- The statement neither ends the park of the key sooner nor brings a dead key back. -/
def KeepsOut (id : ℕ) (pool : KeyPool) : Act → Prop
  | .health _ (.penalize p) =>
    p.scope = none → p.apiKeyId = id → ∀ t ∈ pool.health.keyUntil id, t ≤ p.until
  | .health _ (.probe id' verdict _ _ _) =>
    id' = id → verdict = .alive ∨ verdict = .cooldown → pool.health.alive id = true
  | .book _ id' _ recovers => id' = id → recovers = false
  | .edit _ e => e.KeepsOut id pool
  | _ => True

variable {s u : KeyPool} {id : ℕ}

/-- What has kept a key out since `s`: while it is alive its park ends no earlier, and it is not alive if it
was dead. -/
structure Out (id : ℕ) (s u : KeyPool) : Prop where
  parked : u.health.alive id = true → NotEarlier (s.health.keyUntil id) (u.health.keyUntil id)
  dead : u.health.alive id = true → s.health.alive id = true

theorem Out.refl (id : ℕ) (s : KeyPool) : Out id s s := ⟨fun _ => .refl _, fun h => h⟩

theorem Out.of_health {db : CooldownDb} (h : u.health = db) (hs : s.health = db) : Out id s u := by
  subst h
  exact ⟨fun _ => hs ▸ .refl _, fun h => hs ▸ h⟩

theorem alive_updateKey (db : CooldownDb) (id id' : ℕ) (g : KeyHealth → KeyHealth) :
    (db.updateKey id' g).alive id =
      if id = id' then (db.keys id).any fun k => (g k).isAlive else db.alive id := by
  by_cases hid : id = id'
  · subst hid
    simp only [CooldownDb.alive, CooldownDb.updateKey, Function.update_self, if_pos]
    cases db.keys id <;> rfl
  · simp only [CooldownDb.alive, CooldownDb.updateKey, Function.update_of_ne hid, if_neg hid]

theorem keyUntil_updateKey_of_ne (db : CooldownDb) {id id' : ℕ} (h : id ≠ id') (g : KeyHealth → KeyHealth) :
    (db.updateKey id' g).keyUntil id = db.keyUntil id := by
  simp only [CooldownDb.keyUntil, CooldownDb.updateKey, Function.update_of_ne h]

/-- A write that leaves the parks alone, and says a key alive only while it is. -/
theorem Out.of_update {id' : ℕ} {g : KeyHealth → KeyHealth} (hg : ∀ k, (g k).cooldownUntil = k.cooldownUntil)
    (hs : id = id' → u.health.alive id = true → s.health.alive id = true)
    (h : u.health = s.health.updateKey id' g) : Out id s u := by
  by_cases hid : id = id'
  · subst hid
    refine ⟨fun _ => ?_, hs rfl⟩
    have huntil : u.health.keyUntil id = s.health.keyUntil id := by
      rw [h]
      simp only [CooldownDb.keyUntil, CooldownDb.updateKey, Function.update_self]
      cases s.health.keys id with
      | none => rfl
      | some k => exact hg k
    rw [huntil]
    exact .refl _
  · refine ⟨fun _ => ?_, fun halive => ?_⟩
    · rw [h, keyUntil_updateKey_of_ne _ hid]
      exact .refl _
    · rwa [h, alive_updateKey, if_neg hid] at halive

/-- A key whose entry is the same. -/
theorem Out.of_keys (h : u.health.keys id = s.health.keys id) : Out id s u := by
  refine ⟨fun _ => ?_, fun halive => ?_⟩
  · rw [CooldownDb.keyUntil, CooldownDb.keyUntil, h]
    exact .refl _
  · rwa [CooldownDb.alive, h] at halive

/-- An edit that keeps a key out. -/
theorem out_edited {e : KeyEdit} (hkeep : e.KeepsOut id s) (h : s.edited e = some u) : Out id s u := by
  cases e with
  | columns row => exact .of_health (congrArg KeyPool.health (Option.some.inj h).symm) rfl
  | unreadable id' =>
    obtain rfl := Option.some.inj h
    refine .of_update (g := fun k => { k with isAlive := false, lastError := some "token decrypt failed" })
      (fun _ => rfl) (fun hid halive => ?_) rfl
    rw [alive_updateKey, if_pos hid] at halive
    cases hk : s.health.keys id with
    | none => rw [hk] at halive; cases halive
    | some k => rw [hk] at halive; cases halive
  | toggle id' =>
    obtain rfl := Option.some.inj h
    by_cases hoff : s.switchedOff id' = true
    · refine .of_update (g := fun k => { k with isAlive := true, errorCount := 0 }) (fun _ => rfl) ?_ (if_pos hoff)
      rintro rfl -
      exact hkeep rfl hoff
    · exact .of_health (if_neg hoff) rfl
  | recreate row =>
    obtain rfl := Option.some.inj h
    exact .of_update (g := fun k => { k with isAlive := true }) (fun _ => rfl) (fun hid _ => hkeep hid.symm) rfl
  | create row =>
    simp only [edited] at h
    split_ifs at h
    obtain rfl := Option.some.inj h
    exact .of_keys (Function.update_of_ne (Ne.symm hkeep) _ _)
  | delete id' =>
    obtain rfl := Option.some.inj h
    by_cases hid : id = id'
    · -- a key that is gone is not alive
      subst hid
      have hgone : ∀ {P : Prop}, (Function.update s.health.keys id none id).any (·.isAlive) = true → P := by
        intro P halive
        rw [Function.update_self] at halive
        cases halive
      exact ⟨hgone, hgone⟩
    · exact .of_keys (Function.update_of_ne hid _ _)

/-- A penalty or a probe that keeps a key out. -/
theorem out_health {db db' : CooldownDb} {txn : ℕ} {a : CooldownAct} {pool pool' : KeyPool}
    (hpool : pool.health = db) (hpool' : pool'.health = db') (hkeep : KeepsOut id pool (.health txn a))
    (h : db.step a = some db') : Out id pool pool' := by
  subst hpool hpool'
  by_cases hshort : pool.health.NotShorter a
  · refine ⟨fun _ => ((CooldownDb.extends_step_iff h).mpr hshort).key id, fun halive => ?_⟩
    cases a with
    | penalize p =>
      simp only [CooldownDb.step] at h
      cases hscope : p.scope with
      | some model =>
        rw [hscope] at h
        simp only [markModelCooldown] at h
        split_ifs at h
        rw [← Option.some.inj h] at halive
        exact halive
      | none =>
        rw [hscope] at h
        rw [← Option.some.inj h, markCooldown, alive_updateKey] at halive
        split_ifs at halive
        · exact halive
        · exact halive
    | died id' reason =>
      rw [← Option.some.inj h, markDead, alive_updateKey] at halive
      split_ifs at halive
      · cases hk : pool.health.keys id with
        | none => rw [hk] at halive; cases halive
        | some k => rw [hk] at halive; cases halive
      · exact halive
    | probe id' verdict hint now nextMonth =>
      by_cases hrevive : verdict = .alive ∨ verdict = .cooldown
      · by_cases hid : id' = id
        · exact hkeep hid hrevive
        · rw [← Option.some.inj h, alive_updateKey, if_neg (Ne.symm hid)] at halive
          exact halive
      · rw [← Option.some.inj h, alive_updateKey] at halive
        split_ifs at halive
        · cases verdict with
          | skip => exact halive
          | alive => exact absurd (.inl rfl) hrevive
          | cooldown => exact absurd (.inr rfl) hrevive
          | dead =>
            cases hk : pool.health.keys id with
            | none => rw [hk] at halive; cases halive
            | some k => rw [hk] at halive; cases halive
        · exact halive
  · -- a shorter park is one of another key
    cases a with
    | died | probe => exact absurd trivial hshort
    | penalize p =>
      simp only [CooldownDb.NotShorter, Classical.not_imp] at hshort
      obtain ⟨hscope, hlong⟩ := hshort
      have hid : id ≠ p.apiKeyId := by
        rintro rfl
        exact hlong (hkeep hscope rfl)
      simp only [CooldownDb.step, hscope] at h
      have hself : pool'.health = markCooldown p.apiKeyId p.until p.reason pool.health :=
        (Option.some.inj h).symm
      refine ⟨fun _ => ?_, fun halive => ?_⟩
      · rw [hself, markCooldown, keyUntil_updateKey_of_ne _ hid]
        exact .refl _
      · rw [hself, markCooldown, alive_updateKey, if_neg hid] at halive
        exact halive

/-- **One statement that keeps a key out.** -/
theorem out_step {a : Act} (hkeep : KeepsOut id s a) (h : s.step today a = some u) : Out id s u := by
  cases a with
  | pick txn draw f st =>
    simp only [step] at h
    split at h
    · exact Option.some.inj h ▸ .refl id s
    · split_ifs at h
      exact .of_health (congrArg KeyPool.health (Option.some.inj h).symm) rfl
  | health txn a =>
    simp only [step] at h
    split_ifs at h
    obtain ⟨db, hdb, rfl⟩ := Option.map_eq_some_iff.mp h
    exact out_health rfl rfl hkeep hdb
  | book txn id' cost recovers =>
    simp only [step] at h
    split_ifs at h with hfree hrec
    · obtain rfl := Option.some.inj h
      have hid : id ≠ id' := by
        rintro rfl
        exact absurd (hkeep rfl) (by simp [hrec])
      refine ⟨fun _ => ?_, fun halive => ?_⟩
      · simp only [keyUntil_updateKey_of_ne _ hid]
        exact .refl _
      · simp only [alive_updateKey, if_neg hid] at halive
        exact halive
    · exact .of_health (congrArg KeyPool.health (Option.some.inj h).symm) rfl
  | edit txn e =>
    simp only [step] at h
    split_ifs at h
    obtain ⟨pool', hpool', rfl⟩ := Option.map_eq_some_iff.mp h
    have hout := out_edited hkeep hpool'
    exact ⟨hout.parked, hout.dead⟩
  | finish txn => exact .of_health (congrArg KeyPool.health (Option.some.inj h).symm) rfl
  | tick now =>
    simp only [step] at h
    split_ifs at h
    exact .of_health (congrArg KeyPool.health (Option.some.inj h).symm) rfl

theorem out_run {as : List Act} (h : Steps (step today) (KeepsOut id) s as u) : Out id s u := by
  induction h with
  | nil => exact .refl id _
  | snoc _ hkeep hstep ih =>
    have hlast := out_step hkeep hstep
    exact ⟨fun halive => (ih.parked (hlast.dead halive)).trans (hlast.parked halive),
      fun halive => ih.dead (hlast.dead halive)⟩

/-- **A parked or dead key stays out of rotation.**  In any run of picks, penalties, probes, bookings, edits,
creations and deletions of keys from a state `s`, whatever their order and whoever waits, a key that a pick
returns was alive in `s` and its park in `s` is over, unless some statement of the run has ended that park
sooner or has brought the key back. -/
theorem out_of_rotation {as : List Act} (h : Steps (step today) (KeepsOut id) s as u) {txn : ℕ} {draw : ℕ → ℕ}
    {f : PickFilter} {st : PickStmt} {k : PoolKey} (hpick : u.exec today txn draw f st = some k)
    (hid : k.id = id) : s.health.alive id = true ∧ ∀ t ∈ s.health.keyUntil id, t < u.now := by
  have husable : u.usable today f k = true := by
    cases st with
    | exact only => exact (named_some hpick).2.2
    | sticky aff => exact (named_some hpick).2.2
    | ordered saturated timedOut aff => exact (ordered_some hpick).2.1
  obtain ⟨halive, hpast⟩ := usable_health husable
  rw [hid] at halive hpast
  have hout := out_run h
  refine ⟨hout.dead halive, fun t ht => ?_⟩
  obtain ⟨t', ht', hle⟩ := hout.parked halive t ht
  exact hle.trans_lt (hpast t' ht')

theorem out_of_rotation_parked : (twoKeys 0).health.alive 2 = true ∧
    ∀ t ∈ (twoKeys 0).health.keyUntil 2, t < seconds 601 := by
  have hrun : ∃ u, Steps (step anyDay) (KeepsOut 2) (twoKeys 0)
        [.health 7 (.died 1 "HTTP 401"), .tick (seconds 601)] u ∧
      u.now = seconds 601 ∧ u.exec anyDay 8 (fun _ => 0) chatPick (.exact 2) = some shared :=
    ⟨_, ((Steps.nil _).snoc trivial rfl).snoc trivial rfl, rfl, rfl⟩
  obtain ⟨u, hsteps, hnow, hpick⟩ := hrun
  exact hnow ▸ out_of_rotation hsteps hpick rfl

end KeyPool

end Broker.Routing
