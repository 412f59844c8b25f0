import Broker.Routing.CostGuard
import Broker.Routing.SharedState

/-!
# Broker.Routing.Selector — the reads and statements of `pick_and_reserve`

A pick reads the saturation verdict and the affinity pin and binds what it read to its statements; the
driver refuses integers outside the database's `bigint` and texts with U+0000.  From a state whose in-process
ids are ids of keys, a pick over harmless payloads returns and leaves such a state (`pickAndReserve_spec`).
-/

namespace Broker.Routing

open Broker.Db Broker.Lib Broker.Lib.PyConv

variable (I : Interp)

/-! ### The pick -/

/-- An integer of the database's `bigint`. -/
def IsBigint (n : ℤ) : Prop := -2 ^ 63 ≤ n ∧ n < 2 ^ 63

instance : DecidablePred IsBigint := fun _ => inferInstanceAs (Decidable (_ ∧ _))

/-- A text the driver binds: PostgreSQL has no U+0000, and a lone surrogate, which reads as U+0000 here, has
no UTF-8. -/
def IsText (t : String) : Prop := '\x00' ∉ t.toList

instance : DecidablePred IsText := fun _ => inferInstanceAs (Decidable (¬ _))

/-- A text `usage_log.model` takes, a `VARCHAR(100)`: of a longer one only blanks may be cut off. -/
def FitsModelColumn (m : String) : Prop := IsText m ∧ ∀ c ∈ m.toList.drop 100, c = ' '

instance : DecidablePred FitsModelColumn := fun m =>
  -- by the list, not by running over every `Char`
  have : Decidable (∀ c ∈ m.toList.drop 100, c = ' ') := List.decidableBAll _ _
  inferInstanceAs (Decidable (IsText m ∧ _))

/-- What a pick filters the keys by. -/
structure PickFilter where
  provider : String
  scope : String
  requireTier : Option Tier := none
  models : List String := []

/-- The texts a pick binds: `:provider`, `:scope` and `:cd_models`. -/
def PickFilter.Bindable (f : PickFilter) : Prop :=
  IsText f.provider ∧ IsText f.scope ∧ ∀ m ∈ f.models, IsText m

instance : DecidablePred PickFilter.Bindable := fun _ => inferInstanceAs (Decidable (_ ∧ _ ∧ _))

/-- The three statements of `pick_and_reserve` with the ids they bind: the exact key, the pinned key, and the
ordered pick. -/
inductive PickStmt where
  | exact (only : ℤ)
  | sticky (aff : ℤ)
  | ordered (saturated timedOut : Finset ℤ) (aff : ℤ)

def PickStmt.ids : PickStmt → Finset ℤ
  | .exact only => {only}
  | .sticky aff => {aff}
  | .ordered saturated timedOut aff => insert aff (saturated ∪ timedOut)

/-- The database: a statement gives the id of a key or none, and is refused by the driver exactly when it
binds an integer outside `bigint` or a text with U+0000; ids of keys are in `bigint`. -/
structure KeyDb where
  exec : PickFilter → PickStmt → Except PyError (Option ℤ)
  exec_isOk : ∀ f st, (exec f st).isOk = true ↔ f.Bindable ∧ ∀ n ∈ st.ids, IsBigint n
  overQuota : Finset ℤ
  overQuota_bigint : ∀ n ∈ overQuota, IsBigint n

/-- What else `pick_and_reserve` reads: the circuit breaker, the cache-sticky providers, the keys that just
timed out. -/
structure PickEnv where
  inStorm : String → String → Bool
  cacheSticky : List String
  timedOut : Finset ℤ
  timedOut_bigint : ∀ n ∈ timedOut, IsBigint n
  clk : Clock

/-- `_SATURATION_TTL_S`. -/
def saturationTtl : Time := seconds 15

/-- `_saturated_key_ids`. -/
def saturatedKeyIds (db : KeyDb) (store : Store) (now : Time) (L : Local) :
    Except PyError (Finset ℤ) × Local :=
  if L.fetchedAt.any fun t => now - t < saturationTtl then (.ok L.saturated, L)
  else
    match getSaturated I store with
    | .error e => (.error e, L)
    | .ok shared =>
      let ids := shared.getD db.overQuota
      (.ok ids, { L with saturated := ids, fetchedAt := some now })

/-- `list(ids) or [-1]`. -/
def orNoKey (ids : Finset ℤ) : Finset ℤ := if ids = ∅ then {-1} else ids

/-- The statements of a pick, once its reads are done. -/
def pickKey (db : KeyDb) (env : PickEnv) (f : PickFilter) (only aff : Option ℤ) (saturated : Finset ℤ) :
    Except PyError (Option ℤ) :=
  let ordered := db.exec f (.ordered (orNoKey saturated) (orNoKey env.timedOut) (aff.getD (-1)))
  match only, aff with
  | some only, _ => db.exec f (.exact only)
  | none, some aff =>
    if f.provider ∈ env.cacheSticky ∧ f.requireTier ≠ some .free then
      match db.exec f (.sticky aff) with
      | .ok none => ordered
      | r => r
    else ordered
  | none, none => ordered

/-- `pick_and_reserve`; the id of the key stands for its row. -/
def pickAndReserve (db : KeyDb) (env : PickEnv) (store : Store) (L : Local) (f : PickFilter)
    (project : Option ℤ)
    (only : Option ℤ) : Except PyError (Option ℤ) × Local :=
  if f.requireTier ≠ some .paid ∧ env.inStorm f.provider f.scope then (.ok none, L)
  else
    match saturatedKeyIds I db store env.clk.now L with
    | (.error e, L) => (.error e, L)
    | (.ok saturated, L) =>
      match affinityForShared I store env.clk L project f.provider with
      | (.error e, L) => (.error e, L)
      | (.ok aff, L) => (pickKey db env f only (aff.filter fun n => n ∉ env.timedOut) saturated, L)

/-! ### Payloads that do no harm -/

/-- A pin the database can be asked for. -/
def PinHarmless (v : Val PyFloat) : Prop := IsPin v ∧ ∀ n, toInt v = .ok n → IsBigint n

/-- A verdict whose ids, when all convert, are ids the database can be asked for. -/
def VerdictHarmless (v : Val PyFloat) : Prop :=
  IsVerdict v ∧ ∀ xs, iter v = .ok xs → (∀ x ∈ xs, IsIntLike x = true) →
    ∀ x ∈ xs, ∀ n, toInt x = .ok n → IsBigint n

/-- A route that, where it names one of the providers, has a key the database can be asked for and a model
it can be asked for and can book. -/
def RouteHarmless (I : Interp) (providers : List String) (v : Val PyFloat) : Prop :=
  IsRoute I v ∧ ∀ es p m k p' m' n, v = .obj es → OrderedDict.get es "p" = some p →
    OrderedDict.get es "m" = some m → OrderedDict.get es "k" = some k →
    toStr I p = .ok p' → toStr I m = .ok m' → toInt k = .ok n → p' ∈ providers →
      IsBigint n ∧ FitsModelColumn m'

theorem VerdictHarmless.bigint {v : Val PyFloat} (h : VerdictHarmless v) {ids : Finset ℤ}
    (hids : idsOf v = .ok ids) :
    ∀ n ∈ ids, IsBigint n := by
  obtain ⟨xs, ns, hiter, hns, rfl⟩ := idsOf_ok hids
  intro n hn
  obtain ⟨x, hx, hxn⟩ := toInts_ok hns n (List.mem_toFinset.mp hn)
  exact h.2 xs hiter (isIntLike_of_toInts hns) x hx n hxn

/-! ### A pick over harmless payloads -/

/-- The in-process ids are ids of keys, and the models of the routes were booked. -/
structure Local.Real (L : Local) : Prop where
  affinity : ∀ e ∈ L.affinity, IsBigint e.2.1
  routes : ∀ e ∈ L.routes, IsBigint e.2.1.keyId ∧ FitsModelColumn e.2.1.model
  saturated : ∀ n ∈ L.saturated, IsBigint n

theorem Local.real_empty : ({} : Local).Real := ⟨by simp, by simp, by simp⟩

/-- `fresh` returns an entry of the dictionary and only drops entries. -/
theorem fresh_spec {κ α : Type} [DecidableEq κ] {P : α → Prop} {d : List (κ × (α × Time))}
    (hd : ∀ e ∈ d, P e.2.1) (ttl now : Time) (k : κ) :
    (∀ v, (fresh ttl now d k).1 = some v → P v) ∧ ∀ e ∈ (fresh ttl now d k).2, P e.2.1 := by
  unfold fresh
  cases h : OrderedDict.get d k with
  | none => exact ⟨by simp, hd⟩
  | some e =>
    obtain ⟨v, notedAt⟩ := e
    simp only
    split_ifs
    · exact ⟨by simp, fun e he => hd e (OrderedDict.mem_pop.mp he).1⟩
    · refine ⟨?_, hd⟩
      rintro v' hv'
      obtain rfl : v = v' := by simpa using hv'
      exact hd _ (OrderedDict.mem_of_get h)

theorem isBigint_neg_one : IsBigint (-1) := by decide

theorem orNoKey_bigint {ids : Finset ℤ} (h : ∀ n ∈ ids, IsBigint n) : ∀ n ∈ orNoKey ids, IsBigint n := by
  unfold orNoKey
  split_ifs
  · intro n hn
    rw [Finset.mem_singleton.mp hn]
    exact isBigint_neg_one
  · exact h

theorem mem_orNoKey {ids : Finset ℤ} {n : ℤ} (h : n ∈ ids) : n ∈ orNoKey ids := by
  unfold orNoKey
  rw [if_neg (Finset.ne_empty_of_mem h)]
  exact h

theorem ordered_isOk {db : KeyDb} {f : PickFilter} (hf : f.Bindable) {saturated timedOut : Finset ℤ}
    {aff : ℤ}
    (hs : ∀ n ∈ saturated, IsBigint n) (ht : ∀ n ∈ timedOut, IsBigint n) (ha : IsBigint aff) :
    (db.exec f (.ordered (orNoKey saturated) (orNoKey timedOut) aff)).isOk = true := by
  rw [db.exec_isOk]
  refine ⟨hf, fun n hn => ?_⟩
  rcases Finset.mem_insert.mp hn with rfl | hn
  · exact ha
  · rcases Finset.mem_union.mp hn with hn | hn
    · exact orNoKey_bigint hs n hn
    · exact orNoKey_bigint ht n hn

theorem pickKey_isOk {db : KeyDb} {env : PickEnv} {f : PickFilter} (hf : f.Bindable) {only aff : Option ℤ}
    {saturated : Finset ℤ}
    (ho : ∀ n, only = some n → IsBigint n) (ha : ∀ n, aff = some n → IsBigint n)
    (hs : ∀ n ∈ saturated, IsBigint n) : (pickKey db env f only aff saturated).isOk = true := by
  have hsingle : ∀ n, IsBigint n → ∀ m ∈ ({n} : Finset ℤ), IsBigint m := by
    intro n hn m hm
    rwa [Finset.mem_singleton.mp hm]
  have hord : (db.exec f (.ordered (orNoKey saturated) (orNoKey env.timedOut) (aff.getD (-1)))).isOk = true := by
    refine ordered_isOk hf hs env.timedOut_bigint ?_
    cases aff with
    | none => exact isBigint_neg_one
    | some n => exact ha n rfl
  unfold pickKey
  cases only with
  | some n => exact (db.exec_isOk f (.exact n)).mpr ⟨hf, hsingle n (ho n rfl)⟩
  | none =>
    cases aff with
    | none => exact hord
    | some n =>
      simp only
      split_ifs
      · have hsticky := (db.exec_isOk f (.sticky n)).mpr ⟨hf, hsingle n (ha n rfl)⟩
        -- a pinned key that is unavailable falls through to the ordered pick
        split
        · exact hord
        · exact hsticky
      · exact hord

variable {I}

theorem saturatedKeyIds_spec (db : KeyDb) {store : Store} {L : Local} (now : Time) (hL : L.Real)
    (hsat : Reads I VerdictHarmless (store satKey)) :
    ∃ ids, (saturatedKeyIds I db store now L).1 = .ok ids ∧ (∀ n ∈ ids, IsBigint n) ∧
      (saturatedKeyIds I db store now L).2.Real := by
  unfold saturatedKeyIds
  split_ifs with hfresh
  · exact ⟨L.saturated, rfl, hL.saturated, hL⟩
  · have hok := (getSaturated_isOk I store).mpr (hsat.mono fun v hv => hv.1)
    cases hr : getSaturated I store with
    | error e => rw [hr] at hok; exact absurd hok (not_isOk_error e)
    | ok shared =>
      have hids : ∀ n ∈ shared.getD db.overQuota, IsBigint n := by
        cases shared with
        | none => exact db.overQuota_bigint
        | some ids =>
          obtain ⟨v, hv, hids⟩ := getSaturated_some hr
          exact (hsat.of_decodes hv).bigint hids
      exact ⟨_, rfl, hids, ⟨hL.affinity, hL.routes, hids⟩⟩

theorem affinityForShared_spec {store : Store} {L : Local} (clk : Clock) (hL : L.Real) (project : Option ℤ)
    (provider : String)
    (hpin : ∀ pid, project = some pid → Reads I PinHarmless (store (affKey pid provider))) :
    ∃ aff, (affinityForShared I store clk L project provider).1 = .ok aff ∧ (∀ n, aff = some n → IsBigint n) ∧
      (affinityForShared I store clk L project provider).2.Real := by
  unfold affinityForShared
  cases project with
  | none => exact ⟨none, rfl, by simp, hL⟩
  | some pid =>
    have hp := hpin pid rfl
    have hok := (getAffinity_isOk I store pid provider).mpr (hp.mono fun v hv => hv.1)
    cases hr : getAffinity I store pid provider with
    | error e => rw [hr] at hok; exact absurd hok (not_isOk_error e)
    | ok pin =>
      simp only [hr]
      cases pin with
      | some n =>
        obtain ⟨v, hv, hn⟩ := getAffinity_some hr
        refine ⟨some n, rfl, fun m hm => ?_, hL⟩
        obtain rfl : n = m := by simpa using hm
        exact (hp.of_decodes hv).2 n hn
      | none =>
        obtain ⟨hval, hdict⟩ := fresh_spec hL.affinity clk.ttl clk.now (pid, provider)
        exact ⟨_, rfl, hval, ⟨hdict, hL.routes, hL.saturated⟩⟩

/-- **A pick over harmless payloads returns**, and its in-process ids stay ids of keys. -/
theorem pickAndReserve_spec {db : KeyDb} {env : PickEnv} {store : Store} {L : Local} (hL : L.Real)
    {f : PickFilter} (hf : f.Bindable) (project : Option ℤ) {only : Option ℤ}
    (honly : ∀ n, only = some n → IsBigint n)
    (hsat : Reads I VerdictHarmless (store satKey))
    (hpin : ∀ pid, project = some pid → Reads I PinHarmless (store (affKey pid f.provider))) :
    (pickAndReserve I db env store L f project only).1.isOk = true ∧
      (pickAndReserve I db env store L f project only).2.Real := by
  unfold pickAndReserve
  split_ifs
  · exact ⟨isOk_ok _, hL⟩
  · obtain ⟨ids, hids, hbig, hL₁⟩ := saturatedKeyIds_spec db env.clk.now hL hsat
    cases hr : saturatedKeyIds I db store env.clk.now L with
    | mk r L₁ =>
      rw [hr] at hids hL₁
      obtain rfl : r = .ok ids := hids
      obtain ⟨aff, haff, habig, hL₂⟩ := affinityForShared_spec env.clk hL₁ project f.provider hpin
      simp only at hL₁ haff hL₂ ⊢
      cases hr₂ : affinityForShared I store env.clk L₁ project f.provider with
      | mk r₂ L₂ =>
        rw [hr₂] at haff hL₂
        obtain rfl : r₂ = .ok aff := haff
        refine ⟨pickKey_isOk hf honly (fun n hn => ?_) hbig, hL₂⟩
        exact habig n (Option.filter_eq_some_iff.mp hn).1

end Broker.Routing
