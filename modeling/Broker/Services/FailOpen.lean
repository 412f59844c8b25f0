import Broker.Services.ChatWalk

/-!
# Broker.Services.FailOpen — which stored payloads break a request

The shared store is meant to fail open: whatever stands under its keys, the readers return, and so do
`pick_and_reserve` and the passes of `run_chat`'s walk.  `FailsOpen` says this of one store, `Harmless`
names the payloads for which it holds.
-/

namespace Broker.Services

open Broker.Db Broker.Lib Broker.Lib.PyConv Broker.Routing

/-- What `run_chat` passes to `_with_affinity`, beside the steps. -/
structure Family where
  project : ℤ
  workflow : Option String := none
  capability : String
  pinned : Option String := none
  paidOnly : Bool := false

/-- What the registry serves: the providers of the chains and the models of each, by names the database
holds. -/
structure LaneTable where
  providers : List String
  models : String → List String
  providers_text : ∀ p ∈ providers, IsText p
  models_fit : ∀ p, ∀ m ∈ models p, FitsModelColumn m

/-- The request looks its models up in the registry. -/
def LaneTable.Serves (reg : LaneTable) (chat : ChatEnv) : Prop :=
  ∀ p, ∀ m ∈ chat.modelPool p none, m ∈ reg.models p

/-- A step as the chains and pins give it. -/
structure LaneTable.HasStep (reg : LaneTable) (st : Step) : Prop where
  provider : st.provider ∈ reg.providers
  model : ∀ m, st.model = some m → m ∈ reg.models st.provider
  keyId : st.keyId = none

/-- The write of a usage row, as far as its model goes: the driver refuses exactly the texts the column does
not take. -/
structure UsageTable where
  insert : String → Except PyError Unit
  insert_isOk : ∀ m, (insert m).isOk = true ↔ FitsModelColumn m

section Store

variable (I : Interp) (digest : String → String) (store : Store) (reg : LaneTable)

def Family.key (fam : Family) : String := routeKey digest fam.project fam.workflow fam.capability fam.pinned

/-- `_with_affinity` with the read of its target. -/
def withAffinityShared (clk : Clock) (L : Local) (paid : List String) (steps : List Step) (fam : Family) :
    Except PyError (List Step) × Local :=
  match steps with
  | [] => (.ok [], L)
  | steps =>
    match lookupRoute I store clk L (fam.key digest) with
    | (.error e, L) => (.error e, L)
    | (.ok target, L) => (.ok (withAffinity paid steps target fam.paidOnly), L)

/-- The key a step asks `pick_and_reserve` for. -/
def Step.only (st : Step) : Option ℤ := if st.isLeg then st.keyId else none

/-- A pass of the walk as far as the stored payloads reach: the pick, and the usage row that the attempt on a
picked key ends with, under the model it used. -/
def walkPass (db : KeyDb) (log : UsageTable) (env : PickEnv) (L : Local) (f : PickFilter)
    (project only : Option ℤ) (model : Option String) : Except PyError Unit :=
  (pickAndReserve I db env store L f project only).1.bind fun key =>
    match key, model with
    | some _, some m => log.insert m
    | _, _ => .ok ()

/-- **Fail-open**: every reader returns whatever the in-process state, and from a state whose ids are ids
of keys so do `pick_and_reserve` and each pass of `run_chat`'s walk, whichever model of its pool it uses. -/
structure FailsOpen : Prop where
  getJson : ∀ key, (getJson I (store key)).isOk = true
  getAffinity : ∀ project provider, (getAffinity I store project provider).isOk = true
  getSaturated : (getSaturated I store).isOk = true
  affinityForShared : ∀ clk L project provider, (affinityForShared I store clk L project provider).1.isOk = true
  lookupRoute : ∀ clk L (fam : Family), (lookupRoute I store clk L (fam.key digest)).1.isOk = true
  pickAndReserve : ∀ db env L (f : PickFilter) project only, L.Real → f.Bindable →
    (∀ n, only = some n → IsBigint n) →
      (pickAndReserve I db env store L f project only).1.isOk = true ∧
        (pickAndReserve I db env store L f project only).2.Real
  runChat : ∀ (chat : ChatEnv) clk L paid steps (fam : Family), reg.Serves chat → L.Real →
    (∀ st ∈ steps, reg.HasStep st) →
      (withAffinityShared I digest store clk L paid steps fam).2.Real ∧
        ∃ walk, (withAffinityShared I digest store clk L paid steps fam).1 = .ok walk ∧
          ∀ db log env L' f, ∀ st ∈ walk, L'.Real → f.provider = st.provider → IsText f.scope →
            f.models = chat.modelPool st.provider st.model → ∀ model, (∀ m, model = some m → m ∈ f.models) →
              (walkPass I store db log env L' f (some fam.project) st.only model).isOk = true

/-- **The harmless stores**: no text is nested past the stack, and under each key the document is one its
reader converts (or fails on with what it catches), to ids of the database's range. -/
structure Harmless : Prop where
  shallow : ∀ key, Reads I (fun _ => True) (store key)
  pin : ∀ project provider, Reads I IsPin (store (affKey project provider))
  pinned : ∀ project provider, IsText provider → Reads I PinHarmless (store (affKey project provider))
  verdict : Reads I VerdictHarmless (store satKey)
  route : ∀ fam : Family, Reads I (RouteHarmless I reg.providers) (store (fam.key digest))

end Store

variable {I : Interp} {digest : String → String} {store : Store} {reg : LaneTable}

/-! ### Harmless stores fail open -/

/-- The leg that `_with_affinity` puts in front goes to a provider of the walk. -/
theorem mem_withAffinity {paid : List String} {steps : List Step} {target : Option AffinityTarget}
    {paidOnly : Bool}
    {st : Step} (h : st ∈ withAffinity paid steps target paidOnly) :
    st ∈ steps ∨ ∃ t, target = some t ∧ st.keyId = some t.keyId ∧ st.model = some t.model ∧
      st.provider = t.provider ∧ ∃ s ∈ steps, s.provider = t.provider := by
  unfold withAffinity at h
  split at h
  · cases h
  · exact .inl h
  · rename_i head rest t
    by_cases hp : mayPromote paid t head.provider paidOnly = false
    · rw [if_pos hp] at h
      exact .inl h
    · rw [if_neg hp] at h
      split at h
      · exact .inl h
      · rename_i hany
        rcases List.mem_cons.mp h with rfl | h
        · obtain ⟨s, hs, hmatch⟩ := List.any_eq_true.mp (Bool.eq_true_of_not_eq_false hany)
          exact .inr ⟨t, rfl, rfl, rfl, rfl, s, hs, (of_decide_eq_true hmatch).1⟩
        · exact .inl h

/-- A route read from the store or the process, where it names one of the registry's providers. -/
def GoodTarget (reg : LaneTable) (t : AffinityTarget) : Prop :=
  t.provider ∈ reg.providers → IsBigint t.keyId ∧ FitsModelColumn t.model

theorem lookupRoute_spec {L : Local} (clk : Clock) (hL : L.Real) {key : String}
    (hroute : Reads I (RouteHarmless I reg.providers) (store key)) :
    ∃ target, (lookupRoute I store clk L key).1 = .ok target ∧ (∀ t, target = some t → GoodTarget reg t) ∧
      (lookupRoute I store clk L key).2.Real := by
  obtain ⟨hval, hdict⟩ := fresh_spec
    (P := fun t : AffinityTarget => IsBigint t.keyId ∧ FitsModelColumn t.model) hL.routes clk.ttl clk.now key
  have hok := (lookupRoute_isOk I store clk L key).mpr (hroute.mono fun v hv => hv.1)
  cases hr : (lookupRoute I store clk L key).1 with
  | error e => rw [hr] at hok; exact absurd hok (not_isOk_error e)
  | ok target =>
    refine ⟨target, rfl, ?_, ?_⟩
    · rintro t rfl hprov
      rcases lookupRoute_some hr with ⟨v, hv, ht⟩ | ht
      · obtain ⟨es, p, m, k, hes, hp, hm, hk, hp', hm', hn⟩ := sharedTarget_some ht
        exact (hroute.of_decodes hv).2 es p m k _ _ _ hes hp hm hk hp' hm' hn hprov
      · exact hval t ht
    · unfold lookupRoute
      split
      · exact hL
      · exact hL
      · exact ⟨hL.affinity, hdict, hL.saturated⟩

/-- A pool of models that fit is bound and booked. -/
theorem modelPool_fit {chat : ChatEnv} (hserves : reg.Serves chat) {provider : String}
    {pinned : Option String} (hpin : ∀ m, pinned = some m → FitsModelColumn m) :
    ∀ m ∈ chat.modelPool provider pinned, FitsModelColumn m := by
  intro m hm
  by_cases hp : pinned.getD "" ≠ ""
  · rw [ChatEnv.modelPool, if_pos hp] at hm
    exact hpin m (Option.mem_toList.mp hm)
  · refine reg.models_fit provider m (hserves provider m ?_)
    rw [ChatEnv.modelPool, if_neg hp] at hm
    rwa [ChatEnv.modelPool, if_neg (by simp)]

theorem walkPass_isOk {db : KeyDb} {log : UsageTable} {env : PickEnv} {L : Local} {f : PickFilter}
    {project only : Option ℤ} {model : Option String}
    (hpick : (pickAndReserve I db env store L f project only).1.isOk = true)
    (hmodel : ∀ m, model = some m → FitsModelColumn m) :
    (walkPass I store db log env L f project only model).isOk = true := by
  unfold walkPass
  cases hr : (pickAndReserve I db env store L f project only).1 with
  | error e => rw [hr] at hpick; exact absurd hpick (not_isOk_error e)
  | ok key =>
    cases key with
    | none => rfl
    | some n =>
      cases model with
      | none => rfl
      | some m => exact (log.insert_isOk m).mpr (hmodel m rfl)

theorem Harmless.runChat (h : Harmless I digest store reg) {chat : ChatEnv} (hserves : reg.Serves chat)
    (clk : Clock) {L : Local} (paid : List String)
    {steps : List Step} (fam : Family) (hL : L.Real) (hsteps : ∀ st ∈ steps, reg.HasStep st) :
    (withAffinityShared I digest store clk L paid steps fam).2.Real ∧
      ∃ walk, (withAffinityShared I digest store clk L paid steps fam).1 = .ok walk ∧
        ∀ db log env L' f, ∀ st ∈ walk, L'.Real → f.provider = st.provider → IsText f.scope →
          f.models = chat.modelPool st.provider st.model → ∀ model, (∀ m, model = some m → m ∈ f.models) →
            (walkPass I store db log env L' f (some fam.project) st.only model).isOk = true := by
  cases steps with
  | nil => exact ⟨hL, [], rfl, by simp⟩
  | cons head rest =>
    obtain ⟨target, ht, hgood, hL₁⟩ := lookupRoute_spec clk hL (h.route fam)
    unfold withAffinityShared
    cases hr : lookupRoute I store clk L (fam.key digest) with
    | mk r L₁ =>
      rw [hr] at ht hL₁
      obtain rfl : r = .ok target := ht
      refine ⟨hL₁, _, rfl, ?_⟩
      intro db log env L' f st hst hL' hf hscope hmodels model hmodel
      -- the leg has the target's key and model, and goes to a provider of the walk
      have hstep : st.provider ∈ reg.providers ∧ (∀ n, st.keyId = some n → IsBigint n) ∧
          ∀ m, st.model = some m → FitsModelColumn m := by
        rcases mem_withAffinity hst with hst | ⟨t, rfl, hkey, hm, hp, s, hs, hsp⟩
        · have hhas := hsteps st hst
          refine ⟨hhas.provider, fun n hn => ?_, fun m hm => reg.models_fit _ m (hhas.model m hm)⟩
          rw [hhas.keyId] at hn
          cases hn
        · have hprov : t.provider ∈ reg.providers := hsp ▸ (hsteps s hs).provider
          obtain ⟨hbig, hfit⟩ := hgood t rfl hprov
          refine ⟨hp ▸ hprov, fun n hn => ?_, fun m hm' => ?_⟩
          · rw [hkey, Option.some.injEq] at hn
            exact hn ▸ hbig
          · rw [hm, Option.some.injEq] at hm'
            exact hm' ▸ hfit
      obtain ⟨hprov, hkeyId, hpin⟩ := hstep
      have hfits : ∀ m ∈ f.models, FitsModelColumn m := hmodels ▸ modelPool_fit hserves hpin
      have hbind : f.Bindable := ⟨hf ▸ reg.providers_text _ hprov, hscope, fun m hm => (hfits m hm).1⟩
      refine walkPass_isOk (pickAndReserve_spec hL' hbind _ ?_ h.verdict fun pid _ => h.pinned pid _ hbind.1).1
        fun m hm => hfits m (hmodel m hm)
      intro n hn
      unfold Step.only at hn
      split_ifs at hn
      exact hkeyId n hn

theorem Harmless.failsOpen (h : Harmless I digest store reg) : FailsOpen I digest store reg where
  getJson key := (getJson_isOk I _).mpr (h.shallow key)
  getAffinity project provider := (getAffinity_isOk I store project provider).mpr (h.pin _ _)
  getSaturated := (getSaturated_isOk I store).mpr (h.verdict.mono fun _ hv => hv.1)
  affinityForShared clk L project provider :=
    (affinityForShared_isOk I store clk L project provider).mpr fun _ _ => h.pin _ _
  lookupRoute clk L fam := (lookupRoute_isOk I store clk L _).mpr ((h.route fam).mono fun _ hv => hv.1)
  pickAndReserve _ _ _ _ project _ hL hf honly :=
    pickAndReserve_spec hL hf project honly h.verdict fun _ _ => h.pinned _ _ hf.1
  runChat _ clk _ paid _ fam hserves hL hsteps := h.runChat hserves clk paid fam hL hsteps

/-! ### Any other payload breaks some request -/

/-- A database that gives key 1 to every pick it accepts. -/
def oneKey : KeyDb where
  exec f st := if f.Bindable ∧ ∀ n ∈ st.ids, IsBigint n then .ok (some 1) else .error .dataError
  exec_isOk _ _ := by
    split_ifs with h
    · exact iff_of_true (isOk_ok _) h
    · exact iff_of_false (not_isOk_error _) h
  overQuota := ∅
  overQuota_bigint := by simp

/-- A ledger that takes what fits. -/
def ledger : UsageTable where
  insert m := if FitsModelColumn m then .ok () else .error .dataError
  insert_isOk _ := by
    split_ifs with h
    · exact iff_of_true (isOk_ok _) h
    · exact iff_of_false (not_isOk_error _) h

/-- No storm, no sticky provider, no timeout. -/
def calm : PickEnv := ⟨fun _ _ => false, [], ∅, by simp, ⟨0, 0⟩⟩

theorem pickKey_calm_isOk {f : PickFilter} {only aff : Option ℤ} {saturated : Finset ℤ}
    (h : (pickKey oneKey calm f only aff saturated).isOk = true) :
    (∀ n, only = some n → IsBigint n) ∧
      (only = none → (∀ n, aff = some n → IsBigint n) ∧ ∀ n ∈ saturated, IsBigint n) := by
  cases only with
  | some m =>
    refine ⟨?_, by simp⟩
    rintro n hn
    obtain rfl : m = n := by simpa using hn
    exact ((oneKey.exec_isOk f (.exact m)).mp h).2 m (Finset.mem_singleton_self m)
  | none =>
    refine ⟨by simp, fun _ => ?_⟩
    have hids : ∀ n ∈ (PickStmt.ordered (orNoKey saturated) (orNoKey ∅) (aff.getD (-1))).ids, IsBigint n := by
      refine ((oneKey.exec_isOk f _).mp ?_).2
      cases aff with
      | none => exact h
      | some m => simpa [pickKey, calm] using h
    refine ⟨?_, fun n hn => ?_⟩
    · rintro n rfl
      exact hids n (Finset.mem_insert_self _ _)
    · exact hids n (Finset.mem_insert_of_mem (Finset.mem_union_left _ (mem_orNoKey hn)))

theorem pickKey_calm_ok {f : PickFilter} {only aff : Option ℤ} {saturated : Finset ℤ} {key : Option ℤ}
    (h : pickKey oneKey calm f only aff saturated = .ok key) : key = some 1 := by
  have hexec : ∀ st, oneKey.exec f st = .ok key → key = some 1 := by
    intro st hst
    dsimp only [oneKey] at hst
    split_ifs at hst
    exact (Except.ok.inj hst).symm
  cases only with
  | some m => exact hexec _ h
  | none =>
    cases aff with
    | none => exact hexec _ h
    | some n => exact hexec (.ordered (orNoKey saturated) (orNoKey ∅) n) (by simpa [pickKey, calm] using h)

theorem pickAndReserve_calm {L L₁ : Local} {f : PickFilter} {project only aff : Option ℤ}
    {saturated : Finset ℤ}
    (hsat : saturatedKeyIds I oneKey store 0 L = (.ok saturated, L₁))
    (haff : (affinityForShared I store ⟨0, 0⟩ L₁ project f.provider).1 = .ok aff) :
    (pickAndReserve I oneKey calm store L f project only).1 = pickKey oneKey calm f only aff saturated := by
  cases hr : affinityForShared I store ⟨0, 0⟩ L₁ project f.provider with
  | mk r L₂ =>
    obtain rfl : r = .ok aff := by simpa [hr] using haff
    have hkeep : aff.filter (fun _ => true) = aff := by cases aff <;> simp
    simp [pickAndReserve, calm, hsat, hr, hkeep]

/-- A verdict fetched just now. -/
def justFetched : Local := { fetchedAt := some 0 }

theorem justFetched_real : justFetched.Real :=
  ⟨by simp [justFetched], by simp [justFetched], by simp [justFetched]⟩

theorem saturatedKeyIds_justFetched : saturatedKeyIds I oneKey store 0 justFetched = (.ok ∅, justFetched) :=
  if_pos (by decide)

theorem isText_empty : IsText "" := by decide

theorem FailsOpen.pinned (h : FailsOpen I digest store reg) (project : ℤ) {provider : String}
    (htext : IsText provider) : Reads I PinHarmless (store (affKey project provider)) := by
  refine Reads.and ((getAffinity_isOk I store project provider).mp (h.getAffinity project provider)) ?_
  intro v hv n hn
  have haff :
      (Routing.affinityForShared I store ⟨0, 0⟩ justFetched (some project) provider).1 = .ok (some n) := by
    simp only [Routing.affinityForShared, getAffinity_of_decodes hv hn]
  have hok := (h.pickAndReserve oneKey calm justFetched { provider := provider, scope := "" } (some project)
    none justFetched_real ⟨htext, isText_empty, by simp⟩ (by simp)).1
  rw [pickAndReserve_calm saturatedKeyIds_justFetched haff] at hok
  exact ((pickKey_calm_isOk hok).2 rfl).1 n rfl

theorem FailsOpen.verdict (h : FailsOpen I digest store reg) : Reads I VerdictHarmless (store satKey) := by
  refine Reads.and ((getSaturated_isOk I store).mp h.getSaturated) ?_
  intro v hv xs hiter hlike x hx n hn
  obtain ⟨ns, hns, hmem⟩ := toInts_of_isIntLike hlike
  have hids : idsOf v = .ok ns.toFinset := by simp [idsOf, hiter, hns, Except.bind, Except.map]
  have hsat := getSaturated_of_decodes hv hids
  have hread : saturatedKeyIds I oneKey store 0 {} =
      (.ok ns.toFinset, { saturated := ns.toFinset, fetchedAt := some 0 }) := by
    simp [saturatedKeyIds, hsat]
  have hok :=
    (h.pickAndReserve oneKey calm {} { provider := "", scope := "" } none none Local.real_empty
      ⟨isText_empty, isText_empty, by simp⟩ (by simp)).1
  rw [pickAndReserve_calm hread rfl] at hok
  exact ((pickKey_calm_isOk hok).2 rfl).2 n (List.mem_toFinset.mpr (hmem x hx n hn))

/-- A walk of one step of the target's provider, on paid keys only, starts with the target's leg. -/
theorem withAffinity_single (paid : List String) (t : AffinityTarget) :
    ∃ leg, leg ∈ withAffinity paid [{ provider := t.provider }] (some t) true ∧ leg.provider = t.provider ∧
      leg.model = some t.model ∧ leg.keyId = some t.keyId := by
  have hleg : withAffinity paid [{ provider := t.provider }] (some t) true =
      { provider := t.provider, model := some t.model, tier := some .paid, keyId := some t.keyId } ::
        [{ provider := t.provider }] := by
    simp [withAffinity, mayPromote]
  exact ⟨_, hleg ▸ List.mem_cons_self, rfl, rfl, rfl⟩

/-- A request whose capability no provider has a model for. -/
def noModels : ChatEnv where
  capability := ""
  modelFor _ := none
  rotationFor _ := []
  transportTimeout _ := none

theorem noModels_pool (provider model : String) :
    noModels.modelPool provider (some model) = if model ≠ "" then [model] else [] := rfl

theorem FailsOpen.route (h : FailsOpen I digest store reg) (fam : Family) :
    Reads I (RouteHarmless I reg.providers) (store (fam.key digest)) := by
  have hread := (lookupRoute_isOk I store ⟨0, 0⟩ {} _).mp (h.lookupRoute ⟨0, 0⟩ {} fam)
  refine Reads.and hread ?_
  rintro v hv es p m k p' m' n rfl hp hm hk hp' hm' hn hprov
  have ht : sharedTarget I (.obj es) = .ok (some ⟨p', m', n⟩) := by
    simp [sharedTarget, hp, hm, hk, targetOf, hp', hm', hn, Except.bind, Except.map, orElse]
  have hlook : Routing.lookupRoute I store ⟨0, 0⟩ {} (fam.key digest) = (.ok (some ⟨p', m', n⟩), {}) := by
    simp only [Routing.lookupRoute, getJson_bind_of_decodes hv, ht]
  obtain ⟨-, walk, hwalk, hpasses⟩ :=
    h.runChat noModels ⟨0, 0⟩ {} [] [{ provider := p' }] { fam with paidOnly := true }
      (fun p m hm => by simp [noModels, ChatEnv.modelPool] at hm) Local.real_empty
      (fun st hst => by
        obtain rfl := List.mem_singleton.mp hst
        exact ⟨hprov, by simp, rfl⟩)
  have hkey : Family.key digest { fam with paidOnly := true } = fam.key digest := rfl
  simp only [withAffinityShared, hkey, hlook, Except.ok.injEq] at hwalk
  obtain ⟨leg, hleg, hlegProv, hlegModel, hlegKey⟩ := withAffinity_single [] ⟨p', m', n⟩
  rw [hwalk] at hleg
  set f : PickFilter :=
    { provider := leg.provider, scope := "", models := noModels.modelPool leg.provider leg.model } with hf
  have hpool : f.models = if m' ≠ "" then [m'] else [] := by rw [hf, hlegModel, noModels_pool]
  have haffOk := h.affinityForShared ⟨0, 0⟩ justFetched (some fam.project) leg.provider
  cases haff : (Routing.affinityForShared I store ⟨0, 0⟩ justFetched (some fam.project) leg.provider).1 with
  | error e => rw [haff] at haffOk; exact absurd haffOk (not_isOk_error e)
  | ok aff =>
    have hpick : (Routing.pickAndReserve I oneKey calm store justFetched f (some fam.project) leg.only).1 =
        pickKey oneKey calm f leg.only aff ∅ := pickAndReserve_calm saturatedKeyIds_justFetched haff
    have hpass := hpasses oneKey ledger calm justFetched f leg hleg justFetched_real rfl isText_empty rfl
    unfold walkPass at hpass
    rw [hpick] at hpass
    cases hkeyed : pickKey oneKey calm f leg.only aff ∅ with
    | error e => simpa [hkeyed, Except.bind, Except.isOk, Except.toBool] using hpass none (by simp)
    | ok key =>
      obtain rfl := pickKey_calm_ok hkeyed
      constructor
      · by_cases hzero : n = 0
        · rw [hzero]
          decide
        · have honly : leg.only = some n := by simp [Step.only, Step.isLeg, hlegKey, hzero]
          exact (pickKey_calm_isOk (hkeyed ▸ isOk_ok _)).1 n honly
      · by_cases hblank : m' = ""
        · rw [hblank]
          decide
        · -- the attempt on the key uses the leg's model, and books it
          have hbook := hpass (some m') (by simp [hpool, hblank])
          rw [hkeyed] at hbook
          exact (ledger.insert_isOk m').mp hbook

/-- **Exactly the harmless stores fail open.** -/
theorem failsOpen_iff_harmless (I : Interp) (digest : String → String) (store : Store) (reg : LaneTable) :
    FailsOpen I digest store reg ↔ Harmless I digest store reg := by
  constructor
  · intro h
    exact ⟨fun key => (getJson_isOk I _).mp (h.getJson key),
      fun project provider => (getAffinity_isOk I store project provider).mp (h.getAffinity project provider),
      fun project provider => h.pinned project, h.verdict, h.route⟩
  · exact Harmless.failsOpen

/-- An empty list under the pin of a project's provider, and nothing else. -/
def listAsPin : Store := fun key => if key = "aib:aff:1:deepseek" then .text "[]" else .miss

/-- A registry with one provider. -/
def deepseekOnly : LaneTable where
  providers := ["deepseek"]
  models _ := ["deepseek/deepseek-chat"]
  providers_text := by decide
  models_fit _ := by decide

theorem list_as_pin_raises :
    getAffinity ⟨1000, 1000, fun _ => ""⟩ listAsPin 1 "deepseek" = .error .typeError ∧
      ¬ FailsOpen ⟨1000, 1000, fun _ => ""⟩ id listAsPin deepseekOnly := by
  have hraise : getAffinity ⟨1000, 1000, fun _ => ""⟩ listAsPin 1 "deepseek" = .error .typeError := by rfl
  refine ⟨hraise, fun h => ?_⟩
  have hok := h.getAffinity 1 "deepseek"
  rw [hraise] at hok
  cases hok

end Broker.Services
