import Broker.Agent.Access
import Broker.Providers.Subscriptions

/-!
# Broker.Agent.Policy — who may start an agent run

`project_allowed` (`agent/constants.py`) and `policy_violation` (`agent/policy.py`) combine two settings read
from free text, the dashboard's snapshot and the catalog.  `FailClosed` says what they promise for one pair of
settings and one snapshot; `AccessReads` names the settings and snapshots for which they keep it.
-/

namespace Broker.Agent

open Broker.Lib Broker.Lib.PyConv Broker.Providers Broker.Routing

/-- `AGENT_ALLOWED_PROJECT_IDS` and `AGENT_PROJECT_POLICY`. -/
structure AgentEnv where
  allowedProjectIds : String
  projectPolicy : String

/-! ### The allowed projects -/

/-- One token of the list: digits go through `int`, anything else is passed over. -/
def addProjectId (out : Finset ℤ) (part : List Char) : Except PyError (Finset ℤ) :=
  if allDigits (strip part) then
    match intOfText (String.ofList (strip part)) with
    | some n => .ok (insert n out)
    | none => .error .valueError
  else .ok out

/-- `allowed_project_ids`. -/
def allowedProjectIds (raw : String) : Except PyError (Finset ℤ) :=
  (raw.toList.splitOn ',').foldlM addProjectId ∅

def projectAllowed (env : AgentEnv) (snapshot : Snapshot) (projectId : ℤ) : Except PyError Bool :=
  if snapshotLoaded snapshot then
    match accessFor snapshot projectId with
    | none => (allowedProjectIds env.allowedProjectIds).map fun ids => decide (projectId ∈ ids)
    | some access =>
      if access.accountOnly then .ok access.enabled
      else (allowedProjectIds env.allowedProjectIds).map fun ids => decide (projectId ∈ ids) || access.enabled
  else .ok false

/-! ### The policy of a project -/

structure ProjectPolicy where
  models : Finset String
  accounts : Finset String
  accountOrder : List String := []
  accountOnly : Bool := false

namespace ProjectPolicy

def orderedAccounts (p : ProjectPolicy) (capability : Option String) : List String :=
  let ordered := if p.accountOrder = [] then p.accounts.sort else p.accountOrder
  if p.accountOnly then accountIds ordered capability else ordered

def allowsModel (p : ProjectPolicy) : Option String → Bool
  | none => false
  | some model => !p.accountOnly && model ∈ p.models

/-- A capability that names a provider. -/
def isCapability : Option String → Bool
  | none => false
  | some c => providers.any fun e => e.2 = c

/-- The model is a candidate of the capability's provider. -/
def isCandidate (specs : List ModelSpec) (model : String) (capability : Option String) : Bool :=
  specs.any fun spec => OrderedDict.get providers spec.provider = capability && spec.bareId = model

def allowsCandidate (I : Interp) (cat : CatalogSettings) (p : ProjectPolicy)
    (model capability : Option String) : Except PyError Bool :=
  match model with
  | none => .ok false
  | some model =>
    if "*" ∈ p.models ∧ isCapability capability = true then
      (subscriptionModels I cat).map fun specs => isCandidate specs model capability
    else .ok false

def allowsAccount (p : ProjectPolicy) (accountId : String) : Bool := accountId ∈ p.accounts

/-- `account_allowed` of `policy_violation`. -/
def accountAllowed (p : ProjectPolicy) (accountId : String) (capability : Option String) : Bool :=
  if p.accountOnly then accountId ∈ p.orderedAccounts capability else p.allowsAccount accountId

end ProjectPolicy

def textOf : Val PyFloat → Except PyError String
  | .str s => .ok s
  | _ => .error .valueError

/-- A list of texts, or a `ValueError`. -/
def textList : Val PyFloat → Except PyError (List String)
  | .arr xs => do
    let values ← xs.mapM textOf
    .ok (cleanTexts values)
  | _ => .error .valueError

/-- `entry.get(name, [])`. -/
def listField (entry : Doc) (name : String) : Val PyFloat := (OrderedDict.get entry name).getD (.arr [])

/-- One entry of the setting. -/
def parseEntry (e : String × Val PyFloat) : Except PyError (ℤ × ProjectPolicy) :=
  match e.2 with
  | .obj entry =>
    if allDigits e.1.toList then do
      let models ← textList (listField entry "models")
      let accounts ← textList (listField entry "accounts")
      match intOfText e.1 with
      | some n => .ok (n, { models := models.toFinset, accounts := accounts.toFinset, accountOrder := accounts })
      | none => .error .valueError
    else .error .valueError
  | _ => .error .valueError

section Settings

variable (I : Interp)

/-- The body of `_parse`'s `try`. -/
def readPolicy (raw : String) : Except PyError (Option (List (ℤ × ProjectPolicy))) := do
  match ← loads I raw with
  | .obj data =>
    let entries ← data.mapM parseEntry
    .ok (some (entries.foldl (fun out e => OrderedDict.setItem out e.1 e.2) []))
  | _ => .error .valueError

/-- `_parse`. -/
def parsePolicy (raw : String) : Except PyError (Option (List (ℤ × ProjectPolicy))) :=
  if strip raw.toList = [] then .ok (some []) else Checked.catching (· = .valueError) none (readPolicy I raw)

/-- `env_policy_for`. -/
def envPolicyFor (env : AgentEnv) (projectId : ℤ) : Except PyError (Option ProjectPolicy) :=
  (parsePolicy I env.projectPolicy).map fun entries => OrderedDict.get (entries.getD []) projectId

/-- A policy with models and accounts. -/
def ProjectPolicy.usable (p : ProjectPolicy) : Prop := p.models.Nonempty ∧ p.accounts.Nonempty

instance (p : ProjectPolicy) : Decidable p.usable := inferInstanceAs (Decidable (_ ∧ _))

/-- The policy of account-only access. -/
def AgentAccess.accountPolicy (a : AgentAccess) : ProjectPolicy where
  models := {"*"}
  accounts := a.accounts.toFinset
  accountOrder := a.accounts
  accountOnly := true

/-- The policy ticked on the dashboard. -/
def AgentAccess.policy (a : AgentAccess) : ProjectPolicy where
  models := a.models.toFinset
  accounts := a.accounts.toFinset
  accountOrder := a.accounts

/-- The environment's policy, where it is usable. -/
def envPolicy (env : AgentEnv) (projectId : ℤ) : Except PyError (Option ProjectPolicy) :=
  (envPolicyFor I env projectId).map fun p => p.filter fun p => p.usable

def policyFor (env : AgentEnv) (snapshot : Snapshot) (projectId : ℤ) :
    Except PyError (Option ProjectPolicy) :=
  if snapshotLoaded snapshot then
    match accessFor snapshot projectId with
    | none => envPolicy I env projectId
    | some access =>
      if access.accountOnly then .ok (some access.accountPolicy)
      else if access.hasPolicy then .ok (some access.policy)
      else envPolicy I env projectId
  else .ok none

/-- `allowed` of `policy_violation`. -/
def allowedModel (cat : CatalogSettings) (p : ProjectPolicy) (model capability : Option String) :
    Except PyError Bool :=
  if p.allowsModel model then .ok true else p.allowsCandidate I cat model capability

/-- The rest of `policy_violation`, for a policy. -/
def violationUnder (cat : CatalogSettings) (p : ProjectPolicy) (model : Option String) (accountId : String)
    (capability : Option String) : Except PyError (Option String) := do
  let allowed ← allowedModel I cat p model capability
  if allowed = false then .ok (some "model_not_allowed")
  else if p.accountAllowed accountId capability then .ok none
  else .ok (some "account_not_allowed")

def policyViolation (cat : CatalogSettings) (env : AgentEnv) (snapshot : Snapshot) (projectId : ℤ)
    (model : Option String) (accountId : String) (capability : Option String) :
      Except PyError (Option String) := do
  match ← policyFor I env snapshot projectId with
  | none => .ok (some "agent_policy_missing")
  | some p => violationUnder I cat p model accountId capability

end Settings

/-! ### What the setting grants -/

variable {I : Interp} {cat : CatalogSettings} {env : AgentEnv} {snapshot : Snapshot}

def IsTextList : Val PyFloat → Prop
  | .arr xs => ∀ v ∈ xs, ∃ s, v = .str s
  | _ => False

/-- The list under `name` holds `s`, with blanks around it at most. -/
def Lists (entry : Doc) (name s : String) : Prop :=
  ∃ xs t, listField entry name = .arr xs ∧ .str t ∈ xs ∧ String.ofList (strip t.toList) = s ∧ s ≠ ""

/-- A policy setting that is what it should be: an object of entries under project ids, with two lists of
texts. -/
structure WellFormed (I : Interp) (raw : String) (data : Doc) : Prop where
  decodes : JsonLoad.loads I.room raw = .ok (.obj data)
  entries : ∀ e ∈ data, ∃ entry, e.2 = .obj entry ∧ allDigits e.1.toList = true ∧
    (intOfText e.1).isSome = true ∧
    IsTextList (listField entry "models") ∧ IsTextList (listField entry "accounts")

/-- The setting is well formed and has an entry for the project that lists the account. -/
def EnvEntry (I : Interp) (raw : String) (projectId : ℤ) (accountId : String) (entry : Doc) : Prop :=
  ∃ data key, WellFormed I raw data ∧ (key, .obj entry) ∈ data ∧ intOfText key = some projectId ∧
    Lists entry "accounts" accountId

/-- The catalog has the model for the capability's provider. -/
def InCatalog (I : Interp) (cat : CatalogSettings) (provider model : String) : Prop :=
  ∃ specs, subscriptionModels I cat = .ok specs ∧
    ∃ spec ∈ specs, spec.provider = provider ∧ spec.id = provider ++ "/" ++ model

theorem textOf_ok {v : Val PyFloat} {s : String} (h : textOf v = .ok s) : v = .str s := by
  cases v with
  | str t => rw [Except.ok.inj h]
  | _ => cases h

theorem textList_ok {v : Val PyFloat} {texts : List String} (h : textList v = .ok texts) :
    IsTextList v ∧ ∀ s ∈ texts, ∃ xs t, v = .arr xs ∧ .str t ∈ xs ∧ String.ofList (strip t.toList) = s ∧
      s ≠ "" := by
  cases v with
  | arr xs =>
    obtain ⟨values, hvalues, h⟩ := Checked.bind_ok.mp h
    obtain rfl := Except.ok.inj h
    refine ⟨fun x hx => ?_, fun s hs => ?_⟩
    · obtain ⟨t, -, ht⟩ := Checked.ok_of_mapM hvalues hx
      exact ⟨t, textOf_ok ht⟩
    · obtain ⟨⟨t, ht, hts⟩, hne⟩ := mem_cleanTexts.mp hs
      obtain ⟨x, hx, hxt⟩ := Checked.mem_of_mapM hvalues ht
      obtain rfl := textOf_ok hxt
      exact ⟨xs, t, rfl, hx, hts, hne⟩
  | _ => cases h

theorem textList_error {v : Val PyFloat} {e : PyError} (h : textList v = .error e) : e = .valueError := by
  cases v with
  | arr xs =>
    rcases Checked.bind_error.mp h with h | ⟨values, -, h⟩
    · obtain ⟨x, -, hx⟩ := Checked.mapM_error h
      cases x with
      | str s => cases hx
      | _ => exact (Except.error.inj hx).symm
    · cases h
  | _ => exact (Except.error.inj h).symm

/-- **One entry**: its key is digits that `int` reads, and its policy lists what its two lists do. -/
theorem parseEntry_ok {e : String × Val PyFloat} {r : ℤ × ProjectPolicy} (h : parseEntry e = .ok r) :
    ∃ entry, e.2 = .obj entry ∧ allDigits e.1.toList = true ∧ intOfText e.1 = some r.1 ∧
      IsTextList (listField entry "models") ∧ IsTextList (listField entry "accounts") ∧
        r.2.accountOnly = false ∧
      (∀ s ∈ r.2.models, Lists entry "models" s) ∧ ∀ s ∈ r.2.accounts, Lists entry "accounts" s := by
  obtain ⟨key, v⟩ := e
  unfold parseEntry at h
  cases v with
  | obj entry =>
    dsimp only at h
    split_ifs at h with hdig
    obtain ⟨models, hmodels, h⟩ := Checked.bind_ok.mp h
    obtain ⟨accounts, haccounts, h⟩ := Checked.bind_ok.mp h
    obtain ⟨hm, hlm⟩ := textList_ok hmodels
    obtain ⟨ha, hla⟩ := textList_ok haccounts
    split at h
    · rename_i n hn
      obtain rfl := Except.ok.inj h
      refine ⟨entry, rfl, hdig, hn, hm, ha, rfl, fun s hs => ?_, fun s hs => ?_⟩
      · exact hlm s (List.mem_toFinset.mp hs)
      · exact hla s (List.mem_toFinset.mp hs)
    · cases h
  | _ => cases h

theorem parseEntry_error {e : String × Val PyFloat} {x : PyError} (h : parseEntry e = .error x) :
    x = .valueError := by
  obtain ⟨key, v⟩ := e
  unfold parseEntry at h
  cases v with
  | obj entry =>
    dsimp only at h
    split_ifs at h with hdig
    · rcases Checked.bind_error.mp h with h | ⟨models, -, h⟩
      · exact textList_error h
      · rcases Checked.bind_error.mp h with h | ⟨accounts, -, h⟩
        · exact textList_error h
        · split at h
          · cases h
          · exact (Except.error.inj h).symm
    · exact (Except.error.inj h).symm
  | _ => exact (Except.error.inj h).symm

/-- **A setting that parses** is well formed, and each policy of it is that of an entry. -/
theorem parsePolicy_ok {raw : String} {d : List (ℤ × ProjectPolicy)} (h : parsePolicy I raw = .ok (some d))
    {projectId : ℤ} {p : ProjectPolicy} (hp : OrderedDict.get d projectId = some p) :
    ∃ data key entry, WellFormed I raw data ∧ (key, .obj entry) ∈ data ∧ intOfText key = some projectId ∧
      p.accountOnly = false ∧ (∀ s ∈ p.models, Lists entry "models" s) ∧
      ∀ s ∈ p.accounts, Lists entry "accounts" s := by
  unfold parsePolicy at h
  split_ifs at h with hblank
  · obtain rfl := Option.some.inj (Except.ok.inj h)
    cases hp
  · rcases Checked.catching_ok h with h | ⟨h, -⟩
    · obtain ⟨v, hv, h⟩ := Checked.bind_ok.mp h
      cases v with
      | obj data =>
        obtain ⟨entries, hentries, h⟩ := Checked.bind_ok.mp h
        obtain rfl := Option.some.inj (Except.ok.inj h)
        have hwf : WellFormed I raw data := by
          refine ⟨?_, fun e he => ?_⟩
          · unfold loads at hv
            cases hl : JsonLoad.loads I.room raw with
            | error e =>
              rw [hl] at hv
              cases hv
            | ok w =>
              rw [hl] at hv
              rw [Except.ok.inj hv]
          · obtain ⟨r, -, hr⟩ := Checked.ok_of_mapM hentries he
            obtain ⟨entry, he2, hdig, hint, hm, ha, -⟩ := parseEntry_ok hr
            exact ⟨entry, he2, hdig, by rw [hint]; rfl, hm, ha⟩
        rcases OrderedDict.mem_foldl_setItem (OrderedDict.mem_of_get hp) with hmem | hmem
        · cases hmem
        · obtain ⟨⟨key, v⟩, he, hr⟩ := Checked.mem_of_mapM hentries hmem
          obtain ⟨entry, rfl, -, hint, -, -, honly, hm, ha⟩ := parseEntry_ok hr
          exact ⟨data, key, entry, hwf, he, hint, honly, hm, ha⟩
      | _ => cases h
    · cases h

theorem readPolicy_error {raw : String} {e : PyError} (h : readPolicy I raw = .error e) :
    e = .valueError ∨ (e = .recursionError ∧ JsonLoad.loads I.room raw = .error .recursion) := by
  rcases Checked.bind_error.mp h with h | ⟨v, -, h⟩
  · unfold loads at h
    cases hl : JsonLoad.loads I.room raw with
    | ok w =>
      rw [hl] at h
      cases h
    | error x =>
      rw [hl] at h
      obtain rfl := Except.error.inj h
      cases x with
      | recursion => exact .inr ⟨rfl, rfl⟩
      | decode | fuel => exact .inl rfl
  · cases v with
    | obj data =>
      rcases Checked.bind_error.mp h with h | ⟨entries, -, h⟩
      · obtain ⟨x, -, hx⟩ := Checked.mapM_error h
        exact .inl (parseEntry_error hx)
      · cases h
    | _ => exact .inl (Except.error.inj h).symm

/-- The policy setting is not nested past the interpreter's stack. -/
def PolicyReads (I : Interp) (raw : String) : Prop :=
  strip raw.toList ≠ [] → JsonLoad.loads I.room raw ≠ .error .recursion

theorem isOk_iff {ε α : Type} {r : Except ε α} : r.isOk = true ↔ ∃ a, r = .ok a := by
  cases r <;> simp [Except.isOk, Except.toBool]

theorem isOk_map {ε α β : Type} (f : α → β) (r : Except ε α) : (r.map f).isOk = r.isOk := by
  cases r <;> rfl

/-- **`_parse` returns** unless the setting is nested too deep. -/
theorem parsePolicy_isOk (raw : String) : (parsePolicy I raw).isOk = true ↔ PolicyReads I raw := by
  unfold parsePolicy PolicyReads
  split_ifs with hblank
  · exact ⟨fun _ h => absurd hblank h, fun _ => rfl⟩
  · constructor
    · intro hok _ hrec
      have hread : readPolicy I raw = .error .recursionError := by
        unfold readPolicy loads
        rw [hrec]
        rfl
      rw [hread] at hok
      cases hok
    · intro hrec
      cases hr : Checked.catching (· = .valueError) none (readPolicy I raw) with
      | ok r => rfl
      | error e =>
        obtain ⟨he, hne⟩ := Checked.catching_error.mp hr
        rcases readPolicy_error he with rfl | ⟨-, h⟩
        · cases hne
        · exact absurd h (hrec hblank)

/-- `int` reads every token of digits. -/
def TokensRead (raw : String) : Prop :=
  ∀ part ∈ raw.toList.splitOn ',', allDigits (strip part) = true →
    (∀ c ∈ strip part, (decimalValue c).isSome = true) ∧ (strip part).length ≤ JsonLoad.maxIntDigits

theorem allowedProjectIds_isOk (raw : String) : (allowedProjectIds raw).isOk = true ↔ TokensRead raw := by
  refine Checked.foldlM_isOk (fun out part => ?_) _ _
  unfold addProjectId
  split_ifs with hdig
  · have hint := intOfText_isSome_of_allDigits hdig
    cases hn : intOfText (String.ofList (strip part)) with
    | none =>
      rw [hn] at hint
      exact ⟨nofun, fun h => absurd (hint.mpr (h hdig)) (by simp)⟩
    | some n =>
      rw [hn] at hint
      exact ⟨fun _ _ => hint.mp rfl, fun _ => rfl⟩
  · exact ⟨fun _ h => absurd h hdig, fun _ => rfl⟩

/-! ### The policy in force -/

/-- A project that is left to the environment: no account-only mode and no complete policy on the
dashboard. -/
def EnvOnly (snapshot : Snapshot) (projectId : ℤ) : Prop :=
  ∀ access, accessFor snapshot projectId = some access → access.accountOnly = false ∧ access.hasPolicy = false

theorem policyFor_unloaded (h : snapshotLoaded snapshot = false) (projectId : ℤ) :
    policyFor I env snapshot projectId = .ok none := by
  simp [policyFor, h]

theorem policyFor_accountOnly {projectId : ℤ} {access : AgentAccess}
    (h : accessFor snapshot projectId = some access) (ha : access.accountOnly = true) :
      policyFor I env snapshot projectId = .ok (some access.accountPolicy) := by
  simp [policyFor, loaded_of_accessFor h, h, ha]

theorem policyFor_dashboard {projectId : ℤ} {access : AgentAccess}
    (h : accessFor snapshot projectId = some access)
    (ha : access.accountOnly = false) (hp : access.hasPolicy = true) :
    policyFor I env snapshot projectId = .ok (some access.policy) := by
  simp [policyFor, loaded_of_accessFor h, h, ha, hp]

theorem policyFor_env (hl : snapshotLoaded snapshot = true) {projectId : ℤ} (h : EnvOnly snapshot projectId) :
    policyFor I env snapshot projectId = envPolicy I env projectId := by
  unfold policyFor
  rw [if_pos hl]
  cases ha : accessFor snapshot projectId with
  | none => rfl
  | some access =>
    obtain ⟨h1, h2⟩ := h access ha
    simp [h1, h2]

/-- The three kinds of project of a loaded snapshot. -/
theorem project_cases (snapshot : Snapshot) (projectId : ℤ) :
    (∃ access, accessFor snapshot projectId = some access ∧ access.accountOnly = true) ∨
    (∃ access, accessFor snapshot projectId = some access ∧ access.accountOnly = false ∧ access.hasPolicy = true) ∨
    EnvOnly snapshot projectId := by
  cases ha : accessFor snapshot projectId with
  | none => exact .inr (.inr fun access h => by rw [ha] at h; cases h)
  | some access =>
    by_cases h1 : access.accountOnly = true
    · exact .inl ⟨access, rfl, h1⟩
    · by_cases h2 : access.hasPolicy = true
      · exact .inr (.inl ⟨access, rfl, by simpa using h1, h2⟩)
      · refine .inr (.inr fun a h => ?_)
        obtain rfl := Option.some.inj (ha.symm.trans h)
        exact ⟨by simpa using h1, by simpa using h2⟩

theorem envPolicy_ok {projectId : ℤ} {p : ProjectPolicy} (h : envPolicy I env projectId = .ok (some p)) :
    ∃ d, parsePolicy I env.projectPolicy = .ok (some d) ∧ OrderedDict.get d projectId = some p ∧
      p.usable := by
  unfold envPolicy envPolicyFor at h
  cases hr : parsePolicy I env.projectPolicy with
  | error e =>
    rw [hr] at h
    cases h
  | ok r =>
    rw [hr] at h
    obtain ⟨hget, husable⟩ := Option.filter_eq_some_iff.mp (Except.ok.inj h)
    cases r with
    | none => cases hget
    | some d => exact ⟨d, rfl, hget, by simpa using husable⟩

/-! ### The verdict under a policy -/

/-- The model is in the catalog of the capability's own provider. -/
def Candidate (I : Interp) (cat : CatalogSettings) (capability : Option String)
    (provider model : String) : Prop :=
  OrderedDict.get capabilityProvider (capability.getD "") = some provider ∧ InCatalog I cat provider model

theorem candidate_of_isCandidate {specs : List ModelSpec} (hs : subscriptionModels I cat = .ok specs)
    {model : String} {capability : Option String}
    (h : ProjectPolicy.isCandidate specs model capability = true) :
    ∃ provider, Candidate I cat capability provider model := by
  obtain ⟨spec, hspec, hc⟩ := List.any_eq_true.mp h
  obtain ⟨hcap, rfl⟩ : OrderedDict.get providers spec.provider = capability ∧
    spec.bareId = model := by simpa using hc
  obtain ⟨hp, hid⟩ := mem_subscriptionModels hs hspec
  refine ⟨spec.provider, ?_, specs, hs, spec, hspec, rfl, hid⟩
  rw [← hcap]
  rcases hp with hp | hp <;> rw [hp] <;> rfl

/-- **What an admitted call has passed**: a model the policy lists or a candidate under its wildcard, and an
account of the policy. -/
theorem violationUnder_none {p : ProjectPolicy} {model : Option String} {accountId : String}
    {capability : Option String} (h : violationUnder I cat p model accountId capability = .ok none) :
    ∃ m, model = some m ∧
      ((p.accountOnly = false ∧ m ∈ p.models) ∨
        ("*" ∈ p.models ∧ ∃ provider, Candidate I cat capability provider m)) ∧
      (p.accountOnly = true → accountId ∈ p.orderedAccounts capability) ∧
      (p.accountOnly = false → accountId ∈ p.accounts) := by
  obtain ⟨allowed, hallowed, h⟩ := Checked.bind_ok.mp h
  split_ifs at h with hno hacc
  · cases h
  · have hmodel : ∃ m, model = some m ∧ ((p.accountOnly = false ∧ m ∈ p.models) ∨
        ("*" ∈ p.models ∧ ∃ provider, Candidate I cat capability provider m)) := by
      cases model with
      | none =>
        obtain rfl := Except.ok.inj hallowed
        exact absurd rfl hno
      | some m =>
        refine ⟨m, rfl, ?_⟩
        by_cases hlisted : p.allowsModel (some m) = true
        · exact .inl (by simpa [ProjectPolicy.allowsModel] using hlisted)
        · simp only [allowedModel, if_neg hlisted, ProjectPolicy.allowsCandidate] at hallowed
          split_ifs at hallowed with hstar
          · cases hs : subscriptionModels I cat with
            | error e =>
              rw [hs] at hallowed
              cases hallowed
            | ok specs =>
              rw [hs] at hallowed
              have hcand : ProjectPolicy.isCandidate specs m capability = allowed := Except.ok.inj hallowed
              exact .inr ⟨hstar.1, candidate_of_isCandidate hs (hcand.trans (by simpa using hno))⟩
          · obtain rfl := Except.ok.inj hallowed
            exact absurd rfl hno
    obtain ⟨m, hm, hwhy⟩ := hmodel
    refine ⟨m, hm, hwhy, fun ho => ?_, fun ho => ?_⟩
    · simpa [ProjectPolicy.accountAllowed, ho] using hacc
    · simpa [ProjectPolicy.accountAllowed, ho, ProjectPolicy.allowsAccount] using hacc
  · cases h

theorem violationUnder_isOk {p : ProjectPolicy} (h : (subscriptionModels I cat).isOk = true ∨ "*" ∉ p.models)
    (model : Option String) (accountId : String) (capability : Option String) :
    (violationUnder I cat p model accountId capability).isOk = true := by
  have hallowed : ∃ allowed, allowedModel I cat p model capability = .ok allowed := by
    unfold allowedModel
    split_ifs with hlisted
    · exact ⟨true, rfl⟩
    · cases model with
      | none => exact ⟨false, rfl⟩
      | some m =>
        simp only [ProjectPolicy.allowsCandidate]
        split_ifs with hstar
        · rcases h with h | h
          · obtain ⟨specs, hs⟩ := isOk_iff.mp h
            rw [hs]
            exact ⟨_, rfl⟩
          · exact absurd hstar.1 h
        · exact ⟨false, rfl⟩
  obtain ⟨allowed, hallowed⟩ := hallowed
  unfold violationUnder
  rw [hallowed]
  show (if allowed = false then _ else _ : Except PyError (Option String)).isOk = true
  split_ifs <;> rfl

/-- Where the catalog cannot be read, a wildcard makes some call raise. -/
theorem violationUnder_raises {p : ProjectPolicy} (h : (subscriptionModels I cat).isOk = false)
    (hp : "*" ∈ p.models) (accountId : String) :
    ∃ model, (violationUnder I cat p (some model) accountId (some "agent:claude")).isOk = false := by
  obtain ⟨m, hm⟩ := Infinite.exists_notMem_finset p.models
  refine ⟨m, ?_⟩
  have hlisted : p.allowsModel (some m) = false := by simp [ProjectPolicy.allowsModel, hm]
  have hcap : ProjectPolicy.isCapability (some "agent:claude") = true := by decide
  cases hs : subscriptionModels I cat with
  | ok specs =>
    rw [hs] at h
    cases h
  | error e =>
    have hallowed : allowedModel I cat p (some m) (some "agent:claude") = .error e := by
      simp [allowedModel, hlisted, ProjectPolicy.allowsCandidate, hp, hcap, hs, Except.map]
    unfold violationUnder
    rw [hallowed]
    rfl

/-! ### The promise -/

/-- **Fail-closed and isolated**: both checks return and refuse before the snapshot is loaded; an
account-only project and one with a policy on the dashboard do not depend on the settings, and an
account-only one is admitted only with an account ticked for the capability's provider and a model of its
catalog; any other project is admitted only by its own entry of a well-formed setting. -/
structure FailClosed (I : Interp) (cat : CatalogSettings) (env : AgentEnv) (snapshot : Snapshot) : Prop where
  allowed_returns : ∀ projectId, (projectAllowed env snapshot projectId).isOk = true
  violation_returns : ∀ projectId model accountId capability,
    (policyViolation I cat env snapshot projectId model accountId capability).isOk = true
  unloaded : snapshotLoaded snapshot = false →
    ∀ projectId, projectAllowed env snapshot projectId = .ok false ∧
    ∀ model accountId capability,
      policyViolation I cat env snapshot projectId model accountId capability = .ok (some "agent_policy_missing")
  account_only_isolated : ∀ projectId access, accessFor snapshot projectId = some access →
    access.accountOnly = true →
    ∀ env', projectAllowed env' snapshot projectId = projectAllowed env snapshot projectId ∧
      ∀ model accountId capability, policyViolation I cat env' snapshot projectId model accountId capability =
        policyViolation I cat env snapshot projectId model accountId capability
  account_only_admits : ∀ projectId access, accessFor snapshot projectId = some access →
    access.accountOnly = true →
    ∀ model accountId capability,
      policyViolation I cat env snapshot projectId model accountId capability = .ok none →
      ∃ provider m, model = some m ∧ Candidate I cat capability provider m ∧
        provider ++ "/" ++ accountId ∈ access.accounts
  dashboard_isolated : ∀ projectId access, accessFor snapshot projectId = some access →
    access.hasPolicy = true →
    ∀ raw model accountId capability,
      policyViolation I cat { env with projectPolicy := raw } snapshot projectId model accountId capability =
        policyViolation I cat env snapshot projectId model accountId capability
  env_admits : ∀ projectId, EnvOnly snapshot projectId → ∀ model accountId capability,
    policyViolation I cat env snapshot projectId model accountId capability = .ok none →
      ∃ entry m, EnvEntry I env.projectPolicy projectId accountId entry ∧ model = some m ∧
        (Lists entry "models" m ∨ (Lists entry "models" "*" ∧ ∃ provider, Candidate I cat capability provider m))
  malformed_admits_none : (¬∃ data, WellFormed I env.projectPolicy data) →
    ∀ projectId, EnvOnly snapshot projectId →
    ∀ model accountId capability,
      policyViolation I cat env snapshot projectId model accountId capability ≠ .ok none

/-- No policy in force names the wildcard: no project is in account-only mode, no complete policy of the
dashboard lists it, and no usable entry of the setting does for a project that is left to the setting. -/
structure NoWildcard (I : Interp) (env : AgentEnv) (snapshot : Snapshot) : Prop where
  dashboard : ∀ projectId access, accessFor snapshot projectId = some access →
    access.accountOnly = false ∧ (access.hasPolicy = true → "*" ∉ access.models)
  setting : ∀ d, parsePolicy I env.projectPolicy = .ok (some d) → ∀ projectId p,
    OrderedDict.get d projectId = some p → EnvOnly snapshot projectId → p.usable → "*" ∉ p.models

/-- **The settings the checks can read.** -/
def AccessReads (I : Interp) (cat : CatalogSettings) (env : AgentEnv) (snapshot : Snapshot) : Prop :=
  snapshotLoaded snapshot = true → TokensRead env.allowedProjectIds ∧ PolicyReads I env.projectPolicy ∧
    ((subscriptionModels I cat).isOk = true ∨ NoWildcard I env snapshot)

theorem policyFor_noWildcard (h : NoWildcard I env snapshot) (hl : snapshotLoaded snapshot = true)
    {projectId : ℤ}
    {p : ProjectPolicy} (hp : policyFor I env snapshot projectId = .ok (some p)) : "*" ∉ p.models := by
  rcases project_cases snapshot projectId with ⟨access, ha, ho⟩ | ⟨access, ha, ho, hpol⟩ | henv
  · rw [(h.dashboard projectId access ha).1] at ho
    cases ho
  · rw [policyFor_dashboard ha ho hpol] at hp
    obtain rfl := Option.some.inj (Except.ok.inj hp)
    simpa [AgentAccess.policy] using (h.dashboard projectId access ha).2 hpol
  · rw [policyFor_env hl henv] at hp
    obtain ⟨d, hd, hget, husable⟩ := envPolicy_ok hp
    exact h.setting d hd projectId p hget henv husable

theorem noWildcard_of_policyFor (hl : snapshotLoaded snapshot = true)
    (h : ∀ projectId p, policyFor I env snapshot projectId = .ok (some p) → "*" ∉ p.models) :
    NoWildcard I env snapshot := by
  refine ⟨fun projectId access ha => ?_, fun d hd projectId p hget henv husable => ?_⟩
  · have ho : access.accountOnly = false := by
      by_contra ho
      exact h projectId _ (policyFor_accountOnly ha (by simpa using ho)) (by simp [AgentAccess.accountPolicy])
    refine ⟨ho, fun hpol => ?_⟩
    simpa [AgentAccess.policy] using h projectId _ (policyFor_dashboard ha ho hpol)
  · refine h projectId p ?_
    rw [policyFor_env hl henv]
    simp [envPolicy, envPolicyFor, hd, Except.map, hget, husable]

theorem policyFor_isOk (hr : PolicyReads I env.projectPolicy) (projectId : ℤ) :
    (policyFor I env snapshot projectId).isOk = true := by
  have henv : (envPolicy I env projectId).isOk = true := by
    rw [envPolicy, envPolicyFor, isOk_map, isOk_map]
    exact (parsePolicy_isOk _).mpr hr
  unfold policyFor
  split
  · split
    · exact henv
    · split_ifs
      · rfl
      · rfl
      · exact henv
  · rfl

theorem projectAllowed_isOk (h : snapshotLoaded snapshot = true → TokensRead env.allowedProjectIds)
    (projectId : ℤ) : (projectAllowed env snapshot projectId).isOk = true := by
  unfold projectAllowed
  split_ifs with hl
  · have hids := (allowedProjectIds_isOk env.allowedProjectIds).mpr (h hl)
    split
    · rw [isOk_map]
      exact hids
    · split_ifs
      · rfl
      · rw [isOk_map]
        exact hids
  · rfl

theorem policyViolation_isOk (h : AccessReads I cat env snapshot) (projectId : ℤ) (model : Option String)
    (accountId : String) (capability : Option String) :
    (policyViolation I cat env snapshot projectId model accountId capability).isOk = true := by
  unfold policyViolation
  by_cases hl : snapshotLoaded snapshot = true
  · obtain ⟨-, hpol, hcat⟩ := h hl
    have hok : (policyFor I env snapshot projectId).isOk = true := policyFor_isOk hpol projectId
    obtain ⟨p, hp⟩ := isOk_iff.mp hok
    rw [hp]
    cases p with
    | none => rfl
    | some p =>
      refine violationUnder_isOk (hcat.imp_right fun hw => ?_) model accountId capability
      exact policyFor_noWildcard hw hl hp
  · rw [policyFor_unloaded (by simpa using hl)]
    rfl

theorem policyViolation_none {projectId : ℤ} {model : Option String} {accountId : String}
    {capability : Option String}
    (h : policyViolation I cat env snapshot projectId model accountId capability = .ok none) :
    ∃ p, policyFor I env snapshot projectId = .ok (some p) ∧
      violationUnder I cat p model accountId capability = .ok none := by
  obtain ⟨p, hp, h⟩ := Checked.bind_ok.mp h
  cases p with
  | none => cases h
  | some p => exact ⟨p, hp, h⟩

/-- **An account-only project** is admitted by its ticked accounts and the catalog alone. -/
theorem admits_account_only {projectId : ℤ} {access : AgentAccess}
    (ha : accessFor snapshot projectId = some access)
    (ho : access.accountOnly = true) {model : Option String} {accountId : String} {capability : Option String}
    (h : policyViolation I cat env snapshot projectId model accountId capability = .ok none) :
    ∃ provider m, model = some m ∧ Candidate I cat capability provider m ∧
      provider ++ "/" ++ accountId ∈ access.accounts := by
  obtain ⟨p, hp, h⟩ := policyViolation_none h
  rw [policyFor_accountOnly ha ho] at hp
  obtain rfl := Option.some.inj (Except.ok.inj hp)
  obtain ⟨m, rfl, hmodel, hacc, -⟩ := violationUnder_none h
  rcases hmodel with ⟨ho', -⟩ | ⟨-, provider, hcap, hcat⟩
  · cases ho'
  · have hmem := hacc rfl
    simp only [ProjectPolicy.orderedAccounts, AgentAccess.accountPolicy] at hmem
    have hids : accountId ∈ accountIds access.accounts capability := by
      by_cases hnil : access.accounts = []
      · simpa [hnil] using hmem
      · simpa [hnil] using hmem
    obtain ⟨provider', hcap', hv⟩ := mem_accountIds hids
    obtain rfl := Option.some.inj (hcap.symm.trans hcap')
    exact ⟨provider, m, rfl, ⟨hcap, hcat⟩, hv⟩

/-- **A project left to the setting** is admitted by its own entry. -/
theorem admits_env {projectId : ℤ} (henv : EnvOnly snapshot projectId) {model : Option String}
    {accountId : String} {capability : Option String}
    (h : policyViolation I cat env snapshot projectId model accountId capability = .ok none) :
    ∃ entry m, EnvEntry I env.projectPolicy projectId accountId entry ∧ model = some m ∧
      (Lists entry "models" m ∨ (Lists entry "models" "*" ∧ ∃ provider, Candidate I cat capability provider m)) := by
  obtain ⟨p, hp, h⟩ := policyViolation_none h
  have hl : snapshotLoaded snapshot = true := by
    by_contra hl
    rw [policyFor_unloaded (by simpa using hl)] at hp
    cases hp
  rw [policyFor_env hl henv] at hp
  obtain ⟨d, hd, hget, -⟩ := envPolicy_ok hp
  obtain ⟨data, key, entry, hwf, hmem, hkey, ho, hmodels, haccounts⟩ := parsePolicy_ok hd hget
  obtain ⟨m, rfl, hmodel, -, hacc⟩ := violationUnder_none h
  refine ⟨entry, m, ⟨data, key, hwf, hmem, hkey, haccounts accountId (hacc ho)⟩, rfl, ?_⟩
  exact hmodel.imp (fun hm => hmodels m hm.2) fun hm => ⟨hmodels "*" hm.1, hm.2⟩

/-- **Agent access fails closed exactly where its settings can be read**: with a snapshot loaded, `int` reads
every token of digits among the allowed projects, the policy is not nested past the interpreter's stack, and
neither is the catalog, unless no policy in force asks for it. -/
theorem access_fail_closed_iff (I : Interp) (cat : CatalogSettings) (env : AgentEnv) (snapshot : Snapshot) :
    FailClosed I cat env snapshot ↔ AccessReads I cat env snapshot := by
  constructor
  · intro h hl
    -- a project the snapshot does not know makes both checks read the settings
    obtain ⟨projectId, hnone⟩ := exists_untouched snapshot
    have henv : EnvOnly snapshot projectId := fun access ha => by rw [hnone] at ha; cases ha
    have htokens : TokensRead env.allowedProjectIds := by
      have hret := h.allowed_returns projectId
      rw [projectAllowed, if_pos hl, hnone, isOk_map] at hret
      exact (allowedProjectIds_isOk _).mp hret
    have hpolicy : PolicyReads I env.projectPolicy := by
      obtain ⟨v, hv⟩ := isOk_iff.mp (h.violation_returns projectId none "" none)
      obtain ⟨p, hp, -⟩ := Checked.bind_ok.mp hv
      rw [policyFor_env hl henv] at hp
      have hok : (envPolicy I env projectId).isOk = true := by rw [hp]; rfl
      rw [envPolicy, envPolicyFor, isOk_map, isOk_map] at hok
      exact (parsePolicy_isOk _).mp hok
    refine ⟨htokens, hpolicy, ?_⟩
    by_cases hcat : (subscriptionModels I cat).isOk = true
    · exact .inl hcat
    · refine .inr (noWildcard_of_policyFor hl fun projectId p hp hstar => ?_)
      obtain ⟨model, hraise⟩ := violationUnder_raises (by simpa using hcat) hstar ""
      have hret := h.violation_returns projectId (some model) "" (some "agent:claude")
      have heq : policyViolation I cat env snapshot projectId (some model) "" (some "agent:claude") =
          violationUnder I cat p (some model) "" (some "agent:claude") := by
        unfold policyViolation
        rw [hp]
        rfl
      rw [heq, hraise] at hret
      cases hret
  · intro h
    refine ⟨projectAllowed_isOk fun hl => (h hl).1, policyViolation_isOk h, fun hl projectId => ?_,
      fun projectId access ha ho env' => ?_, fun projectId access ha ho model accountId capability => ?_,
      fun projectId access ha hp raw model accountId capability => ?_,
      fun projectId henv model accountId capability => ?_,
      fun hwf projectId henv model accountId capability hadm => ?_⟩
    · refine ⟨by simp [projectAllowed, hl], fun model accountId capability => ?_⟩
      unfold policyViolation
      rw [policyFor_unloaded hl]
      rfl
    · refine ⟨by simp [projectAllowed, ha, ho], fun model accountId capability => ?_⟩
      unfold policyViolation
      rw [policyFor_accountOnly ha ho, policyFor_accountOnly ha ho]
    · exact admits_account_only ha ho
    · unfold policyViolation
      by_cases ho : access.accountOnly = true
      · rw [policyFor_accountOnly ha ho, policyFor_accountOnly ha ho]
      · rw [policyFor_dashboard ha (by simpa using ho) hp, policyFor_dashboard ha (by simpa using ho) hp]
    · exact admits_env henv
    · obtain ⟨entry, m, ⟨data, key, hwf', -⟩, -⟩ := admits_env henv hadm
      exact hwf ⟨data, hwf'⟩

/-- A superscript two among the allowed projects: the check of every project raises. -/
def superscriptEnv : AgentEnv where
  allowedProjectIds := "11,²"
  projectPolicy := ""

theorem superscript_token_raises :
    projectAllowed superscriptEnv (some []) 11 = .error .valueError ∧
      ¬ ∀ I cat env snapshot, FailClosed I cat env snapshot := by
  have hraise : projectAllowed superscriptEnv (some []) 11 = .error .valueError := by decide +kernel
  refine ⟨hraise, fun h => ?_⟩
  have hret := (h ⟨0, 0, fun _ => ""⟩ .default superscriptEnv (some [])).allowed_returns 11
  rw [hraise] at hret
  cases hret

end Broker.Agent
