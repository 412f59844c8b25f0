import Mathlib.Data.Finset.Sort
import Broker.Lib.OrderedDict
import Broker.Lib.Trans
import Broker.Lib.PyVal

/-!
# Broker.Agent.Access — the dashboard's snapshot of agent access

`agent/project_access.py` and `agent/account_choices.py`: each process keeps the projects' dashboard access in
memory, `None` until the first refresh that succeeds, and replaces it as a whole.  A project whose models are
the one marker `@accounts-v1` is in account-only mode, where the accounts are named with their provider.
-/

namespace Broker.Agent

open Broker.Lib Broker.Lib.PyConv

/-! ### Accounts -/

/-- `ACCOUNT_ONLY`. -/
def accountOnlyMarker : String := "@accounts-v1"

structure AccountChoice where
  provider : String
  accountId : String
  deriving DecidableEq, Repr

def AccountChoice.value (c : AccountChoice) : String := c.provider ++ "/" ++ c.accountId

/-- `ACCOUNT_CHOICES`. -/
def accountChoices : List AccountChoice :=
  [⟨"claude-sub", "claude-2"⟩, ⟨"claude-sub", "owner"⟩, ⟨"codex-sub", "owner"⟩]

/-- `CAPABILITY_PROVIDER`. -/
def capabilityProvider : List (String × String) :=
  [("agent:claude", "claude-sub"), ("agent:codex", "codex-sub")]

/-- `clean_account_choices`; an unknown account is a `ValueError`. -/
def cleanAccountChoices (values : List String) : Except PyError (List String) :=
  if values.all fun v => accountChoices.any fun c => c.value = v then
    .ok ((accountChoices.filter fun c => values.contains c.value).map (·.value))
  else .error .valueError

/-- `account_ids`. -/
def accountIds (values : List String) (capability : Option String) : List String :=
  match OrderedDict.get capabilityProvider (capability.getD "") with
  | none => []
  | some provider =>
    (accountChoices.filter fun c => c.provider = provider && values.contains c.value).map (·.accountId)

/-- **An account is offered** for the provider of the capability, and only when it is ticked for that
provider. -/
theorem mem_accountIds {values : List String} {capability : Option String} {accountId : String}
    (h : accountId ∈ accountIds values capability) :
    ∃ provider, OrderedDict.get capabilityProvider (capability.getD "") = some provider ∧
      provider ++ "/" ++ accountId ∈ values := by
  unfold accountIds at h
  split at h
  · cases h
  · rename_i provider hp
    obtain ⟨c, hc, rfl⟩ := List.mem_map.mp h
    obtain ⟨-, hsel⟩ := List.mem_filter.mp hc
    obtain ⟨rfl, hv⟩ : c.provider = provider ∧ c.value ∈ values := by simpa using hsel
    exact ⟨c.provider, hp, hv⟩

/-- What the form saves, it offers again: the cleaned choices give the same accounts. -/
theorem accountIds_clean {values cleaned : List String} (h : cleanAccountChoices values = .ok cleaned)
    (capability : Option String) : accountIds cleaned capability = accountIds values capability := by
  unfold cleanAccountChoices at h
  split_ifs at h
  obtain rfl := Except.ok.inj h
  unfold accountIds
  split
  · rfl
  · rename_i provider _
    congr 1
    refine List.filter_congr fun c hc => ?_
    congr 1
    rw [Bool.eq_iff_iff, List.contains_iff_mem, List.contains_iff_mem]
    constructor
    · intro hmem
      obtain ⟨d, hd, hdv⟩ := List.mem_map.mp hmem
      rw [← hdv]
      exact List.contains_iff_mem.mp (List.mem_filter.mp hd).2
    · intro hmem
      exact List.mem_map.mpr ⟨c, List.mem_filter.mpr ⟨hc, List.contains_iff_mem.mpr hmem⟩, rfl⟩

/-! ### The snapshot -/

structure AgentAccess where
  enabled : Bool
  models : List String
  accounts : List String
  deriving DecidableEq, Repr

def AgentAccess.accountOnly (a : AgentAccess) : Bool := a.models = [accountOnlyMarker]

def AgentAccess.hasPolicy (a : AgentAccess) : Bool := !a.models.isEmpty && !a.accounts.isEmpty

/-- `_snapshot`: nothing before the first refresh that succeeds. -/
abbrev Snapshot := Option (List (ℤ × AgentAccess))

def snapshotLoaded (snapshot : Snapshot) : Bool := snapshot.isSome

def accessFor (snapshot : Snapshot) (projectId : ℤ) : Option AgentAccess :=
  OrderedDict.get (snapshot.getD []) projectId

/-- `dict.fromkeys(v.strip() for v in values if v.strip())`: the stripped texts, each once. -/
def cleanTexts (values : List String) : List String :=
  ((values.map fun v => String.ofList (strip v.toList)).filter (· ≠ "")).eraseDups

theorem mem_cleanTexts {values : List String} {s : String} :
    s ∈ cleanTexts values ↔ (∃ v ∈ values, String.ofList (strip v.toList) = s) ∧ s ≠ "" := by
  simp [cleanTexts]

/-- `_strings`; what is no text is left out. -/
def strings : Val PyFloat → List String
  | .arr xs => cleanTexts (xs.filterMap fun v => match v with
    | .str s => some s
    | _ => none)
  | _ => []

/-- The columns `refresh_access` reads. -/
structure ProjectRow where
  id : ℤ
  agentEnabled : Bool
  agentModels : Val PyFloat
  agentAccounts : Val PyFloat

def ProjectRow.access (row : ProjectRow) : AgentAccess :=
  ⟨row.agentEnabled, strings row.agentModels, strings row.agentAccounts⟩

/-- `refresh_access`; the read of the table may fail. -/
def refreshAccess (snapshot : Snapshot) : Option (List ProjectRow) → Snapshot
  | none => snapshot
  | some rows => some (rows.foldl (fun fresh row =>
      if row.access.enabled || !row.access.models.isEmpty || !row.access.accounts.isEmpty then
        OrderedDict.setItem fresh row.id row.access
      else fresh) [])

/-- `access_refresh_loop`: one refresh after the other. -/
def refreshStep (snapshot : Snapshot) (read : Option (List ProjectRow)) : Option Snapshot :=
  some (refreshAccess snapshot read)

/-- **A loaded snapshot stays loaded**, whatever refreshes fail after it. -/
theorem snapshot_stays_loaded {snapshot snapshot' : Snapshot} {reads : List (Option (List ProjectRow))}
    (h : Steps refreshStep Free snapshot reads snapshot') (hl : snapshotLoaded snapshot = true) :
    snapshotLoaded snapshot' = true := by
  refine h.inv (I := fun s => snapshotLoaded s = true) (fun s read s' hs _ hstep => ?_) hl
  obtain rfl := Option.some.inj hstep
  cases read with
  | none => exact hs
  | some rows => rfl

theorem loaded_of_accessFor {snapshot : Snapshot} {projectId : ℤ} {access : AgentAccess}
    (h : accessFor snapshot projectId = some access) : snapshotLoaded snapshot = true := by
  cases snapshot with
  | none => cases h
  | some d => rfl

/-- A snapshot is finite, so it leaves projects without access. -/
theorem exists_untouched (snapshot : Snapshot) : ∃ projectId, accessFor snapshot projectId = none := by
  obtain ⟨projectId, h⟩ := Infinite.exists_notMem_finset ((snapshot.getD []).map Prod.fst).toFinset
  refine ⟨projectId, ?_⟩
  unfold accessFor OrderedDict.get
  rw [List.find?_eq_none.mpr]
  · rfl
  · intro e he hid
    exact h (List.mem_toFinset.mpr (List.mem_map.mpr ⟨e, he, by simpa using hid⟩))

end Broker.Agent
