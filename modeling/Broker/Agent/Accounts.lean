import Mathlib.Data.Prod.Lex
import Broker.Agent.CreateRun

/-!
# Broker.Agent.Accounts — the account of a new subscription run

A new run goes to the least loaded account of the project's policy that no quota pause holds, and to the one
whose pause ends first when all are paused.  The choice reads the runs of the moment, so it changes with
every run it makes.
-/

namespace Broker.Agent

open Broker.Lib Broker.Db Broker.Services

/-- `min(.., key=..)`: the first of the least. -/
def minOn {α κ : Type*} [LT κ] [DecidableLT κ] (key : α → κ) : List α → Option α
  | [] => none
  | a :: as => some (as.foldl (fun best x => if key x < key best then x else best) a)

theorem foldl_min_mem {α κ : Type*} [LinearOrder κ] (key : α → κ) (as : List α) (a : α) :
    as.foldl (fun best x => if key x < key best then x else best) a ∈ a :: as ∧
      ∀ x ∈ a :: as, key (as.foldl (fun best x => if key x < key best then x else best) a) ≤ key x := by
  induction as generalizing a with
  | nil => simp
  | cons b as ih =>
    rw [List.foldl_cons]
    by_cases hlt : key b < key a
    · rw [if_pos hlt]
      obtain ⟨hmem, hle⟩ := ih b
      refine ⟨List.mem_cons_of_mem a hmem, fun x hx => ?_⟩
      rcases List.mem_cons.mp hx with rfl | hx
      · exact (hle b List.mem_cons_self).trans hlt.le
      · exact hle x hx
    · rw [if_neg hlt]
      obtain ⟨hmem, hle⟩ := ih a
      refine ⟨?_, fun x hx => ?_⟩
      · rcases List.mem_cons.mp hmem with h | h
        · rw [h]
          exact List.mem_cons_self
        · exact List.mem_cons_of_mem a (List.mem_cons_of_mem b h)
      · rcases List.mem_cons.mp hx with rfl | hx
        · exact hle x List.mem_cons_self
        · rcases List.mem_cons.mp hx with rfl | hx
          · exact (hle a List.mem_cons_self).trans (not_lt.mp hlt)
          · exact hle x (List.mem_cons_of_mem a hx)

theorem minOn_spec {α κ : Type*} [LinearOrder κ] {key : α → κ} {as : List α} {a : α} (h : minOn key as = some a) :
    a ∈ as ∧ ∀ x ∈ as, key a ≤ key x := by
  cases as with
  | nil => cases h
  | cons b as =>
    obtain rfl := Option.some.inj h
    exact foldl_min_mem key as b

/-- `_UNFINISHED`. -/
def unfinished (st : Status) : Bool := st = .pending || st = .running

/-- `unfinished_runs`, of one account. -/
def unfinishedRuns (s : CreateSys) (capability account : String) : ℕ :=
  (s.rows.filter fun r => r.accountId = account && r.capability = capability
    && unfinished (s.live r.id).status).length

/-- `pick_account`, with the pauses `quota_resets` reads from the event log. -/
def pickAccount (excluded : List String) (paused : String → Option Time) (load : String → ℕ)
    (candidates : List String) : Option String :=
  let candidates := candidates.filter fun a => !excluded.contains a
  match candidates with
  | [] => none
  | [a] => some a
  | _ =>
    let free := candidates.filter fun a => (paused a).isNone
    if free ≠ [] then minOn (fun a => toLex (load a, candidates.idxOf a)) free
    else minOn (fun a => toLex ((paused a).getD 0, candidates.idxOf a)) candidates

/-- **The least loaded**: of several candidates the pick is one no exclusion and, if there is such a one, no
pause holds, and none of these has fewer unfinished runs. -/
theorem pickAccount_spec {excluded candidates : List String} {paused : String → Option Time} {load : String → ℕ}
    {a : String} (h : pickAccount excluded paused load candidates = some a) :
    a ∈ candidates ∧ a ∉ excluded ∧ ∀ b ∈ candidates, b ∉ excluded → paused a = none → paused b = none →
      load a ≤ load b := by
  have hfilter : ∀ b, b ∈ candidates.filter (fun a => !excluded.contains a) ↔ b ∈ candidates ∧ b ∉ excluded := by
    simp
  unfold pickAccount at h
  generalize hleft : candidates.filter (fun a => !excluded.contains a) = left at h hfilter
  simp only at h
  split at h
  · cases h
  · obtain rfl := Option.some.inj h
    obtain ⟨hmem, hex⟩ := (hfilter _).mp List.mem_cons_self
    refine ⟨hmem, hex, fun b hb hbex _ _ => ?_⟩
    rw [List.mem_singleton.mp ((hfilter b).mpr ⟨hb, hbex⟩)]
  · split_ifs at h with hfree
    · obtain ⟨hmem, hle⟩ := minOn_spec h
      obtain ⟨hcand, hex⟩ := (hfilter a).mp (List.mem_of_mem_filter hmem)
      refine ⟨hcand, hex, fun b hb hbex _ hpb => ?_⟩
      have hlex := hle b (List.mem_filter.mpr ⟨(hfilter b).mpr ⟨hb, hbex⟩, by simp [hpb]⟩)
      rcases Prod.Lex.le_iff.mp hlex with hlt | ⟨heq, -⟩
      · exact hlt.le
      · exact heq.le
    · -- every candidate is paused, the pick as well
      obtain ⟨hmem, -⟩ := minOn_spec h
      obtain ⟨hcand, hex⟩ := (hfilter a).mp hmem
      refine ⟨hcand, hex, fun b _ _ hpa _ => ?_⟩
      refine absurd ?_ hfree
      exact List.ne_nil_of_mem (List.mem_filter.mpr ⟨hmem, by simp [hpa]⟩)

end Broker.Agent
