import Broker.Lib.Population
import Broker.Lib.Trans
import Mathlib.Algebra.Order.Ring.Int

/-!
# Broker.Services.RequestCap — the lifetime request cap of a project

`admit_request` spends one unit with a single `UPDATE … WHERE used < cap`; only when that matches no row
does it read the row again to tell a spent cap from one that was lifted.  Any number of requests of one
project run at once, each with the cap it loaded at its authentication, while the owner moves the cap.
-/

namespace Broker.Services

open Broker.Lib

namespace RequestCap

/-- The columns of `projects` that the cap is about. -/
structure Project where
  totalRequestCap : Option ℤ
  totalRequestsUsed : ℤ
  deriving DecidableEq

/-- `WHERE … (total_request_cap IS NULL OR total_requests_used < total_request_cap)`. -/
def Project.hasRoom (p : Project) :
    Bool := p.totalRequestCap.all fun cap => decide (p.totalRequestsUsed < cap)

/-- Where a request is: authenticated with the cap it loaded, past an `UPDATE` that matched no row, or out of
`admit_request`. -/
inductive Call where
  | loaded (cap : Option ℤ)
  | missed
  | counted
  | free
  | refused (limit used : ℤ)
  | failed
  deriving DecidableEq

/-- The request is still in `admit_request`. -/
def Call.running : Call → Bool
  | .loaded _ | .missed => true
  | _ => false

def Call.isCounted : Call → Bool
  | .counted => true
  | _ => false

def Call.isRefused : Call → Bool
  | .refused _ _ => true
  | _ => false

structure Sys where
  project : Option Project
  calls : List Call := []
  -- updates that matched a row, whatever became of their request
  spent : ℕ := 0

inductive Act where
  | auth
  | update (i : ℕ)
  | select (i : ℕ)
  | lose (i : ℕ) (committed : Bool)
  | setCap (cap : Option ℤ)
  | delete

/-- The row after an `UPDATE` that matches it. -/
def Project.spend (p : Project) : Project := { p with totalRequestsUsed := p.totalRequestsUsed + 1 }

/-- One step: a statement of a request, a lost connection during its `UPDATE`, or a write of the owner. -/
def step (s : Sys) : Act → Option Sys
  | .auth => s.project.map fun p => { s with calls := s.calls ++ [.loaded p.totalRequestCap] }
  | .update i =>
    match s.calls[i]? with
    | some (.loaded none) => some { s with calls := s.calls.set i .free }
    | some (.loaded (some _)) =>
      match s.project.filter Project.hasRoom with
      | some p => some { project := some p.spend, calls := s.calls.set i .counted, spent := s.spent + 1 }
      | none => some { s with calls := s.calls.set i .missed }
    | _ => none
  | .select i =>
    match s.calls[i]? with
    | some .missed =>
      match s.project with
      | some ⟨some cap, used⟩ => some { s with calls := s.calls.set i (.refused cap used) }
      | _ => some { s with calls := s.calls.set i .free }
    | _ => none
  | .lose i committed =>
    match s.calls[i]? with
    | some (.loaded (some _)) =>
      match s.project.filter Project.hasRoom, committed with
      | some p, true => some { project := some p.spend, calls := s.calls.set i .failed, spent := s.spent + 1 }
      | _, _ => some { s with calls := s.calls.set i .failed }
    | _ => none
  | .setCap cap => s.project.map fun p => { s with project := some { p with totalRequestCap := cap } }
  | .delete => some { s with project := none }

/-! ### What one step can do -/

/-- Only an `UPDATE` with room spends, one unit at a time. -/
theorem step_spends {s t : Sys} {a : Act} (h : step s a = some t) :
    (∃ p, s.project = some p ∧ p.hasRoom = true ∧ t.project = some p.spend ∧ t.spent = s.spent + 1) ∨
    t.spent = s.spent ∧ ((∃ cap, a = .setCap cap ∧
      t.project = s.project.map fun p => { p with totalRequestCap := cap }) ∨
      t.project = none ∨ t.project = s.project) := by
  have hroom : ∀ {p}, s.project.filter Project.hasRoom = some p → s.project = some p ∧ p.hasRoom = true :=
    fun hp => Option.filter_eq_some_iff.mp hp
  cases a with
  | auth =>
    obtain ⟨p, -, rfl⟩ := Option.map_eq_some_iff.mp h
    exact .inr ⟨rfl, .inr (.inr rfl)⟩
  | update i =>
    simp only [step] at h
    split at h
    · obtain rfl := Option.some.inj h
      exact .inr ⟨rfl, .inr (.inr rfl)⟩
    · split at h
      · rename_i p hp
        obtain rfl := Option.some.inj h
        exact .inl ⟨p, (hroom hp).1, (hroom hp).2, rfl, rfl⟩
      · obtain rfl := Option.some.inj h
        exact .inr ⟨rfl, .inr (.inr rfl)⟩
    · cases h
  | select i =>
    simp only [step] at h
    split at h
    · split at h
      · obtain rfl := Option.some.inj h
        exact .inr ⟨rfl, .inr (.inr rfl)⟩
      · obtain rfl := Option.some.inj h
        exact .inr ⟨rfl, .inr (.inr rfl)⟩
    · cases h
  | lose i committed =>
    simp only [step] at h
    split at h
    · split at h
      · rename_i p hp
        obtain rfl := Option.some.inj h
        exact .inl ⟨p, (hroom hp).1, (hroom hp).2, rfl, rfl⟩
      · obtain rfl := Option.some.inj h
        exact .inr ⟨rfl, .inr (.inr rfl)⟩
    · cases h
  | setCap cap =>
    obtain ⟨p, hp, rfl⟩ := Option.map_eq_some_iff.mp h
    refine .inr ⟨rfl, .inl ⟨cap, rfl, ?_⟩⟩
    rw [hp]
    rfl
  | delete =>
    obtain rfl := Option.some.inj h
    exact .inr ⟨rfl, .inr (.inl rfl)⟩

/-! ### The allowance is never passed -/

/-- The owner never puts the cap above `bound`, nor lifts it. -/
def CapWithin (bound : ℤ) : Sys → Act → Prop
  | _, .setCap cap => ∃ c, cap = some c ∧ c ≤ bound
  | _, _ => True

/-- The row counts what was spent since it held `start`, and its cap and its count are within the bound. -/
def Within (bound start : ℤ) (s : Sys) : Prop :=
  ∀ p ∈ s.project, p.totalRequestsUsed = start + s.spent ∧ p.totalRequestsUsed ≤ bound ∧
    ∃ c, p.totalRequestCap = some c ∧ c ≤ bound

theorem within_step {bound start : ℤ} {s t : Sys} {a : Act} (hs : Within bound start s)
    (hc : CapWithin bound s a)
    (h : step s a = some t) : Within bound start t := by
  rcases step_spends h with ⟨p, hp, hroom, htp, hspent⟩ | ⟨hspent, hrest⟩
  · obtain ⟨hused, -, c, hcap, hle⟩ := hs p hp
    have hlt : p.totalRequestsUsed < c := by simpa [Project.hasRoom, hcap] using hroom
    intro q hq
    rw [htp] at hq
    obtain rfl := Option.some.inj hq
    refine ⟨?_, ?_, c, hcap, hle⟩
    · simp only [Project.spend, hspent]
      push_cast
      omega
    · simp only [Project.spend]
      omega
  · intro q hq
    rcases hrest with ⟨cap, rfl, htp⟩ | htp | htp
    · rw [htp] at hq
      obtain ⟨p, hp, rfl⟩ := Option.map_eq_some_iff.mp hq
      obtain ⟨hused, hle, -⟩ := hs p hp
      exact ⟨hspent ▸ hused, hle, hc⟩
    · rw [htp] at hq
      cases hq
    · rw [htp] at hq
      exact hspent ▸ hs q hq

/-- **No run passes the largest cap in force.**  Whatever requests run at once, whatever connections are
lost and however the owner moves the cap below `bound`, the count of a project stays within `bound` and
is what was spent. -/
theorem used_le_bound {bound start : ℤ} {s t : Sys} {as : List Act} (h : Steps step (CapWithin bound) s as t)
    (hs : Within bound start s) : Within bound start t :=
  h.inv (I := Within bound start) (fun _ _ _ hi hc hstep => within_step hi hc hstep) hs

/-! ### Under one cap -/

/-- Requests arrive and run; nobody touches the project, and no connection is lost. -/
def Undisturbed : Sys → Act → Prop
  | _, .auth | _, .update _ | _, .select _ => True
  | _, _ => False

/-- What holds under a cap of `cap` since the count was `start`. -/
structure Fixed (cap start : ℤ) (s : Sys) : Prop where
  row : s.project = some ⟨some cap, start + s.calls.countP Call.isCounted⟩
  -- the count may have been above the cap from the start
  room : 0 < s.calls.countP Call.isCounted → start + s.calls.countP Call.isCounted ≤ cap
  capped : ∀ c ∈ s.calls, c ≠ .free ∧ c ≠ .failed ∧ c ≠ .loaded none
  -- whoever has missed has seen the cap spent
  spent : ∀ c ∈ s.calls, c = .missed ∨ c.isRefused = true → cap ≤ start + s.calls.countP Call.isCounted

/-- A request that leaves the others and the row alone. -/
theorem Fixed.set {cap start : ℤ} {s : Sys} (hs : Fixed cap start s) {i : ℕ} {c c' : Call}
    (hc : s.calls[i]? = some c) (h : c.isCounted = false) (h' : c'.isCounted = false)
    (hcapped : c' ≠ .free ∧ c' ≠ .failed ∧ c' ≠ .loaded none)
    (hspent : cap ≤ start + s.calls.countP Call.isCounted) :
    Fixed cap start { s with calls := s.calls.set i c' } := by
  have hcount := countP_set_same (p := Call.isCounted) hc (h'.trans h.symm)
  refine ⟨?_, ?_, fun x hx => ?_, fun x _ _ => ?_⟩
  · rw [hcount]
    exact hs.row
  · rw [hcount]
    exact hs.room
  · rcases List.mem_or_eq_of_mem_set hx with hx | rfl
    · exact hs.capped x hx
    · exact hcapped
  · rw [hcount]
    exact hspent

/-- A request that arrives. -/
theorem Fixed.arrive {cap start : ℤ} {s : Sys} (hs : Fixed cap start s) :
    Fixed cap start { s with calls := s.calls ++ [.loaded (some cap)] } := by
  have hcount : (s.calls ++ [Call.loaded (some cap)]).countP Call.isCounted =
      s.calls.countP Call.isCounted := countP_concat _
  refine ⟨?_, ?_, fun x hx => ?_, fun x hx hout => ?_⟩
  · dsimp only
    rw [hcount]
    exact hs.row
  · dsimp only
    rw [hcount]
    exact hs.room
  · rcases List.mem_append.mp hx with hx | hx
    · exact hs.capped x hx
    · obtain rfl := List.mem_singleton.mp hx
      exact ⟨by simp, by simp, by simp⟩
  · dsimp only
    rw [hcount]
    rcases List.mem_append.mp hx with hx | hx
    · exact hs.spent x hx hout
    · obtain rfl := List.mem_singleton.mp hx
      simp [Call.isRefused] at hout

/-- A request that is counted. -/
theorem Fixed.count {cap start : ℤ} {s : Sys} (hs : Fixed cap start s) {i : ℕ} {loaded : Option ℤ}
    (hi : s.calls[i]? = some (.loaded loaded)) (hroom : start + s.calls.countP Call.isCounted < cap) :
    Fixed cap start
      { project := some (Project.spend ⟨some cap, start + s.calls.countP Call.isCounted⟩)
        calls := s.calls.set i .counted
        spent := s.spent + 1 } := by
  have hcount : (s.calls.set i .counted).countP Call.isCounted = s.calls.countP Call.isCounted + 1 :=
    countP_set_add (p := Call.isCounted) hi .counted
  refine ⟨?_, ?_, fun x hx => ?_, fun x hx hout => ?_⟩
  · dsimp only [Project.spend]
    rw [hcount]
    push_cast
    rw [add_assoc]
  · intro _
    dsimp only
    rw [hcount]
    push_cast
    omega
  · rcases List.mem_or_eq_of_mem_set hx with hx | rfl
    · exact hs.capped x hx
    · exact ⟨by simp, by simp, by simp⟩
  · -- there was room, so nobody has missed
    rcases List.mem_or_eq_of_mem_set hx with hx | rfl
    · exact absurd (hs.spent x hx hout) (not_le.mpr hroom)
    · simp [Call.isRefused] at hout

theorem fixed_step {cap start : ℤ} {s t : Sys} {a : Act} (hs : Fixed cap start s) (hc : Undisturbed s a)
    (h : step s a = some t) : Fixed cap start t := by
  cases a with
  | lose | setCap | delete => exact hc.elim
  | auth =>
    obtain ⟨p, hp, rfl⟩ := Option.map_eq_some_iff.mp h
    rw [hs.row] at hp
    obtain rfl := Option.some.inj hp
    exact hs.arrive
  | update i =>
    simp only [step] at h
    split at h
    · rename_i hi
      exact absurd rfl (hs.capped _ (List.mem_of_getElem? hi)).2.2
    · rename_i loaded hi
      by_cases hroom : start + s.calls.countP Call.isCounted < cap
      · have hfilter : s.project.filter Project.hasRoom =
            some ⟨some cap, start + s.calls.countP Call.isCounted⟩ := by
          rw [hs.row]
          simp [Option.filter, Project.hasRoom, hroom]
        rw [hfilter] at h
        exact Option.some.inj h ▸ hs.count hi hroom
      · have hfilter : s.project.filter Project.hasRoom = none := by
          rw [hs.row]
          simp [Option.filter, Project.hasRoom, hroom]
        rw [hfilter] at h
        obtain rfl := Option.some.inj h
        exact hs.set hi rfl rfl ⟨by simp, by simp, by simp⟩ (not_lt.mp hroom)
    · cases h
  | select i =>
    simp only [step] at h
    split at h
    · rename_i hi
      have hfull := hs.spent _ (List.mem_of_getElem? hi) (.inl rfl)
      split at h
      · obtain rfl := Option.some.inj h
        exact hs.set hi rfl rfl ⟨by simp, by simp, by simp⟩ hfull
      · rename_i hnone
        exact absurd hs.row (hnone _ _)
    · cases h

/-- **A cap admits exactly what is left of it.**  Of `n` requests that run in any order under one cap,
exactly as many are admitted as the cap has left, or all, and the others are refused.  A cap below the
count has nothing left. -/
theorem admits_exactly {cap start : ℤ} {t : Sys} {as : List Act}
    (h : Steps step Undisturbed ⟨some ⟨some cap, start⟩, [], 0⟩ as t)
    (hdone : ∀ c ∈ t.calls, c.running = false) :
    t.calls.countP Call.isCounted = min t.calls.length (cap - start).toNat ∧
      t.calls.countP Call.isCounted + t.calls.countP Call.isRefused = t.calls.length := by
  have hinit : Fixed cap start ⟨some ⟨some cap, start⟩, [], 0⟩ := by
    refine ⟨by simp, fun h0 => absurd h0 (by simp), fun c hc => (List.not_mem_nil hc).elim, fun c hc => ?_⟩
    exact (List.not_mem_nil hc).elim
  have ht : Fixed cap start t := h.inv (fun _ _ _ hi hc hstep => fixed_step hi hc hstep) hinit
  have hkind : ∀ c ∈ t.calls, c.isRefused = true ↔ ¬ c.isCounted = true := by
    intro c hc
    obtain ⟨hfree, hfailed, -⟩ := ht.capped c hc
    have hrun := hdone c hc
    cases c with
    | loaded | missed => cases hrun
    | free => exact absurd rfl hfree
    | failed => exact absurd rfl hfailed
    | counted | refused => simp [Call.isCounted, Call.isRefused]
  have hsum : t.calls.countP Call.isCounted + t.calls.countP Call.isRefused = t.calls.length := by
    have hnot : t.calls.countP Call.isRefused = t.calls.countP fun c => decide ¬c.isCounted = true :=
      List.countP_congr fun c hc => by rw [hkind c hc, decide_eq_true_eq]
    rw [hnot]
    exact (List.length_eq_countP_add_countP Call.isCounted).symm
  refine ⟨?_, hsum⟩
  have hroom := ht.room
  by_cases hrefused : ∃ c ∈ t.calls, c.isRefused = true
  · obtain ⟨c, hc, href⟩ := hrefused
    have hfull := ht.spent c hc (.inr href)
    omega
  · have hzero : t.calls.countP Call.isRefused = 0 := by
      refine List.countP_eq_zero.mpr fun c hc href => ?_
      exact hrefused ⟨c, hc, href⟩
    omega

instance : ∀ s a, Decidable (Undisturbed s a)
  | _, .auth | _, .update _ | _, .select _ => isTrue trivial
  | _, .lose _ _ | _, .setCap _ | _, .delete => isFalse id

/-! ### Three requests for the last unit -/

theorem three_requests_for_one : ∃ t, Steps step Undisturbed ⟨some ⟨some 10, 9⟩, [], 0⟩
    [.auth, .auth, .auth, .update 1, .update 0, .update 2, .select 2, .select 0] t ∧
    t.calls.countP Call.isCounted = min t.calls.length 1 ∧ t.calls.length = 3 := by
  have hrun : Steps step Undisturbed ⟨some ⟨some 10, 9⟩, [], 0⟩
      [.auth, .auth, .auth, .update 1, .update 0, .update 2, .select 2, .select 0]
      ⟨some ⟨some 10, 10⟩, [.refused 10 10, .counted, .refused 10 10], 1⟩ := by
    refine Steps.of_guarded (steps_of_execAll (by rfl))
  exact ⟨_, hrun, (admits_exactly hrun (by decide)).1, rfl⟩

theorem bound_of_lowered_cap : Within 12 9 ⟨some ⟨some 10, 10⟩, [.counted], 1⟩ := by
  have hrun : Steps step (CapWithin 12) ⟨some ⟨some 12, 9⟩, [], 0⟩ [.auth, .update 0, .setCap (some 10)]
      ⟨some ⟨some 10, 10⟩, [.counted], 1⟩ :=
    (((Steps.nil _).snoc trivial rfl).snoc trivial rfl).snoc ⟨10, rfl, by decide⟩ rfl
  refine used_le_bound hrun fun p hp => ?_
  obtain rfl := Option.some.inj hp
  exact ⟨by decide, by decide, 12, rfl, le_rfl⟩

end RequestCap

end Broker.Services
