import Broker.Agent.CreateRun
import Broker.Lib.Newest

/-!
# Broker.Agent.RunDedup — recreating a run without a key

A run created without a key looks for an unfinished one of its payload; the payload's hash covers the account
the run is to use.  The row behind every id such a call has returned carries the call's own hash
(`RunDedupInv`), and ids are not reused, so a later call finds that run exactly when it hashes to the same
and no newer run of the payload overtakes it (`findInflight_returns_iff`).
-/

namespace Broker.Agent

open Broker.Lib Broker.Db Broker.Services

variable {E : HashEnv} {s s' u : CreateSys} {c : CreateCall}

/-- The row of a run with the payload of a call. -/
structure CreatedRun.IsOf (E : HashEnv) (a : CreateArgs) (r : CreatedRun) : Prop where
  project : r.projectId = a.projectId
  capability : r.capability = a.capability
  hash : r.payloadHash = a.hash E

/-- The call carries neither key. -/
def CreateArgs.Keyless (a : CreateArgs) : Prop := a.idempotencyKey = none ∧ a.jobIdempotencyKey = none

/-- The run a call answers with. -/
def CreateResult.runId? : CreateResult → Option ℕ
  | .created id | .existing id => some id
  | _ => none

/-- What a call without a key may rely on. -/
def CreateCall.Booked (E : HashEnv) (rows : List CreatedRun) (c : CreateCall) : Prop :=
  c.args.Keyless → match c.phase with
    | .findRun | .recover => False
    | .flushRun row | .commit row => row.IsOf E c.args ∧ row.runSlot = none
    | .done r => ∀ id, r.runId? = some id → ∃ row ∈ rows, row.id = id ∧ row.IsOf E c.args
    | _ => True

theorem CreateCall.Booked.mono {rows rows' : List CreatedRun} (h : c.Booked E rows) (hsub : ∀ r ∈ rows, r ∈ rows') :
    c.Booked E rows' := by
  intro hkey
  have hb := h hkey
  revert hb
  cases c.phase with
  | done r =>
    intro hb id hid
    obtain ⟨row, hrow, hfacts⟩ := hb id hid
    exact ⟨row, hsub row hrow, hfacts⟩
  | _ => exact id

/-- Ids are not reused, and every call without a key answered with a run of its payload. -/
structure RunDedupInv (E : HashEnv) (s : CreateSys) : Prop where
  ids : Unique (fun r : CreatedRun => some r.id) (s.rows ++ s.openJobs)
  fresh : ∀ r ∈ s.rows ++ s.openJobs, r.id < s.nextId
  calls : ∀ c ∈ s.calls, c.Booked E s.rows

theorem RunDedupInv.init : RunDedupInv E {} := ⟨List.Pairwise.nil, by simp [CreateSys.openJobs], by simp⟩

/-- One call moves: its open row is kept, dropped, committed, or a new one under the next id. -/
theorem RunDedupInv.set (hi : RunDedupInv E s) {i : ℕ} (hc : s.calls[i]? = some c) {p : CreatePhase}
    {rows' l : List CreatedRun} {n : ℕ} (hsub : ∀ r ∈ s.rows, r ∈ rows')
    (hrows : ∀ rest, (rows' ++ (({ c with phase := p } : CreateCall).openJob.toList ++ rest)).Subperm
      (l ++ (s.rows ++ (c.openJob.toList ++ rest))))
    (hnext : s.nextId ≤ n) (hnew : l = [] ∨ ∃ row, l = [row] ∧ row.id = s.nextId ∧ s.nextId < n)
    (hbooked : ({ c with phase := p } : CreateCall).Booked E rows') :
    RunDedupInv E { s.setPhase i c p with rows := rows', nextId := n } := by
  obtain ⟨rest, hbefore, hafter⟩ := filterMap_set_perm (f := CreateCall.openJob) hc
  have hall : Unique (fun r : CreatedRun => some r.id) (l ++ (s.rows ++ s.openJobs)) ∧
      ∀ r ∈ l ++ (s.rows ++ s.openJobs), r.id < n := by
    rcases hnew with rfl | ⟨row, rfl, hid, hlt⟩
    · exact ⟨hi.ids, fun r hr => (hi.fresh r hr).trans_le hnext⟩
    · refine ⟨hi.ids.cons fun k hk x hx hxk => ?_, fun r hr => ?_⟩
      · have hxlt := hi.fresh x hx
        rw [Option.some.injEq] at hk hxk
        omega
      · rcases List.mem_cons.mp hr with rfl | hr
        · omega
        · exact (hi.fresh r hr).trans_le hnext
  have hsubperm : (rows' ++ (s.setPhase i c p).openJobs).Subperm (l ++ (s.rows ++ s.openJobs)) := by
    have hto : (rows' ++ (s.setPhase i c p).openJobs).Perm
        (rows' ++ (({ c with phase := p } : CreateCall).openJob.toList ++ rest)) :=
      (hafter { c with phase := p }).append_left rows'
    have hfrom : (l ++ (s.rows ++ (c.openJob.toList ++ rest))).Perm (l ++ (s.rows ++ s.openJobs)) :=
      (hbefore.symm.append_left s.rows).append_left l
    exact (hto.subperm.trans (hrows rest)).trans hfrom.subperm
  refine ⟨hall.1.subperm hsubperm, fun r hr => hall.2 r (hsubperm.subset hr), fun d hd => ?_⟩
  rcases List.mem_or_eq_of_mem_set hd with hd | rfl
  · exact (hi.calls d hd).mono hsub
  · exact hbooked

/-- A move between phases without an open row. -/
theorem RunDedupInv.quiet (hi : RunDedupInv E s) {i : ℕ} (hc : s.calls[i]? = some c) {p : CreatePhase}
    (hbefore : c.phase.closed = true) (hafter : p.closed = true)
    (hbooked : ({ c with phase := p } : CreateCall).Booked E s.rows) : RunDedupInv E (s.setPhase i c p) := by
  have hclosed : ({ c with phase := p } : CreateCall).phase.closed = true := hafter
  refine hi.set hc (l := []) (fun _ h => h) (fun rest => ?_) le_rfl (.inl rfl) hbooked
  rw [openJob_of_closed hbefore, openJob_of_closed hclosed]
  exact List.Subperm.refl _

theorem not_present_of_none {key : Option String} (h : key = none) : present key = false := by
  rw [h]
  rfl

theorem taken_of_none {slot : CreatedRun → Option (ℕ × String)} {rows : List CreatedRun} {row : CreatedRun}
    (h : slot row = none) : taken slot rows row = false := by
  refine List.any_eq_false.mpr fun r _ => ?_
  rw [h]
  simp

theorem newRun_isOf (E : HashEnv) (a : CreateArgs) (id : ℕ) (now : Time) : (newRun E a id now).IsOf E a :=
  ⟨rfl, rfl, rfl⟩

theorem booked_findJobPhase (c : CreateCall) (now : Time) :
    ({ c with phase := findJobPhase E s c.args now } : CreateCall).Booked E s.rows := by
  rintro ⟨-, hjob⟩
  have habsent : ¬present c.args.jobIdempotencyKey = true := by rw [not_present_of_none hjob]; simp
  simp only [findJobPhase, if_neg habsent]
  cases hf : findInflight E s c.args now with
  | none =>
    simp only [afterLookups]
    split_ifs <;> trivial
  | some hit =>
    intro id hid
    obtain rfl : hit.id = id := by simpa [CreateResult.runId?] using hid
    have hmem := (List.mem_insertionSort newestRun).mp (List.mem_of_head? hf)
    simp only [List.mem_filter, Bool.and_eq_true, decide_eq_true_eq] at hmem
    obtain ⟨hrow, ⟨⟨⟨hp, hc⟩, hh⟩, -⟩, -⟩ := hmem
    exact ⟨hit, hrow, rfl, hp, hc, hh⟩

theorem RunDedupInv.stepCreate (hi : RunDedupInv E s) {i : ℕ} {now : Time} (hc : s.calls[i]? = some c)
    (h : stepCreate E s i c now = some s') : RunDedupInv E s' := by
  have hb := hi.calls c (List.mem_of_getElem? hc)
  cases stepCreate_move h with
  | findRun hphase =>
    refine hi.quiet hc (by rw [hphase]; rfl) (closed_findRunPhase E s c.args) fun hkey => ?_
    have hno := hb hkey
    rw [hphase] at hno
    exact absurd hno id
  | findJob hphase =>
    exact hi.quiet hc (by rw [hphase]; rfl) (closed_findJobPhase E s c.args now) (booked_findJobPhase c now)
  | checkResume hphase =>
    refine hi.quiet hc (by rw [hphase]; rfl) (closed_checkResumePhase s c.args) fun _ => ?_
    simp only [checkResumePhase]
    cases hr : checkResume s c.args (c.args.sessionId.getD "") with
    | none => trivial
    | some r =>
      -- the check only ever refuses
      intro id hid
      unfold checkResume at hr
      simp only at hr
      split_ifs at hr <;> obtain rfl := Option.some.inj hr <;> cases hid
  | flushJob hphase hfree =>
    have hopen : c.openJob = none := openJob_of_closed (by rw [hphase]; rfl)
    by_cases htaken : taken CreatedRun.jobSlot s.rows (newRun E c.args s.nextId now) = true
    · rw [if_pos htaken]
      refine hi.set hc (l := []) (fun _ hr => hr) (fun rest => ?_) (Nat.le_succ _) (.inl rfl) fun hkey => ?_
      · rw [hopen]
        exact List.Subperm.refl _
      · have hjob : c.args.jobIdempotencyKey = none := hkey.2
        have hnone : (newRun E c.args s.nextId now).jobSlot = none := by simp [CreatedRun.jobSlot, newRun, hjob]
        rw [taken_of_none hnone] at htaken
        cases htaken
    · rw [if_neg htaken]
      refine hi.set hc (l := [newRun E c.args s.nextId now]) (fun _ hr => hr) (fun rest => ?_) (Nat.le_succ _)
        (.inr ⟨_, rfl, rfl, Nat.lt_succ_self _⟩) fun hkey => ⟨newRun_isOf E c.args s.nextId now, ?_⟩
      · rw [hopen]
        exact List.perm_middle.subperm
      · have hrun : c.args.idempotencyKey = none := hkey.1
        simp [CreatedRun.runSlot, newRun, hrun]
  | flushRun row hphase hfree =>
    have hopen : c.openJob = some row := by simp [CreateCall.openJob, hphase]
    by_cases htaken : taken CreatedRun.runSlot s.rows row = true
    · rw [if_pos htaken]
      refine hi.set hc (l := []) (fun _ hr => hr) (fun rest => ?_) le_rfl (.inl rfl) fun hkey => ?_
      · rw [hopen]
        exact (List.subperm_append_left _).mpr (List.sublist_cons_self row rest).subperm
      · have hrow := hb hkey
        rw [hphase] at hrow
        rw [taken_of_none hrow.2] at htaken
        cases htaken
    · rw [if_neg htaken]
      refine hi.set hc (l := []) (fun _ hr => hr) (fun rest => ?_) le_rfl (.inl rfl) fun hkey => ?_
      · rw [hopen]
        exact List.Subperm.refl _
      · have hrow := hb hkey
        rw [hphase] at hrow
        exact hrow
  | commit row hphase =>
    have hopen : c.openJob = some row := by simp [CreateCall.openJob, hphase]
    refine hi.set hc (l := []) (fun _ hr => List.mem_append_left _ hr) (fun rest => ?_) le_rfl (.inl rfl)
      fun hkey id hid => ?_
    · rw [hopen, List.append_assoc]
      exact List.Subperm.refl _
    · obtain rfl : row.id = id := by simpa [CreateResult.runId?] using hid
      have hrow := hb hkey
      rw [hphase] at hrow
      exact ⟨row, List.mem_append_right _ (List.mem_singleton.mpr rfl), rfl, hrow.1⟩
  | recover hphase =>
    refine hi.quiet hc (by rw [hphase]; rfl) (closed_recoverPhase E s c.args) fun hkey => ?_
    have hno := hb hkey
    rw [hphase] at hno
    exact absurd hno id

theorem RunDedupInv.step (hi : RunDedupInv E s) {a : CreateAct} (h : s.step E a = some s') : RunDedupInv E s' := by
  cases a with
  | call args =>
    obtain rfl := Option.some.inj h
    have hclosed : (firstPhase args).closed = true := by
      unfold firstPhase
      split_ifs <;> rfl
    have hnew : ({ args := args, phase := firstPhase args } : CreateCall).phase.closed = true := hclosed
    have hopen : CreateSys.openJobs { s with calls := s.calls ++ [⟨args, firstPhase args⟩] } = s.openJobs := by
      simp [CreateSys.openJobs, openJob_of_closed hnew]
    refine ⟨hopen ▸ hi.ids, hopen ▸ hi.fresh, fun d hd => ?_⟩
    rcases List.mem_append.mp hd with hd | hd
    · exact hi.calls d hd
    · rw [List.mem_singleton.mp hd]
      rintro ⟨hrun, -⟩
      simp only [firstPhase, not_present_of_none hrun]
      trivial
  | lifecycle runId live =>
    obtain rfl := Option.some.inj h
    exact ⟨hi.ids, hi.fresh, hi.calls⟩
  | step i now =>
    simp only [CreateSys.step] at h
    split at h
    · cases h
    · rename_i c hc
      exact hi.stepCreate hc h

theorem RunDedupInv.run {C : CreateSys → CreateAct → Prop} {as : List CreateAct} (hi : RunDedupInv E s)
    (h : Steps (CreateSys.step E) C s as u) : RunDedupInv E u :=
  h.inv (I := RunDedupInv E) (fun _ _ _ ht _ hs => ht.step hs) hi

/-- The unfinished, recent runs of a payload. -/
def inflightRuns (s : CreateSys) (a : CreateArgs) (hash : String) (now : Time) : List CreatedRun :=
  s.rows.filter fun r => r.projectId = a.projectId && r.capability = a.capability && r.payloadHash = hash
    && inFlight (s.live r.id).status && now - dedupWindow < r.createdAt

theorem mem_inflightRuns {a : CreateArgs} {hash : String} {now : Time} {r : CreatedRun} :
    r ∈ inflightRuns s a hash now ↔ r ∈ s.rows ∧ r.projectId = a.projectId ∧ r.capability = a.capability ∧
      r.payloadHash = hash ∧ inFlight (s.live r.id).status = true ∧ now - dedupWindow < r.createdAt := by
  simp [inflightRuns, and_assoc]

/-- A committed run that is unfinished and recent. -/
def RunInFlight (s : CreateSys) (id : ℕ) (now : Time) : Prop :=
  ∃ row ∈ s.rows, row.id = id ∧ inFlight (s.live id).status = true ∧ now - dedupWindow < row.createdAt

/-- The row behind the id a call without a key answered with. -/
theorem RunDedupInv.row (hi : RunDedupInv E s) (hc : c ∈ s.calls) {r : CreateResult} {id : ℕ}
    (hdone : c.phase = .done r) (hid : r.runId? = some id) (hkey : c.args.Keyless) :
    ∃ row ∈ s.rows, row.id = id ∧ row.IsOf E c.args := by
  have hb := hi.calls c hc hkey
  rw [hdone] at hb
  exact hb id hid

/-- **The lookup of a recreated run**: while the run of a row of a payload is unfinished and recent, its id
is the answer exactly when the call hashes to the same and no newer run of the payload overtakes it. -/
theorem findInflight_returns_iff (hu : RunDedupInv E u) {row : CreatedRun} (hrow : row ∈ u.rows)
    {a : CreateArgs} (hof : row.IsOf E a) (args : CreateArgs)
    (hplace : args.projectId = a.projectId ∧ args.capability = a.capability) {now : Time}
    (hlive : RunInFlight u row.id now) :
    (∃ hit, findInflight E u args now = some hit ∧ hit.id = row.id) ↔
      args.hash E = a.hash E ∧
        ¬Overtaken CreatedRun.createdAt (fun r => r.id = row.id) (inflightRuns u a (a.hash E) now) := by
  obtain ⟨live, hlrow, hlid, hst, hnow⟩ := hlive
  -- ids are not reused
  have hsame : ∀ x ∈ u.rows, x.id = row.id → x = row := fun x hx hxid =>
    hu.ids.eq_of_slot (List.mem_append_left _ hx) (List.mem_append_left _ hrow) (congrArg some hxid) rfl
  obtain rfl := hsame live hlrow hlid
  have hnewest : ∀ r r' : CreatedRun, newestRun r r' ↔ r'.createdAt ≤ r.createdAt := fun _ _ => Iff.rfl
  have hfind : findInflight E u args now =
      ((inflightRuns u args (args.hash E) now).insertionSort newestRun).head? := rfl
  rw [hfind]
  by_cases hhash : args.hash E = a.hash E
  · have hmem : live ∈ inflightRuns u a (a.hash E) now :=
      mem_inflightRuns.mpr ⟨hlrow, hof.project, hof.capability, hof.hash, hst, hnow⟩
    have hmatches : inflightRuns u args (args.hash E) now = inflightRuns u a (a.hash E) now := by
      simp only [inflightRuns, hplace.1, hplace.2, hhash]
    have hfirst : ∃ r ∈ inflightRuns u a (a.hash E) now, r.id = live.id := ⟨live, hmem, rfl⟩
    rw [hmatches, newest_iff hnewest hfirst]
    exact ⟨fun h => ⟨hhash, h⟩, fun h => h.2⟩
  · refine ⟨?_, fun h => absurd h.1 hhash⟩
    rintro ⟨hit, hhead, hhit⟩
    have hmem := (List.mem_insertionSort newestRun).mp (List.mem_of_head? hhead)
    obtain ⟨hrows, -, -, hh, -⟩ := mem_inflightRuns.mp hmem
    obtain rfl := hsame hit hrows hhit
    exact absurd (hh.symm.trans hof.hash) hhash

end Broker.Agent
