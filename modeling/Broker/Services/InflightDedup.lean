import Broker.Lib.Newest
import Broker.Services.Submit

/-!
# Broker.Services.InflightDedup — resubmitting without a key

A submission without an Idempotency-Key looks for an unfinished job of its payload.  The row behind every id
such a call has returned carries the call's own hash (`DedupInv`), so a later call of the same payload finds
it while it is unfinished and recent, unless another such job is newer (`lookup_returns_iff`).
-/

namespace Broker.Services

open Broker.Lib Broker.Db

variable {cfg : QueueConfig} {E : HashEnv} {s s' u : SubmitSys} {c : SubmitCall}

/-- The row of a job with the payload of a call. -/
structure KeyCols.IsOf (E : HashEnv) (a : SubmitArgs) (r : KeyCols) : Prop where
  project : r.projectId = a.projectId
  capability : r.capability = a.capability
  hash : r.payloadHash = some (a.hash E)

/-- What a call without a key may rely on while no lookup fails. -/
def SubmitCall.Booked (E : HashEnv) (cols : List KeyCols) (c : SubmitCall) : Prop :=
  c.args.keyed = false → match c.phase with
    | .degraded | .recover => False
    | .inserted row _ => row.IsOf E c.args
    | .done (.returned id _) => ∃ row ∈ cols, row.id = id ∧ row.IsOf E c.args
    | _ => True

theorem SubmitCall.Booked.mono {cols cols' : List KeyCols} (h : c.Booked E cols) (hsub : ∀ r ∈ cols, r ∈ cols') :
    c.Booked E cols' := by
  intro hkey
  have hb := h hkey
  revert hb
  cases c.phase with
  | done r =>
    cases r with
    | returned id replayed =>
      rintro ⟨row, hrow, hfacts⟩
      exact ⟨row, hsub row hrow, hfacts⟩
    | _ => exact id
  | _ => exact id

/-- No lookup fails. -/
def LookupsSucceed (_ : SubmitSys) : SubmitAct → Prop
  | .lookupBroken _ => False
  | _ => True

/-- No worker has given the dedup up, and every call without a key returned a job of its payload. -/
structure DedupInv (E : HashEnv) (s : SubmitSys) : Prop where
  on : s.dedupOff = []
  calls : ∀ c ∈ s.calls, c.Booked E s.cols

/-- An unfinished job the lookup of a submission matches. -/
def inflightMatches (s : SubmitSys) (a : SubmitArgs) (hash : String) (now : Time) : List PlainJobRow :=
  let ids := (s.cols.filter fun r =>
    r.projectId = a.projectId && r.capability = a.capability && r.payloadHash = some hash).map KeyCols.id
  s.queue.rows.filter fun r => ids.contains r.id && !r.status.terminal && now - dedupWindow < r.createdAt

theorem findInflightDuplicate_eq (s : SubmitSys) (a : SubmitArgs) (hash : String) (now : Time) :
    findInflightDuplicate s a hash now =
      (((inflightMatches s a hash now).insertionSort newestFirst).head?).map (·.id) := rfl

theorem mem_inflightMatches {a : SubmitArgs} {hash : String} {now : Time} {q : PlainJobRow} :
    q ∈ inflightMatches s a hash now ↔ q ∈ s.queue.rows ∧ (∃ r ∈ s.cols, r.id = q.id ∧
      r.projectId = a.projectId ∧ r.capability = a.capability ∧ r.payloadHash = some hash) ∧
      q.status.terminal = false ∧ now - dedupWindow < q.createdAt := by
  simp only [inflightMatches, List.mem_filter, Bool.and_eq_true, List.contains_iff_mem, List.mem_map,
    decide_eq_true_eq, Bool.not_eq_true']
  constructor
  · rintro ⟨hq, ⟨⟨r, ⟨hr, ⟨hp, hc⟩, hh⟩, hid⟩, hst⟩, hnow⟩
    exact ⟨hq, ⟨r, hr, hid, hp, hc, hh⟩, hst, hnow⟩
  · rintro ⟨hq, ⟨r, hr, hid, hp, hc, hh⟩, hst, hnow⟩
    exact ⟨hq, ⟨⟨r, ⟨hr, ⟨hp, hc⟩, hh⟩, hid⟩, hst⟩, hnow⟩

/-- What the lookup finds is the row of a job of the payload. -/
theorem isOf_of_findInflightDuplicate {a : SubmitArgs} {now : Time} {id : ℕ}
    (h : findInflightDuplicate s a (a.hash E) now = some id) : ∃ row ∈ s.cols, row.id = id ∧ row.IsOf E a := by
  rw [findInflightDuplicate_eq] at h
  obtain ⟨q, hq, rfl⟩ := Option.map_eq_some_iff.mp h
  have hmem : q ∈ inflightMatches s a (a.hash E) now := (List.mem_insertionSort newestFirst).mp (List.mem_of_head? hq)
  obtain ⟨-, ⟨r, hr, hid, hp, hc, hh⟩, -⟩ := mem_inflightMatches.mp hmem
  exact ⟨r, hr, hid, hp, hc, hh⟩

theorem booked_lookupPhase (hoff : s.dedupOff = []) (c : SubmitCall) (now : Time) :
    ({ c with phase := lookupPhase E s c now } : SubmitCall).Booked E s.cols := by
  intro hkey
  have hkeyed : ¬c.args.keyed = true := by simpa using hkey
  have hon : c.worker ∉ s.dedupOff := by simp [hoff]
  simp only [lookupPhase, if_neg hkeyed, if_neg hon]
  cases hf : findInflightDuplicate s c.args (c.args.hash E) now with
  | none => trivial
  | some id => exact isOf_of_findInflightDuplicate hf

theorem booked_flushPhase (c : SubmitCall) (now : Time) :
    ({ c with phase := flushPhase E s c false now } : SubmitCall).Booked E s.cols := by
  intro hkey
  have hkeyed : ¬c.args.keyed = true := by simpa using hkey
  simp only [flushPhase]
  split_ifs
  · trivial
  · exact ⟨rfl, rfl, rfl⟩

/-- A statement of a call leaves it booked. -/
theorem booked_stepCall (hi : DedupInv E s) {i : ℕ} {a : SubmitAct} (hc : c ∈ s.calls)
    (ha : LookupsSucceed s a) (h : stepCall cfg E s i c a = some s') :
    s'.dedupOff = s.dedupOff ∧ (∀ r ∈ s.cols, r ∈ s'.cols) ∧
      ∃ p, s'.calls = s.calls.set i { c with phase := p } ∧ ({ c with phase := p } : SubmitCall).Booked E s'.cols := by
  have hb := hi.calls c hc
  cases a with
  | lookup j now =>
    simp only [stepCall] at h
    split at h
    · obtain rfl := Option.some.inj h
      exact ⟨rfl, fun r hr => hr, _, rfl, booked_lookupPhase hi.on c now⟩
    · cases h
  | lookupBroken j => exact absurd ha id
  | flush j now =>
    simp only [stepCall] at h
    split at h
    · split_ifs at h
      obtain rfl := Option.some.inj h
      exact ⟨rfl, fun r hr => hr, _, rfl, booked_flushPhase c now⟩
    · rename_i hphase
      obtain rfl := Option.some.inj h
      refine ⟨rfl, fun r hr => hr, _, rfl, fun hkey => ?_⟩
      have hno := hb hkey
      rw [hphase] at hno
      exact absurd hno id
    · cases h
  | commit j =>
    simp only [stepCall] at h
    split at h
    · rename_i row job hphase
      obtain rfl := Option.some.inj h
      refine ⟨rfl, fun r hr => List.mem_append_left _ hr, _, rfl, fun hkey => ?_⟩
      have hrow := hb hkey
      rw [hphase] at hrow
      exact ⟨row, List.mem_append_right _ (List.mem_singleton.mpr rfl), rfl, hrow⟩
    · cases h
  | commitFails j committed =>
    simp only [stepCall] at h
    split at h
    · obtain rfl := Option.some.inj h
      cases committed with
      | true => exact ⟨rfl, fun r hr => List.mem_append_left _ hr, _, rfl, fun _ => trivial⟩
      | false => exact ⟨rfl, fun r hr => hr, _, rfl, fun _ => trivial⟩
    · cases h
  | recover j =>
    simp only [stepCall] at h
    split at h
    · rename_i hphase
      obtain rfl := Option.some.inj h
      refine ⟨rfl, fun r hr => hr, _, rfl, fun hkey => ?_⟩
      have hno := hb hkey
      rw [hphase] at hno
      exact absurd hno id
    · cases h
  | fails j =>
    simp only [stepCall] at h
    split at h
    case h_5 => cases h
    all_goals
      obtain rfl := Option.some.inj h
      exact ⟨rfl, fun r hr => hr, _, rfl, fun _ => trivial⟩
  | call w args => cases h
  | queue a => cases h
  | agentRun row => cases h

theorem DedupInv.of_calls (hi : DedupInv E s) (hon : s'.dedupOff = s.dedupOff) (hsub : ∀ r ∈ s.cols, r ∈ s'.cols)
    (hcalls : ∀ c ∈ s'.calls, c ∈ s.calls ∨ c.Booked E s'.cols) : DedupInv E s' := by
  refine ⟨hon.trans hi.on, fun c hc => ?_⟩
  rcases hcalls c hc with h | h
  · exact (hi.calls c h).mono hsub
  · exact h

theorem DedupInv.step (hi : DedupInv E s) {a : SubmitAct} (ha : LookupsSucceed s a)
    (h : s.step cfg E a = some s') : DedupInv E s' := by
  have hcall : ∀ {i : ℕ} {c : SubmitCall}, s.calls[i]? = some c → stepCall cfg E s i c a = some s' →
      DedupInv E s' := by
    intro i c hc h
    obtain ⟨hon, hsub, p, hcalls, hbooked⟩ := booked_stepCall hi (List.mem_of_getElem? hc) ha h
    refine hi.of_calls hon hsub fun d hd => ?_
    rw [hcalls] at hd
    rcases List.mem_or_eq_of_mem_set hd with hd | rfl
    · exact .inl hd
    · exact .inr hbooked
  cases a with
  | call w args =>
    obtain rfl := Option.some.inj h
    refine hi.of_calls rfl (fun r hr => hr) fun d hd => ?_
    rcases List.mem_append.mp hd with hd | hd
    · exact .inl hd
    · rw [List.mem_singleton.mp hd]
      exact .inr fun _ => trivial
  | queue qa =>
    simp only [SubmitSys.step] at h
    unfold SubmitSys.stepQueue at h
    split at h
    · cases h
    · obtain ⟨q, -, rfl⟩ := Option.map_eq_some_iff.mp h
      exact hi.of_calls rfl (fun r hr => hr) fun d hd => .inl hd
  | agentRun row =>
    simp only [SubmitSys.step] at h
    split_ifs at h
    obtain rfl := Option.some.inj h
    exact hi.of_calls rfl (fun r hr => List.mem_append_left _ hr) fun d hd => .inl hd
  | lookupBroken i => exact absurd ha id
  | lookup i now | flush i now | commit i | commitFails i committed | recover i | fails i =>
    simp only [SubmitSys.step, SubmitAct.call?] at h
    split at h
    · cases h
    · rename_i c hc
      exact hcall hc h

theorem DedupInv.run {as : List SubmitAct} (hi : DedupInv E s)
    (h : Steps (SubmitSys.step cfg E) LookupsSucceed s as u) : DedupInv E u :=
  h.inv (I := DedupInv E) (fun _ _ _ ht ha hs => ht.step ha hs) hi

/-- The row behind the id a call without a key returned. -/
theorem DedupInv.row (hi : DedupInv E s) (hc : c ∈ s.calls) {id : ℕ} {replayed : Bool}
    (hdone : c.phase = .done (.returned id replayed)) (hkey : c.args.keyed = false) :
    ∃ row ∈ s.cols, row.id = id ∧ row.IsOf E c.args := by
  have hb := hi.calls c hc hkey
  rw [hdone] at hb
  exact hb

/-- **The lookup of a resubmission**: while the job of a row of the payload is unfinished and recent, its id
is the answer unless a newer job of the payload overtakes it. -/
theorem lookup_returns_iff (hon : u.dedupOff = []) {row : KeyCols} (hrow : row ∈ u.cols) {a : SubmitArgs}
    (hof : row.IsOf E a) (hkey : c.args.keyed = false)
    (hplace : c.args.projectId = a.projectId ∧ c.args.capability = a.capability)
    (hhash : c.args.hash E = a.hash E) {now : Time}
    (hlive : ∃ q ∈ u.queue.rows, q.id = row.id ∧ q.status.terminal = false ∧ now - dedupWindow < q.createdAt) :
    lookupPhase E u c now = .done (.returned row.id false) ↔
      ¬Overtaken (fun q : PlainJobRow => q.createdAt) (fun q => q.id = row.id)
        (inflightMatches u a (a.hash E) now) := by
  obtain ⟨q, hq, hqid, hst, hnow⟩ := hlive
  have hmem : q ∈ inflightMatches u a (a.hash E) now :=
    mem_inflightMatches.mpr ⟨hq, ⟨row, hrow, hqid.symm, hof.project, hof.capability, hof.hash⟩, hst, hnow⟩
  have hnewest : ∀ r r' : PlainJobRow, newestFirst r r' ↔ r'.createdAt ≤ r.createdAt := fun _ _ => Iff.rfl
  rw [← newest_iff hnewest ⟨q, hmem, hqid⟩]
  have hmatches : inflightMatches u c.args (c.args.hash E) now = inflightMatches u a (a.hash E) now := by
    simp only [inflightMatches, hplace.1, hplace.2, hhash]
  have hkeyed : ¬c.args.keyed = true := by simpa using hkey
  have hworker : c.worker ∉ u.dedupOff := by simp [hon]
  simp only [lookupPhase, if_neg hkeyed, if_neg hworker, findInflightDuplicate_eq, hmatches]
  cases hhead : ((inflightMatches u a (a.hash E) now).insertionSort newestFirst).head? with
  | none => simp
  | some x => simp

end Broker.Services
