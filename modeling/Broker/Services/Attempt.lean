import Broker.Routing.Admission

/-!
# Broker.Services.Attempt — one key attempt, with a fate for every await

`run_attempt`: reserve the estimate, call the provider, release the reservation, pass the answer through
the quality gate, book it.  The refund after the call runs as a shielded task, and so does the booking of
an accepted answer; the booking of a rejected one is awaited directly.
-/

namespace Broker.Services

open Broker.Lib Broker.Routing

inductive Flow | nextKey | nextProvider | budgetExhausted | success
  deriving DecidableEq, Repr

/-- What the call reports beside its payload. -/
structure CallMeta where
  cost : ℚ
  tokensIn : ℕ := 0
  tokensOut : ℕ := 0

/-- A billed but unusable answer. -/
structure Rejection where
  errorKind : String
  flow : Flow
  httpStatus : ℕ := 200
  bill : Bool := true

/-- A failed decryption or call, as `classify_provider_error` and its kin see it. -/
structure CallError where
  errorKind : String
  status : String := "error"
  httpStatus : Option ℕ := none
  modelUnavailable : Bool := false
  tooLarge : Bool := false

/-- How the provider call ends. -/
inductive CallEnd (π : Type) where
  | returned (payload : π) (info : CallMeta)
  | failed (e : CallError)
  | cancelled

structure Attempt (π : Type) where
  key : ApiKeyRow
  project : ProjectCaps
  estimatedCost : ℚ := 0
  /-- The registry prices the model as free. -/
  knownFree : Bool := false
  /-- `bills_on_free_key(model)`. -/
  billsOnFreeKey : Bool := false
  estTokens : ℕ := 0
  /-- The quality gate, which may itself raise; its call stands outside every `try`. -/
  check : π → CallMeta → Except String (Option Rejection) := fun _ _ => .ok none
  capFlow : Flow := .nextProvider
  reserve : Bool := true
  penalize : Bool := true
  noteAffinity : Bool := true

/-- The fates of the awaits of `run_attempt` itself; for a shielded await, whether it is cancelled. -/
structure AttemptFates (π : Type) where
  decrypt : Option CallError := none
  call : CallEnd π
  refundAfterError : Bool := false
  refund : Bool := false
  recordRejection : Interrupt := .none
  recordUsage : Bool := false
  affinity : Fate String := .ok
  blockAudit : Fate String := .ok
  blockUsage : Fate String := .ok
  penalty : Fate String := .ok
  tooLarge : Fate String := .ok
  recordError : Fate String := .ok

structure AttemptResult (π : Type) where
  flow : Flow
  payload : Option π := none
  rejection : Option String := none

section RunAttempt

variable {π : Type} (a : Attempt π) (w : Surroundings) (f : AttemptFates π)

/-- The reservation to give back: `run_attempt`'s `reserved`. -/
def Attempt.reserved : ℚ := if a.reserve ∧ 0 < a.estimatedCost then a.estimatedCost else 0

/-- `_billed_cost`. -/
def billedCost (info : CallMeta) : ℚ := if a.key.tier = .free ∧ a.billsOnFreeKey = false then 0 else info.cost

/-- `meta` with its cost replaced by the billed one. -/
def billedMeta (info : CallMeta) : CallMeta := { info with cost := billedCost a info }

/-- `_release_reservation`, for a reservation that was taken; `release_cost` skips an uncapped key. -/
def releaseReservation (cancelled : Bool) : Proc Write Exc Unit :=
  if a.reserved = 0 then pure ()
  else Proc.shield cancelled (if a.key.capped then [.refund a.reserved] else [])

/-- `_record_error`: a failed attempt books no cost. -/
def recordError (e : CallError) : Proc Write Exc Unit :=
  awaitDb f.recordError
    [.usage { cost := 0, status := e.status, errorKind := some e.errorKind, httpStatus := e.httpStatus }]

/-- `_penalize`, of an attempt that may cool or kill its key. -/
def penalizeKey : Proc Write Exc Unit := if a.penalize then awaitDb f.penalty [] else pure ()

/-- `affinity.note_success`, of an attempt that takes part in it. -/
def noteSuccess : Proc Write Exc Unit := if a.noteAffinity then awaitDb f.affinity [] else pure ()

/-- `_handle_call_error`. -/
def handleCallError (e : CallError) : Proc Write Exc Flow :=
  if e.modelUnavailable then do
    recordError f e
    pure .nextProvider
  else do
    penalizeKey a f
    if 0 < a.estTokens ∧ e.tooLarge then do
      awaitDb f.tooLarge []
      recordError f e
      pure .nextProvider
    else do
      recordError f e
      pure .nextKey

/-- `_block_on_cap`. -/
def blockOnCap (e : CostGuardError) : Proc Write Exc Flow := do
  awaitDb f.blockAudit []
  awaitDb f.blockUsage
    [.usage { cost := 0, status := "error", errorKind := some "CapBlock", httpStatus := some 402 }]
  pure (if e.kind = .project ∨ e.kind = .global then .budgetExhausted else a.capFlow)

/-- The usage row of a rejected answer. -/
def rejectionRow (rej : Rejection) (info : CallMeta) : UsageRow where
  cost := if rej.bill then info.cost else 0
  tokensIn := if rej.bill then info.tokensIn else 0
  tokensOut := if rej.bill then info.tokensOut else 0
  status := "error"
  errorKind := some rej.errorKind
  httpStatus := some rej.httpStatus

/-- The usage row of an accepted answer. -/
def successRow (info : CallMeta) : UsageRow where
  cost := info.cost
  tokensIn := info.tokensIn
  tokensOut := info.tokensOut
  status := "ok"
  httpStatus := some 200

/-- The quality gate and the booking of an answer. -/
def bookAnswer (payload : π) (info : CallMeta) : Proc Write Exc (AttemptResult π) :=
  match a.check payload info with
  | .error msg => Proc.raise (.exc (.other msg))
  | .ok (some rej) => do
    Proc.awaitSafe f.recordRejection [.usage (rejectionRow rej info)]
    pure ⟨rej.flow, some payload, some rej.errorKind⟩
  | .ok none => do
    Proc.shield f.recordUsage [.usage (successRow info)]
    noteSuccess a f
    pure ⟨.success, some payload, none⟩

/-- What follows the provider's answer. -/
def afterAnswer (payload : π) (info : CallMeta) : Proc Write Exc (AttemptResult π) := do
  releaseReservation a f.refund
  bookAnswer a f payload info

/-- `decrypt` runs inside the `try` of the call. -/
def callEnd : CallEnd π :=
  match f.decrypt with
  | some e => .failed e
  | none => f.call

/-- The call and what follows it, once the reservation is made. -/
def afterReserve : Proc Write Exc (AttemptResult π) :=
  match callEnd f with
  | .returned payload info => afterAnswer a f payload (billedMeta a info)
  | .failed e => do
    releaseReservation a f.refundAfterError
    let flow ← handleCallError a f e
    pure ⟨flow, none, none⟩
  | .cancelled => do
    releaseReservation a f.refundAfterError
    Proc.raise .cancelled

/-- What `reserve_cost` does in this attempt. -/
def reservation : Proc Write Exc Unit := reserveCost a.key a.project a.estimatedCost a.knownFree w

/-- `run_attempt` up to its first `return`: a `CostGuardError` ends the attempt, any other exception of
`reserve_cost` passes through. -/
def reserveOrBlock : Proc Write Exc (Option (AttemptResult π)) :=
  if a.reserve then
    (do
      reservation a w
      pure none).handle fun
        | .exc (.guard e) => do
          let flow ← blockOnCap a f e
          pure (some ⟨flow, none, none⟩)
        | e => Proc.raise e
  else pure none

def runAttempt : Proc Write Exc (AttemptResult π) := do
  match ← reserveOrBlock a w f with
  | some result => pure result
  | none => afterReserve a f

end RunAttempt

variable {π : Type} {a : Attempt π} {w : Surroundings} {f : AttemptFates π}

/-! ### The log of an attempt -/

theorem runAttempt_of_reserve_false (h : a.reserve = false) :
    (runAttempt a w f).log = (afterReserve a f).log := by
  unfold runAttempt reserveOrBlock
  rw [if_neg (by simp [h]), Proc.bind_of_ok rfl]
  rfl

theorem runAttempt_of_held (h : a.reserve = true) (ho : (reservation a w).out = .ok ()) :
    (runAttempt a w f).log = (reservation a w).log ++ (afterReserve a f).log := by
  have hblock : reserveOrBlock a w f = ⟨(reservation a w).log, .ok none⟩ := by
    unfold reserveOrBlock
    rw [if_pos h, Proc.bind_of_ok ho, Proc.handle_of_ok rfl, Proc.log_pure, List.append_nil]
    rfl
  unfold runAttempt
  rw [hblock, Proc.bind_of_ok rfl]

theorem idle_blockOnCap (e : CostGuardError) : (blockOnCap a f e).Emits Write.Idle := by
  refine (emits_awaitDb (List.forall_mem_nil _) _).bind fun _ => ?_
  exact (emits_awaitDb (List.forall_mem_singleton.mpr trivial) _).bind fun _ => Proc.emits_pure _

/-- An attempt that `reserve_cost` ends: a cap's block is booked, any other exception passes through. -/
theorem runAttempt_of_error {e : Raised Exc} (h : a.reserve = true) (ho : (reservation a w).out = .error e) :
    ∃ l, (runAttempt a w f).log = (reservation a w).log ++ l ∧ ∀ x ∈ l, x.Idle := by
  unfold runAttempt reserveOrBlock
  rw [if_pos h, Proc.bind_of_error ho, Proc.handle_of_error rfl]
  -- every end of the handler is a result or an exception, so the call is not made
  match e with
  | .cancelled => exact ⟨[], by rw [Proc.bind_of_error rfl]; rfl, List.forall_mem_nil _⟩
  | .exc (.other msg) => exact ⟨[], by rw [Proc.bind_of_error rfl]; rfl, List.forall_mem_nil _⟩
  | .exc (.guard g) =>
    refine ⟨(blockOnCap a f g).log, ?_, idle_blockOnCap g⟩
    cases hb : (blockOnCap a f g).out with
    | error e =>
      simp only [Proc.bind_of_error hb]
      rw [Proc.bind_of_error rfl]
    | ok flow =>
      simp only [Proc.bind_of_ok hb]
      rw [Proc.bind_of_ok rfl]
      simp

/-! ### The answer of an attempt -/

theorem handleCallError_flow {e : CallError} {flow : Flow} (h : (handleCallError a f e).out = .ok flow) :
    flow = .nextProvider ∨ flow = .nextKey := by
  have hbook : ∀ {fl : Flow}, (do recordError f e; pure fl : Proc Write Exc Flow).out = .ok flow →
    fl = flow := by
    intro fl h
    obtain ⟨_, -, h⟩ := Proc.bind_returns.mp h
    exact Except.ok.inj h
  unfold handleCallError at h
  split_ifs at h
  · exact .inl (hbook h).symm
  · obtain ⟨_, -, h⟩ := Proc.bind_returns.mp h
    obtain ⟨_, -, h⟩ := Proc.bind_returns.mp h
    exact .inl (hbook h).symm
  · obtain ⟨_, -, h⟩ := Proc.bind_returns.mp h
    exact .inr (hbook h).symm

theorem blockOnCap_flow {e : CostGuardError} {flow : Flow} (hcap : a.capFlow ≠ .success)
    (h : (blockOnCap a f e).out = .ok flow) : flow ≠ .success := by
  unfold blockOnCap at h
  obtain ⟨_, -, h⟩ := Proc.bind_returns.mp h
  obtain ⟨_, -, h⟩ := Proc.bind_returns.mp h
  obtain rfl := Except.ok.inj h
  split_ifs
  · simp
  · exact hcap

theorem reserveOrBlock_flow {res : AttemptResult π} (hcap : a.capFlow ≠ .success)
    (h : (reserveOrBlock a w f).out = .ok (some res)) : res.flow ≠ .success := by
  unfold reserveOrBlock at h
  split_ifs at h
  · rcases Proc.handle_returns h with h | ⟨e, -, h⟩
    · obtain ⟨_, -, h⟩ := Proc.bind_returns.mp h
      cases h
    · -- only the block of a cap is turned into a result
      match e with
      | .cancelled => cases h
      | .exc (.other msg) => cases h
      | .exc (.guard g) =>
        obtain ⟨flow, hflow, h⟩ := Proc.bind_returns.mp h
        obtain rfl := Option.some.inj (Except.ok.inj h)
        exact blockOnCap_flow hcap hflow
  · cases h

/-- **A successful attempt returns what the provider answered and the gate let through.** -/
theorem runAttempt_success {res : AttemptResult π} (hcap : a.capFlow ≠ .success)
    (hrej : ∀ payload info rej, a.check payload info = .ok (some rej) → rej.flow ≠ .success)
    (h : (runAttempt a w f).out = .ok res) (hs : res.flow = .success) :
    ∃ payload info, callEnd f = .returned payload info ∧ res.payload = some payload ∧
      a.check payload (billedMeta a info) = .ok none := by
  unfold runAttempt at h
  obtain ⟨o, ho, h⟩ := Proc.bind_returns.mp h
  cases o with
  | some result =>
    obtain rfl := Except.ok.inj h
    exact absurd hs (reserveOrBlock_flow hcap ho)
  | none =>
    have hafter : (afterReserve a f).out = .ok res := h
    unfold afterReserve at hafter
    split at hafter
    · rename_i payload info hcall
      refine ⟨payload, info, hcall, ?_⟩
      obtain ⟨_, -, hbook⟩ := Proc.bind_returns.mp hafter
      unfold bookAnswer at hbook
      split at hbook
      · cases hbook
      · rename_i rej hcheck
        obtain ⟨_, -, hres⟩ := Proc.bind_returns.mp hbook
        obtain rfl := Except.ok.inj hres
        exact absurd hs (hrej _ _ _ hcheck)
      · rename_i hcheck
        obtain ⟨_, -, hbook⟩ := Proc.bind_returns.mp hbook
        obtain ⟨_, -, hres⟩ := Proc.bind_returns.mp hbook
        obtain rfl := Except.ok.inj hres
        exact ⟨rfl, hcheck⟩
    · rename_i e _
      obtain ⟨_, -, hhandled⟩ := Proc.bind_returns.mp hafter
      obtain ⟨flow, hflow, hres⟩ := Proc.bind_returns.mp hhandled
      obtain rfl := Except.ok.inj hres
      rcases handleCallError_flow hflow with rfl | rfl <;> cases hs
    · obtain ⟨_, -, hraise⟩ := Proc.bind_returns.mp hafter
      cases hraise

/-! ### The refund of the reservation -/

/-- The refund the attempt owes once its reservation is made. -/
def owedRefund (a : Attempt π) : List Write :=
  if a.reserved = 0 then [] else if a.key.capped then [.refund a.reserved] else []

theorem log_releaseReservation (cancelled : Bool) : (releaseReservation a cancelled).log = owedRefund a := by
  unfold releaseReservation owedRefund
  split_ifs <;> rfl

/-- What follows the release books usage and refunds nothing. -/
theorem log_releaseReservation_bind {α : Type} {k : Unit → Proc Write Exc α} (cancelled : Bool)
    (hk : (k ()).Emits Write.Idle) :
    ∃ l, (releaseReservation a cancelled >>= k).log = owedRefund a ++ l ∧ ∀ x ∈ l, x.Idle := by
  cases ho : (releaseReservation a cancelled).out with
  | ok u =>
    rw [Proc.bind_of_ok ho, log_releaseReservation]
    exact ⟨_, rfl, hk⟩
  | error e =>
    rw [Proc.bind_of_error ho, log_releaseReservation]
    exact ⟨[], (List.append_nil _).symm, List.forall_mem_nil _⟩

theorem idle_recordError (e : CallError) : (recordError f e).Emits Write.Idle :=
  emits_awaitDb (List.forall_mem_singleton.mpr trivial) _

theorem idle_handleCallError (e : CallError) : (handleCallError a f e).Emits Write.Idle := by
  have hbook : ∀ flow : Flow, (do recordError f e; pure flow : Proc Write Exc Flow).Emits Write.Idle :=
    fun flow => (idle_recordError e).bind fun _ => Proc.emits_pure _
  unfold handleCallError
  by_cases hm : e.modelUnavailable = true
  · rw [if_pos hm]
    exact hbook _
  · rw [if_neg hm]
    refine Proc.Emits.bind ?_ fun _ => ?_
    · unfold penalizeKey
      split_ifs
      · exact emits_awaitDb (List.forall_mem_nil _) _
      · exact Proc.emits_pure _
    · split_ifs
      · exact (emits_awaitDb (List.forall_mem_nil _) _).bind fun _ => hbook _
      · exact hbook _

/-- The gate and the booking of an answer. -/
theorem idle_bookAnswer (payload : π) (info : CallMeta) : (bookAnswer a f payload info).Emits Write.Idle := by
  have husage : ∀ row : UsageRow, ∀ x ∈ [Write.usage row], x.Idle :=
    fun row => List.forall_mem_singleton.mpr trivial
  unfold bookAnswer
  split
  · exact Proc.emits_raise _
  · exact (Proc.emits_awaitSafe (husage _) _).bind fun _ => Proc.emits_pure _
  · refine (Proc.emits_shield (husage _) _).bind fun _ => Proc.Emits.bind ?_ fun _ => Proc.emits_pure _
    unfold noteSuccess
    split_ifs
    · exact emits_awaitDb (List.forall_mem_nil _) _
    · exact Proc.emits_pure _

/-- However the call ends, the reservation is given back once. -/
theorem log_afterReserve : ∃ l, (afterReserve a f).log = owedRefund a ++ l ∧ ∀ x ∈ l, x.Idle := by
  unfold afterReserve
  split
  · exact log_releaseReservation_bind _ (idle_bookAnswer _ _)
  · exact log_releaseReservation_bind _ ((idle_handleCallError _).bind fun _ => Proc.emits_pure _)
  · exact log_releaseReservation_bind _ (Proc.emits_raise _)

/-- The reservation of the attempt can be left behind: it is taken on a capped key and `reserve_cost`
leaves it in place. -/
def AttemptLeaks (a : Attempt π) (w : Surroundings) : Prop :=
  a.reserve = true ∧ a.key.capped = true ∧ 0 < a.estimatedCost ∧
    Leaks a.key a.project a.estimatedCost a.knownFree w

/-- A positive estimate on a capped key: the debit is refunded unless `reserve_cost` leaves it behind. -/
theorem settled_runAttempt_of_capped (hr : a.reserve = true) (hcap : a.key.capped = true)
    (hest : 0 < a.estimatedCost) :
    Settled (runAttempt a w f).log ↔ ¬ Leaks a.key a.project a.estimatedCost a.knownFree w := by
  cases reserveCost_spec hcap hest a.project a.knownFree w with
  | held hlog ho h =>
    have howed : owedRefund a = [.refund a.estimatedCost] := by
      simp [owedRefund, Attempt.reserved, hr, hest, hcap, hest.ne']
    have hlog' : (reservation a w).log = [.debit a.estimatedCost] := hlog
    obtain ⟨l, hl, hidle⟩ := log_afterReserve (a := a) (f := f)
    rw [runAttempt_of_held hr ho, hl, howed, hlog', ← List.append_assoc, settled_append_idle hidle]
    exact iff_of_true (settled_debit_refund hest) h
  | refused e hlog ho h =>
    obtain ⟨l, hl, hidle⟩ := runAttempt_of_error (f := f) hr ho
    rw [hl, settled_append_idle hidle]
    exact iff_of_true hlog h
  | raised e hlog ho he =>
    obtain ⟨l, hl, hidle⟩ := runAttempt_of_error (f := f) hr ho
    rw [hl, settled_append_idle hidle]
    exact hlog

/-- Without a reservation, a cap or a positive estimate nothing is debited and nothing is owed. -/
theorem owedRefund_eq_nil (h : ¬ (a.reserve = true ∧ a.key.capped = true ∧ 0 < a.estimatedCost)) :
    owedRefund a = [] := by
  unfold owedRefund Attempt.reserved
  by_cases hres : a.reserve = true ∧ 0 < a.estimatedCost
  · have hcap : ¬ a.key.capped = true := fun hcap => h ⟨hres.1, hcap, hres.2⟩
    rw [if_neg hcap, ite_self]
  · rw [if_neg hres, if_pos rfl]

theorem settled_runAttempt_of_skipped (h : ¬ (a.reserve = true ∧ a.key.capped = true ∧ 0 < a.estimatedCost)) :
    Settled (runAttempt a w f).log := by
  obtain ⟨l, hl, hidle⟩ := log_afterReserve (a := a) (f := f)
  rw [owedRefund_eq_nil h, List.nil_append] at hl
  cases hr : a.reserve with
  | false =>
    rw [runAttempt_of_reserve_false hr, hl]
    exact settled_of_idle hidle
  | true =>
    have hskip : a.key.capped = false ∨ a.estimatedCost ≤ 0 := by
      by_contra hne
      rw [not_or, Bool.not_eq_false, not_le] at hne
      exact h ⟨hr, hne⟩
    have hsettled : Settled (reservation a w).log := settled_of_idle (idle_reserveCost hskip _ _ _)
    cases ho : (reservation a w).out with
    | ok u =>
      rw [runAttempt_of_held hr ho, hl, settled_append_idle hidle]
      exact hsettled
    | error e =>
      obtain ⟨l', hl', hidle'⟩ := runAttempt_of_error (f := f) hr ho
      rw [hl', settled_append_idle hidle']
      exact hsettled

/-- **Reservations are settled.**  Every debit of an attempt is refunded exactly once, however each of its
awaits ends, exactly when `reserve_cost` does not lose it: its commit is acknowledged, no spend lookup
after it raises, and no refund inside it is cancelled before it commits. -/
theorem attempt_settled_iff (a : Attempt π) (w : Surroundings) (f : AttemptFates π) :
    Settled (runAttempt a w f).log ↔ ¬ AttemptLeaks a w := by
  by_cases h : a.reserve = true ∧ a.key.capped = true ∧ 0 < a.estimatedCost
  · obtain ⟨hr, hcap, hest⟩ := h
    have hleaks : AttemptLeaks a w ↔ Leaks a.key a.project a.estimatedCost a.knownFree w := by
      simp [AttemptLeaks, hr, hcap, hest]
    rw [hleaks]
    exact settled_runAttempt_of_capped hr hcap hest
  · refine iff_of_true (settled_runAttempt_of_skipped h) fun hleak => ?_
    exact h ⟨hleak.1, hleak.2.1, hleak.2.2.1⟩

/-- A key with a daily cap, and a project with one. -/
def Attempt.sample : Attempt Unit where
  key := .sample
  project := ⟨some 10, none⟩
  estimatedCost := 1

/-- The spend lookup of the project ends with `fate`. -/
def lookupEnds (fate : Fate String) : Surroundings where
  today := fun | .daily => 1 | .monthly => 0
  stored := .sample
  projectDaily := { used := 2, fate := fate }
  projectMonthly := { used := 0 }
  globalCap := 0
  globalDaily := { used := 0 }

theorem reservation_sample (fate : Fate String) :
    reservation .sample (lookupEnds fate) = ⟨.debit 1 :: (awaitDb fate []).log, (awaitDb fate []).out⟩ := by
  have hzero : zeroCap .sample ⟨some 10, none⟩ 1 false = none := by
    norm_num [zeroCap, ApiKeyRow.sample]
    intro h
    cases h
  have hkey : (reserveKey (lookupEnds fate).today .sample 1 (lookupEnds fate).stored).isSome = true := by
    norm_num [lookupEnds, reserveKey, admitsKey, ApiKeyRow.sample, Counter.admits, Counter.fresh]
  have hchecks : runChecks .sample 1 (capChecks ⟨some 10, none⟩ (lookupEnds fate)) = awaitDb fate [] := by
    cases fate with
    | ok =>
      norm_num [runChecks, capChecks, lookupEnds, checkCap]
      rfl
    | failed | cancelled => rfl
  calc reservation .sample (lookupEnds fate)
      = reserveOnKey .sample 1 (lookupEnds fate) >>= fun _ =>
          runChecks .sample 1 (capChecks ⟨some 10, none⟩ (lookupEnds fate)) :=
        reserveCost_of_not_refused zero_lt_one hzero _
    _ = _ := by
        rw [reserveOnKey_of_isSome rfl hkey, hchecks]
        rfl

/-- The estimate is debited, the lookup of the project's spend fails, and the attempt ends there: the
debit is not refunded. -/
theorem debit_kept_by_failed_lookup :
    ¬ Settled (runAttempt .sample (lookupEnds (.failed "connection lost" false))
      { call := .returned () { cost := 1 } }).log := by
  have hres := reservation_sample (.failed "connection lost" false)
  obtain ⟨l, hl, hidle⟩ := runAttempt_of_error (f := { call := .returned () { cost := 1 } }) rfl
    (congrArg Proc.out hres)
  rw [hl, settled_append_idle hidle, hres]
  exact not_settled_debit zero_lt_one

/-! ### The booking of an answer -/

theorem usages_owedRefund : usages (owedRefund a) = [] := by
  unfold owedRefund
  split_ifs <;> rfl

/-- The attempt passed `reserve_cost` and its call returned. -/
structure Answered (a : Attempt π) (w : Surroundings) (f : AttemptFates π) (payload : π)
    (info : CallMeta) : Prop where
  admitted : a.reserve = true → (reservation a w).out = .ok ()
  returned : callEnd f = .returned payload info

/-- What the call costs: the billed cost, or nothing for a rejection that does not bill. -/
def answerCost (a : Attempt π) (payload : π) (info : CallMeta) : ℚ :=
  match a.check payload (billedMeta a info) with
  | .ok (some rej) => if rej.bill then billedCost a info else 0
  | _ => billedCost a info

/-- No cancellation while a reservation is refunded after the answer, nor before the row of a rejected
answer is committed, and a gate that comes to a verdict on the answer. -/
structure Undisturbed (a : Attempt π) (f : AttemptFates π) (payload : π) (info : CallMeta) : Prop where
  refund : a.reserved = 0 ∨ f.refund = false
  gate : (a.check payload (billedMeta a info)).isOk = true
  rejection : ∀ rej, a.check payload (billedMeta a info) = .ok (some rej) →
    f.recordRejection ≠ .cancelled false

theorem Answered.usages_eq {payload : π} {info : CallMeta} (h : Answered a w f payload info) :
    usages (runAttempt a w f).log = usages (afterAnswer a f payload (billedMeta a info)).log := by
  have hafter : afterReserve a f = afterAnswer a f payload (billedMeta a info) := by
    rw [afterReserve, h.returned]
  cases hr : a.reserve with
  | false => rw [runAttempt_of_reserve_false hr, hafter]
  | true =>
    rw [runAttempt_of_held hr (h.admitted hr), usages_append, hafter, reservation, usages_reserveCost,
      List.nil_append]

theorem usages_noteSuccess_bind (r : AttemptResult π) :
    usages (noteSuccess a f >>= fun _ => pure r : Proc Write Exc (AttemptResult π)).log = [] := by
  refine List.filterMap_eq_nil_iff.mpr ?_
  refine Proc.Emits.bind (P := fun x => Write.usage? x = none) ?_ fun _ => Proc.emits_pure r
  unfold noteSuccess
  split_ifs
  · exact emits_awaitDb (List.forall_mem_nil _) _
  · exact Proc.emits_pure _

open Classical in
/-- An accepted answer is booked by a task of its own; a rejected one is lost if its booking is cancelled,
and one on which the gate raises is lost. -/
theorem usages_bookAnswer (payload : π) (info : CallMeta) :
    (usages (bookAnswer a f payload (billedMeta a info)).log).map UsageRow.cost =
      if (a.check payload (billedMeta a info)).isOk = true ∧
        ∀ rej, a.check payload (billedMeta a info) = .ok (some rej) → f.recordRejection ≠ .cancelled false
      then [answerCost a payload info] else [] := by
  unfold bookAnswer answerCost
  cases hc : a.check payload (billedMeta a info) with
  | error msg => rw [if_neg fun h => Bool.false_ne_true h.1]; rfl
  | ok verdict =>
    cases verdict with
    | none =>
      rw [if_pos ⟨rfl, nofun⟩]
      cases hs : f.recordUsage with
      | true => rfl
      | false =>
        simp only [Proc.bind_of_ok (p := Proc.shield false _) rfl, usages_append, usages_noteSuccess_bind]
        rfl
    | some rej =>
      simp only [Except.ok.injEq, Option.some.injEq, forall_eq']
      cases hs : f.recordRejection with
      | none => rw [if_pos ⟨rfl, nofun⟩]; rfl
      | cancelled committed =>
        cases committed with
        | true => rw [if_pos ⟨rfl, nofun⟩]; rfl
        | false => rw [if_neg fun h => h.2 rfl]; rfl

/-- A cancelled refund ends the attempt before anything is booked. -/
theorem usages_afterAnswer_of_cancelled (hz : a.reserved ≠ 0) (hf : f.refund = true) (payload : π)
    (info : CallMeta) :
    usages (afterAnswer a f payload info).log = [] := by
  have ho : (releaseReservation a f.refund).out = .error .cancelled := by
    rw [releaseReservation, if_neg hz, hf]
    rfl
  unfold afterAnswer
  rw [Proc.bind_of_error ho, log_releaseReservation, usages_owedRefund]

/-- **An answered call is booked.**  Once the call returned, exactly one usage row with the billed cost is
written, whatever is cancelled afterwards, exactly when the gate does not raise and neither the refund nor
the booking of a rejection is cancelled. -/
theorem answered_call_booked_iff {payload : π} {info : CallMeta} (h : Answered a w f payload info) :
    (usages (runAttempt a w f).log).map UsageRow.cost = [answerCost a payload info] ↔
      Undisturbed a f payload info := by
  rw [h.usages_eq]
  by_cases hrefund : a.reserved = 0 ∨ f.refund = false
  · have ho : (releaseReservation a f.refund).out = .ok () := by
      unfold releaseReservation
      split_ifs with hz
      · rfl
      all_goals
        rw [hrefund.resolve_left hz]
        rfl
    unfold afterAnswer
    rw [Proc.bind_of_ok ho, log_releaseReservation, usages_append, usages_owedRefund, List.nil_append,
      usages_bookAnswer]
    split_ifs with hgate
    · exact iff_of_true rfl ⟨hrefund, hgate.1, hgate.2⟩
    · exact iff_of_false (by simp) fun hu => hgate ⟨hu.gate, hu.rejection⟩
  · obtain ⟨hz, hf⟩ := not_or.mp hrefund
    rw [usages_afterAnswer_of_cancelled hz (Bool.eq_true_of_not_eq_false hf)]
    exact iff_of_false (by simp) fun hu => hrefund hu.refund

theorem sample_answered (f : AttemptFates Unit) (info : CallMeta) (hf : callEnd f = .returned () info) :
    Answered .sample (lookupEnds .ok) f () info := by
  refine ⟨fun _ => ?_, hf⟩
  rw [reservation_sample]
  rfl

/-- The call is answered, and cancelled while its usage is written: the row is written all the same. -/
theorem answered_call_booked_of_late_cancel :
    (usages (runAttempt .sample (lookupEnds .ok)
      { call := .returned () { cost := 3 }, recordUsage := true }).log).map UsageRow.cost = [3] :=
  (answered_call_booked_iff (sample_answered _ { cost := 3 } rfl)).mpr ⟨.inr rfl, rfl, nofun⟩

/-- The call returns and the request is cancelled while its reservation is refunded. -/
def cancelledAtRefund : AttemptFates Unit where
  call := .returned () { cost := 3 }
  refund := true

/-- The call is answered, and the request is cancelled at the refund: the answer is billed and not booked. -/
theorem answer_lost_at_refund :
    Answered .sample (lookupEnds .ok) cancelledAtRefund () { cost := 3 } ∧
      answerCost .sample () { cost := 3 } = 3 ∧
      usages (runAttempt .sample (lookupEnds .ok) cancelledAtRefund).log = [] := by
  have h := sample_answered cancelledAtRefund { cost := 3 } rfl
  refine ⟨h, rfl, ?_⟩
  rw [h.usages_eq]
  exact usages_afterAnswer_of_cancelled (by norm_num [Attempt.reserved, Attempt.sample]) rfl _ _

end Broker.Services
