import Broker.Lib.Proc
import Broker.Routing.CostGuard

/-!
# Broker.Routing.Admission — `reserve_cost` with a fate for every await

The estimate is debited on the key in the middle of `reserve_cost`; three further caps are looked up
after it, and each that is exceeded refunds the key inside `reserve_cost`.  The project and global
lookups have one shape (`checkCap`).  The effects are the committed writes of the attempt; an exception
or a cancellation at an await may strike before or after its commit.
-/

namespace Broker.Routing

open Broker.Lib

inductive CapKind | apiKey | project | global
  deriving DecidableEq, Repr

structure CostGuardError where
  kind : CapKind
  limit : ℚ
  used : ℚ
  attempted : ℚ
  window : Window := .daily

/-- The exceptions of an attempt: a cap, or anything else. -/
inductive Exc where
  | guard (e : CostGuardError)
  | other (msg : String)

/-- A row of `usage_log`. -/
structure UsageRow where
  cost : ℚ
  tokensIn : ℕ := 0
  tokensOut : ℕ := 0
  status : String
  errorKind : Option String := none
  httpStatus : Option ℕ := none

/-- The committed writes of an attempt. -/
inductive Write where
  | debit (c : ℚ)
  | refund (c : ℚ)
  | usage (row : UsageRow)

/-- The caps of a project. -/
structure ProjectCaps where
  daily : Option ℚ
  monthly : Option ℚ

/-- A spend lookup: what it returns, how its await ends, and how the await of the refund ends that it
leads to. -/
structure SumQuery where
  used : ℚ
  fate : Fate String := .ok
  release : Interrupt := .none

/-- What `reserve_cost` meets: the stored key row, the spend lookups and the fates of its awaits. -/
structure Surroundings where
  today : Window → ℕ
  stored : ApiKeyRow
  reserve : Fate String := .ok
  projectDaily : SumQuery
  projectMonthly : SumQuery
  globalCap : ℚ
  globalCached : Bool := false
  globalDaily : SumQuery

/-- Await a database statement that commits `ws`. -/
def awaitDb (fate : Fate String) (ws : List Write) : Proc Write Exc Unit := Proc.await (fate.map .other) ws

section ReserveCost

variable (key : ApiKeyRow) (project : ProjectCaps) (est : ℚ)

/-- A cap of 0 refuses a paid key unless the model is known to be free. -/
def zeroCap (knownFree : Bool) : Option CostGuardError :=
  if key.tier = .paid ∧ knownFree = false then
    if key.daily.cap = some 0 then some ⟨.apiKey, 0, key.daily.used, est, .daily⟩
    else if key.monthly.cap = some 0 then some ⟨.apiKey, 0, key.monthly.used, est, .monthly⟩
    else if project.daily = some 0 then some ⟨.project, 0, 0, est, .daily⟩
    else if project.monthly = some 0 then some ⟨.project, 0, 0, est, .monthly⟩
    else none
  else none

/-- The error of a refused reservation, from the row the request loaded earlier. -/
def keyRefusal (month : ℕ) : CostGuardError :=
  let monthlyCap := key.monthly.cap.getD 0
  if key.monthly.cap.isSome ∧ key.monthly.resetAt = some month ∧ monthlyCap < key.monthly.used + est then
    ⟨.apiKey, monthlyCap, key.monthly.used, est, .monthly⟩
  else match key.daily.cap with
    | some cap => ⟨.apiKey, cap, key.daily.used, est, .daily⟩
    | none => ⟨.apiKey, monthlyCap, key.monthly.used, est, .monthly⟩

/-- `release_cost` awaited directly; for an uncapped key or no estimate it returns without an await. -/
def awaitRelease (i : Interrupt) : Proc Write Exc Unit :=
  if key.capped = false ∨ est ≤ 0 then pure () else Proc.awaitSafe i [.refund est]

/-- The per-key reservation. -/
def reserveOnKey (w : Surroundings) : Proc Write Exc Unit :=
  if key.capped then
    match reserveKey w.today key est w.stored with
    | some _ => awaitDb w.reserve [.debit est]
    | none => do
      awaitDb w.reserve []
      Proc.raise (.exc (.guard (keyRefusal key est (w.today .monthly))))
  else pure ()

/-- A project or global cap and the spend it is compared with. -/
structure CapCheck where
  kind : CapKind
  window : Window
  cap : Option ℚ
  query : SumQuery

/-- Look the spend up; over the cap, refund the key and raise. -/
def checkCap (c : CapCheck) : Proc Write Exc Unit :=
  match c.cap with
  | none => pure ()
  | some cap => do
    awaitDb c.query.fate []
    if cap < c.query.used + est then do
      awaitRelease key est c.query.release
      Proc.raise (.exc (.guard ⟨c.kind, cap, c.query.used, est, c.window⟩))
    else pure ()

def runChecks : List CapCheck → Proc Write Exc Unit
  | [] => pure ()
  | c :: cs => do
    checkCap key est c
    runChecks cs

/-- The project's two caps, then the global one; a cached global spend is not awaited. -/
def capChecks (w : Surroundings) : List CapCheck :=
  [⟨.project, .daily, project.daily, w.projectDaily⟩,
   ⟨.project, .monthly, project.monthly, w.projectMonthly⟩,
   ⟨.global, .daily, if 0 < w.globalCap then some w.globalCap else none,
    if w.globalCached then { w.globalDaily with fate := .ok } else w.globalDaily⟩]

def reserveCost (knownFree : Bool) (w : Surroundings) : Proc Write Exc Unit :=
  if key.tier = .free ∧ est ≤ 0 then pure ()
  else match zeroCap key project est knownFree with
    | some e => Proc.raise (.exc (.guard e))
    | none => do
      reserveOnKey key est w
      runChecks key est (capChecks project w)

end ReserveCost

theorem reserveCost_of_not_refused {key : ApiKeyRow} {project : ProjectCaps} {est : ℚ} {knownFree : Bool}
    (hest : 0 < est) (hz : zeroCap key project est knownFree = none) (w : Surroundings) :
    reserveCost key project est knownFree w =
      reserveOnKey key est w >>= fun _ => runChecks key est (capChecks project w) := by
  have hfree : ¬ (key.tier = .free ∧ est ≤ 0) := fun h => absurd h.2 (not_le.mpr hest)
  unfold reserveCost
  rw [if_neg hfree, hz]

/-- A reservation that some row matched. -/
theorem reserveOnKey_of_isSome {key : ApiKeyRow} {est : ℚ} {w : Surroundings} (hcap : key.capped = true)
    (hk : (reserveKey w.today key est w.stored).isSome = true) :
    reserveOnKey key est w = awaitDb w.reserve [.debit est] := by
  obtain ⟨k', hk'⟩ := Option.isSome_iff_exists.mp hk
  unfold reserveOnKey
  rw [if_pos hcap, hk']

/-! ### What was debited and what was refunded -/

def Write.debit? : Write → Option ℚ
  | .debit c => some c
  | _ => none

def Write.refund? : Write → Option ℚ
  | .refund c => some c
  | _ => none

def Write.usage? : Write → Option UsageRow
  | .usage row => some row
  | _ => none

def debits (log : List Write) : List ℚ := log.filterMap Write.debit?

def refunds (log : List Write) : List ℚ := log.filterMap Write.refund?

/-- The rows booked. -/
def usages (log : List Write) : List UsageRow := log.filterMap Write.usage?

@[simp] theorem debits_append (l l' : List Write) : debits (l ++ l') = debits l ++ debits l' :=
  List.filterMap_append

@[simp] theorem refunds_append (l l' : List Write) : refunds (l ++ l') = refunds l ++ refunds l' :=
  List.filterMap_append

@[simp] theorem usages_append (l l' : List Write) : usages (l ++ l') = usages l ++ usages l' :=
  List.filterMap_append

/-- Every debit that moved a counter is refunded exactly once, and nothing else is refunded. -/
def Settled (log : List Write) : Prop := refunds log = (debits log).filter (0 < ·)

/-! ### Where a debit can be left behind -/

/-- The lookup of a cap returns, below the cap. -/
def CapCheck.passes (est : ℚ) (c : CapCheck) : Prop :=
  ∀ cap, c.cap = some cap → c.query.fate.isOk = true ∧ c.query.used + est ≤ cap

/-- The lookup of a cap raises, or its refund is cancelled before it commits. -/
def CapCheck.struck (est : ℚ) (c : CapCheck) : Prop :=
  ∃ cap, c.cap = some cap ∧ (c.query.fate.isOk = false ∨
    (cap < c.query.used + est ∧ c.query.release = .cancelled false))

/-- Some check is struck after all before it passed. -/
def StruckIn (est : ℚ) : List CapCheck → Prop
  | [] => False
  | c :: cs => c.struck est ∨ (c.passes est ∧ StruckIn est cs)

/-- The ends of a procedure run after the debit: it goes on, it refuses or is cancelled with the debit
refunded, or it raises with the debit in place. -/
inductive AfterDebit (est : ℚ) (leak : Prop) (p : Proc Write Exc Unit) : Prop where
  | passed (hl : p.log = []) (ho : p.out = .ok ()) (h : ¬ leak)
  | refused (e : CostGuardError) (hl : p.log = [.refund est]) (ho : p.out = .error (.exc (.guard e)))
      (h : ¬ leak)
  | stopped (hl : p.log = [.refund est]) (ho : p.out = .error .cancelled) (h : ¬ leak)
  | struck (e : Raised Exc) (hl : p.log = []) (ho : p.out = .error e) (he : ∀ g, e ≠ .exc (.guard g))
      (h : leak)

theorem awaitDb_of_isOk {fate : Fate String} (h : fate.isOk = true) (ws : List Write) :
    awaitDb fate ws = ⟨ws, .ok ()⟩ := by
  cases fate with
  | ok => rfl
  | failed | cancelled => cases h

/-- A database await that raises does not raise a cap error; its writes took place if only the answer was
lost. -/
theorem awaitDb_of_not_isOk {fate : Fate String} (h : fate.isOk = false) (ws : List Write) :
    ∃ e, (awaitDb fate ws).out = .error e ∧ (∀ g, e ≠ .exc (.guard g)) ∧
      (awaitDb fate ws).log = if fate.lostAck then ws else [] := by
  cases fate with
  | ok => cases h
  | failed msg committed => exact ⟨.exc (.other msg), rfl, by simp, by cases committed <;> rfl⟩
  | cancelled committed => exact ⟨.cancelled, rfl, by simp, by cases committed <;> rfl⟩

/-- The debit of a positive estimate stays in place: the reservation committed and its answer was lost, or
a later check was struck. -/
def Leaks (key : ApiKeyRow) (project : ProjectCaps) (est : ℚ) (knownFree : Bool) (w : Surroundings) : Prop :=
  zeroCap key project est knownFree = none ∧ (reserveKey w.today key est w.stored).isSome = true ∧
    (w.reserve.lostAck = true ∨ (w.reserve.isOk = true ∧ StruckIn est (capChecks project w)))

/-- The ends of `reserve_cost` for a positive estimate on a capped key. -/
inductive Reserved (est : ℚ) (leak : Prop) (p : Proc Write Exc Unit) : Prop where
  | held (hl : p.log = [.debit est]) (ho : p.out = .ok ()) (h : ¬ leak)
  | refused (e : CostGuardError) (hl : Settled p.log) (ho : p.out = .error (.exc (.guard e))) (h : ¬ leak)
  | raised (e : Raised Exc) (hl : Settled p.log ↔ ¬ leak) (ho : p.out = .error e)
      (he : ∀ g, e ≠ .exc (.guard g))

theorem settled_nil : Settled [] := rfl

theorem not_settled_debit {est : ℚ} (hest : 0 < est) : ¬ Settled [.debit est] := by
  change ¬ [] = [est].filter (0 < ·)
  simp [hest]

theorem settled_debit_refund {est : ℚ} (hest : 0 < est) : Settled [.debit est, .refund est] := by
  change [est] = [est].filter (0 < ·)
  simp [hest]

section Capped

variable {key : ApiKeyRow} {est : ℚ} (hcap : key.capped = true) (hest : 0 < est)

include hcap hest

theorem awaitRelease_eq (i : Interrupt) : awaitRelease key est i = Proc.awaitSafe i [.refund est] := by
  unfold awaitRelease
  rw [if_neg]
  simp [hcap, hest]

theorem checkCap_spec (c : CapCheck) :
    AfterDebit est (c.struck est) (checkCap key est c) ∧
      ((checkCap key est c).out = .ok () ↔ c.passes est) := by
  unfold checkCap CapCheck.passes CapCheck.struck
  cases hc : c.cap with
  | none => exact ⟨.passed rfl rfl (by simp), by simp⟩
  | some cap =>
    simp only [Option.some.injEq, forall_eq', exists_eq_left']
    cases hf : c.query.fate.isOk with
    | false =>
      obtain ⟨e, ho, he, hl⟩ := awaitDb_of_not_isOk hf []
      rw [Proc.bind_of_error ho]
      exact ⟨.struck e (by simpa using hl) rfl he (.inl rfl), by simp⟩
    | true =>
      rw [awaitDb_of_isOk hf, Proc.bind_of_ok rfl]
      split_ifs with hover
      · have hnot : ¬ (true = true ∧ c.query.used + est ≤ cap) := fun h => absurd h.2 (not_le.mpr hover)
        rw [awaitRelease_eq hcap hest]
        cases hr : c.query.release with
        | none => exact ⟨.refused _ rfl rfl (by simp), iff_of_false (by intro h; cases h) hnot⟩
        | cancelled committed =>
          cases committed with
          | true => exact ⟨.stopped rfl rfl (by simp), iff_of_false (by intro h; cases h) hnot⟩
          | false =>
            exact ⟨.struck _ rfl rfl (by simp) (.inr ⟨hover, rfl⟩), iff_of_false (by intro h; cases h) hnot⟩
      · exact ⟨.passed rfl rfl (by simp [hover]), iff_of_true rfl ⟨rfl, not_lt.mp hover⟩⟩

theorem runChecks_spec (cs : List CapCheck) : AfterDebit est (StruckIn est cs) (runChecks key est cs) := by
  induction cs with
  | nil => exact .passed rfl rfl (by simp [StruckIn])
  | cons c cs ih =>
    obtain ⟨hspec, hpass⟩ := checkCap_spec hcap hest c
    unfold runChecks StruckIn
    cases hspec with
    | passed hl ho h =>
      -- nothing happened yet: the rest decides
      have hp := hpass.mp ho
      rw [Proc.bind_of_ok ho, hl, List.nil_append]
      have hiff : (c.struck est ∨ c.passes est ∧ StruckIn est cs) ↔ StruckIn est cs := by simp [h, hp]
      rw [hiff]
      exact ih
    | refused e hl ho h =>
      have hp : ¬ c.passes est := fun hp => by rw [hpass.mpr hp] at ho; cases ho
      rw [Proc.bind_of_error ho]
      exact .refused e hl rfl (by simp [h, hp])
    | stopped hl ho h =>
      have hp : ¬ c.passes est := fun hp => by rw [hpass.mpr hp] at ho; cases ho
      rw [Proc.bind_of_error ho]
      exact .stopped hl rfl (by simp [h, hp])
    | struck e hl ho he h =>
      rw [Proc.bind_of_error ho]
      exact .struck e hl rfl he (.inl h)

theorem reserveCost_spec (project : ProjectCaps) (knownFree : Bool) (w : Surroundings) :
    Reserved est (Leaks key project est knownFree w) (reserveCost key project est knownFree w) := by
  cases hz : zeroCap key project est knownFree with
  | some e =>
    have hfree : ¬ (key.tier = .free ∧ est ≤ 0) := fun h => absurd h.2 (not_le.mpr hest)
    unfold reserveCost
    rw [if_neg hfree, hz]
    exact .refused e rfl rfl (by simp [Leaks, hz])
  | none =>
    rw [reserveCost_of_not_refused hest hz]
    cases hk : reserveKey w.today key est w.stored with
    | none =>
      -- no row matched, nothing was debited
      have hleak : ¬ Leaks key project est knownFree w := by simp [Leaks, hk]
      unfold reserveOnKey
      rw [if_pos hcap, hk]
      cases hf : w.reserve.isOk with
      | true =>
        simp only [awaitDb_of_isOk hf]
        exact .refused _ settled_nil rfl hleak
      | false =>
        obtain ⟨e, ho, he, hl⟩ := awaitDb_of_not_isOk hf []
        have hlog : (awaitDb w.reserve []).log = [] := by simpa using hl
        simp only [Proc.bind_of_error ho, hlog]
        exact .raised e (iff_of_true settled_nil hleak) rfl he
    | some k' =>
      rw [reserveOnKey_of_isSome hcap (by rw [hk]; rfl)]
      cases hf : w.reserve.isOk with
      | false =>
        obtain ⟨e, ho, he, hl⟩ := awaitDb_of_not_isOk hf [.debit est]
        rw [Proc.bind_of_error ho]
        refine .raised e ?_ rfl he
        cases hack : w.reserve.lostAck with
        | true =>
          simp only [hl, hack, if_true]
          exact iff_of_false (not_settled_debit hest) (by simp [Leaks, hz, hk, hack])
        | false =>
          simp only [hl, hack, Bool.false_eq_true, if_false]
          exact iff_of_true settled_nil (by simp [Leaks, hack, hf])
      | true =>
        have hack : w.reserve.lostAck = false := by
          cases hr : w.reserve with
          | ok => rfl
          | failed | cancelled => rw [hr] at hf; cases hf
        have hleak : Leaks key project est knownFree w ↔ StruckIn est (capChecks project w) := by
          simp [Leaks, hz, hk, hack, hf]
        rw [awaitDb_of_isOk hf, Proc.bind_of_ok rfl, hleak]
        cases runChecks_spec hcap hest (capChecks project w) with
        | passed hl ho h => exact .held (by simp [hl]) ho h
        | refused e hl ho h => exact .refused e (by simpa [hl] using settled_debit_refund hest) ho h
        | stopped hl ho h =>
          exact .raised _ (iff_of_true (by simpa [hl] using settled_debit_refund hest) h) ho (by simp)
        | struck e hl ho he h =>
          exact .raised e (iff_of_false (by simpa [hl] using not_settled_debit hest) (by simpa using h)) ho he

end Capped

/-! ### What `reserve_cost` can write -/

section Emits

variable {key : ApiKeyRow} {est : ℚ} {P : Write → Prop}

theorem emits_awaitDb {ws : List Write} (h : ∀ x ∈ ws, P x) (fate : Fate String) :
    (awaitDb fate ws).Emits P :=
  Proc.emits_await h _

theorem emits_checkCap (hr : key.capped = true → 0 < est → P (.refund est)) (c : CapCheck) :
    (checkCap key est c).Emits P := by
  unfold checkCap
  split
  · exact Proc.emits_pure _
  · refine (emits_awaitDb (List.forall_mem_nil P) _).bind fun _ => ?_
    split_ifs
    · refine Proc.Emits.bind ?_ fun _ => Proc.emits_raise _
      unfold awaitRelease
      split_ifs with hskip
      · exact Proc.emits_pure _
      · rw [not_or, Bool.not_eq_false, not_le] at hskip
        exact Proc.emits_awaitSafe (List.forall_mem_singleton.mpr (hr hskip.1 hskip.2)) _
    · exact Proc.emits_pure _

theorem emits_runChecks (hr : key.capped = true → 0 < est → P (.refund est)) (cs : List CapCheck) :
    (runChecks key est cs).Emits P := by
  induction cs with
  | nil => exact Proc.emits_pure _
  | cons c cs ih => exact (emits_checkCap hr c).bind fun _ => ih

/-- `reserve_cost` writes the debit and the refund of its estimate, on a capped key, and nothing else. -/
theorem emits_reserveCost (hd : key.capped = true → P (.debit est))
    (hr : key.capped = true → 0 < est → P (.refund est)) (project : ProjectCaps) (knownFree : Bool)
    (w : Surroundings) : (reserveCost key project est knownFree w).Emits P := by
  unfold reserveCost
  split_ifs
  · exact Proc.emits_pure _
  · split
    · exact Proc.emits_raise _
    · refine Proc.Emits.bind ?_ fun _ => emits_runChecks hr _
      unfold reserveOnKey
      split_ifs with hcap
      · split
        · exact emits_awaitDb (List.forall_mem_singleton.mpr (hd hcap)) _
        · exact (emits_awaitDb (List.forall_mem_nil P) _).bind fun _ => Proc.emits_raise _
      · exact Proc.emits_pure _

end Emits

theorem usages_reserveCost (key : ApiKeyRow) (project : ProjectCaps) (est : ℚ) (knownFree : Bool)
    (w : Surroundings) : usages (reserveCost key project est knownFree w).log = [] := by
  refine List.filterMap_eq_nil_iff.mpr ?_
  exact emits_reserveCost (P := (·.usage? = none)) (fun _ => rfl) (fun _ _ => rfl) project knownFree w

/-- A write that moves no reservation: no refund, and no debit of a positive amount. -/
def Write.Idle : Write → Prop
  | .debit c => c ≤ 0
  | .refund _ => False
  | .usage _ => True

theorem settled_append_idle {l l' : List Write} (h : ∀ x ∈ l', x.Idle) : Settled (l ++ l') ↔ Settled l := by
  have hr : refunds l' = [] := List.filterMap_eq_nil_iff.mpr fun x hx => by
    have hi := h x hx
    cases x with
    | refund c => exact hi.elim
    | debit c | usage row => rfl
  have hd : (debits l').filter (0 < ·) = [] := by
    refine List.filter_eq_nil_iff.mpr fun c hc => ?_
    obtain ⟨x, hx, hxc⟩ := List.mem_filterMap.mp hc
    have hi := h x hx
    cases x with
    | debit c' =>
      obtain rfl := Option.some.inj hxc
      have hle : c' ≤ 0 := hi
      simpa using hle
    | refund c' | usage row => cases hxc
  unfold Settled
  rw [refunds_append, debits_append, List.filter_append, hr, hd, List.append_nil, List.append_nil]

theorem settled_of_idle {l : List Write} (h : ∀ x ∈ l, x.Idle) : Settled l :=
  (settled_append_idle (l := []) h).mpr settled_nil

/-- `reserve_cost` of nothing, or on an uncapped key, moves no counter. -/
theorem idle_reserveCost {key : ApiKeyRow} {est : ℚ} (h : key.capped = false ∨ est ≤ 0)
    (project : ProjectCaps) (knownFree : Bool) (w : Surroundings) :
    (reserveCost key project est knownFree w).Emits Write.Idle := by
  refine emits_reserveCost (fun hcap => ?_) (fun hcap hest => ?_) project knownFree w
  · exact h.resolve_left (by simp [hcap])
  · rcases h with hnone | hle
    · rw [hnone] at hcap
      cases hcap
    · exact absurd hle (not_le.mpr hest)

end Broker.Routing
