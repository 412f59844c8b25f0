import Broker.Agent.TurnTakes
import Broker.Agent.Handoff

/-!
# Broker.Agent.Resume — the attempts of a Claude run and the calls they leave

A run whose CLI hits its usage limit is parked and driven again by a new turn, with the same queue row.  The
turn numbers its calls from one; the row keeps the ids of the calls answered in every attempt.
-/

namespace Broker.Agent

open Broker.Lib Broker.Db


/-! ### The attempts of a run -/

/-- Where the worker is with a run. -/
inductive Attempt where
  | idle
  | claimed
  | driving (t : ClaudeTurn)
  | over

/-- The rows, the open `append_event` calls, the attempt at work and the turns of the earlier ones. -/
structure AttemptSys where
  stream : StreamSys
  attempt : Attempt := .idle
  past : List ClaudeTurn := []

/-- `take` is one round of the wait for the client, `alive` says that the CLI still runs after it;
`fault` is an exception of the database in `publish_call` or `take_result`, before or after its commit.
-/
inductive AttemptAct where
  | claim (now : Time)
  | requeue (now delay : Time)
  | start
  | turn (a : ClaudeTurn.Act)
  | publish (now : Time) (fencesOk : Bool)
  | take (now : Time) (fencesOk alive : Bool)
  | fault (now : Time) (committed : Bool) (x : TurnError)
  | park (p : Park) (now : Time)
  | stop
  | cancel
  | stream (a : StreamAct)

namespace AttemptSys

def run (s : AttemptSys) : AgentRunRow := s.stream.db.run

def job (s : AttemptSys) : AgentJobRow := s.stream.db.job

def setJob (s : AttemptSys) (job : AgentJobRow) : AttemptSys :=
  { s with stream := { s.stream with db := { s.stream.db with job := job } } }

def drive (s : AttemptSys) (t : ClaudeTurn) : AttemptSys := { s with attempt := .driving t }

/-- The turns so far. -/
def turns (s : AttemptSys) : List ClaudeTurn :=
  s.past ++ match s.attempt with
    | .driving t => [t]
    | _ => []

/-- The calls answered over all attempts. -/
def answeredIds (s : AttemptSys) : List String := s.turns.flatMap fun t => ClaudeTurn.tookIds t.log

/-- What a turn sees of an exception of the handoff. -/
def turnError : ToolError → TurnError
  | .conflict msg => .conflict msg
  | .invalidArguments label detail => .invalidArguments label detail
  | .cancelled _ => .cancelled
  | .valueError msg => .valueError msg
  | .lookupError _ | .staleLease => .uncaught

/-- An exception of the database. -/
def isFault : TurnError → Bool
  | .osError _ | .uncaught => true
  | _ => false

/-- The awaits of a turn that leave the handoff alone. -/
def isPlain : ClaudeTurn.Act → Bool
  | .publish _ | .poll _ => false
  | _ => true

/-- What others do to the row meanwhile: events are stored, clients submit results, and a lost lease withdraws
the call. -/
def isOutside : StreamAct → Bool
  | .tool (.submit ..) | .tool .clear => true
  | .tool _ => false
  | _ => true

section Step

variable (env : Env) (te : ToolEnv) (run : ClaudeRun) (asJson : Val PyFloat → Json)

/-- `publish_call`, as the turn awaits it. -/
def publishStep (s : AttemptSys) (t : ClaudeTurn) (now : Time) (fencesOk : Bool) : Option AttemptSys :=
  match t.phase with
  | .publishing _ c name arguments =>
    match publishCall te now fencesOk s.run s.job c name (asJson arguments) with
    | .ok job => (ClaudeTurn.step run t (.publish (.ok ()))).map (s.setJob job).drive
    | .error e => (ClaudeTurn.step run t (.publish (.error (turnError e)))).map s.drive
  | _ => none

/-- `take_result`, and the second the turn waits after an empty one. -/
def takeStep (s : AttemptSys) (t : ClaudeTurn) (now : Time) (fencesOk alive : Bool) : Option AttemptSys :=
  match t.phase with
  | .waiting _ c =>
    match takeResult now fencesOk s.run s.job c with
    | .ok (job, some r) => (ClaudeTurn.step run t (.poll (.result r))).map (s.setJob job).drive
    | .ok (_, none) => (ClaudeTurn.step run t (.poll (if alive then .pending else .stopped))).map s.drive
    | .error e => (ClaudeTurn.step run t (.poll (.raised (turnError e)))).map s.drive
  | _ => none

/-- An exception of the database in either, its transaction committed or not. -/
def faultStep (s : AttemptSys) (t : ClaudeTurn) (now : Time) (committed : Bool) (x : TurnError) :
    Option AttemptSys :=
  let after (op : ToolOp) : AttemptSys := if committed then s.setJob (callTool te s.run s.job op).1 else s
  match t.phase with
  | .publishing _ c name arguments =>
    (ClaudeTurn.step run t (.publish (.error x))).map (after (.publish now true c name (asJson arguments))).drive
  | .waiting _ c => (ClaudeTurn.step run t (.poll (.raised x))).map (after (.take now true c)).drive
  | _ => none

def step (s : AttemptSys) : AttemptAct → Option AttemptSys
  | .claim now =>
    match s.attempt with
    | .idle =>
      if s.job.status = .pending ∧ s.job.runAfter.all (fun t => decide (t < now)) = true then
        some { s.setJob { s.job with status := .running, startedAt := some now } with attempt := .claimed }
      else none
    | _ => none
  | .requeue now delay =>
    match s.attempt with
    | .claimed => some { s.setJob (requeueRun now delay s.job) with attempt := .idle }
    | _ => none
  | .start =>
    match s.attempt with
    | .claimed => some (s.drive (.start run))
    | _ => none
  | .turn a =>
    match s.attempt with
    | .driving t => if isPlain a then (ClaudeTurn.step run t a).map s.drive else none
    | _ => none
  | .publish now fencesOk =>
    match s.attempt with
    | .driving t => publishStep te run asJson s t now fencesOk
    | _ => none
  | .take now fencesOk alive =>
    match s.attempt with
    | .driving t => takeStep run s t now fencesOk alive
    | _ => none
  | .fault now committed x =>
    match s.attempt with
    | .driving t => if isFault x then faultStep te run asJson s t now committed x else none
    | _ => none
  | .park p now =>
    match s.attempt with
    | .driving t =>
      if t.quotaEnd = true ∧ s.run.outcome = none then
        let db := s.stream.db
        some { stream := { s.stream with db := ⟨parkRun now db.run, parkJob p db.job, db.events ++ [parkRow now p db.run]⟩ }
               attempt := .idle
               past := s.past ++ [t] }
      else none
    | _ => none
  | .stop =>
    match s.attempt with
    | .claimed => some { s with attempt := .over }
    | .driving t => some { s with attempt := .over, past := s.past ++ [t] }
    | _ => none
  | .cancel =>
    some { s with stream := { s.stream with db := { s.stream.db with run := { s.run with cancelRequested := true } } } }
  | .stream a => if isOutside a then (s.stream.step env te a).map fun st => { s with stream := st } else none

end Step

/-- A created run. -/
def created (n : NewRun) : AttemptSys := { stream := ⟨n.rows, []⟩ }

/-- The commit of an event that changes `result_meta` finds its calls as the transaction read them. -/
def freshCalls (env : Env) (s : AttemptSys) : AttemptAct → Bool
  | .stream (.advance i) =>
    match s.stream.txs[i]? with
    | some (ev, .ready now run (some job)) =>
      decide ((appendJob env now run job (gatedEvent env ev job.request.clientJob)).resultMeta = job.resultMeta) ||
        (decide ((metaOf job).clientTool = (metaOf s.job).clientTool) &&
          decide ((metaOf job).history = (metaOf s.job).history))
    | _ => true
  | _ => true

/-- The side condition on a run. -/
def FreshCalls (env : Env) (s : AttemptSys) (a : AttemptAct) : Prop := freshCalls env s a = true

instance (env : Env) (s : AttemptSys) (a : AttemptAct) : Decidable (FreshCalls env s a) :=
  inferInstanceAs (Decidable (_ = true))

variable {env : Env} {te : ToolEnv} {run : ClaudeRun} {asJson : Val PyFloat → Json} {s s' : AttemptSys}
  {t t' : ClaudeTurn}

/-! ### The calls in the row -/

/-- The history stays, and the pending call stays or goes. -/
structure SameCalls (m m' : ResultMeta) : Prop where
  history : m'.history = m.history
  pending : m'.clientTool = m.clientTool ∨ m'.clientTool = none

theorem SameCalls.refl (m : ResultMeta) : SameCalls m m := ⟨rfl, .inl rfl⟩

theorem closeMeta_calls (env : Env) (run : AgentRunRow) (job : AgentJobRow) (ev : AnyEvent) :
    SameCalls (metaOf job) (closeMeta env run job ev) := by
  unfold closeMeta
  constructor
  · dsimp only
    split <;> split <;> rfl
  · right
    dsimp only
    split <;> split <;> rfl

theorem foldMeta_history (now : Time) (job : AgentJobRow) (ev : AnyEvent) :
    ((foldMeta now job ev).getD {}).history = (metaOf job).history := by
  unfold foldMeta
  split
  all_goals first | rfl | (dsimp only; split_ifs <;> rfl)

theorem appendJob_calls (env : Env) (now : Time) (run : AgentRunRow) (job : AgentJobRow) (ev : AnyEvent) :
    SameCalls (metaOf job) (metaOf (appendJob env now run job ev)) := by
  unfold appendJob
  split_ifs
  · exact closeMeta_calls env run job ev
  · exact ⟨foldMeta_history now job ev, .inl (foldMeta_clientTool now job ev)⟩

/-- A commit that finds the calls as its transaction read them keeps them. -/
theorem commitAppend_calls {ev : AnyEvent} {now : Time} {row : AgentRunRow} {job : Option AgentJobRow}
    {db db' : RunDb} (h : commitAppend env { ev } now row job db = some db')
    (hfresh : ∀ j, job = some j →
      (appendJob env now row j (gatedEvent env ev j.request.clientJob)).resultMeta = j.resultMeta ∨
        (metaOf j).clientTool = (metaOf db.job).clientTool ∧ (metaOf j).history = (metaOf db.job).history) :
    SameCalls (metaOf db.job) (metaOf db'.job) := by
  simp only [commitAppend] at h
  split_ifs at h
  obtain rfl := Option.some.inj h
  cases job with
  | none => exact .refl _
  | some j =>
    set j' := appendJob env now row j (gatedEvent env ev j.request.clientJob) with hj'
    have hmeta : (metaOf (j.flush j' db.job)) = (col j.resultMeta j'.resultMeta db.job.resultMeta).getD {} := rfl
    show SameCalls _ (metaOf (j.flush j' db.job))
    rw [hmeta]
    by_cases hw : j'.resultMeta = j.resultMeta
    · rw [hw, col_self]
      exact .refl _
    · rw [col_of_ne _ hw]
      obtain ⟨hpending, hhistory⟩ := (hfresh j rfl).resolve_left hw
      have hcalls := appendJob_calls env now row j (gatedEvent env ev j.request.clientJob)
      refine ⟨hcalls.history.trans hhistory, ?_⟩
      rw [← hpending]
      exact hcalls.pending

/-- What happens outside of the turn neither publishes nor answers a call. -/
theorem outside_calls {a : StreamAct} {st : StreamSys} (ha : isOutside a = true)
    (hf : FreshCalls env s (.stream a))
    (h : s.stream.step env te a = some st) :
    (metaOf st.db.job).history = (metaOf s.job).history ∧
      ((metaOf s.job).clientTool = none → (metaOf st.db.job).clientTool = none) := by
  rcases StreamSys.step_cases h with ⟨op, rfl, rfl⟩ | ⟨i, ev, now, row, job, rfl, htx, hc, -⟩ | ⟨hdb, -⟩
  · cases op with
    | submit now projectId c r =>
      show (metaOf (callTool te s.run s.job (.submit now projectId c r)).1).history = _ ∧
        (_ → (metaOf (callTool te s.run s.job (.submit now projectId c r)).1).clientTool = none)
      cases hsub : submitResult te now s.run s.job projectId c r with
      | error e => simp [callTool, hsub]
      | ok x =>
        obtain ⟨job', fresh⟩ := x
        simp only [callTool, hsub]
        rcases submitResult_ok hsub with ⟨-, rfl, -⟩ | ⟨-, -, call, hcall, -, -, rfl⟩
        · exact ⟨rfl, id⟩
        · refine ⟨rfl, fun hnone => ?_⟩
          rw [hnone] at hcall
          cases hcall
    | clear =>
      show (metaOf (clearPendingCall s.job)).history = _ ∧
        (_ → (metaOf (clearPendingCall s.job)).clientTool = none)
      rcases clearPendingCall_cases s.job with h | ⟨call, -, -, h⟩
      · rw [h]
        exact ⟨rfl, id⟩
      · rw [h]
        exact ⟨rfl, fun _ => rfl⟩
    | _ => cases ha
  · have hcalls := commitAppend_calls hc fun j hj => by
      simp only [FreshCalls, freshCalls, htx, hj, Bool.or_eq_true, Bool.and_eq_true] at hf
      exact hf.imp of_decide_eq_true fun h => ⟨of_decide_eq_true h.1, of_decide_eq_true h.2⟩
    refine ⟨hcalls.history, fun hnone => ?_⟩
    rcases hcalls.pending with hp | hp
    · exact hp.trans hnone
    · exact hp
  · show (metaOf st.db.job).history = (metaOf s.stream.db.job).history ∧ _
    rw [hdb]
    exact ⟨rfl, id⟩

/-! ### The invariant -/

/-- The run will not be driven again. -/
def Doomed (s : AttemptSys) : Prop :=
  s.attempt = .over ∨ ∃ t, s.attempt = .driving t ∧ t.phase = .ended ∧ t.quotaEnd = false

/-- The row knows the calls answered so far, and a pending one only while the turn waits for it. -/
structure Clean (s : AttemptSys) : Prop where
  history : (metaOf s.job).history.map (·.callId) = s.answeredIds
  pending : (metaOf s.job).clientTool = none ∨ ∃ t q c, s.attempt = .driving t ∧ t.phase = .waiting q c

structure Inv (run : ClaudeRun) (s : AttemptSys) : Prop where
  turn : ∀ t, s.attempt = .driving t → ClaudeTurn.Inv run t
  calls : Doomed s ∨ Clean s

/-- The ids answered in the earlier attempts. -/
def earlierIds (s : AttemptSys) : List String := s.past.flatMap fun t => ClaudeTurn.tookIds t.log

theorem answeredIds_driving (h : s.attempt = .driving t) :
    s.answeredIds = s.earlierIds ++ ClaudeTurn.tookIds t.log := by
  simp [answeredIds, turns, h, earlierIds]

theorem answeredIds_not_driving (h : ∀ t, s.attempt ≠ .driving t) : s.answeredIds = s.earlierIds := by
  unfold answeredIds turns earlierIds
  split
  · rename_i t ht
    exact absurd ht (h t)
  · rw [List.append_nil]

/-- A turn at an await does not doom the run. -/
theorem Inv.clean (hi : Inv run s) (h : s.attempt = .driving t) (hphase : t.phase ≠ .ended) : Clean s := by
  refine hi.calls.resolve_left ?_
  rintro (hover | ⟨u, hu, hended, -⟩)
  · rw [h] at hover
    cases hover
  · obtain rfl := Attempt.driving.inj (h.symm.trans hu)
    exact hphase hended

theorem Clean.pending_none (hc : Clean s) (h : s.attempt = .driving t)
    (hphase : ∀ q c, t.phase ≠ .waiting q c) :
    (metaOf s.job).clientTool = none := by
  rcases hc.pending with hnone | ⟨u, q, c, hu, hwait⟩
  · exact hnone
  · obtain rfl := Attempt.driving.inj (h.symm.trans hu)
    exact absurd hwait (hphase q c)

/-- The turn goes on from the row as it is. -/
theorem Clean.drive (hc : Clean s) (h : s.attempt = .driving t) (hnone : (metaOf s.job).clientTool = none)
    (htook : ClaudeTurn.tookIds t'.log = ClaudeTurn.tookIds t.log) : Clean (s.drive t') := by
  refine ⟨?_, .inl hnone⟩
  rw [answeredIds_driving (t := t') rfl, htook]
  exact hc.history.trans (answeredIds_driving h)

/-- An exception that leaves the turn dooms the run. -/
theorem doomed_raise (ht : ClaudeTurn.Inv run t) (hphase : t.phase ≠ .ended) (x : TurnError)
    (u : AttemptSys) :
    Doomed (u.drive (t.raise x)) :=
  .inr ⟨_, rfl, ClaudeTurn.raise_phase t x, ClaudeTurn.quotaEnd_raise (ht.core hphase).tally.notClosed x⟩

theorem turn_drive {u : AttemptSys} (ht : ClaudeTurn.Inv run t') :
    ∀ v, (u.drive t').attempt = .driving v → ClaudeTurn.Inv run v := by
  intro v hv
  obtain rfl := Attempt.driving.inj hv
  exact ht

theorem plain_step {a : ClaudeTurn.Act} (ha : isPlain a = true) (h : ClaudeTurn.step run t a = some t') :
    ClaudeTurn.tookIds t'.log = ClaudeTurn.tookIds t.log ∧ t.phase ≠ .ended ∧
      ∀ q c, t.phase ≠ .waiting q c := by
  have hopen : t.phase ≠ .ended := by
    intro hended
    rw [ClaudeTurn.step_of_ended hended] at h
    cases h
  cases a with
  | frame now f =>
    cases hphase : t.phase with
    | reading =>
      simp only [ClaudeTurn.step, hphase] at h
      exact ⟨ClaudeTurn.tookIds_onFrame h, by simp, by simp⟩
    | _ => simp [ClaudeTurn.step, hphase] at h
  | send now r =>
    refine ⟨ClaudeTurn.tookIds_onSend h, hopen, fun q c hphase => ?_⟩
    simp [ClaudeTurn.step, ClaudeTurn.onSend, hphase] at h
  | exit r =>
    cases hphase : t.phase with
    | closing =>
      simp only [ClaudeTurn.step, hphase] at h
      obtain rfl := Option.some.inj h
      exact ⟨ClaudeTurn.tookIds_onExit t r, by simp, by simp⟩
    | _ => simp [ClaudeTurn.step, hphase] at h
  | publish r => cases ha
  | poll r => cases ha

theorem Inv.publishStep (hi : Inv run s) (hatt : s.attempt = .driving t) {now : Time} {ok : Bool}
    (h : publishStep te run asJson s t now ok = some s') : Inv run s' := by
  have ht := hi.turn t hatt
  unfold AttemptSys.publishStep at h
  split at h
  · rename_i q c name arguments hphase
    have hopen : t.phase ≠ .ended := by simp [hphase]
    have hclean := hi.clean hatt hopen
    have hnone := hclean.pending_none hatt (by simp [hphase])
    split at h
    · rename_i job hpub
      obtain ⟨t', ht', rfl⟩ := Option.map_eq_some_iff.mp h
      obtain ⟨-, -, -, rfl⟩ := publishCall_ok hpub
      have hstep : t' = t.onPublished q c name arguments := by
        simp only [ClaudeTurn.step, hphase] at ht'
        exact (Option.some.inj ht').symm
      refine ⟨turn_drive (ht.step ht'), .inr ⟨?_, .inr ⟨t', q, c, rfl, by rw [hstep]; rfl⟩⟩⟩
      rw [answeredIds_driving (t := t') rfl, hstep, ClaudeTurn.tookIds_onPublished]
      exact hclean.history.trans (answeredIds_driving hatt)
    · rename_i e hpub
      obtain ⟨t', ht', rfl⟩ := Option.map_eq_some_iff.mp h
      have hstep : t' = ClaudeTurn.onRefused run t q c name (turnError e) := by
        simp only [ClaudeTurn.step, hphase] at ht'
        exact (Option.some.inj ht').symm
      refine ⟨turn_drive (ht.step ht'), .inr (hclean.drive hatt hnone ?_)⟩
      rw [hstep]
      exact ClaudeTurn.tookIds_onRefused t q c name _
  · cases h

theorem Inv.takeStep (hi : Inv run s) (hatt : s.attempt = .driving t) {now : Time} {ok alive : Bool}
    (h : takeStep run s t now ok alive = some s') : Inv run s' := by
  have ht := hi.turn t hatt
  unfold AttemptSys.takeStep at h
  split at h
  · rename_i q c hphase
    have hopen : t.phase ≠ .ended := by simp [hphase]
    have hclean := hi.clean hatt hopen
    have hpoll : ∀ r t', ClaudeTurn.step run t (.poll r) = some t' → t' = t.onPoll q c r := by
      intro r t' hs
      simp only [ClaudeTurn.step, hphase] at hs
      exact (Option.some.inj hs).symm
    split at h
    · rename_i job r htake
      obtain ⟨t', ht', rfl⟩ := Option.map_eq_some_iff.mp h
      obtain ⟨call, hcall, hid, hcase⟩ := takeResult_ok htake
      rcases hcase with ⟨-, hr, -⟩ | ⟨b, content, d, terminal, -, -, rfl⟩
      · cases hr
      · refine ⟨turn_drive (ht.step ht'), .inr ⟨?_, .inl rfl⟩⟩
        rw [answeredIds_driving (t := t') rfl, hpoll _ _ ht', ClaudeTurn.tookIds_onResult, ← List.append_assoc]
        have hbefore : (metaOf s.job).history.map (·.callId) = s.earlierIds ++ ClaudeTurn.tookIds t.log :=
          hclean.history.trans (answeredIds_driving hatt)
        have hafter : ((metaOf s.job).history ++ [(⟨c, d, terminal⟩ : HistoryItem)]).map (·.callId) =
            s.earlierIds ++ ClaudeTurn.tookIds t.log ++ [c] := by
          rw [List.map_append, hbefore]
          rfl
        exact hafter
    · obtain ⟨t', ht', rfl⟩ := Option.map_eq_some_iff.mp h
      refine ⟨turn_drive (ht.step ht'), ?_⟩
      rw [hpoll _ _ ht']
      cases alive with
      | true =>
        -- the turn waits on
        have hsame : (s.drive t).answeredIds = s.earlierIds ++ ClaudeTurn.tookIds t.log :=
          answeredIds_driving rfl
        refine .inr ⟨?_, .inr ⟨t, q, c, rfl, hphase⟩⟩
        exact (hclean.history.trans (answeredIds_driving hatt)).trans hsame.symm
      | false => exact .inl (doomed_raise ht hopen (.conflict "Claude stopped while waiting for client tool") s)
    · obtain ⟨t', ht', rfl⟩ := Option.map_eq_some_iff.mp h
      refine ⟨turn_drive (ht.step ht'), .inl ?_⟩
      rw [hpoll _ _ ht']
      exact doomed_raise ht hopen _ s
  · cases h

theorem Inv.faultStep (hi : Inv run s) (hatt : s.attempt = .driving t) {now : Time} {committed : Bool}
    {x : TurnError} (hx : isFault x = true) (h : faultStep te run asJson s t now committed x = some s') :
    Inv run s' := by
  have ht := hi.turn t hatt
  unfold AttemptSys.faultStep at h
  simp only at h
  split at h
  · rename_i q c name arguments hphase
    obtain ⟨t', ht', rfl⟩ := Option.map_eq_some_iff.mp h
    have hstep : t' = t.raise x := by
      simp only [ClaudeTurn.step, hphase] at ht'
      rw [← Option.some.inj ht']
      cases x with
      | osError msg | uncaught => rfl
      | _ => cases hx
    refine ⟨turn_drive (ht.step ht'), .inl ?_⟩
    rw [hstep]
    exact doomed_raise ht (by simp [hphase]) x _
  · rename_i q c hphase
    obtain ⟨t', ht', rfl⟩ := Option.map_eq_some_iff.mp h
    have hstep : t' = t.raise x := by
      simp only [ClaudeTurn.step, hphase] at ht'
      exact (Option.some.inj ht').symm
    refine ⟨turn_drive (ht.step ht'), .inl ?_⟩
    rw [hstep]
    exact doomed_raise ht (by simp [hphase]) x _
  · cases h

/-- Between two attempts a row changes, and not in its calls. -/
theorem Clean.setJob {att : Attempt} (hc : Clean s) (hs : ∀ t, s.attempt ≠ .driving t)
    (hatt : ∀ t, att ≠ .driving t) {job : AgentJobRow}
    (hhistory : (metaOf job).history = (metaOf s.job).history)
    (hpending : (metaOf job).clientTool = (metaOf s.job).clientTool) :
    Clean { s.setJob job with attempt := att } := by
  have hnone : (metaOf s.job).clientTool = none := by
    rcases hc.pending with hnone | ⟨t, q, c, ht, -⟩
    · exact hnone
    · exact absurd ht (hs t)
  refine ⟨?_, .inl (hpending.trans hnone)⟩
  show (metaOf job).history.map (·.callId) = _
  rw [hhistory, hc.history, answeredIds_not_driving hs, answeredIds_not_driving hatt]
  rfl

theorem Inv.between {att : Attempt} (hi : Inv run s) (hs : ∀ t, s.attempt ≠ .driving t)
    (hover : s.attempt ≠ .over)
    (hatt : ∀ t, att ≠ .driving t) {job : AgentJobRow}
    (hhistory : (metaOf job).history = (metaOf s.job).history)
    (hpending : (metaOf job).clientTool = (metaOf s.job).clientTool) :
    Inv run { s.setJob job with attempt := att } := by
  have hclean : Clean s := by
    refine hi.calls.resolve_left ?_
    rintro (h | ⟨t, ht, -⟩)
    · exact hover h
    · exact hs t ht
  exact ⟨fun t ht => absurd ht (hatt t), .inr (hclean.setJob hs hatt hhistory hpending)⟩

/-- A park carries the calls over. -/
theorem Inv.park (hi : Inv run s) (hatt : s.attempt = .driving t) (hquota : t.quotaEnd = true) {db : RunDb}
    (hhistory : (metaOf db.job).history = (metaOf s.job).history)
    (hpending : (metaOf db.job).clientTool = (metaOf s.job).clientTool) :
    Inv run { stream := { s.stream with db := db }, attempt := .idle, past := s.past ++ [t] } := by
  have hended := (hi.turn t hatt).ended_of_quotaEnd hquota
  have hclean : Clean s := by
    refine hi.calls.resolve_left ?_
    rintro (hover | ⟨u, hu, -, hnot⟩)
    · rw [hatt] at hover
      cases hover
    · obtain rfl := Attempt.driving.inj (hatt.symm.trans hu)
      rw [hquota] at hnot
      cases hnot
  have hnone := hclean.pending_none hatt (by simp [hended])
  refine ⟨fun u hu => absurd hu (by simp), .inr ⟨?_, .inl (hpending.trans hnone)⟩⟩
  show (metaOf db.job).history.map (·.callId) = _
  rw [hhistory, hclean.history, answeredIds_driving hatt]
  simp [answeredIds, turns, earlierIds]

theorem Inv.outside (hi : Inv run s) {a : StreamAct} {st : StreamSys} (ha : isOutside a = true)
    (hf : FreshCalls env s (.stream a)) (h : s.stream.step env te a = some st) :
    Inv run { s with stream := st } := by
  obtain ⟨hhistory, hnone⟩ := outside_calls ha hf h
  refine ⟨hi.turn, hi.calls.imp id fun hc => ⟨hhistory ▸ hc.history, ?_⟩⟩
  exact hc.pending.imp hnone id

/-- **Every step keeps the calls in the row in step with the attempts.** -/
theorem Inv.step (hi : Inv run s) {a : AttemptAct} (hf : FreshCalls env s a)
    (h : AttemptSys.step env te run asJson s a = some s') : Inv run s' := by
  cases a with
  | claim now =>
    cases hatt : s.attempt with
    | idle =>
      simp only [AttemptSys.step, hatt] at h
      split_ifs at h
      obtain rfl := Option.some.inj h
      exact hi.between (by simp [hatt]) (by simp [hatt]) (by simp) rfl rfl
    | _ => simp [AttemptSys.step, hatt] at h
  | requeue now delay =>
    cases hatt : s.attempt with
    | claimed =>
      simp only [AttemptSys.step, hatt] at h
      obtain rfl := Option.some.inj h
      exact hi.between (by simp [hatt]) (by simp [hatt]) (by simp) rfl rfl
    | _ => simp [AttemptSys.step, hatt] at h
  | start =>
    cases hatt : s.attempt with
    | claimed =>
      simp only [AttemptSys.step, hatt] at h
      obtain rfl := Option.some.inj h
      have hnot : ∀ t, s.attempt ≠ .driving t := by simp [hatt]
      have hclean : Clean s := by
        refine hi.calls.resolve_left ?_
        rintro (hover | ⟨t, ht, -⟩)
        · rw [hatt] at hover
          cases hover
        · exact hnot t ht
      refine ⟨turn_drive (ClaudeTurn.inv_start run), .inr ⟨?_, .inl ?_⟩⟩
      · rw [answeredIds_driving (t := .start run) rfl]
        show (metaOf s.job).history.map (·.callId) = s.earlierIds ++ []
        rw [hclean.history, answeredIds_not_driving hnot, List.append_nil]
      · rcases hclean.pending with hnone | ⟨t, q, c, ht, -⟩
        · exact hnone
        · exact absurd ht (hnot t)
    | _ => simp [AttemptSys.step, hatt] at h
  | turn a =>
    cases hatt : s.attempt with
    | driving t =>
      simp only [AttemptSys.step, hatt] at h
      split_ifs at h with ha
      obtain ⟨t', ht', rfl⟩ := Option.map_eq_some_iff.mp h
      obtain ⟨htook, hopen, hwait⟩ := plain_step ha ht'
      have hclean := hi.clean hatt hopen
      exact ⟨turn_drive ((hi.turn t hatt).step ht'),
        .inr (hclean.drive hatt (hclean.pending_none hatt hwait) htook)⟩
    | _ => simp [AttemptSys.step, hatt] at h
  | publish now ok =>
    cases hatt : s.attempt with
    | driving t =>
      simp only [AttemptSys.step, hatt] at h
      exact hi.publishStep hatt h
    | _ => simp [AttemptSys.step, hatt] at h
  | take now ok alive =>
    cases hatt : s.attempt with
    | driving t =>
      simp only [AttemptSys.step, hatt] at h
      exact hi.takeStep hatt h
    | _ => simp [AttemptSys.step, hatt] at h
  | fault now committed x =>
    cases hatt : s.attempt with
    | driving t =>
      simp only [AttemptSys.step, hatt] at h
      split_ifs at h with hx
      exact hi.faultStep hatt hx h
    | _ => simp [AttemptSys.step, hatt] at h
  | park p now =>
    cases hatt : s.attempt with
    | driving t =>
      simp only [AttemptSys.step, hatt] at h
      split_ifs at h with hquota
      obtain rfl := Option.some.inj h
      exact hi.park hatt hquota.1 rfl rfl
    | _ => simp [AttemptSys.step, hatt] at h
  | stop =>
    cases hatt : s.attempt with
    | claimed | driving t =>
      simp only [AttemptSys.step, hatt] at h
      obtain rfl := Option.some.inj h
      exact ⟨fun u hu => absurd hu (by simp), .inl (.inl rfl)⟩
    | _ => simp [AttemptSys.step, hatt] at h
  | cancel =>
    obtain rfl := Option.some.inj h
    exact ⟨hi.turn, hi.calls.imp id fun hc => { hc with }⟩
  | stream a =>
    simp only [AttemptSys.step] at h
    split_ifs at h with ha
    obtain ⟨st, hst, rfl⟩ := Option.map_eq_some_iff.mp h
    exact hi.outside ha hf hst

theorem inv_created (run : ClaudeRun) (n : NewRun) : Inv run (created n) :=
  ⟨fun t ht => absurd ht (by simp [created]), .inr ⟨rfl, .inl rfl⟩⟩

theorem inv_run {n : NewRun} {as : List AttemptAct}
    (h : Steps (AttemptSys.step env te run asJson) (FreshCalls env) (created n) as s) : Inv run s :=
  h.inv (I := Inv run) (fun _ _ _ hi hf hs => hi.step hf hs) (inv_created run n)

/-! ### A resumed run and its calls -/

/-- A call of a declared tool with valid arguments, on a job that runs for the worker that makes it. -/
structure ValidCall (te : ToolEnv) (s : AttemptSys) (c name : String) (arguments : Json) : Prop where
  running : s.job.status = .running
  capability : s.job.capability ∈ agentCapabilities
  uncancelled : s.run.cancelRequested = false
  size : (te.dumps arguments).utf8ByteSize ≤ maxArgumentBytes
  declared : te.validateResult (s.job.request.clientJob.elim [] (·.tools))
    (s.job.request.clientJob.bind (·.toolChoice)) c name (te.dumps arguments) = none

/-- What `publish_call` makes of a valid call. -/
theorem publishCall_valid {c name : String} {arguments : Json} (hv : ValidCall te s c name arguments)
    (now : Time) :
    (∃ job, publishCall te now true s.run s.job c name arguments = .ok job) ↔
      (1 ≤ c.length ∧ c.length ≤ 128) ∧ (metaOf s.job).clientTool = none ∧
        (metaOf s.job).history.length < maxCalls ∧ c ∉ (metaOf s.job).history.map (·.callId) := by
  constructor
  · rintro ⟨job, hjob⟩
    obtain ⟨hnone, hlen, hid, -⟩ := publishCall_ok hjob
    refine ⟨?_, hnone, hlen, hid⟩
    by_contra hne
    have hbad : c.length < 1 ∨ 128 < c.length := by omega
    simp only [publishCall, if_pos hbad] at hjob
    cases hjob
  · rintro ⟨⟨hmin, hmax⟩, hnone, hlen, hid⟩
    have hlength : ¬ (c.length < 1 ∨ 128 < c.length) := by omega
    have hsize : ¬ maxArgumentBytes < (te.dumps arguments).utf8ByteSize := not_lt.mpr hv.size
    have hrun : ¬ (s.job.status ≠ .running ∨ s.job.capability ∉ agentCapabilities) := by
      simp [hv.running, hv.capability]
    have hfree : ¬ ((metaOf s.job).clientTool.isSome = true ∨ maxCalls ≤ (metaOf s.job).history.length ∨
        c ∈ (metaOf s.job).history.map (·.callId)) := by
      simp only [hnone, not_or, not_le]
      exact ⟨by simp, hlen, hid⟩
    refine ⟨setMeta s.job { metaOf s.job with
      clientTool := some ⟨c, name, te.dumps arguments, now + te.toolWait, .waiting⟩ }, ?_⟩
    simp only [publishCall, if_neg hlength, if_neg hsize, if_neg hrun, hv.uncancelled, hv.declared, if_neg hfree,
      Bool.false_eq_true, Bool.true_eq_false, if_false]

/-- **When a resumed run can call its tools.**  In every run of attempts in which the commit of an event
finds the calls of `result_meta` as its transaction read them: a valid call, made while fewer than
`MAX_CALLS` are answered over all attempts, is published if and only if its id is not too long and no
earlier attempt had a call of this number answered; and no pending call is in its way. -/
theorem resumed_call_published_iff (env : Env) (te : ToolEnv) (run : ClaudeRun) (asJson : Val PyFloat → Json)
    (n : NewRun) {as : List AttemptAct} {s : AttemptSys} {t : ClaudeTurn}
    (h : Steps (AttemptSys.step env te run asJson) (FreshCalls env) (created n) as s)
    (hatt : s.attempt = .driving t) {q : McpRequest} {c name : String} {arguments : Val PyFloat}
    (hphase : t.phase = .publishing q c name arguments) (hv : ValidCall te s c name (asJson arguments))
    (hfew : s.answeredIds.length < maxCalls) (now : Time) :
    ((∃ job, publishCall te now true s.run s.job c name (asJson arguments) = .ok job) ↔
      (ClaudeTurn.callId run t.seq).length ≤ 128 ∧
        ∀ t' ∈ s.past, ClaudeTurn.callId run t.seq ∉ ClaudeTurn.tookIds t'.log) ∧
    (metaOf s.job).clientTool = none := by
  have hi := inv_run h
  have hturn := hi.turn t hatt
  have hclean := hi.clean hatt (by simp [hphase])
  have hnone := hclean.pending_none hatt (by simp [hphase])
  have hc : c = ClaudeTurn.callId run t.seq := by
    have hok := hturn.phaseOk
    rw [ClaudeTurn.PhaseOk, hphase] at hok
    exact hok.2.2.2.2.1
  have hnew : c ∉ ClaudeTurn.tookIds t.log := hturn.not_took hphase
  have hmin : 1 ≤ c.length := by
    rw [hc]
    simp only [ClaudeTurn.callId, String.length_append]
    have hpos : 1 ≤ "call_claude_".length := by decide
    omega
  refine ⟨?_, hnone⟩
  have hlen : (metaOf s.job).history.length < maxCalls := by
    have heq := congrArg List.length hclean.history
    rw [List.length_map] at heq
    omega
  rw [publishCall_valid hv, hclean.history, answeredIds_driving hatt, ← hc]
  simp only [hmin, true_and, hnone, hlen, List.mem_append, not_or, hnew, not_false_eq_true, and_true, earlierIds,
    List.mem_flatMap, not_exists, not_and]

/-! ### Sample runs -/

/-- A CLI that hits its usage limit where it fails. -/
def limitedRun : ClaudeRun :=
  { ClaudeTurn.sampleRun with parser := { ClaudeTurn.sampleParser with classifyFailure := fun _ => "quota_exhausted" } }

def limitLine : String := "\x7b\"type\":\"result\",\"is_error\":true,\"result\":\"usage limit reached\"\x7d"

/-- The run is claimed again after its wait, and the new turn is asked for a call. -/
def resumed : List AttemptAct :=
  [.park ⟨10, true, "usage limit reached"⟩ 3, .claim 11, .start, .turn (.frame 11 (.line ClaudeTurn.sampleCall))]

/-- The first attempt hits the limit at once. -/
def limitedAtOnce : List AttemptAct := [.claim 0, .start, .turn (.frame 3 (.line limitLine))] ++ resumed

/-- The first attempt has a call answered before it hits the limit. -/
def limitedAfterCall : List AttemptAct :=
  [.claim 0, .start, .turn (.frame 0 (.line ClaudeTurn.sampleCall)), .publish 0 true,
    .stream (.tool (.submit 1 1 "call_claude_1_1" ⟨true, "42", false⟩)), .take 2 true true, .turn (.send 2 .ok),
    .turn (.frame 3 (.line limitLine))] ++ resumed

def limitDoc : Doc := [("type", .str "result"), ("is_error", .bool true), ("result", .str "usage limit reached")]

set_option maxRecDepth 4000 in
theorem json_limitLine {P : ParserEnv} (hroom : P.interp.room = 100) :
    ClaudeParser.json P (PyConv.stripText limitLine) = .ok (some limitDoc) :=
  ClaudeParser.json_stripText _ rfl rfl (hroom ▸ rfl)

abbrev sampleStep : AttemptSys → AttemptAct → Option AttemptSys :=
  AttemptSys.step .plain .sample limitedRun fun _ => .null

/-- The turn an attempt drives. -/
def driven (s : AttemptSys) : ClaudeTurn :=
  match s.attempt with
  | .driving t => t
  | _ => .start limitedRun

/-- Where a list of actions leads, and where a line does. -/
def runTo (s : AttemptSys) (as : List AttemptAct) : AttemptSys :=
  (execAll (guarded sampleStep (FreshCalls .plain)) s as).getD s

def readIn (s : AttemptSys) (raw : String) (data : Doc) : AttemptSys :=
  s.drive (ClaudeTurn.onData limitedRun (s.driven.emit (.read (PyConv.stripText raw))) data)

theorem steps_runTo {s : AttemptSys} {as : List AttemptAct}
    (h : (execAll (guarded sampleStep (FreshCalls .plain)) s as).isSome = true) :
    Steps sampleStep (FreshCalls .plain) s as (s.runTo as) := by
  obtain ⟨u, hu⟩ := Option.isSome_iff_exists.mp h
  rw [runTo, hu]
  exact (steps_of_execAll hu).of_guarded

theorem steps_readIn {s : AttemptSys} {now : Time} {raw : String} {data : Doc}
    (hatt : s.attempt = .driving s.driven) (hphase : s.driven.phase = .reading)
    (hlate : s.driven.stopDeadline.any (· ≤ now) = false)
    (hjson : ClaudeParser.json limitedRun.parser (PyConv.stripText raw) = .ok (some data)) :
    Steps sampleStep (FreshCalls .plain) s [.turn (.frame now (.line raw))] (s.readIn raw data) := by
  refine .single rfl ?_
  simp only [sampleStep, AttemptSys.step, hatt, isPlain, if_true, ClaudeTurn.step_line hphase hlate hjson]
  rfl

/-- The first attempt is under way. -/
def underWay : AttemptSys := (created .sample).runTo [.claim 0, .start]

/-- It has a call answered. -/
def answeredOnce : AttemptSys :=
  (underWay.readIn ClaudeTurn.sampleCall ClaudeTurn.sampleCallDoc).runTo
    [.publish 0 true, .stream (.tool (.submit 1 1 "call_claude_1_1" ⟨true, "42", false⟩)), .take 2 true true,
      .turn (.send 2 .ok)]

/-- The limit is hit, and the run is claimed again after its wait. -/
def claimedAgain (s : AttemptSys) : AttemptSys :=
  (s.readIn limitLine limitDoc).runTo [.park ⟨10, true, "usage limit reached"⟩ 3, .claim 11, .start]

theorem steps_underWay : Steps sampleStep (FreshCalls .plain) (created .sample) [.claim 0, .start] underWay :=
  steps_runTo (by decide +kernel)

theorem steps_limitedAtOnce :
    Steps sampleStep (FreshCalls .plain) (created .sample) limitedAtOnce
      (underWay.claimedAgain.readIn ClaudeTurn.sampleCall ClaudeTurn.sampleCallDoc) := by
  have hlimit : Steps sampleStep _ underWay [.turn (.frame 3 (.line limitLine))] (underWay.readIn limitLine limitDoc) :=
    steps_readIn rfl rfl rfl (json_limitLine rfl)
  have hagain : Steps sampleStep _ (underWay.readIn limitLine limitDoc) _ underWay.claimedAgain :=
    steps_runTo (by decide +kernel)
  have hasked : Steps sampleStep _ underWay.claimedAgain [.turn (.frame 11 (.line ClaudeTurn.sampleCall))] _ :=
    steps_readIn rfl rfl rfl (ClaudeTurn.json_sampleCall rfl)
  exact ((steps_underWay.trans hlimit).trans hagain).trans hasked

theorem steps_limitedAfterCall :
    Steps sampleStep (FreshCalls .plain) (created .sample) limitedAfterCall
      (answeredOnce.claimedAgain.readIn ClaudeTurn.sampleCall ClaudeTurn.sampleCallDoc) := by
  have hcall : Steps sampleStep _ underWay [.turn (.frame 0 (.line ClaudeTurn.sampleCall))] _ :=
    steps_readIn rfl rfl rfl (ClaudeTurn.json_sampleCall rfl)
  have hanswered : Steps sampleStep _ (underWay.readIn ClaudeTurn.sampleCall ClaudeTurn.sampleCallDoc) _ answeredOnce :=
    steps_runTo (by decide +kernel)
  have hlimit : Steps sampleStep _ answeredOnce [.turn (.frame 3 (.line limitLine))] (answeredOnce.readIn limitLine limitDoc) :=
    steps_readIn rfl rfl rfl (json_limitLine rfl)
  have hagain : Steps sampleStep _ (answeredOnce.readIn limitLine limitDoc) _ answeredOnce.claimedAgain :=
    steps_runTo (by decide +kernel)
  have hasked : Steps sampleStep _ answeredOnce.claimedAgain [.turn (.frame 11 (.line ClaudeTurn.sampleCall))] _ :=
    steps_readIn rfl rfl rfl (ClaudeTurn.json_sampleCall rfl)
  exact ((((steps_underWay.trans hcall).trans hanswered).trans hlimit).trans hagain).trans hasked

/-- The id and the name of the call a turn is to publish. -/
def callAt (s : AttemptSys) : Option (String × String) :=
  match s.attempt with
  | .driving t =>
    match t.phase with
    | .publishing _ c name _ => some (c, name)
    | _ => none
  | _ => none

theorem exists_callAt {c name : String} (h : callAt s = some (c, name)) :
    ∃ t q arguments, s.attempt = .driving t ∧ t.phase = .publishing q c name arguments := by
  unfold callAt at h
  split at h
  · rename_i t hatt
    split at h
    · rename_i q c' name' arguments hphase
      obtain ⟨rfl, rfl⟩ := Prod.mk.inj (Option.some.inj h)
      exact ⟨t, q, arguments, hatt, hphase⟩
    · cases h
  · cases h

/-- The call, what makes it valid, the calls answered in the run and whether any was in an earlier attempt. -/
def observeCall (s : AttemptSys) : Option (String × String) × (Status × String × Bool) × List String × Bool :=
  (callAt s, (s.job.status, s.job.capability, s.run.cancelRequested), s.answeredIds, s.earlierIds.isEmpty)

theorem validCall_sample {o : List String × Bool} {call : Option (String × String)} (c name : String)
    (arguments : Json)
    (h : observeCall s = (call, (.running, "agent:claude", false), o)) :
      ValidCall .sample s c name arguments := by
  obtain ⟨-, hrow, -⟩ := by simpa only [observeCall, Prod.mk.injEq] using h
  have hsize : ("\x7b\x7d" : String).utf8ByteSize ≤ maxArgumentBytes := by decide
  refine ⟨hrow.1, ?_, hrow.2.2, hsize, rfl⟩
  rw [hrow.2.1]
  decide

/-- No call was answered before the limit: the new turn publishes its first. -/
theorem resumed_call_published_after_none :
    ∃ s, Steps (AttemptSys.step .plain .sample limitedRun fun _ => .null) (FreshCalls .plain) (created .sample)
        limitedAtOnce s ∧ callAt s = some ("call_claude_1_1", "lookup") ∧
      ∃ job, publishCall .sample 12 true s.run s.job "call_claude_1_1" "lookup" .null = .ok job := by
  obtain ⟨s, hsteps, hobs⟩ : ∃ s, Steps sampleStep (FreshCalls .plain) (created .sample) limitedAtOnce s ∧
      observeCall s = (some ("call_claude_1_1", "lookup"), (.running, "agent:claude", false), [], true) :=
    ⟨_, steps_limitedAtOnce, by decide +kernel⟩
  have hvalid : ValidCall .sample s "call_claude_1_1" "lookup" .null := validCall_sample _ _ _ hobs
  obtain ⟨hcall, -, hids, hearlier⟩ := by simpa only [observeCall, Prod.mk.injEq] using hobs
  obtain ⟨t, q, arguments, hatt, hphase⟩ := exists_callAt hcall
  have hid : ClaudeTurn.callId limitedRun t.seq = "call_claude_1_1" := by
    have hok := ((inv_run hsteps).turn t hatt).phaseOk
    rw [ClaudeTurn.PhaseOk, hphase] at hok
    exact hok.2.2.2.2.1.symm
  refine ⟨s, hsteps, hcall, ((resumed_call_published_iff .plain .sample limitedRun (fun _ => .null) .sample hsteps hatt
    hphase hvalid (by simp [hids, maxCalls]) 12).1.mpr ⟨?_, fun t' ht' hmem => ?_⟩)⟩
  · rw [hid]
    decide
  · have hne : s.earlierIds ≠ [] := List.ne_nil_of_mem (List.mem_flatMap.mpr ⟨t', ht', hmem⟩)
    exact hne (List.isEmpty_iff.mp hearlier)

/-- A call was answered before the limit: the new turn gives its first call the same id, and it is refused. -/
theorem resumed_call_refused :
    ∃ s, Steps (AttemptSys.step .plain .sample limitedRun fun _ => .null) (FreshCalls .plain) (created .sample)
        limitedAfterCall s ∧ callAt s = some ("call_claude_1_1", "lookup") ∧
      ValidCall .sample s "call_claude_1_1" "lookup" .null ∧ s.answeredIds = ["call_claude_1_1"] ∧
      ∀ job, publishCall .sample 12 true s.run s.job "call_claude_1_1" "lookup" .null ≠ .ok job := by
  obtain ⟨s, hsteps, hobs⟩ : ∃ s, Steps sampleStep (FreshCalls .plain) (created .sample) limitedAfterCall s ∧
      observeCall s = (some ("call_claude_1_1", "lookup"), (.running, "agent:claude", false), ["call_claude_1_1"],
        false) :=
    ⟨_, steps_limitedAfterCall, by decide +kernel⟩
  have hvalid : ValidCall .sample s "call_claude_1_1" "lookup" .null := validCall_sample _ _ _ hobs
  obtain ⟨hcall, -, hids, -⟩ := by simpa only [observeCall, Prod.mk.injEq] using hobs
  refine ⟨s, hsteps, hcall, hvalid, hids, fun job hjob => ?_⟩
  obtain ⟨t, q, arguments, hatt, hphase⟩ := exists_callAt hcall
  have hclean := (inv_run hsteps).clean hatt (by simp [hphase])
  have hnew := (publishCall_ok hjob).2.2.1
  rw [hclean.history, hids] at hnew
  exact hnew (by simp)

end AttemptSys

end Broker.Agent
