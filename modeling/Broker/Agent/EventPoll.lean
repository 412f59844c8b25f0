import Broker.Agent.EventLog
import Broker.Agent.Policy

/-!
# Broker.Agent.EventPoll — following a run by polling its events

`GET /runs/{id}/events` (`routes/agent.py`) answers from two transactions: `get_run` loads the row of the
run, `list_events` the page after `after_seq`.  Between the two, and between two polls, the run goes on:
events are appended, the run may end.  The retention, which purges ended runs with their events, is no party.
The client passes `next_after_seq` back until `finished`; an answer may be lost, and an error leaves it where
it was.

Two things carry the protocol.  A page is a piece of a log that only grows (`ReadUpTo`), and a row that was
loaded with an outcome is the current one, since nothing is written to a run that has ended
(`RunDb.Grows`).
-/

namespace Broker.Agent

open Broker.Lib Broker.Lib.PyConv Broker.Db Broker.Providers

variable {env : Env} {cfg : ExecConfig}

/-! ### The route -/

/-- What the process that serves a request reads to let it in: the scopes of the key, the settings and the
dashboard's snapshot. -/
structure RouteCtx where
  interp : Interp
  cat : CatalogSettings
  settings : AgentEnv
  snapshot : Snapshot
  agentScope : Bool

inductive PollError where
  | missingScope
  | projectNotAllowed
  | notFound
  | policy (violation : String)
  | raised (e : PyError)

/-- `_require_agent_scope`: the scope first, then the allowed projects. -/
def requireAgentScope (g : RouteCtx) (projectId : ℕ) : Except PollError Unit :=
  if g.agentScope then
    match projectAllowed g.settings g.snapshot projectId with
    | .error e => .error (.raised e)
    | .ok true => .ok ()
    | .ok false => .error .projectNotAllowed
  else .error .missingScope

/-- `get_run`, scoped to the caller's project. -/
def getRun (runId projectId : ℕ) (db : RunDb) : Option (AgentRunRow × AgentJobRow) :=
  if db.job.id = db.run.runId ∧ db.run.runId = runId ∧ db.run.projectId = projectId then
    some (db.run, db.job)
  else none

/-- `_owned_run`: the policy is checked again on every read. -/
def ownedRun (g : RouteCtx) (runId projectId : ℕ) (db : RunDb) :
    Except PollError (AgentRunRow × AgentJobRow) :=
  match getRun runId projectId db with
  | none => .error .notFound
  | some hit =>
    match policyViolation g.interp g.cat g.settings g.snapshot projectId hit.1.model hit.1.accountId
        (some hit.1.capability.name) with
    | .error e => .error (.raised e)
    | .ok (some violation) => .error (.policy violation)
    | .ok none => .ok hit

/-- `list_events`. -/
def listEvents (runId afterSeq limit : ℕ) (db : RunDb) : List AgentRunEventRow :=
  pageAfter AgentRunEventRow.seq (if db.run.runId = runId then db.events else []) afterSeq limit

structure AgentEventOut where
  seq : ℕ
  ts : String
  type : EventType
  payload : AnyEvent
  deriving DecidableEq

def eventOut (env : Env) (r : AgentRunEventRow) : AgentEventOut where
  seq := r.seq
  ts := env.isoformat r.ts
  type := r.type
  payload := r.payload

structure AgentEventsResponse where
  runId : ℕ
  events : List AgentEventOut
  nextAfterSeq : ℕ
  finished : Bool

/-- The end of `agent_run_events`, from the row it loaded first and the page it loaded then. -/
def eventsResponse (env : Env) (runId afterSeq : ℕ) (run : AgentRunRow) (rows : List AgentRunEventRow) :
    AgentEventsResponse :=
  let last := lastKey AgentRunEventRow.seq afterSeq rows
  { runId := runId
    events := rows.map (eventOut env)
    nextAfterSeq := last
    finished := run.outcome.isSome && decide (run.lastSeq ≤ last) }

/-! ### A client that polls -/

/-- Where a poll is: sent with its `limit`, past the checks with the row it loaded, or answered. -/
inductive PollPhase where
  | idle
  | asked (limit : ℕ)
  | owned (limit : ℕ) (run : AgentRunRow)
  | answered (r : Except PollError AgentEventsResponse)

/-- The run with the parties that write to it, and a client of the project `projectId` that follows the
run `runId`: what it has got, where it goes on from, and whether it was told that this is all. -/
structure PollSys where
  sys : RunSys
  runId : ℕ
  projectId : ℕ
  seen : List AgentEventOut := []
  afterSeq : ℕ := 0
  finished : Bool := false
  poll : PollPhase := .idle

/-- Who moves: a party of the run, the client, or the process that serves its poll. -/
inductive PollAct where
  | run (a : Act)
  | ask (limit : ℕ)
  | enter (g : RouteCtx)
  | list
  | receive
  | refused
  | lose

def PollAct.isReceive : PollAct → Bool
  | .receive => true
  | _ => false

/-- The checks of the route and the row it loads. -/
def admitPoll (g : RouteCtx) (runId projectId : ℕ) (db : RunDb) :
    Except PollError (AgentRunRow × AgentJobRow) :=
  match requireAgentScope g projectId with
  | .error e => .error e
  | .ok () => ownedRun g runId projectId db

def PollSys.step (env : Env) (cfg : ExecConfig) (s : PollSys) : PollAct → Option PollSys
  | .run a => (s.sys.step env cfg a).map fun sys => { s with sys := sys }
  | .ask limit =>
    match s.poll with
    | .idle =>
      if !s.finished && decide (1 ≤ limit ∧ limit ≤ 1000) then some { s with poll := .asked limit } else none
    | _ => none
  | .enter g =>
    match s.poll with
    | .asked limit =>
      match admitPoll g s.runId s.projectId s.sys.db with
      | .error e => some { s with poll := .answered (.error e) }
      | .ok hit => some { s with poll := .owned limit hit.1 }
    | _ => none
  | .list =>
    match s.poll with
    | .owned limit run =>
      let rows := listEvents s.runId s.afterSeq limit s.sys.db
      some { s with poll := .answered (.ok (eventsResponse env s.runId s.afterSeq run rows)) }
    | _ => none
  | .receive =>
    match s.poll with
    | .answered (.ok r) =>
      some { s with
        seen := s.seen ++ r.events
        afterSeq := r.nextAfterSeq
        finished := r.finished
        poll := .idle }
    | _ => none
  | .refused =>
    match s.poll with
    | .answered (.error _) => some { s with poll := .idle }
    | _ => none
  -- the connection breaks: the client polls again from where it is
  | .lose =>
    match s.poll with
    | .idle => none
    | _ => some { s with poll := .idle }

/-- A client that has not polled yet, when the run is created. -/
def NewRun.followed (n : NewRun) (runId projectId : ℕ) : PollSys where
  sys := n.start
  runId := runId
  projectId := projectId

/-! ### What the run does to its log -/

/-- The log grows, and stands still once the run has an outcome. -/
structure RunDb.Grows (db db' : RunDb) : Prop where
  events : db.events <+: db'.events
  closed : db.run.outcome.isSome = true → db'.run.outcome = db.run.outcome ∧
    db'.run.lastSeq = db.run.lastSeq ∧ db'.events = db.events

theorem RunDb.Grows.of_same {db db' : RunDb} (he : db'.events = db.events)
    (ho : db'.run.outcome = db.run.outcome) (hl : db'.run.lastSeq = db.run.lastSeq) : db.Grows db' :=
  ⟨he ▸ List.prefix_refl _, fun _ => ⟨ho, hl, he⟩⟩

theorem Appended.grows {ev : AnyEvent} {run : AgentRunRow} {db db' : RunDb} (h : Appended ev run db db') :
    db.Grows db' := by
  obtain ⟨row, -, -, hev⟩ := h.events
  refine ⟨⟨[row], hev.symm⟩, fun ho => ?_⟩
  rw [h.opened] at ho
  cases ho

theorem Effect.grows {db db' : RunDb} {c c' : Ctl} (h : Effect env cfg db c db' c') (hI : LogInv db)
    (hc : ActorOk db c) : db.Grows db' := by
  cases h with
  | quiet hs hr => exact .of_same hs.events hs.outcome hs.lastSeq
  | append hcc hcommit =>
    subst hcc
    exact (commitAppend_spec hI (hc.level _ rfl) hc.admitted.1 hcommit).grows
  | park hcc hcs hcommit =>
    subst hcc hcs
    exact (commitPark_spec hI (hc.level _ rfl) hc.admitted hcommit).1.grows
  | requeue hcc hdb hr =>
    subst hdb
    exact .of_same rfl rfl rfl

theorem RunSys.step_grows {s s' : RunSys} {a : Act} (h : s.step env cfg a = some s') (hI : s.Inv) :
    s.db.Grows s'.db := by
  cases RunSys.step_effect h with
  | claim hclaim hdb hactors =>
    rw [hdb]
    exact .of_same rfl rfl rfl
  | spawn hc hdb hactors =>
    rw [hdb]
    exact .of_same rfl rfl rfl
  | actor ha hmem hstep hactors => exact (stepActor_effect hstep).grows hI.log (hI.actors _ hmem)

/-! ### The keys of the rows -/

/-- The columns `get_run` selects by. -/
structure RunDb.SameIds (db db' : RunDb) : Prop where
  runId : db'.run.runId = db.run.runId
  projectId : db'.run.projectId = db.run.projectId
  jobId : db'.job.id = db.job.id

theorem RunDb.SameIds.refl (db : RunDb) : db.SameIds db := ⟨rfl, rfl, rfl⟩

theorem commitAppend_ids {tx : AppendTx} {now : Time} {run : AgentRunRow} {job : Option AgentJobRow}
    {db db' : RunDb} (h : commitAppend env tx now run job db = some db') : db.SameIds db' := by
  unfold commitAppend at h
  dsimp only at h
  split_ifs at h
  obtain rfl := Option.some.inj h
  cases job <;> exact ⟨rfl, rfl, rfl⟩

theorem commitPark_ids {p : Park} {now : Time} {run : AgentRunRow} {job : AgentJobRow} {db db' : RunDb}
    (h : commitPark p now run job db = some db') : db.SameIds db' := by
  unfold commitPark at h
  dsimp only at h
  split_ifs at h
  obtain rfl := Option.some.inj h
  exact ⟨rfl, rfl, rfl⟩

theorem stepAppend_ids {i : ℕ} {tx : AppendTx} {next : Ctl} {db db' : RunDb} {lock lock' : RowLock}
    {ph : AppendPhase} {m : Move} {c' : Ctl}
    (h : stepAppend env i tx next db lock ph m = some (db', lock', c')) : db.SameIds db' := by
  unfold stepAppend at h
  split at h
  case h_4 =>
    split_ifs at h
    split at h
    case h_1 db'' hcommit =>
      obtain ⟨rfl, -, -⟩ := by simpa using h
      exact commitAppend_ids hcommit
    case h_2 =>
      obtain ⟨rfl, -, -⟩ := by simpa using h
      exact .refl _
  case h_5 => exact absurd h (by simp)
  all_goals try split_ifs at h
  all_goals
    obtain ⟨rfl, -, -⟩ := by simpa using h
    exact .refl _

theorem stepPark_ids {i : ℕ} {p : Park} {leased : Bool} {db db' : RunDb} {lock lock' : RowLock}
    {ph : ParkPhase} {m : Move} {c' : Ctl}
    (h : stepPark i p leased db lock ph m = some (db', lock', c')) : db.SameIds db' := by
  unfold stepPark at h
  split at h
  case h_3 =>
    split_ifs at h
    split at h
    case h_1 db'' hcommit =>
      obtain ⟨rfl, -, -⟩ := by simpa using h
      exact commitPark_ids hcommit
    case h_2 =>
      obtain ⟨rfl, -, -⟩ := by simpa using h
      exact .refl _
  case h_4 => exact absurd h (by simp)
  all_goals try split_ifs at h
  all_goals
    obtain ⟨rfl, -, -⟩ := by simpa using h
    exact .refl _

theorem clearPendingCall_id (job : AgentJobRow) : (clearPendingCall job).id = job.id := by
  unfold clearPendingCall
  split_ifs
  · rfl
  · split <;> rfl

theorem stepActor_ids {i : ℕ} {db db' : RunDb} {lock lock' : RowLock} {c c' : Ctl} {m : Move}
    (h : stepActor env cfg i db lock c m = some (db', lock', c')) : db.SameIds db' := by
  unfold stepActor at h
  split at h
  case h_18 =>
    split_ifs at h
    obtain ⟨rfl, -, -⟩ := by simpa using h
    exact ⟨rfl, rfl, clearPendingCall_id _⟩
  case h_20 => exact stepPark_ids h
  case h_22 => exact stepAppend_ids h
  case h_29 => exact absurd h (by simp)
  -- the other steps move the control, or write columns that are no keys
  all_goals try split_ifs at h
  all_goals try (split at h)
  all_goals first
    | obtain ⟨rfl, -, -⟩ := by simpa using h
      exact ⟨rfl, rfl, rfl⟩
    | cases h

theorem RunSys.step_ids {s s' : RunSys} {a : Act} (h : s.step env cfg a = some s') : s.db.SameIds s'.db := by
  cases RunSys.step_effect h with
  | claim hclaim hdb hactors =>
    rw [hdb]
    exact ⟨rfl, rfl, rfl⟩
  | spawn hc hdb hactors =>
    rw [hdb]
    exact .refl _
  | actor ha hmem hstep hactors => exact stepActor_ids hstep

/-! ### The invariant of a client that follows a run -/

/-- An answer on its way: what it adds continues what the client has, and where it says that this is all,
the run has ended and it is. -/
structure Continues (env : Env) (s : PollSys) (r : AgentEventsResponse) : Prop where
  follows : ReadUpTo (eventOut env) s.sys.db.events (s.seen ++ r.events) r.nextAfterSeq
  finished : r.finished = true → s.sys.db.run.outcome.isSome = true ∧ r.nextAfterSeq = s.sys.db.run.lastSeq

/-- The run is the one the client asks for, and its own. -/
def PollSys.Mine (s : PollSys) : Prop := s.sys.db.run.runId = s.runId ∧ s.sys.db.run.projectId = s.projectId

/-- What a poll carries from its transactions. -/
def PollSys.PollOk (env : Env) (s : PollSys) : Prop :=
  match s.poll with
  | .owned _ run => s.Mine ∧ (run.outcome.isSome = true →
      run.outcome = s.sys.db.run.outcome ∧ run.lastSeq = s.sys.db.run.lastSeq)
  | .answered (.ok r) => s.Mine ∧ Continues env s r
  | _ => True

structure PollSys.Inv (env : Env) (s : PollSys) : Prop where
  sys : s.sys.Inv
  follows : ReadUpTo (eventOut env) s.sys.db.events s.seen s.afterSeq
  finished : s.finished = true → s.sys.db.run.outcome.isSome = true ∧ s.afterSeq = s.sys.db.run.lastSeq
  mine : s.seen ≠ [] → s.Mine
  poll : s.PollOk env

theorem Continues.grow {s : PollSys} {sys' : RunSys} {r : AgentEventsResponse} (h : Continues env s r)
    (hg : s.sys.db.Grows sys'.db) : Continues env { s with sys := sys' } r := by
  refine ⟨h.follows.grow hg.events, fun hf => ?_⟩
  obtain ⟨ho, hl⟩ := h.finished hf
  obtain ⟨ho', hl', -⟩ := hg.closed ho
  exact ⟨ho' ▸ ho, hl.trans hl'.symm⟩

theorem PollSys.Inv.run {s : PollSys} {sys' : RunSys} (h : s.Inv env) (hsys : sys'.Inv)
    (hg : s.sys.db.Grows sys'.db) (hids : s.sys.db.SameIds sys'.db) :
    ({ s with sys := sys' } : PollSys).Inv env := by
  have hmine : s.Mine → ({ s with sys := sys' } : PollSys).Mine := fun hm =>
    ⟨hids.runId.trans hm.1, hids.projectId.trans hm.2⟩
  refine ⟨hsys, h.follows.grow hg.events, fun hf => ?_, fun hs => hmine (h.mine hs), ?_⟩
  · obtain ⟨ho, hl⟩ := h.finished hf
    obtain ⟨ho', hl', -⟩ := hg.closed ho
    exact ⟨ho' ▸ ho, hl.trans hl'.symm⟩
  · have hp := h.poll
    unfold PollSys.PollOk at hp ⊢
    dsimp only
    split
    · rename_i limit run hpoll
      rw [hpoll] at hp
      obtain ⟨hm, hrow⟩ := hp
      refine ⟨hmine hm, fun ho => ?_⟩
      obtain ⟨hro, hrl⟩ := hrow ho
      obtain ⟨ho', hl', -⟩ := hg.closed (hro ▸ ho)
      exact ⟨hro.trans ho'.symm, hrl.trans hl'.symm⟩
    · rename_i r hpoll
      rw [hpoll] at hp
      exact ⟨hmine hp.1, hp.2.grow hg⟩
    · trivial

/-- The row that passed the checks is the current one. -/
theorem admitPoll_ok {g : RouteCtx} {runId projectId : ℕ} {db : RunDb} {hit : AgentRunRow × AgentJobRow}
    (h : admitPoll g runId projectId db = .ok hit) :
    hit = (db.run, db.job) ∧ db.run.runId = runId ∧ db.run.projectId = projectId := by
  unfold admitPoll at h
  split at h
  · cases h
  · unfold ownedRun at h
    split at h
    · cases h
    · rename_i hit' hget
      unfold getRun at hget
      split_ifs at hget with hids
      obtain ⟨-, hrun, hproj⟩ := hids
      split at h
      · cases h
      · cases h
      · exact ⟨(Except.ok.inj h).symm.trans (Option.some.inj hget).symm, hrun, hproj⟩

/-- What one action of the system does: a party of the run moves, the client asks, an error or a lost
answer leaves nothing, the checks load the row, the page is read, or an answer arrives. -/
inductive PollSys.StepEffect (env : Env) (cfg : ExecConfig) (s s' : PollSys) (a : PollAct) : Prop where
  | run {b : Act} {sys' : RunSys} (ha : a.isReceive = false) (hstep : s.sys.step env cfg b = some sys')
      (hs : s' = { s with sys := sys' })
  | ask {limit : ℕ} (ha : a = .ask limit) (hidle : s.poll = .idle) (hmore : s.finished = false)
      (hpos : 1 ≤ limit) (hs : s' = { s with poll := .asked limit })
  | drop {poll : PollPhase} (ha : a.isReceive = false) (hpoll : poll = .idle ∨ ∃ e, poll = .answered (.error e))
      (hmore : s.poll ≠ .idle) (hs : s' = { s with poll := poll })
  | enter {limit : ℕ} (ha : a.isReceive = false) (hpoll : s.poll = .asked limit)
      (hids : s.sys.db.run.runId = s.runId ∧ s.sys.db.run.projectId = s.projectId)
      (hs : s' = { s with poll := .owned limit s.sys.db.run })
  | list {limit : ℕ} {run : AgentRunRow} (ha : a.isReceive = false) (hpoll : s.poll = .owned limit run)
      (hs : s' = { s with poll := .answered (.ok (eventsResponse env s.runId s.afterSeq run
        (listEvents s.runId s.afterSeq limit s.sys.db))) })
  | receive {r : AgentEventsResponse} (ha : a.isReceive = true) (hpoll : s.poll = .answered (.ok r))
      (hs : s' = { s with
        seen := s.seen ++ r.events
        afterSeq := r.nextAfterSeq
        finished := r.finished
        poll := .idle })

theorem PollSys.step_effect {s s' : PollSys} {a : PollAct} (h : s.step env cfg a = some s') :
    PollSys.StepEffect env cfg s s' a := by
  cases a with
  | run b =>
    obtain ⟨sys', hsys, rfl⟩ := Option.map_eq_some_iff.mp h
    exact .run rfl hsys rfl
  | ask limit =>
    simp only [step] at h
    split at h
    · rename_i hidle
      split_ifs at h with hask
      obtain rfl := Option.some.inj h
      obtain ⟨hfin, hlim, -⟩ : s.finished = false ∧ 1 ≤ limit ∧ limit ≤ 1000 := by simpa using hask
      exact .ask rfl hidle hfin hlim rfl
    · cases h
  | enter g =>
    simp only [step] at h
    split at h
    · rename_i limit hpoll
      split at h
      · rename_i e _
        obtain rfl := Option.some.inj h
        exact .drop rfl (.inr ⟨e, rfl⟩) (by simp [hpoll]) rfl
      · rename_i hit hok
        obtain rfl := Option.some.inj h
        obtain ⟨rfl, hids⟩ := admitPoll_ok hok
        exact .enter rfl hpoll hids rfl
    · cases h
  | list =>
    simp only [step] at h
    split at h
    · rename_i limit run hpoll
      obtain rfl := Option.some.inj h
      exact .list rfl hpoll rfl
    · cases h
  | receive =>
    simp only [step] at h
    split at h
    · rename_i r hpoll
      obtain rfl := Option.some.inj h
      exact .receive rfl hpoll rfl
    · cases h
  | refused =>
    simp only [step] at h
    split at h
    · rename_i e hpoll
      obtain rfl := Option.some.inj h
      exact .drop rfl (.inl rfl) (by simp [hpoll]) rfl
    · cases h
  | lose =>
    simp only [step] at h
    split at h
    · cases h
    · rename_i hne
      obtain rfl := Option.some.inj h
      exact .drop rfl (.inl rfl) (fun hi => hne hi) rfl

/-- The key of the rows `list_events` selects is the run's own. -/
theorem listEvents_eq {runId afterSeq limit : ℕ} {db : RunDb} (hid : db.run.runId = runId) :
    listEvents runId afterSeq limit db = pageAfter AgentRunEventRow.seq db.events afterSeq limit := by
  rw [listEvents, if_pos hid]

/-- A page, answered with a row that was loaded before it: the page continues what the client has, and it
is the last one if the row says so. -/
theorem eventsResponse_continues {s : PollSys} (hI : s.Inv env) (limit : ℕ) {run : AgentRunRow}
    (hrun : run.outcome.isSome = true →
      run.outcome = s.sys.db.run.outcome ∧ run.lastSeq = s.sys.db.run.lastSeq)
    (hid : s.sys.db.run.runId = s.runId) :
    Continues env s (eventsResponse env s.runId s.afterSeq run
      (listEvents s.runId s.afterSeq limit s.sys.db)) := by
  have hdense := hI.sys.log.dense
  rw [listEvents_eq hid]
  refine ⟨hI.follows.page hdense limit, fun hf => ?_⟩
  obtain ⟨hsome, hle⟩ : run.outcome.isSome = true ∧
      run.lastSeq ≤ lastKey AgentRunEventRow.seq s.afterSeq
        (pageAfter AgentRunEventRow.seq s.sys.db.events s.afterSeq limit) := by
    simpa [eventsResponse] using hf
  obtain ⟨ho, hl⟩ := hrun hsome
  refine ⟨ho ▸ hsome, ?_⟩
  have hkey := (hI.follows.page hdense limit).le
  rw [hdense.length_eq] at hkey
  exact le_antisymm hkey (hl ▸ hle)

theorem PollSys.step_inv {s s' : PollSys} {a : PollAct} (h : s.step env cfg a = some s') (hI : s.Inv env) :
    s'.Inv env := by
  have hp := hI.poll
  unfold PollSys.PollOk at hp
  cases PollSys.step_effect h with
  | run ha hstep hs =>
    subst hs
    exact hI.run (RunSys.step_inv hstep hI.sys) (RunSys.step_grows hstep hI.sys) (RunSys.step_ids hstep)
  | ask ha hidle hmore hpos hs =>
    subst hs
    exact ⟨hI.sys, hI.follows, hI.finished, hI.mine, trivial⟩
  | drop ha hpoll hmore hs =>
    subst hs
    refine ⟨hI.sys, hI.follows, hI.finished, hI.mine, ?_⟩
    rcases hpoll with rfl | ⟨e, rfl⟩ <;> trivial
  | enter ha hpoll hids hs =>
    subst hs
    exact ⟨hI.sys, hI.follows, hI.finished, hI.mine, hids, fun _ => ⟨rfl, rfl⟩⟩
  | @list limit run ha hpoll hs =>
    subst hs
    rw [hpoll] at hp
    have hcont := eventsResponse_continues hI limit hp.2 hp.1.1
    exact ⟨hI.sys, hI.follows, hI.finished, hI.mine, hp.1, hcont.follows, hcont.finished⟩
  | receive ha hpoll hs =>
    subst hs
    rw [hpoll] at hp
    exact ⟨hI.sys, hp.2.follows, hp.2.finished, fun _ => hp.1, trivial⟩

theorem NewRun.followed_inv (n : NewRun) (runId projectId : ℕ) : (n.followed runId projectId).Inv env :=
  ⟨n.start_inv, .nil _ _, fun h => absurd h (by simp [NewRun.followed]), fun h => absurd rfl h, trivial⟩

/-- A run that has ended has the event of its outcome at the end of its log. -/
theorem LogInv.getLast?_of_outcome {db : RunDb} (h : LogInv db) {o : Outcome} (ho : db.run.outcome = some o) :
    ∃ e, db.events.getLast? = some e ∧ outcomeByType e.type = some o := by
  obtain ⟨e, he, heo⟩ := (h.outcome o).mp ho
  have hseq := h.last e he (by simp [EventType.terminal, heo])
  have hlen := h.dense.length_eq
  have hpos : 0 < db.events.length := List.length_pos_of_mem he
  have hlast : db.events.length - 1 < db.events.length := by omega
  refine ⟨e, ?_, heo⟩
  rw [List.getLast?_eq_getElem?, List.getElem?_eq_getElem hlast]
  congr 1
  refine h.dense.eq_of_key_eq (List.getElem_mem hlast) he ?_
  rw [h.dense.key_getElem hlast, hseq]
  omega

/-- Neither the run nor the client changes its keys. -/
theorem followed_ids {n : NewRun} {runId projectId : ℕ} {as : List PollAct} {s : PollSys}
    (h : Steps (PollSys.step env cfg) Free (n.followed runId projectId) as s) :
    s.sys.db.run.runId = n.id ∧ s.sys.db.run.projectId = n.projectId ∧ s.runId = runId ∧
      s.projectId = projectId := by
  refine h.inv (I := fun t => t.sys.db.run.runId = n.id ∧ t.sys.db.run.projectId = n.projectId ∧
    t.runId = runId ∧ t.projectId = projectId) (fun t a u ht _ hstep => ?_) ⟨rfl, rfl, rfl, rfl⟩
  cases PollSys.step_effect hstep with
  | run ha hsys hs =>
    subst hs
    obtain ⟨hi, hj, hk⟩ := ht
    have hids := RunSys.step_ids hsys
    exact ⟨hids.runId.trans hi, hids.projectId.trans hj, hk⟩
  | ask ha hidle hmore hpos hs => exact hs ▸ ht
  | drop ha hpoll hmore hs => exact hs ▸ ht
  | enter ha hpoll hids hs => exact hs ▸ ht
  | list ha hpoll hs => exact hs ▸ ht
  | receive ha hpoll hs => exact hs ▸ ht

/-! ### What the client gets -/

/-- **A client that follows a run gets its log**, whatever the order of the parties' steps, the lost
answers and the errors: in every reachable state it has the first `after_seq` events, in order and each
once; once it is told that it is finished it has all of them, the last one is the event of the run's
outcome, and so it stays.  A client of another project gets nothing. -/
theorem poll_delivers (env : Env) (cfg : ExecConfig) (n : NewRun) (runId projectId : ℕ) {as : List PollAct}
    {s : PollSys} (h : Steps (PollSys.step env cfg) Free (n.followed runId projectId) as s) :
    s.seen = (s.sys.db.events.take s.afterSeq).map (eventOut env) ∧
    (s.finished = true → s.seen = s.sys.db.events.map (eventOut env) ∧
      ∃ o last, s.sys.db.run.outcome = some o ∧ s.seen.getLast? = some last ∧
        outcomeByType last.type = some o) ∧
    (s.seen ≠ [] → runId = n.id ∧ projectId = n.projectId) := by
  have hI : s.Inv env := h.inv (fun _ _ _ hI _ hs => PollSys.step_inv hs hI) (n.followed_inv runId projectId)
  refine ⟨hI.follows.seen_eq, fun hf => ?_, fun hs => ?_⟩
  · obtain ⟨ho, hl⟩ := hI.finished hf
    obtain ⟨o, ho⟩ := Option.isSome_iff_exists.mp ho
    obtain ⟨e, he, heo⟩ := hI.sys.log.getLast?_of_outcome ho
    have hall := hI.follows.all (hl.trans hI.sys.log.dense.length_eq.symm)
    refine ⟨hall, o, eventOut env e, ho, ?_, heo⟩
    rw [hall, List.getLast?_map, he]
    rfl
  · obtain ⟨hrun, hproj⟩ := hI.mine hs
    obtain ⟨hr, hp, hr', hp'⟩ := followed_ids h
    exact ⟨hr'.symm.trans (hrun.symm.trans hr), hp'.symm.trans (hproj.symm.trans hp)⟩

/-! ### When the client is done -/

/-- After the end of the run, from `after_seq = k₀` on: `k` answers have come, to polls of at least `least`
events, and each but the last brought that many. -/
structure WindingUp (last k₀ least k : ℕ) (s : PollSys) : Prop where
  ended : s.sys.db.run.outcome.isSome = true
  lastSeq : s.sys.db.run.lastSeq = last
  shut : s.finished = true → s.poll = .idle
  progress : s.finished = true ∨ k₀ + k * least ≤ s.afterSeq ∧ (k = 0 ∨ s.afterSeq < last)
  poll : match s.poll with
    | .asked limit => least ≤ limit
    | .owned limit run => least ≤ limit ∧ run.outcome.isSome = true
    | .answered (.ok r) => r.finished = decide (last ≤ r.nextAfterSeq) ∧
        min (s.afterSeq + least) last ≤ r.nextAfterSeq
    | _ => True

/-- What an answer says of a run that had ended when its row was loaded. -/
theorem eventsResponse_of_ended {s : PollSys} (hI : s.Inv env) {limit least : ℕ} {run : AgentRunRow}
    (hle : least ≤ limit) (hended : run.outcome.isSome = true) (hlast : run.lastSeq = s.sys.db.run.lastSeq)
    (hid : s.sys.db.run.runId = s.runId) {r : AgentEventsResponse}
    (hr : r = eventsResponse env s.runId s.afterSeq run (listEvents s.runId s.afterSeq limit s.sys.db)) :
    r.finished = decide (s.sys.db.run.lastSeq ≤ r.nextAfterSeq) ∧
      min (s.afterSeq + least) s.sys.db.run.lastSeq ≤ r.nextAfterSeq := by
  have hdense := hI.sys.log.dense
  have hafter : s.afterSeq ≤ s.sys.db.run.lastSeq := hdense.length_eq ▸ hI.follows.le
  have hnext : r.nextAfterSeq = min (s.afterSeq + limit) s.sys.db.run.lastSeq := by
    rw [hr, listEvents_eq hid]
    exact hdense.lastKey_pageAfter hafter limit
  refine ⟨?_, by omega⟩
  have hfin : r.finished = (run.outcome.isSome && decide (run.lastSeq ≤ r.nextAfterSeq)) := by rw [hr]; rfl
  rw [hfin, hended, hlast, Bool.true_and]

theorem WindingUp.step {s s' : PollSys} {a : PollAct} {last k₀ least k : ℕ} (h : s.step env cfg a = some s')
    (hI : s.Inv env) (he : WindingUp last k₀ least k s) (hleast : ∀ limit, a = .ask limit → least ≤ limit) :
    WindingUp last k₀ least (k + if a.isReceive then 1 else 0) s' := by
  have hq := hI.poll
  unfold PollSys.PollOk at hq
  cases PollSys.step_effect h with
  | run ha hstep hs =>
    subst hs
    obtain ⟨ho, hl, -⟩ := (RunSys.step_grows hstep hI.sys).closed he.ended
    rw [ha]
    exact ⟨ho ▸ he.ended, hl.trans he.lastSeq, he.shut, he.progress, he.poll⟩
  | ask ha hidle hmore hpos hs =>
    subst hs ha
    exact ⟨he.ended, he.lastSeq, fun hf => absurd (hmore.symm.trans hf) (by simp), he.progress,
      hleast _ rfl⟩
  | drop ha hpoll hmore hs =>
    subst hs
    rw [ha]
    refine ⟨he.ended, he.lastSeq, fun hf => absurd (he.shut hf) hmore, he.progress, ?_⟩
    rcases hpoll with rfl | ⟨e, rfl⟩ <;> trivial
  | enter ha hpoll hids hs =>
    subst hs
    have hlim := he.poll
    rw [hpoll] at hlim
    rw [ha]
    refine ⟨he.ended, he.lastSeq, fun hf => ?_, he.progress, hlim, he.ended⟩
    exact absurd ((he.shut hf).symm.trans hpoll) (by simp)
  | @list limit run ha hpoll hs =>
    subst hs
    have hrow := he.poll
    rw [hpoll] at hrow hq
    rw [ha]
    refine ⟨he.ended, he.lastSeq, fun hf => ?_, he.progress, ?_⟩
    · exact absurd ((he.shut hf).symm.trans hpoll) (by simp)
    · obtain ⟨-, hlast⟩ := hq.2 hrow.2
      have hans := eventsResponse_of_ended hI hrow.1 hrow.2 hlast hq.1.1 rfl
      rwa [he.lastSeq] at hans
  | @receive r ha hpoll hs =>
    subst hs
    have hans := he.poll
    rw [hpoll] at hans
    obtain ⟨hfin, hnext⟩ := hans
    rw [ha, if_pos rfl]
    refine ⟨he.ended, he.lastSeq, fun _ => rfl, ?_, trivial⟩
    by_cases hle : last ≤ r.nextAfterSeq
    · exact .inl (hfin.trans (decide_eq_true hle))
    · -- a page that is not the last one is full
      refine .inr ⟨?_, .inr (Nat.lt_of_not_le hle)⟩
      rcases he.progress with hf | ⟨hk, -⟩
      · exact absurd ((he.shut hf).symm.trans hpoll) (by simp)
      · show k₀ + (k + 1) * least ≤ r.nextAfterSeq
        have hmul : (k + 1) * least = k * least + least := Nat.succ_mul k least
        omega

/-- From a state after the end of the run, with no poll under way. -/
theorem WindingUp.run {s t : PollSys} {bs : List PollAct} {least : ℕ}
    (h : Steps (PollSys.step env cfg) Free s bs t) (hI : s.Inv env)
    (hended : s.sys.db.run.outcome.isSome = true) (hidle : s.poll = .idle)
    (hasks : ∀ limit, .ask limit ∈ bs → least ≤ limit) :
    t.Inv env ∧ WindingUp s.sys.db.run.lastSeq s.afterSeq least (bs.countP PollAct.isReceive) t ∧
      t.sys.db.events = s.sys.db.events := by
  induction h with
  | nil => exact ⟨hI, ⟨hended, rfl, fun _ => hidle, .inr ⟨by simp, .inl rfl⟩, by rw [hidle]; trivial⟩, rfl⟩
  | @snoc u v bs a hr _ hstep ih =>
    obtain ⟨hu, he, hev⟩ := ih fun limit hmem => hasks limit (List.mem_append_left _ hmem)
    refine ⟨PollSys.step_inv hstep hu, ?_, ?_⟩
    · rw [List.countP_append, List.countP_singleton]
      exact he.step hstep hu fun limit ha => hasks limit (by simp [ha])
    · rw [← hev]
      cases PollSys.step_effect hstep with
      | run ha hsys hs =>
        subst hs
        exact ((RunSys.step_grows hsys hu.sys).closed he.ended).2.2
      | ask ha hidle' hmore hpos hs => rw [hs]
      | drop ha hpoll hmore hs => rw [hs]
      | enter ha hpoll hids hs => rw [hs]
      | list ha hpoll hs => rw [hs]
      | receive ha hpoll hs => rw [hs]

/-- **The client is told**: from when the run has ended and no poll is under way, it is finished as soon as
an answer has come and the answers' polls, of at least `least` events each, reach the end of the log. -/
theorem poll_ends (env : Env) (cfg : ExecConfig) (n : NewRun) (runId projectId : ℕ) {as bs : List PollAct}
    {s t : PollSys} (h : Steps (PollSys.step env cfg) Free (n.followed runId projectId) as s)
    (hended : s.sys.db.run.outcome.isSome = true) (hidle : s.poll = .idle) (least : ℕ)
    (hrun : Steps (PollSys.step env cfg) Free s bs t) (hasks : ∀ limit, .ask limit ∈ bs → least ≤ limit)
    (hone : 1 ≤ bs.countP PollAct.isReceive)
    (hreach : s.sys.db.run.lastSeq ≤ s.afterSeq + bs.countP PollAct.isReceive * least) :
    t.finished = true ∧ t.seen = s.sys.db.events.map (eventOut env) := by
  have hI : s.Inv env := h.inv (fun _ _ _ hI _ hs => PollSys.step_inv hs hI) (n.followed_inv runId projectId)
  obtain ⟨ht, he, hev⟩ := WindingUp.run hrun hI hended hidle hasks
  have hfin : t.finished = true := by
    rcases he.progress with hf | ⟨hk, hlt⟩
    · exact hf
    · omega
  obtain ⟨-, hl⟩ := ht.finished hfin
  refine ⟨hfin, ?_⟩
  rw [← hev]
  exact ht.follows.all (hl.trans ht.sys.log.dense.length_eq.symm)

/-! ### The sample run, followed -/

/-- A process whose dashboard lets project 1 use the model and the account of the sample run. -/
def RouteCtx.sample : RouteCtx where
  interp := ⟨0, 0, fun _ => ""⟩
  cat := CatalogSettings.default
  settings := ⟨"", ""⟩
  snapshot := some [(1, ⟨true, ["sonnet"], ["main"]⟩)]
  agentScope := true

def NewRun.modelled : NewRun := { NewRun.sample with model := some "sonnet" }

/-- The run is cancelled between the two transactions of a poll: the answer holds the last event, and does
not say so. -/
def overtaken : List PollAct :=
  [.ask 500, .enter .sample] ++ cancelQueued.map .run ++ [.list, .receive]

/-- The next poll brings nothing but the word that this was all. -/
def lastWord : List PollAct := [.ask 500, .enter .sample, .list, .receive]

theorem poll_delivers_of_overtaken :
    ∃ s, Steps (PollSys.step Env.plain ExecConfig.default) Free (NewRun.modelled.followed 1 1)
        (overtaken ++ lastWord) s ∧ s.finished = true ∧ s.afterSeq = 1 ∧
      s.seen = s.sys.db.events.map (eventOut Env.plain) := by
  have hrun : (execAll (PollSys.step Env.plain ExecConfig.default) (NewRun.modelled.followed 1 1)
      (overtaken ++ lastWord)).map (fun s => (s.finished, s.afterSeq)) = some (true, 1) := by decide
  obtain ⟨s, hs, ho⟩ := steps_of_observed hrun
  obtain ⟨hf, ha⟩ : s.finished = true ∧ s.afterSeq = 1 := by simpa using ho
  exact ⟨s, hs, hf, ha, ((poll_delivers _ _ _ _ _ hs).2.1 hf).1⟩

theorem poll_ends_of_overtaken :
    ∃ s t, Steps (PollSys.step Env.plain ExecConfig.default) Free (NewRun.modelled.followed 1 1) overtaken s ∧
      s.finished = false ∧ Steps (PollSys.step Env.plain ExecConfig.default) Free s lastWord t ∧
      t.finished = true ∧ t.seen = s.sys.db.events.map (eventOut Env.plain) := by
  have hrun : (execAll (PollSys.step Env.plain ExecConfig.default) (NewRun.modelled.followed 1 1)
      overtaken).bind (fun s => (execAll (PollSys.step Env.plain ExecConfig.default) s lastWord).map fun _ =>
        (s.sys.db.run.outcome.isSome, s.finished, s.sys.db.run.lastSeq, s.afterSeq, s.poll matches .idle)) =
      some (true, false, 1, 1, true) := by decide
  obtain ⟨s, t, hs, ht, ho⟩ := steps_of_observed_then (g := id) hrun
  obtain ⟨hended, hf, hlast, hafter, hidle⟩ : s.sys.db.run.outcome.isSome = true ∧ s.finished = false ∧
      s.sys.db.run.lastSeq = 1 ∧ s.afterSeq = 1 ∧ s.poll = .idle := by
    cases hp : s.poll <;> simp_all
  have hreach : s.sys.db.run.lastSeq ≤ s.afterSeq + lastWord.countP PollAct.isReceive * 500 := by
    rw [hlast, hafter]
    decide
  refine ⟨s, t, hs, hf, ht, poll_ends _ _ _ _ _ hs hended hidle 500 ht ?_ (by decide) hreach⟩
  simp [lastWord]

end Broker.Agent
