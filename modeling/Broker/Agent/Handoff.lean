import Broker.Agent.Worker

/-!
# Broker.Agent.Handoff — the event consumer and the client-tool handoff share `result_meta`

While a run streams, the consumer stores events through `append_event` and the driver publishes and
takes client tool calls.  The handoff holds the queue row `FOR UPDATE`; `append_event` reads it plainly
and writes the whole `result_meta` back at its commit.  `StreamSys` interleaves the reads and commits of
any number of `append_event` calls with any handoff calls on one row.
-/

namespace Broker.Agent

open Broker.Lib Broker.Db

/-- The rows and the open `append_event` transactions. -/
structure StreamSys where
  db : RunDb
  txs : List (AnyEvent × AppendPhase) := []

/-- `advance i` is the next statement of the `i`-th open transaction, `abort i` its rollback. -/
inductive StreamAct where
  | append (ev : AnyEvent) (now : Time)
  | advance (i : ℕ)
  | abort (i : ℕ)
  | tool (op : ToolOp)

section System

variable (env : Env) (te : ToolEnv)

/-- The rows after a handoff call. -/
def StreamSys.callTool (s : StreamSys) (op : ToolOp) : StreamSys :=
  { s with db := { s.db with job := (Agent.callTool te s.db.run s.db.job op).1 } }

/-- What a handoff call replies. -/
def StreamSys.reply (s : StreamSys) (op : ToolOp) : ToolReply := (Agent.callTool te s.db.run s.db.job op).2

def StreamSys.step (s : StreamSys) : StreamAct → Option StreamSys
  | .append ev now => some { s with txs := s.txs ++ [(ev, .opened now)] }
  | .advance i =>
    match s.txs[i]? with
    | some (ev, .opened now) =>
      if s.db.run.outcome.isSome then some { s with txs := s.txs.eraseIdx i }
      else some { s with txs := s.txs.set i (ev, .gotRun now s.db.run) }
    | some (ev, .gotRun now run) =>
      let job := if needsJob ev.type then some s.db.job else none
      some { s with txs := s.txs.set i (ev, .ready now run job) }
    | some (ev, .ready now run job) =>
      match commitAppend env { ev } now run job s.db with
      | some db => some ⟨db, s.txs.eraseIdx i⟩
      | none => some { s with txs := s.txs.eraseIdx i }
    | _ => none
  | .abort i => if i < s.txs.length then some { s with txs := s.txs.eraseIdx i } else none
  | .tool op => some (s.callTool te op)

/-- The action takes the pending call out of `result_meta`: a `take_result` that returns a result, a
`clear_pending_call` that withdraws it, or the commit of a terminal event. -/
def StreamSys.removes (s : StreamSys) : StreamAct → Bool
  | .tool (.take now ok callId) =>
    match s.reply te (.take now ok callId) with
    | .taken (some _) => true
    | _ => false
  | .tool .clear => (metaOf (clearPendingCall s.db.job)).clientTool.isNone
  | .advance i =>
    match s.txs[i]? with
    | some (ev, .ready ..) => ev.type.terminal
    | _ => false
  | _ => false

/-- A `take_result` that returns a result. -/
def StreamSys.delivers (s : StreamSys) : StreamAct → Bool
  | .tool op => (delivered (op, s.reply te op)).isSome
  | _ => false

/-- The commit of a non-terminal event that changes `result_meta` finds the `client_tool` key as its
transaction read it. -/
def StreamSys.freshWrite (s : StreamSys) : StreamAct → Bool
  | .advance i =>
    match s.txs[i]? with
    | some (ev, .ready now _ (some job)) =>
      ev.type.terminal || decide (foldMeta now job ev = job.resultMeta)
        || decide ((metaOf job).clientTool = (metaOf s.db.job).clientTool)
    | _ => true
  | _ => true

end System

variable {env : Env} {te : ToolEnv}

/-! ### One step -/

theorem foldMeta_clientTool (now : Time) (job : AgentJobRow) (ev : AnyEvent) :
    ((foldMeta now job ev).getD {}).clientTool = (metaOf job).clientTool := by
  unfold foldMeta
  split
  all_goals first | rfl | (dsimp only; split_ifs <;> rfl)

theorem gatedEvent_of_not_terminal {ev : AnyEvent} (h : ev.type.terminal = false) (c : Option ClientJob) :
    gatedEvent env ev c = ev := by
  unfold gatedEvent
  split
  · cases h
  · rfl

/-- The commit of a non-terminal event keeps the status and, written on the call it read, the call. -/
theorem commitAppend_of_not_terminal {ev : AnyEvent} {now : Time} {run : AgentRunRow}
    {job : Option AgentJobRow} {db db' : RunDb} (hev : ev.type.terminal = false)
    (h : commitAppend env { ev } now run job db = some db') :
    db'.job.status = db.job.status ∧
    ((∀ j, job = some j → foldMeta now j ev = j.resultMeta ∨
        (metaOf j).clientTool = (metaOf db.job).clientTool) →
      (metaOf db'.job).clientTool = (metaOf db.job).clientTool) := by
  simp only [commitAppend, gatedEvent_of_not_terminal hev] at h
  split_ifs at h
  obtain rfl := Option.some.inj h
  cases job with
  | none => exact ⟨rfl, fun _ => rfl⟩
  | some j =>
    simp only [Option.elim_some, DeepJobRow.flush, appendJob, hev, Bool.false_eq_true, if_false, col_self,
      true_and]
    intro hfresh
    by_cases hw : foldMeta now j ev = j.resultMeta
    · simp only [metaOf, hw, col_self]
    · simp only [metaOf, col_of_ne _ hw]
      exact (foldMeta_clientTool now j ev).trans ((hfresh j rfl).resolve_left hw)

/-- The commit of a terminal event leaves the row in a terminal status. -/
theorem commitAppend_of_terminal {ev : AnyEvent} {now : Time} {run : AgentRunRow}
    {j : AgentJobRow} {db db' : RunDb} (hev : ev.type.terminal = true)
    (hj : j.status.terminal = true → db.job.status.terminal = true)
    (h : commitAppend env { ev } now run (some j) db = some db') : db'.job.status.terminal = true := by
  simp only [commitAppend, Option.bind_some] at h
  split_ifs at h
  obtain rfl := Option.some.inj h
  have hterm := (gatedEvent_terminal env ev j.request.clientJob).trans hev
  simp only [Option.elim_some, DeepJobRow.flush, appendJob_status_of_terminal _ _ _ _ hterm]
  unfold col
  split_ifs with heq
  · exact hj (by rw [← heq]; exact jobStatus_terminal _)
  · exact jobStatus_terminal _

/-- A handoff call on a pending call keeps it, its result too once it has one, unless it delivers or
withdraws it. -/
theorem callTool_pending {run : AgentRunRow} {job : AgentJobRow} {call : ClientCall} (op : ToolOp)
    (hcall : (metaOf job).clientTool = some call) :
    (∃ st, (metaOf (callTool te run job op).1).clientTool = some { call with state := st } ∧
      (call.state ≠ .waiting → st = call.state)) ∨
    (∃ now ok s c d t, op = .take now ok call.callId ∧ call.state = .ready s c d t ∧
      (callTool te run job op).2 = .taken (some ⟨s, c, t⟩)) ∨
    (op = .clear ∧ call.state = .waiting ∧ (metaOf (clearPendingCall job)).clientTool = none) := by
  have hkeep : ∃ st, (metaOf job).clientTool = some { call with state := st } ∧
      (call.state ≠ .waiting → st = call.state) := ⟨call.state, hcall, fun _ => rfl⟩
  cases op with
  | publish now ok callId name arguments =>
    cases h : publishCall te now ok run job callId name arguments with
    | error e => exact .inl (by simpa only [callTool, h] using hkeep)
    | ok job' => exact absurd (publishCall_ok h).1 (by simp [hcall])
  | submit now projectId callId r =>
    cases h : submitResult te now run job projectId callId r with
    | error e => exact .inl (by simpa only [callTool, h] using hkeep)
    | ok x =>
      obtain ⟨job', fresh⟩ := x
      simp only [callTool, h]
      rcases submitResult_ok h with ⟨-, rfl, -⟩ | ⟨-, -, call', hcall', -, hst, rfl⟩
      · exact .inl hkeep
      · obtain rfl : call = call' := Option.some.inj (hcall.symm.trans hcall')
        exact .inl ⟨_, rfl, fun hne => absurd hst hne⟩
  | take now ok callId =>
    cases h : takeResult now ok run job callId with
    | error e => exact .inl (by simpa only [callTool, h] using hkeep)
    | ok x =>
      obtain ⟨job', res⟩ := x
      simp only [callTool, h]
      obtain ⟨call', hcall', rfl, hcase⟩ := takeResult_ok h
      obtain rfl : call = call' := Option.some.inj (hcall.symm.trans hcall')
      rcases hcase with ⟨-, rfl, rfl⟩ | ⟨s, c, d, t, hst, rfl, -⟩
      · exact .inl hkeep
      · exact .inr (.inl ⟨now, ok, s, c, d, t, rfl, hst, rfl⟩)
  | clear =>
    rcases clearPendingCall_cases job with h | ⟨call', hcall', hst, h⟩
    · exact .inl (by simpa only [callTool, h] using hkeep)
    · obtain rfl : call = call' := Option.some.inj (hcall.symm.trans hcall')
      exact .inr (.inr ⟨rfl, hst, by rw [h]; rfl⟩)

/-- What an action does to the stored call and the status: a handoff call, a commit of a non-terminal
event, a commit of a terminal one, or nothing. -/
theorem StreamSys.step_cases {s s' : StreamSys} {a : StreamAct} (h : s.step env te a = some s') :
    (∃ op, a = .tool op ∧ s' = s.callTool te op) ∨
    (∃ i ev now run job, a = .advance i ∧ s.txs[i]? = some (ev, .ready now run job) ∧
      commitAppend env { ev } now run job s.db = some s'.db ∧ s'.txs = s.txs.eraseIdx i) ∨
    (s'.db = s.db ∧ ∀ tx ∈ s'.txs, tx ∈ s.txs ∨
      ∀ now run j, tx.2 = .ready now run (some j) → j = s.db.job) := by
  cases a with
  | append ev now =>
    obtain rfl := Option.some.inj h
    refine .inr (.inr ⟨rfl, fun tx htx => ?_⟩)
    rcases List.mem_append.mp htx with htx | htx
    · exact .inl htx
    · rw [List.mem_singleton] at htx
      subst htx
      exact .inr fun _ _ _ hx => by cases hx
  | advance i =>
    simp only [StreamSys.step] at h
    split at h
    · split_ifs at h <;> obtain rfl := Option.some.inj h
      · exact .inr (.inr ⟨rfl, fun tx htx => .inl (List.mem_of_mem_eraseIdx htx)⟩)
      · refine .inr (.inr ⟨rfl, fun tx htx => ?_⟩)
        rcases List.mem_or_eq_of_mem_set htx with htx | rfl
        · exact .inl htx
        · exact .inr fun _ _ _ hx => by cases hx
    · obtain rfl := Option.some.inj h
      refine .inr (.inr ⟨rfl, fun tx htx => ?_⟩)
      rcases List.mem_or_eq_of_mem_set htx with htx | rfl
      · exact .inl htx
      · refine .inr fun _ _ j hx => ?_
        obtain ⟨-, -, hj⟩ := AppendPhase.ready.inj hx
        split_ifs at hj
        exact (Option.some.inj hj).symm
    · rename_i ev now run job htx
      split at h
      · rename_i db hc
        obtain rfl := Option.some.inj h
        exact .inr (.inl ⟨i, ev, now, run, job, rfl, htx, hc, rfl⟩)
      · obtain rfl := Option.some.inj h
        exact .inr (.inr ⟨rfl, fun tx htx => .inl (List.mem_of_mem_eraseIdx htx)⟩)
    · cases h
  | abort i =>
    simp only [StreamSys.step] at h
    split_ifs at h
    obtain rfl := Option.some.inj h
    exact .inr (.inr ⟨rfl, fun tx htx => .inl (List.mem_of_mem_eraseIdx htx)⟩)
  | tool op => exact .inl ⟨op, rfl, (Option.some.inj h).symm⟩

/-! ### Runs -/

/-- The side condition on a run: every write of `result_meta` is fresh. -/
def Fresh (s : StreamSys) (a : StreamAct) : Prop := s.freshWrite a = true

instance (s : StreamSys) (a : StreamAct) : Decidable (Fresh s a) := inferInstanceAs (Decidable (_ = true))

theorem Fresh.commit {s : StreamSys} {i : ℕ} {ev : AnyEvent} {now : Time} {run : AgentRunRow}
    {job : Option AgentJobRow} (hf : Fresh s (.advance i)) (htx : s.txs[i]? = some (ev, .ready now run job))
    (hev : ev.type.terminal = false) : ∀ j, job = some j → foldMeta now j ev = j.resultMeta ∨
      (metaOf j).clientTool = (metaOf s.db.job).clientTool := by
  rintro j rfl
  simpa [Fresh, StreamSys.freshWrite, htx, hev] using hf

/-- A pending call survives every fresh action that does not remove it, a ready one unchanged. -/
theorem pending_step {s s' : StreamSys} {a : StreamAct} {call : ClientCall} (hf : Fresh s a)
    (hr : s.removes te a = false) (hs : s.step env te a = some s')
    (hcall : (metaOf s.db.job).clientTool = some call) :
    ∃ st, (metaOf s'.db.job).clientTool = some { call with state := st } ∧
      (call.state ≠ .waiting → st = call.state) := by
  rcases StreamSys.step_cases hs with ⟨op, rfl, rfl⟩ | ⟨i, ev, now, run, job, rfl, htx, hc, -⟩ | ⟨hdb, -⟩
  · rcases callTool_pending op hcall with h | ⟨now, ok, b, c, d, t, rfl, -, hrep⟩ | ⟨rfl, -, hnone⟩
    · exact h
    · simp [StreamSys.removes, StreamSys.reply, hrep] at hr
    · simp [StreamSys.removes, hnone] at hr
  · have hev : ev.type.terminal = false := by simpa [StreamSys.removes, htx] using hr
    refine ⟨call.state, ?_, fun _ => rfl⟩
    rw [(commitAppend_of_not_terminal hev hc).2 (hf.commit htx hev)]
    exact hcall
  · rw [hdb]
    exact ⟨call.state, hcall, fun _ => rfl⟩

/-- A transaction that loaded a closed row keeps company with a closed row. -/
def StreamSys.ClosedRead (s : StreamSys) : Prop :=
  ∀ tx ∈ s.txs, ∀ now run j, tx.2 = .ready now run (some j) → j.status.terminal = true →
    s.db.job.status.terminal = true

theorem status_terminal_step {s s' : StreamSys} {a : StreamAct} (hs : s.step env te a = some s')
    (ht : s.db.job.status.terminal = true) : s'.db.job.status.terminal = true := by
  rcases StreamSys.step_cases hs with ⟨op, rfl, rfl⟩ | ⟨i, ev, now, run, job, rfl, htx, hc, -⟩ | ⟨hdb, -⟩
  · rw [← ht]
    exact congrArg Status.terminal (callTool_effect te s.db.run s.db.job op).1.1
  · cases hev : ev.type.terminal with
    | false => rwa [(commitAppend_of_not_terminal hev hc).1]
    | true =>
      cases job with
      | none =>
        simp only [commitAppend] at hc
        split_ifs at hc
        rwa [← Option.some.inj hc]
      | some j => exact commitAppend_of_terminal hev (fun _ => ht) hc
  · rwa [hdb]

theorem StreamSys.ClosedRead.step {s s' : StreamSys} {a : StreamAct} (hi : s.ClosedRead)
    (hs : s.step env te a = some s') : s'.ClosedRead := by
  have hterm := status_terminal_step hs
  rcases StreamSys.step_cases hs with ⟨op, rfl, rfl⟩ | ⟨i, _, _, _, _, rfl, _, _, htxs⟩ | ⟨hdb, htxs⟩
  · exact fun tx htx now run j hj hjt => hterm (hi tx htx now run j hj hjt)
  · intro tx htx now run j hj hjt
    rw [htxs] at htx
    exact hterm (hi tx (List.mem_of_mem_eraseIdx htx) now run j hj hjt)
  · intro tx htx now run j hj hjt
    rcases htxs tx htx with hmem | hnew
    · exact hterm (hi tx hmem now run j hj hjt)
    · rw [hdb, ← hnew now run j hj]
      exact hjt

/-- A ready call survives every fresh action that does not deliver it, until the run is closed. -/
theorem ready_step {s s' : StreamSys} {a : StreamAct} {call : ClientCall} (hst : call.state ≠ .waiting)
    (hi : s.ClosedRead) (hf : Fresh s a) (hd : s.delivers te a = false) (hs : s.step env te a = some s')
    (h : (metaOf s.db.job).clientTool = some call ∨ s.db.job.status.terminal = true) :
    (metaOf s'.db.job).clientTool = some call ∨ s'.db.job.status.terminal = true := by
  rcases h with hcall | ht
  swap
  · exact .inr (status_terminal_step hs ht)
  have hkeep : s.removes te a = false → (metaOf s'.db.job).clientTool = some call := by
    intro hr
    obtain ⟨st, hcall', hstate⟩ := pending_step hf hr hs hcall
    rw [hcall', hstate hst]
  cases hr : s.removes te a with
  | false => exact .inl (hkeep hr)
  | true =>
    -- what removes the call but does not deliver it is the commit of a terminal event
    rcases StreamSys.step_cases hs with ⟨op, rfl, rfl⟩ | ⟨i, ev, now, run, job, rfl, htx, hc, -⟩ | ⟨hdb, -⟩
    · rcases callTool_pending op hcall with ⟨st, h, hs'⟩ | ⟨now, ok, b, c, d, t, rfl, -, hrep⟩ | ⟨-, hw, -⟩
      · refine .inl ?_
        rw [hs' hst] at h
        exact h
      · simp [StreamSys.delivers, StreamSys.reply, hrep, delivered] at hd
      · exact absurd hw hst
    · have hev : ev.type.terminal = true := by simpa [StreamSys.removes, htx] using hr
      cases job with
      | none =>
        simp only [commitAppend] at hc
        split_ifs at hc
        rw [← Option.some.inj hc]
        exact .inl hcall
      | some j =>
        exact .inr (commitAppend_of_terminal hev (hi _ (List.mem_of_getElem? htx) now run j rfl) hc)
    · rw [hdb]
      exact .inl hcall

/-- A published call is stored, and stays so along every run of fresh actions that do not remove it. -/
theorem published_kept {s : StreamSys} {now : Time} {ok : Bool} {callId name : String} {arguments : Json}
    (hrep : s.reply te (.publish now ok callId name arguments) = .published)
    {bs : List StreamAct} {u : StreamSys}
    (hrun : Steps (StreamSys.step env te) (fun t b => Fresh t b ∧ t.removes te b = false)
      (s.callTool te (.publish now ok callId name arguments)) bs u) :
    ∃ st, (metaOf u.db.job).clientTool = some ⟨callId, name, te.dumps arguments, now + te.toolWait, st⟩ := by
  refine hrun.inv (I := fun t => ∃ st, (metaOf t.db.job).clientTool =
    some ⟨callId, name, te.dumps arguments, now + te.toolWait, st⟩) ?_ ?_
  · rintro t b v ⟨st, hst⟩ ⟨hf, hr⟩ hs
    obtain ⟨st', hst', -⟩ := pending_step hf hr hs hst
    exact ⟨st', hst'⟩
  · cases hp : publishCall te now ok s.db.run s.db.job callId name arguments with
    | error e => simp [StreamSys.reply, callTool, hp] at hrep
    | ok job' =>
      obtain ⟨-, -, -, rfl⟩ := publishCall_ok hp
      exact ⟨.waiting, by simp [StreamSys.callTool, callTool, hp]⟩

/-- A result for which `submit_result` returned `True` is the ready call of the row. -/
theorem submitted_ready {s : StreamSys} {now : Time} {projectId : ℕ} {callId : String} {r : ToolResult}
    (hrep : s.reply te (.submit now projectId callId r) = .submitted true) :
    ∃ call : ClientCall, call.callId = callId ∧
      call.state = .ready r.success r.content (digest te r) r.terminal ∧
      (metaOf (s.callTool te (.submit now projectId callId r)).db.job).clientTool = some call := by
  cases hp : submitResult te now s.db.run s.db.job projectId callId r with
  | error e => simp [StreamSys.reply, callTool, hp] at hrep
  | ok x =>
    obtain ⟨job', fresh⟩ := x
    obtain rfl : fresh = true := by simpa [StreamSys.reply, callTool, hp] using hrep
    rcases submitResult_ok hp with ⟨hf, -⟩ | ⟨-, -, call, -, hid, -, rfl⟩
    · cases hf
    · exact ⟨{ call with state := .ready r.success r.content (digest te r) r.terminal }, hid, rfl,
        by simp [StreamSys.callTool, callTool, hp]⟩

/-- A `take_result` that returns finds its result in the ready call of a running row. -/
theorem taken_of_ready {u : StreamSys} {call : ClientCall} {r r' : ToolResult} {d : String} {now : Time}
    {ok : Bool} {callId : String} (hst : call.state = .ready r.success r.content d r.terminal)
    (hcall : (metaOf u.db.job).clientTool = some call ∨ u.db.job.status.terminal = true)
    (htake : u.reply te (.take now ok callId) = .taken (some r')) : callId = call.callId ∧ r' = r := by
  cases hp : takeResult now ok u.db.run u.db.job callId with
  | error e => simp [StreamSys.reply, callTool, hp] at htake
  | ok x =>
    obtain ⟨job', res⟩ := x
    obtain rfl : res = some r' := by simpa [StreamSys.reply, callTool, hp] using htake
    have hcall' : (metaOf u.db.job).clientTool = some call := by
      refine hcall.resolve_right ?_
      simp [takeResult_running hp, Status.terminal]
    obtain ⟨call', hc, rfl, hcase⟩ := takeResult_ok hp
    obtain rfl : call = call' := Option.some.inj (hcall'.symm.trans hc)
    rcases hcase with ⟨hw, -⟩ | ⟨b, c, d', t, hst', hr, -⟩
    · rw [hst] at hw
      cases hw
    · rw [hst] at hst'
      obtain ⟨rfl, rfl, -, rfl⟩ := CallState.ready.inj hst'
      exact ⟨rfl, Option.some.inj hr⟩

/-- **No lost handoff under fresh writes.**  In every run of event recordings and handoff calls in which
every write of `result_meta` by a non-terminal event finds `client_tool` as it read it: a published call
stays stored until it is taken, withdrawn or closed over by a terminal event; and what a
`submit_result` that returned `True` brought is what the next `take_result` that returns a result
returns. -/
theorem handoff_kept_of_fresh (env : Env) (te : ToolEnv) (db : RunDb) {as : List StreamAct} {s : StreamSys}
    (h : Steps (StreamSys.step env te) Fresh ⟨db, []⟩ as s) :
    (∀ now ok callId name arguments,
      s.reply te (.publish now ok callId name arguments) = .published →
      ∀ bs u, Steps (StreamSys.step env te) (fun t b => Fresh t b ∧ t.removes te b = false)
          (s.callTool te (.publish now ok callId name arguments)) bs u →
        ∃ st, (metaOf u.db.job).clientTool =
          some ⟨callId, name, te.dumps arguments, now + te.toolWait, st⟩) ∧
    (∀ now projectId callId r,
      s.reply te (.submit now projectId callId r) = .submitted true →
      ∀ bs u, Steps (StreamSys.step env te) (fun t b => Fresh t b ∧ t.delivers te b = false)
          (s.callTool te (.submit now projectId callId r)) bs u →
        ∀ now' ok callId' r', u.reply te (.take now' ok callId') = .taken (some r') →
          callId' = callId ∧ r' = r) := by
  refine ⟨fun now ok callId name arguments hrep bs u hrun => published_kept hrep hrun, ?_⟩
  intro now projectId callId r hrep bs u hrun now' ok callId' r' htake
  have hi : s.ClosedRead :=
    h.inv (I := StreamSys.ClosedRead) (fun _ _ _ ht _ hs => ht.step hs) (by simp [StreamSys.ClosedRead])
  have hsub : s.step env te (.tool (.submit now projectId callId r)) =
    some (s.callTool te (.submit now projectId callId r)) := rfl
  obtain ⟨call, rfl, hst, hcall⟩ := submitted_ready hrep
  have hne : call.state ≠ .waiting := by simp [hst]
  -- the ready call stays, or the run is closed and nothing can be taken
  have hkeep := hrun.inv (I := fun t => t.ClosedRead ∧
      ((metaOf t.db.job).clientTool = some call ∨ t.db.job.status.terminal = true))
    (fun t b v ht hb hs => ⟨ht.1.step hs, ready_step hne ht.1 hb.1 hb.2 hs ht.2⟩)
    ⟨hi.step hsub, .inl hcall⟩
  exact taken_of_ready hst hkeep.2 htake

/-- The rows of a running subscription job. -/
def RunDb.sample : RunDb where
  run := .sample
  job := { AgentJobRow.sample with
    request := { clientJob := some { provider := "claude", model := "claude-sonnet-4" } } }
  events := []

/-- The consumer starts to store a model observation: it has read both rows. -/
def observing : List StreamAct :=
  [.append (.modelObserved "claude-sonnet-4" .response "assistant") 0, .advance 0, .advance 0]

def samplePublish : ToolOp := .publish 0 true "c-1" "f" (.obj [])

def sampleSubmit : ToolOp := .submit 1 1 "c-1" ⟨true, "42", false⟩

/-- Published, answered, the observation stored, taken: every write is fresh, since the observation is
read after the answer. -/
theorem handoff_kept_of_late_read :
    ∃ s u, Steps (StreamSys.step .plain .sample) Fresh ⟨.sample, []⟩ [.tool samplePublish] s ∧
      s.reply .sample sampleSubmit = .submitted true ∧
      Steps (StreamSys.step .plain .sample) (fun t b => Fresh t b ∧ t.delivers .sample b = false)
        (s.callTool .sample sampleSubmit) (observing ++ [.advance 0]) u ∧
      u.db.run.lastSeq = 1 ∧
      ∀ now ok callId r, u.reply .sample (.take now ok callId) = .taken (some r) →
        callId = "c-1" ∧ r = ⟨true, "42", false⟩ := by
  have hrun : (execAll (guarded (StreamSys.step .plain .sample) Fresh) ⟨.sample, []⟩
        [.tool samplePublish]).bind (fun s =>
      (execAll (guarded (StreamSys.step .plain .sample) fun t b => Fresh t b ∧ t.delivers .sample b = false)
        (s.callTool .sample sampleSubmit) (observing ++ [.advance 0])).map
          fun u => (s.reply .sample sampleSubmit, u.db.run.lastSeq)) = some (.submitted true, 1) := by decide
  obtain ⟨s, u, hs, hu, hobs⟩ := steps_of_observed_then hrun
  obtain ⟨hrep, hseq⟩ := Prod.mk.inj hobs
  exact ⟨s, u, hs.of_guarded, hrep, hu.of_guarded, hseq,
    (handoff_kept_of_fresh _ _ _ hs.of_guarded).2 _ _ _ _ hrep _ u hu.of_guarded⟩

/-- The observation is read before the call is published and stored after it: the write puts back the
document without the call. -/
theorem published_call_lost :
    ∃ s u, Steps (StreamSys.step .plain .sample) Free ⟨.sample, []⟩ observing s ∧
      s.reply .sample samplePublish = .published ∧
      Steps (StreamSys.step .plain .sample) (fun t b => t.removes .sample b = false)
        (s.callTool .sample samplePublish) [.advance 0] u ∧
      (metaOf u.db.job).clientTool = none := by
  have hrun : (execAll (StreamSys.step .plain .sample) ⟨.sample, []⟩ observing).bind (fun s =>
      (execAll (guarded (StreamSys.step .plain .sample) fun t b => t.removes .sample b = false)
        (s.callTool .sample samplePublish) [.advance 0]).map
          fun u => (s.reply .sample samplePublish, (metaOf u.db.job).clientTool)) =
      some (.published, none) := by decide
  obtain ⟨s, u, hs, hu, hobs⟩ := steps_of_observed_then hrun
  obtain ⟨hrep, hnone⟩ := Prod.mk.inj hobs
  exact ⟨s, u, hs, hrep, hu.of_guarded, hnone⟩

end Broker.Agent
