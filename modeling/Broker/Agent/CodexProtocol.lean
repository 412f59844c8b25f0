import Broker.Agent.CodexTurn

/-!
# Broker.Agent.CodexProtocol — what every turn of the App Server keeps

Whatever the server sends and however the client's tools behave, the history of a turn is one
`CodexAllowed` admits; and while no turn is assigned, a message that names none is taken for one of the
current turn.
-/

namespace Broker.Agent

open Broker.Lib Broker.Db

namespace CodexTurn

/-! ### The discipline of the App Server's turn -/

/-- A reply carries the client's result, or says why the arguments of an unpublished call were refused. -/
def AnswersCall (h : List (TurnEvent codexWire)) (q : ToolRequest) (r : CallReply) : Prop :=
  (∃ res : ToolResult, .took q.callId res ∈ h ∧ r = ⟨res.content, res.success⟩) ∨
    (q.callId ∉ callIds h ∧ ∃ label detail, r = ⟨rejectionText label detail q.name, false⟩)

/-- Beside `Allowed`: request ids are new, and replies carry what the client or the schema said. -/
def CodexAllowed (run : CodexRun) (h : List (TurnEvent codexWire)) (e : TurnEvent codexWire) : Prop :=
  Allowed run.toTurnSpec h e ∧
    match e with
    | .accepted q => ∀ q' ∈ requests h, q'.id.hashKey ≠ q.id.hashKey
    | .replied q r => AnswersCall h q r
    | _ => True

/-- What holds at the await a turn stands at. -/
def PhaseOk (s : CodexTurn) : Prop :=
  match s.phase with
  | .reading => answered s.log = requests s.log ∧ (0 < terminals s.log ↔ s.stopDeadline.isSome = true)
  | .publishing q =>
    s.stopDeadline = none ∧ terminals s.log = 0 ∧ requests s.log = answered s.log ++ [q] ∧
      q.callId ∉ callIds s.log ∧ q.callId ∈ s.seenCalls
  | .rejecting q text =>
    s.stopDeadline = none ∧ terminals s.log = 0 ∧ requests s.log = answered s.log ++ [q] ∧
      q.callId ∉ callIds s.log ∧ ∃ label detail, text = rejectionText label detail q.name
  | .waiting q =>
    s.stopDeadline = none ∧ terminals s.log = 0 ∧ requests s.log = answered s.log ++ [q] ∧
      q.callId ∈ callIds s.log
  | .replying q r =>
    s.stopDeadline = none ∧ terminals s.log = (if r.terminal then 1 else 0) ∧
      requests s.log = answered s.log ++ [q] ∧ .took q.callId r ∈ s.log
  | .interrupting => s.stopDeadline = none ∧ 0 < terminals s.log ∧ answered s.log = requests s.log
  | .reminding _ => s.stopDeadline = none ∧ terminals s.log = 0 ∧ answered s.log = requests s.log
  | .ended => True

/-- What the variables of a turn that has not ended say of its history. -/
structure Core (run : CodexRun) (pending : ℕ) (s : CodexTurn) : Prop where
  tally : Tally run.toTurnSpec pending s.calls s.remindersLeft s.interruptConfirmed s.stopDeadline.isSome s.log
  seenCalls : ∀ c ∈ callIds s.log, c ∈ s.seenCalls
  seenRequests : ∀ q ∈ requests s.log, ∃ key ∈ s.seenRequests, q.id.hashKey = some key

def pendingStart : CodexPhase → ℕ
  | .reminding _ => 1
  | _ => 0

structure Inv (run : CodexRun) (s : CodexTurn) : Prop where
  allowed : AtEach (CodexAllowed run) s.log
  core : s.phase ≠ .ended → Core run (pendingStart s.phase) s
  phaseOk : s.PhaseOk

variable {run : CodexRun} {s s' : CodexTurn} {pending : ℕ}

@[simp] theorem log_emit (s : CodexTurn) (e : TurnEvent codexWire) : (s.emit e).log = s.log ++ [e] := rfl

/-- An event that is neither a request nor a published call. -/
theorem Core.emit {pending' : ℕ} (h : Core run pending s) {e : TurnEvent codexWire} (hcall : e.callId? = none)
    (hreq : e.request? = none)
    (ht : Tally run.toTurnSpec pending' s.calls s.remindersLeft s.interruptConfirmed s.stopDeadline.isSome
      (s.log ++ [e])) : Core run pending' (s.emit e) := by
  refine ⟨ht, fun c hc => h.seenCalls c ?_, fun q hq => h.seenRequests q ?_⟩
  · rw [log_emit, callIds_snoc, hcall] at hc
    simpa using hc
  · rw [log_emit, requests_snoc, hreq] at hq
    simpa using hq

theorem Core.quiet (h : Core run pending s) {e : TurnEvent codexWire} (he : e.Quiet) :
    Core run pending (s.emit e) := by
  cases e with
  | read m | completed m | yielded e => exact h.emit rfl rfl (h.tally.quiet he)
  | _ => exact he.elim

/-- At an await of a turn that has not ended. -/
theorem Inv.coreAt (hi : Inv run s) {p : CodexPhase} (hphase : s.phase = p) (hp : p ≠ .ended) :
    s.phase ≠ .ended ∧ Core run (pendingStart p) s := by
  have hopen : s.phase ≠ .ended := by rwa [hphase]
  exact ⟨hopen, hphase ▸ hi.core hopen⟩

theorem inv_start (run : CodexRun) : Inv run (start run) := by
  have hlog : (start run).log = [] ++ [.started ⟨3, run.prompt⟩] := rfl
  refine ⟨?_, fun _ => ⟨Tally.first _ _, by simp [hlog, callIds], by simp [hlog, requests]⟩, ?_⟩
  · rw [hlog]
    exact AtEach.nil.snoc ⟨⟨rfl, Nat.zero_le _⟩, trivial⟩
  · exact ⟨rfl, by simp [terminals, start]⟩

/-- An exception ends a turn without `RunCompleted`. -/
theorem inv_raise (hlog : AtEach (CodexAllowed run) s.log) (hc : closed s.log = false) (x : TurnError) :
    Inv run (s.raise x) := by
  unfold raise
  split
  · rename_i e he
    refine ⟨hlog.snoc ⟨⟨hc, ?_⟩, trivial⟩, fun h => absurd rfl h, trivial⟩
    rintro text rfl
    cases x <;> simp [TurnError.handled, protocolFailure] at he
  · exact ⟨hlog, fun h => absurd rfl h, trivial⟩

theorem Inv.raise (hi : Inv run s) (hphase : s.phase ≠ .ended) (x : TurnError) : Inv run (s.raise x) :=
  inv_raise hi.allowed (hi.core hphase).tally.notClosed x

/-- A further event of an open turn, which may raise afterwards. -/
theorem inv_emit_raise (hlog : AtEach (CodexAllowed run) s.log) {e : TurnEvent codexWire}
    (he : CodexAllowed run s.log e) (hopen : e.isLast = false) (x : TurnError) :
      Inv run ((s.emit e).raise x) := by
  have hc := he.1.not_closed
  exact inv_raise (hlog.snoc he) (by rw [log_emit, closed_snoc, hc, hopen]; rfl) x

/-! ### Frames -/

theorem Inv.read (hi : Inv run s) (hphase : s.phase = .reading) (m : Doc) : Inv run (s.emit (.read m)) := by
  have hcore := hi.core (by rw [hphase]; simp)
  have hok := hi.phaseOk
  refine ⟨hi.allowed.snoc ⟨hcore.tally.notClosed, trivial⟩, fun _ => hcore.quiet trivial, ?_⟩
  have hp : (s.emit (.read m)).phase = .reading := hphase
  rw [PhaseOk, hphase] at hok
  rw [PhaseOk, hp]
  simpa [emit] using hok

theorem emitUsage_cases (s : CodexTurn) :
    s.emitUsage = s ∨ ∃ u, s.emitUsage = s.emit (.yielded (.usage u)) := by
  unfold emitUsage
  split
  · exact .inl rfl
  · split_ifs
    · exact .inr ⟨_, rfl⟩
    · exact .inl rfl

/-- A turn that ends with `RunCompleted`. -/
theorem inv_finish (hlog : AtEach (CodexAllowed run) s.log) (hcore : Core run pending s)
    (hans : answered s.log = requests s.log) (hterm : 0 < terminals s.log → s.interruptConfirmed = true)
    (hreq : run.toolRequired = true → 0 < s.calls) (text : String) : Inv run (s.finish text) := by
  have husage : AtEach (CodexAllowed run) s.emitUsage.log ∧ SameCounts s.emitUsage.log s.log := by
    rcases emitUsage_cases s with h | ⟨u, h⟩
    · rw [h]
      exact ⟨hlog, rfl, rfl, rfl, rfl, rfl, rfl, rfl, rfl⟩
    · have hquiet : (TurnEvent.yielded (.usage u) : TurnEvent codexWire).Quiet := rfl
      rw [h]
      refine ⟨hlog.snoc ⟨⟨hcore.tally.notClosed, ?_⟩, trivial⟩, hquiet.same s.log⟩
      intro text h
      cases h
  obtain ⟨hall, hsame⟩ := husage
  refine ⟨hall.snoc
    ⟨⟨hsame.closed.trans hcore.tally.notClosed, fun _ _ => ⟨?_, fun hpos => ?_, fun h hnil => ?_⟩⟩, trivial⟩,
    fun h => absurd rfl h, trivial⟩
  · rw [hsame.answered, hsame.requests]
    exact hans
  · rw [hsame.terminals] at hpos
    rw [hsame.confirmations, hcore.tally.confirmed, hterm hpos]
    rfl
  · have hpos := hreq h
    rw [hcore.tally.callCount, ← hsame.callIds, hnil] at hpos
    cases hpos

/-- The next turn is one of the reminders left. -/
theorem inv_remind (hlog : AtEach (CodexAllowed run) s.log) (hcore : Core run 0 s)
    (hstop : s.stopDeadline = none)
    (hterm : terminals s.log = 0) (hans : answered s.log = requests s.log) (hleft : s.remindersLeft ≠ 0) :
    Inv run (remind run s) := by
  unfold remind
  simp only
  split
  · exact @inv_raise run { s with
      remindersLeft := s.remindersLeft - 1
      oldTurnRequests := s.turnRequest :: s.oldTurnRequests
      turnRequest := s.turnRequest + 1
      turnId := none } hlog hcore.tally.notClosed _
  · exact ⟨hlog, fun _ => { hcore with tally := hcore.tally.remind hleft }, hstop, hterm, hans⟩

/-- A completed turn ends the run, or is followed by another. -/
theorem inv_afterCompletion (hlog : AtEach (CodexAllowed run) s.log) (hcore : Core run 0 s)
    (hans : answered s.log = requests s.log) (hterm : 0 < terminals s.log ↔ s.stopDeadline.isSome = true) :
    Inv run (afterCompletion run s) := by
  unfold afterCompletion
  split_ifs with hstop hconf hnone hleft
  · exact inv_finish hlog hcore hans (fun _ => hconf) (fun _ => hcore.tally.terminals (hterm.mpr hstop)) _
  · exact inv_raise hlog hcore.tally.notClosed _
  · exact inv_raise hlog hcore.tally.notClosed _
  · have hzero : terminals s.log = 0 := by
      by_contra hne
      exact hstop (hterm.mp (Nat.pos_of_ne_zero hne))
    exact inv_remind hlog hcore (by simpa using hstop) hzero hans hleft
  · refine inv_finish hlog hcore hans (fun hpos => absurd (hterm.mp hpos) hstop) (fun hreq => ?_) _
    by_contra hzero
    exact hnone ⟨by omega, hreq⟩

theorem Inv.move (hi : Inv run s) (hphase : s.phase = .reading) {m : Doc} (h : Move run s m s') :
    Inv run s' := by
  obtain ⟨hopen, hcore⟩ := hi.coreAt hphase (by simp)
  have hok := hi.phaseOk
  rw [PhaseOk, hphase] at hok
  cases h with
  | raised x => exact hi.raise hopen x
  | noted text usage => exact ⟨hi.allowed, fun h => { hi.core hopen with }, hi.phaseOk⟩
  | assigned t hreply hnone ht => exact ⟨hi.allowed, fun h => { hi.core hopen with }, hi.phaseOk⟩
  | confirmed hstop hnew =>
    have hone : interrupts s.log = 1 := by rw [hcore.tally.interrupts, hstop]; rfl
    have hnone : confirmations s.log = 0 := by rw [hcore.tally.confirmed, hnew]; rfl
    have htally := hcore.tally
    rw [hnew] at htally
    refine ⟨hi.allowed.snoc ⟨⟨hcore.tally.notClosed, by omega, hnone⟩, trivial⟩, fun _ => ⟨?_, ?_, ?_⟩, ?_⟩
    · show Tally _ (pendingStart s.phase) s.calls s.remindersLeft true s.stopDeadline.isSome (s.log ++ [.confirmed])
      rw [hphase]
      exact htally.confirm
    · simpa [CodexTurn.emit] using hcore.seenCalls
    · simpa [CodexTurn.emit] using hcore.seenRequests
    · simpa [PhaseOk, CodexTurn.emit, hphase] using hok
  | accepted q key hstop hthread hturn hkey hnew hcall hmethod hparams =>
    have hnone : terminals s.log = 0 := by simpa [hstop] using hok.2
    refine ⟨hi.allowed.snoc ⟨⟨hcore.tally.notClosed, hok.1⟩, ?_⟩, fun _ => ⟨?_, ?_, ?_⟩, ?_⟩
    · intro q' hq' heq
      obtain ⟨key', hmem, hkey'⟩ := hcore.seenRequests q' hq'
      rw [heq, hkey] at hkey'
      exact hnew (Option.some.inj hkey' ▸ hmem)
    · exact hcore.tally.pass trivial (fun h => by cases h)
    · intro c hc
      exact List.mem_cons_of_mem _ (hcore.seenCalls c (by simpa using hc))
    · intro q' hq'
      rcases (by simpa using hq' : q' ∈ requests s.log ∨ q' = q) with hq' | rfl
      · obtain ⟨key', hmem, hkey'⟩ := hcore.seenRequests q' hq'
        exact ⟨key', List.mem_cons_of_mem _ hmem, hkey'⟩
      · exact ⟨key, List.mem_cons_self, hkey⟩
    · refine ⟨hstop, by simpa using hnone, by simp [hok.1], fun hc => hcall (hcore.seenCalls _ ?_),
        List.mem_cons_self⟩
      simpa using hc
  | rerouted a b x =>
    have hev : CodexAllowed run s.log (.yielded (.modelRerouted a b)) := by
      refine ⟨⟨hcore.tally.notClosed, ?_⟩, trivial⟩
      intro text h
      cases h
    exact inv_emit_raise hi.allowed hev rfl x
  | completed hmethod hturn =>
    have hquiet : (TurnEvent.completed m : TurnEvent codexWire).Quiet := trivial
    refine inv_afterCompletion (hi.allowed.snoc ⟨hcore.tally.notClosed, trivial⟩) (hcore.quiet hquiet) ?_ ?_
    · simpa using hok.1
    · simpa [emit] using hok.2

theorem Inv.frame (hi : Inv run s) (hphase : s.phase = .reading) {now : Time} {f : Frame}
    (h : onFrame run s now f = some s') : Inv run s' := by
  have hopen : s.phase ≠ .ended := by rw [hphase]; simp
  unfold onFrame at h
  by_cases hlate : s.stopDeadline.any (· ≤ now) = true
  · rw [if_pos hlate] at h
    obtain rfl := Option.some.inj h
    exact hi.raise hopen _
  · rw [if_neg hlate] at h
    cases f with
    | message m =>
      obtain rfl := Option.some.inj h
      exact (hi.read hphase m).move hphase (onMessage_move _ m)
    | closed | refused msg =>
      obtain rfl := Option.some.inj h
      exact hi.raise hopen _
    | late =>
      simp only at h
      split_ifs at h
      obtain rfl := Option.some.inj h
      exact hi.raise hopen _

/-! ### The client's side -/

theorem Inv.published (hi : Inv run s) {q : ToolRequest} (hphase : s.phase = .publishing q) :
    Inv run (s.onPublished q) := by
  obtain ⟨-, hcore⟩ := hi.coreAt hphase (by simp)
  have hok := hi.phaseOk
  rw [PhaseOk, hphase] at hok
  obtain ⟨hstop, hterm, hreq, hnew, hseen⟩ := hok
  have hev : CodexAllowed run s.log (.published q q.callId q.name (q.arguments.getD .null)) :=
    ⟨⟨hcore.tally.notClosed, hterm, hnew⟩, trivial⟩
  have hcalls : Core run 0
      { s.emit (.published q q.callId q.name (q.arguments.getD .null)) with calls := s.calls + 1 } := by
    refine ⟨hcore.tally.publish q q.callId q.name (q.arguments.getD .null), ?_, ?_⟩
    · intro c hc
      rcases (by simpa using hc : c ∈ callIds s.log ∨ c = q.callId) with hc | rfl
      · exact hcore.seenCalls c hc
      · exact hseen
    · simpa [CodexTurn.emit] using hcore.seenRequests
  unfold onPublished
  simp only
  split
  · exact @inv_raise run { s.emit _ with calls := s.calls + 1 } (hi.allowed.snoc hev) hcalls.tally.notClosed _
  · rename_i v hv
    have hquiet : (TurnEvent.yielded (.toolCall q.callId q.name (v.asDict.getD []))
      : TurnEvent codexWire).Quiet := rfl
    have hsame := hquiet.same (s.log ++ [.published q q.callId q.name (q.arguments.getD .null)])
    refine ⟨(hi.allowed.snoc hev).snoc ⟨⟨hcalls.tally.notClosed, ?_⟩, trivial⟩, fun _ => { hcalls.quiet hquiet with },
      hstop, hsame.terminals.trans ?_, hsame.opened ?_, ?_⟩
    · intro text h
      cases h
    · simpa using hterm
    · simpa using hreq
    · have hmem : q.callId ∈ callIds (s.log ++ [.published q q.callId q.name (q.arguments.getD .null)]) := by simp
      exact hsame.callIds.symm ▸ hmem

theorem Inv.refused (hi : Inv run s) {q : ToolRequest} (hphase : s.phase = .publishing q) (x : TurnError) :
    Inv run (onRefused run s q x) := by
  obtain ⟨hopen, hcore⟩ := hi.coreAt hphase (by simp)
  have hok := hi.phaseOk
  rw [PhaseOk, hphase] at hok
  unfold onRefused
  split
  · rename_i label detail
    split_ifs
    · exact hi.raise hopen _
    · obtain ⟨hstop, hterm, hreq, hnew, -⟩ := hok
      exact ⟨hi.allowed, fun _ => { hcore with }, hstop, hterm, hreq, hnew, label, detail, rfl⟩
  · exact hi.raise hopen _

theorem Inv.poll (hi : Inv run s) {q : ToolRequest} (hphase : s.phase = .waiting q) (r : Poll) :
    Inv run (s.onPoll q r) := by
  obtain ⟨hopen, hcore⟩ := hi.coreAt hphase (by simp)
  have hok := hi.phaseOk
  rw [PhaseOk, hphase] at hok
  obtain ⟨hstop, hterm, hreq, hmem⟩ := hok
  cases r with
  | result r =>
    have hpos : 0 < s.calls := by
      rw [hcore.tally.callCount]
      exact List.length_pos_of_mem hmem
    have htally := hcore.tally.pass (e := .took q.callId r) trivial fun _ => hpos
    have hcore' := hcore.emit rfl rfl htally
    refine ⟨hi.allowed.snoc ⟨⟨hcore.tally.notClosed, hterm, hmem⟩, trivial⟩, fun _ => { hcore' with },
      hstop, ?_, ?_, ?_⟩
    · show terminals (s.log ++ [_]) = _
      rw [terminals_snoc, hterm, Nat.zero_add]
      rfl
    · show requests (s.log ++ [_]) = answered (s.log ++ [_]) ++ [q]
      rw [requests_snoc, answered_snoc, hreq]
      simp
    · exact List.mem_append_right _ List.mem_cons_self
  | pending => exact hi
  | stopped => exact hi.raise hopen (.conflict _)
  | raised x => exact hi.raise hopen x

/-- Back at the top of the loop. -/
theorem inv_loop (hlog : AtEach (CodexAllowed run) s.log) (hcore : Core run 0 s)
    (hans : answered s.log = requests s.log) (hterm : 0 < terminals s.log ↔ s.stopDeadline.isSome = true) :
    Inv run s.loop :=
  ⟨hlog, fun _ => { hcore with }, hans, hterm⟩

/-- A send leaves its event or nothing; only where it returns the turn goes on. -/
theorem inv_sending (hi : Inv run s) (hopen : s.phase ≠ .ended) {e : TurnEvent codexWire}
    (he : CodexAllowed run s.log e) (hlast : e.isLast = false) {k : CodexTurn → CodexTurn}
    (hk : AtEach (CodexAllowed run) (s.emit e).log → Inv run (k (s.emit e))) (r : Sent) :
    Inv run (s.sending e k r) := by
  cases r with
  | ok => exact hk (hi.allowed.snoc he)
  | lost x => exact hi.raise hopen x
  | broken x => exact inv_emit_raise hi.allowed he hlast x

theorem allowed_toolResult (hc : closed s.log = false) (callId : String) (ok : Bool) (output : String) :
    CodexAllowed run s.log (.yielded (.toolResult callId ok output)) := by
  refine ⟨⟨hc, ?_⟩, trivial⟩
  intro text h
  cases h

/-- After a reply its result is reported. -/
theorem reported (hlog : AtEach (CodexAllowed run) s.log) (hcore : Core run 0 s) (callId : String) (ok : Bool)
    (output : String) (hans : answered s.log = requests s.log) :
    AtEach (CodexAllowed run) (s.emit (.yielded (.toolResult callId ok output))).log ∧
      Core run 0 (s.emit (.yielded (.toolResult callId ok output))) ∧
      answered (s.emit (.yielded (.toolResult callId ok output))).log =
        requests (s.emit (.yielded (.toolResult callId ok output))).log ∧
      terminals (s.emit (.yielded (.toolResult callId ok output))).log = terminals s.log := by
  have hquiet : (TurnEvent.yielded (.toolResult callId ok output) : TurnEvent codexWire).Quiet := rfl
  have hsame := hquiet.same s.log
  refine ⟨hlog.snoc (allowed_toolResult hcore.tally.notClosed _ _ _), hcore.quiet hquiet, ?_, hsame.terminals⟩
  rw [log_emit, hsame.answered, hsame.requests]
  exact hans

theorem Inv.rejectionSent (hi : Inv run s) {q : ToolRequest} {text : String}
    (hphase : s.phase = .rejecting q text)
    (r : Sent) : Inv run (s.sending (.replied q ⟨text, false⟩)
      (fun s => (s.emit (.yielded (.toolResult q.callId false "[arguments rejected]"))).loop) r) := by
  obtain ⟨hopen, hcore⟩ := hi.coreAt hphase (by simp)
  have hok := hi.phaseOk
  rw [PhaseOk, hphase] at hok
  obtain ⟨hstop, hterm, hreq, hnew, label, detail, rfl⟩ := hok
  have hev : CodexAllowed run s.log (.replied q ⟨rejectionText label detail q.name, false⟩) :=
    ⟨⟨hcore.tally.notClosed, hreq⟩, .inr ⟨hnew, label, detail, rfl⟩⟩
  refine inv_sending hi hopen hev rfl (fun hlog => ?_) r
  have hcore' := hcore.emit (e := .replied q ⟨rejectionText label detail q.name, false⟩) rfl rfl
    (hcore.tally.pass trivial (fun h => by cases h))
  obtain ⟨hlog', hcore'', hans, hterm'⟩ :=
    reported hlog hcore' q.callId false "[arguments rejected]" (by simp [hreq])
  refine inv_loop hlog' hcore'' hans ?_
  rw [hterm']
  simp [CodexTurn.emit, hterm, hstop]

theorem Inv.resultSent (hi : Inv run s) {q : ToolRequest} {res : ToolResult}
    (hphase : s.phase = .replying q res)
    (r : Sent) : Inv run (s.sending (.replied q ⟨res.content, res.success⟩)
      (fun s =>
        let s := s.emit (.yielded (.toolResult q.callId res.success "[client tool result withheld]"))
        if res.terminal then { s with phase := .interrupting } else s.loop) r) := by
  obtain ⟨hopen, hcore⟩ := hi.coreAt hphase (by simp)
  have hok := hi.phaseOk
  rw [PhaseOk, hphase] at hok
  obtain ⟨hstop, hterm, hreq, htook⟩ := hok
  have hev : CodexAllowed run s.log (.replied q ⟨res.content, res.success⟩) :=
    ⟨⟨hcore.tally.notClosed, hreq⟩, .inl ⟨res, htook, rfl⟩⟩
  refine inv_sending hi hopen hev rfl (fun hlog => ?_) r
  have hcore' := hcore.emit (e := .replied q ⟨res.content, res.success⟩) rfl rfl
    (hcore.tally.pass trivial (fun h => by cases h))
  obtain ⟨hlog', hcore'', hans, hterm'⟩ :=
    reported hlog hcore' q.callId res.success "[client tool result withheld]" (by simp [hreq])
  have hcount : terminals ((s.emit (.replied q ⟨res.content, res.success⟩)).emit
      (.yielded (.toolResult q.callId res.success "[client tool result withheld]"))).log =
      if res.terminal then 1 else 0 := by
    rw [hterm', log_emit, terminals_snoc, hterm]
    simp
  simp only
  split_ifs with ht
  · rw [if_pos ht] at hcount
    exact ⟨hlog', fun _ => { hcore'' with }, hstop, hcount.symm ▸ Nat.one_pos, hans⟩
  · refine inv_loop hlog' hcore'' hans ?_
    rw [hcount, if_neg ht]
    simp [CodexTurn.emit, hstop]

theorem Inv.interruptSent (hi : Inv run s) (hphase : s.phase = .interrupting) (now : Time) (r : Sent) :
    Inv run (s.sending .interrupted (fun s => { s.loop with stopDeadline := some (now + terminalStop) }) r) := by
  obtain ⟨hopen, hcore⟩ := hi.coreAt hphase (by simp)
  have hok := hi.phaseOk
  rw [PhaseOk, hphase] at hok
  obtain ⟨hstop, hterm, hans⟩ := hok
  have hnone : interrupts s.log = 0 := by rw [hcore.tally.interrupts, hstop]; rfl
  have hev : CodexAllowed run s.log .interrupted := ⟨⟨hcore.tally.notClosed, hterm, hnone⟩, trivial⟩
  refine inv_sending hi hopen hev rfl (fun hlog => ⟨hlog, fun _ => ?_, ?_⟩) r
  · have htally := hcore.tally
    rw [hstop] at htally
    refine ⟨htally.interrupt, ?_, ?_⟩
    · simpa [loop, CodexTurn.emit] using hcore.seenCalls
    · simpa [loop, CodexTurn.emit] using hcore.seenRequests
  · refine ⟨by simpa [loop] using hans, ?_⟩
    simpa [loop] using hterm

theorem Inv.reminderSent (hi : Inv run s) {text : String} (hphase : s.phase = .reminding text) (r : Sent) :
    Inv run (s.sending (.started ⟨s.turnRequest, text⟩) loop r) := by
  obtain ⟨hopen, hcore⟩ := hi.coreAt hphase (by simp)
  have hok := hi.phaseOk
  rw [PhaseOk, hphase] at hok
  obtain ⟨hstop, hterm, hans⟩ := hok
  have hturns : turnsStarted s.log + s.remindersLeft + 1 = 1 + run.requiredReminders := hcore.tally.turns
  have hev : CodexAllowed run s.log (.started ⟨s.turnRequest, text⟩) :=
    ⟨⟨hcore.tally.notClosed, by omega⟩, trivial⟩
  refine inv_sending hi hopen hev rfl (fun hlog => inv_loop hlog ?_ ?_ ?_) r
  · exact hcore.emit (e := .started ⟨s.turnRequest, text⟩) rfl rfl (hcore.tally.start _)
  · simpa using hans
  · simp [CodexTurn.emit, hterm, hstop]

theorem Inv.send (hi : Inv run s) {now : Time} {r : Sent} (h : s.onSend now r = some s') : Inv run s' := by
  unfold onSend at h
  cases hphase : s.phase with
  | rejecting q text =>
    rw [hphase] at h
    obtain rfl := Option.some.inj h
    exact hi.rejectionSent hphase r
  | replying q res =>
    rw [hphase] at h
    obtain rfl := Option.some.inj h
    exact hi.resultSent hphase r
  | interrupting =>
    rw [hphase] at h
    obtain rfl := Option.some.inj h
    exact hi.interruptSent hphase now r
  | reminding text =>
    rw [hphase] at h
    obtain rfl := Option.some.inj h
    exact hi.reminderSent hphase r
  | _ =>
    rw [hphase] at h
    cases h

/-- **Every await keeps the discipline.** -/
theorem Inv.step (hi : Inv run s) {a : Act} (h : step run s a = some s') : Inv run s' := by
  cases a with
  | frame now f =>
    cases hphase : s.phase with
    | reading =>
      simp only [CodexTurn.step, hphase] at h
      exact hi.frame hphase h
    | _ => simp [CodexTurn.step, hphase] at h
  | publish r =>
    cases hphase : s.phase with
    | publishing q =>
      cases r with
      | ok u =>
        simp only [CodexTurn.step, hphase] at h
        obtain rfl := Option.some.inj h
        exact hi.published hphase
      | error x =>
        simp only [CodexTurn.step, hphase] at h
        obtain rfl := Option.some.inj h
        exact hi.refused hphase x
    | _ => simp [CodexTurn.step, hphase] at h
  | poll r =>
    cases hphase : s.phase with
    | waiting q =>
      simp only [CodexTurn.step, hphase] at h
      obtain rfl := Option.some.inj h
      exact hi.poll hphase r
    | _ => simp [CodexTurn.step, hphase] at h
  | send now r => exact hi.send h

theorem inv_run (run : CodexRun) {as : List Act} (h : Steps (CodexTurn.step run) Free (start run) as s) :
    Inv run s :=
  h.inv (I := Inv run) (fun _ _ _ hi _ hs => hi.step hs) (inv_start run)

/-! ### The protocol -/

/-- No two requests taken up have one id. -/
theorem nodup_requests {h : List (TurnEvent codexWire)} (hh : AtEach (CodexAllowed run) h) :
    ((requests h).map fun q => q.id.hashKey).Nodup := by
  induction h using List.reverseRecOn with
  | nil => exact List.nodup_nil
  | append_singleton us e ih =>
    have hus := ih hh.init
    cases e with
    | accepted q =>
      have hnew := hh.last.2
      rw [requests_snoc, TurnEvent.request?, Option.toList_some, List.map_append, List.nodup_append]
      refine ⟨hus, by simp, ?_⟩
      rintro key hkey key' hkey' rfl
      obtain ⟨q', hq', rfl⟩ := List.mem_map.mp hkey
      exact hnew q' hq' (by simpa using hkey')
    | _ => simpa using hus

/-- At most the request being handled lacks its answer. -/
theorem Inv.answers (hi : Inv run s) :
    answered s.log = requests s.log ∨
      ∃ q, requests s.log = answered s.log ++ [q] ∧ (s.phase.request? = some q ∨ s.phase = .ended) := by
  have hok := hi.phaseOk
  unfold PhaseOk at hok
  cases hphase : s.phase with
  | ended =>
    rcases Allowed.answered_prefix (hi.allowed.mono fun _ _ h => h.1) with h | ⟨q, hq⟩
    · exact .inl h
    · exact .inr ⟨q, hq, .inr rfl⟩
  | reading =>
    rw [hphase] at hok
    exact .inl hok.1
  | interrupting | reminding text =>
    rw [hphase] at hok
    exact .inl hok.2.2
  | publishing q | rejecting q text | waiting q | replying q r =>
    rw [hphase] at hok
    exact .inr ⟨q, hok.2.2.1, .inl rfl⟩

/-- **The protocol of the App Server's turn.**  Whatever the server sends and however `publish_call` and
`take_result` behave: one interrupt at most, after a terminal result; no call after a terminal result and
no call id twice; replies only to requests taken up, one each, in their order, all given when the next
message is read or `RunCompleted` is yielded; a bounded number of turns; a confirmed interrupt and a
published call before `RunCompleted` where they are due; and nothing after the first terminal event. -/
theorem codex_turn_protocol (run : CodexRun) {as : List Act} {s : CodexTurn}
    (h : Steps (CodexTurn.step run) Free (start run) as s) :
    (interrupts s.log ≤ 1 ∧ ∀ us vs, s.log = us ++ .interrupted :: vs → 0 < terminals us) ∧
    (∀ us q c name arguments vs, s.log = us ++ .published q c name arguments :: vs →
      terminals us = 0 ∧ c ∉ callIds us) ∧
    ((requests s.log).map fun q => q.id.hashKey).Nodup ∧
    (∀ us q r vs, s.log = us ++ .replied q r :: vs → requests us = answered us ++ [q] ∧ AnswersCall us q r) ∧
    (answered s.log = requests s.log ∨
      ∃ q, requests s.log = answered s.log ++ [q] ∧ (s.phase.request? = some q ∨ s.phase = .ended)) ∧
    turnsStarted s.log ≤ 1 + run.requiredReminders ∧
    (∀ us text vs, s.log = us ++ .yielded (.runCompleted text) :: vs →
      answered us = requests us ∧ (0 < terminals us → confirmations us = 1) ∧
      (run.toolRequired = true → callIds us ≠ [])) ∧
    ∀ us e vs, s.log = us ++ .yielded e :: vs → e.type.terminal = true → vs = [] := by
  have hi := inv_run run h
  have hallowed : AtEach (Allowed run.toTurnSpec) s.log := hi.allowed.mono fun _ _ h => h.1
  refine ⟨⟨Allowed.interrupts_le hallowed, ?_⟩, ?_, nodup_requests hi.allowed, ?_, hi.answers,
    Allowed.turnsStarted_le hallowed, ?_, ?_⟩
  · intro us vs heq
    exact (hallowed us _ vs heq).2.1
  · intro us q c name arguments vs heq
    exact (hallowed us _ vs heq).2
  · intro us q r vs heq
    have hreply := hi.allowed us _ vs heq
    exact ⟨hreply.1.2, hreply.2⟩
  · intro us text vs heq
    exact (hallowed us _ vs heq).2 text rfl
  · intro us e vs heq he
    exact Allowed.nil_of_closed hallowed heq he

/-! ### Sample turns -/

def sampleRun : CodexRun where
  runId := 1
  prompt := "p"
  toolChoice := .text "required"
  interp := ⟨100, 100, fun _ => ""⟩
  threadId := "th"
  threadId_ne := by decide

def sampleAssigned : Doc := [("id", .int 3), ("result", .obj [("turn", .obj [("id", .str "t1")])])]

def sampleCall (params : Doc) : Doc :=
  [("id", .int 7), ("method", .str "item/tool/call"), ("params", .obj (params ++
    [("threadId", .str "th"), ("callId", .str "c1"), ("tool", .str "answer"), ("arguments", .obj [])]))]

def sampleConfirmed : Doc := [("id", .int 1000), ("result", .obj [])]

def sampleCompleted : Doc :=
  [("method", .str "turn/completed"),
    ("params", .obj [("turn", .obj [("id", .str "t1"), ("status", .str "interrupted")])])]

/-- What a sample turn leaves behind. -/
def observe (s : CodexTurn) : List String × ℕ × ℕ × Bool × Bool :=
  (callIds s.log, (requests s.log).length, (answered s.log).length, closed s.log,
    match s.phase with
    | .ended => true
    | _ => false)

/-- The client's terminal result, the confirmed interrupt and the end. -/
theorem codex_turn_protocol_sample :
    ∃ s, Steps (CodexTurn.step sampleRun) Free (start sampleRun)
        [.frame 0 (.message sampleAssigned), .frame 0 (.message (sampleCall [("turnId", .str "t1")])), .publish (.ok ()),
          .poll .pending, .poll (.result ⟨true, "x", true⟩), .send 0 .ok, .send 0 .ok,
          .frame 1 (.message sampleConfirmed), .frame 2 (.message sampleCompleted)] s ∧
      observe s = (["c1"], 1, 1, true, true) ∧ interrupts s.log ≤ 1 := by
  have hrun : (execAll (CodexTurn.step sampleRun) (start sampleRun)
      [.frame 0 (.message sampleAssigned), .frame 0 (.message (sampleCall [("turnId", .str "t1")])), .publish (.ok ()),
        .poll .pending, .poll (.result ⟨true, "x", true⟩), .send 0 .ok, .send 0 .ok,
        .frame 1 (.message sampleConfirmed), .frame 2 (.message sampleCompleted)]).map observe =
      some (["c1"], 1, 1, true, true) := by decide
  obtain ⟨s, hs, hobs⟩ := steps_of_observed hrun
  exact ⟨s, hs, hobs, (codex_turn_protocol sampleRun hs).1.1⟩

/-- The run is cancelled while the client works: the call it took up is never answered. -/
theorem codex_call_unanswered :
    ∃ s, Steps (CodexTurn.step sampleRun) Free (start sampleRun)
        [.frame 0 (.message sampleAssigned), .frame 0 (.message (sampleCall [("turnId", .str "t1")])), .publish (.ok ()),
          .poll (.raised .cancelled)] s ∧
      observe s = (["c1"], 1, 0, true, true) := by
  have hrun : (execAll (CodexTurn.step sampleRun) (start sampleRun)
      [.frame 0 (.message sampleAssigned), .frame 0 (.message (sampleCall [("turnId", .str "t1")])), .publish (.ok ()),
        .poll (.raised .cancelled)]).map observe = some (["c1"], 1, 0, true, true) := by decide
  exact steps_of_observed hrun

end CodexTurn

end Broker.Agent
