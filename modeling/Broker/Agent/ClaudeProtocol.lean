import Broker.Agent.ClaudeTurn

/-!
# Broker.Agent.ClaudeProtocol — what every turn of the Claude CLI keeps

Whatever lines the CLI writes and however the client's tools behave, the history of a turn is one
`ClaudeAllowed` admits. The same `result` line ends a turn, asks for a reminder, confirms an interrupt or
fails the run, by what came before it.
-/

namespace Broker.Agent

open Broker.Lib Broker.Db

namespace ClaudeTurn

/-! ### The discipline of the CLI's turn -/

def read? : TurnEvent claudeWire → Option String
  | .read line => some line
  | _ => none

/-- The line being worked on. -/
def lastRead (h : List (TurnEvent claudeWire)) : Option String := (h.filterMap read?).getLast?

/-- The last line read is this object. -/
def Reads (run : ClaudeRun) (h : List (TurnEvent claudeWire)) (data : Doc) : Prop :=
  ∃ line, lastRead h = some line ∧ ClaudeParser.json run.parser line = .ok (some data)

/-- The last line is a `result`; where it is a failing one, the interrupt was clean. -/
def CleanStop (run : ClaudeRun) (h : List (TurnEvent claudeWire)) : Prop :=
  ∃ data, Reads run h data ∧ (data.get "type").isText "result" = true ∧
    (ClaudeParser.isFailing run.parser data = .ok true → interruptWasClean data = some true)

/-- The reply that carries a terminal result of the client. -/
def TerminalReply (h : List (TurnEvent claudeWire)) (q : McpRequest) (reply : Val PyFloat) : Prop :=
  ∃ c name arguments r, .published q c name arguments ∈ h ∧ .took c r ∈ h ∧ r.terminal = true ∧
    reply = mcpReply (q.message.get "id") (toolText r.content (!r.success))

/-- A terminal result was acknowledged to the CLI. -/
def Acknowledged (h : List (TurnEvent claudeWire)) : Prop :=
  ∃ q reply, TerminalReply h q reply ∧ .replied q reply ∈ h

/-- Beside `Allowed`: an interrupt follows an acknowledged terminal result, and after one a run completes
with no text and a clean stop. -/
def ClaudeAllowed (run : ClaudeRun) (h : List (TurnEvent claudeWire)) (e : TurnEvent claudeWire) : Prop :=
  Allowed run.toTurnSpec h e ∧
    match e with
    | .interrupted => Acknowledged h
    | .yielded (.runCompleted text) => 0 < terminals h → text = "" ∧ CleanStop run h
    | _ => True

/-! ### The invariant -/

/-- At the top of the loop, and while the events of a line are worked through. -/
structure Settled (s : ClaudeTurn) : Prop where
  answered : answered s.log = requests s.log
  stopping : 0 < terminals s.log ↔ s.stopDeadline.isSome = true
  terminal : s.stopDeadline = none → s.terminal = false

/-- What holds at the await a turn stands at. -/
def PhaseOk (run : ClaudeRun) (s : ClaudeTurn) : Prop :=
  match s.phase with
  | .reading => s.Settled
  | .publishing q c _ _ =>
    s.stopDeadline = none ∧ s.terminal = false ∧ terminals s.log = 0 ∧
      requests s.log = answered s.log ++ [q] ∧
      c = callId run s.seq ∧ ∀ c' ∈ callIds s.log, ∃ k < s.seq, c' = callId run k
  | .waiting q c =>
    s.stopDeadline = none ∧ s.terminal = false ∧ terminals s.log = 0 ∧
      requests s.log = answered s.log ++ [q] ∧
      c ∈ callIds s.log ∧ ∃ name arguments, .published q c name arguments ∈ s.log
  | .replying q reply =>
    requests s.log = answered s.log ++ [q] ∧
      (0 < terminals s.log ↔ s.stopDeadline.isSome = true ∨ s.terminal = true) ∧
      (s.stopDeadline = none → s.terminal = true → TerminalReply s.log q reply)
  | .interrupting =>
    s.stopDeadline = none ∧ 0 < terminals s.log ∧ answered s.log = requests s.log ∧ Acknowledged s.log
  | .reminding data rest _ =>
    s.Settled ∧ s.stopDeadline = none ∧ Reads run s.log data ∧
      ∀ item ∈ rest, ClaudeParser.Ending run.parser data item
  | .closing => answered s.log = requests s.log
  | .ended => True

structure Core (run : ClaudeRun) (pending : ℕ) (s : ClaudeTurn) : Prop where
  tally : Tally run.toTurnSpec pending s.calls s.remindersLeft s.interruptConfirmed s.stopDeadline.isSome s.log
  ids : ∀ c ∈ callIds s.log, ∃ k ≤ s.seq, c = callId run k

def pendingStart : ClaudePhase → ℕ
  | .reminding _ _ _ => 1
  | _ => 0

structure Inv (run : ClaudeRun) (s : ClaudeTurn) : Prop where
  allowed : AtEach (ClaudeAllowed run) s.log
  core : s.phase ≠ .ended → Core run (pendingStart s.phase) s
  phaseOk : s.PhaseOk run

variable {run : ClaudeRun} {s s' : ClaudeTurn} {pending : ℕ} {data : Doc}

@[simp] theorem log_emit (s : ClaudeTurn) (e : TurnEvent claudeWire) : (s.emit e).log = s.log ++ [e] := rfl

theorem lastRead_snoc {h : List (TurnEvent claudeWire)} {e : TurnEvent claudeWire} (he : read? e = none) :
    lastRead (h ++ [e]) = lastRead h := by
  simp [lastRead, he]

theorem Reads.snoc {h : List (TurnEvent claudeWire)} (hr : Reads run h data) {e : TurnEvent claudeWire}
    (he : read? e = none) : Reads run (h ++ [e]) data := by
  obtain ⟨line, hline, hjson⟩ := hr
  exact ⟨line, (lastRead_snoc he).trans hline, hjson⟩

theorem Core.emit {pending' : ℕ} (h : Core run pending s) {e : TurnEvent claudeWire}
    (hcall : e.callId? = none)
    (ht : Tally run.toTurnSpec pending' s.calls s.remindersLeft s.interruptConfirmed s.stopDeadline.isSome
      (s.log ++ [e])) : Core run pending' (s.emit e) := by
  refine ⟨ht, fun c hc => h.ids c ?_⟩
  rw [log_emit, callIds_snoc, hcall] at hc
  simpa using hc

theorem Core.quiet (h : Core run pending s) {e : TurnEvent claudeWire} (he : e.Quiet) :
    Core run pending (s.emit e) := by
  cases e with
  | read m | completed m | yielded e => exact h.emit rfl (h.tally.quiet he)
  | _ => exact he.elim

theorem Settled.quiet (h : s.Settled) {e : TurnEvent claudeWire} (he : e.Quiet) : (s.emit e).Settled := by
  have hsame := he.same s.log
  refine ⟨?_, ?_, h.terminal⟩
  · rw [log_emit, hsame.answered, hsame.requests]
    exact h.answered
  · rw [log_emit, hsame.terminals]
    exact h.stopping

/-- At an await of a turn that has not ended. -/
theorem Inv.coreAt (hi : Inv run s) {p : ClaudePhase} (hphase : s.phase = p) (hp : p ≠ .ended) :
    s.phase ≠ .ended ∧ Core run (pendingStart p) s := by
  have hopen : s.phase ≠ .ended := by rwa [hphase]
  exact ⟨hopen, hphase ▸ hi.core hopen⟩

theorem inv_start (run : ClaudeRun) : Inv run (start run) := by
  have hlog : (start run).log = [] ++ [.started run.prompt] := rfl
  refine ⟨?_, fun _ => ⟨Tally.first _ _, by simp [hlog, callIds]⟩, ?_⟩
  · rw [hlog]
    exact AtEach.nil.snoc ⟨⟨rfl, Nat.zero_le _⟩, trivial⟩
  · exact ⟨rfl, by simp [terminals, start], fun _ => rfl⟩

/-! ### The ends of a turn -/

theorem raise_phase (s : ClaudeTurn) (x : TurnError) : (s.raise x).phase = .ended := by
  unfold raise
  split <;> rfl

/-- A turn that has ended takes no step. -/
theorem step_of_ended (h : s.phase = .ended) (a : Act) : step run s a = none := by
  cases a with
  | send now r => simp [ClaudeTurn.step, onSend, h]
  | publish r => cases r <;> simp [ClaudeTurn.step, h]
  | _ => simp [ClaudeTurn.step, h]

/-- An event that completes no run. -/
theorem allowed_yield (hc : closed s.log = false) {e : StreamEvent} (he : ∀ text, e ≠ .runCompleted text) :
    ClaudeAllowed run s.log (.yielded e) := by
  refine ⟨⟨hc, fun text h => absurd h (he text)⟩, ?_⟩
  cases e with
  | runCompleted text => exact absurd rfl (he text)
  | _ => trivial

theorem emitUsage_cases (s : ClaudeTurn) :
    s.emitUsage = s ∨ s.emitUsage = s.emit (.yielded (.usage s.usage)) := by
  unfold emitUsage
  split_ifs
  · exact .inr rfl
  · exact .inl rfl

theorem emitUsage_stopDeadline (s : ClaudeTurn) : s.emitUsage.stopDeadline = s.stopDeadline := by
  rcases emitUsage_cases s with h | h
  · rw [h]
  · rw [h]
    rfl

theorem inv_ended (hlog : AtEach (ClaudeAllowed run) s.log) (hphase : s.phase = .ended) : Inv run s := by
  refine ⟨hlog, fun h => absurd hphase h, ?_⟩
  rw [PhaseOk, hphase]
  trivial

theorem inv_close (hlog : AtEach (ClaudeAllowed run) s.log) {e : StreamEvent}
    (he : ClaudeAllowed run s.log (.yielded e)) : Inv run (s.close e) :=
  inv_ended (hlog.snoc he) rfl

theorem inv_raise (hlog : AtEach (ClaudeAllowed run) s.log) (hc : closed s.log = false) (x : TurnError) :
    Inv run (s.raise x) := by
  unfold raise
  split
  · rename_i e he
    have hne : ∀ text, e ≠ .runCompleted text := by
      rintro text rfl
      cases x <;> simp [TurnError.handled, protocolFailure] at he
    rcases emitUsage_cases s with h | h
    · rw [h]
      exact inv_close hlog (allowed_yield hc hne)
    · rw [h]
      refine inv_close (hlog.snoc (allowed_yield hc fun _ h => by cases h)) (allowed_yield ?_ hne)
      rw [log_emit, closed_snoc, hc]
      rfl
  · exact inv_ended hlog rfl

theorem Inv.raise (hi : Inv run s) (hphase : s.phase ≠ .ended) (x : TurnError) : Inv run (s.raise x) :=
  inv_raise hi.allowed (hi.core hphase).tally.notClosed x

/-- Back at the top of the loop. -/
theorem inv_loop (hlog : AtEach (ClaudeAllowed run) s.log) (hcore : Core run 0 s) (hs : s.Settled) :
    Inv run s.loop :=
  ⟨hlog, fun _ => { hcore with }, { hs with }⟩

/-! ### The events of a line -/

/-- Between two events of a line. -/
structure Working (run : ClaudeRun) (pending : ℕ) (data : Doc) (s : ClaudeTurn) : Prop where
  allowed : AtEach (ClaudeAllowed run) s.log
  core : Core run pending s
  settled : s.Settled
  reads : Reads run s.log data

theorem Working.yield (hw : Working run pending data s) {e : StreamEvent} (he : e.type.terminal = false) :
    Working run pending data (s.emit (.yielded e)) := by
  have hquiet : (TurnEvent.yielded e : TurnEvent claudeWire).Quiet := he
  refine ⟨hw.allowed.snoc (allowed_yield hw.core.tally.notClosed ?_), hw.core.quiet hquiet, hw.settled.quiet hquiet,
    hw.reads.snoc rfl⟩
  rintro text rfl
  cases he

theorem Working.emitUsage (hw : Working run pending data s) : Working run pending data s.emitUsage := by
  rcases emitUsage_cases s with h | h
  · rw [h]
    exact hw
  · rw [h]
    exact hw.yield rfl

theorem Working.raise (hw : Working run pending data s) (x : TurnError) : Inv run (s.raise x) :=
  inv_raise hw.allowed hw.core.tally.notClosed x

/-- A failure ends the turn as it is. -/
theorem Working.fail (hw : Working run pending data s) {e : StreamEvent}
    (he : ∀ text, e ≠ .runCompleted text) :
    Inv run (s.close e) :=
  inv_close hw.allowed (allowed_yield hw.core.tally.notClosed he)

/-- A confirmed interrupt completes the run, if the line is a clean stop. -/
theorem Working.onStopped (hw : Working run pending data s) (hstop : s.stopDeadline.isSome = true)
    (hclean : CleanStop run s.log) : Inv run s.onStopped := by
  unfold ClaudeTurn.onStopped
  split_ifs with hconf
  · have hpos := hw.settled.stopping.mpr hstop
    refine inv_close hw.allowed
      ⟨⟨hw.core.tally.notClosed, fun _ _ => ⟨hw.settled.answered, fun _ => ?_, fun _ hnil => ?_⟩⟩,
      fun _ => ⟨rfl, hclean⟩⟩
    · rw [hw.core.tally.confirmed, hconf]
      rfl
    · have hcalls := hw.core.tally.terminals hpos
      rw [hw.core.tally.callCount, hnil] at hcalls
      cases hcalls
  · exact hw.raise _

theorem Working.onStoppedFailure (hw : Working run pending data s) (hstop : s.stopDeadline.isSome = true)
    {item : StreamEvent} (hitem : ∀ text, item ≠ .runCompleted text) :
    Inv run (onStoppedFailure run s data item) := by
  unfold ClaudeTurn.onStoppedFailure
  simp only
  split
  · rename_i cancelled _ hcancelled _
    split_ifs with h
    · rw [Bool.and_eq_true] at h
      refine hw.onStopped hstop ⟨data, hw.reads, ?_⟩
      split_ifs at hcancelled with hkind
      · exact ⟨hkind, fun _ => by rw [hcancelled, h.2]⟩
      · rw [← Option.some.inj hcancelled] at h
        cases h.2
    · exact hw.fail hitem
  · exact hw.raise _

/-- What is promised of the state after one event. -/
def Next.Ok (run : ClaudeRun) (data : Doc) : Next → Prop
  | .go s => Working run 0 data s
  | .stop s => Inv run s
  | .remind s _ => Working run 1 data s ∧ s.stopDeadline = none

theorem Working.onCompleted (hw : Working run 0 data s) (hstop : s.stopDeadline = none) (text : String) :
    (onCompleted run s (.runCompleted text)).Ok run data := by
  have hzero : terminals s.log = 0 := by
    by_contra hne
    have h := hw.settled.stopping.mp (Nat.pos_of_ne_zero hne)
    rw [hstop] at h
    cases h
  unfold ClaudeTurn.onCompleted
  split_ifs with hnone hleft
  · exact hw.raise _
  · have htally := hw.core.tally.remind hleft
    have hw' : Working run 1 data { s with remindersLeft := s.remindersLeft - 1 } :=
      ⟨hw.allowed, { hw.core with tally := htally }, { hw.settled with }, hw.reads⟩
    simp only
    split
    · exact hw'.raise _
    · exact ⟨hw', hstop⟩
  · have hw' : Working run 0 data (s.emit (.yielded (.usage s.usage))) := hw.yield rfl
    have hquiet : (TurnEvent.yielded (.usage s.usage) : TurnEvent claudeWire).Quiet := rfl
    have hterm : terminals (s.emit (.yielded (.usage s.usage))).log = 0 :=
      (hquiet.same s.log).terminals.trans hzero
    refine inv_close hw'.allowed
      ⟨⟨hw'.core.tally.notClosed, fun _ _ => ⟨hw'.settled.answered, fun hpos => ?_, ?_⟩⟩,
      fun hpos => ?_⟩
    · omega
    · intro hreq hnil
      have hcalls : s.calls = 0 := by
        have h := hw'.core.tally.callCount
        rw [hnil] at h
        exact h
      exact hnone ⟨hcalls, hreq⟩
    · omega

theorem Working.onItem (hw : Working run 0 data s) {item : StreamEvent}
    (hitem : ClaudeParser.Ending run.parser data item) : (onItem run data s item).Ok run data := by
  cases item with
  | toolCall c name input =>
    unfold ClaudeTurn.onItem
    simp only
    split_ifs
    · exact ⟨hw.allowed, { hw.core with }, { hw.settled with }, hw.reads⟩
    · exact hw.yield rfl
  | toolResult c ok output =>
    unfold ClaudeTurn.onItem
    simp only
    split_ifs
    · exact hw
    · exact hw.yield rfl
  | usage u => exact ⟨hw.allowed, { hw.core with }, { hw.settled with }, hw.reads⟩
  | messageDelta text =>
    unfold ClaudeTurn.onItem
    simp only
    split_ifs
    · exact hw
    · exact hw.yield rfl
  | runFailed cls msg reset =>
    unfold ClaudeTurn.onItem
    simp only
    split_ifs with hstop
    · exact hw.emitUsage.onStoppedFailure (by rwa [emitUsage_stopDeadline]) (fun _ h => by cases h)
    · exact hw.emitUsage.fail (fun _ h => by cases h)
  | runCompleted text =>
    unfold ClaudeTurn.onItem
    simp only
    split_ifs with hstop
    · refine hw.emitUsage.onStopped (by rwa [emitUsage_stopDeadline])
        ⟨data, hw.emitUsage.reads, hitem.1, fun h => ?_⟩
      rw [hitem.2] at h
      cases h
    · exact hw.onCompleted (by simpa using hstop) text
  | runCancelled => exact hitem.elim
  | sessionAssigned _ | modelRerouted _ _ | modelObserved _ _ _ | fileChanged _ _ => exact hw.yield rfl

/-- The events of a line end the turn, ask for a reminder, or lead back to the top of the loop. -/
theorem Working.onItems {items : List StreamEvent} (hw : Working run 0 data s)
    (hitems : ∀ item ∈ items, ClaudeParser.Ending run.parser data item) :
      Inv run (onItems run data s items) := by
  induction items generalizing s with
  | nil => exact inv_loop hw.allowed hw.core hw.settled
  | cons item rest ih =>
    have hitem := hw.onItem (hitems item (by simp))
    have hrest : ∀ item ∈ rest, ClaudeParser.Ending run.parser data item :=
      fun i hi => hitems i (by simp [hi])
    unfold ClaudeTurn.onItems
    split
    · rename_i s' hs'
      rw [hs'] at hitem
      exact ih hitem hrest
    · rename_i s' hs'
      rw [hs'] at hitem
      exact hitem
    · rename_i s' text hs'
      rw [hs'] at hitem
      obtain ⟨hw', hstop⟩ := hitem
      exact ⟨hw'.allowed, fun _ => { hw'.core with }, { hw'.settled with }, hstop, hw'.reads, hrest⟩

/-! ### Control lines -/

theorem toString_inj {m n : ℕ} (h : toString m = toString n) : m = n := by
  have hd : Nat.toDigits 10 m = Nat.toDigits 10 n := by
    simpa [Nat.toString_eq_repr, Nat.toList_repr] using congrArg String.toList h
  rw [← @Nat.ofDigitChars_toDigits 10 m (by decide) (by decide), hd,
    Nat.ofDigitChars_toDigits (by decide) (by decide)]

theorem callId_inj {m n : ℕ} (h : callId run m = callId run n) : m = n :=
  toString_inj ((String.append_right_inj _).mp h)

theorem Working.onControlResponse (hw : Working run 0 data s) (hphase : s.phase = .reading) :
    Inv run (s.onControlResponse data) := by
  have hquiet : Inv run s := by
    refine ⟨hw.allowed, fun _ => by rw [hphase]; exact hw.core, ?_⟩
    rw [PhaseOk, hphase]
    exact hw.settled
  unfold ClaudeTurn.onControlResponse
  split
  · exact hw.raise _
  · simp only
    split_ifs with hrefused hid hconf
    · exact hw.raise _
    · exact hw.raise _
    · -- the interrupt was expected, so it had been sent
      rename_i response hresponse
      rw [not_or] at hrefused
      have hnotInit : (Doc.get response "request_id").isText initRequest = false := by
        rw [Val.isText_iff.mp hid]
        decide
      have hstop : s.stopDeadline.isSome = true := by
        have h := hrefused.1
        rw [hnotInit, hid] at h
        simpa [Option.isSome_iff_ne_none] using h
      have hconf : s.interruptConfirmed = false := by simpa using hconf
      have htally := hw.core.tally
      rw [hconf] at htally
      have hone : interrupts s.log = 1 := by rw [hw.core.tally.interrupts, hstop]; rfl
      refine ⟨hw.allowed.snoc ⟨⟨hw.core.tally.notClosed, by omega, htally.confirmed⟩, trivial⟩,
        fun _ => ⟨?_, ?_⟩, ?_⟩
      · show Tally _ (pendingStart s.phase) s.calls s.remindersLeft true s.stopDeadline.isSome
          (s.log ++ [.confirmed])
        rw [hphase]
        exact htally.confirm
      · simpa [ClaudeTurn.emit] using hw.core.ids
      · have hp : ({ s.emit .confirmed with interruptConfirmed := true } : ClaudeTurn).phase = .reading := hphase
        rw [PhaseOk, hp]
        exact ⟨by simpa using hw.settled.answered, by simpa [ClaudeTurn.emit] using hw.settled.stopping,
          hw.settled.terminal⟩
    · exact hquiet

/-- A request taken up. -/
structure Taken (run : ClaudeRun) (q : McpRequest) (s : ClaudeTurn) : Prop where
  allowed : AtEach (ClaudeAllowed run) s.log
  core : Core run 0 s
  opened : requests s.log = answered s.log ++ [q]
  stopping : 0 < terminals s.log ↔ s.stopDeadline.isSome = true
  terminal : s.stopDeadline = none → s.terminal = false

variable {q : McpRequest}

theorem Working.accept (hw : Working run 0 data s) (q : McpRequest) : Taken run q (s.emit (.accepted q)) := by
  refine ⟨hw.allowed.snoc ⟨⟨hw.core.tally.notClosed, hw.settled.answered⟩, trivial⟩,
    hw.core.emit rfl (hw.core.tally.pass trivial (fun h => by cases h)), ?_, ?_, hw.settled.terminal⟩
  · simp [hw.settled.answered]
  · simpa [ClaudeTurn.emit] using hw.settled.stopping

theorem Taken.raise (ht : Taken run q s) (x : TurnError) : Inv run (s.raise x) :=
  inv_raise ht.allowed ht.core.tally.notClosed x

/-- A request that needs no client is answered at once. -/
theorem Taken.reply (ht : Taken run q s) (reply : Val PyFloat) :
    Inv run { s with phase := .replying q reply } := by
  refine ⟨ht.allowed, fun _ => { ht.core with }, ht.opened, ?_, fun hnone hterm => ?_⟩
  · rw [ht.stopping]
    constructor
    · exact .inl
    · rintro (h | h)
      · exact h
      · by_contra hne
        have hnone := ht.terminal (by simpa using hne)
        rw [h] at hnone
        cases hnone
  · have h := ht.terminal hnone
    rw [hterm] at h
    cases h

theorem Taken.onToolsCall (ht : Taken run q s) (params : Option Doc) :
    Inv run (onToolsCall run s q params) := by
  unfold ClaudeTurn.onToolsCall
  split_ifs with hstop
  · exact ht.raise _
  · have hnone : s.stopDeadline = none := by simpa using hstop
    have hzero : terminals s.log = 0 := by
      by_contra hne
      exact hstop (ht.stopping.mp (Nat.pos_of_ne_zero hne))
    have hids : ∀ c ∈ callIds s.log, ∃ k ≤ s.seq + 1, c = callId run k := by
      intro c hc
      obtain ⟨k, hk, rfl⟩ := ht.core.ids c hc
      exact ⟨k, by omega, rfl⟩
    simp only
    split
    · exact @inv_raise run { s with seq := s.seq + 1 } ht.allowed ht.core.tally.notClosed _
    · split
      · refine ⟨ht.allowed, fun _ => { ht.core with ids := hids }, hnone, ht.terminal hnone, hzero, ht.opened, rfl, ?_⟩
        intro c hc
        obtain ⟨k, hk, rfl⟩ := ht.core.ids c hc
        exact ⟨k, Nat.lt_succ_of_le hk, rfl⟩
      · exact @inv_raise run { s with seq := s.seq + 1 } ht.allowed ht.core.tally.notClosed _

theorem Working.onMcpMessage (hw : Working run 0 data s) (q : McpRequest) :
    Inv run (onMcpMessage run s q) := by
  have ht := hw.accept q
  unfold ClaudeTurn.onMcpMessage
  simp only
  split_ifs
  · exact ht.reply _
  · split
    · exact ht.raise _
    · exact ht.reply _
  · exact ht.reply _
  · exact ht.onToolsCall _
  · exact ht.reply _
  · exact ht.reply _

theorem Working.onControlRequest (hw : Working run 0 data s) : Inv run (onControlRequest run s data) := by
  unfold ClaudeTurn.onControlRequest
  split
  · exact hw.raise _
  · split
    · split_ifs
      · exact hw.onMcpMessage _
      · exact hw.raise _
    · exact hw.raise _

theorem Working.onData (hw : Working run 0 data s) (hphase : s.phase = .reading) :
    Inv run (onData run s data) := by
  have hquiet : Inv run s := by
    refine ⟨hw.allowed, fun _ => by rw [hphase]; exact hw.core, ?_⟩
    rw [PhaseOk, hphase]
    exact hw.settled
  unfold ClaudeTurn.onData
  simp only
  split_ifs
  · exact hw.onControlResponse hphase
  · split
    · exact hw.raise _
    · exact hquiet
    · exact hw.onControlRequest
  · exact hw.onControlRequest
  · split
    · exact hw.raise _
    · rename_i items hitems
      exact hw.onItems (ClaudeParser.ending_feed hitems)

theorem Inv.line (hi : Inv run s) (hphase : s.phase = .reading) (line : String) :
    Inv run (onLine run (s.emit (.read line)) line) := by
  obtain ⟨-, hcore⟩ := hi.coreAt hphase (by simp)
  have hok := hi.phaseOk
  rw [PhaseOk, hphase] at hok
  have hquiet : (TurnEvent.read line : TurnEvent claudeWire).Quiet := trivial
  have hlog : AtEach (ClaudeAllowed run) (s.emit (.read line)).log :=
    hi.allowed.snoc ⟨hcore.tally.notClosed, trivial⟩
  have hcore' := hcore.quiet hquiet
  unfold ClaudeTurn.onLine
  split
  · exact inv_raise hlog hcore'.tally.notClosed _
  · refine ⟨hlog, fun _ => ?_, ?_⟩
    · have hp : (s.emit (.read line)).phase = .reading := hphase
      rw [hp]
      exact hcore'
    · have hp : (s.emit (.read line)).phase = .reading := hphase
      rw [PhaseOk, hp]
      exact Settled.quiet hok hquiet
  · rename_i data hjson
    have hw : Working run 0 data (s.emit (.read line)) :=
      ⟨hlog, hcore', Settled.quiet hok hquiet, line, by simp [lastRead, read?], hjson⟩
    exact hw.onData hphase

theorem Inv.frame (hi : Inv run s) (hphase : s.phase = .reading) {now : Time} {f : Frame}
    (h : onFrame run s now f = some s') : Inv run s' := by
  obtain ⟨hopen, hcore⟩ := hi.coreAt hphase (by simp)
  unfold onFrame at h
  by_cases hlate : s.stopDeadline.any (· ≤ now) = true
  · rw [if_pos hlate] at h
    obtain rfl := Option.some.inj h
    exact hi.raise hopen _
  · rw [if_neg hlate] at h
    cases f with
    | line raw =>
      obtain rfl := Option.some.inj h
      exact hi.line hphase _
    | closed =>
      obtain rfl := Option.some.inj h
      have hok := hi.phaseOk
      rw [PhaseOk, hphase] at hok
      exact ⟨hi.allowed, fun _ => { hcore with }, hok.answered⟩
    | refused x =>
      obtain rfl := Option.some.inj h
      exact hi.raise hopen _
    | late =>
      simp only at h
      split_ifs at h
      obtain rfl := Option.some.inj h
      exact hi.raise hopen _

/-! ### The client's side -/

theorem Inv.published (hi : Inv run s) {c name : String} {arguments : Val PyFloat}
    (hphase : s.phase = .publishing q c name arguments) : Inv run (s.onPublished q c name arguments) := by
  obtain ⟨-, hcore⟩ := hi.coreAt hphase (by simp)
  have hok := hi.phaseOk
  rw [PhaseOk, hphase] at hok
  obtain ⟨hstop, hterminal, hzero, hopened, rfl, hids⟩ := hok
  have hnew : callId run s.seq ∉ callIds s.log := by
    intro hmem
    obtain ⟨k, hk, heq⟩ := hids _ hmem
    rw [callId_inj heq] at hk
    omega
  have hev : ClaudeAllowed run s.log (.published q (callId run s.seq) name arguments) :=
    ⟨⟨hcore.tally.notClosed, hzero, hnew⟩, trivial⟩
  have hcalls : Core run 0
      { s.emit (.published q (callId run s.seq) name arguments) with calls := s.calls + 1 } := by
    refine ⟨hcore.tally.publish q (callId run s.seq) name arguments, fun c hc => ?_⟩
    rcases (by simpa using hc : c ∈ callIds s.log ∨ c = callId run s.seq) with hc | rfl
    · exact hcore.ids c hc
    · exact ⟨s.seq, le_refl _, rfl⟩
  have hquiet : (TurnEvent.yielded (.toolCall (callId run s.seq) name (arguments.asDict.getD []))
      : TurnEvent claudeWire).Quiet := rfl
  have hsame := hquiet.same (s.log ++ [.published q (callId run s.seq) name arguments])
  have hyield : ClaudeAllowed run (s.log ++ [.published q (callId run s.seq) name arguments])
      (.yielded (.toolCall (callId run s.seq) name (arguments.asDict.getD []))) :=
    @allowed_yield run (s.emit _) hcalls.tally.notClosed _ (fun _ h => by cases h)
  refine ⟨(hi.allowed.snoc hev).snoc hyield, fun _ => { hcalls.quiet hquiet with }, hstop, hterminal,
    hsame.terminals.trans ?_, hsame.opened ?_, ?_, name, arguments, ?_⟩
  · simpa using hzero
  · simpa using hopened
  · have hmem : callId run s.seq ∈ callIds (s.log ++ [.published q (callId run s.seq) name arguments]) := by simp
    exact hsame.callIds.symm ▸ hmem
  · simp [onPublished, ClaudeTurn.emit]

theorem Inv.refused (hi : Inv run s) {c name : String} {arguments : Val PyFloat}
    (hphase : s.phase = .publishing q c name arguments) (x : TurnError) :
      Inv run (onRefused run s q c name x) := by
  obtain ⟨hopen, hcore⟩ := hi.coreAt hphase (by simp)
  have hok := hi.phaseOk
  rw [PhaseOk, hphase] at hok
  obtain ⟨hstop, hterminal, hzero, hopened, -, -⟩ := hok
  unfold onRefused
  split
  · rename_i label detail
    split_ifs
    · exact hi.raise hopen _
    · have hquiet : (TurnEvent.yielded (.toolResult c false "[arguments rejected]")
        : TurnEvent claudeWire).Quiet := rfl
      have hsame := hquiet.same s.log
      have ht : Taken run q (s.emit (.yielded (.toolResult c false "[arguments rejected]"))) := by
        refine ⟨hi.allowed.snoc (allowed_yield hcore.tally.notClosed fun _ h => by cases h), hcore.quiet hquiet,
          hsame.opened hopened, ?_, fun _ => hterminal⟩
        rw [log_emit, hsame.terminals, hzero]
        simp [ClaudeTurn.emit, hstop]
      have hreply := ht.reply (mcpReply (q.message.get "id") (toolText (rejectionText label detail name) true))
      exact ⟨hreply.allowed, fun h => { hreply.core h with }, hreply.phaseOk⟩
  · exact hi.raise hopen _

theorem Inv.poll (hi : Inv run s) {c : String} (hphase : s.phase = .waiting q c) (r : Poll) :
    Inv run (s.onPoll q c r) := by
  obtain ⟨hopen, hcore⟩ := hi.coreAt hphase (by simp)
  have hok := hi.phaseOk
  rw [PhaseOk, hphase] at hok
  obtain ⟨hstop, hterminal, hzero, hopened, hmem, name, arguments, hpub⟩ := hok
  cases r with
  | result r =>
    have hpos : 0 < s.calls := by
      rw [hcore.tally.callCount]
      exact List.length_pos_of_mem hmem
    have hcore' : Core run 0 (s.emit (.took c r)) := hcore.emit rfl (hcore.tally.pass trivial fun _ => hpos)
    have hquiet : (TurnEvent.yielded (.toolResult c r.success "[client tool result withheld]")
        : TurnEvent claudeWire).Quiet := rfl
    have hsame := hquiet.same (s.log ++ [.took c r])
    have htook : ClaudeAllowed run s.log (.took c r) := ⟨⟨hcore.tally.notClosed, hzero, hmem⟩, trivial⟩
    have hyield : ClaudeAllowed run (s.log ++ [.took c r])
        (.yielded (.toolResult c r.success "[client tool result withheld]")) :=
      @allowed_yield run (s.emit (.took c r)) hcore'.tally.notClosed _ (fun _ h => by cases h)
    refine ⟨(hi.allowed.snoc htook).snoc hyield, fun _ => { hcore'.quiet hquiet with }, hsame.opened ?_, ?_, ?_⟩
    · simpa using hopened
    · have hterm : terminals (s.onPoll q c (.result r)).log = if r.terminal then 1 else 0 := by
        refine hsame.terminals.trans ?_
        rw [terminals_snoc, hzero, Nat.zero_add]
        rfl
      rw [hterm]
      show (0 < if r.terminal = true then 1 else 0) ↔ s.stopDeadline.isSome = true ∨ r.terminal = true
      cases r.terminal <;> simp [hstop]
    · intro _ hr
      refine ⟨c, name, arguments, r, ?_, ?_, hr, rfl⟩
      · exact List.mem_append_left _ (List.mem_append_left _ hpub)
      · exact List.mem_append_left _ (List.mem_append_right _ List.mem_cons_self)
  | pending => exact hi
  | stopped => exact hi.raise hopen (.conflict _)
  | raised x => exact hi.raise hopen x

/-! ### Sends and the end of the process -/

/-- A send leaves its event or nothing; only where it returns the turn goes on. -/
theorem inv_sending (hi : Inv run s) (hopen : s.phase ≠ .ended) {e : TurnEvent claudeWire}
    (he : ClaudeAllowed run s.log e) (hlast : e.isLast = false) {k : ClaudeTurn → ClaudeTurn}
    (hk : AtEach (ClaudeAllowed run) (s.emit e).log → Inv run (k (s.emit e))) (r : Sent) :
    Inv run (s.sending e k r) := by
  have hlog : AtEach (ClaudeAllowed run) (s.emit e).log := hi.allowed.snoc he
  cases r with
  | ok => exact hk hlog
  | lost x => exact hi.raise hopen x
  | broken x =>
    refine inv_raise hlog ?_ x
    rw [log_emit, closed_snoc, he.1.not_closed, hlast]
    rfl

theorem TerminalReply.mono {h h' : List (TurnEvent claudeWire)} {reply : Val PyFloat}
    (ht : TerminalReply h q reply)
    (hsub : ∀ e ∈ h, e ∈ h') : TerminalReply h' q reply := by
  obtain ⟨c, name, arguments, r, hpub, htook, hr, hreply⟩ := ht
  exact ⟨c, name, arguments, r, hsub _ hpub, hsub _ htook, hr, hreply⟩

theorem Inv.replySent (hi : Inv run s) {reply : Val PyFloat} (hphase : s.phase = .replying q reply)
    (r : Sent) :
    Inv run (s.sending (.replied q reply) (fun s => afterReply run s q) r) := by
  obtain ⟨hopen, hcore⟩ := hi.coreAt hphase (by simp)
  have hok := hi.phaseOk
  rw [PhaseOk, hphase] at hok
  obtain ⟨hopened, hstopping, hterminal⟩ := hok
  have hev : ClaudeAllowed run s.log (.replied q reply) := ⟨⟨hcore.tally.notClosed, hopened⟩, trivial⟩
  refine inv_sending hi hopen hev rfl (fun hlog => ?_) r
  have hcore' : Core run 0 (s.emit (.replied q reply)) :=
    hcore.emit rfl (hcore.tally.pass trivial (fun h => by cases h))
  have hans : answered (s.emit (.replied q reply)).log = requests (s.emit (.replied q reply)).log := by
    simp [hopened]
  have hterm : terminals (s.emit (.replied q reply)).log = terminals s.log := by simp
  unfold afterReply
  split
  · exact inv_raise hlog hcore'.tally.notClosed _
  · simp only
    split_ifs with hstop
    · -- the reply was that of the terminal result
      obtain ⟨hr, hnone⟩ := hstop
      have hreply := (hterminal hnone hr).mono fun e he => List.mem_append_left [TurnEvent.replied q reply] he
      refine ⟨hlog, fun _ => { hcore' with }, hnone, ?_, hans, q, reply, hreply, by simp⟩
      show 0 < terminals (s.emit (.replied q reply)).log
      rw [hterm]
      exact hstopping.mpr (.inr hr)
    · have hsettled : Settled (s.emit (.replied q reply)) := by
        refine ⟨hans, ?_, fun hnone => ?_⟩
        · rw [hterm, hstopping]
          constructor
          · rintro (h | h)
            · exact h
            · by_contra hne
              exact hstop ⟨h, by simpa using hne⟩
          · exact .inl
        · by_contra hne
          exact hstop ⟨by simpa using hne, hnone⟩
      exact ⟨hlog, fun _ => { hcore' with }, { hsettled with }⟩

theorem Inv.interruptSent (hi : Inv run s) (hphase : s.phase = .interrupting) (now : Time) (r : Sent) :
    Inv run (s.sending .interrupted (fun s => { s.loop with stopDeadline := some (now + terminalStop) }) r) := by
  obtain ⟨hopen, hcore⟩ := hi.coreAt hphase (by simp)
  have hok := hi.phaseOk
  rw [PhaseOk, hphase] at hok
  obtain ⟨hstop, hpos, hans, hack⟩ := hok
  have htally := hcore.tally
  rw [hstop] at htally
  have hev : ClaudeAllowed run s.log .interrupted := ⟨⟨hcore.tally.notClosed, hpos, htally.interrupts⟩, hack⟩
  refine inv_sending hi hopen hev rfl (fun hlog => ?_) r
  refine ⟨hlog, fun _ => ⟨htally.interrupt, ?_⟩, ?_, ?_, fun h => ?_⟩
  · simpa [loop, ClaudeTurn.emit] using hcore.ids
  · simpa [loop] using hans
  · simpa [loop] using hpos
  · cases h

theorem Inv.reminderSent (hi : Inv run s) {rest : List StreamEvent} {text : String}
    (hphase : s.phase = .reminding data rest text) (r : Sent) :
    Inv run (s.sending (.started text) (fun s => onItems run data s rest) r) := by
  obtain ⟨hopen, hcore⟩ := hi.coreAt hphase (by simp)
  have hok := hi.phaseOk
  rw [PhaseOk, hphase] at hok
  obtain ⟨hsettled, hstop, hreads, hrest⟩ := hok
  have hturns : turnsStarted s.log + s.remindersLeft + 1 = 1 + run.requiredReminders := hcore.tally.turns
  have hev : ClaudeAllowed run s.log (.started text) := ⟨⟨hcore.tally.notClosed, by omega⟩, trivial⟩
  refine inv_sending hi hopen hev rfl (fun hlog => ?_) r
  have hw : Working run 0 data (s.emit (.started text)) := by
    refine ⟨hlog, hcore.emit rfl (hcore.tally.start text), ⟨?_, ?_, hsettled.terminal⟩, hreads.snoc rfl⟩
    · simpa using hsettled.answered
    · simpa [ClaudeTurn.emit] using hsettled.stopping
  exact hw.onItems hrest

theorem Inv.send (hi : Inv run s) {now : Time} {r : Sent} (h : onSend run s now r = some s') :
    Inv run s' := by
  unfold onSend at h
  cases hphase : s.phase with
  | replying q reply =>
    rw [hphase] at h
    obtain rfl := Option.some.inj h
    exact hi.replySent hphase r
  | interrupting =>
    rw [hphase] at h
    obtain rfl := Option.some.inj h
    exact hi.interruptSent hphase now r
  | reminding data rest text =>
    rw [hphase] at h
    obtain rfl := Option.some.inj h
    exact hi.reminderSent hphase r
  | _ =>
    rw [hphase] at h
    cases h

theorem Inv.exit (hi : Inv run s) (hphase : s.phase = .closing) (r : Except TurnError (ℤ × String)) :
    Inv run (onExit run s r) := by
  have hopen : s.phase ≠ .ended := by rw [hphase]; simp
  have hcore := hi.core hopen
  have husage : AtEach (ClaudeAllowed run) s.emitUsage.log ∧ closed s.emitUsage.log = false := by
    rcases emitUsage_cases s with h | h
    · rw [h]
      exact ⟨hi.allowed, hcore.tally.notClosed⟩
    · rw [h]
      refine ⟨hi.allowed.snoc (allowed_yield hcore.tally.notClosed fun _ h => by cases h), ?_⟩
      rw [log_emit, closed_snoc, hcore.tally.notClosed]
      rfl
  unfold onExit
  split
  · exact hi.raise hopen _
  · split
    · exact inv_raise husage.1 husage.2 _
    · rename_i rc stderr e he
      refine inv_close husage.1 (allowed_yield husage.2 ?_)
      rintro text rfl
      obtain ⟨reset, -, he⟩ := ClaudeParser.ok_of_bind he
      cases he

/-- **Every await keeps the discipline.** -/
theorem Inv.step (hi : Inv run s) {a : Act} (h : step run s a = some s') : Inv run s' := by
  cases a with
  | frame now f =>
    cases hphase : s.phase with
    | reading =>
      simp only [ClaudeTurn.step, hphase] at h
      exact hi.frame hphase h
    | _ => simp [ClaudeTurn.step, hphase] at h
  | publish r =>
    cases hphase : s.phase with
    | publishing q c name arguments =>
      cases r with
      | ok u =>
        simp only [ClaudeTurn.step, hphase] at h
        obtain rfl := Option.some.inj h
        exact hi.published hphase
      | error x =>
        simp only [ClaudeTurn.step, hphase] at h
        obtain rfl := Option.some.inj h
        exact hi.refused hphase x
    | _ => simp [ClaudeTurn.step, hphase] at h
  | poll r =>
    cases hphase : s.phase with
    | waiting q c =>
      simp only [ClaudeTurn.step, hphase] at h
      obtain rfl := Option.some.inj h
      exact hi.poll hphase r
    | _ => simp [ClaudeTurn.step, hphase] at h
  | send now r => exact hi.send h
  | exit r =>
    cases hphase : s.phase with
    | closing =>
      simp only [ClaudeTurn.step, hphase] at h
      obtain rfl := Option.some.inj h
      exact hi.exit hphase r
    | _ => simp [ClaudeTurn.step, hphase] at h

theorem inv_run (run : ClaudeRun) {as : List Act} (h : Steps (ClaudeTurn.step run) Free (start run) as s) :
    Inv run s :=
  h.inv (I := Inv run) (fun _ _ _ hi _ hs => hi.step hs) (inv_start run)

/-! ### The protocol -/

/-- At most the request being handled lacks its answer. -/
theorem Inv.answers (hi : Inv run s) :
    answered s.log = requests s.log ∨
      ∃ q, requests s.log = answered s.log ++ [q] ∧ (s.phase.request? = some q ∨ s.phase = .ended) := by
  have hok := hi.phaseOk
  unfold PhaseOk at hok
  cases hphase : s.phase with
  | ended =>
    rcases Allowed.answered_prefix (hi.allowed.mono fun _ _ h => h.1) with h | ⟨q, hq⟩
    · exact .inl h
    · exact .inr ⟨q, hq, .inr rfl⟩
  | reading =>
    rw [hphase] at hok
    exact .inl hok.answered
  | closing =>
    rw [hphase] at hok
    exact .inl hok
  | interrupting =>
    rw [hphase] at hok
    exact .inl hok.2.2.1
  | reminding data rest text =>
    rw [hphase] at hok
    exact .inl hok.1.answered
  | publishing q c name arguments | waiting q c =>
    rw [hphase] at hok
    exact .inr ⟨q, hok.2.2.2.1, .inl rfl⟩
  | replying q reply =>
    rw [hphase] at hok
    exact .inr ⟨q, hok.1, .inl rfl⟩

/-- **The protocol of the CLI's turn.**  Whatever the CLI writes and however `publish_call` and
`take_result` behave: one interrupt at most, after a terminal result was acknowledged; no call after a
terminal result; every `mcp_message` taken up is answered once, before the next is taken up, and all are
when `RunCompleted` is yielded; after a terminal result that event has no text, a confirmed interrupt and
a clean stop behind it; it comes after a published call where one is required; a bounded number of
reminders; and nothing after the first terminal event. -/
theorem claude_turn_protocol (run : ClaudeRun) {as : List Act} {s : ClaudeTurn}
    (h : Steps (ClaudeTurn.step run) Free (start run) as s) :
    (interrupts s.log ≤ 1 ∧ ∀ us vs, s.log = us ++ .interrupted :: vs → Acknowledged us) ∧
    (∀ us q c name arguments vs, s.log = us ++ .published q c name arguments :: vs → terminals us = 0) ∧
    (∀ us q r vs, s.log = us ++ .replied q r :: vs → requests us = answered us ++ [q]) ∧
    (answered s.log = requests s.log ∨
      ∃ q, requests s.log = answered s.log ++ [q] ∧ (s.phase.request? = some q ∨ s.phase = .ended)) ∧
    (∀ us text vs, s.log = us ++ .yielded (.runCompleted text) :: vs →
      answered us = requests us ∧
      (0 < terminals us → text = "" ∧ confirmations us = 1 ∧ CleanStop run us) ∧
      (run.toolRequired = true → callIds us ≠ [])) ∧
    turnsStarted s.log ≤ 1 + run.requiredReminders ∧
    ∀ us e vs, s.log = us ++ .yielded e :: vs → e.type.terminal = true → vs = [] := by
  have hi := inv_run run h
  have hallowed : AtEach (Allowed run.toTurnSpec) s.log := hi.allowed.mono fun _ _ h => h.1
  refine ⟨⟨Allowed.interrupts_le hallowed, ?_⟩, ?_, ?_, hi.answers, ?_, Allowed.turnsStarted_le hallowed, ?_⟩
  · intro us vs heq
    exact (hi.allowed us _ vs heq).2
  · intro us q c name arguments vs heq
    exact (hallowed us _ vs heq).2.1
  · intro us q r vs heq
    exact (hallowed us _ vs heq).2
  · intro us text vs heq
    obtain ⟨hans, hconf, hreq⟩ := (hallowed us _ vs heq).2 text rfl
    refine ⟨hans, fun hpos => ?_, hreq⟩
    obtain ⟨htext, hclean⟩ := (hi.allowed us _ vs heq).2 hpos
    exact ⟨htext, hconf hpos, hclean⟩
  · intro us e vs heq he
    exact Allowed.nil_of_closed hallowed heq he

/-! ### Sample turns -/

/-- A line read while the turn goes on. -/
theorem step_line {run : ClaudeRun} {s : ClaudeTurn} {now : Time} {raw : String} {data : Doc}
    (hphase : s.phase = .reading) (hlate : s.stopDeadline.any (· ≤ now) = false)
    (hjson : ClaudeParser.json run.parser (PyConv.stripText raw) = .ok (some data)) :
    ClaudeTurn.step run s (.frame now (.line raw)) =
      some (onData run (s.emit (.read (PyConv.stripText raw))) data) := by
  simp [ClaudeTurn.step, hphase, onFrame, hlate, onLine, hjson]

def sampleParser : ParserEnv where
  interp := ⟨100, 100, fun _ => ""⟩
  repr _ := .ok ""
  count v := match v with
    | .null => .ok none
    | .int n => .ok (some n)
    | _ => .error (.valueError "Input should be a valid integer")
  invalid _ _ := ""
  classifyFailure _ := "cli_error"
  parseResetAt _ := .ok none
  rel path := path

def sampleRun : ClaudeRun where
  runId := 1
  prompt := "p"
  toolChoice := .text "required"
  interp := ⟨100, 100, fun _ => ""⟩
  parser := sampleParser

def sampleCall : String :=
  "\x7b\"type\":\"control_request\",\"request_id\":\"r1\",\"request\":\x7b\"subtype\":\"mcp_message\"," ++
  "\"server_name\":\"broker\",\"message\":\x7b\"id\":1,\"method\":\"tools/call\"," ++
  "\"params\":\x7b\"name\":\"lookup\"\x7d\x7d\x7d\x7d"

def sampleConfirmed : String :=
  "\x7b\"type\":\"control_response\",\"response\":\x7b\"request_id\":\"broker-interrupt-1\"," ++
  "\"subtype\":\"success\"\x7d\x7d"

def sampleAborted : String :=
  "\x7b\"type\":\"result\",\"is_error\":true,\"terminal_reason\":\"aborted_tools\"\x7d"

/-- What the sample lines hold. -/
def sampleCallDoc : Doc :=
  [("type", .str "control_request"), ("request_id", .str "r1"), ("request", .obj [("subtype", .str "mcp_message"),
    ("server_name", .str "broker"), ("message", .obj [("id", .int 1), ("method", .str "tools/call"),
      ("params", .obj [("name", .str "lookup")])])])]

def sampleConfirmedDoc : Doc :=
  [("type", .str "control_response"), ("response", .obj [("request_id", .str "broker-interrupt-1"),
    ("subtype", .str "success")])]

def sampleAbortedDoc : Doc :=
  [("type", .str "result"), ("is_error", .bool true), ("terminal_reason", .str "aborted_tools")]

set_option maxRecDepth 4000 in
theorem json_sampleCall {P : ParserEnv} (hroom : P.interp.room = 100) :
    ClaudeParser.json P (PyConv.stripText sampleCall) = .ok (some sampleCallDoc) := by
  have hline : sampleCall = String.ofList (_ ++ _ ++ _) :=
    (String.ofList_append.trans (congrArg (· ++ _) String.ofList_append)).symm
  exact ClaudeParser.json_stripText _ hline rfl (hroom ▸ rfl)

set_option maxRecDepth 4000 in
theorem json_sampleConfirmed {P : ParserEnv} (hroom : P.interp.room = 100) :
    ClaudeParser.json P (PyConv.stripText sampleConfirmed) = .ok (some sampleConfirmedDoc) := by
  have hline : sampleConfirmed = String.ofList (_ ++ _) := String.ofList_append.symm
  exact ClaudeParser.json_stripText _ hline rfl (hroom ▸ rfl)

set_option maxRecDepth 4000 in
theorem json_sampleAborted {P : ParserEnv} (hroom : P.interp.room = 100) :
    ClaudeParser.json P (PyConv.stripText sampleAborted) = .ok (some sampleAbortedDoc) :=
  ClaudeParser.json_stripText _ rfl rfl (hroom ▸ rfl)

/-- The line of a call is read. -/
def sampleAsked : ClaudeTurn :=
  onData sampleRun ((start sampleRun).emit (.read (PyConv.stripText sampleCall))) sampleCallDoc

theorem sample_asked : Steps (ClaudeTurn.step sampleRun) Free (start sampleRun) [.frame 0 (.line sampleCall)] sampleAsked :=
  .single trivial (step_line rfl rfl (json_sampleCall rfl))

/-- The client's terminal result is sent on, and the interrupt after it. -/
def sampleStopping : ClaudeTurn :=
  ((execAll (ClaudeTurn.step sampleRun) sampleAsked [.publish (.ok ()), .poll (.result ⟨true, "x", true⟩), .send 0 .ok,
    .send 0 .ok]).get (by decide +kernel))

theorem sample_stopping :
    Steps (ClaudeTurn.step sampleRun) Free (start sampleRun)
      [.frame 0 (.line sampleCall), .publish (.ok ()), .poll (.result ⟨true, "x", true⟩), .send 0 .ok, .send 0 .ok]
      sampleStopping :=
  sample_asked.trans (steps_of_execAll (Option.some_get _).symm)

/-- The interrupt is confirmed. -/
def sampleStopped : ClaudeTurn :=
  onData sampleRun (sampleStopping.emit (.read (PyConv.stripText sampleConfirmed))) sampleConfirmedDoc

/-- What a sample turn leaves behind. -/
def observe (s : ClaudeTurn) : List String × ℕ × ℕ × ℕ × Bool :=
  (callIds s.log, (requests s.log).length, (answered s.log).length, confirmations s.log, closed s.log)

/-- The client's terminal result, the confirmed interrupt and the aborted turn. -/
theorem claude_turn_protocol_sample :
    ∃ s, Steps (ClaudeTurn.step sampleRun) Free (start sampleRun)
        [.frame 0 (.line sampleCall), .publish (.ok ()), .poll (.result ⟨true, "x", true⟩), .send 0 .ok,
          .send 0 .ok, .frame 1 (.line sampleConfirmed), .frame 2 (.line sampleAborted)] s ∧
      observe s = (["call_claude_1_1"], 1, 1, 1, true) ∧ interrupts s.log ≤ 1 := by
  have hconfirmed : ClaudeTurn.step sampleRun sampleStopping (.frame 1 (.line sampleConfirmed)) = some sampleStopped :=
    step_line rfl rfl (json_sampleConfirmed rfl)
  have haborted : ClaudeTurn.step sampleRun sampleStopped (.frame 2 (.line sampleAborted)) = some _ :=
    step_line rfl rfl (json_sampleAborted rfl)
  have hs := (sample_stopping.snoc trivial hconfirmed).snoc trivial haborted
  exact ⟨_, hs, by decide +kernel, (claude_turn_protocol sampleRun hs).1.1⟩

/-- The run is cancelled while the client works: the request it took up is never answered. -/
theorem claude_request_unanswered :
    ∃ s, Steps (ClaudeTurn.step sampleRun) Free (start sampleRun)
        [.frame 0 (.line sampleCall), .publish (.ok ()), .poll (.raised .cancelled)] s ∧
      observe s = (["call_claude_1_1"], 1, 0, 0, true) := by
  have hrun : (execAll (ClaudeTurn.step sampleRun) sampleAsked [.publish (.ok ()), .poll (.raised .cancelled)]).map
      observe = some (["call_claude_1_1"], 1, 0, 0, true) := by decide +kernel
  obtain ⟨s, hs, hobs⟩ := steps_of_observed hrun
  exact ⟨s, sample_asked.trans hs, hobs⟩

end ClaudeTurn

end Broker.Agent
