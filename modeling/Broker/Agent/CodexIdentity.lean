import Broker.Agent.CodexProtocol

/-!
# Broker.Agent.CodexIdentity — whose calls and completions a turn takes

A call or a completion is compared with `turn_id`, which is `None` before the server assigned the first
turn and again after each reminder.  A message that names no turn then passes the comparison
(`codex_call_before_turn`); as long as none arrives in those windows, every call published and every
completion taken is of the current turn.
-/

namespace Broker.Agent

open Broker.Lib Broker.Db

namespace CodexTurn

/-- The current turn: what the server assigned in reply to the last `turn/start`. -/
def CurrentTurn (h : List (TurnEvent codexWire)) (t : String) : Prop :=
  ∃ us start vs m, h = us ++ .started start :: vs ∧ (∀ e ∈ vs, e.isStart = false) ∧ .read m ∈ vs ∧
    isResponse m start.request = true ∧ assignedTurn m = some (.str t)

/-- The id of the turn a completion names. -/
def completedTurn (m : Doc) : Option (Val PyFloat) :=
  (m.get "params").orDict.bind fun p => (Doc.get p "turn").orDict.map fun turn => Doc.get turn "id"

/-- The thread a completion names. -/
def completedThread (m : Doc) :
    Option (Val PyFloat) := (m.get "params").orDict.map fun p => Doc.get p "threadId"

/-- Whose calls are published, and whose completions are taken. -/
def Identified (run : CodexRun) (h : List (TurnEvent codexWire)) : TurnEvent codexWire → Prop
  | .published q _ _ _ => q.threadId = .str run.threadId ∧ ∃ t, q.turnId = .str t ∧ CurrentTurn h t
  | .completed m =>
    (completedThread m = some .null ∨ completedThread m = some (.str run.threadId)) ∧
      ∃ t, completedTurn m = some (.str t) ∧ CurrentTurn h t
  | _ => True

/-- A call to this thread, or a completion, that names no turn. -/
def unnamed (run : CodexRun) (m : Doc) : Bool :=
  match (m.get "params").orDict with
  | none => false
  | some p =>
    ((m.get "method").isText "item/tool/call" && (p.get "threadId").isText run.threadId && (p.get "turnId").isNull) ||
      ((m.get "method").isText "turn/completed" &&
        (Doc.get p "turn").orDict.any fun turn => (Doc.get turn "id").isNull)

/-- **The condition on a step**: while no turn is assigned, no call and no completion that names none
arrives. -/
def NamesTurn (run : CodexRun) (s : CodexTurn) : Act → Prop
  | .frame _ (.message m) => s.turnId = none → unnamed run m = false
  | _ => True

instance (run : CodexRun) (s : CodexTurn) (a : Act) : Decidable (NamesTurn run s a) := by
  unfold NamesTurn
  split <;> infer_instance

/-! ### The invariant -/

/-- The last `turn/start` is that of `turn_request`, and `turn_id` is what its reply assigned. -/
def Assigned (s : CodexTurn) : Prop :=
  ∃ us text vs, s.log = us ++ .started ⟨s.turnRequest, text⟩ :: vs ∧ (∀ e ∈ vs, e.isStart = false) ∧
    ∀ t, s.turnId = some t → ∃ m, .read m ∈ vs ∧ isResponse m s.turnRequest = true ∧
      assignedTurn m = some (.str t)

structure Known (run : CodexRun) (s : CodexTurn) : Prop where
  identified : AtEach (Identified run) s.log
  assigned : s.phase ≠ .ended → (∀ text, s.phase ≠ .reminding text) → s.Assigned
  reminding : ∀ text, s.phase = .reminding text → s.turnId = none
  publishing : ∀ q, s.phase = .publishing q →
    q.threadId = .str run.threadId ∧ ∃ t, q.turnId = .str t ∧ s.turnId = some t

variable {run : CodexRun} {s s' : CodexTurn}

/-- At an await that is not the send of a reminder. -/
theorem Known.assignedAt (hk : Known run s) {p : CodexPhase} (hphase : s.phase = p) (hp : p ≠ .ended)
    (hrem : ∀ text, p ≠ .reminding text) : s.Assigned := by
  refine hk.assigned (by rwa [hphase]) fun text => ?_
  rw [hphase]
  exact hrem text

theorem known_start (run : CodexRun) : Known run (start run) := by
  refine ⟨AtEach.snoc AtEach.nil trivial, fun _ _ => ?_, fun _ h => (by cases h), fun _ h => (by cases h)⟩
  exact ⟨[], run.prompt, [], rfl, by simp, fun _ h => (by cases h)⟩

theorem Assigned.currentTurn (h : s.Assigned) {t : String} (ht : s.turnId = some t) :
    CurrentTurn s.log t := by
  obtain ⟨us, text, vs, hlog, hvs, hturn⟩ := h
  obtain ⟨m, hm, hreply, hassigned⟩ := hturn t ht
  exact ⟨us, ⟨s.turnRequest, text⟩, vs, m, hlog, hvs, hm, hreply, hassigned⟩

/-- What comes after the last start and is no start itself leaves the current turn alone. -/
theorem Assigned.emit (h : s.Assigned) {e : TurnEvent codexWire} (he : e.isStart = false) :
    (s.emit e).Assigned := by
  obtain ⟨us, text, vs, hlog, hvs, hturn⟩ := h
  refine ⟨us, text, vs ++ [e], ?_, ?_, ?_⟩
  · rw [log_emit, hlog]
    simp [CodexTurn.emit]
  · intro e' he'
    rcases List.mem_append.mp he' with he' | he'
    · exact hvs e' he'
    · rw [List.mem_singleton.mp he']
      exact he
  · intro t ht
    obtain ⟨m, hm, hreply, hassigned⟩ := hturn t ht
    exact ⟨m, List.mem_append_left _ hm, hreply, hassigned⟩

/-- A turn that ended keeps only its history. -/
theorem known_ended (hlog : AtEach (Identified run) s.log) (hphase : s.phase = .ended) : Known run s := by
  refine ⟨hlog, fun h => absurd hphase h, fun text h => ?_, fun q h => ?_⟩
  · rw [hphase] at h
    cases h
  · rw [hphase] at h
    cases h

theorem known_raise (hlog : AtEach (Identified run) s.log) (x : TurnError) : Known run (s.raise x) := by
  unfold raise
  split
  · exact known_ended (hlog.snoc trivial) rfl
  · exact known_ended hlog rfl

/-- A turn that is neither at `publish_call` nor about to start. -/
theorem known_of_assigned (hlog : AtEach (Identified run) s.log) (h : s.Assigned)
    (hrem : ∀ text, s.phase ≠ .reminding text) (hpub : ∀ q, s.phase ≠ .publishing q) : Known run s :=
  ⟨hlog, fun _ _ => h, fun text ht => absurd ht (hrem text), fun q hq => absurd hq (hpub q)⟩

theorem known_finish (hlog : AtEach (Identified run) s.log) (text : String) : Known run (s.finish text) := by
  refine known_ended (AtEach.snoc ?_ trivial) rfl
  rcases emitUsage_cases s with h | ⟨u, h⟩
  · rw [h]
    exact hlog
  · rw [h]
    exact hlog.snoc trivial

theorem known_afterCompletion (hlog : AtEach (Identified run) s.log) : Known run (afterCompletion run s) := by
  unfold afterCompletion
  split_ifs
  · exact known_finish hlog _
  · exact known_raise hlog _
  · exact known_raise hlog _
  · unfold remind
    simp only
    split
    · exact @known_raise run { s with
        remindersLeft := s.remindersLeft - 1
        oldTurnRequests := s.turnRequest :: s.oldTurnRequests
        turnRequest := s.turnRequest + 1
        turnId := none } hlog _
    · rename_i text htext
      refine ⟨hlog, fun _ h => absurd rfl (h text), fun _ _ => rfl, fun q h => (by cases h)⟩
  · exact known_finish hlog _

/-- A taken completion names the current turn, unless none is assigned. -/
theorem identified_completed {m : Doc} (hass : s.Assigned) (hmethod : m.get "method" = .str "turn/completed")
    (hnamed : s.turnId = none → unnamed run m = false) (hturn : OwnTurn run s m) :
    Identified run s.log (.completed m) := by
  obtain ⟨p, turn, hp, hpturn, hthread, hid⟩ := hturn
  have hthread' : Doc.get p "threadId" = .null ∨ Doc.get p "threadId" = .str run.threadId := by
    simp only [isForeign, Bool.not_eq_false', Bool.or_eq_true] at hthread
    rcases hthread with h | h
    · exact .inl (Val.isNull_iff.mp h)
    · exact .inr (Val.isOptText_some.mp h)
  refine ⟨by simpa [completedThread, hp] using hthread', ?_⟩
  cases ht : s.turnId with
  | some t =>
    rw [ht] at hid
    exact ⟨t, by simp [completedTurn, hp, hpturn, Val.isOptText_some.mp hid], hass.currentTurn ht⟩
  | none =>
    rw [ht] at hid
    have hunnamed : unnamed run m = true := by
      simp [unnamed, hp, hmethod, hpturn, Val.isText, Val.isOptText_none.mp hid, Val.isNull]
    rw [hnamed ht] at hunnamed
    cases hunnamed

/-- The message just read came after the last start. -/
theorem read_mem {h us vs : List (TurnEvent codexWire)} {m : Doc} {start : TurnStart}
    (heq : h ++ [.read m] = us ++ .started start :: vs) : .read m ∈ vs := by
  rcases List.eq_nil_or_concat vs with rfl | ⟨ws, e, rfl⟩
  · have hlast := (List.append_inj' heq rfl).2
    cases hlast
  · have heq' : h ++ [.read m] = (us ++ .started start :: ws) ++ [e] := by simpa using heq
    obtain rfl : .read m = e := by simpa using (List.append_inj' heq' rfl).2
    simp

theorem Known.move (hk : Known run s) (hphase : s.phase = .reading) {m : Doc}
    (hread : ∃ h, s.log = h ++ [.read m])
    (hnamed : s.turnId = none → unnamed run m = false) (h : Move run s m s') : Known run s' := by
  have hass : s.Assigned := hk.assignedAt hphase (by simp) (by simp)
  have hrem : ∀ text, s.phase ≠ .reminding text := by rw [hphase]; simp
  have hpub : ∀ q, s.phase ≠ .publishing q := by rw [hphase]; simp
  cases h with
  | raised x => exact known_raise hk.identified x
  | noted text usage => exact known_of_assigned hk.identified hass hrem hpub
  | confirmed hstop hnew => exact known_of_assigned (hk.identified.snoc (by trivial)) (hass.emit rfl) hrem hpub
  | assigned t hreply hnone ht =>
    obtain ⟨us, text, vs, hlog, hvs, -⟩ := hass
    refine known_of_assigned hk.identified ⟨us, text, vs, hlog, hvs, fun t' ht' => ⟨m, ?_, hreply, ?_⟩⟩ hrem hpub
    · obtain ⟨h, hh⟩ := hread
      exact read_mem (hh.symm.trans hlog)
    · obtain rfl : t = t' := Option.some.inj ht'
      exact ht
  | accepted q key hstop hthread hturn hkey hnew hcall hmethod hparams =>
    refine ⟨hk.identified.snoc (by trivial), fun _ _ => hass.emit rfl, fun _ h => (by cases h), fun q' hq' => ?_⟩
    obtain rfl : q = q' := CodexPhase.publishing.inj hq'
    refine ⟨hthread, ?_⟩
    cases ht : s.turnId with
    | some t =>
      rw [ht] at hturn
      exact ⟨t, Val.isOptText_some.mp hturn, ht⟩
    | none =>
      obtain ⟨p, hp, hpthread, hpturn⟩ := hparams
      rw [ht] at hturn
      have hunnamed : unnamed run m = true := by
        simp [unnamed, hp, hmethod, ← hpthread, ← hpturn, hthread, Val.isText, Val.isOptText_none.mp hturn,
          Val.isNull]
      rw [hnamed ht] at hunnamed
      cases hunnamed
  | rerouted a b x => exact @known_raise run (s.emit _) (hk.identified.snoc (by trivial)) x
  | completed hmethod hturn =>
    exact known_afterCompletion (hk.identified.snoc (identified_completed hass hmethod hnamed hturn))

theorem Known.frame (hk : Known run s) (hphase : s.phase = .reading) {now : Time} {f : Frame}
    (hnamed : NamesTurn run s (.frame now f)) (h : onFrame run s now f = some s') : Known run s' := by
  unfold onFrame at h
  by_cases hlate : s.stopDeadline.any (· ≤ now) = true
  · rw [if_pos hlate] at h
    obtain rfl := Option.some.inj h
    exact known_raise hk.identified _
  · rw [if_neg hlate] at h
    cases f with
    | message m =>
      obtain rfl := Option.some.inj h
      have hass : s.Assigned := hk.assignedAt hphase (by simp) (by simp)
      have hread : Known run (s.emit (.read m)) :=
        known_of_assigned (hk.identified.snoc (by trivial)) (hass.emit rfl) (fun t h => by simp [emit, hphase] at h)
          (fun q h => by simp [emit, hphase] at h)
      exact hread.move hphase ⟨s.log, rfl⟩ hnamed (onMessage_move _ m)
    | closed | refused msg =>
      obtain rfl := Option.some.inj h
      exact known_raise hk.identified _
    | late =>
      simp only at h
      split_ifs at h
      obtain rfl := Option.some.inj h
      exact known_raise hk.identified _

theorem Known.published (hk : Known run s) {q : ToolRequest} (hphase : s.phase = .publishing q) :
    Known run (s.onPublished q) := by
  have hass : s.Assigned := hk.assignedAt hphase (by simp) (by simp)
  obtain ⟨hthread, t, hturn, ht⟩ := hk.publishing q hphase
  have hev : Identified run s.log (.published q q.callId q.name (q.arguments.getD .null)) :=
    ⟨hthread, t, hturn, hass.currentTurn ht⟩
  have hlog := hk.identified.snoc hev
  unfold onPublished
  simp only
  split
  · exact @known_raise run { s.emit _ with calls := s.calls + 1 } hlog _
  · rename_i v hv
    have hass' : ({ s.emit (.published q q.callId q.name (q.arguments.getD .null)) with
        calls := s.calls + 1 } : CodexTurn).Assigned := hass.emit rfl
    exact known_of_assigned (hlog.snoc (by trivial)) (hass'.emit rfl) (fun _ h => by cases h)
      (fun _ h => by cases h)

theorem Known.refused (hk : Known run s) {q : ToolRequest} (hphase : s.phase = .publishing q)
    (x : TurnError) :
    Known run (onRefused run s q x) := by
  have hass : s.Assigned := hk.assignedAt hphase (by simp) (by simp)
  unfold onRefused
  split
  · split_ifs
    · exact known_raise hk.identified _
    · exact known_of_assigned hk.identified hass (fun _ h => by cases h) (fun _ h => by cases h)
  · exact known_raise hk.identified _

theorem Known.poll (hk : Known run s) {q : ToolRequest} (hphase : s.phase = .waiting q) (r : Poll) :
    Known run (s.onPoll q r) := by
  have hass : s.Assigned := hk.assignedAt hphase (by simp) (by simp)
  cases r with
  | result r =>
    exact known_of_assigned (hk.identified.snoc (by trivial)) (hass.emit rfl) (fun _ h => by cases h)
      (fun _ h => by cases h)
  | pending => exact hk
  | stopped => exact known_raise hk.identified (.conflict _)
  | raised x => exact known_raise hk.identified x

/-- A send whose event is neither a call nor a completion. -/
theorem known_sending (hk : Known run s) {e : TurnEvent codexWire} (he : Identified run s.log e)
    {k : CodexTurn → CodexTurn} (hok : Known run (k (s.emit e))) (r : Sent) :
      Known run (s.sending e k r) := by
  cases r with
  | ok => exact hok
  | lost x => exact known_raise hk.identified x
  | broken x => exact @known_raise run (s.emit e) (hk.identified.snoc he) x

theorem Known.send (hk : Known run s) {now : Time} {r : Sent} (h : s.onSend now r = some s') :
    Known run s' := by
  unfold onSend at h
  cases hphase : s.phase with
  | rejecting q text =>
    have hass : s.Assigned := hk.assignedAt hphase (by simp) (by simp)
    rw [hphase] at h
    obtain rfl := Option.some.inj h
    refine known_sending hk (by trivial) ?_ r
    exact known_of_assigned ((hk.identified.snoc (by trivial)).snoc (by trivial)) ((hass.emit rfl).emit rfl)
      (fun _ h => by cases h) (fun _ h => by cases h)
  | replying q res =>
    have hass : s.Assigned := hk.assignedAt hphase (by simp) (by simp)
    rw [hphase] at h
    obtain rfl := Option.some.inj h
    refine known_sending hk (by trivial) ?_ r
    simp only
    split_ifs
    · exact known_of_assigned ((hk.identified.snoc (by trivial)).snoc (by trivial)) ((hass.emit rfl).emit rfl)
        (fun _ h => by cases h) (fun _ h => by cases h)
    · exact known_of_assigned ((hk.identified.snoc (by trivial)).snoc (by trivial)) ((hass.emit rfl).emit rfl)
        (fun _ h => by cases h) (fun _ h => by cases h)
  | interrupting =>
    have hass : s.Assigned := hk.assignedAt hphase (by simp) (by simp)
    rw [hphase] at h
    obtain rfl := Option.some.inj h
    refine known_sending hk (by trivial) ?_ r
    exact known_of_assigned (hk.identified.snoc (by trivial)) (hass.emit rfl) (fun _ h => by cases h)
      (fun _ h => by cases h)
  | reminding text =>
    have hnone := hk.reminding text hphase
    rw [hphase] at h
    obtain rfl := Option.some.inj h
    refine known_sending hk (by trivial) ?_ r
    refine known_of_assigned (hk.identified.snoc (by trivial)) ⟨s.log, text, [], rfl, by simp, fun t ht => ?_⟩
      (fun _ h => by cases h) (fun _ h => by cases h)
    have ht' : s.turnId = some t := ht
    rw [hnone] at ht'
    cases ht'
  | _ =>
    rw [hphase] at h
    cases h

theorem Known.step (hk : Known run s) {a : Act} (hnamed : NamesTurn run s a) (h : step run s a = some s') :
    Known run s' := by
  cases a with
  | frame now f =>
    cases hphase : s.phase with
    | reading =>
      simp only [CodexTurn.step, hphase] at h
      exact hk.frame hphase hnamed h
    | _ => simp [CodexTurn.step, hphase] at h
  | publish r =>
    cases hphase : s.phase with
    | publishing q =>
      cases r with
      | ok u =>
        simp only [CodexTurn.step, hphase] at h
        obtain rfl := Option.some.inj h
        exact hk.published hphase
      | error x =>
        simp only [CodexTurn.step, hphase] at h
        obtain rfl := Option.some.inj h
        exact hk.refused hphase x
    | _ => simp [CodexTurn.step, hphase] at h
  | poll r =>
    cases hphase : s.phase with
    | waiting q =>
      simp only [CodexTurn.step, hphase] at h
      obtain rfl := Option.some.inj h
      exact hk.poll hphase r
    | _ => simp [CodexTurn.step, hphase] at h
  | send now r => exact hk.send h

/-! ### Turn identity -/

/-- **Turn identity, where it holds**: in every run that no unnamed call or completion enters while no
turn is assigned, every published call names this thread and the current turn, and every completion taken
names the current turn and no other thread. -/
theorem codex_turn_identity (run : CodexRun) {as : List Act} {s : CodexTurn}
    (h : Steps (CodexTurn.step run) (NamesTurn run) (start run) as s) :
    (∀ us q c name arguments vs, s.log = us ++ .published q c name arguments :: vs →
      q.threadId = .str run.threadId ∧ ∃ t, q.turnId = .str t ∧ CurrentTurn us t) ∧
    ∀ us m vs, s.log = us ++ .completed m :: vs →
      (completedThread m = some .null ∨ completedThread m = some (.str run.threadId)) ∧
        ∃ t, completedTurn m = some (.str t) ∧ CurrentTurn us t := by
  have hk : Known run s :=
    h.inv (I := Known run) (fun _ _ _ hk hnamed hs => hk.step hnamed hs) (known_start run)
  refine ⟨fun us q c name arguments vs heq => ?_, fun us m vs heq => ?_⟩
  · exact hk.identified us _ vs heq
  · exact hk.identified us _ vs heq

/-- A call of the assigned turn. -/
theorem codex_turn_identity_sample :
    ∃ s, Steps (CodexTurn.step sampleRun) (NamesTurn sampleRun) (start sampleRun)
        [.frame 0 (.message sampleAssigned), .frame 0 (.message (sampleCall [("turnId", .str "t1")])),
          .publish (.ok ())] s ∧ observe s = (["c1"], 1, 0, false, false) ∧
      ∀ us q c name arguments vs, s.log = us ++ .published q c name arguments :: vs →
        q.threadId = .str "th" ∧ ∃ t, q.turnId = .str t ∧ CurrentTurn us t := by
  have hrun : (execAll (guarded (CodexTurn.step sampleRun) (NamesTurn sampleRun)) (start sampleRun)
      [.frame 0 (.message sampleAssigned), .frame 0 (.message (sampleCall [("turnId", .str "t1")])),
        .publish (.ok ())]).map observe = some (["c1"], 1, 0, false, false) := by decide
  obtain ⟨s, hs, hobs⟩ := steps_of_observed hrun
  exact ⟨s, hs.of_guarded, hobs, (codex_turn_identity sampleRun hs.of_guarded).1⟩

/-- The request a server sends without `turnId`. -/
def unnamedRequest : ToolRequest := ⟨.int 7, .str "th", .null, "c1", "answer", some (.obj [])⟩

/-- A call without `turnId` that arrives before the server assigned a turn is published. -/
theorem codex_call_before_turn :
    ∃ s us vs, Steps (CodexTurn.step sampleRun) Free (start sampleRun)
        [.frame 0 (.message (sampleCall [])), .publish (.ok ())] s ∧
      s.log = us ++ .published unnamedRequest "c1" "answer" (.obj []) :: vs ∧
      ¬ ∃ t, unnamedRequest.turnId = .str t ∧ CurrentTurn us t := by
  refine ⟨_, [.started ⟨3, "p"⟩, .read (sampleCall []), .accepted unnamedRequest],
    [.yielded (.toolCall "c1" "answer" [])], steps_of_execAll rfl, rfl, ?_⟩
  rintro ⟨t, ht, -⟩
  cases ht

end CodexTurn

end Broker.Agent
