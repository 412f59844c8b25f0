import Broker.Agent.ClaudeProtocol

/-!
# Broker.Agent.TurnTakes — the results a Claude turn takes, and how it meets the usage limit

The ids of the calls whose results a turn took are among the ids it gave out; a turn that ends with the usage
limit has ended on an error it raised.
-/

namespace Broker.Agent

open Broker.Lib Broker.Db


/-! ### The results a turn takes -/

namespace ClaudeTurn

def took? : TurnEvent claudeWire → Option String
  | .took c _ => some c
  | _ => none

/-- The calls whose results a turn took, in order. -/
def tookIds (h : List (TurnEvent claudeWire)) : List String := h.filterMap took?

variable {run : ClaudeRun} {s s' : ClaudeTurn} {data : Doc}

@[simp] theorem tookIds_snoc (h : List (TurnEvent claudeWire)) (e : TurnEvent claudeWire) :
    tookIds (h ++ [e]) = tookIds h ++ (took? e).toList := by
  cases he : took? e <;> simp [tookIds, he]

theorem tookIds_emit {e : TurnEvent claudeWire} (he : took? e = none) :
    tookIds (s.emit e).log = tookIds s.log := by
  rw [log_emit, tookIds_snoc, he]
  simp

@[simp] theorem tookIds_emitUsage (s : ClaudeTurn) : tookIds s.emitUsage.log = tookIds s.log := by
  rcases emitUsage_cases s with h | h
  · rw [h]
  · rw [h, tookIds_emit rfl]

@[simp] theorem tookIds_close (s : ClaudeTurn) (e : StreamEvent) : tookIds (s.close e).log = tookIds s.log :=
  tookIds_emit rfl

@[simp] theorem tookIds_raise (s : ClaudeTurn) (x : TurnError) : tookIds (s.raise x).log = tookIds s.log := by
  unfold raise
  split
  · rw [tookIds_close, tookIds_emitUsage]
  · rfl

theorem tookIds_onStopped (s : ClaudeTurn) : tookIds s.onStopped.log = tookIds s.log := by
  unfold onStopped
  split_ifs
  · exact tookIds_close s _
  · exact tookIds_raise s _

theorem tookIds_onStoppedFailure (s : ClaudeTurn) (data : Doc) (item : StreamEvent) :
    tookIds (onStoppedFailure run s data item).log = tookIds s.log := by
  unfold onStoppedFailure
  simp only
  split
  · split_ifs
    · exact tookIds_onStopped s
    · exact tookIds_close s _
  · exact tookIds_raise s _

/-- The turn after an event of a line. -/
def Next.turn : Next → ClaudeTurn
  | .go s | .stop s | .remind s _ => s

theorem tookIds_onCompleted (s : ClaudeTurn) (item : StreamEvent) :
    tookIds (onCompleted run s item).turn.log = tookIds s.log := by
  unfold onCompleted
  split_ifs
  · exact tookIds_raise s (.conflict "required client tool was not called")
  · simp only
    split
    · exact tookIds_raise { s with remindersLeft := s.remindersLeft - 1 } .uncaught
    · rfl
  · exact (tookIds_close _ _).trans (tookIds_emit rfl)

theorem tookIds_onItem (s : ClaudeTurn) (item : StreamEvent) :
    tookIds (onItem run data s item).turn.log = tookIds s.log := by
  cases item with
  | toolCall c name input =>
    unfold onItem
    simp only
    split_ifs
    · rfl
    · exact tookIds_emit rfl
  | toolResult c ok output | messageDelta text =>
    unfold onItem
    simp only
    split_ifs
    · rfl
    · exact tookIds_emit rfl
  | usage u => rfl
  | runFailed cls msg reset =>
    unfold onItem
    simp only
    split_ifs
    · exact (tookIds_onStoppedFailure _ _ _).trans (tookIds_emitUsage s)
    · exact (tookIds_close _ _).trans (tookIds_emitUsage s)
  | runCompleted text =>
    unfold onItem
    simp only
    split_ifs
    · exact (tookIds_onStopped _).trans (tookIds_emitUsage s)
    · exact tookIds_onCompleted s _
  | runCancelled =>
    unfold onItem
    simp only
    split_ifs
    · exact (tookIds_onStopped _).trans (tookIds_emitUsage s)
    · exact (tookIds_close _ _).trans (tookIds_emitUsage s)
  | sessionAssigned _ | modelRerouted _ _ | modelObserved _ _ _ | fileChanged _ _ => exact tookIds_emit rfl

theorem tookIds_onItems (items : List StreamEvent) (s : ClaudeTurn) :
    tookIds (onItems run data s items).log = tookIds s.log := by
  induction items generalizing s with
  | nil => rfl
  | cons item rest ih =>
    have hitem : tookIds (onItem run data s item).turn.log = tookIds s.log := tookIds_onItem s item
    unfold onItems
    split
    · rename_i t ht
      rw [ht] at hitem
      exact (ih t).trans hitem
    · rename_i t ht
      rw [ht] at hitem
      exact hitem
    · rename_i t text ht
      rw [ht] at hitem
      exact hitem

theorem tookIds_onMcpMessage (s : ClaudeTurn) (q : McpRequest) :
    tookIds (onMcpMessage run s q).log = tookIds s.log := by
  have haccept : tookIds (s.emit (.accepted q)).log = tookIds s.log := tookIds_emit rfl
  unfold onMcpMessage
  simp only
  split_ifs
  · exact haccept
  · split
    · exact (tookIds_raise _ _).trans haccept
    · exact haccept
  · exact haccept
  · unfold onToolsCall
    split_ifs
    · exact (tookIds_raise _ _).trans haccept
    · simp only
      split
      · exact (tookIds_raise _ _).trans haccept
      · split
        · exact haccept
        · exact (tookIds_raise _ _).trans haccept
  · exact haccept
  · exact haccept

theorem tookIds_onControlRequest (s : ClaudeTurn) :
    tookIds (onControlRequest run s data).log = tookIds s.log := by
  unfold onControlRequest
  split
  · exact tookIds_raise s _
  · split
    · split_ifs
      · exact tookIds_onMcpMessage s _
      · exact tookIds_raise s _
    · exact tookIds_raise s _

theorem tookIds_onControlResponse (s : ClaudeTurn) :
    tookIds (s.onControlResponse data).log = tookIds s.log := by
  unfold onControlResponse
  split
  · exact tookIds_raise s _
  · simp only
    split_ifs
    · exact tookIds_raise s _
    · exact tookIds_raise s _
    · exact tookIds_emit rfl
    · rfl

theorem tookIds_onLine (s : ClaudeTurn) (line : String) :
    tookIds (onLine run s line).log = tookIds s.log := by
  unfold onLine
  split
  · exact tookIds_raise s _
  · rfl
  · unfold onData
    simp only
    split_ifs
    · exact tookIds_onControlResponse s
    · split
      · exact tookIds_raise s _
      · rfl
      · exact tookIds_onControlRequest s
    · exact tookIds_onControlRequest s
    · split
      · exact tookIds_raise s _
      · exact tookIds_onItems _ s

theorem tookIds_onFrame {now : Time} {f : Frame} (h : onFrame run s now f = some s') :
    tookIds s'.log = tookIds s.log := by
  unfold onFrame at h
  by_cases hlate : s.stopDeadline.any (· ≤ now) = true
  · rw [if_pos hlate] at h
    obtain rfl := Option.some.inj h
    exact tookIds_raise s _
  · rw [if_neg hlate] at h
    cases f with
    | line raw =>
      obtain rfl := Option.some.inj h
      exact (tookIds_onLine _ _).trans (tookIds_emit rfl)
    | closed =>
      obtain rfl := Option.some.inj h
      rfl
    | refused x =>
      obtain rfl := Option.some.inj h
      exact tookIds_raise s x
    | late =>
      simp only at h
      split_ifs at h
      obtain rfl := Option.some.inj h
      exact tookIds_raise s _

theorem tookIds_sending {e : TurnEvent claudeWire} {k : ClaudeTurn → ClaudeTurn} (he : took? e = none)
    (hk : ∀ t, tookIds (k t).log = tookIds t.log) (r : Sent) :
    tookIds (s.sending e k r).log = tookIds s.log := by
  cases r with
  | ok => exact (hk _).trans (tookIds_emit he)
  | lost x => exact tookIds_raise s x
  | broken x => exact (tookIds_raise _ x).trans (tookIds_emit he)

theorem tookIds_onSend {now : Time} {r : Sent} (h : onSend run s now r = some s') :
    tookIds s'.log = tookIds s.log := by
  unfold onSend at h
  split at h
  · obtain rfl := Option.some.inj h
    refine tookIds_sending rfl (fun t => ?_) r
    unfold afterReply
    split
    · exact tookIds_raise t _
    · simp only
      split_ifs <;> rfl
  · obtain rfl := Option.some.inj h
    have hinterrupt : took? (.interrupted : TurnEvent claudeWire) = none := rfl
    refine tookIds_sending hinterrupt (fun t => ?_) r
    rfl
  · obtain rfl := Option.some.inj h
    exact tookIds_sending rfl (fun t => tookIds_onItems _ t) r
  · cases h

theorem tookIds_onRefused (s : ClaudeTurn) (q : McpRequest) (c name : String) (x : TurnError) :
    tookIds (onRefused run s q c name x).log = tookIds s.log := by
  unfold onRefused
  split
  · split_ifs
    · exact tookIds_raise s _
    · exact tookIds_emit rfl
  · exact tookIds_raise s _

theorem tookIds_onExit (s : ClaudeTurn) (r : Except TurnError (ℤ × String)) :
    tookIds (onExit run s r).log = tookIds s.log := by
  unfold onExit
  split
  · exact tookIds_raise s _
  · split
    · exact (tookIds_raise _ _).trans (tookIds_emitUsage s)
    · exact (tookIds_close _ _).trans (tookIds_emitUsage s)

theorem tookIds_onPublished (s : ClaudeTurn) (q : McpRequest) (c name : String) (arguments : Val PyFloat) :
    tookIds (s.onPublished q c name arguments).log = tookIds s.log := by
  simp [onPublished, ClaudeTurn.emit, tookIds, took?]

theorem tookIds_onResult (s : ClaudeTurn) (q : McpRequest) (c : String) (r : ToolResult) :
    tookIds (s.onPoll q c (.result r)).log = tookIds s.log ++ [c] := by
  simp [onPoll, ClaudeTurn.emit, tookIds, took?]

theorem took_mem_callIds {h : List (TurnEvent claudeWire)} (hh : AtEach (ClaudeAllowed run) h) {c : String}
    (hc : c ∈ tookIds h) : c ∈ callIds h := by
  obtain ⟨e, he, hce⟩ := List.mem_filterMap.mp hc
  obtain ⟨us, vs, rfl⟩ := List.append_of_mem he
  cases e with
  | took c' r =>
    obtain rfl := Option.some.inj hce
    have hmem : c' ∈ callIds us := (hh us _ vs rfl).1.2.2
    unfold callIds at hmem ⊢
    rw [List.filterMap_append]
    exact List.mem_append_left _ hmem
  | _ => cases hce

/-- The next call of a turn is new to it. -/
theorem Inv.not_took (hi : Inv run s) {q : McpRequest} {c name : String} {arguments : Val PyFloat}
    (hphase : s.phase = .publishing q c name arguments) : c ∉ tookIds s.log := by
  intro hc
  have hok := hi.phaseOk
  rw [PhaseOk, hphase] at hok
  obtain ⟨-, -, -, -, rfl, hids⟩ := hok
  obtain ⟨k, hk, heq⟩ := hids _ (took_mem_callIds hi.allowed hc)
  rw [callId_inj heq] at hk
  exact absurd hk (lt_irrefl _)

/-! ### The usage limit -/

/-- The turn ended because the CLI hit its usage limit. -/
def quotaEnd (s : ClaudeTurn) : Bool :=
  match s.log.getLast? with
  | some (.yielded (.runFailed "quota_exhausted" _ _)) => true
  | _ => false

/-- Such a turn is over. -/
theorem Inv.ended_of_quotaEnd (hi : Inv run s) (h : quotaEnd s = true) : s.phase = .ended := by
  by_contra hphase
  have hopen := (hi.core hphase).tally.notClosed
  unfold quotaEnd at h
  split at h
  · rename_i msg reset hlast
    have hmem := List.mem_of_getLast? hlast
    have hclosed : closed s.log = true := List.any_eq_true.mpr ⟨_, hmem, rfl⟩
    rw [hopen] at hclosed
    cases hclosed
  · cases h

/-- No exception of a turn is the usage limit. -/
theorem quotaEnd_raise (hopen : closed s.log = false) (x : TurnError) : quotaEnd (s.raise x) = false := by
  cases hx : x.handled with
  | none =>
    have hlog : (s.raise x).log = s.log := by
      unfold raise
      rw [hx]
    unfold quotaEnd
    rw [hlog]
    split
    · rename_i msg reset hlast
      have hclosed : closed s.log = true := List.any_eq_true.mpr ⟨_, List.mem_of_getLast? hlast, rfl⟩
      rw [hopen] at hclosed
      cases hclosed
    · rfl
  | some e =>
    have hlog : (s.raise x).log = s.emitUsage.log ++ [.yielded e] := by
      unfold raise
      rw [hx]
      rfl
    unfold quotaEnd
    rw [hlog, List.getLast?_concat]
    cases x with
    | uncaught => cases hx
    | _ =>
      obtain rfl := Option.some.inj hx
      rfl

end ClaudeTurn

end Broker.Agent
