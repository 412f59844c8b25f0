import Mathlib.Tactic.Linarith
import Broker.Agent.ClaudeProtocol
import Broker.Agent.ClaudeUsage

/-!
# Broker.Agent.UsageReports — how often a turn of the Claude CLI reports what it spent

The turn adds up the counters of the `result` lines and yields the sum where it ends.  Every handler of an
exception reports the sum once more, so an end that raises after a report reports twice.  The executor reads
the events from a queue until something stops it; a sum left in the queue is not recorded.
-/

namespace Broker.Agent

open Broker.Lib Broker.Db

namespace ClaudeTurn

open ClaudeParser

/-! ### What is fed, parsed and yielded -/

def usage? : TurnEvent claudeWire → Option Usage
  | .yielded (.usage u) => some u
  | _ => none

/-- The usage events of a turn. -/
def yieldedUsages (h : List (TurnEvent claudeWire)) : List Usage := h.filterMap usage?

def yielded? : TurnEvent claudeWire → Option StreamEvent
  | .yielded e => some e
  | _ => none

/-- The events of a turn, as `_stream` finds them in its queue. -/
def yieldedEvents (h : List (TurnEvent claudeWire)) : List StreamEvent := h.filterMap yielded?

def linesRead (h : List (TurnEvent claudeWire)) : List String := h.filterMap read?

variable (run : ClaudeRun)

/-- What a line says was spent. -/
def lineSpent (line : String) : List Usage :=
  match json run.parser line with
  | .ok (some data) => spentBy run.parser data
  | _ => []

/-- What the parser returns of it: nothing where it raises. -/
def lineUsages (line : String) : List Usage :=
  match json run.parser line with
  | .ok (some data) =>
    match feed run.parser (some data) with
    | .ok items => usagesOf items
    | .error _ => []
  | _ => []

def fedUsages (lines : List String) : List Usage := lines.flatMap (lineSpent run)

def parsedUsages (lines : List String) : List Usage := lines.flatMap (lineUsages run)

/-- The line is a `result` that completes a turn. -/
def Completes (line : String) : Prop :=
  ∃ data items text, json run.parser line = .ok (some data) ∧ feed run.parser (some data) = .ok items ∧
    .runCompleted text ∈ items

/-- **Where a turn reports what it spent, and then raises**: a `result` completes the turn after the interrupt
was sent and before it was confirmed, or `finish` raises at the end of the output. -/
def Twice (s : ClaudeTurn) : Act → Prop
  | .frame now (.line raw) => s.stopDeadline.any (· ≤ now) = false ∧ s.stopDeadline.isSome = true ∧
      s.interruptConfirmed = false ∧ Completes run (PyConv.stripText raw)
  | .exit (.ok (rc, stderr)) => ∃ x, finish run.parser rc stderr = .error x ∧ x.handled.isSome = true
  | _ => False

/-- A `result` completes the run: it reports whatever it has. -/
def OnItsOwn (s : ClaudeTurn) : Act → Prop
  | .frame _ (.line raw) =>
    s.stopDeadline = none ∧ ¬ (s.calls = 0 ∧ run.toolRequired = true) ∧ Completes run (PyConv.stripText raw)
  | _ => False

/-- The line a step reads. -/
def linesOf (s : ClaudeTurn) : Act → List String
  | .frame now (.line raw) => if s.stopDeadline.any (· ≤ now) then [] else [PyConv.stripText raw]
  | _ => []

/-- How often the sum is yielded by a handler. -/
def flush (u : Usage) : ℕ := (counted u).toNat

/-- How often the sum is yielded by a turn. -/
inductive Flushes (twice own : Prop) (u : Usage) : ℕ → Prop
  | own (h : own) : Flushes twice own u 1
  | twice (hown : ¬ own) (h : twice) : Flushes twice own u (flush u + flush u)
  | once (hown : ¬ own) (h : ¬ twice) : Flushes twice own u (flush u)

/-- The sum and what is left of a line make up what was parsed; the sum was yielded `m` times. -/
structure Spent (lines : List String) (us : List Usage) (m : ℕ) (s : ClaudeTurn) : Prop where
  reads : linesRead s.log = lines
  said : yieldedUsages s.log = List.replicate m s.usage
  usage : ∀ c, total c (parsedUsages run lines) = s.usage.count c + total c us
  reported : (∃ u ∈ parsedUsages run lines, counted u = true) ↔
    counted s.usage = true ∨ ∃ u ∈ us, counted u = true
  bare : s.usage.totalTokens = none ∧ s.usage.reasoningTokens = none

/-- Before the end of the turn. -/
structure Running (lines : List String) (us : List Usage) (m : ℕ) (s : ClaudeTurn) : Prop
    extends Spent run lines us m s where
  opened : closed s.log = false

/-- Where a step leaves a turn. -/
inductive Outcome (lines : List String) (twice own : Prop) (s : ClaudeTurn) : Prop
  | live (h : Running run lines [] 0 s) (hphase : s.phase ≠ .ended)
      (hrest : ∀ data rest text, s.phase = .reminding data rest text → rest = [])
  | escaped (h : closed s.log = false) (hphase : s.phase = .ended)
  | closed {m : ℕ} (h : Spent run lines [] m s) (hm : Flushes twice own s.usage m) (hphase : s.phase = .ended)

/-- At an await. -/
structure Idle (s : ClaudeTurn) : Prop where
  running : Running run (linesRead s.log) [] 0 s
  rest : ∀ data rest text, s.phase = .reminding data rest text → rest = []
  whole : parsedUsages run (linesRead s.log) = fedUsages run (linesRead s.log)

variable {run} {s s' : ClaudeTurn} {lines : List String} {us : List Usage} {m : ℕ} {twice own : Prop}
  {data : Doc}

@[simp] theorem linesRead_snoc (h : List (TurnEvent claudeWire)) (e : TurnEvent claudeWire) :
    linesRead (h ++ [e]) = linesRead h ++ (read? e).toList := by
  cases he : read? e <;> simp [linesRead, he]

@[simp] theorem yieldedUsages_snoc (h : List (TurnEvent claudeWire)) (e : TurnEvent claudeWire) :
    yieldedUsages (h ++ [e]) = yieldedUsages h ++ (usage? e).toList := by
  cases he : usage? e <;> simp [yieldedUsages, he]

theorem parsedUsages_snoc (lines : List String) (line : String) :
    parsedUsages run (lines ++ [line]) = parsedUsages run lines ++ lineUsages run line := by
  simp [parsedUsages]

theorem fedUsages_snoc (lines : List String) (line : String) :
    fedUsages run (lines ++ [line]) = fedUsages run lines ++ lineSpent run line := by
  simp [fedUsages]

theorem count_addUsage (u v : Usage) (c : Counter) : (addUsage u v).count c = u.count c + v.count c := by
  have hcount : ∀ a b : Option ℤ, (addCount a b).getD 0 = a.getD 0 + b.getD 0 := by
    intro a b
    cases a <;> cases b <;> simp [addCount]
  cases c <;> exact hcount _ _

theorem counted_addUsage (u v : Usage) : counted (addUsage u v) = (counted u || counted v) := by
  have hsome : ∀ a b : Option ℤ, (addCount a b).isSome = (a.isSome || b.isSome) := by
    intro a b
    cases a <;> cases b <;> rfl
  simp only [counted, addUsage, hsome]
  cases u.inputTokens.isSome <;> cases u.outputTokens.isSome <;> cases v.inputTokens.isSome <;>
    cases v.outputTokens.isSome <;> simp

theorem emitUsage_usage (s : ClaudeTurn) : s.emitUsage.usage = s.usage := by
  rcases emitUsage_cases s with h | h
  · rw [h]
  · rw [h]
    rfl

/-! ### Reports -/

theorem Running.emit (h : Running run lines us m s) {e : TurnEvent claudeWire} (hread : read? e = none)
    (husage : usage? e = none) (hlast : e.isLast = false) : Running run lines us m (s.emit e) := by
  refine ⟨⟨?_, ?_, h.usage, h.reported, h.bare⟩, ?_⟩
  · rw [log_emit, linesRead_snoc, hread, h.reads]
    simp
  · rw [log_emit, yieldedUsages_snoc, husage, h.said]
    simp [ClaudeTurn.emit]
  · rw [log_emit, closed_snoc, h.opened, hlast]
    rfl

theorem Running.emitUsage (h : Running run lines us m s) :
    Running run lines us (m + flush s.usage) s.emitUsage := by
  unfold ClaudeTurn.emitUsage
  split_ifs with hc
  · have hflush : flush s.usage = 1 := by rw [flush, hc]; rfl
    refine ⟨⟨?_, ?_, h.usage, h.reported, h.bare⟩, ?_⟩
    · rw [log_emit, linesRead_snoc, h.reads]
      simp [read?]
    · rw [log_emit, yieldedUsages_snoc, h.said, hflush, List.replicate_succ']
      rfl
    · rw [log_emit, closed_snoc, h.opened]
      rfl
  · have hflush : flush s.usage = 0 := by
      rw [flush, Bool.eq_false_iff.mpr hc]
      rfl
    rw [hflush]
    exact h

/-- The end of a turn that yields its last event. -/
theorem Running.close (h : Running run lines [] m s) {e : StreamEvent}
    (he : usage? (.yielded e : TurnEvent claudeWire) = none)
    (hm : Flushes twice own s.usage m) : Outcome run lines twice own (s.close e) := by
  refine .closed (m := m) ⟨?_, ?_, h.usage, h.reported, h.bare⟩ hm rfl
  · have hlog : (s.close e).log = s.log ++ [.yielded e] := rfl
    rw [hlog, linesRead_snoc, h.reads]
    simp [read?]
  · have hlog : (s.close e).log = s.log ++ [.yielded e] := rfl
    rw [hlog, yieldedUsages_snoc, he, h.said]
    simp [ClaudeTurn.close, ClaudeTurn.emit]

theorem handled_usage {x : TurnError} {e : StreamEvent} (h : x.handled = some e) :
    usage? (.yielded e : TurnEvent claudeWire) = none := by
  cases x with
  | uncaught => cases h
  | _ =>
    obtain rfl := Option.some.inj h
    rfl

/-- A handler reports the sum once more. -/
theorem Running.raise (h : Running run lines [] m s) (x : TurnError)
    (hm : x.handled.isSome = true → Flushes twice own s.usage (m + flush s.usage)) :
    Outcome run lines twice own (s.raise x) := by
  unfold ClaudeTurn.raise
  split
  · rename_i e he
    refine h.emitUsage.close (handled_usage he) ?_
    rw [emitUsage_usage]
    exact hm (by rw [he]; rfl)
  · exact .escaped h.opened rfl

/-- An exception before any report. -/
theorem Running.raiseFirst (h : Running run lines [] 0 s) (htwice : ¬ twice) (hown : ¬ own) (x : TurnError) :
    Outcome run lines twice own (s.raise x) := by
  refine h.raise x fun _ => ?_
  rw [Nat.zero_add]
  exact .once hown htwice

/-- Back at an await, not to send a reminder. -/
theorem Running.live (h : Running run lines [] 0 s) (hphase : s.phase ≠ .ended)
    (hrest : ∀ data rest text, s.phase ≠ .reminding data rest text) : Outcome run lines twice own s :=
  .live h hphase fun data rest text heq => absurd heq (hrest data rest text)

/-! ### The events of a line -/

/-- A failure after the interrupt was sent reports once. -/
theorem Running.onStoppedFailure (h : Running run lines [] 0 s) (htwice : ¬ twice) (hown : ¬ own)
    {item : StreamEvent} (hitem : usage? (.yielded item : TurnEvent claudeWire) = none) :
    Outcome run lines twice own (onStoppedFailure run s.emitUsage data item) := by
  have hflush : Running run lines [] (flush s.emitUsage.usage) s.emitUsage := by
    rw [emitUsage_usage, ← Nat.zero_add (flush s.usage)]
    exact h.emitUsage
  have hm : Flushes twice own s.emitUsage.usage (flush s.emitUsage.usage) := .once hown htwice
  unfold ClaudeTurn.onStoppedFailure
  simp only
  split
  · split_ifs with hclean
    · rw [Bool.and_eq_true] at hclean
      unfold ClaudeTurn.onStopped
      rw [if_pos hclean.1]
      exact hflush.close rfl hm
    · exact hflush.close hitem hm
  · exact .escaped hflush.opened rfl

/-- A terminal event after the interrupt was sent reports twice where the interrupt is not confirmed. -/
theorem Running.onStopped (h : Running run lines [] 0 s) (hown : ¬ own)
    (htwice : twice ↔ s.interruptConfirmed = false) : Outcome run lines twice own s.emitUsage.onStopped := by
  have hflush : Running run lines [] (flush s.emitUsage.usage) s.emitUsage := by
    rw [emitUsage_usage, ← Nat.zero_add (flush s.usage)]
    exact h.emitUsage
  have hconf : s.emitUsage.interruptConfirmed = s.interruptConfirmed := by
    rcases emitUsage_cases s with h | h
    · rw [h]
    · rw [h]
      rfl
  unfold ClaudeTurn.onStopped
  split_ifs with hc
  · have hnot : ¬ twice := by
      rw [htwice, ← hconf, hc]
      simp
    exact hflush.close rfl (.once hown hnot)
  · have htrue : twice := by
      rw [htwice, ← hconf]
      simpa using hc
    exact hflush.raise _ fun _ => .twice hown htrue

/-- What one event of a line leaves to those after it. -/
def Next.Reports (run : ClaudeRun) (lines : List String) (twice own : Prop) (item : StreamEvent)
    (rest : List StreamEvent) (s : ClaudeTurn) : Next → Prop
  | .go t => (∀ text, item ≠ .runCompleted text) ∧ Running run lines (usagesOf rest) 0 t ∧
      t.stopDeadline = s.stopDeadline ∧ t.interruptConfirmed = s.interruptConfirmed ∧ t.calls = s.calls
  | .stop t => Outcome run lines twice own t
  | .remind t _ => Running run lines [] 0 t ∧ rest = []

/-- A turn that completes on its own yields the sum, reported or not. -/
theorem Running.onCompleted (h : Running run lines [] 0 s) (htwice : ¬ twice)
    (hown : own ↔ ¬ (s.calls = 0 ∧ run.toolRequired = true)) (text : String) :
    (onCompleted run s (.runCompleted text)).Reports run lines twice own (.runCompleted text) [] s := by
  unfold ClaudeTurn.onCompleted
  split_ifs with hreq hleft
  · exact h.raiseFirst htwice (by simp [hown, hreq]) _
  · have hnot : ¬ own := by simp [hown, hreq]
    have hleft : Running run lines [] 0 { s with remindersLeft := s.remindersLeft - 1 } := { h with }
    simp only
    split
    · exact hleft.raiseFirst htwice hnot _
    · exact ⟨hleft, rfl⟩
  · have hsaid : Running run lines [] 1 (s.emit (.yielded (.usage s.usage))) := by
      refine ⟨⟨?_, ?_, h.usage, h.reported, h.bare⟩, ?_⟩
      · rw [log_emit, linesRead_snoc, h.reads]
        simp [read?]
      · rw [log_emit, yieldedUsages_snoc, h.said]
        rfl
      · rw [log_emit, closed_snoc, h.opened]
        rfl
    exact hsaid.close rfl (.own (hown.mpr hreq))

theorem Running.onItem {item : StreamEvent} {rest : List StreamEvent}
    (h : Running run lines (usagesOf (item :: rest)) 0 s) (htidy : Tidy (item :: rest))
    (hcancel : item ≠ .runCancelled)
    (htwice : twice ↔ s.stopDeadline.isSome = true ∧ s.interruptConfirmed = false ∧
      ∃ text, StreamEvent.runCompleted text ∈ item :: rest)
    (hown : own ↔ s.stopDeadline = none ∧ ¬ (s.calls = 0 ∧ run.toolRequired = true) ∧
      ∃ text, StreamEvent.runCompleted text ∈ item :: rest) :
    (onItem run data s item).Reports run lines twice own item rest s := by
  cases item with
  | usage u =>
    have hcons : usagesOf (.usage u :: rest) = u :: usagesOf rest := rfl
    rw [hcons] at h
    refine ⟨by simp, ⟨⟨h.reads, h.said, fun c => ?_, ?_, ⟨rfl, rfl⟩⟩, h.opened⟩, rfl, rfl, rfl⟩
    · rw [h.usage, total_cons, count_addUsage, add_assoc]
    · rw [h.reported, counted_addUsage, Bool.or_eq_true, List.exists_mem_cons_iff, or_assoc]
  | toolCall c name input =>
    unfold ClaudeTurn.onItem
    simp only
    split_ifs
    · exact ⟨by simp, { h with }, rfl, rfl, rfl⟩
    · exact ⟨by simp, h.emit rfl rfl rfl, rfl, rfl, rfl⟩
  | toolResult c ok output =>
    unfold ClaudeTurn.onItem
    simp only
    split_ifs
    · exact ⟨by simp, h, rfl, rfl, rfl⟩
    · exact ⟨by simp, h.emit rfl rfl rfl, rfl, rfl, rfl⟩
  | messageDelta text =>
    unfold ClaudeTurn.onItem
    simp only
    split_ifs
    · exact ⟨by simp, h, rfl, rfl, rfl⟩
    · exact ⟨by simp, h.emit rfl rfl rfl, rfl, rfl, rfl⟩
  | runFailed cls msg reset =>
    obtain rfl := htidy.1 rfl
    have hnotwice : ¬ twice := by simp [htwice]
    have hnotown : ¬ own := by simp [hown]
    unfold ClaudeTurn.onItem
    simp only
    split_ifs
    · exact h.onStoppedFailure hnotwice hnotown rfl
    · have hflush := h.emitUsage
      rw [Nat.zero_add] at hflush
      refine hflush.close rfl ?_
      rw [emitUsage_usage]
      exact .once hnotown hnotwice
  | runCompleted text =>
    obtain rfl := htidy.1 rfl
    unfold ClaudeTurn.onItem
    simp only
    split_ifs with hstop
    · have hnotown : ¬ own := by
        rw [hown]
        rintro ⟨hnone, -⟩
        rw [hnone] at hstop
        cases hstop
      exact h.onStopped hnotown (by simp [htwice, hstop])
    · have hnone : s.stopDeadline = none := by simpa using hstop
      exact h.onCompleted (by simp [htwice, hnone]) (by simp [hown, hnone]) text
  | runCancelled => exact absurd rfl hcancel
  | sessionAssigned _ | modelRerouted _ _ | modelObserved _ _ _ | fileChanged _ _ =>
    exact ⟨by simp, h.emit rfl rfl rfl, rfl, rfl, rfl⟩

/-- The events of a line, one after another. -/
theorem Running.onItems {items : List StreamEvent} (h : Running run lines (usagesOf items) 0 s)
    (htidy : Tidy items) (hcancel : StreamEvent.runCancelled ∉ items)
    (htwice : twice ↔ s.stopDeadline.isSome = true ∧ s.interruptConfirmed = false ∧
      ∃ text, StreamEvent.runCompleted text ∈ items)
    (hown : own ↔ s.stopDeadline = none ∧ ¬ (s.calls = 0 ∧ run.toolRequired = true) ∧
      ∃ text, StreamEvent.runCompleted text ∈ items) :
    Outcome run lines twice own (onItems run data s items) := by
  induction items generalizing s with
  | nil =>
    have hlive : Running run lines [] 0 s.loop := { h with }
    exact hlive.live (by simp [loop]) (by simp [loop])
  | cons item rest ih =>
    have hitem : (ClaudeTurn.onItem run data s item).Reports run lines twice own item rest s :=
      h.onItem htidy (fun heq => hcancel (by simp [heq])) htwice hown
    unfold ClaudeTurn.onItems
    split
    · rename_i t ht
      rw [ht] at hitem
      obtain ⟨hne, hgo, hstop, hconf, hcalls⟩ := hitem
      have hmem : (∃ text, StreamEvent.runCompleted text ∈ item :: rest) ↔
          ∃ text, StreamEvent.runCompleted text ∈ rest := by
        refine exists_congr fun text => ?_
        rw [List.mem_cons, or_iff_right (fun heq => hne text heq.symm)]
      refine ih hgo htidy.2 (fun hc => hcancel (by simp [hc])) ?_ ?_
      · rw [htwice, hmem, hstop, hconf]
      · rw [hown, hmem, hstop, hcalls]
    · rename_i t ht
      rw [ht] at hitem
      exact hitem
    · rename_i t text ht
      rw [ht] at hitem
      obtain ⟨hremind, rfl⟩ := hitem
      exact .live { hremind with } (by simp) (by simp)

/-! ### Lines -/

theorem completes_iff {line : String} {items : List StreamEvent}
    (hjson : json run.parser line = .ok (some data))
    (hfeed : feed run.parser (some data) = .ok items) :
    Completes run line ↔ ∃ text, StreamEvent.runCompleted text ∈ items := by
  constructor
  · rintro ⟨data', items', text, hjson', hfeed', hmem⟩
    obtain rfl := Option.some.inj (Except.ok.inj (hjson.symm.trans hjson'))
    obtain rfl := Except.ok.inj (hfeed.symm.trans hfeed')
    exact ⟨text, hmem⟩
  · rintro ⟨text, hmem⟩
    exact ⟨data, items, text, hjson, hfeed, hmem⟩

theorem not_completes_of_feed {line : String} {x : TurnError} (hjson : json run.parser line = .ok (some data))
    (hfeed : feed run.parser (some data) = .error x) : ¬ Completes run line := by
  rintro ⟨data', items, text, hjson', hfeed', -⟩
  obtain rfl := Option.some.inj (Except.ok.inj (hjson.symm.trans hjson'))
  cases hfeed.symm.trans hfeed'

theorem not_completes_of_json {line : String} (hjson : ∀ data, json run.parser line ≠ .ok (some data)) :
    ¬ Completes run line := by
  rintro ⟨data, -, -, hjson', -⟩
  exact hjson data hjson'

section Control

variable (htwice : ¬ twice) (hown : ¬ own)
include htwice hown

theorem Running.onControlResponse (h : Running run lines [] 0 s) (hphase : s.phase = .reading) :
    Outcome run lines twice own (s.onControlResponse data) := by
  unfold ClaudeTurn.onControlResponse
  split
  · exact h.raiseFirst htwice hown _
  · simp only
    split_ifs
    · exact h.raiseFirst htwice hown _
    · exact h.raiseFirst htwice hown _
    · have hconf : Running run lines [] 0 { s.emit .confirmed with interruptConfirmed := true } :=
        { h.emit (e := .confirmed) rfl rfl rfl with }
      refine hconf.live ?_ ?_ <;> simp [ClaudeTurn.emit, hphase]
    · exact h.live (by simp [hphase]) (by simp [hphase])

theorem Running.onToolsCall (h : Running run lines [] 0 s) (q : McpRequest) (params : Option Doc) :
    Outcome run lines twice own (onToolsCall run s q params) := by
  unfold ClaudeTurn.onToolsCall
  split_ifs
  · exact h.raiseFirst htwice hown _
  · have hseq : Running run lines [] 0 { s with seq := s.seq + 1 } := { h with }
    simp only
    split
    · exact hseq.raiseFirst htwice hown _
    · split
      · exact .live { h with } (by simp) (by simp)
      · exact hseq.raiseFirst htwice hown _

theorem Running.onMcpMessage (h : Running run lines [] 0 s) (q : McpRequest) :
    Outcome run lines twice own (onMcpMessage run s q) := by
  have hq : Running run lines [] 0 (s.emit (.accepted q)) := h.emit rfl rfl rfl
  unfold ClaudeTurn.onMcpMessage
  simp only
  split_ifs
  · exact .live { hq with } (by simp) (by simp)
  · split
    · exact hq.raiseFirst htwice hown _
    · exact .live { hq with } (by simp) (by simp)
  · exact .live { hq with } (by simp) (by simp)
  · exact hq.onToolsCall htwice hown q _
  · exact .live { hq with } (by simp) (by simp)
  · exact .live { hq with } (by simp) (by simp)

theorem Running.onControlRequest (h : Running run lines [] 0 s) :
    Outcome run lines twice own (onControlRequest run s data) := by
  unfold ClaudeTurn.onControlRequest
  split
  · exact h.raiseFirst htwice hown _
  · split
    · split_ifs
      · exact h.onMcpMessage htwice hown _
      · exact h.raiseFirst htwice hown _
    · exact h.raiseFirst htwice hown _

end Control

/-- The kinds of line that are not for the parser. -/
def isControl (data : Doc) : Bool :=
  let kind := data.get "type"
  kind.isText "control_response" || kind.isText "control_cancel_request" || kind.isText "control_request"

theorem feed_of_isControl (h : isControl data = true) : feed run.parser (some data) = .ok [] := by
  simp only [isControl, Bool.or_eq_true, or_assoc] at h
  rcases h with h | h | h
  · exact feed_of_kind h (by decide)
  · exact feed_of_kind h (by decide)
  · exact feed_of_kind h (by decide)

theorem onData_of_not_isControl (h : isControl data = false) :
    onData run s data = match feed run.parser (some data) with
      | .error x => s.raise x
      | .ok items => onItems run data s items := by
  simp only [isControl, Bool.or_eq_false_iff] at h
  cases hfeed : feed run.parser (some data) with
  | error x => simp only [onData, hfeed, h.1.1, h.1.2, h.2, Bool.false_eq_true, if_false]
  | ok items => simp only [onData, hfeed, h.1.1, h.1.2, h.2, Bool.false_eq_true, if_false]

/-- The object of a line, after its usage was parsed. -/
theorem Running.onData {line : String} (h : Running run lines (lineUsages run line) 0 s)
    (hphase : s.phase = .reading) (hjson : json run.parser line = .ok (some data))
    (htwice : twice ↔ s.stopDeadline.isSome = true ∧ s.interruptConfirmed = false ∧ Completes run line)
    (hown : own ↔ s.stopDeadline = none ∧ ¬ (s.calls = 0 ∧ run.toolRequired = true) ∧ Completes run line) :
    Outcome run lines twice own (onData run s data) := by
  cases hfeed : feed run.parser (some data) with
  | error x =>
    have hnot := not_completes_of_feed hjson hfeed
    have hcontrol : isControl data = false := by
      rw [Bool.eq_false_iff]
      intro hc
      cases hfeed.symm.trans (feed_of_isControl hc)
    have hnone : lineUsages run line = [] := by simp only [lineUsages, hjson, hfeed]
    rw [hnone] at h
    rw [onData_of_not_isControl hcontrol, hfeed]
    exact h.raiseFirst (by simp [htwice, hnot]) (by simp [hown, hnot]) x
  | ok items =>
    have hsome : lineUsages run line = usagesOf items := by simp only [lineUsages, hjson, hfeed]
    rw [hsome] at h
    rw [completes_iff hjson hfeed] at htwice hown
    by_cases hcontrol : isControl data = true
    · obtain rfl := Except.ok.inj (hfeed.symm.trans (feed_of_isControl hcontrol))
      have hnotwice : ¬ twice := by simp [htwice]
      have hnotown : ¬ own := by simp [hown]
      have hrun : Running run lines [] 0 s := h
      simp only [isControl, Bool.or_eq_true, or_assoc] at hcontrol
      unfold ClaudeTurn.onData
      simp only
      split_ifs
      · exact hrun.onControlResponse hnotwice hnotown hphase
      · split
        · exact hrun.raiseFirst hnotwice hnotown _
        · exact hrun.live (by simp [hphase]) (by simp [hphase])
        · exact hrun.onControlRequest hnotwice hnotown
      · exact hrun.onControlRequest hnotwice hnotown
      · simp_all
    · rw [onData_of_not_isControl (by simpa using hcontrol), hfeed]
      refine h.onItems (feed_spent hfeed).1 (fun hc => ?_) htwice hown
      exact ending_feed hfeed _ hc

/-- A line whose usage is lost ends the turn, and completes nothing. -/
theorem lineUsages_eq_or (s : ClaudeTurn) (line : String) :
    lineUsages run line = lineSpent run line ∨ (onLine run s line).phase = .ended ∧ ¬ Completes run line := by
  unfold lineUsages lineSpent
  split
  · rename_i data hjson
    cases hfeed : feed run.parser (some data) with
    | ok items => exact .inl (feed_spent hfeed).2
    | error x =>
      refine .inr ⟨?_, not_completes_of_feed hjson hfeed⟩
      have hcontrol : isControl data = false := by
        rw [Bool.eq_false_iff]
        intro hc
        cases hfeed.symm.trans (feed_of_isControl hc)
      unfold onLine
      rw [hjson]
      simp only [onData_of_not_isControl hcontrol, hfeed, raise_phase]
  · exact .inl rfl

/-! ### Steps -/

theorem Idle.read (hi : Idle run s) (line : String) :
    Running run (linesRead s.log ++ [line]) (lineUsages run line) 0 (s.emit (.read line)) := by
  have h := hi.running
  refine ⟨⟨?_, ?_, fun c => ?_, ?_, h.bare⟩, ?_⟩
  · simp [read?]
  · rw [log_emit, yieldedUsages_snoc, h.said]
    rfl
  · rw [parsedUsages_snoc, total_append, h.usage]
    simp [ClaudeTurn.emit]
  · have hreported : (∃ u ∈ parsedUsages run (linesRead s.log), counted u = true) ↔
      counted s.usage = true := by
      simpa using h.reported
    simp only [parsedUsages_snoc, List.mem_append, or_and_right, exists_or, hreported]
    rfl
  · rw [log_emit, closed_snoc, h.opened]
    rfl

theorem Idle.line (hi : Idle run s) (hphase : s.phase = .reading) (line : String)
    (htwice : twice ↔ s.stopDeadline.isSome = true ∧ s.interruptConfirmed = false ∧ Completes run line)
    (hown : own ↔ s.stopDeadline = none ∧ ¬ (s.calls = 0 ∧ run.toolRequired = true) ∧ Completes run line) :
    Outcome run (linesRead s.log ++ [line]) twice own (onLine run (s.emit (.read line)) line) := by
  have h := hi.read line
  unfold onLine
  split
  · rename_i x hjson
    have hnone : lineUsages run line = [] := by simp only [lineUsages, hjson]
    have hnot : ¬ Completes run line := not_completes_of_json (by simp [hjson])
    rw [hnone] at h
    exact h.raiseFirst (by simp [htwice, hnot]) (by simp [hown, hnot]) x
  · rename_i hjson
    have hnone : lineUsages run line = [] := by simp only [lineUsages, hjson]
    rw [hnone] at h
    refine h.live ?_ ?_ <;> simp [ClaudeTurn.emit, hphase]
  · rename_i data hjson
    exact h.onData hphase hjson htwice hown

theorem Idle.frame (hi : Idle run s) (hphase : s.phase = .reading) {now : Time} {f : Frame}
    (h : onFrame run s now f = some s') :
    Outcome run (linesRead s.log ++ linesOf s (.frame now f)) (Twice run s (.frame now f))
      (OnItsOwn run s (.frame now f)) s' := by
  have hrun := hi.running
  unfold onFrame at h
  by_cases hlate : s.stopDeadline.any (· ≤ now) = true
  · -- nothing is read after the deadline
    rw [if_pos hlate] at h
    obtain rfl := Option.some.inj h
    have hlines : linesOf s (.frame now f) = [] := by
      unfold linesOf
      split
      · rename_i heq
        obtain ⟨rfl, -⟩ := by simpa using heq
        rw [if_pos hlate]
      · rfl
    rw [hlines, List.append_nil]
    refine hrun.raiseFirst ?_ ?_ _
    · cases f <;> simp [Twice, hlate]
    · cases f with
      | line raw =>
        rintro ⟨hnone, -⟩
        rw [hnone] at hlate
        cases hlate
      | _ => exact id
  · have hearly : s.stopDeadline.any (· ≤ now) = false := by simpa using hlate
    rw [if_neg hlate] at h
    cases f with
    | line raw =>
      obtain rfl := Option.some.inj h
      have hlines : linesOf s (.frame now (.line raw)) = [PyConv.stripText raw] := by simp [linesOf, hearly]
      rw [hlines]
      exact hi.line hphase _ (by simp [Twice, hearly]) Iff.rfl
    | closed =>
      obtain rfl := Option.some.inj h
      have hlines : linesOf s (.frame now .closed) = [] := rfl
      rw [hlines, List.append_nil]
      exact .live { hrun with } (by simp) (by simp)
    | refused x =>
      obtain rfl := Option.some.inj h
      have hlines : linesOf s (.frame now (.refused x)) = [] := rfl
      rw [hlines, List.append_nil]
      exact hrun.raiseFirst id id x
    | late =>
      simp only at h
      split_ifs at h
      obtain rfl := Option.some.inj h
      have hlines : linesOf s (.frame now .late) = [] := rfl
      rw [hlines, List.append_nil]
      exact hrun.raiseFirst id id _

theorem Running.sending (h : Running run lines [] 0 s) (htwice : ¬ twice) (hown : ¬ own)
    {e : TurnEvent claudeWire} (hread : read? e = none) (husage : usage? e = none) (hlast : e.isLast = false)
    {k : ClaudeTurn → ClaudeTurn} (hk : Running run lines [] 0 (s.emit e) → Outcome run lines twice own (k (s.emit e)))
    (r : Sent) : Outcome run lines twice own (s.sending e k r) := by
  have hsent : Running run lines [] 0 (s.emit e) := h.emit hread husage hlast
  cases r with
  | ok => exact hk hsent
  | lost x => exact h.raiseFirst htwice hown x
  | broken x => exact hsent.raiseFirst htwice hown x

theorem Idle.send (hi : Idle run s) (htwice : ¬ twice) (hown : ¬ own) {now : Time} {r : Sent}
    (h : onSend run s now r = some s') : Outcome run (linesRead s.log) twice own s' := by
  have hrun := hi.running
  unfold onSend at h
  cases hphase : s.phase with
  | replying q reply =>
    rw [hphase] at h
    obtain rfl := Option.some.inj h
    refine hrun.sending htwice hown rfl rfl rfl (fun hsent => ?_) r
    unfold afterReply
    split
    · exact hsent.raiseFirst htwice hown _
    · simp only
      split_ifs
      · exact .live { hsent with } (by simp) (by simp)
      · exact .live { hsent with } (by simp [loop]) (by simp [loop])
  | interrupting =>
    rw [hphase] at h
    obtain rfl := Option.some.inj h
    refine hrun.sending htwice hown rfl rfl rfl (fun hsent => ?_) r
    exact .live { hsent with } (by simp [loop]) (by simp [loop])
  | reminding data rest text =>
    rw [hphase] at h
    obtain rfl := Option.some.inj h
    obtain rfl := hi.rest _ _ _ hphase
    refine hrun.sending htwice hown rfl rfl rfl (fun hsent => ?_) r
    exact .live { hsent with } (by simp [onItems, loop]) (by simp [onItems, loop])
  | _ =>
    rw [hphase] at h
    cases h

theorem Idle.exit (hi : Idle run s) (r : Except TurnError (ℤ × String)) :
    Outcome run (linesRead s.log) (Twice run s (.exit r)) False (onExit run s r) := by
  have hrun := hi.running
  unfold onExit
  split
  · exact hrun.raiseFirst id id _
  · rename_i rc stderr
    have hflush := hrun.emitUsage
    rw [Nat.zero_add] at hflush
    split
    · rename_i x hx
      refine hflush.raise x fun hhandled => ?_
      rw [emitUsage_usage]
      exact .twice id ⟨x, hx, hhandled⟩
    · rename_i e he
      refine hflush.close ?_ ?_
      · obtain ⟨reset, -, he⟩ := ok_of_bind he
        obtain rfl := Except.ok.inj he
        rfl
      · rw [emitUsage_usage]
        refine .once id ?_
        rintro ⟨x, hx, -⟩
        cases he.symm.trans hx

/-- **Every await keeps the sum, and the end of the turn yields it.** -/
theorem Idle.step (hi : Idle run s) {a : Act} (h : ClaudeTurn.step run s a = some s') :
    Outcome run (linesRead s.log ++ linesOf s a) (Twice run s a) (OnItsOwn run s a) s' := by
  have hrun := hi.running
  cases a with
  | frame now f =>
    cases hphase : s.phase with
    | reading =>
      simp only [ClaudeTurn.step, hphase] at h
      exact hi.frame hphase h
    | _ => simp [ClaudeTurn.step, hphase] at h
  | publish r =>
    have hlines : linesRead s.log ++ linesOf s (.publish r) = linesRead s.log := List.append_nil _
    rw [hlines]
    cases hphase : s.phase with
    | publishing q c name arguments =>
      cases r with
      | ok u =>
        simp only [ClaudeTurn.step, hphase] at h
        obtain rfl := Option.some.inj h
        have hpub : Running run (linesRead s.log) [] 0 (s.emit (.published q c name arguments)) :=
          hrun.emit rfl rfl rfl
        have hcalls : Running run (linesRead s.log) [] 0
            { s.emit (.published q c name arguments) with calls := s.calls + 1 } := { hpub with }
        have hsaid := hcalls.emit (e := .yielded (.toolCall c name (arguments.asDict.getD []))) rfl rfl rfl
        exact .live { hsaid with } (by simp [onPublished]) (by simp [onPublished])
      | error x =>
        simp only [ClaudeTurn.step, hphase] at h
        obtain rfl := Option.some.inj h
        unfold onRefused
        split
        · split_ifs
          · exact hrun.raiseFirst id id _
          · have hsaid := hrun.emit (e := .yielded (.toolResult c false "[arguments rejected]")) rfl rfl rfl
            exact .live { hsaid with } (by simp) (by simp)
        · exact hrun.raiseFirst id id _
    | _ => simp [ClaudeTurn.step, hphase] at h
  | poll r =>
    have hlines : linesRead s.log ++ linesOf s (.poll r) = linesRead s.log := List.append_nil _
    rw [hlines]
    cases hphase : s.phase with
    | waiting q c =>
      simp only [ClaudeTurn.step, hphase] at h
      obtain rfl := Option.some.inj h
      cases r with
      | result r =>
        have htook : Running run (linesRead s.log) [] 0 (s.emit (.took c r)) := hrun.emit rfl rfl rfl
        have hsaid := htook.emit
          (e := .yielded (.toolResult c r.success "[client tool result withheld]")) rfl rfl rfl
        exact .live { hsaid with } (by simp [onPoll]) (by simp [onPoll])
      | pending => exact hrun.live (by simp [hphase]) (by simp [hphase])
      | stopped => exact hrun.raiseFirst id id (.conflict "Claude stopped while waiting for client tool")
      | raised x => exact hrun.raiseFirst id id x
    | _ => simp [ClaudeTurn.step, hphase] at h
  | send now r =>
    have hlines : linesRead s.log ++ linesOf s (.send now r) = linesRead s.log := List.append_nil _
    rw [hlines]
    exact hi.send id id h
  | exit r =>
    have hlines : linesRead s.log ++ linesOf s (.exit r) = linesRead s.log := List.append_nil _
    rw [hlines]
    cases hphase : s.phase with
    | closing =>
      simp only [ClaudeTurn.step, hphase] at h
      obtain rfl := Option.some.inj h
      exact hi.exit r
    | _ => simp [ClaudeTurn.step, hphase] at h

/-- Where the turn goes on, and where it completes a run, no usage of a line was lost. -/
theorem Idle.whole_step (hi : Idle run s) {a : Act} (h : ClaudeTurn.step run s a = some s')
    (hok : s'.phase ≠ .ended ∨ Twice run s a ∨ OnItsOwn run s a) :
    parsedUsages run (linesRead s.log ++ linesOf s a) = fedUsages run (linesRead s.log ++ linesOf s a) := by
  by_cases hlines : linesOf s a = []
  · rw [hlines, List.append_nil]
    exact hi.whole
  · cases a with
    | frame now f =>
      cases f with
      | line raw =>
        by_cases hlate : s.stopDeadline.any (· ≤ now) = true
        · exact absurd (by simp [linesOf, hlate]) hlines
        · have heq : linesOf s (.frame now (.line raw)) = [PyConv.stripText raw] := by simp [linesOf, hlate]
          rw [heq, parsedUsages_snoc, fedUsages_snoc, hi.whole]
          rcases lineUsages_eq_or (s.emit (.read (PyConv.stripText raw))) (PyConv.stripText raw) with hline | ⟨hended, hnot⟩
          · rw [hline]
          · -- the line was lost: the turn ended, and not with a completed one
            exfalso
            rcases hok with hopen | htwice | hown
            · refine hopen ?_
              cases hphase : s.phase with
              | reading =>
                simp only [ClaudeTurn.step, hphase, onFrame, if_neg hlate] at h
                obtain rfl := Option.some.inj h
                exact hended
              | _ => simp [ClaudeTurn.step, hphase] at h
            · exact hnot htwice.2.2.2
            · exact hnot hown.2.2
      | _ => exact absurd rfl hlines
    | _ => exact absurd rfl hlines

theorem idle_start (run : ClaudeRun) : Idle run (start run) := by
  refine ⟨⟨⟨rfl, rfl, fun c => ?_, ?_, ⟨rfl, rfl⟩⟩, rfl⟩, by simp [start], rfl⟩
  · cases c <;> rfl
  · constructor
    · rintro ⟨u, hu, -⟩
      cases hu
    · rintro (h | ⟨u, hu, -⟩)
      · cases h
      · cases hu

/-- A turn is at an await, or it has ended. -/
theorem idle_run (run : ClaudeRun) {as : List Act} (h : Steps (ClaudeTurn.step run) Free (start run) as s) :
    Idle run s ∨ s.phase = .ended := by
  refine h.inv (I := fun s => Idle run s ∨ s.phase = .ended) (fun t a u ht _ hu => ?_) (.inl (idle_start run))
  rcases ht with hi | hended
  · have hout := hi.step hu
    cases hout with
    | live hrun hphase hrest =>
      refine .inl ⟨?_, hrest, ?_⟩
      · rw [hrun.reads]
        exact hrun
      · rw [hrun.reads]
        exact hi.whole_step hu (.inl hphase)
    | escaped h hphase => exact .inr hphase
    | closed h hm hphase => exact .inr hphase
  · rw [step_of_ended hended] at hu
    cases hu

/-! ### Exactly once -/

/-- The turn yields the sum of what was parsed once. -/
def Once (run : ClaudeRun) (s : ClaudeTurn) (a : Act) (lines : List String) : Prop :=
  ¬ Twice run s a ∧ (OnItsOwn run s a ∨ ∃ u ∈ parsedUsages run lines, counted u = true)

/-- The end of a turn at which the CLI's own numbers come out: the sum is yielded once and no line was lost
to an exception, or there was nothing to report. -/
def ReportsOnce (run : ClaudeRun) (s : ClaudeTurn) (a : Act) : Prop :=
  let lines := linesRead s.log ++ linesOf s a
  (Once run s a lines ∧ ∀ c, total c (parsedUsages run lines) = total c (fedUsages run lines)) ∨
    (¬ Once run s a lines ∧ ∀ c, total c (fedUsages run lines) = 0)

theorem not_twice_of_onItsOwn {a : Act} (h : OnItsOwn run s a) : ¬ Twice run s a := by
  cases a with
  | frame now f =>
    cases f with
    | line raw =>
      rintro ⟨-, hstop, -⟩
      rw [h.1] at hstop
      cases hstop
    | _ => exact id
  | exit r => exact h.elim
  | _ => exact id

theorem Spent.total_yielded (h : Spent run lines [] m s) (c : Counter) :
    total c (yieldedUsages s.log) = m * total c (parsedUsages run lines) := by
  rw [h.said, total_replicate, h.usage]
  simp

/-- The sum comes out right when it is yielded once and whole, or when there is none. -/
theorem reportsOnce_iff {a : Act} (h : Spent run (linesRead s.log ++ linesOf s a) [] m s')
    (hm : Flushes (Twice run s a) (OnItsOwn run s a) s'.usage m)
    (hwhole : Twice run s a ∨ OnItsOwn run s a → parsedUsages run (linesRead s.log ++ linesOf s a) =
      fedUsages run (linesRead s.log ++ linesOf s a)) :
    (∀ c, total c (yieldedUsages s'.log) = total c (fedUsages run (linesRead s.log ++ linesOf s a))) ↔
      ReportsOnce run s a := by
  have hreported : (∃ u ∈ parsedUsages run (linesRead s.log ++ linesOf s a), counted u = true) ↔
      counted s'.usage = true := by
    simpa using h.reported
  simp only [h.total_yielded, ReportsOnce, Once, hreported]
  cases hm with
  | own hown =>
    have heq := hwhole (.inr hown)
    simp [not_twice_of_onItsOwn hown, hown, heq]
  | twice hown htwice =>
    have heq := hwhole (.inl htwice)
    cases hc : counted s'.usage with
    | true =>
      have hflush : flush s'.usage = 1 := by rw [flush, hc]; rfl
      have hnil : ∀ x : ℤ, ((1 + 1 : ℕ) : ℤ) * x = x ↔ x = 0 := by
        intro x
        constructor
        · intro hx
          push_cast at hx
          linarith
        · rintro rfl
          simp
      simp only [hflush, heq, hnil]
      simp [htwice]
    | false =>
      have hflush : flush s'.usage = 0 := by rw [flush, hc]; rfl
      simp [hflush, heq, htwice, eq_comm]
  | once hown htwice =>
    cases hc : counted s'.usage with
    | true =>
      have hflush : flush s'.usage = 1 := by rw [flush, hc]; rfl
      simp [hflush, htwice]
    | false =>
      have hflush : flush s'.usage = 0 := by rw [flush, hc]; rfl
      simp [hflush, hown, eq_comm]

theorem usagesOf_yieldedEvents (h : List (TurnEvent claudeWire)) : usagesOf (yieldedEvents h) = yieldedUsages h := by
  rw [usagesOf, yieldedEvents, yieldedUsages, List.filterMap_filterMap]
  refine List.filterMap_congr fun e _ => ?_
  cases e with
  | yielded e => cases e <;> rfl
  | _ => rfl

/-- The usage events that were read and those left in the queue are copies of the sum. -/
theorem Spent.split_usages (h : Spent run lines [] m s) (passes : List StreamPass) :
    ∃ k j, k + j = m ∧
      usagesOf (eventsRead passes (yieldedEvents s.log)) = List.replicate k s.usage ∧
      usagesOf ((yieldedEvents s.log).drop (eventsRead passes (yieldedEvents s.log)).length) =
        List.replicate j s.usage := by
  set queue := yieldedEvents s.log with hqueue
  have hsplit := List.prefix_iff_eq_append.mp (isPrefix_eventsRead passes queue)
  have hall : usagesOf (eventsRead passes queue) ++ usagesOf (queue.drop (eventsRead passes queue).length) =
      List.replicate m s.usage := by
    rw [← usagesOf_append, hsplit, hqueue, usagesOf_yieldedEvents, h.said]
  obtain ⟨hlen, hread, hleft⟩ := List.append_eq_replicate_iff.mp hall
  exact ⟨_, _, hlen, hread, hleft⟩

/-- What the executor adds to the row is what the turn was fed, when all was read or there is nothing. -/
theorem recorded_iff {passes : List StreamPass} (h : Spent run lines [] m s) {spent : Counter → ℤ}
    (hsum : ∀ c, total c (yieldedUsages s.log) = spent c) (mode : Option String) (row : AgentRunRow) :
    (∀ c, (recorded passes (yieldedEvents s.log) mode row).used c = row.used c + spent c) ↔
      ReadsUsage passes (yieldedEvents s.log) ∨ ∀ c, spent c = 0 := by
  obtain ⟨k, j, hm, hread, hleft⟩ := h.split_usages passes
  have hspent : ∀ c, spent c = (k + j : ℕ) * s.usage.count c := by
    intro c
    rw [← hsum, h.said, total_replicate, hm]
  have hadds : ∀ c, (recorded passes (yieldedEvents s.log) mode row).used c = row.used c +
      if (streamLoop passes (yieldedEvents s.log) {}).isSome then (k : ℤ) * s.usage.count c else 0 := by
    intro c
    rw [used_recorded, hread, total_replicate]
  simp only [hadds, add_right_inj, ReadsUsage, hleft, hspent]
  cases hret : (streamLoop passes (yieldedEvents s.log) {}).isSome with
  | false =>
    simp only [Bool.false_eq_true, if_false, false_and, false_or]
    exact forall_congr' fun c => eq_comm
  | true =>
    cases j with
    | zero => simp
    | succ j =>
      -- a copy of the sum was left in the queue
      have hzero : ∀ c, (k : ℤ) * s.usage.count c = (k + (j + 1) : ℕ) * s.usage.count c ↔ s.usage.count c = 0 := by
        intro c
        constructor
        · intro heq
          have hprod : ((j : ℤ) + 1) * s.usage.count c = 0 := by
            push_cast at heq
            linarith
          rcases mul_eq_zero.mp hprod with hneg | hcount
          · omega
          · exact hcount
        · intro hcount
          simp [hcount]
      have hcopies : ∀ c, ((k + (j + 1) : ℕ) : ℤ) * s.usage.count c = 0 ↔ s.usage.count c = 0 := by
        intro c
        rw [mul_eq_zero, or_iff_right]
        omega
      simp only [if_true, hzero, hcopies]
      constructor
      · exact fun hcount => .inr hcount
      · rintro (⟨-, hnil⟩ | hcount)
        · cases hnil
        · exact hcount

/-- **When a turn reports its usage exactly once.**  Whatever the CLI writes and whichever way the turn ends,
the usage events it yields add up to the usage of the `result` lines it read if and only if `ReportsOnce` holds
of the last step; then, whatever the executor finds while it reads the events, it adds the usage of these lines
to the row, counter by counter, if and only if it reads every usage event or there is nothing to report. -/
theorem claude_usage_exactly_once (run : ClaudeRun) {as : List Act} {a : Act} {s s' : ClaudeTurn}
    (h : Steps (ClaudeTurn.step run) Free (start run) as s) (hstep : ClaudeTurn.step run s a = some s')
    (hend : closed s'.log = true) (passes : List StreamPass) (mode : Option String) (row : AgentRunRow) :
    ((∀ c, total c (yieldedUsages s'.log) = total c (fedUsages run (linesRead s'.log))) ↔ ReportsOnce run s a) ∧
    (((∀ c, total c (yieldedUsages s'.log) = total c (fedUsages run (linesRead s'.log))) ∧
        ∀ c, (recorded passes (yieldedEvents s'.log) mode row).used c =
          row.used c + total c (fedUsages run (linesRead s'.log))) ↔
      ReportsOnce run s a ∧ (ReadsUsage passes (yieldedEvents s'.log) ∨
        ∀ c, total c (fedUsages run (linesRead s'.log)) = 0)) ∧
    ∀ u ∈ yieldedUsages s'.log, u.totalTokens = none ∧ u.reasoningTokens = none := by
  have hi : Idle run s := by
    rcases idle_run run h with hi | hended
    · exact hi
    · rw [step_of_ended hended] at hstep
      cases hstep
  cases hi.step hstep with
  | live hrun _ _ =>
    rw [hrun.opened] at hend
    cases hend
  | escaped hopen _ =>
    rw [hopen] at hend
    cases hend
  | closed hs hm _ =>
    have honce : (∀ c, total c (yieldedUsages s'.log) = total c (fedUsages run (linesRead s'.log))) ↔
        ReportsOnce run s a := by
      rw [hs.reads]
      exact reportsOnce_iff hs hm fun hok => hi.whole_step hstep (.inr hok)
    refine ⟨honce, ?_, ?_⟩
    · rw [← honce]
      exact and_congr_right fun hsum => recorded_iff hs hsum mode row
    · intro u hu
      rw [hs.said] at hu
      rw [List.eq_of_mem_replicate hu]
      exact hs.bare

/-! ### Sample turns -/

def sampleResult : String :=
  "\x7b\"type\":\"result\",\"num_turns\":2,\"usage\":\x7b\"input_tokens\":7\x7d\x7d"

def sampleResultDoc : Doc :=
  [("type", .str "result"), ("num_turns", .int 2), ("usage", .obj [("input_tokens", .int 7)])]

set_option maxRecDepth 4000 in
theorem json_sampleResult {P : ParserEnv} (hroom : P.interp.room = 100) :
    json P (PyConv.stripText sampleResult) = .ok (some sampleResultDoc) :=
  json_stripText _ rfl rfl (hroom ▸ rfl)

theorem lineSpent_eq {run : ClaudeRun} {line : String} {data : Doc} (h : json run.parser line = .ok (some data)) :
    lineSpent run line = spentBy run.parser data := by
  rw [lineSpent, h]

/-- What the two lines of a sample turn say was spent. -/
theorem fedUsages_sample : fedUsages sampleRun [PyConv.stripText sampleCall, PyConv.stripText sampleResult] =
    [{ inputTokens := some 7, turns := some 2 }] := by
  have hcall : lineSpent sampleRun (PyConv.stripText sampleCall) = [] := by
    rw [lineSpent_eq (json_sampleCall rfl)]
    decide +kernel
  have hresult : lineSpent sampleRun (PyConv.stripText sampleResult) =
      [{ inputTokens := some 7, turns := some 2 }] := by
    rw [lineSpent_eq (json_sampleResult rfl)]
    decide +kernel
  rw [fedUsages, List.flatMap_cons, List.flatMap_cons, hcall, hresult]
  rfl

/-- The client's answer is sent on. -/
def sampleAnswered : ClaudeTurn :=
  (execAll (ClaudeTurn.step sampleRun) sampleAsked [.publish (.ok ()), .poll (.result ⟨true, "x", false⟩),
    .send 0 .ok]).get (by decide +kernel)

theorem sample_answered :
    Steps (ClaudeTurn.step sampleRun) Free (start sampleRun)
      [.frame 0 (.line sampleCall), .publish (.ok ()), .poll (.result ⟨true, "x", false⟩), .send 0 .ok] sampleAnswered :=
  sample_asked.trans (steps_of_execAll (Option.some_get _).symm)

/-- The result completes the turn. -/
def sampleCompleted (s : ClaudeTurn) : ClaudeTurn :=
  onData sampleRun (s.emit (.read (PyConv.stripText sampleResult))) sampleResultDoc

theorem linesRead_completed :
    linesRead (sampleCompleted sampleAnswered).log = [PyConv.stripText sampleCall, PyConv.stripText sampleResult] ∧
      linesRead (sampleCompleted sampleStopping).log = [PyConv.stripText sampleCall, PyConv.stripText sampleResult] :=
  ⟨rfl, rfl⟩

/-- A run completed by a result after an answered call, read to its end: seven tokens are added to its row. -/
theorem claude_usage_exactly_once_sample :
    ∃ s s', Steps (ClaudeTurn.step sampleRun) Free (start sampleRun)
        [.frame 0 (.line sampleCall), .publish (.ok ()), .poll (.result ⟨true, "x", false⟩), .send 0 .ok] s ∧
      ClaudeTurn.step sampleRun s (.frame 1 (.line sampleResult)) = some s' ∧
      ReportsOnce sampleRun s (.frame 1 (.line sampleResult)) ∧
      ∀ row, (recorded (List.replicate 5 (.next true)) (yieldedEvents s'.log) none row).used .input =
        row.used .input + 7 := by
  have hstep : ClaudeTurn.step sampleRun sampleAnswered (.frame 1 (.line sampleResult)) =
      some (sampleCompleted sampleAnswered) := step_line rfl rfl (json_sampleResult rfl)
  have hend : closed (sampleCompleted sampleAnswered).log = true := by decide +kernel
  have hyielded : yieldedUsages (sampleCompleted sampleAnswered).log =
      [{ inputTokens := some 7, turns := some 2, source := "claude_stream_json" }] := by decide +kernel
  have hfed : fedUsages sampleRun (linesRead (sampleCompleted sampleAnswered).log) =
      [{ inputTokens := some 7, turns := some 2 }] := by
    rw [linesRead_completed.1, fedUsages_sample]
  have hread : ReadsUsage (List.replicate 5 (.next true)) (yieldedEvents (sampleCompleted sampleAnswered).log) :=
    ⟨by decide +kernel, List.length_eq_zero_iff.mp (by decide +kernel)⟩
  have honce := fun row => claude_usage_exactly_once sampleRun sample_answered hstep hend
    (List.replicate 5 (.next true)) none row
  have hreports : ReportsOnce sampleRun sampleAnswered (.frame 1 (.line sampleResult)) :=
    (honce { runId := 1, projectId := 1, capability := .claude, accountId := "main" }).1.mp fun c => by
      rw [hyielded, hfed]
      cases c <;> rfl
  refine ⟨_, _, sample_answered, hstep, hreports, fun row => ?_⟩
  rw [((honce row).2.1.mpr ⟨hreports, .inl hread⟩).2, hfed]
  rfl

/-- The interrupt is sent, and a `result` completes the turn before it is confirmed: seven tokens come out as
fourteen.  And in the turn above, where the cancel flag is found before the events are read, none of the seven is
recorded. -/
theorem claude_usage_twice :
    (∃ s, Steps (ClaudeTurn.step sampleRun) Free (start sampleRun)
        [.frame 0 (.line sampleCall), .publish (.ok ()), .poll (.result ⟨true, "x", true⟩), .send 0 .ok,
          .send 0 .ok, .frame 1 (.line sampleResult)] s ∧
      closed s.log = true ∧ total .input (fedUsages sampleRun (linesRead s.log)) = 7 ∧
      total .input (yieldedUsages s.log) = 14) ∧
    ∃ s, Steps (ClaudeTurn.step sampleRun) Free (start sampleRun)
        [.frame 0 (.line sampleCall), .publish (.ok ()), .poll (.result ⟨true, "x", false⟩), .send 0 .ok,
          .frame 1 (.line sampleResult)] s ∧
      closed s.log = true ∧ total .input (fedUsages sampleRun (linesRead s.log)) = 7 ∧
      ∀ mode row, (recorded [.ends] (yieldedEvents s.log) mode row).used .input = row.used .input := by
  have htwice : ClaudeTurn.step sampleRun sampleStopping (.frame 1 (.line sampleResult)) =
      some (sampleCompleted sampleStopping) := step_line rfl rfl (json_sampleResult rfl)
  have hcut : ClaudeTurn.step sampleRun sampleAnswered (.frame 1 (.line sampleResult)) =
      some (sampleCompleted sampleAnswered) := step_line rfl rfl (json_sampleResult rfl)
  constructor
  · refine ⟨_, sample_stopping.snoc trivial htwice, by decide +kernel, ?_, by decide +kernel⟩
    rw [linesRead_completed.2, fedUsages_sample]
    rfl
  · refine ⟨_, sample_answered.snoc trivial hcut, by decide +kernel, ?_, fun mode row => ?_⟩
    · rw [linesRead_completed.1, fedUsages_sample]
      rfl
    · rw [used_recorded]
      simp [eventsRead, usagesOf]

end ClaudeTurn

end Broker.Agent
