import Mathlib.Algebra.BigOperators.Group.List.Basic
import Broker.Agent.ClaudeParser
import Broker.Agent.Runs

/-!
# Broker.Agent.ClaudeUsage — the counters of the Claude CLI

A `result` line says what was spent.  The executor adds up the usage events a turn yields, counter by counter,
and `record_usage` adds the sums to the row of the run.
-/

namespace Broker.Agent

open Broker.Lib Broker.Db

/-! ### Counters -/

/-- The counters of a `result`, and of the row of a run. -/
inductive Counter where
  | input
  | output
  | cacheRead
  | turns
  deriving DecidableEq, Repr

def Counter.all : List Counter := [.input, .output, .cacheRead, .turns]

/-- What is not reported counts for nothing. -/
def Usage.count (u : Usage) : Counter → ℤ
  | .input => u.inputTokens.getD 0
  | .output => u.outputTokens.getD 0
  | .cacheRead => u.cacheReadTokens.getD 0
  | .turns => u.turns.getD 0

def AgentRunRow.used (run : AgentRunRow) : Counter → ℤ
  | .input => run.usageInputTokens.getD 0
  | .output => run.usageOutputTokens.getD 0
  | .cacheRead => run.usageCacheReadTokens.getD 0
  | .turns => run.usageTurns.getD 0

def total (c : Counter) (us : List Usage) : ℤ := (us.map fun u => u.count c).sum

section Total

variable (c : Counter)

@[simp] theorem total_nil : total c [] = 0 := rfl

@[simp] theorem total_cons (u : Usage) (us : List Usage) : total c (u :: us) = u.count c + total c us := by
  simp [total]

@[simp] theorem total_append (us vs : List Usage) : total c (us ++ vs) = total c us + total c vs := by
  simp [total]

theorem total_replicate (k : ℕ) (u : Usage) : total c (List.replicate k u) = k * u.count c := by
  simp [total]

end Total

/-! ### What the executor and the row make of it -/

/-- The usage branch of `_stream`. -/
def addTotals (totals u : Usage) : Usage :=
  let add (old new : Option ℤ) : Option ℤ := new.elim old fun v => some (old.getD 0 + v)
  { totals with
    inputTokens := add totals.inputTokens u.inputTokens
    outputTokens := add totals.outputTokens u.outputTokens
    totalTokens := add totals.totalTokens u.totalTokens
    cacheReadTokens := add totals.cacheReadTokens u.cacheReadTokens
    reasoningTokens := add totals.reasoningTokens u.reasoningTokens
    turns := add totals.turns u.turns }

/-- `totals` of `_stream`, after the usage events of a turn. -/
def streamTotals (us : List Usage) : Usage := us.foldl addTotals {}

theorem getD_add (old new : Option ℤ) :
    (new.elim old fun v => some (old.getD 0 + v)).getD 0 = old.getD 0 + new.getD 0 := by
  cases new with
  | none => simp
  | some v => rfl

theorem count_addTotals (totals u : Usage) (c : Counter) :
    (addTotals totals u).count c = totals.count c + u.count c := by
  cases c <;> exact getD_add _ _

theorem count_foldl_addTotals (us : List Usage) (c : Counter) (totals : Usage) :
    (us.foldl addTotals totals).count c = totals.count c + total c us := by
  induction us generalizing totals with
  | nil => simp
  | cons u us ih =>
    rw [List.foldl_cons, ih, count_addTotals, total_cons, add_assoc]

theorem count_streamTotals (us : List Usage) (c : Counter) : (streamTotals us).count c = total c us := by
  have hzero : (({} : Usage).count c) = 0 := by cases c <;> rfl
  rw [streamTotals, count_foldl_addTotals, hzero, zero_add]

theorem used_recordUsage (totals : Usage) (mode : Option String) (row : AgentRunRow) (c : Counter) :
    (recordUsage totals mode row).used c = row.used c + totals.count c := by
  cases c <;> exact getD_add _ _

/-- The usage events among the events of a line or of a turn. -/
def usagesOf (items : List StreamEvent) : List Usage :=
  items.filterMap fun item => match item with
    | .usage u => some u
    | _ => none

/-- One pass of the loop of `_stream`: the lease is lost or a query raises; a limit, the cancel flag or a lost
lease of the gate ends the run; nothing comes in time; or the next event comes, and `append_event` writes it or
raises. -/
inductive StreamPass where
  | raises
  | ends
  | timeout
  | next (appended : Bool)
  deriving DecidableEq, Repr

/-- The loop of `_stream` over the events of a turn: the totals it returns with, if it returns. -/
def streamLoop : List StreamPass → List StreamEvent → Usage → Option Usage
  | [], _, _ => none
  | .raises :: _, _, _ => none
  | .ends :: _, _, totals => some totals
  | .timeout :: passes, queue, totals => streamLoop passes queue totals
  -- behind the events stands the `None` of the pump
  | .next _ :: _, [], totals => some totals
  | .next appended :: passes, item :: queue, totals =>
    if item.type.terminal then some totals
    else
      let totals := (usagesOf [item]).foldl addTotals totals
      if appended then streamLoop passes queue totals else none

/-- The events before the terminal one that the loop takes from the queue. -/
def eventsRead : List StreamPass → List StreamEvent → List StreamEvent
  | .timeout :: passes, queue => eventsRead passes queue
  | .next appended :: passes, item :: queue =>
    if item.type.terminal then [] else item :: if appended then eventsRead passes queue else []
  | _, _ => []

/-- The row after the executor read the events of a turn: `_finish` records the totals `_stream` returns. -/
def recorded (passes : List StreamPass) (queue : List StreamEvent) (mode : Option String) (run : AgentRunRow) :
    AgentRunRow :=
  match streamLoop passes queue {} with
  | some totals => recordUsage totals mode run
  | none => run

/-- The executor reads every usage event of the turn and returns: nothing stops it before. -/
def ReadsUsage (passes : List StreamPass) (queue : List StreamEvent) : Prop :=
  (streamLoop passes queue {}).isSome = true ∧ usagesOf (queue.drop (eventsRead passes queue).length) = []

theorem usagesOf_append (xs ys : List StreamEvent) : usagesOf (xs ++ ys) = usagesOf xs ++ usagesOf ys :=
  List.filterMap_append

theorem isPrefix_eventsRead (passes : List StreamPass) (queue : List StreamEvent) : eventsRead passes queue <+: queue := by
  fun_induction eventsRead passes queue with
  | case1 passes queue ih => exact ih
  | case2 appended passes item queue hterm => exact List.nil_prefix
  | case3 appended passes item queue hterm ih =>
    split_ifs
    · exact (List.cons_prefix_cons).mpr ⟨rfl, ih⟩
    · exact (List.cons_prefix_cons).mpr ⟨rfl, List.nil_prefix⟩
  | case4 passes queue => exact List.nil_prefix

/-- The loop adds up the usage events it reads. -/
theorem streamLoop_some {passes : List StreamPass} {queue : List StreamEvent} {totals totals' : Usage}
    (h : streamLoop passes queue totals = some totals') :
    totals' = (usagesOf (eventsRead passes queue)).foldl addTotals totals := by
  fun_induction streamLoop passes queue totals with
  | case1 | case2 => cases h
  | case3 | case5 =>
    obtain rfl := Option.some.inj h
    simp [eventsRead, usagesOf]
  | case4 passes queue totals ih =>
    rw [eventsRead]
    exact ih h
  | case6 appended passes item queue totals hterm =>
    obtain rfl := Option.some.inj h
    simp [eventsRead, hterm, usagesOf]
  | case7 passes item queue totals hterm totals₁ ih =>
    rw [eventsRead, if_neg hterm, if_pos rfl, ← List.singleton_append, usagesOf_append, List.foldl_append]
    exact ih h
  | case8 => cases h

/-- **What a read of the events adds to the row.** -/
theorem used_recorded (passes : List StreamPass) (queue : List StreamEvent) (mode : Option String)
    (run : AgentRunRow) (c : Counter) :
    (recorded passes queue mode run).used c = run.used c +
      if (streamLoop passes queue {}).isSome then total c (usagesOf (eventsRead passes queue)) else 0 := by
  unfold recorded
  cases h : streamLoop passes queue {} with
  | none => simp
  | some totals =>
    rw [streamLoop_some h]
    simp only [Option.isSome_some, if_true, used_recordUsage]
    rw [← count_streamTotals]
    rfl

/-! ### The usage of a line -/

namespace ClaudeParser

variable (P : ParserEnv)

/-- The counters of a `result`, where they are valid. -/
def resultUsage (data : Doc) : Except TurnError Usage := do
  let u ← dict (data.get "usage")
  let input ← P.count (Doc.get u "input_tokens")
  let output ← P.count (Doc.get u "output_tokens")
  let cacheRead ← P.count (Doc.get u "cache_read_input_tokens")
  let turns ← P.count (data.get "num_turns")
  return { inputTokens := input, outputTokens := output, cacheReadTokens := cacheRead, turns := turns }

/-- What the object of a line says was spent. -/
def spentBy (data : Doc) : List Usage :=
  if (data.get "type").isText "result" then
    match resultUsage P data with
    | .ok u => [u]
    | .error _ => []
  else []

/-- Only the last event of a line ends a turn. -/
def Tidy : List StreamEvent → Prop
  | [] => True
  | item :: rest => (item.type.terminal = true → rest = []) ∧ Tidy rest

variable {P} {data : Doc} {items : List StreamEvent}

theorem usagesOf_of_spoken (h : ∀ item ∈ items, Spoken item) : usagesOf items = [] := by
  rw [usagesOf, List.filterMap_eq_nil_iff]
  intro item hitem
  have hs := h item hitem
  cases item with
  | usage u => exact hs.elim
  | _ => rfl

theorem tidy_of_spoken (h : ∀ item ∈ items, Spoken item) : Tidy items := by
  induction items with
  | nil => trivial
  | cons item rest ih =>
    refine ⟨fun hterm => ?_, ih fun i hi => h i (by simp [hi])⟩
    have hs : Spoken item := h item (by simp)
    cases item with
    | runCompleted _ | runFailed _ _ _ | runCancelled => exact hs.elim
    | _ => cases hterm

/-- A `result` gives its usage and the end of the turn. -/
theorem onResult_cases (h : onResult P data = .ok items) :
    ∃ u e, resultUsage P data = .ok u ∧ items = [.usage u, e] ∧ usagesOf [e] = [] := by
  unfold onResult at h
  obtain ⟨u, hu, h⟩ := ok_of_bind h
  obtain ⟨input, hinput, h⟩ := ok_of_bind h
  obtain ⟨output, houtput, h⟩ := ok_of_bind h
  obtain ⟨cacheRead, hcache, h⟩ := ok_of_bind h
  obtain ⟨turns, hturns, h⟩ := ok_of_bind h
  obtain ⟨answer, -, h⟩ := ok_of_bind h
  obtain ⟨failing, -, h⟩ := ok_of_bind h
  have husage : resultUsage P data =
      .ok { inputTokens := input, outputTokens := output, cacheReadTokens := cacheRead, turns := turns } := by
    simp only [resultUsage, bind, Except.bind, hu, hinput, houtput, hcache, hturns]
    rfl
  cases failing with
  | true =>
    obtain ⟨msg, -, h⟩ := ok_of_bind h
    obtain ⟨reset, -, h⟩ := ok_of_bind h
    exact ⟨_, _, husage, (Except.ok.inj h).symm, rfl⟩
  | false => exact ⟨_, _, husage, (Except.ok.inj h).symm, rfl⟩

/-- Only a `result` has events that report usage, and those report its counters. -/
theorem feed_spent (h : feed P (some data) = .ok items) : Tidy items ∧ usagesOf items = spentBy P data := by
  unfold feed at h
  simp only at h
  have hother : ∀ {kind : String}, (data.get "type").isText kind = true → kind ≠ "result" →
      spentBy P data = [] := by
    intro kind hkind hne
    rw [spentBy, if_neg]
    rw [Val.isText_iff.mp hkind, Val.isText_iff]
    intro heq
    exact hne (Val.str.inj heq)
  split_ifs at h with hinit hassistant huser hresult
  · rw [Bool.and_eq_true] at hinit
    rw [hother hinit.1 (by decide)]
    unfold onInit at h
    simp only at h
    split_ifs at h
    · obtain ⟨session, hs, h⟩ := ok_of_bind h
      obtain rfl := Except.ok.inj h
      have hspoken : ∀ item ∈ session ++ observed (data.get "model") .sessionInit "claude.system.init",
          Spoken item := by
        intro item hitem
        rcases List.mem_append.mp hitem with hitem | hitem
        · exact spoken_sessionOf hs item hitem
        · exact spoken_observed _ _ _ item hitem
      exact ⟨tidy_of_spoken hspoken, usagesOf_of_spoken hspoken⟩
    · obtain ⟨shown, -, h⟩ := ok_of_bind h
      obtain rfl := Except.ok.inj h
      exact ⟨⟨fun _ => rfl, trivial⟩, rfl⟩
  · rw [hother hassistant (by decide)]
    exact ⟨tidy_of_spoken (spoken_onAssistant h), usagesOf_of_spoken (spoken_onAssistant h)⟩
  · rw [hother huser (by decide)]
    exact ⟨tidy_of_spoken (spoken_onUser h), usagesOf_of_spoken (spoken_onUser h)⟩
  · obtain ⟨u, e, hu, rfl, he⟩ := onResult_cases h
    rw [spentBy, if_pos hresult, hu]
    refine ⟨⟨fun hterm => (by cases hterm), fun _ => rfl, trivial⟩, ?_⟩
    have hcons : usagesOf [.usage u, e] = u :: usagesOf [e] := rfl
    rw [hcons, he]
  · obtain rfl := Except.ok.inj h
    rw [spentBy, if_neg hresult]
    exact ⟨trivial, rfl⟩

/-- A control message has no events. -/
theorem feed_of_kind {kind : String} (h : (data.get "type").isText kind = true)
    (hk : kind ∉ ["system", "assistant", "user", "result"]) : feed P (some data) = .ok [] := by
  have hne : ∀ k ∈ ["system", "assistant", "user", "result"], (data.get "type").isText k = false := by
    intro k hmem
    rw [Val.isText_iff.mp h, Bool.eq_false_iff]
    intro heq
    obtain rfl := Val.str.inj (Val.isText_iff.mp heq)
    exact hk hmem
  simp only [feed, hne "system" (by simp), hne "assistant" (by simp), hne "user" (by simp),
    hne "result" (by simp), Bool.false_and, Bool.false_eq_true, if_false]

end ClaudeParser

end Broker.Agent
