import Broker.Agent.CodexParser
import Broker.Agent.ResetAt

/-!
# Broker.Agent.QuotaReport — how a quota failure of a CLI reaches the executor

`SubprocessCLI.start` feeds the lines of the process to a parser and ends with its `finish`; `pump` puts
what comes out into the executor's queue, and an `adapter_error` where the adapter raises.  A quota
failure arrives as such exactly when `parse_reset_at` returns on its text (`quota_reported_iff`).
-/

namespace Broker.Agent

open Broker.Lib Broker.Db

/-! ### The adapter -/

/-- A parser of the lines of a process: what a line gives, and what its end gives. -/
structure LineParser (σ : Type) where
  feed : σ → String → Except TurnError (σ × List StreamEvent)
  finish : σ → ℤ → String → Except TurnError StreamEvent

/-- The item ends the stream. -/
def StreamEvent.ends : StreamEvent → Bool
  | .runCompleted _ | .runFailed _ _ _ | .runCancelled => true
  | _ => false

/-- `SubprocessCLI.start` from its loop on: what is yielded, and what is raised.  A terminal event is the last
that is yielded. -/
def start {σ : Type} (p : LineParser σ) (returncode : ℤ) (stderr : String) :
    σ → List String → List StreamEvent × Option TurnError
  | s, [] =>
    match p.finish s returncode stderr with
    | .ok e => ([e], none)
    | .error x => ([], some x)
  | s, line :: lines =>
    match p.feed s line with
    | .error x => ([], some x)
    | .ok (s', items) =>
      match items.find? StreamEvent.ends with
      | some e => (items.takeWhile (fun i => !i.ends) ++ [e], none)
      | none => (items ++ (start p returncode stderr s' lines).1, (start p returncode stderr s' lines).2)

/-- `pump`: what the executor's queue gets. -/
def pump (errorText : TurnError → String) (r : List StreamEvent × Option TurnError) : List StreamEvent :=
  r.1 ++ match r.2 with
    | none => []
    | some x => [.runFailed "adapter_error" (cut 500 (errorText x)) none]

/-- The event that ends the run. -/
def endOf (items : List StreamEvent) : Option StreamEvent := items.find? StreamEvent.ends

/-! ### The two parsers -/

/-- `ClaudeParser`. -/
def claudeLines (P : ParserEnv) : LineParser Unit where
  feed _ line := do
    let data ← ClaudeParser.json P (PyConv.stripText line)
    let items ← ClaudeParser.feed P data
    return ((), items)
  finish _ rc stderr := ClaudeParser.finish P rc stderr

/-- `CodexParser`. -/
def codexLines (P : CodexEnv) : LineParser CodexState where
  feed s line := do
    let data ← ClaudeParser.json P.toParserEnv (PyConv.stripText line)
    CodexParser.feed P s data
  finish s rc stderr := CodexParser.finish P s rc stderr

/-- `parse_reset_at(msg)` at a time of the clock; an `OverflowError` is no `ValueError`. -/
def readsReset (env : ResetEnv) (isoformat : Stamp → String) (clock : Datetime) (msg : String) :
    Except TurnError (Option String) :=
  match parseResetAt env msg (.aware clock 0) with
  | .ok r => .ok (r.map isoformat)
  | .error _ => .error .uncaught

/-- The parser, with `parse_reset_at` in it. -/
def ParserEnv.reading (P : ParserEnv) (env : ResetEnv) (isoformat : Stamp → String) (clock : Datetime) :
    ParserEnv :=
  { P with parseResetAt := readsReset env isoformat clock }

/-- The parser that reports no reset time. -/
def ParserEnv.mute (P : ParserEnv) : ParserEnv := { P with parseResetAt := fun _ => .ok none }

def CodexEnv.reading (P : CodexEnv) (env : ResetEnv) (isoformat : Stamp → String) (clock : Datetime) : CodexEnv :=
  { P with parseResetAt := readsReset env isoformat clock }

def CodexEnv.mute (P : CodexEnv) : CodexEnv := { P with parseResetAt := fun _ => .ok none }

/-! ### One line -/

/-- How reading the reset time changes what a line gives: not at all, or it ends with the failure all the same,
or it raises. -/
inductive ReadsAlike {α : Type} (reads : String → Except TurnError (Option String)) (last : α → List StreamEvent) :
    Except TurnError α → Except TurnError α → Prop
  | same (x) (h : ∀ a, x = .ok a → ∀ msg, StreamEvent.runFailed "quota_exhausted" msg none ∉ last a) :
      ReadsAlike reads last x x
  | reported (a b) (pre : List StreamEvent) (c msg reset) (hpre : ∀ i ∈ pre, i.ends = false)
      (ha : last a = pre ++ [.runFailed c msg none]) (hb : last b = pre ++ [.runFailed c msg reset])
      (hreads : reads msg = .ok reset) : ReadsAlike reads last (.ok a) (.ok b)
  | raised (a) (pre : List StreamEvent) (c msg) (hpre : ∀ i ∈ pre, i.ends = false)
      (ha : last a = pre ++ [.runFailed c msg none]) (hreads : reads msg = .error .uncaught) :
      ReadsAlike reads last (.ok a) (.error .uncaught)

section Stream

variable {σ : Type} {errorText : TurnError → String} {reads : String → Except TurnError (Option String)}
  {rc : ℤ} {stderr : String}

theorem endOf_raised (errorText : TurnError → String) (x : TurnError) :
    endOf (pump errorText ([], some x)) = some (.runFailed "adapter_error" (cut 500 (errorText x)) none) := rfl

theorem endOf_ended {items : List StreamEvent} {e : StreamEvent} (h : items.find? StreamEvent.ends = some e) :
    endOf (pump errorText (items.takeWhile (fun i => !i.ends) ++ [e], none)) = some e := by
  have hends : e.ends = true := List.find?_some h
  have hpre : (items.takeWhile fun i => !i.ends).find? StreamEvent.ends = none := by
    rw [List.find?_eq_none]
    intro i hi
    have hnot := List.all_eq_true.mp List.all_takeWhile i hi
    simpa using hnot
  unfold endOf pump
  simp [List.find?_append, hpre, hends]

theorem endOf_append {items : List StreamEvent} (h : items.find? StreamEvent.ends = none)
    (r : List StreamEvent × Option TurnError) :
    endOf (pump errorText (items ++ r.1, r.2)) = endOf (pump errorText r) := by
  unfold endOf pump
  rw [List.append_assoc, List.find?_append, h, Option.none_or]

theorem find_ends {pre : List StreamEvent} (hpre : ∀ i ∈ pre, i.ends = false) (c msg : String)
    (reset : Option String) :
    (pre ++ [StreamEvent.runFailed c msg reset]).find? StreamEvent.ends = some (.runFailed c msg reset) := by
  have hnone : pre.find? StreamEvent.ends = none := by
    rw [List.find?_eq_none]
    intro i hi
    simp [hpre i hi]
  rw [List.find?_append, hnone]
  rfl

/-- A run that ends in a quota failure, were its reset time not read. -/
theorem start_reads {p q : LineParser σ}
    (hfeed : ∀ s line, ReadsAlike reads Prod.snd (p.feed s line) (q.feed s line))
    (hfinish : ∀ s, ReadsAlike reads (fun e => [e]) (p.finish s rc stderr) (q.finish s rc stderr)) {msg : String} :
    ∀ {lines : List String} {s : σ},
      endOf (pump errorText (start p rc stderr s lines)) = some (.runFailed "quota_exhausted" msg none) →
      (∃ reset, reads msg = .ok reset ∧
        endOf (pump errorText (start q rc stderr s lines)) = some (.runFailed "quota_exhausted" msg reset)) ∨
      (reads msg = .error .uncaught ∧
        endOf (pump errorText (start q rc stderr s lines)) =
          some (.runFailed "adapter_error" (cut 500 (errorText .uncaught)) none))
  | [], s, h => by
    unfold start at h ⊢
    generalize hx : p.finish s rc stderr = x at h
    generalize hy : q.finish s rc stderr = y
    have hreads := hfinish s
    rw [hx, hy] at hreads
    have hone : ∀ e : StreamEvent, endOf (pump errorText ([e], none)) = [e].find? StreamEvent.ends :=
      fun e => rfl
    cases hreads with
    | same _ hno =>
      cases x with
      | error x =>
        rw [endOf_raised] at h
        simp at h
      | ok e =>
        dsimp only at h
        rw [hone] at h
        have hmem := List.mem_of_find?_eq_some h
        exact absurd hmem (hno e rfl msg)
    | reported a b pre c msg' reset hpre ha hb hr =>
      dsimp only at h ⊢
      rw [hone, ha, find_ends hpre] at h
      obtain ⟨rfl, rfl, -⟩ := StreamEvent.runFailed.inj (Option.some.inj h)
      exact .inl ⟨reset, hr, by rw [hone, hb, find_ends hpre]⟩
    | raised a pre c msg' hpre ha hr =>
      dsimp only at h
      rw [hone, ha, find_ends hpre] at h
      obtain ⟨rfl, rfl, -⟩ := StreamEvent.runFailed.inj (Option.some.inj h)
      exact .inr ⟨hr, rfl⟩
  | line :: lines, s, h => by
    unfold start at h ⊢
    generalize hx : p.feed s line = x at h
    generalize hy : q.feed s line = y
    have hreads := hfeed s line
    rw [hx, hy] at hreads
    cases hreads with
    | same _ hno =>
      cases x with
      | error x =>
        rw [endOf_raised] at h
        simp at h
      | ok r =>
        obtain ⟨s', items⟩ := r
        dsimp only at h ⊢
        cases hfind : items.find? StreamEvent.ends with
        | none =>
          simp only [hfind] at h ⊢
          rw [endOf_append hfind] at h ⊢
          exact start_reads hfeed hfinish h
        | some e =>
          simp only [hfind] at h
          rw [endOf_ended hfind] at h
          obtain rfl := Option.some.inj h
          exact absurd (List.mem_of_find?_eq_some hfind) (hno _ rfl msg)
    | reported a b pre c msg' reset hpre ha hb hr =>
      obtain ⟨s₁, items₁⟩ := a
      obtain ⟨s₂, items₂⟩ := b
      dsimp only at h ha hb ⊢
      have hfind₁ : items₁.find? StreamEvent.ends = some (.runFailed c msg' none) := by
        rw [ha, find_ends hpre]
      have hfind₂ : items₂.find? StreamEvent.ends = some (.runFailed c msg' reset) := by
        rw [hb, find_ends hpre]
      simp only [hfind₁] at h
      simp only [hfind₂]
      rw [endOf_ended hfind₁] at h
      obtain ⟨rfl, rfl, -⟩ := StreamEvent.runFailed.inj (Option.some.inj h)
      exact .inl ⟨reset, hr, endOf_ended hfind₂⟩
    | raised a pre c msg' hpre ha hr =>
      obtain ⟨s₁, items₁⟩ := a
      dsimp only at h ha
      have hfind₁ : items₁.find? StreamEvent.ends = some (.runFailed c msg' none) := by
        rw [ha, find_ends hpre]
      simp only [hfind₁] at h
      rw [endOf_ended hfind₁] at h
      obtain ⟨rfl, rfl, -⟩ := StreamEvent.runFailed.inj (Option.some.inj h)
      exact .inr ⟨hr, rfl⟩

end Stream

/-! ### The two parsers read alike -/

section Parsers

variable {env : ResetEnv} {isoformat : Stamp → String} {clock : Datetime}

/-- Only the head of a message is read. -/
theorem readsReset_cut (msg : String) :
    readsReset env isoformat clock (cut maxScan msg) = readsReset env isoformat clock msg := by
  have hhead : (cut maxScan msg).toList.take maxScan = msg.toList.take maxScan := by
    unfold cut
    rw [String.toList_ofList, List.take_take, min_self]
  unfold readsReset parseResetAt
  rw [hhead]

theorem readsReset_cases (env : ResetEnv) (isoformat : Stamp → String) (clock : Datetime) (msg : String) :
    (∃ reset, readsReset env isoformat clock msg = .ok reset ∧ ResetFits env msg (.aware clock 0)) ∨
      (readsReset env isoformat clock msg = .error .uncaught ∧ ¬ResetFits env msg (.aware clock 0)) := by
  unfold readsReset
  cases h : parseResetAt env msg (.aware clock 0) with
  | ok r => exact .inl ⟨_, rfl, parseResetAt_returns_iff.mp ⟨r, h⟩⟩
  | error e =>
    refine .inr ⟨rfl, fun hfits => ?_⟩
    obtain ⟨r, hr⟩ := parseResetAt_returns_iff.mpr hfits
    rw [h] at hr
    cases hr

/-- A failure whose reset time is read last. -/
theorem reads_failure {α : Type} {last : α → List StreamEvent} (mk : Option String → α) {msg c : String}
    {p : List StreamEvent} (hpre : ∀ i ∈ p, i.ends = false)
    (hmk : ∀ reset, last (mk reset) = p ++ [.runFailed c (cut maxScan msg) reset]) :
    ReadsAlike (readsReset env isoformat clock) last (.ok (mk none))
      (readsReset env isoformat clock msg >>= fun reset => .ok (mk reset)) := by
  rcases readsReset_cases env isoformat clock msg with ⟨reset, hr, -⟩ | ⟨hr, -⟩
  · rw [hr]
    exact .reported _ _ p c _ reset hpre (hmk none) (hmk reset) (by rw [readsReset_cut, hr])
  · rw [hr]
    exact .raised _ p c _ hpre (hmk none) (by rw [readsReset_cut, hr])

/-- What comes before is the same for both. -/
theorem ReadsAlike.bind {α β : Type} {reads : String → Except TurnError (Option String)} {last : α → List StreamEvent}
    {x : Except TurnError β} {f g : β → Except TurnError α}
    (h : ∀ b, x = .ok b → ReadsAlike reads last (f b) (g b)) : ReadsAlike reads last (x >>= f) (x >>= g) := by
  cases x with
  | error e => exact .same _ fun a ha => nomatch ha
  | ok b => exact h b rfl

theorem ReadsAlike.map {α β : Type} {reads : String → Except TurnError (Option String)} {last : β → List StreamEvent}
    {f : α → β} {x y : Except TurnError α} (h : ReadsAlike reads (fun a => last (f a)) x y) :
    ReadsAlike reads last (x >>= fun a => pure (f a)) (y >>= fun a => pure (f a)) := by
  cases h with
  | same _ hno =>
    refine .same _ fun b hb msg => ?_
    obtain ⟨a, ha, hf⟩ := Checked.bind_ok.mp hb
    obtain rfl := Except.ok.inj hf
    exact hno a ha msg
  | reported a b pre c msg reset hpre ha hb hreads => exact .reported _ _ pre c msg reset hpre ha hb hreads
  | raised a pre c msg hpre ha hreads => exact .raised _ pre c msg hpre ha hreads

/-! ### The Claude parser -/

/-- A refused key is the only failure of a session's start. -/
theorem class_of_onInit {P : ParserEnv} {data : Doc} {items : List StreamEvent}
    (h : ClaudeParser.onInit P data = .ok items) {c msg : String} {reset : Option String}
    (hmem : .runFailed c msg reset ∈ items) : c = ClaudeParser.billingRefused := by
  unfold ClaudeParser.onInit at h
  simp only at h
  split_ifs at h with hsrc
  · obtain ⟨session, hs, hrest⟩ := ClaudeParser.ok_of_bind h
    obtain rfl := Except.ok.inj hrest
    rcases List.mem_append.mp hmem with hmem | hmem
    · exact (ClaudeParser.spoken_sessionOf hs _ hmem).elim
    · exact (ClaudeParser.spoken_observed _ _ _ _ hmem).elim
  · obtain ⟨shown, -, hrest⟩ := ClaudeParser.ok_of_bind h
    obtain rfl := Except.ok.inj hrest
    exact (StreamEvent.runFailed.inj (List.mem_singleton.mp hmem)).1

theorem reads_onResult (P : ParserEnv) (data : Doc) :
    ReadsAlike (readsReset env isoformat clock) id (ClaudeParser.onResult P.mute data)
      (ClaudeParser.onResult (P.reading env isoformat clock) data) := by
  unfold ClaudeParser.onResult
  refine ReadsAlike.bind fun u _ => ReadsAlike.bind fun input _ => ReadsAlike.bind fun output _ =>
    ReadsAlike.bind fun cached _ => ReadsAlike.bind fun turns _ => ReadsAlike.bind fun answer _ =>
    ReadsAlike.bind fun failing _ => ?_
  cases failing with
  | true =>
    refine ReadsAlike.bind fun msg _ => ?_
    have hspent : ∀ u : Usage, ReadsAlike (readsReset env isoformat clock) id
        (.ok [.usage u, .runFailed (P.classifyFailure msg) (cut 2000 msg) none])
        (readsReset env isoformat clock msg >>= fun reset =>
          .ok [.usage u, .runFailed (P.classifyFailure msg) (cut 2000 msg) reset]) := by
      intro u
      refine reads_failure (c := P.classifyFailure msg) (p := [.usage u])
        (fun reset => [StreamEvent.usage u, .runFailed (P.classifyFailure msg) (cut 2000 msg) reset])
        (fun i hi => ?_) fun _ => rfl
      rw [List.mem_singleton.mp hi]
      rfl
    exact hspent _
  | false =>
    refine .same _ fun items hitems msg hmem => ?_
    obtain rfl := Except.ok.inj hitems
    simp at hmem

@[simp] theorem json_mute (P : ParserEnv) (line : String) :
    ClaudeParser.json P.mute line = ClaudeParser.json P line := rfl

@[simp] theorem json_reading (P : ParserEnv) (line : String) :
    ClaudeParser.json (P.reading env isoformat clock) line = ClaudeParser.json P line := rfl

@[simp] theorem toParserEnv_mute (P : CodexEnv) : P.mute.toParserEnv = P.toParserEnv.mute := rfl

@[simp] theorem toParserEnv_reading (P : CodexEnv) :
    (P.reading env isoformat clock).toParserEnv = P.toParserEnv.reading env isoformat clock := rfl

/-- **The Claude parser's lines.** -/
theorem reads_claudeFeed (P : ParserEnv) (line : String) :
    ReadsAlike (readsReset env isoformat clock) Prod.snd ((claudeLines P.mute).feed () line)
      ((claudeLines (P.reading env isoformat clock)).feed () line) := by
  simp only [claudeLines, json_mute, json_reading]
  refine ReadsAlike.bind fun data _ => ReadsAlike.map ?_
  cases data with
  | none =>
    refine .same _ fun items hitems msg hmem => ?_
    obtain rfl := Except.ok.inj hitems
    cases hmem
  | some data =>
    unfold ClaudeParser.feed
    dsimp only
    split_ifs with hinit hassistant huser hresult
    · refine .same _ fun items hitems msg hmem => ?_
      exact absurd (class_of_onInit hitems hmem) (by decide)
    · exact .same _ fun items hitems msg hmem => (ClaudeParser.spoken_onAssistant hitems _ hmem).elim
    · exact .same _ fun items hitems msg hmem => (ClaudeParser.spoken_onUser hitems _ hmem).elim
    · exact reads_onResult P data
    · refine .same _ fun items hitems msg hmem => ?_
      obtain rfl := Except.ok.inj hitems
      cases hmem

theorem reads_claudeFinish (P : ParserEnv) (rc : ℤ) (stderr : String) :
    ReadsAlike (readsReset env isoformat clock) (fun e => [e]) ((claudeLines P.mute).finish () rc stderr)
      ((claudeLines (P.reading env isoformat clock)).finish () rc stderr) := by
  show ReadsAlike _ _ (ClaudeParser.finish P.mute rc stderr) (ClaudeParser.finish (P.reading _ _ _) rc stderr)
  unfold ClaudeParser.finish
  generalize (if PyConv.stripText stderr = "" then
    "claude exited " ++ toString rc ++ " without a result" else PyConv.stripText stderr) = msg
  exact reads_failure (c := P.classifyFailure msg) (p := [])
    (fun reset => StreamEvent.runFailed (P.classifyFailure msg) (cut 2000 msg) reset)
    (fun _ h => nomatch h) fun _ => rfl

/-! ### The Codex parser -/

theorem class_of_onCall {P : CodexEnv} {s t : CodexState} {item : Doc} {shell : Bool} {items : List StreamEvent}
    (h : CodexParser.onCall P s item shell = .ok (t, items)) {c msg : String} {reset : Option String}
    (hmem : .runFailed c msg reset ∈ items) : c = "sandbox_unavailable" := by
  unfold CodexParser.onCall at h
  obtain ⟨callId, -, h₁⟩ := Checked.bind_ok.mp h
  obtain ⟨name, -, h₂⟩ := Checked.bind_ok.mp h₁
  obtain ⟨out, -, h₃⟩ := Checked.bind_ok.mp h₂
  obtain ⟨-, rfl⟩ := Prod.mk.inj (Except.ok.inj h₃)
  rcases List.mem_append.mp hmem with hmem | hmem
  · simp at hmem
  · split_ifs at hmem
    · exact (StreamEvent.runFailed.inj (List.mem_singleton.mp hmem)).1
    · cases hmem

theorem changes_noFailure (P : CodexEnv) (change : Val PyFloat) (items : List StreamEvent)
    (h : CodexParser.onChange P change = .ok items) :
    ∀ i ∈ items, ∀ c msg reset, i ≠ .runFailed c msg reset := by
  unfold CodexParser.onChange at h
  split at h
  · split_ifs at h
    · obtain ⟨path, -, h₁⟩ := Checked.bind_ok.mp h
      obtain ⟨action, -, h₂⟩ := Checked.bind_ok.mp h₁
      obtain rfl := Except.ok.inj h₂
      simp
    · obtain rfl := Except.ok.inj h
      simp
  · cases h

theorem class_of_onItem {P : CodexEnv} {s t : CodexState} {item : Doc} {items : List StreamEvent}
    (h : CodexParser.onItem P s item = .ok (t, items)) {c msg : String} {reset : Option String}
    (hmem : .runFailed c msg reset ∈ items) : c = "sandbox_unavailable" := by
  unfold CodexParser.onItem at h
  split_ifs at h
  · obtain ⟨said, -, h₁⟩ := Checked.bind_ok.mp h
    obtain ⟨-, rfl⟩ := Prod.mk.inj (Except.ok.inj h₁)
    simp at hmem
  · exact class_of_onCall h hmem
  · exact class_of_onCall h hmem
  · obtain ⟨changes, -, h₁⟩ := Checked.bind_ok.mp h
    obtain ⟨events, hevents, h₂⟩ := Checked.bind_ok.mp h₁
    obtain ⟨-, rfl⟩ := Prod.mk.inj (Except.ok.inj h₂)
    exact absurd rfl (ClaudeParser.forall_of_mapM (changes_noFailure P) hevents _ hmem c msg reset)
  · obtain ⟨-, rfl⟩ := Prod.mk.inj (Except.ok.inj h)
    cases hmem

/-- A sandbox that could not be applied is the only failure of a line. -/
theorem class_of_codexFeed {P : CodexEnv} {s t : CodexState} {data : Option Doc} {items : List StreamEvent}
    (h : CodexParser.feed P s data = .ok (t, items)) {c msg : String} {reset : Option String}
    (hmem : .runFailed c msg reset ∈ items) : c = "sandbox_unavailable" := by
  cases data with
  | none =>
    obtain ⟨-, rfl⟩ := Prod.mk.inj (Except.ok.inj h)
    cases hmem
  | some data =>
    unfold CodexParser.feed at h
    dsimp only at h
    split_ifs at h
    · obtain ⟨id, -, h₁⟩ := Checked.bind_ok.mp h
      obtain ⟨events, hevents, h₂⟩ := Checked.bind_ok.mp h₁
      obtain ⟨-, rfl⟩ := Prod.mk.inj (Except.ok.inj h₂)
      unfold ClaudeParser.sessionAssigned at hevents
      split_ifs at hevents
      obtain rfl := Except.ok.inj hevents
      simp at hmem
    · obtain ⟨u, -, h₁⟩ := Checked.bind_ok.mp h
      obtain ⟨input, -, h₂⟩ := Checked.bind_ok.mp h₁
      obtain ⟨output, -, h₃⟩ := Checked.bind_ok.mp h₂
      obtain ⟨total, -, h₄⟩ := Checked.bind_ok.mp h₃
      obtain ⟨cached, -, h₅⟩ := Checked.bind_ok.mp h₄
      obtain ⟨reasoning, -, h₆⟩ := Checked.bind_ok.mp h₅
      obtain ⟨-, rfl⟩ := Prod.mk.inj (Except.ok.inj h₆)
      simp at hmem
    · obtain ⟨failure, -, h₁⟩ := Checked.bind_ok.mp h
      obtain ⟨text, -, h₂⟩ := Checked.bind_ok.mp h₁
      obtain ⟨-, rfl⟩ := Prod.mk.inj (Except.ok.inj h₂)
      cases hmem
    · obtain ⟨text, -, h₁⟩ := Checked.bind_ok.mp h
      obtain ⟨-, rfl⟩ := Prod.mk.inj (Except.ok.inj h₁)
      cases hmem
    · obtain ⟨item, -, h₁⟩ := Checked.bind_ok.mp h
      exact class_of_onItem h₁ hmem
    · obtain ⟨-, rfl⟩ := Prod.mk.inj (Except.ok.inj h)
      cases hmem

theorem reads_codexFeed (P : CodexEnv) (s : CodexState) (line : String) :
    ReadsAlike (readsReset env isoformat clock) Prod.snd ((codexLines P.mute).feed s line)
      ((codexLines (P.reading env isoformat clock)).feed s line) := by
  simp only [codexLines, toParserEnv_mute, toParserEnv_reading, json_mute, json_reading]
  refine ReadsAlike.bind fun data _ => ?_
  refine .same _ fun r hr msg hmem => ?_
  obtain ⟨t, items⟩ := r
  exact absurd (class_of_codexFeed hr hmem) (by decide)

theorem reads_codexFinish (P : CodexEnv) (s : CodexState) (rc : ℤ) (stderr : String) :
    ReadsAlike (readsReset env isoformat clock) (fun e => [e]) ((codexLines P.mute).finish s rc stderr)
      ((codexLines (P.reading env isoformat clock)).finish s rc stderr) := by
  show ReadsAlike _ _ (CodexParser.finish P.mute s rc stderr) (CodexParser.finish (P.reading _ _ _) s rc stderr)
  unfold CodexParser.finish
  by_cases hdone : s.turnDone = true ∧ rc = 0 ∧ s.error = none
  · rw [if_pos hdone, if_pos hdone]
    refine .same _ fun e he msg hmem => ?_
    obtain rfl := Except.ok.inj he
    simp at hmem
  · rw [if_neg hdone, if_neg hdone]
    dsimp only
    have hmute : P.mute.sandboxFailure = P.sandboxFailure := rfl
    have hreading : (P.reading env isoformat clock).sandboxFailure = P.sandboxFailure := rfl
    rw [hmute, hreading]
    by_cases hsandbox : (P.sandboxFailure (CodexParser.failureMessage s rc stderr) ||
        P.sandboxFailure stderr) = true
    · rw [if_pos hsandbox, if_pos hsandbox]
      refine .same _ fun e he msg hmem => ?_
      obtain rfl := Except.ok.inj he
      simp at hmem
    · rw [if_neg hsandbox, if_neg hsandbox]
      generalize CodexParser.failureMessage s rc stderr = msg
      exact reads_failure (c := P.classifyFailure msg) (p := [])
        (fun reset => StreamEvent.runFailed (P.classifyFailure msg) (cut 2000 msg) reset)
        (fun _ h => nomatch h) fun _ => rfl

/-- A quota failure arrives as one exactly when its reset time is read; else the adapter has crashed. -/
theorem delivered_iff {σ : Type} {errorText : TurnError → String} {p q : LineParser σ} {rc : ℤ} {stderr : String}
    (hfeed : ∀ s line, ReadsAlike (readsReset env isoformat clock) Prod.snd (p.feed s line) (q.feed s line))
    (hfinish : ∀ s, ReadsAlike (readsReset env isoformat clock) (fun e => [e]) (p.finish s rc stderr)
      (q.finish s rc stderr)) {s : σ} {lines : List String} {msg : String}
    (h : endOf (pump errorText (start p rc stderr s lines)) = some (.runFailed "quota_exhausted" msg none)) :
    ((∃ reset, endOf (pump errorText (start q rc stderr s lines)) =
        some (.runFailed "quota_exhausted" msg reset)) ↔ ResetFits env msg (.aware clock 0)) ∧
      (¬ResetFits env msg (.aware clock 0) → endOf (pump errorText (start q rc stderr s lines)) =
        some (.runFailed "adapter_error" (cut 500 (errorText .uncaught)) none)) := by
  have hread := readsReset_cases env isoformat clock msg
  rcases start_reads hfeed hfinish h with ⟨reset, hok, hend⟩ | ⟨hraised, hend⟩
  · have hfits : ResetFits env msg (.aware clock 0) := by
      rcases hread with ⟨-, -, hfits⟩ | ⟨herror, -⟩
      · exact hfits
      · rw [hok] at herror
        cases herror
    exact ⟨iff_of_true ⟨reset, hend⟩ hfits, fun hno => absurd hfits hno⟩
  · have hno : ¬ResetFits env msg (.aware clock 0) := by
      rcases hread with ⟨reset, hok, -⟩ | ⟨-, hno⟩
      · rw [hraised] at hok
        cases hok
      · exact hno
    refine ⟨iff_of_false ?_ hno, fun _ => hend⟩
    rintro ⟨reset, hend'⟩
    rw [hend] at hend'
    simp at hend'

/-- **When quota reset parsing is total**: `parse_reset_at` returns exactly when nothing past the calendar is
asked for, and a quota failure of either CLI reaches the executor as one exactly then. -/
theorem quota_reported_iff (env : ResetEnv) (isoformat : Stamp → String) (errorText : TurnError → String)
    (clock : Datetime) :
    (∀ message now, (∃ r, parseResetAt env message now = .ok r) ↔ ResetFits env message now) ∧
    (∀ (P : ParserEnv) rc stderr lines msg,
      endOf (pump errorText (start (claudeLines P.mute) rc stderr () lines)) =
        some (.runFailed "quota_exhausted" msg none) →
      ((∃ reset, endOf (pump errorText (start (claudeLines (P.reading env isoformat clock)) rc stderr () lines)) =
          some (.runFailed "quota_exhausted" msg reset)) ↔ ResetFits env msg (.aware clock 0)) ∧
        (¬ResetFits env msg (.aware clock 0) →
          endOf (pump errorText (start (claudeLines (P.reading env isoformat clock)) rc stderr () lines)) =
            some (.runFailed "adapter_error" (cut 500 (errorText .uncaught)) none))) ∧
    ∀ (P : CodexEnv) rc stderr lines msg,
      endOf (pump errorText (start (codexLines P.mute) rc stderr {} lines)) =
        some (.runFailed "quota_exhausted" msg none) →
      ((∃ reset, endOf (pump errorText (start (codexLines (P.reading env isoformat clock)) rc stderr {} lines)) =
          some (.runFailed "quota_exhausted" msg reset)) ↔ ResetFits env msg (.aware clock 0)) ∧
        (¬ResetFits env msg (.aware clock 0) →
          endOf (pump errorText (start (codexLines (P.reading env isoformat clock)) rc stderr {} lines)) =
            some (.runFailed "adapter_error" (cut 500 (errorText .uncaught)) none)) := by
  refine ⟨fun message now => parseResetAt_returns_iff, ?_, ?_⟩
  · intro P rc stderr lines msg h
    exact delivered_iff (fun _ line => reads_claudeFeed P line) (fun _ => reads_claudeFinish P rc stderr) h
  · intro P rc stderr lines msg h
    exact delivered_iff (reads_codexFeed P) (fun s => reads_codexFinish P s rc stderr) h

end Parsers

/-! ### An hour too many -/

/-- A CLI whose limit is a quota. -/
def limitParser : ParserEnv where
  interp := ⟨100, 100, fun _ => ""⟩
  repr _ := .ok ""
  count _ := .ok none
  invalid _ _ := ""
  classifyFailure msg :=
    if msg.toList.tails.any fun t => "hit your weekly limit".toList.isPrefixOf t then "quota_exhausted"
    else "cli_error"
  parseResetAt _ := .ok none
  rel path := path

/-- The last words of a CLI that waits for eleven million years. -/
def farLimit : String := "You have hit your weekly limit. Try again in 99999999999 hours"

theorem farLimit_crashes :
    parseResetAt easternEnv farLimit (.aware mondayMorning 0) = .error .overflowError ∧
      endOf (pump (fun _ => "date value out of range") (start (claudeLines limitParser.mute) 1 farLimit () [])) =
        some (.runFailed "quota_exhausted" farLimit none) ∧
      endOf (pump (fun _ => "date value out of range")
        (start (claudeLines (limitParser.reading easternEnv (fun _ => "") mondayMorning)) 1 farLimit () [])) =
        some (.runFailed "adapter_error" "date value out of range" none) := by
  refine ⟨rfl, ?_, ?_⟩
  · rfl
  · rfl

def nearLimit : String := "You have hit your weekly limit, resets Oct 15, 8pm (EST)"

/-- A limit of this week is reported. -/
theorem quota_reported_iff_evening :
    ∃ reset, endOf (pump (fun _ => "") (start (claudeLines (limitParser.reading easternEnv (fun _ => "")
      mondayMorning)) 1 nearLimit () [])) = some (.runFailed "quota_exhausted" nearLimit reset) := by
  have hmute : endOf (pump (fun _ => "") (start (claudeLines limitParser.mute) 1 nearLimit () [])) =
      some (.runFailed "quota_exhausted" nearLimit none) := rfl
  have hparse : parseResetAt easternEnv nearLimit (.aware mondayMorning 0) =
      .ok (some (.aware eveningAnswer 0)) := rfl
  obtain ⟨hreturns, hclaude, -⟩ := quota_reported_iff easternEnv (fun _ => "") (fun _ => "") mondayMorning
  exact (hclaude limitParser 1 nearLimit [] nearLimit hmute).1.mpr ((hreturns _ _).mp ⟨_, hparse⟩)

end Broker.Agent
