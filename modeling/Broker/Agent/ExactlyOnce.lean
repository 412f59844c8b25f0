import Broker.Agent.ClientTools
import Broker.Lib.Trans
import Mathlib.Data.List.Nodup

/-!
# Broker.Agent.ExactlyOnce — a client tool result reaches the worker once

`HandoffLog` runs any sequence of handoff calls on one row and keeps what each of them replied.  A call
id passes through three stages (`Stage`): no result, one accepted, one delivered; replay is recognised
from the ready call in the second and from the history in the third.
-/

namespace Broker.Agent

open Broker.Lib Broker.Db

section Run

variable (te : ToolEnv) (run : AgentRunRow)

/-- The row and the replies so far. -/
structure HandoffLog where
  job : AgentJobRow
  trace : List (ToolOp × ToolReply) := []

def HandoffLog.step (s : HandoffLog) (op : ToolOp) : Option HandoffLog :=
  some ⟨(callTool te run s.job op).1, s.trace ++ [(op, (callTool te run s.job op).2)]⟩

end Run

/-- The result of the first `submit_result` for `callId` that returned `True`. -/
def firstAccepted (callId : String) (trace : List (ToolOp × ToolReply)) : Option ToolResult :=
  ((trace.filterMap accepted).find? (fun x => x.1 = callId)).map (·.2)

/-- The results the worker received for `callId`, in order. -/
def received (callId : String) (trace : List (ToolOp × ToolReply)) : List ToolResult :=
  ((trace.filterMap delivered).filter (fun x => x.1 = callId)).map (·.2)

/-! ### Every call id is accepted at most once and delivered at most once -/

theorem firstAccepted_concat (callId : String) (trace : List (ToolOp × ToolReply)) (e : ToolOp × ToolReply) :
    firstAccepted callId (trace ++ [e]) =
      (firstAccepted callId trace).or
        ((accepted e).bind fun x => if x.1 = callId then some x.2 else none) := by
  unfold firstAccepted
  rw [List.filterMap_append, List.find?_append, Option.map_or]
  congr 1
  cases h : accepted e with
  | none => simp [h]
  | some x => by_cases hx : x.1 = callId <;> simp [h, hx]

theorem received_concat (callId : String) (trace : List (ToolOp × ToolReply)) (e : ToolOp × ToolReply) :
    received callId (trace ++ [e]) = received callId trace ++
      ((delivered e).bind fun x => if x.1 = callId then some x.2 else none).toList := by
  unfold received
  rw [List.filterMap_append, List.filter_append, List.map_append]
  congr 1
  cases h : delivered e with
  | none => simp [h]
  | some x => by_cases hx : x.1 = callId <;> simp [h, hx]

/-- The three stages of a call id: no result yet, one accepted and not delivered, one delivered.  `acc`
is the first accepted result and `rec` what the worker received. -/
inductive Stage (te : ToolEnv) (m : ResultMeta) (callId : String) : Option ToolResult → List ToolResult → Prop
  | unanswered : callId ∉ m.history.map (·.callId) →
      (∀ call, m.clientTool = some call → call.callId = callId → call.state = .waiting) →
      Stage te m callId none []
  | ready (r : ToolResult) (call : ClientCall) : r.content.utf8ByteSize ≤ maxResultBytes →
      m.clientTool = some call → call.callId = callId →
      call.state = .ready r.success r.content (digest te r) r.terminal → Stage te m callId (some r) []
  | taken (r : ToolResult) : r.content.utf8ByteSize ≤ maxResultBytes →
      (⟨callId, digest te r, r.terminal⟩ : HistoryItem) ∈ m.history → Stage te m callId (some r) [r]

structure HandoffLog.Inv (te : ToolEnv) (projectId : ℕ) (s : HandoffLog) : Prop where
  running : s.job.status = .running
  agent : s.job.capability ∈ agentCapabilities
  project : s.job.projectId = projectId
  nodup : ((metaOf s.job).history.map (·.callId)).Nodup
  length_le : (metaOf s.job).history.length ≤ maxCalls
  pending_new : ∀ call, (metaOf s.job).clientTool = some call →
    (metaOf s.job).history.length < maxCalls ∧ call.callId ∉ (metaOf s.job).history.map (·.callId)
  stage : ∀ callId, Stage te (metaOf s.job) callId (firstAccepted callId s.trace) (received callId s.trace)

/-- The stage of a call id after a transaction. -/
theorem Stage.step {te : ToolEnv} {m m' : ResultMeta} {acc del : Option (String × ToolResult)}
    (he : ToolEffect te m m' acc del)
    (hnew : ∀ call, m.clientTool = some call → call.callId ∉ m.history.map (·.callId))
    {callId : String} {a : Option ToolResult} {rs : List ToolResult} (h : Stage te m callId a rs) :
    Stage te m' callId (a.or (acc.bind fun x => if x.1 = callId then some x.2 else none))
      (rs ++ (del.bind fun x => if x.1 = callId then some x.2 else none).toList) := by
  cases he with
  | quiet => simpa using h
  | publish call hnone hlen hid hst =>
    simp only [Option.bind_none, Option.or_none, Option.toList_none, List.append_nil]
    cases h with
    | unanswered hh hp =>
      refine .unanswered hh fun call' hcall' _ => ?_
      obtain rfl : call = call' := by simpa using hcall'
      exact hst
    | ready r call' hsz hcall' hid' hst' => rw [hnone] at hcall'; cases hcall'
    | taken r hsz hmem => exact .taken r hsz hmem
  | accept call r hcall hst hsize =>
    simp only [Option.bind_some, Option.bind_none, Option.toList_none, List.append_nil]
    cases h with
    | unanswered hh hp =>
      by_cases hc : call.callId = callId
      · rw [if_pos hc, Option.none_or]
        exact .ready r _ hsize rfl hc rfl
      · simp only [hc, if_false, Option.or_none]
        refine .unanswered hh fun call' hcall' hid' => ?_
        obtain rfl : _ = call' := by simpa using hcall'
        exact absurd hid' hc
    | ready r' call' hsz hcall' hid' hst' =>
      obtain rfl : call = call' := Option.some.inj (hcall.symm.trans hcall')
      rw [hst] at hst'
      cases hst'
    | taken r' hsz hmem =>
      rw [Option.some_or]
      exact .taken r' hsz hmem
  | deliver call r d hcall hst =>
    simp only [Option.bind_some, Option.bind_none, Option.or_none]
    cases h with
    | unanswered hh hp =>
      have hc : call.callId ≠ callId := by
        intro hc
        have := hp call hcall hc
        rw [hst] at this
        cases this
      simp only [hc, if_false, Option.toList_none, List.append_nil]
      refine .unanswered ?_ (by simp)
      simpa [ResultMeta.history, Ne.symm hc] using hh
    | ready r' call' hsz hcall' hid' hst' =>
      obtain rfl : call = call' := Option.some.inj (hcall.symm.trans hcall')
      rw [hst] at hst'
      obtain ⟨hs, hc, rfl, ht⟩ := CallState.ready.inj hst'
      obtain rfl : r = r' := by cases r; cases r'; simp_all
      simp only [hid', if_true, Option.toList_some, List.nil_append]
      exact .taken r hsz (by simp [ResultMeta.history])
    | taken r' hsz hmem =>
      have hc : call.callId ≠ callId := by
        rintro rfl
        exact hnew call hcall (List.mem_map_of_mem hmem)
      simp only [hc, if_false, Option.toList_none, List.append_nil]
      exact .taken r' hsz (List.mem_append_left _ hmem)
  | withdraw call hcall hst =>
    simp only [Option.bind_none, Option.or_none, Option.toList_none, List.append_nil]
    cases h with
    | unanswered hh hp => exact .unanswered hh (by simp)
    | ready r call' hsz hcall' hid' hst' =>
      obtain rfl : call = call' := Option.some.inj (hcall.symm.trans hcall')
      rw [hst] at hst'
      cases hst'
    | taken r hsz hmem => exact .taken r hsz hmem

theorem HandoffLog.Inv.step {te : ToolEnv} {run : AgentRunRow} {projectId : ℕ} {s : HandoffLog}
    (hi : s.Inv te projectId) (op : ToolOp) :
    Inv te projectId ⟨(callTool te run s.job op).1, s.trace ++ [(op, (callTool te run s.job op).2)]⟩ := by
  obtain ⟨⟨hstatus, hcap, hproj⟩, he⟩ := callTool_effect te run s.job op
  have hstage := fun callId => (hi.stage callId).step he fun call hc => (hi.pending_new call hc).2
  simp only [← firstAccepted_concat, ← received_concat] at hstage
  generalize callTool te run s.job op = x at *
  obtain ⟨job', reply⟩ := x
  refine ⟨hstatus.trans hi.running, hcap ▸ hi.agent, hproj.trans hi.project, ?_, ?_, ?_, hstage⟩
  · -- an id enters the history only from the pending call, which is new
    generalize accepted (op, reply) = acc, delivered (op, reply) = del, metaOf job' = m' at he
    cases he with
    | quiet | publish | accept | withdraw => exact hi.nodup
    | deliver call r d hcall hst =>
      simp only [ResultMeta.history, Option.getD_some, List.map_append, List.map_cons, List.map_nil]
      refine List.nodup_append.mpr ⟨hi.nodup, by simp, ?_⟩
      rintro c hc c' hc' rfl
      rw [List.mem_singleton] at hc'
      subst hc'
      exact (hi.pending_new call hcall).2 hc
  · generalize accepted (op, reply) = acc, delivered (op, reply) = del, metaOf job' = m' at he
    cases he with
    | quiet | publish | accept | withdraw => exact hi.length_le
    | deliver call r d hcall hst =>
      simp only [ResultMeta.history, Option.getD_some, List.length_append, List.length_singleton]
      exact (hi.pending_new call hcall).1
  · intro call' hcall'
    simp only at hcall' ⊢
    generalize accepted (op, reply) = acc, delivered (op, reply) = del, metaOf job' = m' at he hcall' ⊢
    cases he with
    | quiet => exact hi.pending_new call' hcall'
    | publish call hnone hlen hid hst =>
      obtain rfl : call = call' := by simpa using hcall'
      exact ⟨hlen, hid⟩
    | accept call r hcall hst hsize =>
      obtain rfl : _ = call' := by simpa using hcall'
      exact hi.pending_new call hcall
    | deliver | withdraw => cases hcall'

theorem HandoffLog.Inv.run {te : ToolEnv} {run : AgentRunRow} {projectId : ℕ} {s s' : HandoffLog}
    {ops : List ToolOp} (hi : s.Inv te projectId) (h : Steps (HandoffLog.step te run) Free s ops s') :
    s'.Inv te projectId := by
  refine h.inv (I := HandoffLog.Inv te projectId) (fun t op u ht _ hs => ?_) hi
  obtain rfl := Option.some.inj hs
  exact ht.step op

/-- A result on record is recognised as a replay. -/
theorem submitResult_replay {te : ToolEnv} {now : Time} {run : AgentRunRow} {job : AgentJobRow}
    {projectId : ℕ} {callId : String} {r : ToolResult} (hrun : job.status = .running)
    (hcap : job.capability ∈ agentCapabilities) (hproj : job.projectId = projectId)
    (hcancel : run.cancelRequested = false) (hsize : r.content.utf8ByteSize ≤ maxResultBytes)
    (h : OnRecord te (metaOf job) callId r) :
    submitResult te now run job projectId callId r = .ok (job, false) := by
  simp only [submitResult, not_lt.mpr hsize, hrun, hcap, hproj, hcancel, if_false, ne_eq, not_true_eq_false,
    or_self, Bool.false_eq_true]
  by_cases hh : ∃ item ∈ (metaOf job).history, item.callId = callId ∧ item.digest = digest te r
  · rw [if_pos hh]
  · rw [if_neg hh]
    obtain ⟨call, s, c, t, hcall, hid, hst⟩ := h.resolve_left hh
    simp only [hcall, hid, hst, not_true_eq_false, if_false, if_true]

/-- The digest on record for a call id that has an accepted result is that result's. -/
theorem HandoffLog.Inv.onRecord_iff {te : ToolEnv} (hsha : Function.Injective te.sha256) {projectId : ℕ}
    {s : HandoffLog} (hi : s.Inv te projectId) {callId : String} {r : ToolResult}
    (hacc : firstAccepted callId s.trace = some r) (r' : ToolResult) :
    OnRecord te (metaOf s.job) callId r' ↔ r' = r := by
  have hstage := hi.stage callId
  rw [hacc] at hstage
  generalize received callId s.trace = rs at hstage
  cases hstage with
  | ready _ call hsz hcall hid hst =>
    constructor
    · rintro (⟨item, hmem, hitem, -⟩ | ⟨call', a, b, c, hcall', -, hst'⟩)
      · refine absurd ?_ (hi.pending_new call hcall).2
        rw [hid, ← hitem]
        exact List.mem_map_of_mem hmem
      · obtain rfl : call = call' := Option.some.inj (hcall.symm.trans hcall')
        rw [hst] at hst'
        exact (digest_injective hsha (CallState.ready.inj hst').2.2.1).symm
    · rintro rfl
      exact .inr ⟨call, _, _, _, hcall, hid, hst⟩
  | taken _ hsz hmem =>
    constructor
    · rintro (⟨item, hmem', hitem, hd⟩ | ⟨call', a, b, c, hcall', hid', -⟩)
      · have heq := List.inj_on_of_nodup_map hi.nodup hmem hmem' hitem.symm
        rw [← heq] at hd
        exact (digest_injective hsha hd).symm
      · refine absurd ?_ (hi.pending_new call' hcall').2
        rw [hid']
        exact List.mem_map_of_mem hmem
    · rintro rfl
      exact .inl ⟨_, hmem, rfl, rfl⟩

/-- **Exactly once.**  From a running, uncancelled job without a call, after any calls of the handoff in
any order: a call is published only where none is pending; the call ids of the history are distinct and
at most `MAX_CALLS`; the worker has received at most one result for a call id, the first one accepted;
and once a result is accepted for a call id, the same result is answered `False` and any other is
refused, the row unchanged. -/
theorem client_tool_exactly_once (te : ToolEnv) (hsha : Function.Injective te.sha256) (run : AgentRunRow)
    (hcancel : run.cancelRequested = false) (job : AgentJobRow) (hrun : job.status = .running)
    (hcap : job.capability ∈ agentCapabilities) (hnone : (metaOf job).clientTool = none)
    (hhist : (metaOf job).history = []) {ops : List ToolOp} {s : HandoffLog}
    (h : Steps (HandoffLog.step te run) Free ⟨job, []⟩ ops s) :
    (∀ now ok callId name arguments job',
      publishCall te now ok run s.job callId name arguments = .ok job' → (metaOf s.job).clientTool = none) ∧
    ((metaOf s.job).history.map (·.callId)).Nodup ∧ (metaOf s.job).history.length ≤ maxCalls ∧
    (∀ callId, received callId s.trace = [] ∨
      ∃ r, received callId s.trace = [r] ∧ firstAccepted callId s.trace = some r) ∧
    (∀ callId r, firstAccepted callId s.trace = some r →
      (∀ now, submitResult te now run s.job job.projectId callId r = .ok (s.job, false)) ∧
      (∀ now projectId r', r' ≠ r → ∃ e, submitResult te now run s.job projectId callId r' = .error e)) := by
  have hi : s.Inv te job.projectId := by
    refine HandoffLog.Inv.run ⟨hrun, hcap, rfl, ?_, ?_, ?_, ?_⟩ h
    · simp [hhist]
    · simp [hhist]
    · simp [hnone]
    · intro callId
      exact .unanswered (by simp [hhist]) (by simp [hnone])
  refine ⟨fun _ _ _ _ _ _ hp => (publishCall_ok hp).1, hi.nodup, hi.length_le, ?_, ?_⟩
  · intro callId
    have hstage := hi.stage callId
    generalize firstAccepted callId s.trace = a, received callId s.trace = rs at hstage
    cases hstage with
    | unanswered | ready => exact .inl rfl
    | taken r => exact .inr ⟨r, rfl, rfl⟩
  · intro callId r hacc
    have hrec := hi.onRecord_iff hsha hacc
    have hstage := hi.stage callId
    rw [hacc] at hstage
    constructor
    · intro now
      have hsize : r.content.utf8ByteSize ≤ maxResultBytes := by
        generalize received callId s.trace = rs at hstage
        cases hstage with
        | ready _ _ hsz | taken _ hsz => exact hsz
      exact submitResult_replay hi.running hi.agent hi.project hcancel hsize ((hrec r).mpr rfl)
    · intro now projectId r' hne
      cases hsub : submitResult te now run s.job projectId callId r' with
      | error e => exact ⟨e, rfl⟩
      | ok x =>
        obtain ⟨job', fresh⟩ := x
        rcases submitResult_ok hsub with ⟨-, -, hr⟩ | ⟨-, -, call, hcall, hid, hst, -⟩
        · exact absurd ((hrec r').mp hr) hne
        · -- a waiting call has no accepted result
          generalize received callId s.trace = rs at hstage
          cases hstage with
          | ready _ call' hsz hcall' _ hst' =>
            obtain rfl : call = call' := Option.some.inj (hcall.symm.trans hcall')
            rw [hst] at hst'
            cases hst'
          | taken _ hsz hmem =>
            refine absurd ?_ (hi.pending_new call hcall).2
            rw [hid]
            exact List.mem_map_of_mem hmem

theorem ToolEnv.sample_sha256_injective : Function.Injective ToolEnv.sample.sha256 := by
  intro s t h
  simp only [ToolEnv.sample] at h
  split_ifs at h with hs ht ht
  · rw [hs, ht]
  · exact absurd (congrArg String.toList h) (by simp)
  · exact absurd (congrArg String.toList h) (by simp)
  · exact String.toList_injective (by simpa using congrArg String.toList h)

/-- A call is published, answered, answered again and taken. -/
def answeredCall : List ToolOp :=
  [.publish 0 true "c-1" "f" (.obj []), .submit 1 1 "c-1" ⟨true, "42", false⟩,
   .submit 2 1 "c-1" ⟨true, "42", false⟩, .take 3 true "c-1"]

theorem client_tool_exactly_once_of_answered_call :
    ∃ s, Steps (HandoffLog.step .sample .sample) Free ⟨.sample, []⟩ answeredCall s ∧
      received "c-1" s.trace = [⟨true, "42", false⟩] ∧
      (∀ callId, received callId s.trace = [] ∨
        ∃ r, received callId s.trace = [r] ∧ firstAccepted callId s.trace = some r) := by
  have hrun : (execAll (HandoffLog.step .sample .sample) ⟨.sample, []⟩ answeredCall).map
      (fun s => received "c-1" s.trace) = some [⟨true, "42", false⟩] := by decide
  obtain ⟨s, hs, hobs⟩ := steps_of_observed hrun
  exact ⟨s, hs, hobs, (client_tool_exactly_once .sample ToolEnv.sample_sha256_injective .sample rfl .sample rfl
    (by decide) rfl rfl hs).2.2.2.1⟩

end Broker.Agent
