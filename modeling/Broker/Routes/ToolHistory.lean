import Broker.Lib.PyVal
import Mathlib.Data.Finset.Image

/-!
# Broker.Routes.ToolHistory — the tool calls and results of a conversation

`ChatRequest` walks over its messages with two sets, the calls without a result and all calls so far.  The
histories it accepts are the concatenations of plain messages and of calls followed by their results
(`validHistory_iff`).
-/

namespace Broker.Routes

open Broker.Lib

/-! ### Messages -/

/-- `content`. -/
inductive Content
  | null
  | text (s : String)
  | blocks (bs : List Doc)

def Content.isNull : Content → Bool
  | .null => true
  | _ => false

/-- The fields of a `ChatMessage`. -/
structure MessageFields where
  role : String
  content : Content
  toolCalls : Option (List Doc) := none
  toolCallId : Option String := none

namespace MessageFields

/-- `message.tool_calls or []`. -/
def calls (m : MessageFields) : List Doc := m.toolCalls.getD []

/-- `valid_tool_message`. -/
def validToolMessage (m : MessageFields) : Except String Unit :=
  if m.content.isNull ∧ ¬ (m.role = "assistant" ∧ m.calls.isEmpty = false) then
    .error "null content requires assistant tool_calls"
  else if m.calls.isEmpty = false ∧ m.role ≠ "assistant" then .error "tool_calls require assistant role"
  else if m.role = "tool" ∧ m.toolCallId.all (· = "") then .error "tool message requires tool_call_id"
  else if ¬ m.toolCallId.all (· = "") ∧ m.role ≠ "tool" then .error "tool_call_id requires tool role"
  else .ok ()

end MessageFields

/-- A message that passed its own check. -/
structure ChatMessage extends MessageFields where
  valid : toMessageFields.validToolMessage = .ok ()

/-- Only the assistant calls tools. -/
theorem ChatMessage.role_of_calls {m : ChatMessage} (h : m.calls ≠ []) : m.role = "assistant" := by
  have hvalid := m.valid
  unfold MessageFields.validToolMessage at hvalid
  by_contra hrole
  have hcalls : m.calls.isEmpty = false := by simpa using h
  rw [if_pos (⟨hcalls, hrole⟩ : m.calls.isEmpty = false ∧ m.role ≠ "assistant")] at hvalid
  split_ifs at hvalid

/-! ### The walk over the messages -/

/-- `pending` and `seen`. -/
structure Pairing where
  pending : Finset String := ∅
  seen : Finset String := ∅

def isString : Val PyFloat → Bool
  | .str _ => true
  | _ => false

/-- `function` is a dictionary with a name and arguments. -/
def isFunction : Val PyFloat → Bool
  | .obj f => isString (Doc.get f "name") && isString (Doc.get f "arguments")
  | _ => false

/-- One call of an assistant message. -/
def addCall (s : Pairing) (call : Doc) : Except String Pairing :=
  match call.get "id" with
  | .str callId =>
    if callId = "" ∨ callId ∈ s.seen ∨ (call.get "type").isText "function" = false ∨
        isFunction (call.get "function") = false then
      .error "invalid assistant tool-call history"
    else .ok ⟨insert callId s.pending, insert callId s.seen⟩
  | _ => .error "invalid assistant tool-call history"

/-- One message. -/
def addMessage (s : Pairing) (m : ChatMessage) : Except String Pairing :=
  if m.role = "tool" then
    match m.toolCallId with
    | none => .error "tool result must match an outstanding call"
    | some c =>
      if c ∉ s.pending then .error "tool result must match an outstanding call"
      else .ok { s with pending := s.pending.erase c }
  else if s.pending ≠ ∅ then .error "all tool results must precede the next message"
  else m.calls.foldlM addCall s

/-- The check after the last message. -/
def finish (s : Pairing) : Except String Unit :=
  if s.pending ≠ ∅ then .error "missing tool results" else .ok ()

/-- The history loop of `valid_tools`. -/
def validHistory (messages : List ChatMessage) : Except String Unit :=
  (messages.foldlM addMessage {}).bind finish

/-! ### The grammar -/

/-- The id of a well-formed call. -/
def callId? (call : Doc) : Option String :=
  match call.get "id" with
  | .str callId =>
    if callId ≠ "" ∧ (call.get "type").isText "function" = true ∧ isFunction (call.get "function") = true then
      some callId
    else none
  | _ => none

/-- A message without calls, or calls followed by one result for each in any order; with the ids of the
calls. -/
inductive Block : List String → List ChatMessage → Prop
  | plain (m : ChatMessage) : m.role ≠ "tool" → m.calls = [] → Block [] [m]
  | calls (m : ChatMessage) (ids : List String) (results : List ChatMessage) :
      m.role = "assistant" → m.calls ≠ [] → m.calls.map callId? = ids.map some →
      (∀ r ∈ results, r.role = "tool") → (results.map fun r => r.toolCallId).Perm (ids.map some) →
      Block ids (m :: results)

/-- A concatenation of blocks. -/
inductive Blocks : List String → List ChatMessage → Prop
  | nil : Blocks [] []
  | append {ids ids' : List String} {ms ms' : List ChatMessage} : Block ids ms → Blocks ids' ms' →
      Blocks (ids ++ ids') (ms ++ ms')

/-- A tool history: blocks whose calls have ids new in the whole conversation. -/
def ToolHistory (messages : List ChatMessage) : Prop := ∃ ids, Blocks ids messages ∧ ids.Nodup

/-! ### The calls of one message -/

theorem addCall_ok {s s' : Pairing} {call : Doc} :
    addCall s call = .ok s' ↔
      ∃ c, callId? call = some c ∧ c ∉ s.seen ∧ s' = ⟨insert c s.pending, insert c s.seen⟩ := by
  unfold addCall callId?
  split
  · rename_i c hc
    split_ifs with hbad hgood hgood
    · obtain ⟨hne, htype, hfunction⟩ := hgood
      simp only [hne, htype, hfunction, Bool.true_eq_false, or_false, false_or] at hbad
      simp [hbad]
    · simp
    · simp only [not_or] at hbad
      constructor
      · rintro ⟨rfl⟩
        exact ⟨c, rfl, hbad.2.1, rfl⟩
      · rintro ⟨c', hc', -, rfl⟩
        obtain rfl := Option.some.inj hc'
        rfl
    · simp only [not_or, Bool.not_eq_false] at hbad
      exact absurd ⟨hbad.1, hbad.2.2.1, hbad.2.2.2⟩ hgood
  · simp

/-- The calls of a message are taken when they are well formed and their ids are new. -/
theorem addCalls_ok {calls : List Doc} {s s' : Pairing} :
    calls.foldlM addCall s = .ok s' ↔
      ∃ ids : List String, calls.map callId? = ids.map some ∧ ids.Nodup ∧ (∀ c ∈ ids, c ∉ s.seen) ∧
        s' = ⟨s.pending ∪ ids.toFinset, s.seen ∪ ids.toFinset⟩ := by
  induction calls generalizing s with
  | nil =>
    constructor
    · rintro ⟨rfl⟩
      exact ⟨[], by simp⟩
    · rintro ⟨ids, hids, -, -, rfl⟩
      obtain rfl : ids = [] := by simpa using hids.symm
      simp [pure, Except.pure]
  | cons call calls ih =>
    rw [List.foldlM_cons]
    constructor
    · intro h
      cases hadd : addCall s call with
      | error msg =>
        rw [hadd] at h
        cases h
      | ok mid =>
        rw [hadd] at h
        obtain ⟨c, hc, hnew, rfl⟩ := addCall_ok.mp hadd
        obtain ⟨ids, hids, hnodup, hfresh, rfl⟩ := ih.mp h
        refine ⟨c :: ids, by simp [hc, hids], List.nodup_cons.mpr ⟨?_, hnodup⟩, ?_, ?_⟩
        · exact fun hmem => hfresh c hmem (Finset.mem_insert_self c s.seen)
        · intro d hd
          rcases List.mem_cons.mp hd with rfl | hd
          · exact hnew
          · exact fun hseen => hfresh d hd (Finset.mem_insert_of_mem hseen)
        · simp [Finset.insert_union, Finset.union_insert]
    · rintro ⟨ids, hids, hnodup, hfresh, rfl⟩
      cases ids with
      | nil => simp at hids
      | cons c ids =>
        obtain ⟨hc, hids⟩ := List.cons.inj hids
        obtain ⟨hc_notin, hnodup⟩ := List.nodup_cons.mp hnodup
        have hadd : addCall s call = .ok ⟨insert c s.pending, insert c s.seen⟩ :=
          addCall_ok.mpr ⟨c, hc, hfresh c List.mem_cons_self, rfl⟩
        rw [hadd]
        refine ih.mpr ⟨ids, hids, hnodup, fun d hd hseen => ?_, ?_⟩
        · rcases Finset.mem_insert.mp hseen with rfl | hseen
          · exact hc_notin hd
          · exact hfresh d (List.mem_cons_of_mem c hd) hseen
        · simp [Finset.insert_union, Finset.union_insert]

/-! ### The walk and the grammar -/

/-- What a walk must still read: the results of the pending calls, then blocks with ids it has not seen. -/
def Expects (s : Pairing) (messages : List ChatMessage) : Prop :=
  ∃ results rest ids, messages = results ++ rest ∧ (∀ r ∈ results, r.role = "tool") ∧
    Multiset.ofList (results.map fun r => r.toolCallId) = s.pending.val.map some ∧
    Blocks ids rest ∧ ids.Nodup ∧ ∀ c ∈ ids, c ∉ s.seen

variable {s : Pairing} {m : ChatMessage} {messages : List ChatMessage}

/-- No block starts with a result. -/
theorem Blocks.head_not_tool {ids : List String} (h : Blocks ids (m :: messages)) : m.role ≠ "tool" := by
  generalize hms : m :: messages = ms at h
  cases h with
  | nil => cases hms
  | append hblock _ =>
    cases hblock with
    | plain m' hrole _ =>
      obtain ⟨rfl, -⟩ := List.cons.inj hms
      exact hrole
    | calls m' _ results hrole _ _ _ _ =>
      obtain ⟨rfl, -⟩ := List.cons.inj hms
      rw [hrole]
      decide

theorem expects_nil : Expects s [] ↔ s.pending = ∅ := by
  constructor
  · rintro ⟨results, rest, ids, hms, -, hperm, -⟩
    obtain ⟨rfl, rfl⟩ := List.append_eq_nil_iff.mp hms.symm
    exact Finset.val_eq_zero.mp (Multiset.map_eq_zero.mp hperm.symm)
  · intro hpending
    exact ⟨[], [], [], rfl, by simp, by simp [hpending], .nil, List.nodup_nil, by simp⟩

/-- A result answers one of the pending calls. -/
theorem expects_tool (hrole : m.role = "tool") :
    Expects s (m :: messages) ↔
      ∃ c ∈ s.pending, m.toolCallId = some c ∧ Expects { s with pending := s.pending.erase c } messages := by
  constructor
  · rintro ⟨results, rest, ids, hms, htool, hperm, hblocks, hnodup, hfresh⟩
    cases results with
    | nil =>
      rw [List.nil_append] at hms
      exact absurd hrole (hms ▸ hblocks).head_not_tool
    | cons r results =>
      obtain ⟨rfl, rfl⟩ := List.cons.inj hms
      rw [List.map_cons, ← Multiset.cons_coe] at hperm
      have hmem : m.toolCallId ∈ s.pending.val.map some := by
        rw [← hperm]
        exact Multiset.mem_cons_self _ _
      obtain ⟨c, hc, hid⟩ := Multiset.mem_map.mp hmem
      refine ⟨c, hc, hid.symm, results, rest, ids, rfl, fun r hr => htool r (List.mem_cons_of_mem m hr), ?_, hblocks,
        hnodup, hfresh⟩
      rw [← Multiset.cons_erase hc, Multiset.map_cons, ← hid] at hperm
      rw [Finset.erase_val]
      exact (Multiset.cons_inj_right _).mp hperm
  · rintro ⟨c, hc, hid, results, rest, ids, rfl, htool, hperm, hblocks, hnodup, hfresh⟩
    refine ⟨m :: results, rest, ids, rfl, ?_, ?_, hblocks, hnodup, hfresh⟩
    · intro r hr
      rcases List.mem_cons.mp hr with rfl | hr
      · exact hrole
      · exact htool r hr
    · rw [List.map_cons, ← Multiset.cons_coe, hperm, hid, Finset.erase_val, ← Multiset.map_cons,
        Multiset.cons_erase hc]

/-- Any other message starts a block. -/
theorem expects_block (hrole : m.role ≠ "tool") :
    Expects s (m :: messages) ↔
      s.pending = ∅ ∧ ∃ ids : List String, m.calls.map callId? = ids.map some ∧ ids.Nodup ∧
        (∀ c ∈ ids, c ∉ s.seen) ∧ Expects ⟨ids.toFinset, s.seen ∪ ids.toFinset⟩ messages := by
  constructor
  · rintro ⟨results, rest, all, hms, htool, hperm, hblocks, hnodup, hfresh⟩
    have hnone : results = [] := by
      cases results with
      | nil => rfl
      | cons r results =>
        obtain ⟨rfl, -⟩ := List.cons.inj hms
        exact absurd (htool m List.mem_cons_self) hrole
    subst hnone
    have hpending : s.pending = ∅ := Finset.val_eq_zero.mp (Multiset.map_eq_zero.mp hperm.symm)
    refine ⟨hpending, ?_⟩
    rw [List.nil_append] at hms
    subst hms
    generalize hcons : m :: messages = ms at hblocks
    cases hblocks with
    | nil => cases hcons
    | @append ids later _ rest hblock hrest =>
      obtain ⟨hids, hlater, hdisjoint⟩ := List.nodup_append.mp hnodup
      have hnew : ∀ c ∈ later, c ∉ s.seen ∪ ids.toFinset := by
        intro c hc hseen
        rcases Finset.mem_union.mp hseen with hseen | hmem
        · exact hfresh c (List.mem_append_right ids hc) hseen
        · exact hdisjoint c (List.mem_toFinset.mp hmem) c hc rfl
      have hval : (ids.toFinset.val.map some : Multiset (Option String)) = Multiset.ofList (ids.map some) := by
        rw [List.toFinset_val, hids.dedup, Multiset.map_coe]
      cases hblock with
      | plain m' _ hcalls =>
        obtain ⟨rfl, rfl⟩ := List.cons.inj hcons
        exact ⟨[], by simp [hcalls], List.nodup_nil, by simp, [], _, later, rfl, by simp, by simp, hrest, hlater, hnew⟩
      | calls m' _ results _ _ hcalls hresults hmatch =>
        obtain ⟨rfl, rfl⟩ := List.cons.inj hcons
        refine ⟨ids, hcalls, hids, fun c hc => hfresh c (List.mem_append_left later hc), results, rest, later, rfl,
          hresults, ?_, hrest, hlater, hnew⟩
        rw [hval]
        exact Multiset.coe_eq_coe.mpr hmatch
  · rintro ⟨hpending, ids, hcalls, hids, hnew, results, rest, later, rfl, hresults, hmatch, hrest, hlater, hfresh⟩
    have hval : (ids.toFinset.val.map some : Multiset (Option String)) = Multiset.ofList (ids.map some) := by
      rw [List.toFinset_val, hids.dedup, Multiset.map_coe]
    rw [hval] at hmatch
    have hperm := Multiset.coe_eq_coe.mp hmatch
    have hblock : Block ids (m :: results) := by
      by_cases hnone : m.calls = []
      · obtain rfl : ids = [] := by simpa [hnone] using hcalls.symm
        obtain rfl : results = [] := by simpa using hperm
        exact .plain m hrole hnone
      · exact .calls m ids results (m.role_of_calls hnone) hnone hcalls hresults hperm
    refine ⟨[], m :: results ++ rest, ids ++ later, rfl, by simp, by simp [hpending], .append hblock hrest, ?_, ?_⟩
    · refine List.nodup_append.mpr ⟨hids, hlater, ?_⟩
      rintro c hc d hd rfl
      exact hfresh c hd (Finset.mem_union_right _ (List.mem_toFinset.mpr hc))
    · intro c hc
      rcases List.mem_append.mp hc with hc | hc
      · exact hnew c hc
      · exact fun hseen => hfresh c hc (Finset.mem_union_left _ hseen)

/-- The walk accepts exactly what its sets expect. -/
theorem walk_ok_iff : (messages.foldlM addMessage s).bind finish = .ok () ↔ Expects s messages := by
  induction messages generalizing s with
  | nil =>
    rw [expects_nil]
    show finish s = .ok () ↔ _
    unfold finish
    by_cases hpending : s.pending = ∅ <;> simp [hpending]
  | cons m messages ih =>
    rw [List.foldlM_cons]
    by_cases hrole : m.role = "tool"
    · rw [expects_tool hrole]
      cases hid : m.toolCallId with
      | none => simp [addMessage, hrole, hid, bind, Except.bind]
      | some c =>
        by_cases hc : c ∈ s.pending
        · have hadd : addMessage s m = .ok { s with pending := s.pending.erase c } := by
            simp [addMessage, hrole, hid, hc]
          rw [hadd]
          constructor
          · intro h
            exact ⟨c, hc, rfl, ih.mp h⟩
          · rintro ⟨c', -, hc', hrest⟩
            obtain rfl := Option.some.inj hc'
            exact ih.mpr hrest
        · have hadd : addMessage s m = .error "tool result must match an outstanding call" := by
            simp [addMessage, hrole, hid, hc]
          rw [hadd]
          constructor
          · intro h
            cases h
          · rintro ⟨c', hmem, hc', -⟩
            obtain rfl := Option.some.inj hc'
            exact absurd hmem hc
    · rw [expects_block hrole]
      by_cases hpending : s.pending = ∅
      · have hadd : addMessage s m = m.calls.foldlM addCall s := by simp [addMessage, hrole, hpending]
        rw [hadd]
        constructor
        · intro h
          cases hcalls : m.calls.foldlM addCall s with
          | error msg =>
            rw [hcalls] at h
            cases h
          | ok mid =>
            rw [hcalls] at h
            obtain ⟨ids, hids, hnodup, hnew, rfl⟩ := addCalls_ok.mp hcalls
            refine ⟨hpending, ids, hids, hnodup, hnew, ih.mp ?_⟩
            rw [hpending, Finset.empty_union] at h
            exact h
        · rintro ⟨-, ids, hids, hnodup, hnew, hrest⟩
          rw [addCalls_ok.mpr ⟨ids, hids, hnodup, hnew, rfl⟩, hpending, Finset.empty_union]
          exact ih.mpr hrest
      · have hadd : addMessage s m = .error "all tool results must precede the next message" := by
          simp [addMessage, hrole, hpending]
        rw [hadd]
        constructor
        · intro h
          cases h
        · exact fun h => absurd h.1 hpending

/-- **The grammar of tool histories.**  The loop accepts a list of messages exactly when it is a
concatenation of messages without calls and of calls followed by one result for each, no id being used
twice in the conversation. -/
theorem validHistory_iff (messages : List ChatMessage) :
    validHistory messages = .ok () ↔ ToolHistory messages := by
  unfold validHistory ToolHistory
  rw [walk_ok_iff]
  constructor
  · rintro ⟨results, rest, ids, rfl, -, hperm, hblocks, hnodup, -⟩
    obtain rfl : results = [] := by simpa using hperm
    exact ⟨ids, hblocks, hnodup⟩
  · rintro ⟨ids, hblocks, hnodup⟩
    exact ⟨[], messages, ids, rfl, by simp, rfl, hblocks, hnodup, by simp⟩

end Broker.Routes
