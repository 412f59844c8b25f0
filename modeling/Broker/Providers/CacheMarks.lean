import Broker.Providers.Adapters

/-!
# Broker.Providers.CacheMarks — what the prompt-cache marks are worth across requests

The provider caches a prompt up to a mark and reads it back for a request that starts with the same bytes.
A persona that many conversations share is a run of system messages at their head, with other system
messages or the dialogue behind it.  `prefix_sent_alike_iff` says for which personas every request sends
these bytes the same way.
-/

namespace Broker.Providers

open Broker.Lib

/-- The positions of the messages that can be marked, from `k` on. -/
def markablePositions (messages : List Doc) (k : ℕ) : List ℕ :=
  ((messages.zipIdx k).filter fun e => markable e.1).map Prod.snd

def isSystem (m : Doc) : Bool := (Doc.get m "role").isText "system"

theorem cacheMarks_eq (messages : List Doc) :
    cacheMarks messages = (markablePositions (messages.takeWhile isSystem) 0).take (maxCacheMarks - 1) ++
      (markablePositions messages 0).getLast?.toList := rfl

theorem mem_markablePositions {messages : List Doc} {k i : ℕ} :
    i ∈ markablePositions messages k ↔ k ≤ i ∧ ∃ m, messages[i - k]? = some m ∧ markable m = true := by
  simp only [markablePositions, List.mem_map, List.mem_filter, Prod.exists]
  constructor
  · rintro ⟨m, j, ⟨hmem, hm⟩, rfl⟩
    obtain ⟨hle, hget⟩ := List.mk_mem_zipIdx_iff_le_and_getElem?_sub.mp hmem
    exact ⟨hle, m, hget, hm⟩
  · rintro ⟨hle, m, hget, hm⟩
    exact ⟨m, i, ⟨List.mk_mem_zipIdx_iff_le_and_getElem?_sub.mpr ⟨hle, hget⟩, hm⟩, rfl⟩

theorem markablePositions_append (a b : List Doc) (k : ℕ) :
    markablePositions (a ++ b) k = markablePositions a k ++ markablePositions b (k + a.length) := by
  simp only [markablePositions, List.zipIdx_append, List.filter_append, List.map_append]

theorem length_markablePositions (messages : List Doc) (k : ℕ) :
    (markablePositions messages k).length = messages.countP markable := by
  have hfirsts : messages = (messages.zipIdx k).map Prod.fst := (List.zipIdx_map_fst k messages).symm
  conv_rhs => rw [hfirsts, List.countP_map]
  rw [markablePositions, List.length_map, List.countP_eq_length_filter]
  rfl

theorem markablePositions_sorted (messages : List Doc) (k : ℕ) :
    (markablePositions messages k).Pairwise (· < ·) := by
  have hsub : (markablePositions messages k).Sublist (List.range' k messages.length) := by
    rw [← List.zipIdx_map_snd k messages]
    exact List.filter_sublist.map Prod.snd
  exact List.Pairwise.sublist hsub List.pairwise_lt_range'

section Sent

variable {model : String}

/-- The message at a position is marked, or sent as it is. -/
theorem getElem?_applyPromptCache (h : explicitCache (routePrefix model) = true) (messages : List Doc)
    (i : ℕ) :
    (applyPromptCache model messages)[i]? =
      messages[i]?.map fun m => if i ∈ cacheMarks messages then markMessage m else m := by
  rw [applyPromptCache, if_pos h, List.getElem?_map, List.getElem?_zipIdx]
  cases messages[i]? with
  | none => rfl
  | some m => simp

/-- A marked message has blocks where it had a text. -/
theorem markMessage_ne {m : Doc} (h : markable m = true) : markMessage m ≠ m := by
  intro heq
  rw [markable] at h
  split at h
  · rename_i text htext
    obtain ⟨v, hv, hstr⟩ : ∃ v, OrderedDict.get m "content" = some v ∧ v = .str text := by
      cases hget : OrderedDict.get m "content" with
      | none => rw [Doc.get, hget] at htext; cases htext
      | some v => exact ⟨v, rfl, by rw [Doc.get, hget] at htext; exact htext⟩
    have hmem : ("content", v) ∈ markMessage m := heq.symm ▸ OrderedDict.mem_of_get hv
    rcases OrderedDict.mem_setItem.mp hmem with hnew | ⟨-, hkey⟩
    · rw [hstr] at hnew
      cases (Prod.mk.inj hnew).2
    · exact hkey rfl
  · cases h

section Persona

variable {persona : List Doc} (hsystem : ∀ m ∈ persona, isSystem m = true)

include hsystem

theorem cacheMarks_append (rest : List Doc) :
    cacheMarks (persona ++ rest) =
      (markablePositions persona 0 ++
        markablePositions (rest.takeWhile isSystem) persona.length).take (maxCacheMarks - 1) ++
      (markablePositions persona 0 ++ markablePositions rest persona.length).getLast?.toList := by
  rw [cacheMarks_eq, List.takeWhile_append_of_pos hsystem, markablePositions_append, markablePositions_append,
    Nat.zero_add]

/-- All that can be marked of a persona of few messages is marked. -/
theorem mem_cacheMarks_iff (hfew : persona.countP markable ≤ maxCacheMarks - 1) (rest : List Doc) {i : ℕ}
    (hi : i < persona.length) :
    i ∈ cacheMarks (persona ++ rest) ↔ i ∈ markablePositions persona 0 := by
  have hbehind : ∀ messages, i ∉ markablePositions messages persona.length := by
    intro messages hmem
    have hle := (mem_markablePositions.mp hmem).1
    omega
  rw [cacheMarks_append hsystem, List.mem_append]
  constructor
  · rintro (hmem | hmem)
    · rcases List.mem_append.mp (List.mem_of_mem_take hmem) with hmem | hmem
      · exact hmem
      · exact absurd hmem (hbehind _)
    · rcases List.mem_append.mp (List.mem_of_getLast? (Option.mem_toList.mp hmem)) with hmem | hmem
      · exact hmem
      · exact absurd hmem (hbehind _)
  · intro hmem
    rw [← length_markablePositions persona 0] at hfew
    rw [List.take_append, List.take_of_length_le hfew]
    exact .inl (List.mem_append_left _ hmem)

end Persona

/-- **What is sent of a persona is the same for every continuation of the conversation** exactly when at most
three of its messages can be marked: these are all marked, and a fourth one is marked only where the
conversation ends. -/
theorem prefix_sent_alike_iff (h : explicitCache (routePrefix model) = true) {persona : List Doc}
    (hsystem : ∀ m ∈ persona, isSystem m = true) :
    (∀ rest rest', (applyPromptCache model (persona ++ rest)).take persona.length =
      (applyPromptCache model (persona ++ rest')).take persona.length) ↔
    persona.countP markable ≤ maxCacheMarks - 1 := by
  constructor
  · intro halike
    by_contra hmany
    rw [← length_markablePositions persona 0, not_le] at hmany
    obtain ⟨marks, hmarks⟩ : ∃ marks, marks = markablePositions persona 0 := ⟨_, rfl⟩
    rw [← hmarks] at hmany
    have hne : marks ≠ [] := by
      rintro rfl
      cases hmany
    -- the end of the persona is marked when it is the end of the conversation, and not when the user speaks
    obtain ⟨last, hlast⟩ : ∃ last, last = marks.getLast hne := ⟨_, rfl⟩
    obtain ⟨-, m, hget, hm⟩ : 0 ≤ last ∧ ∃ m, persona[last - 0]? = some m ∧ markable m = true := by
      refine mem_markablePositions.mp ?_
      rw [← hmarks, hlast]
      exact List.getLast_mem hne
    rw [Nat.sub_zero] at hget
    have hlt : last < persona.length := (List.getElem?_eq_some_iff.mp hget).1
    obtain ⟨user, hrole, huser⟩ : ∃ user : Doc, isSystem user = false ∧ markable user = true :=
      ⟨[("role", .str "user"), ("content", .str "x")], by decide, by decide⟩
    have hends : last ∈ cacheMarks (persona ++ []) := by
      rw [cacheMarks_append hsystem, ← hmarks]
      refine List.mem_append_right _ (Option.mem_toList.mpr ?_)
      simp [markablePositions, hlast, List.getLast?_eq_getLast_of_ne_nil hne]
    have hgoes : last ∉ cacheMarks (persona ++ [user]) := by
      have huserMarks : ∀ k, markablePositions [user] k = [k] := by
        intro k
        simp [markablePositions, huser]
      have hnoSystem : [user].takeWhile isSystem = [] := List.takeWhile_cons_of_neg (by simp [hrole])
      rw [cacheMarks_append hsystem, ← hmarks, List.mem_append, hnoSystem, huserMarks]
      rintro (hmem | hmem)
      · have hnodup : marks.Nodup := hmarks ▸ (markablePositions_sorted persona 0).imp fun hlt => ne_of_lt hlt
        have hdrop : last ∈ marks.drop (maxCacheMarks - 1) := by
          have hrest : marks.drop (maxCacheMarks - 1) ≠ [] := by simpa using hmany
          rw [hlast, ← List.getLast_drop hrest]
          exact List.getLast_mem hrest
        have htake : last ∈ marks.take (maxCacheMarks - 1) := by
          simpa [markablePositions] using hmem
        exact List.disjoint_take_drop hnodup le_rfl htake hdrop
      · have hlen : last = persona.length := by simpa using hmem
        omega
    have hsame := congrArg (fun sent => sent[last]?) (halike [] [user])
    simp only [List.getElem?_take_of_lt hlt, getElem?_applyPromptCache h, List.getElem?_append_left hlt, hget,
      Option.map_some, if_pos hends, if_neg hgoes] at hsame
    exact markMessage_ne hm (Option.some.inj hsame)
  · intro hfew rest rest'
    refine List.ext_getElem? fun i => ?_
    by_cases hi : i < persona.length
    · simp only [List.getElem?_take_of_lt hi, getElem?_applyPromptCache h, List.getElem?_append_left hi,
        mem_cacheMarks_iff hsystem hfew _ hi]
    · simp only [List.getElem?_take_eq_none (not_lt.mp hi)]

end Sent

/-- A persona and the dossier of a lead. -/
def dossier : List Doc :=
  [[("role", .str "system"), ("content", .str "You sell cars.")],
    [("role", .str "system"), ("content", .str "Her name is Ann.")]]

theorem dossier_sent_alike :
    (applyPromptCache "anthropic/claude" (dossier ++ [])).take 2 =
      (applyPromptCache "anthropic/claude"
        (dossier ++ [[("role", .str "user"), ("content", .str "Hi")]])).take 2 := by
  have hsystem : ∀ m ∈ dossier, isSystem m = true := by
    intro m hm
    rcases List.mem_pair.mp hm with rfl | rfl
    · rfl
    · rfl
  exact (prefix_sent_alike_iff (by decide) hsystem).mpr (by decide) [] _

end Broker.Providers
