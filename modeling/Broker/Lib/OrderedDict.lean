import Mathlib.Data.List.Nodup
import Mathlib.Data.List.Perm.Subperm
import Mathlib.Tactic.Common

/-!
# Broker.Lib.OrderedDict — a dictionary in insertion order

The entries of `collections.OrderedDict`, the oldest first.  An entry after an operation was there before or
is the one written, and a written key has no other entry (`mem_setItem`, `mem_moveToEnd`, `mem_evict`).
-/

namespace Broker.Lib

namespace OrderedDict

variable {κ β : Type}

/-- `while len(d) > n: d.popitem(last=False)`. -/
def evict (n : ℕ) : List (κ × β) → List (κ × β)
  | [] => []
  | e :: d => if n < (e :: d).length then evict n d else e :: d

theorem evict_sublist (n : ℕ) : ∀ d : List (κ × β), (evict n d).Sublist d
  | [] => List.Sublist.refl _
  | e :: d => by
    unfold evict
    split_ifs
    · exact (evict_sublist n d).cons e
    · exact List.Sublist.refl _

theorem mem_evict {n : ℕ} {d : List (κ × β)} {e : κ × β} (h : e ∈ evict n d) : e ∈ d :=
  (evict_sublist n d).subset h

theorem length_evict_le (n : ℕ) : ∀ d : List (κ × β), (evict n d).length ≤ n
  | [] => Nat.zero_le n
  | e :: d => by
    unfold evict
    split_ifs with h
    · exact length_evict_le n d
    · omega

variable [DecidableEq κ]

/-- `d.get(k)`. -/
def get (d : List (κ × β)) (k : κ) : Option β := (d.find? fun e => e.1 = k).map Prod.snd

/-- `d.pop(k, None)`. -/
def pop (d : List (κ × β)) (k : κ) : List (κ × β) := d.filter fun e => e.1 ≠ k

/-- `d[k] = v`: a present key keeps its place. -/
def setItem (d : List (κ × β)) (k : κ) (v : β) : List (κ × β) :=
  if d.any fun e => e.1 = k then d.map fun e => if e.1 = k then (k, v) else e else d ++ [(k, v)]

/-- `d.move_to_end(k)`. -/
def moveToEnd (d : List (κ × β)) (k : κ) : List (κ × β) :=
  pop d k ++ d.filter fun e => e.1 = k

variable {d : List (κ × β)} {k : κ} {v : β} {e : κ × β}

theorem mem_of_get (h : get d k = some v) : (k, v) ∈ d := by
  obtain ⟨e, he, rfl⟩ := Option.map_eq_some_iff.mp h
  have hk : e.1 = k := by simpa using List.find?_some he
  subst hk
  exact List.mem_of_find?_eq_some he

theorem mem_pop : e ∈ pop d k ↔ e ∈ d ∧ e.1 ≠ k := by simp [pop]

theorem keys_pop_nodup (h : (d.map Prod.fst).Nodup) : ((pop d k).map Prod.fst).Nodup :=
  h.sublist (List.filter_sublist.map _)

/-- Without a repeated key, taking out the oldest entry's key leaves the others. -/
theorem pop_head (h : ((e :: d).map Prod.fst).Nodup) : pop (e :: d) e.1 = d := by
  rw [List.map_cons, List.nodup_cons] at h
  rw [pop, List.filter_cons_of_neg (by simp), List.filter_eq_self]
  intro f hf
  have hne : f.1 ≠ e.1 := fun heq => h.1 (heq ▸ List.mem_map_of_mem hf)
  simp [hne]

theorem mem_moveToEnd : e ∈ moveToEnd d k ↔ e ∈ d := by
  simp only [moveToEnd, List.mem_append, mem_pop, List.mem_filter, decide_eq_true_eq]
  constructor
  · rintro (⟨he, -⟩ | ⟨he, -⟩) <;> exact he
  · intro he
    by_cases hk : e.1 = k
    · exact .inr ⟨he, hk⟩
    · exact .inl ⟨he, hk⟩

theorem length_moveToEnd (d : List (κ × β)) (k : κ) : (moveToEnd d k).length = d.length := by
  unfold moveToEnd pop
  rw [List.length_append, Nat.add_comm]
  simpa using (List.length_eq_length_filter_add (l := d) fun e => decide (e.1 = k)).symm

/-- An entry after a write is the one written or an untouched one. -/
theorem mem_setItem : e ∈ setItem d k v ↔ e = (k, v) ∨ (e ∈ d ∧ e.1 ≠ k) := by
  unfold setItem
  split_ifs with hany
  · rw [List.mem_map]
    constructor
    · rintro ⟨f, hf, rfl⟩
      by_cases hk : f.1 = k
      · simp [hk]
      · simp [hk, hf]
    · rintro (rfl | ⟨he, hk⟩)
      · obtain ⟨f, hf, hk⟩ := List.any_eq_true.mp hany
        exact ⟨f, hf, by simp_all⟩
      · exact ⟨e, he, by simp [hk]⟩
  · have hnone : ∀ f ∈ d, f.1 ≠ k := fun f hf hk => hany (List.any_eq_true.mpr ⟨f, hf, by simp [hk]⟩)
    simp only [List.mem_append, List.mem_singleton]
    constructor
    · rintro (he | rfl)
      · exact .inr ⟨he, hnone e he⟩
      · exact .inl rfl
    · rintro (rfl | ⟨he, -⟩)
      · exact .inr rfl
      · exact .inl he

theorem keys_setItem_nodup (h : (d.map Prod.fst).Nodup) : ((setItem d k v).map Prod.fst).Nodup := by
  unfold setItem
  split_ifs with hany
  · have hkeys : (d.map fun e => if e.1 = k then (k, v) else e).map Prod.fst = d.map Prod.fst := by
      rw [List.map_map]
      refine List.map_congr_left fun e _ => ?_
      by_cases he : e.1 = k
      · simp [he]
      · simp [he]
    rw [hkeys]
    exact h
  · rw [List.map_append, List.nodup_append]
    refine ⟨h, by simp, fun a ha b hb heq => ?_⟩
    obtain ⟨e, he, rfl⟩ := List.mem_map.mp ha
    obtain rfl : b = k := by simpa using hb
    exact hany (List.any_eq_true.mpr ⟨e, he, by simpa using heq⟩)

/-- With distinct keys, a dictionary has a value under a key exactly when it holds the entry. -/
theorem get_eq_some_iff (h : (d.map Prod.fst).Nodup) : get d k = some v ↔ (k, v) ∈ d := by
  refine ⟨mem_of_get, fun hmem => ?_⟩
  cases hg : get d k with
  | none =>
    unfold get at hg
    have hnone := List.find?_eq_none.mp (Option.map_eq_none_iff.mp hg) (k, v) hmem
    simp at hnone
  | some w =>
    have heq := List.inj_on_of_nodup_map h (mem_of_get hg) hmem rfl
    rw [(Prod.mk.inj heq).2]

theorem get_perm {d' : List (κ × β)} (h : (d.map Prod.fst).Nodup) (hp : d.Perm d') (k : κ) :
    get d' k = get d k := by
  have h' : (d'.map Prod.fst).Nodup := (hp.map Prod.fst).nodup_iff.mp h
  ext v
  rw [get_eq_some_iff h', get_eq_some_iff h, hp.mem_iff]

theorem get_setItem (h : (d.map Prod.fst).Nodup) (k' : κ) :
    get (setItem d k v) k' = if k' = k then some v else get d k' := by
  ext w
  rw [get_eq_some_iff (keys_setItem_nodup h), mem_setItem, Prod.mk.injEq]
  by_cases hk : k' = k
  · simp [hk, eq_comm]
  · simp [hk, get_eq_some_iff h]

/-- A dictionary written entry by entry holds entries that were written. -/
theorem mem_foldl_setItem {es : List (κ × β)} (h : e ∈ es.foldl (fun d e => setItem d e.1 e.2) d) :
    e ∈ d ∨ e ∈ es := by
  induction es generalizing d with
  | nil => exact .inl h
  | cons f es ih =>
    rcases ih h with h | h
    · rcases mem_setItem.mp h with rfl | ⟨h, -⟩
      · exact .inr List.mem_cons_self
      · exact .inl h
    · exact .inr (List.mem_cons_of_mem f h)

/-- Entries without a repeated key, written in order, are the dictionary. -/
theorem foldl_setItem_append {es : List (κ × β)} : ∀ {d : List (κ × β)}, ((d ++ es).map Prod.fst).Nodup →
    es.foldl (fun d e => setItem d e.1 e.2) d = d ++ es := by
  induction es with
  | nil =>
    intro d _
    simp
  | cons e es ih =>
    intro d h
    have hnew : setItem d e.1 e.2 = d ++ [e] := by
      unfold setItem
      rw [if_neg]
      simp only [List.any_eq_true, decide_eq_true_eq, not_exists, not_and]
      intro f hf hk
      rw [List.map_append, List.nodup_append] at h
      exact h.2.2 f.1 (List.mem_map_of_mem hf) e.1 (by simp) hk
    have happ : d ++ e :: es = (d ++ [e]) ++ es := by simp
    rw [List.foldl_cons, hnew, ih (by rw [← happ]; exact h), ← happ]

theorem keys_foldl_setItem_nodup {es : List (κ × β)} : ∀ {d : List (κ × β)}, (d.map Prod.fst).Nodup →
    ((es.foldl (fun d e => setItem d e.1 e.2) d).map Prod.fst).Nodup := by
  induction es with
  | nil => exact fun h => h
  | cons e es ih => exact fun h => ih (keys_setItem_nodup h)

/-- A dictionary with as many entries as were written has no repeated key. -/
theorem nodup_of_length_foldl_setItem {es : List (κ × β)}
    (h : (es.foldl (fun d e => setItem d e.1 e.2) []).length = es.length) : (es.map Prod.fst).Nodup := by
  have hkeys : ((es.foldl (fun d e => setItem d e.1 e.2) []).map Prod.fst).Nodup :=
    keys_foldl_setItem_nodup List.nodup_nil
  have hsub : (es.foldl (fun d e => setItem d e.1 e.2) []).map Prod.fst ⊆ es.map Prod.fst := by
    intro k hk
    obtain ⟨e, he, rfl⟩ := List.mem_map.mp hk
    rcases mem_foldl_setItem he with hnil | hes
    · cases hnil
    · exact List.mem_map_of_mem hes
  have hperm := (hkeys.subperm hsub).perm_of_length_le (by simp [h])
  exact hperm.nodup_iff.mp hkeys

theorem foldl_setItem_of_nodup {es : List (κ × β)} (h : (es.map Prod.fst).Nodup) :
    es.foldl (fun d e => setItem d e.1 e.2) [] = es :=
  foldl_setItem_append h

end OrderedDict

end Broker.Lib
