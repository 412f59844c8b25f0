import Broker.Lib.OrderedDict
import Mathlib.Data.Finset.Card
import Mathlib.Order.Basic

/-!
# Broker.Lib.Recent — the last time of each key, forgotten after a while

A dictionary keeps the last time each key was noted.  Entries that are no longer fresh are dropped by whoever
reads it, at some moments and not at others.  `Keeps now d h` is the invariant: from `now` on, the fresh
entries of `d` are the fresh last times of the history `h`.  `KeepsAll` is the same for a dictionary of such
dictionaries, one a bucket.
-/

namespace Broker.Lib.Recent

open OrderedDict

variable {β κ τ : Type}

section Prune

variable (fresh : τ → τ → Bool)

/-- The entries that are still fresh. -/
def prune (now : τ) (d : List (κ × τ)) : List (κ × τ) := d.filter fun e => fresh now e.2

/-- Every bucket pruned; an empty one is deleted. -/
def pruneAll (now : τ) (d : List (β × List (κ × τ))) : List (β × List (κ × τ)) :=
  d.filterMap fun e => if prune fresh now e.2 = [] then none else some (e.1, prune fresh now e.2)

variable {fresh} {now : τ} {d : List (β × List (κ × τ))}

theorem mem_pruneAll {b : β} {m : List (κ × τ)} :
    (b, m) ∈ pruneAll fresh now d ↔ ∃ m', (b, m') ∈ d ∧ prune fresh now m' = m ∧ m ≠ [] := by
  simp only [pruneAll, List.mem_filterMap]
  constructor
  · rintro ⟨⟨b', m'⟩, hmem, heq⟩
    split_ifs at heq with hempty
    obtain ⟨rfl, rfl⟩ := Prod.mk.inj (Option.some.inj heq)
    exact ⟨m', hmem, rfl, hempty⟩
  · rintro ⟨m', hmem, rfl, hne⟩
    exact ⟨(b, m'), hmem, if_neg hne⟩

theorem keys_pruneAll_nodup (hd : (d.map Prod.fst).Nodup) : ((pruneAll fresh now d).map Prod.fst).Nodup := by
  refine List.Nodup.sublist ?_ hd
  unfold pruneAll
  induction d with
  | nil => exact List.Sublist.refl _
  | cons e d ih =>
    have hih := ih (List.nodup_cons.mp hd).2
    rw [List.filterMap_cons, List.map_cons]
    split
    · exact hih.cons _
    · next heq =>
      split_ifs at heq
      obtain rfl := Option.some.inj heq
      exact hih.cons_cons _

variable [DecidableEq β]

theorem get_pruneAll (hd : (d.map Prod.fst).Nodup) (b : β) :
    (get (pruneAll fresh now d) b).getD [] = prune fresh now ((get d b).getD []) := by
  cases hg : get (pruneAll fresh now d) b with
  | some m =>
    obtain ⟨m', hmem, rfl, -⟩ := mem_pruneAll.mp (mem_of_get hg)
    rw [(get_eq_some_iff hd).mpr hmem]
    rfl
  | none =>
    cases hg' : get d b with
    | none => rfl
    | some m' =>
      -- a bucket that is gone had nothing fresh
      by_contra hne
      have hmem : (b, prune fresh now m') ∈ pruneAll fresh now d :=
        mem_pruneAll.mpr ⟨m', mem_of_get hg', rfl, fun h => hne h.symm⟩
      rw [(get_eq_some_iff (keys_pruneAll_nodup hd)).mpr hmem] at hg
      simp at hg

end Prune

variable [DecidableEq β]

/-- The history of one bucket. -/
def ofBucket (h : List ((β × κ) × τ)) (b : β) : List (κ × τ) :=
  h.filterMap fun e => if e.1.1 = b then some (e.1.2, e.2) else none

theorem ofBucket_concat_self (h : List ((β × κ) × τ)) (b : β) (k : κ) (t : τ) :
    ofBucket (h ++ [((b, k), t)]) b = ofBucket h b ++ [(k, t)] := by
  simp [ofBucket]

theorem ofBucket_concat_of_ne (h : List ((β × κ) × τ)) {b b' : β} (hb : b ≠ b') (k : κ) (t : τ) :
    ofBucket (h ++ [((b, k), t)]) b' = ofBucket h b' := by
  simp [ofBucket, hb]

variable [DecidableEq κ]

/-- The time a key was last noted at. -/
def lastNote (h : List (κ × τ)) (k : κ) : Option τ := ((h.filter fun e => e.1 = k).getLast?).map Prod.snd

@[simp] theorem lastNote_nil (k : κ) : lastNote ([] : List (κ × τ)) k = none := rfl

theorem lastNote_concat (h : List (κ × τ)) (k k' : κ) (t : τ) :
    lastNote (h ++ [(k, t)]) k' = if k = k' then some t else lastNote h k' := by
  unfold lastNote
  by_cases hk : k = k'
  · simp [List.filter_append, hk]
  · simp [List.filter_append, hk]

variable [Preorder τ] (fresh : τ → τ → Bool)

/-- What is no longer fresh is never fresh again. -/
def Fading : Prop := ∀ now now' t : τ, now ≤ now' → fresh now' t = true → fresh now t = true

/-- From `now` on the fresh entries are the fresh last times of the history. -/
structure Keeps (now : τ) (d : List (κ × τ)) (h : List (κ × τ)) : Prop where
  nodup : (d.map Prod.fst).Nodup
  entry : ∀ now', now ≤ now' → ∀ k t, fresh now' t → ((k, t) ∈ d ↔ lastNote h k = some t)

/-- The same for each bucket. -/
structure KeepsAll (now : τ) (d : List (β × List (κ × τ))) (h : List ((β × κ) × τ)) : Prop where
  nodup : (d.map Prod.fst).Nodup
  bucket : ∀ b, Keeps fresh now ((get d b).getD []) (ofBucket h b)

variable {fresh}

namespace Keeps

variable {now now' : τ} {d h : List (κ × τ)}

theorem nil (now : τ) : Keeps fresh now ([] : List (κ × τ)) [] := ⟨by simp, by simp⟩

theorem later (hd : Keeps fresh now d h) (hle : now ≤ now') : Keeps fresh now' d h :=
  ⟨hd.nodup, fun _ hle' => hd.entry _ (le_trans hle hle')⟩

/-- A note is the last one of its key. -/
theorem note (hd : Keeps fresh now d h) (k : κ) (t : τ) :
    Keeps fresh now (setItem d k t) (h ++ [(k, t)]) := by
  refine ⟨keys_setItem_nodup hd.nodup, fun now' hle k' t' hf => ?_⟩
  rw [mem_setItem, lastNote_concat, Prod.mk.injEq]
  by_cases hk : k = k'
  · subst hk
    simp [eq_comm]
  · have hk' : k' ≠ k := fun h => hk h.symm
    simpa [hk, hk'] using hd.entry now' hle k' t' hf

/-- What is no longer fresh will not be fresh again, so it may go. -/
theorem prune (hmono : Fading fresh) (hd : Keeps fresh now d h) :
    Keeps fresh now (prune fresh now d) h := by
  refine ⟨hd.nodup.sublist (List.filter_sublist.map _), fun now' hle k t hf => ?_⟩
  have hnow : fresh now t := hmono _ _ t hle hf
  rw [← hd.entry now' hle k t hf]
  simp [Recent.prune, hnow]

/-- The keys left by pruning are those whose last note is fresh. -/
theorem mem_keys_prune (hd : Keeps fresh now d h) (k : κ) :
    k ∈ (Recent.prune fresh now d).map Prod.fst ↔ ∃ t, lastNote h k = some t ∧ fresh now t := by
  simp only [Recent.prune, List.mem_map, List.mem_filter]
  constructor
  · rintro ⟨⟨k, t⟩, ⟨hmem, hf⟩, rfl⟩
    exact ⟨t, (hd.entry now le_rfl k t hf).mp hmem, hf⟩
  · rintro ⟨t, hl, hf⟩
    exact ⟨(k, t), ⟨(hd.entry now le_rfl k t hf).mpr hl, hf⟩, rfl⟩

/-- At least `n` keys are left exactly when at least `n` distinct keys have a fresh last note. -/
theorem le_length_prune (hd : Keeps fresh now d h) (n : ℕ) :
    n ≤ (Recent.prune fresh now d).length ↔
      ∃ ks : Finset κ, n ≤ ks.card ∧ ∀ k ∈ ks, ∃ t, lastNote h k = some t ∧ fresh now t := by
  have hnodup : ((Recent.prune fresh now d).map Prod.fst).Nodup :=
    hd.nodup.sublist (List.filter_sublist.map _)
  have hcard : ((Recent.prune fresh now d).map Prod.fst).toFinset.card = (Recent.prune fresh now d).length := by
    rw [List.toFinset_card_of_nodup hnodup, List.length_map]
  constructor
  · intro hn
    refine ⟨((Recent.prune fresh now d).map Prod.fst).toFinset, by rw [hcard]; exact hn, ?_⟩
    intro k hk
    exact (hd.mem_keys_prune k).mp (List.mem_toFinset.mp hk)
  · rintro ⟨ks, hn, hks⟩
    rw [← hcard]
    refine le_trans hn (Finset.card_le_card fun k hk => ?_)
    exact List.mem_toFinset.mpr ((hd.mem_keys_prune k).mpr (hks k hk))

end Keeps

namespace KeepsAll

variable {now now' : τ} {d : List (β × List (κ × τ))} {h : List ((β × κ) × τ)}

theorem nil (now : τ) : KeepsAll fresh now ([] : List (β × List (κ × τ))) [] :=
  ⟨by simp, fun _ => Keeps.nil now⟩

theorem later (hd : KeepsAll fresh now d h) (hle : now ≤ now') : KeepsAll fresh now' d h :=
  ⟨hd.nodup, fun b => (hd.bucket b).later hle⟩

theorem note (hd : KeepsAll fresh now d h) (b : β) (k : κ) (t : τ) :
    KeepsAll fresh now (setItem d b (setItem ((get d b).getD []) k t)) (h ++ [((b, k), t)]) := by
  refine ⟨keys_setItem_nodup hd.nodup, fun b' => ?_⟩
  rw [get_setItem hd.nodup]
  by_cases hb : b = b'
  · subst hb
    rw [if_pos rfl, ofBucket_concat_self]
    exact (hd.bucket b).note k t
  · rw [if_neg fun h => hb h.symm, ofBucket_concat_of_ne h hb]
    exact hd.bucket b'

theorem prune (hmono : Fading fresh) (hd : KeepsAll fresh now d h) :
    KeepsAll fresh now (pruneAll fresh now d) h := by
  refine ⟨keys_pruneAll_nodup hd.nodup, fun b => ?_⟩
  rw [get_pruneAll hd.nodup]
  exact (hd.bucket b).prune hmono

/-- **A bucket is left with at least `n` keys exactly when at least `n` of its keys, and at least one, have a
fresh last note.** -/
theorem exists_le_length (hd : KeepsAll fresh now d h) (b : β) (n : ℕ) :
    (∃ m, (b, m) ∈ pruneAll fresh now d ∧ n ≤ m.length) ↔
      ∃ ks : Finset κ, max n 1 ≤ ks.card ∧ ∀ k ∈ ks, ∃ t, lastNote (ofBucket h b) k = some t ∧ fresh now t := by
  rw [← (hd.bucket b).le_length_prune]
  constructor
  · rintro ⟨m, hmem, hn⟩
    obtain ⟨m', hmem', rfl, hne⟩ := mem_pruneAll.mp hmem
    rw [(get_eq_some_iff hd.nodup).mpr hmem']
    have hpos : 0 < (Recent.prune fresh now m').length := List.length_pos_of_ne_nil hne
    exact max_le hn hpos
  · intro hn
    cases hg : get d b with
    | none =>
      rw [hg] at hn
      have hone := le_trans (le_max_right n 1) hn
      simp [Recent.prune] at hone
    | some m' =>
      rw [hg] at hn
      have hone := le_trans (le_max_right n 1) hn
      exact ⟨_, mem_pruneAll.mpr ⟨m', mem_of_get hg, rfl, List.ne_nil_of_length_pos hone⟩,
        le_trans (le_max_left n 1) hn⟩

end KeepsAll

end Broker.Lib.Recent
