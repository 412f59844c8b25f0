import Mathlib.Data.List.Nodup
import Mathlib.Data.List.Perm.Basic

/-!
# Broker.Lib.Reorder — rearrangements of a list that say which pairs they swap

`a` comes before `b` in `l` when `[a, b] <+ l`.  `Reorders Moved l m` says that `m` has the elements of
`l` and that a pair keeps its order unless `Moved` holds of it; the rules compose such rearrangements.
-/

open scoped List

namespace Broker.Lib

variable {α : Type*} {R S : α → α → Prop} {l m n : List α} {a b : α} {p : α → Bool}

/-! ### Pairs in order -/

theorem pair_sublist_cons {x : α} : [a, b] <+ x :: l ↔ [a, b] <+ l ∨ a = x ∧ b ∈ l := by
  constructor
  · intro h
    cases h with
    | cons _ h => exact .inl h
    | cons_cons _ h => exact .inr ⟨rfl, List.singleton_sublist.mp h⟩
  · rintro (h | ⟨rfl, h⟩)
    · exact h.cons x
    · exact (List.singleton_sublist.mpr h).cons_cons a

theorem pair_sublist_append :
    [a, b] <+ l ++ m ↔ [a, b] <+ l ∨ [a, b] <+ m ∨ a ∈ l ∧ b ∈ m := by
  induction l with
  | nil => simp
  | cons x l ih =>
    rw [List.cons_append, pair_sublist_cons, ih, pair_sublist_cons, List.mem_append, List.mem_cons]
    tauto

theorem mem_of_pair_sublist (h : [a, b] <+ l) : a ∈ l ∧ b ∈ l :=
  ⟨h.subset (by simp), h.subset (by simp)⟩

theorem pair_sublist_filter : [a, b] <+ l.filter p ↔ [a, b] <+ l ∧ p a = true ∧ p b = true := by
  constructor
  · intro h
    have hmem := mem_of_pair_sublist h
    exact ⟨h.trans List.filter_sublist, List.of_mem_filter hmem.1, List.of_mem_filter hmem.2⟩
  · rintro ⟨h, ha, hb⟩
    have hfilter := h.filter p
    simpa [ha, hb] using hfilter

/-- Without duplicates no pair stands in both orders. -/
theorem not_pair_swapped (hl : l.Nodup) (hab : [a, b] <+ l) : ¬ [b, a] <+ l := by
  induction l with
  | nil => cases hab
  | cons x l ih =>
    obtain ⟨hx, hl⟩ := List.nodup_cons.mp hl
    intro hba
    rcases pair_sublist_cons.mp hab with hab' | ⟨rfl, hb⟩
    · rcases pair_sublist_cons.mp hba with hba' | ⟨rfl, -⟩
      · exact ih hl hab' hba'
      · exact hx (mem_of_pair_sublist hab').2
    · rcases pair_sublist_cons.mp hba with hba' | ⟨rfl, ha⟩
      · exact hx (mem_of_pair_sublist hba').2
      · exact hx ha

/-! ### Rearrangements -/

/-- `m` rearranges `l` and keeps the order of every pair that is not `Moved`. -/
structure Reorders (Moved : α → α → Prop) (l m : List α) : Prop where
  perm : m.Perm l
  pair : ∀ a b, [a, b] <+ l → Moved a b ∨ [a, b] <+ m

namespace Reorders

theorem refl (R : α → α → Prop) (l : List α) : Reorders R l l := ⟨.refl l, fun _ _ h => .inr h⟩

/-- Only the pairs of the list matter. -/
theorem mono (h : Reorders R l m) (hRS : ∀ a b, [a, b] <+ l → R a b → S a b) : Reorders S l m :=
  ⟨h.perm, fun a b hab => (h.pair a b hab).imp_left (hRS a b hab)⟩

theorem trans (hlm : Reorders R l m) (hmn : Reorders S m n) : Reorders (fun a b => R a b ∨ S a b) l n := by
  refine ⟨hmn.perm.trans hlm.perm, fun a b hab => ?_⟩
  rcases hlm.pair a b hab with hR | hm
  · exact .inl (.inl hR)
  · exact (hmn.pair a b hm).imp_left .inr

theorem append_left (k : List α) (h : Reorders R l m) : Reorders R (k ++ l) (k ++ m) := by
  refine ⟨h.perm.append_left k, fun a b hab => ?_⟩
  rw [pair_sublist_append] at hab ⊢
  rcases hab with hk | hl | ⟨ha, hb⟩
  · exact .inr (.inl hk)
  · exact (h.pair a b hl).imp_right fun hm => .inr (.inl hm)
  · exact .inr (.inr (.inr ⟨ha, h.perm.mem_iff.mpr hb⟩))

/-- A pair whose order changed has moved. -/
theorem moved_of_swapped (h : Reorders R l m) (hl : l.Nodup) (hab : [a, b] <+ l) (hba : [b, a] <+ m) :
    R a b := by
  have hm : m.Nodup := h.perm.nodup_iff.mpr hl
  exact (h.pair a b hab).resolve_right fun hm' => not_pair_swapped hm hm' hba

/-- A stable partition moves what passes in front of what does not. -/
theorem partition (p : α → Bool) (l : List α) :
    Reorders (fun a b => p a = false ∧ p b = true) l (l.filter p ++ l.filter fun x => !p x) := by
  refine ⟨List.filter_append_perm p l, fun a b hab => ?_⟩
  have hmem := mem_of_pair_sublist hab
  rw [pair_sublist_append, pair_sublist_filter, pair_sublist_filter]
  cases ha : p a with
  | true =>
    cases hb : p b with
    | true => exact .inr (.inl ⟨hab, rfl, rfl⟩)
    | false => exact .inr (.inr (.inr ⟨List.mem_filter.mpr ⟨hmem.1, ha⟩, List.mem_filter.mpr ⟨hmem.2, by simp [hb]⟩⟩))
  | false =>
    cases hb : p b with
    | true => exact .inl ⟨rfl, rfl⟩
    | false => exact .inr (.inr (.inl ⟨hab, by simp, by simp⟩))

/-- Sinking the head behind the elements that pass moves these in front of it and of those that do not
pass. -/
theorem sink (p : α → Bool) (d : α) (l : List α) :
    Reorders (fun a b => (a = d ∨ a ∈ l ∧ p a = false) ∧ b ∈ l ∧ p b = true) (d :: l)
      (l.filter p ++ d :: l.filter fun x => !p x) := by
  have hpart := partition p l
  refine ⟨List.perm_middle.trans (hpart.perm.cons d), fun a b hab => ?_⟩
  rw [pair_sublist_append, pair_sublist_cons]
  rcases pair_sublist_cons.mp hab with hab | ⟨rfl, hb⟩
  · have hmem := mem_of_pair_sublist hab
    rcases hpart.pair a b hab with ⟨ha, hb⟩ | hm
    · exact .inl ⟨.inr ⟨hmem.1, ha⟩, hmem.2, hb⟩
    · rcases pair_sublist_append.mp hm with hm | hm | ⟨ha, hb⟩
      · exact .inr (.inl hm)
      · exact .inr (.inr (.inl (.inl hm)))
      · exact .inr (.inr (.inr ⟨ha, List.mem_cons_of_mem d hb⟩))
  · cases hp : p b with
    | true => exact .inl ⟨.inl rfl, hb, rfl⟩
    | false => exact .inr (.inr (.inl (.inr ⟨rfl, List.mem_filter.mpr ⟨hb, by simp [hp]⟩⟩)))

end Reorders

end Broker.Lib
