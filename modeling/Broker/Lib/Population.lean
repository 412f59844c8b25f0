import Mathlib.Data.List.Count
import Mathlib.Tactic.Common

/-!
# Broker.Lib.Population — how many processes of a list are somewhere

A list of processes changes by one entry at a time; what that does to the number of those with `p`.
-/

namespace Broker.Lib

variable {α : Type*} {p : α → Bool} {l : List α} {i : ℕ} {x : α}

/-- One entry is replaced: it is taken from the count and the new one added. -/
theorem countP_set_add (hx : l[i]? = some x) (y : α) :
    (l.set i y).countP p + (p x).toNat = l.countP p + (p y).toNat := by
  obtain ⟨hi, rfl⟩ := List.getElem?_eq_some_iff.mp hx
  have hpos : p l[i] = true → 0 < l.countP p := fun hp => List.countP_pos_iff.mpr ⟨_, List.getElem_mem hi, hp⟩
  rw [List.countP_set hi]
  cases hold : p l[i] with
  | false => cases p y <;> simp
  | true =>
    have hlt := hpos hold
    cases p y with
    | false => simp only [if_true, Bool.toNat_true, Bool.toNat_false, Bool.false_eq_true, if_false]; omega
    | true => simp only [if_true, Bool.toNat_true]; omega

/-- A replacement of the same kind. -/
theorem countP_set_same (hx : l[i]? = some x) {y : α} (h : p y = p x) :
    (l.set i y).countP p = l.countP p := by
  have hadd := countP_set_add (p := p) hx y
  rw [h] at hadd
  exact Nat.add_right_cancel hadd

theorem countP_concat (x : α) : (l ++ [x]).countP p = l.countP p + (p x).toNat := by
  rw [List.countP_append, List.countP_singleton]
  cases p x <;> rfl

end Broker.Lib
