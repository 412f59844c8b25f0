import Mathlib.Data.List.Basic
import Mathlib.Tactic.Common

/-!
# Broker.Lib.Locks — exclusive locks held by the transactions of a list

`holds x k` says that the transaction `x` holds the lock `k`.  A lock is exclusive when no two places of the
list hold it; a transaction may give locks up at any time and take one that no other holds.
-/

namespace Broker.Lib

variable {τ κ : Type*} {holds : τ → κ → Prop} {txs : List τ}

/-- No lock is held at two places. -/
def Exclusive (holds : τ → κ → Prop) (txs : List τ) : Prop :=
  ∀ (i j : ℕ) (x y : τ) (k : κ), txs[i]? = some x → txs[j]? = some y → holds x k → holds y k → i = j

namespace Exclusive

theorem nil : Exclusive holds [] := fun i j x y k hx => by simp at hx

/-- A transaction that holds nothing may start. -/
theorem append (h : Exclusive holds txs) {x : τ} (hx : ∀ k, ¬ holds x k) : Exclusive holds (txs ++ [x]) := by
  have hold : ∀ {i : ℕ} {y : τ} {k : κ}, (txs ++ [x])[i]? = some y → holds y k → txs[i]? = some y := by
    intro i y k hy hk
    by_cases hi : i < txs.length
    · rwa [List.getElem?_append_left hi] at hy
    · rw [List.getElem?_append_right (Nat.le_of_not_lt hi)] at hy
      obtain rfl := List.mem_singleton.mp (List.mem_of_getElem? hy)
      exact absurd hk (hx k)
  intro i j y z k hy hz hky hkz
  exact h i j y z k (hold hy hky) (hold hz hkz) hky hkz

/-- A place of the list with a new entry at `i` is `i`, or a place of the old list. -/
theorem getElem?_set_cases {i j : ℕ} {x y z : τ} (hx : txs[i]? = some x) (hz : (txs.set i y)[j]? = some z) :
    (j = i ∧ z = y) ∨ (j ≠ i ∧ txs[j]? = some z) := by
  have hi : i < txs.length := (List.getElem?_eq_some_iff.mp hx).1
  by_cases hj : j = i
  · subst hj
    rw [List.getElem?_set_self hi] at hz
    exact .inl ⟨rfl, (Option.some.inj hz).symm⟩
  · rw [List.getElem?_set_ne (Ne.symm hj)] at hz
    exact .inr ⟨hj, hz⟩

/-- The entries beside a new one shared no lock with the entry it replaces. -/
theorem of_mem_set (h : Exclusive holds txs) {i : ℕ} {x y z : τ} (hx : txs[i]? = some x)
    (hz : z ∈ txs.set i y) : z = y ∨ (z ∈ txs ∧ ∀ k, holds z k → ¬ holds x k) := by
  obtain ⟨j, hj⟩ := List.mem_iff_getElem?.mp hz
  rcases getElem?_set_cases hx hj with ⟨-, rfl⟩ | ⟨hne, hz⟩
  · exact .inl rfl
  · exact .inr ⟨List.mem_of_getElem? hz, fun k hkz hkx => hne (h j i z x k hz hx hkz hkx)⟩

/-- A transaction may give up locks, and take those that no transaction holds. -/
theorem set (h : Exclusive holds txs) {i : ℕ} {x y : τ} (hx : txs[i]? = some x)
    (hy : ∀ k, holds y k → holds x k ∨ ∀ z ∈ txs, ¬ holds z k) : Exclusive holds (txs.set i y) := by
  have hother : ∀ {j : ℕ} {z : τ} {k : κ}, j ≠ i → txs[j]? = some z → holds z k → ¬ holds y k := by
    intro j z k hj hz hkz hky
    rcases hy k hky with hkx | hfree
    · exact hj (h j i z x k hz hx hkz hkx)
    · exact hfree z (List.mem_of_getElem? hz) hkz
  intro j l z w k hz hw hkz hkw
  rcases getElem?_set_cases hx hz with ⟨rfl, rfl⟩ | ⟨hj, hz'⟩ <;>
    rcases getElem?_set_cases hx hw with ⟨rfl, rfl⟩ | ⟨hl, hw'⟩
  · rfl
  · exact absurd hkz (hother hl hw' hkw)
  · exact absurd hkw (hother hj hz' hkz)
  · exact h j l z w k hz' hw' hkz hkw

end Exclusive

end Broker.Lib
