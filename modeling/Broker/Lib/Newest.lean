import Mathlib.Data.List.Sort
import Mathlib.Order.Lattice

/-!
# Broker.Lib.Newest — the first row of a descending order

`ORDER BY t DESC LIMIT 1` is the head of a stable sort: everything in front of it is strictly older and
nothing behind it is newer.  So a row with some property comes first exactly when no row without it
overtakes all that have it (`newest_iff`).
-/

namespace Broker.Lib

variable {α τ : Type*} [LinearOrder τ] {t : α → τ} {r : α → α → Prop} [DecidableRel r]

/-- The head is the newest element, and the first of those. -/
theorem newest_split (hr : ∀ a b, r a b ↔ t b ≤ t a) {l : List α} {x : α}
    (h : (l.insertionSort r).head? = some x) :
    ∃ as bs, l = as ++ x :: bs ∧ (∀ a ∈ as, t a < t x) ∧ ∀ b ∈ bs, t b ≤ t x := by
  induction l generalizing x with
  | nil => simp at h
  | cons a l ih =>
    rw [List.insertionSort_cons] at h
    cases hs : l.insertionSort r with
    | nil =>
      have hl : l = [] := by
        have hlen := List.length_insertionSort r l
        rw [hs] at hlen
        exact List.eq_nil_of_length_eq_zero hlen.symm
      subst hl
      obtain rfl : a = x := by simpa using h
      exact ⟨[], [], rfl, by simp, by simp⟩
    | cons b s =>
      obtain ⟨as, bs, rfl, hlt, hle⟩ := ih (x := b) (by rw [hs]; rfl)
      rw [hs, List.orderedInsert_cons] at h
      by_cases hab : r a b
      · rw [if_pos hab] at h
        obtain rfl : a = x := by simpa using h
        have hba := (hr a b).mp hab
        refine ⟨[], as ++ b :: bs, rfl, by simp, fun c hc => ?_⟩
        rcases List.mem_append.mp hc with hc | hc
        · exact (hlt c hc).le.trans hba
        · rcases List.mem_cons.mp hc with rfl | hc
          · exact hba
          · exact (hle c hc).trans hba
      · rw [if_neg hab] at h
        obtain rfl : b = x := by simpa using h
        refine ⟨a :: as, bs, rfl, fun c hc => ?_, hle⟩
        rcases List.mem_cons.mp hc with rfl | hc
        · exact lt_of_not_ge fun hge => hab ((hr c b).mpr hge)
        · exact hlt c hc

/-- Some element without the property is newer than all that have it, or as new and in front of them. -/
def Overtaken (t : α → τ) (p : α → Prop) (l : List α) : Prop :=
  ∃ as x bs, l = as ++ x :: bs ∧ ¬p x ∧ (∀ a ∈ as, p a → t a < t x) ∧ ∀ b ∈ bs, p b → t b ≤ t x

/-- **The newest element has the property** unless it is overtaken. -/
theorem newest_iff (hr : ∀ a b, r a b ↔ t b ≤ t a) {p : α → Prop} {l : List α} (hl : ∃ x ∈ l, p x) :
    (∃ x, (l.insertionSort r).head? = some x ∧ p x) ↔ ¬Overtaken t p l := by
  constructor
  · rintro ⟨x, hx, hpx⟩ ⟨cs, y, ds, hsplit, hpy, hbefore, hbehind⟩
    obtain ⟨as, bs, rfl, hlt, hle⟩ := newest_split hr hx
    rcases List.append_eq_append_iff.mp hsplit with ⟨e, rfl, he⟩ | ⟨e, rfl, he⟩
    · cases e with
      | nil =>
        obtain ⟨rfl, -⟩ := List.cons.inj he
        exact hpy hpx
      | cons z e =>
        obtain ⟨rfl, rfl⟩ := List.cons.inj he
        exact absurd (hbefore x (by simp) hpx) (not_lt.mpr (hle y (by simp)))
    · cases e with
      | nil =>
        obtain ⟨rfl, -⟩ := List.cons.inj he
        exact hpy hpx
      | cons z e =>
        obtain ⟨rfl, rfl⟩ := List.cons.inj he
        exact absurd (hlt y (by simp)) (not_lt.mpr (hbehind x (by simp) hpx))
  · intro h
    obtain ⟨y, hy, -⟩ := hl
    have hne : l.insertionSort r ≠ [] := by
      intro hnil
      have hmem := (List.mem_insertionSort r).mpr hy
      rw [hnil] at hmem
      cases hmem
    obtain ⟨x, hx⟩ := Option.isSome_iff_exists.mp (List.isSome_head?.mpr hne)
    refine ⟨x, hx, by_contra fun hpx => h ?_⟩
    obtain ⟨as, bs, rfl, hlt, hle⟩ := newest_split hr hx
    exact ⟨as, x, bs, rfl, hpx, fun a ha _ => hlt a ha, fun b hb _ => hle b hb⟩

end Broker.Lib
