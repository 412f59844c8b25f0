import Mathlib.Data.List.Nodup
import Mathlib.Tactic.Common

/-!
# Broker.Lib.Table — a table as a list of rows, and the `UPDATE … WHERE` statement

`updateWhere p f` is one atomic statement: `f` on every row that meets `p`, the others untouched.
-/

namespace Broker.Lib

variable {ρ κ : Type*}

/-- `UPDATE … SET f WHERE p`. -/
def updateWhere (p : ρ → Bool) (f : ρ → ρ) (t : List ρ) : List ρ := t.map fun r => if p r then f r else r

variable {p : ρ → Bool} {f : ρ → ρ} {t : List ρ}

/-- A row after the statement is an unmatched row or the image of a matched one. -/
theorem mem_updateWhere {r' : ρ} :
    r' ∈ updateWhere p f t ↔ (r' ∈ t ∧ p r' = false) ∨ ∃ r ∈ t, p r = true ∧ f r = r' := by
  unfold updateWhere
  rw [List.mem_map]
  constructor
  · rintro ⟨r, hr, rfl⟩
    cases hp : p r with
    | false => exact .inl ⟨by simpa [hp] using hr, by simp [hp]⟩
    | true => exact .inr ⟨r, hr, hp, by simp⟩
  · rintro (⟨hr, hp⟩ | ⟨r, hr, hp, rfl⟩)
    · exact ⟨r', hr, by simp [hp]⟩
    · exact ⟨r, hr, by simp [hp]⟩

/-- A row after the statement, from its row before. -/
theorem mem_updateWhere_of_mem {r : ρ} (hr : r ∈ t) : (if p r then f r else r) ∈ updateWhere p f t :=
  List.mem_map_of_mem hr

/-- A statement that keeps a column of the rows it matches keeps the list of its values. -/
theorem map_updateWhere_of_mem {key : ρ → κ} (h : ∀ r ∈ t, p r = true → key (f r) = key r) :
    (updateWhere p f t).map key = t.map key := by
  unfold updateWhere
  rw [List.map_map]
  refine List.map_congr_left fun r hr => ?_
  simp only [Function.comp_apply]
  split_ifs with hp
  · exact h r hr hp
  · rfl

theorem map_updateWhere {key : ρ → κ} (h : ∀ r, key (f r) = key r) :
    (updateWhere p f t).map key = t.map key :=
  map_updateWhere_of_mem fun r _ _ => h r

/-- A statement that matches no row changes nothing. -/
theorem updateWhere_of_not_mem (h : ∀ r ∈ t, p r = false) : updateWhere p f t = t := by
  unfold updateWhere
  conv_rhs => rw [← List.map_id t]
  refine List.map_congr_left fun r hr => ?_
  simp [h r hr]

/-- Rows of a table with distinct keys are determined by their key. -/
theorem eq_of_key {key : ρ → κ} (h : (t.map key).Nodup) {r r' : ρ} (hr : r ∈ t) (hr' : r' ∈ t)
    (hk : key r = key r') : r = r' :=
  List.inj_on_of_nodup_map h hr hr' hk

/-- A count over the rows of one key asks only the row of that key. -/
theorem countP_of_key [DecidableEq κ] {key : ρ → κ} (h : (t.map key).Nodup) {r : ρ} (hr : r ∈ t)
    (q : ρ → Bool) :
    (t.countP fun x => decide (key x = key r) && q x) = (q r).toNat := by
  induction t with
  | nil => cases hr
  | cons x t ih =>
    rw [List.map_cons, List.nodup_cons] at h
    rw [List.countP_cons]
    rcases List.mem_cons.mp hr with rfl | hr
    · have hnone : t.countP (fun x => decide (key x = key r) && q x) = 0 := by
        rw [List.countP_eq_zero]
        intro y hy hq
        have hk : key y = key r := by simpa using (Bool.and_eq_true_iff.mp hq).1
        exact h.1 (hk ▸ List.mem_map_of_mem hy)
      rw [hnone]
      cases q r <;> simp
    · have hne : key x ≠ key r := fun hk => h.1 (hk ▸ List.mem_map_of_mem hr)
      simp [hne, ih h.2 hr]

/-- Leaving one counted element out of a list without repetitions lowers the count by one. -/
theorem countP_ne_succ [DecidableEq ρ] {a : ρ} {q : ρ → Bool} (h : t.Nodup) (ha : a ∈ t) (hq : q a = true) :
    (t.countP fun x => q x && decide (x ≠ a)) + 1 = t.countP q := by
  have herase : (t.countP fun x => q x && decide (x ≠ a)) = (t.erase a).countP q := by
    rw [h.erase_eq_filter, List.countP_filter]
    refine List.countP_congr fun x _ => ?_
    simp
  rw [herase, (List.perm_cons_erase ha).countP_eq q, List.countP_cons, if_pos hq]

end Broker.Lib
