import Mathlib.Data.List.SplitBy

/-!
# Broker.Lib.Runs — the last maximal run of a list

`List.splitBy r` cuts a list into its maximal runs, the segments whose neighbours are related by `r`.  The
last of them grows by an element related to its last one, and any other element begins a new one.
-/

namespace Broker.Lib

variable {α : Type*} {r : α → α → Bool} {l : List α} {x y : α}

/-- The last maximal run. -/
def lastRun (r : α → α → Bool) (l : List α) : List α := (l.splitBy r).getLast?.getD []

@[simp] theorem lastRun_nil (r : α → α → Bool) : lastRun r [] = [] := rfl

/-- A list that is not empty is what precedes its last run, and its last run. -/
theorem exists_splitBy_eq_concat (h : l ≠ []) :
    ∃ gs, l.splitBy r = gs ++ [lastRun r l] ∧ l = gs.flatten ++ lastRun r l := by
  have hne : l.splitBy r ≠ [] := List.splitBy_ne_nil.mpr h
  have hlast : lastRun r l = (l.splitBy r).getLast hne := by
    rw [lastRun, List.getLast?_eq_some_getLast hne, Option.getD_some]
  have hsplit : l.splitBy r = (l.splitBy r).dropLast ++ [lastRun r l] := by
    rw [hlast, List.dropLast_concat_getLast hne]
  refine ⟨(l.splitBy r).dropLast, hsplit, ?_⟩
  have hflat := congrArg List.flatten hsplit
  rwa [List.flatten_splitBy, List.flatten_append, List.flatten_singleton] at hflat

theorem lastRun_ne_nil (h : l ≠ []) : lastRun r l ≠ [] := by
  obtain ⟨gs, hsplit, -⟩ := exists_splitBy_eq_concat (r := r) h
  refine List.ne_nil_of_mem_splitBy (r := r) (l := l) ?_
  rw [hsplit]
  exact List.mem_append_right _ (List.mem_singleton_self _)

theorem getLast?_lastRun (r : α → α → Bool) (l : List α) : (lastRun r l).getLast? = l.getLast? := by
  by_cases h : l = []
  · rw [h, lastRun_nil]
  · obtain ⟨gs, -, hflat⟩ := exists_splitBy_eq_concat (r := r) h
    conv_rhs => rw [hflat]
    rw [List.getLast?_append_of_ne_nil _ (lastRun_ne_nil h)]

theorem mem_of_mem_lastRun (h : x ∈ lastRun r l) : x ∈ l := by
  by_cases hl : l = []
  · rw [hl, lastRun_nil] at h
    cases h
  · obtain ⟨gs, -, hflat⟩ := exists_splitBy_eq_concat (r := r) hl
    rw [hflat]
    exact List.mem_append_right _ h

/-- An element not related to the last one begins a run. -/
theorem lastRun_concat_of_not (h : ∀ y ∈ l.getLast?, r y x = false) : lastRun r (l ++ [x]) = [x] := by
  rw [lastRun, List.splitBy_append_cons [] h, List.splitBy_of_isChain (by simp) (List.isChain_singleton x)]
  simp

/-- An element related to the last one joins its run. -/
theorem lastRun_concat_of (hy : l.getLast? = some y) (h : r y x = true) :
    lastRun r (l ++ [x]) = lastRun r l ++ [x] := by
  have hne : l ≠ [] := by
    rintro rfl
    cases hy
  obtain ⟨gs, hsplit, hflat⟩ := exists_splitBy_eq_concat (r := r) hne
  have hrun := lastRun_ne_nil (r := r) hne
  have hlast : (lastRun r l).getLast? = some y := (getLast?_lastRun r l).trans hy
  have hmem : lastRun r l ∈ l.splitBy r := by
    rw [hsplit]
    exact List.mem_append_right _ (List.mem_singleton_self _)
  -- the run with the new element is a run
  have hchain : (lastRun r l ++ [x]).IsChain fun a b => r a b = true := by
    refine List.isChain_append.mpr ⟨List.isChain_of_mem_splitBy hmem, List.isChain_singleton x, ?_⟩
    intro a ha b hb
    obtain rfl : a = y := Option.some.inj (ha.symm.trans hlast)
    obtain rfl : b = x := by simpa using hb.symm
    exact h
  -- and it is still apart from what precedes it
  have hgs : gs.flatten.splitBy r = gs := by
    refine List.splitBy_flatten ?_ (fun m hm => ?_) ?_
    · intro hnil
      exact List.nil_notMem_splitBy r l (hsplit ▸ List.mem_append_left _ hnil)
    · exact List.isChain_of_mem_splitBy (l := l) (hsplit ▸ List.mem_append_left _ hm)
    · exact (List.isChain_append.mp (hsplit ▸ List.isChain_getLast_head_splitBy r l)).1
  have hapart : ∀ a ∈ gs.flatten.getLast?, ∀ b ∈ (lastRun r l ++ [x]).head?, r a b = false := by
    intro a ha b hb
    have hsep := (List.isChain_append.mp (hsplit ▸ List.isChain_getLast_head_splitBy r l)).2.2
    cases hg : gs.getLast? with
    | none =>
      rw [List.getLast?_eq_none_iff.mp hg] at ha
      cases ha
    | some g =>
      obtain ⟨hga, hgb, hfalse⟩ := hsep g hg (lastRun r l) rfl
      obtain ⟨gs', rfl⟩ := List.getLast?_eq_some_iff.mp hg
      have haeq : a = g.getLast hga := by
        rw [List.flatten_append, List.flatten_singleton, List.getLast?_append_of_ne_nil _ hga,
          List.getLast?_eq_some_getLast hga] at ha
        exact (Option.some.inj ha).symm
      have hbeq : b = (lastRun r l).head hgb := by
        rw [List.head?_append_of_ne_nil _ hgb, List.head?_eq_some_head hgb] at hb
        exact (Option.some.inj hb).symm
      rw [haeq, hbeq]
      exact hfalse
  have hcut : (l ++ [x]).splitBy r = gs ++ [lastRun r l ++ [x]] := by
    conv_lhs => rw [hflat, List.append_assoc]
    rw [List.splitBy_append hapart, hgs, List.splitBy_of_isChain (by simp) hchain]
  rw [lastRun, hcut, List.getLast?_concat, Option.getD_some]

end Broker.Lib
