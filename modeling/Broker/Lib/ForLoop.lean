import Mathlib.Tactic.Common

/-!
# Broker.Lib.ForLoop — a `for` with `break` that can raise

What every step keeps holds at the end; for a loop without `break` this may say what of the items is done.
-/

namespace Broker.Lib

variable {σ α ε : Type} {stop : σ → α → Bool} {step : σ → α → Except ε σ}

/-- The states a loop goes through: it ends before an item at which it stops. -/
def forLoop (stop : σ → α → Bool) (step : σ → α → Except ε σ) : σ → List α → Except ε σ
  | s, [] => .ok s
  | s, a :: as =>
    if stop s a then .ok s
    else
      match step s a with
      | .error e => .error e
      | .ok s' => forLoop stop step s' as

/-- **An invariant of the steps holds at the end**; a step is taken on an item at which the loop does not
stop. -/
theorem forLoop_induct {P : σ → Prop} {as : List α} {s t : σ} (h : forLoop stop step s as = .ok t) (hs : P s)
    (hstep : ∀ s a s', a ∈ as → stop s a = false → step s a = .ok s' → P s → P s') : P t := by
  induction as generalizing s with
  | nil =>
    obtain rfl := Except.ok.inj h
    exact hs
  | cons a as ih =>
    rw [forLoop] at h
    by_cases hstop : stop s a = true
    · rw [if_pos hstop] at h
      obtain rfl := Except.ok.inj h
      exact hs
    · rw [if_neg hstop] at h
      cases hnext : step s a with
      | error e =>
        rw [hnext] at h
        cases h
      | ok s' =>
        rw [hnext] at h
        have hs' : P s' := hstep s a s' List.mem_cons_self (by simpa using hstop) hnext hs
        exact ih h hs' fun s b s' hb => hstep s b s' (List.mem_cons_of_mem _ hb)

/-- **An invariant of the items done so far holds of all of them.** -/
theorem foldlM_induct {P : List α → σ → Prop} {body : σ → α → Except ε σ} {as : List α} {s t : σ}
    (h : as.foldlM body s = .ok t) (hs : P [] s)
    (hstep : ∀ done s a s', P done s → body s a = .ok s' → P (done ++ [a]) s') : P as t := by
  have hfrom : ∀ (as done : List α) (s : σ), as.foldlM body s = .ok t → P done s → P (done ++ as) t := by
    intro as
    induction as with
    | nil =>
      intro done s h hdone
      obtain rfl := Except.ok.inj h
      simpa using hdone
    | cons a as ih =>
      intro done s h hdone
      rw [List.foldlM_cons] at h
      cases hnext : body s a with
      | error e =>
        rw [hnext] at h
        cases h
      | ok s' =>
        rw [hnext] at h
        have hrest := ih (done ++ [a]) s' h (hstep done s a s' hdone hnext)
        rwa [List.append_assoc, List.singleton_append] at hrest
  exact hfrom as [] s h hs

end Broker.Lib
