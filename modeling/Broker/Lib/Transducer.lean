import Mathlib.Data.List.Basic
import Mathlib.Tactic.Common

/-!
# Broker.Lib.Transducer — one output for every symbol read

A deterministic reader with states `σ` writes `out s a` for the symbol `a` it reads in `s` and goes on in
`next s a`.  What it writes at a position depends on the word before it through the state reached there
(`mem_outputs`), so two words that differ, position by position, only by symbols their common state does not
tell apart have one output (`Along.outputs_eq`).
-/

namespace Broker.Lib.Transducer

variable {σ α β : Type*} (next : σ → α → σ) (out : σ → α → β)

/-- The state after a word. -/
def reach (s : σ) (w : List α) : σ := w.foldl next s

/-- What is written for a word. -/
def outputs : σ → List α → List β
  | _, [] => []
  | s, a :: w => out s a :: outputs (next s a) w

/-- The words agree position by position, up to what `R` identifies in the state reached there. -/
inductive Along (R : σ → α → α → Prop) : σ → List α → List α → Prop
  | nil (s : σ) : Along R s [] []
  | cons {s : σ} {a b : α} {v w : List α} : R s a b → Along R (next s a) v w → Along R s (a :: v) (b :: w)

variable {next out} {s : σ} {v w : List α}

@[simp] theorem length_outputs : (outputs next out s w).length = w.length := by
  induction w generalizing s with
  | nil => rfl
  | cons a w ih => simp [outputs, ih]

/-- An output is that of a symbol, in the state after what stands before it. -/
theorem mem_outputs {o : β} (h : o ∈ outputs next out s w) :
    ∃ before a after, w = before ++ a :: after ∧ o = out (reach next s before) a := by
  induction w generalizing s with
  | nil => cases h
  | cons a w ih =>
    rcases List.mem_cons.mp h with rfl | h
    · exact ⟨[], a, w, rfl, rfl⟩
    · obtain ⟨before, b, after, rfl, rfl⟩ := ih h
      exact ⟨a :: before, b, after, rfl, rfl⟩

/-- Symbols that are not told apart leave no trace. -/
theorem Along.outputs_eq {R : σ → α → α → Prop} (hnext : ∀ s a b, R s a b → next s a = next s b)
    (hout : ∀ s a b, R s a b → out s a = out s b) (h : Along next R s v w) :
    outputs next out s v = outputs next out s w := by
  induction h with
  | nil s => rfl
  | cons hab _ ih => rw [outputs, outputs, hout _ _ _ hab, ih, hnext _ _ _ hab]

end Broker.Lib.Transducer
