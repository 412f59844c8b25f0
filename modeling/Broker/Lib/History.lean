import Mathlib.Data.List.Induction
import Mathlib.Tactic.Common

/-!
# Broker.Lib.History — what holds at each event of a history

`AtEach P h` says that every event of `h` meets `P` given the events before it; it is built up one event
at a time.
-/

namespace Broker.Lib

variable {α : Type*}

/-- Every event meets `P` beside the events before it. -/
def AtEach (P : List α → α → Prop) (h : List α) : Prop := ∀ us a vs, h = us ++ a :: vs → P us a

namespace AtEach

variable {P Q : List α → α → Prop} {h : List α} {a : α}

theorem nil : AtEach P [] := by
  intro us a vs h
  simp at h

/-- A further event needs only its own check. -/
theorem snoc (hh : AtEach P h) (ha : P h a) : AtEach P (h ++ [a]) := by
  intro us b vs heq
  rcases List.eq_nil_or_concat vs with rfl | ⟨ws, c, rfl⟩
  · obtain ⟨rfl, hb⟩ := List.append_inj' heq rfl
    obtain rfl : a = b := by simpa using hb
    exact ha
  · have heq' : h ++ [a] = (us ++ b :: ws) ++ [c] := by simpa using heq
    exact hh us b ws (List.append_inj' heq' rfl).1

theorem init (hh : AtEach P (h ++ [a])) : AtEach P h := by
  intro us b vs heq
  exact hh us b (vs ++ [a]) (by rw [heq]; simp)

theorem last (hh : AtEach P (h ++ [a])) : P h a := hh h a [] rfl

theorem mono (hh : AtEach P h) (hPQ : ∀ us a, P us a → Q us a) : AtEach Q h :=
  fun us a vs heq => hPQ us a (hh us a vs heq)

/-- Events that come only while fewer than `n` have come are never more than `n`. -/
theorem countP_le {p : α → Bool} {n : ℕ} (hh : AtEach P h)
    (hP : ∀ us a, P us a → p a = true → us.countP p < n) : h.countP p ≤ n := by
  induction h using List.reverseRecOn with
  | nil => simp
  | append_singleton us a ih =>
    have hle := ih hh.init
    rw [List.countP_append]
    by_cases ha : p a = true
    · have hlt := hP us a hh.last ha
      simp only [List.countP_singleton, ha, if_true]
      omega
    · simpa [List.countP_singleton, ha] using hle

end AtEach

end Broker.Lib
