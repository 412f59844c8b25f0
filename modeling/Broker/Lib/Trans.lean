import Mathlib.Data.List.Induction
import Mathlib.Tactic.Common

/-!
# Broker.Lib.Trans — runs of a labelled transition system given as a partial step function

`step s a = some s'` says that action `a` is enabled in `s` and leads to `s'`; every choice of the
environment (who moves, what a clock reads, which await fails) is part of the action.  `Steps step C`
are the runs all of whose actions meet the side condition `C` in the state they are taken in, and
`execAll` evaluates a list of actions.
-/

namespace Broker.Lib

variable {σ α : Type*}

/-- No side condition on the actions of a run. -/
def Free : σ → α → Prop := fun _ _ => True

/-- `Steps step C s as s'`: the actions `as`, taken in this order from `s`, end in `s'`, and each of
them meets `C` in the state it is taken in. -/
inductive Steps (step : σ → α → Option σ) (C : σ → α → Prop) : σ → List α → σ → Prop
  | nil (s : σ) : Steps step C s [] s
  | snoc {s t u : σ} {as : List α} {a : α} :
      Steps step C s as t → C t a → step t a = some u → Steps step C s (as ++ [a]) u

/-- Evaluate a list of actions. -/
def execAll (step : σ → α → Option σ) : σ → List α → Option σ
  | s, [] => some s
  | s, a :: as => (step s a).bind (fun s' => execAll step s' as)

variable {step : σ → α → Option σ} {C : σ → α → Prop}

namespace Steps

/-- An invariant kept by every step that meets the side condition holds at the end of every run. -/
theorem inv {I : σ → Prop} (hstep : ∀ t a u, I t → C t a → step t a = some u → I u)
    {s u : σ} {as : List α} (h : Steps step C s as u) (h0 : I s) : I u := by
  induction h with
  | nil => exact h0
  | snoc _ hc hs ih => exact hstep _ _ _ ih hc hs

/-- A reflexive and transitive relation kept by every step, from states with the invariant `I`, holds
between the two ends of every run. -/
theorem rel {I : σ → Prop} {R : σ → σ → Prop} (hI : ∀ t a u, I t → C t a → step t a = some u → I u)
    (hrefl : ∀ t, R t t) (htrans : ∀ t u v, R t u → R u v → R t v)
    (hstep : ∀ t a u, I t → C t a → step t a = some u → R t u)
    {s u : σ} {as : List α} (h : Steps step C s as u) (h0 : I s) : R s u := by
  induction h with
  | nil => exact hrefl _
  | snoc hr hc hs ih => exact htrans _ _ _ ih (hstep _ _ _ (hr.inv hI h0) hc hs)

theorem trans {s t u : σ} {as bs : List α} (h : Steps step C s as t) (h' : Steps step C t bs u) :
    Steps step C s (as ++ bs) u := by
  induction h' with
  | nil => simpa using h
  | snoc _ hc hs ih => rw [← List.append_assoc]; exact ih.snoc hc hs

theorem mono {C' : σ → α → Prop} (hC : ∀ t a, C t a → C' t a) {s u : σ} {as : List α}
    (h : Steps step C s as u) : Steps step C' s as u := by
  induction h with
  | nil => exact .nil _
  | snoc _ hc hs ih => exact ih.snoc (hC _ _ hc) hs

theorem single {s u : σ} {a : α} (hc : C s a) (hs : step s a = some u) : Steps step C s [a] u :=
  (Steps.nil s).snoc hc hs

theorem of_snoc {s u : σ} {as : List α} {a : α} (h : Steps step C s (as ++ [a]) u) :
    ∃ t, Steps step C s as t ∧ C t a ∧ step t a = some u := by
  generalize hl : as ++ [a] = l at h
  cases h with
  | nil => simp at hl
  | snoc hr hc hs =>
    obtain ⟨rfl, ha⟩ := List.append_inj' hl rfl
    obtain rfl := List.singleton_inj.mp ha
    exact ⟨_, hr, hc, hs⟩

/-- The steps are deterministic, so a list of actions has one end. -/
theorem unique {s u u' : σ} {as : List α} (h : Steps step C s as u) (h' : Steps step C s as u') : u = u' := by
  induction h generalizing u' with
  | nil =>
    generalize hl : ([] : List α) = l at h'
    cases h' with
    | nil => rfl
    | snoc => simp at hl
  | snoc _ _ hs ih =>
    obtain ⟨t, hr, _, hs'⟩ := of_snoc h'
    obtain rfl := ih hr
    exact Option.some.inj (hs.symm.trans hs')

theorem split {s u : σ} {as bs : List α} (h : Steps step C s (as ++ bs) u) :
    ∃ t, Steps step C s as t ∧ Steps step C t bs u := by
  induction bs using List.reverseRecOn generalizing u with
  | nil => exact ⟨u, by simpa using h, .nil u⟩
  | append_singleton bs b ih =>
    rw [← List.append_assoc] at h
    obtain ⟨v, hr, hc, hs⟩ := of_snoc h
    obtain ⟨t, ht, hrest⟩ := ih hr
    exact ⟨t, ht, hrest.snoc hc hs⟩

/-- A run around one of its steps. -/
theorem split_cons {s u : σ} {as bs : List α} {a : α} (h : Steps step C s (as ++ a :: bs) u) :
    ∃ t v, Steps step C s as t ∧ C t a ∧ step t a = some v ∧ Steps step C v bs u := by
  rw [List.append_cons] at h
  obtain ⟨v, hv, hbs⟩ := h.split
  obtain ⟨t, hr, hc, hta⟩ := of_snoc hv
  exact ⟨t, v, hr, hc, hta, hbs⟩

/-- A run from a state with `P` to one without has a step that loses it. -/
theorem exists_leave {P : σ → Prop} {s u : σ} {as : List α} (h : Steps step C s as u) (hs : P s) (hu : ¬ P u) :
    ∃ pre a suf t v, as = pre ++ a :: suf ∧ Steps step C s pre t ∧ P t ∧ C t a ∧ step t a = some v ∧ ¬ P v := by
  induction h with
  | nil => exact absurd hs hu
  | @snoc v w as a hr hc hva ih =>
    by_cases hv : P v
    · exact ⟨as, a, [], v, w, rfl, hr, hv, hc, hva, hu⟩
    · obtain ⟨pre, b, suf, t, x, rfl, hpre, hPt, hcb, htx, hx⟩ := ih hv
      exact ⟨pre, b, suf ++ [a], t, x, by simp, hpre, hPt, hcb, htx, hx⟩

/-- **A property of every state of a run, step by step.**  Where a step from a state with `P` leads to one
with `P` exactly when it meets `D`, all states of a run have `P` exactly when all its steps meet `D`. -/
theorem forall_states_iff {I P : σ → Prop} {D : σ → α → Prop}
    (hI : ∀ t a u, I t → C t a → step t a = some u → I u)
    (hstep : ∀ t a u, I t → P t → C t a → step t a = some u → (P u ↔ D t a))
    {s u : σ} {as : List α} (h : Steps step C s as u) (hs : I s) (hP : P s) :
    (∀ pre suf t, pre ++ suf = as → Steps step C s pre t → P t) ↔
      ∀ pre a suf t, pre ++ a :: suf = as → Steps step C s pre t → D t a := by
  constructor
  · rintro hall pre a suf t rfl hpre
    obtain ⟨t', v, hr, hc, hta, -⟩ := h.split_cons
    obtain rfl := hpre.unique hr
    refine (hstep t a v (hpre.inv hI hs) (hall pre _ t rfl hpre) hc hta).mp ?_
    exact hall (pre ++ [a]) suf v (List.append_cons pre a suf).symm (hpre.snoc hc hta)
  · intro hall pre suf t hpre ht
    induction ht generalizing suf with
    | nil => exact hP
    | snoc hr hc hta ih =>
      rw [List.append_assoc] at hpre
      exact (hstep _ _ _ (hr.inv hI hs) (ih _ hpre) hc hta).mpr (hall _ _ _ _ hpre hr)

/-- **A relation between any two states of a run, step by step.**  Where a step relates its ends exactly when
it meets `D`, any two states of a run are related exactly when all its steps meet `D`. -/
theorem forall_between_iff {R : σ → σ → Prop} {D : σ → α → Prop} (hrefl : ∀ t, R t t)
    (htrans : ∀ t u v, R t u → R u v → R t v)
    (hstep : ∀ t a u, C t a → step t a = some u → (R t u ↔ D t a))
    {s u : σ} {as : List α} (h : Steps step C s as u) :
    (∀ pre mid suf t v, pre ++ mid ++ suf = as → Steps step C s pre t → Steps step C t mid v → R t v) ↔
      ∀ pre a suf t, pre ++ a :: suf = as → Steps step C s pre t → D t a := by
  constructor
  · rintro hall pre a suf t rfl hpre
    obtain ⟨t', v, hr, hc, hta, -⟩ := h.split_cons
    obtain rfl := hpre.unique hr
    exact (hstep t a v hc hta).mp (hall pre [a] suf t v (List.append_cons pre a suf).symm hpre (.single hc hta))
  · intro hall pre mid suf t v heq hpre hmid
    induction hmid generalizing suf with
    | nil => exact hrefl _
    | @snoc v w mid a hr hc hva ih =>
      have hassoc : pre ++ (mid ++ [a]) ++ suf = (pre ++ mid) ++ a :: suf := by simp
      rw [hassoc] at heq
      refine htrans _ _ _ (ih (a :: suf) heq) ((hstep _ _ _ hc hva).mpr ?_)
      exact hall (pre ++ mid) a suf _ heq (hpre.trans hr)

end Steps

/-- An evaluated list of actions is a run. -/
theorem steps_of_execAll {s u : σ} {as : List α} (h : execAll step s as = some u) :
    Steps step Free s as u := by
  induction as generalizing s with
  | nil =>
    obtain rfl : s = u := by simpa [execAll] using h
    exact .nil s
  | cons a as ih =>
    obtain ⟨t, ht, hr⟩ := Option.bind_eq_some_iff.mp h
    exact (Steps.single trivial ht).trans (ih hr)

/-- Observe the end of an evaluated list of actions. -/
theorem steps_of_observed {β : Type*} {f : σ → β} {x : β} {s : σ} {as : List α}
    (h : (execAll step s as).map f = some x) : ∃ u, Steps step Free s as u ∧ f u = x := by
  obtain ⟨u, hu, hx⟩ := Option.map_eq_some_iff.mp h
  exact ⟨u, steps_of_execAll hu, hx⟩

/-- Observe two evaluated lists of actions, the second from where `g` takes the end of the first. -/
theorem steps_of_observed_then {β : Type*} {step' : σ → α → Option σ} {g : σ → σ} {f : σ → σ → β} {x : β}
    {s : σ} {as bs : List α}
    (h : (execAll step s as).bind (fun t => (execAll step' (g t) bs).map (f t)) = some x) :
    ∃ t u, Steps step Free s as t ∧ Steps step' Free (g t) bs u ∧ f t u = x := by
  obtain ⟨t, ht, hx⟩ := Option.bind_eq_some_iff.mp h
  obtain ⟨u, hu, hf⟩ := steps_of_observed hx
  exact ⟨t, u, steps_of_execAll ht, hu, hf⟩

/-- Where every state short of the goal has a step to a smaller one, every state has a run to the goal. -/
theorem exists_run_of_measure {I goal : σ → Prop} (μ : σ → ℕ)
    (h : ∀ s, I s → ¬ goal s → ∃ a s', step s a = some s' ∧ I s' ∧ μ s' < μ s) :
    ∀ s, I s → ∃ as u, Steps step Free s as u ∧ goal u := by
  intro s
  induction hn : μ s using Nat.strongRecOn generalizing s with
  | _ n ih =>
    intro hs
    by_cases hg : goal s
    · exact ⟨[], s, .nil s, hg⟩
    · obtain ⟨a, s', ha, hs', hlt⟩ := h s hs hg
      obtain ⟨as, u, hrun, hu⟩ := ih (μ s') (hn ▸ hlt) s' rfl hs'
      exact ⟨_, u, (Steps.single trivial ha).trans hrun, hu⟩

/-- The step function that refuses the actions outside a decidable side condition. -/
def guarded (step : σ → α → Option σ) (C : σ → α → Prop) [∀ s a, Decidable (C s a)] (s : σ) (a : α) :
    Option σ :=
  if C s a then step s a else none

theorem Steps.of_guarded [∀ s a, Decidable (C s a)] {s u : σ} {as : List α}
    (h : Steps (guarded step C) Free s as u) : Steps step C s as u := by
  induction h with
  | nil => exact .nil _
  | snoc _ _ hs ih =>
    unfold guarded at hs
    split_ifs at hs with hc
    exact ih.snoc hc hs

end Broker.Lib
