import Broker.Lib.Trans
import Mathlib.Data.List.Sort

/-!
# Broker.Lib.WakeLoop — a loop that sleeps until a flag is raised

The loop clears the flag, looks for work and sleeps; others raise the flag when there may be new work.  What a
pass of the loop establishes, and nobody undoes without raising the flag, holds whenever the flag is down: no
wake-up is lost (`holds_while_down`).  A `Board` is a table of work with the hints that are on their way to
the loop.  A row that waits on it is covered by its hint, by the list of what came without one, or by what
the last look at the table left out.
-/

namespace Broker.Lib

structure Flagged (σ : Type*) where
  inner : σ
  flag : Bool := false

/-- `env` are the steps of everybody else, `raises` those that raise the flag; `clears` are the steps of the
loop that clear it. -/
structure WakeLoop (σ α β : Type*) where
  env : σ → α → Option σ
  raises : α → Bool
  loop : σ → β → Option σ
  clears : β → Bool

namespace WakeLoop

variable {σ α β : Type*} (l : WakeLoop σ α β)

def step (s : Flagged σ) : α ⊕ β → Option (Flagged σ)
  | .inl a => (l.env s.inner a).map fun t => ⟨t, s.flag || l.raises a⟩
  | .inr b => (l.loop s.inner b).map fun t => ⟨t, s.flag && !l.clears b⟩

/-- **No wake-up is lost.**  What holds after the flag is cleared, what the loop keeps, and what nobody undoes
without raising the flag, holds at the end of every run that leaves the flag down. -/
theorem holds_while_down {I : σ → Prop}
    (hclear : ∀ s b t, l.loop s b = some t → l.clears b = true → I t)
    (hloop : ∀ s b t, I s → l.loop s b = some t → I t)
    (henv : ∀ s a t, I s → l.env s a = some t → l.raises a = false → I t)
    {s t : Flagged σ} {as : List (α ⊕ β)} (h : Steps l.step Free s as t) (hs : I s.inner)
    (ht : t.flag = false) : I t.inner := by
  have hinv : t.flag = false → I t.inner := by
    refine h.inv (I := fun u => u.flag = false → I u.inner) (fun u x v hu _ hstep hv => ?_) fun _ => hs
    cases x with
    | inl a =>
      obtain ⟨w, hw, rfl⟩ := Option.map_eq_some_iff.mp hstep
      obtain ⟨hdown, hraises⟩ := Bool.or_eq_false_iff.mp hv
      exact henv _ _ _ (hu hdown) hw hraises
    | inr b =>
      obtain ⟨w, hw, rfl⟩ := Option.map_eq_some_iff.mp hstep
      by_cases hb : l.clears b = true
      · exact hclear _ _ _ hw hb
      · have hdown : u.flag = false := by simpa [hb] using hv
        exact hloop _ _ _ (hu hdown) hw
  exact hinv ht

end WakeLoop

/-! ### The board -/

/-- A table of work: `transit` are the keys of the hints on their way, `missed` those that no hint is on its
way for, and those that were locked when the loop last looked. -/
structure Board (ρ : Type*) where
  rows : List ρ := []
  transit : List ℕ := []
  missed : List ℕ := []

namespace Board

variable {ρ : Type*}

/-- A look at the table that leaves `rows`. -/
def look (b : Board ρ) (rows : List ρ) (missed : List ℕ) :
    Board ρ := { b with rows := rows, missed := missed }

/-- A hint arrives. -/
def arrive (b : Board ρ) (id : ℕ) : Board ρ := { b with transit := b.transit.erase id }

/-- Hints are lost. -/
def lose (b : Board ρ) (lost : ℕ → Bool) : Board ρ :=
  { b with transit := b.transit.filter fun id => !lost id, missed := b.missed ++ b.transit.filter lost }

variable (key : ρ → ℕ) (waits : ρ → Bool)

/-- A new row, with a hint or without. -/
def put (b : Board ρ) (r : ρ) (hinted : Bool) : Board ρ :=
  if hinted then { b with rows := b.rows ++ [r], transit := b.transit ++ [key r] }
  else { b with rows := b.rows ++ [r], missed := b.missed ++ [key r] }

/-- Any other change of the table gives no hint of the rows that wait from now on. -/
def write [DecidableEq ρ] (b : Board ρ) (rows : List ρ) : Board ρ :=
  { b with
    rows := rows
    missed := b.missed ++ (rows.filter fun r => waits r && !b.rows.contains r).map key }

/-- Every row of `sel` that waits has a hint on its way, was missed, or is one the look left out. -/
def Covered (b : Board ρ) (sel out : ρ → Prop) : Prop :=
  ∀ r ∈ b.rows, waits r = true → sel r → key r ∈ b.transit ∨ key r ∈ b.missed ∨ out r

variable {key waits} {b : Board ρ} {sel out : ρ → Prop}

namespace Covered

theorem put (h : b.Covered key waits sel out) (r : ρ) (hinted : Bool) :
    (b.put key r hinted).Covered key waits sel out := by
  intro x hx hwaits hsel
  cases hinted with
  | true =>
    rcases List.mem_append.mp hx with hx | hx
    · rcases h x hx hwaits hsel with htransit | hrest
      · exact .inl (List.mem_append_left _ htransit)
      · exact .inr hrest
    · obtain rfl := List.mem_singleton.mp hx
      exact .inl (List.mem_append_right _ List.mem_cons_self)
  | false =>
    rcases List.mem_append.mp hx with hx | hx
    · rcases h x hx hwaits hsel with htransit | hmissed | hout
      · exact .inl htransit
      · exact .inr (.inl (List.mem_append_left _ hmissed))
      · exact .inr (.inr hout)
    · obtain rfl := List.mem_singleton.mp hx
      exact .inr (.inl (List.mem_append_right _ List.mem_cons_self))

theorem lose (h : b.Covered key waits sel out) (lost : ℕ → Bool) :
    (b.lose lost).Covered key waits sel out := by
  intro x hx hwaits hsel
  rcases h x hx hwaits hsel with htransit | hmissed | hout
  · by_cases hlost : lost (key x) = true
    · exact .inr (.inl (List.mem_append_right _ (List.mem_filter.mpr ⟨htransit, hlost⟩)))
    · exact .inl (List.mem_filter.mpr ⟨htransit, by simpa using hlost⟩)
  · exact .inr (.inl (List.mem_append_left _ hmissed))
  · exact .inr (.inr hout)

theorem write [DecidableEq ρ] (h : b.Covered key waits sel out) (rows : List ρ) :
    (b.write key waits rows).Covered key waits sel out := by
  intro x hx hwaits hsel
  by_cases hold : x ∈ b.rows
  · rcases h x hold hwaits hsel with htransit | hmissed | hout
    · exact .inl htransit
    · exact .inr (.inl (List.mem_append_left _ hmissed))
    · exact .inr (.inr hout)
  · have hnew : (waits x && !b.rows.contains x) = true := by simp [hwaits, hold]
    exact .inr (.inl (List.mem_append_right _ (List.mem_map_of_mem (List.mem_filter.mpr ⟨hx, hnew⟩))))

/-- A look after which fewer rows wait and nothing missed is forgotten. -/
theorem look (h : b.Covered key waits sel out) {rows : List ρ} {missed : List ℕ}
    (hrows : ∀ r ∈ rows, waits r = true → r ∈ b.rows) (hmissed : ∀ id ∈ b.missed, id ∈ missed) :
    (b.look rows missed).Covered key waits sel out := by
  intro x hx hwaits hsel
  rcases h x (hrows x hx hwaits) hwaits hsel with htransit | hmem | hout
  · exact .inl htransit
  · exact .inr (.inl (hmissed _ hmem))
  · exact .inr (.inr hout)

end Covered

/-- The first `n` of the rows a claim may take: when there are fewer, it takes all of them. -/
theorem mem_take_of_length_lt {p : ρ → Bool} {ord : ρ → ρ → Prop} [DecidableRel ord] {rows : List ρ} {n : ℕ}
    (h : (((rows.filter p).insertionSort ord).take n).length < n) {r : ρ} (hr : r ∈ rows) (hp : p r = true) :
    r ∈ ((rows.filter p).insertionSort ord).take n := by
  have hle : ((rows.filter p).insertionSort ord).length ≤ n := by
    rw [List.length_take] at h
    omega
  rw [List.take_of_length_le hle, List.mem_insertionSort]
  exact List.mem_filter.mpr ⟨hr, hp⟩

end Board

end Broker.Lib
