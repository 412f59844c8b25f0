import Broker.Lib.Trans
import Mathlib.Algebra.Order.Ring.Int
import Mathlib.Data.List.Basic

/-!
# Broker.Lib.TtlCache — values that several processes keep for a time

Every process keeps the last value of a query for `ttl` from the moment the call that fetched it began,
and may share it with the others through a store that forgets it `ttl` after it was written; a write that
fails has no later effect.  Any number of calls run at once, in a process and across them, and each may fail
at any point.  `answers_recent`
says how old an answer can be: a value taken from the store is kept for a second `ttl`.
-/

namespace Broker.Lib

namespace TtlCache

structure Entry (V : Type*) where
  value : V
  stamp : ℤ

/-- Where a call stands; `snap` is the moment whose state the query saw. -/
inductive Phase (V : Type*) where
  | reading
  | querying
  | queried (value : V) (snap : ℤ)
  | publishing (value : V) (snap : ℤ)
  | over

structure Call (V : Type*) where
  worker : ℕ
  entered : ℤ
  phase : Phase V

/-- `shared` has the value in the store and when it expires; `answers` are the values returned, each with its
time. -/
structure Sys (V : Type*) where
  now : ℤ := 0
  held : ℕ → Option (Entry V) := fun _ => none
  shared : Option (V × ℤ) := none
  calls : List (Call V) := []
  answers : List (V × ℤ) := []

inductive Act where
  | tick (now : ℤ)
  | enter (worker : ℕ)
  | hit (i : ℕ)
  | miss (i : ℕ)
  | snapshot (i : ℕ)
  | keep (i : ℕ)
  | publish (i : ℕ) (ok : Bool)
  | fail (i : ℕ)
  | invalidate (worker : ℕ)

variable {V : Type*}

namespace Sys

def hold (s : Sys V) (w : ℕ) (e : Option (Entry V)) : Sys V :=
  { s with held := fun w' => if w' = w then e else s.held w' }

def move (s : Sys V) (i : ℕ) (c : Call V) (phase : Phase V) : Sys V :=
  { s with calls := s.calls.set i { c with phase := phase } }

def answer (s : Sys V) (v : V) : Sys V := { s with answers := s.answers ++ [(v, s.now)] }

variable (query : ℤ → ℤ → V) (ttl : ℤ)

/-- The value a process still keeps. -/
def kept (s : Sys V) (w : ℕ) : Option (Entry V) := (s.held w).filter fun e => decide (s.now - e.stamp < ttl)

/-- `query entered snap` is what a query returns that a call sends which began at `entered`, and that sees the
state of `snap`. -/
def step (s : Sys V) : Act → Option (Sys V)
  | .tick now => if s.now ≤ now then some { s with now := now } else none
  | .enter w =>
    match s.kept ttl w with
    | some e => some (s.answer e.value)
    | none => some { s with calls := s.calls ++ [⟨w, s.now, .reading⟩] }
  | .hit i =>
    match s.calls[i]?, s.shared with
    | some ⟨w, entered, .reading⟩, some (v, expiry) =>
      if s.now < expiry then
        some (((s.hold w (some ⟨v, entered⟩)).move i ⟨w, entered, .reading⟩ .over).answer v)
      else none
    | _, _ => none
  | .miss i =>
    match s.calls[i]? with
    | some ⟨w, entered, .reading⟩ => some (s.move i ⟨w, entered, .reading⟩ .querying)
    | _ => none
  | .snapshot i =>
    match s.calls[i]? with
    | some ⟨w, entered, .querying⟩ =>
      some (s.move i ⟨w, entered, .querying⟩ (.queried (query entered s.now) s.now))
    | _ => none
  | .keep i =>
    match s.calls[i]? with
    | some ⟨w, entered, .queried v snap⟩ =>
      some ((s.hold w (some ⟨v, entered⟩)).move i ⟨w, entered, .queried v snap⟩ (.publishing v snap))
    | _ => none
  | .publish i ok =>
    match s.calls[i]? with
    | some ⟨w, entered, .publishing v snap⟩ =>
      let shared := if ok then some (v, s.now + ttl) else s.shared
      some (({ s with shared := shared }.move i ⟨w, entered, .publishing v snap⟩ .over).answer v)
    | _ => none
  | .fail i =>
    match s.calls[i]? with
    | some c => some (s.move i c .over)
    | none => none
  | .invalidate w => some (s.hold w none)

end Sys

/-- The call has a value and still works with it. -/
def Call.Has (c : Call V) (v : V) (snap : ℤ) :
    Prop := c.phase = .queried v snap ∨ c.phase = .publishing v snap

def Call.isOver (c : Call V) : Bool :=
  match c.phase with
  | .over => true
  | _ => false

/-- A call is over within `d`; values are taken from the store only where `reach` allows for it. -/
def InTime (ttl d reach : ℤ) (s : Sys V) : Act → Prop
  | .tick now => ∀ c ∈ s.calls, c.isOver = true ∨ now ≤ c.entered + d
  | .hit _ => d + ttl ≤ reach
  | _ => True

instance (ttl d reach : ℤ) (s : Sys V) : ∀ a, Decidable (InTime ttl d reach s a)
  | .tick now => inferInstanceAs (Decidable (∀ c ∈ s.calls, c.isOver = true ∨ now ≤ c.entered + d))
  | .hit _ => inferInstanceAs (Decidable (d + ttl ≤ reach))
  | .enter _ | .miss _ | .snapshot _ | .keep _ | .publish _ _ | .fail _ | .invalidate _ => isTrue trivial

/-- What the query returned to a call that began at `entered`, up to `now`. -/
def Returned (query : ℤ → ℤ → V) (now : ℤ) (v : V) (entered : ℤ) : Prop :=
  ∃ snap, v = query entered snap ∧ entered ≤ snap ∧ snap ≤ now

/-- How old what is kept, shared and worked with can be. -/
structure Sound (query : ℤ → ℤ → V) (ttl d reach : ℤ) (s : Sys V) : Prop where
  held : ∀ w e, s.held w = some e → ∃ entered, Returned query s.now e.value entered ∧
    e.stamp ≤ entered + reach
  shared : ∀ v expiry, s.shared = some (v, expiry) → ∃ entered, Returned query s.now v entered ∧
    expiry ≤ entered + d + ttl
  calls : ∀ c ∈ s.calls, c.entered ≤ s.now ∧ (c.isOver = true ∨ s.now ≤ c.entered + d) ∧
    ∀ v snap, c.Has v snap → Returned query s.now v c.entered
  answers : ∀ a ∈ s.answers, ∃ entered, Returned query a.2 a.1 entered ∧
    (a.2 < entered + reach + ttl ∨ a.2 ≤ entered + d)

variable {query : ℤ → ℤ → V} {ttl d reach : ℤ} {s t : Sys V}

theorem Returned.mono {now now' entered : ℤ} {v : V} (h : Returned query now v entered) (hle : now ≤ now') :
    Returned query now' v entered := by
  obtain ⟨snap, hv, hentered, hsnap⟩ := h
  exact ⟨snap, hv, hentered, hsnap.trans hle⟩

namespace Sound

theorem hold (hs : Sound query ttl d reach s) {w : ℕ} {v : V} {stamp entered : ℤ}
    (hv : Returned query s.now v entered) (hstamp : stamp ≤ entered + reach) :
    Sound query ttl d reach (s.hold w (some ⟨v, stamp⟩)) := by
  refine ⟨fun w' e he => ?_, hs.shared, hs.calls, hs.answers⟩
  simp only [Sys.hold] at he
  split_ifs at he
  · obtain rfl := Option.some.inj he
    exact ⟨entered, hv, hstamp⟩
  · exact hs.held w' e he

/-- A call moves on: what it works with, the query has returned to it. -/
theorem move (hs : Sound query ttl d reach s) {i : ℕ} {c : Call V} {phase : Phase V}
    (hc : s.calls[i]? = some c)
    (hopen : ({ c with phase := phase } : Call V).isOver = true ∨ c.isOver = false)
    (hphase : ∀ v snap, ({ c with phase := phase } : Call V).Has v snap → Returned query s.now v c.entered) :
    Sound query ttl d reach (s.move i c phase) := by
  refine ⟨hs.held, hs.shared, fun c' hc' => ?_, hs.answers⟩
  rcases List.mem_or_eq_of_mem_set hc' with hc' | rfl
  · exact hs.calls c' hc'
  · obtain ⟨hentered, hage, -⟩ := hs.calls c (List.mem_of_getElem? hc)
    refine ⟨hentered, ?_, hphase⟩
    rcases hopen with hover | hopen
    · exact .inl hover
    · exact .inr (hage.resolve_left (by simp [hopen]))

theorem answer (hs : Sound query ttl d reach s) {v : V} {entered : ℤ} (hv : Returned query s.now v entered)
    (hage : s.now < entered + reach + ttl ∨ s.now ≤ entered + d) : Sound query ttl d reach (s.answer v) := by
  refine ⟨hs.held, hs.shared, hs.calls, fun a ha => ?_⟩
  rcases List.mem_append.mp ha with ha | ha
  · exact hs.answers a ha
  · obtain rfl := List.mem_singleton.mp ha
    exact ⟨entered, hv, hage⟩

/-- Nothing has been asked yet. -/
theorem empty (now : ℤ) : Sound query ttl d reach ({ now := now } : Sys V) :=
  ⟨by simp, by simp, by simp, by simp⟩

end Sound

theorem not_has_over {c : Call V} {v : V} {snap : ℤ} : ¬ ({ c with phase := .over } : Call V).Has v snap := by
  rintro (h | h) <;> cases h

/-- **One step keeps the bounds.** -/
theorem sound_step (httl : 0 ≤ ttl) (hd : 0 ≤ d) (hreach : 0 ≤ reach) {a : Act}
    (hs : Sound query ttl d reach s)
    (hc : InTime ttl d reach s a) (h : s.step query ttl a = some t) : Sound query ttl d reach t := by
  cases a with
  | tick now =>
    simp only [Sys.step] at h
    split_ifs at h with hle
    obtain rfl := Option.some.inj h
    refine ⟨fun w e he => ?_, fun v expiry hv => ?_, fun c hmem => ?_, hs.answers⟩
    · obtain ⟨entered, hret, hstamp⟩ := hs.held w e he
      exact ⟨entered, hret.mono hle, hstamp⟩
    · obtain ⟨entered, hret, hexp⟩ := hs.shared v expiry hv
      exact ⟨entered, hret.mono hle, hexp⟩
    · obtain ⟨hentered, -, hhas⟩ := hs.calls c hmem
      exact ⟨hentered.trans hle, hc c hmem, fun v snap hv => (hhas v snap hv).mono hle⟩
  | enter w =>
    simp only [Sys.step] at h
    split at h
    · rename_i e hkept
      obtain rfl := Option.some.inj h
      obtain ⟨hheld, hyoung⟩ := Option.filter_eq_some_iff.mp hkept
      obtain ⟨entered, hret, hstamp⟩ := hs.held w e hheld
      have hlt : s.now - e.stamp < ttl := by simpa using hyoung
      exact hs.answer hret (.inl (by omega))
    · obtain rfl := Option.some.inj h
      refine ⟨hs.held, hs.shared, fun c hmem => ?_, hs.answers⟩
      rcases List.mem_append.mp hmem with hmem | hmem
      · exact hs.calls c hmem
      · obtain rfl := List.mem_singleton.mp hmem
        refine ⟨le_rfl, .inr (le_add_of_nonneg_right hd), fun v snap hv => ?_⟩
        rcases hv with hv | hv <;> cases hv
  | hit i =>
    simp only [Sys.step] at h
    split at h
    · rename_i w began v expiry hi hshared
      split_ifs at h with hlive
      obtain rfl := Option.some.inj h
      obtain ⟨entered, hret, hexp⟩ := hs.shared v expiry hshared
      have hbegan : began ≤ s.now := (hs.calls _ (List.mem_of_getElem? hi)).1
      have hallowed : d + ttl ≤ reach := hc
      -- the call began before the store forgot the value
      have hstamp : began ≤ entered + reach := by omega
      have hheld := hs.hold (w := w) hret hstamp
      have hmoved := hheld.move hi (.inl rfl) fun v snap hv => absurd hv not_has_over
      exact hmoved.answer hret (.inl (by show s.now < entered + reach + ttl; omega))
    · cases h
  | miss i =>
    simp only [Sys.step] at h
    split at h
    · rename_i w entered hi
      obtain rfl := Option.some.inj h
      refine hs.move hi (.inr rfl) fun v snap hv => ?_
      rcases hv with hv | hv <;> cases hv
    · cases h
  | snapshot i =>
    simp only [Sys.step] at h
    split at h
    · rename_i w entered hi
      obtain rfl := Option.some.inj h
      have hentered : entered ≤ s.now := (hs.calls _ (List.mem_of_getElem? hi)).1
      refine hs.move hi (.inr rfl) fun v snap hv => ?_
      rcases hv with hv | hv
      · obtain ⟨rfl, rfl⟩ := Phase.queried.inj hv
        exact ⟨s.now, rfl, hentered, le_rfl⟩
      · cases hv
    · cases h
  | keep i =>
    simp only [Sys.step] at h
    split at h
    · rename_i w entered v snap hi
      obtain rfl := Option.some.inj h
      have hret : Returned query s.now v entered :=
        (hs.calls _ (List.mem_of_getElem? hi)).2.2 v snap (.inl rfl)
      have hheld := hs.hold (w := w) hret (le_add_of_nonneg_right hreach)
      refine hheld.move hi (.inr rfl) fun v' snap' hv => ?_
      rcases hv with hv | hv
      · cases hv
      · obtain ⟨rfl, rfl⟩ := Phase.publishing.inj hv
        exact hret
    · cases h
  | publish i ok =>
    simp only [Sys.step] at h
    split at h
    · rename_i w entered v snap hi
      obtain rfl := Option.some.inj h
      obtain ⟨-, hopen, hhas⟩ := hs.calls _ (List.mem_of_getElem? hi)
      have hret : Returned query s.now v entered := hhas v snap (.inr rfl)
      have hage : s.now ≤ entered + d := hopen.resolve_left (by simp [Call.isOver])
      have hshared : Sound query ttl d reach
          { s with shared := if ok then some (v, s.now + ttl) else s.shared } := by
        refine ⟨hs.held, fun v' expiry hv => ?_, hs.calls, hs.answers⟩
        cases ok with
        | true =>
          obtain ⟨rfl, rfl⟩ := Prod.mk.inj (Option.some.inj hv)
          exact ⟨entered, hret, by omega⟩
        | false => exact hs.shared v' expiry hv
      have hmoved := hshared.move hi (.inl rfl) fun v snap hv => absurd hv not_has_over
      exact hmoved.answer hret (.inr hage)
    · cases h
  | fail i =>
    simp only [Sys.step] at h
    split at h
    · rename_i c hi
      obtain rfl := Option.some.inj h
      exact hs.move hi (.inl rfl) fun v snap hv => absurd hv not_has_over
    · cases h
  | invalidate w =>
    obtain rfl := Option.some.inj h
    refine ⟨fun w' e he => ?_, hs.shared, hs.calls, hs.answers⟩
    simp only [Sys.hold] at he
    split_ifs at he
    exact hs.held w' e he

/-- **How old an answer can be.**  In every run in which a call is over within `d`, every answer is what the
query returned to a call that began less than `reach + ttl` ago, or at most `d` ago. -/
theorem answers_recent (httl : 0 ≤ ttl) (hd : 0 ≤ d) (hreach : 0 ≤ reach) {start : ℤ} {as : List Act}
    (h : Steps (Sys.step query ttl) (InTime ttl d reach) { now := start } as t) :
    ∀ a ∈ t.answers, ∃ entered snap, a.1 = query entered snap ∧ entered ≤ snap ∧ snap ≤ a.2 ∧
      (a.2 < entered + reach + ttl ∨ a.2 ≤ entered + d) := by
  have hsound : Sound query ttl d reach t :=
    h.inv (fun _ _ _ hi hc hstep => sound_step httl hd hreach hi hc hstep) (.empty start)
  intro a ha
  obtain ⟨entered, ⟨snap, hquery, hle, hsnap⟩, hage⟩ := hsound.answers a ha
  exact ⟨entered, snap, hquery, hle, hsnap, hage⟩

end TtlCache

end Broker.Lib
