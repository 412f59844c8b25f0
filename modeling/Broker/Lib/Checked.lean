import Mathlib.Data.List.Forall2
import Mathlib.Tactic.Common

/-!
# Broker.Lib.Checked — loops that may raise

A loop over a list whose body may raise either finishes on every element or raises what the body raises on
one of them, and a `try` whose clause catches some of the exceptions returns a default for these.
-/

namespace Broker.Lib

namespace Checked

variable {ε α β : Type}

/-- `try: … except p: default`. -/
def catching (p : ε → Bool) (default : α) : Except ε α → Except ε α
  | .error e => if p e then .ok default else .error e
  | .ok a => .ok a

theorem catching_ok {p : ε → Bool} {d a : α} {r : Except ε α} (h : catching p d r = .ok a) :
    r = .ok a ∨ (a = d ∧ ∃ e, r = .error e ∧ p e = true) := by
  cases r with
  | ok b => exact .inl h
  | error e =>
    simp only [catching] at h
    split_ifs at h with he
    exact .inr ⟨(Except.ok.inj h).symm, e, rfl, he⟩

theorem catching_error {p : ε → Bool} {d : α} {r : Except ε α} {e : ε} :
    catching p d r = .error e ↔ r = .error e ∧ p e = false := by
  cases r with
  | ok b => simp [catching]
  | error e' =>
    by_cases he : p e' = true
    · simp only [catching, he, if_true, reduceCtorEq, Except.error.injEq, false_iff, not_and]
      rintro rfl
      simp [he]
    · simp only [catching, he, Bool.false_eq_true, if_false, Except.error.injEq]
      constructor
      · rintro rfl
        exact ⟨rfl, by simpa using he⟩
      · exact fun h => h.1

theorem bind_ok {x : Except ε α} {f : α → Except ε β} {b : β} :
    (x >>= f) = .ok b ↔ ∃ a, x = .ok a ∧ f a = .ok b := by
  cases x with
  | error e =>
    constructor
    · intro h
      cases h
    · rintro ⟨_, h, -⟩
      cases h
  | ok a =>
    constructor
    · intro h
      exact ⟨a, rfl, h⟩
    · rintro ⟨_, h, hf⟩
      cases h
      exact hf

theorem bind_error {x : Except ε α} {f : α → Except ε β} {e : ε} :
    (x >>= f) = .error e ↔ x = .error e ∨ ∃ a, x = .ok a ∧ f a = .error e := by
  cases x with
  | error e' =>
    constructor
    · intro h
      cases h
      exact .inl rfl
    · rintro (h | ⟨_, h, -⟩)
      · cases h
        rfl
      · cases h
  | ok a =>
    constructor
    · intro h
      exact .inr ⟨a, rfl, h⟩
    · rintro (h | ⟨_, h, hf⟩)
      · cases h
      · cases h
        exact hf

/-! ### Loops -/

/-- **A loop that builds a list finishes when its body does on every element.** -/
theorem mapM_ok {f : α → Except ε β} : ∀ {xs : List α} {ys : List β},
    xs.mapM f = .ok ys ↔ List.Forall₂ (fun x y => f x = .ok y) xs ys
  | [], ys => by
    rw [List.mapM_nil, List.forall₂_nil_left_iff]
    exact ⟨fun h => (Except.ok.inj h).symm, fun h => by rw [h]; rfl⟩
  | x :: xs, ys => by
    rw [List.mapM_cons, bind_ok, List.forall₂_cons_left_iff]
    constructor
    · rintro ⟨y, hy, h⟩
      obtain ⟨zs, hzs, h⟩ := bind_ok.mp h
      exact ⟨y, zs, hy, mapM_ok.mp hzs, (Except.ok.inj h).symm⟩
    · rintro ⟨y, zs, hy, hzs, rfl⟩
      exact ⟨y, hy, bind_ok.mpr ⟨zs, mapM_ok.mpr hzs, rfl⟩⟩

theorem mapM_error {f : α → Except ε β} {e : ε} :
    ∀ {xs : List α}, xs.mapM f = .error e → ∃ x ∈ xs, f x = .error e
  | [], h => by
    rw [List.mapM_nil] at h
    cases h
  | x :: xs, h => by
    rw [List.mapM_cons, bind_error] at h
    rcases h with h | ⟨y, -, h⟩
    · exact ⟨x, List.mem_cons_self, h⟩
    · rcases bind_error.mp h with h | ⟨ys, -, h⟩
      · obtain ⟨z, hz, hf⟩ := mapM_error h
        exact ⟨z, List.mem_cons_of_mem _ hz, hf⟩
      · cases h

/-- The body finishes on every element exactly when the loop does. -/
theorem exists_mapM_ok_iff {f : α → Except ε β} :
    ∀ {xs : List α}, (∃ ys, xs.mapM f = .ok ys) ↔ ∀ x ∈ xs, ∃ y, f x = .ok y
  | [] => by simp [pure, Except.pure]
  | x :: xs => by
    have ih : (∃ ys, xs.mapM f = .ok ys) ↔ ∀ x ∈ xs, ∃ y, f x = .ok y := exists_mapM_ok_iff
    rw [List.forall_mem_cons]
    constructor
    · rintro ⟨ys, h⟩
      rw [List.mapM_cons] at h
      obtain ⟨y, hy, h⟩ := bind_ok.mp h
      obtain ⟨zs, hzs, -⟩ := bind_ok.mp h
      exact ⟨⟨y, hy⟩, ih.mp ⟨zs, hzs⟩⟩
    · rintro ⟨⟨y, hy⟩, hxs⟩
      obtain ⟨zs, hzs⟩ := ih.mpr hxs
      refine ⟨y :: zs, ?_⟩
      rw [List.mapM_cons]
      exact bind_ok.mpr ⟨y, hy, bind_ok.mpr ⟨zs, hzs, rfl⟩⟩

/-- A loop whose body always finishes is a map. -/
theorem mapM_map_ok {γ : Type} {f : β → Except ε γ} {g : α → β} {k : α → γ} {xs : List α}
    (h : ∀ x ∈ xs, f (g x) = .ok (k x)) : (xs.map g).mapM f = .ok (xs.map k) := by
  rw [mapM_ok, List.forall₂_map_left_iff, List.forall₂_map_right_iff, List.forall₂_same]
  exact h

theorem mem_of_mapM {f : α → Except ε β} {xs : List α} {ys : List β} (h : xs.mapM f = .ok ys) {y : β}
    (hy : y ∈ ys) :
    ∃ x ∈ xs, f x = .ok y := by
  induction mapM_ok.mp h with
  | nil => cases hy
  | @cons x z xs zs hxz hrest ih =>
    rcases List.mem_cons.mp hy with rfl | hy
    · exact ⟨x, List.mem_cons_self, hxz⟩
    · obtain ⟨w, hw, hf⟩ := ih (mapM_ok.mpr hrest) hy
      exact ⟨w, List.mem_cons_of_mem _ hw, hf⟩

theorem ok_of_mapM {f : α → Except ε β} {xs : List α} {ys : List β} (h : xs.mapM f = .ok ys) {x : α}
    (hx : x ∈ xs) :
    ∃ y ∈ ys, f x = .ok y := by
  induction mapM_ok.mp h with
  | nil => cases hx
  | @cons x' y xs ys hxy hrest ih =>
    rcases List.mem_cons.mp hx with rfl | hx
    · exact ⟨y, List.mem_cons_self, hxy⟩
    · obtain ⟨z, hz, hf⟩ := ih (mapM_ok.mpr hrest) hx
      exact ⟨z, List.mem_cons_of_mem _ hz, hf⟩

/-- **A loop finishes when its body does on every element**, where that does not depend on what the loop has
built so far. -/
theorem foldlM_isOk {f : β → α → Except ε β} {P : α → Prop} (hf : ∀ b a, (f b a).isOk = true ↔ P a) :
    ∀ (xs : List α) (b : β), (xs.foldlM f b).isOk = true ↔ ∀ x ∈ xs, P x
  | [], b => by simp [pure, Except.pure, Except.isOk, Except.toBool]
  | x :: xs, b => by
    have hx := hf b x
    rw [List.foldlM_cons, List.forall_mem_cons, ← hx]
    cases hfx : f b x with
    | error e => simp [bind, Except.bind, Except.isOk, Except.toBool]
    | ok c =>
      have ih := foldlM_isOk hf xs c
      simpa [bind, Except.bind, Except.isOk, Except.toBool] using ih

/-! ### Two computations with one outcome -/

/-- Both return related values, or both raise the same exception. -/
def Agree {α' : Type} (R : α → α' → Prop) : Except ε α → Except ε α' → Prop
  | .ok a, .ok b => R a b
  | .error e, .error e' => e = e'
  | _, _ => False

theorem Agree.refl {R : α → α → Prop} (hR : ∀ a, R a a) (x : Except ε α) : Agree R x x := by
  cases x with
  | ok a => exact hR a
  | error e => rfl

theorem Agree.bind {α' β' : Type} {R : α → α' → Prop} {S : β → β' → Prop} {x : Except ε α} {y : Except ε α'}
    {f : α → Except ε β} {g : α' → Except ε β'} (h : Agree R x y) (hfg : ∀ a b, R a b → Agree S (f a) (g b)) :
    Agree S (x >>= f) (y >>= g) := by
  cases x with
  | ok a =>
    cases y with
    | ok b => exact hfg a b h
    | error e => cases h
  | error e =>
    cases y with
    | ok b => cases h
    | error e' => exact h

/-- **Two loops agree** where their bodies do. -/
theorem Agree.mapM {γ β' : Type} {R : β → β' → Prop} {f : α → Except ε β} {g : γ → Except ε β'} {t : α → γ} :
    ∀ {xs : List α}, (∀ x ∈ xs, Agree R (f x) (g (t x))) →
      Agree (List.Forall₂ R) (xs.mapM f) ((xs.map t).mapM g)
  | [], _ => by
    rw [List.map_nil, List.mapM_nil, List.mapM_nil]
    exact List.Forall₂.nil
  | x :: xs, h => by
    rw [List.map_cons, List.mapM_cons, List.mapM_cons]
    refine (h x List.mem_cons_self).bind fun a b hab => ?_
    refine (Agree.mapM fun y hy => h y (List.mem_cons_of_mem x hy)).bind fun as bs habs => ?_
    exact List.Forall₂.cons hab habs

end Checked

end Broker.Lib
