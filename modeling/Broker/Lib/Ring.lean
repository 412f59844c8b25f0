import Mathlib.Data.Nat.Find
import Mathlib.Data.Nat.ModEq
import Mathlib.Data.List.Basic
import Mathlib.Tactic.Common

/-!
# Broker.Lib.Ring — searching a list around its end

A list is read as a ring: place `i` is the element at `i % length`.  `FirstFrom p l s d x` says that the
search from place `s` on finds `x` after passing `d` elements that `p` refuses.  `meet_iff` says when the
search for `p` from a place and the search for `q` from the place behind it find the same element.
-/

namespace Broker.Lib

variable {α : Type*} {p q : α → Prop} {l : List α} {s d d' : ℕ} {x y : α}

/-- The element at place `i` of the ring. -/
def ringAt (l : List α) (i : ℕ) : Option α := l[i % l.length]?

theorem ringAt_add_length (l : List α) (i : ℕ) : ringAt l (i + l.length) = ringAt l i := by
  rw [ringAt, Nat.add_mod_right, ringAt]

theorem ringAt_mod_add (l : List α) (s e : ℕ) : ringAt l (s % l.length + e) = ringAt l (s + e) := by
  rw [ringAt, Nat.mod_add_mod, ringAt]

theorem mem_of_ringAt (h : ringAt l s = some x) : x ∈ l := List.mem_of_getElem? h

/-- Every element stands less than a round behind any place. -/
theorem exists_ringAt (hx : x ∈ l) (s : ℕ) : ∃ d < l.length, ringAt l (s + d) = some x := by
  obtain ⟨i, hi, hget⟩ := List.getElem_of_mem hx
  have hpos : 0 < l.length := by omega
  refine ⟨(l.length - s % l.length + i) % l.length, Nat.mod_lt _ hpos, ?_⟩
  have hplace : (s + (l.length - s % l.length + i) % l.length) % l.length = i := by
    have hlt := Nat.mod_lt s hpos
    rw [Nat.add_mod_mod, ← Nat.mod_add_mod]
    have hsum : s % l.length + (l.length - s % l.length + i) = i + l.length := by omega
    rw [hsum, Nat.add_mod_right, Nat.mod_eq_of_lt hi]
  rw [ringAt, hplace, List.getElem?_eq_getElem hi, hget]

/-- The search from place `s` passes `d` elements and finds `x`. -/
structure FirstFrom (p : α → Prop) (l : List α) (s d : ℕ) (x : α) : Prop where
  place : ringAt l (s + d) = some x
  accepted : p x
  passed : ∀ e < d, ∀ z, ringAt l (s + e) = some z → ¬ p z

theorem FirstFrom.le (h : FirstFrom p l s d x) (hy : ringAt l (s + d') = some y) (hp : p y) : d ≤ d' := by
  by_contra hlt
  exact h.passed d' (not_le.mp hlt) y hy hp

theorem FirstFrom.unique (h : FirstFrom p l s d x) (h' : FirstFrom p l s d' y) : d = d' ∧ x = y := by
  obtain rfl : d = d' := le_antisymm (h.le h'.place h'.accepted) (h'.le h.place h.accepted)
  exact ⟨rfl, Option.some.inj (h.place.symm.trans h'.place)⟩

theorem FirstFrom.of_mod (h : FirstFrom p l (s % l.length) d x) : FirstFrom p l s d x := by
  refine ⟨?_, h.accepted, fun e he z hz => h.passed e he z ?_⟩
  · rw [← ringAt_mod_add]
    exact h.place
  · rw [ringAt_mod_add]
    exact hz

/-- A search that can succeed does so within the round. -/
theorem FirstFrom.lt_length (h : FirstFrom p l s d x) : d < l.length := by
  obtain ⟨e, he, hplace⟩ := exists_ringAt (mem_of_ringAt h.place) s
  exact lt_of_le_of_lt (h.le hplace h.accepted) he

theorem exists_firstFrom (h : ∃ x ∈ l, p x) (s : ℕ) : ∃ d x, FirstFrom p l s d x := by
  classical
  obtain ⟨x, hx, hp⟩ := h
  obtain ⟨e, -, hplace⟩ := exists_ringAt hx s
  have hex : ∃ d, ∃ z, ringAt l (s + d) = some z ∧ p z := ⟨e, x, hplace, hp⟩
  obtain ⟨z, hz, hpz⟩ := Nat.find_spec hex
  exact ⟨Nat.find hex, z, hz, hpz, fun e he y hy hpy => Nat.find_min hex he ⟨y, hy, hpy⟩⟩

/-- Some element behind place `s` is accepted by both; `q` refuses everything between; and either the same
element stands at `s`, or `p` refuses everything from `s` up to it. -/
def Meets (p q : α → Prop) (l : List α) (s : ℕ) : Prop :=
  ∃ d x, 1 ≤ d ∧ d < l.length ∧ ringAt l (s + d) = some x ∧ p x ∧ q x ∧
    (∀ e, 1 ≤ e → e < d → ∀ z, ringAt l (s + e) = some z → ¬ q z) ∧
    (ringAt l s = some x ∨ ∀ e < d, ∀ z, ringAt l (s + e) = some z → ¬ p z)

/-- A search that passes everything but where it began saw nothing else to accept. -/
theorem FirstFrom.succ_lt_length (h : FirstFrom q l (s + 1) d y)
    (htwo : ∃ a ∈ l, ∃ b ∈ l, a ≠ b ∧ q a ∧ q b) :
    d + 1 < l.length := by
  obtain ⟨z, hz, hne, hqz⟩ : ∃ z ∈ l, z ≠ y ∧ q z := by
    obtain ⟨a, ha, b, hb, hab, hqa, hqb⟩ := htwo
    by_cases hay : a = y
    · exact ⟨b, hb, fun hby => hab (hay.trans hby.symm), hqb⟩
    · exact ⟨a, ha, hay, hqa⟩
  have hlt := h.lt_length
  by_contra hge
  have hround : d + 1 = l.length := by omega
  obtain ⟨e, he, hplace⟩ := exists_ringAt hz s
  cases e with
  | zero =>
    -- the place it began behind is where it ended
    have hsame : ringAt l (s + 1 + d) = ringAt l s := by
      rw [Nat.add_assoc, Nat.add_comm 1 d, hround, ringAt_add_length]
    have hend := h.place
    rw [hsame, ← Nat.add_zero s, hplace] at hend
    exact hne (Option.some.inj hend)
  | succ e =>
    have hplace' : ringAt l (s + 1 + e) = some z := by
      rw [Nat.add_assoc, Nat.add_comm 1 e]
      exact hplace
    have hle := h.le hplace' hqz
    omega

/-- **When two searches that start one place apart meet.** -/
theorem meet_iff (hx : FirstFrom p l s d x) (hy : FirstFrom q l (s + 1) d' y)
    (htwo : ∃ a ∈ l, ∃ b ∈ l, a ≠ b ∧ q a ∧ q b) : x = y ↔ Meets p q l s := by
  have hshift : ∀ e, s + 1 + e = s + (e + 1) := fun e => by omega
  constructor
  · rintro rfl
    have hplace := hy.place
    rw [hshift] at hplace
    refine ⟨d' + 1, x, Nat.succ_pos _, hy.succ_lt_length htwo, hplace, hx.accepted, hy.accepted,
      fun e he hed z hz => ?_, ?_⟩
    · refine hy.passed (e - 1) (by omega) z ?_
      rw [hshift, Nat.sub_add_cancel he]
      exact hz
    · rcases Nat.eq_zero_or_pos d with rfl | hpos
      · exact .inl hx.place
      · have hle : d' ≤ d - 1 := by
          refine hy.le ?_ hy.accepted
          rw [hshift, Nat.sub_add_cancel hpos]
          exact hx.place
        exact .inr fun e he => hx.passed e (by omega)
  · rintro ⟨D, z, hD, -, hz, hpz, hqz, hbetween, hbegin⟩
    have hsecond : FirstFrom q l (s + 1) (D - 1) z := by
      refine ⟨?_, hqz, fun e he w hw => ?_⟩
      · rw [hshift, Nat.sub_add_cancel hD]
        exact hz
      · rw [hshift] at hw
        exact hbetween (e + 1) (Nat.succ_pos _) (by omega) w hw
    have hfirst : ∃ e, FirstFrom p l s e z := by
      rcases hbegin with hhere | hrefused
      · exact ⟨0, hhere, hpz, by simp⟩
      · exact ⟨D, hz, hpz, hrefused⟩
    obtain ⟨e, he⟩ := hfirst
    rw [(hx.unique he).2, (hy.unique hsecond).2]

/-- In a ring without repetitions a search that accepts its first element does not meet the next one. -/
theorem not_meets_of_nodup (hnodup : l.Nodup) (hx : ringAt l s = some x) (hp : p x) : ¬ Meets p q l s := by
  rintro ⟨d, y, hd, hlt, hy, -, -, -, hbegin⟩
  rcases hbegin with hhere | hrefused
  · have hpos : 0 < l.length := by omega
    have hsame : s % l.length = (s + d) % l.length :=
      (List.getElem?_inj (Nat.mod_lt s hpos) hnodup).mp (hhere.trans hy.symm)
    have hzero : d % l.length = 0 := by
      have hcancel : s + 0 ≡ s + d [MOD l.length] := hsame
      exact (Nat.ModEq.add_left_cancel' s hcancel).symm
    rw [Nat.mod_eq_of_lt hlt] at hzero
    omega
  · exact hrefused 0 hd x hx hp

end Broker.Lib
