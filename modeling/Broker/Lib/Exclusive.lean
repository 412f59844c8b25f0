import Mathlib.Data.List.Basic
import Mathlib.Tactic.Common

/-!
# Broker.Lib.Exclusive — at most one entry of a list

`AtMostOne p l`: two places of `l` whose entries have `p` are the same place.  A list of processes of which
at most one is in a critical section changes by one entry at a time; what each change keeps is stated here.
-/

namespace Broker.Lib

variable {α : Type*}

/-- At most one place of `l` holds an entry with `p`. -/
def AtMostOne (p : α → Bool) (l : List α) : Prop :=
  ∀ (i j : ℕ) (a b : α), l[i]? = some a → l[j]? = some b → p a = true → p b = true → i = j

namespace AtMostOne

variable {p : α → Bool} {l : List α}

theorem nil : AtMostOne p [] := by
  intro i j a b ha
  simp at ha

theorem of_none (h : ∀ a ∈ l, p a = false) : AtMostOne p l := by
  intro i j a b ha _ hp
  have hfalse := h a (List.mem_of_getElem? ha)
  rw [hp] at hfalse
  exact absurd hfalse (by simp)

/-- What stands at a place of `l.set i c`. -/
theorem getElem?_set_cases {i j : ℕ} {c a : α} (h : (l.set i c)[j]? = some a) :
    (j = i ∧ a = c) ∨ (j ≠ i ∧ l[j]? = some a) := by
  by_cases hij : i = j
  · subst hij
    rw [List.getElem?_set_self'] at h
    obtain ⟨x, -, rfl⟩ := Option.map_eq_some_iff.mp h
    exact .inl ⟨rfl, rfl⟩
  · rw [List.getElem?_set_ne hij] at h
    exact .inr ⟨fun he => hij he.symm, h⟩

/-- An entry that has `p` afterwards only if it had it before. -/
theorem set (h : AtMostOne p l) {i : ℕ} {c c' : α} (hc : l[i]? = some c) (hp : p c' = true → p c = true) :
    AtMostOne p (l.set i c') := by
  intro j k a b ha hb hpa hpb
  rcases getElem?_set_cases ha with ⟨rfl, rfl⟩ | ⟨-, ha'⟩
  · rcases getElem?_set_cases hb with ⟨rfl, -⟩ | ⟨-, hb'⟩
    · rfl
    · exact h j k c b hc hb' (hp hpa) hpb
  · rcases getElem?_set_cases hb with ⟨rfl, rfl⟩ | ⟨-, hb'⟩
    · exact h j k a c ha' hc hpa (hp hpb)
    · exact h j k a b ha' hb' hpa hpb

/-- Where the one entry with `p` loses it, no entry has it. -/
theorem none_of_set (h : AtMostOne p l) {i : ℕ} {c c' : α} (hc : l[i]? = some c) (hp : p c = true)
    (hp' : p c' = false) : ∀ a ∈ l.set i c', p a = false := by
  intro a ha
  obtain ⟨j, hj⟩ := List.mem_iff_getElem?.mp ha
  rcases getElem?_set_cases hj with ⟨-, rfl⟩ | ⟨hne, hj⟩
  · exact hp'
  · by_contra hpa
    exact hne (h j i a c hj hc (by simpa using hpa) hp)

theorem concat (h : AtMostOne p l) {c : α} (hc : p c = false) : AtMostOne p (l ++ [c]) := by
  have old : ∀ {i : ℕ} {a : α}, (l ++ [c])[i]? = some a → p a = true → l[i]? = some a := by
    intro i a ha hpa
    rw [List.getElem?_append] at ha
    split_ifs at ha with hi
    · exact ha
    · have hmem : a = c := List.mem_singleton.mp (List.mem_of_getElem? ha)
      rw [hmem, hc] at hpa
      exact absurd hpa (by simp)
  intro i j a b ha hb hpa hpb
  exact h i j a b (old ha hpa) (old hb hpb) hpa hpb

/-- A first entry with `p`. -/
theorem concat_of_none (h : ∀ a ∈ l, p a = false) (c : α) : AtMostOne p (l ++ [c]) := by
  have last : ∀ {i : ℕ} {a : α}, (l ++ [c])[i]? = some a → p a = true → i = l.length := by
    intro i a ha hpa
    rw [List.getElem?_append] at ha
    split_ifs at ha with hi
    · have hfalse := h a (List.mem_of_getElem? ha)
      rw [hpa] at hfalse
      exact absurd hfalse (by simp)
    · have hlt := (List.getElem?_eq_some_iff.mp ha).1
      simp only [List.length_singleton] at hlt
      omega
  intro i j a b ha hb hpa hpb
  rw [last ha hpa, last hb hpb]

end AtMostOne

end Broker.Lib
