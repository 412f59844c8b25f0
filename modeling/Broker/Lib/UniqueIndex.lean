import Mathlib.Data.List.Pairwise
import Mathlib.Data.List.Perm.Basic
import Mathlib.Tactic.Common

/-!
# Broker.Lib.UniqueIndex — a partial unique index over committed and uncommitted rows

`slot r` is the value of a row under the index, none where the index does not cover it.  An index is kept
by `Unique slot rows` on all rows, those of open transactions included: an insert of a free slot adds a
row to an open transaction, a commit moves it, a rollback drops it.  Open transactions are the parties of
a list, each with at most one uncommitted row; `filterMap_set_perm` says what moving one party does to
the uncommitted rows.
-/

namespace Broker.Lib

variable {ρ κ π : Type*}

/-- The index keeps two rows apart. -/
def Apart (slot : ρ → Option κ) (a b : ρ) : Prop := slot a = none ∨ slot a ≠ slot b

/-- The unique index over a list of rows. -/
def Unique (slot : ρ → Option κ) (rows : List ρ) : Prop := rows.Pairwise (Apart slot)

variable {slot : ρ → Option κ} {rows rows' : List ρ} {r a b : ρ}

theorem Apart.symm (h : Apart slot a b) : Apart slot b a := by
  rcases h with h | h
  · by_cases hb : slot b = none
    · exact .inl hb
    · exact .inr fun heq => hb (heq.trans h)
  · exact .inr h.symm

/-- Rows of one slot are one row. -/
theorem Unique.eq_of_slot (h : Unique slot rows) (ha : a ∈ rows) (hb : b ∈ rows) {k : κ}
    (hka : slot a = some k)
    (hkb : slot b = some k) : a = b := by
  have : Std.Symm (Apart slot) := ⟨fun _ _ => Apart.symm⟩
  by_contra hne
  rcases List.Pairwise.forall h ha hb hne with hnone | hslot
  · rw [hka] at hnone
    cases hnone
  · exact hslot (hka.trans hkb.symm)

/-- A slot is taken on one side only. -/
theorem Unique.ne_of_append (h : Unique slot (rows ++ rows')) (ha : a ∈ rows) (hb : b ∈ rows') {k : κ}
    (hka : slot a = some k) : slot b ≠ some k := by
  intro hkb
  rcases (List.pairwise_append.mp h).2.2 a ha b hb with hnone | hslot
  · rw [hka] at hnone
    cases hnone
  · exact hslot (hka.trans hkb.symm)

theorem Unique.perm (h : Unique slot rows) (hp : rows.Perm rows') : Unique slot rows' :=
  (hp.pairwise_iff fun h => Apart.symm h).mp h

/-- Rows may be dropped and reordered. -/
theorem Unique.subperm (h : Unique slot rows) (hs : rows'.Subperm rows) : Unique slot rows' := by
  obtain ⟨l, hp, hl⟩ := hs
  exact Unique.perm (List.Pairwise.sublist hl h) hp

/-- An insert into a free slot. -/
theorem Unique.cons (h : Unique slot rows) (hfree : ∀ k, slot r = some k → ∀ x ∈ rows, slot x ≠ some k) :
    Unique slot (r :: rows) := by
  refine List.pairwise_cons.mpr ⟨fun x hx => ?_, h⟩
  cases hk : slot r with
  | none => exact .inl hk
  | some k => exact .inr fun heq => hfree k hk x hx (heq ▸ hk)

/-! ### Moving one party -/

theorem perm_swap (xs ys zs : List ρ) : (xs ++ (ys ++ zs)).Perm (ys ++ (xs ++ zs)) := by
  rw [← List.append_assoc, ← List.append_assoc]
  exact List.perm_append_comm.append_right zs

/-- What the party at `i` contributes, apart from what the others do. -/
theorem filterMap_set_perm {f : π → Option ρ} {ps : List π} {i : ℕ} {p : π} (hp : ps[i]? = some p) :
    ∃ rest : List ρ, (ps.filterMap f).Perm ((f p).toList ++ rest) ∧
      ∀ p', ((ps.set i p').filterMap f).Perm ((f p').toList ++ rest) := by
  induction ps generalizing i with
  | nil => simp at hp
  | cons q ps ih =>
    cases i with
    | zero =>
      obtain rfl : q = p := by simpa using hp
      refine ⟨ps.filterMap f, ?_, fun p' => ?_⟩
      · cases h : f q <;> simp [h]
      · cases h : f p' <;> simp [h]
    | succ i =>
      obtain ⟨rest, h1, h2⟩ := ih (i := i) (by simpa using hp)
      refine ⟨(f q).toList ++ rest, ?_, fun p' => ?_⟩
      · have hq := (h1.append_left (f q).toList).trans (perm_swap (f q).toList (f p).toList rest)
        cases h : f q <;> simpa [h] using hq
      · have hq := ((h2 p').append_left (f q).toList).trans (perm_swap (f q).toList (f p').toList rest)
        cases h : f q <;> simpa [h] using hq

end Broker.Lib
