import Mathlib.Data.List.Sort
import Mathlib.Data.String.Basic
import Broker.Lib.Json

/-!
# Broker.Lib.Val — decoded JSON documents over a type of floats

`Val φ` is what `json.loads` returns and `json.dumps` takes; floats are kept abstract, so that a reader
that tells infinities from finite values and a writer that only prints them use the same trees.  An object
is a dictionary when its keys are distinct, at every depth (`Val.Dict`); two documents are the same up to
the order of their keys (`Val.Same`) exactly when sorting all keys makes them equal (`sortKeys_eq_iff`).
-/

namespace Broker.Lib

inductive Val (φ : Type) where
  | null
  | bool (b : Bool)
  | int (n : ℤ)
  | float (x : φ)
  | str (s : String)
  | arr (items : List (Val φ))
  | obj (entries : List (String × Val φ))
  deriving Inhabited, Repr

namespace Val

variable {φ : Type}

-- what a database column holds, as a document
mutual
def ofJson : Json → Val ℚ
  | .null => .null
  | .bool b => .bool b
  | .int n => .int n
  | .float q => .float q
  | .str s => .str s
  | .arr xs => .arr (ofJsonItems xs)
  | .obj es => .obj (ofJsonEntries es)
def ofJsonItems : List Json → List (Val ℚ)
  | [] => []
  | x :: xs => ofJson x :: ofJsonItems xs
def ofJsonEntries : List (String × Json) → List (String × Val ℚ)
  | [] => []
  | (k, x) :: es => (k, ofJson x) :: ofJsonEntries es
end

/-! ### Dictionaries -/

-- every object of the tree has distinct keys
mutual
def Dict : Val φ → Prop
  | .arr xs => DictItems xs
  | .obj es => (es.map Prod.fst).Nodup ∧ DictEntries es
  | _ => True
def DictItems : List (Val φ) → Prop
  | [] => True
  | x :: xs => Dict x ∧ DictItems xs
def DictEntries : List (String × Val φ) → Prop
  | [] => True
  | (_, x) :: es => Dict x ∧ DictEntries es
end

-- equality up to the order of the keys of every object
mutual
def Same : Val φ → Val φ → Prop
  | .arr xs, w => ∃ ys, w = .arr ys ∧ SameItems xs ys
  | .obj es, w => ∃ fs, w = .obj fs ∧ es.length = fs.length ∧ SameEntries es fs
  | v, w => w = v
def SameItems : List (Val φ) → List (Val φ) → Prop
  | [], ys => ys = []
  | x :: xs, ys => ∃ z zs, ys = z :: zs ∧ Same x z ∧ SameItems xs zs
def SameEntries : List (String × Val φ) → List (String × Val φ) → Prop
  | [], _ => True
  | (k, x) :: es, fs => (∃ z, (k, z) ∈ fs ∧ Same x z) ∧ SameEntries es fs
end

@[simp] theorem same_null (w : Val φ) : Same .null w ↔ w = .null := by simp [Same]

@[simp] theorem same_str (s : String) (w : Val φ) : Same (.str s) w ↔ w = .str s := by simp [Same]

@[simp] theorem same_int (n : ℤ) (w : Val φ) : Same (.int n) w ↔ w = .int n := by simp [Same]

@[simp] theorem same_float (x : φ) (w : Val φ) : Same (.float x) w ↔ w = .float x := by simp [Same]

@[simp] theorem same_arr (xs ys : List (Val φ)) : Same (.arr xs) (.arr ys) ↔ SameItems xs ys := by simp [Same]

@[simp] theorem sameItems_nil : SameItems ([] : List (Val φ)) [] := by simp [SameItems]

@[simp] theorem sameItems_cons (x y : Val φ) (xs ys : List (Val φ)) :
    SameItems (x :: xs) (y :: ys) ↔ Same x y ∧ SameItems xs ys := by
  simp only [SameItems, List.cons.injEq]
  constructor
  · rintro ⟨z, zs, ⟨rfl, rfl⟩, hx, hxs⟩
    exact ⟨hx, hxs⟩
  · rintro ⟨hx, hxs⟩
    exact ⟨y, ys, ⟨rfl, rfl⟩, hx, hxs⟩

/-! ### Sorting the keys -/

/-- The order `sorted(d.items())` uses: code points, lexicographically. -/
def keyLe (a b : String × Val φ) : Prop := a.1 ≤ b.1

instance : DecidableRel (keyLe (φ := φ)) := fun a b => inferInstanceAs (Decidable (a.1 ≤ b.1))

instance : Std.Total (keyLe (φ := φ)) := ⟨fun a b => le_total a.1 b.1⟩

instance : IsTrans (String × Val φ) keyLe := ⟨fun _ _ _ hab hbc => le_trans hab hbc⟩

mutual
def sortKeys : Val φ → Val φ
  | .arr xs => .arr (sortItems xs)
  | .obj es => .obj ((sortEntries es).insertionSort keyLe)
  | v => v
def sortItems : List (Val φ) → List (Val φ)
  | [] => []
  | x :: xs => sortKeys x :: sortItems xs
def sortEntries : List (String × Val φ) → List (String × Val φ)
  | [] => []
  | (k, x) :: es => (k, sortKeys x) :: sortEntries es
end

theorem sortEntries_eq_map (es : List (String × Val φ)) :
    sortEntries es = es.map fun e => (e.1, sortKeys e.2) := by
  induction es with
  | nil => rfl
  | cons e es ih => simp [sortEntries, ih]

theorem map_fst_sortEntries (es : List (String × Val φ)) :
    (sortEntries es).map Prod.fst = es.map Prod.fst := by
  rw [sortEntries_eq_map, List.map_map]
  rfl

theorem mem_sortEntries {k : String} {v : Val φ} {es : List (String × Val φ)} :
    (k, v) ∈ sortEntries es ↔ ∃ x, (k, x) ∈ es ∧ sortKeys x = v := by
  rw [sortEntries_eq_map, List.mem_map]
  constructor
  · rintro ⟨⟨l, x⟩, hx, heq⟩
    obtain ⟨rfl, rfl⟩ := Prod.mk.inj heq
    exact ⟨x, hx, rfl⟩
  · rintro ⟨x, hx, rfl⟩
    exact ⟨(k, x), hx, rfl⟩

/-- Two dictionaries with the same entries are sorted into the same list. -/
theorem insertionSort_keyLe_eq {es fs : List (String × Val φ)} (h : es.Perm fs)
    (hd : (es.map Prod.fst).Nodup) : es.insertionSort keyLe = fs.insertionSort keyLe := by
  have hperm : (es.insertionSort keyLe).Perm (fs.insertionSort keyLe) :=
    (List.perm_insertionSort _ es).trans (h.trans (List.perm_insertionSort _ fs).symm)
  refine hperm.eq_of_pairwise ?_ (List.pairwise_insertionSort _ es) (List.pairwise_insertionSort _ fs)
  intro a b ha hb hab hba
  -- entries with equal keys are one entry, since the keys are distinct
  have ha' : a ∈ es := (List.mem_insertionSort _).mp ha
  have hb' : b ∈ es := h.symm.subset ((List.mem_insertionSort _).mp hb)
  exact List.inj_on_of_nodup_map hd ha' hb' (le_antisymm hab hba)

/-- Entries of the same dictionary, matched one by one, are a permutation of each other. -/
theorem perm_of_forall_mem {es fs : List (String × Val φ)} (hd : (es.map Prod.fst).Nodup)
    (hlen : es.length = fs.length) (h : ∀ e ∈ es, e ∈ fs) : es.Perm fs :=
  (List.subperm_of_subset (List.Nodup.of_map _ hd) h).perm_of_length_le hlen.ge

mutual
theorem sortKeys_eq_of_same : ∀ v w : Val φ, Dict v → Same v w → sortKeys v = sortKeys w
  | .null, w, _, h | .bool _, w, _, h | .int _, w, _, h | .float _, w, _, h | .str _, w, _, h => by
    simp only [Same] at h
    rw [h]
  | .arr xs, w, hv, h => by
    simp only [Same] at h
    obtain ⟨ys, rfl, h⟩ := h
    simp only [sortKeys, sortItems_eq_of_same xs ys hv h]
  | .obj es, w, hv, h => by
    simp only [Same] at h
    obtain ⟨fs, rfl, hlen, h⟩ := h
    simp only [Dict] at hv
    simp only [sortKeys, obj.injEq]
    have hkeys : ((sortEntries es).map Prod.fst).Nodup := by rw [map_fst_sortEntries]; exact hv.1
    have hlen' : (sortEntries es).length = (sortEntries fs).length := by
      rw [sortEntries_eq_map, sortEntries_eq_map, List.length_map, List.length_map, hlen]
    exact insertionSort_keyLe_eq
      (perm_of_forall_mem hkeys hlen' (mem_sortEntries_of_same es fs hv.2 h)) hkeys
theorem sortItems_eq_of_same : ∀ xs ys : List (Val φ), DictItems xs → SameItems xs ys →
    sortItems xs = sortItems ys
  | [], ys, _, h => by
    simp only [SameItems] at h
    rw [h]
  | x :: xs, ys, hv, h => by
    simp only [SameItems] at h
    obtain ⟨z, zs, rfl, hx, hxs⟩ := h
    simp only [DictItems] at hv
    simp only [sortItems, sortKeys_eq_of_same x z hv.1 hx, sortItems_eq_of_same xs zs hv.2 hxs]
theorem mem_sortEntries_of_same : ∀ es fs : List (String × Val φ), DictEntries es → SameEntries es fs →
    ∀ e ∈ sortEntries es, e ∈ sortEntries fs
  | [], fs, _, _, e, he => by simp [sortEntries] at he
  | (k, x) :: es, fs, hv, h, e, he => by
    simp only [SameEntries] at h
    obtain ⟨⟨z, hz, hx⟩, hes⟩ := h
    simp only [DictEntries] at hv
    simp only [sortEntries, List.mem_cons] at he
    rcases he with rfl | he
    · rw [sortKeys_eq_of_same x z hv.1 hx]
      exact mem_sortEntries.mpr ⟨z, hz, rfl⟩
    · exact mem_sortEntries_of_same es fs hv.2 hes e he
end

mutual
theorem same_of_sortKeys_eq : ∀ v w : Val φ, sortKeys v = sortKeys w → Same v w
  | .null, w, h | .bool _, w, h | .int _, w, h | .float _, w, h | .str _, w, h => by
    cases w <;> simp_all [sortKeys, Same]
  | .arr xs, w, h => by
    cases w with
    | arr ys =>
      simp only [sortKeys, arr.injEq] at h
      exact ⟨ys, rfl, sameItems_of_sortItems_eq xs ys h⟩
    | _ => simp [sortKeys] at h
  | .obj es, w, h => by
    cases w with
    | obj fs =>
      simp only [sortKeys, obj.injEq] at h
      have hperm : (sortEntries es).Perm (sortEntries fs) := by
        have hes := List.perm_insertionSort keyLe (sortEntries es)
        rw [h] at hes
        exact hes.symm.trans (List.perm_insertionSort keyLe (sortEntries fs))
      refine ⟨fs, rfl, ?_, sameEntries_of_subset es fs fun e he => hperm.subset he⟩
      have hlen := hperm.length_eq
      rwa [sortEntries_eq_map, sortEntries_eq_map, List.length_map, List.length_map] at hlen
    | _ => simp [sortKeys] at h
theorem sameItems_of_sortItems_eq : ∀ xs ys : List (Val φ), sortItems xs = sortItems ys → SameItems xs ys
  | [], ys, h => by
    cases ys with
    | nil => rfl
    | cons y ys => simp [sortItems] at h
  | x :: xs, ys, h => by
    cases ys with
    | nil => simp [sortItems] at h
    | cons y ys =>
      simp only [sortItems, List.cons.injEq] at h
      exact ⟨y, ys, rfl, same_of_sortKeys_eq x y h.1, sameItems_of_sortItems_eq xs ys h.2⟩
theorem sameEntries_of_subset : ∀ es fs : List (String × Val φ),
    (∀ e ∈ sortEntries es, e ∈ sortEntries fs) → SameEntries es fs
  | [], fs, _ => trivial
  | (k, x) :: es, fs, h => by
    obtain ⟨z, hz, heq⟩ := mem_sortEntries.mp (h (k, sortKeys x) (by simp [sortEntries]))
    refine ⟨⟨z, hz, same_of_sortKeys_eq x z heq.symm⟩, sameEntries_of_subset es fs fun e he => ?_⟩
    exact h e (by simp [sortEntries, he])
end

/-- **Sorting is canonical.**  Dictionaries agree up to the order of their keys exactly when sorting
their keys makes them equal. -/
theorem sortKeys_eq_iff {v w : Val φ} (hv : Dict v) : sortKeys v = sortKeys w ↔ Same v w :=
  ⟨same_of_sortKeys_eq v w, sortKeys_eq_of_same v w hv⟩

theorem Same.refl (v : Val φ) : Same v v := same_of_sortKeys_eq v v rfl

/-- The same entries in another order. -/
theorem same_obj_of_perm {es fs : List (String × Val φ)} (h : es.Perm fs) : Same (.obj es) (.obj fs) := by
  simp only [Same]
  refine ⟨fs, rfl, h.length_eq, ?_⟩
  have hsub : ∀ e ∈ es, e ∈ fs := fun e he => h.subset he
  clear h
  induction es with
  | nil => trivial
  | cons e es ih =>
    exact ⟨⟨e.2, hsub e List.mem_cons_self, Same.refl e.2⟩, ih fun x hx => hsub x (List.mem_cons_of_mem e hx)⟩

theorem dictItems_iff {xs : List (Val φ)} : DictItems xs ↔ ∀ x ∈ xs, Dict x := by
  induction xs with
  | nil => simp [DictItems]
  | cons x xs ih => simp [DictItems, ih]

theorem dictEntries_iff {es : List (String × Val φ)} : DictEntries es ↔ ∀ e ∈ es, Dict e.2 := by
  induction es with
  | nil => simp [DictEntries]
  | cons e es ih =>
    obtain ⟨k, x⟩ := e
    simp [DictEntries, ih]

theorem dict_obj {es : List (String × Val φ)} :
    Dict (.obj es) ↔ (es.map Prod.fst).Nodup ∧ ∀ e ∈ es, Dict e.2 := by
  rw [Dict, dictEntries_iff]

theorem dict_arr {xs : List (Val φ)} : Dict (.arr xs) ↔ ∀ x ∈ xs, Dict x := by
  rw [Dict, dictItems_iff]

end Val

end Broker.Lib
