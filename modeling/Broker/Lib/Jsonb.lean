import Mathlib.Data.List.Sort
import Broker.Lib.OrderedDict
import Broker.Lib.Val

/-!
# Broker.Lib.Jsonb — jsonb values and the logic of NULL

A jsonb value holds one entry for a key, in an order of its own (`Jsonb`).  Its operators give SQL's NULL
where there is nothing to read, a comparison with NULL is NULL, and `WHERE`, `FILTER` and `CASE WHEN`
take a condition for true only when it is true (`Tri.holds`).
-/

namespace Broker.Lib

/-! ### Three-valued logic -/

/-- A truth value of SQL, `none` for NULL. -/
abbrev Tri := Option Bool

namespace Tri

def and : Tri → Tri → Tri
  | some false, _ => some false
  | some true, b => b
  | none, some false => some false
  | none, _ => none

def not (t : Tri) : Tri := t.map fun b => !b

/-- `coalesce(t, false)`. -/
def orFalse (t : Tri) : Tri := some (t.getD false)

def eq {α : Type} [DecidableEq α] (a : Option α) (b : α) : Tri := a.map fun x => decide (x = b)

/-- `a COLLATE "C" < b`: code points. -/
def lt (a : Option String) (b : String) : Tri := a.map fun x => decide (x < b)

/-- The rows and branches a condition selects. -/
def holds (t : Tri) : Bool := t.getD false

@[simp] theorem holds_and (a b : Tri) : (a.and b).holds = (a.holds && b.holds) := by
  cases a with
  | none =>
    cases b with
    | none => rfl
    | some b => cases b <;> rfl
  | some a => cases a <;> rfl

@[simp] theorem holds_orFalse (t : Tri) : t.orFalse.holds = t.holds := rfl

/-- A condition that is not NULL holds or its negation does. -/
theorem holds_not_orFalse (t : Tri) : t.orFalse.not.holds = !t.holds := by
  cases t with
  | none => rfl
  | some b => rfl

theorem holds_not_of_isSome {t : Tri} (h : t.isSome = true) : t.not.holds = !t.holds := by
  cases t with
  | none => cases h
  | some b => rfl

theorem holds_eq {α : Type} [DecidableEq α] {a : Option α} {b : α} : (eq a b).holds = true ↔ a = some b := by
  cases a with
  | none => simp [eq, holds]
  | some x => simp [eq, holds]

end Tri

/-! ### Values -/

/-- A jsonb value: the keys of its objects are distinct. -/
abbrev Jsonb (φ : Type) := {v : Val φ // v.Dict}

namespace Jsonb

open OrderedDict

variable {φ : Type}

/-- `jsonb_typeof`. -/
def typeOf : Val φ → String
  | .null => "null"
  | .bool _ => "boolean"
  | .int _ | .float _ => "number"
  | .str _ => "string"
  | .arr _ => "array"
  | .obj _ => "object"

/-- `v -> k`. -/
def arrow (v : Val φ) (k : String) : Option (Val φ) :=
  match v with
  | .obj es => get es k
  | _ => none

/-- `v ->> k`; `render` is the text of a value that is no string. -/
def arrowText (render : Val φ → String) (v : Val φ) (k : String) : Option String :=
  match arrow v k with
  | none | some .null => none
  | some (.str s) => some s
  | some w => some (render w)

/-- The order of the keys of an object: the shorter first. -/
def keyLe (a b : String × Val φ) : Prop :=
  a.1.utf8ByteSize < b.1.utf8ByteSize ∨ (a.1.utf8ByteSize = b.1.utf8ByteSize ∧ a.1 ≤ b.1)

instance : DecidableRel (keyLe (φ := φ)) := fun _ _ => inferInstanceAs (Decidable (_ ∨ _))

/-- `v || {…}` of objects. -/
def concat (es fs : List (String × Val φ)) : List (String × Val φ) :=
  (fs.foldl (fun d e => setItem d e.1 e.2) es).insertionSort keyLe

theorem typeOf_object {v : Val φ} (h : typeOf v = "object") : ∃ es, v = .obj es := by
  cases v with
  | obj es => exact ⟨es, rfl⟩
  | _ => simp [typeOf] at h

theorem typeOf_string {v : Val φ} (h : typeOf v = "string") : ∃ s, v = .str s := by
  cases v with
  | str s => exact ⟨s, rfl⟩
  | _ => simp [typeOf] at h

theorem keys_foldl_setItem_nodup {fs : List (String × Val φ)} : ∀ {es : List (String × Val φ)},
    (es.map Prod.fst).Nodup → ((fs.foldl (fun d e => setItem d e.1 e.2) es).map Prod.fst).Nodup := by
  induction fs with
  | nil => exact fun h => h
  | cons f fs ih => exact fun h => ih (keys_setItem_nodup h)

theorem concat_perm (es fs : List (String × Val φ)) :
    (concat es fs).Perm (fs.foldl (fun d e => setItem d e.1 e.2) es) :=
  List.perm_insertionSort keyLe _

/-- **The concatenation of two jsonb objects is a jsonb object.** -/
theorem dict_concat {es fs : List (String × Val φ)} (hes : Val.Dict (.obj es)) (hfs : ∀ e ∈ fs, e.2.Dict) :
    Val.Dict (.obj (concat es fs)) := by
  rw [Val.dict_obj] at hes ⊢
  have hp := concat_perm es fs
  refine ⟨((hp.map Prod.fst).nodup_iff).mpr (keys_foldl_setItem_nodup hes.1), fun e he => ?_⟩
  rcases mem_foldl_setItem (hp.mem_iff.mp he) with h | h
  · exact hes.2 e h
  · exact hfs e h

end Jsonb

end Broker.Lib
