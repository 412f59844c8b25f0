import Broker.Lib.PyConv

/-!
# Broker.Lib.PyVal — reading a decoded document

What a program does with the documents of `json.loads`: `.get` of a dictionary, truth, `or {}`,
comparison with a text or a number, and membership in a set.
-/

namespace Broker.Lib

/-- The entries of a decoded object. -/
abbrev Doc := List (String × Val PyFloat)

namespace Doc

/-- `k in d`. -/
def has (d : Doc) (k : String) : Bool := d.any fun e => e.1 = k

/-- `d.get(k)`. -/
def get (d : Doc) (k : String) : Val PyFloat := (OrderedDict.get d k).getD .null

end Doc

namespace Val

/-- `bool(v)`. -/
def truthy : Val PyFloat → Bool
  | .null => false
  | .bool b => b
  | .int n => n ≠ 0
  | .float x => x ≠ .fin 0
  | .str s => s ≠ ""
  | .arr xs => xs ≠ []
  | .obj es => es ≠ []

/-- The dictionary, where `.get` raises no `AttributeError`. -/
def asDict : Val PyFloat → Option Doc
  | .obj es => some es
  | _ => none

/-- The dictionary of `v or {}`. -/
def orDict (v : Val PyFloat) : Option Doc := if v.truthy then v.asDict else some []

/-- `v[k]`, where it raises neither `KeyError` nor `TypeError`. -/
def item (v : Val PyFloat) (k : String) : Option (Val PyFloat) := v.asDict.bind fun d => OrderedDict.get d k

/-- `v == t`. -/
def isText (v : Val PyFloat) (t : String) : Bool :=
  match v with
  | .str s => s = t
  | _ => false

/-- `v == t`, for a text that may be absent. -/
def isOptText (v : Val PyFloat) (t : Option String) : Bool :=
  match v, t with
  | .null, none => true
  | .str s, some t => s = t
  | _, _ => false

def isNull : Val PyFloat → Bool
  | .null => true
  | _ => false

/-- `v == n`: numbers and truth values compare by their value. -/
def isNumber (v : Val PyFloat) (n : ℤ) : Bool :=
  match v with
  | .bool b => (if b then 1 else 0) = n
  | .int m => m = n
  | .float (.fin q) => q = n
  | _ => false

theorem isText_iff {v : Val PyFloat} {t : String} : v.isText t = true ↔ v = .str t := by
  cases v <;> simp [isText]

theorem isOptText_some {v : Val PyFloat} {t : String} : v.isOptText (some t) = true ↔ v = .str t := by
  cases v <;> simp [isOptText]

theorem isOptText_none {v : Val PyFloat} : v.isOptText none = true ↔ v = .null := by
  cases v <;> simp [isOptText]

theorem isNull_iff {v : Val PyFloat} : v.isNull = true ↔ v = .null := by
  cases v <;> simp [isNull]

end Val

/-! ### A field of a document over any floats -/

namespace Val

variable {φ : Type}

/-- `v.get(k)` of a dictionary. -/
def getField (v : Val φ) (k : String) : Val φ :=
  match v with
  | .obj es => (OrderedDict.get es k).getD .null
  | _ => .null

/-- `v == t`. -/
def isStr (v : Val φ) (t : String) : Bool :=
  match v with
  | .str s => s = t
  | _ => false

/-- `bool(v)` of a dictionary or `None`. -/
def given : Val φ → Bool
  | .obj es => !es.isEmpty
  | _ => false

theorem get_map_snd {α β : Type} (g : α → β) (es : List (String × α)) (k : String) :
    OrderedDict.get (es.map fun e => (e.1, g e.2)) k = (OrderedDict.get es k).map g := by
  unfold OrderedDict.get
  rw [List.find?_map, Option.map_map, Option.map_map]
  rfl

/-- The values of a dictionary after its keys are sorted. -/
theorem get_sortEntries {es : List (String × Val φ)} (h : (es.map Prod.fst).Nodup) (k : String) :
    OrderedDict.get ((sortEntries es).insertionSort keyLe) k = (OrderedDict.get es k).map sortKeys := by
  have hkeys : ((sortEntries es).map Prod.fst).Nodup := by
    rw [map_fst_sortEntries]
    exact h
  rw [OrderedDict.get_perm hkeys (List.perm_insertionSort keyLe (sortEntries es)).symm, sortEntries_eq_map,
    get_map_snd]

/-- The same dictionaries hold the same values under each key. -/
theorem get_same {es fs : List (String × Val φ)} (he : Dict (.obj es)) (hf : Dict (.obj fs))
    (h : Same (.obj es) (.obj fs)) (k : String) :
    (OrderedDict.get es k).map sortKeys = (OrderedDict.get fs k).map sortKeys := by
  have hsort : (sortEntries es).insertionSort keyLe = (sortEntries fs).insertionSort keyLe := by
    have heq := sortKeys_eq_of_same _ _ he h
    simpa only [sortKeys, obj.injEq] using heq
  rw [← get_sortEntries (dict_obj.mp he).1, ← get_sortEntries (dict_obj.mp hf).1, hsort]

theorem Same.isObj {es : List (String × Val φ)} {w : Val φ} (h : Same (.obj es) w) :
    ∃ fs, w = .obj fs ∧ es.length = fs.length := by
  simp only [Same] at h
  obtain ⟨fs, rfl, hlen, -⟩ := h
  exact ⟨fs, rfl, hlen⟩

theorem Same.getField {v w : Val φ} (hv : v.Dict) (hw : w.Dict) (h : v.Same w) (k : String) :
    (v.getField k).Same (w.getField k) := by
  cases v with
  | obj es =>
    obtain ⟨fs, rfl, -⟩ := h.isObj
    have hget := get_same hv hw h k
    refine same_of_sortKeys_eq _ _ ?_
    cases he : OrderedDict.get es k with
    | none =>
      rw [he, Option.map_none, eq_comm, Option.map_eq_none_iff] at hget
      simp only [Val.getField, he, hget]
    | some x =>
      rw [he, Option.map_some, eq_comm, Option.map_eq_some_iff] at hget
      obtain ⟨y, hy, hxy⟩ := hget
      simp only [Val.getField, he, hy, Option.getD_some]
      exact hxy.symm
  | arr xs =>
    simp only [Same] at h
    obtain ⟨ys, rfl, -⟩ := h
    exact Same.refl _
  | _ =>
    simp only [Same] at h
    subst h
    exact Same.refl _

theorem Dict.getField {v : Val φ} (h : v.Dict) (k : String) : (v.getField k).Dict := by
  cases v with
  | obj es =>
    cases he : OrderedDict.get es k with
    | none => simp [Val.getField, he, Dict]
    | some x =>
      simp only [Val.getField, he, Option.getD_some]
      exact (dict_obj.mp h).2 (k, x) (OrderedDict.mem_of_get he)
  | _ => trivial

theorem Same.isStr {v w : Val φ} (h : v.Same w) (t : String) : v.isStr t = w.isStr t := by
  cases v with
  | obj es =>
    obtain ⟨fs, rfl, -⟩ := h.isObj
    rfl
  | arr xs =>
    simp only [Same] at h
    obtain ⟨ys, rfl, -⟩ := h
    rfl
  | _ =>
    simp only [Same] at h
    subst h
    rfl

theorem Same.given {v w : Val φ} (h : v.Same w) : v.given = w.given := by
  cases v with
  | obj es =>
    obtain ⟨fs, rfl, hlen⟩ := h.isObj
    cases es with
    | nil => simp only [Val.given, List.eq_nil_of_length_eq_zero hlen.symm]
    | cons e es =>
      cases fs with
      | nil => simp at hlen
      | cons f fs => rfl
  | arr xs =>
    simp only [Same] at h
    obtain ⟨ys, rfl, -⟩ := h
    rfl
  | _ =>
    simp only [Same] at h
    subst h
    rfl

theorem isStr_iff {v : Val φ} {t : String} : v.isStr t = true ↔ v = .str t := by
  cases v <;> simp [isStr]

end Val

/-- What a set compares of a hashable document; `json.loads` has one object for all its NaNs. -/
inductive HashKey where
  | none
  | number (q : ℚ)
  | inf (neg : Bool)
  | nan
  | text (s : String)
  deriving DecidableEq, Repr

/-- Lists and dictionaries have no hash. -/
def Val.hashKey : Val PyFloat → Option HashKey
  | .null => some .none
  | .bool b => some (.number (if b then 1 else 0))
  | .int n => some (.number n)
  | .float (.fin q) => some (.number q)
  | .float (.inf neg) => some (.inf neg)
  | .float .nan => some .nan
  | .str s => some (.text s)
  | .arr _ | .obj _ => none

-- `v == w`: numbers by their value, dictionaries without regard to the order of their keys
mutual
def Val.pyEq : Val PyFloat → Val PyFloat → Bool
  | .arr xs, .arr ys => Val.pyEqItems xs ys
  | .obj es, .obj fs => es.length == fs.length && Val.pyEqEntries es fs
  | v, w =>
    match v.hashKey, w.hashKey with
    | some a, some b => decide (a = b)
    | _, _ => false
def Val.pyEqItems : List (Val PyFloat) → List (Val PyFloat) → Bool
  | [], [] => true
  | x :: xs, y :: ys => Val.pyEq x y && Val.pyEqItems xs ys
  | _, _ => false
def Val.pyEqEntries : Doc → Doc → Bool
  | [], _ => true
  | (k, x) :: es, fs =>
    (match OrderedDict.get fs k with
    | some y => Val.pyEq x y
    | none => false) && Val.pyEqEntries es fs
end

-- a dictionary equals itself
mutual
theorem Val.pyEq_refl : ∀ v : Val PyFloat, v.Dict → v.pyEq v = true
  | .null, _ | .bool _, _ | .int _, _ | .str _, _ => by simp [Val.pyEq, Val.hashKey]
  | .float (.fin _), _ | .float (.inf _), _ | .float .nan, _ => by simp [Val.pyEq, Val.hashKey]
  | .arr xs, h => by
    rw [Val.pyEq]
    exact Val.pyEqItems_refl xs h
  | .obj es, h => by
    rw [Val.pyEq, Bool.and_eq_true]
    exact ⟨beq_self_eq_true _, Val.pyEqEntries_refl es es h.1 (fun _ he => he) h.2⟩
theorem Val.pyEqItems_refl : ∀ xs : List (Val PyFloat), Val.DictItems xs → Val.pyEqItems xs xs = true
  | [], _ => rfl
  | x :: xs, h => by
    rw [Val.pyEqItems, Bool.and_eq_true]
    exact ⟨Val.pyEq_refl x h.1, Val.pyEqItems_refl xs h.2⟩
theorem Val.pyEqEntries_refl : ∀ es fs : Doc, (fs.map Prod.fst).Nodup → (∀ e ∈ es, e ∈ fs) → Val.DictEntries es →
    Val.pyEqEntries es fs = true
  | [], _, _, _, _ => rfl
  | (k, x) :: es, fs, hnodup, hsub, h => by
    have hget : OrderedDict.get fs k = some x := (OrderedDict.get_eq_some_iff hnodup).mpr (hsub (k, x) (by simp))
    rw [Val.pyEqEntries, hget, Bool.and_eq_true]
    exact ⟨Val.pyEq_refl x h.1, Val.pyEqEntries_refl es fs hnodup (fun e he => hsub e (by simp [he])) h.2⟩
end

/-- `text[:n]`. -/
def cut (n : ℕ) (text : String) : String := String.ofList (text.toList.take n)

end Broker.Lib
