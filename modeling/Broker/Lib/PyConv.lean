import Mathlib.Data.List.DropRight
import Broker.Lib.JsonLoad

/-!
# Broker.Lib.PyConv — `int` and `str` of a decoded document

Each document is converted or refused with the exception Python raises: `int` refuses what is no number with
`TypeError`, an unreadable text or a NaN with `ValueError` and an infinity with `OverflowError`; `str` of
containers nested past the interpreter's stack is a `RecursionError`.
-/

namespace Broker.Lib

/-- The exceptions a conversion, or the database driver, raises. -/
inductive PyError | valueError | typeError | overflowError | recursionError | dataError
  deriving DecidableEq, Repr

namespace PyConv

/-! ### `int` of a text -/

/-- The zeros of the decimal digits of Unicode; each is followed by the other nine. -/
def decimalZeros : List ℕ :=
  [0x30, 0x660, 0x6f0, 0x7c0, 0x966, 0x9e6, 0xa66, 0xae6, 0xb66, 0xbe6, 0xc66, 0xce6, 0xd66, 0xde6, 0xe50, 0xed0,
    0xf20, 0x1040, 0x1090, 0x17e0, 0x1810, 0x1946, 0x19d0, 0x1a80, 0x1a90, 0x1b50, 0x1bb0, 0x1c40, 0x1c50, 0xa620,
    0xa8d0, 0xa900, 0xa9d0, 0xa9f0, 0xaa50, 0xabf0, 0xff10, 0x104a0, 0x10d30, 0x11066, 0x110f0, 0x11136, 0x111d0,
    0x112f0, 0x11450, 0x114d0, 0x11650, 0x116c0, 0x11730, 0x118e0, 0x11950, 0x11c50, 0x11d50, 0x11da0, 0x11f50,
    0x16a60, 0x16ac0, 0x16b50, 0x1d7ce, 0x1d7d8, 0x1d7e2, 0x1d7ec, 0x1d7f6, 0x1e140, 0x1e2f0, 0x1e4f0, 0x1e950,
    0x1fbf0]

def decimalValue (c : Char) : Option ℕ :=
  (decimalZeros.find? fun z => z ≤ c.toNat ∧ c.toNat < z + 10).map fun z => c.toNat - z

/-- The white space around a number. -/
def isBlank (c : Char) : Bool :=
  let n := c.toNat
  (9 ≤ n && n ≤ 13) || n == 0x20 || n == 0x85 || n == 0xA0 || n == 0x1680 || (0x2000 ≤ n && n ≤ 0x200A)
    || n == 0x2028 || n == 0x2029 || n == 0x202F || n == 0x205F || n == 0x3000

/-- The white space `strip` removes: that and the four separators. -/
def isStripped (c : Char) : Bool := isBlank c || (0x1C ≤ c.toNat && c.toNat ≤ 0x1F)

/-- `text.strip()`. -/
def strip (cs : List Char) : List Char := (cs.dropWhile isStripped).rdropWhile isStripped

def stripText (text : String) : String := String.ofList (strip text.toList)

/-- Digits, a single underscore allowed between two of them. -/
def digitsFrom : List Char → Option (List ℕ)
  | [] => none
  | [c] => (decimalValue c).map fun d => [d]
  | c :: '_' :: cs => (decimalValue c).bind fun d => (digitsFrom cs).map fun ds => d :: ds
  | c :: cs => (decimalValue c).bind fun d => (digitsFrom cs).map fun ds => d :: ds

/-- The sign and what follows it. -/
def splitSign : List Char → Bool × List Char
  | '-' :: cs => (true, cs)
  | '+' :: cs => (false, cs)
  | cs => (false, cs)

/-- `int(text)`, or nothing where it raises `ValueError`. -/
def intOfText (text : String) : Option ℤ :=
  let cs := (text.toList.dropWhile isBlank).rdropWhile isBlank
  match digitsFrom (splitSign cs).2 with
  | none => none
  | some ds =>
    if JsonLoad.maxIntDigits < ds.length then none
    else some (JsonLoad.signed (splitSign cs).1 (ds.foldl (fun n d => 10 * n + d) 0))

example : intOfText " -1_0\n" = some (-10) := by decide

/-! ### `isdigit` -/

/-- The digits that are no decimal digits: superscripts, subscripts, enclosed and dotted digits. -/
def otherDigits : List (ℕ × ℕ) :=
  [(0xb2, 0xb3), (0xb9, 0xb9), (0x1369, 0x1371), (0x19da, 0x19da), (0x2070, 0x2070), (0x2074, 0x2079),
    (0x2080, 0x2089), (0x2460, 0x2468), (0x2474, 0x247c), (0x2488, 0x2490), (0x24ea, 0x24ea), (0x24f5, 0x24fd),
    (0x24ff, 0x24ff), (0x2776, 0x277e), (0x2780, 0x2788), (0x278a, 0x2792), (0x10a40, 0x10a43),
    (0x10e60, 0x10e68), (0x11052, 0x1105a), (0x1f100, 0x1f10a)]

def isDigit (c : Char) : Bool :=
  (decimalValue c).isSome || otherDigits.any fun r => r.1 ≤ c.toNat && c.toNat ≤ r.2

/-- `text.isdigit()`. -/
def allDigits (cs : List Char) : Bool := !cs.isEmpty && cs.all isDigit

/-- The blanks, the signs and the underscore. -/
def nonDigits : List ℕ :=
  [9, 10, 11, 12, 13, 0x20, 0x2B, 0x2D, 0x5F, 0x85, 0xA0, 0x1680, 0x2000, 0x2001, 0x2002, 0x2003, 0x2004, 0x2005,
    0x2006, 0x2007, 0x2008, 0x2009, 0x200A, 0x2028, 0x2029, 0x202F, 0x205F, 0x3000]

theorem nonDigits_not_digit : ∀ n ∈ nonDigits, (∀ z ∈ decimalZeros, ¬(z ≤ n ∧ n < z + 10)) ∧
    ∀ r ∈ otherDigits, ¬(r.1 ≤ n ∧ n ≤ r.2) := by decide

theorem isDigit_eq_false {c : Char} (h : c.toNat ∈ nonDigits) : isDigit c = false := by
  obtain ⟨hz, hr⟩ := nonDigits_not_digit c.toNat h
  have hdec : decimalValue c = none := by
    unfold decimalValue
    rw [List.find?_eq_none.mpr (by simpa using hz)]
    rfl
  have hany : (otherDigits.any fun r => r.1 ≤ c.toNat && c.toNat ≤ r.2) = false := by
    rw [List.any_eq_false]
    intro r hmem
    simpa using hr r hmem
  rw [isDigit, hdec, hany]
  rfl

theorem isBlank_of_isDigit {c : Char} (h : isDigit c = true) : isBlank c = false := by
  by_contra hb
  have hmem : c.toNat ∈ nonDigits := by
    simp only [isBlank, Bool.or_eq_true, Bool.and_eq_true, decide_eq_true_eq, beq_iff_eq, Bool.not_eq_false] at hb
    simp only [nonDigits, List.mem_cons, List.not_mem_nil, or_false]
    omega
  rw [isDigit_eq_false hmem] at h
  cases h

theorem ne_of_isDigit {c d : Char} (h : isDigit c = true) (hd : d.toNat ∈ nonDigits) : c ≠ d := by
  rintro rfl
  rw [isDigit_eq_false hd] at h
  cases h

theorem digitsFrom_cons {c d : Char} (cs : List Char) (hd : d ≠ '_') :
    digitsFrom (c :: d :: cs) = (decimalValue c).bind fun x => (digitsFrom (d :: cs)).map fun ds => x :: ds := by
  rw [digitsFrom]
  · intro h
    cases h
  · intro _ h
    exact hd (List.cons.inj h).1

theorem digitsFrom_isSome : ∀ {cs : List Char}, cs ≠ [] → (∀ c ∈ cs, isDigit c = true) →
    ((digitsFrom cs).isSome = true ↔ ∀ c ∈ cs, (decimalValue c).isSome = true)
  | [c], _, _ => by simp [digitsFrom]
  | c :: d :: cs, _, h => by
    have hd : d ≠ '_' := ne_of_isDigit (h d (by simp)) (by decide)
    have ih : (digitsFrom (d :: cs)).isSome = true ↔ ∀ e ∈ d :: cs, (decimalValue e).isSome = true :=
      digitsFrom_isSome (by simp) fun e he => h e (List.mem_cons_of_mem c he)
    rw [digitsFrom_cons cs hd, List.forall_mem_cons, ← ih]
    cases decimalValue c <;> simp

theorem length_digitsFrom : ∀ {cs : List Char} {ds : List ℕ}, (∀ c ∈ cs, isDigit c = true) →
    digitsFrom cs = some ds → ds.length = cs.length
  | [], ds, _, h => by cases h
  | [c], ds, _, h => by
    obtain ⟨x, -, rfl⟩ := Option.map_eq_some_iff.mp h
    rfl
  | c :: d :: cs, ds, hcs, h => by
    have hd : d ≠ '_' := ne_of_isDigit (hcs d (by simp)) (by decide)
    rw [digitsFrom_cons cs hd] at h
    obtain ⟨x, -, h⟩ := Option.bind_eq_some_iff.mp h
    obtain ⟨ds', hds, rfl⟩ := Option.map_eq_some_iff.mp h
    have ih := length_digitsFrom (fun e he => hcs e (List.mem_cons_of_mem c he)) hds
    show ds'.length + 1 = (d :: cs).length + 1
    rw [ih]

/-- **`int` of a text of digits**: it reads decimal digits only, and no more of them than the interpreter's
limit. -/
theorem intOfText_isSome_of_allDigits {cs : List Char} (h : allDigits cs = true) :
    (intOfText (String.ofList cs)).isSome = true ↔
      (∀ c ∈ cs, (decimalValue c).isSome = true) ∧ cs.length ≤ JsonLoad.maxIntDigits := by
  simp only [allDigits, Bool.and_eq_true, Bool.not_eq_true', List.isEmpty_eq_false_iff, List.all_eq_true] at h
  obtain ⟨hne, hdig⟩ := h
  have hstrip : (cs.dropWhile isBlank).rdropWhile isBlank = cs := by
    have hfront : cs.dropWhile isBlank = cs := by
      rw [List.dropWhile_eq_self_iff]
      intro hpos
      simp [isBlank_of_isDigit (hdig _ (List.getElem_mem hpos))]
    rw [hfront, List.rdropWhile_eq_self_iff]
    intro hl
    simp [isBlank_of_isDigit (hdig _ (List.getLast_mem hl))]
  have hsign : splitSign cs = (false, cs) := by
    cases cs with
    | nil => exact absurd rfl hne
    | cons c cs =>
      have hc := hdig c (by simp)
      unfold splitSign
      split
      · rename_i heq
        exact absurd (List.cons.inj heq).1 (ne_of_isDigit hc (by decide))
      · rename_i heq
        exact absurd (List.cons.inj heq).1 (ne_of_isDigit hc (by decide))
      · rfl
  simp only [intOfText, String.toList_ofList, hstrip, hsign]
  rw [← digitsFrom_isSome hne hdig]
  cases hds : digitsFrom cs with
  | none => simp
  | some ds =>
    rw [← length_digitsFrom hdig hds]
    by_cases hlen : JsonLoad.maxIntDigits < ds.length
    · simp [hlen, Nat.not_le.mpr hlen]
    · simp [hlen, Nat.not_lt.mp hlen]

/-! ### `int` of a document -/

/-- `int(v)`: a finite float is cut toward zero. -/
def toInt : Val PyFloat → Except PyError ℤ
  | .bool b => .ok (if b then 1 else 0)
  | .int n => .ok n
  | .float (.fin q) => .ok (q.num.tdiv q.den)
  | .float (.inf _) => .error .overflowError
  | .float .nan => .error .valueError
  | .str s =>
    match intOfText s with
    | some n => .ok n
    | none => .error .valueError
  | .null | .arr _ | .obj _ => .error .typeError

/-- The documents `int` takes. -/
def IsIntLike : Val PyFloat → Bool
  | .bool _ | .int _ | .float (.fin _) => true
  | .str s => (intOfText s).isSome
  | _ => false

def IsInfinite : Val PyFloat → Bool
  | .float (.inf _) => true
  | _ => false

theorem toInt_isOk (v : Val PyFloat) : (toInt v).isOk = IsIntLike v := by
  cases v with
  | float x => cases x <;> rfl
  | str s =>
    simp only [toInt, IsIntLike]
    cases intOfText s <;> rfl
  | _ => rfl

/-- **What is not taken and is no infinity is a `ValueError` or a `TypeError`.** -/
theorem toInt_error {v : Val PyFloat} {e : PyError} (h : toInt v = .error e) :
    (IsInfinite v = true ∧ e = .overflowError) ∨
      (IsInfinite v = false ∧ (e = .valueError ∨ e = .typeError)) := by
  cases v with
  | float x =>
    cases x with
    | fin q => cases h
    | inf neg => exact .inl ⟨rfl, (Except.error.inj h).symm⟩
    | nan => exact .inr ⟨rfl, .inl (Except.error.inj h).symm⟩
  | str s =>
    simp only [toInt] at h
    split at h
    · cases h
    · exact .inr ⟨rfl, .inl (Except.error.inj h).symm⟩
  | null | arr _ | obj _ => exact .inr ⟨rfl, .inr (Except.error.inj h).symm⟩
  | bool b | int n => cases h

theorem not_isInfinite_of_toInt {v : Val PyFloat} {n : ℤ} (h : toInt v = .ok n) : IsInfinite v = false := by
  cases v with
  | float x =>
    cases x with
    | inf neg => cases h
    | fin q | nan => rfl
  | _ => rfl

/-! ### `str` of a document -/

-- how deep the containers are nested
mutual
def depth : Val PyFloat → ℕ
  | .arr xs => depthItems xs + 1
  | .obj es => depthEntries es + 1
  | _ => 0
def depthItems : List (Val PyFloat) → ℕ
  | [] => 0
  | x :: xs => max (depth x) (depthItems xs)
def depthEntries : List (String × Val PyFloat) → ℕ
  | [] => 0
  | (_, x) :: es => max (depth x) (depthEntries es)
end

/-- What the conversions need of the interpreter: how deep `json.loads` and `repr` may nest, and the text of a
float or a container. -/
structure Interp where
  room : ℕ
  reprRoom : ℕ
  text : Val PyFloat → String

/-- `str(v)`.  No document of `json.loads` holds an integer too long to print. -/
def toStr (I : Interp) : Val PyFloat → Except PyError String
  | .null => .ok "None"
  | .bool b => .ok (if b then "True" else "False")
  | .int n => .ok (toString n)
  | .str s => .ok s
  | v => if depth v ≤ I.reprRoom then .ok (I.text v) else .error .recursionError

theorem toStr_isOk (I : Interp) (v : Val PyFloat) : (toStr I v).isOk = decide (depth v ≤ I.reprRoom) := by
  have hleaf : decide (0 ≤ I.reprRoom) = true := by simp
  cases v with
  | null | bool _ | int _ | str _ => exact hleaf.symm
  | float x | arr xs | obj es =>
    simp only [toStr]
    split_ifs with h
    · simp [h, Except.isOk, Except.toBool]
    · simp [h, Except.isOk, Except.toBool]

theorem toStr_error {I : Interp} {v : Val PyFloat} {e : PyError} (h : toStr I v = .error e) :
    e = .recursionError := by
  cases v with
  | null | bool _ | int _ | str _ => cases h
  | float x | arr xs | obj es =>
    simp only [toStr] at h
    split_ifs at h
    exact (Except.error.inj h).symm

end PyConv

end Broker.Lib
