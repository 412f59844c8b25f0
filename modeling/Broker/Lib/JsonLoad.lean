import Broker.Lib.JsonDump
import Broker.Lib.OrderedDict
import Mathlib.Algebra.Order.Field.Rat
import Mathlib.Data.List.Induction
import Mathlib.Tactic.IntervalCases

/-!
# Broker.Lib.JsonLoad — reading JSON text as `json.loads` does

A recursive descent over the characters.  Beside the grammar of JSON it takes `NaN`, `Infinity` and
`-Infinity`, rounds decimals to doubles (so a large exponent reads as an infinity), keeps the last value of a
repeated key, refuses integers of more than 4300 digits, and gives up when the nesting exceeds what the
interpreter's stack allows.  Fuel bounds the calls; `loadsChars_ne_fuel` says that it never runs out.
-/

namespace Broker.Lib

/-- A float, negative zero read as zero. -/
inductive PyFloat where
  | fin (q : ℚ)
  | inf (neg : Bool)
  | nan
  deriving DecidableEq, Repr, Inhabited

namespace PyFloat

/-- The nearest integer, ties to even. -/
def roundEven (q : ℚ) : ℤ :=
  let n := q.floor
  if q - n < 1 / 2 then n
  else if 1 / 2 < q - n then n + 1
  else if n % 2 = 0 then n else n + 1

/-- The double nearest to a rational of the finite range: 53 bits above the unit `2 ^ -1074`. -/
def roundDouble (q : ℚ) : ℚ :=
  if q = 0 then 0
  else
    let a := |q|
    -- the exponent of the leading bit, up to one
    let e : ℤ := (Nat.log2 a.num.natAbs : ℤ) - Nat.log2 a.den
    let e := if a < 2 ^ e then e - 1 else e
    let unit : ℚ := 2 ^ max (e - 52) (-1074)
    roundEven (q / unit) * unit

/-- `float(text)` for a decimal: past the largest double and half a unit it is an infinity. -/
def ofDecimal (q : ℚ) : PyFloat :=
  if 2 ^ 1024 - 2 ^ 970 ≤ |q| then .inf (q < 0) else .fin (roundDouble q)

end PyFloat

/-- How `json.loads` fails: a `ValueError` of the decoder, a `RecursionError`, or (in the model only) the
fuel. -/
inductive LoadError | decode | recursion | fuel
  deriving DecidableEq, Repr

namespace JsonLoad

def isSpace (c : Char) : Bool := c == ' ' || c == '\t' || c == '\n' || c == '\r'

def skipWs : List Char → List Char
  | [] => []
  | c :: cs => if isSpace c then skipWs cs else c :: cs

/-- The rest of the text after a literal. -/
def stripLiteral : List Char → List Char → Option (List Char)
  | [], cs => some cs
  | _ :: _, [] => none
  | l :: ls, c :: cs => if l = c then stripLiteral ls cs else none

/-! ### Strings -/

def hexValue (c : Char) : Option ℕ :=
  if '0' ≤ c ∧ c ≤ '9' then some (c.toNat - '0'.toNat)
  else if 'a' ≤ c ∧ c ≤ 'f' then some (c.toNat - 'a'.toNat + 10)
  else if 'A' ≤ c ∧ c ≤ 'F' then some (c.toNat - 'A'.toNat + 10)
  else none

def hex4 (a b c d : Char) : Option ℕ := do
  let a ← hexValue a
  let b ← hexValue b
  let c ← hexValue c
  let d ← hexValue d
  return ((a * 16 + b) * 16 + c) * 16 + d

/-- A code unit as a character.  A surrogate without its partner has no `Char`; it reads as U+0000, the other
character that no database text can hold. -/
def charOfUnit (n : ℕ) : Char := if 0xD800 ≤ n ∧ n ≤ 0xDFFF then Char.ofNat 0 else Char.ofNat n

/-- The character after a backslash. -/
def simpleEscape (c : Char) : Option Char :=
  if c = '"' ∨ c = '\\' ∨ c = '/' then some c
  else if c = 'b' then some (Char.ofNat 8)
  else if c = 'f' then some (Char.ofNat 12)
  else if c = 'n' then some '\n'
  else if c = 'r' then some '\r'
  else if c = 't' then some '\t'
  else none

/-- The rest of a literal after its opening quote: the string, and what follows the closing quote. -/
def scanChars : List Char → Option (List Char × List Char)
  | [] => none
  | '"' :: cs => some ([], cs)
  | '\\' :: 'u' :: a :: b :: c :: d :: '\\' :: 'u' :: e :: f :: g :: h :: cs =>
    match hex4 a b c d, hex4 e f g h with
    | some hi, some lo =>
      if 0xD800 ≤ hi ∧ hi ≤ 0xDBFF ∧ 0xDC00 ≤ lo ∧ lo ≤ 0xDFFF then
        (scanChars cs).map fun r =>
          (Char.ofNat (0x10000 + (hi - 0xD800) * 0x400 + (lo - 0xDC00)) :: r.1, r.2)
      else (scanChars ('\\' :: 'u' :: e :: f :: g :: h :: cs)).map fun r => (charOfUnit hi :: r.1, r.2)
    | _, _ => none
  | '\\' :: 'u' :: a :: b :: c :: d :: cs =>
    match hex4 a b c d with
    | some n => (scanChars cs).map fun r => (charOfUnit n :: r.1, r.2)
    | none => none
  | '\\' :: c :: cs =>
    match simpleEscape c with
    | some x => (scanChars cs).map fun r => (x :: r.1, r.2)
    | none => none
  | c :: cs => if c.toNat < 32 ∨ c = '\\' then none else (scanChars cs).map fun r => (c :: r.1, r.2)

/-! ### Numbers -/

/-- `sys.get_int_max_str_digits()`. -/
def maxIntDigits : ℕ := 4300

def digitsValue (ds : List Char) : ℕ := Nat.ofDigitChars 10 ds 0

/-- The integer part: a single zero, or a run of digits. -/
def scanInt (cs : List Char) : Option (List Char × List Char) :=
  match cs with
  | [] => none
  | c :: rest =>
    if c = '0' then some (['0'], rest)
    else if c.isDigit then some (cs.takeWhile Char.isDigit, cs.dropWhile Char.isDigit)
    else none

/-- The fraction, when a point is followed by a digit. -/
def scanFrac (cs : List Char) : List Char × List Char :=
  match cs with
  | '.' :: rest =>
    if rest.takeWhile Char.isDigit = [] then ([], cs)
    else (rest.takeWhile Char.isDigit, rest.dropWhile Char.isDigit)
  | _ => ([], cs)

/-- The sign and the digits of an exponent. -/
def scanExpSign : List Char → Bool × List Char
  | '-' :: rest => (true, rest)
  | '+' :: rest => (false, rest)
  | rest => (false, rest)

def signed (neg : Bool) (n : ℕ) : ℤ := if neg then -(n : ℤ) else n

def scanExpDigits (neg : Bool) (cs : List Char) : Option (ℤ × List Char) :=
  if cs.takeWhile Char.isDigit = [] then none
  else some (signed neg (digitsValue (cs.takeWhile Char.isDigit)), cs.dropWhile Char.isDigit)

/-- The exponent, when its letter is followed by digits. -/
def scanExp (cs : List Char) : Option ℤ × List Char :=
  match cs with
  | [] => (none, cs)
  | c :: rest =>
    if c = 'e' ∨ c = 'E' then
      match scanExpDigits (scanExpSign rest).1 (scanExpSign rest).2 with
      | some (n, rest) => (some n, rest)
      | none => (none, cs)
    else (none, cs)

/-- `mant × 10 ^ exp`. -/
def decimal (mant : ℕ) (exp : ℤ) : ℚ :=
  if 0 ≤ exp then mant * 10 ^ exp.toNat else mant / 10 ^ (-exp).toNat

/-- The value of a number's parts: an integer, unless it has a fraction or an exponent. -/
def numberValue (neg : Bool) (ints frac : List Char) (exp : Option ℤ) : Except LoadError (Val PyFloat) :=
  if frac = [] ∧ exp = none then
    if maxIntDigits < ints.length then .error .decode
    else .ok (.int (signed neg (digitsValue ints)))
  else
    let q := decimal (digitsValue (ints ++ frac)) (exp.getD 0 - frac.length)
    .ok (.float (.ofDecimal (if neg then -q else q)))

/-- A number without its sign. -/
def scanUnsigned (neg : Bool) (cs : List Char) : Except LoadError (Val PyFloat × List Char) :=
  match scanInt cs with
  | none => .error .decode
  | some (ints, rest) =>
    (numberValue neg ints (scanFrac rest).1 (scanExp (scanFrac rest).2).1).map fun v =>
      (v, (scanExp (scanFrac rest).2).2)

def scanNumber : List Char → Except LoadError (Val PyFloat × List Char)
  | '-' :: cs => scanUnsigned true cs
  | cs => scanUnsigned false cs

/-! ### Values -/

def scanLiteral (lit : String) (v : Val PyFloat) (cs : List Char) :
    Except LoadError (Val PyFloat × List Char) :=
  match stripLiteral lit.toList cs with
  | some rest => .ok (v, rest)
  | none => .error .decode

/-- A value that is not a container. -/
def scanAtom (c : Char) (rest : List Char) : Except LoadError (Val PyFloat × List Char) :=
  if c = '"' then
    match scanChars rest with
    | some (s, rest) => .ok (.str (String.ofList s), rest)
    | none => .error .decode
  else if c = 'n' then scanLiteral "null" .null (c :: rest)
  else if c = 't' then scanLiteral "true" (.bool true) (c :: rest)
  else if c = 'f' then scanLiteral "false" (.bool false) (c :: rest)
  else if c = 'N' then scanLiteral "NaN" (.float .nan) (c :: rest)
  else if c = 'I' then scanLiteral "Infinity" (.float (.inf false)) (c :: rest)
  else if (stripLiteral "-Infinity".toList (c :: rest)).isSome then
    scanLiteral "-Infinity" (.float (.inf true)) (c :: rest)
  else scanNumber (c :: rest)

/-- A dictionary of the entries of an object, in the order they were read. -/
def dictOf (es : List (String × Val PyFloat)) : List (String × Val PyFloat) :=
  es.foldl (fun d e => OrderedDict.setItem d e.1 e.2) []

/-- A key and its colon. -/
def scanKey : List Char → Except LoadError (String × List Char)
  | '"' :: cs =>
    match scanChars cs with
    | none => .error .decode
    | some (k, rest) =>
      match skipWs rest with
      | ':' :: rest => .ok (String.ofList k, skipWs rest)
      | _ => .error .decode
  | _ => .error .decode

-- the second argument is how many more containers may be opened
mutual
def scanValue : ℕ → ℕ → List Char → Except LoadError (Val PyFloat × List Char)
  | 0, _, _ => .error .fuel
  | _ + 1, _, [] => .error .decode
  | f + 1, room, c :: rest =>
    if c = '[' then
      match room with
      | 0 => .error .recursion
      | room + 1 =>
        match skipWs rest with
        | ']' :: rest => .ok (.arr [], rest)
        | cs => (scanItems f room cs).map fun r => (.arr r.1, r.2)
    else if c = '\x7b' then
      match room with
      | 0 => .error .recursion
      | room + 1 =>
        match skipWs rest with
        | '\x7d' :: rest => .ok (.obj [], rest)
        | cs => (scanEntries f room cs).map fun r => (.obj (dictOf r.1), r.2)
    else scanAtom c rest
def scanItems : ℕ → ℕ → List Char → Except LoadError (List (Val PyFloat) × List Char)
  | 0, _, _ => .error .fuel
  | f + 1, room, cs =>
    match scanValue f room cs with
    | .error e => .error e
    | .ok (v, rest) =>
      match skipWs rest with
      | ']' :: rest => .ok ([v], rest)
      | ',' :: rest => (scanItems f room (skipWs rest)).map fun r => (v :: r.1, r.2)
      | _ => .error .decode
def scanEntries : ℕ → ℕ → List Char → Except LoadError (List (String × Val PyFloat) × List Char)
  | 0, _, _ => .error .fuel
  | f + 1, room, cs =>
    match scanKey cs with
    | .error e => .error e
    | .ok (k, cs) =>
      match scanValue f room cs with
      | .error e => .error e
      | .ok (v, rest) =>
        match skipWs rest with
        | '\x7d' :: rest => .ok ([(k, v)], rest)
        | ',' :: rest => (scanEntries f room (skipWs rest)).map fun r => ((k, v) :: r.1, r.2)
        | _ => .error .decode
end

/-- The whole text is one value. -/
def loadsChars (room : ℕ) (cs : List Char) : Except LoadError (Val PyFloat) :=
  match scanValue (2 * (skipWs cs).length + 1) room (skipWs cs) with
  | .error e => .error e
  | .ok (v, rest) => if skipWs rest = [] then .ok v else .error .decode

/-- `json.loads(text)`, with room for `room` nested containers. -/
def loads (room : ℕ) (text : String) : Except LoadError (Val PyFloat) :=
  if text.toList.head? = some (Char.ofNat 0xFEFF) then .error .decode else loadsChars room text.toList

/-! ### The fuel suffices -/

theorem length_skipWs_le : ∀ cs : List Char, (skipWs cs).length ≤ cs.length
  | [] => le_rfl
  | c :: cs => by
    unfold skipWs
    split_ifs
    · exact (length_skipWs_le cs).trans (Nat.le_succ _)
    · exact le_rfl

theorem length_of_stripLiteral : ∀ {ls cs rest : List Char}, stripLiteral ls cs = some rest →
    cs.length = rest.length + ls.length
  | [], cs, rest, h => by
    obtain rfl : cs = rest := by simpa [stripLiteral] using h
    simp
  | l :: ls, [], rest, h => by simp [stripLiteral] at h
  | l :: ls, c :: cs, rest, h => by
    simp only [stripLiteral] at h
    split_ifs at h
    have := length_of_stripLiteral h
    simp only [List.length_cons]
    omega

theorem scanChars_of_map {o : Option (List Char × List Char)} {x : Char} {s rest : List Char}
    (h : (o.map fun r => (x :: r.1, r.2)) = some (s, rest)) : ∃ s', o = some (s', rest) := by
  obtain ⟨⟨s', rest'⟩, ho, heq⟩ := Option.map_eq_some_iff.mp h
  obtain ⟨-, rfl⟩ : _ ∧ rest' = rest := by simpa using heq
  exact ⟨s', ho⟩

theorem length_of_scanChars (cs : List Char) : ∀ {s rest : List Char}, scanChars cs = some (s, rest) →
    rest.length < cs.length := by
  fun_induction scanChars cs with
  | case2 cs =>
    intro s rest h
    obtain ⟨-, rfl⟩ : _ ∧ cs = rest := by simpa using h
    simp
  | case3 a b c d e f g h cs hi lo _ _ _ ih | case4 a b c d e f g h cs hi lo _ _ _ ih
  | case6 a b c d cs _ n _ ih | case8 c cs _ _ x _ ih | case11 c cs _ _ _ _ _ ih =>
    intro s rest heq
    obtain ⟨s', hs⟩ := scanChars_of_map heq
    have := ih hs
    simp only [List.length_cons] at this ⊢
    omega
  | _ =>
    intro s rest h
    cases h

/-- A scan that succeeds leaves a shorter text, and one that fails does so with an error of the reader. -/
def Consumes {α : Type} (cs : List Char) (r : Except LoadError (α × List Char)) : Prop :=
  r ≠ .error .fuel ∧ ∀ v rest, r = .ok (v, rest) → rest.length < cs.length

theorem Consumes.error {α : Type} {cs : List Char} {e : LoadError} (h : e ≠ .fuel) :
    Consumes cs (.error e : Except LoadError (α × List Char)) :=
  ⟨by simpa using h, by simp⟩

theorem Consumes.ok {α : Type} {cs rest : List Char} {v : α} (h : rest.length < cs.length) :
    Consumes cs (.ok (v, rest) : Except LoadError (α × List Char)) := by
  refine ⟨by simp, fun v' rest' heq => ?_⟩
  obtain ⟨-, rfl⟩ : v = v' ∧ rest = rest' := by simpa using heq
  exact h

theorem Consumes.map {α β : Type} {cs : List Char} {r : Except LoadError (α × List Char)} (h : Consumes cs r)
    (g : α → β) : Consumes cs (r.map fun x => (g x.1, x.2)) := by
  rcases r with e | ⟨v, rest⟩
  · exact .error fun he => h.1 (by rw [he])
  · exact .ok (h.2 v rest rfl)

theorem Consumes.mono {α : Type} {cs cs' : List Char} {r : Except LoadError (α × List Char)}
    (h : Consumes cs r)
    (hle : cs.length ≤ cs'.length) : Consumes cs' r :=
  ⟨h.1, fun v rest heq => (h.2 v rest heq).trans_le hle⟩

theorem length_of_scanInt {cs ints rest : List Char} (h : scanInt cs = some (ints, rest)) :
    rest.length < cs.length := by
  unfold scanInt at h
  cases cs with
  | nil => cases h
  | cons c cs =>
    simp only at h
    split_ifs at h with h0 hd
    · obtain ⟨-, rfl⟩ : _ ∧ cs = rest := by simpa using h
      simp
    · obtain ⟨-, rfl⟩ : _ ∧ _ = rest := by simpa using h
      rw [List.dropWhile_cons_of_pos hd]
      exact Nat.lt_succ_of_le (List.dropWhile_sublist _).length_le

theorem length_scanFrac_le (cs : List Char) : (scanFrac cs).2.length ≤ cs.length := by
  unfold scanFrac
  split
  · split_ifs
    · exact le_rfl
    · exact (List.dropWhile_sublist _).length_le.trans (Nat.le_succ _)
  · exact le_rfl

theorem length_scanExpSign_le (cs : List Char) : (scanExpSign cs).2.length ≤ cs.length := by
  unfold scanExpSign
  split
  · exact Nat.le_succ _
  · exact Nat.le_succ _
  · exact le_rfl

theorem length_of_scanExpDigits {neg : Bool} {cs rest : List Char} {n : ℤ}
    (h : scanExpDigits neg cs = some (n, rest)) : rest.length ≤ cs.length := by
  unfold scanExpDigits at h
  split_ifs at h
  obtain ⟨-, rfl⟩ : _ ∧ _ = rest := by simpa using h
  exact (List.dropWhile_sublist _).length_le

theorem length_scanExp_le (cs : List Char) : (scanExp cs).2.length ≤ cs.length := by
  unfold scanExp
  split
  · exact le_rfl
  · rename_i c rest
    split_ifs
    · split
      · rename_i n rest' h
        have h1 := length_of_scanExpDigits h
        have h2 := length_scanExpSign_le rest
        simp only [List.length_cons]
        omega
      · exact le_rfl
    · exact le_rfl

theorem consumes_scanUnsigned (neg : Bool) (cs : List Char) : Consumes cs (scanUnsigned neg cs) := by
  unfold scanUnsigned
  split
  · exact .error (by simp)
  · rename_i ints rest hint
    have h1 := length_of_scanInt hint
    have h2 := length_scanFrac_le rest
    have h3 := length_scanExp_le (scanFrac rest).2
    cases hv : numberValue neg ints (scanFrac rest).1 (scanExp (scanFrac rest).2).1 with
    | error e =>
      refine .error fun he => ?_
      unfold numberValue at hv
      split_ifs at hv
      · rw [he] at hv
        cases hv
    | ok v => exact .ok (by omega)

theorem consumes_scanNumber (cs : List Char) : Consumes cs (scanNumber cs) := by
  unfold scanNumber
  split
  · exact (consumes_scanUnsigned true _).mono (Nat.le_succ _)
  · exact consumes_scanUnsigned false cs

theorem consumes_scanLiteral {lit : String} (hlit : 0 < lit.toList.length) (v : Val PyFloat)
    (cs : List Char) :
    Consumes cs (scanLiteral lit v cs) := by
  unfold scanLiteral
  split
  · rename_i rest h
    have := length_of_stripLiteral h
    exact .ok (by omega)
  · exact .error (by simp)

theorem consumes_scanAtom (c : Char) (rest : List Char) : Consumes (c :: rest) (scanAtom c rest) := by
  unfold scanAtom
  split_ifs
  · split
    · rename_i s rest' h
      exact .ok ((length_of_scanChars _ h).trans (Nat.lt_succ_self _))
    · exact .error (by simp)
  · exact consumes_scanLiteral (by decide) _ _
  · exact consumes_scanLiteral (by decide) _ _
  · exact consumes_scanLiteral (by decide) _ _
  · exact consumes_scanLiteral (by decide) _ _
  · exact consumes_scanLiteral (by decide) _ _
  · exact consumes_scanLiteral (by decide) _ _
  · exact consumes_scanNumber _

theorem consumes_scanKey (cs : List Char) : Consumes cs (scanKey cs) := by
  unfold scanKey
  split
  · split
    · exact .error (by simp)
    · rename_i cs k rest h
      have h1 := length_of_scanChars _ h
      have h2 := length_skipWs_le rest
      split
      · rename_i rest' hs
        have h3 := length_skipWs_le rest'
        rw [hs] at h2
        simp only [List.length_cons] at h2
        refine .ok ?_
        simp only [List.length_cons]
        omega
      · exact .error (by simp)
  · exact .error (by simp)

/-- **The reader consumes its text and its fuel suffices**, by induction on the fuel. -/
theorem consumes_scan (f : ℕ) :
    (∀ room cs, 2 * cs.length + 1 ≤ f → Consumes cs (scanValue f room cs)) ∧
    (∀ room cs, 2 * cs.length + 2 ≤ f → Consumes cs (scanItems f room cs)) ∧
    (∀ room cs, 2 * cs.length + 2 ≤ f → Consumes cs (scanEntries f room cs)) := by
  induction f with
  | zero => exact ⟨fun _ _ h => by omega, fun _ _ h => by omega, fun _ _ h => by omega⟩
  | succ f ih =>
    obtain ⟨ihv, ihi, ihe⟩ := ih
    refine ⟨fun room cs hf => ?_, fun room cs hf => ?_, fun room cs hf => ?_⟩
    · cases cs with
      | nil => exact .error (by simp)
      | cons c rest =>
        have hws := length_skipWs_le rest
        simp only [List.length_cons] at hf
        unfold scanValue
        split_ifs
        · cases room with
          | zero => exact .error (by simp)
          | succ room =>
            simp only
            split
            · rename_i rest' hs
              rw [hs] at hws
              simp only [List.length_cons] at hws
              exact .ok (by simp only [List.length_cons]; omega)
            · exact ((ihi room (skipWs rest) (by omega)).mono (hws.trans (Nat.le_succ _))).map Val.arr
        · cases room with
          | zero => exact .error (by simp)
          | succ room =>
            simp only
            split
            · rename_i rest' hs
              rw [hs] at hws
              simp only [List.length_cons] at hws
              exact .ok (by simp only [List.length_cons]; omega)
            · exact ((ihe room (skipWs rest) (by omega)).mono (hws.trans (Nat.le_succ _))).map
                fun es => Val.obj (dictOf es)
        · exact consumes_scanAtom c rest
    · have hv := ihv room cs (by omega)
      unfold scanItems
      split
      · rename_i e he
        exact .error fun hf => hv.1 (by rw [he, hf])
      · rename_i v rest he
        have h1 := hv.2 v rest he
        have h2 := length_skipWs_le rest
        split
        · rename_i rest' hs
          rw [hs] at h2
          simp only [List.length_cons] at h2
          exact .ok (by omega)
        · rename_i rest' hs
          rw [hs] at h2
          simp only [List.length_cons] at h2
          have h3 := length_skipWs_le rest'
          exact ((ihi room (skipWs rest') (by omega)).mono (by omega)).map fun vs => v :: vs
        · exact .error (by simp)
    · have hk := consumes_scanKey cs
      unfold scanEntries
      split
      · rename_i e he
        exact .error fun hf => hk.1 (by rw [he, hf])
      · rename_i k cs' hkey
        have h0 := hk.2 k cs' hkey
        have hv := ihv room cs' (by omega)
        split
        · rename_i e he
          exact .error fun hf => hv.1 (by rw [he, hf])
        · rename_i v rest he
          have h1 := hv.2 v rest he
          have h2 := length_skipWs_le rest
          split
          · rename_i rest' hs
            rw [hs] at h2
            simp only [List.length_cons] at h2
            exact .ok (by omega)
          · rename_i rest' hs
            rw [hs] at h2
            simp only [List.length_cons] at h2
            have h3 := length_skipWs_le rest'
            exact ((ihe room (skipWs rest') (by omega)).mono (by omega)).map fun es => (k, v) :: es
          · exact .error (by simp)

theorem loadsChars_ne_fuel (room : ℕ) (cs : List Char) : loadsChars room cs ≠ .error .fuel := by
  have h := (consumes_scan (2 * (skipWs cs).length + 1)).1 room (skipWs cs) le_rfl
  unfold loadsChars
  split
  · rename_i e he
    exact fun hf => h.1 (by rw [he, Except.error.inj hf])
  · split_ifs <;> simp

theorem loads_ne_fuel (room : ℕ) (text : String) : loads room text ≠ .error .fuel := by
  unfold loads
  split_ifs
  · simp
  · exact loadsChars_ne_fuel room _

/-! ### Integer literals -/

/-- Only zero is printed with a leading zero. -/
theorem toDigits_zero_head {n : ℕ} {t : List Char} (h : Nat.toDigits 10 n = '0' :: t) : n = 0 := by
  induction n using Nat.strongRecOn generalizing t with
  | _ n ih =>
    by_cases hn : n < 10
    · rw [Nat.toDigits_of_lt_base hn, List.cons.injEq] at h
      interval_cases n
      · rfl
      all_goals exact absurd h.1 (by decide)
    · rw [Nat.toDigits_of_base_le (by decide) (by omega)] at h
      cases hd : Nat.toDigits 10 (n / 10) with
      | nil => exact absurd hd Nat.toDigits_ne_nil
      | cons c t' =>
        rw [hd, List.cons_append, List.cons.injEq] at h
        have := ih (n / 10) (by omega) (hd.trans (by rw [h.1]))
        omega

/-- An integer literal of JSON without a sign: digits, and no leading zero before another digit. -/
def IsNumeral (ds : List Char) : Prop := ds ≠ [] ∧ (∀ c ∈ ds, c.isDigit = true) ∧ ∀ t, ds = '0' :: t → t = []

theorem isNumeral_toDigits (n : ℕ) : IsNumeral (Nat.toDigits 10 n) := by
  refine ⟨Nat.toDigits_ne_nil, fun c hc => isDigit_of_mem_toDigits hc, fun t ht => ?_⟩
  obtain rfl := toDigits_zero_head ht
  simpa using ht.symm

/-- Every numeral is the decimal form of a number. -/
theorem exists_toDigits {ds : List Char} (h : IsNumeral ds) : ∃ n, ds = Nat.toDigits 10 n := by
  induction ds using List.reverseRecOn with
  | nil => exact absurd rfl h.1
  | append_singleton ds c ih =>
    obtain ⟨-, hdig, hzero⟩ := h
    obtain ⟨d, hd, rfl⟩ : ∃ d < 10, c = d.digitChar := by
      have hc : c.isDigit = true := hdig c (by simp)
      rw [Char.isDigit_iff_toNat] at hc
      obtain ⟨hlo, hhi⟩ : 48 ≤ c.toNat ∧ c.toNat ≤ 57 := hc
      refine ⟨c.toNat - 48, by omega, ?_⟩
      have hback : Char.ofNat c.toNat = c := Char.ofNat_toNat c
      rw [← hback]
      generalize c.toNat = k at hlo hhi
      interval_cases k <;> rfl
    by_cases hds : ds = []
    · exact ⟨d, by rw [hds, Nat.toDigits_of_lt_base hd]; rfl⟩
    · have hnum : IsNumeral ds := by
        refine ⟨hds, fun x hx => hdig x (List.mem_append_left _ hx), fun t ht => ?_⟩
        have hlong := hzero (t ++ [d.digitChar]) (by rw [ht]; rfl)
        simp at hlong
      obtain ⟨n, rfl⟩ := ih hnum
      have hpos : 0 < n := by
        rcases Nat.eq_zero_or_pos n with rfl | hpos
        · have hlong := hzero [d.digitChar] rfl
          simp at hlong
        · exact hpos
      refine ⟨10 * n + d, ?_⟩
      rw [← Nat.toDigits_append_toDigits (by decide) hpos hd, Nat.toDigits_of_lt_base hd]

theorem isDigit_of_ends {rest : List Char} (h : Ends rest) : ∀ c ∈ rest.head?, c.isDigit = false := by
  cases rest with
  | nil => simp
  | cons d rest =>
    intro c hc
    obtain rfl : d = c := by simpa using hc
    by_contra hdig
    have hdelim : isDelim d = true := h
    rw [isDelim_of_isDigit (by simpa using hdig)] at hdelim
    cases hdelim

theorem takeWhile_digits {ds rest : List Char} (hds : ∀ c ∈ ds, c.isDigit = true) (h : Ends rest) :
    (ds ++ rest).takeWhile Char.isDigit = ds ∧ (ds ++ rest).dropWhile Char.isDigit = rest := by
  have hrest : rest.takeWhile Char.isDigit = [] ∧ rest.dropWhile Char.isDigit = rest := by
    cases rest with
    | nil => exact ⟨rfl, rfl⟩
    | cons d rest => simp [isDigit_of_ends h d (by simp)]
  rw [List.takeWhile_append_of_pos hds, List.dropWhile_append_of_pos hds, hrest.1, hrest.2]
  simp

/-- The digits of a natural number, up to a delimiter. -/
theorem scanUnsigned_toDigits {n : ℕ} {rest : List Char} (hn : (Nat.toDigits 10 n).length ≤ maxIntDigits)
    (h : Ends rest) (neg : Bool) : scanUnsigned neg (Nat.toDigits 10 n ++ rest) = .ok (.int (signed neg n), rest) := by
  have hint : scanInt (Nat.toDigits 10 n ++ rest) = some (Nat.toDigits 10 n, rest) := by
    cases hd : Nat.toDigits 10 n with
    | nil => exact absurd hd Nat.toDigits_ne_nil
    | cons c t =>
      have hdig : ∀ x ∈ c :: t, x.isDigit = true := fun x hx => isDigit_of_mem_toDigits (hd ▸ hx)
      obtain ⟨htake, hdrop⟩ := takeWhile_digits hdig h
      by_cases hc : c = '0'
      · subst hc
        obtain rfl := toDigits_zero_head hd
        obtain rfl : t = [] := by simpa using hd.symm
        rfl
      · simp only [scanInt, List.cons_append, hc, if_false, hdig c (by simp), if_true]
        rw [← List.cons_append, htake, hdrop]
  have hends : scanFrac rest = ([], rest) ∧ scanExp rest = (none, rest) := by
    cases rest with
    | nil => exact ⟨rfl, rfl⟩
    | cons d rest =>
      have hd : isDelim d = true := h
      have h1 : d ≠ '.' := by rintro rfl; exact absurd hd (by decide)
      have h2 : d ≠ 'e' := by rintro rfl; exact absurd hd (by decide)
      have h3 : d ≠ 'E' := by rintro rfl; exact absurd hd (by decide)
      exact ⟨by simp [scanFrac, h1], by simp [scanExp, h2, h3]⟩
  simp only [scanUnsigned, hint, hends.1, hends.2, numberValue, and_self, if_true, Nat.not_lt.mpr hn, if_false,
    Except.map, digitsValue, Nat.ofDigitChars_ten_toDigits]

theorem scanValue_toDigits {n : ℕ} {rest : List Char} (hn : (Nat.toDigits 10 n).length ≤ maxIntDigits)
    (h : Ends rest) (f room : ℕ) :
    scanValue (f + 1) room (Nat.toDigits 10 n ++ rest) = .ok (.int n, rest) := by
  have hscan := scanUnsigned_toDigits hn h false
  cases hd : Nat.toDigits 10 n with
  | nil => exact absurd hd Nat.toDigits_ne_nil
  | cons c t =>
    have hdig : c.isDigit = true := isDigit_of_mem_toDigits (n := n) (by simp [hd])
    have hne : ∀ x : Char, x.isDigit = false → c ≠ x := fun x hx => isDigit_ne hdig hx
    have hstrip : stripLiteral "-Infinity".toList (c :: (t ++ rest)) = none := by
      simp [stripLiteral, (hne '-' (by decide)).symm]
    rw [hd, List.cons_append] at hscan
    rw [List.cons_append, scanValue.eq_def]
    simp only
    rw [if_neg (hne '[' (by decide)), if_neg (hne '\x7b' (by decide)), scanAtom,
      if_neg (hne '"' (by decide)), if_neg (hne 'n' (by decide)), if_neg (hne 't' (by decide)),
      if_neg (hne 'f' (by decide)), if_neg (hne 'N' (by decide)), if_neg (hne 'I' (by decide)), hstrip]
    simp only [Option.isSome_none, Bool.false_eq_true, if_false]
    unfold scanNumber
    split
    · rename_i cs heq
      exact absurd (List.cons.inj heq).1 (hne '-' (by decide))
    · exact hscan

/-! ### Keys that need no escape -/

/-- Characters that stand for themselves in a literal. -/
def isPlain (c : Char) : Bool := c ≠ '"' && c ≠ '\\' && 32 ≤ c.toNat

theorem scanChars_plain {s : List Char} (h : ∀ c ∈ s, isPlain c = true) (rest : List Char) :
    scanChars (s ++ '"' :: rest) = some (s, rest) := by
  induction s with
  | nil => simp [scanChars]
  | cons c s ih =>
    have hc : c ≠ '"' ∧ c ≠ '\\' ∧ 32 ≤ c.toNat := by simpa [isPlain, and_assoc] using h c (by simp)
    have hctrl : ¬ (c.toNat < 32 ∨ c = '\\') := by
      rintro (hlt | heq)
      · omega
      · exact hc.2.1 heq
    rw [List.cons_append, scanChars, if_neg hctrl, ih fun x hx => h x (by simp [hx])]
    · rfl
    · exact fun heq => absurd heq hc.1
    · intro a b c d e f g h cs heq
      exact absurd heq hc.2.1
    · intro a b c d cs heq
      exact absurd heq hc.2.1
    · intro x cs heq
      exact absurd heq hc.2.1

/-- A key and its colon, before a value that starts without a space. -/
theorem scanKey_plain {k : List Char} (h : ∀ c ∈ k, isPlain c = true) {c : Char} (hc : isSpace c = false)
    (rest : List Char) :
    scanKey ('"' :: (k ++ '"' :: ':' :: c :: rest)) = .ok (String.ofList k, c :: rest) := by
  have hcolon : isSpace ':' = false := by decide
  simp only [scanKey, scanChars_plain h, skipWs, hcolon, hc, Bool.false_eq_true, if_false]

end JsonLoad

end Broker.Lib
