import Broker.Lib.JsonText
import Broker.Lib.Val

/-!
# Broker.Lib.JsonDump — the text `json.dumps` writes

`dump st` prints a document with the separators, the string literals and the float texts of the style `st`;
`dumps` sorts the keys first, as `sort_keys=True` does.  With separators and floats that cannot be mistaken
for one another (`DumpStyle.Lawful`) the text determines the document (`dump_append_inj`), so with sorted keys
it determines it up to the order of keys, and nothing less (`dumps_eq_iff`).
-/

namespace Broker.Lib

open JsonText

/-- Separators, string literals and float texts. -/
structure DumpStyle (φ : Type) where
  item : List Char
  colon : List Char
  quote : List Char → List Char
  repr : φ → List Char

/-- The text of an integer. -/
def intText (n : ℤ) : List Char := if n < 0 then '-' :: Nat.toDigits 10 n.natAbs else Nat.toDigits 10 n.natAbs

namespace Val

variable {φ : Type} (st : DumpStyle φ)

-- an array or object is its opening bracket, its first element and a tail that ends with the bracket
mutual
def dump : Val φ → List Char
  | .null => "null".toList
  | .bool true => "true".toList
  | .bool false => "false".toList
  | .int n => intText n
  | .float x => st.repr x
  | .str s => st.quote s.toList
  | .arr [] => "[]".toList
  | .arr (x :: xs) => '[' :: (dump x ++ dumpItems xs)
  | .obj [] => "\x7b\x7d".toList
  | .obj ((k, x) :: es) => '\x7b' :: (st.quote k.toList ++ (st.colon ++ (dump x ++ dumpEntries es)))
def dumpItems : List (Val φ) → List Char
  | [] => [']']
  | x :: xs => st.item ++ (dump x ++ dumpItems xs)
def dumpEntries : List (String × Val φ) → List Char
  | [] => ['\x7d']
  | (k, x) :: es => st.item ++ (st.quote k.toList ++ (st.colon ++ (dump x ++ dumpEntries es)))
end

/-- `json.dumps(v, sort_keys=True)`. -/
def dumps (v : Val φ) : List Char := dump st (sortKeys v)

end Val

/-! ### Tokens -/

/-- The characters that may follow a value inside a document. -/
def isDelim (c : Char) : Bool := c == ',' || c == ']' || c == '\x7d'

/-- What follows a value: nothing, or a text that starts with a delimiter. -/
def Ends : List Char → Prop
  | [] => True
  | c :: _ => isDelim c = true

/-- A token without delimiters is determined by the text up to the first one. -/
theorem append_ends_inj : ∀ {s t xs ys : List Char}, (∀ c ∈ s, isDelim c = false) →
    (∀ c ∈ t, isDelim c = false) → Ends xs → Ends ys → s ++ xs = t ++ ys → s = t ∧ xs = ys
  | [], [], _, _, _, _, _, _, h => ⟨rfl, h⟩
  | [], d :: t, xs, ys, _, ht, hxs, _, h => by
    obtain rfl : xs = d :: (t ++ ys) := h
    have hd : isDelim d = true := hxs
    rw [ht d (by simp)] at hd
    cases hd
  | c :: s, [], xs, ys, hs, _, _, hys, h => by
    obtain rfl : c :: (s ++ xs) = ys := h
    have hc : isDelim c = true := hys
    rw [hs c (by simp)] at hc
    cases hc
  | c :: s, d :: t, xs, ys, hs, ht, hxs, hys, h => by
    obtain ⟨rfl, h'⟩ := List.cons.inj h
    obtain ⟨hst, rfl⟩ := append_ends_inj (fun e he => hs e (List.mem_cons_of_mem _ he))
      (fun e he => ht e (List.mem_cons_of_mem _ he)) hxs hys h'
    exact ⟨by rw [hst], rfl⟩

theorem isDigit_of_mem_toDigits {n : ℕ} {c : Char} (h : c ∈ Nat.toDigits 10 n) : c.isDigit = true :=
  Nat.isDigit_of_mem_toDigits (by decide) (by decide) h

theorem toDigits_injective {m n : ℕ} (h : Nat.toDigits 10 m = Nat.toDigits 10 n) : m = n := by
  rw [← Nat.ofDigitChars_ten_toDigits (n := m), h, Nat.ofDigitChars_ten_toDigits]

/-- A digit is none of the characters that start or end another kind of token. -/
theorem isDigit_ne {c d : Char} (hc : c.isDigit = true) (hd : d.isDigit = false) : c ≠ d := by
  rintro rfl
  rw [hc] at hd
  cases hd

theorem isDelim_of_isDigit {c : Char} (h : c.isDigit = true) : isDelim c = false := by
  have h1 : c ≠ ',' := isDigit_ne h (by decide)
  have h2 : c ≠ ']' := isDigit_ne h (by decide)
  have h3 : c ≠ '\x7d' := isDigit_ne h (by decide)
  simp [isDelim, h1, h2, h3]

/-- What holds of the minus and of the digits holds of a number's text. -/
theorem of_mem_intText {p : Char → Prop} (hminus : p '-') (hdigit : ∀ {c : Char}, c.isDigit = true → p c) {n : ℤ}
    {c : Char} (h : c ∈ intText n) : p c := by
  unfold intText at h
  split_ifs at h
  · rcases List.mem_cons.mp h with rfl | h
    · exact hminus
    · exact hdigit (isDigit_of_mem_toDigits h)
  · exact hdigit (isDigit_of_mem_toDigits h)

theorem isDelim_of_mem_intText {n : ℤ} {c : Char} (h : c ∈ intText n) : isDelim c = false :=
  of_mem_intText (p := fun c => isDelim c = false) (by decide) isDelim_of_isDigit h

theorem toDigits_ne_minus (n : ℕ) (t : List Char) : Nat.toDigits 10 n ≠ '-' :: t := by
  intro h
  have hc : ('-').isDigit = true := isDigit_of_mem_toDigits (n := n) (by simp [h])
  exact absurd hc (by decide)

theorem intText_injective {m n : ℤ} (h : intText m = intText n) : m = n := by
  unfold intText at h
  split_ifs at h with hm hn hn
  · have := toDigits_injective (List.cons.inj h).2
    omega
  · exact absurd h.symm (toDigits_ne_minus _ _)
  · exact absurd h (toDigits_ne_minus _ _)
  · have := toDigits_injective h
    omega

/-! ### The kind of a value, by its first character -/

namespace Val

variable {φ : Type} {st : DumpStyle φ}

/-- The kind of the value a text starts with; numbers are whatever is nothing else. -/
def kindOfChar (c : Char) : ℕ :=
  if c = 'n' then 0 else if c = 't' then 1 else if c = 'f' then 2 else if c = '"' then 3
  else if c = '[' then 4 else if c = '\x7b' then 5 else if isDelim c then 7 else 6

/-- The kind of a value. -/
def kind : Val φ → ℕ
  | .null => 0
  | .bool true => 1
  | .bool false => 2
  | .str _ => 3
  | .arr _ => 4
  | .obj _ => 5
  | .int _ | .float _ => 6

end Val

/-- What makes a style readable: a comma separates items, a literal is a quoted text that ends where its
string does, and a float's text is a number no other float and no integer has. -/
structure DumpStyle.Lawful {φ : Type} (st : DumpStyle φ) : Prop where
  item : ∃ t, st.item = ',' :: t
  quote_head : ∀ s, ∃ t, st.quote s = '"' :: t
  quote_inj : ∀ {s t xs ys : List Char}, st.quote s ++ xs = st.quote t ++ ys → s = t ∧ xs = ys
  repr_head : ∀ x, ∃ c t, st.repr x = c :: t ∧ Val.kindOfChar c = 6
  repr_delim : ∀ x, ∀ c ∈ st.repr x, isDelim c = false
  repr_inj : ∀ {x y}, st.repr x = st.repr y → x = y
  repr_int : ∀ x n, st.repr x ≠ intText n

/-- What `float.__repr__` is documented to do: its text is a number that reads back as the same float, and
it is never an integer's. -/
structure FloatText (φ : Type) where
  repr : φ → List Char
  head : ∀ x, ∃ c t, repr x = c :: t ∧ Val.kindOfChar c = 6
  delim : ∀ x, ∀ c ∈ repr x, isDelim c = false
  inj : ∀ {x y}, repr x = repr y → x = y
  int : ∀ x n, repr x ≠ intText n

/-- `json.dumps(.., ensure_ascii=False)` with the default separators. -/
def plainStyle {φ : Type} (F : FloatText φ) : DumpStyle φ where
  item := [',', ' ']
  colon := [':', ' ']
  quote := quote
  repr := F.repr

theorem plainStyle_lawful {φ : Type} (F : FloatText φ) : (plainStyle F).Lawful where
  item := ⟨_, rfl⟩
  quote_head := fun _ => ⟨_, rfl⟩
  quote_inj := quote_append_inj
  repr_head := F.head
  repr_delim := F.delim
  repr_inj := F.inj
  repr_int := F.int

namespace Val

variable {φ : Type} {st : DumpStyle φ}

theorem kindOfChar_of_isDigit {c : Char} (h : c.isDigit = true) : kindOfChar c = 6 := by
  have h0 : c ≠ 'n' := isDigit_ne h (by decide)
  have h1 : c ≠ 't' := isDigit_ne h (by decide)
  have h2 : c ≠ 'f' := isDigit_ne h (by decide)
  have h3 : c ≠ '"' := isDigit_ne h (by decide)
  have h4 : c ≠ '[' := isDigit_ne h (by decide)
  have h5 : c ≠ '\x7b' := isDigit_ne h (by decide)
  simp [kindOfChar, h0, h1, h2, h3, h4, h5, isDelim_of_isDigit h]

theorem intText_head (n : ℤ) : ∃ c t, intText n = c :: t ∧ kindOfChar c = 6 := by
  unfold intText
  split_ifs
  · exact ⟨'-', _, rfl, by decide⟩
  · cases h : Nat.toDigits 10 n.natAbs with
    | nil => exact absurd h Nat.toDigits_ne_nil
    | cons c t => exact ⟨c, t, rfl, kindOfChar_of_isDigit (isDigit_of_mem_toDigits (h ▸ List.mem_cons_self))⟩

theorem dump_head (hst : st.Lawful) (v : Val φ) : ∃ c t, dump st v = c :: t ∧ kindOfChar c = kind v := by
  cases v with
  | null => exact ⟨'n', ['u', 'l', 'l'], by simp [dump], rfl⟩
  | bool b =>
    cases b with
    | true => exact ⟨'t', ['r', 'u', 'e'], by simp [dump], rfl⟩
    | false => exact ⟨'f', ['a', 'l', 's', 'e'], by simp [dump], rfl⟩
  | int n => simpa [dump, kind] using intText_head n
  | float x => simpa [dump, kind] using hst.repr_head x
  | str s =>
    obtain ⟨t, ht⟩ := hst.quote_head s.toList
    exact ⟨'"', t, by simp [dump, ht], rfl⟩
  | arr xs =>
    cases xs with
    | nil => exact ⟨'[', [']'], by simp [dump], rfl⟩
    | cons x xs => exact ⟨'[', dump st x ++ dumpItems st xs, by simp [dump], rfl⟩
  | obj es =>
    rcases es with _ | ⟨⟨k, x⟩, es⟩
    · exact ⟨'\x7b', ['\x7d'], by simp [dump], rfl⟩
    · exact ⟨'\x7b', st.quote k.toList ++ (st.colon ++ (dump st x ++ dumpEntries st es)), by simp [dump], rfl⟩

/-- Texts that start alike are of values of one kind. -/
theorem kind_eq (hst : st.Lawful) {v w : Val φ} {xs ys : List Char}
    (h : dump st v ++ xs = dump st w ++ ys) : kind v = kind w := by
  obtain ⟨c, t, hv, hc⟩ := dump_head hst v
  obtain ⟨d, u, hw, hd⟩ := dump_head hst w
  rw [hv, hw, List.cons_append, List.cons_append] at h
  rw [← hc, ← hd, (List.cons.inj h).1]

/-- No value starts with a delimiter. -/
theorem dump_ne_delim (hst : st.Lawful) (v : Val φ) {xs ys : List Char} {c : Char} (hc : isDelim c = true) :
    dump st v ++ xs ≠ c :: ys := by
  intro h
  obtain ⟨d, t, hv, hd⟩ := dump_head hst v
  rw [hv, List.cons_append] at h
  obtain ⟨rfl, -⟩ := List.cons.inj h
  have hk : kindOfChar d = 7 := by
    have h0 : d ≠ 'n' ∧ d ≠ 't' ∧ d ≠ 'f' ∧ d ≠ '"' ∧ d ≠ '[' ∧ d ≠ '\x7b' := by
      refine ⟨?_, ?_, ?_, ?_, ?_, ?_⟩ <;> (rintro rfl; revert hc; decide)
    simp [kindOfChar, h0, hc]
  rw [hk] at hd
  cases v with
  | bool b => cases b <;> cases hd
  | _ => cases hd

theorem ends_dumpItems (hst : st.Lawful) (zs : List (Val φ)) (xs : List Char) :
    Ends (dumpItems st zs ++ xs) := by
  obtain ⟨t, ht⟩ := hst.item
  cases zs <;> simp [dumpItems, ht, Ends, isDelim]

theorem ends_dumpEntries (hst : st.Lawful) (es : List (String × Val φ)) (xs : List Char) :
    Ends (dumpEntries st es ++ xs) := by
  obtain ⟨t, ht⟩ := hst.item
  rcases es with _ | ⟨⟨k, x⟩, es⟩ <;> simp [dumpEntries, ht, Ends, isDelim]

/-! ### The text determines the document -/

mutual
theorem dump_append_inj (hst : st.Lawful) : ∀ (v w : Val φ) {xs ys : List Char}, Ends xs → Ends ys →
    dump st v ++ xs = dump st w ++ ys → v = w ∧ xs = ys
  | .null, w, xs, ys, _, _, h => by
    have hk := kind_eq hst h
    cases w with
    | null => exact ⟨rfl, List.append_cancel_left h⟩
    | bool b => cases b <;> cases hk
    | _ => cases hk
  | .bool true, w, xs, ys, _, _, h | .bool false, w, xs, ys, _, _, h => by
    have hk := kind_eq hst h
    cases w with
    | bool b =>
      cases b with
      | true => first | exact ⟨rfl, List.append_cancel_left h⟩ | cases hk
      | false => first | exact ⟨rfl, List.append_cancel_left h⟩ | cases hk
    | _ => cases hk
  | .int m, w, xs, ys, hxs, hys, h => by
    have hk := kind_eq hst h
    cases w with
    | int n =>
      obtain ⟨hmn, rfl⟩ := append_ends_inj (fun _ => isDelim_of_mem_intText) (fun _ => isDelim_of_mem_intText)
        hxs hys (by simpa [dump] using h)
      exact ⟨by rw [intText_injective hmn], rfl⟩
    | float y =>
      obtain ⟨hmn, -⟩ := append_ends_inj (fun _ => isDelim_of_mem_intText) (hst.repr_delim y) hxs hys
        (by simpa [dump] using h)
      exact absurd hmn.symm (hst.repr_int y m)
    | bool b => cases b <;> cases hk
    | _ => cases hk
  | .float x, w, xs, ys, hxs, hys, h => by
    have hk := kind_eq hst h
    cases w with
    | int n =>
      obtain ⟨hmn, -⟩ := append_ends_inj (hst.repr_delim x) (fun _ => isDelim_of_mem_intText) hxs hys
        (by simpa [dump] using h)
      exact absurd hmn (hst.repr_int x n)
    | float y =>
      obtain ⟨hxy, rfl⟩ := append_ends_inj (hst.repr_delim x) (hst.repr_delim y) hxs hys
        (by simpa [dump] using h)
      exact ⟨by rw [hst.repr_inj hxy], rfl⟩
    | bool b => cases b <;> cases hk
    | _ => cases hk
  | .str s, w, xs, ys, _, _, h => by
    have hk := kind_eq hst h
    cases w with
    | str t =>
      obtain ⟨hst', rfl⟩ := hst.quote_inj (by simpa [dump] using h)
      exact ⟨by rw [String.toList_inj.mp hst'], rfl⟩
    | bool b => cases b <;> cases hk
    | _ => cases hk
  | .arr [], w, xs, ys, _, _, h => by
    have hk := kind_eq hst h
    cases w with
    | arr zs =>
      cases zs with
      | nil => exact ⟨rfl, List.append_cancel_left h⟩
      | cons z zs =>
        simp only [dump, String.toList, List.cons_append, List.append_assoc] at h
        exact absurd (List.cons.inj h).2.symm (dump_ne_delim hst z rfl)
    | bool b => cases b <;> cases hk
    | _ => cases hk
  | .arr (x :: vs), w, xs, ys, hxs, hys, h => by
    have hk := kind_eq hst h
    cases w with
    | arr zs =>
      cases zs with
      | nil =>
        simp only [dump, String.toList, List.cons_append, List.append_assoc] at h
        exact absurd (List.cons.inj h).2 (dump_ne_delim hst x rfl)
      | cons z zs =>
        simp only [dump, List.cons_append, List.append_assoc] at h
        obtain ⟨rfl, h'⟩ := dump_append_inj hst x z (ends_dumpItems hst _ _) (ends_dumpItems hst _ _)
          (List.cons.inj h).2
        obtain ⟨rfl, rfl⟩ := dumpItems_append_inj hst vs zs hxs hys h'
        exact ⟨rfl, rfl⟩
    | bool b => cases b <;> cases hk
    | _ => cases hk
  | .obj [], w, xs, ys, _, _, h => by
    have hk := kind_eq hst h
    cases w with
    | obj fs =>
      rcases fs with _ | ⟨⟨l, z⟩, fs⟩
      · exact ⟨rfl, List.append_cancel_left h⟩
      · obtain ⟨t, ht⟩ := hst.quote_head l.toList
        simp [dump, ht] at h
    | bool b => cases b <;> cases hk
    | _ => cases hk
  | .obj ((k, x) :: es), w, xs, ys, hxs, hys, h => by
    have hk := kind_eq hst h
    cases w with
    | obj fs =>
      rcases fs with _ | ⟨⟨l, z⟩, fs⟩
      · obtain ⟨t, ht⟩ := hst.quote_head k.toList
        simp [dump, ht] at h
      · simp only [dump, List.cons_append, List.append_assoc] at h
        obtain ⟨hkl, h'⟩ := hst.quote_inj (List.cons.inj h).2
        obtain rfl := String.toList_inj.mp hkl
        obtain ⟨rfl, h''⟩ := dump_append_inj hst x z (ends_dumpEntries hst _ _) (ends_dumpEntries hst _ _)
          (List.append_cancel_left h')
        obtain ⟨rfl, rfl⟩ := dumpEntries_append_inj hst es fs hxs hys h''
        exact ⟨rfl, rfl⟩
    | bool b => cases b <;> cases hk
    | _ => cases hk
theorem dumpItems_append_inj (hst : st.Lawful) : ∀ (vs ws : List (Val φ)) {xs ys : List Char},
    Ends xs → Ends ys → dumpItems st vs ++ xs = dumpItems st ws ++ ys → vs = ws ∧ xs = ys
  | [], [], xs, ys, _, _, h => ⟨rfl, List.append_cancel_left h⟩
  | [], w :: ws, xs, ys, _, _, h => by
    obtain ⟨t, ht⟩ := hst.item
    simp [dumpItems, ht] at h
  | v :: vs, [], xs, ys, _, _, h => by
    obtain ⟨t, ht⟩ := hst.item
    simp [dumpItems, ht] at h
  | v :: vs, w :: ws, xs, ys, hxs, hys, h => by
    simp only [dumpItems, List.append_assoc] at h
    obtain ⟨rfl, h'⟩ := dump_append_inj hst v w (ends_dumpItems hst _ _) (ends_dumpItems hst _ _)
      (List.append_cancel_left h)
    obtain ⟨rfl, rfl⟩ := dumpItems_append_inj hst vs ws hxs hys h'
    exact ⟨rfl, rfl⟩
theorem dumpEntries_append_inj (hst : st.Lawful) : ∀ (es fs : List (String × Val φ)) {xs ys : List Char},
    Ends xs → Ends ys → dumpEntries st es ++ xs = dumpEntries st fs ++ ys → es = fs ∧ xs = ys
  | [], [], xs, ys, _, _, h => ⟨rfl, List.append_cancel_left h⟩
  | [], (l, z) :: fs, xs, ys, _, _, h => by
    obtain ⟨t, ht⟩ := hst.item
    simp [dumpEntries, ht] at h
  | (k, x) :: es, [], xs, ys, _, _, h => by
    obtain ⟨t, ht⟩ := hst.item
    simp [dumpEntries, ht] at h
  | (k, x) :: es, (l, z) :: fs, xs, ys, hxs, hys, h => by
    simp only [dumpEntries, List.append_assoc] at h
    obtain ⟨hkl, h'⟩ := hst.quote_inj (List.append_cancel_left h)
    obtain rfl := String.toList_inj.mp hkl
    obtain ⟨rfl, h''⟩ := dump_append_inj hst x z (ends_dumpEntries hst _ _) (ends_dumpEntries hst _ _)
      (List.append_cancel_left h')
    obtain ⟨rfl, rfl⟩ := dumpEntries_append_inj hst es fs hxs hys h''
    exact ⟨rfl, rfl⟩
end

/-- Documents with one sorted text are the same. -/
theorem same_of_dumps_eq (hst : st.Lawful) {v w : Val φ} (h : dumps st v = dumps st w) : Same v w := by
  have hend : Ends [] := trivial
  have h' : dump st (sortKeys v) ++ [] = dump st (sortKeys w) ++ [] := by simpa [dumps] using h
  exact same_of_sortKeys_eq v w (dump_append_inj hst _ _ hend hend h').1

/-- **The sorted text is a canonical form**: two dictionaries have the same one exactly when they agree up
to the order of their keys. -/
theorem dumps_eq_iff (hst : st.Lawful) {v w : Val φ} (hv : Dict v) : dumps st v = dumps st w ↔ Same v w := by
  refine ⟨same_of_dumps_eq hst, fun h => ?_⟩
  simp only [dumps, (sortKeys_eq_iff hv).mpr h]

end Val

end Broker.Lib
