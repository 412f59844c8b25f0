import Mathlib.Data.List.Basic
import Mathlib.Tactic.Common

/-!
# Broker.Lib.JsonText — the text of a JSON string

`quote` writes a string literal the way `json.dumps(.., ensure_ascii=False)` does: the quote, the
backslash and the control characters are escaped, every other character stands for itself.  The
encoding is prefix free character by character, so a literal determines its string and what follows it
(`quote_append_inj`).
-/

namespace Broker.Lib.JsonText

/-- A lower-case hexadecimal digit. -/
def hexDigit (n : ℕ) : Char := "0123456789abcdef".toList.getD n '0'

/-- The text of one character inside a literal. -/
def escape (c : Char) : List Char :=
  if c = '"' then ['\\', '"']
  else if c = '\\' then ['\\', '\\']
  else if c = '\n' then ['\\', 'n']
  else if c = '\r' then ['\\', 'r']
  else if c = '\t' then ['\\', 't']
  else if c.toNat = 12 then ['\\', 'f']
  else if c.toNat = 8 then ['\\', 'b']
  else if c.toNat < 32 then ['\\', 'u', '0', '0', hexDigit (c.toNat / 16), hexDigit (c.toNat % 16)]
  else [c]

/-- The literal of a string. -/
def quote (s : List Char) : List Char := '"' :: (s.flatMap escape ++ ['"'])

/-- A code unit as an escape. -/
def unitEscape (n : ℕ) : List Char :=
  ['\\', 'u', hexDigit (n / 4096), hexDigit (n / 256 % 16), hexDigit (n / 16 % 16), hexDigit (n % 16)]

/-- The text of one character under `ensure_ascii=True`: past the printable ASCII it is one code unit, or
two. -/
def escapeAscii (c : Char) : List Char :=
  if c.toNat < 127 then escape c
  else if c.toNat < 0x10000 then unitEscape c.toNat
  else unitEscape (0xD800 + (c.toNat - 0x10000) / 0x400) ++ unitEscape (0xDC00 + (c.toNat - 0x10000) % 0x400)

/-- The literal of a string under `ensure_ascii=True`. -/
def asciiQuote (s : List Char) : List Char := '"' :: (s.flatMap escapeAscii ++ ['"'])

/-! ### Reading back -/

def hexVal (c : Char) : ℕ := "0123456789abcdef".toList.idxOf c

/-- What follows a backslash. -/
def readEscape : List Char → Option (Char × List Char)
  | '"' :: xs => some ('"', xs)
  | '\\' :: xs => some ('\\', xs)
  | 'n' :: xs => some ('\n', xs)
  | 'r' :: xs => some ('\r', xs)
  | 't' :: xs => some ('\t', xs)
  | 'f' :: xs => some (Char.ofNat 12, xs)
  | 'b' :: xs => some (Char.ofNat 8, xs)
  | 'u' :: _ :: _ :: a :: b :: xs => some (Char.ofNat (16 * hexVal a + hexVal b), xs)
  | _ => none

/-- The first character of a literal's text, and the rest. -/
def readChar : List Char → Option (Char × List Char)
  | [] => none
  | c :: xs => if c = '\\' then readEscape xs else some (c, xs)

theorem hexVal_hexDigit : ∀ n < 16, hexVal (hexDigit n) = n := by decide

theorem readChar_escape (c : Char) (xs : List Char) : readChar (escape c ++ xs) = some (c, xs) := by
  have hof : Char.ofNat c.toNat = c := Char.ofNat_toNat c
  unfold escape
  split_ifs with h1 h2 h3 h4 h5 h6 h7 h8
  · subst h1; rfl
  · subst h2; rfl
  · subst h3; rfl
  · subst h4; rfl
  · subst h5; rfl
  · rw [← hof, h6]; rfl
  · rw [← hof, h7]; rfl
  · have hd : hexVal (hexDigit (c.toNat / 16)) = c.toNat / 16 := hexVal_hexDigit _ (by omega)
    have hm : hexVal (hexDigit (c.toNat % 16)) = c.toNat % 16 := hexVal_hexDigit _ (by omega)
    have hval : 16 * (c.toNat / 16) + c.toNat % 16 = c.toNat := Nat.div_add_mod _ _
    simp only [List.cons_append, List.nil_append, readChar, if_true, readEscape, hd, hm, hval, hof]
  · simp [readChar, h2]

theorem escape_inj {c d : Char} {xs ys : List Char} (h : escape c ++ xs = escape d ++ ys) :
    c = d ∧ xs = ys := by
  have hc := readChar_escape c xs
  rw [h, readChar_escape d ys] at hc
  obtain ⟨rfl, rfl⟩ := by simpa using hc
  exact ⟨rfl, rfl⟩

/-- The text of a character never starts with the closing quote. -/
theorem escape_ne_quote (c : Char) (xs ys : List Char) : escape c ++ xs ≠ '"' :: ys := by
  intro h
  have hc := readChar_escape c xs
  rw [h] at hc
  obtain ⟨rfl, rfl⟩ : '"' = c ∧ ys = xs := by simpa [readChar] using hc
  exact absurd h (by simp [escape])

/-- A text without a closing quote between its characters is read back character by character. -/
theorem body_append_inj {esc : Char → List Char}
    (hinj : ∀ {c d : Char} {xs ys : List Char}, esc c ++ xs = esc d ++ ys → c = d ∧ xs = ys)
    (hquote : ∀ (c : Char) (xs ys : List Char), esc c ++ xs ≠ '"' :: ys) : ∀ (s t : List Char) {xs ys : List Char},
    s.flatMap esc ++ '"' :: xs = t.flatMap esc ++ '"' :: ys → s = t ∧ xs = ys
  | [], [], _, _, h => by simpa using h
  | [], d :: t, xs, ys, h => by
    simp only [List.flatMap_nil, List.nil_append, List.flatMap_cons, List.append_assoc] at h
    exact absurd h.symm (hquote _ _ _)
  | c :: s, [], xs, ys, h => by
    simp only [List.flatMap_nil, List.nil_append, List.flatMap_cons, List.append_assoc] at h
    exact absurd h (hquote _ _ _)
  | c :: s, d :: t, xs, ys, h => by
    simp only [List.flatMap_cons, List.append_assoc] at h
    obtain ⟨rfl, h'⟩ := hinj h
    obtain ⟨rfl, rfl⟩ := body_append_inj hinj hquote s t h'
    exact ⟨rfl, rfl⟩

/-- A literal determines its string and what follows it. -/
theorem quote_append_inj {s t xs ys : List Char} (h : quote s ++ xs = quote t ++ ys) : s = t ∧ xs = ys := by
  simp only [quote, List.cons_append, List.append_assoc, List.nil_append, List.cons.injEq, true_and] at h
  exact body_append_inj escape_inj escape_ne_quote s t h

/-! ### Reading ASCII back -/

/-- The code unit of four digits. -/
def unitValue (a b c d : Char) : ℕ := 4096 * hexVal a + 256 * hexVal b + 16 * hexVal c + hexVal d

/-- The first character of an ASCII literal's text, and the rest; a high surrogate takes the next unit too. -/
def readAscii : List Char → Option (Char × List Char)
  | '\\' :: 'u' :: a :: b :: c :: d :: xs =>
    let n := unitValue a b c d
    if 0xD800 ≤ n ∧ n < 0xDC00 then
      match xs with
      | '\\' :: 'u' :: e :: f :: g :: h :: ys =>
        some (Char.ofNat (0x10000 + (n - 0xD800) * 0x400 + (unitValue e f g h - 0xDC00)), ys)
      | _ => none
    else some (Char.ofNat n, xs)
  | xs => readChar xs

theorem unitValue_hexDigits {n : ℕ} (h : n < 0x10000) :
    unitValue (hexDigit (n / 4096)) (hexDigit (n / 256 % 16)) (hexDigit (n / 16 % 16)) (hexDigit (n % 16)) = n := by
  have h1 := hexVal_hexDigit (n / 4096) (by omega)
  have h2 := hexVal_hexDigit (n / 256 % 16) (by omega)
  have h3 := hexVal_hexDigit (n / 16 % 16) (by omega)
  have h4 := hexVal_hexDigit (n % 16) (by omega)
  rw [unitValue, h1, h2, h3, h4]
  omega

theorem readAscii_unit {n : ℕ} (h : n < 0xD800 ∨ 0xDC00 ≤ n) (hn : n < 0x10000) (xs : List Char) :
    readAscii (unitEscape n ++ xs) = some (Char.ofNat n, xs) := by
  have hnot : ¬(0xD800 ≤ n ∧ n < 0xDC00) := by omega
  simp only [unitEscape, List.cons_append, List.nil_append, readAscii, unitValue_hexDigits hn]
  rw [if_neg hnot]

theorem readAscii_pair {n m : ℕ} (h : 0xD800 ≤ n) (hn : n < 0xDC00) (hm : m < 0x10000) (xs : List Char) :
    readAscii (unitEscape n ++ (unitEscape m ++ xs)) =
      some (Char.ofNat (0x10000 + (n - 0xD800) * 0x400 + (m - 0xDC00)), xs) := by
  have hhigh : unitValue (hexDigit (n / 4096)) (hexDigit (n / 256 % 16)) (hexDigit (n / 16 % 16))
      (hexDigit (n % 16)) = n := unitValue_hexDigits (by omega)
  simp only [unitEscape, List.cons_append, List.nil_append, readAscii, hhigh, unitValue_hexDigits hm]
  rw [if_pos ⟨h, hn⟩]

/-- Below the surrogates the units of an escape are characters of their own. -/
theorem readAscii_escape {c : Char} (hc : c.toNat < 127) (xs : List Char) :
    readAscii (escape c ++ xs) = some (c, xs) := by
  by_cases hctl : c.toNat < 32 ∧ c ≠ '\n' ∧ c ≠ '\r' ∧ c ≠ '\t' ∧ c.toNat ≠ 12 ∧ c.toNat ≠ 8
  · obtain ⟨h32, hn, hr, ht, h12, h8⟩ := hctl
    have hq : c ≠ '"' := by rintro rfl; exact absurd h32 (by decide)
    have hb : c ≠ '\\' := by rintro rfl; exact absurd h32 (by decide)
    have hesc : escape c = unitEscape c.toNat := by
      have hzero : c.toNat / 4096 = 0 ∧ c.toNat / 256 % 16 = 0 ∧ c.toNat / 16 % 16 = c.toNat / 16 := by omega
      simp only [escape, unitEscape, if_neg hq, if_neg hb, if_neg hn, if_neg hr, if_neg ht, if_neg h12,
        if_neg h8, if_pos h32, hzero]
      rfl
    rw [hesc, readAscii_unit (by omega) (by omega), Char.ofNat_toNat]
  · have hplain : readAscii (escape c ++ xs) = readChar (escape c ++ xs) := by
      unfold escape
      split_ifs with h1 h2 h3 h4 h5 h6 h7 h8
      all_goals first | rfl | skip
      · exact absurd ⟨h8, h3, h4, h5, h6, h7⟩ hctl
      · rw [List.singleton_append]
        unfold readAscii
        split
        · rename_i heq
          exact absurd (List.cons.inj heq).1 h2
        · rfl
    rw [hplain, readChar_escape]

theorem readAscii_escapeAscii (c : Char) (xs : List Char) : readAscii (escapeAscii c ++ xs) = some (c, xs) := by
  have hvalid : c.toNat < 0xD800 ∨ 0xDFFF < c.toNat ∧ c.toNat < 0x110000 := c.valid
  unfold escapeAscii
  split_ifs with h1 h2
  · exact readAscii_escape h1 xs
  · rw [readAscii_unit (by omega) h2, Char.ofNat_toNat]
  · rw [List.append_assoc, readAscii_pair (by omega) (by omega) (by omega)]
    have hval : 0x10000 + (0xD800 + (c.toNat - 0x10000) / 0x400 - 0xD800) * 0x400 +
        (0xDC00 + (c.toNat - 0x10000) % 0x400 - 0xDC00) = c.toNat := by omega
    rw [hval, Char.ofNat_toNat]

theorem escapeAscii_inj {c d : Char} {xs ys : List Char} (h : escapeAscii c ++ xs = escapeAscii d ++ ys) :
    c = d ∧ xs = ys := by
  have hc := readAscii_escapeAscii c xs
  rw [h, readAscii_escapeAscii d ys] at hc
  obtain ⟨rfl, rfl⟩ := by simpa using hc
  exact ⟨rfl, rfl⟩

theorem escapeAscii_ne_quote (c : Char) (xs ys : List Char) : escapeAscii c ++ xs ≠ '"' :: ys := by
  intro h
  have hc := readAscii_escapeAscii c xs
  rw [h] at hc
  obtain ⟨rfl, rfl⟩ : '"' = c ∧ ys = xs := by simpa [readAscii, readChar] using hc
  exact absurd h (by simp [escapeAscii, escape])

/-- An ASCII literal determines its string and what follows it. -/
theorem asciiQuote_append_inj {s t xs ys : List Char} (h : asciiQuote s ++ xs = asciiQuote t ++ ys) :
    s = t ∧ xs = ys := by
  simp only [asciiQuote, List.cons_append, List.append_assoc, List.nil_append, List.cons.injEq, true_and] at h
  exact body_append_inj escapeAscii_inj escapeAscii_ne_quote s t h

/-! ### Literals

An equation between literals is cheap once both sides are `String.ofList` of characters. -/

/-- A joined text, from the characters of its pieces. -/
theorem append_eq_ofList {s t : String} {l m : List Char} (hs : s = String.ofList l) (ht : t = String.ofList m) :
    s ++ t = String.ofList (l ++ m) := by
  rw [hs, ht, String.ofList_append]

theorem ofList_eq {s : String} {l m : List Char} (hs : s = String.ofList m) (h : l = m) : String.ofList l = s := by
  rw [hs, h]

end Broker.Lib.JsonText
