import Broker.Lib.JsonDump

/-!
# Broker.Lib.PyText — the texts of Python's values

`repr` and `str` of a decoded document; the float texts and the table of printable characters are
parameters.  Of a text that joins segments, a slice shows the first segments and a non-empty piece of the
next, or stops behind a separator (`take_intercalate`); a non-empty piece of an index is an index
(`toDigits_of_prefix`).
-/

namespace Broker.Lib

/-- What the texts take from the runtime. -/
structure PyText (φ : Type) where
  /-- `float.__repr__`. -/
  floatRepr : φ → List Char
  /-- `str.isprintable` of one character past the ASCII. -/
  printable : Char → Bool

namespace PyText

variable {φ : Type} (py : PyText φ)

/-- `'`. -/
def singleQuote : Char := Char.ofNat 39

/-- `\xNN`. -/
def hexEscape (n : ℕ) : List Char := ['\\', 'x', JsonText.hexDigit (n / 16), JsonText.hexDigit (n % 16)]

/-- `\UNNNNNNNN`. -/
def longEscape (n : ℕ) : List Char :=
  ['\\', 'U', '0', '0'] ++ ([0x100000, 0x10000, 0x1000, 0x100, 0x10, 1].map fun d =>
    JsonText.hexDigit (n / d % 16))

/-- One character of `repr(s)`. -/
def reprChar (quote c : Char) : List Char :=
  if c = quote ∨ c = '\\' then ['\\', c]
  else if c = '\t' then ['\\', 't']
  else if c = '\n' then ['\\', 'n']
  else if c = '\r' then ['\\', 'r']
  else if c.toNat < 32 ∨ c.toNat = 127 then hexEscape c.toNat
  else if c.toNat < 127 ∨ py.printable c then [c]
  else if c.toNat < 0x100 then hexEscape c.toNat
  else if c.toNat < 0x10000 then JsonText.unitEscape c.toNat
  else longEscape c.toNat

/-- `repr(s)`: double quotes only around a text that holds single ones and no double one. -/
def reprStr (s : List Char) : List Char :=
  let quote := if singleQuote ∈ s ∧ '"' ∉ s then '"' else singleQuote
  quote :: (s.flatMap (py.reprChar quote) ++ [quote])

-- `repr(v)`
mutual
def repr : Val φ → List Char
  | .null => "None".toList
  | .bool b => if b then "True".toList else "False".toList
  | .int n => intText n
  | .float x => py.floatRepr x
  | .str s => py.reprStr s.toList
  | .arr xs => '[' :: (", ".toList.intercalate (reprItems xs) ++ [']'])
  | .obj es => '\x7b' :: (", ".toList.intercalate (reprEntries es) ++ ['\x7d'])
def reprItems : List (Val φ) → List (List Char)
  | [] => []
  | x :: xs => repr x :: reprItems xs
def reprEntries : List (String × Val φ) → List (List Char)
  | [] => []
  | (k, x) :: es => (py.reprStr k.toList ++ ": ".toList ++ repr x) :: reprEntries es
end

/-- `str(v)`. -/
def str : Val φ → List Char
  | .str s => s.toList
  | v => py.repr v

end PyText

/-! ### Slices -/

/-- A non-empty prefix of a decimal numeral is one. -/
theorem toDigits_of_prefix {s : List Char} {n : ℕ} (h : s <+: Nat.toDigits 10 n) (hs : s ≠ []) :
    ∃ m, s = Nat.toDigits 10 m := by
  induction n using Nat.strong_induction_on with
  | _ n ih =>
    by_cases hn : n < 10
    · rw [Nat.toDigits_of_lt_base hn] at h
      rcases List.prefix_concat_iff.mp (show s <+: [] ++ [n.digitChar] from h) with h | h
      · exact ⟨n, by rw [h, Nat.toDigits_of_lt_base hn, List.nil_append]⟩
      · exact absurd (List.prefix_nil.mp h) hs
    · have hdigits : Nat.toDigits 10 n = Nat.toDigits 10 (n / 10) ++ [(n % 10).digitChar] :=
        Nat.toDigits_of_base_le (by omega) (by omega)
      rw [hdigits] at h
      rcases List.prefix_concat_iff.mp h with h | h
      · exact ⟨n, by rw [h, hdigits]⟩
      · exact ih (n / 10) (by omega) h

/-- The first characters of a join: whole segments and a non-empty piece of the next one, or whole segments
and the separator behind them. -/
theorem take_intercalate (sep : Char) (n : ℕ) (segs : List (List Char)) :
    ∃ cut : List (List Char), (∀ s ∈ cut, ∃ t ∈ segs, s <+: t ∧ (s = [] → t = [])) ∧
      (([sep].intercalate segs).take n = [sep].intercalate cut ∨
        cut ≠ [] ∧ ([sep].intercalate segs).take n = [sep].intercalate cut ++ [sep]) := by
  induction segs generalizing n with
  | nil => exact ⟨[], by simp, .inl (by simp)⟩
  | cons t segs ih =>
    by_cases hn : n = 0
    · exact ⟨[], by simp, .inl (by simp [hn])⟩
    by_cases hsegs : segs = []
    · -- the last segment
      refine ⟨[t.take n], fun s hs => ⟨t, by simp, ?_⟩, .inl (by simp [hsegs])⟩
      obtain rfl := List.mem_singleton.mp hs
      refine ⟨List.take_prefix n t, fun h => ?_⟩
      exact (List.take_eq_nil_iff.mp h).resolve_left hn
    rw [List.intercalate_cons_of_ne_nil hsegs, List.append_assoc]
    by_cases hlen : n ≤ t.length
    · refine ⟨[t.take n], fun s hs => ⟨t, by simp, ?_⟩, .inl ?_⟩
      · obtain rfl := List.mem_singleton.mp hs
        refine ⟨List.take_prefix n t, fun h => ?_⟩
        exact (List.take_eq_nil_iff.mp h).resolve_left hn
      · rw [List.take_append_of_le_length hlen, List.intercalate_singleton]
    · obtain ⟨m, rfl⟩ : ∃ m, n = t.length + (m + 1) := ⟨n - t.length - 1, by omega⟩
      have htake : (t ++ ([sep] ++ [sep].intercalate segs)).take (t.length + (m + 1)) =
          t ++ sep :: ([sep].intercalate segs).take m := by
        rw [List.take_length_add_append]
        simp
      rw [htake]
      obtain ⟨cut, hcut, hjoin⟩ := ih m
      have hmem : ∀ s ∈ t :: cut, ∃ u ∈ t :: segs, s <+: u ∧ (s = [] → u = []) := by
        intro s hs
        rcases List.mem_cons.mp hs with rfl | hs
        · exact ⟨s, by simp, List.prefix_refl s, id⟩
        · obtain ⟨u, hu, hprefix⟩ := hcut s hs
          exact ⟨u, List.mem_cons_of_mem _ hu, hprefix⟩
      refine ⟨t :: cut, hmem, ?_⟩
      by_cases hnil : cut = []
      · -- the slice ends behind the separator
        rcases hjoin with hjoin | ⟨hne, -⟩
        · refine .inr ⟨by simp, ?_⟩
          rw [hjoin, hnil]
          simp
        · exact absurd hnil hne
      · rw [List.intercalate_cons_of_ne_nil hnil, List.append_assoc]
        rcases hjoin with hjoin | ⟨-, hjoin⟩
        · exact .inl (by rw [hjoin]; rfl)
        · refine .inr ⟨by simp, ?_⟩
          rw [hjoin]
          simp

end Broker.Lib
