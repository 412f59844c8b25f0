import Broker.Lib.JsonScan

/-!
# Broker.Lib.FieldLines — fields written as lines `key=value`

A text of such lines is often what gets signed, and the fields are sent along on their own.  Other fields
can give the same text: a value may hold line breaks, a key may hold an `=`.  What they cannot do is make
up a field: one without an `=` in its key and value is one of the fields the text was written from
(`field_of_joined`).
-/

namespace Broker.Lib.FieldLines

abbrev Field := List Char × List Char

def line (f : Field) : List Char := f.1 ++ '=' :: f.2

/-- The lines of the fields, joined by line breaks. -/
def joined (fs : List Field) : List Char := ['\n'].intercalate (fs.map line)

/-- The field is one line, and its key ends at the first `=`. -/
structure OneLine (f : Field) : Prop where
  key : '=' ∉ f.1
  keyLine : '\n' ∉ f.1
  valueLine : '\n' ∉ f.2

theorem OneLine.notMem_line {f : Field} (h : OneLine f) : '\n' ∉ line f := by
  intro hmem
  rcases List.mem_append.mp hmem with hkey | hvalue
  · exact h.keyLine hkey
  · rcases List.mem_cons.mp hvalue with heq | hvalue
    · cases heq
    · exact h.valueLine hvalue

theorem line_inj {f g : Field} (hf : '=' ∉ f.1) (hg : '=' ∉ g.1) (h : line f = line g) : f = g := by
  obtain ⟨hkey, hvalue⟩ := append_sep_inj hf hg h
  exact Prod.ext hkey hvalue

/-- The lines of a joined text. -/
theorem splitOn_joined {fs : List Field} (h : ∀ f ∈ fs, OneLine f) (hne : fs ≠ []) :
    (joined fs).splitOn '\n' = fs.map line := by
  refine List.splitOn_intercalate '\n' (fun l hl => ?_) (by simpa using hne)
  obtain ⟨f, hf, rfl⟩ := List.mem_map.mp hl
  exact (h f hf).notMem_line

/-- Where the parts may hold line breaks, each of them gives its own lines. -/
theorem splitOn_intercalate_flatMap {parts : List (List Char)} (hne : parts ≠ []) :
    (['\n'].intercalate parts).splitOn '\n' = parts.flatMap fun p => p.splitOn '\n' := by
  induction parts with
  | nil => exact absurd rfl hne
  | cons p parts ih =>
    by_cases hparts : parts = []
    · subst hparts
      simp [List.intercalate_singleton]
    · have hsplit : (p ++ '\n' :: ['\n'].intercalate parts).splitOn '\n' =
          p.splitOn '\n' ++ (['\n'].intercalate parts).splitOn '\n' := List.splitOn_append_cons_self ..
      rw [List.intercalate_cons_of_ne_nil hparts, List.append_assoc, List.singleton_append, hsplit, ih hparts,
        List.flatMap_cons]

theorem mem_intercalate {parts : List (List Char)} {part : List Char} (h : part ∈ parts) {c : Char}
    (hc : c ∈ part) : c ∈ ['\n'].intercalate parts := by
  induction parts with
  | nil => cases h
  | cons p parts ih =>
    by_cases hparts : parts = []
    · subst hparts
      obtain rfl := List.mem_singleton.mp h
      simpa using hc
    · rw [List.intercalate_cons_of_ne_nil hparts, List.append_assoc]
      rcases List.mem_cons.mp h with rfl | h
      · exact List.mem_append_left _ hc
      · exact List.mem_append_right _ (List.mem_append_right _ (ih h))

theorem mem_of_mem_splitOn {text part : List Char} (h : part ∈ text.splitOn '\n') {c : Char} (hc : c ∈ part) :
    c ∈ text := by
  have hback : ['\n'].intercalate (text.splitOn '\n') = text := List.intercalate_splitOn '\n'
  exact hback ▸ mem_intercalate h hc

/-- Only the first line of `key=value` holds the key. -/
theorem splitOn_line {k v : List Char} (hk : '\n' ∉ k) {first : List Char} {rest : List (List Char)}
    (h : v.splitOn '\n' = first :: rest) : (line (k, v)).splitOn '\n' = line (k, first) :: rest := by
  induction k with
  | nil =>
    simp only [line, List.nil_append]
    rw [List.splitOn_cons_eq_if_modifyHead, if_neg (by decide), h]
    rfl
  | cons c k ih =>
    have hc : (c == '\n') = false := by
      rw [beq_eq_false_iff_ne]
      rintro rfl
      exact hk List.mem_cons_self
    have hrest := ih (fun hmem => hk (List.mem_cons_of_mem c hmem))
    simp only [line, List.cons_append] at hrest ⊢
    rw [List.splitOn_cons_eq_if_modifyHead, hc, if_neg (by decide), hrest]
    rfl

/-- **Other fields of the same text hold no field of their own making.** -/
theorem field_of_joined {signed other : List Field} (hsigned : ∀ f ∈ signed, OneLine f) (hne : signed ≠ [])
    (h : joined other = joined signed) {k v : List Char} (hf : (k, v) ∈ other) (hk : '=' ∉ k) (hk' : '\n' ∉ k)
    (hv : '=' ∉ v) : (k, v) ∈ signed := by
  have hother : other.map line ≠ [] := by
    intro hnil
    rw [List.map_eq_nil_iff.mp hnil] at hf
    cases hf
  have hlines : (other.map line).flatMap (fun p => p.splitOn '\n') = signed.map line := by
    rw [← splitOn_intercalate_flatMap hother, ← splitOn_joined hsigned hne, ← h, joined]
  obtain ⟨first, rest, hsplit⟩ := List.exists_cons_of_ne_nil (List.splitOn_ne_nil '\n' v)
  have hmem : ∀ l ∈ line (k, first) :: rest, l ∈ signed.map line := by
    intro l hl
    rw [← hlines]
    exact List.mem_flatMap.mpr ⟨line (k, v), List.mem_map_of_mem hf, splitOn_line hk' hsplit ▸ hl⟩
  cases rest with
  | nil =>
    have hback : ['\n'].intercalate (v.splitOn '\n') = v := List.intercalate_splitOn '\n'
    rw [hsplit, List.intercalate_singleton] at hback
    obtain ⟨g, hg, hline⟩ := List.mem_map.mp (hmem _ List.mem_cons_self)
    rw [hback] at hline
    exact line_inj (hsigned g hg).key hk hline ▸ hg
  | cons second rest =>
    -- the second line of the value would be a signed line
    obtain ⟨g, -, hline⟩ := List.mem_map.mp (hmem second (by simp))
    have hequals : '=' ∈ second := by simp [← hline, line]
    exact absurd (mem_of_mem_splitOn (by simp [hsplit] : second ∈ v.splitOn '\n') hequals) hv

end Broker.Lib.FieldLines
