import Broker.Lib.JsonDump

/-!
# Broker.Lib.JsonScan — where the text of an object starts

A reader that only follows brackets, quotes and backslashes returns to where it was after the text of any
value.  Two such readers that differ in being inside a string differ at the end as well, so no object's
text ends in a colon and a shorter object's text: of `prefix:{…}` the object is determined by the whole
(`object_seam`), whatever the prefix holds.
-/

namespace Broker.Lib

/-- Outside of strings, inside one, or behind a backslash inside one. -/
inductive ScanMode where
  | out
  | str
  | esc
  deriving DecidableEq

/-- The open brackets and the mode. -/
structure ScanState where
  depth : ℕ
  mode : ScanMode
  deriving DecidableEq

/-- A character that neither opens nor closes anything. -/
def isFlat (c : Char) : Bool :=
  c ≠ '"' && c ≠ '\\' && c ≠ '\x7b' && c ≠ '[' && c ≠ '\x7d' && c ≠ ']'

namespace ScanState

/-- One character; outside of strings a backslash, or a bracket that closes nothing, is refused. -/
def step (s : ScanState) (c : Char) : Option ScanState :=
  match s.mode with
  | .esc => some ⟨s.depth, .str⟩
  | .str => some ⟨s.depth, if c = '"' then .out else if c = '\\' then .esc else .str⟩
  | .out =>
    if c = '"' then some ⟨s.depth, .str⟩
    else if c = '\x7b' ∨ c = '[' then some ⟨s.depth + 1, .out⟩
    else if c = '\x7d' ∨ c = ']' then (if s.depth = 0 then none else some ⟨s.depth - 1, .out⟩)
    else if c = '\\' then none
    else some s

def scan (s : ScanState) (cs : List Char) : Option ScanState := cs.foldlM step s

variable {s t : ScanState} {cs ds : List Char}

@[simp] theorem scan_nil : s.scan [] = some s := rfl

theorem scan_cons (c : Char) : s.scan (c :: cs) = (s.step c).bind (·.scan cs) := by
  simp [scan, List.foldlM_cons]

theorem scan_append : s.scan (cs ++ ds) = (s.scan cs).bind (·.scan ds) := by
  simp [scan, List.foldlM_append]

/-- Two texts in a row. -/
theorem scan_trans {u : ScanState} (h : s.scan cs = some t) (h' : t.scan ds = some u) :
    s.scan (cs ++ ds) = some u := by
  rw [scan_append, h, Option.bind_some, h']

theorem step_flat {d : ℕ} {c : Char} (hc : isFlat c = true) : step ⟨d, .out⟩ c = some ⟨d, .out⟩ := by
  simp only [isFlat, Bool.and_eq_true, decide_eq_true_eq] at hc
  obtain ⟨⟨⟨⟨⟨h1, h2⟩, h3⟩, h4⟩, h5⟩, h6⟩ := hc
  simp [step, h1, h2, h3, h4, h5, h6]

theorem scan_flat {d : ℕ} (hcs : ∀ c ∈ cs, isFlat c = true) : scan ⟨d, .out⟩ cs = some ⟨d, .out⟩ := by
  induction cs with
  | nil => rfl
  | cons c cs ih =>
    rw [scan_cons, step_flat (hcs c (by simp)), Option.bind_some]
    exact ih fun e he => hcs e (List.mem_cons_of_mem _ he)

/-! ### Two readers of one text -/

/-- One is outside of strings and the other inside. -/
def Opposite (s t : ScanState) : Prop :=
  (s.mode = .out ∧ t.mode = .str) ∨ (s.mode = .str ∧ t.mode = .out)

theorem Opposite.symm (h : Opposite s t) : Opposite t s := by
  rcases h with ⟨hs, ht⟩ | ⟨hs, ht⟩
  · exact .inr ⟨ht, hs⟩
  · exact .inl ⟨ht, hs⟩

/-- Only a quote changes the modes, and it changes both: a backslash is refused by the reader outside. -/
theorem opposite_of_out {c : Char} {s' t' : ScanState} (hs : s.mode = .out) (ht : t.mode = .str)
    (hs' : s.step c = some s') (ht' : t.step c = some t') : Opposite s' t' := by
  have hquote : t' = ⟨t.depth, if c = '"' then .out else if c = '\\' then .esc else .str⟩ := by
    simpa [step, ht] using ht'.symm
  subst hquote
  simp only [step, hs] at hs'
  by_cases hq : c = '"'
  · rw [if_pos hq] at hs'
    obtain rfl := Option.some.inj hs'
    exact .inr ⟨rfl, by simp [hq]⟩
  · rw [if_neg hq] at hs'
    have hback : c ≠ '\\' := by
      rintro rfl
      simp at hs'
    refine .inl ⟨?_, by simp [hq, hback]⟩
    split_ifs at hs' <;> obtain rfl := Option.some.inj hs' <;> first | rfl | exact hs

theorem Opposite.step {c : Char} {s' t' : ScanState} (h : Opposite s t) (hs : s.step c = some s')
    (ht : t.step c = some t') : Opposite s' t' := by
  rcases h with ⟨hout, hstr⟩ | ⟨hstr, hout⟩
  · exact opposite_of_out hout hstr hs ht
  · exact (opposite_of_out hout hstr ht hs).symm

theorem Opposite.scan {s' t' : ScanState} (h : Opposite s t) (hs : s.scan cs = some s')
    (ht : t.scan cs = some t') : Opposite s' t' := by
  induction cs generalizing s t with
  | nil =>
    obtain rfl := Option.some.inj hs
    obtain rfl := Option.some.inj ht
    exact h
  | cons c cs ih =>
    rw [scan_cons] at hs ht
    obtain ⟨s₁, hs₁, hs⟩ := Option.bind_eq_some_iff.mp hs
    obtain ⟨t₁, ht₁, ht⟩ := Option.bind_eq_some_iff.mp ht
    exact ih (h.step hs₁ ht₁) hs ht

end ScanState

open ScanState

/-! ### The texts of values -/

/-- The separators, literals and numbers of a style leave the reader where it was. -/
structure DumpStyle.Scannable {φ : Type} (st : DumpStyle φ) : Prop where
  item : ∀ c ∈ st.item, isFlat c = true
  colon : ∀ c ∈ st.colon, isFlat c = true
  repr : ∀ x, ∀ c ∈ st.repr x, isFlat c = true
  quote : ∀ (d : ℕ) s, scan ⟨d, .out⟩ (st.quote s) = some ⟨d, .out⟩

theorem isFlat_of_isDigit {c : Char} (h : c.isDigit = true) : isFlat c = true := by
  have h1 : c ≠ '"' := isDigit_ne h (by decide)
  have h2 : c ≠ '\\' := isDigit_ne h (by decide)
  have h3 : c ≠ '\x7b' := isDigit_ne h (by decide)
  have h4 : c ≠ '[' := isDigit_ne h (by decide)
  have h5 : c ≠ '\x7d' := isDigit_ne h (by decide)
  have h6 : c ≠ ']' := isDigit_ne h (by decide)
  simp [isFlat, h1, h2, h3, h4, h5, h6]

theorem isFlat_of_mem_intText {n : ℤ} {c : Char} (h : c ∈ intText n) : isFlat c = true :=
  of_mem_intText (p := fun c => isFlat c = true) (by decide) isFlat_of_isDigit h

/-- What a bracket opens: a text that leaves the reader where it was, and the closing bracket. -/
def Bracketed (close : Char) (cs : List Char) : Prop :=
  ∃ b, cs = b ++ [close] ∧ ∀ d, scan ⟨d, .out⟩ b = some ⟨d, .out⟩

theorem bracketed_nil (close : Char) : Bracketed close [close] := ⟨[], rfl, fun _ => rfl⟩

theorem Bracketed.cons {close : Char} {bs cs : List Char} (hbs : ∀ d, scan ⟨d, .out⟩ bs = some ⟨d, .out⟩)
    (h : Bracketed close cs) : Bracketed close (bs ++ cs) := by
  obtain ⟨b, rfl, hb⟩ := h
  exact ⟨bs ++ b, by rw [List.append_assoc], fun d => scan_trans (hbs d) (hb d)⟩

theorem Bracketed.scan_array {cs : List Char} (h : Bracketed ']' cs) (d : ℕ) :
    scan ⟨d, .out⟩ ('[' :: cs) = some ⟨d, .out⟩ := by
  obtain ⟨b, rfl, hb⟩ := h
  rw [scan_cons]
  exact scan_trans (hb (d + 1)) rfl

theorem Bracketed.scan_object {cs : List Char} (h : Bracketed '\x7d' cs) (d : ℕ) :
    scan ⟨d, .out⟩ ('\x7b' :: cs) = some ⟨d, .out⟩ := by
  obtain ⟨b, rfl, hb⟩ := h
  rw [scan_cons]
  exact scan_trans (hb (d + 1)) rfl

namespace Val

variable {φ : Type} {st : DumpStyle φ}

-- over a value the reader returns to where it was; what follows an opening bracket is closed at its end
mutual
theorem scan_dump (hst : st.Scannable) : ∀ (v : Val φ) (d : ℕ), scan ⟨d, .out⟩ (dump st v) = some ⟨d, .out⟩
  | .null, d => by
    simp only [dump]
    exact scan_flat (List.all_eq_true.mp rfl)
  | .bool true, d => by
    simp only [dump]
    exact scan_flat (List.all_eq_true.mp rfl)
  | .bool false, d => by
    simp only [dump]
    exact scan_flat (List.all_eq_true.mp rfl)
  | .int n, d => by
    simp only [dump]
    exact scan_flat fun _ => isFlat_of_mem_intText
  | .float x, d => by
    simp only [dump]
    exact scan_flat (hst.repr x)
  | .str s, d => by
    simp only [dump]
    exact hst.quote d s.toList
  | .arr [], d => by
    simp only [dump]
    exact (bracketed_nil ']').scan_array d
  | .arr (x :: xs), d => by
    simp only [dump]
    exact ((bracketed_dumpItems hst xs).cons (scan_dump hst x)).scan_array d
  | .obj [], d => by
    simp only [dump]
    exact (bracketed_nil '\x7d').scan_object d
  | .obj ((k, x) :: es), d => by
    simp only [dump]
    refine Bracketed.scan_object (Bracketed.cons (hst.quote · k.toList) ?_) d
    refine Bracketed.cons (fun _ => scan_flat hst.colon) ?_
    exact (bracketed_dumpEntries hst es).cons (scan_dump hst x)
theorem bracketed_dumpItems (hst : st.Scannable) : ∀ xs : List (Val φ), Bracketed ']' (dumpItems st xs)
  | [] => bracketed_nil ']'
  | x :: xs => by
    simp only [dumpItems]
    refine Bracketed.cons (fun _ => scan_flat hst.item) ?_
    exact (bracketed_dumpItems hst xs).cons (scan_dump hst x)
theorem bracketed_dumpEntries (hst : st.Scannable) :
    ∀ es : List (String × Val φ), Bracketed '\x7d' (dumpEntries st es)
  | [] => bracketed_nil '\x7d'
  | (k, x) :: es => by
    simp only [dumpEntries]
    refine Bracketed.cons (fun _ => scan_flat hst.item) (Bracketed.cons (hst.quote · k.toList) ?_)
    refine Bracketed.cons (fun _ => scan_flat hst.colon) ?_
    exact (bracketed_dumpEntries hst es).cons (scan_dump hst x)
end

/-- An object is its opening brace and what the brace opens. -/
theorem dump_obj (hst : st.Scannable) (es : List (String × Val φ)) :
    ∃ b, dump st (.obj es) = '\x7b' :: (b ++ ['\x7d']) ∧ ∀ d, scan ⟨d, .out⟩ b = some ⟨d, .out⟩ := by
  rcases es with _ | ⟨⟨k, x⟩, es⟩
  · exact ⟨[], by simp [dump], fun _ => rfl⟩
  · have hbody : Bracketed '\x7d' (st.quote k.toList ++ (st.colon ++ (dump st x ++ dumpEntries st es))) := by
      refine Bracketed.cons (hst.quote · k.toList) (Bracketed.cons (fun _ => scan_flat hst.colon) ?_)
      exact (bracketed_dumpEntries hst es).cons (scan_dump hst x)
    obtain ⟨b, hb, hscan⟩ := hbody
    exact ⟨b, by simp only [dump, hb], hscan⟩

/-! ### The seam -/

/-- No object's text ends in a colon and another object's text. -/
theorem dump_obj_ne_seam (hst : st.Scannable) (es fs : List (String × Val φ)) (xs : List Char) :
    dump st (.obj es) ≠ xs ++ ':' :: dump st (.obj fs) := by
  intro h
  obtain ⟨b, hb, hscan⟩ := dump_obj hst es
  obtain ⟨b', hb', hscan'⟩ := dump_obj hst fs
  rw [hb, hb'] at h
  cases xs with
  | nil => exact absurd (List.cons.inj h).1 (by decide)
  | cons x xs =>
    -- the closing braces coincide
    have hbody : b = xs ++ [':'] ++ '\x7b' :: b' := by
      have htail := (List.cons.inj h).2
      have hlast : xs ++ ':' :: '\x7b' :: (b' ++ ['\x7d']) = (xs ++ [':'] ++ '\x7b' :: b') ++ ['\x7d'] := by simp
      exact List.append_cancel_right (htail.trans hlast)
    have hwhole := hscan 0
    rw [hbody, scan_append] at hwhole
    obtain ⟨s, hs, hrest⟩ := Option.bind_eq_some_iff.mp hwhole
    have hown : scan ⟨0, .out⟩ ('\x7b' :: b') = some ⟨1, .out⟩ := by
      rw [scan_cons]
      exact hscan' 1
    -- behind a colon the reader is not behind a backslash
    have hmode : s.mode ≠ .esc := by
      rw [scan_append] at hs
      obtain ⟨u, -, hu⟩ := Option.bind_eq_some_iff.mp hs
      rw [scan_cons] at hu
      obtain ⟨u', hu', hnil⟩ := Option.bind_eq_some_iff.mp hu
      obtain rfl := Option.some.inj hnil
      unfold ScanState.step at hu'
      split at hu'
      · obtain rfl := Option.some.inj hu'
        simp
      · obtain rfl := Option.some.inj hu'
        simp
      · rename_i hout
        obtain rfl : u = u' := by simpa using hu'
        simp [hout]
    obtain ⟨e, mode⟩ := s
    cases mode with
    | esc => exact hmode rfl
    | out =>
      -- outside of strings the shorter object would leave one brace open
      have hopen : scan ⟨e, .out⟩ ('\x7b' :: b') = some ⟨e + 1, .out⟩ := by
        rw [scan_cons]
        exact hscan' (e + 1)
      rw [hopen] at hrest
      simp at hrest
    | str =>
      -- inside a string it would end inside one
      have hopp : ScanState.Opposite ⟨0, .out⟩ ⟨e, .str⟩ := .inl ⟨rfl, rfl⟩
      have hend := hopp.scan hown hrest
      simp [ScanState.Opposite] at hend

/-- **The seam**: behind any prefix and a colon, the whole text determines the prefix and the object's
text. -/
theorem object_seam (hst : st.Scannable) {es fs : List (String × Val φ)} {xs ys : List Char}
    (h : xs ++ ':' :: dump st (.obj es) = ys ++ ':' :: dump st (.obj fs)) :
    xs = ys ∧ dump st (.obj es) = dump st (.obj fs) := by
  rcases List.append_eq_append_iff.mp h with ⟨as, rfl, has⟩ | ⟨as, rfl, has⟩
  · cases as with
    | nil => exact ⟨by simp, (List.cons.inj has).2⟩
    | cons a as =>
      obtain ⟨-, has⟩ := List.cons.inj has
      exact absurd has (dump_obj_ne_seam hst es fs as)
  · cases as with
    | nil => exact ⟨by simp, (List.cons.inj has).2.symm⟩
    | cons a as =>
      obtain ⟨-, has⟩ := List.cons.inj has
      exact absurd has (dump_obj_ne_seam hst fs es as)

end Val

/-! ### The compact ASCII style -/

open JsonText

theorem hexDigit_inert (n : ℕ) : hexDigit n ≠ '"' ∧ hexDigit n ≠ '\\' := by
  by_cases hn : n < 16
  · have hall : ∀ m < 16, hexDigit m ≠ '"' ∧ hexDigit m ≠ '\\' := by decide
    exact hall n hn
  · have hzero : hexDigit n = '0' := by
      have hlen : "0123456789abcdef".toList.length ≤ n := Nat.le_of_not_lt hn
      rw [hexDigit, List.getD_eq_getElem?_getD, List.getElem?_eq_none hlen]
      rfl
    rw [hzero]
    decide

theorem step_inert {d : ℕ} {c : Char} (hq : c ≠ '"') (hb : c ≠ '\\') : step ⟨d, .str⟩ c = some ⟨d, .str⟩ := by
  simp [step, hq, hb]

theorem scan_escape (d : ℕ) (c : Char) : scan ⟨d, .str⟩ (escape c) = some ⟨d, .str⟩ := by
  have hdigit := fun n => step_inert (d := d) (hexDigit_inert n).1 (hexDigit_inert n).2
  have hzero : step ⟨d, .str⟩ '0' = some ⟨d, .str⟩ := step_inert (by decide) (by decide)
  unfold escape
  split_ifs with h1 h2 h3 h4 h5 h6 h7 h8
  all_goals try rfl
  · have hpair : scan ⟨d, .str⟩ ['\\', 'u'] = some ⟨d, .str⟩ := rfl
    show scan _ (['\\', 'u'] ++ _) = _
    refine scan_trans hpair ?_
    simp [scan_cons, hdigit, hzero]
  · simp [scan_cons, step_inert h1 h2]

theorem scan_unitEscape (d n : ℕ) : scan ⟨d, .str⟩ (unitEscape n) = some ⟨d, .str⟩ := by
  have hdigit := fun n => step_inert (d := d) (hexDigit_inert n).1 (hexDigit_inert n).2
  have hpair : scan ⟨d, .str⟩ ['\\', 'u'] = some ⟨d, .str⟩ := rfl
  show scan _ (['\\', 'u'] ++ _) = _
  refine scan_trans hpair ?_
  simp [scan_cons, hdigit]

theorem scan_escapeAscii (d : ℕ) (c : Char) : scan ⟨d, .str⟩ (escapeAscii c) = some ⟨d, .str⟩ := by
  unfold escapeAscii
  split_ifs
  · exact scan_escape d c
  · exact scan_unitEscape d _
  · exact scan_trans (scan_unitEscape d _) (scan_unitEscape d _)

theorem scan_asciiQuote (d : ℕ) (s : List Char) : scan ⟨d, .out⟩ (asciiQuote s) = some ⟨d, .out⟩ := by
  have hbody : scan ⟨d, .str⟩ (s.flatMap escapeAscii) = some ⟨d, .str⟩ := by
    induction s with
    | nil => rfl
    | cons c s ih =>
      rw [List.flatMap_cons]
      exact scan_trans (scan_escapeAscii d c) ih
  have hopen : step ⟨d, .out⟩ '"' = some ⟨d, .str⟩ := rfl
  rw [asciiQuote, scan_cons, hopen]
  exact scan_trans hbody rfl

/-- `json.dumps(.., separators=(",", ":"))`. -/
def asciiCompact {φ : Type} (repr : φ → List Char) : DumpStyle φ := ⟨[','], [':'], asciiQuote, repr⟩

/-- Float texts without brackets and quotes. -/
structure FlatFloatText (φ : Type) extends FloatText φ where
  flat : ∀ x, ∀ c ∈ repr x, isFlat c = true

theorem asciiCompact_lawful {φ : Type} (F : FloatText φ) : (asciiCompact F.repr).Lawful where
  item := ⟨_, rfl⟩
  quote_head := fun _ => ⟨_, rfl⟩
  quote_inj := asciiQuote_append_inj
  repr_head := F.head
  repr_delim := F.delim
  repr_inj := F.inj
  repr_int := F.int

theorem asciiCompact_scannable {φ : Type} (F : FlatFloatText φ) : (asciiCompact F.repr).Scannable where
  item := by simp [asciiCompact, isFlat]
  colon := by simp [asciiCompact, isFlat]
  repr := F.flat
  quote := scan_asciiQuote

/-! ### Texts for rational floats -/

/-- What stands before the first separator. -/
theorem append_sep_inj {α : Type} {c : α} {xs ys zs ws : List α} (hx : c ∉ xs) (hy : c ∉ ys)
    (h : xs ++ c :: zs = ys ++ c :: ws) : xs = ys ∧ zs = ws := by
  rcases List.append_eq_append_iff.mp h with ⟨as, heq, has⟩ | ⟨as, heq, has⟩
  · cases as with
    | nil => exact ⟨by simpa using heq.symm, (List.cons.inj has).2⟩
    | cons a as =>
      obtain ⟨rfl, -⟩ := List.cons.inj has
      exact absurd (by simp [heq]) hy
  · cases as with
    | nil => exact ⟨by simpa using heq, (List.cons.inj has).2.symm⟩
    | cons a as =>
      obtain ⟨rfl, -⟩ := List.cons.inj has
      exact absurd (by simp [heq]) hx

theorem point_notMem_intText (n : ℤ) : '.' ∉ intText n := by
  intro h
  unfold intText at h
  split_ifs at h
  · rcases List.mem_cons.mp h with h | h
    · exact absurd h (by decide)
    · exact absurd (isDigit_of_mem_toDigits h) (by decide)
  · exact absurd (isDigit_of_mem_toDigits h) (by decide)

/-- `1` is `1.0`; other fractions get texts of their own. -/
def fractionText (q : ℚ) : List Char := intText q.num ++ '.' :: Nat.toDigits 10 (q.den - 1)

theorem fractionText_injective {q r : ℚ} (h : fractionText q = fractionText r) : q = r := by
  obtain ⟨hnum, hden⟩ := append_sep_inj (point_notMem_intText q.num) (point_notMem_intText r.num) h
  have hn := intText_injective hnum
  have hd := toDigits_injective hden
  have hq := q.den_pos
  have hr := r.den_pos
  exact Rat.ext hn (by omega)

def fractionFloats : FlatFloatText ℚ where
  repr := fractionText
  head q := by
    obtain ⟨c, t, hc, hk⟩ := Val.intText_head q.num
    exact ⟨c, t ++ '.' :: Nat.toDigits 10 (q.den - 1), by rw [fractionText, hc, List.cons_append], hk⟩
  delim q c hc := by
    rcases List.mem_append.mp hc with hc | hc
    · exact isDelim_of_mem_intText hc
    · rcases List.mem_cons.mp hc with rfl | hc
      · decide
      · exact isDelim_of_isDigit (isDigit_of_mem_toDigits hc)
  inj := fractionText_injective
  int q n h := point_notMem_intText n (by rw [← h]; simp [fractionText])
  flat q c hc := by
    rcases List.mem_append.mp hc with hc | hc
    · exact isFlat_of_mem_intText hc
    · rcases List.mem_cons.mp hc with rfl | hc
      · decide
      · exact isFlat_of_isDigit (isDigit_of_mem_toDigits hc)

end Broker.Lib
