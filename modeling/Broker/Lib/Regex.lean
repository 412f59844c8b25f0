import Mathlib.Data.List.Basic
import Mathlib.Tactic.Common

/-!
# Broker.Lib.Regex — regular expressions as `re` runs them

A pattern is tried at a position by backtracking: `spans` lists the ways it can match there, in the order
in which they are tried, so that its first match is the head of the list.  `Rule.sub` goes over a text
from left to right and replaces every match, keeping a group in front of it.  What is a word character is
a parameter.
-/

namespace Broker.Lib

/-- A prefix that does not contain the next element ends before it. -/
theorem prefix_of_prefix_append {α : Type} {u w t : List α} {d : α} (hd : d ∉ u) (h : u <+: w ++ d :: t) :
    u <+: w := by
  rcases Nat.lt_or_ge w.length u.length with hlt | hle
  · refine absurd ?_ hd
    have hlong : w ++ [d] <+: u := by
      refine List.prefix_of_prefix_length_le ?_ h (by simpa [Nat.succ_le_iff] using hlt)
      exact ⟨t, by simp⟩
    exact hlong.subset (by simp)
  · exact List.prefix_of_prefix_length_le h (List.prefix_append _ _) hle

/-- Patterns; only single characters are repeated, greedily. -/
inductive Regex where
  | empty
  | bound
  | set (p : Char → Bool)
  | rep (p : Char → Bool) (least : ℕ)
  | seq (a b : Regex)
  | alt (a b : Regex)

namespace Regex

/-- The character before a position, after a part of the text was read. -/
def lastOr (prev : Option Char) (cs : List Char) : Option Char := cs.getLast?.or prev

section Match

variable (word : Char → Bool)

/-- `\b`. -/
def isBound (prev next : Option Char) : Bool := prev.any word != next.any word

/-- The matches of a pattern at the start of a text, as what they take and what they leave. -/
def spans : Regex → Option Char → List Char → List (List Char × List Char)
  | .empty, _, cs => [([], cs)]
  | .bound, prev, cs => if isBound word prev cs.head? then [([], cs)] else []
  | .set _, _, [] => []
  | .set p, _, c :: cs => if p c then [([c], cs)] else []
  | .rep p least, _, cs =>
    (List.range ((cs.takeWhile p).length + 1 - least)).map fun i =>
      (cs.take ((cs.takeWhile p).length - i), cs.drop ((cs.takeWhile p).length - i))
  | .seq a b, prev, cs =>
    (spans a prev cs).flatMap fun r => (spans b (lastOr prev r.1) r.2).map fun t => (r.1 ++ t.1, t.2)
  | .alt a b, prev, cs => spans a prev cs ++ spans b prev cs

end Match

/-- The characters of a text, each in any of the forms it has. -/
def lit (forms : Char → List Char) : List Char → Regex
  | [] => .empty
  | c :: cs => .seq (.set fun d => (forms c).contains d) (lit forms cs)

/-! ### What a match takes -/

variable {word : Char → Bool} {prev : Option Char} {cs : List Char} {r : List Char × List Char}

@[simp] theorem mem_spans_set {p : Char → Bool} :
    r ∈ spans word (.set p) prev cs ↔ ∃ c t, cs = c :: t ∧ p c = true ∧ r = ([c], t) := by
  cases cs with
  | nil => simp [spans]
  | cons c t =>
    by_cases hp : p c = true
    · simp [spans, hp]
    · simp [spans, hp]

@[simp] theorem mem_spans_seq {a b : Regex} :
    r ∈ spans word (.seq a b) prev cs ↔
      ∃ s ∈ spans word a prev cs, ∃ t ∈ spans word b (lastOr prev s.1) s.2, r = (s.1 ++ t.1, t.2) := by
  simp only [spans, List.mem_flatMap, List.mem_map]
  constructor
  · rintro ⟨s, hs, t, ht, rfl⟩
    exact ⟨s, hs, t, ht, rfl⟩
  · rintro ⟨s, hs, t, ht, rfl⟩
    exact ⟨s, hs, t, ht, rfl⟩

theorem mem_spans_rep {p : Char → Bool} {least : ℕ} (h : r ∈ spans word (.rep p least) prev cs) :
    r.1 ++ r.2 = cs ∧ (∀ c ∈ r.1, p c = true) ∧ least ≤ r.1.length := by
  simp only [spans, List.mem_map, List.mem_range] at h
  obtain ⟨i, hi, rfl⟩ := h
  have hle : (cs.takeWhile p).length ≤ cs.length := (List.takeWhile_sublist p).length_le
  refine ⟨List.take_append_drop _ _, fun c hc => ?_, ?_⟩
  · -- a prefix of the longest run
    have hprefix : cs.take ((cs.takeWhile p).length - i) <+: cs.takeWhile p :=
      List.prefix_of_prefix_length_le (List.take_prefix _ _) (List.takeWhile_prefix p) (by
        rw [List.length_take]
        omega)
    have hmem := hprefix.subset hc
    have hall : (cs.takeWhile p).all p = true := List.all_takeWhile
    exact List.all_eq_true.mp hall c hmem
  · simp only [List.length_take]
    omega

/-- The longest run is tried first. -/
theorem head_spans_rep {p : Char → Bool} {least : ℕ}
    (h : (spans word (.rep p least) prev cs).head? = some r) :
    ∀ c ∈ r.2.head?, p c = false := by
  cases hn : (cs.takeWhile p).length + 1 - least with
  | zero => simp [spans, hn] at h
  | succ n =>
    have hrun : cs.drop (cs.takeWhile p).length = cs.dropWhile p := by
      have hsplit := List.takeWhile_append_dropWhile (p := p) (l := cs)
      have hdrop : ((cs.takeWhile p) ++ cs.dropWhile p).drop (cs.takeWhile p).length = cs.dropWhile p :=
        List.drop_left
      rwa [hsplit] at hdrop
    simp only [spans, hn, List.range_succ_eq_map, List.map_cons, List.head?_cons, Option.some.injEq, Nat.sub_zero,
      hrun] at h
    subst h
    intro c hc
    dsimp only at hc
    cases hd : cs.dropWhile p with
    | nil => simp [hd] at hc
    | cons d t =>
      obtain rfl : d = c := by simpa [hd] using hc
      by_contra hp
      have hfirst := List.head?_dropWhile_not p cs
      rw [hd] at hfirst
      simp_all

theorem append_of_mem_spans {re : Regex} (h : r ∈ spans word re prev cs) : r.1 ++ r.2 = cs := by
  induction re generalizing prev cs r with
  | empty =>
    obtain rfl : r = ([], cs) := by simpa [spans] using h
    rfl
  | bound =>
    by_cases hb : isBound word prev cs.head? = true
    · obtain rfl : r = ([], cs) := by simpa [spans, hb] using h
      rfl
    · simp [spans, hb] at h
  | set p =>
    obtain ⟨c, t, rfl, -, rfl⟩ := mem_spans_set.mp h
    rfl
  | rep p least => exact (mem_spans_rep h).1
  | seq a b iha ihb =>
    obtain ⟨s, hs, t, ht, rfl⟩ := mem_spans_seq.mp h
    rw [List.append_assoc, ihb ht, iha hs]
  | alt a b iha ihb =>
    rcases List.mem_append.mp h with h | h
    · exact iha h
    · exact ihb h

/-- Every character the pattern can take satisfies `p`. -/
def Within (p : Char → Prop) : Regex → Prop
  | .empty => True
  | .bound => True
  | .set q => ∀ c, q c = true → p c
  | .rep q _ => ∀ c, q c = true → p c
  | .seq a b => Within p a ∧ Within p b
  | .alt a b => Within p a ∧ Within p b

theorem within_lit {p : Char → Prop} {forms : Char → List Char} :
    ∀ {s : List Char}, (∀ c ∈ s, ∀ d ∈ forms c, p d) → Within p (lit forms s)
  | [], _ => trivial
  | c :: s, h => by
    refine ⟨fun d hd => h c (by simp) d (by simpa using hd), within_lit fun e he => h e (by simp [he])⟩

theorem within_lit_of_all {p : Char → Prop} [DecidablePred p] {forms : Char → List Char} {s : List Char}
    (h : (s.all fun c => (forms c).all fun d => decide (p d)) = true) : Within p (lit forms s) := by
  refine within_lit fun c hc d hd => ?_
  have hforms := List.all_eq_true.mp h c hc
  exact of_decide_eq_true (List.all_eq_true.mp hforms d hd)

theorem all_of_mem_spans {p : Char → Prop} {re : Regex} (hre : Within p re) (h : r ∈ spans word re prev cs) :
    ∀ c ∈ r.1, p c := by
  induction re generalizing prev cs r with
  | empty =>
    obtain rfl : r = ([], cs) := by simpa [spans] using h
    simp
  | bound =>
    by_cases hb : isBound word prev cs.head? = true
    · obtain rfl : r = ([], cs) := by simpa [spans, hb] using h
      simp
    · simp [spans, hb] at h
  | set q =>
    obtain ⟨c, t, rfl, hc, rfl⟩ := mem_spans_set.mp h
    simpa using hre c hc
  | rep q least => exact fun c hc => hre c ((mem_spans_rep h).2.1 c hc)
  | seq a b iha ihb =>
    obtain ⟨s, hs, t, ht, rfl⟩ := mem_spans_seq.mp h
    intro c hc
    rcases List.mem_append.mp hc with hc | hc
    · exact iha hre.1 hs c hc
    · exact ihb hre.2 ht c hc
  | alt a b iha ihb =>
    rcases List.mem_append.mp h with h | h
    · exact iha hre.1 h
    · exact ihb hre.2 h

/-- How many characters a match takes at least. -/
def least : Regex → ℕ
  | .empty => 0
  | .bound => 0
  | .set _ => 1
  | .rep _ n => n
  | .seq a b => least a + least b
  | .alt a b => min (least a) (least b)

theorem least_le_of_mem_spans {re : Regex} (h : r ∈ spans word re prev cs) : least re ≤ r.1.length := by
  induction re generalizing prev cs r with
  | empty => exact Nat.zero_le _
  | bound => exact Nat.zero_le _
  | set q =>
    obtain ⟨c, t, rfl, -, rfl⟩ := mem_spans_set.mp h
    exact Nat.le_refl _
  | rep q n => exact (mem_spans_rep h).2.2
  | seq a b iha ihb =>
    obtain ⟨s, hs, t, ht, rfl⟩ := mem_spans_seq.mp h
    have ha := iha hs
    have hb := ihb ht
    simp only [least, List.length_append]
    omega
  | alt a b iha ihb =>
    rcases List.mem_append.mp h with h | h
    · exact Nat.le_trans (Nat.min_le_left _ _) (iha h)
    · exact Nat.le_trans (Nat.min_le_right _ _) (ihb h)

/-- The first character of a literal decides it. -/
theorem spans_seq_set_of_not {p : Char → Bool} {b : Regex} {c : Char} (hc : p c = false) :
    spans word (.seq (.set p) b) prev (c :: cs) = [] := by
  simp [spans, hc]

theorem spans_seq_of_nil {a b : Regex}
    (h : ∀ s ∈ spans word a prev cs, spans word b (lastOr prev s.1) s.2 = []) :
    spans word (.seq a b) prev cs = [] := by
  rw [List.eq_nil_iff_forall_not_mem]
  intro r hr
  obtain ⟨s, hs, t, ht, -⟩ := mem_spans_seq.mp hr
  rw [h s hs] at ht
  cases ht

end Regex

open Regex

/-! ### Replacing every match -/

/-- A rule of `re.sub`: the group written back, what is replaced, and by what. -/
structure Rule where
  kept : Regex
  masked : Regex
  mask : List Char

namespace Rule

variable (word : Char → Bool) (rule : Rule)

/-- The first match: the group, the part to be replaced, and the rest of the text. -/
def first (prev : Option Char) (cs : List Char) : Option (List Char × List Char × List Char) :=
  ((spans word rule.kept prev cs).flatMap fun g =>
    (spans word rule.masked (lastOr prev g.1) g.2).map fun v => (g.1, v.1, v.2)).head?

/-- `re.sub` from a position on; the number bounds the matches. -/
def subFrom : ℕ → Option Char → List Char → List Char
  | 0, _, cs => cs
  | _ + 1, _, [] => []
  | n + 1, prev, c :: cs =>
    match rule.first word prev (c :: cs) with
    | none => c :: subFrom n (some c) cs
    | some (g, v, rest) => g ++ (rule.mask ++ subFrom n (lastOr prev (g ++ v)) rest)

/-- `re.sub`. -/
def sub (text : List Char) : List Char := rule.subFrom word text.length none text

variable {word} {rule} {prev : Option Char} {cs g v rest : List Char}

/-- The first match is the first way to mask after the group it follows. -/
theorem first_spec (h : rule.first word prev cs = some (g, v, rest)) :
    cs = g ++ (v ++ rest) ∧ (g, v ++ rest) ∈ spans word rule.kept prev cs ∧
      (spans word rule.masked (lastOr prev g) (v ++ rest)).head? = some (v, rest) := by
  unfold first at h
  rw [List.head?_flatMap, List.findSome?_eq_some_iff] at h
  obtain ⟨l₁, ⟨g', cs'⟩, l₂, hspans, hhead, -⟩ := h
  have hmem : (g', cs') ∈ spans word rule.kept prev cs := by
    rw [hspans]
    simp
  rw [List.head?_map, Option.map_eq_some_iff] at hhead
  obtain ⟨⟨v', rest'⟩, hv, heq⟩ := hhead
  obtain ⟨rfl, rfl, rfl⟩ : g' = g ∧ v' = v ∧ rest' = rest := by simpa using heq
  have hsplit : v' ++ rest' = cs' := append_of_mem_spans (List.mem_of_mem_head? hv)
  subst hsplit
  exact ⟨(append_of_mem_spans hmem).symm, hmem, hv⟩

theorem first_of_kept_nil (h : spans word rule.kept prev cs = []) : rule.first word prev cs = none := by
  simp [first, h]

theorem first_of_masked_nil (hkept : rule.kept = .empty) (h : spans word rule.masked prev cs = []) :
    rule.first word prev cs = none := by
  simp [first, hkept, spans, lastOr, h]

end Rule

end Broker.Lib
