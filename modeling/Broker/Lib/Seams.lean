import Broker.Lib.Regex

/-!
# Broker.Lib.Seams — what a pass of replacements leaves behind

A pass of `re.sub` copies the gaps between the matches and writes each match anew (`Rewrites`).  A pattern
without `\b` matches a span whatever stands around it (`spans_local`), so a match in the new text that holds
none of the replacement lies in a gap and is a match of the old text; what is new can only be at a seam.  The
statements about all positions of a text (`AllPos`) go over the two texts step by step.
-/

namespace Broker.Lib

namespace Regex

variable {word : Char → Bool} {prev : Option Char} {cs x y : List Char}

theorem lastOr_cons (c : Char) (u : List Char) : lastOr prev (c :: u) = lastOr (some c) u := by
  rw [lastOr, lastOr, List.getLast?_cons]
  cases u.getLast? <;> rfl

/-! ### Spans and their surroundings -/

/-- A run takes any part of the longest one. -/
theorem mem_spans_rep_iff {p : Char → Bool} {n : ℕ} :
    (x, y) ∈ spans word (.rep p n) prev cs ↔ cs = x ++ y ∧ (∀ c ∈ x, p c = true) ∧ n ≤ x.length := by
  constructor
  · intro h
    obtain ⟨hsplit, hall, hlen⟩ := mem_spans_rep h
    exact ⟨hsplit.symm, hall, hlen⟩
  · rintro ⟨rfl, hall, hlen⟩
    have hrun : (x ++ y).takeWhile p = x ++ y.takeWhile p := List.takeWhile_append_of_pos hall
    have hlong : x.length ≤ ((x ++ y).takeWhile p).length := by
      rw [hrun, List.length_append]
      omega
    simp only [spans, List.mem_map, List.mem_range]
    refine ⟨((x ++ y).takeWhile p).length - x.length, by omega, ?_⟩
    rw [show ((x ++ y).takeWhile p).length - (((x ++ y).takeWhile p).length - x.length) = x.length by omega,
      List.take_left, List.drop_left]

theorem mem_spans_seq_bound {b : Regex} :
    (x, y) ∈ spans word (.seq .bound b) prev cs ↔
      isBound word prev cs.head? = true ∧ (x, y) ∈ spans word b prev cs := by
  by_cases hb : isBound word prev cs.head? = true
  · simp [spans, hb, lastOr]
  · simp [spans, hb]

/-- No `\b` in the pattern. -/
def BoundFree : Regex → Prop
  | .bound => False
  | .seq a b => BoundFree a ∧ BoundFree b
  | .alt a b => BoundFree a ∧ BoundFree b
  | _ => True

theorem boundFree_lit (forms : Char → List Char) : ∀ s : List Char, BoundFree (lit forms s)
  | [] => trivial
  | _ :: s => ⟨trivial, boundFree_lit forms s⟩

/-- A span is matched whatever stands before and behind it. -/
theorem spans_local {re : Regex} (hre : BoundFree re) (h : (x, y) ∈ spans word re prev (x ++ y))
    (prev' : Option Char) (y' : List Char) : (x, y') ∈ spans word re prev' (x ++ y') := by
  induction re generalizing prev prev' x y y' with
  | empty =>
    obtain ⟨rfl, -⟩ := Prod.mk.inj (List.mem_singleton.mp h)
    exact List.mem_singleton.mpr rfl
  | bound => exact hre.elim
  | set p =>
    obtain ⟨c, t, -, hc, heq⟩ := mem_spans_set.mp h
    obtain ⟨rfl, -⟩ := Prod.mk.inj heq
    exact mem_spans_set.mpr ⟨c, y', rfl, hc, rfl⟩
  | rep p n =>
    obtain ⟨-, hall, hlen⟩ := mem_spans_rep_iff.mp h
    exact mem_spans_rep_iff.mpr ⟨rfl, hall, hlen⟩
  | seq a b iha ihb =>
    obtain ⟨⟨u, u'⟩, ha, ⟨v, v'⟩, hb, heq⟩ := mem_spans_seq.mp h
    obtain ⟨rfl, rfl⟩ := Prod.mk.inj heq
    have hsplit : v ++ y = u' := append_of_mem_spans hb
    dsimp only at hb
    rw [← hsplit] at ha hb
    dsimp only at ha
    rw [List.append_assoc] at ha ⊢
    exact mem_spans_seq.mpr ⟨_, iha hre.1 ha prev' (v ++ y'), _, ihb hre.2 hb _ y', rfl⟩
  | alt a b iha ihb =>
    rcases List.mem_append.mp h with h | h
    · exact List.mem_append.mpr (.inl (iha hre.1 h prev' y'))
    · exact List.mem_append.mpr (.inr (ihb hre.2 h prev' y'))

theorem spans_congr {re : Regex} (hre : BoundFree re) (prev prev' : Option Char) (cs : List Char) :
    spans word re prev cs = spans word re prev' cs := by
  induction re generalizing prev prev' cs with
  | empty => rfl
  | bound => exact hre.elim
  | set p => cases cs <;> rfl
  | rep p n => rfl
  | seq a b iha ihb =>
    simp only [spans]
    rw [iha hre.1 prev prev' cs]
    refine List.flatMap_congr fun r _ => ?_
    rw [ihb hre.2 (lastOr prev r.1) (lastOr prev' r.1) r.2]
  | alt a b iha ihb =>
    simp only [spans]
    rw [iha hre.1 prev prev' cs, ihb hre.2 prev prev' cs]

/-! ### Where the first match ends -/

/-- Behind the first match no character of `p` is left. -/
def EndsGreedy (word : Char → Bool) (p : Char → Bool) (re : Regex) : Prop :=
  ∀ prev cs r, (spans word re prev cs).head? = some r → ∀ c ∈ r.2.head?, p c = false

theorem endsGreedy_rep (p : Char → Bool) (n : ℕ) : EndsGreedy word p (.rep p n) :=
  fun _ _ _ h => head_spans_rep h

theorem endsGreedy_seq {p : Char → Bool} {b : Regex} (a : Regex) (hb : EndsGreedy word p b) :
    EndsGreedy word p (.seq a b) := by
  intro prev cs r h
  rw [spans, List.head?_flatMap, List.findSome?_eq_some_iff] at h
  obtain ⟨l₁, s, l₂, -, hhead, -⟩ := h
  rw [List.head?_map, Option.map_eq_some_iff] at hhead
  obtain ⟨t, ht, rfl⟩ := hhead
  exact hb _ _ t ht

/-! ### Patterns with a single match -/

/-- At most one match leaves a text with `N`. -/
def Sole (word : Char → Bool) (N : List Char → Prop) (re : Regex) : Prop :=
  ∀ prev cs r r', r ∈ spans word re prev cs → r' ∈ spans word re prev cs → N r.2 → N r'.2 → r = r'

variable {M N : List Char → Prop} {a b : Regex}

theorem sole_set (p : Char → Bool) : Sole word N (.set p) := by
  intro prev cs r r' h h' _ _
  obtain ⟨c, t, rfl, -, rfl⟩ := mem_spans_set.mp h
  obtain ⟨c', t', heq, -, rfl⟩ := mem_spans_set.mp h'
  obtain ⟨rfl, rfl⟩ := List.cons.inj heq
  rfl

/-- A run that must leave what it does not take. -/
theorem sole_rep (p : Char → Bool) (n : ℕ) : Sole word (fun z => ∀ c ∈ z.head?, p c = false) (.rep p n) := by
  rintro prev cs ⟨x, y⟩ ⟨x', y'⟩ h h' hy hy'
  have hrun : ∀ {x y : List Char}, (∀ c ∈ x, p c = true) → (∀ c ∈ y.head?, p c = false) →
      (x ++ y).takeWhile p = x := by
    intro x y hx hy
    have hnone : y.takeWhile p = [] := by
      cases y with
      | nil => rfl
      | cons c t => simp [hy c rfl]
    rw [List.takeWhile_append_of_pos hx, hnone, List.append_nil]
  obtain ⟨rfl, hx, -⟩ := mem_spans_rep_iff.mp h
  obtain ⟨heq, hx', -⟩ := mem_spans_rep_iff.mp h'
  have hxx : x = x' := by
    rw [← hrun hx hy, heq, hrun hx' hy']
  subst hxx
  rw [List.append_cancel_left heq]

theorem sole_seq (ha : Sole word M a) (hb : Sole word N b)
    (hM : ∀ prev z, spans word b prev z ≠ [] → M z) : Sole word N (.seq a b) := by
  intro prev cs r r' h h' hr hr'
  obtain ⟨s, hs, t, ht, rfl⟩ := mem_spans_seq.mp h
  obtain ⟨s', hs', t', ht', rfl⟩ := mem_spans_seq.mp h'
  obtain rfl := ha prev cs s s' hs hs' (hM _ _ (List.ne_nil_of_mem ht)) (hM _ _ (List.ne_nil_of_mem ht'))
  rw [hb _ _ t t' ht ht' hr hr']

theorem sole_alt (ha : Sole word N a) (hb : Sole word N b)
    (hdisj : ∀ prev cs, spans word a prev cs ≠ [] → spans word b prev cs = []) : Sole word N (.alt a b) := by
  intro prev cs r r' h h' hr hr'
  rcases List.mem_append.mp h with h | h <;> rcases List.mem_append.mp h' with h' | h'
  · exact ha prev cs r r' h h' hr hr'
  · rw [hdisj prev cs (List.ne_nil_of_mem h)] at h'
    cases h'
  · rw [hdisj prev cs (List.ne_nil_of_mem h')] at h
    cases h
  · exact hb prev cs r r' h h' hr hr'

theorem sole_lit (forms : Char → List Char) : ∀ s : List Char, Sole word N (lit forms s)
  | [] => by
    intro prev cs r r' h h' _ _
    rw [List.mem_singleton.mp h, List.mem_singleton.mp h']
  | c :: s => sole_seq (M := fun _ => True) (sole_set _) (sole_lit forms s) fun _ _ _ => trivial

end Regex

open Regex

/-! ### All positions of a text -/

section AllPos

variable {P : Option Char → List Char → Prop} {prev : Option Char} {x y cs : List Char}

/-- `P` holds of each position: of the character before it and the text from it on. -/
def AllPos (P : Option Char → List Char → Prop) : Option Char → List Char → Prop
  | prev, [] => P prev []
  | prev, c :: cs => P prev (c :: cs) ∧ AllPos P (some c) cs

theorem AllPos.head (h : AllPos P prev cs) : P prev cs := by
  cases cs with
  | nil => exact h
  | cons c cs => exact h.1

theorem AllPos.drop (h : AllPos P prev (x ++ y)) : AllPos P (lastOr prev x) y := by
  induction x generalizing prev with
  | nil => exact h
  | cons c x ih =>
    rw [lastOr_cons]
    exact ih h.2

theorem allPos_iff : AllPos P prev cs ↔ ∀ u w, cs = u ++ w → P (lastOr prev u) w := by
  constructor
  · rintro h u w rfl
    exact h.drop.head
  · intro h
    induction cs generalizing prev with
    | nil => exact h [] [] rfl
    | cons c cs ih =>
      refine ⟨h [] _ rfl, ih fun u w huw => ?_⟩
      have hcons := h (c :: u) w (by rw [huw, List.cons_append])
      rwa [lastOr_cons] at hcons

theorem AllPos.append (hx : ∀ u w, x = u ++ w → w ≠ [] → P (lastOr prev u) (w ++ y))
    (hy : AllPos P (lastOr prev x) y) : AllPos P prev (x ++ y) := by
  induction x generalizing prev with
  | nil => exact hy
  | cons c x ih =>
    refine ⟨hx [] _ rfl (List.cons_ne_nil _ _), ih (fun u w huw hw => ?_) ?_⟩
    · have hcons := hx (c :: u) w (by rw [huw, List.cons_append]) hw
      rwa [lastOr_cons] at hcons
    · rwa [lastOr_cons] at hy

/-- Only the first position sees the character before the text. -/
theorem AllPos.behind {before : Option Char} (h : AllPos P prev cs) (hcs : P before cs) :
    AllPos P before cs := by
  cases cs with
  | nil => exact hcs
  | cons c cs => exact ⟨hcs, h.2⟩

end AllPos

/-! ### The matches of a rule -/

namespace Rule

variable (word : Char → Bool) (rule : Rule)

/-- The matches `re.finditer` goes over from a position on: the group, what is masked, and the rest of the
text behind it. -/
def foundFrom : ℕ → Option Char → List Char → List (List Char × List Char × List Char)
  | 0, _, _ => []
  | _ + 1, _, [] => []
  | n + 1, prev, c :: cs =>
    match rule.first word prev (c :: cs) with
    | none => foundFrom n (some c) cs
    | some (g, v, rest) => (g, v, rest) :: foundFrom n (lastOr prev (g ++ v)) rest

def found (text : List Char) : List (List Char × List Char × List Char) :=
  rule.foundFrom word text.length none text

/-- No match starts here. -/
def AbsentAt (prev : Option Char) (cs : List Char) : Prop := rule.first word prev cs = none

/-- A match that starts here is masked already. -/
def MaskedAt (prev : Option Char) (cs : List Char) : Prop :=
  ∀ g v rest, rule.first word prev cs = some (g, v, rest) → v = rule.mask

/-- No match in the text. -/
def AbsentIn (text : List Char) : Prop := ∀ u w, text = u ++ w → rule.AbsentAt word (lastOr none u) w

/-- Every match in the text, wherever it starts, is masked already. -/
def MaskedIn (text : List Char) : Prop := ∀ u w, text = u ++ w → rule.MaskedAt word (lastOr none u) w

variable {word} {rule} {prev : Option Char} {cs o g z v rest x : List Char}

instance : Decidable (rule.AbsentAt word prev cs) :=
  decidable_of_iff ((rule.first word prev cs).isNone = true) Option.isNone_iff_eq_none

instance : Decidable (rule.MaskedAt word prev cs) :=
  decidable_of_iff ((rule.first word prev cs).all (fun r => r.2.1 == rule.mask) = true)
    (by simp [MaskedAt, Option.all_eq_true])

theorem absentIn_iff {text : List Char} : rule.AbsentIn word text ↔ AllPos (rule.AbsentAt word) none text :=
  allPos_iff.symm

theorem maskedIn_iff {text : List Char} : rule.MaskedIn word text ↔ AllPos (rule.MaskedAt word) none text :=
  allPos_iff.symm

theorem AbsentAt.maskedAt (h : rule.AbsentAt word prev cs) : rule.MaskedAt word prev cs := by
  intro g v rest hfirst
  rw [h] at hfirst
  cases hfirst

theorem AbsentIn.maskedIn {text : List Char} (h : rule.AbsentIn word text) : rule.MaskedIn word text :=
  fun u w huw => (h u w huw).maskedAt

/-- A group with something to mask behind it. -/
theorem first_ne_none (hg : (g, z) ∈ spans word rule.kept prev cs)
    (hz : spans word rule.masked (lastOr prev g) z ≠ []) : rule.first word prev cs ≠ none := by
  obtain ⟨⟨v, rest⟩, hv⟩ := List.exists_mem_of_ne_nil _ hz
  intro hnone
  rw [first, List.head?_eq_none_iff, List.flatMap_eq_nil_iff] at hnone
  have hnil := hnone (g, z) hg
  rw [List.map_eq_nil_iff] at hnil
  exact hz hnil

/-- Without `\b` the character before a position does not matter. -/
theorem first_congr (hkept : BoundFree rule.kept) (hmasked : BoundFree rule.masked) (prev prev' : Option Char)
    (cs : List Char) : rule.first word prev cs = rule.first word prev' cs := by
  rw [first, first, spans_congr hkept prev prev' cs]
  refine congrArg List.head? (List.flatMap_congr fun r _ => ?_)
  rw [spans_congr hmasked (lastOr prev r.1) (lastOr prev' r.1) r.2]

/-- Where every match is masked already, a pass changes nothing. -/
theorem subFrom_eq_self (n : ℕ) (h : AllPos (rule.MaskedAt word) prev cs) :
    rule.subFrom word n prev cs = cs := by
  induction n generalizing prev cs with
  | zero => rfl
  | succ n ih =>
    cases cs with
    | nil => rfl
    | cons c cs =>
      rw [subFrom]
      cases hf : rule.first word prev (c :: cs) with
      | none =>
        dsimp only
        rw [ih h.2]
      | some r =>
        obtain ⟨g, v, rest⟩ := r
        dsimp only
        obtain ⟨hsplit, -, -⟩ := first_spec hf
        have hv : v = rule.mask := h.head g v rest hf
        rw [hsplit, ← List.append_assoc] at h
        rw [ih h.drop, hsplit, hv]

theorem sub_eq_self {text : List Char} (h : rule.MaskedIn word text) : rule.sub word text = text :=
  subFrom_eq_self _ (maskedIn_iff.mp h)

/-! ### A pass as a relation -/

/-- The pass takes the first text to the second; each of its matches meets `Q`. -/
inductive Rewrites (word : Char → Bool) (rule : Rule) (Q : List Char → List Char → List Char → Prop) :
    Option Char → List Char → List Char → Prop
  | nil (prev : Option Char) : Rewrites word rule Q prev [] []
  | keep {prev : Option Char} {c : Char} {cs o : List Char} : rule.first word prev (c :: cs) = none →
      Rewrites word rule Q (some c) cs o → Rewrites word rule Q prev (c :: cs) (c :: o)
  | mask {prev : Option Char} {cs g v rest o out : List Char} : rule.first word prev cs = some (g, v, rest) →
      Q g v rest → Rewrites word rule Q (lastOr prev (g ++ v)) rest o → out = g ++ (rule.mask ++ o) →
      Rewrites word rule Q prev cs out

variable {Q : List Char → List Char → List Char → Prop}

theorem rewrites_subFrom (htaken : ∀ {prev cs g v rest}, rule.first word prev cs = some (g, v, rest) → v ≠ [])
    (n : ℕ) (hn : cs.length ≤ n) (hQ : ∀ m ∈ rule.foundFrom word n prev cs, Q m.1 m.2.1 m.2.2) :
    Rewrites word rule Q prev cs (rule.subFrom word n prev cs) := by
  induction n generalizing prev cs with
  | zero =>
    obtain rfl := List.length_eq_zero_iff.mp (Nat.le_zero.mp hn)
    exact .nil prev
  | succ n ih =>
    cases cs with
    | nil => exact .nil prev
    | cons c cs =>
      rw [subFrom]
      rw [foundFrom] at hQ
      cases hf : rule.first word prev (c :: cs) with
      | none =>
        rw [hf] at hQ
        exact .keep hf (ih (Nat.le_of_succ_le_succ hn) hQ)
      | some r =>
        obtain ⟨g, v, rest⟩ := r
        rw [hf] at hQ
        obtain ⟨hsplit, -, -⟩ := first_spec hf
        have hrest : rest.length ≤ n := by
          have hlen := congrArg List.length hsplit
          have hpos : 0 < v.length := List.length_pos_of_ne_nil (htaken hf)
          simp only [List.length_append, List.length_cons] at hlen hn
          omega
        exact .mask hf (hQ _ List.mem_cons_self) (ih hrest fun m hm => hQ m (List.mem_cons_of_mem _ hm)) rfl

theorem rewrites_sub {text : List Char}
    (htaken : ∀ {prev cs g v rest}, rule.first word prev cs = some (g, v, rest) → v ≠ [])
    (hQ : ∀ m ∈ rule.found word text, Q m.1 m.2.1 m.2.2) :
      Rewrites word rule Q none text (rule.sub word text) :=
  rewrites_subFrom htaken _ (Nat.le_refl _) hQ

namespace Rewrites

/-- A character of the new text is an old one or stands in a mask. -/
theorem mem (h : Rewrites word rule Q prev cs o) {c : Char} (hc : c ∈ o) : c ∈ cs ∨ c ∈ rule.mask := by
  induction h with
  | nil => exact .inl hc
  | keep _ _ ih =>
    rcases List.mem_cons.mp hc with rfl | hc
    · exact .inl List.mem_cons_self
    · exact (ih hc).imp_left (List.mem_cons_of_mem _)
  | mask hf _ _ hout ih =>
    obtain ⟨hsplit, -, -⟩ := first_spec hf
    rw [hsplit]
    rw [hout] at hc
    rcases List.mem_append.mp hc with hc | hc
    · exact .inl (by simp [hc])
    · rcases List.mem_append.mp hc with hc | hc
      · exact .inr hc
      · exact (ih hc).imp_left fun hrest => by simp [hrest]

/-- What every match takes is not new. -/
theorem mem_of_taken {c : Char}
    (hc : ∀ {prev cs g v rest}, rule.first word prev cs = some (g, v, rest) → c ∈ v)
    (h : Rewrites word rule Q prev cs o) (ho : c ∈ o) : c ∈ cs := by
  induction h with
  | nil => exact ho
  | keep _ _ ih =>
    rcases List.mem_cons.mp ho with rfl | ho
    · exact List.mem_cons_self
    · exact List.mem_cons_of_mem _ (ih ho)
  | mask hf =>
    obtain ⟨hsplit, -, -⟩ := first_spec hf
    rw [hsplit]
    exact List.mem_append_right _ (List.mem_append_left _ (hc hf))

/-- A prefix of the new text that ends before the first mask is one of the old text. -/
theorem prefix_of_not_mem {d : Char} {m₀ m₁ : List Char} (hmask : rule.mask = m₀ ++ d :: m₁)
    (hv : ∀ {prev cs g v rest}, rule.first word prev cs = some (g, v, rest) → m₀ <+: v)
    (h : Rewrites word rule Q prev cs o) (hd : d ∉ x) (hx : x <+: o) : x <+: cs := by
  induction h generalizing x with
  | nil => exact hx
  | keep _ _ ih =>
    cases x with
    | nil => exact List.nil_prefix
    | cons c x =>
      obtain ⟨rfl, htail⟩ := List.cons_prefix_cons.mp hx
      exact List.cons_prefix_cons.mpr ⟨rfl, ih (fun hmem => hd (List.mem_cons_of_mem _ hmem)) htail⟩
  | @mask prev cs g v rest o out hf _ _ hout _ =>
    obtain ⟨hsplit, -, -⟩ := first_spec hf
    have hout' : out = (g ++ m₀) ++ d :: (m₁ ++ o) := by
      rw [hout, hmask]
      simp
    rw [hout'] at hx
    have hshort : x <+: g ++ m₀ := prefix_of_prefix_append hd hx
    rw [hsplit]
    exact hshort.trans ((List.prefix_append_right_inj g).mpr ((hv hf).trans (List.prefix_append _ _)))

/-- A piece of the old text in which no match starts is copied. -/
theorem copies (h : Rewrites word rule Q prev (x ++ z) o)
    (hnone : ∀ u w, x = u ++ w → w ≠ [] → rule.first word (lastOr prev u) (w ++ z) = none) :
    ∃ zs, o = x ++ zs ∧ Rewrites word rule Q (lastOr prev x) z zs := by
  induction x generalizing prev o with
  | nil => exact ⟨o, rfl, h⟩
  | cons c x ih =>
    cases h with
    | keep _ hrest =>
      obtain ⟨zs, rfl, hzs⟩ := ih hrest fun u w huw hw => by
        have hcons := hnone (c :: u) w (by rw [huw, List.cons_append]) hw
        rwa [lastOr_cons] at hcons
      exact ⟨zs, rfl, by rwa [lastOr_cons]⟩
    | mask hf =>
      have hhead := hnone [] (c :: x) rfl (List.cons_ne_nil _ _)
      rw [lastOr, List.getLast?_nil, Option.none_or] at hhead
      rw [hhead] at hf
      cases hf

/-- A piece of the new text that does not hold the start of the mask is copied, where it ends with a character
that no group holds. -/
theorem split_of_end {d e : Char} {m₁ : List Char} (hmask : rule.mask = d :: m₁)
    (hgroup : ∀ {prev cs g v rest}, rule.first word prev cs = some (g, v, rest) → e ∉ g)
    (h : Rewrites word rule Q prev cs (x ++ e :: z)) (hd : d ∉ x ++ [e]) :
    ∃ zs, cs = x ++ e :: zs ∧ Rewrites word rule Q (some e) zs z := by
  induction x generalizing prev cs with
  | nil =>
    cases h with
    | keep _ hrest => exact ⟨_, rfl, hrest⟩
    | @mask _ _ g v rest o _ hf _ _ hout =>
      rw [hmask] at hout
      cases g with
      | nil =>
        obtain rfl : e = d := (List.cons.inj hout).1
        exact absurd List.mem_cons_self hd
      | cons c g =>
        obtain rfl : e = c := (List.cons.inj hout).1
        exact absurd List.mem_cons_self (hgroup hf)
  | cons c x ih =>
    cases h with
    | keep _ hrest =>
      obtain ⟨zs, rfl, hzs⟩ := ih hrest fun hmem => hd (List.mem_cons_of_mem _ hmem)
      exact ⟨zs, rfl, hzs⟩
    | @mask _ _ g v rest o _ hf _ _ hout =>
      have hpre : (c :: x) ++ [e] <+: g ++ d :: (m₁ ++ o) := by
        refine ⟨z, ?_⟩
        rw [hmask] at hout
        simpa using hout
      have hshort : (c :: x) ++ [e] <+: g := prefix_of_prefix_append hd hpre
      exact absurd (hshort.subset (by simp)) (hgroup hf)

/-- A rule without a group copies what does not hold the start of its mask. -/
theorem split_of_not_mem {d : Char} {m₁ : List Char} (hmask : rule.mask = d :: m₁)
    (hgroup : ∀ {prev cs g v rest}, rule.first word prev cs = some (g, v, rest) → g = [])
    (h : Rewrites word rule Q prev cs (x ++ z)) (hd : d ∉ x) :
    ∃ zs, cs = x ++ zs ∧ Rewrites word rule Q (lastOr prev x) zs z := by
  induction x generalizing prev cs with
  | nil => exact ⟨cs, rfl, h⟩
  | cons c x ih =>
    cases h with
    | keep _ hrest =>
      obtain ⟨zs, rfl, hzs⟩ := ih hrest fun hmem => hd (List.mem_cons_of_mem _ hmem)
      exact ⟨zs, rfl, by rwa [lastOr_cons]⟩
    | mask hf _ _ hout =>
      rw [hgroup hf, hmask] at hout
      obtain rfl : c = d := (List.cons.inj hout).1
      exact absurd List.mem_cons_self hd

end Rewrites

end Rule

end Broker.Lib
