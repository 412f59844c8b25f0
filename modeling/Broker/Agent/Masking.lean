import Broker.Agent.Redact
import Broker.Lib.Regex
import Mathlib.Data.List.Infix

/-!
# Broker.Agent.Masking — the masking of one text

`redact` replaces what looks like a secret by `[REDACTED]`: token fields in JSON and in `key=value` form,
JWTs, `sk-` keys and `sess-` tokens.  One pass can leave a text that the next pass changes, but no
sequence of passes comes back to a text it has changed: every pass that changes a text makes it lighter
(`weight_redact`), where a text weighs its characters outside the marks, and how far every run of marks
is from a single mark.
-/

namespace Broker.Agent

open Broker.Lib Regex

/-! ### The rules -/

/-- The characters that `re.IGNORECASE` takes for a small letter. -/
def letterForms (c : Char) : List Char :=
  c :: c.toUpper ::
    (if c = 'i' then [Char.ofNat 0x130, Char.ofNat 0x131]
    else if c = 's' then [Char.ofNat 0x17F]
    else if c = 'k' then [Char.ofNat 0x212A]
    else [])

def char (c : Char) : Regex := .set fun d => d == c

/-- `\s*`. -/
def spaces : Regex := .rep PyConv.isStripped 0

/-- `(?:refresh_token|access_token|id_token)`, in any case. -/
def tokenNames : Regex :=
  .alt (lit letterForms "refresh_token".toList)
    (.alt (lit letterForms "access_token".toList) (lit letterForms "id_token".toList))

/-- `[A-Za-z0-9_-]`. -/
def isTokenChar (c : Char) : Bool := c.isAlphanum || c == '_' || c == '-'

/-- `REDACTED`. -/
def markChars : List Char := ['[', 'R', 'E', 'D', 'A', 'C', 'T', 'E', 'D', ']']

/-- `_JWT`. -/
def jwt : Rule where
  kept := .empty
  masked := .seq (lit (fun c => [c]) "eyJ".toList) (.seq (.rep isTokenChar 1) (.seq (char '.')
    (.seq (.rep isTokenChar 1) (.seq (char '.') (.rep isTokenChar 1)))))
  mask := markChars

/-- `_TOKEN_JSON`. -/
def tokenJson : Rule where
  kept := .seq (char '"') (.seq tokenNames (.seq (char '"') (.seq spaces (.seq (char ':') spaces))))
  masked := .seq (char '"') (.seq (.rep (fun c => c != '"') 0) (char '"'))
  mask := '"' :: (markChars ++ ['"'])

/-- A quoted value on one line. -/
def quoted (q : Char) : Regex := .seq (char q) (.seq (.rep (fun c => c != q && c != '\n') 0) (char q))

def isQuote (c : Char) : Bool := c == '"' || c == '\''

/-- `[^\s"',}]`. -/
def isBare (c : Char) : Bool := !(PyConv.isStripped c || isQuote c || c == ',' || c == '\x7d')

/-- `_TOKEN_KV`. -/
def tokenKv : Rule where
  kept := .seq .bound (.seq tokenNames (.seq spaces (.seq (.set fun c => c == '=' || c == ':') spaces)))
  masked := .alt (quoted '"') (.alt (quoted '\'') (.seq (.alt (.set isQuote) .empty) (.rep isBare 1)))
  mask := markChars

/-- `_SK`. -/
def skKey : Rule where
  kept := .empty
  masked := .seq .bound (.seq (lit (fun c => [c]) "sk-".toList) (.seq (.set Char.isAlphanum) (.rep isTokenChar 8)))
  mask := markChars

/-- `_SESS`. -/
def sessToken : Rule where
  kept := .empty
  masked := .seq .bound (.seq (lit (fun c => [c]) "sess-".toList) (.rep isTokenChar 8))
  mask := markChars

/-- The rules, in the order in which they are applied. -/
def maskRules : List Rule := [tokenJson, tokenKv, jwt, skKey, sessToken]

/-- `redact`. -/
def redact (word : Char → Bool) (text : String) : String :=
  String.ofList (maskRules.foldl (fun cs rule => rule.sub word cs) text.toList)

/-! ### The weight of a text -/

/-- How far a run of marks is from a single one. -/
def gap (m : ℕ) : ℕ := (m - 1) + (1 - m)

-- the first number is how many characters of a mark are still to come, the second the length of the run of marks
def weigh : ℕ → ℕ → List Char → ℕ
  | _, m, [] => gap m
  | skip + 1, m, _ :: cs => weigh skip m cs
  | 0, m, c :: cs => if markChars.isPrefixOf (c :: cs) then weigh 9 (m + 1) cs else 3 + gap m + weigh 0 0 cs

/-- The weight of a text that follows `m` marks. -/
def weight (m : ℕ) (cs : List Char) : ℕ := weigh 0 m cs

theorem weight_nil (m : ℕ) : weight m [] = gap m := rfl

theorem weight_mark (m : ℕ) (t : List Char) : weight m (markChars ++ t) = weight (m + 1) t := by
  simp [weight, weigh, markChars]

theorem weight_cons {c : Char} {t : List Char} (h : ¬ markChars <+: c :: t) (m : ℕ) :
    weight m (c :: t) = 3 + gap m + weight 0 t := by
  have hpre : markChars.isPrefixOf (c :: t) ≠ true := fun hp => h (List.isPrefixOf_iff_prefix.mp hp)
  rw [weight, weigh, if_neg hpre]
  rfl

theorem weight_char {c : Char} (h : c ≠ '[') (m : ℕ) (t : List Char) :
    weight m (c :: t) = 3 + gap m + weight 0 t := by
  refine weight_cons (fun hp => ?_) m
  rw [markChars, List.cons_prefix_cons] at hp
  exact h hp.1.symm

/-- A text is empty, or starts with a mark, or with a character of its own. -/
theorem mark_cases (cs : List Char) :
    cs = [] ∨ (∃ t, cs = markChars ++ t) ∨ ∃ c t, cs = c :: t ∧ ¬ markChars <+: c :: t := by
  cases cs with
  | nil => exact .inl rfl
  | cons c t =>
    by_cases h : markChars <+: c :: t
    · obtain ⟨t', ht⟩ := h
      exact .inr (.inl ⟨t', ht.symm⟩)
    · exact .inr (.inr ⟨c, t, rfl, h⟩)

/-- Induction over a text by marks and characters. -/
theorem mark_induction {R : List Char → Prop} (nil : R []) (mark : ∀ t, R t → R (markChars ++ t))
    (other : ∀ c t, ¬ markChars <+: c :: t → R t → R (c :: t)) (cs : List Char) : R cs := by
  induction hn : cs.length using Nat.strongRecOn generalizing cs with
  | _ n ih =>
    subst hn
    rcases mark_cases cs with rfl | ⟨t, rfl⟩ | ⟨c, t, rfl, hc⟩
    · exact nil
    · exact mark t (ih t.length (by simp [markChars]; omega) t rfl)
    · exact other c t hc (ih t.length (by simp) t rfl)

theorem gap_add_le (m j : ℕ) : gap (m + j) ≤ gap m + j := by
  unfold gap
  omega

/-- A longer run of marks before a text adds at most its length. -/
theorem weight_add_le (t : List Char) : ∀ m j, weight (m + j) t ≤ weight m t + j := by
  induction t using mark_induction with
  | nil => exact gap_add_le
  | mark t ih =>
    intro m j
    rw [weight_mark, weight_mark]
    have h := ih (m + 1) j
    rwa [Nat.add_right_comm] at h
  | other c t hc ih =>
    intro m j
    rw [weight_cons hc, weight_cons hc]
    have h := gap_add_le m j
    omega

/-- Only one mark weighs nothing. -/
theorem weight_eq_zero {t : List Char} (h : weight 0 t = 0) : t = markChars := by
  have hrun : ∀ t m, weight (m + 1) t = 0 → t = [] := by
    intro t
    induction t using mark_induction with
    | nil => exact fun _ _ => rfl
    | mark t ih =>
      intro m hm
      rw [weight_mark] at hm
      obtain rfl := ih (m + 1) hm
      rw [weight_nil, gap] at hm
      omega
    | other c t hc ih =>
      intro m hm
      rw [weight_cons hc] at hm
      omega
  rcases mark_cases t with rfl | ⟨t', rfl⟩ | ⟨c, t', rfl, hc⟩
  · rw [weight_nil, gap] at h
    omega
  · rw [weight_mark] at h
    rw [hrun t' 0 h, List.append_nil]
  · rw [weight_cons hc] at h
    omega

/-- Characters that start no mark. -/
theorem weight_append_plain {x : List Char} (hx : ∀ c ∈ x, c ≠ '[') (hne : x ≠ []) (t : List Char) :
    ∀ m, weight m (x ++ t) + 1 = gap m + 4 * x.length + weight 0 t := by
  induction x with
  | nil => exact absurd rfl hne
  | cons c x ih =>
    intro m
    rw [List.cons_append, weight_char (hx c (by simp)), List.length_cons]
    by_cases hnil : x = []
    · subst hnil
      simp only [List.nil_append, List.length_nil]
      omega
    · have h := ih (fun d hd => hx d (by simp [hd])) hnil 0
      have hgap : gap 0 = 1 := rfl
      omega

/-- A group without an opening bracket: what it weighs, and the run of marks after it. -/
theorem weight_group {g : List Char} (hg : ∀ c ∈ g, c ≠ '[') (m : ℕ) :
    ∃ k j, (g ≠ [] → j = 0) ∧ ∀ t, weight m (g ++ t) = k + weight j t := by
  by_cases hnil : g = []
  · subst hnil
    exact ⟨0, m, fun h => absurd rfl h, fun t => by rw [List.nil_append, Nat.zero_add]⟩
  · have hpos : 0 < g.length := List.length_pos_of_ne_nil hnil
    refine ⟨gap m + 4 * g.length - 1, 0, fun _ => rfl, fun t => ?_⟩
    have h := weight_append_plain hg hnil t m
    omega

/-- A text up to a character that no mark contains. -/
theorem weight_append_cons {d : Char} (hd : d ∉ markChars) (t : List Char) (w : List Char) :
    ∀ m, weight m (w ++ d :: t) = weight m w + 3 + weight 0 t := by
  have hopen : d ≠ '[' := by
    rintro rfl
    exact hd (by decide)
  induction w using mark_induction with
  | nil =>
    intro m
    rw [List.nil_append, weight_char hopen, weight_nil]
    omega
  | mark w ih =>
    intro m
    rw [List.append_assoc, weight_mark, weight_mark, ih]
  | other c w hc ih =>
    intro m
    have hc' : ¬ markChars <+: c :: (w ++ d :: t) := fun hp => hc (prefix_of_prefix_append hd hp)
    rw [List.cons_append, weight_cons hc', weight_cons hc, ih]
    omega

/-! ### A rule makes a text lighter -/

variable {word : Char → Bool} {rule : Rule}

/-- What makes a rule lower the weight: it never starts inside a mark, it keeps no bracket, it takes
something, and what it takes is heavier than what it writes, unless that is the same. -/
structure Lowering (word : Char → Bool) (rule : Rule) : Prop where
  start : ∀ prev u t, u <:+ markChars → u ≠ [] → rule.first word prev (u ++ t) = none
  mask : rule.mask = markChars ∨ rule.mask = '"' :: (markChars ++ ['"'])
  kept : ∀ {prev cs g v rest}, rule.first word prev cs = some (g, v, rest) → ∀ c ∈ g, c ≠ '[' ∧ c ≠ ']'
  taken : ∀ {prev cs g v rest}, rule.first word prev cs = some (g, v, rest) → v ≠ []
  lower : ∀ {prev cs g v rest}, rule.first word prev cs = some (g, v, rest) → ∀ m, (g ≠ [] → m = 0) →
    weight m (rule.mask ++ rest) ≤ weight m (v ++ rest) ∧
      (weight m (rule.mask ++ rest) = weight m (v ++ rest) → v = rule.mask)

/-- What can stand between the start of a mark and its end. -/
theorem suffix_markChars {u : List Char} (h : u <:+ markChars) (hne : u ≠ markChars) :
    '[' ∉ u ∧ '"' ∉ u ∧ (u ≠ [] → ']' ∈ u) := by
  have hall : ∀ u ∈ markChars.tails, u ≠ markChars → '[' ∉ u ∧ '"' ∉ u ∧ (u ≠ [] → ']' ∈ u) := by decide
  exact hall u ((List.mem_tails u markChars).mpr h) hne

theorem suffix_of_cons {c : Char} {u : List Char} (h : c :: u <:+ markChars) :
    u <:+ markChars ∧ u ≠ markChars := by
  refine ⟨(List.suffix_cons c u).trans h, ?_⟩
  rintro rfl
  have hlen := h.length_le
  simp at hlen

namespace Lowering

/-- The rule passes over a mark. -/
theorem subFrom_suffix (hr : Lowering word rule) :
    ∀ (u : List Char) (n : ℕ) (prev : Option Char) (t : List Char),
    u <:+ markChars → u.length ≤ n →
    ∃ prev', rule.subFrom word n prev (u ++ t) = u ++ rule.subFrom word (n - u.length) prev' t
  | [], n, prev, t, _, _ => ⟨prev, rfl⟩
  | c :: u, 0, prev, t, _, hn => absurd hn (Nat.not_succ_le_zero _)
  | c :: u, n + 1, prev, t, hu, hn => by
    obtain ⟨prev', h⟩ := subFrom_suffix hr u n (some c) t (suffix_of_cons hu).1 (Nat.le_of_succ_le_succ hn)
    have hnone := hr.start prev (c :: u) t hu (List.cons_ne_nil _ _)
    refine ⟨prev', ?_⟩
    rw [List.cons_append] at hnone ⊢
    rw [Rule.subFrom, hnone]
    simp only [h, List.length_cons, Nat.add_sub_add_right, List.cons_append]

/-- The rule writes no part of a mark that was not there: the end of a mark is met only inside one. -/
theorem prefix_of_subFrom (hr : Lowering word rule) : ∀ (n : ℕ) (prev : Option Char) (cs u : List Char),
    u <:+ markChars → u ≠ markChars → u <+: rule.subFrom word n prev cs → u <+: cs
  | 0, _, _, _, _, _, h => h
  | _ + 1, _, [], _, _, _, h => h
  | n + 1, prev, c :: t, u, hu, hne, h => by
    obtain ⟨hopen, hquote, hclose⟩ := suffix_markChars hu hne
    rw [Rule.subFrom] at h
    cases hf : rule.first word prev (c :: t) with
    | none =>
      rw [hf] at h
      cases u with
      | nil => exact List.nil_prefix
      | cons d u =>
        obtain ⟨rfl, hpre⟩ := List.cons_prefix_cons.mp h
        obtain ⟨hu', hne'⟩ := suffix_of_cons hu
        exact List.cons_prefix_cons.mpr ⟨rfl, prefix_of_subFrom hr n _ t u hu' hne' hpre⟩
    | some r =>
      obtain ⟨g, v, rest⟩ := r
      rw [hf] at h
      dsimp only at h
      -- the mask starts with a character that `u` lacks, and the kept group has no closing bracket
      obtain ⟨b, mask, hmask, hb⟩ : ∃ b mask, rule.mask = b :: mask ∧ b ∉ u := by
        rcases hr.mask with hm | hm
        · exact ⟨'[', _, hm, hopen⟩
        · exact ⟨'"', _, hm, hquote⟩
      rw [hmask, List.cons_append] at h
      have hpre : u <+: g := prefix_of_prefix_append hb h
      cases hnil : u with
      | nil => exact List.nil_prefix
      | cons d u' =>
        have hmem : ']' ∈ g := hpre.subset (hclose (by simp [hnil]))
        exact absurd rfl (hr.kept hf _ hmem).2

/-- What the mask weighs, and the run of marks after it. -/
theorem weight_mask (hr : Lowering word rule) (m : ℕ) :
    ∃ k j, ∀ t, weight m (rule.mask ++ t) = k + weight j t := by
  rcases hr.mask with hm | hm
  · exact ⟨0, m + 1, fun t => by rw [hm, weight_mark, Nat.zero_add]⟩
  · refine ⟨3 + gap m + (3 + gap (0 + 1)), 0, fun t => ?_⟩
    rw [hm, List.cons_append, weight_char (by decide), List.append_assoc, weight_mark, List.singleton_append,
      weight_char (by decide)]
    omega

/-- **A rule makes a text lighter, or leaves it as it is.** -/
theorem weight_subFrom (hr : Lowering word rule) (n : ℕ) :
    ∀ (prev : Option Char) (cs : List Char), cs.length ≤ n →
    ∀ m, weight m (rule.subFrom word n prev cs) ≤ weight m cs ∧
      (weight m (rule.subFrom word n prev cs) = weight m cs → rule.subFrom word n prev cs = cs) := by
  induction n using Nat.strongRecOn with
  | _ n ih =>
    intro prev cs hn m
    rcases mark_cases cs with rfl | ⟨t, rfl⟩ | ⟨c, t, rfl, hc⟩
    · cases n <;> exact ⟨Nat.le_refl _, fun _ => rfl⟩
    · -- a mark is passed over
      have hlen : markChars.length = 10 := rfl
      rw [List.length_append] at hn
      obtain ⟨prev', h⟩ := hr.subFrom_suffix markChars n prev t List.suffix_rfl (by omega)
      obtain ⟨hle, heq⟩ := ih (n - markChars.length) (by omega) prev' t (by omega) (m + 1)
      rw [h, weight_mark, weight_mark]
      exact ⟨hle, fun hw => by rw [heq hw]⟩
    · obtain ⟨n, rfl⟩ : ∃ k, n = k + 1 := ⟨n - 1, by simp only [List.length_cons] at hn; omega⟩
      rw [Rule.subFrom]
      cases hf : rule.first word prev (c :: t) with
      | none =>
        dsimp only
        obtain ⟨hle, heq⟩ := ih n (Nat.lt_succ_self n) (some c) t (Nat.le_of_succ_le_succ hn) 0
        have hout : ¬ markChars <+: c :: rule.subFrom word n (some c) t := by
          intro hp
          rw [markChars, List.cons_prefix_cons] at hp
          refine hc ?_
          rw [markChars, List.cons_prefix_cons]
          exact ⟨hp.1, hr.prefix_of_subFrom n _ t _ (by decide) (by decide) hp.2⟩
        rw [weight_cons hout, weight_cons hc]
        exact ⟨by omega, fun hw => by rw [heq (by omega)]⟩
      | some r =>
        obtain ⟨g, v, rest⟩ := r
        dsimp only
        obtain ⟨hsplit, -, -⟩ := Rule.first_spec hf
        have hv := hr.taken hf
        have hrest : rest.length ≤ n := by
          have hlen := congrArg List.length hsplit
          have hpos : 0 < v.length := List.length_pos_of_ne_nil hv
          simp only [List.length_append, List.length_cons] at hlen hn
          omega
        have hopen : ∀ x ∈ g, x ≠ '[' := fun x hx => (hr.kept hf x hx).1
        obtain ⟨k, j, hj, hgroup⟩ := weight_group hopen m
        obtain ⟨hle, heq⟩ := hr.lower hf j hj
        obtain ⟨k', j', hmask⟩ := hr.weight_mask j
        obtain ⟨hle', heq'⟩ := ih n (Nat.lt_succ_self n) (lastOr prev (g ++ v)) rest hrest j'
        have hbefore := hmask rest
        rw [hsplit, hgroup, hgroup, hmask]
        refine ⟨by omega, fun hw => ?_⟩
        rw [heq' (by omega), heq (by omega)]

end Lowering

/-! ### The five rules -/

/-- A rule without a group that takes characters other than an opening bracket. -/
theorem lowering_of_plain (hkept : rule.kept = .empty) (hmask : rule.mask = markChars)
    (hin : Within (fun c => c ≠ '[') rule.masked) (hleast : 0 < least rule.masked)
    (hstart : ∀ prev u t, u <:+ markChars → u ≠ [] → spans word rule.masked prev (u ++ t) = []) :
    Lowering word rule := by
  have hmatch : ∀ {prev cs g v rest}, rule.first word prev cs = some (g, v, rest) →
      g = [] ∧ (v, rest) ∈ spans word rule.masked (lastOr prev g) (v ++ rest) := by
    intro prev cs g v rest h
    obtain ⟨-, hg, hv⟩ := Rule.first_spec h
    rw [hkept] at hg
    exact ⟨(Prod.mk.inj (List.mem_singleton.mp hg)).1, List.mem_of_mem_head? hv⟩
  have hpos : ∀ {prev cs g v rest}, rule.first word prev cs = some (g, v, rest) → 0 < v.length := by
    intro prev cs g v rest h
    exact hleast.trans_le (least_le_of_mem_spans (hmatch h).2)
  refine ⟨fun prev u t hu hne => Rule.first_of_masked_nil hkept (hstart prev u t hu hne), .inl hmask, ?_, ?_, ?_⟩
  · intro prev cs g v rest h c hc
    rw [(hmatch h).1] at hc
    cases hc
  · intro prev cs g v rest h
    exact List.ne_nil_of_length_pos (hpos h)
  · intro prev cs g v rest h m _
    have hlen := hpos h
    have htaken := weight_append_plain (all_of_mem_spans hin (hmatch h).2) (List.ne_nil_of_length_pos hlen) rest m
    have hmarked := weight_add_le rest 0 (m + 1)
    have hgap : m ≤ gap m + 1 := by
      unfold gap
      omega
    dsimp only at htaken
    rw [hmask, weight_mark]
    rw [Nat.zero_add] at hmarked
    exact ⟨by omega, fun hw => by omega⟩

theorem isTokenChar_ne {c : Char} (h : isTokenChar c = true) : c ≠ '[' := by
  rintro rfl
  exact absurd h (by decide)

theorem char_iff {c d : Char} : (d == c) = true ↔ d = c := beq_iff_eq

theorem head_of_suffix {u : List Char} (hu : u <:+ markChars) (hne : u ≠ []) :
    ∃ c t, u = c :: t ∧ c ∈ markChars := by
  cases u with
  | nil => exact absurd rfl hne
  | cons c t => exact ⟨c, t, rfl, hu.subset (by simp)⟩

/-- No literal that starts with a character outside the mark is met in a mark. -/
theorem spans_lit_mark {a : Char} (ha : a ∉ markChars) (s : List Char) (b : Regex) (prev : Option Char)
    {u : List Char} (t : List Char) (hu : u <:+ markChars) (hne : u ≠ []) :
    spans word (.seq (lit (fun c => [c]) (a :: s)) b) prev (u ++ t) = [] := by
  obtain ⟨c, u', rfl, hc⟩ := head_of_suffix hu hne
  refine spans_seq_of_nil fun r hr => ?_
  obtain ⟨r', hr', -⟩ := mem_spans_seq.mp hr
  obtain ⟨d, t', heq, hd, -⟩ := mem_spans_set.mp hr'
  obtain rfl : d = a := by simpa using hd
  obtain rfl : c = d := (List.cons.inj heq).1
  exact absurd hc ha

theorem spans_bound {b : Regex} {prev : Option Char} {cs : List Char} (h : spans word b prev cs = []) :
    spans word (.seq .bound b) prev cs = [] := by
  refine spans_seq_of_nil fun r hr => ?_
  by_cases hb : isBound word prev cs.head? = true
  · obtain rfl : r = ([], cs) := by simpa [spans, hb] using hr
    exact h
  · simp [spans, hb] at hr

theorem jwt_lowering : Lowering word jwt := by
  refine lowering_of_plain rfl rfl ?_ (by decide) fun prev u t hu hne => ?_
  · refine ⟨within_lit_of_all (by decide), fun c => isTokenChar_ne, ?_, fun c => isTokenChar_ne, ?_, fun c => isTokenChar_ne⟩
    all_goals
      intro c hc
      rw [char_iff.mp hc]
      decide
  · exact spans_lit_mark (by decide) _ _ prev t hu hne

theorem skKey_lowering : Lowering word skKey := by
  refine lowering_of_plain rfl rfl ?_ (by decide) fun prev u t hu hne => ?_
  · refine ⟨trivial, within_lit_of_all (by decide), fun c hc => ?_, fun c => isTokenChar_ne⟩
    rintro rfl
    exact absurd hc (by decide)
  · exact spans_bound (spans_lit_mark (by decide) _ _ prev t hu hne)

theorem sessToken_lowering : Lowering word sessToken := by
  refine lowering_of_plain rfl rfl ?_ (by decide) fun prev u t hu hne => ?_
  · exact ⟨trivial, within_lit_of_all (by decide), fun c => isTokenChar_ne⟩
  · exact spans_bound (spans_lit_mark (by decide) _ _ prev t hu hne)

/-- No bracket: neither a token name nor what stands around it has one. -/
def isInner (c : Char) : Prop := c ≠ '[' ∧ c ≠ ']'

instance : DecidablePred isInner := fun c => inferInstanceAs (Decidable (c ≠ '[' ∧ c ≠ ']'))

theorem within_char {c : Char} (h : isInner c) : Within isInner (char c) := by
  intro d hd
  rw [char_iff.mp hd]
  exact h

theorem within_tokenNames : Within isInner tokenNames :=
  ⟨within_lit_of_all (by decide), within_lit_of_all (by decide), within_lit_of_all (by decide)⟩

theorem within_spaces : Within isInner spaces := by
  intro c hc
  refine ⟨?_, ?_⟩
  · rintro rfl
    exact absurd hc (by decide)
  · rintro rfl
    exact absurd hc (by decide)

theorem isInner_quote : isInner '"' := ⟨by decide, by decide⟩

/-- A quoted value weighs what it holds and its two quotes. -/
theorem weight_quoted {q : Char} (hq : q ∉ markChars) (w rest : List Char) (m : ℕ) :
    weight m (q :: (w ++ q :: rest)) = 3 + gap m + (weight 0 w + 3 + weight 0 rest) := by
  have hopen : q ≠ '[' := by
    rintro rfl
    exact hq (by decide)
  rw [weight_char hopen, weight_append_cons hq]

theorem quoted_spec {q : Char} {p : Char → Bool} {prev : Option Char} {cs v rest : List Char}
    (h : (v, rest) ∈ spans word (.seq (char q) (.seq (.rep p 0) (char q))) prev cs) :
    ∃ w, v = q :: (w ++ [q]) := by
  obtain ⟨s, hs, t, ht, heq⟩ := mem_spans_seq.mp h
  obtain ⟨c, u, -, hc, rfl⟩ := mem_spans_set.mp hs
  obtain ⟨s', hs', t', ht', rfl⟩ := mem_spans_seq.mp ht
  obtain ⟨d, u', -, hd, rfl⟩ := mem_spans_set.mp ht'
  obtain rfl := char_iff.mp hc
  obtain rfl := char_iff.mp hd
  exact ⟨s'.1, (Prod.mk.inj heq).1⟩

theorem tokenJson_lowering : Lowering word tokenJson := by
  have hkept : Within isInner tokenJson.kept :=
    ⟨within_char isInner_quote, within_tokenNames, within_char isInner_quote, within_spaces,
      within_char ⟨by decide, by decide⟩, within_spaces⟩
  have hmatch : ∀ {prev cs g v rest}, tokenJson.first word prev cs = some (g, v, rest) →
      ∃ w, v = '"' :: (w ++ ['"']) := by
    intro prev cs g v rest h
    obtain ⟨-, -, hv⟩ := Rule.first_spec h
    exact quoted_spec (List.mem_of_mem_head? hv)
  refine ⟨fun prev u t hu hne => Rule.first_of_kept_nil ?_, .inr rfl, ?_, ?_, ?_⟩
  · obtain ⟨c, u', rfl, hc⟩ := head_of_suffix hu hne
    refine spans_seq_set_of_not ?_
    have hq : c ≠ '"' := by
      rintro rfl
      exact absurd hc (by decide)
    simpa using hq
  · intro prev cs g v rest h
    exact all_of_mem_spans hkept (Rule.first_spec h).2.1
  · intro prev cs g v rest h
    obtain ⟨w, rfl⟩ := hmatch h
    exact List.cons_ne_nil _ _
  · intro prev cs g v rest h m _
    obtain ⟨w, rfl⟩ := hmatch h
    have hmask : weight 0 markChars = 0 := rfl
    simp only [tokenJson, List.cons_append, List.append_assoc, List.nil_append]
    rw [weight_quoted (by decide), weight_quoted (by decide), hmask]
    refine ⟨by omega, fun hw => ?_⟩
    rw [weight_eq_zero (by omega : weight 0 w = 0)]

/-- No token name is met in a mark. -/
theorem spans_tokenNames_mark (prev : Option Char) {u : List Char} (t : List Char) (hu : u <:+ markChars)
    (hne : u ≠ []) : spans word tokenNames prev (u ++ t) = [] := by
  have hall : ∀ u ∈ markChars.tails, u ≠ [] → ∀ t, spans word tokenNames prev (u ++ t) = [] := by
    intro u hu hne t
    simp only [markChars, List.tails, List.mem_cons, List.not_mem_nil, or_false] at hu
    rcases hu with rfl | rfl | rfl | rfl | rfl | rfl | rfl | rfl | rfl | rfl | rfl
    all_goals first
      | exact absurd rfl hne
      | rfl
  exact hall u ((List.mem_tails u markChars).mpr hu) hne t

/-- The first match of a group and a run ends where the run does. -/
theorem head_spans_seq_rep {a : Regex} {p : Char → Bool} {least : ℕ} {prev : Option Char}
    {cs v rest : List Char}
    (h : (spans word (.seq a (.rep p least)) prev cs).head? = some (v, rest)) :
    ∃ s ∈ spans word a prev cs, ∃ w, v = s.1 ++ w ∧ least ≤ w.length ∧ ∀ c ∈ rest.head?, p c = false := by
  rw [spans, List.head?_flatMap, List.findSome?_eq_some_iff] at h
  obtain ⟨l₁, s, l₂, hspans, hhead, -⟩ := h
  rw [List.head?_map, Option.map_eq_some_iff] at hhead
  obtain ⟨t, ht, heq⟩ := hhead
  obtain ⟨rfl, rfl⟩ := Prod.mk.inj heq
  refine ⟨s, by rw [hspans]; simp, t.1, rfl, (mem_spans_rep (List.mem_of_mem_head? ht)).2.2, head_spans_rep ht⟩

/-- What a `key=value` match takes: a quoted text, or bare characters up to the next delimiter, after a
quote or not. -/
theorem tokenKv_spec {prev : Option Char} {cs v rest : List Char}
    (h : (spans word tokenKv.masked prev cs).head? = some (v, rest)) :
    (∃ q w, isQuote q = true ∧ v = q :: (w ++ [q])) ∨
      ∃ w, w ≠ [] ∧ (∀ c ∈ rest.head?, isBare c = false) ∧ (v = w ∨ ∃ q, isQuote q = true ∧ v = q :: w) := by
  have halt : spans word tokenKv.masked prev cs = spans word (quoted '"') prev cs ++ (spans word (quoted '\'') prev cs ++
      spans word (.seq (.alt (.set isQuote) .empty) (.rep isBare 1)) prev cs) := rfl
  rw [halt, List.head?_append, List.head?_append] at h
  cases h1 : (spans word (quoted '"') prev cs).head? with
  | some r =>
    rw [h1] at h
    obtain rfl : r = (v, rest) := by simpa using h
    obtain ⟨w, rfl⟩ := quoted_spec (List.mem_of_mem_head? h1)
    exact .inl ⟨'"', w, rfl, rfl⟩
  | none =>
    cases h2 : (spans word (quoted '\'') prev cs).head? with
    | some r =>
      rw [h1, h2] at h
      obtain rfl : r = (v, rest) := by simpa using h
      obtain ⟨w, rfl⟩ := quoted_spec (List.mem_of_mem_head? h2)
      exact .inl ⟨'\'', w, rfl, rfl⟩
    | none =>
      rw [h1, h2, Option.none_or, Option.none_or] at h
      obtain ⟨s, hs, w, rfl, hw, hrest⟩ := head_spans_seq_rep h
      refine .inr ⟨w, List.ne_nil_of_length_pos hw, hrest, ?_⟩
      rcases List.mem_append.mp hs with hs | hs
      · obtain ⟨q, t, -, hq, rfl⟩ := mem_spans_set.mp hs
        exact .inr ⟨q, hq, rfl⟩
      · obtain rfl : s = ([], cs) := by simpa [spans] using hs
        exact .inl rfl

theorem not_mem_of_isQuote {q : Char} (h : isQuote q = true) : q ∉ markChars := by
  rcases Bool.or_eq_true _ _ |>.mp h with hq | hq
  · rw [beq_iff_eq.mp hq]
    decide
  · rw [beq_iff_eq.mp hq]
    decide

/-- A run of bare characters weighs at least what a mark in its place does. -/
theorem weight_bare (w : List Char) {rest : List Char} (hrest : ∀ c ∈ rest.head?, isBare c = false) :
    weight 0 (w ++ rest) = weight 0 w + weight 0 (markChars ++ rest) := by
  have hmark : weight 0 markChars = 0 := rfl
  cases rest with
  | nil => rw [List.append_nil, List.append_nil, hmark, Nat.add_zero]
  | cons d t =>
    have hd : d ∉ markChars := by
      have hbare : isBare d = false := hrest d (by simp)
      intro hmem
      have hall : markChars.all isBare = true := by decide
      rw [List.all_eq_true.mp hall d hmem] at hbare
      cases hbare
    rw [weight_append_cons hd, weight_append_cons hd, hmark]
    omega

theorem tokenKv_lowering : Lowering word tokenKv := by
  have hkept : Within isInner tokenKv.kept := by
    refine ⟨trivial, within_tokenNames, within_spaces, fun c hc => ?_, within_spaces⟩
    rcases Bool.or_eq_true _ _ |>.mp hc with hc | hc
    · rw [beq_iff_eq.mp hc]
      exact ⟨by decide, by decide⟩
    · rw [beq_iff_eq.mp hc]
      exact ⟨by decide, by decide⟩
  have hgroup : ∀ {prev cs g v rest}, tokenKv.first word prev cs = some (g, v, rest) → g ≠ [] := by
    intro prev cs g v rest h
    have hleast : least tokenKv.kept = 9 := rfl
    have hlen := least_le_of_mem_spans (Rule.first_spec h).2.1
    exact List.ne_nil_of_length_pos (by rw [hleast] at hlen; exact Nat.lt_of_lt_of_le (by decide) hlen)
  refine ⟨fun prev u t hu hne => Rule.first_of_kept_nil ?_, .inl rfl, ?_, ?_, ?_⟩
  · refine spans_bound (spans_seq_of_nil fun s hs => ?_)
    rw [spans_tokenNames_mark prev t hu hne] at hs
    cases hs
  · intro prev cs g v rest h
    exact all_of_mem_spans hkept (Rule.first_spec h).2.1
  · intro prev cs g v rest h
    rcases tokenKv_spec (Rule.first_spec h).2.2 with ⟨q, w, -, rfl⟩ | ⟨w, hw, -, rfl | ⟨q, -, rfl⟩⟩
    · exact List.cons_ne_nil _ _
    · exact hw
    · exact List.cons_ne_nil _ _
  · intro prev cs g v rest h m hm
    obtain rfl := hm (hgroup h)
    have hmask : tokenKv.mask = markChars := rfl
    have hgap : gap 0 = 1 := rfl
    rw [hmask]
    rcases tokenKv_spec (Rule.first_spec h).2.2 with ⟨q, w, hq, rfl⟩ | ⟨w, hw, hrest, rfl | ⟨q, hq, rfl⟩⟩
    · have hone := weight_add_le rest 0 1
      have hquoted := weight_quoted (not_mem_of_isQuote hq) w rest 0
      rw [weight_mark, List.cons_append, List.append_assoc, List.singleton_append]
      exact ⟨by omega, fun heq => by omega⟩
    · rw [weight_bare v hrest]
      exact ⟨by omega, fun heq => weight_eq_zero (by omega)⟩
    · have hopen : q ≠ '[' := fun hq' => not_mem_of_isQuote hq (by rw [hq']; decide)
      have hchar := weight_char hopen 0 (w ++ rest)
      rw [weight_bare w hrest] at hchar
      rw [List.cons_append]
      exact ⟨by omega, fun heq => by omega⟩

/-! ### The whole pass -/

theorem maskRules_lowering : ∀ rule ∈ maskRules, Lowering word rule := by
  intro rule hrule
  simp only [maskRules, List.mem_cons, List.not_mem_nil, or_false] at hrule
  rcases hrule with rfl | rfl | rfl | rfl | rfl
  · exact tokenJson_lowering
  · exact tokenKv_lowering
  · exact jwt_lowering
  · exact skKey_lowering
  · exact sessToken_lowering

theorem weight_foldl_sub {rules : List Rule} (h : ∀ rule ∈ rules, Lowering word rule) : ∀ cs : List Char,
    weight 0 (rules.foldl (fun cs rule => rule.sub word cs) cs) ≤ weight 0 cs ∧
      (weight 0 (rules.foldl (fun cs rule => rule.sub word cs) cs) = weight 0 cs →
        rules.foldl (fun cs rule => rule.sub word cs) cs = cs) := by
  induction rules with
  | nil => exact fun cs => ⟨Nat.le_refl _, fun _ => rfl⟩
  | cons rule rules ih =>
    intro cs
    obtain ⟨hle, heq⟩ := (h rule (by simp)).weight_subFrom cs.length none cs (Nat.le_refl _) 0
    obtain ⟨hle', heq'⟩ := ih (fun r hr => h r (by simp [hr])) (rule.sub word cs)
    rw [List.foldl_cons]
    have hsub : rule.sub word cs = rule.subFrom word cs.length none cs := rfl
    rw [hsub] at hle' heq' ⊢
    refine ⟨hle'.trans hle, fun hw => ?_⟩
    rw [heq' (by omega), heq (by omega)]

/-- **A pass that changes a text makes it lighter.** -/
theorem weight_redact (word : Char → Bool) {text : String} (h : redact word text ≠ text) :
    weight 0 (redact word text).toList < weight 0 text.toList := by
  have hrules : ∀ rule ∈ maskRules, Lowering word rule := maskRules_lowering
  obtain ⟨hle, heq⟩ := weight_foldl_sub hrules text.toList
  have htext : (redact word text).toList = maskRules.foldl (fun cs rule => rule.sub word cs) text.toList :=
    String.toList_ofList
  rw [htext]
  refine lt_of_le_of_ne hle fun hw => h ?_
  rw [redact, heq hw, String.ofList_toList]

end Broker.Agent
