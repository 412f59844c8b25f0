import Broker.Agent.Masking
import Broker.Lib.Seams

/-!
# Broker.Agent.RedactFields — what the patterns of the redaction match

A key starts with `e` or `s`, holds no bracket and goes on as far as it can.  A token field is a group, in
which no other field starts, and a value: between quotes, or a run of bare characters.  A mark that no bare
character follows is a whole value.
-/

namespace Broker.Agent

open Broker.Lib Regex

variable {word : Char → Bool}

/-! ### The keys -/

/-- A rule for keys: it has no group, and its matches start with `e` or `s`, consist of token characters and
dots, do not depend on what follows them, and stop where no token character is left. -/
structure Keyish (word : Char → Bool) (rule : Rule) : Prop where
  kept : rule.kept = .empty
  mask : rule.mask = markChars
  start : ∀ {prev cs x y}, (x, y) ∈ spans word rule.masked prev cs → ∃ c t, x = c :: t ∧ (c = 'e' ∨ c = 's')
  token : ∀ {prev cs x y}, (x, y) ∈ spans word rule.masked prev cs → ∀ c ∈ x, isTokenChar c = true ∨ c = '.'
  greedy : EndsGreedy word isTokenChar rule.masked
  span : ∀ {prev x y}, (x, y) ∈ spans word rule.masked prev (x ++ y) → ∀ y',
    (x, y') ∈ spans word rule.masked prev (x ++ y')

theorem start_of_lit {a : Char} {s : List Char} {b : Regex} {prev : Option Char} {cs x y : List Char}
    (h : (x, y) ∈ spans word (.seq (lit (fun c => [c]) (a :: s)) b) prev cs) : ∃ t, x = a :: t := by
  obtain ⟨r, hr, t, -, heq⟩ := mem_spans_seq.mp h
  obtain ⟨r', hr', t', -, rfl⟩ := mem_spans_seq.mp hr
  obtain ⟨d, u, -, hd, rfl⟩ := mem_spans_set.mp hr'
  obtain ⟨rfl, -⟩ := Prod.mk.inj heq
  obtain rfl : d = a := by simpa using hd
  exact ⟨_, rfl⟩

theorem within_token : ∀ c, isTokenChar c = true → isTokenChar c = true ∨ c = '.' := fun _ => .inl

theorem jwt_keyish : Keyish word jwt where
  kept := rfl
  mask := rfl
  start h := by
    obtain ⟨t, rfl⟩ := start_of_lit h
    exact ⟨_, _, rfl, .inl rfl⟩
  token h := by
    refine all_of_mem_spans ?_ h
    refine ⟨within_lit_of_all (by decide), within_token, ?_, within_token, ?_, within_token⟩
    all_goals exact fun c hc => .inr (char_iff.mp hc)
  greedy := endsGreedy_seq _ (endsGreedy_seq _ (endsGreedy_seq _ (endsGreedy_seq _ (endsGreedy_seq _
    (endsGreedy_rep _ _)))))
  span h y' :=
    have hfree : BoundFree jwt.masked := ⟨boundFree_lit _ _, trivial, trivial, trivial, trivial, trivial⟩
    spans_local hfree h _ y'

/-- A key behind `\b`. -/
theorem keyish_of_bound {rule : Rule} {s : List Char} {b : Regex} (hkept : rule.kept = .empty)
    (hmask : rule.mask = markChars)
    (hmasked : rule.masked = .seq .bound (.seq (lit (fun c => [c]) ('s' :: s)) b))
    (hs : Within (fun c => isTokenChar c = true ∨ c = '.') (lit (fun c => [c]) ('s' :: s)))
    (hb : Within (fun c => isTokenChar c = true ∨ c = '.') b) (hgreedy : EndsGreedy word isTokenChar b)
    (hfree : BoundFree b) : Keyish word rule where
  kept := hkept
  mask := hmask
  start h := by
    rw [hmasked] at h
    obtain ⟨t, rfl⟩ := start_of_lit (mem_spans_seq_bound.mp h).2
    exact ⟨_, _, rfl, .inr rfl⟩
  token h := by
    rw [hmasked] at h
    exact all_of_mem_spans (show Within _ (.seq (lit (fun c => [c]) ('s' :: s)) b) from ⟨hs, hb⟩)
      (mem_spans_seq_bound.mp h).2
  greedy := by
    rw [hmasked]
    exact endsGreedy_seq _ (endsGreedy_seq _ hgreedy)
  span h y' := by
    rw [hmasked] at h ⊢
    obtain ⟨hbound, hspan⟩ := mem_spans_seq_bound.mp h
    obtain ⟨t, rfl⟩ := start_of_lit hspan
    have hfree' : BoundFree (.seq (lit (fun c => [c]) ('s' :: s)) b) := ⟨boundFree_lit _ _, hfree⟩
    exact mem_spans_seq_bound.mpr ⟨hbound, spans_local hfree' hspan _ y'⟩

theorem skKey_keyish : Keyish word skKey := by
  have halnum : ∀ c, Char.isAlphanum c = true → isTokenChar c = true ∨
    c = '.' := fun c hc => .inl (by simp [isTokenChar, hc])
  exact keyish_of_bound rfl rfl rfl (within_lit_of_all (by decide)) ⟨halnum, within_token⟩
    (endsGreedy_seq _ (endsGreedy_rep _ _)) ⟨trivial, trivial⟩

theorem sessToken_keyish : Keyish word sessToken :=
  keyish_of_bound rfl rfl rfl (within_lit_of_all (by decide)) within_token (endsGreedy_rep _ _) trivial

namespace Keyish

variable {rule : Rule} {prev : Option Char} {cs g v rest o : List Char}

theorem first_spec (hr : Keyish word rule) (h : rule.first word prev cs = some (g, v, rest)) :
    g = [] ∧ cs = v ++ rest ∧ (v, rest) ∈ spans word rule.masked prev (v ++ rest) ∧
      ∀ c ∈ rest.head?, isTokenChar c = false := by
  obtain ⟨hsplit, hg, hv⟩ := Rule.first_spec h
  rw [hr.kept] at hg
  obtain ⟨rfl, -⟩ := Prod.mk.inj (List.mem_singleton.mp hg)
  exact ⟨rfl, hsplit, List.mem_of_mem_head? hv, hr.greedy _ _ _ hv⟩

theorem first_ne_none (hr : Keyish word rule) (h : (v, rest) ∈ spans word rule.masked prev cs) :
    rule.first word prev cs ≠ none := by
  refine Rule.first_ne_none (g := []) (z := cs) ?_ (List.ne_nil_of_mem h)
  rw [hr.kept]
  exact List.mem_singleton.mpr rfl

theorem taken (hr : Keyish word rule) (h : rule.first word prev cs = some (g, v, rest)) : v ≠ [] := by
  obtain ⟨-, -, hv, -⟩ := hr.first_spec h
  obtain ⟨c, t, rfl, -⟩ := hr.start hv
  exact List.cons_ne_nil _ _

theorem not_open (hr : Keyish word rule) (h : (v, rest) ∈ spans word rule.masked prev cs) : '[' ∉ v := by
  intro hmem
  rcases hr.token h _ hmem with hc | hc
  · exact absurd hc (by decide)
  · exact absurd hc (by decide)

/-- No match starts inside a mark. -/
theorem absent_mark (hr : Keyish word rule) (t : List Char) :
    ∀ u w, markChars = u ++ w → w ≠ [] → rule.AbsentAt word (lastOr prev u) (w ++ t) := by
  intro u w huw hw
  refine Option.eq_none_iff_forall_ne_some.mpr fun r hfirst => ?_
  obtain ⟨g, v, rest⟩ := r
  obtain ⟨-, hsplit, hv, -⟩ := hr.first_spec hfirst
  obtain ⟨c, v', rfl, hc⟩ := hr.start hv
  obtain ⟨d, w', rfl⟩ := List.exists_cons_of_ne_nil hw
  obtain ⟨rfl, -⟩ := List.cons.inj hsplit
  have hmem : d ∈ markChars := by
    rw [huw]
    simp
  rcases hc with rfl | rfl <;> exact absurd hmem (by decide)

/-- **A pass for keys leaves no key of a kind that it removes or that was not there**: a match in the new text
lies in a gap, and does not start right behind a mark. -/
theorem absent_rewrites {key : Rule} {Q : List Char → List Char → List Char → Prop} (hkey : Keyish word key)
    (hr : Keyish word rule) (h : Rule.Rewrites word rule Q prev cs o) :
    (key = rule ∨ AllPos (key.AbsentAt word) prev cs) → ∀ before,
      (before = prev ∨ ∀ c ∈ cs.head?, isTokenChar c = false) → AllPos (key.AbsentAt word) before o := by
  induction h with
  | nil prev =>
    intro _ before _
    refine Option.eq_none_iff_forall_ne_some.mpr fun r hfirst => ?_
    obtain ⟨g, v, rest⟩ := r
    obtain ⟨-, hsplit, hv, -⟩ := hkey.first_spec hfirst
    obtain ⟨c, t, rfl, -⟩ := hkey.start hv
    cases hsplit
  | @keep prev c cs o hnone hrest ih =>
    intro habs before hbefore
    refine ⟨Option.eq_none_iff_forall_ne_some.mpr fun r hfirst => ?_, ih (habs.imp id And.right) _ (.inl rfl)⟩
    obtain ⟨g, v, rest⟩ := r
    obtain ⟨-, hsplit, hv, -⟩ := hkey.first_spec hfirst
    -- the match stands in the old text as well
    have hmask : rule.mask = [] ++ '[' :: markChars.tail := hr.mask
    have hpre : v <+: c :: cs := by
      refine (Rule.Rewrites.keep hnone hrest).prefix_of_not_mem hmask (fun _ => List.nil_prefix)
        (hkey.not_open hv) ⟨rest, hsplit.symm⟩
    obtain ⟨y, hy⟩ := hpre
    have hold : (v, y) ∈ spans word key.masked before (c :: cs) := by
      rw [← hy]
      exact hkey.span hv y
    obtain ⟨d, t, rfl, hd⟩ := hkey.start hv
    obtain ⟨rfl, -⟩ := List.cons.inj hy
    rcases hbefore with rfl | hhead
    · have hgap : key.first word before (d :: cs) = none := by
        rcases habs with rfl | habs
        · exact hnone
        · exact habs.1
      exact hkey.first_ne_none hold hgap
    · have htoken := hhead d rfl
      rcases hd with rfl | rfl <;> exact absurd htoken (by decide)
  | @mask prev cs g v rest o out hf hQ hrest hout ih =>
    intro habs before _
    obtain ⟨rfl, hsplit, -, hend⟩ := hr.first_spec hf
    rw [hout, hr.mask, List.nil_append]
    refine AllPos.append (hkey.absent_mark o) (ih (habs.imp id fun h => ?_) _ (.inr hend))
    rw [hsplit] at h
    exact h.drop

end Keyish

/-! ### The groups of the token fields -/

/-- The characters of the token names, in every form. -/
def nameForms : List Char :=
  ("refresh_token".toList ++ ("access_token".toList ++ "id_token".toList)).flatMap letterForms

/-- Those that a token name starts with. -/
def initialForms : List Char := ['r', 'a', 'i'].flatMap letterForms

theorem isBare_of_initial {c : Char} (h : c ∈ initialForms) : isBare c = true :=
  List.all_eq_true.mp (show initialForms.all isBare = true by decide) c h

theorem quote_not_initial : '"' ∉ initialForms := by decide

/-- What stands between a name and a value is no part of a name. -/
theorem not_initial_of_blank {c : Char} (h : PyConv.isStripped c = true ∨ c = '=' ∨ c = ':') :
    c ∉ initialForms := by
  intro hc
  have hbare := isBare_of_initial hc
  rcases h with h | rfl | rfl
  · simp [isBare, h] at hbare
  · exact absurd hc (by decide)
  · exact absurd hc (by decide)

variable {prev : Option Char} {cs g z x y name : List Char}

theorem lit_start {a : Char} {s : List Char} (h : (x, y) ∈ spans word (lit letterForms (a :: s)) prev cs) :
    ∃ c t, cs = c :: t ∧ c ∈ letterForms a ∧ ∃ t', x = c :: t' := by
  obtain ⟨r, hr, t, -, heq⟩ := mem_spans_seq.mp h
  obtain ⟨c, u, rfl, hc, rfl⟩ := mem_spans_set.mp hr
  obtain ⟨rfl, -⟩ := Prod.mk.inj heq
  exact ⟨c, u, rfl, by simpa using hc, _, rfl⟩

theorem name_start (h : (x, y) ∈ spans word tokenNames prev cs) : ∃ c t, x = c :: t ∧ c ∈ initialForms := by
  have hmem : ∀ {a s}, a ∈ ['r', 'a', 'i'] → (x, y) ∈ spans word (lit letterForms (a :: s)) prev cs →
      ∃ c t, x = c :: t ∧ c ∈ initialForms := by
    intro a s ha h
    obtain ⟨c, -, -, hc, t, rfl⟩ := lit_start h
    exact ⟨c, t, rfl, List.mem_flatMap.mpr ⟨a, ha, hc⟩⟩
  rcases List.mem_append.mp h with h | h
  · exact hmem (a := 'r') (by simp) h
  · rcases List.mem_append.mp h with h | h
    · exact hmem (a := 'a') (by simp) h
    · exact hmem (a := 'i') (by simp) h

theorem within_names : Within (· ∈ nameForms) tokenNames :=
  ⟨within_lit_of_all (by decide), within_lit_of_all (by decide), within_lit_of_all (by decide)⟩

theorem lit_disjoint {a b : Char} {s t : List Char}
    (hab : (letterForms a).all (fun c => !(letterForms b).contains c) = true)
    (h : spans word (lit letterForms (a :: s)) prev cs ≠ []) :
      spans word (lit letterForms (b :: t)) prev cs = [] := by
  obtain ⟨⟨x, y⟩, hx⟩ := List.exists_mem_of_ne_nil _ h
  obtain ⟨c, u, rfl, hc, -⟩ := lit_start hx
  refine List.eq_nil_iff_forall_not_mem.mpr fun r hr => ?_
  obtain ⟨c', u', heq, hc', -⟩ := lit_start (x := r.1) (y := r.2) hr
  obtain ⟨rfl, -⟩ := List.cons.inj heq
  have hnot := List.all_eq_true.mp hab c hc
  simp [hc'] at hnot

theorem sole_names : Sole word (fun _ => True) tokenNames := by
  refine sole_alt (sole_lit _ _) (sole_alt (sole_lit _ _) (sole_lit _ _) fun _ _ => ?_) ?_
  · exact lit_disjoint (by decide)
  intro prev cs h
  refine List.append_eq_nil_iff.mpr ⟨lit_disjoint (by decide) h, lit_disjoint (by decide) h⟩

/-- A text that does not start with a blank. -/
def NotBlank (z : List Char) : Prop := ∀ c ∈ z.head?, PyConv.isStripped c = false

/-- The blanks around a separator are all taken. -/
theorem sole_separator {p : Char → Bool} (hp : ∀ c, p c = true → PyConv.isStripped c = false) :
    Sole word NotBlank (.seq spaces (.seq (.set p) spaces)) := by
  have hsole : Sole word NotBlank (.seq (.set p) spaces) :=
    sole_seq (M := fun _ => True) (sole_set p) (sole_rep _ _) fun _ _ _ => trivial
  refine sole_seq (sole_rep _ _) hsole ?_
  intro prev z hz c hc
  obtain ⟨r, hr⟩ := List.exists_mem_of_ne_nil _ hz
  obtain ⟨s, hs, -, -, -⟩ := mem_spans_seq.mp hr
  obtain ⟨d, t, rfl, hd, -⟩ := mem_spans_set.mp hs
  obtain rfl : d = c := by simpa using hc
  exact hp d hd

theorem blank_of_separator {p : Char → Bool}
    (h : (x, y) ∈ spans word (.seq spaces (.seq (.set p) spaces)) prev cs) :
    ∀ c ∈ x, PyConv.isStripped c = true ∨ p c = true :=
  all_of_mem_spans (p := fun c => PyConv.isStripped c = true ∨ p c = true)
    (show Within _ (.seq spaces (.seq (.set p) spaces)) from ⟨fun _ => .inl, fun _ => .inr, fun _ => .inl⟩) h

/-- The group of a `key=value` field. -/
theorem kv_group (h : (g, z) ∈ spans word tokenKv.kept prev cs) :
    isBound word prev cs.head? = true ∧ ∃ name tail, g = name ++ tail ∧
      (∃ c t, name = c :: t ∧ c ∈ initialForms) ∧
      (∀ c ∈ name, c ∈ nameForms) ∧
      ∀ c ∈ tail, PyConv.isStripped c = true ∨ c = '=' ∨ c = ':' := by
  obtain ⟨hbound, h⟩ := mem_spans_seq_bound.mp h
  obtain ⟨⟨name, y⟩, hname, ⟨tail, z'⟩, htail, heq⟩ := mem_spans_seq.mp h
  obtain ⟨rfl, -⟩ := Prod.mk.inj heq
  refine ⟨hbound, name, tail, rfl, name_start hname, all_of_mem_spans within_names hname, fun c hc => ?_⟩
  exact (blank_of_separator htail c hc).imp id fun hsep => by simpa using hsep

/-- The group of a JSON field. -/
theorem json_group (h : (g, z) ∈ spans word tokenJson.kept prev cs) :
    ∃ name tail, g = '"' :: (name ++ '"' :: tail) ∧ (∃ c t, name = c :: t ∧ c ∈ initialForms) ∧
      (∀ c ∈ name, c ∈ nameForms) ∧ (∀ c ∈ tail, PyConv.isStripped c = true ∨ c = ':') ∧
      ∀ prev t, (name, t) ∈ spans word tokenNames prev (name ++ t) := by
  obtain ⟨s₁, hopen, s₂, hs₂, heq⟩ := mem_spans_seq.mp h
  obtain ⟨c, t₁, -, hc, rfl⟩ := mem_spans_set.mp hopen
  obtain rfl := char_iff.mp hc
  obtain ⟨⟨name, y⟩, hname, s₃, hs₃, rfl⟩ := mem_spans_seq.mp hs₂
  obtain ⟨s₄, hclose, ⟨tail, z'⟩, htail, rfl⟩ := mem_spans_seq.mp hs₃
  obtain ⟨d, t₂, -, hd, rfl⟩ := mem_spans_set.mp hclose
  obtain rfl := char_iff.mp hd
  have hfree : BoundFree tokenNames := ⟨boundFree_lit _ _, boundFree_lit _ _, boundFree_lit _ _⟩
  obtain ⟨rfl, -⟩ := Prod.mk.inj heq
  refine ⟨name, tail, rfl, name_start hname, all_of_mem_spans within_names hname, fun c hc => ?_,
    fun prev t => ?_⟩
  · exact (blank_of_separator htail c hc).imp id char_iff.mp
  · have hsplit : name ++ y = t₁ := append_of_mem_spans hname
    dsimp only at hname
    rw [← hsplit] at hname
    exact spans_local hfree hname prev t

/-- The group of a `key=value` field behind its `\b`. -/
def kvField : Regex := .seq tokenNames (.seq spaces (.seq (.set fun c => c == '=' || c == ':') spaces))

theorem kv_free : BoundFree kvField :=
  ⟨⟨boundFree_lit _ _, boundFree_lit _ _, boundFree_lit _ _⟩, trivial, trivial, trivial⟩

theorem json_free : BoundFree tokenJson.kept :=
  ⟨trivial, ⟨boundFree_lit _ _, boundFree_lit _ _, boundFree_lit _ _⟩, trivial, trivial, trivial, trivial⟩

/-- The group of a field is found again with another text behind it. -/
theorem kv_group_local (h : (g, z) ∈ spans word tokenKv.kept prev (g ++ z)) (z' : List Char) :
    (g, z') ∈ spans word tokenKv.kept prev (g ++ z') := by
  obtain ⟨hbound, name, tail, rfl, ⟨c, t, rfl, -⟩, -⟩ := kv_group h
  exact mem_spans_seq_bound.mpr ⟨hbound, spans_local kv_free (mem_spans_seq_bound.mp h).2 _ z'⟩

theorem kv_group_unique {g' z' : List Char} (h : (g, z) ∈ spans word tokenKv.kept prev cs)
    (h' : (g', z') ∈ spans word tokenKv.kept prev cs) (hz : NotBlank z) (hz' : NotBlank z') :
      g = g' ∧ z = z' := by
  have hsole : Sole word NotBlank kvField := by
    refine sole_seq sole_names (sole_separator fun c hc => ?_) fun _ _ _ => trivial
    rcases Bool.or_eq_true _ _ |>.mp hc with hc | hc
    · rw [beq_iff_eq.mp hc]
      decide
    · rw [beq_iff_eq.mp hc]
      decide
  exact Prod.mk.inj (hsole prev cs _ _ (mem_spans_seq_bound.mp h).2 (mem_spans_seq_bound.mp h').2 hz hz')

theorem json_group_unique {g' z' : List Char} (h : (g, z) ∈ spans word tokenJson.kept prev cs)
    (h' : (g', z') ∈ spans word tokenJson.kept prev cs) (hz : NotBlank z) (hz' : NotBlank z') :
      g = g' ∧ z = z' := by
  have hsole : Sole word NotBlank tokenJson.kept := by
    have hcolon : ∀ c, (c == ':') = true → PyConv.isStripped c = false := by
      intro c hc
      rw [char_iff.mp hc]
      decide
    have hclose : Sole word NotBlank (.seq (char '"') (.seq spaces (.seq (char ':') spaces))) :=
      sole_seq (M := fun _ => True) (sole_set _) (sole_separator hcolon) fun _ _ _ => trivial
    exact sole_seq (M := fun _ => True) (sole_set _) (sole_seq sole_names hclose fun _ _ _ => trivial)
      fun _ _ _ => trivial
  exact Prod.mk.inj (hsole prev cs _ _ h h' hz hz')

/-! ### Where no field starts -/

theorem kv_absent_of_not_initial {c : Char} (hc : c ∉ initialForms) (prev : Option Char) (t : List Char) :
    tokenKv.AbsentAt word prev (c :: t) := by
  refine Option.eq_none_iff_forall_ne_some.mpr fun r hfirst => ?_
  obtain ⟨g, v, rest⟩ := r
  obtain ⟨hsplit, hg, -⟩ := Rule.first_spec hfirst
  obtain ⟨-, name, tail, rfl, ⟨d, u, rfl, hd⟩, -⟩ := kv_group hg
  obtain ⟨rfl, -⟩ := List.cons.inj hsplit
  exact hc hd

theorem json_absent_of_ne {c : Char} (hc : c ≠ '"') (prev : Option Char) (t : List Char) :
    tokenJson.AbsentAt word prev (c :: t) :=
  Rule.first_of_kept_nil (spans_seq_set_of_not (by simpa using hc))

/-- No name starts behind the quote. -/
theorem json_absent_of_not_initial {c : Char} (hc : c ∉ initialForms) (prev : Option Char) (t : List Char) :
    tokenJson.AbsentAt word prev ('"' :: c :: t) := by
  refine Option.eq_none_iff_forall_ne_some.mpr fun r hfirst => ?_
  obtain ⟨g, v, rest⟩ := r
  obtain ⟨hsplit, hg, -⟩ := Rule.first_spec hfirst
  obtain ⟨name, tail, rfl, ⟨d, u, rfl, hd⟩, -⟩ := json_group hg
  obtain ⟨-, htail⟩ := List.cons.inj hsplit
  obtain ⟨rfl, -⟩ := List.cons.inj htail
  exact hc hd

theorem absent_nil {rule : Rule} (hgroup : ∀ {g z}, (g, z) ∈ spans word rule.kept prev [] → g ≠ []) :
    rule.AbsentAt word prev [] := by
  refine Option.eq_none_iff_forall_ne_some.mpr fun r hfirst => ?_
  obtain ⟨g, v, rest⟩ := r
  obtain ⟨hsplit, hg, -⟩ := Rule.first_spec hfirst
  exact hgroup hg (List.append_eq_nil_iff.mp hsplit.symm).1

theorem kv_absent_nil : tokenKv.AbsentAt word prev [] := by
  refine absent_nil fun hg => ?_
  obtain ⟨-, name, tail, rfl, ⟨c, t, rfl, -⟩, -⟩ := kv_group hg
  simp

theorem json_absent_nil : tokenJson.AbsentAt word prev [] := by
  refine absent_nil fun hg => ?_
  obtain ⟨name, tail, rfl, -⟩ := json_group hg
  simp

/-- Between two characters of a name there is no `\b`, and behind the name no name starts. -/
theorem kv_absent_behind (hword : ∀ c ∈ nameForms, word c = true) {tail : List Char}
    (hname : ∀ c ∈ name, c ∈ nameForms) (htail : ∀ c ∈ tail, c ∉ initialForms) (t : List Char) :
    ∀ u w, name ++ tail = u ++ w → u ≠ [] → w ≠ [] → tokenKv.AbsentAt word (lastOr prev u) (w ++ t) := by
  intro u w huw hu hw
  obtain ⟨c, w, rfl⟩ := List.exists_cons_of_ne_nil hw
  by_cases hc : c ∈ initialForms
  · rcases List.append_eq_append_iff.mp huw with ⟨a, rfl, hsplit⟩ | ⟨a, rfl, hsplit⟩
    · exact absurd hc (htail c (by rw [hsplit]; simp))
    · cases a with
      | nil => exact absurd hc (htail c (by rw [← List.nil_append tail, ← hsplit]; simp))
      | cons d a =>
        obtain ⟨rfl, -⟩ := List.cons.inj hsplit
        have hlast : u.getLast hu ∈ nameForms := hname _ (by simp)
        have hcword : word c = true := hword c (hname c (by simp))
        have hprev : lastOr prev u = some (u.getLast hu) := by
          rw [lastOr, List.getLast?_eq_getLast_of_ne_nil hu]
          rfl
        refine Option.eq_none_iff_forall_ne_some.mpr fun r hfirst => ?_
        obtain ⟨g, v, rest⟩ := r
        obtain ⟨-, hg, -⟩ := Rule.first_spec hfirst
        obtain ⟨hbound, -⟩ := kv_group hg
        simp [hprev, isBound, hword _ hlast, hcword] at hbound
  · exact kv_absent_of_not_initial hc _ _

/-! ### The values of the token fields -/

theorem isBare_mark : ∀ c ∈ markChars, isBare c = true :=
  fun c hc => List.all_eq_true.mp (show markChars.all isBare = true by decide) c hc

/-- The spans of a delimited text. -/
theorem mem_delimited {q : Char} {p : Char → Bool} :
    (x, y) ∈ spans word (.seq (char q) (.seq (.rep p 0) (char q))) prev z ↔
      ∃ w, x = q :: (w ++ [q]) ∧ (∀ c ∈ w, p c = true) ∧ z = x ++ y := by
  constructor
  · intro h
    have hsplit : x ++ y = z := append_of_mem_spans h
    obtain ⟨s, hs, t, ht, heq⟩ := mem_spans_seq.mp h
    obtain ⟨c, u, -, hc, rfl⟩ := mem_spans_set.mp hs
    obtain ⟨⟨w, y'⟩, hw, t', ht', rfl⟩ := mem_spans_seq.mp ht
    obtain ⟨d, u', -, hd, rfl⟩ := mem_spans_set.mp ht'
    obtain rfl := char_iff.mp hc
    obtain rfl := char_iff.mp hd
    obtain ⟨-, hall, -⟩ := mem_spans_rep_iff.mp hw
    exact ⟨w, (Prod.mk.inj heq).1, hall, hsplit.symm⟩
  · rintro ⟨w, rfl, hall, rfl⟩
    refine mem_spans_seq.mpr ⟨([q], w ++ q :: y), mem_spans_set.mpr ⟨q, _, by simp, by simp, rfl⟩, ?_⟩
    refine ⟨(w ++ [q], y), mem_spans_seq.mpr ⟨(w, q :: y), ?_, ?_⟩, rfl⟩
    · exact mem_spans_rep_iff.mpr ⟨rfl, hall, Nat.zero_le _⟩
    · exact ⟨([q], y), mem_spans_set.mpr ⟨q, y, rfl, by simp, rfl⟩, rfl⟩

/-- A value of a `key=value` field starts here. -/
def ValueStart (z : List Char) : Prop :=
  ∃ c t, z = c :: t ∧ (isBare c = true ∨ isQuote c = true ∧
    ((∃ w t', t = w ++ c :: t' ∧ '\n' ∉ w) ∨ ∃ d t', t = d :: t' ∧ isBare d = true))

theorem ValueStart.notBlank (h : ValueStart z) : NotBlank z := by
  obtain ⟨c, t, rfl, hc⟩ := h
  intro d hd
  obtain rfl : c = d := by simpa using hd
  rcases hc with hc | ⟨hc, -⟩
  · simp only [isBare, Bool.not_eq_true', Bool.or_eq_false_iff] at hc
    exact hc.1.1.1
  · rcases Bool.or_eq_true _ _ |>.mp hc with hc | hc
    · rw [beq_iff_eq.mp hc]
      decide
    · rw [beq_iff_eq.mp hc]
      decide

theorem quoted_spans {q : Char} (hz : spans word (quoted q) prev z ≠ []) :
    ∃ w t, z = q :: (w ++ q :: t) ∧ '\n' ∉ w := by
  obtain ⟨⟨x, y⟩, hx⟩ := List.exists_mem_of_ne_nil _ hz
  obtain ⟨w, rfl, hall, rfl⟩ := mem_delimited.mp hx
  refine ⟨w, y, by simp, fun hmem => ?_⟩
  have hline := hall _ hmem
  simp at hline

theorem spans_quoted {q : Char} {w t : List Char} (hw : '\n' ∉ w) :
    spans word (quoted q) prev (q :: (w ++ q :: t)) ≠ [] := by
  -- the value ends at the first quote
  have hmem : q ∈ w ++ q :: t := by simp
  obtain ⟨w', t', hsplit, hfirst⟩ := List.eq_append_cons_of_mem hmem
  have hpre : w' <+: w := prefix_of_prefix_append (t := t) hfirst ⟨q :: t', hsplit.symm⟩
  have hspan : (q :: (w' ++ [q]), t') ∈ spans word (quoted q) prev (q :: (w ++ q :: t)) := by
    refine mem_delimited.mpr ⟨w', rfl, fun c hc => ?_, by simp [hsplit]⟩
    have hq : c ≠ q := by
      rintro rfl
      exact hfirst hc
    have hn : c ≠ '\n' := by
      rintro rfl
      exact hw (hpre.subset hc)
    simp [hq, hn]
  exact List.ne_nil_of_mem hspan

theorem spans_kv_masked (prev : Option Char) (z : List Char) :
    spans word tokenKv.masked prev z = spans word (quoted '"') prev z ++ (spans word (quoted '\'') prev z ++
      spans word (.seq (.alt (.set isQuote) .empty) (.rep isBare 1)) prev z) := rfl

theorem bare_of_spans {r : List Char × List Char} (h : r ∈ spans word (.rep isBare 1) prev z) :
    ∃ d t, z = d :: t ∧ isBare d = true := by
  obtain ⟨hsplit, hall, hlen⟩ := mem_spans_rep h
  obtain ⟨d, x, hx⟩ := List.exists_cons_of_length_pos (by omega : 0 < r.1.length)
  refine ⟨d, x ++ r.2, by rw [← hsplit, hx, List.cons_append], hall d (by simp [hx])⟩

theorem spans_of_bare {d : Char} (hd : isBare d = true) (t : List Char) :
    ([d], t) ∈ spans word (.rep isBare 1) prev (d :: t) :=
  mem_spans_rep_iff.mpr ⟨rfl, by simpa using hd, Nat.le_refl 1⟩

/-- Where a value of a `key=value` field starts. -/
theorem kv_masked_iff : spans word tokenKv.masked prev z ≠ [] ↔ ValueStart z := by
  constructor
  · intro h
    have hquoted : ∀ {q}, isQuote q = true → spans word (quoted q) prev z ≠ [] → ValueStart z := by
      intro q hq hz
      obtain ⟨w, t, rfl, hw⟩ := quoted_spans hz
      exact ⟨q, _, rfl, .inr ⟨hq, .inl ⟨w, t, rfl, hw⟩⟩⟩
    by_cases h1 : spans word (quoted '"') prev z ≠ []
    · exact hquoted rfl h1
    by_cases h2 : spans word (quoted '\'') prev z ≠ []
    · exact hquoted rfl h2
    rw [spans_kv_masked, not_not.mp h1, not_not.mp h2, List.nil_append, List.nil_append] at h
    obtain ⟨r, hr⟩ := List.exists_mem_of_ne_nil _ h
    obtain ⟨s, hs, t, ht, -⟩ := mem_spans_seq.mp hr
    obtain ⟨d, t', hd, hbare⟩ := bare_of_spans ht
    rcases List.mem_append.mp hs with hs | hs
    · obtain ⟨q, u, rfl, hq, rfl⟩ := mem_spans_set.mp hs
      exact ⟨q, u, rfl, .inr ⟨hq, .inr ⟨d, t', hd, hbare⟩⟩⟩
    · obtain rfl : s = ([], z) := by simpa [spans] using hs
      exact ⟨d, t', hd, .inl hbare⟩
  · rintro ⟨c, t, rfl, hc⟩
    have hseq : ∀ {s}, s ∈ spans word (.alt (.set isQuote) .empty) prev (c :: t) →
        (∃ d u, s.2 = d :: u ∧ isBare d = true) → spans word tokenKv.masked prev (c :: t) ≠ [] := by
      rintro s hs ⟨d, u, hsu, hd⟩
      have hmem : (s.1 ++ [d], u) ∈
          spans word (.seq (.alt (.set isQuote) .empty) (.rep isBare 1)) prev (c :: t) := by
        refine mem_spans_seq.mpr ⟨s, hs, ([d], u), ?_, rfl⟩
        rw [hsu]
        exact spans_of_bare hd u
      rw [spans_kv_masked]
      exact List.ne_nil_of_mem (List.mem_append_right _ (List.mem_append_right _ hmem))
    rcases hc with hc | ⟨hq, ⟨w, t', rfl, hw⟩ | ⟨d, t', rfl, hd⟩⟩
    · exact hseq (s := ([], c :: t)) (List.mem_append_right _ (List.mem_singleton.mpr rfl)) ⟨c, t, rfl, hc⟩
    · intro hnil
      rw [spans_kv_masked] at hnil
      obtain ⟨h1, h2⟩ := List.append_eq_nil_iff.mp hnil
      rcases Bool.or_eq_true _ _ |>.mp hq with hc | hc
      · obtain rfl := beq_iff_eq.mp hc
        exact spans_quoted hw h1
      · obtain rfl := beq_iff_eq.mp hc
        exact spans_quoted hw (List.append_eq_nil_iff.mp h2).1
    · have hmem : ([c], d :: t') ∈ spans word (.set isQuote) prev (c :: d :: t') :=
        mem_spans_set.mpr ⟨c, _, rfl, hq, rfl⟩
      exact hseq (List.mem_append_left _ hmem) ⟨d, t', rfl, hd⟩

/-- A text whose first character belongs to no run of bare characters. -/
def Ends (z : List Char) : Prop := ∀ c ∈ z.head?, isBare c = false

instance : Decidable (Ends z) :=
  decidable_of_iff (z.head?.all (fun c => !isBare c) = true) (by simp [Ends, Option.all_eq_true])

/-- A mark that nothing follows is a whole value. -/
theorem value_of_mark {v rest t : List Char} (ht : Ends t)
    (h : (spans word tokenKv.masked prev (markChars ++ t)).head? = some (v, rest)) :
      v = markChars ∧ rest = t := by
  have hrep : spans word tokenKv.masked prev (markChars ++ t) =
      (spans word (.rep isBare 1) prev (markChars ++ t)).map fun r => ([] ++ r.1, r.2) := by
    rw [spans_kv_masked]
    exact List.append_nil _
  rw [hrep, List.head?_map, Option.map_eq_some_iff] at h
  obtain ⟨r, hr, heq⟩ := h
  obtain ⟨rfl, rfl⟩ := Prod.mk.inj heq
  have hmark : (markChars, t) ∈ spans word (.rep isBare 1) prev (markChars ++ t) :=
    mem_spans_rep_iff.mpr ⟨rfl, isBare_mark, by decide⟩
  have hsole : Sole word Ends (.rep isBare 1) := sole_rep isBare 1
  rw [hsole prev _ r _ (List.mem_of_mem_head? hr) hmark (head_spans_rep hr) ht]
  exact ⟨rfl, rfl⟩

/-- A value that is the mark ends there. -/
theorem ends_of_value {rest : List Char}
    (h : (spans word tokenKv.masked prev z).head? = some (markChars, rest)) :
    z = markChars ++ rest ∧ Ends rest := by
  have hsplit : markChars ++ rest = z := append_of_mem_spans (List.mem_of_mem_head? h)
  refine ⟨hsplit.symm, ?_⟩
  have hfirst : ∀ {q : Char} {w : List Char}, isQuote q = true → markChars = q :: w → False := by
    intro q w hq hmark
    obtain rfl : '[' = q := (List.cons.inj hmark).1
    exact absurd hq (by decide)
  rcases tokenKv_spec h with ⟨q, w, hq, hmark⟩ | ⟨w, -, hrest, hmark | ⟨q, hq, hmark⟩⟩
  · exact (hfirst hq hmark).elim
  · exact hrest
  · exact (hfirst hq hmark).elim

end Broker.Agent
