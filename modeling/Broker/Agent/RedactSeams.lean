import Broker.Agent.RedactFields

/-!
# Broker.Agent.RedactSeams — what one redaction leaves

The passes for JWTs, `sk-` keys and `sess-` tokens leave none of their own, and none that an earlier one
has removed: a mark is no part of a match, and what follows a match does not go on with it.  A token
field is different.  Its quoted value ends at the quote and its unquoted value at a delimiter, so the
mark that replaces `"a"` in `access_token="a"b` runs on into the `b`: the text still holds a field whose
value is not the mark.
-/

namespace Broker.Agent

open Broker.Lib Regex

variable {word : Char → Bool} {rule : Rule} {Q : List Char → List Char → List Char → Prop}
  {prev before : Option Char} {cs o g z x y name : List Char}

/-! ### A rule that writes the mark -/

/-- A rule that writes the mark: what it takes starts with a bare character and stays on one line, and
its group holds no quote. -/
structure Tame (word : Char → Bool) (rule : Rule) : Prop where
  lowering : Lowering word rule
  mask : rule.mask = markChars
  start : ∀ {prev c cs}, isBare c = false → rule.first word prev (c :: cs) = none
  group : ∀ {prev cs g v rest q}, rule.first word prev cs = some (g, v, rest) → isQuote q = true → q ∉ g
  line : ∀ {prev cs g v rest}, rule.first word prev cs = some (g, v, rest) → '\n' ∉ v

theorem Keyish.tame (hr : Keyish word rule) (hlow : Lowering word rule) : Tame word rule where
  lowering := hlow
  mask := hr.mask
  start := by
    intro prev c cs hc
    refine Option.eq_none_iff_forall_ne_some.mpr fun r hfirst => ?_
    obtain ⟨g, v, rest⟩ := r
    obtain ⟨-, hsplit, hv, -⟩ := hr.first_spec hfirst
    obtain ⟨d, v', rfl, hd⟩ := hr.start hv
    obtain ⟨rfl, -⟩ := List.cons.inj hsplit
    rcases hd with rfl | rfl <;> exact absurd hc (by decide)
  group := by
    intro prev cs g v rest q hfirst _ hq
    rw [(hr.first_spec hfirst).1] at hq
    cases hq
  line := by
    intro prev cs g v rest hfirst hn
    obtain ⟨-, -, hv, -⟩ := hr.first_spec hfirst
    rcases hr.token hv _ hn with hc | hc
    · exact absurd hc (by decide)
    · exact absurd hc (by decide)

theorem nameForms_inner : ∀ c ∈ nameForms, isQuote c = false := by
  intro c hc
  simpa using List.all_eq_true.mp (show (nameForms.all fun c => !isQuote c) = true by decide) c hc

theorem kv_line {v rest : List Char} (h : (spans word tokenKv.masked prev z).head? = some (v, rest)) :
    '\n' ∉ v := by
  have hin : Within (fun c => c ≠ '\n') tokenKv.masked := by
    have hquoted : ∀ q, q ≠ '\n' → Within (fun c => c ≠ '\n') (quoted q) := by
      intro q hq
      refine ⟨fun c hc => ?_, fun c hc => ?_, fun c hc => ?_⟩
      · rwa [char_iff.mp hc]
      · simp only [Bool.and_eq_true, bne_iff_ne] at hc
        exact hc.2
      · rwa [char_iff.mp hc]
    refine ⟨hquoted _ (by decide), hquoted _ (by decide), ⟨fun c hc => ?_, trivial⟩, fun c hc => ?_⟩
    · rintro rfl
      exact absurd hc (by decide)
    · rintro rfl
      exact absurd hc (by decide)
  intro hn
  exact all_of_mem_spans hin (List.mem_of_mem_head? h) _ hn rfl

theorem kv_tame : Tame word tokenKv where
  lowering := tokenKv_lowering
  mask := rfl
  start := by
    intro prev c cs hc
    refine kv_absent_of_not_initial (fun hmem => ?_) _ _
    rw [isBare_of_initial hmem] at hc
    cases hc
  group := by
    intro prev cs g v rest q hfirst hq hmem
    obtain ⟨-, hg, -⟩ := Rule.first_spec hfirst
    obtain ⟨-, name, tail, rfl, -, hname, htail⟩ := kv_group hg
    rcases List.mem_append.mp hmem with hmem | hmem
    · rw [nameForms_inner q (hname q hmem)] at hq
      cases hq
    · rcases htail q hmem with h | rfl | rfl
      · rcases Bool.or_eq_true _ _ |>.mp hq with hq | hq
        · rw [beq_iff_eq.mp hq] at h
          exact absurd h (by decide)
        · rw [beq_iff_eq.mp hq] at h
          exact absurd h (by decide)
      · exact absurd hq (by decide)
      · exact absurd hq (by decide)
  line hfirst := kv_line (Rule.first_spec hfirst).2.2

namespace Tame

/-- A mark is copied. -/
theorem copies_mark (ht : Tame word rule) (h : Rule.Rewrites word rule Q prev (markChars ++ z) o) :
    ∃ zs, o = markChars ++ zs ∧ Rule.Rewrites word rule Q (lastOr prev markChars) z zs :=
  h.copies fun u w huw hw => ht.lowering.start _ w z ⟨u, huw.symm⟩ hw

/-- A text that starts with no bare character keeps its start. -/
theorem head_eq (ht : Tame word rule) (h : Rule.Rewrites word rule Q prev cs o) (hcs : Ends cs) :
    o.head? = cs.head? := by
  cases h with
  | nil => rfl
  | keep => rfl
  | mask hf =>
    cases cs with
    | nil =>
      obtain ⟨hsplit, -, -⟩ := Rule.first_spec hf
      have hv := (List.append_eq_nil_iff.mp (List.append_eq_nil_iff.mp hsplit.symm).2).1
      exact absurd hv (ht.lowering.taken hf)
    | cons c cs =>
      rw [ht.start (hcs c rfl)] at hf
      cases hf

theorem ends (ht : Tame word rule) (h : Rule.Rewrites word rule Q prev cs o) (hcs : Ends cs) : Ends o := by
  intro c hc
  rw [ht.head_eq h hcs] at hc
  exact hcs c hc

/-- A bare character at the start was one before. -/
theorem bare_of_rewrites (ht : Tame word rule) {d : Char} (h : Rule.Rewrites word rule Q prev cs (d :: o))
    (hd : isBare d = true) : ∃ d' t, cs = d' :: t ∧ isBare d' = true := by
  cases cs with
  | nil =>
    have hhead := ht.head_eq h fun c hc => by cases hc
    cases hhead
  | cons c cs =>
    refine ⟨c, cs, rfl, ?_⟩
    by_contra hc
    have hend : Ends (c :: cs) := by
      intro c' hc'
      obtain rfl : c = c' := by simpa using hc'
      simpa using hc
    have hhead := ht.ends h hend d rfl
    rw [hd] at hhead
    cases hhead

/-- A quote at the start is an old one. -/
theorem keep_of_quote (ht : Tame word rule) {q : Char} (h : Rule.Rewrites word rule Q prev cs (q :: o))
    (hq : isQuote q = true) : ∃ t, cs = q :: t ∧ Rule.Rewrites word rule Q (some q) t o := by
  have hmark : rule.mask = '[' :: markChars.tail := ht.mask
  refine Rule.Rewrites.split_of_end (x := []) hmark (fun hf => ht.group hf hq) h fun hmem => ?_
  obtain rfl : '[' = q := by simpa using hmem
  exact absurd hq (by decide)

/-- A closing quote on the line was one before. -/
theorem closing (ht : Tame word rule) {q : Char} (hq : isQuote q = true)
    (h : Rule.Rewrites word rule Q prev cs o) :
    ∀ w t, o = w ++ q :: t → '\n' ∉ w → ∃ w' t', cs = w' ++ q :: t' ∧ '\n' ∉ w' := by
  induction h with
  | nil prev =>
    intro w t ho
    simp at ho
  | @keep prev c cs o _ _ ih =>
    intro w t ho hw
    cases w with
    | nil =>
      obtain ⟨rfl, -⟩ := List.cons.inj ho
      exact ⟨[], cs, rfl, hw⟩
    | cons d w =>
      obtain ⟨rfl, hrest⟩ := List.cons.inj ho
      obtain ⟨w', t', rfl, hw'⟩ := ih w t hrest fun hmem => hw (List.mem_cons_of_mem _ hmem)
      refine ⟨c :: w', t', rfl, fun hmem => ?_⟩
      rcases List.mem_cons.mp hmem with rfl | hmem
      · exact hw List.mem_cons_self
      · exact hw' hmem
  | @mask prev cs g v rest o out hf _ _ hout ih =>
    intro w t ho hw
    obtain ⟨hsplit, -, -⟩ := Rule.first_spec hf
    have hnot : q ∉ g ++ markChars := by
      intro hmem
      rcases List.mem_append.mp hmem with hmem | hmem
      · exact ht.group hf hq hmem
      · exact not_mem_of_isQuote hq hmem
    -- the group and the mask stand before the quote
    have hpre : g ++ markChars <+: w := by
      refine prefix_of_prefix_append (t := t) hnot ⟨o, ?_⟩
      rw [← ho, hout, ht.mask, List.append_assoc]
    obtain ⟨w₁, rfl⟩ := hpre
    rw [hout, ht.mask] at ho
    have ho' : o = w₁ ++ q :: t := by simpa using ho
    obtain ⟨w', t', rfl, hw'⟩ := ih w₁ t ho' fun hmem => hw (List.mem_append_right _ hmem)
    refine ⟨g ++ (v ++ w'), t', by rw [hsplit]; simp, fun hmem => ?_⟩
    rcases List.mem_append.mp hmem with hmem | hmem
    · exact hw (List.mem_append_left _ (List.mem_append_left _ hmem))
    · rcases List.mem_append.mp hmem with hmem | hmem
      · exact ht.line hf hmem
      · exact hw' hmem

/-- Where a value starts in the new text, one started in the old. -/
theorem valueStart (ht : Tame word rule) (h : Rule.Rewrites word rule Q prev z o) (ho : ValueStart o) :
    ValueStart z := by
  obtain ⟨c, t, rfl, hc | ⟨hq, hrest⟩⟩ := ho
  · obtain ⟨d, t', rfl, hd⟩ := ht.bare_of_rewrites h hc
    exact ⟨d, t', rfl, .inl hd⟩
  · obtain ⟨t', rfl, ht'⟩ := ht.keep_of_quote h hq
    refine ⟨c, t', rfl, .inr ⟨hq, ?_⟩⟩
    rcases hrest with ⟨w, t₁, rfl, hw⟩ | ⟨d, t₁, rfl, hd⟩
    · exact .inl (ht.closing hq ht' w t₁ rfl hw)
    · exact .inr (ht.bare_of_rewrites ht' hd)

end Tame

/-! ### JSON fields -/

theorem spans_json_masked {w t : List Char} (hw : '"' ∉ w) (prev : Option Char) :
    ('"' :: (w ++ ['"']), t) ∈ spans word tokenJson.masked prev ('"' :: (w ++ '"' :: t)) := by
  refine mem_delimited.mpr ⟨w, rfl, fun c hc => ?_, by simp⟩
  have hne : c ≠ '"' := by
    rintro rfl
    exact hw hc
  simpa using hne

/-- A match for a JSON field: the group, and a value between quotes. -/
theorem json_first_spec {v rest : List Char} (h : tokenJson.first word prev cs = some (g, v, rest)) :
    ∃ w, '"' ∉ w ∧ v = '"' :: (w ++ ['"']) ∧ cs = g ++ '"' :: (w ++ '"' :: rest) ∧
      (g, '"' :: (w ++ '"' :: rest)) ∈ spans word tokenJson.kept prev cs := by
  obtain ⟨hsplit, hg, hv⟩ := Rule.first_spec h
  obtain ⟨w, rfl, hall, -⟩ := mem_delimited.mp (List.mem_of_mem_head? hv)
  refine ⟨w, fun hmem => ?_, rfl, by simpa using hsplit, by simpa using hg⟩
  have hne := hall _ hmem
  simp at hne

/-- A group before a quoted text is found, with that text as the value. -/
theorem json_first_of_group {w t : List Char} (hw : '"' ∉ w)
    (hg : (g, '"' :: (w ++ '"' :: t)) ∈ spans word tokenJson.kept prev cs) :
    tokenJson.first word prev cs = some (g, '"' :: (w ++ ['"']), t) := by
  cases hfirst : tokenJson.first word prev cs with
  | none => exact absurd hfirst (Rule.first_ne_none hg (List.ne_nil_of_mem (spans_json_masked hw _)))
  | some r =>
    obtain ⟨g', v, rest⟩ := r
    obtain ⟨w', hw', rfl, -, hg'⟩ := json_first_spec hfirst
    have hquote : ∀ t, NotBlank ('"' :: t) := by
      intro t c hc
      obtain rfl : '"' = c := by simpa using hc
      decide
    obtain ⟨rfl, hz⟩ := json_group_unique hg' hg (hquote _) (hquote _)
    have hval : w' ++ '"' :: rest = w ++ '"' :: t := (List.cons.inj hz).2
    obtain rfl : w' = w := by
      refine List.IsPrefix.eq_of_length_le (prefix_of_prefix_append (t := t) hw' ⟨'"' :: rest, hval⟩) ?_
      exact (prefix_of_prefix_append (t := rest) hw ⟨'"' :: t, hval.symm⟩).length_le
    obtain rfl : rest = t := (List.cons.inj (List.append_cancel_left hval)).2
    rfl

/-- A group that a quote follows, in another text. -/
theorem json_group_moved {z' : List Char} (h : (g, z) ∈ spans word tokenJson.kept prev (g ++ z))
    (prev' : Option Char) :
    (g, z') ∈ spans word tokenJson.kept prev' (g ++ z') :=
  spans_local json_free h prev' z'

theorem json_first_congr (prev prev' : Option Char) (cs : List Char) :
    tokenJson.first word prev cs = tokenJson.first word prev' cs :=
  Rule.first_congr json_free ⟨trivial, trivial, trivial⟩ prev prev' cs

theorem json_masked_congr {prev' : Option Char} (h : tokenJson.MaskedAt word prev cs) :
    tokenJson.MaskedAt word prev' cs := by
  intro g v rest hfirst
  rw [json_first_congr prev' prev] at hfirst
  exact h g v rest hfirst

theorem not_open_of_json_group (h : (g, z) ∈ spans word tokenJson.kept prev cs) : '[' ∉ g := by
  obtain ⟨name, tail, rfl, -, hname, htail, -⟩ := json_group h
  intro hmem
  rcases List.mem_cons.mp hmem with hc | hmem
  · exact absurd hc (by decide)
  rcases List.mem_append.mp hmem with hmem | hmem
  · exact absurd (hname _ hmem) (by decide)
  rcases List.mem_cons.mp hmem with hc | hmem
  · exact absurd hc (by decide)
  · rcases htail _ hmem with hc | hc
    · exact absurd hc (by decide)
    · exact absurd hc (by decide)

/-- What a text that starts with the mark of a JSON field gives its value. -/
theorem json_value_of_mark {w rest t : List Char}
    (hw : '"' ∉ w) (h : w ++ '"' :: rest = markChars ++ '"' :: t) :
    w = markChars := by
  refine List.IsPrefix.eq_of_length_le (prefix_of_prefix_append (t := t) hw ⟨'"' :: rest, h⟩) ?_
  exact (prefix_of_prefix_append (t := rest) (by decide) ⟨'"' :: t, h.symm⟩).length_le

theorem json_mask_inj {w : List Char} (h : '"' :: (w ++ ['"']) = tokenJson.mask) : w = markChars :=
  List.append_cancel_right (List.cons.inj h).2

/-- At a position of the new text there is no JSON field that is not masked, if there was none in the old. -/
theorem Tame.json_masked
    (ht : Tame word rule) (h : Rule.Rewrites word rule Q prev cs o)
    (hcs : tokenJson.MaskedAt word before cs) : tokenJson.MaskedAt word before o := by
  intro g v rest hfirst
  obtain ⟨w, hw, rfl, rfl, hg⟩ := json_first_spec hfirst
  have hmark : rule.mask = '[' :: markChars.tail := ht.mask
  have hopen : '[' ∉ g ++ ['"'] := by
    intro hmem
    rcases List.mem_append.mp hmem with hmem | hmem
    · exact not_open_of_json_group hg hmem
    · exact absurd hmem (by decide)
  -- the group and the opening quote are old
  obtain ⟨zo, rfl, hzo⟩ := h.split_of_end hmark (fun hf => ht.group hf (by decide)) hopen
  have hclose : '"' ∈ zo := by
    rcases hzo.mem (c := '"') (by simp) with hmem | hmem
    · exact hmem
    · rw [ht.mask] at hmem
      exact absurd hmem (by decide)
  obtain ⟨wo, ro, rfl, hwo⟩ := List.eq_append_cons_of_mem hclose
  have hold := json_first_of_group (t := ro) hwo (json_group_moved hg before)
  obtain rfl := json_mask_inj (hcs _ _ _ hold)
  -- the masked value is copied, with its closing quote
  obtain ⟨zs, hzs, hrest⟩ := ht.copies_mark hzo
  have hquote : Ends ('"' :: ro) := by
    intro c hc
    obtain rfl : '"' = c := by simpa using hc
    decide
  obtain ⟨rs, rfl⟩ : ∃ rs, zs = '"' :: rs := by
    have hhead := ht.head_eq hrest hquote
    exact List.head?_eq_some_iff.mp hhead
  rw [json_value_of_mark hw hzs]
  rfl

/-- **A pass that writes the mark leaves the JSON fields masked.** -/
theorem Tame.json_masked_all
    (ht : Tame word rule) (h : Rule.Rewrites word rule Q prev cs o) :
    ∀ before, AllPos (tokenJson.MaskedAt word) before cs → AllPos (tokenJson.MaskedAt word) before o := by
  induction h with
  | nil => exact fun _ hcs => hcs
  | keep hnone hrest ih =>
    exact fun before hcs => ⟨ht.json_masked (.keep hnone hrest) hcs.1, ih _ hcs.2⟩
  | @mask prev cs g v rest o out hf _ _ hout ih =>
    intro before hcs
    obtain ⟨hsplit, -, -⟩ := Rule.first_spec hf
    have hquote : '"' ∉ g ++ markChars := by
      intro hmem
      rcases List.mem_append.mp hmem with hmem | hmem
      · exact ht.group hf (by decide) hmem
      · exact absurd hmem (by decide)
    rw [hout, ht.mask, ← List.append_assoc]
    refine AllPos.append (fun u w huw hw => ?_) (ih _ ?_)
    · obtain ⟨c, w, rfl⟩ := List.exists_cons_of_ne_nil hw
      refine (json_absent_of_ne ?_ _ _).maskedAt
      rintro rfl
      exact hquote (by rw [huw]; simp)
    · rw [hsplit, ← List.append_assoc] at hcs
      have hdrop := hcs.drop
      exact hdrop.behind (json_masked_congr hdrop.head)

/-- In the group of a JSON field no other one starts. -/
theorem json_absent_behind {tail : List Char} (hname : ∀ c ∈ name, c ∈ nameForms)
    (htail : ∀ c ∈ tail, PyConv.isStripped c = true ∨ c = ':') (t : List Char) :
    ∀ u w, name ++ '"' :: tail = u ++ w → w ≠ [] → ∀ prev, tokenJson.AbsentAt word prev (w ++ '"' :: t) := by
  have hquote : ∀ c ∈ tail, c ≠ '"' := by
    rintro c hc rfl
    rcases htail _ hc with h | h
    · exact absurd h (by decide)
    · exact absurd h (by decide)
  intro u w huw hw prev
  obtain ⟨c, w, rfl⟩ := List.exists_cons_of_ne_nil hw
  by_cases hc : c = '"'
  · -- the quote behind the name
    subst hc
    have hpre : name <+: u := by
      refine prefix_of_prefix_append (t := w) (fun hmem => ?_) ⟨'"' :: tail, huw⟩
      exact absurd (nameForms_inner _ (hname _ hmem)) (by decide)
    obtain ⟨a, rfl⟩ := hpre
    rw [List.append_assoc] at huw
    have hrest := List.append_cancel_left huw
    cases a with
    | nil =>
      obtain rfl := (List.cons.inj hrest).2
      rw [List.cons_append]
      cases tail with
      | nil => exact json_absent_of_not_initial quote_not_initial _ _
      | cons d tail =>
        refine json_absent_of_not_initial (not_initial_of_blank ?_) _ _
        exact (htail d List.mem_cons_self).imp id .inr
    | cons d a =>
      have htail' := (List.cons.inj hrest).2
      exact absurd rfl (hquote '"' (by rw [htail']; simp))
  · exact json_absent_of_ne hc _ _

/-- What the pass for JSON fields masks starts and ends with a quote. -/
theorem json_taken {v rest : List Char} (h : tokenJson.first word prev cs = some (g, v, rest)) :
    (∃ w, v = '"' :: w) ∧ '"' ∈ v := by
  obtain ⟨w, -, rfl, -⟩ := json_first_spec h
  exact ⟨⟨_, rfl⟩, List.mem_cons_self⟩

/-- A quote keeps what it opens masked while the pass for JSON fields goes over what follows. -/
theorem json_masked_quote (h : Rule.Rewrites word tokenJson Q prev cs o)
    (hcs : tokenJson.MaskedAt word before ('"' :: cs)) : tokenJson.MaskedAt word before ('"' :: o) := by
  intro g v rest hfirst
  obtain ⟨w, hw, rfl, hsplit, hg⟩ := json_first_spec hfirst
  have hopen := not_open_of_json_group hg
  rw [hsplit] at hg
  obtain ⟨name, tail, rfl, -, hname, htail, -⟩ := json_group hg
  have ho : o = (name ++ '"' :: tail) ++ '"' :: (w ++ '"' :: rest) := (List.cons.inj hsplit).2
  -- the group and the opening quote stand before the first mask
  have hpre : name ++ '"' :: (tail ++ ['"']) <+: cs := by
    have hmask : tokenJson.mask = ['"'] ++ '[' :: (markChars.tail ++ ['"']) := rfl
    refine h.prefix_of_not_mem hmask (fun hf => ?_) ?_ ?_
    · obtain ⟨⟨w', rfl⟩, -⟩ := json_taken hf
      exact List.cons_prefix_cons.mpr ⟨rfl, List.nil_prefix⟩
    · intro hmem
      refine hopen (List.mem_cons_of_mem _ ?_)
      simpa using hmem
    · exact ⟨w ++ '"' :: rest, by rw [ho]; simp⟩
  obtain ⟨zo, rfl⟩ := hpre
  have hmoved : ∀ z', ('"' :: (name ++ '"' :: tail), z') ∈
      spans word tokenJson.kept before ('"' :: (name ++ '"' :: tail) ++ z') :=
    fun z' => json_group_moved hg before
  have hcs' : tokenJson.MaskedAt word before ('"' :: (name ++ '"' :: tail) ++ '"' :: zo) := by
    simpa using hcs
  have hmask : '"' ∈ zo → ∃ ro, zo = markChars ++ '"' :: ro := by
    intro hclose
    obtain ⟨wo, ro, rfl, hwo⟩ := List.eq_append_cons_of_mem hclose
    have hold := json_first_of_group (t := ro) hwo (hmoved _)
    exact ⟨ro, by rw [json_mask_inj (hcs' _ _ _ hold)]⟩
  -- so no other field starts in the group or at that quote
  have habsent : ∀ p, tokenJson.AbsentAt word p ('"' :: zo) := by
    intro p
    refine Option.eq_none_iff_forall_ne_some.mpr fun r hr => ?_
    obtain ⟨g', v', rest'⟩ := r
    obtain ⟨w', -, -, hsplit', hg'⟩ := json_first_spec hr
    rw [hsplit'] at hg'
    obtain ⟨name', tail', rfl, ⟨c, u, rfl, hc⟩, -⟩ := json_group hg'
    have hzo := (List.cons.inj hsplit').2
    obtain ⟨ro, rfl⟩ := hmask (by rw [hzo]; simp)
    obtain rfl : '[' = c := (List.cons.inj hzo).1
    exact absurd hc (by decide)
  rw [show name ++ '"' :: (tail ++ ['"']) ++ zo = (name ++ '"' :: tail) ++ '"' :: zo by simp] at h
  obtain ⟨zs, hzs, hrest⟩ := h.copies fun u t hut ht => json_absent_behind hname htail zo u t hut ht _
  obtain rfl := List.append_cancel_left (ho.symm.trans hzs)
  cases hrest with
  | mask hf =>
    rw [habsent] at hf
    cases hf
  | keep _ hrest =>
    have hclose : '"' ∈ zo := hrest.mem_of_taken (fun hf => (json_taken hf).2) (by simp)
    obtain ⟨ro, rfl⟩ := hmask hclose
    obtain ⟨zs', hzs', hrest'⟩ := hrest.copies fun u w huw hw =>
      tokenJson_lowering.start _ w _ ⟨u, huw.symm⟩ hw
    obtain ⟨rs, rfl⟩ : ∃ rs, zs' = '"' :: rs := by
      cases hrest' with
      | keep => exact ⟨_, rfl⟩
      | mask hf _ _ hout =>
        obtain ⟨-, hg', -⟩ := Rule.first_spec hf
        obtain ⟨name', tail', rfl, -⟩ := json_group hg'
        exact ⟨_, hout⟩
    rw [json_value_of_mark hw hzs']
    rfl

/-- **The pass for JSON fields leaves them masked**, where behind each match there starts none that is not. -/
theorem json_masked_sub
    (hQ : ∀ g v rest, Q g v rest → tokenJson.MaskedAt word (some ']') ('"' :: rest))
    (h : Rule.Rewrites word tokenJson Q prev cs o) : ∀ before, AllPos (tokenJson.MaskedAt word) before o := by
  induction h with
  | nil => exact fun _ => json_absent_nil.maskedAt
  | @keep prev c cs o hnone hrest ih =>
    refine fun before => ⟨?_, ih _⟩
    by_cases hc : c = '"'
    · subst hc
      exact json_masked_congr (json_masked_quote hrest (Rule.AbsentAt.maskedAt hnone))
    · exact (json_absent_of_ne hc _ _).maskedAt
  | @mask prev cs g v rest o out hf hq hrest hout ih =>
    intro before
    obtain ⟨w, hw, rfl, hsplit, hg⟩ := json_first_spec hf
    rw [hsplit] at hg
    have hout' : out = g ++ '"' :: (markChars ++ '"' :: o) := by
      rw [hout]
      simp [tokenJson]
    have hhead : tokenJson.MaskedAt word before out := by
      intro g' v' rest' hfirst
      rw [hout', json_first_of_group (t := o) (by decide) (json_group_moved hg before)] at hfirst
      exact (Prod.mk.inj (Prod.mk.inj (Option.some.inj hfirst)).2).1.symm
    rw [hout'] at hhead ⊢
    obtain ⟨name, tail, rfl, -, hname, htail, -⟩ := json_group hg
    refine ⟨hhead, ?_⟩
    refine AllPos.append (fun u w huw hw => (json_absent_behind hname htail _ u w huw hw _).maskedAt) ?_
    refine ⟨(json_absent_of_not_initial (by decide) _ _).maskedAt, ?_⟩
    have hclose : tokenJson.MaskedAt word (some ']') ('"' :: o) := json_masked_quote hrest (hQ _ _ _ hq)
    refine AllPos.append (fun u w huw hw => ?_) ⟨json_masked_congr hclose, ih _⟩
    obtain ⟨c, w, rfl⟩ := List.exists_cons_of_ne_nil hw
    refine (json_absent_of_ne ?_ _ _).maskedAt
    rintro rfl
    exact absurd (show '"' ∈ markChars by rw [huw]; simp) (by decide)

/-! ### Fields in `key=value` form -/

theorem not_open_of_kv_group (h : (g, z) ∈ spans word tokenKv.kept prev cs) : '[' ∉ g := by
  obtain ⟨-, name, tail, rfl, -, hname, htail⟩ := kv_group h
  intro hmem
  rcases List.mem_append.mp hmem with hmem | hmem
  · exact absurd (hname _ hmem) (by decide)
  · rcases htail _ hmem with hc | hc | hc
    · exact absurd hc (by decide)
    · exact absurd hc (by decide)
    · exact absurd hc (by decide)

/-- The match of a field: its group, and a value that starts behind it. -/
theorem kv_first_spec {v rest : List Char} (h : tokenKv.first word prev cs = some (g, v, rest)) :
    cs = g ++ (v ++ rest) ∧ (g, v ++ rest) ∈ spans word tokenKv.kept prev cs ∧ ValueStart (v ++ rest) ∧
      ∀ before, (spans word tokenKv.masked before (v ++ rest)).head? = some (v, rest) := by
  obtain ⟨hsplit, hg, hv⟩ := Rule.first_spec h
  refine ⟨hsplit, hg, kv_masked_iff.mp (List.ne_nil_of_mem (List.mem_of_mem_head? hv)), fun before => ?_⟩
  have hfree : BoundFree tokenKv.masked :=
    ⟨⟨trivial, trivial, trivial⟩, ⟨trivial, trivial, trivial⟩, ⟨trivial, trivial⟩, trivial⟩
  rw [spans_congr hfree before (lastOr prev g)]
  exact hv

/-- At a position of the new text there is no field that is not masked, if there was none in the old. -/
theorem Keyish.kv_masked
    (hr : Keyish word rule) (ht : Tame word rule)
    (h : Rule.Rewrites word rule Q prev cs o) (hcs : tokenKv.MaskedAt word before cs) :
    tokenKv.MaskedAt word before o := by
  intro g v rest hfirst
  obtain ⟨rfl, hg, hstart, hv⟩ := kv_first_spec hfirst
  have hmark : rule.mask = '[' :: markChars.tail := hr.mask
  obtain ⟨zo, rfl, hzo⟩ := h.split_of_not_mem hmark (fun hf => (hr.first_spec hf).1) (not_open_of_kv_group hg)
  have hold : ValueStart zo := ht.valueStart hzo hstart
  cases hf : tokenKv.first word before (g ++ zo) with
  | none => exact absurd hf (Rule.first_ne_none (kv_group_local hg zo) (kv_masked_iff.mpr hold))
  | some r =>
    obtain ⟨g', v', ro⟩ := r
    obtain rfl : v' = markChars := hcs _ _ _ hf
    obtain ⟨-, hg', hstart', hv'⟩ := kv_first_spec hf
    obtain ⟨rfl, rfl⟩ := kv_group_unique hg' (kv_group_local hg zo) hstart'.notBlank hold.notBlank
    obtain ⟨zs, hzs, hrest⟩ := ht.copies_mark hzo
    have hends : Ends zs := ht.ends hrest (ends_of_value (hv' none)).2
    rw [hzs] at hv
    exact (value_of_mark hends (hv none)).1

/-- **A pass for keys leaves the fields masked**, where behind each key there starts none that is not. -/
theorem Keyish.kv_masked_all
    (hr : Keyish word rule) (ht : Tame word rule)
    (hQ : ∀ g v rest, Q g v rest → tokenKv.MaskedAt word (some ']') rest)
    (h : Rule.Rewrites word rule Q prev cs o) :
    ∀ before, AllPos (tokenKv.MaskedAt word) before cs → AllPos (tokenKv.MaskedAt word) before o := by
  induction h with
  | nil => exact fun _ hcs => hcs
  | keep hnone hrest ih => exact fun before hcs => ⟨hr.kv_masked ht (.keep hnone hrest) hcs.1, ih _ hcs.2⟩
  | @mask prev cs g v rest o out hf hq _ hout ih =>
    intro before hcs
    obtain ⟨rfl, hsplit, -, -⟩ := hr.first_spec hf
    rw [hout, hr.mask, List.nil_append]
    refine AllPos.append (fun u w huw hw => Rule.AbsentAt.maskedAt ?_) (ih _ ?_)
    · exact tokenKv_lowering.start _ w o ⟨u, huw.symm⟩ hw
    · rw [hsplit] at hcs
      exact hcs.drop.behind (hQ _ _ _ hq)

/-- Where the pass for fields finds no match, it leaves none. -/
theorem kv_absent_keep (hword : ∀ c ∈ nameForms, word c = true)
    (h : Rule.Rewrites word tokenKv Q prev cs o) (hnone : tokenKv.AbsentAt word prev cs) :
    tokenKv.AbsentAt word prev o := by
  refine Option.eq_none_iff_forall_ne_some.mpr fun r hfirst => ?_
  obtain ⟨g, v, rest⟩ := r
  obtain ⟨rfl, hg, hstart, -⟩ := kv_first_spec hfirst
  -- the group is old, and copied
  have hmask : tokenKv.mask = [] ++ '[' :: markChars.tail := rfl
  have hpre : g <+: cs :=
    h.prefix_of_not_mem hmask (fun _ => List.nil_prefix) (not_open_of_kv_group hg) (List.prefix_append _ _)
  obtain ⟨zo, rfl⟩ := hpre
  obtain ⟨zs, hzs, hzo⟩ := h.copies fun u w huw hw => by
    cases u with
    | nil =>
      rw [List.nil_append] at huw
      rw [← huw]
      exact hnone
    | cons c u =>
      obtain ⟨-, name, tail, rfl, -, hname, htail⟩ := kv_group hg
      have htail' : ∀ c ∈ tail, c ∉ initialForms := fun c hc => not_initial_of_blank (htail c hc)
      exact kv_absent_behind hword hname htail' zo _ w huw (List.cons_ne_nil _ _) hw
  obtain rfl := List.append_cancel_left hzs
  exact Rule.first_ne_none (kv_group_local hg zo) (kv_masked_iff.mpr (kv_tame.valueStart hzo hstart)) hnone

/-- **The pass for fields leaves them masked**, where each value it takes ends. -/
theorem kv_masked_sub (hword : ∀ c ∈ nameForms, word c = true)
    (hQ : ∀ g v rest, Q g v rest → Ends rest) (h : Rule.Rewrites word tokenKv Q prev cs o) :
    ∀ before, before = prev ∨ Ends cs → AllPos (tokenKv.MaskedAt word) before o := by
  induction h with
  | nil => exact fun _ _ => kv_absent_nil.maskedAt
  | @keep prev c cs o hnone hrest ih =>
    intro before hbefore
    refine ⟨Rule.AbsentAt.maskedAt ?_, ih _ (.inl rfl)⟩
    rcases hbefore with rfl | hends
    · exact kv_absent_keep hword (.keep hnone hrest) hnone
    · exact kv_tame.start (hends c rfl)
  | @mask prev cs g v rest o out hf hq hrest hout ih =>
    intro before hbefore
    obtain ⟨rfl, hg, hstart, -⟩ := kv_first_spec hf
    have hends : Ends rest := hQ _ _ _ hq
    obtain ⟨hbound, name, tail, hname⟩ := kv_group hg
    obtain ⟨hgroup, ⟨c, t, rfl, hc⟩, hname, htail⟩ := hname
    obtain rfl : before = prev := by
      refine hbefore.resolve_right fun hends => ?_
      have hbare := hends c (by rw [hgroup]; rfl)
      rw [isBare_of_initial hc] at hbare
      cases hbare
    rw [hout]
    refine AllPos.append (fun u w huw hw => ?_)
      (AllPos.append (fun u w huw hw => Rule.AbsentAt.maskedAt ?_) (ih _ (.inr hends)))
    · cases u with
      | nil =>
        rw [List.nil_append] at huw
        rw [← huw]
        intro g' v' rest' hfirst
        obtain ⟨hsplit', hg', hstart', hv'⟩ := kv_first_spec hfirst
        have hmark : NotBlank (markChars ++ o) := by
          intro d hd
          obtain rfl : '[' = d := by simpa [markChars] using hd
          decide
        obtain ⟨rfl, hz⟩ := kv_group_unique hg' (kv_group_local hg (markChars ++ o)) hstart'.notBlank hmark
        rw [hz] at hv'
        exact (value_of_mark (kv_tame.ends hrest hends) (hv' none)).1
      | cons d u =>
        rw [hgroup] at huw
        have htail' : ∀ c ∈ tail, c ∉ initialForms := fun c hc => not_initial_of_blank (htail c hc)
        exact (kv_absent_behind hword hname htail' _ _ w huw (List.cons_ne_nil _ _) hw).maskedAt
    · exact tokenKv_lowering.start _ w o ⟨u, huw.symm⟩ hw

/-! ### All passes -/

section Passes

variable (word)

/-- The text after the first passes. -/
def afterPasses (n : ℕ) (text : List Char) : List Char :=
  (maskRules.take n).foldl (fun cs rule => rule.sub word cs) text

/-- The passes for keys, each with the number of passes before it. -/
def keyPasses : List (ℕ × Rule) := [(2, jwt), (3, skKey), (4, sessToken)]

/-- No pass meets text that goes on with what it has just masked: behind a JSON field the closing quote
opens no other one, behind a `key=value` field its value ends, and behind a key no field starts, unless
they are masked. -/
structure Seamless (text : List Char) : Prop where
  fields : ∀ m ∈ tokenJson.found word text, tokenJson.MaskedAt word (some ']') ('"' :: m.2.2)
  values : ∀ m ∈ tokenKv.found word (afterPasses word 1 text), Ends m.2.2
  keys : ∀ p ∈ keyPasses, ∀ m ∈ p.2.found word (afterPasses word p.1 text),
    tokenKv.MaskedAt word (some ']') m.2.2

/-- What one redaction should leave: no key, no token field that is not masked, and nothing for a second
one. -/
structure LeavesNoSecret (text : String) : Prop where
  keys : ∀ p ∈ keyPasses, p.2.AbsentIn word (redact word text).toList
  fields : ∀ rule ∈ [tokenJson, tokenKv], rule.MaskedIn word (redact word text).toList
  settled : redact word (redact word text) = redact word text

variable {word}

theorem afterPasses_succ {n : ℕ} {r : Rule} (h : maskRules[n]? = some r) (text : List Char) :
    afterPasses word (n + 1) text = r.sub word (afterPasses word n text) := by
  rw [afterPasses, List.take_add_one, h, List.foldl_append]
  rfl

theorem toList_redact (text : String) : (redact word text).toList = afterPasses word 5 text.toList :=
  String.toList_ofList

/-- A pass for keys: it removes its own, and brings back none of the others. -/
theorem Keyish.absent_sub {rule key : Rule} (hkey : Keyish word key) (hr : Keyish word rule)
    {text : List Char}
    (h : key = rule ∨ key.AbsentIn word text) : key.AbsentIn word (rule.sub word text) :=
  Rule.absentIn_iff.mpr (hkey.absent_rewrites hr
    (Rule.rewrites_sub (Q := fun _ _ _ => True) hr.taken fun _ _ => trivial)
    (h.imp id Rule.absentIn_iff.mp) none (.inl rfl))

/-- **No key is left**, whatever the text. -/
theorem keys_absent (text : List Char) : ∀ p ∈ keyPasses, p.2.AbsentIn word (afterPasses word 5 text) := by
  have hjwt : Rule.AbsentIn word jwt (afterPasses word 3 text) := jwt_keyish.absent_sub jwt_keyish (.inl rfl)
  have hjwt' : Rule.AbsentIn word jwt (afterPasses word 4 text) :=
    jwt_keyish.absent_sub skKey_keyish (.inr hjwt)
  have hsk : Rule.AbsentIn word skKey (afterPasses word 4 text) :=
    skKey_keyish.absent_sub skKey_keyish (.inl rfl)
  intro p hp
  simp only [keyPasses, List.mem_cons, List.not_mem_nil, or_false] at hp
  rcases hp with rfl | rfl | rfl
  · exact jwt_keyish.absent_sub sessToken_keyish (.inr hjwt')
  · exact skKey_keyish.absent_sub sessToken_keyish (.inr hsk)
  · exact sessToken_keyish.absent_sub sessToken_keyish (.inl rfl)

theorem json_masked_pass_own {text : List Char}
    (h : ∀ m ∈ tokenJson.found word text, tokenJson.MaskedAt word (some ']') ('"' :: m.2.2)) :
    tokenJson.MaskedIn word (tokenJson.sub word text) :=
  Rule.maskedIn_iff.mpr (json_masked_sub (fun _ _ _ hq => hq)
    (Rule.rewrites_sub (Q := fun _ _ rest => tokenJson.MaskedAt word (some ']') ('"' :: rest))
      tokenJson_lowering.taken h) none)

theorem kv_masked_pass_own (hword : ∀ c ∈ nameForms, word c = true) {text : List Char}
    (h : ∀ m ∈ tokenKv.found word text, Ends m.2.2) : tokenKv.MaskedIn word (tokenKv.sub word text) :=
  Rule.maskedIn_iff.mpr (kv_masked_sub hword (fun _ _ _ hq => hq)
    (Rule.rewrites_sub (Q := fun _ _ rest => Ends rest) tokenKv_lowering.taken h) none (.inl rfl))

theorem json_masked_pass (ht : Tame word rule) {text : List Char}
    (h : tokenJson.MaskedIn word text) :
    tokenJson.MaskedIn word (rule.sub word text) :=
  Rule.maskedIn_iff.mpr (ht.json_masked_all
    (Rule.rewrites_sub (Q := fun _ _ _ => True) ht.lowering.taken fun _ _ => trivial) none
    (Rule.maskedIn_iff.mp h))

/-- The JSON fields stay masked to the end. -/
theorem json_masked_passes {text : List Char} (h : tokenJson.MaskedIn word (afterPasses word 1 text)) :
    tokenJson.MaskedIn word (afterPasses word 5 text) := by
  have hkv := json_masked_pass kv_tame h
  have hjwt := json_masked_pass (jwt_keyish.tame jwt_lowering) hkv
  have hsk := json_masked_pass (skKey_keyish.tame skKey_lowering) hjwt
  exact json_masked_pass (sessToken_keyish.tame sessToken_lowering) hsk

theorem kv_masked_pass (hr : Keyish word rule) (hlow : Lowering word rule) {text : List Char}
    (hseam : ∀ m ∈ rule.found word text, tokenKv.MaskedAt word (some ']') m.2.2) (h :
      tokenKv.MaskedIn word text) :
    tokenKv.MaskedIn word (rule.sub word text) :=
  Rule.maskedIn_iff.mpr (hr.kv_masked_all (hr.tame hlow) (fun _ _ _ hq => hq)
    (Rule.rewrites_sub (Q := fun _ _ rest => tokenKv.MaskedAt word (some ']') rest) hr.taken hseam) none
    (Rule.maskedIn_iff.mp h))

theorem masked_of_fields {text : List Char} (hjson : tokenJson.MaskedIn word text)
    (hkv : tokenKv.MaskedIn word text)
    (hkeys : ∀ p ∈ keyPasses, p.2.AbsentIn word text) : ∀ rule ∈ maskRules, rule.MaskedIn word text := by
  have hkey : ∀ p ∈ keyPasses, p.2.MaskedIn word text := fun p hp => (hkeys p hp).maskedIn
  intro rule hrule
  simp only [maskRules, List.mem_cons, List.not_mem_nil, or_false] at hrule
  rcases hrule with rfl | rfl | rfl | rfl | rfl
  · exact hjson
  · exact hkv
  · exact hkey (2, jwt) (by simp [keyPasses])
  · exact hkey (3, skKey) (by simp [keyPasses])
  · exact hkey (4, sessToken) (by simp [keyPasses])

/-- Each pass finds the text as it is. -/
theorem foldl_sub_eq_self {rules : List Rule} {text : List Char}
    (h : ∀ rule ∈ rules, rule.MaskedIn word text) :
    rules.foldl (fun cs rule => rule.sub word cs) text = text := by
  induction rules with
  | nil => rfl
  | cons rule rules ih =>
    rw [List.foldl_cons, Rule.sub_eq_self (h rule (by simp))]
    exact ih fun r hr => h r (by simp [hr])

end Passes

/-- **One redaction leaves no secret**, where no pass meets text that goes on with what it has masked. -/
theorem redact_leaves_no_secret (hword : ∀ c ∈ nameForms, word c = true) (text : String)
    (h : Seamless word text.toList) : LeavesNoSecret word text := by
  have hjson : tokenJson.MaskedIn word (afterPasses word 1 text.toList) := json_masked_pass_own h.fields
  have hkv : tokenKv.MaskedIn word (afterPasses word 2 text.toList) := by
    rw [afterPasses_succ (r := tokenKv) rfl]
    exact kv_masked_pass_own hword h.values
  have hjwt : tokenKv.MaskedIn word (afterPasses word 3 text.toList) := by
    rw [afterPasses_succ (r := jwt) rfl]
    exact kv_masked_pass jwt_keyish jwt_lowering (h.keys (2, jwt) (by simp [keyPasses])) hkv
  have hsk : tokenKv.MaskedIn word (afterPasses word 4 text.toList) := by
    rw [afterPasses_succ (r := skKey) rfl]
    exact kv_masked_pass skKey_keyish skKey_lowering (h.keys (3, skKey) (by simp [keyPasses])) hjwt
  have hsess : tokenKv.MaskedIn word (afterPasses word 5 text.toList) := by
    rw [afterPasses_succ (r := sessToken) rfl]
    exact kv_masked_pass sessToken_keyish sessToken_lowering (h.keys (4, sessToken) (by simp [keyPasses])) hsk
  have hkeys : ∀ p ∈ keyPasses, p.2.AbsentIn word (afterPasses word 5 text.toList) := keys_absent _
  have hmasked := masked_of_fields (json_masked_passes hjson) hsess hkeys
  rw [← toList_redact] at hkeys hmasked
  refine ⟨hkeys, fun rule hrule => hmasked rule ?_, ?_⟩
  · rcases List.mem_cons.mp hrule with rfl | hrule
    · exact List.mem_cons_self
    · obtain rfl := List.mem_singleton.mp hrule
      exact List.mem_cons_of_mem _ List.mem_cons_self
  · have hself := foldl_sub_eq_self hmasked
    calc redact word (redact word text)
        = String.ofList (maskRules.foldl (fun cs rule => rule.sub word cs) (redact word text).toList) := rfl
      _ = redact word text := by rw [hself, String.ofList_toList]

/-- `\w` on ASCII texts and token names. -/
def fieldWord (c : Char) : Bool := c.isAlphanum || nameForms.contains c

theorem fieldWord_names : ∀ c ∈ nameForms, fieldWord c = true := by
  intro c hc
  simp [fieldWord, hc]

/-- `id_token=`. -/
def fieldName : List Char := ['i', 'd', '_', 't', 'o', 'k', 'e', 'n', '=']

/-- `"id_token":"a" id_token=b,sess-12345678.`: fields and a token, each with an end. -/
def endedFields : List Char :=
  ['"', 'i', 'd', '_', 't', 'o', 'k', 'e', 'n', '"', ':', '"', 'a', '"', ' '] ++ fieldName ++
    ['b', ',', 's', 'e', 's', 's', '-', '1', '2', '3', '4', '5', '6', '7', '8', '.']

theorem endedFields_leaves_no_secret : LeavesNoSecret fieldWord (String.ofList endedFields) := by
  have hseamless : Seamless fieldWord endedFields :=
    ⟨by decide +kernel, by decide +kernel, by decide +kernel⟩
  rw [← String.toList_ofList (l := endedFields)] at hseamless
  exact redact_leaves_no_secret fieldWord_names _ hseamless

/-- `id_token="ab"cd`: the mark runs on into what follows the quote. -/
def openField : List Char := fieldName ++ ['"', 'a', 'b', '"', 'c', 'd']

theorem openField_leaves_secret :
    ¬ ∀ word : Char → Bool, (∀ c ∈ nameForms, word c = true) → ∀ text, LeavesNoSecret word text := by
  intro h
  have hfield := (h fieldWord fieldWord_names (String.ofList openField)).fields tokenKv (by simp)
  rw [toList_redact, String.toList_ofList] at hfield
  have hnot : ¬ tokenKv.MaskedAt fieldWord none (afterPasses fieldWord 5 openField) := by decide +kernel
  exact hnot (hfield [] _ rfl)

end Broker.Agent
