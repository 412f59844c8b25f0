import Broker.Agent.JobFiles
import Broker.Db.Models
import Broker.Lib.Checked
import Broker.Lib.Jsonb
import Broker.Lib.Trans

/-!
# Broker.Scripts.ClearExpired — clearing the bytes of expired files

`scripts/clear_expired_files.py` deletes inline contents that the API no longer serves.  What it selects
is decided in SQL, with NULL for everything an element does not have, against a cutoff in whole seconds;
what the API serves is decided in Python against a clock with fractions.  `clear_invisible` compares the
two.
-/

namespace Broker.Scripts

open Broker.Lib Broker.Agent Broker.Db Broker.Lib.Jsonb

/-! ### Conditions on one element -/

section Element

-- the text of a value that is no string, as `->>` gives it
variable (render : Val PyFloat → String)

/-- `_INLINE`. -/
def inline (e : Val PyFloat) : Tri :=
  (Tri.eq (some (typeOf e)) "object").and (Tri.eq ((arrow e "content_b64").map typeOf) "string")

/-- `~ '^[0-9]{4}-[0-9]{2}-[0-9]{2}T'`. -/
def datePrefix (s : String) : Bool :=
  match s.toList with
  | a :: b :: c :: d :: '-' :: e :: f :: '-' :: g :: h :: 'T' :: _ => [a, b, c, d, e, f, g, h].all Char.isDigit
  | _ => false

/-- `_HAS_EXPIRY`. -/
def hasExpiry (e : Val PyFloat) : Tri :=
  ((Tri.eq ((arrow e "expires_at").map typeOf) "string").and
    ((arrowText render e "expires_at").map datePrefix)).orFalse

/-- `_EXPIRED`. -/
def expiredBefore (cutoff : String) (e : Val PyFloat) : Tri := Tri.lt (arrowText render e "expires_at") cutoff

/-- `_CLEARABLE`. -/
def clearable (cutoff : String) (e : Val PyFloat) : Tri :=
  ((inline e).and (hasExpiry render e)).and (expiredBefore render cutoff e)

/-- `_LIVE`. -/
def live (cutoff : String) (e : Val PyFloat) : Tri :=
  ((inline e).and (hasExpiry render e)).and (expiredBefore render cutoff e).not

/-- `_NO_EXPIRY`. -/
def noExpiry (e : Val PyFloat) : Tri := (inline e).and (hasExpiry render e).not

/-- `length(e ->> 'content_b64')`; NULL adds nothing to a sum. -/
def contentLength (e : Val PyFloat) : ℕ := ((arrowText render e "content_b64").map String.length).getD 0

/-- `e || jsonb_build_object('content_b64', NULL, 'expired', true)`, of an object. -/
def blank (e : Val PyFloat) : Val PyFloat :=
  match e with
  | .obj es => .obj (concat es blanked)
  | v => v

/-- One element of the rewritten array. -/
def clearElement (cutoff : String) (e : Val PyFloat) : Val PyFloat :=
  if (clearable render cutoff e).holds then blank e else e

end Element

/-! ### Statements on the jobs -/

/-- The columns of `deep_jobs` the script reads and writes. -/
structure JobRow where
  id : ℕ
  projectId : ℕ
  capability : String
  status : Status
  resultMeta : Option (Jsonb PyFloat)

/-- `_SCOPE`. -/
def JobRow.inScope (j : JobRow) : Bool := j.status.terminal && "agent:".toList.isPrefixOf j.capability.toList

/-- `_FILES`: the elements of the array, none where there is no array. -/
def filesOf : Option (Jsonb PyFloat) → List (Val PyFloat)
  | none => []
  | some v =>
    match arrow v.1 "files" with
    | some (.arr xs) => xs
    | _ => []

/-- One row of `_SURVEY_SQL`. -/
structure SurveyRow where
  id : ℕ
  projectId : ℕ
  capability : String
  files : ℕ
  bytes : ℕ
  live : ℕ
  noExpiry : ℕ
  tableRef : ℕ
  deriving DecidableEq, Repr

section Statements

variable (render : Val PyFloat → String) (cutoff : String)

/-- `count(*) FILTER (WHERE p)`. -/
def count (p : Val PyFloat → Tri) (xs : List (Val PyFloat)) : ℕ := xs.countP fun e => (p e).holds

/-- `coalesce(sum(length(…)) FILTER (WHERE …), 0)`. -/
def clearableBytes (xs : List (Val PyFloat)) : ℕ :=
  ((xs.filter fun e => (clearable render cutoff e).holds).map (contentLength render)).sum

/-- An element whose content is in `deep_job_files`. -/
def tableRef (e : Val PyFloat) : Tri :=
  (Tri.eq (some (typeOf e)) "object").and (some (arrow e refKey).isSome)

def surveyRow (j : JobRow) : SurveyRow where
  id := j.id
  projectId := j.projectId
  capability := j.capability
  files := count (clearable render cutoff) (filesOf j.resultMeta)
  bytes := clearableBytes render cutoff (filesOf j.resultMeta)
  live := count (live render cutoff) (filesOf j.resultMeta)
  noExpiry := count (noExpiry render) (filesOf j.resultMeta)
  tableRef := count tableRef (filesOf j.resultMeta)

/-- `_SURVEY_SQL`: the lateral join drops a job without elements. -/
def survey (ids : List ℕ) (jobs : List JobRow) : List SurveyRow :=
  (jobs.filter fun j => ids.contains j.id && j.inScope && !(filesOf j.resultMeta).isEmpty).map
    (surveyRow render cutoff)

/-- The array of `result_meta` with its clearable elements blanked. -/
def clearValue (v : Val PyFloat) : Val PyFloat :=
  match v with
  | .obj es =>
    match OrderedDict.get es "files" with
    | some (.arr xs) => .obj (OrderedDict.setItem es "files" (.arr (xs.map (clearElement render cutoff))))
    | _ => .obj es
  | w => w

end Statements

/-! ### jsonb values stay jsonb values -/

section Dictionaries

variable {render : Val PyFloat → String} {cutoff : String}

theorem dict_blank {e : Val PyFloat} (h : e.Dict) : (blank e).Dict := by
  cases e with
  | obj es => exact dict_concat h (by simp [blanked, Val.Dict])
  | _ => exact h

theorem dict_clearElement {e : Val PyFloat} (h : e.Dict) : (clearElement render cutoff e).Dict := by
  unfold clearElement
  split_ifs
  · exact dict_blank h
  · exact h

theorem dict_clearValue {v : Val PyFloat} (h : v.Dict) : (clearValue render cutoff v).Dict := by
  cases v with
  | obj es =>
    simp only [clearValue]
    split
    · rename_i xs hxs
      rw [Val.dict_obj] at h ⊢
      refine ⟨OrderedDict.keys_setItem_nodup h.1, fun e he => ?_⟩
      rcases OrderedDict.mem_setItem.mp he with rfl | ⟨he, -⟩
      · have harr := h.2 _ (OrderedDict.mem_of_get hxs)
        rw [Val.dict_arr] at harr ⊢
        intro x hx
        obtain ⟨y, hy, rfl⟩ := List.mem_map.mp hx
        exact dict_clearElement (harr y hy)
      · exact h.2 e he
    · exact h
  | _ => exact h

end Dictionaries

section Clear

variable (render : Val PyFloat → String) (cutoff : String)

/-- `jsonb_set(j.result_meta, '{files}', …)`. -/
def clearMeta (v : Jsonb PyFloat) : Jsonb PyFloat := ⟨clearValue render cutoff v.1, dict_clearValue v.2⟩

/-- The job's row in the statement's `t`, when `t.files > 0`: the files and bytes it returns. -/
def cleared (j : JobRow) : Option (ℕ × ℕ) :=
  if j.inScope && 0 < count (clearable render cutoff) (filesOf j.resultMeta) then
    some (count (clearable render cutoff) (filesOf j.resultMeta), clearableBytes render cutoff (filesOf j.resultMeta))
  else none

/-- The row after `_CLEAR_SQL`. -/
def JobRow.clear (j : JobRow) : JobRow :=
  if (cleared render cutoff j).isSome then { j with resultMeta := j.resultMeta.map (clearMeta render cutoff) } else j

/-- `_CLEAR_SQL` on the jobs it was handed: the table after it and the rows it returns. -/
def clear (ids : List ℕ) (jobs : List JobRow) : List JobRow × List (ℕ × ℕ × ℕ) :=
  (jobs.map fun j => if ids.contains j.id then j.clear render cutoff else j,
    jobs.filterMap fun j => if ids.contains j.id then (cleared render cutoff j).map fun r => (j.id, r) else none)

end Clear

variable {render : Val PyFloat → String} {cutoff : String}

/-! ### A clearable element -/

theorem inline_iff {e : Val PyFloat} :
    (inline e).holds = true ↔ ∃ es c, e = .obj es ∧ OrderedDict.get es "content_b64" = some (.str c) := by
  unfold inline
  rw [Tri.holds_and, Bool.and_eq_true, Tri.holds_eq, Tri.holds_eq]
  constructor
  · rintro ⟨hobj, hstr⟩
    obtain ⟨es, rfl⟩ := typeOf_object (Option.some.inj hobj)
    obtain ⟨v, hv, hty⟩ := Option.map_eq_some_iff.mp hstr
    obtain ⟨c, rfl⟩ := typeOf_string hty
    exact ⟨es, c, rfl, hv⟩
  · rintro ⟨es, c, rfl, hc⟩
    refine ⟨rfl, ?_⟩
    show (OrderedDict.get es "content_b64").map typeOf = some "string"
    rw [hc]
    rfl

/-- An element with an expiry of the expected form has a text there. -/
theorem hasExpiry_iff {e : Val PyFloat} :
    (hasExpiry render e).holds = true ↔ ∃ s, arrow e "expires_at" = some (.str s) ∧ datePrefix s = true := by
  unfold hasExpiry
  rw [Tri.holds_orFalse, Tri.holds_and, Bool.and_eq_true, Tri.holds_eq]
  constructor
  · rintro ⟨hstr, hdate⟩
    obtain ⟨v, hv, hty⟩ := Option.map_eq_some_iff.mp hstr
    obtain ⟨s, rfl⟩ := typeOf_string hty
    refine ⟨s, hv, ?_⟩
    simpa [arrowText, hv, Tri.holds] using hdate
  · rintro ⟨s, hs, hdate⟩
    simp [arrowText, hs, typeOf, hdate, Tri.holds]

theorem expiredBefore_isSome {e : Val PyFloat} (h : (hasExpiry render e).holds = true) :
    (expiredBefore render cutoff e).isSome = true := by
  obtain ⟨s, hs, -⟩ := hasExpiry_iff.mp h
  simp [expiredBefore, arrowText, hs, Tri.lt]

/-- **What is cleared**: a text under `content_b64` and an expiry before the cutoff, as texts compare. -/
theorem clearable_iff {e : Val PyFloat} :
    (clearable render cutoff e).holds = true ↔ ∃ es c s, e = .obj es ∧
      OrderedDict.get es "content_b64" = some (.str c) ∧ OrderedDict.get es "expires_at" = some (.str s) ∧
      datePrefix s = true ∧ s < cutoff := by
  unfold clearable
  rw [Tri.holds_and, Tri.holds_and, Bool.and_eq_true, Bool.and_eq_true, inline_iff, hasExpiry_iff]
  constructor
  · rintro ⟨⟨⟨es, c, rfl, hc⟩, s, hs, hdate⟩, hlt⟩
    refine ⟨es, c, s, rfl, hc, hs, hdate, ?_⟩
    simpa [expiredBefore, arrowText, hs, Tri.holds, Tri.lt] using hlt
  · rintro ⟨es, c, s, rfl, hc, hs, hdate, hlt⟩
    have hs' : arrow (.obj es) "expires_at" = some (.str s) := hs
    refine ⟨⟨⟨es, c, rfl, hc⟩, s, hs', hdate⟩, ?_⟩
    simpa [expiredBefore, arrowText, hs', Tri.holds, Tri.lt] using hlt

/-- The fields of a blanked object. -/
theorem get_blank {es : Doc} (h : (es.map Prod.fst).Nodup) (k : String) :
    OrderedDict.get (concat es blanked) k =
      if k = "expired" then some (.bool true) else if k = "content_b64" then some .null
      else OrderedDict.get es k := by
  have hset := OrderedDict.keys_setItem_nodup (k := "content_b64") (v := Val.null) h
  rw [OrderedDict.get_perm (OrderedDict.keys_setItem_nodup hset) (concat_perm es blanked).symm]
  show OrderedDict.get (OrderedDict.setItem (OrderedDict.setItem es _ _) _ _) k = _
  rw [OrderedDict.get_setItem hset, OrderedDict.get_setItem h]

theorem not_inline_blank {es : Doc} (h : (es.map Prod.fst).Nodup) :
    (inline (blank (.obj es))).holds = false := by
  by_contra hb
  obtain ⟨fs, c, hfs, hc⟩ := inline_iff.mp (by simpa using hb)
  obtain rfl := Val.obj.inj hfs
  rw [get_blank h] at hc
  simp at hc

/-! ### The served view -/

/-- Two served files with the same entries, in whatever order. -/
def SameFile (a b : Doc) : Prop := Val.Same (.obj a) (.obj b)

theorem sameFile_refl (a : Doc) : SameFile a a := Val.Same.refl _

/-- Two answers of a reader: the same files in the same order, or the same exception. -/
def SameView : Except ViewError (Option (List Doc)) → Except ViewError (Option (List Doc)) → Prop :=
  Checked.Agree (Option.Rel (List.Forall₂ SameFile))

theorem sameView_refl (x : Except ViewError (Option (List Doc))) : SameView x x := by
  refine Checked.Agree.refl (fun a => ?_) x
  cases a with
  | none => exact .none
  | some fs => exact .some (List.forall₂_same.mpr fun f _ => sameFile_refl f)

/-- An expired file is served with the same entries whether it was blanked before or not. -/
theorem publicFile_blank {es : Doc} (h : (es.map Prod.fst).Nodup) :
    (publicFile es blanked).Perm (publicFile (concat es blanked) blanked) := by
  have hset := OrderedDict.keys_setItem_nodup (k := "content_b64") (v := Val.null) h
  have hkeys : ((concat es blanked).map Prod.fst).Nodup :=
    (((concat_perm es blanked).map Prod.fst).nodup_iff).mpr (OrderedDict.keys_setItem_nodup hset)
  have hpublic : ∀ {ds : Doc}, (ds.map Prod.fst).Nodup → ((publicFile ds blanked).map Prod.fst).Nodup := by
    intro ds hds
    refine OrderedDict.keys_setItem_nodup (OrderedDict.keys_setItem_nodup ?_)
    exact hds.sublist (List.filter_sublist.map Prod.fst)
  refine (List.perm_ext_iff_of_nodup (hpublic h).of_map (hpublic hkeys).of_map).mpr fun e => ?_
  have hmem : ∀ ds : Doc, e ∈ publicFile ds blanked ↔ e = ("expired", .bool true) ∨
      ((e = ("content_b64", .null) ∨ ((e ∈ ds ∧ e.1 ≠ refKey) ∧ e.1 ≠ "content_b64")) ∧ e.1 ≠ "expired") := by
    intro ds
    simp [publicFile, blanked, OrderedDict.mem_setItem, List.mem_filter]
  have hconcat : e ∈ concat es blanked ↔ e = ("expired", .bool true) ∨
      ((e = ("content_b64", .null) ∨ (e ∈ es ∧ e.1 ≠ "content_b64")) ∧ e.1 ≠ "expired") := by
    rw [(concat_perm es blanked).mem_iff]
    simp [blanked, OrderedDict.mem_setItem]
  rw [hmem, hmem, hconcat]
  tauto

/-- What the readers know of a clearable element: it is expired at every later time, blanked or not, and keeps
its `content_ref`. -/
theorem clearable_view {e : Val PyFloat} (he : e.Dict) {cutoff now : DateTime} (hnow : cutoff ≤ now)
    (h : (clearable render cutoff.isoformat e).holds = true) :
    ∃ es es', e = .obj es ∧ blank e = .obj es' ∧ expired es now.isoformat = .ok true ∧
      expired es' now.isoformat = .ok true ∧ Doc.get es' refKey = Doc.get es refKey ∧
      SameFile (publicFile es blanked) (publicFile es' blanked) := by
  obtain ⟨es, c, s, rfl, -, hs, hdate, hlt⟩ := clearable_iff.mp h
  have hkeys := (Val.dict_obj.mp he).1
  have hget : ∀ k, k ≠ "expired" → k ≠ "content_b64" →
      Doc.get (concat es blanked) k = Doc.get es k := by
    intro k hk hk'
    unfold Doc.get
    rw [get_blank hkeys, if_neg hk, if_neg hk']
  have hexp : ∀ {ds : Doc}, Doc.get ds "expires_at" = .str s → expired ds now.isoformat = .ok true := by
    intro ds hds
    have hne : s ≠ "" := by
      rintro rfl
      cases hdate
    have hltnow : s < now.isoformat := lt_of_lt_of_le hlt (DateTime.isoformat_le hnow)
    simp [expired, hds, Val.truthy, hne, hltnow]
  have hes : Doc.get es "expires_at" = .str s := by
    unfold Doc.get
    rw [hs]
    rfl
  refine ⟨es, concat es blanked, rfl, rfl, hexp hes, hexp ?_, hget refKey (by decide) (by decide), ?_⟩
  · rw [hget "expires_at" (by decide) (by decide), hes]
  · exact Val.same_obj_of_perm (publicFile_blank hkeys)

section View

variable {cutoff now : DateTime}

theorem inlineFile_clear {e : Val PyFloat} (he : e.Dict) (hnow : cutoff ≤ now) :
    Checked.Agree SameFile (inlineFile now.isoformat e)
      (inlineFile now.isoformat (clearElement render cutoff.isoformat e)) := by
  unfold clearElement
  split_ifs with h
  · obtain ⟨es, es', rfl, hb, hx, hx', -, hsame⟩ := clearable_view he hnow h
    have hold : inlineFile now.isoformat (.obj es) = .ok (publicFile es blanked) := by
      simp [inlineFile, asFile, hx, bind, Except.bind]
    have hnew : inlineFile now.isoformat (.obj es') = .ok (publicFile es' blanked) := by
      simp [inlineFile, asFile, hx', bind, Except.bind]
    rw [hb, hold, hnew]
    exact hsame
  · exact Checked.Agree.refl sameFile_refl _

theorem refWanted_clear {e : Val PyFloat} (he : e.Dict) (hnow : cutoff ≤ now) :
    refWanted now.isoformat (clearElement render cutoff.isoformat e) = refWanted now.isoformat e := by
  unfold clearElement
  split_ifs with h
  · obtain ⟨es, es', rfl, hb, hx, hx', hr, -⟩ := clearable_view he hnow h
    rw [hb]
    simp [refWanted, asFile, hx, hx', hr, bind, Except.bind]
  · rfl

theorem servedFile_clear {e : Val PyFloat} (he : e.Dict) (hnow : cutoff ≤ now)
    (blobs : List (HashKey × String)) :
    Checked.Agree SameFile (servedFile now.isoformat blobs e)
      (servedFile now.isoformat blobs (clearElement render cutoff.isoformat e)) := by
  unfold clearElement
  split_ifs with h
  · obtain ⟨es, es', rfl, hb, hx, hx', -, hsame⟩ := clearable_view he hnow h
    have hold : servedFile now.isoformat blobs (.obj es) = .ok (publicFile es blanked) := by
      simp [servedFile, asFile, hx, bind, Except.bind]
    have hnew : servedFile now.isoformat blobs (.obj es') = .ok (publicFile es' blanked) := by
      simp [servedFile, asFile, hx', bind, Except.bind]
    rw [hb, hold, hnew]
    exact hsame
  · exact Checked.Agree.refl sameFile_refl _

/-- **The inline view** of an array is that of the array with its clearable elements blanked. -/
theorem liveFilesInline_clear {xs : List (Val PyFloat)} (hxs : ∀ x ∈ xs, x.Dict) (hnow : cutoff ≤ now) :
    SameView (liveFilesInline now (.arr xs))
      (liveFilesInline now (.arr (xs.map (clearElement render cutoff.isoformat)))) := by
  show Checked.Agree _ (xs.mapM _ >>= _) ((xs.map _).mapM _ >>= _)
  refine (Checked.Agree.mapM fun x hx => inlineFile_clear (hxs x hx) hnow).bind fun as bs h => ?_
  exact Option.Rel.some h

/-- **The view with the files' table** likewise: the same contents are asked for. -/
theorem liveFiles_clear (table : FileTable) {xs : List (Val PyFloat)} (hxs : ∀ x ∈ xs, x.Dict)
    (hnow : cutoff ≤ now) :
    SameView (liveFiles table now (.arr xs))
      (liveFiles table now (.arr (xs.map (clearElement render cutoff.isoformat)))) := by
  show Checked.Agree _ (xs.mapM _ >>= _) ((xs.map _).mapM _ >>= _)
  have hrefs : ∀ x ∈ xs, Checked.Agree Eq (refWanted now.isoformat x)
      (refWanted now.isoformat (clearElement render cutoff.isoformat x)) := by
    intro x hx
    rw [refWanted_clear (hxs x hx) hnow]
    exact Checked.Agree.refl (fun _ => rfl) _
  refine (Checked.Agree.mapM hrefs).bind fun refs refs' heq => ?_
  obtain rfl : refs = refs' := by simpa [List.forall₂_eq_eq_eq] using heq
  refine (Checked.Agree.refl (fun _ => rfl) _).bind fun blobs blobs' (hblobs : blobs = blobs') => ?_
  subst hblobs
  refine (Checked.Agree.mapM fun x hx => servedFile_clear (hxs x hx) hnow blobs).bind fun as bs h => ?_
  exact Option.Rel.some h

end View

/-! ### Counts and bytes -/

/-- The bytes of the inline contents. -/
def inlineBytes (render : Val PyFloat → String) (xs : List (Val PyFloat)) : ℕ :=
  ((xs.filter fun e => (inline e).holds).map (contentLength render)).sum

/-- An element with inline content is clearable, live or without expiry, and only one of these. -/
theorem inline_parts (e : Val PyFloat) :
    (clearable render cutoff e).holds.toNat + (live render cutoff e).holds.toNat +
    (noExpiry render e).holds.toNat = (inline e).holds.toNat := by
  have hnot : (hasExpiry render e).not.holds = !(hasExpiry render e).holds := Tri.holds_not_orFalse _
  simp only [clearable, live, noExpiry, Tri.holds_and, hnot]
  cases hi : (inline e).holds with
  | false => rfl
  | true =>
    cases he : (hasExpiry render e).holds with
    | false => rfl
    | true =>
      rw [Tri.holds_not_of_isSome (expiredBefore_isSome he)]
      cases (expiredBefore render cutoff e).holds <;> rfl

/-- A clearable element has inline content before, and none after. -/
theorem inline_clearElement {e : Val PyFloat} (he : e.Dict) :
    (inline (clearElement render cutoff e)).holds.toNat + (clearable render cutoff e).holds.toNat =
      (inline e).holds.toNat := by
  unfold clearElement
  split_ifs with h
  · obtain ⟨es, c, s, rfl, hc, -⟩ := clearable_iff.mp h
    have hin : (inline (.obj es)).holds = true := inline_iff.mpr ⟨es, c, rfl, hc⟩
    rw [not_inline_blank (Val.dict_obj.mp he).1, h, hin]
    rfl
  · rw [Bool.not_eq_true] at h
    rw [h]
    rfl

theorem not_clearable_clearElement {e : Val PyFloat} (he : e.Dict) :
    ¬(clearable render cutoff (clearElement render cutoff e)).holds = true := by
  intro h
  have hin : (inline (clearElement render cutoff e)).holds = true := by
    obtain ⟨es, c, s, heq, hget, -⟩ := clearable_iff.mp h
    exact inline_iff.mpr ⟨es, c, heq, hget⟩
  by_cases hc : (clearable render cutoff e).holds = true
  · have hsum := @inline_clearElement render cutoff e he
    rw [hin, hc] at hsum
    cases hb : (inline e).holds <;> rw [hb] at hsum <;> cases hsum
  · have hkeep : clearElement render cutoff e = e := if_neg hc
    rw [hkeep] at h
    exact hc h

theorem countP_add_countP {α : Type} {p a b c : α → Bool} : ∀ {xs : List α},
    (∀ x ∈ xs, (a x).toNat + (b x).toNat + (c x).toNat = (p x).toNat) →
      xs.countP a + xs.countP b + xs.countP c = xs.countP p
  | [], _ => rfl
  | x :: xs, h => by
    have hx := h x List.mem_cons_self
    have ih := countP_add_countP fun y hy => h y (List.mem_cons_of_mem x hy)
    have hcons : ∀ q : α → Bool, (x :: xs).countP q = xs.countP q + (q x).toNat := by
      intro q
      cases hq : q x <;> simp [hq]
    rw [hcons, hcons, hcons, hcons]
    omega

/-- **The survey partitions the elements with inline content.** -/
theorem count_partition (xs : List (Val PyFloat)) :
    count (clearable render cutoff) xs + count (live render cutoff) xs + count (noExpiry render) xs =
      count inline xs :=
  countP_add_countP fun e _ => inline_parts e

theorem count_clear {xs : List (Val PyFloat)} (hxs : ∀ x ∈ xs, x.Dict) :
    count inline (xs.map (clearElement render cutoff)) + count (clearable render cutoff) xs = count inline xs := by
  have hpart : ∀ e ∈ xs, (inline (clearElement render cutoff e)).holds.toNat + (clearable render cutoff e).holds.toNat +
      false.toNat = (inline e).holds.toNat := fun e he => inline_clearElement (hxs e he)
  unfold count
  rw [List.countP_map]
  simpa [Function.comp_def] using countP_add_countP hpart

theorem bytes_clear : ∀ {xs : List (Val PyFloat)}, (∀ x ∈ xs, x.Dict) →
    inlineBytes render (xs.map (clearElement render cutoff)) + clearableBytes render cutoff xs = inlineBytes render xs
  | [], _ => rfl
  | e :: xs, h => by
    have ih := bytes_clear fun y hy => h y (List.mem_cons_of_mem e hy)
    have he := @inline_clearElement render cutoff e (h e List.mem_cons_self)
    simp only [inlineBytes, clearableBytes, List.map_cons, List.filter_cons] at ih ⊢
    by_cases hc : (clearable render cutoff e).holds = true
    · have hin : (inline e).holds = true := by
        obtain ⟨es, c, s, rfl, hget, -⟩ := clearable_iff.mp hc
        exact inline_iff.mpr ⟨es, c, rfl, hget⟩
      have hout : (inline (clearElement render cutoff e)).holds = false := by
        rw [hc, hin] at he
        cases ho : (inline (clearElement render cutoff e)).holds with
        | false => rfl
        | true =>
          rw [ho] at he
          cases he
      rw [if_pos hc, if_pos hin, hout]
      simp only [Bool.false_eq_true, if_false, List.map_cons, List.sum_cons]
      omega
    · have hkeep : clearElement render cutoff e = e := if_neg hc
      rw [if_neg hc, hkeep]
      split_ifs
      · simp only [List.map_cons, List.sum_cons]
        omega
      · exact ih

/-! ### One job -/

/-- A key of `result_meta`. -/
def JobRow.metaField (j : JobRow) (k : String) : Option (Val PyFloat) :=
  j.resultMeta.bind fun v => arrow v.1 k

/-- What a reader serves for a job. -/
def JobRow.served (reader : Val PyFloat → Except ViewError (Option (List Doc))) (j : JobRow) :
    Except ViewError (Option (List Doc)) := do
  let files ← filesField (j.resultMeta.map Subtype.val)
  reader files

/-- An element with its content blanked: two keys are set, and every other key is kept. -/
def Blanked (e e' : Val PyFloat) : Prop :=
  ∃ es es', e = .obj es ∧ e' = .obj es' ∧ ∀ k, OrderedDict.get es' k =
    if k = "expired" then some (.bool true) else if k = "content_b64" then some .null else OrderedDict.get es k

/-- **Clearing is invisible**: at every later time the readers serve the same; only clearable elements
change, in their place, and no other key does; the survey partitions the inline contents and its
clearable files and bytes are what the statement returns and removes; and the statement finds nothing a
second time. -/
structure ClearInvisible (render : Val PyFloat → String) (cutoff : DateTime) (j : JobRow) : Prop where
  inline_view : ∀ now, cutoff ≤ now →
    SameView (j.served (liveFilesInline now)) ((j.clear render cutoff.isoformat).served (liveFilesInline now))
  table_view : ∀ table now, cutoff ≤ now →
    SameView (j.served (liveFiles table now)) ((j.clear render cutoff.isoformat).served (liveFiles table now))
  columns : (j.clear render cutoff.isoformat).id = j.id ∧
    (j.clear render cutoff.isoformat).projectId = j.projectId ∧
    (j.clear render cutoff.isoformat).capability = j.capability ∧
      (j.clear render cutoff.isoformat).status = j.status
  keys : ∀ k, k ≠ "files" → (j.clear render cutoff.isoformat).metaField k = j.metaField k
  no_array : filesOf j.resultMeta = [] → j.clear render cutoff.isoformat = j
  elements : List.Forall₂ (fun e e' => ((clearable render cutoff.isoformat e).holds = true → Blanked e e') ∧
      ((clearable render cutoff.isoformat e).holds = false → e' = e))
    (filesOf j.resultMeta) (filesOf (j.clear render cutoff.isoformat).resultMeta)
  partition : (surveyRow render cutoff.isoformat j).files + (surveyRow render cutoff.isoformat j).live +
    (surveyRow render cutoff.isoformat j).noExpiry = count inline (filesOf j.resultMeta)
  returned : cleared render cutoff.isoformat j =
    if 0 < (surveyRow render cutoff.isoformat j).files then
      some ((surveyRow render cutoff.isoformat j).files, (surveyRow render cutoff.isoformat j).bytes) else none
  files_removed : count inline (filesOf (j.clear render cutoff.isoformat).resultMeta) +
    (surveyRow render cutoff.isoformat j).files = count inline (filesOf j.resultMeta)
  bytes_removed : inlineBytes render (filesOf (j.clear render cutoff.isoformat).resultMeta) +
    (surveyRow render cutoff.isoformat j).bytes = inlineBytes render (filesOf j.resultMeta)
  again : (j.clear render cutoff.isoformat).clear render cutoff.isoformat = j.clear render cutoff.isoformat ∧
    cleared render cutoff.isoformat (j.clear render cutoff.isoformat) = none

theorem filesField_obj (es : Doc) : filesField (some (.obj es)) = .ok (Doc.get es "files") := by
  unfold filesField Val.orDict
  by_cases h : es = []
  · subst h
    rfl
  · simp [Val.truthy, h, Val.asDict]

theorem blanked_blank {e : Val PyFloat} (he : e.Dict) (h : (clearable render cutoff e).holds = true) :
    Blanked e (clearElement render cutoff e) := by
  obtain ⟨es, c, s, rfl, -⟩ := clearable_iff.mp h
  exact ⟨es, concat es blanked, rfl, if_pos h, get_blank (Val.dict_obj.mp he).1⟩

theorem elements_clear {xs : List (Val PyFloat)} (hxs : ∀ x ∈ xs, x.Dict) :
    List.Forall₂ (fun e e' => ((clearable render cutoff e).holds = true → Blanked e e') ∧
      ((clearable render cutoff e).holds = false → e' = e)) xs (xs.map (clearElement render cutoff)) := by
  rw [List.forall₂_map_right_iff, List.forall₂_same]
  intro e he
  refine ⟨blanked_blank (hxs e he), fun h => ?_⟩
  unfold clearElement
  rw [h]
  rfl

theorem clear_of_none {j : JobRow} (h : cleared render cutoff j = none) : j.clear render cutoff = j := by
  simp [JobRow.clear, h]

/-- A row the statement rewrites: its array and the row after it. -/
structure Rewrites (render : Val PyFloat → String) (cutoff : String) (j : JobRow)
    (v : Jsonb PyFloat) (es : Doc) (xs : List (Val PyFloat)) : Prop where
  resultMeta : j.resultMeta = some v
  object : v.1 = .obj es
  array : OrderedDict.get es "files" = some (.arr xs)
  clear_eq : j.clear render cutoff = { j with resultMeta := some (clearMeta render cutoff v) }

/-- A row is not touched or rewritten. -/
theorem clear_cases (render : Val PyFloat → String) (cutoff : String) (j : JobRow) :
    cleared render cutoff j = none ∨ ∃ v es xs, Rewrites render cutoff j v es xs := by
  cases hc : cleared render cutoff j with
  | none => exact .inl rfl
  | some r =>
    right
    have hclear : j.clear render cutoff = { j with resultMeta := j.resultMeta.map (clearMeta render cutoff) } :=
      if_pos (by rw [hc]; rfl)
    have hne : filesOf j.resultMeta ≠ [] := by
      intro hnil
      simp [cleared, hnil, count] at hc
    cases hm : j.resultMeta with
    | none =>
      rw [hm] at hne
      exact absurd rfl hne
    | some v =>
      rw [hm] at hne
      obtain ⟨w, hw⟩ := v
      cases w with
      | obj es =>
        cases hf : OrderedDict.get es "files" with
        | none => exact absurd (by simp [filesOf, arrow, hf]) hne
        | some f =>
          cases f with
          | arr xs => exact ⟨⟨.obj es, hw⟩, es, xs, ⟨hm, rfl, hf, by rw [hclear, hm]; rfl⟩⟩
          | _ => exact absurd (by simp [filesOf, arrow, hf]) hne
      | _ => exact absurd (by simp [filesOf, arrow]) hne

theorem served_arr {j : JobRow} {v : Jsonb PyFloat} {es : Doc} {xs : List (Val PyFloat)}
    (hm : j.resultMeta = some v) (hv : v.1 = .obj es) (hf : OrderedDict.get es "files" = some (.arr xs))
    (reader : Val PyFloat → Except ViewError (Option (List Doc))) : j.served reader = reader (.arr xs) := by
  unfold JobRow.served
  rw [hm, Option.map_some, hv, filesField_obj]
  show reader (Doc.get es "files") = _
  unfold Doc.get
  rw [hf]
  rfl

namespace Rewrites

variable {j : JobRow} {v : Jsonb PyFloat} {es : Doc} {xs : List (Val PyFloat)}
    (h : Rewrites render cutoff j v es xs)
include h

theorem keys : (es.map Prod.fst).Nodup := (Val.dict_obj.mp (h.object ▸ v.2)).1

theorem dict : ∀ x ∈ xs, x.Dict :=
  Val.dict_arr.mp ((Val.dict_obj.mp (h.object ▸ v.2)).2 _ (OrderedDict.mem_of_get h.array))

theorem filesOf_eq : filesOf j.resultMeta = xs := by
  rw [h.resultMeta]
  simp [filesOf, arrow, h.object, h.array]

theorem object' : (clearMeta render cutoff v).1 =
    .obj (OrderedDict.setItem es "files" (.arr (xs.map (clearElement render cutoff)))) := by
  simp [clearMeta, clearValue, h.object, h.array]

theorem array' : OrderedDict.get
    (OrderedDict.setItem es "files" (.arr (xs.map (clearElement render cutoff)))) "files" =
    some (.arr (xs.map (clearElement render cutoff))) := by
  rw [OrderedDict.get_setItem h.keys, if_pos rfl]

theorem filesOf_clear : filesOf (j.clear render cutoff).resultMeta = xs.map (clearElement render cutoff) := by
  rw [h.clear_eq]
  simp [filesOf, arrow, h.object', h.array']

end Rewrites

/-- The files after the statement, in scope: every clearable element is blanked. -/
theorem filesOf_clear {j : JobRow} (hj : j.inScope = true) :
    filesOf (j.clear render cutoff).resultMeta = (filesOf j.resultMeta).map (clearElement render cutoff) := by
  rcases clear_cases render cutoff j with hnone | ⟨v, es, xs, h⟩
  · have hzero : ∀ e ∈ filesOf j.resultMeta, clearElement render cutoff e = e := by
      intro e he
      refine if_neg fun hcl => ?_
      have hpos : 0 < count (clearable render cutoff) (filesOf j.resultMeta) :=
        List.countP_pos_iff.mpr ⟨e, he, hcl⟩
      simp [cleared, hj, hpos] at hnone
    rw [clear_of_none hnone, List.map_congr_left hzero, List.map_id']
  · rw [h.filesOf_clear, h.filesOf_eq]

theorem dict_filesOf (j : JobRow) : ∀ x ∈ filesOf j.resultMeta, x.Dict := by
  intro x hx
  cases hm : j.resultMeta with
  | none =>
    rw [hm] at hx
    cases hx
  | some v =>
    rw [hm] at hx
    obtain ⟨w, hw⟩ := v
    cases w with
    | obj es =>
      cases hf : OrderedDict.get es "files" with
      | none => simp [filesOf, arrow, hf] at hx
      | some f =>
        cases f with
        | arr xs =>
          have hmem : x ∈ xs := by simpa [filesOf, arrow, hf] using hx
          exact Val.dict_arr.mp ((Val.dict_obj.mp hw).2 _ (OrderedDict.mem_of_get hf)) x hmem
        | _ => simp [filesOf, arrow, hf] at hx
    | _ => simp [filesOf, arrow] at hx

/-- **A reader that does not see the blanked elements does not see the statement.** -/
theorem served_clear (j : JobRow) {reader : Val PyFloat → Except ViewError (Option (List Doc))}
    (hreader : ∀ xs : List (Val PyFloat), (∀ x ∈ xs, x.Dict) →
      SameView (reader (.arr xs)) (reader (.arr (xs.map (clearElement render cutoff))))) :
    SameView (j.served reader) ((j.clear render cutoff).served reader) := by
  rcases clear_cases render cutoff j with hnone | ⟨v, es, xs, h⟩
  · rw [clear_of_none hnone]
    exact sameView_refl _
  · rw [served_arr h.resultMeta h.object h.array, served_arr (by rw [h.clear_eq]) h.object' h.array']
    exact hreader xs h.dict

theorem metaField_clear (j : JobRow) {k : String} (hk : k ≠ "files") :
    (j.clear render cutoff).metaField k = j.metaField k := by
  rcases clear_cases render cutoff j with hnone | ⟨v, es, xs, h⟩
  · rw [clear_of_none hnone]
  · rw [h.clear_eq]
    unfold JobRow.metaField
    rw [h.resultMeta]
    show arrow (clearMeta render cutoff v).1 k = arrow v.1 k
    rw [h.object', h.object]
    show OrderedDict.get (OrderedDict.setItem _ _ _) k = OrderedDict.get es k
    rw [OrderedDict.get_setItem h.keys, if_neg hk]

theorem columns_clear (j : JobRow) :
    (j.clear render cutoff).id = j.id ∧ (j.clear render cutoff).projectId = j.projectId ∧
    (j.clear render cutoff).capability = j.capability ∧ (j.clear render cutoff).status = j.status := by
  unfold JobRow.clear
  split_ifs <;> exact ⟨rfl, rfl, rfl, rfl⟩

/-- **The statement finds nothing a second time.** -/
theorem cleared_clear (j : JobRow) : cleared render cutoff (j.clear render cutoff) = none := by
  rcases clear_cases render cutoff j with hnone | ⟨v, es, xs, h⟩
  · rw [clear_of_none hnone]
    exact hnone
  · have hzero : count (clearable render cutoff) (filesOf (j.clear render cutoff).resultMeta) = 0 := by
      rw [h.filesOf_clear]
      refine List.countP_eq_zero.mpr fun e he => ?_
      obtain ⟨x, hx, rfl⟩ := List.mem_map.mp he
      exact not_clearable_clearElement (h.dict x hx)
    simp [cleared, hzero]

/-- **Clearing expired file bytes is invisible**, for every job of an agent in a terminal status, whatever its
`result_meta` holds, and every cutoff. -/
theorem clear_invisible (render : Val PyFloat → String) (cutoff : DateTime) {j : JobRow}
    (hj : j.inScope = true) :
    ClearInvisible render cutoff j := by
  refine ⟨fun now hnow => ?_, fun table now hnow => ?_, columns_clear j, fun k hk => metaField_clear j hk,
    fun hnil => ?_, ?_, count_partition _, ?_, ?_, ?_, clear_of_none (cleared_clear j), cleared_clear j⟩
  · exact served_clear j fun xs hxs => liveFilesInline_clear hxs hnow
  · exact served_clear j fun xs hxs => liveFiles_clear table hxs hnow
  · exact clear_of_none (by simp [cleared, hnil, count])
  · rw [filesOf_clear hj]
    exact elements_clear (dict_filesOf j)
  · simp only [cleared, hj, surveyRow, Bool.true_and, decide_eq_true_eq]
    congr 1
  · rw [filesOf_clear hj]
    exact count_clear (dict_filesOf j)
  · rw [filesOf_clear hj]
    exact bytes_clear (dict_filesOf j)

/-- A finished job with an expired file, a live one and an element that is no file. -/
def JobRow.sample : JobRow where
  id := 1
  projectId := 1
  capability := "agent:claude"
  status := .done
  resultMeta := some ⟨.obj [("files", .arr [
      .obj [("path", .str "a.png"), ("expires_at", .str "2026-10-22T09:00:00+00:00"), ("content_b64", .str "QUJD")],
      .obj [("path", .str "b.png"), ("expires_at", .str "2026-10-23T10:00:00.5+00:00"), ("content_b64", .str "QUJD")],
      .str "odd"])], by simp [Val.Dict, Val.DictItems, Val.DictEntries]⟩

/-- Ten o'clock on 23 October 2026. -/
def cutoffSample : DateTime where
  year := 2026
  month := 10
  day := 23
  hour := 10
  minute := 0
  second := 0
  microsecond := 0
  hyear := by decide
  hmonth := by decide
  hday := by decide
  hhour := by decide
  hminute := by decide
  hsecond := by decide
  hmicrosecond := by decide

theorem clear_invisible_of_finished_job :
    JobRow.sample.inScope = true ∧
      surveyRow (fun _ => "") cutoffSample.isoformat .sample = ⟨1, 1, "agent:claude", 1, 4, 1, 0, 0⟩ ∧
      ClearInvisible (fun _ => "") cutoffSample .sample :=
  ⟨by decide, by decide +kernel, clear_invisible _ _ (by decide)⟩

/-! ### A run of the script -/

/-- The numbers of `Report`. -/
structure Report where
  jobsClearable : ℕ := 0
  filesClearable : ℕ := 0
  bytesClearable : ℕ := 0
  skippedLive : ℕ := 0
  skippedNoExpiresAt : ℕ := 0
  filesTableRef : ℕ := 0
  jobsUpdated : ℕ := 0
  filesCleared : ℕ := 0
  bytesCleared : ℕ := 0
  jobsLockedSkipped : ℕ := 0
  batchesFailed : ℕ := 0

/-- The statement of a batch that runs into a timeout. -/
inductive Stage | survey | lock | clear
  deriving DecidableEq, Repr

/-- One batch: its ids, the rows other writers hold, and the statement that fails, if one does. -/
structure Batch where
  ids : List ℕ
  busy : List ℕ := []
  fails : Option Stage := none

structure ScriptState where
  jobs : List JobRow
  report : Report := {}

/-- The numbers of the survey's rows. -/
def Report.survey (rep : Report) (rows : List SurveyRow) : Report :=
  { rep with
    jobsClearable := rep.jobsClearable + (rows.filter fun r => 0 < r.files).length
    filesClearable := rep.filesClearable + (rows.map (·.files)).sum
    bytesClearable := rep.bytesClearable + ((rows.filter fun r => 0 < r.files).map (·.bytes)).sum
    skippedLive := rep.skippedLive + (rows.map (·.live)).sum
    skippedNoExpiresAt := rep.skippedNoExpiresAt + (rows.map (·.noExpiry)).sum
    filesTableRef := rep.filesTableRef + (rows.map (·.tableRef)).sum }

/-- The numbers of the rows the rewrite returned. -/
def Report.done (rep : Report) (rows : List (ℕ × ℕ × ℕ)) : Report :=
  { rep with
    jobsUpdated := rep.jobsUpdated + rows.length
    filesCleared := rep.filesCleared + (rows.map fun r => r.2.1).sum
    bytesCleared := rep.bytesCleared + (rows.map fun r => r.2.2).sum }

def Report.failed (rep : Report) : Report := { rep with batchesFailed := rep.batchesFailed + 1 }

section Run

variable (render : Val PyFloat → String) (cutoff : String) (execute : Bool)

/-- `_process_batch` in its transaction; a failure rolls the table back, not the numbers counted before it. -/
def processBatch (s : ScriptState) (b : Batch) : ScriptState :=
  if b.fails = some .survey then { s with report := s.report.failed }
  else
    let rows := survey render cutoff b.ids s.jobs
    let rep := s.report.survey rows
    let ids := (rows.filter fun r => 0 < r.files).map (·.id)
    if execute = false ∨ ids = [] then { s with report := rep }
    else if b.fails = some .lock then { s with report := rep.failed }
    else
      let got := ids.filter fun i => !b.busy.contains i
      let rep := { rep with jobsLockedSkipped := rep.jobsLockedSkipped + (ids.length - got.length) }
      if got = [] then { s with report := rep }
      else if b.fails = some .clear then { s with report := rep.failed }
      else ⟨(clear render cutoff got s.jobs).1, rep.done (clear render cutoff got s.jobs).2⟩

/-- `run`: one batch after the other. -/
def runStep (s : ScriptState) (b : Batch) : Option ScriptState :=
  some (processBatch render cutoff execute s b)

end Run

variable {execute : Bool}

/-- A batch leaves the table as it is or rewrites the rows it locked. -/
theorem processBatch_jobs (s : ScriptState) (b : Batch) :
    (processBatch render cutoff execute s b).jobs = s.jobs ∨
      ∃ got, (processBatch render cutoff execute s b).jobs = (clear render cutoff got s.jobs).1 := by
  unfold processBatch
  dsimp only
  split_ifs
  · exact .inl rfl
  · exact .inl rfl
  · exact .inl rfl
  · exact .inl rfl
  · exact .inl rfl
  · exact .inr ⟨_, rfl⟩

/-- **A run of the script is invisible**: whatever batches fail and whatever rows are locked, every job
is as it was or cleared, so the readers serve at every later time what they served before. -/
theorem run_invisible {cutoff : DateTime} {s s' : ScriptState} {batches : List Batch}
    (h : Steps (runStep render cutoff.isoformat execute) Free s batches s') :
    List.Forall₂ (fun j j' => ∀ now table, cutoff ≤ now →
      SameView (j.served (liveFilesInline now)) (j'.served (liveFilesInline now)) ∧
        SameView (j.served (liveFiles table now)) (j'.served (liveFiles table now))) s.jobs s'.jobs := by
  -- every job is as it was, or cleared
  have hjobs : List.Forall₂ (fun j j' => j' = j ∨ j' = j.clear render cutoff.isoformat) s.jobs s'.jobs := by
    refine h.inv (I := fun t => List.Forall₂ (fun j j' => j' = j ∨ j' = j.clear render cutoff.isoformat) s.jobs t.jobs)
      (fun t b u ht _ hstep => ?_) (List.forall₂_same.mpr fun j _ => .inl rfl)
    obtain rfl := Option.some.inj hstep
    have hcleared : (processBatch render cutoff.isoformat execute t b).jobs = t.jobs ∨
        ∃ got, (processBatch render cutoff.isoformat execute t b).jobs = (clear render cutoff.isoformat got t.jobs).1 :=
      processBatch_jobs t b
    rcases hcleared with hk | ⟨got, hk⟩
    · rw [hk]
      exact ht
    · rw [hk]
      refine List.forall₂_map_right_iff.mpr (ht.imp fun j j' hjj' => ?_)
      split_ifs
      · rcases hjj' with rfl | rfl
        · exact .inr rfl
        · exact .inr (clear_of_none (cleared_clear j))
      · exact hjj'
  refine hjobs.imp fun j j' hjj' now table hnow => ?_
  rcases hjj' with rfl | rfl
  · exact ⟨sameView_refl _, sameView_refl _⟩
  · exact ⟨served_clear j fun xs hxs => liveFilesInline_clear hxs hnow,
      served_clear j fun xs hxs => liveFiles_clear table hxs hnow⟩

/-! ### The report -/

/-- The jobs a batch can clear. -/
def clearableJobs (render : Val PyFloat → String) (cutoff : String) (ids : List ℕ) (jobs : List JobRow) :
    List JobRow :=
  jobs.filter fun j => ids.contains j.id && (cleared render cutoff j).isSome

theorem cleared_isSome {j : JobRow} :
    (cleared render cutoff j).isSome = (j.inScope && decide (0 < (surveyRow render cutoff j).files)) := by
  unfold cleared surveyRow
  dsimp only
  cases j.inScope <;> by_cases h : 0 < count (clearable render cutoff) (filesOf j.resultMeta) <;> simp [h]

/-- The survey's rows with something to clear. -/
theorem survey_clearable (ids : List ℕ) (jobs : List JobRow) :
    (survey render cutoff ids jobs).filter (fun r => decide (0 < r.files)) =
      (clearableJobs render cutoff ids jobs).map (surveyRow render cutoff) := by
  unfold survey clearableJobs
  rw [List.filter_map, List.filter_filter]
  congr 1
  refine List.filter_congr fun j _ => ?_
  rw [cleared_isSome]
  have hne : 0 < (surveyRow render cutoff j).files → (filesOf j.resultMeta).isEmpty = false := by
    intro hpos
    cases hf : filesOf j.resultMeta with
    | nil =>
      rw [surveyRow, hf] at hpos
      exact absurd hpos (Nat.lt_irrefl 0)
    | cons x xs => rfl
  by_cases hpos : 0 < (surveyRow render cutoff j).files
  · simp [hpos, hne hpos]
  · simp [hpos]

/-- What the rewrite returns for the jobs it is handed. -/
theorem clear_returned (ids : List ℕ) (jobs : List JobRow) :
    (clear render cutoff ids jobs).2 = (clearableJobs render cutoff ids jobs).map fun j =>
      (j.id, (surveyRow render cutoff j).files, (surveyRow render cutoff j).bytes) := by
  unfold clear clearableJobs
  dsimp only
  induction jobs with
  | nil => rfl
  | cons j jobs ih =>
    rw [List.filterMap_cons, List.filter_cons, ih]
    by_cases hid : ids.contains j.id = true
    · cases hc : cleared render cutoff j with
      | none => simp
      | some r =>
        have hr : r = ((surveyRow render cutoff j).files, (surveyRow render cutoff j).bytes) := by
          unfold cleared at hc
          split_ifs at hc
          exact (Option.some.inj hc).symm
        rw [if_pos hid, hid, hr]
        rfl
    · rw [if_neg hid]
      rw [Bool.not_eq_true] at hid
      rw [hid]
      rfl

/-- Handing over the ids of the clearable jobs is handing over the batch. -/
theorem clearableJobs_ids (ids : List ℕ) (jobs : List JobRow) :
    clearableJobs render cutoff ((clearableJobs render cutoff ids jobs).map (·.id)) jobs =
      clearableJobs render cutoff ids jobs := by
  refine List.filter_congr fun j hj => ?_
  by_cases hc : (cleared render cutoff j).isSome = true
  · rw [hc, Bool.and_true, Bool.and_true, Bool.eq_iff_iff, List.contains_iff_mem, List.contains_iff_mem, List.mem_map]
    constructor
    · rintro ⟨k, hk, hid⟩
      rw [← hid]
      exact List.contains_iff_mem.mp (Bool.and_eq_true_iff.mp (List.mem_filter.mp hk).2).1
    · intro hid
      exact ⟨j, List.mem_filter.mpr ⟨hj, by simp [hid, hc]⟩, rfl⟩
  · simp [hc]

theorem sum_files_filter (rows : List SurveyRow) :
    ((rows.filter fun r => decide (0 < r.files)).map (·.files)).sum = (rows.map (·.files)).sum := by
  induction rows with
  | nil => rfl
  | cons r rows ih =>
    by_cases h : 0 < r.files
    · simp [h, ih]
    · have hzero : r.files = 0 := by omega
      simp [hzero, ih]

/-- The report of an execution says it cleared what it found. -/
def Report.Exact (rep : Report) : Prop :=
  rep.jobsUpdated = rep.jobsClearable ∧ rep.filesCleared = rep.filesClearable ∧
    rep.bytesCleared = rep.bytesClearable

/-- The rewrite returns every row of the survey with something to clear. -/
theorem clear_surveyed (ids : List ℕ) (jobs : List JobRow) :
    (clear render cutoff ((clearableJobs render cutoff ids jobs).map
        ((fun r => r.id) ∘ surveyRow render cutoff)) jobs).2 =
      (clearableJobs render cutoff ids jobs).map fun j =>
        (j.id, (surveyRow render cutoff j).files, (surveyRow render cutoff j).bytes) := by
  rw [clear_returned]
  exact congrArg _ (clearableJobs_ids ids jobs)

/-- One batch without a failure and without a locked row. -/
theorem processBatch_exact {t : ScriptState} {b : Batch} (hfails : b.fails = none) (hbusy : b.busy = [])
    (ht : t.report.Exact) : (processBatch render cutoff true t b).report.Exact := by
  obtain ⟨hj, hf, hbytes⟩ := ht
  have hrows : (survey render cutoff b.ids t.jobs).filter (fun r => decide (0 < r.files)) =
      (clearableJobs render cutoff b.ids t.jobs).map (surveyRow render cutoff) :=
    survey_clearable b.ids t.jobs
  have hfiles := sum_files_filter (survey render cutoff b.ids t.jobs)
  rw [hrows] at hfiles
  have hids : ∀ l : List ℕ, (l.filter fun i => !b.busy.contains i) = l := by
    intro l
    rw [hbusy]
    simp
  unfold processBatch
  simp only [hfails, hrows, hids, reduceCtorEq, if_false, List.map_map]
  by_cases hnil : clearableJobs render cutoff b.ids t.jobs = []
  · -- nothing to clear: the batch ends after its survey
    rw [if_pos (.inr (by rw [hnil]; rfl))]
    rw [hnil] at hrows hfiles
    refine ⟨?_, ?_, ?_⟩
    · show t.report.jobsUpdated = t.report.jobsClearable + (List.filter _ _).length
      rw [hrows, hj]
      rfl
    · show t.report.filesCleared = t.report.filesClearable + _
      rw [← hfiles, hf]
      rfl
    · show t.report.bytesCleared = t.report.bytesClearable + ((List.filter _ _).map _).sum
      rw [hrows, hbytes]
      rfl
  · have hne : (clearableJobs render cutoff b.ids t.jobs).map
        ((fun r => r.id) ∘ surveyRow render cutoff) ≠ [] := by
      simpa using hnil
    have hret := @clear_surveyed render cutoff b.ids t.jobs
    rw [if_neg (by simpa using hne), if_neg hne]
    refine ⟨?_, ?_, ?_⟩
    · show t.report.jobsUpdated + (clear render cutoff _ t.jobs).2.length =
        t.report.jobsClearable + (List.filter _ _).length
      rw [hret, hrows, hj, List.length_map, List.length_map]
    · show t.report.filesCleared + ((clear render cutoff _ t.jobs).2.map _).sum = t.report.filesClearable + _
      rw [hret, ← hfiles, hf, List.map_map, List.map_map]
      rfl
    · show t.report.bytesCleared + ((clear render cutoff _ t.jobs).2.map _).sum =
        t.report.bytesClearable + ((List.filter _ _).map _).sum
      rw [hret, hrows, hbytes, List.map_map, List.map_map]
      rfl

/-- **An undisturbed execution clears exactly what its survey counts**: no statement fails and no row is
locked. -/
theorem report_exact {s s' : ScriptState} {batches : List Batch}
    (h : Steps (runStep render cutoff true) (fun _ b => b.fails = none ∧ b.busy = []) s batches s')
    (hs : s.report.Exact) : s'.report.Exact := by
  refine h.inv (I := fun t => t.report.Exact) (fun t b u ht hb hstep => ?_) hs
  obtain rfl := Option.some.inj hstep
  exact processBatch_exact hb.1 hb.2 ht

end Broker.Scripts
