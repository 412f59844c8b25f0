import Broker.Agent.Masking
import Broker.Lib.JsonReadBack

/-!
# Broker.Agent.RedactShape — what redaction leaves of a JSON answer

`MaskOf v w` says that `w` is `v` with its strings masked, entry by entry.  The redaction rebuilds every
object as a dictionary, so it is a mask of the answer exactly when no two keys of an object are masked to
one text (`KeysApart`); otherwise an entry is lost.  What it returns always parses strictly, and it is
the text it was given exactly when nothing was masked (`redactFinalText_structure`).
-/

namespace Broker.Agent

open Broker.Lib JsonLoad

/-- A string under a token key: it is lost whole. -/
def hidesValue (k : String) : Val PyFloat → Bool
  | .str _ => isTokenKey k
  | _ => false

section Shape

variable (redact : String → String)

-- the same document with masked strings
mutual
def MaskOf : Val PyFloat → Val PyFloat → Prop
  | .str s, w => w = .str (redact s)
  | .arr xs, w => ∃ ys, w = .arr ys ∧ MaskItems xs ys
  | .obj es, w => ∃ fs, w = .obj fs ∧ MaskEntries es fs
  | v, w => w = v
def MaskItems : List (Val PyFloat) → List (Val PyFloat) → Prop
  | [], ys => ys = []
  | x :: xs, ys => ∃ z zs, ys = z :: zs ∧ MaskOf x z ∧ MaskItems xs zs
def MaskEntries : Doc → Doc → Prop
  | [], fs => fs = []
  | (k, x) :: es, fs =>
    ∃ z gs, fs = (redact k, z) :: gs ∧ (if hidesValue k x then z = .str redactedMark else MaskOf x z) ∧
      MaskEntries es gs
end

-- no two keys of an object are masked to one text
mutual
def KeysApart : Val PyFloat → Prop
  | .arr xs => KeysApartItems xs
  | .obj es => (es.map fun e => redact e.1).Nodup ∧ KeysApartEntries es
  | _ => True
def KeysApartItems : List (Val PyFloat) → Prop
  | [] => True
  | x :: xs => KeysApart x ∧ KeysApartItems xs
def KeysApartEntries : Doc → Prop
  | [] => True
  | (_, x) :: es => KeysApart x ∧ KeysApartEntries es
end

variable {redact}

theorem redactEntries_cons (k : String) (x : Val PyFloat) (es : Doc) :
    redactEntries redact ((k, x) :: es) =
      (redact k, if hidesValue k x then .str redactedMark else redacted redact x) :: redactEntries redact es := by
  cases x with
  | str s => by_cases hk : isTokenKey k = true <;> simp [redactEntries, redacted, hidesValue, hk]
  | _ => rfl

theorem keys_redactEntries (es : Doc) :
    (redactEntries redact es).map Prod.fst = es.map fun e => redact e.1 := by
  induction es with
  | nil => rfl
  | cons e es ih =>
    obtain ⟨k, x⟩ := e
    rw [redactEntries_cons, List.map_cons, List.map_cons, ih]

theorem keys_of_maskEntries : ∀ (es fs : Doc), MaskEntries redact es fs →
    fs.map Prod.fst = es.map fun e => redact e.1
  | [], fs, h => by
    obtain rfl : fs = [] := h
    rfl
  | (k, x) :: es, fs, h => by
    obtain ⟨z, gs, rfl, -, hes⟩ := h
    rw [List.map_cons, List.map_cons, keys_of_maskEntries es gs hes]

/-- A value that is lost has no keys. -/
theorem keysApart_of_hidesValue {k : String} {x : Val PyFloat} (h : hidesValue k x = true) :
    KeysApart redact x := by
  cases x with
  | str s => trivial
  | _ => cases h

/-! ### The redaction is the mask -/

-- where the keys stay apart
mutual
theorem maskOf_redacted : ∀ v : Val PyFloat, KeysApart redact v → MaskOf redact v (redacted redact v)
  | .null, _ | .bool _, _ | .int _, _ | .float _, _ | .str _, _ => rfl
  | .arr xs, h => ⟨_, rfl, maskItems_redactItems xs h⟩
  | .obj es, h => by
    have hd : ((redactEntries redact es).map Prod.fst).Nodup := by
      rw [keys_redactEntries]
      exact h.1
    refine ⟨redactEntries redact es, ?_, maskEntries_redactEntries es h.2⟩
    rw [redacted, dictOf_of_nodup hd]
theorem maskItems_redactItems : ∀ xs : List (Val PyFloat), KeysApartItems redact xs →
    MaskItems redact xs (redactItems redact xs)
  | [], _ => rfl
  | x :: xs, h => ⟨_, _, rfl, maskOf_redacted x h.1, maskItems_redactItems xs h.2⟩
theorem maskEntries_redactEntries : ∀ es : Doc, KeysApartEntries redact es →
    MaskEntries redact es (redactEntries redact es)
  | [], _ => rfl
  | (k, x) :: es, h => by
    refine ⟨_, _, redactEntries_cons k x es, ?_, maskEntries_redactEntries es h.2⟩
    have hx := maskOf_redacted x h.1
    by_cases hk : hidesValue k x = true
    · rw [if_pos hk, if_pos hk]
    · rw [if_neg hk, if_neg hk]
      exact hx
end

-- a mask with distinct keys is the redaction, and has its keys apart
mutual
theorem redacted_of_maskOf : ∀ v w : Val PyFloat, MaskOf redact v w → w.Dict →
    redacted redact v = w ∧ KeysApart redact v
  | .null, _, h, _ | .bool _, _, h, _ | .int _, _, h, _ | .float _, _, h, _ | .str _, _, h, _ => ⟨h.symm, trivial⟩
  | .arr xs, w, h, hd => by
    obtain ⟨ys, rfl, hxs⟩ := h
    obtain ⟨heq, hkeys⟩ := redactItems_of_maskItems xs ys hxs hd
    exact ⟨by rw [redacted, heq], hkeys⟩
  | .obj es, w, h, hd => by
    obtain ⟨fs, rfl, hes⟩ := h
    obtain ⟨heq, hkeys⟩ := redactEntries_of_maskEntries es fs hes hd.2
    refine ⟨by rw [redacted, heq, dictOf_of_nodup hd.1], ?_, hkeys⟩
    rw [← keys_of_maskEntries es fs hes]
    exact hd.1
theorem redactItems_of_maskItems : ∀ xs ys : List (Val PyFloat), MaskItems redact xs ys → Val.DictItems ys →
    redactItems redact xs = ys ∧ KeysApartItems redact xs
  | [], _, h, _ => ⟨h.symm, trivial⟩
  | x :: xs, ys, h, hd => by
    obtain ⟨z, zs, rfl, hx, hxs⟩ := h
    obtain ⟨heq, hkeys⟩ := redacted_of_maskOf x z hx hd.1
    obtain ⟨heqs, hkeyss⟩ := redactItems_of_maskItems xs zs hxs hd.2
    exact ⟨by rw [redactItems, heq, heqs], hkeys, hkeyss⟩
theorem redactEntries_of_maskEntries : ∀ es fs : Doc, MaskEntries redact es fs → Val.DictEntries fs →
    redactEntries redact es = fs ∧ KeysApartEntries redact es
  | [], _, h, _ => ⟨h.symm, trivial⟩
  | (k, x) :: es, fs, h, hd => by
    obtain ⟨z, gs, rfl, hx, hes⟩ := h
    obtain ⟨heqs, hkeyss⟩ := redactEntries_of_maskEntries es gs hes hd.2
    have hmask := redacted_of_maskOf x z
    by_cases hk : hidesValue k x = true
    · rw [if_pos hk] at hx
      exact ⟨by rw [redactEntries_cons, if_pos hk, heqs, hx], keysApart_of_hidesValue hk, hkeyss⟩
    · rw [if_neg hk] at hx
      obtain ⟨heq, hkeys⟩ := hmask hx hd.1
      exact ⟨by rw [redactEntries_cons, if_neg hk, heqs, heq], hkeys, hkeyss⟩
end

/-! ### What the redaction returns is read again -/

mutual
theorem readable_redacted {P : PyFloat → Prop} : ∀ (v : Val PyFloat) {room : ℕ}, Readable P room v →
    Readable P room (redacted redact v)
  | .null, _, _ | .bool _, _, _ | .str _, _, _ => trivial
  | .int _, _, h => h
  | .float _, _, h => h
  | .arr _, 0, h => h.elim
  | .arr xs, _ + 1, h => readable_redactItems xs h
  | .obj _, 0, h => h.elim
  | .obj es, room + 1, h => by
    have hes := readableEntries_iff.mp (readable_redactEntries es h.2)
    refine ⟨OrderedDict.keys_foldl_setItem_nodup List.nodup_nil, readableEntries_iff.mpr fun e he => ?_⟩
    rcases OrderedDict.mem_foldl_setItem he with hnil | hmem
    · cases hnil
    · exact hes e hmem
theorem readable_redactItems {P : PyFloat → Prop} : ∀ (xs : List (Val PyFloat)) {room : ℕ},
    ReadableItems P room xs → ReadableItems P room (redactItems redact xs)
  | [], _, _ => trivial
  | x :: xs, _, h => ⟨readable_redacted x h.1, readable_redactItems xs h.2⟩
theorem readable_redactEntries {P : PyFloat → Prop} : ∀ (es : Doc) {room : ℕ}, ReadableEntries P room es →
    ReadableEntries P room (redactEntries redact es)
  | [], _, _ => trivial
  | (k, x) :: es, room, h => by
    rw [redactEntries_cons]
    refine ⟨?_, readable_redactEntries es h.2⟩
    have hx := readable_redacted x h.1
    by_cases hk : hidesValue k x = true
    · rw [if_pos hk]
      trivial
    · rw [if_neg hk]
      exact hx
end

/-! ### Nothing is masked -/

/-- A map that permutes a list and makes lighter what it moves moves nothing. -/
theorem fixed_of_lighter {α : Type} {f : α → α} {weigh : α → ℕ} (hlow : ∀ x, f x ≠ x → weigh (f x) < weigh x)
    {l : List α} (hmap : ∀ x ∈ l, f x ∈ l) (hinj : (l.map f).Nodup) : ∀ x ∈ l, f x = x := by
  intro x hx
  induction hn : weigh x using Nat.strongRecOn generalizing x with
  | _ n ih =>
    subst hn
    by_contra hne
    have hfixed : f (f x) = f x := ih _ (hlow x hne) (f x) (hmap x hx) rfl
    exact hne (List.inj_on_of_nodup_map hinj (hmap x hx) hx hfixed)

theorem pyEq_str {s t : String} : (Val.str s).pyEq (.str t) = true ↔ s = t := by simp [Val.pyEq, Val.hashKey]

theorem keys_of_pyEqEntries : ∀ {fs es : Doc}, Val.pyEqEntries fs es = true → ∀ e ∈ fs, e.1 ∈ es.map Prod.fst
  | [], _, _, _, he => by cases he
  | (k, x) :: fs, es, h, e, he => by
    obtain ⟨hk, hfs⟩ : _ ∧ Val.pyEqEntries fs es = true := by simpa only [Val.pyEqEntries, Bool.and_eq_true] using h
    rcases List.mem_cons.mp he with rfl | he
    · cases hget : OrderedDict.get es k with
      | none => simp [hget] at hk
      | some y =>
        have hmem : (k, y).1 ∈ es.map Prod.fst := List.mem_map_of_mem (OrderedDict.mem_of_get hget)
        exact hmem
    · exact keys_of_pyEqEntries hfs e he

/-- The masking makes what it changes lighter. -/
def Lightens (redact : String → String) : Prop :=
  ∃ weigh : String → ℕ, ∀ t, redact t ≠ t → weigh (redact t) < weigh t

-- a document that equals its redaction is its own mask; the keys permute, so they are all as they were
mutual
theorem maskOf_self_of_pyEq (hlow : Lightens redact) : ∀ v : Val PyFloat, v.Dict →
    (redacted redact v).pyEq v = true → MaskOf redact v v
  | .null, _, _ | .bool _, _, _ | .int _, _, _ | .float _, _, _ => rfl
  | .str s, _, h => congrArg Val.str (pyEq_str.mp h).symm
  | .arr xs, hd, h => ⟨xs, rfl, maskItems_self_of_pyEq hlow xs hd h⟩
  | .obj es, hd, h => by
    obtain ⟨hlen, hes⟩ : (dictOf (redactEntries redact es)).length = es.length ∧
        Val.pyEqEntries (dictOf (redactEntries redact es)) es = true := by
      simpa only [redacted, Val.pyEq, Bool.and_eq_true, beq_iff_eq] using h
    have hcount : (redactEntries redact es).length = es.length := by
      have hkeys : (redactEntries redact es).map Prod.fst = es.map fun e => redact e.1 :=
        keys_redactEntries es
      simpa using congrArg List.length hkeys
    have hnodup : ((redactEntries redact es).map Prod.fst).Nodup :=
      OrderedDict.nodup_of_length_foldl_setItem (hlen.trans hcount.symm)
    rw [dictOf_of_nodup hnodup] at hes
    have hkeys : (es.map Prod.fst).map redact = (redactEntries redact es).map Prod.fst := by
      rw [keys_redactEntries, List.map_map]
      rfl
    have hfixed : ∀ k ∈ es.map Prod.fst, redact k = k := by
      obtain ⟨weigh, hweigh⟩ := hlow
      refine fixed_of_lighter hweigh (fun k hk => ?_) (by rwa [hkeys])
      have hmem : redact k ∈ (redactEntries redact es).map Prod.fst := by
        rw [← hkeys]
        exact List.mem_map_of_mem hk
      obtain ⟨e, he, heq⟩ := List.mem_map.mp hmem
      rw [← heq]
      exact keys_of_pyEqEntries hes e he
    exact ⟨es, rfl, maskEntries_self_of_pyEq hlow es es hd.1 (fun e he => he)
      (fun e he => hfixed e.1 (List.mem_map_of_mem he)) hd.2 hes⟩
theorem maskItems_self_of_pyEq (hlow : Lightens redact) : ∀ xs : List (Val PyFloat), Val.DictItems xs →
    Val.pyEqItems (redactItems redact xs) xs = true → MaskItems redact xs xs
  | [], _, _ => rfl
  | x :: xs, hd, h => by
    obtain ⟨hx, hxs⟩ : (redacted redact x).pyEq x = true ∧
      Val.pyEqItems (redactItems redact xs) xs = true := by
      simpa only [redactItems, Val.pyEqItems, Bool.and_eq_true] using h
    exact ⟨x, xs, rfl, maskOf_self_of_pyEq hlow x hd.1 hx, maskItems_self_of_pyEq hlow xs hd.2 hxs⟩
theorem maskEntries_self_of_pyEq (hlow : Lightens redact) : ∀ es fs : Doc, (fs.map Prod.fst).Nodup →
    (∀ e ∈ es, e ∈ fs) →
    (∀ e ∈ es, redact e.1 = e.1) → Val.DictEntries es → Val.pyEqEntries (redactEntries redact es) fs = true →
    MaskEntries redact es es
  | [], _, _, _, _, _, _ => rfl
  | (k, x) :: es, fs, hnodup, hsub, hfixed, hd, h => by
    have hk : redact k = k := hfixed (k, x) (by simp)
    have hget : OrderedDict.get fs k = some x :=
      (OrderedDict.get_eq_some_iff hnodup).mpr (hsub (k, x) (by simp))
    rw [redactEntries_cons, hk, Val.pyEqEntries, hget, Bool.and_eq_true] at h
    obtain ⟨hx, hes⟩ := h
    have hself := maskOf_self_of_pyEq hlow x hd.1
    refine ⟨x, es, by rw [hk], ?_, maskEntries_self_of_pyEq hlow es fs hnodup (fun e he => hsub e (by simp [he]))
      (fun e he => hfixed e (by simp [he])) hd.2 hes⟩
    by_cases hh : hidesValue k x = true
    · rw [if_pos hh] at hx ⊢
      cases x with
      | str s => exact congrArg Val.str (pyEq_str.mp hx).symm
      | _ => cases hh
    · rw [if_neg hh] at hx ⊢
      exact hself hx
end

end Shape

theorem lightens_redact (word : Char → Bool) : Lightens (redact word) :=
  ⟨fun t => weight 0 t.toList, fun _ => weight_redact word⟩

section Answer

variable {φ : Type} {room stack : ℕ} {floatRepr : PyFloat → List Char} {text : String} {rf : Val φ}
    {value : Val PyFloat}

/-- Where the stack has room, the redaction of a JSON answer parses strictly; it is the mask of the answer
exactly when no two keys of an object are masked to one text, and it is the text of the answer exactly when
nothing was masked. -/
theorem redactFinalText_shape (word : Char → Bool) (hjson : wantsJson rf = true)
    (hl : loadsStrict room text = .ok value) (hfloats : ∀ x ∈ floats value, ReadsBack floatRepr x)
    (hdepth : PyConv.depth value ≤ stack) :
    ∃ out w, redactFinalText (redact word) room stack floatRepr text rf = .ok out ∧ loadsStrict room out = .ok w ∧
      (MaskOf (redact word) value w ↔ KeysApart (redact word) value) ∧
      (out = text ↔ MaskOf (redact word) value value) := by
  have hkept := kept_of_loadsStrict hl hfloats
  have hdict : value.Dict := dict_of_readable value hkept
  have hmasked : Readable (Kept floatRepr) room (redacted (redact word) value) :=
    readable_redacted value hkept
  have hshape : MaskOf (redact word) value (redacted (redact word) value) ↔ KeysApart (redact word) value :=
    ⟨fun h => (redacted_of_maskOf _ _ h (dict_of_readable _ hmasked)).2, maskOf_redacted value⟩
  have hself : MaskOf (redact word) value value → redacted (redact word) value = value :=
    fun h => (redacted_of_maskOf _ _ h hdict).1
  have hbuilt : redactObj (redact word) stack value = .ok (redacted (redact word) value) := if_pos hdepth
  by_cases heq : (redacted (redact word) value).pyEq value = true
  · have hnothing := maskOf_self_of_pyEq (lightens_redact word) value hdict heq
    have hout : redactFinalText (redact word) room stack floatRepr text rf = .ok text := by
      rw [redactFinalText, if_pos hjson, hl]
      simp only [hbuilt, bind, Except.bind, heq, if_true]
    refine ⟨text, value, hout, hl, ?_, iff_of_true rfl hnothing⟩
    rw [hself hnothing] at hshape
    exact hshape
  · have hread : loadsStrict room (dumpsPlain floatRepr (redacted (redact word) value)) =
        .ok (redacted (redact word) value) := loadsStrict_dump hmasked
    have hout : redactFinalText (redact word) room stack floatRepr text rf =
        .ok (dumpsPlain floatRepr (redacted (redact word) value)) := by
      rw [redactFinalText, if_pos hjson, hl]
      simp only [hbuilt, bind, Except.bind, heq, Bool.false_eq_true, if_false]
    refine ⟨_, _, hout, hread, hshape, ?_⟩
    -- were the text the same or nothing masked, the document would be its own redaction
    have hne : redacted (redact word) value ≠ value := by
      intro h
      rw [h] at heq
      exact heq (Val.pyEq_refl value hdict)
    refine iff_of_false (fun htext => ?_) fun h => hne (hself h)
    rw [htext, hl] at hread
    exact hne (Except.ok.inj hread).symm

/-- Past the room of the stack the redaction raises. -/
theorem redactFinalText_of_deep {mask : String → String} (hjson : wantsJson rf = true)
    (hl : loadsStrict room text = .ok value) (hdepth : ¬ PyConv.depth value ≤ stack) :
    redactFinalText mask room stack floatRepr text rf = .error .recursionError := by
  rw [redactFinalText, if_pos hjson, hl]
  simp only [redactObj, if_neg hdepth]
  rfl

/-- **When the redaction of a JSON answer keeps its structure**: if and only if the stack has room for the
document and no two keys of an object are masked to one text, the redaction returns a text that parses strictly
to the mask of the answer, and that is the text of the answer exactly when nothing was masked.  With room alone,
the text parses strictly, and it is the text of the answer exactly when nothing was masked. -/
theorem redactFinalText_structure (word : Char → Bool) (hjson : wantsJson rf = true)
    (hl : loadsStrict room text = .ok value) (hfloats : ∀ x ∈ floats value, ReadsBack floatRepr x) :
    ((∃ out w, redactFinalText (redact word) room stack floatRepr text rf = .ok out ∧
        loadsStrict room out = .ok w ∧ MaskOf (redact word) value w ∧
        (out = text ↔ MaskOf (redact word) value value)) ↔
      PyConv.depth value ≤ stack ∧ KeysApart (redact word) value) ∧
    (PyConv.depth value ≤ stack →
      ∃ out w, redactFinalText (redact word) room stack floatRepr text rf = .ok out ∧
        loadsStrict room out = .ok w ∧ (out = text ↔ MaskOf (redact word) value value)) := by
  constructor
  · constructor
    · rintro ⟨out, w, hout, hw, hmask, -⟩
      by_cases hdepth : PyConv.depth value ≤ stack
      · obtain ⟨out', w', hout', hw', hiff, -⟩ := redactFinalText_shape word hjson hl hfloats hdepth
        obtain rfl := Except.ok.inj (hout.symm.trans hout')
        obtain rfl := Except.ok.inj (hw.symm.trans hw')
        exact ⟨hdepth, hiff.mp hmask⟩
      · rw [redactFinalText_of_deep hjson hl hdepth] at hout
        cases hout
    · rintro ⟨hdepth, hapart⟩
      obtain ⟨out, w, hout, hw, hiff, htext⟩ := redactFinalText_shape word hjson hl hfloats hdepth
      exact ⟨out, w, hout, hw, hiff.mpr hapart, htext⟩
  · intro hdepth
    obtain ⟨out, w, hout, hw, -, htext⟩ := redactFinalText_shape word hjson hl hfloats hdepth
    exact ⟨out, w, hout, hw, htext⟩

end Answer

/-- `\w` on ASCII texts. -/
def asciiWord (c : Char) : Bool := c.isAlphanum || c == '_'

def jsonObjectFormat : Val PyFloat := .obj [("type", .str "json_object")]

/-- An answer that tells a key. -/
def keyAnswer : Val PyFloat := .obj [("key", .str "sk-aaaaaaaaa"), ("n", .int 1)]

theorem redactFinalText_structure_keyAnswer :
    wantsJson jsonObjectFormat = true ∧
      ∃ out w, redactFinalText (redact asciiWord) 9 5 (fun _ => []) (dumpsPlain (fun _ => []) keyAnswer)
          jsonObjectFormat = .ok out ∧ loadsStrict 9 out = .ok w ∧ MaskOf (redact asciiWord) keyAnswer w ∧
        (out = dumpsPlain (fun _ => []) keyAnswer ↔ MaskOf (redact asciiWord) keyAnswer keyAnswer) := by
  have hkept : Readable (Kept fun _ => []) 9 keyAnswer :=
    ⟨by decide, trivial, by rw [Readable]; decide, trivial⟩
  refine ⟨rfl, (redactFinalText_structure asciiWord rfl (loadsStrict_dump hkept) ?_).1.mpr ⟨by decide, ?_⟩⟩
  · intro x hx
    simp [keyAnswer, floats, floatsEntries] at hx
  · refine ⟨?_, trivial, trivial, trivial⟩
    have hkeys : ([redact asciiWord "key", redact asciiWord "n"]).Nodup := by decide +kernel
    exact hkeys

/-- An answer with an entry for each of two keys. -/
def twoKeysAnswer : Val PyFloat := .obj [("sk-aaaaaaaaa", .int 1), ("sk-bbbbbbbbb", .int 2)]

/-- An answer deeper than the stack has room for. -/
def deepAnswer : Val PyFloat := .arr [.arr [.arr []]]

/-- Both keys are masked to one text, so one of the two entries is lost; and a document that `json.loads` takes
and the stack has no room for is not redacted at all. -/
theorem redactFinalText_loses_twoKeysAnswer :
    (¬ ∀ (text : String) (value : Val PyFloat), loadsStrict 9 text = .ok value →
      ∃ out w, redactFinalText (redact asciiWord) 9 5 (fun _ => []) text jsonObjectFormat = .ok out ∧
        loadsStrict 9 out = .ok w ∧ MaskOf (redact asciiWord) value w ∧
        (out = text ↔ MaskOf (redact asciiWord) value value)) ∧
    redactFinalText (redact asciiWord) 9 2 (fun _ => []) (dumpsPlain (fun _ => []) deepAnswer) jsonObjectFormat =
      .error .recursionError := by
  constructor
  · intro h
    have hkept : Readable (Kept fun _ => []) 9 twoKeysAnswer :=
      ⟨by decide, by rw [Readable]; decide, by rw [Readable]; decide, trivial⟩
    obtain ⟨out, w, -, hw, hmask, -⟩ := h _ _ (loadsStrict_dump hkept)
    have hapart := (redacted_of_maskOf _ _ hmask (dict_of_readable w (readable_of_loadsStrict hw))).2
    have hmeet : ¬ ([redact asciiWord "sk-aaaaaaaaa", redact asciiWord "sk-bbbbbbbbb"]).Nodup := by decide +kernel
    exact hmeet hapart.1
  · have hkept : Readable (Kept fun _ => []) 9 deepAnswer := by
      simp [deepAnswer, Readable, ReadableItems]
    exact redactFinalText_of_deep rfl (loadsStrict_dump hkept) (by decide)

end Broker.Agent
