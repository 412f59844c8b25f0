import Broker.Lib.JsonStrict
import Mathlib.Data.List.TakeWhile

/-!
# Broker.Lib.JsonReadBack — a strict document is written and read again

What the strict reader returns is `Readable`: distinct keys, integers of at most 4300 digits, doubles,
and no deeper than the stack allows (`readable_of_loadsStrict`).  A readable document whose floats read
back from their texts is what the strict reader returns for the text `json.dumps(.., ensure_ascii=False)`
writes of it (`loadsStrict_dump`).
-/

namespace Broker.Lib

namespace JsonLoad

open JsonText

/-! ### Strings -/

theorem scanChars_unit_none {a b c d : Char} (h : hex4 a b c d = none) (cs : List Char) :
    scanChars ('\\' :: 'u' :: a :: b :: c :: d :: cs) = none := by
  rw [scanChars.eq_def]
  split
  · rename_i heq; simp at heq
  · rename_i heq; simp at heq
  · rename_i a' b' c' d' e f g h' cs' heq
    simp only [List.cons.injEq, true_and] at heq
    obtain ⟨rfl, rfl, rfl, rfl, rfl⟩ := heq
    simp only [h]
  · rename_i a' b' c' d' cs' hno heq
    simp only [List.cons.injEq, true_and] at heq
    obtain ⟨rfl, rfl, rfl, rfl, rfl⟩ := heq
    rw [h]
  · rename_i c' cs' hno1 hno2 heq
    simp only [List.cons.injEq, true_and] at heq
    obtain ⟨rfl, rfl⟩ := heq
    exact absurd rfl (hno2 a b c d cs rfl)
  · rename_i c' cs' h1 h2 h3 h4 heq
    simp only [List.cons.injEq] at heq
    obtain ⟨rfl, rfl⟩ := heq
    simp

theorem scanChars_unit {a b c d : Char} {n : ℕ} (h : hex4 a b c d = some n) (hn : n < 0xD800)
    (cs : List Char) :
    scanChars ('\\' :: 'u' :: a :: b :: c :: d :: cs) = (scanChars cs).map fun r => (Char.ofNat n :: r.1, r.2) := by
  rw [scanChars.eq_def]
  have hu : charOfUnit n = Char.ofNat n := by
    rw [charOfUnit, if_neg (by omega)]
  split
  · rename_i heq; simp at heq
  · rename_i heq; simp at heq
  · rename_i a' b' c' d' e f g h' cs' heq
    simp only [List.cons.injEq, true_and] at heq
    obtain ⟨rfl, rfl, rfl, rfl, rfl⟩ := heq
    rw [h]
    cases hlo : hex4 e f g h' with
    | some lo =>
      dsimp only
      rw [if_neg (by omega), hu]
    | none => rw [scanChars_unit_none hlo]; rfl
  · rename_i a' b' c' d' cs' hno heq
    simp only [List.cons.injEq, true_and] at heq
    obtain ⟨rfl, rfl, rfl, rfl, rfl⟩ := heq
    rw [h]
    dsimp only
    rw [hu]
  · rename_i c' cs' hno1 hno2 heq
    simp only [List.cons.injEq, true_and] at heq
    obtain ⟨rfl, rfl⟩ := heq
    exact absurd rfl (hno2 a b c d cs rfl)
  · rename_i c' cs' h1 h2 h3 h4 heq
    simp only [List.cons.injEq] at heq
    obtain ⟨rfl, rfl⟩ := heq
    exact absurd rfl (h4 'u' _ rfl)

/-- A character after a backslash that stands for one character. -/
theorem scanChars_simple {c x : Char} (h : simpleEscape c = some x) (cs : List Char) :
    scanChars ('\\' :: c :: cs) = (scanChars cs).map fun r => (x :: r.1, r.2) := by
  have hu : c ≠ 'u' := by
    rintro rfl
    have hnone : simpleEscape 'u' = none := by decide
    rw [hnone] at h
    cases h
  rw [scanChars.eq_def]
  split
  · rename_i heq; simp at heq
  · rename_i heq; simp at heq
  · rename_i heq
    simp only [List.cons.injEq, true_and] at heq
    exact absurd heq.1 hu
  · rename_i heq
    simp only [List.cons.injEq, true_and] at heq
    exact absurd heq.1 hu
  · rename_i c' cs' hno1 hno2 heq
    simp only [List.cons.injEq, true_and] at heq
    obtain ⟨rfl, rfl⟩ := heq
    rw [h]
  · rename_i c' cs' h1 h2 h3 h4 heq
    simp only [List.cons.injEq] at heq
    obtain ⟨rfl, rfl⟩ := heq
    exact absurd rfl (h4 c _ rfl)

theorem hex4_control : ∀ n < 32, hex4 '0' '0' (hexDigit (n / 16)) (hexDigit (n % 16)) = some n := by decide

/-- The text of one character of a literal is read as that character. -/
theorem scanChars_escape (c : Char) (cs : List Char) :
    scanChars (escape c ++ cs) = (scanChars cs).map fun r => (c :: r.1, r.2) := by
  have hof : Char.ofNat c.toNat = c := Char.ofNat_toNat c
  unfold escape
  split_ifs with h1 h2 h3 h4 h5 h6 h7 h8
  · subst h1
    exact scanChars_simple (by decide) cs
  · subst h2
    exact scanChars_simple (by decide) cs
  · subst h3
    exact scanChars_simple (by decide) cs
  · subst h4
    exact scanChars_simple (by decide) cs
  · subst h5
    exact scanChars_simple (by decide) cs
  · rw [← hof, h6]
    exact scanChars_simple (by decide) cs
  · rw [← hof, h7]
    exact scanChars_simple (by decide) cs
  · have hunit := scanChars_unit (hex4_control c.toNat h8) (by omega) cs
    rw [hof] at hunit
    exact hunit
  · rw [List.singleton_append, scanChars.eq_def]
    split
    · rename_i heq; simp at heq
    · rename_i heq; exact absurd (List.cons.inj heq).1 h1
    · rename_i heq; exact absurd (List.cons.inj heq).1 h2
    · rename_i heq; exact absurd (List.cons.inj heq).1 h2
    · rename_i heq; exact absurd (List.cons.inj heq).1 h2
    · rename_i heq
      obtain ⟨rfl, rfl⟩ := List.cons.inj heq
      rw [if_neg (by rintro (hlt | heq); exacts [h8 hlt, h2 heq])]

/-- **A literal is read as its string.** -/
theorem scanChars_body (s rest : List Char) :
    scanChars (s.flatMap escape ++ '"' :: rest) = some (s, rest) := by
  induction s with
  | nil => simp [scanChars]
  | cons c s ih =>
    rw [List.flatMap_cons, List.append_assoc, scanChars_escape, ih]
    rfl

theorem scanKey_quote (k : List Char) {c : Char} (hc : isSpace c = false) (rest : List Char) :
    scanKey (quote k ++ ':' :: ' ' :: c :: rest) = .ok (String.ofList k, c :: rest) := by
  have hcolon : isSpace ':' = false := by decide
  have hblank : isSpace ' ' = true := by decide
  simp only [quote, List.cons_append, List.append_assoc, List.nil_append, scanKey, scanChars_body, skipWs, hcolon,
    hblank, hc, Bool.false_eq_true, if_false, if_true]

theorem strictAtom_quote (s : List Char) (rest : List Char) :
    strictAtom '"' (s.flatMap escape ++ '"' :: rest) = .ok (.str (String.ofList s), rest) := by
  have hatom : scanAtom '"' (s.flatMap escape ++ '"' :: rest) = .ok (.str (String.ofList s), rest) := by
    rw [scanAtom, if_pos rfl, scanChars_body]
  rw [strictAtom, hatom]
  rfl

/-! ### Numbers -/

/-- What a number starts with: a digit, or a minus sign and a digit. -/
theorem head_of_scanNumber {c : Char} {t : List Char} {r : Val PyFloat × List Char}
    (h : scanNumber (c :: t) = .ok r) :
      c.isDigit = true ∨ c = '-' ∧ ∃ d u, t = d :: u ∧ d.isDigit = true := by
  have hint : ∀ (neg : Bool) (cs : List Char), scanUnsigned neg cs = .ok r → ∃ d u, cs = d :: u ∧
    d.isDigit = true := by
    intro neg cs hcs
    unfold scanUnsigned at hcs
    cases cs with
    | nil => simp [scanInt] at hcs
    | cons d u =>
      refine ⟨d, u, rfl, ?_⟩
      by_contra hd
      have hzero : d ≠ '0' := by
        rintro rfl
        exact hd (by decide)
      simp [scanInt, hzero, hd] at hcs
  unfold scanNumber at h
  split at h
  · rename_i cs heq
    obtain ⟨rfl, rfl⟩ := List.cons.inj heq
    exact .inr ⟨rfl, hint true _ h⟩
  · obtain ⟨d, u, heq, hd⟩ := hint false _ h
    obtain ⟨rfl, rfl⟩ := List.cons.inj heq
    exact .inl hd

/-- A text that is read as a number is read as an atom. -/
theorem scanAtom_of_scanNumber {c : Char} {t : List Char} {r : Val PyFloat × List Char}
    (h : scanNumber (c :: t) = .ok r) : scanAtom c t = .ok r := by
  have hne : ∀ x : Char, x.isDigit = false → x ≠ '-' → c ≠ x := by
    rintro x hx hminus rfl
    rcases head_of_scanNumber h with hd | ⟨rfl, -⟩
    · rw [hx] at hd
      cases hd
    · exact hminus rfl
  have hstrip : (stripLiteral "-Infinity".toList (c :: t)).isSome = false := by
    rcases head_of_scanNumber h with hd | ⟨rfl, d, u, rfl, hd⟩
    · have hminus : '-' ≠ c := (isDigit_ne hd (by decide)).symm
      simp [stripLiteral, hminus]
    · have hI : 'I' ≠ d := (isDigit_ne hd (by decide)).symm
      simp [stripLiteral, hI]
  rw [scanAtom, if_neg (hne '"' (by decide) (by decide)), if_neg (hne 'n' (by decide) (by decide)),
    if_neg (hne 't' (by decide) (by decide)), if_neg (hne 'f' (by decide) (by decide)),
    if_neg (hne 'N' (by decide) (by decide)), if_neg (hne 'I' (by decide) (by decide)), hstrip]
  exact h

/-- **An integer's text is read as the integer**, up to a delimiter. -/
theorem scanNumber_intText {n : ℤ} {rest : List Char} (hn : (Nat.toDigits 10 n.natAbs).length ≤ maxIntDigits)
    (h : Ends rest) : scanNumber (intText n ++ rest) = .ok (.int n, rest) := by
  unfold intText
  split_ifs with hneg
  · have hscan := scanUnsigned_toDigits hn h true
    have hval : signed true n.natAbs = n := by
      simp only [signed, if_true]
      omega
    rw [hval] at hscan
    exact hscan
  · have hscan := scanUnsigned_toDigits hn h false
    have hval : signed false n.natAbs = n := by
      simp only [signed, Bool.false_eq_true, if_false]
      omega
    rw [hval] at hscan
    unfold scanNumber
    split
    · rename_i cs heq
      cases hd : Nat.toDigits 10 n.natAbs with
      | nil => exact absurd hd Nat.toDigits_ne_nil
      | cons c t =>
        rw [hd] at heq
        exact absurd (by rw [hd, (List.cons.inj heq).1] : Nat.toDigits 10 n.natAbs = '-' :: t)
          (toDigits_ne_minus _ t)
    · exact hscan

/-! ### What is read -/

/-- A float that the strict reader returns: the finite double of a decimal text. -/
def IsRead (x : PyFloat) : Prop := (∃ q : ℚ, x = PyFloat.ofDecimal q) ∧ isFinite (.float x) = true

-- with room for so many containers: distinct keys, integers that are read, floats with `P`
mutual
def Readable (P : PyFloat → Prop) : ℕ → Val PyFloat → Prop
  | _, .int n => (Nat.toDigits 10 n.natAbs).length ≤ maxIntDigits
  | _, .float x => P x
  | 0, .arr _ => False
  | room + 1, .arr xs => ReadableItems P room xs
  | 0, .obj _ => False
  | room + 1, .obj es => (es.map Prod.fst).Nodup ∧ ReadableEntries P room es
  | _, .null => True
  | _, .bool _ => True
  | _, .str _ => True
def ReadableItems (P : PyFloat → Prop) : ℕ → List (Val PyFloat) → Prop
  | _, [] => True
  | room, x :: xs => Readable P room x ∧ ReadableItems P room xs
def ReadableEntries (P : PyFloat → Prop) : ℕ → List (String × Val PyFloat) → Prop
  | _, [] => True
  | room, (_, x) :: es => Readable P room x ∧ ReadableEntries P room es
end

theorem scanInt_isNumeral {cs ints rest : List Char} (h : scanInt cs = some (ints, rest)) :
    IsNumeral ints := by
  unfold scanInt at h
  cases cs with
  | nil => cases h
  | cons c cs =>
    simp only at h
    split_ifs at h with h0 hd
    · obtain ⟨rfl, -⟩ := Prod.mk.inj (Option.some.inj h)
      exact ⟨by simp, by simp, by simp⟩
    · obtain ⟨rfl, -⟩ := Prod.mk.inj (Option.some.inj h)
      rw [List.takeWhile_cons_of_pos hd]
      refine ⟨by simp, fun x hx => ?_, fun t ht => absurd (List.cons.inj ht).1 h0⟩
      rcases List.mem_cons.mp hx with rfl | hx
      · exact hd
      · exact List.mem_takeWhile_imp hx

theorem readable_numberValue {neg : Bool} {ints frac : List Char} {exp : Option ℤ} {v : Val PyFloat}
    (hints : IsNumeral ints) (h : numberValue neg ints frac exp = .ok v) (hfin : isFinite v = true) (room : ℕ) :
    Readable IsRead room v := by
  unfold numberValue at h
  by_cases hplain : frac = [] ∧ exp = none
  · rw [if_pos hplain] at h
    by_cases hlong : maxIntDigits < ints.length
    · rw [if_pos hlong] at h
      cases h
    · rw [if_neg hlong] at h
      obtain rfl := Except.ok.inj h
      obtain ⟨n, rfl⟩ := exists_toDigits hints
      have habs : (signed neg (digitsValue (Nat.toDigits 10 n))).natAbs = n := by
        rw [digitsValue, Nat.ofDigitChars_ten_toDigits]
        cases neg <;> simp [signed]
      rw [Readable, habs]
      exact not_lt.mp hlong
  · rw [if_neg hplain] at h
    obtain rfl := Except.ok.inj h
    rw [Readable]
    exact ⟨⟨_, rfl⟩, hfin⟩

theorem readable_scanUnsigned {neg : Bool} {cs rest : List Char} {v : Val PyFloat}
    (h : scanUnsigned neg cs = .ok (v, rest)) (hfin : isFinite v = true) (room : ℕ) :
      Readable IsRead room v := by
  unfold scanUnsigned at h
  cases hint : scanInt cs with
  | none =>
    rw [hint] at h
    cases h
  | some r =>
    rw [hint] at h
    dsimp only at h
    cases hv : numberValue neg r.1 (scanFrac r.2).1 (scanExp (scanFrac r.2).2).1 with
    | error e =>
      rw [hv] at h
      cases h
    | ok w =>
      rw [hv] at h
      obtain rfl : w = v := (Prod.mk.inj (Except.ok.inj h)).1
      exact readable_numberValue (scanInt_isNumeral hint) hv hfin room

theorem value_of_scanLiteral {lit : String} {v w : Val PyFloat} {cs rest : List Char}
    (h : scanLiteral lit v cs = .ok (w, rest)) : w = v := by
  unfold scanLiteral at h
  split at h
  · exact (Prod.mk.inj (Except.ok.inj h)).1.symm
  · cases h

theorem readable_strictAtom {c : Char} {t rest : List Char} {v : Val PyFloat}
    (h : strictAtom c t = .ok (v, rest))
    (room : ℕ) : Readable IsRead room v := by
  unfold strictAtom at h
  cases ha : scanAtom c t with
  | error e =>
    rw [ha] at h
    cases h
  | ok r =>
    rw [ha] at h
    dsimp only at h
    by_cases hfin : isFinite r.1 = true
    · rw [if_pos hfin] at h
      obtain rfl : r.1 = v := (Prod.mk.inj (Except.ok.inj h)).1
      unfold scanAtom at ha
      split_ifs at ha with h1 h2 h3 h4 h5 h6 h7
      · split at ha
        · obtain rfl := Except.ok.inj ha
          exact trivial
        · cases ha
      · rw [value_of_scanLiteral ha]
        exact trivial
      · rw [value_of_scanLiteral ha]
        exact trivial
      · rw [value_of_scanLiteral ha]
        exact trivial
      · rw [value_of_scanLiteral ha] at hfin
        cases hfin
      · rw [value_of_scanLiteral ha] at hfin
        cases hfin
      · rw [value_of_scanLiteral ha] at hfin
        cases hfin
      · unfold scanNumber at ha
        split at ha
        · exact readable_scanUnsigned ha hfin room
        · exact readable_scanUnsigned ha hfin room
    · rw [if_neg hfin] at h
      cases h

/-- A result of a reader, with what holds of its value. -/
def Yields {α : Type} (Q : α → Prop) (r : Except LoadError (α × List Char)) : Prop :=
  ∀ v rest, r = .ok (v, rest) → Q v

theorem Yields.map {α β : Type} {Q : α → Prop} {R : β → Prop} {g : α → β}
    {r : Except LoadError (α × List Char)}
    (h : Yields Q r) (hg : ∀ v, Q v → R (g v)) : Yields R (r.map fun p => (g p.1, p.2)) := by
  intro w rest heq
  rcases r with e | ⟨v, rest'⟩
  · cases heq
  · obtain ⟨rfl, -⟩ := Prod.mk.inj (Except.ok.inj heq)
    exact hg v (h v rest' rfl)

theorem Yields.ok {α : Type} {Q : α → Prop} {v : α} (hv : Q v) (rest : List Char) :
    Yields Q (.ok (v, rest)) := by
  intro w rest' heq
  obtain ⟨rfl, -⟩ := Prod.mk.inj (Except.ok.inj heq)
  exact hv

theorem Yields.error {α : Type} {Q : α → Prop} (e : LoadError) : Yields Q (.error e) := by
  intro w rest heq
  cases heq

theorem yields_object {room : ℕ} {r : Except LoadError (List (String × Val PyFloat) × List Char)}
    (h : Yields (ReadableEntries IsRead room) r) :
    Yields (Readable IsRead (room + 1)) (r.bind fun p => (uniqueObject p.1).map fun v => (v, p.2)) := by
  rcases r with e | ⟨es, rest⟩
  · exact .error e
  · by_cases hd : (es.map Prod.fst).Nodup
    · simp only [Except.bind, Except.map, uniqueObject, hd, if_true]
      exact .ok ⟨hd, h es rest rfl⟩ rest
    · simp only [Except.bind, Except.map, uniqueObject, hd, if_false]
      exact .error _

/-- **What the strict reader returns is readable**, by induction on the fuel. -/
theorem readable_scan (f : ℕ) :
    (∀ room cs, Yields (Readable IsRead room) (scanStrict f room cs)) ∧
    (∀ room cs, Yields (ReadableItems IsRead room) (strictItems f room cs)) ∧
    (∀ room cs, Yields (ReadableEntries IsRead room) (strictEntries f room cs)) := by
  induction f with
  | zero => exact ⟨fun _ _ => .error _, fun _ _ => .error _, fun _ _ => .error _⟩
  | succ f ih =>
    obtain ⟨ihv, ihi, ihe⟩ := ih
    refine ⟨fun room cs => ?_, fun room cs => ?_, fun room cs => ?_⟩
    · cases cs with
      | nil => exact .error _
      | cons c rest =>
        unfold scanStrict
        split_ifs
        · cases room with
          | zero => exact .error _
          | succ room =>
            dsimp only
            split
            · exact .ok trivial _
            · exact (ihi room (skipWs rest)).map fun xs hxs => hxs
        · cases room with
          | zero => exact .error _
          | succ room =>
            dsimp only
            split
            · exact .ok ⟨List.nodup_nil, trivial⟩ _
            · exact yields_object (ihe room (skipWs rest))
        · exact fun v rest' h => readable_strictAtom h room
    · unfold strictItems
      split
      · exact .error _
      · rename_i v rest he
        have hv := ihv room cs v rest he
        split
        · exact .ok ⟨hv, trivial⟩ _
        · exact (ihi room _).map fun vs hvs => ⟨hv, hvs⟩
        · exact .error _
    · unfold strictEntries
      split
      · exact .error _
      · rename_i k cs' hkey
        split
        · exact .error _
        · rename_i v rest he
          have hv := ihv room cs' v rest he
          split
          · exact .ok ⟨hv, trivial⟩ _
          · exact (ihe room _).map fun es hes => ⟨hv, hes⟩
          · exact .error _

theorem readable_of_loadsStrict {room : ℕ} {text : String} {v : Val PyFloat}
    (h : loadsStrict room text = .ok v) :
    Readable IsRead room v := by
  unfold loadsStrict at h
  split_ifs at h
  unfold loadsStrictChars at h
  split at h
  · cases h
  · rename_i w rest he
    split_ifs at h
    obtain rfl := Except.ok.inj h
    exact (readable_scan _).1 room _ w rest he

-- the floats of a document
mutual
def floats : Val PyFloat → List PyFloat
  | .float x => [x]
  | .arr xs => floatsItems xs
  | .obj es => floatsEntries es
  | _ => []
def floatsItems : List (Val PyFloat) → List PyFloat
  | [] => []
  | x :: xs => floats x ++ floatsItems xs
def floatsEntries : List (String × Val PyFloat) → List PyFloat
  | [] => []
  | (_, x) :: es => floats x ++ floatsEntries es
end

-- another predicate on the floats of the document, and more room
mutual
theorem Readable.imp {P Q : PyFloat → Prop} : ∀ (v : Val PyFloat) {room room' : ℕ}, room ≤ room' →
    (∀ x ∈ floats v, P x → Q x) → Readable P room v → Readable Q room' v
  | .null, _, _, _, _, _ => trivial
  | .bool _, _, _, _, _, _ => trivial
  | .str _, _, _, _, _, _ => trivial
  | .int _, _, _, _, _, h => h
  | .float x, _, _, _, hPQ, h => hPQ x (by simp [floats]) h
  | .arr _, 0, _, _, _, h => h.elim
  | .arr xs, _ + 1, 0, hroom, _, _ => absurd hroom (Nat.not_succ_le_zero _)
  | .arr xs, _ + 1, _ + 1, hroom, hPQ, h => ReadableItems.imp xs (Nat.le_of_succ_le_succ hroom) hPQ h
  | .obj _, 0, _, _, _, h => h.elim
  | .obj es, _ + 1, 0, hroom, _, _ => absurd hroom (Nat.not_succ_le_zero _)
  | .obj es, _ + 1, _ + 1, hroom, hPQ, h => ⟨h.1, ReadableEntries.imp es (Nat.le_of_succ_le_succ hroom) hPQ h.2⟩
theorem ReadableItems.imp {P Q : PyFloat → Prop} :
    ∀ (xs : List (Val PyFloat)) {room room' : ℕ}, room ≤ room' →
    (∀ x ∈ floatsItems xs, P x → Q x) → ReadableItems P room xs → ReadableItems Q room' xs
  | [], _, _, _, _, _ => trivial
  | x :: xs, _, _, hroom, hPQ, h =>
    ⟨Readable.imp x hroom (fun y hy => hPQ y (List.mem_append_left _ hy)) h.1,
      ReadableItems.imp xs hroom (fun y hy => hPQ y (List.mem_append_right _ hy)) h.2⟩
theorem ReadableEntries.imp {P Q : PyFloat → Prop} : ∀ (es : List (String × Val PyFloat)) {room room' : ℕ},
    room ≤ room' → (∀ x ∈ floatsEntries es, P x → Q x) → ReadableEntries P room es →
      ReadableEntries Q room' es
  | [], _, _, _, _, _ => trivial
  | (_, x) :: es, _, _, hroom, hPQ, h =>
    ⟨Readable.imp x hroom (fun y hy => hPQ y (List.mem_append_left _ hy)) h.1,
      ReadableEntries.imp es hroom (fun y hy => hPQ y (List.mem_append_right _ hy)) h.2⟩
end

theorem readableEntries_iff {P : PyFloat → Prop} {room : ℕ} {es : List (String × Val PyFloat)} :
    ReadableEntries P room es ↔ ∀ e ∈ es, Readable P room e.2 := by
  induction es with
  | nil => simp [ReadableEntries]
  | cons e es ih =>
    obtain ⟨k, x⟩ := e
    simp [ReadableEntries, ih]

mutual
theorem dict_of_readable {P : PyFloat → Prop} : ∀ (v : Val PyFloat) {room : ℕ}, Readable P room v → v.Dict
  | .null, _, _ | .bool _, _, _ | .str _, _, _ | .int _, _, _ | .float _, _, _ => trivial
  | .arr _, 0, h => h.elim
  | .arr xs, _ + 1, h => dictItems_of_readable xs h
  | .obj _, 0, h => h.elim
  | .obj es, _ + 1, h => ⟨h.1, dictEntries_of_readable es h.2⟩
theorem dictItems_of_readable {P : PyFloat → Prop} : ∀ (xs : List (Val PyFloat)) {room : ℕ},
    ReadableItems P room xs → Val.DictItems xs
  | [], _, _ => trivial
  | x :: xs, _, h => ⟨dict_of_readable x h.1, dictItems_of_readable xs h.2⟩
theorem dictEntries_of_readable {P : PyFloat → Prop} :
    ∀ (es : List (String × Val PyFloat)) {room : ℕ}, ReadableEntries P room es →
    Val.DictEntries es
  | [], _, _ => trivial
  | (_, x) :: es, _, h => ⟨dict_of_readable x h.1, dictEntries_of_readable es h.2⟩
end

/-! ### What is written -/

/-- `json.dumps(.., ensure_ascii=False)` with the default separators. -/
def plain (repr : PyFloat → List Char) : DumpStyle PyFloat := ⟨[',', ' '], [':', ' '], quote, repr⟩

/-- The text of a float is read as the float, up to a delimiter. -/
def ReadsBack (repr : PyFloat → List Char) (x : PyFloat) : Prop :=
  ∀ rest, Ends rest → scanNumber (repr x ++ rest) = .ok (.float x, rest)

section Written

variable {repr : PyFloat → List Char} {room f : ℕ} {rest : List Char}

/-- A float the strict reader returned and whose text is read as it. -/
def Kept (repr : PyFloat → List Char) (x : PyFloat) : Prop := isFinite (.float x) = true ∧ ReadsBack repr x

/-- How the text of a value starts: with no blank, no delimiter and no byte order mark. -/
def StartsValue (cs : List Char) : Prop :=
  ∃ c t, cs = c :: t ∧ isSpace c = false ∧ isDelim c = false ∧ c ≠ Char.ofNat 0xFEFF

/-- How the text of a number starts: with what starts neither a container nor another value. -/
def StartsNumber (cs : List Char) : Prop := ∃ c t, cs = c :: t ∧ (c.isDigit = true ∨ c = '-')

theorem StartsNumber.startsValue {cs : List Char} (h : StartsNumber cs) : StartsValue cs := by
  obtain ⟨c, t, rfl, hc⟩ := h
  refine ⟨c, t, rfl, ?_, ?_, ?_⟩
  · rcases hc with hd | rfl
    · have h1 : c ≠ ' ' := isDigit_ne hd (by decide)
      have h2 : c ≠ '\t' := isDigit_ne hd (by decide)
      have h3 : c ≠ '\n' := isDigit_ne hd (by decide)
      have h4 : c ≠ '\r' := isDigit_ne hd (by decide)
      simp [isSpace, h1, h2, h3, h4]
    · decide
  · rcases hc with hd | rfl
    · exact isDelim_of_isDigit hd
    · decide
  · rcases hc with hd | rfl
    · exact isDigit_ne hd (by decide)
    · decide

theorem startsNumber_of_scanNumber {cs : List Char} {r : Val PyFloat × List Char}
    (h : scanNumber cs = .ok r) :
    StartsNumber cs := by
  cases cs with
  | nil => cases h
  | cons c t =>
    rcases head_of_scanNumber h with hd | ⟨rfl, -⟩
    · exact ⟨c, t, rfl, .inl hd⟩
    · exact ⟨'-', t, rfl, .inr rfl⟩

theorem startsNumber_intText (n : ℤ) : StartsNumber (intText n) := by
  unfold intText
  split_ifs
  · exact ⟨'-', _, rfl, .inr rfl⟩
  · cases hd : Nat.toDigits 10 n.natAbs with
    | nil => exact absurd hd Nat.toDigits_ne_nil
    | cons c t => exact ⟨c, t, rfl, .inl (isDigit_of_mem_toDigits (hd ▸ List.mem_cons_self))⟩

theorem Kept.startsNumber {x : PyFloat} (h : Kept repr x) : StartsNumber (repr x) := by
  have hscan := h.2 [] trivial
  rw [List.append_nil] at hscan
  exact startsNumber_of_scanNumber hscan

theorem startsValue_dump {v : Val PyFloat} (h : Readable (Kept repr) room v) :
    StartsValue (Val.dump (plain repr) v) := by
  cases v with
  | null => exact ⟨'n', "ull".toList, by simp [Val.dump], by decide, by decide, by decide⟩
  | bool b =>
    cases b with
    | true => exact ⟨'t', "rue".toList, by simp [Val.dump], by decide, by decide, by decide⟩
    | false => exact ⟨'f', "alse".toList, by simp [Val.dump], by decide, by decide, by decide⟩
  | int n =>
    rw [Val.dump]
    exact (startsNumber_intText n).startsValue
  | float x =>
    rw [Readable] at h
    rw [Val.dump]
    exact h.startsNumber.startsValue
  | str s => exact ⟨'"', s.toList.flatMap escape ++ ['"'], by simp [Val.dump, plain, quote], by decide, by decide, by decide⟩
  | arr xs =>
    cases xs with
    | nil => exact ⟨'[', [']'], by simp [Val.dump], by decide, by decide, by decide⟩
    | cons x xs => exact ⟨'[', _, by rw [Val.dump], by decide, by decide, by decide⟩
  | obj es =>
    rcases es with _ | ⟨⟨k, x⟩, es⟩
    · exact ⟨'\x7b', ['\x7d'], by simp [Val.dump], by decide, by decide, by decide⟩
    · exact ⟨'\x7b', _, by rw [Val.dump], by decide, by decide, by decide⟩

/-- A text that starts a value keeps its first character when blanks are skipped. -/
theorem StartsValue.skipWs {cs : List Char} (h : StartsValue cs) (rest : List Char) :
    JsonLoad.skipWs (cs ++ rest) = cs ++ rest := by
  obtain ⟨c, t, rfl, hspace, -⟩ := h
  rw [List.cons_append, JsonLoad.skipWs, hspace, if_neg (by decide)]

theorem scanStrict_atom {c : Char} {t : List Char} (harr : c ≠ '[') (hobj : c ≠ '\x7b') :
    scanStrict (f + 1) room (c :: t) = strictAtom c t := by
  rw [scanStrict.eq_def]
  dsimp only
  rw [if_neg harr, if_neg hobj]

theorem scanStrict_number {cs : List Char} {v : Val PyFloat} (h : scanNumber cs = .ok (v, rest))
    (hfin : isFinite v = true) : scanStrict (f + 1) room cs = .ok (v, rest) := by
  obtain ⟨c, t, rfl, hc⟩ := startsNumber_of_scanNumber h
  have harr : c ≠ '[' := by
    rcases hc with hd | rfl
    · exact isDigit_ne hd (by decide)
    · decide
  have hobj : c ≠ '\x7b' := by
    rcases hc with hd | rfl
    · exact isDigit_ne hd (by decide)
    · decide
  rw [scanStrict_atom harr hobj, strictAtom, scanAtom_of_scanNumber h]
  exact if_pos hfin

theorem scanStrict_items {cs : List Char} {r : List (Val PyFloat) × List Char} (hcs : StartsValue cs)
    (h : strictItems f room (cs ++ rest) = .ok r) :
    scanStrict (f + 1) (room + 1) ('[' :: (cs ++ rest)) = .ok (.arr r.1, r.2) := by
  rw [scanStrict, if_pos rfl, hcs.skipWs]
  obtain ⟨c, t, rfl, -, hdelim, -⟩ := hcs
  split
  · rename_i heq
    rw [List.cons_append] at heq
    obtain ⟨rfl, -⟩ := List.cons.inj heq
    exact absurd hdelim (by decide)
  · rw [h]
    rfl

theorem scanStrict_entries {cs : List Char} {r : List (String × Val PyFloat) × List Char}
    (hd : (r.1.map Prod.fst).Nodup) (h : strictEntries f room ('"' :: cs) = .ok r) :
    scanStrict (f + 1) (room + 1) ('\x7b' :: '"' :: cs) = .ok (.obj r.1, r.2) := by
  have hquote : isSpace '"' = false := by decide
  rw [scanStrict, if_neg (by decide), if_pos rfl, skipWs, hquote, if_neg (by decide)]
  split
  · rename_i heq
    exact absurd (List.cons.inj heq).1 (by decide)
  · rw [h]
    simp only [Except.bind, Except.map, uniqueObject, hd, if_true]

/-- `v` is read from its own text. -/
def WrittenBack (repr : PyFloat → List Char) (room : ℕ) (v : Val PyFloat) : Prop :=
  ∀ f rest, 2 * (Val.dump (plain repr) v).length ≤ f → Ends rest →
    scanStrict f room (Val.dump (plain repr) v ++ rest) = .ok (v, rest)

theorem strictItems_last {x : Val PyFloat} (hx : WrittenBack repr room x)
    (hf : 2 * (Val.dump (plain repr) x).length ≤ f) :
    strictItems (f + 1) room (Val.dump (plain repr) x ++ ']' :: rest) = .ok ([x], rest) := by
  have hclose : isSpace ']' = false := by decide
  rw [strictItems, hx f (']' :: rest) hf rfl]
  simp only [skipWs, hclose, Bool.false_eq_true, if_false]

theorem strictItems_cons {x : Val PyFloat} {xs : List (Val PyFloat)} {cs : List Char}
    (hx : WrittenBack repr room x) (hf : 2 * (Val.dump (plain repr) x).length ≤ f) (hcs : StartsValue cs)
    {ds : List Char} (h : strictItems f room (cs ++ ds) = .ok (xs, rest)) :
    strictItems (f + 1) room (Val.dump (plain repr) x ++ ',' :: ' ' :: (cs ++ ds)) = .ok (x :: xs, rest) := by
  have hcomma : isSpace ',' = false := by decide
  have hblank : isSpace ' ' = true := by decide
  rw [strictItems, hx f (',' :: ' ' :: (cs ++ ds)) hf rfl]
  simp only [skipWs, hcomma, hblank, Bool.false_eq_true, if_false, if_true, hcs.skipWs, h]
  rfl

theorem strictEntries_last {k : String} {x : Val PyFloat} (hx : WrittenBack repr room x)
    (hstart : StartsValue (Val.dump (plain repr) x)) (hf : 2 * (Val.dump (plain repr) x).length ≤ f) :
    strictEntries (f + 1) room
      (quote k.toList ++ ':' :: ' ' :: (Val.dump (plain repr) x ++ '\x7d' :: rest)) = .ok ([(k, x)], rest) := by
  have hclose : isSpace '\x7d' = false := by decide
  have hread := hx f ('\x7d' :: rest) hf rfl
  obtain ⟨c, t, ht, hspace, -⟩ := hstart
  rw [ht, List.cons_append] at hread ⊢
  rw [strictEntries, scanKey_quote _ hspace]
  simp only [hread, skipWs, hclose, Bool.false_eq_true, if_false, String.ofList_toList]

theorem strictEntries_cons {k : String} {x : Val PyFloat} {es : List (String × Val PyFloat)} {cs : List Char}
    (hx : WrittenBack repr room x) (hstart : StartsValue (Val.dump (plain repr) x))
    (hf : 2 * (Val.dump (plain repr) x).length ≤ f) (h : strictEntries f room ('"' :: cs) = .ok (es, rest)) :
    strictEntries (f + 1) room
      (quote k.toList ++ ':' :: ' ' :: (Val.dump (plain repr) x ++ ',' :: ' ' :: '"' :: cs)) =
      .ok ((k, x) :: es, rest) := by
  have hcomma : isSpace ',' = false := by decide
  have hblank : isSpace ' ' = true := by decide
  have hquote : isSpace '"' = false := by decide
  have hread := hx f (',' :: ' ' :: '"' :: cs) hf rfl
  obtain ⟨c, t, ht, hspace, -⟩ := hstart
  rw [ht, List.cons_append] at hread ⊢
  rw [strictEntries, scanKey_quote _ hspace]
  simp only [hread, skipWs, hcomma, hblank, hquote, Bool.false_eq_true, if_false, if_true, h, String.ofList_toList]
  rfl

theorem length_dump_pos {v : Val PyFloat} (h : Readable (Kept repr) room v) :
    0 < (Val.dump (plain repr) v).length := by
  obtain ⟨c, t, ht, -⟩ := startsValue_dump h
  rw [ht]
  exact Nat.succ_pos _

theorem writtenBack_number {v : Val PyFloat} (h : Readable (Kept repr) room v) (hfin : isFinite v = true)
    (hscan : ∀ rest, Ends rest → scanNumber (Val.dump (plain repr) v ++ rest) = .ok (v, rest)) :
    WrittenBack repr room v := by
  intro f rest hf hends
  have hpos := length_dump_pos h
  obtain ⟨f, rfl⟩ : ∃ g, f = g + 1 := ⟨f - 1, by omega⟩
  exact scanStrict_number (hscan rest hends) hfin

-- induction on the document; a tail of items is read with the item before it
mutual
theorem writtenBack : ∀ (v : Val PyFloat) {room : ℕ}, Readable (Kept repr) room v → WrittenBack repr room v
  | .null, _, _ => by
    intro f rest hf hends
    obtain ⟨f, rfl⟩ : ∃ g, f = g + 1 := ⟨f - 1, by simp [Val.dump] at hf; omega⟩
    rfl
  | .bool true, _, _ => by
    intro f rest hf hends
    obtain ⟨f, rfl⟩ : ∃ g, f = g + 1 := ⟨f - 1, by simp [Val.dump] at hf; omega⟩
    rfl
  | .bool false, _, _ => by
    intro f rest hf hends
    obtain ⟨f, rfl⟩ : ∃ g, f = g + 1 := ⟨f - 1, by simp [Val.dump] at hf; omega⟩
    rfl
  | .int n, _, h => by
    refine writtenBack_number h rfl fun rest hends => ?_
    rw [Readable] at h
    rw [Val.dump]
    exact scanNumber_intText h hends
  | .float x, _, h => by
    have hkept : Kept repr x := h
    refine writtenBack_number h hkept.1 fun rest hends => ?_
    rw [Val.dump]
    exact hkept.2 rest hends
  | .str s, _, _ => by
    intro f rest hf hends
    obtain ⟨f, rfl⟩ : ∃ g, f = g + 1 := ⟨f - 1, by simp [Val.dump, plain, quote] at hf; omega⟩
    have hatom := strictAtom_quote s.toList rest
    rw [Val.dump]
    simp only [plain, quote, List.cons_append, List.append_assoc, List.nil_append]
    rw [scanStrict_atom (by decide) (by decide), hatom, String.ofList_toList]
  | .arr [], 0, h => h.elim
  | .arr [], room + 1, _ => by
    intro f rest hf hends
    obtain ⟨f, rfl⟩ : ∃ g, f = g + 1 := ⟨f - 1, by simp [Val.dump] at hf; omega⟩
    rfl
  | .arr (_ :: _), 0, h => h.elim
  | .arr (x :: xs), room + 1, h => by
    intro f rest hf hends
    obtain ⟨hx, hxs⟩ : Readable (Kept repr) room x ∧ ReadableItems (Kept repr) room xs := h
    rw [Val.dump] at hf ⊢
    simp only [List.length_cons, List.length_append] at hf
    obtain ⟨f, rfl⟩ : ∃ g, f = g + 1 := ⟨f - 1, by omega⟩
    rw [List.cons_append, List.append_assoc]
    exact scanStrict_items (startsValue_dump hx) (writtenItems xs (writtenBack x hx) hxs f rest (by omega) hends)
  | .obj [], 0, h => h.elim
  | .obj [], room + 1, _ => by
    intro f rest hf hends
    obtain ⟨f, rfl⟩ : ∃ g, f = g + 1 := ⟨f - 1, by simp [Val.dump] at hf; omega⟩
    rfl
  | .obj (_ :: _), 0, h => h.elim
  | .obj ((k, x) :: es), room + 1, h => by
    intro f rest hf hends
    obtain ⟨hd, hx, hes⟩ :
        (((k, x) :: es).map Prod.fst).Nodup ∧ Readable (Kept repr) room x ∧
          ReadableEntries (Kept repr) room es := h
    rw [Val.dump] at hf ⊢
    simp only [List.length_cons, List.length_append] at hf
    obtain ⟨f, rfl⟩ : ∃ g, f = g + 1 := ⟨f - 1, by omega⟩
    have hread := writtenEntries es k (writtenBack x hx) (startsValue_dump hx) hes f rest (by omega) hends
    simpa only [plain, quote, List.append_assoc, List.cons_append, List.nil_append, List.append_eq] using
      scanStrict_entries hd hread
theorem writtenItems : ∀ (xs : List (Val PyFloat)) {room : ℕ} {x : Val PyFloat}, WrittenBack repr room x →
    ReadableItems (Kept repr) room xs → ∀ f rest,
    2 * ((Val.dump (plain repr) x).length + (Val.dumpItems (plain repr) xs).length) ≤ f + 1 → Ends rest →
    strictItems f room (Val.dump (plain repr) x ++ (Val.dumpItems (plain repr) xs ++ rest)) = .ok (x :: xs, rest)
  | [], room, x, hx, _, f, rest, hf, hends => by
    simp only [Val.dumpItems, List.length_singleton] at hf
    obtain ⟨f, rfl⟩ : ∃ g, f = g + 1 := ⟨f - 1, by omega⟩
    exact strictItems_last hx (by omega)
  | y :: ys, room, x, hx, h, f, rest, hf, hends => by
    obtain ⟨hy, hys⟩ : Readable (Kept repr) room y ∧ ReadableItems (Kept repr) room ys := h
    simp only [Val.dumpItems, plain, List.length_append, List.length_cons, List.length_nil] at hf
    obtain ⟨f, rfl⟩ : ∃ g, f = g + 1 := ⟨f - 1, by omega⟩
    have hread := writtenItems ys (writtenBack y hy) hys f rest (by simp only [plain]; omega) hends
    have hcons := strictItems_cons hx (by simp only [plain]; omega) (startsValue_dump hy) hread
    rw [Val.dumpItems]
    simpa only [plain, List.append_assoc, List.cons_append, List.nil_append] using hcons
theorem writtenEntries : ∀ (es : List (String × Val PyFloat)) (k : String) {room : ℕ} {x : Val PyFloat},
    WrittenBack repr room x → StartsValue (Val.dump (plain repr) x) → ReadableEntries (Kept repr) room es →
    ∀ f rest, 2 * ((Val.dump (plain repr) x).length + (Val.dumpEntries (plain repr) es).length) ≤ f + 1 →
    Ends rest →
    strictEntries f room (quote k.toList ++
      ':' :: ' ' :: (Val.dump (plain repr) x ++ (Val.dumpEntries (plain repr) es ++ rest))) =
      .ok ((k, x) :: es, rest)
  | [], k, room, x, hx, hstart, _, f, rest, hf, hends => by
    simp only [Val.dumpEntries, List.length_singleton] at hf
    obtain ⟨f, rfl⟩ : ∃ g, f = g + 1 := ⟨f - 1, by omega⟩
    exact strictEntries_last hx hstart (by omega)
  | (l, y) :: es, k, room, x, hx, hstart, h, f, rest, hf, hends => by
    obtain ⟨hy, hes⟩ : Readable (Kept repr) room y ∧ ReadableEntries (Kept repr) room es := h
    simp only [Val.dumpEntries, plain, List.length_append, List.length_cons, List.length_nil] at hf
    obtain ⟨f, rfl⟩ : ∃ g, f = g + 1 := ⟨f - 1, by omega⟩
    have hread := writtenEntries es l (writtenBack y hy) (startsValue_dump hy) hes f rest
      (by simp only [plain]; omega) hends
    have hcons := strictEntries_cons (k := k) hx hstart (by simp only [plain]; omega) hread
    rw [Val.dumpEntries]
    simpa only [plain, quote, List.append_assoc, List.cons_append, List.nil_append, List.append_eq] using hcons
end

/-- What the strict reader returned can be written and read again, when its floats can. -/
theorem kept_of_loadsStrict {text : String} {v : Val PyFloat} (h : loadsStrict room text = .ok v)
    (hfloats : ∀ x ∈ floats v, ReadsBack repr x) : Readable (Kept repr) room v :=
  Readable.imp v le_rfl (fun x hx hread => ⟨hread.2, hfloats x hx⟩) (readable_of_loadsStrict h)

/-- **A readable document is read from its text.** -/
theorem loadsStrict_dump {v : Val PyFloat} (h : Readable (Kept repr) room v) :
    loadsStrict room (String.ofList (Val.dump (plain repr) v)) = .ok v := by
  have hstart := startsValue_dump h
  have hskip := hstart.skipWs []
  rw [List.append_nil] at hskip
  have hread := writtenBack v h (2 * (Val.dump (plain repr) v).length + 1) [] (Nat.le_succ _) trivial
  rw [List.append_nil] at hread
  obtain ⟨c, t, ht, -, -, hbom⟩ := hstart
  unfold loadsStrict
  rw [String.toList_ofList, if_neg (by rw [ht]; simpa using hbom), loadsStrictChars, hskip, hread]
  rfl

end Written

end JsonLoad

end Broker.Lib
