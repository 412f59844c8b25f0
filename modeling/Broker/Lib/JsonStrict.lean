import Broker.Lib.JsonLoad
import Broker.Lib.Val

/-!
# Broker.Lib.JsonStrict — JSON text without the decoder's liberties

`loadsStrict` is `json.loads` with hooks that refuse `NaN`, the infinities, a decimal past the largest
double and a repeated key.  It returns what the liberal decoder returns or refuses the text
(`loadsStrict_cases`), so a document that passes the hooks is the document the plain decoder reads.
-/

namespace Broker.Lib

namespace JsonLoad

/-- Not one of the numbers that `parse_constant` and `parse_float` refuse. -/
def isFinite : Val PyFloat → Bool
  | .float (.fin _) => true
  | .float _ => false
  | _ => true

/-- An atom, a number only when it is finite. -/
def strictAtom (c : Char) (rest : List Char) : Except LoadError (Val PyFloat × List Char) :=
  match scanAtom c rest with
  | .ok (v, rest) => if isFinite v then .ok (v, rest) else .error .decode
  | .error e => .error e

/-- `object_pairs_hook`: the entries of an object, when no key is repeated. -/
def uniqueObject (es : List (String × Val PyFloat)) : Except LoadError (Val PyFloat) :=
  if (es.map Prod.fst).Nodup then .ok (.obj es) else .error .decode

-- `scanValue` with the hooks
mutual
def scanStrict : ℕ → ℕ → List Char → Except LoadError (Val PyFloat × List Char)
  | 0, _, _ => .error .fuel
  | _ + 1, _, [] => .error .decode
  | f + 1, room, c :: rest =>
    if c = '[' then
      match room with
      | 0 => .error .recursion
      | room + 1 =>
        match skipWs rest with
        | ']' :: rest => .ok (.arr [], rest)
        | cs => (strictItems f room cs).map fun r => (.arr r.1, r.2)
    else if c = '\x7b' then
      match room with
      | 0 => .error .recursion
      | room + 1 =>
        match skipWs rest with
        | '\x7d' :: rest => .ok (.obj [], rest)
        | cs => (strictEntries f room cs).bind fun r => (uniqueObject r.1).map fun v => (v, r.2)
    else strictAtom c rest
def strictItems : ℕ → ℕ → List Char → Except LoadError (List (Val PyFloat) × List Char)
  | 0, _, _ => .error .fuel
  | f + 1, room, cs =>
    match scanStrict f room cs with
    | .error e => .error e
    | .ok (v, rest) =>
      match skipWs rest with
      | ']' :: rest => .ok ([v], rest)
      | ',' :: rest => (strictItems f room (skipWs rest)).map fun r => (v :: r.1, r.2)
      | _ => .error .decode
def strictEntries : ℕ → ℕ → List Char → Except LoadError (List (String × Val PyFloat) × List Char)
  | 0, _, _ => .error .fuel
  | f + 1, room, cs =>
    match scanKey cs with
    | .error e => .error e
    | .ok (k, cs) =>
      match scanStrict f room cs with
      | .error e => .error e
      | .ok (v, rest) =>
        match skipWs rest with
        | '\x7d' :: rest => .ok ([(k, v)], rest)
        | ',' :: rest => (strictEntries f room (skipWs rest)).map fun r => ((k, v) :: r.1, r.2)
        | _ => .error .decode
end

/-- The whole text is one strict value. -/
def loadsStrictChars (room : ℕ) (cs : List Char) : Except LoadError (Val PyFloat) :=
  match scanStrict (2 * (skipWs cs).length + 1) room (skipWs cs) with
  | .error e => .error e
  | .ok (v, rest) => if skipWs rest = [] then .ok v else .error .decode

/-- `loads_strict(text)`, with room for `room` nested containers. -/
def loadsStrict (room : ℕ) (text : String) : Except LoadError (Val PyFloat) :=
  if text.toList.head? = some (Char.ofNat 0xFEFF) then .error .decode else loadsStrictChars room text.toList

/-! ### The strict reader against the liberal one -/

/-- `s` is what `l` is, or refuses. -/
def Restricts {α : Type} (s l : Except LoadError α) : Prop := s = l ∨ s = .error .decode

theorem Restricts.map {α β : Type} {s l : Except LoadError α} (h : Restricts s l) (g : α → β) :
    Restricts (s.map g) (l.map g) := by
  rcases h with rfl | rfl
  · exact .inl rfl
  · exact .inr rfl

theorem restricts_strictAtom (c : Char) (rest : List Char) :
    Restricts (strictAtom c rest) (scanAtom c rest) := by
  unfold strictAtom
  split
  · rename_i v rest' h
    split_ifs
    · exact .inl h.symm
    · exact .inr rfl
  · rename_i e h
    exact .inl h.symm

/-- Without a repeated key the entries are already the dictionary. -/
theorem dictOf_of_nodup {es : List (String × Val PyFloat)} (h : (es.map Prod.fst).Nodup) : dictOf es = es :=
  OrderedDict.foldl_setItem_of_nodup h

theorem Restricts.object {s l : Except LoadError (List (String × Val PyFloat) × List Char)}
    (h : Restricts s l) :
    Restricts (s.bind fun r => (uniqueObject r.1).map fun v => (v, r.2))
      (l.map fun r => (.obj (dictOf r.1), r.2)) := by
  rcases h with rfl | rfl
  · rcases s with e | ⟨es, rest⟩
    · exact .inl rfl
    · by_cases hd : (es.map Prod.fst).Nodup
      · refine .inl ?_
        simp [Except.bind, Except.map, uniqueObject, hd, dictOf_of_nodup hd]
      · refine .inr ?_
        simp [Except.bind, Except.map, uniqueObject, hd]
  · exact .inr rfl

section Fuel

variable {f : ℕ}

theorem restricts_scan_succ
    (ihi : ∀ room cs, Restricts (strictItems f room cs) (scanItems f room cs))
    (ihe : ∀ room cs, Restricts (strictEntries f room cs) (scanEntries f room cs)) (room : ℕ)
    (cs : List Char) : Restricts (scanStrict (f + 1) room cs) (scanValue (f + 1) room cs) := by
  cases cs with
  | nil => exact .inl rfl
  | cons c rest =>
    unfold scanStrict scanValue
    split_ifs
    · cases room with
      | zero => exact .inl rfl
      | succ room =>
        dsimp only
        rcases skipWs rest with _ | ⟨d, ds⟩
        · exact (ihi room []).map _
        · by_cases hclose : d = ']'
          · subst hclose
            exact .inl rfl
          · have hmembers := (ihi room (d :: ds)).map fun r => (Val.arr r.1, r.2)
            repeat' split
            all_goals first
              | exact hmembers
              | exact absurd (List.cons.inj ‹d :: ds = ']' :: _›).1 hclose
    · cases room with
      | zero => exact .inl rfl
      | succ room =>
        dsimp only
        rcases skipWs rest with _ | ⟨d, ds⟩
        · exact (ihe room []).object
        · by_cases hclose : d = '\x7d'
          · subst hclose
            exact .inl rfl
          · have hmembers := (ihe room (d :: ds)).object
            repeat' split
            all_goals first
              | exact hmembers
              | exact absurd (List.cons.inj ‹d :: ds = '\x7d' :: _›).1 hclose
    · exact restricts_strictAtom c rest

theorem restricts_items_succ
    (ihv : ∀ room cs, Restricts (scanStrict f room cs) (scanValue f room cs))
    (ihi : ∀ room cs, Restricts (strictItems f room cs) (scanItems f room cs)) (room : ℕ)
    (cs : List Char) : Restricts (strictItems (f + 1) room cs) (scanItems (f + 1) room cs) := by
  unfold strictItems scanItems
  rcases ihv room cs with h | h
  · rw [h]
    cases scanValue f room cs with
    | error e => exact .inl rfl
    | ok r =>
      dsimp only
      rcases skipWs r.2 with _ | ⟨d, ds⟩
      · exact .inl rfl
      · by_cases hclose : d = ']'
        · subst hclose
          exact .inl rfl
        · by_cases hcomma : d = ','
          · subst hcomma
            exact (ihi room (skipWs ds)).map _
          · refine .inr ?_
            split
            · rename_i heq
              exact absurd (List.cons.inj heq).1 hclose
            · rename_i heq
              exact absurd (List.cons.inj heq).1 hcomma
            · rfl
  · rw [h]
    exact .inr rfl

theorem restricts_entries_succ
    (ihv : ∀ room cs, Restricts (scanStrict f room cs) (scanValue f room cs))
    (ihe : ∀ room cs, Restricts (strictEntries f room cs) (scanEntries f room cs)) (room : ℕ)
    (cs : List Char) : Restricts (strictEntries (f + 1) room cs) (scanEntries (f + 1) room cs) := by
  unfold strictEntries scanEntries
  cases scanKey cs with
  | error e => exact .inl rfl
  | ok kr =>
    dsimp only
    rcases ihv room kr.2 with h | h
    · rw [h]
      cases scanValue f room kr.2 with
      | error e => exact .inl rfl
      | ok r =>
        dsimp only
        rcases skipWs r.2 with _ | ⟨d, ds⟩
        · exact .inl rfl
        · by_cases hclose : d = '\x7d'
          · subst hclose
            exact .inl rfl
          · by_cases hcomma : d = ','
            · subst hcomma
              exact (ihe room (skipWs ds)).map _
            · refine .inr ?_
              split
              · rename_i heq
                exact absurd (List.cons.inj heq).1 hclose
              · rename_i heq
                exact absurd (List.cons.inj heq).1 hcomma
              · rfl
    · rw [h]
      exact .inr rfl

end Fuel

/-- **The hooks only refuse**, by induction on the fuel. -/
theorem restricts_scan (f : ℕ) :
    (∀ room cs, Restricts (scanStrict f room cs) (scanValue f room cs)) ∧
    (∀ room cs, Restricts (strictItems f room cs) (scanItems f room cs)) ∧
    (∀ room cs, Restricts (strictEntries f room cs) (scanEntries f room cs)) := by
  induction f with
  | zero => exact ⟨fun _ _ => .inl rfl, fun _ _ => .inl rfl, fun _ _ => .inl rfl⟩
  | succ f ih =>
    obtain ⟨ihv, ihi, ihe⟩ := ih
    exact ⟨restricts_scan_succ ihi ihe, restricts_items_succ ihv ihi, restricts_entries_succ ihv ihe⟩

/-- **The strict reader returns what the liberal one returns, or refuses the text.** -/
theorem loadsStrict_cases (room : ℕ) (text : String) :
    Restricts (loadsStrict room text) (loads room text) := by
  unfold loadsStrict loads
  split_ifs
  · exact .inl rfl
  · unfold loadsStrictChars loadsChars
    rcases (restricts_scan (2 * (skipWs text.toList).length + 1)).1 room (skipWs text.toList) with h | h
    · rw [h]
      exact .inl rfl
    · rw [h]
      exact .inr rfl

end JsonLoad

end Broker.Lib
