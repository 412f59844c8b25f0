import Broker.Lib.Base64
import Broker.Lib.JsonLoad

/-!
# Broker.Services.JobCursor — the opaque cursor of a job list

`encode_cursor` writes a position, a high watermark and a flag as JSON and encodes the bytes;
`decode_cursor` refuses whatever it could not have written.  What was written is read back
(`decodeCursor_encodeCursor`), which is all a walk needs of the two.
-/

namespace Broker.Services

open Broker.Lib

/-- `MAX_ID`. -/
def maxId : ℕ := 2 ^ 63 - 1

structure Cursor where
  after : ℕ
  hw : ℕ
  quiet : Bool
  deriving DecidableEq, Repr

/-- `decode_cursor` fails with `BadCursor`, or, on a text nested past the stack, with `RecursionError`. -/
inductive CursorError | badCursor | recursion
  deriving DecidableEq, Repr

/-- How `json.loads` turns bytes into text: it guesses the encoding from zeros and byte order marks, so that
ASCII without NUL is read as itself.  The stack has room for a container. -/
structure Codec where
  decode : List ℕ → Option (List Char)
  ascii : ∀ cs : List Char, (∀ c ∈ cs, 0 < c.toNat ∧ c.toNat < 128) → decode (cs.map Char.toNat) = some cs
  room : ℕ
  room_pos : 0 < room

/-! ### Writing -/

/-- `separators=(",", ":")`; a cursor holds no float. -/
def compactStyle : DumpStyle Empty := ⟨[','], [':'], JsonText.quote, Empty.elim⟩

def cursorDoc (c : Cursor) : Val Empty :=
  .obj [("after", .int c.after), ("hw", .int c.hw), ("nn", .bool c.quiet)]

/-- The JSON text of a cursor. -/
def cursorText (c : Cursor) : List Char := (cursorDoc c).dump compactStyle

/-- `encode_cursor`; the text is ASCII, so its bytes are its code points. -/
def encodeCursor (c : Cursor) : String := String.ofList (Base64.encode ((cursorText c).map Char.toNat))

/-! ### Reading -/

/-- The fields of a decoded cursor. -/
def cursorOf (es : List (String × Val PyFloat)) : Except CursorError Cursor :=
  if es.all (fun e => e.1 ∈ ["after", "hw", "nn"]) then
    match OrderedDict.get es "after", OrderedDict.get es "hw", OrderedDict.get es "nn" with
    | some (.int after), some (.int hw), some (.bool quiet) =>
      if (0 ≤ after ∧ after ≤ maxId) ∧ (0 ≤ hw ∧ hw ≤ maxId) ∧ ¬ hw < after then
        .ok ⟨after.toNat, hw.toNat, quiet⟩
      else .error .badCursor
    | _, _, _ => .error .badCursor
  else .error .badCursor

/-- `_B64.fullmatch`. -/
def isToken (cs : List Char) : Bool := 1 ≤ cs.length && cs.length ≤ 200 && cs.all fun c =>
    (Base64.charSextet c).isSome

/-- `decode_cursor`. -/
def decodeCursor (codec : Codec) (token : String) : Except CursorError Cursor :=
  if isToken token.toList then
    match (Base64.decode token.toList).bind codec.decode with
    | none => .error .badCursor
    | some text =>
      match JsonLoad.loadsChars codec.room text with
      | .error .recursion => .error .recursion
      | .error _ => .error .badCursor
      | .ok (.obj es) => cursorOf es
      | .ok _ => .error .badCursor
  else .error .badCursor

/-! ### The round trip -/

def quietText (b : Bool) : List Char := if b then "true".toList else "false".toList

theorem cursorText_eq (c : Cursor) :
    cursorText c = '\x7b' :: '"' :: ("after".toList ++ '"' :: ':' :: (Nat.toDigits 10 c.after ++
      ',' :: '"' :: ("hw".toList ++ '"' :: ':' :: (Nat.toDigits 10 c.hw ++
        ',' :: '"' :: ("nn".toList ++ '"' :: ':' :: (quietText c.quiet ++ ['\x7d'])))))) := by
  have hint : ∀ n : ℕ, intText n = Nat.toDigits 10 n := fun n => by simp [intText]
  have hkeys : JsonText.quote "after".toList = '"' :: ("after".toList ++ ['"']) ∧
      JsonText.quote "hw".toList = '"' :: ("hw".toList ++ ['"']) ∧
      JsonText.quote "nn".toList = '"' :: ("nn".toList ++ ['"']) := by decide
  have hnn : Val.dump compactStyle (.bool c.quiet) = quietText c.quiet := by cases c.quiet <;> rfl
  simp only [cursorText, cursorDoc, Val.dump, Val.dumpEntries, hint, hnn]
  simp only [compactStyle, hkeys.1, hkeys.2.1, hkeys.2.2]
  simp

theorem isSpace_of_isDigit {c : Char} (h : c.isDigit = true) : JsonLoad.isSpace c = false := by
  have h1 : c ≠ ' ' := isDigit_ne h (by decide)
  have h2 : c ≠ '\t' := isDigit_ne h (by decide)
  have h3 : c ≠ '\n' := isDigit_ne h (by decide)
  have h4 : c ≠ '\r' := isDigit_ne h (by decide)
  simp [JsonLoad.isSpace, h1, h2, h3, h4]

/-- A key whose value is the literal of a natural number. -/
theorem scanKey_toDigits {k : List Char} (h : ∀ c ∈ k, JsonLoad.isPlain c = true) (n : ℕ) (rest : List Char) :
    JsonLoad.scanKey ('"' :: (k ++ '"' :: ':' :: (Nat.toDigits 10 n ++ rest))) =
      .ok (String.ofList k, Nat.toDigits 10 n ++ rest) := by
  cases hd : Nat.toDigits 10 n with
  | nil => exact absurd hd Nat.toDigits_ne_nil
  | cons c t => exact JsonLoad.scanKey_plain h (isSpace_of_isDigit (isDigit_of_mem_toDigits (n := n) (by simp [hd]))) _

/-- Every number of a cursor is short enough to be read. -/
theorem length_toDigits_of_le {n : ℕ} (h : n ≤ maxId) : (Nat.toDigits 10 n).length ≤ 19 :=
  (Nat.length_toDigits_le_iff (by decide) (by decide)).mpr (h.trans_lt (by decide))

theorem scanValue_quiet (b : Bool) (f room : ℕ) :
    JsonLoad.scanValue (f + 1) room (quietText b ++ ['\x7d']) = .ok (.bool b, ['\x7d']) := by
  cases b <;> rfl

/-- An entry whose value is a natural number, before another entry. -/
theorem scanEntries_toDigits {k : List Char} (h : ∀ c ∈ k, JsonLoad.isPlain c = true) {n : ℕ}
    (hlen : (Nat.toDigits 10 n).length ≤ JsonLoad.maxIntDigits) (f room : ℕ) (rest : List Char) :
    JsonLoad.scanEntries (f + 2) room ('"' :: (k ++ '"' :: ':' :: (Nat.toDigits 10 n ++ ',' :: '"' :: rest))) =
      (JsonLoad.scanEntries (f + 1) room ('"' :: rest)).map fun r => ((String.ofList k, .int n) :: r.1, r.2) := by
  have hends : Ends (',' :: '"' :: rest) := rfl
  have hcomma : JsonLoad.skipWs (',' :: '"' :: rest) = ',' :: '"' :: rest := rfl
  have hquote : JsonLoad.skipWs ('"' :: rest) = '"' :: rest := rfl
  rw [JsonLoad.scanEntries, scanKey_toDigits h]
  simp only [JsonLoad.scanValue_toDigits hlen hends, hcomma, hquote]

theorem scanEntries_quiet (b : Bool) (f room : ℕ) :
    JsonLoad.scanEntries (f + 2) room ('"' :: ("nn".toList ++ '"' :: ':' :: (quietText b ++ ['\x7d']))) =
      .ok ([("nn", .bool b)], []) := by
  have hkey : JsonLoad.scanKey ('"' :: ("nn".toList ++ '"' :: ':' :: (quietText b ++ ['\x7d']))) =
      .ok ("nn", quietText b ++ ['\x7d']) := by
    cases b <;> exact JsonLoad.scanKey_plain (List.all_eq_true.mp (by decide)) (by decide) _
  rw [JsonLoad.scanEntries, hkey]
  simp only [scanValue_quiet]
  rfl

theorem loads_cursorText {c : Cursor} (ha : (Nat.toDigits 10 c.after).length ≤ JsonLoad.maxIntDigits)
    (hh : (Nat.toDigits 10 c.hw).length ≤ JsonLoad.maxIntDigits) (room : ℕ) :
    JsonLoad.loadsChars (room + 1) (cursorText c) =
      .ok (.obj [("after", .int c.after), ("hw", .int c.hw), ("nn", .bool c.quiet)]) := by
  have hentries : ∀ f, JsonLoad.scanEntries (f + 4) room (cursorText c).tail =
      .ok ([("after", .int c.after), ("hw", .int c.hw), ("nn", .bool c.quiet)], []) := by
    intro f
    rw [cursorText_eq, List.tail_cons, scanEntries_toDigits (List.all_eq_true.mp (by decide)) ha,
      scanEntries_toDigits (List.all_eq_true.mp (by decide)) hh, scanEntries_quiet]
    rfl
  obtain ⟨t, ht⟩ : ∃ t, cursorText c = '\x7b' :: '"' :: t := ⟨_, cursorText_eq c⟩
  have hws : JsonLoad.skipWs (cursorText c) = cursorText c := by rw [ht]; rfl
  -- the fuel is twice the length of the text
  obtain ⟨f, hf⟩ : ∃ f, 2 * (cursorText c).length + 1 = f + 5 := by
    refine ⟨2 * t.length, ?_⟩
    rw [ht]
    simp only [List.length_cons]
    omega
  have hscan : JsonLoad.scanValue (f + 5) (room + 1) (cursorText c) =
      .ok (.obj [("after", .int c.after), ("hw", .int c.hw), ("nn", .bool c.quiet)], []) := by
    have htail := hentries f
    rw [ht, List.tail_cons] at htail
    have hq : JsonLoad.skipWs ('"' :: t) = '"' :: t := rfl
    rw [ht, JsonLoad.scanValue, if_neg (by decide), if_pos rfl]
    simp only [hq]
    show Except.map _ (JsonLoad.scanEntries (f + 4) room ('"' :: t)) = _
    rw [htail]
    rfl
  rw [JsonLoad.loadsChars, hws, hf, hscan]
  rfl

/-- What is left to check of a document with the three fields. -/
theorem cursorOf_doc (c : Cursor) :
    cursorOf [("after", .int c.after), ("hw", .int c.hw), ("nn", .bool c.quiet)] =
      if c.after ≤ maxId ∧ c.hw ≤ maxId ∧ c.after ≤ c.hw then .ok c else .error .badCursor := by
  have hiff : (((c.after : ℤ) ≤ maxId) ∧ ((c.hw : ℤ) ≤ maxId) ∧ ¬ (c.hw : ℤ) < c.after) ↔
      c.after ≤ maxId ∧ c.hw ≤ maxId ∧ c.after ≤ c.hw := by omega
  have hkeys : [("after", Val.int c.after), ("hw", .int c.hw), ("nn", .bool c.quiet)].all
      (fun e : String × Val PyFloat => decide (e.1 ∈ ["after", "hw", "nn"])) = true := by simp
  have hget : OrderedDict.get [("after", Val.int c.after), ("hw", .int c.hw), ("nn", .bool c.quiet)] "after" =
        some (.int c.after : Val PyFloat) ∧
      OrderedDict.get [("after", Val.int c.after), ("hw", .int c.hw), ("nn", .bool c.quiet)] "hw" =
        some (.int c.hw : Val PyFloat) ∧
      OrderedDict.get [("after", Val.int c.after), ("hw", .int c.hw), ("nn", .bool c.quiet)] "nn" =
        some (.bool c.quiet : Val PyFloat) := by
    simp [OrderedDict.get]
  rw [cursorOf, if_pos hkeys, hget.1, hget.2.1, hget.2.2]
  simp only [Int.natCast_nonneg, true_and, hiff, Int.toNat_natCast]

theorem ascii_cursorText (c : Cursor) : ∀ x ∈ cursorText c, 0 < x.toNat ∧ x.toNat < 128 := by
  have hdigits : ∀ n, ∀ x ∈ Nat.toDigits 10 n, 0 < x.toNat ∧ x.toNat < 128 := by
    intro n x hx
    have h := isDigit_of_mem_toDigits hx
    simp only [Char.isDigit, ge_iff_le, Bool.and_eq_true, decide_eq_true_eq] at h
    have h1 : 48 ≤ x.toNat := h.1
    have h2 : x.toNat ≤ 57 := h.2
    omega
  have hplain : ∀ t : List Char, t.all (fun x => decide (0 < x.toNat ∧ x.toNat < 128)) = true →
      ∀ x ∈ t, 0 < x.toNat ∧ x.toNat < 128 := fun t ht x hx => of_decide_eq_true (List.all_eq_true.mp ht x hx)
  have hnn : ∀ x ∈ quietText c.quiet, 0 < x.toNat ∧ x.toNat < 128 := hplain _ (by cases c.quiet <;> decide)
  have hkeys : ∀ k ∈ ["after", "hw", "nn"], ∀ x ∈ k.toList, 0 < x.toNat ∧ x.toNat < 128 := by
    intro k hk
    exact hplain _ (by revert k; decide)
  rw [cursorText_eq]
  intro x hx
  simp only [List.mem_cons, List.mem_append, List.not_mem_nil, or_false] at hx
  rcases hx with rfl | rfl | hx | rfl | rfl | hx | rfl | rfl | hx | rfl | rfl | hx | rfl | rfl | hx | rfl | rfl | hx |
    rfl
  all_goals first
    | exact hkeys _ (by simp) _ hx
    | exact hdigits _ _ hx
    | exact hnn _ hx
    | decide

theorem length_cursorText_le {c : Cursor} (ha : c.after ≤ maxId) (hh : c.hw ≤ maxId) :
    (cursorText c).length ≤ 70 := by
  have h1 := length_toDigits_of_le ha
  have h2 := length_toDigits_of_le hh
  have h3 : (quietText c.quiet).length ≤ 5 := by cases c.quiet <;> decide
  have h4 : "after".toList.length = 5 ∧ "hw".toList.length = 2 ∧ "nn".toList.length = 2 := by decide
  rw [cursorText_eq]
  simp only [List.length_cons, List.length_append, List.length_nil, h4.1, h4.2.1, h4.2.2]
  omega

/-- **What `encode_cursor` wrote, `decode_cursor` reads.** -/
theorem decodeCursor_encodeCursor (codec : Codec) {c : Cursor} (hle : c.after ≤ c.hw) (hmax : c.hw ≤ maxId) :
    decodeCursor codec (encodeCursor c) = .ok c := by
  have hascii := ascii_cursorText c
  have hbytes : ∀ b ∈ (cursorText c).map Char.toNat, b < 256 := by
    intro b hb
    obtain ⟨x, hx, rfl⟩ := List.mem_map.mp hb
    exact (hascii x hx).2.trans (by decide)
  have htoken : isToken (encodeCursor c).toList = true := by
    have hlen := Base64.length_sextets_le ((cursorText c).map Char.toNat)
    have h70 := length_cursorText_le (hle.trans hmax) hmax
    have hpos : 1 ≤ (Base64.sextets ((cursorText c).map Char.toNat)).length := by
      rw [cursorText_eq]
      simp only [List.map_cons]
      rw [List.map_append]
      simp [Base64.sextets]
    rw [List.length_map] at hlen
    simp only [isToken, encodeCursor, String.toList_ofList, Bool.and_eq_true, decide_eq_true_eq, List.all_eq_true]
    refine ⟨⟨?_, ?_⟩, fun x hx => Base64.charSextet_of_mem_encode hbytes hx⟩
    · simpa [Base64.encode] using hpos
    · simp only [Base64.encode, List.length_map]
      omega
  have hdecode : (Base64.decode (encodeCursor c).toList).bind codec.decode = some (cursorText c) := by
    rw [encodeCursor, String.toList_ofList, Base64.decode_encode hbytes]
    exact codec.ascii _ hascii
  have hof : cursorOf [("after", .int c.after), ("hw", .int c.hw), ("nn", .bool c.quiet)] = .ok c := by
    rw [cursorOf_doc, if_pos (by omega)]
  obtain ⟨room, hroom⟩ : ∃ room, codec.room = room + 1 := ⟨codec.room - 1, by have := codec.room_pos; omega⟩
  have hshort : ∀ n, n ≤ maxId → (Nat.toDigits 10 n).length ≤ JsonLoad.maxIntDigits :=
    fun n hn => (length_toDigits_of_le hn).trans (by decide)
  rw [decodeCursor, if_pos htoken, hdecode, hroom]
  simp only [loads_cursorText (hshort _ (hle.trans hmax)) (hshort _ hmax)]
  exact hof

/-! ### What is accepted beside -/

/-- The compact text of a cursor, with its numbers as they are spelled. -/
def compactText (after hw : List Char) (quiet : Bool) : List Char :=
  '\x7b' :: '"' :: ("after".toList ++ '"' :: ':' :: (after ++
    ',' :: '"' :: ("hw".toList ++ '"' :: ':' :: (hw ++
      ',' :: '"' :: ("nn".toList ++ '"' :: ':' :: (quietText quiet ++ ['\x7d']))))))

/-- No spare bit of the token is set, and its bytes are the compact text: the three keys once each and in
order, no blank, plain numerals. -/
def PlainToken (token : String) : Prop :=
  Base64.spare token.toList = 0 ∧ ∃ after hw quiet, JsonLoad.IsNumeral after ∧ JsonLoad.IsNumeral hw ∧
    Base64.decode token.toList = some ((compactText after hw quiet).map Char.toNat)

theorem plainToken_encodeCursor (c : Cursor) : PlainToken (encodeCursor c) := by
  have hbytes : ∀ b ∈ (cursorText c).map Char.toNat, b < 256 := by
    intro b hb
    obtain ⟨x, hx, rfl⟩ := List.mem_map.mp hb
    exact (ascii_cursorText c x hx).2.trans (by decide)
  have hdecode : Base64.decode (encodeCursor c).toList = some ((cursorText c).map Char.toNat) := by
    rw [encodeCursor, String.toList_ofList, Base64.decode_encode hbytes]
  refine ⟨(Base64.encode_decode hdecode).mp (by rw [encodeCursor, String.toList_ofList]), ?_⟩
  exact ⟨_, _, c.quiet, JsonLoad.isNumeral_toDigits c.after, JsonLoad.isNumeral_toDigits c.hw, by
    rw [hdecode, cursorText_eq]
    rfl⟩

/-- A plain token that is accepted is the one of its cursor. -/
theorem encodeCursor_of_plainToken {codec : Codec} {token : String} {c : Cursor}
    (hc : decodeCursor codec token = .ok c) (hp : PlainToken token) : encodeCursor c = token := by
  obtain ⟨hspare, ds, es, quiet, hds, hes, hdecode⟩ := hp
  obtain ⟨a, rfl⟩ := JsonLoad.exists_toDigits hds
  obtain ⟨h, rfl⟩ := JsonLoad.exists_toDigits hes
  have htext : compactText (Nat.toDigits 10 a) (Nat.toDigits 10 h) quiet = cursorText ⟨a, h, quiet⟩ :=
    (cursorText_eq ⟨a, h, quiet⟩).symm
  rw [htext] at hdecode
  unfold decodeCursor at hc
  split_ifs at hc with htoken
  -- a token is too short for a number that is not read
  have hlen : (cursorText ⟨a, h, quiet⟩).length ≤ 200 := by
    have hle := Base64.length_decode_le hdecode
    rw [List.length_map] at hle
    simp only [isToken, Bool.and_eq_true, decide_eq_true_eq] at htoken
    omega
  have hshort : (Nat.toDigits 10 a).length ≤ JsonLoad.maxIntDigits ∧
      (Nat.toDigits 10 h).length ≤ JsonLoad.maxIntDigits := by
    rw [cursorText_eq] at hlen
    simp only [List.length_cons, List.length_append] at hlen
    have hmax : 200 ≤ JsonLoad.maxIntDigits := by decide
    omega
  obtain ⟨room, hroom⟩ : ∃ room, codec.room = room + 1 := ⟨codec.room - 1, by have := codec.room_pos; omega⟩
  rw [hdecode, Option.bind_some, codec.ascii _ (ascii_cursorText _), hroom] at hc
  simp only [loads_cursorText (c := ⟨a, h, quiet⟩) hshort.1 hshort.2] at hc
  have hof : c = ⟨a, h, quiet⟩ := by
    have hdoc := cursorOf_doc ⟨a, h, quiet⟩
    rw [hdoc] at hc
    split_ifs at hc
    exact (Except.ok.inj hc).symm
  rw [hof, encodeCursor, (Base64.encode_decode hdecode).mpr hspare, String.ofList_toList]

/-- **The cursor codec.**  Every position in range is read back from its token, and a token that is accepted
is the one issued for its cursor exactly when it is plain. -/
theorem cursor_codec (codec : Codec) :
    (∀ c : Cursor, c.after ≤ c.hw → c.hw ≤ maxId → decodeCursor codec (encodeCursor c) = .ok c) ∧
      ∀ token c, decodeCursor codec token = .ok c → (encodeCursor c = token ↔ PlainToken token) := by
  refine ⟨fun c => decodeCursor_encodeCursor codec, fun token c hc => ⟨?_, encodeCursor_of_plainToken hc⟩⟩
  rintro rfl
  exact plainToken_encodeCursor c

/-- A codec of ASCII alone. -/
def asciiCodec : Codec where
  decode bs := if bs.all fun b => decide (0 < b ∧ b < 128) then some (bs.map Char.ofNat) else none
  ascii cs h := by
    have hall : ((cs.map Char.toNat).all fun b => decide (0 < b ∧ b < 128)) = true := by
      simpa using h
    have hback : (cs.map Char.toNat).map Char.ofNat = cs := by simp [Function.comp_def]
    rw [if_pos hall, hback]
  room := 1000
  room_pos := by decide

theorem cursor_codec_start :
    decodeCursor asciiCodec (encodeCursor ⟨0, 7, true⟩) = .ok ⟨0, 7, true⟩ ∧
      PlainToken (encodeCursor ⟨0, 7, true⟩) := by
  have hread := (cursor_codec asciiCodec).1 ⟨0, 7, true⟩ (by decide) (by decide)
  exact ⟨hread, ((cursor_codec asciiCodec).2 _ _ hread).mp rfl⟩

/-- A token with another last character, changed in its spare bits alone, is read and was never issued. -/
theorem cursor_codec_spare_bits :
    ¬ ∀ token c, decodeCursor asciiCodec token = .ok c → encodeCursor c = token := by
  intro h
  have hread : decodeCursor asciiCodec "eyJhZnRlciI6MCwiaHciOjAsIm5uIjp0cnVlfR" = .ok ⟨0, 0, true⟩ := by
    decide +kernel
  exact absurd (h _ _ hread) (by decide +kernel)

end Broker.Services
