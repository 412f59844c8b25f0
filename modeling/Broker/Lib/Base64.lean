import Mathlib.Data.List.Basic
import Mathlib.Tactic.Common
import Mathlib.Tactic.IntervalCases

/-!
# Broker.Lib.Base64 — the URL-safe alphabet without padding, and the standard one with it

`encode` is `urlsafe_b64encode(b).rstrip("=")`, `decode` reads such a text back after the padding is
restored: a length of one over a multiple of four is an error, and the spare bits of the last character
are ignored. `decode_encode` is the round trip, `encode_decode` the one the other way.
-/

namespace Broker.Lib.Base64

/-- The character of six bits. -/
def sextetChar (n : ℕ) : Char :=
  if n < 26 then Char.ofNat ('A'.toNat + n)
  else if n < 52 then Char.ofNat ('a'.toNat + (n - 26))
  else if n < 62 then Char.ofNat ('0'.toNat + (n - 52))
  else if n = 62 then '-'
  else '_'

/-- The six bits of a character of the alphabet. -/
def charSextet (c : Char) : Option ℕ :=
  if 'A' ≤ c ∧ c ≤ 'Z' then some (c.toNat - 'A'.toNat)
  else if 'a' ≤ c ∧ c ≤ 'z' then some (c.toNat - 'a'.toNat + 26)
  else if '0' ≤ c ∧ c ≤ '9' then some (c.toNat - '0'.toNat + 52)
  else if c = '-' then some 62
  else if c = '_' then some 63
  else none

theorem charSextet_sextetChar {n : ℕ} (h : n < 64) : charSextet (sextetChar n) = some n := by
  interval_cases n <;> decide

/-- Three bytes as four sextets; the last one or two bytes as two or three. -/
def sextets : List ℕ → List ℕ
  | [] => []
  | [a] => [a / 4, a % 4 * 16]
  | [a, b] => [a / 4, a % 4 * 16 + b / 16, b % 16 * 4]
  | a :: b :: c :: bs => a / 4 :: (a % 4 * 16 + b / 16) :: (b % 16 * 4 + c / 64) :: c % 64 :: sextets bs

/-- The bytes of the sextets. -/
def bytes : List ℕ → Option (List ℕ)
  | [] => some []
  | [_] => none
  | [w, x] => some [w * 4 + x / 16]
  | [w, x, y] => some [w * 4 + x / 16, x % 16 * 16 + y / 4]
  | w :: x :: y :: z :: ss =>
    (bytes ss).map fun bs => (w * 4 + x / 16) :: (x % 16 * 16 + y / 4) :: (y % 4 * 64 + z) :: bs

/-- The bits of the last sextet that belong to no byte. -/
def spareBits : List ℕ → ℕ
  | [] | [_] => 0
  | [_, x] => x % 16
  | [_, _, y] => y % 4
  | _ :: _ :: _ :: _ :: ss => spareBits ss

theorem sextets_lt (bs : List ℕ) (h : ∀ b ∈ bs, b < 256) : ∀ s ∈ sextets bs, s < 64 := by
  fun_induction sextets bs with
  | case1 => simp
  | case2 a =>
    have ha := h a (by simp)
    simp only [List.mem_cons, List.not_mem_nil, or_false, forall_eq_or_imp, forall_eq]
    omega
  | case3 a b =>
    have ha := h a (by simp)
    have hb := h b (by simp)
    simp only [List.mem_cons, List.not_mem_nil, or_false, forall_eq_or_imp, forall_eq]
    omega
  | case4 a b c bs ih =>
    have ha := h a (by simp)
    have hb := h b (by simp)
    have hc := h c (by simp)
    have hbs := ih fun x hx => h x (by simp [hx])
    simp only [List.mem_cons, forall_eq_or_imp]
    exact ⟨by omega, by omega, by omega, by omega, hbs⟩

theorem bytes_sextets (bs : List ℕ) (h : ∀ b ∈ bs, b < 256) : bytes (sextets bs) = some bs := by
  fun_induction sextets bs with
  | case1 => rfl
  | case2 a =>
    have ha := h a (by simp)
    simp only [bytes, Option.some.injEq, List.cons.injEq, and_true]
    omega
  | case3 a b =>
    have ha := h a (by simp)
    have hb := h b (by simp)
    simp only [bytes, Option.some.injEq, List.cons.injEq, and_true]
    exact ⟨by omega, by omega⟩
  | case4 a b c bs ih =>
    have ha := h a (by simp)
    have hb := h b (by simp)
    have hc := h c (by simp)
    rw [bytes, ih fun x hx => h x (by simp [hx])]
    simp only [Option.map_some, Option.some.injEq, List.cons.injEq, and_true]
    exact ⟨by omega, by omega, by omega⟩

theorem bytes_lt (ss : List ℕ) (h : ∀ s ∈ ss, s < 64) {bs : List ℕ} (hb : bytes ss = some bs) :
    ∀ b ∈ bs, b < 256 := by
  fun_induction bytes ss generalizing bs with
  | case1 =>
    obtain rfl := Option.some.inj hb
    simp
  | case2 => simp at hb
  | case3 w x =>
    have hw := h w (by simp)
    have hx := h x (by simp)
    obtain rfl := Option.some.inj hb
    simp only [List.mem_cons, List.not_mem_nil, or_false, forall_eq]
    omega
  | case4 w x y =>
    have hw := h w (by simp)
    have hx := h x (by simp)
    have hy := h y (by simp)
    obtain rfl := Option.some.inj hb
    simp only [List.mem_cons, List.not_mem_nil, or_false, forall_eq_or_imp, forall_eq]
    omega
  | case5 w x y z ss ih =>
    have hw := h w (by simp)
    have hx := h x (by simp)
    have hy := h y (by simp)
    have hz := h z (by simp)
    obtain ⟨cs, hcs, rfl⟩ := Option.map_eq_some_iff.mp hb
    have hrest := ih (fun s hs => h s (by simp [hs])) hcs
    simp only [List.mem_cons, forall_eq_or_imp]
    exact ⟨by omega, by omega, by omega, hrest⟩

theorem length_bytes_le (ss : List ℕ) {bs : List ℕ} (hb : bytes ss = some bs) : bs.length ≤ ss.length := by
  fun_induction bytes ss generalizing bs with
  | case1 | case3 | case4 =>
    obtain rfl := Option.some.inj hb
    simp
  | case2 => simp at hb
  | case5 w x y z ss ih =>
    obtain ⟨cs, hcs, rfl⟩ := Option.map_eq_some_iff.mp hb
    have hrest := ih hcs
    simp only [List.length_cons]
    omega

/-- Sextets are those of their bytes exactly when no spare bit is set. -/
theorem sextets_bytes (ss : List ℕ) (h : ∀ s ∈ ss, s < 64) {bs : List ℕ} (hb : bytes ss = some bs) :
    sextets bs = ss ↔ spareBits ss = 0 := by
  fun_induction bytes ss generalizing bs with
  | case1 =>
    obtain rfl := Option.some.inj hb
    simp [sextets, spareBits]
  | case2 => simp at hb
  | case3 w x =>
    have hw := h w (by simp)
    have hx := h x (by simp)
    obtain rfl := Option.some.inj hb
    simp only [sextets, spareBits, List.cons.injEq, and_true]
    omega
  | case4 w x y =>
    have hw := h w (by simp)
    have hx := h x (by simp)
    have hy := h y (by simp)
    obtain rfl := Option.some.inj hb
    simp only [sextets, spareBits, List.cons.injEq, and_true]
    omega
  | case5 w x y z ss ih =>
    have hw := h w (by simp)
    have hx := h x (by simp)
    have hy := h y (by simp)
    have hz := h z (by simp)
    obtain ⟨cs, hcs, rfl⟩ := Option.map_eq_some_iff.mp hb
    have hrest := ih (fun s hs => h s (by simp [hs])) hcs
    simp only [sextets, spareBits, List.cons.injEq]
    rw [hrest]
    omega

theorem length_sextets_le (bs : List ℕ) : 3 * (sextets bs).length ≤ 4 * bs.length + 2 := by
  fun_induction sextets bs with
  | case1 => simp
  | case2 | case3 => simp
  | case4 a b c bs ih =>
    simp only [List.length_cons]
    omega

/-- `urlsafe_b64encode(bs).decode().rstrip("=")`. -/
def encode (bs : List ℕ) : List Char := (sextets bs).map sextetChar

/-- The sextets of a text over an alphabet. -/
def readSextets (value : Char → Option ℕ) : List Char → Option (List ℕ)
  | [] => some []
  | c :: cs => (value c).bind fun n => (readSextets value cs).map fun ns => n :: ns

/-- `urlsafe_b64decode(text + "=" * (-len(text) % 4))`, for a text over the alphabet. -/
def decode (text : List Char) : Option (List ℕ) := (readSextets charSextet text).bind bytes

/-- An alphabet that reads back what it writes does so with a text. -/
theorem readSextets_map {value : Char → Option ℕ} {char : ℕ → Char}
    (hback : ∀ {n : ℕ}, n < 64 → value (char n) = some n) (ss : List ℕ) (h : ∀ s ∈ ss, s < 64) :
    readSextets value (ss.map char) = some ss := by
  induction ss with
  | nil => rfl
  | cons s ss ih =>
    simp only [List.map_cons, readSextets]
    rw [hback (h s (by simp)), ih fun x hx => h x (by simp [hx])]
    rfl

/-- **Round trip.** -/
theorem decode_encode {bs : List ℕ} (h : ∀ b ∈ bs, b < 256) : decode (encode bs) = some bs := by
  rw [decode, encode, readSextets_map charSextet_sextetChar _ (sextets_lt bs h)]
  exact bytes_sextets bs h

theorem sextetChar_charSextet {c : Char} {n : ℕ} (h : charSextet c = some n) : sextetChar n = c ∧ n < 64 := by
  have hle : ∀ a b : Char, a ≤ b ↔ a.toNat ≤ b.toNat := fun a b => Iff.rfl
  have hback : ∀ k, k = c.toNat → Char.ofNat k = c := fun k hk => by rw [hk, Char.ofNat_toNat]
  unfold charSextet at h
  simp only [hle] at h
  split_ifs at h with h1 h2 h3 h4 h5
  all_goals obtain rfl := Option.some.inj h
  · have hlo : 65 ≤ c.toNat := h1.1
    have hhi : c.toNat ≤ 90 := h1.2
    refine ⟨?_, by simp; omega⟩
    rw [sextetChar, if_pos (by simp; omega)]
    exact hback _ (by simp; omega)
  · have hlo : 97 ≤ c.toNat := h2.1
    have hhi : c.toNat ≤ 122 := h2.2
    refine ⟨?_, by simp; omega⟩
    rw [sextetChar, if_neg (by simp), if_pos (by simp; omega)]
    exact hback _ (by simp; omega)
  · have hlo : 48 ≤ c.toNat := h3.1
    have hhi : c.toNat ≤ 57 := h3.2
    refine ⟨?_, by simp; omega⟩
    rw [sextetChar, if_neg (by simp), if_neg (by simp), if_pos (by simp; omega)]
    exact hback _ (by simp; omega)
  · rw [h4]
    decide
  · rw [h5]
    decide

theorem map_readSextets {cs : List Char} {ss : List ℕ} (h : readSextets charSextet cs = some ss) :
    ss.map sextetChar = cs ∧ ∀ s ∈ ss, s < 64 := by
  induction cs generalizing ss with
  | nil =>
    obtain rfl := Option.some.inj h
    simp
  | cons c cs ih =>
    obtain ⟨n, hn, h⟩ := Option.bind_eq_some_iff.mp h
    obtain ⟨ns, hns, rfl⟩ := Option.map_eq_some_iff.mp h
    obtain ⟨hmap, hlt⟩ := ih hns
    obtain ⟨hc, hn64⟩ := sextetChar_charSextet hn
    refine ⟨by rw [List.map_cons, hc, hmap], ?_⟩
    intro s hs
    rcases List.mem_cons.mp hs with rfl | hs
    · exact hn64
    · exact hlt s hs

theorem length_decode_le {text : List Char} {bs : List ℕ} (h : decode text = some bs) :
    bs.length ≤ text.length := by
  obtain ⟨ss, hss, hbs⟩ := Option.bind_eq_some_iff.mp h
  rw [← (map_readSextets hss).1, List.length_map]
  exact length_bytes_le ss hbs

/-- The spare bits of a text over the alphabet. -/
def spare (text : List Char) : ℕ := ((readSextets charSextet text).map spareBits).getD 0

/-- **A text that is read is the encoding of its bytes exactly when no spare bit is set.** -/
theorem encode_decode {text : List Char} {bs : List ℕ} (h : decode text = some bs) :
    encode bs = text ↔ spare text = 0 := by
  obtain ⟨ss, hss, hbs⟩ := Option.bind_eq_some_iff.mp h
  obtain ⟨hmap, hlt⟩ := map_readSextets hss
  rw [spare, hss, Option.map_some, Option.getD_some, ← sextets_bytes ss hlt hbs, encode]
  constructor
  · intro heq
    have hread : readSextets charSextet ((sextets bs).map sextetChar) = some ss := by rw [heq, hss]
    rw [readSextets_map charSextet_sextetChar _ (sextets_lt bs (bytes_lt ss hlt hbs))] at hread
    exact Option.some.inj hread
  · intro heq
    rw [heq, hmap]

/-- The characters of an encoding are of the alphabet. -/
theorem charSextet_of_mem_encode {bs : List ℕ} (h : ∀ b ∈ bs, b < 256) {c : Char} (hc : c ∈ encode bs) :
    (charSextet c).isSome = true := by
  obtain ⟨s, hs, rfl⟩ := List.mem_map.mp hc
  rw [charSextet_sextetChar (sextets_lt bs h s hs)]
  rfl

/-! ### The standard alphabet -/

def standardChar (n : ℕ) : Char := if n = 62 then '+' else if n = 63 then '/' else sextetChar n

def standardSextet (c : Char) : Option ℕ :=
  if c = '+' then some 62
  else if c = '/' then some 63
  else if c = '-' ∨ c = '_' then none
  else charSextet c

/-- `b64encode(bs).decode()`. -/
def encodeStandard (bs : List ℕ) : String :=
  String.ofList ((sextets bs).map standardChar ++ List.replicate ((3 - bs.length % 3) % 3) '=')

/-- `b64decode(text, validate=True)`: whole groups of four, the last one filled up by at most two `=`;
the spare bits of its last character are ignored. -/
def decodeStandard (text : String) : Option (List ℕ) :=
  let cs := text.toList
  let data := cs.takeWhile (· ≠ '=')
  if cs.length % 4 = 0 ∧ cs = data ++ List.replicate (cs.length - data.length) '=' ∧
    cs.length - data.length ≤ 2 then
    (readSextets standardSextet data).bind bytes
  else none

theorem standardSextet_standardChar {n : ℕ} (h : n < 64) : standardSextet (standardChar n) = some n := by
  interval_cases n <;> decide

theorem standardChar_ne {n : ℕ} (h : n < 64) : standardChar n ≠ '=' := by
  interval_cases n <;> decide

/-- The padding fills the last group. -/
theorem length_sextets_padded (bs : List ℕ) : ((sextets bs).length + (3 - bs.length % 3) % 3) % 4 = 0 := by
  fun_induction sextets bs with
  | case1 => rfl
  | case2 | case3 => simp
  | case4 a b c bs ih =>
    simp only [List.length_cons]
    omega

/-- **Round trip** in the standard alphabet. -/
theorem decodeStandard_encodeStandard {bs : List ℕ} (h : ∀ b ∈ bs, b < 256) :
    decodeStandard (encodeStandard bs) = some bs := by
  have hlt : ∀ s ∈ sextets bs, s < 64 := sextets_lt bs h
  have hchars : ∀ c ∈ (sextets bs).map standardChar, decide (c ≠ '=') = true := by
    intro c hc
    obtain ⟨s, hs, rfl⟩ := List.mem_map.mp hc
    simpa using standardChar_ne (hlt s hs)
  have htake : ((sextets bs).map standardChar ++ List.replicate ((3 - bs.length % 3) % 3) '=').takeWhile
      (fun c => decide (c ≠ '=')) = (sextets bs).map standardChar := by
    rw [List.takeWhile_append_of_pos hchars]
    simp
  have hlen := length_sextets_padded bs
  simp only [decodeStandard, encodeStandard, String.toList_ofList]
  rw [htake, if_pos]
  · rw [readSextets_map standardSextet_standardChar _ hlt]
    exact bytes_sextets bs h
  · refine ⟨?_, ?_, ?_⟩
    · simpa using hlen
    · simp
    · simp only [List.length_append, List.length_map, List.length_replicate]
      omega

end Broker.Lib.Base64
