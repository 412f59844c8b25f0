import Broker.Lib.FieldLines
import Broker.Lib.PyConv
import Broker.Lib.Trans
import Mathlib.Data.List.Sort

/-!
# Broker.Routes.OwnerSession — the Telegram login and the sessions of the owner

Telegram signs the fields of a login with the bot token; two routes exchange such fields for a cookie
`<user_id>.<exp>.<hmac>`, one of them for any user.  Who makes requests may send any fields and any
cookie, as long as he cannot compute the two HMACs himself.  A request that is then let in as the owner
goes back to a login of the owner that Telegram signed (`owner_signed_in`).
-/

namespace Broker.Routes

open Broker.Lib Broker.Lib.FieldLines Broker.Lib.PyConv

namespace OwnerSession

abbrev Text := List Char

/-! ### `int` of a field -/

def intOf (text : Text) : Option ℤ :=
  let cs := (text.dropWhile isBlank).rdropWhile isBlank
  match digitsFrom (splitSign cs).2 with
  | none => none
  | some ds =>
    if JsonLoad.maxIntDigits < ds.length then none
    else some (JsonLoad.signed (splitSign cs).1 (ds.foldl (fun n d => 10 * n + d) 0))

theorem digit_of_mem {cs : List Char} {ds : List ℕ} (h : digitsFrom cs = some ds) :
    ∀ c ∈ cs, c = '_' ∨ (decimalValue c).isSome = true := by
  fun_induction digitsFrom cs generalizing ds with
  | case1 => cases h
  | case2 c =>
    intro d hd
    obtain rfl := List.mem_singleton.mp hd
    obtain ⟨n, hn, -⟩ := Option.map_eq_some_iff.mp h
    exact .inr (by rw [hn]; rfl)
  | case3 c cs ih =>
    obtain ⟨n, hn, hrest⟩ := Option.bind_eq_some_iff.mp h
    obtain ⟨ns, hns, -⟩ := Option.map_eq_some_iff.mp hrest
    intro d hd
    rcases List.mem_cons.mp hd with rfl | hd
    · exact .inr (by rw [hn]; rfl)
    · rcases List.mem_cons.mp hd with rfl | hd
      · exact .inl rfl
      · exact ih hns d hd
  | case4 c cs _ _ ih =>
    obtain ⟨n, hn, hrest⟩ := Option.bind_eq_some_iff.mp h
    obtain ⟨ns, hns, -⟩ := Option.map_eq_some_iff.mp hrest
    intro d hd
    rcases List.mem_cons.mp hd with rfl | hd
    · exact .inr (by rw [hn]; rfl)
    · exact ih hns d hd

theorem mem_splitSign {cs : List Char} {c : Char} (h : c ∈ cs) (hminus : c ≠ '-') (hplus : c ≠ '+') :
    c ∈ (splitSign cs).2 := by
  fun_cases splitSign cs with
  | case1 cs => exact (List.mem_cons.mp h).resolve_left hminus
  | case2 cs => exact (List.mem_cons.mp h).resolve_left hplus
  | case3 cs => exact h

theorem mem_dropWhile {p : Char → Bool} {c : Char} (hp : p c = false) :
    ∀ {cs : List Char}, c ∈ cs → c ∈ cs.dropWhile p
  | d :: cs, h => by
    rw [List.dropWhile_cons]
    split_ifs with hd
    · rcases List.mem_cons.mp h with rfl | h
      · rw [hp] at hd
        cases hd
      · exact mem_dropWhile hp h
    · exact h

/-- No number holds an `=`. -/
theorem equals_notMem {text : Text} {n : ℤ} (h : intOf text = some n) : '=' ∉ text := by
  intro hmem
  have hleft : '=' ∈ text.dropWhile isBlank := mem_dropWhile (by decide) hmem
  have hright : '=' ∈ (text.dropWhile isBlank).rdropWhile isBlank := by
    rw [List.rdropWhile, List.mem_reverse]
    exact mem_dropWhile (by decide) (List.mem_reverse.mpr hleft)
  have hdigits := mem_splitSign hright (by decide) (by decide)
  simp only [intOf] at h
  split at h
  · cases h
  · rename_i ds hds
    rcases digit_of_mem hds _ hdigits with heq | hsome
    · cases heq
    · exact absurd hsome (by decide)

section Digits

variable {cs : List Char}

theorem decimalValue_of_isDigit {c : Char} (h : c.isDigit = true) : decimalValue c = some (c.toNat - 48) := by
  simp only [Char.isDigit, Bool.and_eq_true, decide_eq_true_eq, UInt32.le_iff_toNat_le] at h
  have hlow : 48 ≤ c.toNat := h.1
  have hhigh : c.toNat ≤ 57 := h.2
  have hfirst : decimalZeros.find? (fun z => decide (z ≤ c.toNat ∧ c.toNat < z + 10)) = some 0x30 := by
    rw [decimalZeros, List.find?_cons_of_pos]
    simp only [decide_eq_true_eq]
    omega
  rw [decimalValue, hfirst]
  rfl

theorem isBlank_of_digit {c : Char} (h : c.isDigit = true) : isBlank c = false := by
  refine isBlank_of_isDigit ?_
  rw [PyConv.isDigit, decimalValue_of_isDigit h]
  rfl

theorem digitsFrom_of_digits : ∀ {cs : List Char}, cs ≠ [] → (∀ c ∈ cs, c.isDigit = true) →
    digitsFrom cs = some (cs.map fun c => c.toNat - 48)
  | [c], _, h => by rw [digitsFrom, decimalValue_of_isDigit (h c (by simp))]; rfl
  | c :: d :: cs, _, h => by
    have hd : d ≠ '_' := isDigit_ne (h d (by simp)) (by decide)
    have ih := digitsFrom_of_digits (List.cons_ne_nil d cs) fun e he => h e (List.mem_cons_of_mem c he)
    rw [digitsFrom_cons cs hd, decimalValue_of_isDigit (h c (by simp)), ih]
    rfl

/-- A text that starts and ends with no white space is trimmed to itself. -/
theorem trim_eq_self (h : ∀ c ∈ cs, isBlank c = false) : (cs.dropWhile isBlank).rdropWhile isBlank = cs := by
  have hfront : cs.dropWhile isBlank = cs := by
    rw [List.dropWhile_eq_self_iff]
    intro hpos
    simp [h _ (List.getElem_mem hpos)]
  rw [hfront, List.rdropWhile_eq_self_iff]
  intro hl
  simp [h _ (List.getLast_mem hl)]

end Digits

/-- **`int` reads back what the format string wrote.** -/
theorem intOf_intText {n : ℤ} (h : (Nat.toDigits 10 n.natAbs).length ≤ JsonLoad.maxIntDigits) :
    intOf (intText n) = some n := by
  have hdigits : ∀ c ∈ Nat.toDigits 10 n.natAbs, c.isDigit = true := fun c hc => isDigit_of_mem_toDigits hc
  have hvalue : ((Nat.toDigits 10 n.natAbs).map fun c => c.toNat - 48).foldl (fun n d => 10 * n + d) 0 =
      n.natAbs := by
    rw [List.foldl_map]
    exact Nat.ofDigitChars_ten_toDigits
  have hread : ∀ neg, (match digitsFrom (Nat.toDigits 10 n.natAbs) with
      | none => none
      | some ds =>
        if JsonLoad.maxIntDigits < ds.length then none
        else some (JsonLoad.signed neg (ds.foldl (fun n d => 10 * n + d) 0))) =
      some (JsonLoad.signed neg n.natAbs) := by
    intro neg
    rw [digitsFrom_of_digits Nat.toDigits_ne_nil hdigits]
    simp only [List.length_map, if_neg (not_lt.mpr h), hvalue]
  have hblank : ∀ c ∈ intText n, isBlank c = false := fun c hc =>
    of_mem_intText (p := fun c => isBlank c = false) rfl isBlank_of_digit hc
  rw [intOf, trim_eq_self hblank]
  unfold intText
  split_ifs with hneg
  · rw [splitSign, hread true]
    simp only [JsonLoad.signed, if_true]
    congr 1
    omega
  · obtain ⟨c, t, hct⟩ := List.exists_cons_of_ne_nil (Nat.toDigits_ne_nil : Nat.toDigits 10 n.natAbs ≠ [])
    have hc : c.isDigit = true := hdigits c (by simp [hct])
    have hsign : splitSign (Nat.toDigits 10 n.natAbs) = (false, Nat.toDigits 10 n.natAbs) := by
      rw [hct, splitSign]
      · intro _ h
        exact isDigit_ne hc (by decide) (List.cons.inj h).1
      · intro _ h
        exact isDigit_ne hc (by decide) (List.cons.inj h).1
    rw [hsign, hread false]
    simp only [JsonLoad.signed, if_false, Bool.false_eq_true]
    congr 1
    omega

/-! ### The login and the cookie -/

/-- `hmac.new(key, text, sha256).hexdigest()`, with the SHA-256 of the bot token for the login. -/
structure Macs where
  widget : Text → Text → Text
  session : Text → Text → Text

structure Settings where
  botToken : Text := []
  ownerTelegramId : ℤ := 0
  adminKey : Text
  sessionSecret : Text := []

/-- What ends a request with an error of the server. -/
inductive Raised where
  | typeError
  | notConfigured

/-- `hmac.compare_digest` takes ASCII texts only. -/
def compareDigest (a b : Text) : Except Raised Bool :=
  if (a ++ b).all fun c => decide (c.toNat < 128) then .ok (a == b) else .error .typeError

/-- `SESSION_TTL_S`. -/
def sessionTtl : ℤ := 30 * 24 * 3600

/-- `TG_AUTH_FRESHNESS_S`. -/
def authFreshness : ℤ := 24 * 3600

def hashKey : Text := ['h', 'a', 's', 'h']

def authDateKey : Text := ['a', 'u', 't', 'h', '_', 'd', 'a', 't', 'e']

def idKey : Text := ['i', 'd']

/-- The fields that the signature is about; a dict has each key once, so they are sorted by key. -/
def signedFields (data : List Field) : List Field :=
  (data.filter fun f => f.1 != hashKey && !f.2.isEmpty).insertionSort fun f g => f.1 ≤ g.1

section Verify

variable (m : Macs) (cfg : Settings) (now : ℕ)

/-- `verify_telegram_widget` at `now`, in microseconds; `data` are the entries of the dict. -/
def verifyTelegramWidget (data : List Field) : Except Raised (Option ℤ) :=
  if cfg.botToken.isEmpty then .ok none
  else
    match data.lookup hashKey with
    | none | some [] => .ok none
    | some incoming =>
      match compareDigest (m.widget cfg.botToken (joined (signedFields data))) incoming with
      | .error e => .error e
      | .ok false => .ok none
      | .ok true =>
        match intOf ((data.lookup authDateKey).getD ['0']) with
        | none => .ok none
        | some authDate =>
          if authFreshness * 1000000 < |(now : ℤ) - authDate * 1000000| then .ok none
          else .ok ((data.lookup idKey).bind intOf)

def payload (userId exp : ℤ) : Text := intText userId ++ '.' :: intText exp

/-- When a cookie expires, in seconds. -/
def expiry (issuedAt : ℕ) : ℤ := (issuedAt / 1000000 : ℕ) + sessionTtl

/-- `issue_session_cookie`. -/
def issueSessionCookie (userId : ℤ) : Except Raised (Text × ℤ) :=
  if cfg.sessionSecret.isEmpty then .error .notConfigured
  else
    let text := payload userId (expiry now)
    .ok (text ++ '.' :: m.session cfg.sessionSecret text, sessionTtl)

/-- `verify_session_cookie`. -/
def verifySessionCookie : Option Text → Except Raised (Option ℤ)
  | none | some [] => .ok none
  | some value =>
    match value.splitOn '.' with
    | [userIdS, expS, sig] =>
      match intOf userIdS, intOf expS with
      | some userId, some exp =>
        if exp * 1000000 < (now : ℤ) then .ok none
        else if cfg.sessionSecret.isEmpty then .error .notConfigured
        else
          match compareDigest (m.session cfg.sessionSecret (payload userId exp)) sig with
          | .error e => .error e
          | .ok same => .ok (if same then some userId else none)
      | _, _ => .ok none
    | _ => .ok none

/-- `require_owner_session`: the user it lets in, none where it answers 401. -/
def requireOwnerSession (adminHdr cookie : Option Text) : Except Raised (Option ℤ) :=
  let byKey : Except Raised Bool :=
    match adminHdr with
    | none | some [] => .ok false
    | some key => compareDigest key cfg.adminKey
  match byKey with
  | .error e => .error e
  | .ok true => .ok (some 0)
  | .ok false =>
    match verifySessionCookie m cfg now cookie with
    | .error e => .error e
    | .ok uid => .ok (uid.filter fun uid => uid == cfg.ownerTelegramId)

end Verify

/-! ### Logins, cookies and time -/

/-- A login that Telegram has signed: its fields are lines, whatever names the user has given himself. -/
structure Login where
  fields : List Field
  lines : ∀ f ∈ fields, OneLine f
  nonempty : fields ≠ []

structure Issued where
  userId : ℤ
  issuedAt : ℕ

def Issued.payload (c : Issued) : Text := OwnerSession.payload c.userId (expiry c.issuedAt)

/-- The request's cookie holds what was issued: the user, the expiry and the HMAC of the two. -/
def Issued.CarriedBy (m : Macs) (cfg : Settings) (c : Issued) (cookie : Option Text) : Prop :=
  ∃ value userIdS expS, cookie = some value ∧
    value.splitOn '.' = [userIdS, expS, m.session cfg.sessionSecret c.payload] ∧
    intOf userIdS = some c.userId ∧ intOf expS = some (expiry c.issuedAt)

structure Sys where
  now : ℕ
  logins : List Login := []
  cookies : List Issued := []

inductive Act where
  | tick (now : ℕ)
  | telegram (l : Login)
  | tgLogin (data : List Field)
  | askLogin (data : List Field)

section Step

variable (m : Macs) (cfg : Settings)

def Sys.issue (s : Sys) (userId : ℤ) : Sys :=
  match issueSessionCookie m cfg s.now userId with
  | .ok _ => { s with cookies := ⟨userId, s.now⟩ :: s.cookies }
  | .error _ => s

/-- Time passes, Telegram signs a login, and the two login routes are called with any fields. -/
def step (s : Sys) : Act → Option Sys
  | .tick now => if s.now ≤ now then some { s with now := now } else none
  | .telegram l => some { s with logins := l :: s.logins }
  | .tgLogin data =>
    match verifyTelegramWidget m cfg s.now data with
    | .ok (some uid) => if uid = cfg.ownerTelegramId then some (s.issue m cfg uid) else some s
    | _ => some s
  | .askLogin data =>
    match verifyTelegramWidget m cfg s.now data with
    | .ok (some uid) => some (s.issue m cfg uid)
    | _ => some s

/-- The hash that the fields carry is that of no text but one Telegram has signed. -/
def WidgetUnforged (s : Sys) (data : List Field) : Prop :=
  ∀ sig ∈ data.lookup hashKey, ∀ text, m.widget cfg.botToken text = sig →
    ∃ l ∈ s.logins, joined l.fields = text

/-- What the cookie carries is the HMAC of no text but one that was issued. -/
def SessionUnforged (s : Sys) (cookie : Option Text) : Prop :=
  ∀ value ∈ cookie, ∀ sig ∈ value.splitOn '.', ∀ text, m.session cfg.sessionSecret text = sig →
    ∃ c ∈ s.cookies, c.payload = text

def Unforged (s : Sys) : Act → Prop
  | .tgLogin data | .askLogin data => WidgetUnforged m cfg s data
  | _ => True

end Step

/-- The login names the user, and is of the day before or after the time. -/
def Login.SignsIn (l : Login) (userId : ℤ) (now : ℕ) : Prop :=
  ∃ idText dateText authDate, (idKey, idText) ∈ l.fields ∧ intOf idText = some userId ∧
    (authDateKey, dateText) ∈ l.fields ∧ intOf dateText = some authDate ∧
    |(now : ℤ) - authDate * 1000000| ≤ authFreshness * 1000000

variable {m : Macs} {cfg : Settings} {s t : Sys}

theorem compareDigest_true {a b : Text} (h : compareDigest a b = .ok true) : a = b := by
  rw [compareDigest] at h
  split_ifs at h
  exact eq_of_beq (Except.ok.inj h)

/-- A field that reads as a number is one that Telegram signed. -/
theorem field_of_lookup {data : List Field} {l : Login} (h : joined l.fields = joined (signedFields data))
    {k v : Text} (hlookup : data.lookup k = some v) (hhash : k ≠ hashKey) (hk : '=' ∉ k) (hk' : '\n' ∉ k)
    {n : ℤ} (hv : intOf v = some n) : (k, v) ∈ l.fields := by
  have hmem : (k, v) ∈ data := by
    obtain ⟨before, after, hdata, -⟩ := List.lookup_eq_some_iff.mp hlookup
    simp [hdata]
  have hne : v ≠ [] := by
    rintro rfl
    cases hv
  have hsigned : (k, v) ∈ signedFields data := by
    refine (List.mem_insertionSort _).mpr (List.mem_filter.mpr ⟨hmem, ?_⟩)
    simpa [hhash] using hne
  exact field_of_joined l.lines l.nonempty h.symm hsigned hk hk' (equals_notMem hv)

/-- **A login that is accepted was signed by Telegram**, for the same user and the same time. -/
theorem signed_of_verifyTelegramWidget {now : ℕ} {data : List Field} {uid : ℤ}
    (hnow : authFreshness * 1000000 < now) (hunforged : WidgetUnforged m cfg s data)
    (h : verifyTelegramWidget m cfg now data = .ok (some uid)) : ∃ l ∈ s.logins, l.SignsIn uid now := by
  rw [verifyTelegramWidget] at h
  split_ifs at h
  · cases Except.ok.inj h
  split at h
  · cases Except.ok.inj h
  · cases Except.ok.inj h
  · rename_i incoming _ hhash
    split at h
    · cases h
    · cases Except.ok.inj h
    · rename_i hsame
      obtain ⟨l, hl, hfields⟩ := hunforged incoming hhash _ (compareDigest_true hsame)
      split at h
      · cases Except.ok.inj h
      · rename_i authDate hdate
        split_ifs at h with hold
        · cases Except.ok.inj h
        have hfresh := not_lt.mp hold
        obtain ⟨idText, hid, huid⟩ := Option.bind_eq_some_iff.mp (Except.ok.inj h)
        obtain ⟨dateText, hdateText⟩ : ∃ dateText, data.lookup authDateKey = some dateText := by
          -- without a date the login would be of 1970
          refine Option.ne_none_iff_exists'.mp fun hnone => ?_
          rw [hnone] at hdate
          obtain rfl : 0 = authDate := Option.some.inj hdate
          rw [zero_mul, sub_zero, abs_of_nonneg (Int.natCast_nonneg now)] at hfresh
          omega
        rw [hdateText] at hdate
        refine ⟨l, hl, idText, dateText, authDate, ?_, huid, ?_, hdate, hfresh⟩
        · exact field_of_lookup hfields hid (by decide) (by decide) (by decide) huid
        · exact field_of_lookup hfields hdateText (by decide) (by decide) (by decide) hdate

theorem payload_injective {userId userId' exp exp' : ℤ} (h : payload userId exp = payload userId' exp') :
    userId = userId' ∧ exp = exp' := by
  obtain ⟨huser, hexp⟩ := append_sep_inj (point_notMem_intText _) (point_notMem_intText _) h
  exact ⟨intText_injective huser, intText_injective hexp⟩

/-- **A cookie that is accepted was issued**, to the same user and less than the time of a session ago. -/
theorem issued_of_verifySessionCookie {now : ℕ} {cookie : Option Text} {uid : ℤ}
    (hunforged : SessionUnforged m cfg s cookie) (h : verifySessionCookie m cfg now cookie = .ok (some uid)) :
    ∃ c ∈ s.cookies, c.CarriedBy m cfg cookie ∧ c.userId = uid ∧ (now : ℤ) ≤ expiry c.issuedAt * 1000000 := by
  unfold verifySessionCookie at h
  split at h
  · cases Except.ok.inj h
  · cases Except.ok.inj h
  · rename_i value _
    split at h
    · rename_i userIdS expS sig hparts
      split at h
      · rename_i userId exp huser hexp
        split_ifs at h with hlate hsecret
        · cases Except.ok.inj h
        · split at h
          · cases h
          · rename_i same hsame
            obtain ⟨rfl, rfl⟩ : same = true ∧ userId = uid := by simpa using Except.ok.inj h
            have hsig := compareDigest_true hsame
            obtain ⟨c, hc, hpayload⟩ := hunforged value rfl sig (by simp [hparts]) _ hsig
            obtain ⟨hid, hexpiry⟩ := payload_injective hpayload
            refine ⟨c, hc, ⟨value, userIdS, expS, rfl, ?_, ?_, ?_⟩, hid, hexpiry ▸ not_lt.mp hlate⟩
            · rw [hpayload, hsig, hparts]
            · rw [hid, huser]
            · rw [hexpiry, hexp]
      · cases Except.ok.inj h
    · cases Except.ok.inj h

/-- What `hexdigest` writes: ASCII, and no point. -/
structure HexTags (mac : Text → Text) : Prop where
  ascii : ∀ text, ∀ c ∈ mac text, c.toNat < 128
  point : ∀ text, '.' ∉ mac text

theorem compareDigest_self {a : Text} (h : ∀ c ∈ a, c.toNat < 128) : compareDigest a a = .ok true := by
  rw [compareDigest, if_pos]
  · simp
  · simpa using h

/-- **A cookie names its user until it expires, and nobody after.** -/
theorem verify_issued {issuedAt now : ℕ} {userId ttl : ℤ} {cookie : Text}
    (hmac : HexTags (m.session cfg.sessionSecret))
    (huser : (Nat.toDigits 10 userId.natAbs).length ≤ JsonLoad.maxIntDigits)
    (hexp : (Nat.toDigits 10 (expiry issuedAt).natAbs).length ≤ JsonLoad.maxIntDigits)
    (h : issueSessionCookie m cfg issuedAt userId = .ok (cookie, ttl)) :
    verifySessionCookie m cfg now (some cookie) =
      .ok (if (now : ℤ) ≤ expiry issuedAt * 1000000 then some userId else none) := by
  rw [issueSessionCookie] at h
  split_ifs at h with hsecret
  obtain ⟨rfl, -⟩ := Prod.mk.inj (Except.ok.inj h)
  obtain ⟨sig, hsig⟩ : ∃ sig, sig = m.session cfg.sessionSecret (payload userId (expiry issuedAt)) := ⟨_, rfl⟩
  have hsplit : (payload userId (expiry issuedAt) ++ '.' :: sig).splitOn '.' =
      [intText userId, intText (expiry issuedAt), sig] := by
    rw [payload, List.append_assoc, List.cons_append,
      List.splitOn_append_cons_self_of_not_mem (point_notMem_intText _),
      List.splitOn_append_cons_self_of_not_mem (point_notMem_intText _),
      List.splitOn_eq_singleton (hsig ▸ hmac.point _)]
  obtain ⟨c, t, hct⟩ : ∃ c t, payload userId (expiry issuedAt) ++ '.' :: sig = c :: t := by
    refine List.exists_cons_of_ne_nil ?_
    simp
  rw [← hsig]
  unfold verifySessionCookie
  rw [hct] at hsplit ⊢
  simp only [hsplit, intOf_intText huser, intOf_intText hexp, if_neg hsecret]
  by_cases hlate : expiry issuedAt * 1000000 < (now : ℤ)
  · rw [if_pos hlate, if_neg (not_le.mpr hlate)]
  · rw [if_neg hlate, if_pos (not_lt.mp hlate), ← hsig, compareDigest_self (hsig ▸ hmac.ascii _)]
    rfl

/-- **A cookie lets in the owner until it expires**, and no other user at any time. -/
theorem cookie_lets_in {issuedAt now : ℕ} {userId ttl : ℤ} {cookie : Text}
    (hmac : HexTags (m.session cfg.sessionSecret))
    (huser : (Nat.toDigits 10 userId.natAbs).length ≤ JsonLoad.maxIntDigits)
    (hexp : (Nat.toDigits 10 (expiry issuedAt).natAbs).length ≤ JsonLoad.maxIntDigits)
    (h : issueSessionCookie m cfg issuedAt userId = .ok (cookie, ttl)) :
    requireOwnerSession m cfg now none (some cookie) =
      .ok (if userId = cfg.ownerTelegramId ∧ (now : ℤ) ≤ expiry issuedAt * 1000000 then some userId
        else none) := by
  simp only [requireOwnerSession, verify_issued hmac huser hexp h]
  by_cases hlate : (now : ℤ) ≤ expiry issuedAt * 1000000
  · by_cases howner : userId = cfg.ownerTelegramId
    · rw [if_pos hlate, if_pos ⟨howner, hlate⟩, Option.filter_some, if_pos (beq_iff_eq.mpr howner)]
    · rw [if_pos hlate, if_neg (fun hboth => howner hboth.1), Option.filter_some,
        if_neg (fun heq => howner (eq_of_beq heq))]
  · rw [if_neg hlate, if_neg (fun hboth => hlate hboth.2), Option.filter_none]

/-! A user 42 who owns the broker and signs in on the third day of the clock. -/

def ownerLogin : Login where
  fields := [(authDateKey, ['1', '7', '2', '8', '0', '0']), (idKey, ['4', '2'])]
  lines := by
    intro f hf
    rcases List.mem_pair.mp hf with rfl | rfl
    · exact ⟨by decide, by decide, by decide⟩
    · exact ⟨by decide, by decide, by decide⟩
  nonempty := by decide

/-- What `hexdigest` gives for the login under the bot token `t`. -/
def loginHash : Text := "b80b8baca4185e2d3a28b9a6b3bfd41a41c7359559f6a7b1be7b6633826df74e".toList

/-- What it gives for the cookie under the secret `s`. -/
def cookieSig : Text := "8328a368ff4d1003c24dffc79be25208e56a0d84e92eb9628074119f14b85ca6".toList

/-- The tags of the two texts that get signed. -/
def fewMacs : Macs where
  widget _ text := if text == joined ownerLogin.fields then loginHash else []
  session _ text := if text == payload 42 2764800 then cookieSig else []

def ownedBy42 : Settings where
  botToken := ['t']
  ownerTelegramId := 42
  adminKey := ['k']
  sessionSecret := ['s']

def cookieOf42 : Text := payload 42 2764800 ++ '.' :: cookieSig

theorem cookie_lets_in_42 :
    requireOwnerSession fewMacs ownedBy42 172800000001 none (some cookieOf42) = .ok (some 42) := by
  have hascii : ∀ c ∈ cookieSig, c.toNat < 128 := fun c hc =>
    of_decide_eq_true (List.all_eq_true.mp (by decide +kernel : cookieSig.all (·.toNat < 128) = true) c hc)
  have hpoint : '.' ∉ cookieSig := by decide +kernel
  have hmac : HexTags (fewMacs.session ownedBy42.sessionSecret) := by
    refine ⟨fun text => ?_, fun text => ?_⟩
    · simp only [fewMacs]
      split_ifs
      · exact hascii
      · simp
    · simp only [fewMacs]
      split_ifs
      · exact hpoint
      · simp
  have hissue : issueSessionCookie fewMacs ownedBy42 172800000000 42 = .ok (cookieOf42, sessionTtl) := rfl
  exact cookie_lets_in hmac (by decide) (by decide) hissue

/-- Every cookie issued so far goes back to a login that Telegram had signed. -/
structure Backed (s : Sys) : Prop where
  now : authFreshness * 1000000 < s.now
  cookies : ∀ c ∈ s.cookies, c.issuedAt ≤ s.now ∧ ∃ l ∈ s.logins, l.SignsIn c.userId c.issuedAt

theorem Backed.issue (hs : Backed s) {userId : ℤ} (h : ∃ l ∈ s.logins, l.SignsIn userId s.now) :
    Backed (s.issue m cfg userId) := by
  rw [Sys.issue]
  split
  · refine ⟨hs.now, fun c hc => ?_⟩
    rcases List.mem_cons.mp hc with rfl | hc
    · exact ⟨le_rfl, h⟩
    · exact hs.cookies c hc
  · exact hs

theorem backed_step {a : Act} (hs : Backed s) (hc : Unforged m cfg s a) (h : step m cfg s a = some t) :
    Backed t := by
  cases a with
  | tick now =>
    simp only [step] at h
    split_ifs at h with hle
    obtain rfl := Option.some.inj h
    have hnow := hs.now
    refine ⟨by simp only; omega, fun c hc => ?_⟩
    exact ⟨(hs.cookies c hc).1.trans hle, (hs.cookies c hc).2⟩
  | telegram l =>
    obtain rfl := Option.some.inj h
    refine ⟨hs.now, fun c hc => ?_⟩
    obtain ⟨hle, l', hl', hsigns⟩ := hs.cookies c hc
    exact ⟨hle, l', List.mem_cons_of_mem l hl', hsigns⟩
  | tgLogin data =>
    simp only [step] at h
    split at h
    · rename_i uid hverify
      split_ifs at h
      · exact Option.some.inj h ▸ hs.issue (signed_of_verifyTelegramWidget hs.now hc hverify)
      · exact Option.some.inj h ▸ hs
    · exact Option.some.inj h ▸ hs
  | askLogin data =>
    simp only [step] at h
    split at h
    · rename_i uid hverify
      exact Option.some.inj h ▸ hs.issue (signed_of_verifyTelegramWidget hs.now hc hverify)
    · exact Option.some.inj h ▸ hs

/-- **Whoever is let in as the owner was signed in by Telegram as the owner.**  Whatever fields and cookies
are sent to the two login routes, a request that passes as the owner without the admin key carries a
cookie issued at most thirty days ago, for a login that names the owner and was at most a day old. -/
theorem owner_signed_in {start : ℕ} (hstart : authFreshness * 1000000 < start) {as : List Act}
    (h : Steps (step m cfg) (Unforged m cfg) ⟨start, [], []⟩ as s) {adminHdr cookie : Option Text} {uid : ℤ}
    (hcookie : SessionUnforged m cfg s cookie)
    (hok : requireOwnerSession m cfg s.now adminHdr cookie = .ok (some uid)) :
    (adminHdr = some cfg.adminKey ∧ uid = 0) ∨
    uid = cfg.ownerTelegramId ∧ ∃ c ∈ s.cookies, c.CarriedBy m cfg cookie ∧ c.userId = uid ∧
      c.issuedAt ≤ s.now ∧ (s.now : ℤ) ≤ c.issuedAt + sessionTtl * 1000000 ∧
      ∃ l ∈ s.logins, l.SignsIn uid c.issuedAt := by
  have hbacked : Backed s :=
    h.inv (fun _ _ _ hi hc hstep => backed_step hi hc hstep) ⟨hstart, fun c hc => (List.not_mem_nil hc).elim⟩
  simp only [requireOwnerSession] at hok
  split at hok
  · cases hok
  · -- the admin key
    rename_i hkey
    split at hkey
    · cases Except.ok.inj hkey
    · cases Except.ok.inj hkey
    · obtain rfl := compareDigest_true hkey
      exact .inl ⟨rfl, (Option.some.inj (Except.ok.inj hok)).symm⟩
  · split at hok
    · cases hok
    · rename_i found hfound
      obtain ⟨rfl, howner⟩ := Option.filter_eq_some_iff.mp (Except.ok.inj hok)
      obtain ⟨c, hc, hcarried, rfl, hlate⟩ := issued_of_verifySessionCookie hcookie hfound
      obtain ⟨hissued, hlogin⟩ := hbacked.cookies c hc
      refine .inr ⟨eq_of_beq howner, c, hc, hcarried, rfl, hissued, hlate.trans ?_, hlogin⟩
      have hdiv : (c.issuedAt / 1000000 : ℕ) * (1000000 : ℤ) ≤ c.issuedAt := by
        exact_mod_cast Nat.div_mul_le_self c.issuedAt 1000000
      simp only [expiry, add_mul]
      omega

theorem owner_signed_in_42 : ∃ c : Issued, c.CarriedBy fewMacs ownedBy42 (some cookieOf42) ∧
    c.issuedAt ≤ 259200000000 ∧ ownerLogin.SignsIn 42 c.issuedAt := by
  have hforged : ∀ text sig, sig ≠ [] → fewMacs.widget ['t'] text = sig →
    joined ownerLogin.fields = text := by
    intro text sig hsig hmac
    simp only [fewMacs] at hmac
    split_ifs at hmac with htext
    · exact (eq_of_beq htext).symm
    · exact absurd hmac.symm hsig
  have hrun : Steps (step fewMacs ownedBy42) (Unforged fewMacs ownedBy42) ⟨172800000000, [], []⟩
      [.telegram ownerLogin, .tgLogin (ownerLogin.fields ++ [(hashKey, loginHash)]), .tick 259200000000]
      ⟨259200000000, [ownerLogin], [⟨42, 172800000000⟩]⟩ := by
    refine (((Steps.nil _).snoc trivial rfl).snoc (fun sig hsig text hmac => ?_) rfl).snoc trivial rfl
    obtain rfl : loginHash = sig := Option.some.inj hsig
    exact ⟨ownerLogin, List.mem_singleton_self _, hforged text _ (by decide +kernel) hmac⟩
  have hcookie : SessionUnforged fewMacs ownedBy42 ⟨259200000000, [ownerLogin], [⟨42, 172800000000⟩]⟩
      (some cookieOf42) := by
    intro value hvalue sig hsig text hmac
    obtain rfl := Option.some.inj hvalue
    have hparts : [] ∉ cookieOf42.splitOn '.' := by decide +kernel
    refine ⟨⟨42, 172800000000⟩, List.mem_singleton_self _, ?_⟩
    simp only [fewMacs] at hmac
    split_ifs at hmac with htext
    · exact (eq_of_beq htext).symm
    · rw [← hmac] at hsig
      exact absurd hsig hparts
  have hok : requireOwnerSession fewMacs ownedBy42 259200000000 none (some cookieOf42) = .ok (some 42) := rfl
  rcases owner_signed_in (by decide) hrun hcookie hok with
    ⟨hkey, -⟩ | ⟨-, c, -, hcarried, -, hle, -, l, hl, hsigns⟩
  · cases hkey
  · obtain rfl := List.mem_singleton.mp hl
    exact ⟨c, hcarried, hle, hsigns⟩

end OwnerSession

end Broker.Routes
