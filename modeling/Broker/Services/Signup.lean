import Broker.Db.Models
import Broker.Lib.Population
import Broker.Lib.Trans
import Broker.Routing.Admission
import Mathlib.Data.List.DropRight

/-!
# Broker.Services.Signup — self-signup with any number of requests at once

A signup turns the requested name into a slug, counts the signups of the last day, and inserts its
project under the first free name it tries.  The counts and the insert are not serialised: what the
limits are worth then is `signups_within`, and what the projects are that it creates is `signed_up_rows`.
-/

namespace Broker.Services

open Broker.Lib Broker.Db Broker.Routing

namespace Signup

/-! ### Names -/

def isLetter (c : Char) : Bool := decide ('a' ≤ c) && decide (c ≤ 'z')

/-- A character of a project name. -/
def isSlugChar (c : Char) : Bool := isLetter c ||
    (decide ('0' ≤ c) && decide (c ≤ '9')) || c == '_' || c == '-'

def isDash (c : Char) : Bool := c == '-' || c == '_'

/-- `re.sub(r"[^a-z0-9_-]+", "-", text)`; `inRun` says that the last character was replaced. -/
def dashRuns : Bool → List Char → List Char
  | _, [] => []
  | inRun, c :: cs =>
    if isSlugChar c then c :: dashRuns false cs
    else if inRun then dashRuns true cs
    else '-' :: dashRuns true cs

/-- `text.rstrip("-_")`. -/
def rstrip (text : List Char) : List Char := text.rdropWhile isDash

/-- `_MAX_SLUG`. -/
def maxSlug : ℕ := 60

/-- `_NAME_RETRIES`. -/
def nameRetries : ℕ := 5

/-- `slugify_name`; `lower` is what `strip` and `lower` make of the text. -/
def slugifyName (lower : List Char → List Char) (raw : List Char) : Option (List Char) :=
  let text := rstrip ((dashRuns false (lower raw)).dropWhile isDash)
  let slug := rstrip ((text.dropWhile fun c => !isLetter c).take maxSlug)
  if slug.length < 2 then none else some slug

/-- The name that `_insert_unique` tries after a clash. -/
def suffixed (slug hex : List Char) : List Char := slug.take (maxSlug - 5) ++ '-' :: hex

/-- What the admin API asks of a project's name, `^[a-z][a-z0-9_-]*$` of 2 characters or more, and at
most 60. -/
structure NameShape (name : List Char) : Prop where
  head : ∃ c cs, name = c :: cs ∧ isLetter c = true
  chars : ∀ c ∈ name, isSlugChar c = true
  two : 2 ≤ name.length
  sixty : name.length ≤ maxSlug

theorem isSlugChar_of_mem_dashRuns {inRun : Bool} {text : List Char} :
    ∀ c ∈ dashRuns inRun text, isSlugChar c = true := by
  fun_induction dashRuns inRun text with
  | case1 => simp
  | case2 inRun c cs hc ih =>
    intro d hd
    rcases List.mem_cons.mp hd with rfl | hd
    · exact hc
    · exact ih d hd
  | case3 c cs hc ih => exact ih
  | case4 inRun c cs hc hrun ih =>
    intro d hd
    rcases List.mem_cons.mp hd with rfl | hd
    · decide
    · exact ih d hd

theorem mem_of_mem_rstrip {text : List Char} {c : Char} (h : c ∈ rstrip text) : c ∈ text :=
  (List.rdropWhile_prefix isDash text).mem h

/-- **A slug is a project name.** -/
theorem slugifyName_shape {lower : List Char → List Char} {raw slug : List Char}
    (h : slugifyName lower raw = some slug) : NameShape slug := by
  rw [slugifyName] at h
  set text := rstrip ((dashRuns false (lower raw)).dropWhile isDash) with htext
  set tail := text.dropWhile fun c => !isLetter c with htail
  split_ifs at h with hshort
  obtain rfl := Option.some.inj h
  have hmem : ∀ c ∈ rstrip (tail.take maxSlug), c ∈ tail := fun c hc =>
    (List.take_prefix _ _).mem (mem_of_mem_rstrip hc)
  refine ⟨?_, fun c hc => ?_, not_lt.mp hshort, ?_⟩
  · obtain ⟨c, cs, hcs⟩ := List.exists_cons_of_ne_nil
      (fun hnil => hshort (by rw [hnil]; decide) : rstrip (tail.take maxSlug) ≠ [])
    refine ⟨c, cs, hcs, ?_⟩
    -- the first character is the first of the tail, which starts at a letter
    obtain ⟨rest, hrest⟩ := (List.rdropWhile_prefix isDash (tail.take maxSlug)).trans (List.take_prefix _ _)
    rw [← rstrip, hcs] at hrest
    have hne : tail ≠ [] := by
      rw [← hrest]
      exact List.cons_ne_nil _ _
    have hhead := List.head_dropWhile_not (fun c => !isLetter c) (htail ▸ hne)
    have hc : tail.head hne = c := by
      simp only [← hrest, List.cons_append, List.head_cons]
    simp only [← htail, hc] at hhead
    simpa using hhead
  · have hin : c ∈ dashRuns false (lower raw) := by
      have htext' : c ∈ text := (List.dropWhile_suffix _).mem (hmem c hc)
      exact (List.dropWhile_suffix _).mem (mem_of_mem_rstrip htext')
    exact isSlugChar_of_mem_dashRuns c hin
  · exact ((List.rdropWhile_prefix isDash _).length_le).trans (List.length_take_le _ _)

def isHex (hex : List Char) : Prop :=
  hex.length = 4 ∧ ∀ c ∈ hex, c.isDigit = true ∨ (decide ('a' ≤ c) && decide (c ≤ 'f')) = true

theorem suffixed_shape {slug hex : List Char} (hslug : NameShape slug) (hhex : isHex hex) :
    NameShape (suffixed slug hex) := by
  obtain ⟨c, cs, rfl, hc⟩ := hslug.head
  have hlen : ((c :: cs).take (maxSlug - 5)).length ≤ maxSlug - 5 := List.length_take_le _ _
  have hhexLen := hhex.1
  refine ⟨⟨c, cs.take 54 ++ '-' :: hex, rfl, hc⟩, fun d hd => ?_, ?_, ?_⟩
  · rcases List.mem_append.mp hd with hd | hd
    · exact hslug.chars d ((List.take_prefix _ _).mem hd)
    · rcases List.mem_cons.mp hd with rfl | hd
      · decide
      · rcases hhex.2 d hd with hdigit | hletter
        · simp only [Char.isDigit, Bool.and_eq_true, decide_eq_true_eq] at hdigit
          simp only [isSlugChar, Bool.or_eq_true, Bool.and_eq_true, decide_eq_true_eq]
          exact .inl (.inl (.inr hdigit))
        · simp only [Bool.and_eq_true, decide_eq_true_eq] at hletter
          simp only [isSlugChar, isLetter, Bool.or_eq_true, Bool.and_eq_true, decide_eq_true_eq]
          exact .inl (.inl (.inl ⟨hletter.1, Char.le_trans hletter.2 (by decide : 'f' ≤ 'z')⟩))
  · simp only [suffixed, List.length_append, List.length_cons]
    omega
  · simp only [suffixed, List.length_append, List.length_cons]
    simp only [maxSlug] at hlen ⊢
    omega

/-- `secrets.token_hex(2)`. -/
def tokenHex (token : ℕ) : List Char :=
  [12, 8, 4, 0].map fun shift => Nat.digitChar (token >>> shift % 16)

theorem isHex_tokenHex (token : ℕ) : isHex (tokenHex token) := by
  have hdigit : ∀ n, n < 16 → (Nat.digitChar n).isDigit = true ∨
      (decide ('a' ≤ Nat.digitChar n) && decide (Nat.digitChar n ≤ 'f')) = true := by decide
  refine ⟨rfl, fun c hc => ?_⟩
  obtain ⟨shift, -, rfl⟩ := List.mem_map.mp hc
  exact hdigit _ (Nat.mod_lt _ (by decide))

/-! ### Any number of signups -/

structure Settings where
  enabled : Bool
  perIpPerDay : ℕ
  perDay : ℕ
  requestCap : ℤ

structure ProjectRow where
  name : List Char
  selfSignup : Bool
  signupIp : Option (List Char)
  createdAt : Time
  dailyCostCap : Option ℚ
  monthlyCostCap : Option ℚ := none
  totalRequestCap : Option ℤ
  totalRequestsUsed : ℤ := 0

/-- Where a signup is: before its two counts, between them, at its insert, or answered. -/
inductive Phase where
  | counting (since : Time)
  | totalled (since : Time) (total : ℕ)
  | inserting (name : List Char) (left : ℕ)
  | done (name : List Char)
  | limited
  | noName
  | failed

structure Call where
  slug : List Char
  ip : List Char
  phase : Phase

/-- The signup has counted and is not answered yet. -/
def Call.isOpen (c : Call) : Bool :=
  match c.phase with
  | .totalled _ _ | .inserting _ _ => true
  | _ => false

structure Sys where
  rows : List ProjectRow
  calls : List Call := []
  now : Time

/-- The signups that a limit is about: all, or those of one address. -/
inductive Scope where
  | all
  | from (ip : List Char)

def Scope.covers : Scope → ProjectRow → Bool
  | .all, _ => true
  | .from ip, r => r.signupIp == some ip

def Settings.limit (cfg : Settings) : Scope → ℕ
  | .all => cfg.perDay
  | .from _ => cfg.perIpPerDay

/-- The count of `_check_limits`. -/
def countRows (since : Time) (scope : Scope) (rows : List ProjectRow) : ℕ :=
  rows.countP fun r => r.selfSignup && decide (since ≤ r.createdAt) && scope.covers r

def day : Time := seconds 86400

inductive Act where
  | request (raw ip : List Char)
  | countTotal (i : ℕ)
  | countIp (i : ℕ)
  | insert (i token : ℕ)
  | fail (i : ℕ)
  | adminInsert (row : ProjectRow)
  | remove (name : List Char)
  | tick (now : Time)

section Step

variable (cfg : Settings) (lower : List Char → List Char)

/-- `make_row`. -/
def makeRow (c : Call) (name : List Char) (now : Time) : ProjectRow where
  name := name
  selfSignup := true
  signupIp := if c.ip = [] then none else some c.ip
  createdAt := now
  dailyCostCap := some 0
  totalRequestCap := some cfg.requestCap

/-- One statement of a signup, or a write of somebody else. -/
def step (s : Sys) : Act → Option Sys
  | .request raw ip =>
    match slugifyName lower raw with
    | none => some s
    | some slug =>
      if cfg.enabled then some { s with calls := s.calls ++ [⟨slug, ip, .counting (s.now - day)⟩] }
      else some s
  | .countTotal i =>
    match s.calls[i]? with
    | some ⟨slug, ip, .counting since⟩ =>
      some { s with calls := s.calls.set i ⟨slug, ip, .totalled since (countRows since .all s.rows)⟩ }
    | _ => none
  | .countIp i =>
    match s.calls[i]? with
    | some ⟨slug, ip, .totalled since total⟩ =>
      if cfg.perDay ≤ total ∨ (ip ≠ [] ∧ cfg.perIpPerDay ≤ countRows since (.from ip) s.rows) then
        some { s with calls := s.calls.set i ⟨slug, ip, .limited⟩ }
      else some { s with calls := s.calls.set i ⟨slug, ip, .inserting slug nameRetries⟩ }
    | _ => none
  | .insert i token =>
    match s.calls[i]? with
    | some ⟨slug, ip, .inserting name left⟩ =>
      if (s.rows.map ProjectRow.name).contains name then
        if left ≤ 1 then some { s with calls := s.calls.set i ⟨slug, ip, .noName⟩ }
        else
          some { s with
            calls := s.calls.set i ⟨slug, ip, .inserting (suffixed slug (tokenHex token)) (left - 1)⟩ }
      else
        some { s with
          rows := s.rows ++ [makeRow cfg ⟨slug, ip, .done name⟩ name s.now]
          calls := s.calls.set i ⟨slug, ip, .done name⟩ }
    | _ => none
  | .fail i =>
    match s.calls[i]? with
    | some c => some { s with calls := s.calls.set i { c with phase := .failed } }
    | none => none
  | .adminInsert row =>
    if row.selfSignup = false ∧ (s.rows.map ProjectRow.name).contains row.name = false then
      some { s with rows := s.rows ++ [row] }
    else none
  | .remove name => some { s with rows := s.rows.filter fun r => decide (r.name ≠ name) }
  | .tick now => if s.now ≤ now then some { s with now := now } else none

end Step

/-! ### What the limits are worth -/

/-- At most `slots` signups are past their first count at once. -/
def Slots (slots : ℕ) (s : Sys) : Act → Prop
  | .countTotal _ => s.calls.countP Call.isOpen < slots
  | _ => True

/-- The signup has passed the count of the limit and may still insert. -/
def Settings.waits (cfg : Settings) : Scope → Call → Bool
  | .all, ⟨_, _, .totalled _ total⟩ => decide (total < cfg.perDay)
  | .all, ⟨_, _, .inserting _ _⟩ => true
  | .from ip, ⟨_, ip', .inserting _ _⟩ => ip' == ip
  | _, _ => false

instance (slots : ℕ) : ∀ s a, Decidable (Slots slots s a)
  | s, .countTotal _ => inferInstanceAs (Decidable (s.calls.countP Call.isOpen < slots))
  | _, .request _ _ | _, .countIp _ | _, .insert _ _ | _, .fail _ | _, .adminInsert _ | _, .remove _
  | _, .tick _ => isTrue trivial

theorem isOpen_of_waits {cfg : Settings} {scope : Scope} {c : Call} (h : cfg.waits scope c = true) :
    c.isOpen = true := by
  obtain ⟨slug, ip, phase⟩ := c
  cases scope <;> cases phase <;> first | rfl | cases h

/-- The rows of the last day and the signups that may still add one are less than the limit and the slots. -/
structure Kept (cfg : Settings) (slots : ℕ) (scope : Scope) (s : Sys) : Prop where
  sum : countRows (s.now - day) scope s.rows + s.calls.countP (cfg.waits scope) < cfg.limit scope + slots
  slots : s.calls.countP Call.isOpen ≤ slots
  since : ∀ c ∈ s.calls, ∀ since, c.phase = .counting since ∨ (∃ total, c.phase = .totalled since total) →
    since ≤ s.now - day

theorem countRows_anti {since since' : Time} (h : since ≤ since') (scope : Scope) (rows : List ProjectRow) :
    countRows since' scope rows ≤ countRows since scope rows := by
  refine List.countP_mono_left fun r _ hr => ?_
  simp only [Bool.and_eq_true, decide_eq_true_eq] at hr ⊢
  exact ⟨⟨hr.1.1, h.trans hr.1.2⟩, hr.2⟩

section Kept

variable {cfg : Settings} {slots : ℕ} {scope : Scope} {s : Sys}

/-- One signup moves on, and the rows with it. -/
theorem Kept.move (hs : Kept cfg slots scope s) {i : ℕ} {c c' : Call} {rows : List ProjectRow}
    (hc : s.calls[i]? = some c)
    (hsum : countRows (s.now - day) scope rows + (s.calls.set i c').countP (cfg.waits scope) <
      cfg.limit scope + slots)
    (hopen : (s.calls.set i c').countP Call.isOpen ≤ slots)
    (hsince : ∀ since, c'.phase = .counting since ∨ (∃ total, c'.phase = .totalled since total) →
      ∃ total, c.phase = .counting since ∨ c.phase = .totalled since total) :
    Kept cfg slots scope { s with rows := rows, calls := s.calls.set i c' } := by
  refine ⟨hsum, hopen, fun d hd since hphase => ?_⟩
  rcases List.mem_or_eq_of_mem_set hd with hd | rfl
  · exact hs.since d hd since hphase
  · obtain ⟨total, hc'⟩ := hsince since hphase
    exact hs.since c (List.mem_of_getElem? hc) since (hc'.imp id fun h => ⟨total, h⟩)

/-- A signup that leaves, or that waits no more than before, keeps the bound. -/
theorem Kept.leave (hs : Kept cfg slots scope s) {i : ℕ} {c c' : Call} (hc : s.calls[i]? = some c)
    (hwaits : (cfg.waits scope c').toNat ≤ (cfg.waits scope c).toNat)
    (hopen : c'.isOpen = true → c.isOpen = true)
    (hsince : ∀ since, c'.phase = .counting since ∨ (∃ total, c'.phase = .totalled since total) →
      ∃ total, c.phase = .counting since ∨ c.phase = .totalled since total) :
    Kept cfg slots scope { s with calls := s.calls.set i c' } := by
  have hw := countP_set_add (p := cfg.waits scope) hc c'
  have ho := countP_set_add (p := Call.isOpen) hc c'
  have hle : c'.isOpen.toNat ≤ c.isOpen.toNat := by
    cases hc' : c'.isOpen with
    | false => exact Nat.zero_le _
    | true => rw [hopen hc']
  have hsum := hs.sum
  have hslots := hs.slots
  exact hs.move hc (by omega) (by omega) hsince

theorem kept_step {lower : List Char → List Char} {t : Sys} {a : Act}
    (hscope : ∀ ip, scope = .from ip → ip ≠ [])
    (hs : Kept cfg slots scope s) (hslots : Slots slots s a) (h : step cfg lower s a = some t) :
    Kept cfg slots scope t := by
  have hsum := hs.sum
  have hopen := hs.slots
  cases a with
  | request raw ip =>
    simp only [step] at h
    split at h
    · exact Option.some.inj h ▸ hs
    · rename_i slug hslug
      split_ifs at h
      · obtain rfl := Option.some.inj h
        have hwaits : cfg.waits scope ⟨slug, ip, .counting (s.now - day)⟩ = false := by cases scope <;> rfl
        refine ⟨?_, ?_, fun c hc since hphase => ?_⟩
        · rw [countP_concat, hwaits]
          exact hsum
        · rw [countP_concat]
          exact hopen
        · rcases List.mem_append.mp hc with hc | hc
          · exact hs.since c hc since hphase
          · obtain rfl := List.mem_singleton.mp hc
            rcases hphase with heq | ⟨total, heq⟩
            · exact (Phase.counting.inj heq).ge
            · cases heq
      · exact Option.some.inj h ▸ hs
  | countTotal i =>
    simp only [step] at h
    split at h
    · rename_i slug ip since hi
      obtain rfl := Option.some.inj h
      have hsince : since ≤ s.now - day := hs.since _ (List.mem_of_getElem? hi) since (.inl rfl)
      obtain ⟨c', hc'⟩ : ∃ c' : Call, c' = ⟨slug, ip, .totalled since (countRows since .all s.rows)⟩ :=
        ⟨_, rfl⟩
      rw [← hc']
      have ho := countP_set_add (p := Call.isOpen) hi c'
      have hw := countP_set_add (p := cfg.waits scope) hi c'
      have hmono : (s.calls.set i c').countP (cfg.waits scope) ≤ (s.calls.set i c').countP Call.isOpen :=
        List.countP_mono_left fun _ _ => isOpen_of_waits
      have hfree : s.calls.countP Call.isOpen < slots := hslots
      have hone : c'.isOpen.toNat = 1 := by rw [hc']; rfl
      rw [hone] at ho
      refine hs.move hi ?_ (by omega) fun t ht => ?_
      · by_cases hpass : cfg.waits scope c' = true
        · -- its count is under the limit, and no more than the slots wait
          cases scope with
          | all =>
            have hlt : countRows since .all s.rows < cfg.limit .all := by
              simpa [hc', Settings.waits, Settings.limit] using hpass
            have hanti := countRows_anti hsince .all s.rows
            omega
          | «from» ip' =>
            rw [hc'] at hpass
            cases hpass
        · have hzero : (cfg.waits scope c').toNat = 0 := by simpa using hpass
          omega
      · rw [hc'] at ht
        rcases ht with heq | ⟨total, heq⟩
        · cases heq
        · exact ⟨total, .inl (congrArg Phase.counting (Phase.totalled.inj heq).1)⟩
    · cases h
  | countIp i =>
    simp only [step] at h
    split at h
    · rename_i slug ip since total hi
      have hsince : since ≤ s.now - day := hs.since _ (List.mem_of_getElem? hi) since (.inr ⟨total, rfl⟩)
      split_ifs at h with hlimit
      · obtain rfl := Option.some.inj h
        refine hs.leave hi ?_ (fun hopen => nomatch hopen) fun t ht => ?_
        · cases scope <;> exact Nat.zero_le _
        · rcases ht with heq | ⟨_, heq⟩ <;> cases heq
      · obtain rfl := Option.some.inj h
        push Not at hlimit
        obtain ⟨c', hc'⟩ : ∃ c' : Call, c' = ⟨slug, ip, .inserting slug nameRetries⟩ := ⟨_, rfl⟩
        rw [← hc']
        have ho := countP_set_add (p := Call.isOpen) hi c'
        have hw := countP_set_add (p := cfg.waits scope) hi c'
        have hmono : (s.calls.set i c').countP (cfg.waits scope) ≤ (s.calls.set i c').countP Call.isOpen :=
          List.countP_mono_left fun _ _ => isOpen_of_waits
        have hone : c'.isOpen.toNat = 1 := by rw [hc']; rfl
        have hone' : (Call.mk slug ip (.totalled since total)).isOpen.toNat = 1 := rfl
        rw [hone, hone'] at ho
        refine hs.move hi ?_ (by omega) fun t ht => ?_
        · cases scope with
          | all =>
            have hpassed : cfg.waits .all ⟨slug, ip, .totalled since total⟩ = true := by
              simp [Settings.waits, hlimit.1]
            have hpasses : cfg.waits .all c' = true := by rw [hc']; rfl
            rw [hpassed, hpasses] at hw
            omega
          | «from» ip' =>
            by_cases hip : ip = ip'
            · have hlt : countRows since (.from ip') s.rows < cfg.limit (.from ip') :=
                hip ▸ hlimit.2 (hip ▸ hscope ip' rfl)
              have hanti := countRows_anti hsince (.from ip') s.rows
              omega
            · have hno : cfg.waits (.from ip') c' = false := by simp [hc', Settings.waits, hip]
              have hno' : cfg.waits (.from ip') ⟨slug, ip, .totalled since total⟩ = false := rfl
              rw [hno, hno'] at hw
              omega
        · rw [hc'] at ht
          rcases ht with heq | ⟨_, heq⟩ <;> cases heq
    · cases h
  | insert i token =>
    simp only [step] at h
    split at h
    · rename_i slug ip name left hi
      split_ifs at h with htaken hlast
      · obtain rfl := Option.some.inj h
        refine hs.leave hi ?_ (fun hopen => nomatch hopen) fun t ht => ?_
        · cases scope <;> exact Nat.zero_le _
        · rcases ht with heq | ⟨_, heq⟩ <;> cases heq
      · obtain rfl := Option.some.inj h
        refine hs.leave hi ?_ (fun _ => rfl) fun t ht => ?_
        · cases scope <;> exact le_rfl
        · rcases ht with heq | ⟨_, heq⟩ <;> cases heq
      · obtain rfl := Option.some.inj h
        have ho := countP_set_add (p := Call.isOpen) hi ⟨slug, ip, .done name⟩
        have hw := countP_set_add (p := cfg.waits scope) hi ⟨slug, ip, .done name⟩
        have hrow :
            countRows (s.now - day) scope (s.rows ++ [makeRow cfg ⟨slug, ip, .done name⟩ name s.now]) =
              countRows (s.now - day) scope s.rows +
                (cfg.waits scope ⟨slug, ip, .inserting name left⟩).toNat := by
          rw [countRows, countP_concat]
          have hnow : s.now - day ≤ s.now := Int.sub_le_self s.now (by decide)
          congr 2
          cases scope with
          | all => simp [makeRow, Scope.covers, Settings.waits, hnow]
          | «from» ip' =>
            by_cases hempty : ip = []
            · have hne := hscope ip' rfl
              subst hempty
              simp [makeRow, Scope.covers, Settings.waits, hne]
            · simp [makeRow, Scope.covers, Settings.waits, hnow, hempty]
        have hdone : (cfg.waits scope ⟨slug, ip, .done name⟩).toNat = 0 := by cases scope <;> rfl
        have hshut : (Call.mk slug ip (.done name)).isOpen.toNat = 0 := rfl
        rw [hdone] at hw
        rw [hshut] at ho
        refine hs.move hi ?_ (by omega) fun t ht => ?_
        · rw [hrow]
          omega
        · rcases ht with heq | ⟨_, heq⟩ <;> cases heq
    · cases h
  | fail i =>
    simp only [step] at h
    split at h
    · rename_i c hi
      obtain rfl := Option.some.inj h
      refine hs.leave hi ?_ (fun hopen => nomatch hopen) fun t ht => ?_
      · cases scope <;> exact Nat.zero_le _
      · rcases ht with heq | ⟨_, heq⟩ <;> cases heq
    · cases h
  | adminInsert row =>
    simp only [step] at h
    split_ifs at h with hrow
    obtain rfl := Option.some.inj h
    refine ⟨?_, hopen, hs.since⟩
    rw [countRows, countP_concat]
    simp only [hrow.1, Bool.false_and, Bool.toNat_false]
    exact hsum
  | remove name =>
    obtain rfl := Option.some.inj h
    refine ⟨lt_of_le_of_lt (Nat.add_le_add_right ?_ _) hsum, hopen, hs.since⟩
    exact List.Sublist.countP_le List.filter_sublist
  | tick now =>
    simp only [step] at h
    split_ifs at h with hle
    obtain rfl := Option.some.inj h
    have hday : s.now - day ≤ now - day := Int.sub_le_sub_right hle day
    refine ⟨?_, hopen, fun c hc since hphase => (hs.since c hc since hphase).trans hday⟩
    exact lt_of_le_of_lt (Nat.add_le_add_right (countRows_anti hday scope s.rows) _) hsum

end Kept

/-- **What a limit is worth when its count and the insert are apart.**  With at most `slots` signups past
their count at once, the signups of the last day never reach the limit by more than `slots`: in all, and
from one address. -/
theorem signups_within {cfg : Settings} {lower : List Char → List Char} {slots : ℕ} {scope : Scope}
    {s t : Sys} {as : List Act} (h : Steps (step cfg lower) (Slots slots) s as t)
    (hscope : ∀ ip, scope = .from ip → ip ≠ [])
    (hcalls : s.calls = []) (hrows : countRows (s.now - day) scope s.rows < cfg.limit scope + slots) :
    countRows (t.now - day) scope t.rows < cfg.limit scope + slots := by
  have hinit : Kept cfg slots scope s := by
    refine ⟨?_, ?_, ?_⟩
    · simpa [hcalls] using hrows
    · simp [hcalls]
    · simp [hcalls]
  have ht : Kept cfg slots scope t := h.inv (fun _ _ _ hi hc hstep => kept_step hscope hi hc hstep) hinit
  have hsum := ht.sum
  omega

/-! ### What a signup creates -/

/-- A project that a signup has created: the shape of its name, and caps that leave it the free providers. -/
structure SignedUp (cfg : Settings) (r : ProjectRow) : Prop where
  shape : NameShape r.name
  nothing : r.dailyCostCap = some 0
  allowance : r.totalRequestCap = some cfg.requestCap

/-- Every signup has a project name to insert, and every project it has created is `SignedUp`. -/
structure Sound (cfg : Settings) (s : Sys) : Prop where
  slugs : ∀ c ∈ s.calls, NameShape c.slug
  names : ∀ c ∈ s.calls, ∀ name left, c.phase = .inserting name left → NameShape name
  rows : ∀ r ∈ s.rows, r.selfSignup = true → SignedUp cfg r
  once : (s.rows.map ProjectRow.name).Nodup

section Sound

variable {cfg : Settings} {lower : List Char → List Char} {s : Sys}

theorem Sound.set (hs : Sound cfg s) {i : ℕ} {slug ip : List Char} {phase phase' : Phase}
    (hi : s.calls[i]? = some ⟨slug, ip, phase⟩)
    (hname : ∀ name left, phase' = .inserting name left → NameShape name) :
    Sound cfg { s with calls := s.calls.set i ⟨slug, ip, phase'⟩ } := by
  have hslug : NameShape slug := hs.slugs _ (List.mem_of_getElem? hi)
  refine ⟨fun c hc => ?_, fun c hc => ?_, hs.rows, hs.once⟩
  · rcases List.mem_or_eq_of_mem_set hc with hc | rfl
    · exact hs.slugs c hc
    · exact hslug
  · rcases List.mem_or_eq_of_mem_set hc with hc | rfl
    · exact hs.names c hc
    · exact hname

theorem nodup_concat {rows : List ProjectRow} (h : (rows.map ProjectRow.name).Nodup) {r : ProjectRow}
    (hr : r.name ∉ rows.map ProjectRow.name) : ((rows ++ [r]).map ProjectRow.name).Nodup := by
  rw [List.map_append]
  refine List.nodup_append.mpr ⟨h, by simp, fun a ha b hb hab => ?_⟩
  obtain rfl := List.mem_singleton.mp hb
  exact hr (hab ▸ ha)

theorem sound_step {t : Sys} {a : Act} (hs : Sound cfg s) (h : step cfg lower s a = some t) :
    Sound cfg t := by
  cases a with
  | request raw ip =>
    simp only [step] at h
    split at h
    · exact Option.some.inj h ▸ hs
    · rename_i slug hslug
      split_ifs at h
      · obtain rfl := Option.some.inj h
        refine ⟨fun c hc => ?_, fun c hc name left hphase => ?_, hs.rows, hs.once⟩
        · rcases List.mem_append.mp hc with hc | hc
          · exact hs.slugs c hc
          · obtain rfl := List.mem_singleton.mp hc
            exact slugifyName_shape hslug
        · rcases List.mem_append.mp hc with hc | hc
          · exact hs.names c hc name left hphase
          · obtain rfl := List.mem_singleton.mp hc
            cases hphase
      · exact Option.some.inj h ▸ hs
  | countTotal i =>
    simp only [step] at h
    split at h
    · rename_i hi
      obtain rfl := Option.some.inj h
      exact hs.set hi fun _ _ hphase => nomatch hphase
    · cases h
  | countIp i =>
    simp only [step] at h
    split at h
    · rename_i slug ip since total hi
      split_ifs at h
      · obtain rfl := Option.some.inj h
        exact hs.set hi fun _ _ hphase => nomatch hphase
      · obtain rfl := Option.some.inj h
        refine hs.set hi fun name left hphase => ?_
        obtain ⟨rfl, -⟩ := Phase.inserting.inj hphase
        exact hs.slugs _ (List.mem_of_getElem? hi)
    · cases h
  | insert i token =>
    simp only [step] at h
    split at h
    · rename_i slug ip name left hi
      have hslug : NameShape slug := hs.slugs _ (List.mem_of_getElem? hi)
      have hname : NameShape name := hs.names _ (List.mem_of_getElem? hi) name left rfl
      split_ifs at h with htaken
      · obtain rfl := Option.some.inj h
        exact hs.set hi fun _ _ hphase => nomatch hphase
      · obtain rfl := Option.some.inj h
        refine hs.set hi fun name' left' hphase => ?_
        obtain ⟨rfl, -⟩ := Phase.inserting.inj hphase
        exact suffixed_shape hslug (isHex_tokenHex token)
      · obtain rfl := Option.some.inj h
        have hset : Sound cfg { s with calls := s.calls.set i ⟨slug, ip, .done name⟩ } :=
          hs.set hi fun _ _ hphase => nomatch hphase
        have hfree : name ∉ s.rows.map ProjectRow.name := fun hmem => htaken (List.contains_iff_mem.mpr hmem)
        refine ⟨hset.slugs, hset.names, fun r hr hself => ?_, nodup_concat hs.once hfree⟩
        rcases List.mem_append.mp hr with hr | hr
        · exact hs.rows r hr hself
        · obtain rfl := List.mem_singleton.mp hr
          exact ⟨hname, rfl, rfl⟩
    · cases h
  | fail i =>
    simp only [step] at h
    split at h
    · rename_i c hi
      obtain ⟨slug, ip, phase⟩ := c
      obtain rfl := Option.some.inj h
      exact hs.set hi fun _ _ hphase => nomatch hphase
    · cases h
  | adminInsert row =>
    simp only [step] at h
    split_ifs at h with hrow
    obtain rfl := Option.some.inj h
    have hfree : row.name ∉ s.rows.map ProjectRow.name := by
      intro hmem
      rw [List.contains_iff_mem.mpr hmem] at hrow
      cases hrow.2
    refine ⟨hs.slugs, hs.names, fun r hr hself => ?_, nodup_concat hs.once hfree⟩
    rcases List.mem_append.mp hr with hr | hr
    · exact hs.rows r hr hself
    · obtain rfl := List.mem_singleton.mp hr
      rw [hrow.1] at hself
      cases hself
  | remove name =>
    obtain rfl := Option.some.inj h
    refine ⟨hs.slugs, hs.names, fun r hr => hs.rows r (List.mem_filter.mp hr).1, ?_⟩
    exact hs.once.sublist (List.filter_sublist.map _)
  | tick now =>
    simp only [step] at h
    split_ifs at h
    obtain rfl := Option.some.inj h
    exact ⟨hs.slugs, hs.names, hs.rows, hs.once⟩

/-- A project without a budget is admitted to no cost, whatever key and estimate it comes with. -/
theorem reserveCost_without_budget {key : ApiKeyRow} {monthly : Option ℚ} {est : ℚ} {knownFree : Bool}
    {w : Surroundings} (hused : 0 ≤ w.projectDaily.used)
    (h : (reserveCost key ⟨some 0, monthly⟩ est knownFree w).out = .ok ()) :
    est ≤ 0 ∧ (key.tier = .paid → knownFree = true) := by
  by_cases hfree : key.tier = .free ∧ est ≤ 0
  · exact ⟨hfree.2, fun hpaid => by rw [hfree.1] at hpaid; cases hpaid⟩
  rw [reserveCost, if_neg hfree] at h
  cases hzero : zeroCap key ⟨some 0, monthly⟩ est knownFree with
  | some e =>
    rw [hzero] at h
    cases h
  | none =>
    rw [hzero] at h
    have hpaid : key.tier = .paid → knownFree = true := by
      intro hpaid
      by_contra hnot
      rw [zeroCap, if_pos ⟨hpaid, by simpa using hnot⟩] at hzero
      split_ifs at hzero with hkey hmonth hdaily
      exact hdaily rfl
    refine ⟨?_, hpaid⟩
    obtain ⟨_, _, hchecks⟩ := Proc.bind_returns.mp h
    rw [capChecks, runChecks] at hchecks
    obtain ⟨_, hfirst, _⟩ := Proc.bind_returns.mp hchecks
    obtain ⟨_, _, hcheck⟩ := Proc.bind_returns.mp hfirst
    split_ifs at hcheck with hover
    · obtain ⟨_, _, hraise⟩ := Proc.bind_returns.mp hcheck
      cases hraise
    · have hle : w.projectDaily.used + est ≤ 0 := not_lt.mp hover
      linarith

end Sound

/-- **What self-signup creates, in any run.**  The projects have names of their own, each in the shape
the admin API asks for, with the request cap of the settings and a budget that admits no cost on any key.
-/
theorem signed_up_rows {cfg : Settings} {lower : List Char → List Char} {s t : Sys} {as : List Act}
    (h : Steps (step cfg lower) Free s as t) (hs : Sound cfg s) :
    (t.rows.map ProjectRow.name).Nodup ∧ ∀ r ∈ t.rows, r.selfSignup = true →
      NameShape r.name ∧ r.totalRequestCap = some cfg.requestCap ∧
      ∀ (key : ApiKeyRow) (est : ℚ) (knownFree : Bool) (w : Surroundings), 0 ≤ w.projectDaily.used →
        (reserveCost key ⟨r.dailyCostCap, r.monthlyCostCap⟩ est knownFree w).out = .ok () →
        est ≤ 0 ∧ (key.tier = .paid → knownFree = true) := by
  have ht : Sound cfg t := h.inv (fun _ _ _ hi _ hstep => sound_step hi hstep) hs
  refine ⟨ht.once, fun r hr hself => ?_⟩
  have hrow := ht.rows r hr hself
  refine ⟨hrow.shape, hrow.allowance, fun key est knownFree w hused hok => ?_⟩
  rw [hrow.nothing] at hok
  exact reserveCost_without_budget hused hok

/-! ### Two signups of one name -/

def defaults : Settings := ⟨true, 3, 1, 100⟩

def twoBots : List Act :=
  [.request ['B', 'o', 't'] ['1'], .request ['b', 'o', 't'] ['2'], .countTotal 0, .countTotal 1,
    .countIp 0, .countIp 1, .insert 0 0, .insert 1 0, .insert 1 0]

theorem twoBots_run : ∃ t, Steps (step defaults fun text => text.map Char.toLower)
    (Slots 2) ⟨[], [], 0⟩ twoBots t ∧
    t.rows.map ProjectRow.name = [['b', 'o', 't'], ['b', 'o', 't', '-', '0', '0', '0', '0']] ∧
    countRows (t.now - day) .all t.rows = 2 := by
  have hrun : ∃ t, execAll (guarded (step defaults fun text => text.map Char.toLower) (Slots 2)) ⟨[], [], 0⟩
      twoBots = some t ∧
      t.rows.map ProjectRow.name = [['b', 'o', 't'], ['b', 'o', 't', '-', '0', '0', '0', '0']] ∧
      countRows (t.now - day) .all t.rows = 2 := ⟨_, rfl, rfl, rfl⟩
  obtain ⟨t, hexec, hnames, hcount⟩ := hrun
  exact ⟨t, Steps.of_guarded (steps_of_execAll hexec), hnames, hcount⟩

/-- With a limit of one a day, two signups at once make two; a third is beyond the limit and the slots. -/
theorem twoBots_within : ∃ t : Sys, countRows (t.now - day) .all t.rows = 2 ∧
    countRows (t.now - day) .all t.rows < defaults.limit .all + 2 := by
  obtain ⟨t, hrun, -, hcount⟩ := twoBots_run
  exact ⟨t, hcount, signups_within hrun (fun ip h => nomatch h) rfl (by decide)⟩

theorem twoBots_rows : ∃ t : Sys, t.rows.length = 2 ∧ (t.rows.map ProjectRow.name).Nodup := by
  obtain ⟨t, hrun, hnames, -⟩ := twoBots_run
  have hfree := hrun.mono fun _ _ _ => (trivial : Free _ _)
  have hlen := congrArg List.length hnames
  refine ⟨t, by simpa using hlen, (signed_up_rows hfree ⟨?_, ?_, ?_, ?_⟩).1⟩ <;> simp

end Signup

end Broker.Services
