import Broker.Lib.JsonScan
import Broker.Routing.SharedState

/-!
# Broker.Routing.FamilyKeys — the two keys of a request family

A provider's prompt cache and the route pin are each found under a digest of (project, workflow, capability,
pin).  `cache_key_for` joins all four parts, `route_key` only the last three and writes the project id in
front in clear.  Both joins put an unescaped U+001F between client-chosen strings: without that character in
the strings the parts are read back by splitting at it.
-/

namespace Broker.Routing

open Broker.Lib

/-! ### The two keys -/

/-- The separator, U+001F. -/
def unitSep : Char := '\x1f'

/-- What `str` is applied to. -/
inductive KeyPart where
  | none
  | int (n : ℤ)
  | str (s : String)
  deriving DecidableEq

/-- `"" if p is None else str(p)`. -/
def KeyPart.text : KeyPart → String
  | .none => ""
  | .int n => toString n
  | .str s => s

/-- `raw`. -/
def cacheRaw (parts : List KeyPart) : String := "\x1f".intercalate (parts.map KeyPart.text)

/-- `hashlib.sha256(raw.encode()).hexdigest()[:n]`. -/
def shortDigest (sha256 : String → String) (n : ℕ) (raw : String) : String :=
  String.ofList ((sha256 raw).toList.take n)

/-- `cache_key_for`. -/
def cacheKeyFor (sha256 : String → String) (parts : List KeyPart) : String :=
  "aib-" ++ shortDigest sha256 32 (cacheRaw parts)

/-! ### Families -/

/-- What `run_chat` passes to both. -/
structure RequestFamily where
  projectId : ℤ
  workflow : Option String
  capability : String
  pin : Option String
  deriving DecidableEq

namespace RequestFamily

/-- `project.id, workflow or "", capability, model or ""`. -/
def cacheParts (f : RequestFamily) : List KeyPart :=
  [.int f.projectId, .str (f.workflow.getD ""), .str f.capability, .str (f.pin.getD "")]

/-- The prompt-cache key of the family's requests. -/
def cacheKey (sha256 : String → String) (f : RequestFamily) : String := cacheKeyFor sha256 f.cacheParts

/-- The route key of the family, for a digest. -/
def pinKeyOf (digest : String → String) (f : RequestFamily) : String :=
  routeKey digest f.projectId f.workflow f.capability f.pin

/-- The key of the family's route pin. -/
def pinKey (sha256 : String → String) (f : RequestFamily) : String := f.pinKeyOf (shortDigest sha256 20)

/-- The string `cache_key_for` hashes. -/
def cacheText (f : RequestFamily) : String := cacheRaw f.cacheParts

/-- The route key before hashing. -/
def pinText (f : RequestFamily) : String := f.pinKeyOf id

/-- The string `route_key` hashes. -/
def pinRaw (f : RequestFamily) : String :=
  f.workflow.getD "" ++ "\x1f" ++ f.capability ++ "\x1f" ++ f.pin.getD ""

/-- The same family, absent and empty strings identified. -/
structure Same (f g : RequestFamily) : Prop where
  project : f.projectId = g.projectId
  workflow : f.workflow.getD "" = g.workflow.getD ""
  capability : f.capability = g.capability
  pin : f.pin.getD "" = g.pin.getD ""

/-- No string holds the separator. -/
structure Clean (f : RequestFamily) : Prop where
  workflow : unitSep ∉ (f.workflow.getD "").toList
  capability : unitSep ∉ f.capability.toList
  pin : unitSep ∉ (f.pin.getD "").toList

variable {f g : RequestFamily}

/-! ### Before hashing -/

theorem notMem_intText {c : Char} (hdigit : c.isDigit = false) (hminus : c ≠ '-') (n : ℤ) :
    c ∉ intText n := by
  intro hc
  unfold intText at hc
  split_ifs at hc
  · rcases List.mem_cons.mp hc with h | h
    · exact hminus h
    · rw [isDigit_of_mem_toDigits h] at hdigit
      cases hdigit
  · rw [isDigit_of_mem_toDigits hc] at hdigit
    cases hdigit

theorem toList_repr_int (n : ℤ) : n.repr.toList = intText n := by
  cases n with
  | ofNat m =>
    show (Nat.repr m).toList = _
    simp [intText, Nat.toList_repr]
  | negSucc m =>
    show ("-" ++ Nat.repr (m + 1)).toList = _
    simp [intText, Nat.toList_repr, Int.negSucc_lt_zero]

/-- The cache's text is the project id, a separator and the text of the pin. -/
theorem toList_cacheText (f : RequestFamily) :
    f.cacheText.toList = intText f.projectId ++ unitSep :: f.pinRaw.toList := by
  have hsep : "\x1f".toList = [unitSep] := rfl
  simp [cacheText, cacheRaw, cacheParts, pinRaw, KeyPart.text, hsep, toList_repr_int]

/-- The route key is the project id in clear, a colon and the digest. -/
theorem toList_pinKeyOf (digest : String → String) (f : RequestFamily) : (f.pinKeyOf digest).toList =
    "aib:raff:".toList ++ (intText f.projectId ++ ':' :: (digest f.pinRaw).toList) := by
  have hkey : f.pinKeyOf digest = "aib:raff:" ++ f.projectId.repr ++ ":" ++ digest f.pinRaw := rfl
  have hcolon : ":".toList = [':'] := rfl
  simp only [hkey, String.toList_append, toList_repr_int, hcolon, List.append_assoc, List.singleton_append]

/-- The digits of the project end at the first separator. -/
theorem cacheText_eq_iff : f.cacheText = g.cacheText ↔ f.projectId = g.projectId ∧ f.pinRaw = g.pinRaw := by
  rw [← String.toList_inj, toList_cacheText, toList_cacheText]
  constructor
  · intro h
    have hsep := notMem_intText (c := unitSep) (by decide) (by decide)
    obtain ⟨hproject, hraw⟩ := append_sep_inj (hsep f.projectId) (hsep g.projectId) h
    exact ⟨intText_injective hproject, String.toList_inj.mp hraw⟩
  · rintro ⟨hproject, hraw⟩
    rw [hproject, hraw]

/-- The digits of the project end at the colon behind them. -/
theorem pinKeyOf_eq_iff {digest : String → String} : f.pinKeyOf digest = g.pinKeyOf digest ↔
    f.projectId = g.projectId ∧ digest f.pinRaw = digest g.pinRaw := by
  rw [← String.toList_inj, toList_pinKeyOf, toList_pinKeyOf]
  constructor
  · intro h
    have hcolon := notMem_intText (c := ':') (by decide) (by decide)
    obtain ⟨hproject, htail⟩ :=
      append_sep_inj (hcolon f.projectId) (hcolon g.projectId) (List.append_cancel_left h)
    exact ⟨intText_injective hproject, String.toList_inj.mp htail⟩
  · rintro ⟨hproject, htail⟩
    rw [hproject, htail]

/-- Splitting at the separator reads the three strings back. -/
theorem splitOn_pinRaw (hf : f.Clean) : f.pinRaw.toList.splitOn unitSep =
    [(f.workflow.getD "").toList, f.capability.toList, (f.pin.getD "").toList] := by
  have hsep : "\x1f".toList = [unitSep] := rfl
  have hjoin : f.pinRaw.toList =
      [unitSep].intercalate [(f.workflow.getD "").toList, f.capability.toList, (f.pin.getD "").toList] := by
    simp [pinRaw, hsep, List.intercalate_cons_cons]
  rw [hjoin]
  refine List.splitOn_intercalate unitSep (fun l hl => ?_) (by simp)
  simp only [List.mem_cons, List.not_mem_nil, or_false] at hl
  rcases hl with rfl | rfl | rfl
  · exact hf.workflow
  · exact hf.capability
  · exact hf.pin

theorem pinRaw_eq_iff (hf : f.Clean) (hg : g.Clean) : f.pinRaw = g.pinRaw ↔
    f.workflow.getD "" = g.workflow.getD "" ∧ f.capability = g.capability ∧
      f.pin.getD "" = g.pin.getD "" := by
  constructor
  · intro h
    have hparts := splitOn_pinRaw hf
    rw [h, splitOn_pinRaw hg] at hparts
    simp only [List.cons.injEq, String.toList_inj, and_true] at hparts
    obtain ⟨hworkflow, hcapability, hpin⟩ := hparts
    exact ⟨hworkflow.symm, hcapability.symm, hpin.symm⟩
  · rintro ⟨hworkflow, hcapability, hpin⟩
    rw [pinRaw, pinRaw, hworkflow, hcapability, hpin]

theorem same_iff_pinText (hf : f.Clean) (hg : g.Clean) : f.pinText = g.pinText ↔ f.Same g := by
  rw [pinText, pinText, pinKeyOf_eq_iff, id, id, pinRaw_eq_iff hf hg]
  constructor
  · rintro ⟨hproject, hworkflow, hcapability, hpin⟩
    exact ⟨hproject, hworkflow, hcapability, hpin⟩
  · rintro ⟨hproject, hworkflow, hcapability, hpin⟩
    exact ⟨hproject, hworkflow, hcapability, hpin⟩

theorem cacheText_iff_pinText : f.cacheText = g.cacheText ↔ f.pinText = g.pinText := by
  rw [cacheText_eq_iff, pinText, pinText, pinKeyOf_eq_iff, id, id]

/-! ### After hashing -/

/-- `sha256`, cut to `n` digits, tells the two texts apart. -/
def CollisionFree (sha256 : String → String) (n : ℕ) (s t : String) : Prop :=
  shortDigest sha256 n s = shortDigest sha256 n t → s = t

variable {sha256 : String → String}

theorem cacheKey_eq_iff (hfree : CollisionFree sha256 32 f.cacheText g.cacheText) :
    f.cacheKey sha256 = g.cacheKey sha256 ↔ f.cacheText = g.cacheText := by
  rw [cacheKey, cacheKey, cacheKeyFor, cacheKeyFor, String.append_right_inj]
  constructor
  · intro h
    exact hfree h
  · intro h
    exact congrArg (shortDigest sha256 32) h

theorem pinKey_eq_iff (hfree : CollisionFree sha256 20 f.pinRaw g.pinRaw) :
    f.pinKey sha256 = g.pinKey sha256 ↔ f.pinText = g.pinText := by
  rw [pinKey, pinKey, pinText, pinText, pinKeyOf_eq_iff, pinKeyOf_eq_iff]
  refine and_congr_right fun _ => ?_
  constructor
  · intro h
    exact hfree h
  · intro h
    exact congrArg (shortDigest sha256 20) h

/-- **Both keys identify the family.**  Before hashing they are equal for the same pairs of families, which
are the equal ones; where the digests do not collide the same holds of the keys, and two projects share
neither. -/
theorem keys_identify_families (f g : RequestFamily) (hf : f.Clean) (hg : g.Clean) :
    (f.cacheText = g.cacheText ↔ f.pinText = g.pinText) ∧ (f.pinText = g.pinText ↔ f.Same g) ∧
    ∀ sha256, CollisionFree sha256 32 f.cacheText g.cacheText →
      (f.cacheKey sha256 = g.cacheKey sha256 ↔ f.Same g) ∧
      (f.projectId ≠ g.projectId → f.cacheKey sha256 ≠ g.cacheKey sha256) ∧
      (CollisionFree sha256 20 f.pinRaw g.pinRaw → (f.pinKey sha256 = g.pinKey sha256 ↔ f.Same g)) := by
  refine ⟨cacheText_iff_pinText, same_iff_pinText hf hg, fun sha256 hcache => ?_⟩
  have hkey : f.cacheKey sha256 = g.cacheKey sha256 ↔ f.Same g := by
    rw [cacheKey_eq_iff hcache, cacheText_iff_pinText, same_iff_pinText hf hg]
  refine ⟨hkey, fun hproject h => hproject (hkey.mp h).project, fun hpin => ?_⟩
  rw [pinKey_eq_iff hpin, same_iff_pinText hf hg]

/-- `sha256` on the texts of the families (1, "1", "chat") and (11, none, "chat"). -/
def twoDigests (raw : String) : String :=
  if raw = cacheRaw [.int 1, .str "1", .str "chat", .str ""] then
    "afd3fc370387d66aab3574826bb54b30cce69f0bf3bfc80d647e3895976c5ce3"
  else "0a61231c5f101d31a942891672421455eedb34af1881118909773b361c4530a0"

/-- Project 1 with the workflow "1", and project 11 without one. -/
theorem keys_of_two_projects :
    cacheKey twoDigests ⟨1, some "1", "chat", none⟩ ≠ cacheKey twoDigests ⟨11, none, "chat", none⟩ :=
  have hclean : Clean ⟨1, some "1", "chat", none⟩ := ⟨by decide, by decide, by decide⟩
  have hclean' : Clean ⟨11, none, "chat", none⟩ := ⟨by decide, by decide, by decide⟩
  have hkeys := (keys_identify_families _ _ hclean hclean').2.2 twoDigests fun h => absurd h (by decide +kernel)
  hkeys.2.1 (by decide)

end RequestFamily

end Broker.Routing
