import Broker.Agent.Events
import Broker.Agent.Masking
import Broker.Lib.Base64
import Broker.Lib.FileTree
import Broker.Lib.ForLoop

/-!
# Broker.Agent.Workspace — the files a run returns

`collect_files` reads the files that a run has named, each once for a spelling of its path, and returns those
that its caps admit.  The caps are checked against the size on disk; what is returned is the file after the
redaction.  The files that the caps admit are `admitted`, and the contents returned are these, redacted
(`collectFiles_delivered`).
-/

namespace Broker.Agent

open Broker.Lib PosixPath

abbrev Bytes := List UInt8

/-! ### Contents -/

/-- `data.decode("utf-8")`. -/
def readUtf8 (data : Bytes) : Option String := String.fromUTF8? ⟨data.toArray⟩

/-- `text.encode("utf-8")`. -/
def utf8Bytes (text : String) : Bytes := text.toByteArray.data.toList

/-- `redact_bytes`. -/
def redactBytes (word : Char → Bool) (data : Bytes) : Bytes :=
  match readUtf8 data with
  | none => data
  | some text => if redact word text = text then data else utf8Bytes (redact word text)

/-- `base64.b64encode(data).decode()`. -/
def b64encode (data : Bytes) : String := Base64.encodeStandard (data.map UInt8.toNat)

/-- `base64.b64decode(text)`, of what `b64encode` has written. -/
def b64decode (text : String) : Option Bytes := (Base64.decodeStandard text).map fun bs => bs.map UInt8.ofNat

/-- The content that is returned with a file. -/
def FileRef.content (f : FileRef) : Option Bytes := f.contentB64.bind b64decode

/-- A file that is returned with its content. -/
def FileRef.delivered (f : FileRef) :
    Option (List Char × Bytes) := f.content.map fun data => (f.path.toList, data)

theorem b64decode_b64encode (data : Bytes) : b64decode (b64encode data) = some data := by
  have hlt : ∀ b ∈ data.map UInt8.toNat, b < 256 := by
    intro b hb
    obtain ⟨u, -, rfl⟩ := List.mem_map.mp hb
    exact u.toNat_lt
  rw [b64decode, b64encode, Base64.decodeStandard_encodeStandard hlt]
  simp [List.map_map, Function.comp_def]

/-! ### Paths -/

inductive FileError where
  | valueError
  | osError
  | keyError
  deriving DecidableEq, Repr

/-- `safe_file`: the regular file at a relative path, where no component is a link. -/
def safeFile (ws : Node) (rel : List Char) : Except FileError (Option FileData) :=
  if rel = [] ∨ isAbsolute rel = true ∨ ['.', '.'] ∈ parts rel then .ok none
  else if Char.ofNat 0 ∈ rel then .error .valueError
  else .ok ((ws.get (parts rel)).bind Node.fileData?)

/-- `Path(path).as_posix()` of a relative path. -/
def asPosix (path : List Char) : List Char := if parts path = [] then ['.'] else join (parts path)

/-- `_workspace_relative`; the roots are the workspace and what it resolves to. -/
def workspaceRelative (roots : List (List Char)) (rel : List Char) : Option (List Char) :=
  if isAbsolute rel then
    roots.findSome? fun root =>
      if normpath root ++ ['/'] <+: normpath rel then
        some (asPosix ((normpath rel).drop ((normpath root).length + 1)))
      else none
  else some rel

/-! ### The collection -/

structure FileCaps where
  maxBytes : ℕ
  totalBytes : ℕ
  maxCount : ℕ

/-- What `collect_files` has so far. -/
structure Collected where
  out : List FileRef
  used : ℕ
  delivered : ℕ

section Collect

variable (word : Char → Bool) (ws : Node) (caps : FileCaps) (expires : String)

def Collected.list (s : Collected) (f : FileRef) : Collected := { s with out := s.out ++ [f] }

def collectStep (s : Collected) (rel : List Char) : Except FileError Collected :=
  match safeFile ws rel with
  | .error e => .error e
  | .ok none => .ok (s.list { path := String.ofList rel, skipped := some "unsafe_path_or_missing" })
  | .ok (some f) =>
    let size := f.data.length
    if caps.maxCount ≤ s.delivered then
      .ok (s.list { path := String.ofList rel, size, skipped := some "cap_reached" })
    else if caps.maxBytes < size then
      .ok (s.list { path := String.ofList rel, size, skipped := some "too_large" })
    else if caps.totalBytes < s.used + size then
      .ok (s.list { path := String.ofList rel, size, skipped := some "cap_reached" })
    else
      let content := redactBytes word f.data
      .ok {
        out := s.out ++ [{
          path := String.ofList rel, size := content.length, expiresAt := some expires,
          contentB64 := some (b64encode content) }]
        used := s.used + size
        delivered := s.delivered + 1 }

/-- The names that the loop goes over. -/
def listedNames (roots : List (List Char)) (paths : List String) : List (List Char) :=
  (paths.filterMap fun p => workspaceRelative roots p.toList).eraseDups

/-- `collect_files`. -/
def collectFiles (roots : List (List Char)) (paths : List String) : Except FileError (List FileRef) :=
  match forLoop (fun _ _ => false) (collectStep word ws caps expires) ⟨[], 0, 0⟩
      (listedNames roots paths) with
  | .error e => .error e
  | .ok s => .ok s.out

/-! ### The files that the caps admit -/

/-- The named files that fit by their size on disk, after `used` bytes of `count` files. -/
def admitted : ℕ → ℕ → List (List Char) → List (List Char × Bytes)
  | _, _, [] => []
  | used, count, rel :: names =>
    match safeFile ws rel with
    | .ok (some f) =>
      if count < caps.maxCount ∧ f.data.length ≤ caps.maxBytes ∧ used + f.data.length ≤ caps.totalBytes then
        (rel, f.data) :: admitted (used + f.data.length) (count + 1) names
      else admitted used count names
    | _ => admitted used count names

variable {word ws caps expires}

theorem delivered_of_skipped {f : FileRef} (h : f.contentB64 = none) : f.delivered = none := by
  simp [FileRef.delivered, FileRef.content, h]

theorem delivered_of_content {f : FileRef} {data : Bytes} (h : f.contentB64 = some (b64encode data)) :
    f.delivered = some (f.path.toList, data) := by
  simp [FileRef.delivered, FileRef.content, h, b64decode_b64encode]

theorem admitted_of_not {used count : ℕ} {rel : List Char} {names : List (List Char)}
    (h : ∀ f, safeFile ws rel = .ok (some f) →
      ¬ (count < caps.maxCount ∧ f.data.length ≤ caps.maxBytes ∧ used + f.data.length ≤ caps.totalBytes)) :
    admitted ws caps used count (rel :: names) = admitted ws caps used count names := by
  rw [admitted]
  cases hf : safeFile ws rel with
  | error e => rfl
  | ok f =>
    cases f with
    | none => rfl
    | some f => exact if_neg (h f hf)

/-- One step lists a file without its content, or admits it. -/
theorem collectStep_cases {s s' : Collected} {rel : List Char}
    (h : collectStep word ws caps expires s rel = .ok s') :
    (∃ f, f.contentB64 = none ∧ s' = s.list f ∧ ∀ names,
      admitted ws caps s.used s.delivered (rel :: names) = admitted ws caps s.used s.delivered names) ∨
    ∃ (f : FileRef) (data : Bytes), f.delivered = some (rel, redactBytes word data) ∧
      s' = ⟨s.out ++ [f], s.used + data.length, s.delivered + 1⟩ ∧ ∀ names,
      admitted ws caps s.used s.delivered (rel :: names) =
        (rel, data) :: admitted ws caps (s.used + data.length) (s.delivered + 1) names := by
  rw [collectStep] at h
  cases hf : safeFile ws rel with
  | error e =>
    rw [hf] at h
    cases h
  | ok f =>
    rw [hf] at h
    cases f with
    | none =>
      refine .inl ⟨_, rfl, (Except.ok.inj h).symm, fun names => admitted_of_not fun f hf' => ?_⟩
      rw [hf] at hf'
      cases hf'
    | some f =>
      have hself : ∀ {f'}, safeFile ws rel = .ok (some f') → f' = f := by
        intro f' hf'
        rw [hf] at hf'
        exact (Option.some.inj (Except.ok.inj hf')).symm
      dsimp only at h
      by_cases hcount : caps.maxCount ≤ s.delivered
      · rw [if_pos hcount] at h
        refine .inl ⟨_, rfl, (Except.ok.inj h).symm, fun names => admitted_of_not fun f' _ => ?_⟩
        omega
      rw [if_neg hcount] at h
      by_cases hsize : caps.maxBytes < f.data.length
      · rw [if_pos hsize] at h
        refine .inl ⟨_, rfl, (Except.ok.inj h).symm, fun names => admitted_of_not fun f' hf' => ?_⟩
        rw [hself hf']
        omega
      rw [if_neg hsize] at h
      by_cases htotal : caps.totalBytes < s.used + f.data.length
      · rw [if_pos htotal] at h
        refine .inl ⟨_, rfl, (Except.ok.inj h).symm, fun names => admitted_of_not fun f' hf' => ?_⟩
        rw [hself hf']
        omega
      rw [if_neg htotal] at h
      refine .inr ⟨_, f.data, ?_, (Except.ok.inj h).symm, fun names => ?_⟩
      · rw [delivered_of_content rfl, String.toList_ofList]
      · rw [admitted, hf]
        exact if_pos ⟨by omega, by omega, by omega⟩

theorem forLoop_delivered {names : List (List Char)} {s t : Collected}
    (h : forLoop (fun _ _ => false) (collectStep word ws caps expires) s names = .ok t) :
    t.out.filterMap FileRef.delivered = s.out.filterMap FileRef.delivered ++
      (admitted ws caps s.used s.delivered names).map fun a => (a.1, redactBytes word a.2) := by
  induction names generalizing s with
  | nil =>
    obtain rfl := Except.ok.inj h
    simp [admitted]
  | cons rel names ih =>
    rw [forLoop, if_neg Bool.false_ne_true] at h
    cases hstep : collectStep word ws caps expires s rel with
    | error e =>
      rw [hstep] at h
      cases h
    | ok s' =>
      rw [hstep] at h
      have hrest := ih h
      rcases collectStep_cases hstep with ⟨f, hf, rfl, hadm⟩ | ⟨f, data, hf, rfl, hadm⟩
      · rw [hrest, hadm]
        simp [Collected.list, delivered_of_skipped hf]
      · rw [hrest, hadm]
        simp [hf]

/-- **What is returned is what the caps admit, redacted.** -/
theorem collectFiles_delivered {roots : List (List Char)} {paths : List String} {files : List FileRef}
    (h : collectFiles word ws caps expires roots paths = .ok files) :
    files.filterMap FileRef.delivered =
      (admitted ws caps 0 0 (listedNames roots paths)).map fun a => (a.1, redactBytes word a.2) := by
  rw [collectFiles] at h
  cases hloop : forLoop (fun _ _ => false) (collectStep word ws caps expires) ⟨[], 0, 0⟩
      (listedNames roots paths) with
  | error e =>
    rw [hloop] at h
    cases h
  | ok t =>
    rw [hloop] at h
    obtain rfl := Except.ok.inj h
    exact forLoop_delivered hloop

theorem length_admitted_le (names : List (List Char)) (used count : ℕ) :
    (admitted ws caps used count names).length ≤ caps.maxCount - count := by
  fun_induction admitted ws caps used count names with
  | case1 => simp
  | case2 used count rel names f hf hfits ih =>
    rw [List.length_cons]
    omega
  | case3 used count rel names f hf hfits ih => exact ih
  | case4 used count rel names hf ih => exact ih

theorem admitted_size (names : List (List Char)) (used count : ℕ) :
    ∀ a ∈ admitted ws caps used count names, a.2.length ≤ caps.maxBytes := by
  fun_induction admitted ws caps used count names with
  | case1 => simp
  | case2 used count rel names f hf hfits ih =>
    intro a ha
    rcases List.mem_cons.mp ha with rfl | ha
    · exact hfits.2.1
    · exact ih a ha
  | case3 used count rel names f hf hfits ih => exact ih
  | case4 used count rel names hf ih => exact ih

theorem admitted_total (names : List (List Char)) (used count : ℕ) (hused : used ≤ caps.totalBytes) :
    used + ((admitted ws caps used count names).map fun a => a.2.length).sum ≤ caps.totalBytes := by
  fun_induction admitted ws caps used count names with
  | case1 => simpa using hused
  | case2 used count rel names f hf hfits ih =>
    have hrest := ih hfits.2.2
    simp only [List.map_cons, List.sum_cons]
    omega
  | case3 used count rel names f hf hfits ih => exact ih hused
  | case4 used count rel names hf ih => exact ih hused

end Collect

end Broker.Agent
