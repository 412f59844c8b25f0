import Broker.Agent.Workspace

/-!
# Broker.Agent.Images — the images of a run

`export_generated_pngs` takes the PNG files that the CLI has left in the directory of its thread, and
`collect_out_images` the images that the run itself has put under `out/`.  Both count what they return against
a byte budget, and return no content twice.  Opening and decoding an image, and SHA-256, are parameters.
-/

namespace Broker.Agent

open Broker.Lib PosixPath

/-! ### Formats -/

inductive ImageFormat where
  | png
  | jpeg
  | webp
  deriving DecidableEq, Repr

def ImageFormat.name : ImageFormat → String
  | .png => "PNG"
  | .jpeg => "JPEG"
  | .webp => "WEBP"

/-- `_MAGIC`. -/
def ImageFormat.magic : ImageFormat → Bytes
  | .png => [0x89, 0x50, 0x4E, 0x47, 0x0D, 0x0A, 0x1A, 0x0A]
  | .jpeg => [0xFF, 0xD8, 0xFF]
  | .webp => [0x52, 0x49, 0x46, 0x46]

/-- `_EXT_FORMAT`. -/
def extFormat (ext : List Char) : Option ImageFormat :=
  if ext = ['.', 'p', 'n', 'g'] then some .png
  else if ext = ['.', 'j', 'p', 'g'] ∨ ext = ['.', 'j', 'p', 'e', 'g'] then some .jpeg
  else if ext = ['.', 'w', 'e', 'b', 'p'] then some .webp
  else none

/-- What the library for images and the hash say of some bytes: the format, width and height with which
an image opens, whether it loads in full, and its digest. -/
structure ImageTools where
  opened : Bytes → Option (String × ℕ × ℕ)
  loads : Bytes → Bool
  sha256 : Bytes → String

/-- `_MAX_PIXELS`. -/
def maxPixels : ℕ := 50000000

/-- `_decode_image`. -/
def decodeImage (tools : ImageTools) (data : Bytes) (fmt : ImageFormat) : Option (ℕ × ℕ) :=
  if ¬ fmt.magic <+: data ∨ (fmt = .webp ∧ (data.drop 8).take 4 ≠ [0x57, 0x45, 0x42, 0x50]) then none
  else
    match tools.opened data with
    | none => none
    | some (format, width, height) =>
      if format ≠ fmt.name ∨ maxPixels < width * height then none
      else if tools.loads data then some (width, height)
      else none

structure ImageCaps where
  maxBytes : ℕ
  maxCount : ℕ
  totalBytes : Option ℕ

/-- The budget for all images, if there is one, is passed. -/
def ImageCaps.passed (caps : ImageCaps) (bytes : ℕ) : Bool := caps.totalBytes.any fun total => total < bytes

/-! ### What is returned -/

/-- The contents in a list of files. -/
def contents (refs : List FileRef) : List Bytes := refs.filterMap FileRef.content

/-- How long they are together. -/
def contentBytes (refs : List FileRef) : ℕ := ((contents refs).map List.length).sum

theorem content_of_none {f : FileRef} (h : f.contentB64 = none) : f.content = none := by
  simp [FileRef.content, h]

theorem content_of_some {f : FileRef} {data : Bytes} (h : f.contentB64 = some (b64encode data)) :
    f.content = some data := by
  simp [FileRef.content, h, b64decode_b64encode]

theorem contentBytes_append (refs refs' : List FileRef) :
    contentBytes (refs ++ refs') = contentBytes refs + contentBytes refs' := by
  simp [contentBytes, contents]

theorem contentBytes_none {f : FileRef} (h : f.content = none) : contentBytes [f] = 0 := by
  simp [contentBytes, contents, h]

theorem contentBytes_some {f : FileRef} {data : Bytes} (h : f.content = some data) :
    contentBytes [f] = data.length := by
  simp [contentBytes, contents, h]

/-! ### Generated images -/

def outDir : List Char := ['o', 'u', 't']

def generatedDir : List Char := "generated_images".toList

/-- A path below a directory, and what it stands for. -/
structure Found where
  path : List FileName
  node : Node

/-- `path.relative_to(root).as_posix()`. -/
def Found.rel (c : Found) : List Char := join (c.path.map FileName.chars)

def byName (a b : FileName × Node) : Bool := decide (a.1.chars ≤ b.1.chars)

def isDir : Node → Bool
  | .dir _ => true
  | _ => false

/-- `_candidates`, with the number of levels that may still be entered. -/
def pngCandidates : ℕ → List FileName → List (FileName × Node) → List Found
  | left, above, entries =>
    let files := entries.filter fun e => !isDir e.2 && decide (['.', 'p', 'n', 'g'] <:+ lower e.1.chars)
    let here := (files.mergeSort byName).map fun e => ⟨above ++ [e.1], e.2⟩
    match left with
    | 0 => here
    | left + 1 =>
      here ++ entries.flatMap fun e =>
        match e.2 with
        | .dir sub => pngCandidates left (above ++ [e.1]) sub
        | _ => []

/-- `_CALL_ID.fullmatch`. -/
def isCallId (text : List Char) : Bool := decide (1 ≤ text.length ∧ text.length ≤ 128) && text.all isTokenChar

/-- The call id that a file right in the directory is named by. -/
def Found.callId (c : Found) : Option (List Char) :=
  match c.path with
  | [name] => if isCallId (stem name.chars) then some (stem name.chars) else none
  | _ => none

def Found.provenance (c : Found) : Option String := c.callId.map fun _ => "artifact_filename"

/-- `_too_large`. -/
def tooLarge (c : Found) (size : ℕ) (reason : String) : FileRef where
  path := String.ofList (outDir ++ '/' :: (c.callId.getD "generated".toList ++ ".png".toList))
  size := size
  skipped := some reason
  imageCallId := c.callId.map String.ofList
  imageProvenance := c.provenance

def isHexDigit (c : Char) : Bool :=
  c.isDigit || (decide ('a' ≤ c) && decide (c ≤ 'f')) || (decide ('A' ≤ c) && decide (c ≤ 'F'))

/-- `_SESSION_ID.fullmatch`. -/
def isSessionId (text : List Char) : Bool :=
  ((text.splitOn '-').map List.length == [8, 4, 4, 4, 12]) && text.all fun c => c == '-' || isHexDigit c

/-- What `export_generated_pngs` has so far. -/
structure Exported where
  refs : List FileRef
  seen : List String
  used : ℕ

def Exported.list (s : Exported) (f : FileRef) : Exported := { s with refs := s.refs ++ [f] }

section Export

variable (tools : ImageTools) (caps : ImageCaps) (since : ℚ) (baseline : Option (List (List Char)))
  (session : List Char) (writes : List Char → Bool) (expires : String)

/-- `generated-<n>-<digest>.png`. -/
def generatedName (n : ℕ) (digest : String) : List Char :=
  "generated-".toList ++ (Nat.repr n).toList ++ '-' :: (digest.toList.take 12 ++ ".png".toList)

def exportStep (s : Exported) (c : Found) : Except FileError Exported :=
  if baseline.any (fun names => names.contains (session ++ '/' :: c.rel)) then .ok s
  else
    match c.node.fileData? with
    | none => .ok s
    | some f =>
      let data := f.data.take (caps.maxBytes + 1)
      if f.data = [] ∨ f.mtime < since then .ok s
      else if caps.maxBytes < f.data.length then .ok (s.list (tooLarge c f.data.length "too_large"))
      else if caps.maxBytes < data.length then .ok (s.list (tooLarge c data.length "too_large"))
      else
        match decodeImage tools data .png with
        | none => .ok s
        | some (width, height) =>
          let digest := tools.sha256 data
          let name := generatedName (s.refs.length + 1) digest
          if digest ∈ s.seen then .ok s
          else if caps.passed (s.used + data.length) then .ok (s.list (tooLarge c data.length "total_budget"))
          else if writes name then
            .ok {
              refs := s.refs ++ [{
                path := String.ofList (outDir ++ '/' :: name), size := data.length, sha256 := some digest,
                width := some width, height := some height, contentB64 := some (b64encode data),
                expiresAt := some expires, imageCallId := c.callId.map String.ofList,
                imageProvenance := c.provenance }]
              seen := digest :: s.seen
              used := s.used + data.length }
          else .error .osError

/-- `export_generated_pngs`, with the tree at `codex_home` where it is set.  `writes` is whether the copy
can be written under `out/`. -/
def exportGeneratedPngs (codexHome : Option Node) (sessionId : Option (List Char)) :
    Except FileError (List FileRef) :=
  match codexHome, sessionId with
  | some home, some session =>
    if isSessionId session then
      match (home.get [generatedDir, session]).bind Node.entries? with
      | none => .ok []
      | some entries =>
        match forLoop (fun s _ => decide (caps.maxCount ≤ s.refs.length))
            (exportStep tools caps since baseline session writes expires) ⟨[], [], 0⟩
            (pngCandidates 3 [] entries) with
        | .error e => .error e
        | .ok s => .ok s.refs
    else .ok []
  | _, _ => .ok []

variable {tools caps since baseline session writes expires}

/-- What holds of the generated images returned so far. -/
structure ExportInv (tools : ImageTools) (caps : ImageCaps) (s : Exported) : Prop where
  sound : ∀ f ∈ s.refs, ∀ data ∈ f.content,
    data.length ≤ caps.maxBytes ∧ f.size = data.length ∧ f.sha256 = some (tools.sha256 data)
  carried : ∀ f ∈ s.refs, f.contentB64 ≠ none → f.content ≠ none
  used : s.used = contentBytes s.refs
  total : ∀ total ∈ caps.totalBytes, s.used ≤ total

theorem ExportInv.list {s : Exported} (hs : ExportInv tools caps s) {f : FileRef} (hf : f.contentB64 = none) :
    ExportInv tools caps (s.list f) where
  sound g hg := by
    rcases List.mem_append.mp hg with hg | hg
    · exact hs.sound g hg
    · obtain rfl := List.mem_singleton.mp hg
      intro data hdata
      rw [content_of_none hf] at hdata
      cases hdata
  carried g hg := by
    rcases List.mem_append.mp hg with hg | hg
    · exact hs.carried g hg
    · obtain rfl := List.mem_singleton.mp hg
      exact fun hsome => absurd hf hsome
  used := by
    rw [Exported.list, contentBytes_append, contentBytes_none (content_of_none hf)]
    exact hs.used
  total := hs.total

theorem le_of_not_passed {bytes : ℕ} (h : caps.passed bytes ≠ true) :
    ∀ total ∈ caps.totalBytes, bytes ≤ total := by
  intro total htotal
  by_contra hlt
  refine h ?_
  rw [ImageCaps.passed, Option.mem_def.mp htotal]
  simpa using hlt

/-- **A step keeps the generated images within their caps.** -/
theorem exportStep_inv {s s' : Exported} {c : Found}
    (h : exportStep tools caps since baseline session writes expires s c = .ok s')
    (hs : ExportInv tools caps s) :
    ExportInv tools caps s' := by
  have hsame : (Except.ok s : Except FileError Exported) = .ok s' → ExportInv tools caps s' := by
    intro heq
    obtain rfl := Except.ok.inj heq
    exact hs
  have hlist : ∀ size reason,
      (Except.ok (s.list (tooLarge c size reason)) : Except FileError Exported) = .ok s' →
      ExportInv tools caps s' := by
    intro size reason heq
    obtain rfl := Except.ok.inj heq
    exact hs.list rfl
  rw [exportStep] at h
  by_cases hbase : baseline.any (fun names => names.contains (session ++ '/' :: c.rel)) = true
  · rw [if_pos hbase] at h
    exact hsame h
  rw [if_neg hbase] at h
  cases hnode : c.node.fileData? with
  | none =>
    rw [hnode] at h
    exact hsame h
  | some f =>
    rw [hnode] at h
    dsimp only at h
    by_cases hold : f.data = [] ∨ f.mtime < since
    · rw [if_pos hold] at h
      exact hsame h
    rw [if_neg hold] at h
    by_cases hlarge : caps.maxBytes < f.data.length
    · rw [if_pos hlarge] at h
      exact hlist _ _ h
    rw [if_neg hlarge] at h
    by_cases hread : caps.maxBytes < (f.data.take (caps.maxBytes + 1)).length
    · rw [if_pos hread] at h
      exact hlist _ _ h
    rw [if_neg hread] at h
    cases hdims : decodeImage tools (f.data.take (caps.maxBytes + 1)) .png with
    | none =>
      rw [hdims] at h
      exact hsame h
    | some dims =>
      rw [hdims] at h
      dsimp only at h
      by_cases hseen : tools.sha256 (f.data.take (caps.maxBytes + 1)) ∈ s.seen
      · rw [if_pos hseen] at h
        exact hsame h
      rw [if_neg hseen] at h
      by_cases hbudget : caps.passed (s.used + (f.data.take (caps.maxBytes + 1)).length) = true
      · rw [if_pos hbudget] at h
        exact hlist _ _ h
      rw [if_neg hbudget] at h
      split_ifs at h
      obtain rfl := Except.ok.inj h
      refine ⟨fun g hg => ?_, fun g hg => ?_, ?_, le_of_not_passed hbudget⟩
      · rcases List.mem_append.mp hg with hg | hg
        · exact hs.sound g hg
        · obtain rfl := List.mem_singleton.mp hg
          intro data hdata
          rw [content_of_some rfl] at hdata
          obtain rfl := Option.some.inj hdata
          exact ⟨Nat.not_lt.mp hread, rfl, rfl⟩
      · rcases List.mem_append.mp hg with hg | hg
        · exact hs.carried g hg
        · obtain rfl := List.mem_singleton.mp hg
          rw [content_of_some rfl]
          exact fun _ => Option.some_ne_none _
      · rw [contentBytes_append, contentBytes_some (content_of_some rfl), hs.used]

/-- **The generated images keep to their caps.** -/
theorem exportGeneratedPngs_sound {codexHome : Option Node} {sessionId : Option (List Char)}
    {refs : List FileRef}
    (h : exportGeneratedPngs tools caps since baseline writes expires codexHome sessionId = .ok refs) :
    ∃ s, ExportInv tools caps s ∧ s.refs = refs := by
  have hempty : ExportInv tools caps ⟨[], [], 0⟩ :=
    ⟨fun f hf => (List.not_mem_nil hf).elim, fun f hf => (List.not_mem_nil hf).elim, rfl,
      fun total _ => Nat.zero_le total⟩
  have hnil : (Except.ok [] : Except FileError (List FileRef)) = .ok refs →
      ∃ s, ExportInv tools caps s ∧ s.refs = refs :=
    fun heq => ⟨_, hempty, Except.ok.inj heq⟩
  unfold exportGeneratedPngs at h
  split at h
  · split_ifs at h
    · split at h
      · exact hnil h
      · split at h
        · cases h
        · rename_i s hloop
          have hinv : ExportInv tools caps s :=
            forLoop_induct hloop hempty fun _ _ _ _ _ hstep hs => exportStep_inv hstep hs
          exact ⟨s, hinv, Except.ok.inj h⟩
    · exact hnil h
  · exact hnil h

end Export

/-! ### Images under `out/` -/

/-- `_norm`. -/
def norm (path : List Char) : List Char := (normpath path).map fun c => if c = '\\' then '/' else c

/-- `_MAX_OUT_SCANNED`. -/
def maxOutScanned : ℕ := 5000

/-- `_MAX_OUT_FILES`. -/
def maxOutFiles : ℕ := 200

/-- `_MAX_OUT_DEPTH`. -/
def maxOutDepth : ℕ := 8

/-- `_MAX_OUT_SKIPPED`. -/
def maxOutSkipped : ℕ := 20

/-- What the walk over `out/` has so far. -/
structure OutScan where
  scanned : ℕ
  found : List (List FileName)
  stopped : Bool

/-- The entries of one directory: the walk after them, and the directories among them. -/
def scanEntries (above : List FileName) : OutScan → List (FileName × Node) →
    OutScan × List (FileName × List (FileName × Node))
  | s, [] => (s, [])
  | s, e :: entries =>
    let s' := { s with scanned := s.scanned + 1 }
    if maxOutScanned < s'.scanned ∨ maxOutFiles ≤ s'.found.length then ({ s' with stopped := true }, [])
    else
      match e.2 with
      | .dir sub =>
        let r := scanEntries above s' entries
        (r.1, (e.1, sub) :: r.2)
      | _ =>
        if (extFormat (lower (suffix e.1.chars))).isSome then
          scanEntries above { s' with found := s'.found ++ [above ++ [e.1]] } entries
        else scanEntries above s' entries

/-- A directory and those below it, with the number of levels that may still be entered.  The stack of
the walk holds the directories still to come, in order. -/
def scanDir : ℕ → List FileName → OutScan → List (FileName × Node) → OutScan
  | left, above, s, entries =>
    let r := scanEntries above s ((entries.take (maxOutScanned - s.scanned + 1)).mergeSort byName)
    match left with
    | 0 => r.1
    | left + 1 => r.2.foldl (fun s d => if s.stopped then s else scanDir left (above ++ [d.1]) s d.2) r.1

/-- `_out_candidates`. -/
def outCandidates (entries : List (FileName × Node)) : List (List FileName) :=
  (scanDir maxOutDepth [] ⟨0, [], false⟩ entries).found.mergeSort
    fun a b => decide (a.map FileName.chars ≤ b.map FileName.chars)

/-- `path.relative_to(ws).as_posix()` of a path under `out/`. -/
def outRel (path : List FileName) : List Char := join (outDir :: path.map FileName.chars)

/-- `_opened_regular`. -/
def openedRegular (f : FileData) (maxBytes : ℕ) : Option Bytes :=
  if f.links ≠ 1 then none else some (f.data.take (maxBytes + 1))

/-- `_load_out_image`: the bytes, the size, and why the file is skipped. -/
def loadOutImage (ws : Node) (rel : List Char) (maxBytes : ℕ) :
    Except FileError (Bytes × ℕ × Option String) :=
  match safeFile ws rel with
  | .error e => .error e
  | .ok none => .ok ([], 0, some "unsafe_path")
  | .ok (some f) =>
    if f.data = [] then .ok ([], 0, some "empty")
    else if maxBytes < f.data.length then .ok ([], f.data.length, some "too_large")
    else
      match openedRegular f maxBytes with
      | none => .ok ([], f.data.length, some "unsafe_path")
      | some data =>
        if maxBytes < data.length then .ok ([], data.length, some "too_large")
        else .ok (data, data.length, none)

/-- What `collect_out_images` has so far. -/
structure OutCollected where
  refs : List FileRef
  seen : List String
  delivered : ℕ
  rejected : ℕ
  used : ℕ

section Out

variable (tools : ImageTools) (ws : Node) (caps : ImageCaps) (expires : String) (skipPaths : List (List Char))

/-- A rejected file is listed, up to a number. -/
def OutCollected.reject (s : OutCollected) (rel : List Char) (size : ℕ) (reason : String) : OutCollected :=
  if s.rejected < maxOutSkipped then
    { s with
      refs := s.refs ++ [{ path := String.ofList rel, size, skipped := some reason }]
      rejected := s.rejected + 1 }
  else s

def outStep (s : OutCollected) (path : List FileName) : Except FileError OutCollected :=
  let rel := outRel path
  if skipPaths.contains rel then .ok s
  else
    match loadOutImage ws rel caps.maxBytes,
        extFormat (lower (suffix ((path.map FileName.chars).getLastD []))) with
    | .error e, _ => .error e
    | .ok (_, size, some reason), _ => .ok (s.reject rel size reason)
    | .ok _, none => .error .keyError
    | .ok (data, size, none), some fmt =>
      match decodeImage tools data fmt with
      | none => .ok (s.reject rel size "not_an_image")
      | some (width, height) =>
        let digest := tools.sha256 data
        if digest ∈ s.seen then .ok s
        else if caps.passed (s.used + size) then .ok (s.reject rel size "total_budget")
        else
          .ok { s with
            refs := s.refs ++ [{
              path := String.ofList rel, size, sha256 :=
                some digest, width := some width, height := some height,
              contentB64 := some (b64encode data), expiresAt := some expires }]
            seen := digest :: s.seen
            delivered := s.delivered + 1
            used := s.used + size }

/-- `collect_out_images`. -/
def collectOutImages (excludeSha excludePaths : List String) : Except FileError (List FileRef) :=
  match (ws.get [outDir]).bind Node.entries? with
  | none => .ok []
  | some entries =>
    let skipPaths := excludePaths.map fun p => norm p.toList
    match forLoop (fun s path => !skipPaths.contains (outRel path) && decide (caps.maxCount ≤ s.delivered))
        (outStep tools ws caps expires skipPaths) ⟨[], excludeSha, 0, 0, 0⟩ (outCandidates entries) with
    | .error e => .error e
    | .ok s => .ok s.refs

variable {tools ws caps expires skipPaths}

/-- A file that is loaded is within the cap. -/
theorem loadOutImage_loaded {rel : List Char} {maxBytes size : ℕ} {data : Bytes}
    (h : loadOutImage ws rel maxBytes = .ok (data, size, none)) :
      size = data.length ∧ data.length ≤ maxBytes := by
  rw [loadOutImage] at h
  cases hf : safeFile ws rel with
  | error e =>
    rw [hf] at h
    cases h
  | ok f =>
    rw [hf] at h
    cases f with
    | none => cases h
    | some f =>
      dsimp only at h
      by_cases hempty : f.data = []
      · rw [if_pos hempty] at h
        cases h
      rw [if_neg hempty] at h
      by_cases hsize : maxBytes < f.data.length
      · rw [if_pos hsize] at h
        cases h
      rw [if_neg hsize] at h
      cases hread : openedRegular f maxBytes with
      | none =>
        rw [hread] at h
        cases h
      | some read =>
        rw [hread] at h
        dsimp only at h
        split_ifs at h with hlarge
        · cases h
        · obtain ⟨rfl, hrest⟩ := Prod.mk.inj (Except.ok.inj h)
          exact ⟨(Prod.mk.inj hrest).1.symm, Nat.not_lt.mp hlarge⟩

/-- One step leaves everything, rejects the file, or returns it. -/
theorem outStep_cases {s s' : OutCollected} {path : List FileName}
    (h : outStep tools ws caps expires skipPaths s path = .ok s') :
    s' = s ∨ (∃ size reason, s' = s.reject (outRel path) size reason) ∨
    ∃ (f : FileRef) (data : Bytes), f.path = String.ofList (outRel path) ∧ f.content = some data ∧
      outRel path ∉ skipPaths ∧ loadOutImage ws (outRel path) caps.maxBytes = .ok (data, data.length, none) ∧
      tools.sha256 data ∉ s.seen ∧ caps.passed (s.used + data.length) ≠ true ∧
      s' = { s with
        refs := s.refs ++ [f], seen := tools.sha256 data :: s.seen, delivered := s.delivered + 1,
        used := s.used + data.length } := by
  rw [outStep] at h
  dsimp only at h
  by_cases hskip : skipPaths.contains (outRel path) = true
  · rw [if_pos hskip] at h
    exact .inl (Except.ok.inj h).symm
  rw [if_neg hskip] at h
  rw [List.contains_iff_mem] at hskip
  cases hload : loadOutImage ws (outRel path) caps.maxBytes with
  | error e =>
    rw [hload] at h
    cases h
  | ok loaded =>
    obtain ⟨data, size, reason⟩ := loaded
    rw [hload] at h
    cases reason with
    | some reason => exact .inr (.inl ⟨_, _, (Except.ok.inj h).symm⟩)
    | none =>
      obtain ⟨rfl, -⟩ := loadOutImage_loaded hload
      cases hfmt : extFormat (lower (suffix ((path.map FileName.chars).getLastD []))) with
      | none =>
        rw [hfmt] at h
        cases h
      | some fmt =>
        rw [hfmt] at h
        dsimp only at h
        cases hdims : decodeImage tools data fmt with
        | none =>
          rw [hdims] at h
          exact .inr (.inl ⟨_, _, (Except.ok.inj h).symm⟩)
        | some dims =>
          rw [hdims] at h
          dsimp only at h
          by_cases hseen : tools.sha256 data ∈ s.seen
          · rw [if_pos hseen] at h
            exact .inl (Except.ok.inj h).symm
          rw [if_neg hseen] at h
          by_cases hbudget : caps.passed (s.used + data.length) = true
          · rw [if_pos hbudget] at h
            exact .inr (.inl ⟨_, _, (Except.ok.inj h).symm⟩)
          rw [if_neg hbudget] at h
          exact .inr (.inr ⟨_, data, rfl, content_of_some rfl, hskip, rfl, hseen, hbudget,
            (Except.ok.inj h).symm⟩)

/-- Two lists of files share no content, as far as digests tell. -/
def DigestsApart (tools : ImageTools) (g f : FileRef) : Prop :=
  ∀ data ∈ g.content, ∀ data' ∈ f.content, tools.sha256 data ≠ tools.sha256 data'

/-- Where an image that is returned comes from. -/
def Loaded (ws : Node) (caps : ImageCaps) (skipPaths : List (List Char)) (f : FileRef) : Prop :=
  ∀ data ∈ f.content, ∃ path, f.path = String.ofList (outRel path) ∧ outRel path ∉ skipPaths ∧
    loadOutImage ws (outRel path) caps.maxBytes = .ok (data, data.length, none)

/-- What holds of the images under `out/` returned so far. -/
structure OutInv (tools : ImageTools) (ws : Node) (caps : ImageCaps) (skipPaths : List (List Char))
    (excludeSha : List String) (s : OutCollected) : Prop where
  loaded : ∀ f ∈ s.refs, Loaded ws caps skipPaths f
  fresh : ∀ f ∈ s.refs, ∀ data ∈ f.content, tools.sha256 data ∉ excludeSha
  apart : s.refs.Pairwise (DigestsApart tools)
  excluded : ∀ x ∈ excludeSha, x ∈ s.seen
  seen : ∀ f ∈ s.refs, ∀ data ∈ f.content, tools.sha256 data ∈ s.seen
  used : s.used = contentBytes s.refs
  total : ∀ total ∈ caps.totalBytes, s.used ≤ total

variable {excludeSha : List String}

theorem OutInv.reject {s : OutCollected} (hs : OutInv tools ws caps skipPaths excludeSha s) (rel : List Char)
    (size : ℕ) (reason : String) : OutInv tools ws caps skipPaths excludeSha (s.reject rel size reason) := by
  rw [OutCollected.reject]
  by_cases hroom : s.rejected < maxOutSkipped
  · rw [if_pos hroom]
    have hnone : ∀ {f : FileRef} {data : Bytes},
        f ∈ s.refs ++ [{ path := String.ofList rel, size, skipped := some reason }] →
        data ∈ f.content → f ∈ s.refs := by
      intro f data hf hdata
      rcases List.mem_append.mp hf with hf | hf
      · exact hf
      · obtain rfl := List.mem_singleton.mp hf
        cases hdata
    refine ⟨fun f hf data hdata => hs.loaded f (hnone hf hdata) data hdata,
      fun f hf data hdata => hs.fresh f (hnone hf hdata) data hdata, ?_, hs.excluded,
      fun f hf data hdata => hs.seen f (hnone hf hdata) data hdata, ?_, hs.total⟩
    · refine List.pairwise_append.mpr ⟨hs.apart, List.pairwise_singleton _ _, fun g hg f hf => ?_⟩
      obtain rfl := List.mem_singleton.mp hf
      intro data _ data' hdata'
      cases hdata'
    · rw [contentBytes_append, contentBytes_none (content_of_none rfl)]
      exact hs.used
  · rw [if_neg hroom]
    exact hs

/-- **A step keeps the images under `out/` within their budget, each with a content of its own.** -/
theorem outStep_inv {s s' : OutCollected} {path : List FileName}
    (h : outStep tools ws caps expires skipPaths s path = .ok s')
    (hs : OutInv tools ws caps skipPaths excludeSha s) : OutInv tools ws caps skipPaths excludeSha s' := by
  rcases outStep_cases h with rfl | ⟨size, reason, rfl⟩ |
    ⟨f, data, hpath, hdata, hskip, hload, hseen, hbudget, rfl⟩
  · exact hs
  · exact hs.reject _ _ _
  have hone : ∀ {g : FileRef} {P : FileRef → Bytes → Prop}, (∀ g ∈ s.refs, ∀ d ∈ g.content, P g d) →
      P f data →
      g ∈ s.refs ++ [f] → ∀ d ∈ g.content, P g d := by
    intro g P hold hnew hg d hd
    rcases List.mem_append.mp hg with hg | hg
    · exact hold g hg d hd
    · obtain rfl := List.mem_singleton.mp hg
      obtain rfl : data = d := by simpa [hdata] using hd
      exact hnew
  refine ⟨fun g hg => hone hs.loaded ⟨path, hpath, hskip, hload⟩ hg,
    fun g hg => hone hs.fresh (fun hmem => hseen (hs.excluded _ hmem)) hg, ?_,
    fun x hx => List.mem_cons_of_mem _ (hs.excluded x hx),
    fun g hg => hone (fun g hg d hd => List.mem_cons_of_mem _ (hs.seen g hg d hd)) List.mem_cons_self hg, ?_,
    le_of_not_passed hbudget⟩
  · refine List.pairwise_append.mpr ⟨hs.apart, List.pairwise_singleton _ _, fun g hg f' hf' => ?_⟩
    obtain rfl := List.mem_singleton.mp hf'
    intro d hd d' hd' heq
    obtain rfl : data = d' := by simpa [hdata] using hd'
    exact hseen (heq ▸ hs.seen g hg d hd)
  · rw [contentBytes_append, contentBytes_some hdata, hs.used]

/-- **The images under `out/` keep to their caps, and none has a content or a path that is excluded.** -/
theorem collectOutImages_sound {excludePaths : List String} {refs : List FileRef}
    (h : collectOutImages tools ws caps expires excludeSha excludePaths = .ok refs) :
    (∀ f ∈ refs, Loaded ws caps (excludePaths.map fun p => norm p.toList) f) ∧
    (∀ f ∈ refs, ∀ data ∈ f.content, tools.sha256 data ∉ excludeSha) ∧ refs.Pairwise (DigestsApart tools) ∧
    ∀ total ∈ caps.totalBytes, contentBytes refs ≤ total := by
  have hempty : OutInv tools ws caps (excludePaths.map fun p => norm p.toList) excludeSha
      ⟨[], excludeSha, 0, 0, 0⟩ :=
    ⟨fun f hf => (List.not_mem_nil hf).elim, fun f hf => (List.not_mem_nil hf).elim, .nil, fun _ hx => hx,
      fun f hf => (List.not_mem_nil hf).elim, rfl, fun total _ => Nat.zero_le total⟩
  have hsound : ∀ {s}, OutInv tools ws caps (excludePaths.map fun p => norm p.toList) excludeSha s →
      ∀ total ∈ caps.totalBytes, contentBytes s.refs ≤ total := by
    intro s hs total htotal
    rw [← hs.used]
    exact hs.total total htotal
  rw [collectOutImages] at h
  cases hdir : (ws.get [outDir]).bind Node.entries? with
  | none =>
    rw [hdir] at h
    obtain rfl := Except.ok.inj h
    exact ⟨hempty.loaded, hempty.fresh, hempty.apart, hsound hempty⟩
  | some entries =>
    rw [hdir] at h
    dsimp only at h
    split at h
    · cases h
    · rename_i s hloop
      obtain rfl := Except.ok.inj h
      have hs := forLoop_induct hloop hempty fun _ _ _ _ _ hstep hs => outStep_inv hstep hs
      exact ⟨hs.loaded, hs.fresh, hs.apart, hsound hs⟩

end Out

end Broker.Agent
