import Mathlib.Algebra.Order.BigOperators.Group.List
import Broker.Agent.Images

/-!
# Broker.Agent.Deliver — what a completed run returns

After `run.completed` the worker collects the files the run has named, the images the adapter exports and the
images under `out/`, in this order; the last collection is given what the first two have returned and what is
left of the byte budget for images.  `WithinCaps` is what the caps promise of the three together, `Respects`
what they promise of the contents of the files.
-/

namespace Broker.Agent

open Broker.Lib PosixPath

/-- The caps of `ExecConfig`. -/
structure DeliverCaps where
  files : FileCaps
  imageMaxBytes : ℕ
  imageMaxCount : ℕ
  imageTotalBytes : ℕ

/-- The adapter of a run, with what `CodexCLI` reads of itself and of the run before it exports. -/
inductive ExportAdapter where
  | plain
  | codex (sessionId : Option (List Char)) (imageBaseline : Option (List (List Char)))
      (imageSessionId : Option (List Char))

/-- What the collection of a completed run reads.  The workspace is given twice: the export writes under
`out/` between the two looks at it. -/
structure CompletedRun where
  word : Char → Bool
  tools : ImageTools
  roots : List (List Char)
  changed : List String
  reported : List String
  ws : Node
  wsOut : Node
  codexHome : Option Node
  adapter : ExportAdapter
  since : ℚ
  writes : List Char → Bool
  expires : String

/-- What is returned. -/
structure Delivery where
  files : List FileRef
  images : List FileRef
  outImages : List FileRef

section Deliver

variable (run : CompletedRun) (caps : DeliverCaps)

def exportCaps : ImageCaps := ⟨caps.imageMaxBytes, caps.imageMaxCount, some caps.imageTotalBytes⟩

/-- `export_artifacts`. -/
def exportArtifacts : Except FileError (List FileRef) :=
  match run.adapter with
  | .codex none (some baseline) (some session) =>
    if baseline.any fun p => decide (session ++ ['/'] <+: p) then .ok []
    else
      exportGeneratedPngs run.tools (exportCaps caps) run.since (some baseline) run.writes run.expires
        run.codexHome (some session)
  | _ => .ok []

/-- `_export_images`: an export that fails returns nothing. -/
def exportImages : List FileRef :=
  match exportArtifacts run caps with
  | .ok refs => refs
  | .error _ => []

/-- `if f.content_b64`. -/
def carriesBytes (f : FileRef) : Bool := f.contentB64.any (· ≠ "")

/-- The bytes that `_collect_out_images` counts as spent. -/
def spent (images : List FileRef) : ℤ := ((images.filter carriesBytes).map FileRef.size).sum

/-- The digests that `_collect_out_images` excludes. -/
def deliveredShas (tools : ImageTools) (files images : List FileRef) : List String :=
  images.filterMap (fun f => f.sha256.filter (· ≠ "")) ++
    (contents (files.filter carriesBytes)).map tools.sha256

def outCaps (images : List FileRef) : ImageCaps :=
  ⟨caps.imageMaxBytes, caps.imageMaxCount, some (caps.imageTotalBytes - spent images).toNat⟩

/-- `_collect_out_images`: a collection that fails returns nothing. -/
def collectOutImagesOf (files images : List FileRef) : List FileRef :=
  match collectOutImages run.tools run.wsOut (outCaps caps images) run.expires
      (deliveredShas run.tools files images) ((files ++ images).map FileRef.path) with
  | .ok refs => refs
  | .error _ => []

/-- The collection that `execute_run` does after `run.completed`. -/
def deliver : Except FileError Delivery :=
  match collectFiles run.word run.ws caps.files run.expires run.roots (run.changed ++ run.reported) with
  | .error e => .error e
  | .ok files =>
    .ok {
      files, images := exportImages run caps
      outImages := collectOutImagesOf run caps files (exportImages run caps) }

end Deliver

/-! ### What the caps promise -/

/-- What the caps promise of everything that is returned, whatever the run wrote.  A path with a backslash
is told apart from no other: `_norm` reads the backslash as a slash in one of the two paths it compares. -/
structure WithinCaps (tools : ImageTools) (caps : DeliverCaps) (d : Delivery) : Prop where
  file_count : (d.files.filterMap FileRef.delivered).length ≤ caps.files.maxCount
  image_size : ∀ f ∈ d.images ++ d.outImages, ∀ data ∈ f.content, data.length ≤ caps.imageMaxBytes
  image_total : contentBytes (d.images ++ d.outImages) ≤ caps.imageTotalBytes
  out_digest : ∀ f ∈ d.outImages, ∀ data ∈ f.content, ∀ g ∈ d.files ++ d.images, ∀ data' ∈ g.content,
    data' ≠ [] → tools.sha256 data' ≠ tools.sha256 data
  out_path : ∀ f ∈ d.outImages, f.content ≠ none → '\\' ∉ f.path.toList →
    ∀ g ∈ d.files ++ d.images, norm g.path.toList ≠ norm f.path.toList
  digests_apart : d.outImages.Pairwise (DigestsApart tools)
  paths_apart : d.outImages.Pairwise fun g f => g.content ≠ none → f.content ≠ none →
    '\\' ∉ g.path.toList → '\\' ∉ f.path.toList → norm g.path.toList ≠ norm f.path.toList

/-- What they promise of the contents of the files. -/
structure Respects (caps : DeliverCaps) (d : Delivery) : Prop where
  file_size : ∀ f ∈ d.files.filterMap FileRef.delivered, f.2.length ≤ caps.files.maxBytes
  file_total : ((d.files.filterMap FileRef.delivered).map fun f => f.2.length).sum ≤ caps.files.totalBytes
  file_once : ((d.files.filterMap FileRef.delivered).map fun f => parts f.1).Nodup

/-- The admitted files keep to the caps with what the redaction makes of them, and are named in one
spelling. -/
structure DiskSound (run : CompletedRun) (caps : DeliverCaps) : Prop where
  size : ∀ f ∈ admitted run.ws caps.files 0 0 (listedNames run.roots (run.changed ++ run.reported)),
    (redactBytes run.word f.2).length ≤ caps.files.maxBytes
  total : ((admitted run.ws caps.files 0 0 (listedNames run.roots (run.changed ++ run.reported))).map
    fun f => (redactBytes run.word f.2).length).sum ≤ caps.files.totalBytes
  once : ((admitted run.ws caps.files 0 0 (listedNames run.roots (run.changed ++ run.reported))).map
    fun f => parts f.1).Nodup

/-! ### What always holds -/

def outName : FileName := ⟨outDir, by decide, by decide, by decide, by decide, by decide⟩

/-- A path under `out/` that has no backslash is its own spelling. -/
theorem norm_outRel {path : List FileName} (h : '\\' ∉ outRel path) : norm (outRel path) = outRel path := by
  have hjoin : outRel path = join ((outName :: path).map FileName.chars) := rfl
  rw [norm, hjoin, normpath_join (List.cons_ne_nil _ _), ← hjoin]
  calc (outRel path).map (fun c => if c = '\\' then '/' else c) = (outRel path).map id := by
        refine List.map_congr_left fun c hc => if_neg ?_
        rintro rfl
        exact h hc
    _ = outRel path := List.map_id _

section Images

variable {run : CompletedRun} {caps : DeliverCaps}

/-- **The images of the export keep to their caps.** -/
theorem exportImages_sound (run : CompletedRun) (caps : DeliverCaps) :
    ∃ s, ExportInv run.tools
    (exportCaps caps) s ∧ s.refs = exportImages run caps := by
  have hnil : ∀ refs : List FileRef, refs = [] → ∃ s, ExportInv run.tools (exportCaps caps) s ∧
    s.refs = refs := by
    rintro refs rfl
    exact ⟨⟨[], [], 0⟩, ⟨fun f hf => (List.not_mem_nil hf).elim, fun f hf => (List.not_mem_nil hf).elim, rfl,
      fun total _ => Nat.zero_le total⟩, rfl⟩
  rw [exportImages]
  cases hrefs : exportArtifacts run caps with
  | error e => exact hnil _ rfl
  | ok refs =>
    dsimp only
    unfold exportArtifacts at hrefs
    split at hrefs
    · split_ifs at hrefs with howned
      · exact hnil _ (Except.ok.inj hrefs).symm
      · exact exportGeneratedPngs_sound hrefs
    · exact hnil _ (Except.ok.inj hrefs).symm

theorem content_of_not_carriesBytes {f : FileRef} {data : Bytes} (h : carriesBytes f ≠ true)
    (hdata : f.content = some data) : data = [] := by
  rw [FileRef.content] at hdata
  obtain ⟨text, htext, hdecode⟩ := Option.bind_eq_some_iff.mp hdata
  have hempty : text = "" := by
    by_contra hne
    exact h (by simp [carriesBytes, htext, hne])
  have hnil : b64decode "" = some [] := by decide
  rw [hempty, hnil] at hdecode
  exact (Option.some.inj hdecode).symm

/-- What is counted as spent is at least what is returned. -/
theorem contentBytes_le_spent {s : Exported} {imageCaps : ImageCaps} {tools : ImageTools}
    (hs : ExportInv tools imageCaps s) : (contentBytes s.refs : ℤ) ≤ spent s.refs := by
  have hone : ∀ refs : List FileRef, (∀ f ∈ refs, f ∈ s.refs) → (contentBytes refs : ℤ) ≤ spent refs := by
    intro refs
    induction refs with
    | nil => exact fun _ => le_rfl
    | cons f refs ih =>
      intro hmem
      have hrest : (contentBytes refs : ℤ) ≤ spent refs := ih fun g hg => hmem g (List.mem_cons_of_mem _ hg)
      have hf : f ∈ s.refs := hmem f List.mem_cons_self
      have hcons : contentBytes (f :: refs) = contentBytes [f] + contentBytes refs :=
        contentBytes_append [f] refs
      by_cases hcarries : carriesBytes f = true
      · have hsome : f.contentB64 ≠ none := by
          rintro hnone
          simp [carriesBytes, hnone] at hcarries
        obtain ⟨data, hdata⟩ := Option.ne_none_iff_exists'.mp (hs.carried f hf hsome)
        have hsize : f.size = data.length := (hs.sound f hf data hdata).2.1
        rw [hcons, contentBytes_some hdata, spent, List.filter_cons_of_pos hcarries, List.map_cons,
          List.sum_cons, hsize]
        rw [spent] at hrest
        push_cast
        omega
      · have hzero : contentBytes [f] = 0 := by
          cases hdata : f.content with
          | none => exact contentBytes_none hdata
          | some data =>
            rw [contentBytes_some hdata, content_of_not_carriesBytes hcarries hdata]
            rfl
        rw [hcons, hzero, spent, List.filter_cons_of_neg hcarries, Nat.zero_add]
        exact hrest
  exact hone s.refs fun f hf => hf

/-- **What is left of the budget is enough for the images under `out/`.** -/
theorem images_total (files : List FileRef) :
    contentBytes (exportImages run caps ++ collectOutImagesOf run caps files (exportImages run caps)) ≤
      caps.imageTotalBytes := by
  obtain ⟨s, hs, hrefs⟩ := exportImages_sound run caps
  have hspent := contentBytes_le_spent hs
  have hexport : contentBytes s.refs ≤ caps.imageTotalBytes := hs.used ▸ hs.total _ rfl
  have hout : contentBytes (collectOutImagesOf run caps files s.refs) ≤
      ((caps.imageTotalBytes : ℤ) - spent s.refs).toNat := by
    rw [collectOutImagesOf]
    split
    · rename_i refs hcollect
      exact (collectOutImages_sound hcollect).2.2.2 _ rfl
    · exact Nat.zero_le _
  rw [← hrefs, contentBytes_append]
  omega

/-- The images under `out/` come from paths that are not excluded, with digests of their own. -/
theorem collectOutImagesOf_sound (run : CompletedRun) (caps : DeliverCaps) (files images : List FileRef) :
    (∀ f ∈ collectOutImagesOf run caps files images, Loaded run.wsOut (outCaps caps images)
      (((files ++ images).map FileRef.path).map fun p => norm p.toList) f) ∧
    (∀ f ∈ collectOutImagesOf run caps files images, ∀ data ∈ f.content,
      run.tools.sha256 data ∉ deliveredShas run.tools files images) ∧
    (collectOutImagesOf run caps files images).Pairwise (DigestsApart run.tools) := by
  rw [collectOutImagesOf]
  split
  · rename_i refs hcollect
    obtain ⟨hloaded, hfresh, hapart, -⟩ := collectOutImages_sound hcollect
    exact ⟨hloaded, hfresh, hapart⟩
  · exact ⟨fun f hf => (List.not_mem_nil hf).elim, fun f hf => (List.not_mem_nil hf).elim, .nil⟩

/-- The digest of everything returned that has a content is excluded. -/
theorem sha256_mem_deliveredShas {files images : List FileRef} {s : Exported} {imageCaps : ImageCaps}
    (hs : ExportInv run.tools imageCaps s) (hrefs : s.refs = images) {g : FileRef} (hg : g ∈ files ++ images)
    {data : Bytes} (hdata : g.content = some data) (hne : data ≠ []) (hsha : run.tools.sha256 data ≠ "") :
    run.tools.sha256 data ∈ deliveredShas run.tools files images := by
  rcases List.mem_append.mp hg with hg | hg
  · refine List.mem_append.mpr (.inr (List.mem_map.mpr ⟨data, ?_, rfl⟩))
    have hcarries : carriesBytes g = true := by
      by_contra hnot
      exact hne (content_of_not_carriesBytes hnot hdata)
    exact List.mem_filterMap.mpr ⟨g, List.mem_filter.mpr ⟨hg, hcarries⟩, hdata⟩
  · refine List.mem_append.mpr (.inl (List.mem_filterMap.mpr ⟨g, hg, ?_⟩))
    rw [(hs.sound g (hrefs ▸ hg) data hdata).2.2]
    simp [Option.filter, hsha]

theorem path_of_loaded {imageCaps : ImageCaps} {skipPaths : List (List Char)} {f : FileRef} {ws : Node}
    (h : Loaded ws imageCaps skipPaths f) (hf : f.content ≠ none) (hplain : '\\' ∉ f.path.toList) :
    ∃ data, f.content = some data ∧ norm f.path.toList = f.path.toList ∧ f.path.toList ∉ skipPaths ∧
      loadOutImage ws f.path.toList imageCaps.maxBytes = .ok (data, data.length, none) := by
  obtain ⟨data, hdata⟩ := Option.ne_none_iff_exists'.mp hf
  obtain ⟨path, hpath, hskip, hload⟩ := h data hdata
  have hchars : f.path.toList = outRel path := by rw [hpath, String.toList_ofList]
  rw [hchars] at hplain ⊢
  exact ⟨data, hdata, norm_outRel hplain, hskip, hload⟩

end Images

/-- A redaction that lengthens no file leaves them within the caps. -/
theorem diskSound_of_length_le {run : CompletedRun} {caps : DeliverCaps}
    (hlength : ∀ f ∈ admitted run.ws caps.files 0 0 (listedNames run.roots (run.changed ++ run.reported)),
      (redactBytes run.word f.2).length ≤ f.2.length)
    (honce : ((admitted run.ws caps.files 0 0 (listedNames run.roots (run.changed ++ run.reported))).map
      fun f => parts f.1).Nodup) : DiskSound run caps where
  size f hf := (hlength f hf).trans (admitted_size _ _ _ f hf)
  total := by
    have htotal := @admitted_total run.ws caps.files
      (listedNames run.roots (run.changed ++ run.reported)) 0 0 (Nat.zero_le _)
    have hsum := List.sum_le_sum hlength
    omega
  once := honce

/-- **Whatever the run wrote, what is returned keeps to the count of files and to the caps of the images, and
returns no image under `out/` twice.** -/
theorem deliver_withinCaps {run : CompletedRun} {caps : DeliverCaps} {files : List FileRef}
    (hsha : ∀ data, run.tools.sha256 data ≠ "")
    (hdelivered : files.filterMap FileRef.delivered =
      (admitted run.ws caps.files 0 0 (listedNames run.roots (run.changed ++ run.reported))).map
        fun f => (f.1, redactBytes run.word f.2)) :
    WithinCaps run.tools caps ⟨files, exportImages run caps,
      collectOutImagesOf run caps files (exportImages run caps)⟩ := by
  obtain ⟨s, hs, hrefs⟩ := exportImages_sound run caps
  obtain ⟨hloaded, hfresh, hapart⟩ := collectOutImagesOf_sound run caps files (exportImages run caps)
  refine ⟨?_, ?_, images_total files, ?_, ?_, hapart, ?_⟩
  · rw [hdelivered, List.length_map]
    have hcount := @length_admitted_le run.ws caps.files
      (listedNames run.roots (run.changed ++ run.reported)) 0 0
    omega
  · intro f hf data hdata
    rcases List.mem_append.mp hf with hf | hf
    · exact (hs.sound f (hrefs ▸ hf) data hdata).1
    · obtain ⟨path, -, -, hload⟩ := hloaded f hf data hdata
      exact (loadOutImage_loaded hload).2
  · intro f hf data hdata g hg data' hdata' hne heq
    refine hfresh f hf data hdata ?_
    rw [← heq]
    exact sha256_mem_deliveredShas hs hrefs hg hdata' hne (hsha data')
  · intro f hf hcontent hplain g hg heq
    obtain ⟨data, -, hnorm, hskip, -⟩ := path_of_loaded (hloaded f hf) hcontent hplain
    refine hskip (List.mem_map.mpr ⟨g.path, List.mem_map_of_mem hg, ?_⟩)
    rw [heq, hnorm]
  · refine hapart.imp_of_mem fun {g f} hg hf hdigests hgc hfc hgp hfp heq => ?_
    -- one path is one content, and that was excluded
    obtain ⟨data, hdata, hnorm, -, hload⟩ := path_of_loaded (hloaded g hg) hgc hgp
    obtain ⟨data', hdata', hnorm', -, hload'⟩ := path_of_loaded (hloaded f hf) hfc hfp
    rw [hnorm, hnorm'] at heq
    rw [heq, hload'] at hload
    have hsame : data' = data := (Prod.mk.inj (Except.ok.inj hload)).1
    exact hdigests data hdata data' hdata' (hsame ▸ rfl)

/-- **What a completed run returns keeps to the caps of the images and to the count of files, and its files
keep to the byte caps, each returned once, exactly when the redaction leaves the admitted files within them
and no file is named twice.** -/
theorem deliver_respects_iff {run : CompletedRun} {caps : DeliverCaps} {d : Delivery}
    (hsha : ∀ data, run.tools.sha256 data ≠ "") (h : deliver run caps = .ok d) :
    WithinCaps run.tools caps d ∧ (Respects caps d ↔ DiskSound run caps) := by
  rw [deliver] at h
  cases hfiles : collectFiles run.word run.ws caps.files run.expires run.roots
      (run.changed ++ run.reported) with
  | error e =>
    rw [hfiles] at h
    cases h
  | ok files =>
    rw [hfiles] at h
    obtain rfl := Except.ok.inj h
    have hdelivered := collectFiles_delivered hfiles
    refine ⟨deliver_withinCaps hsha hdelivered, fun hd => ?_, fun hdisk => ⟨?_, ?_, ?_⟩⟩
    · have hsize := hd.file_size
      have htotal := hd.file_total
      have honce := hd.file_once
      dsimp only at hsize htotal honce
      rw [hdelivered] at hsize htotal honce
      refine ⟨fun f hf => hsize _ (List.mem_map_of_mem hf), ?_, ?_⟩
      · simpa only [List.map_map, Function.comp_def] using htotal
      · simpa only [List.map_map, Function.comp_def] using honce
    · rw [hdelivered]
      intro f hf
      obtain ⟨a, ha, rfl⟩ := List.mem_map.mp hf
      exact hdisk.size a ha
    · rw [hdelivered, List.map_map]
      exact hdisk.total
    · rw [hdelivered, List.map_map]
      exact hdisk.once

/-! ### A run that has written one note -/

def noteName : FileName := ⟨['a', '.', 't', 'x', 't'], by decide, by decide, by decide, by decide, by decide⟩

def digestOfHi : String := "8f434346648f6b96df89dda901c5176b10a6d83961dd3c1ac88b59b2dc327aa4"

/-- The workspace holds `a.txt` with the two bytes `hi`; the digest is that of `hi`. -/
def noteRun : CompletedRun where
  word := fun c => c.isAlphanum || c == '_'
  tools := ⟨fun _ => none, fun _ => false, fun _ => digestOfHi⟩
  roots := [['/', 'w']]
  changed := ["/w/./a.txt"]
  reported := ["a.txt"]
  ws := .dir [(noteName, .file ⟨[104, 105], 1, 0⟩)]
  wsOut := .dir [(noteName, .file ⟨[104, 105], 1, 0⟩)]
  codexHome := none
  adapter := .plain
  since := 0
  writes := fun _ => true
  expires := "2026-01-01T00:00:00+00:00"

theorem noteRun_respects : ∃ d, deliver noteRun ⟨⟨2, 2, 1⟩, 1, 1, 1⟩ = .ok d ∧ d.files.length = 1 ∧
    WithinCaps noteRun.tools ⟨⟨2, 2, 1⟩, 1, 1, 1⟩ d ∧ Respects ⟨⟨2, 2, 1⟩, 1, 1, 1⟩ d := by
  have digest_ne : digestOfHi ≠ "" := by decide
  obtain ⟨hcaps, hfiles⟩ := @deliver_respects_iff noteRun ⟨⟨2, 2, 1⟩, 1, 1, 1⟩ _ (fun _ => digest_ne) rfl
  refine ⟨_, rfl, rfl, hcaps, hfiles.mpr (diskSound_of_length_le ?_ ?_)⟩
  · decide +kernel
  · decide +kernel

end Broker.Agent
