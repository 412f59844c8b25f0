import Broker.Agent.JobFiles
import Broker.Agent.QuotaWait
import Broker.Lib.Base64

/-!
# Broker.Agent.FileStore — the bytes of a job's files in a table of their own

`store_files` moves the base64 of an image into a row of `deep_job_files` and leaves a `content_ref`
behind; the readers of `Broker.Agent.JobFiles` serve the same JSON as before (`stored_invisible_iff`),
unless the expiry of a moved file has no UTC time in the calendar: then nothing is stored.
-/

namespace Broker.Agent

open Broker.Lib Broker.Lib.Base64

namespace FileStore

/-- The parser of timestamps, `hashlib.sha256(data).hexdigest()` and `str(v)` of a value that is no text. -/
structure FileLib where
  dates : DatetimeLib
  sha256 : List ℕ → String
  pyStr : Val PyFloat → String

inductive StoreError | typeError | dateError (e : DateError)
  deriving DecidableEq

/-- A row of `deep_job_files`; `data` are its bytes. -/
structure FileRow where
  jobId : ℕ
  idx : ℕ
  sha256 : String
  mime : String
  size : ℕ
  expiresAt : Option Datetime
  data : List ℕ
  deriving DecidableEq

/-! ### What is moved -/

/-- `_BINARY_MIMES`. -/
def binaryMimes : List (String × String) :=
  [(".png", "image/png"), (".jpg", "image/jpeg"), (".jpeg", "image/jpeg"), (".webp", "image/webp"), (".gif", "image/gif")]

def octetStream : String := "application/octet-stream"

/-- `lower`, for the extensions of the table: no other character has a letter of them as its lower case. -/
def lowerAscii (c : Char) : Char := if 'A' ≤ c ∧ c ≤ 'Z' then Char.ofNat (c.toNat + 32) else c

/-- `posixpath.splitext(path)[1]`: from the last dot of the name on, unless only dots stand before it. -/
def extension (path : List Char) : String :=
  let name := path.rtakeWhile (· ≠ '/')
  let stem := name.rdropWhile (· ≠ '.')
  if stem.dropLast.any (· ≠ '.') then String.ofList ('.' :: name.rtakeWhile (· ≠ '.')) else ""

/-- `str(path or "")`. -/
def pathText (lib : FileLib) (path : Val PyFloat) : String :=
  if path.truthy then
    match path with
    | .str s => s
    | v => lib.pyStr v
  else ""

/-- `_mime`. -/
def mime (lib : FileLib) (path : Val PyFloat) : String :=
  (OrderedDict.get binaryMimes (extension ((pathText lib path).toList.map lowerAscii))).getD octetStream

/-- `_decode_exact`. -/
def decodeExact (contentB64 : String) : Option (List ℕ) :=
  match decodeStandard contentB64 with
  | none => none
  | some data => if encodeStandard data = contentB64 then some data else none

/-- `_naive_utc`; of the exceptions of the parser and the conversion only the parser's `ValueError` is
caught. -/
def naiveUtc (lib : FileLib) (iso : Val PyFloat) : Except StoreError (Option Datetime) :=
  if iso.truthy then
    match iso with
    | .str s =>
      match lib.dates.fromisoformat s with
      | none => .ok none
      | some (.naive t) => .ok (some t)
      | some (.aware t offset) => ((astimezone lib.dates (.aware t offset)).map some).mapError .dateError
    | _ => .error .typeError
  else .ok none

/-- `data` of the loop: the bytes of a file that is moved. -/
def movedData (lib : FileLib) (f : Doc) : Except StoreError (Option (List ℕ)) :=
  if (f.get "content_b64").truthy ∧ mime lib (f.get "path") ≠ octetStream then
    match f.get "content_b64" with
    | .str c => .ok (decodeExact c)
    | _ => .error .typeError
  else .ok none

/-- The metadata a moved file leaves behind. -/
def movedDoc (f : Doc) (idx : ℕ) : Doc :=
  OrderedDict.setItem ((f.filter fun e => e.1 ≠ "content_b64") ++ [("content_b64", .null)]) refKey (.int idx)

/-- One pass of the loop: the entry of the returned list and the row added. -/
def storeFile (lib : FileLib) (job : ℕ) (f : Doc) (idx : ℕ) : Except StoreError (Doc × Option FileRow) := do
  match ← movedData lib f with
  | none => .ok (f, none)
  | some data =>
    let expiresAt ← naiveUtc lib (f.get "expires_at")
    .ok (movedDoc f idx, some ⟨job, idx, lib.sha256 data, mime lib (f.get "path"), data.length, expiresAt, data⟩)

/-- `store_files`: the returned list and the table; nothing is committed when it raises. -/
def storeFiles (lib : FileLib) (job : ℕ) (files : List Doc) (enabled : Bool) (rows : List FileRow) :
    Except StoreError (List Doc × List FileRow) :=
  if enabled = false then .ok (files, rows)
  else do
    let kept := rows.filter fun r => r.jobId ≠ job
    let stored ← files.zipIdx.mapM fun e => storeFile lib job e.1 e.2
    .ok (stored.map Prod.fst, kept ++ stored.filterMap Prod.snd)

/-! ### The table as the readers see it -/

def isIdx (idx : ℕ) : Val PyFloat → Bool
  | .int n => n = idx
  | _ => false

/-- The rows of a job under the ids asked for, with their bytes encoded. -/
def answer (rows : List FileRow) (job : ℕ) (wanted : List (Val PyFloat)) : List (HashKey × String) :=
  ((rows.filter fun r => decide (r.jobId = job)).filter fun r => wanted.any (isIdx r.idx)).map
    fun r => (.number r.idx, encodeStandard r.data)

/-- The query of `live_files` on the table. -/
def tableOf (rows : List FileRow) (job : ℕ) : FileTable := fun wanted => .ok (answer rows job wanted)

/-! ### File entries -/

/-- A file entry: a JSON object without a `content_ref`, whose content and expiry are texts where it has
them. -/
structure FileEntry where
  doc : Doc
  dict : Val.Dict (.obj doc)
  noRef : ∀ e ∈ doc, e.1 ≠ refKey
  content : doc.get "content_b64" = .null ∨ ∃ c, doc.get "content_b64" = .str c
  expiry : doc.get "expires_at" = .null ∨ ∃ s, doc.get "expires_at" = .str s

/-- The expiry, if it is an aware timestamp, has a UTC time in the calendar. -/
def ExpiryFits (lib : FileLib) (f : Doc) : Prop :=
  ∀ s, f.get "expires_at" = .str s → s ≠ "" →
    ∀ t offset, lib.dates.fromisoformat s = some (.aware t offset) → InCalendar (t.1 - offset)

namespace FileEntry

variable (lib : FileLib) (f : FileEntry)

/-- The bytes of an entry that is moved. -/
def moved : Option (List ℕ) :=
  match movedData lib f.doc with
  | .ok data => data
  | .error _ => none

def isExpired (nowIso : String) : Bool :=
  match f.doc.get "expires_at" with
  | .str s => decide (s ≠ "") && decide (s < nowIso)
  | _ => false

/-- What is left of an entry in the job's row. -/
def kept (idx : ℕ) : Doc := if (f.moved lib).isSome then movedDoc f.doc idx else f.doc

/-- The row of a moved entry. -/
def row (job idx : ℕ) (expiresAt : Option Datetime) : Option FileRow :=
  (f.moved lib).map fun data =>
    ⟨job, idx, lib.sha256 data, mime lib (f.doc.get "path"), data.length, expiresAt, data⟩

variable {lib f}

theorem keys : (f.doc.map Prod.fst).Nodup := (Val.dict_obj.mp f.dict).1

theorem movedData_eq : movedData lib f.doc = .ok (f.moved lib) := by
  have hok : ∃ data, movedData lib f.doc = .ok data := by
    unfold movedData
    split_ifs with h
    · rcases f.content with hnull | ⟨c, hc⟩
      · simp [hnull, Val.truthy] at h
      · rw [hc]
        exact ⟨_, rfl⟩
    · exact ⟨_, rfl⟩
  obtain ⟨data, hdata⟩ := hok
  rw [hdata, moved, hdata]

/-- The bytes of a moved entry are encoded as its content. -/
theorem content_of_moved {data : List ℕ} (h : f.moved lib = some data) :
    f.doc.get "content_b64" = .str (encodeStandard data) := by
  have heq : movedData lib f.doc = .ok (f.moved lib) := movedData_eq
  rw [h] at heq
  unfold movedData at heq
  split_ifs at heq with hm
  · rcases f.content with hnull | ⟨c, hc⟩
    · simp [hnull, Val.truthy] at hm
    · rw [hc] at heq ⊢
      have hexact : decodeExact c = some data := Except.ok.inj heq
      unfold decodeExact at hexact
      split at hexact
      · cases hexact
      · split_ifs at hexact with henc
        obtain rfl := Option.some.inj hexact
        rw [henc]
  · cases Except.ok.inj heq

theorem expired_eq (nowIso : String) : expired f.doc nowIso = .ok (f.isExpired nowIso) := by
  unfold expired isExpired
  rcases f.expiry with hnull | ⟨s, hs⟩
  · simp [hnull, Val.truthy]
  · rw [hs]
    by_cases hne : s = ""
    · simp [hne, Val.truthy]
    · simp [hne, Val.truthy]

/-- The expiry is stored unless its UTC time leaves the calendar. -/
theorem naiveUtc_ok_iff :
    (∃ d, naiveUtc lib (f.doc.get "expires_at") = .ok d) ↔ ExpiryFits lib f.doc := by
  unfold naiveUtc ExpiryFits
  rcases f.expiry with hnull | ⟨s, hs⟩
  · simp [hnull, Val.truthy]
  · rw [hs]
    by_cases hne : s = ""
    · simp [hne, Val.truthy]
    · have htruthy : (Val.str s : Val PyFloat).truthy = true := by simp [Val.truthy, hne]
      rw [if_pos htruthy]
      cases hparse : lib.dates.fromisoformat s with
      | none => simp [hparse]
      | some stamp =>
        cases stamp with
        | naive t => simp [hparse]
        | aware t offset =>
          simp only [hparse, astimezone]
          constructor
          · rintro ⟨d, hd⟩ s' hs' - t' offset' hparse'
            obtain rfl := Val.str.inj hs'
            obtain ⟨rfl, rfl⟩ := Stamp.aware.inj (Option.some.inj (hparse.symm.trans hparse'))
            cases hc : checked (t.1 - offset) with
            | ok u => exact (checked_ok.mp hc).1
            | error e =>
              rw [hc] at hd
              cases hd
          · intro hfits
            have hin := hfits s rfl hne t offset hparse
            rw [(checked_ok (d := ⟨t.1 - offset, hin⟩)).mpr ⟨hin, rfl⟩]
            exact ⟨_, rfl⟩

theorem mem_movedDoc {idx : ℕ} {e : String × Val PyFloat} :
    e ∈ movedDoc f.doc idx ↔ e = (refKey, .int idx) ∨ e = ("content_b64", .null) ∨
      (e ∈ f.doc ∧ e.1 ≠ "content_b64") := by
  have hkey : "content_b64" ≠ refKey := by decide
  unfold movedDoc
  rw [OrderedDict.mem_setItem, List.mem_append, List.mem_filter, List.mem_singleton]
  constructor
  · rintro (rfl | ⟨⟨he, hc⟩ | rfl, -⟩)
    · exact .inl rfl
    · exact .inr (.inr ⟨he, by simpa using hc⟩)
    · exact .inr (.inl rfl)
  · rintro (rfl | rfl | ⟨he, hc⟩)
    · exact .inl rfl
    · exact .inr ⟨.inr rfl, hkey⟩
    · exact .inr ⟨.inl ⟨he, by simpa using hc⟩, f.noRef e he⟩

theorem keys_movedDoc (idx : ℕ) : ((movedDoc f.doc idx).map Prod.fst).Nodup := by
  refine OrderedDict.keys_setItem_nodup ?_
  rw [List.map_append, List.nodup_append]
  refine ⟨f.keys.sublist (List.filter_sublist.map Prod.fst), by simp, fun a ha b hb hab => ?_⟩
  obtain ⟨e, he, rfl⟩ := List.mem_map.mp ha
  obtain rfl : b = "content_b64" := by simpa using hb
  exact absurd hab (by simpa using (List.mem_filter.mp he).2)

theorem get_movedDoc {idx : ℕ} {k : String} (hc : k ≠ "content_b64") (hr : k ≠ refKey) :
    Doc.get (movedDoc f.doc idx) k = f.doc.get k := by
  have hget : OrderedDict.get (movedDoc f.doc idx) k = OrderedDict.get f.doc k := by
    apply Option.ext
    intro v
    rw [OrderedDict.get_eq_some_iff (keys_movedDoc idx), OrderedDict.get_eq_some_iff f.keys, mem_movedDoc]
    constructor
    · rintro (h | h | h)
      · exact absurd (congrArg Prod.fst h) hr
      · exact absurd (congrArg Prod.fst h) hc
      · exact h.1
    · exact fun h => .inr (.inr ⟨h, hc⟩)
  unfold Doc.get
  rw [hget]

theorem get_refKey_movedDoc (idx : ℕ) : Doc.get (movedDoc f.doc idx) refKey = .int idx := by
  have hget : OrderedDict.get (movedDoc f.doc idx) refKey = some (.int idx) :=
    (OrderedDict.get_eq_some_iff (keys_movedDoc idx)).mpr (mem_movedDoc.mpr (.inl rfl))
  unfold Doc.get
  rw [hget]
  rfl

theorem get_refKey : f.doc.get refKey = .null := by
  have hget : OrderedDict.get f.doc refKey = none := by
    rw [Option.eq_none_iff_forall_ne_some]
    intro v hv
    exact f.noRef _ (OrderedDict.mem_of_get hv) rfl
  unfold Doc.get
  rw [hget]
  rfl

/-! ### The served files -/

/-- Overriding the entries of a dictionary. -/
theorem keys_publicFile {d o : Doc} (h : (d.map Prod.fst).Nodup) : ((publicFile d o).map Prod.fst).Nodup :=
  OrderedDict.keys_foldl_setItem_nodup (h.sublist (List.filter_sublist.map Prod.fst))

/-- Served with the bytes of its row, a moved file is what it was inline. -/
theorem publicFile_moved {idx : ℕ} {content : String} (hc : f.doc.get "content_b64" = .str content) :
    Val.Same (.obj (publicFile (movedDoc f.doc idx) [("content_b64", .str content)])) (.obj (publicFile f.doc [])) := by
  refine Val.same_obj_of_perm ((List.perm_ext_iff_of_nodup (keys_publicFile (keys_movedDoc idx)).of_map
    (keys_publicFile f.keys).of_map).mpr fun e => ?_)
  have hmem : ("content_b64", Val.str content) ∈ f.doc := by
    have hget : OrderedDict.get f.doc "content_b64" = some (.str content) := by
      unfold Doc.get at hc
      cases hg : OrderedDict.get f.doc "content_b64" with
      | none => simp [hg] at hc
      | some v => simpa [hg] using hc
    exact OrderedDict.mem_of_get hget
  simp only [publicFile, List.foldl_cons, List.foldl_nil, OrderedDict.mem_setItem, List.mem_filter, mem_movedDoc,
    decide_eq_true_eq]
  constructor
  · rintro (rfl | ⟨⟨rfl | rfl | ⟨he, -⟩, hr⟩, hk⟩)
    · exact ⟨hmem, show "content_b64" ≠ refKey by decide⟩
    · exact absurd rfl hr
    · exact absurd rfl hk
    · exact ⟨he, hr⟩
  · rintro ⟨he, hr⟩
    by_cases hk : e.1 = "content_b64"
    · have hv : e.2 = .str content := by
        have hget := (OrderedDict.get_eq_some_iff f.keys).mpr (show (e.1, e.2) ∈ f.doc from he)
        rw [hk, (OrderedDict.get_eq_some_iff f.keys).mpr hmem] at hget
        exact (Option.some.inj hget).symm
      exact .inl (Prod.ext hk hv)
    · exact .inr ⟨⟨.inr (.inr ⟨he, hk⟩), hr⟩, hk⟩

/-- Blanked, a moved file is what it was inline. -/
theorem publicFile_blanked (idx : ℕ) :
    Val.Same (.obj (publicFile (movedDoc f.doc idx) blanked)) (.obj (publicFile f.doc blanked)) := by
  refine Val.same_obj_of_perm ((List.perm_ext_iff_of_nodup (keys_publicFile (keys_movedDoc idx)).of_map
    (keys_publicFile f.keys).of_map).mpr fun e => ?_)
  simp only [publicFile, blanked, List.foldl_cons, List.foldl_nil, OrderedDict.mem_setItem, List.mem_filter,
    mem_movedDoc, decide_eq_true_eq]
  constructor
  · rintro (rfl | ⟨rfl | ⟨⟨rfl | rfl | ⟨he, -⟩, hr⟩, hk⟩, hx⟩)
    · exact .inl rfl
    · exact .inr ⟨.inl rfl, hx⟩
    · exact absurd rfl hr
    · exact absurd rfl hk
    · exact .inr ⟨.inr ⟨⟨he, hr⟩, hk⟩, hx⟩
  · rintro (rfl | ⟨rfl | ⟨⟨he, hr⟩, hk⟩, hx⟩)
    · exact .inl rfl
    · exact .inr ⟨.inl rfl, hx⟩
    · exact .inr ⟨.inr ⟨⟨.inr (.inr ⟨he, hk⟩), hr⟩, hk⟩, hx⟩

/-! ### One entry -/

/-- An entry is stored unless it is moved and its expiry does not fit. -/
theorem storeFile_ok_iff {job idx : ℕ} :
    (∃ out, storeFile lib job f.doc idx = .ok out) ↔
      ((f.moved lib).isSome = true → ExpiryFits lib f.doc) := by
  unfold storeFile
  rw [movedData_eq]
  cases hm : f.moved lib with
  | none => simp [bind, Except.bind]
  | some data =>
    rw [Option.isSome_some, ← naiveUtc_ok_iff]
    cases hd : naiveUtc lib (f.doc.get "expires_at") with
    | ok d => simp [bind, Except.bind]
    | error e => simp [bind, Except.bind]

/-- What storing an entry returns and adds. -/
theorem storeFile_ok {job idx : ℕ} {out : Doc × Option FileRow} (h : storeFile lib job f.doc idx = .ok out) :
    ∃ expiresAt, out = (f.kept lib idx, f.row lib job idx expiresAt) := by
  unfold storeFile at h
  rw [movedData_eq] at h
  unfold kept row
  cases hm : f.moved lib with
  | none =>
    simp only [hm, bind, Except.bind] at h
    obtain rfl := Except.ok.inj h
    exact ⟨none, rfl⟩
  | some data =>
    rw [hm] at h
    change (naiveUtc lib (f.doc.get "expires_at") >>= _) = _ at h
    obtain ⟨d, -, h⟩ := Checked.bind_ok.mp h
    obtain rfl := Except.ok.inj h
    exact ⟨d, rfl⟩

/-- An entry as it is served inline. -/
def inlineView (nowIso : String) (f : FileEntry) : Doc :=
  if f.isExpired nowIso then publicFile f.doc blanked else publicFile f.doc []

theorem inlineFile_eq (nowIso : String) : inlineFile nowIso (.obj f.doc) = .ok (f.inlineView nowIso) := by
  unfold inlineFile inlineView
  simp only [asFile, expired_eq, bind, Except.bind]
  split_ifs <;> rfl

/-- The id an entry is fetched by. -/
def wanted (nowIso : String) (lib : FileLib) (f : FileEntry) (idx : ℕ) : Option (Val PyFloat) :=
  if (f.moved lib).isSome ∧ f.isExpired nowIso = false then some (.int idx) else none

theorem expired_kept (nowIso : String) (idx : ℕ) :
    expired (f.kept lib idx) nowIso = .ok (f.isExpired nowIso) := by
  unfold kept
  split_ifs
  · rw [← expired_eq]
    unfold expired
    rw [get_movedDoc (by decide) (by decide)]
  · exact expired_eq nowIso

theorem refWanted_eq (nowIso : String) (idx : ℕ) :
    refWanted nowIso (.obj (f.kept lib idx)) = .ok (f.wanted nowIso lib idx) := by
  unfold refWanted wanted
  simp only [asFile, bind, Except.bind, expired_kept]
  unfold kept
  by_cases hm : (f.moved lib).isSome = true
  · simp only [hm, if_true, get_refKey_movedDoc, Val.isNull, Bool.false_eq_true, if_false, true_and]
    by_cases hx : f.isExpired nowIso = true
    · simp [hx]
    · simp [hx]
  · simp [hm, get_refKey, Val.isNull]

/-- An entry as it is served from the job's row and the table. -/
def servedView (nowIso : String) (lib : FileLib) (f : FileEntry) (idx : ℕ) : Doc :=
  if f.isExpired nowIso then publicFile (f.kept lib idx) blanked
  else match f.moved lib with
    | none => publicFile f.doc []
    | some data => publicFile (movedDoc f.doc idx) [("content_b64", .str (encodeStandard data))]

theorem servedFile_eq {nowIso : String} {idx : ℕ} {blobs : List (HashKey × String)}
    (hblobs : ∀ data, f.moved lib = some data → f.isExpired nowIso = false →
      OrderedDict.get blobs (.number idx) = some (encodeStandard data)) :
    servedFile nowIso blobs (.obj (f.kept lib idx)) = .ok (f.servedView nowIso lib idx) := by
  unfold servedFile servedView
  simp only [asFile, bind, Except.bind, expired_kept]
  by_cases hx : f.isExpired nowIso = true
  · simp only [hx, if_true]
  · simp only [hx, Bool.false_eq_true, if_false]
    unfold kept
    cases hm : f.moved lib with
    | none => simp [get_refKey, Val.isNull]
    | some data =>
      have hget := hblobs data hm (by simpa using hx)
      simp [get_refKey_movedDoc, Val.isNull, blobOf, Val.hashKey, hget]

/-- **An entry is served the same** from the table as it was inline. -/
theorem same_view (nowIso : String) (idx : ℕ) :
    Val.Same (.obj (f.servedView nowIso lib idx)) (.obj (f.inlineView nowIso)) := by
  unfold servedView inlineView kept
  by_cases hx : f.isExpired nowIso = true
  · rw [if_pos hx, if_pos hx]
    split_ifs
    · exact publicFile_blanked idx
    · exact Val.Same.refl _
  · rw [if_neg hx, if_neg hx]
    cases hm : f.moved lib with
    | none => exact Val.Same.refl _
    | some data => exact publicFile_moved (content_of_moved hm)

end FileEntry

/-! ### A list of entries -/

section Store

variable {lib : FileLib} {job : ℕ} {files : List FileEntry} {rows rows' : List FileRow} {out : List Doc}

/-- The documents of the entries. -/
def docs (files : List FileEntry) : List Doc := files.map FileEntry.doc

/-- The indices of the entries that are moved. -/
def movedIdx (lib : FileLib) (files : List FileEntry) : List ℕ :=
  (files.zipIdx.filter fun e => (e.1.moved lib).isSome).map Prod.snd

/-- The row a run adds for an entry, its expiry left open. -/
def AddedFor (lib : FileLib) (job : ℕ) (e : FileEntry × ℕ) (o : Doc × Option FileRow) : Prop :=
  ∃ expiresAt, o = (e.1.kept lib e.2, e.1.row lib job e.2 expiresAt)

theorem zipIdx_docs : (docs files).zipIdx = files.zipIdx.map fun e => (e.1.doc, e.2) := by
  unfold docs
  rw [List.zipIdx_map]
  rfl

theorem storeFiles_ok_iff :
    (∃ out rows', storeFiles lib job (docs files) true rows = .ok (out, rows')) ↔
      ∀ f ∈ files, (f.moved lib).isSome = true → ExpiryFits lib f.doc := by
  have hloop : (∃ stored, ((docs files).zipIdx.mapM fun e => storeFile lib job e.1 e.2) = .ok stored) ↔
      ∀ e ∈ files.zipIdx, (e.1.moved lib).isSome = true → ExpiryFits lib e.1.doc := by
    rw [Checked.exists_mapM_ok_iff, zipIdx_docs, List.forall_mem_map]
    exact forall₂_congr fun e _ => FileEntry.storeFile_ok_iff
  have hmem : (∀ e ∈ files.zipIdx, (e.1.moved lib).isSome = true → ExpiryFits lib e.1.doc) ↔
      ∀ f ∈ files, (f.moved lib).isSome = true → ExpiryFits lib f.doc := by
    constructor
    · intro h f hf
      rw [← List.zipIdx_map_fst 0 files] at hf
      obtain ⟨e, he, rfl⟩ := List.mem_map.mp hf
      exact h e he
    · exact fun h e he => h e.1 (List.fst_mem_of_mem_zipIdx he)
  rw [← hmem, ← hloop]
  unfold storeFiles
  rw [if_neg (by decide)]
  constructor
  · rintro ⟨out, rows', h⟩
    obtain ⟨stored, hstored, -⟩ := Checked.bind_ok.mp h
    exact ⟨stored, hstored⟩
  · rintro ⟨stored, hstored⟩
    exact ⟨_, _, Checked.bind_ok.mpr ⟨stored, hstored, rfl⟩⟩

/-- What a run of `store_files` returns and leaves in the table. -/
theorem storeFiles_ok (h : storeFiles lib job (docs files) true rows = .ok (out, rows')) :
    ∃ stored, List.Forall₂ (AddedFor lib job) files.zipIdx stored ∧ out = stored.map Prod.fst ∧
      rows' = (rows.filter fun r => r.jobId ≠ job) ++ stored.filterMap Prod.snd := by
  unfold storeFiles at h
  rw [if_neg (by decide)] at h
  obtain ⟨stored, hstored, h⟩ := Checked.bind_ok.mp h
  obtain ⟨rfl, rfl⟩ := Prod.mk.inj (Except.ok.inj h)
  rw [zipIdx_docs, Checked.mapM_ok, List.forall₂_map_left_iff] at hstored
  exact ⟨stored, hstored.imp fun e o ho => FileEntry.storeFile_ok ho, rfl, rfl⟩

variable {es : List (FileEntry × ℕ)} {stored : List (Doc × Option FileRow)}

theorem map_fst_stored (h : List.Forall₂ (AddedFor lib job) es stored) :
    stored.map Prod.fst = es.map fun e => e.1.kept lib e.2 := by
  induction h with
  | nil => rfl
  | cons ho _ ih =>
    obtain ⟨expiresAt, rfl⟩ := ho
    rw [List.map_cons, List.map_cons, ih]

/-- One row for each moved entry, under its index. -/
theorem idx_stored (h : List.Forall₂ (AddedFor lib job) es stored) :
    (stored.filterMap Prod.snd).map FileRow.idx =
      (es.filter fun e => (e.1.moved lib).isSome).map Prod.snd := by
  induction h with
  | nil => rfl
  | @cons e o es stored ho _ ih =>
    obtain ⟨expiresAt, rfl⟩ := ho
    cases hm : e.1.moved lib with
    | none => simpa [FileEntry.row, hm] using ih
    | some data => simpa [FileEntry.row, hm] using ih

theorem job_stored (h : List.Forall₂ (AddedFor lib job) es stored) {r : FileRow}
    (hr : r ∈ stored.filterMap Prod.snd) : r.jobId = job := by
  obtain ⟨o, ho, hsome⟩ := List.mem_filterMap.mp hr
  induction h with
  | nil => cases ho
  | @cons e o' es stored hadded _ ih =>
    rcases List.mem_cons.mp ho with rfl | ho
    · obtain ⟨expiresAt, rfl⟩ := hadded
      obtain ⟨data, -, rfl⟩ := Option.map_eq_some_iff.mp hsome
      rfl
    · exact ih (List.mem_filterMap.mpr ⟨o, ho, hsome⟩) ho

/-- The row of a moved entry has its bytes. -/
theorem data_stored (h : List.Forall₂ (AddedFor lib job) es stored) {e : FileEntry × ℕ} (he : e ∈ es)
    {data : List ℕ} (hm : e.1.moved lib = some data) :
    ∃ r ∈ stored.filterMap Prod.snd, r.idx = e.2 ∧ r.data = data := by
  induction h with
  | nil => cases he
  | @cons e' o es stored ho _ ih =>
    obtain ⟨expiresAt, rfl⟩ := ho
    rcases List.mem_cons.mp he with rfl | he
    · exact ⟨⟨job, e.2, lib.sha256 data, mime lib (e.1.doc.get "path"), data.length, expiresAt, data⟩,
        by simp [FileEntry.row, hm], rfl, rfl⟩
    · obtain ⟨r, hr, hidx, hdata⟩ := ih he
      refine ⟨r, ?_, hidx, hdata⟩
      rw [List.mem_filterMap] at hr ⊢
      obtain ⟨o, ho, hsome⟩ := hr
      exact ⟨o, List.mem_cons_of_mem _ ho, hsome⟩

/-! ### The readers after a run -/

/-- A served list is the inline one, entry by entry as JSON objects. -/
def ServedAlike (served inline : Except ViewError (Option (List Doc))) : Prop :=
  ∃ as bs, served = .ok (some as) ∧ inline = .ok (some bs) ∧
    List.Forall₂ (fun a b => Val.Same (.obj a) (.obj b)) as bs

theorem movedIdx_nodup (lib : FileLib) (files : List FileEntry) : (movedIdx lib files).Nodup := by
  have hall : (files.zipIdx.map Prod.snd).Nodup := by
    rw [List.zipIdx_map_snd]
    exact List.nodup_range'
  exact hall.sublist (List.filter_sublist.map Prod.snd)

theorem fetchBlobs_tableOf (rows : List FileRow) (job : ℕ) (wanted : List (Val PyFloat)) :
    fetchBlobs (tableOf rows job) wanted = .ok (answer rows job wanted) := by
  cases wanted with
  | nil => simp [fetchBlobs, answer]
  | cons v vs => rfl

/-- The answer to a query has the bytes of every row asked for. -/
theorem get_answer (hnodup : ((rows.filter fun r => decide (r.jobId = job)).map FileRow.idx).Nodup)
    {r : FileRow}
    (hr : r ∈ rows) (hjob : r.jobId = job) {wanted : List (Val PyFloat)} (hw : .int r.idx ∈ wanted) :
    OrderedDict.get (answer rows job wanted) (.number r.idx) = some (encodeStandard r.data) := by
  have hkeys : ((answer rows job wanted).map Prod.fst).Nodup := by
    have hcast : Function.Injective fun n : ℕ => HashKey.number n := fun a b h => by
      simpa using HashKey.number.inj h
    have hidx := (hnodup.sublist ((List.filter_sublist (p := fun r => wanted.any (isIdx r.idx))).map
      FileRow.idx)).map hcast
    unfold answer
    rw [List.map_map] at hidx ⊢
    exact hidx
  rw [OrderedDict.get_eq_some_iff hkeys]
  refine List.mem_map.mpr ⟨r, List.mem_filter.mpr ⟨List.mem_filter.mpr ⟨hr, by simpa using hjob⟩, ?_⟩, rfl⟩
  exact List.any_eq_true.mpr ⟨_, hw, by simp [isIdx]⟩

/-- The rows of the job are those just added. -/
theorem rows_of_job (h : List.Forall₂ (AddedFor lib job) es stored) :
    ((rows.filter fun r => decide (r.jobId ≠ job)) ++ stored.filterMap Prod.snd).filter
      (fun r => decide (r.jobId = job)) = stored.filterMap Prod.snd := by
  rw [List.filter_append, List.filter_filter]
  have hkept : (rows.filter fun r => decide (r.jobId = job) && decide (r.jobId ≠ job)) = [] := by
    rw [List.filter_eq_nil_iff]
    intro r _
    by_cases hj : r.jobId = job <;> simp [hj]
  have hadded : (stored.filterMap Prod.snd).filter (fun r => decide (r.jobId = job)) = stored.filterMap Prod.snd := by
    rw [List.filter_eq_self]
    intro r hr
    simpa using job_stored h hr
  rw [hkept, hadded, List.nil_append]

/-- The rows of other jobs stay. -/
theorem rows_of_others (h : List.Forall₂ (AddedFor lib job) es stored) :
    ((rows.filter fun r => decide (r.jobId ≠ job)) ++ stored.filterMap Prod.snd).filter
      (fun r => decide (r.jobId ≠ job)) = rows.filter fun r => decide (r.jobId ≠ job) := by
  rw [List.filter_append, List.filter_filter]
  have hadded : (stored.filterMap Prod.snd).filter (fun r => decide (r.jobId ≠ job)) = [] := by
    rw [List.filter_eq_nil_iff]
    intro r hr
    simpa using job_stored h hr
  rw [hadded, List.append_nil]
  exact List.filter_congr fun r _ => by rw [Bool.and_self]

/-- **The readers see no difference.** -/
theorem servedAlike_stored (h : storeFiles lib job (docs files) true rows = .ok (out, rows'))
    (now : DateTime) :
    ServedAlike (liveFiles (tableOf rows' job) now (.arr (out.map .obj)))
      (liveFilesInline now (.arr ((docs files).map .obj))) := by
  obtain ⟨stored, hadded, rfl, rfl⟩ := storeFiles_ok h
  rw [map_fst_stored hadded, List.map_map]
  set iso := now.isoformat with hiso
  have hwanted : (files.zipIdx.map fun e => Val.obj (e.1.kept lib e.2)).mapM (refWanted iso) =
      .ok (files.zipIdx.map fun e => e.1.wanted iso lib e.2) :=
    Checked.mapM_map_ok fun e _ => FileEntry.refWanted_eq iso e.2
  have hnodup : ((((rows.filter fun r => decide (r.jobId ≠ job)) ++ stored.filterMap Prod.snd).filter
      fun r => decide (r.jobId = job)).map FileRow.idx).Nodup := by
    rw [rows_of_job hadded, idx_stored hadded]
    exact movedIdx_nodup lib files
  have hviews : (files.zipIdx.map fun e => Val.obj (e.1.kept lib e.2)).mapM (servedFile iso
      (answer ((rows.filter fun r => decide (r.jobId ≠ job)) ++ stored.filterMap Prod.snd) job
        ((files.zipIdx.map fun e => e.1.wanted iso lib e.2).filterMap id))) =
      .ok (files.zipIdx.map fun e => e.1.servedView iso lib e.2) := by
    refine Checked.mapM_map_ok fun e he => FileEntry.servedFile_eq fun data hm hx => ?_
    obtain ⟨r, hr, hidx, hdata⟩ := data_stored hadded he hm
    have hask : Val.int r.idx ∈ (files.zipIdx.map fun e => e.1.wanted iso lib e.2).filterMap id := by
      rw [List.filterMap_map, List.mem_filterMap]
      exact ⟨e, he, by simp [FileEntry.wanted, hm, hx, hidx]⟩
    have hget := get_answer hnodup (List.mem_append_right _ hr) (job_stored hadded hr) hask
    rwa [hidx, hdata] at hget
  refine ⟨files.zipIdx.map fun e => e.1.servedView iso lib e.2, files.map (FileEntry.inlineView iso), ?_, ?_, ?_⟩
  · unfold liveFiles
    rw [if_neg (by simp [Val.isNull])]
    exact Checked.bind_ok.mpr ⟨_, rfl, Checked.bind_ok.mpr ⟨_, hwanted, Checked.bind_ok.mpr
      ⟨_, fetchBlobs_tableOf _ _ _, Checked.bind_ok.mpr ⟨_, hviews, rfl⟩⟩⟩⟩
  · have hinline : ((docs files).map Val.obj).mapM (inlineFile iso) =
        .ok (files.map (FileEntry.inlineView iso)) := by
      unfold docs
      rw [List.map_map]
      exact Checked.mapM_map_ok fun f _ => FileEntry.inlineFile_eq iso
    unfold liveFilesInline
    rw [if_neg (by simp [Val.isNull])]
    exact Checked.bind_ok.mpr ⟨_, rfl, Checked.bind_ok.mpr ⟨_, hinline, rfl⟩⟩
  · have hfiles : files.map (FileEntry.inlineView iso) = files.zipIdx.map fun e => e.1.inlineView iso := by
      conv_lhs => rw [← List.zipIdx_map_fst 0 files, List.map_map]
      rfl
    rw [hfiles, List.forall₂_map_left_iff, List.forall₂_map_right_iff, List.forall₂_same]
    exact fun e _ => FileEntry.same_view iso e.2

/-! ### Storing is invisible -/

/-- What `store_files` should leave: files that are served as before, one row for each moved entry and
none else of the job, those of other jobs untouched, and nothing for a second run to change. -/
structure Invisible (lib : FileLib) (job : ℕ) (files : List FileEntry) (rows : List FileRow) (out : List Doc)
    (rows' : List FileRow) : Prop where
  served : ∀ now, ServedAlike (liveFiles (tableOf rows' job) now (.arr (out.map .obj)))
    (liveFilesInline now (.arr ((docs files).map .obj)))
  one_row : ((rows'.filter fun r => decide (r.jobId = job)).map FileRow.idx) = movedIdx lib files
  others : (rows'.filter fun r => decide (r.jobId ≠ job)) = rows.filter fun r => decide (r.jobId ≠ job)
  again : storeFiles lib job (docs files) true rows' = .ok (out, rows')

theorem invisible_of_ok (h : storeFiles lib job (docs files) true rows = .ok (out, rows')) :
    Invisible lib job files rows out rows' := by
  refine ⟨servedAlike_stored h, ?_, ?_, ?_⟩
  · obtain ⟨stored, hadded, -, rfl⟩ := storeFiles_ok h
    rw [rows_of_job hadded, idx_stored hadded]
    rfl
  · obtain ⟨stored, hadded, -, rfl⟩ := storeFiles_ok h
    exact rows_of_others hadded
  · have hothers : (rows'.filter fun r => decide (r.jobId ≠ job)) = rows.filter fun r => decide (r.jobId ≠ job) := by
      obtain ⟨stored, hadded, -, rfl⟩ := storeFiles_ok h
      exact rows_of_others hadded
    unfold storeFiles at h ⊢
    rw [if_neg (by decide)] at h ⊢
    rw [hothers]
    exact h

/-- **Moving the bytes out of the row is invisible** exactly when the expiry of every moved file that is
an aware timestamp has a UTC time in the years 1 to 9999; otherwise `store_files` raises. -/
theorem stored_invisible_iff (lib : FileLib) (job : ℕ) (files : List FileEntry) (rows : List FileRow) :
    (∃ out rows', storeFiles lib job (docs files) true rows = .ok (out, rows') ∧
      Invisible lib job files rows out rows') ↔
      ∀ f ∈ files, (f.moved lib).isSome = true → ExpiryFits lib f.doc := by
  rw [← storeFiles_ok_iff]
  constructor
  · rintro ⟨out, rows', h, -⟩
    exact ⟨out, rows', h⟩
  · rintro ⟨out, rows', h⟩
    exact ⟨out, rows', h, invisible_of_ok h⟩

end Store

/-! ### An expiry before the calendar -/

/-- The first hour of the year 1, an hour ahead of UTC. -/
def earlyExpiry : String := "0001-01-01T00:00:00+01:00"

/-- A parser that reads `earlyExpiry`. -/
def sampleLib : FileLib where
  dates := {
    fromisoformat := fun s => if s = earlyExpiry then some (.aware ⟨minTime, by decide⟩ (Db.seconds 3600)) else none
    localToUtc := .ok }
  sha256 := fun _ => ""
  pyStr := fun _ => ""

/-- A picture of three bytes. -/
def samplePicture : Doc :=
  [("path", .str "a.png"), ("content_b64", .str "QUJD"), ("expires_at", .str earlyExpiry)]

def sampleEntry : FileEntry where
  doc := samplePicture
  dict := Val.dict_obj.mpr ⟨by decide, by simp [samplePicture, Val.Dict]⟩
  noRef := by decide
  content := .inr ⟨"QUJD", rfl⟩
  expiry := .inr ⟨earlyExpiry, rfl⟩

/-- The picture is canonical base64, but its expiry has no UTC time: nothing is stored. -/
theorem store_raises_on_early_expiry :
    ¬ ∀ (lib : FileLib) (job : ℕ) (files : List FileEntry) (rows : List FileRow),
      ∃ out rows', storeFiles lib job (docs files) true rows = .ok (out, rows') ∧
        Invisible lib job files rows out rows' := by
  intro h
  obtain ⟨out, rows', hok, -⟩ := h sampleLib 1 [sampleEntry] []
  have hmoved : (sampleEntry.moved sampleLib).isSome = true := by decide +kernel
  have hfits := storeFiles_ok_iff.mp ⟨out, rows', hok⟩ sampleEntry (by simp) hmoved
  have hin := hfits earlyExpiry rfl (by decide) ⟨minTime, by decide⟩ (Db.seconds 3600) rfl
  revert hin
  decide

end FileStore

end Broker.Agent
