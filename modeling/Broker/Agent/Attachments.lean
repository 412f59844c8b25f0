import Broker.Lib.Base64
import Broker.Lib.Checked
import Broker.Lib.FileTree
import Broker.Lib.ForLoop
import Broker.Lib.JsonScan
import Broker.Lib.PyText
import Broker.Lib.PyVal

/-!
# Broker.Agent.Attachments — from the image blocks of a job to the files of its workspace

A job for a subscription may carry images as data URLs.  `subscription_messages` takes them out of the
conversation when the job is submitted and leaves a marker with the name of a file; when the job runs,
`write_attachments` checks them once more and writes the files.  An image that is accepted is written
(`accepted_images_written`).
-/

namespace Broker.Agent

open Broker.Lib Broker.Lib.Checked

namespace Attachments

abbrev Text := List Char

/-- The keys of `_TYPES`. -/
inductive MediaType | png | jpeg | webp | gif
  deriving DecidableEq, Repr

namespace MediaType

def all : List MediaType := [.png, .jpeg, .webp, .gif]

def text : MediaType → Text
  | .png => "image/png".toList
  | .jpeg => "image/jpeg".toList
  | .webp => "image/webp".toList
  | .gif => "image/gif".toList

/-- `_TYPES`. -/
def extensions : MediaType → List Text
  | .png => [".png".toList]
  | .jpeg => [".jpg".toList, ".jpeg".toList]
  | .webp => [".webp".toList]
  | .gif => [".gif".toList]

/-- `_SUFFIX`. -/
def suffix : MediaType → Text
  | .png => "png".toList
  | .jpeg => "jpg".toList
  | .webp => "webp".toList
  | .gif => "gif".toList

/-- `_FORMAT`. -/
def format : MediaType → String
  | .png => "PNG"
  | .jpeg => "JPEG"
  | .webp => "WEBP"
  | .gif => "GIF"

/-- `_magic_ok`. -/
def magicOk (data : List ℕ) : MediaType → Bool
  | .png => [0x89, 0x50, 0x4E, 0x47, 0x0D, 0x0A, 0x1A, 0x0A].isPrefixOf data
  | .jpeg => [0xFF, 0xD8, 0xFF].isPrefixOf data
  | .webp => data.take 4 == [0x52, 0x49, 0x46, 0x46] && (data.drop 8).take 4 == [0x57, 0x45, 0x42, 0x50]
  | .gif =>
    data.take 6 == [0x47, 0x49, 0x46, 0x38, 0x37, 0x61] || data.take 6 == [0x47, 0x49, 0x46, 0x38, 0x39, 0x61]

def ofText (text : Text) : Option MediaType := all.find? fun mt => mt.text == text

end MediaType

/-! ### One attachment -/

structure Attachment where
  name : Text
  mediaType : Text
  dataB64 : Option Text
  deriving DecidableEq

/-- `MAX_FILES`. -/
def maxFiles : ℕ := 5

/-- `MAX_BYTES`. -/
def maxBytes : ℕ := 5 * 1024 * 1024

/-- `MAX_TOTAL_BYTES`. -/
def maxTotalBytes : ℕ := 10 * 1024 * 1024

def isAlnum (c : Char) : Bool := c.isAlpha || c.isDigit

/-- `re.fullmatch(NAME_PATTERN, name)`. -/
def nameOk : Text → Bool
  | [] => false
  | c :: cs => isAlnum c && decide (cs.length ≤ 63) &&
    cs.all fun d => isAlnum d || d == '_' || d == '.' || d == '-'

section Decode

variable {φ : Type} (py : PyText φ)

/-- `decode_attachment`. -/
def decodeAttachment (a : Attachment) : Except String (List ℕ) :=
  let name := String.ofList a.name
  if nameOk a.name = false then .error (String.ofList (py.reprStr a.name) ++ ": invalid file name")
  else
    match MediaType.ofText a.mediaType with
    | none => .error (name ++ ": media_type " ++ String.ofList a.mediaType ++ " not allowed")
    | some mt =>
      if mt.extensions.all (fun ext => !ext.isSuffixOf (PosixPath.lower a.name)) then
        .error (name ++ ": extension does not match " ++ String.ofList a.mediaType)
      else
        match Base64.decodeStandard (String.ofList (a.dataB64.getD [])) with
        | none => .error (name ++ ": invalid base64")
        | some data =>
          if data.isEmpty || decide (maxBytes < data.length) then
            .error (name ++ ": empty or larger than " ++ toString maxBytes ++ " bytes")
          else if mt.magicOk data then .ok data
          else .error (name ++ ": content is not a valid " ++ String.ofList a.mediaType)

/-- `validate_attachments`. -/
def validateAttachments (atts : List Attachment) : Except String Unit :=
  if maxFiles < atts.length then .error ("at most " ++ toString maxFiles ++ " attachments")
  else if ¬ (atts.map Attachment.name).Nodup then .error "attachment names must be unique"
  else
    match atts.mapM (decodeAttachment py) with
    | .error e => .error e
    | .ok datas =>
      if maxTotalBytes < (datas.map List.length).sum then
        .error ("attachments exceed " ++ toString maxTotalBytes ++ " bytes in total")
      else .ok ()

/-! ### The files -/

inductive WriteError where
  | value (message : String)
  | fileExists (name : Text)

/-- `inputs/<name>`. -/
def inputPath (name : Text) : Text := "inputs/".toList ++ name

/-- One file, opened with `O_EXCL`; `written` are the files of `inputs` and the paths so far. -/
def writeStep (written : List (Text × List ℕ) × List Text) (a : Attachment) :
    Except WriteError (List (Text × List ℕ) × List Text) :=
  if written.1.any fun f => f.1 == a.name then .error (.fileExists a.name)
  else
    match decodeAttachment py a with
    | .error e => .error (.value e)
    | .ok data => .ok (written.1 ++ [(a.name, data)], written.2 ++ [inputPath a.name])

/-- `write_attachments`; `inputs` are the files that the directory holds. -/
def writeAttachments (inputs : List (Text × List ℕ)) (atts : List Attachment) :
    Except WriteError (List (Text × List ℕ) × List Text) :=
  match validateAttachments py atts with
  | .error e => .error (.value e)
  | .ok () => atts.foldlM (writeStep py) (inputs, [])

end Decode

/-! ### The messages -/

/-- What `Image.open` finds, and whether `load` returns. -/
structure Opened where
  format : String
  width : ℕ
  height : ℕ
  frames : ℕ
  loads : Bool

/-- `MAX_PIXELS`. -/
def maxPixels : ℕ := 25000000

def isBase64Char (c : Char) : Bool := isAlnum c || c == '+' || c == '/'

/-- `[A-Za-z0-9+/]*={0,2}`. -/
def isEncoded (text : Text) : Bool :=
  let padding := text.dropWhile isBase64Char
  decide (padding.length ≤ 2) && padding.all (· == '=')

/-- `_DATA_URL.fullmatch(url)`. -/
def dataUrl (url : Text) : Option (MediaType × Text) :=
  MediaType.all.findSome? fun mt =>
    let start := "data:".toList ++ mt.text ++ ";base64,".toList
    if start.isPrefixOf url && isEncoded (url.drop start.length) then some (mt, url.drop start.length)
    else none

def imageName (number : ℕ) (mt : MediaType) : Text :=
  "image_".toList ++ Nat.toDigits 10 number ++ '.' :: mt.suffix

def attachment (number : ℕ) (image : MediaType × Text) : Attachment where
  name := imageName number image.1
  mediaType := image.1.text
  dataB64 := some image.2

/-- `[attached image: inputs/<name>]`. -/
def marker (name : Text) : Text := "[attached image: ".toList ++ inputPath name ++ [']']

/-- The loops' `attachments`, `total_bytes` and `parts`. -/
structure Blocks where
  attachments : List Attachment
  totalBytes : ℕ
  parts : List Text

section Messages

variable {φ : Type} (py : PyText φ) (opened : List ℕ → Option Opened)

/-- The checks of the image library. -/
def imageProblem (name : String) (mt : MediaType) (raw : List ℕ) : Option String :=
  match opened raw with
  | none => some (name ++ ": image cannot be fully decoded")
  | some image =>
    if image.format ≠ mt.format ∨ maxPixels < image.width * image.height then
      some (name ++ ": image format or pixel limit exceeded")
    else if image.frames ≠ 1 then some (name ++ ": animated images are not supported")
    else if image.loads then none
    else some (name ++ ": image cannot be fully decoded")

/-- An image block's data URL, as far as the block has the shape of one. -/
def blockUrl (block : Doc) : Option (Val PyFloat) :=
  if (Doc.get block "type").isText "image_url" then
    (Doc.get block "image_url").asDict.map fun source => Doc.get source "url"
  else none

def addImage (r : Blocks) (image : MediaType × Text) : Except String Blocks :=
  if maxFiles ≤ r.attachments.length then .error ("at most " ++ toString maxFiles ++ " attachments")
  else if 4 * ((maxBytes + 2) / 3) < image.2.length then
    .error ("image exceeds " ++ toString maxBytes ++ " bytes")
  else
    let a := attachment (r.attachments.length + 1) image
    match decodeAttachment py a with
    | .error e => .error e
    | .ok raw =>
      if maxTotalBytes < r.totalBytes + raw.length then
        .error ("attachments exceed " ++ toString maxTotalBytes ++ " bytes in total")
      else
        match imageProblem opened (String.ofList a.name) image.1 raw with
        | some problem => .error problem
        | none => .ok ⟨r.attachments ++ [a], r.totalBytes + raw.length, r.parts ++ [marker a.name]⟩

/-- One block of a user's message. -/
def addBlock (r : Blocks) : Val PyFloat → Except String Blocks
  | .obj block =>
    match (Doc.get block "type").isText "text", Doc.get block "text" with
    | true, .str text => .ok { r with parts := r.parts ++ [text.toList] }
    | _, _ =>
      match blockUrl block with
      | none => .error "unsupported subscription message block"
      | some (.str url) =>
        match dataUrl url.toList with
        | none => .error "subscription images must be embedded base64 data URLs"
        | some image => addImage py opened r image
      | some _ => .error "subscription images must be embedded base64 data URLs"
  | _ => .error "invalid image or text block"

/-- `"\n".join(parts)`. -/
def joinParts (parts : List Text) : String := String.ofList (['\n'].intercalate parts)

structure Turns where
  turns : List Doc := []
  attachments : List Attachment := []
  totalBytes : ℕ := 0

def addTurn (s : Turns) (message : Doc) : Except String Turns :=
  match Doc.get message "content" with
  | .arr blocks =>
    if (Doc.get message "role").isText "user" then
      match blocks.foldlM (addBlock py opened) ⟨s.attachments, s.totalBytes, []⟩ with
      | .error e => .error e
      | .ok r =>
        .ok ⟨s.turns ++ [OrderedDict.setItem message "content" (.str (joinParts r.parts))], r.attachments,
          r.totalBytes⟩
    else .error "image blocks require a user message"
  | _ => .ok { s with turns := s.turns ++ [message] }

/-- `subscription_messages`. -/
def subscriptionMessages (messages : List Doc) : Except String (List Doc × List Attachment) :=
  match messages.foldlM (addTurn py opened) {} with
  | .error e => .error e
  | .ok s =>
    match validateAttachments py s.attachments with
    | .error e => .error e
    | .ok () => .ok (s.turns, s.attachments)

end Messages

/-! ### What a user has sent -/

/-- The image of a block. -/
def blockImage : Val PyFloat → Option (MediaType × Text)
  | .obj block =>
    (blockUrl block).bind fun url =>
      match url with
      | .str url => dataUrl url.toList
      | _ => none
  | _ => none

/-- What a block is in the prompt, `n` images before it. -/
def blockPart (n : ℕ) (block : Val PyFloat) : Text :=
  match blockImage block with
  | some image => marker (imageName (n + 1) image.1)
  | none =>
    match block with
    | .obj block =>
      match Doc.get block "text" with
      | .str text => text.toList
      | _ => []
    | _ => []

def blockParts : ℕ → List (Val PyFloat) → List Text
  | _, [] => []
  | n, b :: bs => blockPart n b :: blockParts (n + (blockImage b).toList.length) bs

def messageImages (message : Doc) : List (MediaType × Text) :=
  match Doc.get message "content" with
  | .arr blocks => blocks.filterMap blockImage
  | _ => []

/-- The message with a marker for each image. -/
def turnOf (n : ℕ) (message : Doc) : Doc :=
  match Doc.get message "content" with
  | .arr blocks => OrderedDict.setItem message "content" (.str (joinParts (blockParts n blocks)))
  | _ => message

def turnsOf : ℕ → List Doc → List Doc
  | _, [] => []
  | n, m :: ms => turnOf n m :: turnsOf (n + (messageImages m).length) ms

/-- The images as attachments, in the order they were sent. -/
def numbered (images : List (MediaType × Text)) : List Attachment :=
  images.zipIdx.map fun e => attachment (e.2 + 1) e.1

theorem blockParts_concat (n : ℕ) (bs : List (Val PyFloat)) (b : Val PyFloat) :
    blockParts n (bs ++ [b]) = blockParts n bs ++ [blockPart (n + (bs.filterMap blockImage).length) b] := by
  induction bs generalizing n with
  | nil => rfl
  | cons c bs ih =>
    rw [List.cons_append, blockParts, ih, blockParts, List.cons_append]
    congr 3
    cases h : blockImage c with
    | none => rw [List.filterMap_cons_none h]; simp
    | some image =>
      rw [List.filterMap_cons_some h]
      simp only [Option.toList_some, List.length_cons, List.length_nil]
      congr 1
      omega

theorem turnsOf_concat (n : ℕ) (ms : List Doc) (m : Doc) :
    turnsOf n (ms ++ [m]) = turnsOf n ms ++ [turnOf (n + (ms.flatMap messageImages).length) m] := by
  induction ms generalizing n with
  | nil => rfl
  | cons c ms ih =>
    rw [List.cons_append, turnsOf, ih, turnsOf, List.cons_append, List.flatMap_cons, List.length_append,
      Nat.add_assoc]

theorem numbered_concat (images : List (MediaType × Text)) (image : MediaType × Text) :
    numbered (images ++ [image]) = numbered images ++ [attachment (images.length + 1) image] := by
  simp [numbered, List.zipIdx_append]

@[simp] theorem length_numbered (images : List (MediaType × Text)) :
    (numbered images).length = images.length := by simp [numbered]

theorem imageName_injective {n n' : ℕ} {mt mt' : MediaType} (h : imageName n mt = imageName n' mt') :
    n = n' := by
  have hpoint : ∀ n, '.' ∉ "image_".toList ++ Nat.toDigits 10 n := by
    intro n hmem
    rcases List.mem_append.mp hmem with hmem | hmem
    · exact absurd hmem (by decide)
    · exact absurd (isDigit_of_mem_toDigits hmem) (by decide)
  have hstart := (append_sep_inj (hpoint n) (hpoint n') h).1
  exact toDigits_injective (List.append_cancel_left hstart)

theorem names_nodup (images : List (MediaType × Text)) : ((numbered images).map Attachment.name).Nodup := by
  have hpositions : (images.zipIdx.map Prod.snd).Nodup := by
    rw [List.zipIdx_map_snd]
    exact List.nodup_range'
  rw [numbered, List.map_map]
  refine List.Nodup.map_on (fun e he e' he' heq => ?_) (List.Nodup.of_map _ hpositions)
  have hsnd : e.2 = e'.2 := Nat.succ.inj (imageName_injective heq)
  refine Prod.ext ?_ hsnd
  have hget := List.mem_zipIdx_iff_getElem?.mp he
  rw [hsnd, List.mem_zipIdx_iff_getElem?.mp he'] at hget
  exact (Option.some.inj hget).symm

/-! ### What the loops keep -/

section Loops

variable {φ : Type} {py : PyText φ} {opened : List ℕ → Option Opened}

theorem addImage_ok {r r' : Blocks} {image : MediaType × Text} (h : addImage py opened r image = .ok r') :
    r.attachments.length < maxFiles ∧
    ∃ raw, decodeAttachment py (attachment (r.attachments.length + 1) image) = .ok raw ∧
      r.totalBytes + raw.length ≤ maxTotalBytes ∧
      r' = ⟨r.attachments ++ [attachment (r.attachments.length + 1) image], r.totalBytes + raw.length,
        r.parts ++ [marker (imageName (r.attachments.length + 1) image.1)]⟩ := by
  simp only [addImage] at h
  split_ifs at h with hmany hlong
  split at h
  · cases h
  · rename_i raw hraw
    split_ifs at h with htotal
    split at h
    · cases h
    · exact ⟨not_le.mp hmany, raw, hraw, not_lt.mp htotal, (Except.ok.inj h).symm⟩

/-- The attachments of the images so far, all of which can be decoded within the caps. -/
structure Collected (py : PyText φ) (images : List (MediaType × Text)) (atts : List Attachment) (total : ℕ) :
    Prop where
  eq : atts = numbered images
  few : images.length ≤ maxFiles
  decoded : ∃ datas, List.Forall₂ (fun a data => decodeAttachment py a = .ok data) atts datas ∧
    (datas.map List.length).sum = total
  small : total ≤ maxTotalBytes

theorem Collected.nil : Collected py [] [] 0 :=
  ⟨rfl, Nat.zero_le _, ⟨[], List.Forall₂.nil, rfl⟩, Nat.zero_le _⟩

theorem Collected.add {images : List (MediaType × Text)} {r r' : Blocks} {image : MediaType × Text}
    (hr : Collected py images r.attachments r.totalBytes) (h : addImage py opened r image = .ok r') :
    Collected py (images ++ [image]) r'.attachments r'.totalBytes ∧
      r'.parts = r.parts ++ [marker (imageName (images.length + 1) image.1)] := by
  obtain ⟨hfew, raw, hraw, hsmall, rfl⟩ := addImage_ok h
  have hlen : r.attachments.length = images.length := by rw [hr.eq, length_numbered]
  obtain ⟨datas, hdatas, hsum⟩ := hr.decoded
  rw [hlen] at hfew hraw ⊢
  refine ⟨⟨?_, ?_, ⟨datas ++ [raw], ?_, ?_⟩, hsmall⟩, rfl⟩
  · rw [numbered_concat, ← hr.eq]
  · rw [List.length_append, List.length_singleton]
    exact hfew
  · exact List.rel_append hdatas (List.Forall₂.cons hraw List.Forall₂.nil)
  · simp [hsum]

theorem blockUrl_eq_none_of_text {block : Doc} (h : (Doc.get block "type").isText "text" = true) :
    blockUrl block = none := by
  rw [blockUrl, if_neg]
  intro himage
  cases htype : Doc.get block "type" with
  | str s =>
    rw [htype] at h himage
    obtain rfl : s = "text" := of_decide_eq_true h
    exact absurd himage (by decide)
  | _ =>
    rw [htype] at h
    cases h

/-- One block is a text, or an image that joins the attachments. -/
theorem addBlock_ok {images : List (MediaType × Text)} {r r' : Blocks} {b : Val PyFloat}
    (hr : Collected py images r.attachments r.totalBytes) (h : addBlock py opened r b = .ok r') :
    Collected py (images ++ (blockImage b).toList) r'.attachments r'.totalBytes ∧
      r'.parts = r.parts ++ [blockPart images.length b] := by
  unfold addBlock at h
  split at h
  · rename_i block
    split at h
    · -- a text block
      rename_i text htype htext
      obtain rfl := Except.ok.inj h
      have himage : blockImage (.obj block) = none := by
        rw [blockImage, blockUrl_eq_none_of_text htype]
        rfl
      simp only [himage, Option.toList_none, List.append_nil, blockPart, htext]
      exact ⟨hr, trivial⟩
    · split at h
      · cases h
      · rename_i url hurl
        split at h
        · cases h
        · rename_i image hdata
          have himage : blockImage (.obj block) = some image := by
            rw [blockImage, hurl]
            exact hdata
          simp only [himage, Option.toList_some, blockPart]
          exact hr.add h
      · cases h
  · cases h

theorem addBlocks_ok {images : List (MediaType × Text)} {r : Blocks} {atts : List Attachment} {total : ℕ}
    {blocks : List (Val PyFloat)} (hr : Collected py images atts total)
    (h : blocks.foldlM (addBlock py opened) ⟨atts, total, []⟩ = .ok r) :
    Collected py (images ++ blocks.filterMap blockImage) r.attachments r.totalBytes ∧
      r.parts = blockParts images.length blocks := by
  refine foldlM_induct (P := fun done (r : Blocks) =>
    Collected py (images ++ done.filterMap blockImage) r.attachments r.totalBytes ∧
      r.parts = blockParts images.length done) h ⟨by simpa using hr, rfl⟩ ?_
  rintro done s b s' ⟨hs, hparts⟩ hadd
  obtain ⟨hs', hparts'⟩ := addBlock_ok hs hadd
  have hfilter : (done ++ [b]).filterMap blockImage = done.filterMap blockImage ++ (blockImage b).toList := by
    rw [List.filterMap_append]
    cases hb : blockImage b with
    | none => simp [hb]
    | some image => simp [hb]
  refine ⟨by rwa [hfilter, ← List.append_assoc], ?_⟩
  rw [hparts', hparts, blockParts_concat, List.length_append]

/-- The turns so far, and the attachments of their images. -/
def Taken (py : PyText φ) (messages : List Doc) (s : Turns) : Prop :=
  Collected py (messages.flatMap messageImages) s.attachments s.totalBytes ∧ s.turns = turnsOf 0 messages

theorem addTurn_ok {messages : List Doc} {s s' : Turns} {m : Doc} (hs : Taken py messages s)
    (h : addTurn py opened s m = .ok s') : Taken py (messages ++ [m]) s' := by
  obtain ⟨hcollected, hturns⟩ := hs
  have himages :
      (messages ++ [m]).flatMap messageImages = messages.flatMap messageImages ++ messageImages m := by
    simp
  rw [Taken, himages, turnsOf_concat, Nat.zero_add]
  unfold addTurn at h
  split at h
  · rename_i blocks hcontent
    split_ifs at h with hrole
    split at h
    · cases h
    · rename_i r hr
      obtain rfl := Except.ok.inj h
      obtain ⟨hkept, hparts⟩ := addBlocks_ok hcollected hr
      simp only [messageImages, turnOf, hcontent, hturns, hparts]
      exact ⟨hkept, trivial⟩
  · rename_i hcontent
    obtain rfl := Except.ok.inj h
    have hnone : messageImages m = [] := by
      unfold messageImages
      split
      · rename_i blocks harr
        exact absurd harr (hcontent blocks)
      · rfl
    have hsame : turnOf (messages.flatMap messageImages).length m = m := by
      unfold turnOf
      split
      · rename_i blocks harr
        exact absurd harr (hcontent blocks)
      · rfl
    rw [hnone, hsame, List.append_nil, hturns]
    exact ⟨hcollected, rfl⟩

/-! ### What is written -/

theorem nameOk_of_decode {a : Attachment} {data : List ℕ} (h : decodeAttachment py a = .ok data) :
    nameOk a.name = true := by
  simp only [decodeAttachment] at h
  split_ifs at h with hname
  exact Bool.eq_true_of_not_eq_false hname

/-- A name that passes is that of a file in the directory itself. -/
theorem slash_notMem {name : Text} (h : nameOk name = true) :
    '/' ∉ name ∧ name ≠ [] ∧ name ≠ ['.'] ∧ name ≠ ['.', '.'] := by
  cases name with
  | nil => cases h
  | cons c cs =>
    simp only [nameOk, Bool.and_eq_true, List.all_eq_true] at h
    obtain ⟨⟨hc, -⟩, hcs⟩ := h
    refine ⟨fun hmem => ?_, List.cons_ne_nil _ _, ?_, ?_⟩
    · rcases List.mem_cons.mp hmem with rfl | hmem
      · exact absurd hc (by decide)
      · exact absurd (hcs _ hmem) (by decide)
    · rintro heq
      obtain rfl := (List.cons.inj heq).1
      exact absurd hc (by decide)
    · rintro heq
      obtain rfl := (List.cons.inj heq).1
      exact absurd hc (by decide)

theorem validate_ok_iff {atts : List Attachment} :
    validateAttachments py atts = .ok () ↔ atts.length ≤ maxFiles ∧ (atts.map Attachment.name).Nodup ∧
      ∃ datas, List.Forall₂ (fun a data => decodeAttachment py a = .ok data) atts datas ∧
        (datas.map List.length).sum ≤ maxTotalBytes := by
  rw [validateAttachments]
  constructor
  · intro h
    split_ifs at h with hmany hnames
    split at h
    · cases h
    · rename_i datas hdatas
      split_ifs at h with htotal
      exact ⟨not_lt.mp hmany, hnames, datas, mapM_ok.mp hdatas, not_lt.mp htotal⟩
  · rintro ⟨hfew, hnames, datas, hdatas, htotal⟩
    rw [if_neg (not_lt.mpr hfew), if_neg (not_not.mpr hnames), mapM_ok.mpr hdatas]
    simp only [if_neg (not_lt.mpr htotal)]

/-- What the loop has collected passes the check of the whole request. -/
theorem Collected.valid {images : List (MediaType × Text)} {atts : List Attachment} {total : ℕ}
    (h : Collected py images atts total) : validateAttachments py atts = .ok () := by
  obtain ⟨datas, hdatas, hsum⟩ := h.decoded
  refine validate_ok_iff.mpr ⟨?_, ?_, datas, hdatas, hsum ▸ h.small⟩
  · rw [h.eq, length_numbered]
    exact h.few
  · rw [h.eq]
    exact names_nodup images

theorem writeStep_all : ∀ {atts : List Attachment} {datas : List (List ℕ)} {files : List (Text × List ℕ)}
    {paths : List Text}, List.Forall₂ (fun a data => decodeAttachment py a = .ok data) atts datas →
    (atts.map Attachment.name).Nodup → (∀ a ∈ atts, ∀ f ∈ files, f.1 ≠ a.name) →
    atts.foldlM (writeStep py) (files, paths) =
      .ok (files ++ (atts.map Attachment.name).zip datas, paths ++ atts.map fun a => inputPath a.name)
  | [], _, files, paths, List.Forall₂.nil, _, _ => by
    simp only [List.map_nil, List.zip_nil_left, List.append_nil]
    rfl
  | a :: atts, data :: datas, files, paths, List.Forall₂.cons hdata hdatas, hnames, hnew => by
    obtain ⟨hout, hnames⟩ := List.nodup_cons.mp (List.map_cons ▸ hnames)
    have hfree : files.any (fun f => f.1 == a.name) = false := by
      rw [List.any_eq_false]
      intro f hf heq
      exact hnew a List.mem_cons_self f hf (eq_of_beq heq)
    have hstep : writeStep py (files, paths) a =
        .ok (files ++ [(a.name, data)], paths ++ [inputPath a.name]) := by
      simp only [writeStep, hfree, Bool.false_eq_true, if_false, hdata]
    have hnew' : ∀ b ∈ atts, ∀ f ∈ files ++ [(a.name, data)], f.1 ≠ b.name := by
      intro b hb f hf
      rcases List.mem_append.mp hf with hf | hf
      · exact hnew b (List.mem_cons_of_mem a hb) f hf
      · obtain rfl := List.mem_singleton.mp hf
        rintro heq
        exact hout (List.mem_map.mpr ⟨b, hb, heq.symm⟩)
    rw [List.foldlM_cons, hstep]
    simp only [List.map_cons, List.zip_cons_cons]
    rw [show files ++ (a.name, data) :: (atts.map Attachment.name).zip datas =
      files ++ [(a.name, data)] ++ (atts.map Attachment.name).zip datas by simp,
      show paths ++ inputPath a.name :: (atts.map fun a => inputPath a.name) =
        paths ++ [inputPath a.name] ++ atts.map fun a => inputPath a.name by simp]
    exact writeStep_all hdatas hnames hnew'

theorem decode_of_image {n : ℕ} {image : MediaType × Text} {data : List ℕ}
    (h : decodeAttachment py (attachment n image) = .ok data) :
    Base64.decodeStandard (String.ofList image.2) = some data := by
  simp only [decodeAttachment] at h
  split_ifs at h
  split at h
  · cases h
  · split_ifs at h
    split at h
    · cases h
    · rename_i found hfound
      split_ifs at h
      obtain rfl := Except.ok.inj h
      exact hfound

theorem decode_images : ∀ {images : List (MediaType × Text)} {k : ℕ} {datas : List (List ℕ)},
    List.Forall₂ (fun a data => decodeAttachment py a = .ok data)
      ((images.zipIdx k).map fun e => attachment (e.2 + 1) e.1) datas →
    List.Forall₂ (fun image data => Base64.decodeStandard (String.ofList image.2) = some data) images datas
  | [], _, _, List.Forall₂.nil => .nil
  | _ :: _, _, _ :: _, List.Forall₂.cons hdata hdatas => .cons (decode_of_image hdata) (decode_images hdatas)

/-- **An image that is accepted with a job is written when the job runs.**  Once `subscription_messages`
returns, the turns are the messages with a marker in the place of each image, and the run's
`write_attachments` finds nothing to refuse: it writes the bytes of each data URL, in the order in which
they were sent, under the name in its marker, as files of the directory itself. -/
theorem accepted_images_written {messages turns : List Doc} {atts : List Attachment}
    (h : subscriptionMessages py opened messages = .ok (turns, atts)) :
    turns = turnsOf 0 messages ∧ atts = numbered (messages.flatMap messageImages) ∧
    (∀ a ∈ atts, '/' ∉ a.name ∧ a.name ≠ [] ∧ a.name ≠ ['.'] ∧ a.name ≠ ['.', '.']) ∧
    ∃ datas, List.Forall₂ (fun image data => Base64.decodeStandard (String.ofList image.2) = some data)
        (messages.flatMap messageImages) datas ∧
      (datas.map List.length).sum ≤ maxTotalBytes ∧
      writeAttachments py [] atts =
        .ok ((atts.map Attachment.name).zip datas, atts.map fun a => inputPath a.name) := by
  rw [subscriptionMessages] at h
  split at h
  · cases h
  · rename_i s hs
    obtain ⟨hcollected, hturns⟩ : Taken py messages s :=
      foldlM_induct hs ⟨Collected.nil, rfl⟩ fun _ _ _ _ hdone hadd => addTurn_ok hdone hadd
    have hvalid := hcollected.valid
    rw [hvalid] at h
    obtain ⟨rfl, rfl⟩ := Prod.mk.inj (Except.ok.inj h)
    obtain ⟨-, hnames, datas, hdatas, hsmall⟩ := validate_ok_iff.mp hvalid
    refine ⟨hturns, hcollected.eq, fun a ha => ?_, datas, ?_, hsmall, ?_⟩
    · obtain ⟨data, -, hdata⟩ := ok_of_mapM (mapM_ok.mpr hdatas) ha
      exact slash_notMem (nameOk_of_decode hdata)
    · rw [hcollected.eq] at hdatas
      exact decode_images hdatas
    · rw [writeAttachments, hvalid]
      exact writeStep_all hdatas hnames fun _ _ f hf => (List.not_mem_nil hf).elim

end Loops

/-- One transparent pixel, as a GIF. -/
def pixelGif : List ℕ := [0x47, 0x49, 0x46, 0x38, 0x39, 0x61, 0x01, 0x00, 0x01, 0x00, 0x80, 0x00, 0x00, 0x00,
  0x00, 0x00, 0xFF, 0xFF, 0xFF, 0x21, 0xF9, 0x04, 0x01, 0x00, 0x00, 0x00, 0x00, 0x2C,
  0x00, 0x00, 0x00, 0x00, 0x01, 0x00, 0x01, 0x00, 0x00, 0x02, 0x01, 0x44, 0x00, 0x3B]

def pixelB64 : String := "R0lGODlhAQABAIAAAAAAAP///yH5BAEAAAAALAAAAAABAAEAAAIBRAA7"

/-- A question about a picture. -/
def pictureMessage : Doc :=
  [("role", .str "user"), ("content", .arr [
    .obj [("type", .str "text"), ("text", .str "What is this?")],
    .obj [("type", .str "image_url"), ("image_url", .obj [("url", .str ("data:image/gif;base64," ++ pixelB64))])]])]

/-- The library, on the pixel. -/
def gifReader (data : List ℕ) : Option Opened :=
  if data = pixelGif then some ⟨"GIF", 1, 1, 1, true⟩ else none

def plainText : PyText ℚ := ⟨fun _ => [], fun _ => true⟩

theorem picture_written : ∃ turns atts,
    subscriptionMessages plainText gifReader [pictureMessage] = .ok (turns, atts) ∧
    writeAttachments plainText [] atts =
      .ok ([("image_1.gif".toList, pixelGif)], ["inputs/image_1.gif".toList]) := by
  have hok : (subscriptionMessages plainText gifReader [pictureMessage]).isOk = true := by decide +kernel
  obtain ⟨⟨turns, atts⟩, h⟩ : ∃ r, subscriptionMessages plainText gifReader [pictureMessage] = .ok r := by
    cases hrun : subscriptionMessages plainText gifReader [pictureMessage] with
    | error e =>
      rw [hrun] at hok
      cases hok
    | ok r => exact ⟨r, rfl⟩
  refine ⟨turns, atts, h, ?_⟩
  obtain ⟨-, hatts, -, datas, hdatas, -, hwrite⟩ := accepted_images_written h
  have himages : [pictureMessage].flatMap messageImages = [(.gif, pixelB64.toList)] := by decide +kernel
  have hname : (attachment 1 (.gif, pixelB64.toList)).name = "image_1.gif".toList := by decide +kernel
  have hdecode : Base64.decodeStandard (String.ofList pixelB64.toList) = some pixelGif := by decide +kernel
  rw [himages] at hatts hdatas
  cases hdatas with
  | cons hdata hrest =>
    cases hrest
    obtain rfl := Option.some.inj (hdecode.symm.trans hdata)
    rw [hatts] at hwrite ⊢
    simp only [numbered, List.zipIdx_cons, List.zipIdx_nil, List.map_cons, List.map_nil, Nat.zero_add,
      hname] at *
    exact hwrite

end Attachments

end Broker.Agent
