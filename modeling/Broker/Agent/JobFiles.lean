import Broker.Lib.IsoTime
import Broker.Lib.PyVal

/-!
# Broker.Agent.JobFiles — the files a job serves

`agent/job_files.py`: a job's `result_meta.files` holds whatever JSON was stored, and the two readers
turn it into the served view or raise what Python raises on a value that is no list of dictionaries.  A
file past its `expires_at` is served without content; a file with a `content_ref` has its bytes in a
table of their own.
-/

namespace Broker.Agent

open Broker.Lib

/-- The exceptions the readers raise. -/
inductive ViewError | attributeError | typeError | database
  deriving DecidableEq, Repr

/-- `REF_KEY`. -/
def refKey : String := "content_ref"

/-- `_expired`: only a text compares with the clock's text. -/
def expired (f : Doc) (nowIso : String) : Except ViewError Bool :=
  if (f.get "expires_at").truthy then
    match f.get "expires_at" with
    | .str s => .ok (s < nowIso)
    | _ => .error .typeError
  else .ok false

/-- `_public`. -/
def publicFile (f overrides : Doc) : Doc :=
  overrides.foldl (fun d e => OrderedDict.setItem d e.1 e.2) (f.filter fun e => e.1 ≠ refKey)

/-- What an expired file is served with. -/
def blanked : Doc := [("content_b64", .null), ("expired", .bool true)]

/-- `f.get(...)` of an element: anything but a dictionary has no such attribute. -/
def asFile : Val PyFloat → Except ViewError Doc
  | .obj f => .ok f
  | _ => .error .attributeError

/-- `for f in files`. -/
def iterate : Val PyFloat → Except ViewError (List (Val PyFloat))
  | .arr xs => .ok xs
  | .str s => .ok (s.toList.map fun c => .str c.toString)
  | .obj es => .ok (es.map fun e => .str e.1)
  | _ => .error .typeError

/-- One file of `live_files_inline`. -/
def inlineFile (nowIso : String) (v : Val PyFloat) : Except ViewError Doc := do
  let f ← asFile v
  if ← expired f nowIso then .ok (publicFile f blanked) else .ok (publicFile f [])

def liveFilesInline (now : DateTime) (files : Val PyFloat) : Except ViewError (Option (List Doc)) :=
  if files.isNull then .ok none
  else do
    let fs ← iterate files
    let out ← fs.mapM (inlineFile now.isoformat)
    .ok (some out)

/-- The contents of a job's rows in `deep_job_files`, or what the query raises on the ids it is asked for: the
base64 text under each index. -/
abbrev FileTable := List (Val PyFloat) → Except ViewError (List (HashKey × String))

/-- The ids `live_files` asks for. -/
def refWanted (nowIso : String) (v : Val PyFloat) : Except ViewError (Option (Val PyFloat)) := do
  let f ← asFile v
  if (f.get refKey).isNull then .ok none
  else if ← expired f nowIso then .ok none
  else .ok (some (f.get refKey))

/-- `blobs.get(ref)`. -/
def blobOf (blobs : List (HashKey × String)) (ref : Val PyFloat) : Except ViewError (Option String) :=
  match ref.hashKey with
  | none => .error .typeError
  | some k => .ok (OrderedDict.get blobs k)

/-- One file of `live_files`. -/
def servedFile (nowIso : String) (blobs : List (HashKey × String)) (v : Val PyFloat) :
    Except ViewError Doc := do
  let f ← asFile v
  if ← expired f nowIso then .ok (publicFile f blanked)
  else if (f.get refKey).isNull then .ok (publicFile f [])
  else
    let data ← blobOf blobs (f.get refKey)
    .ok (publicFile f [("content_b64", (data.map Val.str).getD .null)])

/-- The query, where there is anything to ask for. -/
def fetchBlobs (table : FileTable) (wanted : List (Val PyFloat)) :
    Except ViewError (List (HashKey × String)) :=
  if wanted.isEmpty then .ok [] else table wanted

def liveFiles (table : FileTable) (now : DateTime) (files : Val PyFloat) :
    Except ViewError (Option (List Doc)) :=
  if files.isNull then .ok none
  else do
    let fs ← iterate files
    let refs ← fs.mapM (refWanted now.isoformat)
    let blobs ← fetchBlobs table (refs.filterMap id)
    let out ← fs.mapM (servedFile now.isoformat blobs)
    .ok (some out)

/-- `(result_meta or {}).get("files")`. -/
def filesField : Option (Val PyFloat) → Except ViewError (Val PyFloat)
  | none => .ok .null
  | some v =>
    match v.orDict with
    | none => .error .attributeError
    | some d => .ok (d.get "files")

end Broker.Agent
