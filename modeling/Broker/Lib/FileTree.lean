import Mathlib.Data.List.Basic
import Mathlib.Data.Rat.Defs
import Mathlib.Tactic.Common

/-!
# Broker.Lib.FileTree — POSIX paths, and what a directory holds

A path is its characters.  `parts` is what `pathlib` sees of a relative path, `normpath` is
`os.path.normpath`; a path joined from file names is its own normal form.  A directory is a tree whose entries
have file names; a symbolic link is never followed, so its target is left out.
-/

namespace Broker.Lib

/-- A name that an entry of a directory can have. -/
structure FileName where
  chars : List Char
  nonempty : chars ≠ []
  no_slash : '/' ∉ chars
  no_nul : Char.ofNat 0 ∉ chars
  not_dot : chars ≠ ['.']
  not_dots : chars ≠ ['.', '.']
  deriving DecidableEq

namespace PosixPath

def isAbsolute (path : List Char) : Bool := path.head? == some '/'

def join (names : List (List Char)) : List Char := ['/'].intercalate names

/-- `Path(path).parts` of a relative path. -/
def parts (path : List Char) : List (List Char) :=
  (path.splitOn '/').filter fun comp => decide (comp ≠ [] ∧ comp ≠ ['.'])

-- the components kept so far, the last one first
def normStep (rooted : Bool) (done : List (List Char)) (comp : List Char) : List (List Char) :=
  if comp = [] ∨ comp = ['.'] then done
  else if comp ≠ ['.', '.'] ∨ (rooted = false ∧ done = []) ∨ done.head? = some ['.', '.'] then comp :: done
  else done.tail

/-- Two slashes at the start are kept, more are one. -/
def leading (path : List Char) : ℕ :=
  if ['/', '/'] <+: path ∧ ¬ ['/', '/', '/'] <+: path then 2 else if ['/'] <+: path then 1 else 0

/-- `os.path.normpath`. -/
def normpath (path : List Char) : List Char :=
  let comps := (path.splitOn '/').foldl (normStep (isAbsolute path)) []
  let out := List.replicate (leading path) '/' ++ join comps.reverse
  if out = [] then ['.'] else out

/-- `Path(name).suffix`. -/
def suffix (name : List Char) : List Char :=
  let ext := (name.reverse.takeWhile (· ≠ '.')).reverse
  if ext ≠ [] ∧ ext.length + 1 < name.length then '.' :: ext else []

/-- `Path(name).stem`. -/
def stem (name : List Char) : List Char := name.take (name.length - (suffix name).length)

/-- `text.lower()`, as far as ASCII suffixes can tell. -/
def lower (text : List Char) : List Char := text.map Char.toLower

/-! ### Paths of file names -/

variable {names : List FileName}

theorem normStep_name (rooted : Bool) (done : List (List Char)) (n : FileName) :
    normStep rooted done n.chars = n.chars :: done := by
  rw [normStep, if_neg, if_pos (.inl n.not_dots)]
  rintro (h | h)
  · exact n.nonempty h
  · exact n.not_dot h

theorem foldl_normStep (rooted : Bool) (names : List FileName) (done : List (List Char)) :
    (names.map FileName.chars).foldl (normStep rooted) done = (names.map FileName.chars).reverse ++ done := by
  induction names generalizing done with
  | nil => rfl
  | cons n names ih =>
    rw [List.map_cons, List.foldl_cons, normStep_name, ih, List.reverse_cons, List.append_assoc]
    rfl

theorem splitOn_join (hne : names ≠ []) :
    (join (names.map FileName.chars)).splitOn '/' = names.map FileName.chars := by
  refine List.splitOn_intercalate '/' (fun l hl => ?_) (by simpa using hne)
  obtain ⟨n, -, rfl⟩ := List.mem_map.mp hl
  exact n.no_slash

theorem head_join (n : FileName) (names : List FileName) :
    ∃ c t, join (n.chars :: names.map FileName.chars) = c :: t ∧ c ≠ '/' := by
  obtain ⟨c, t, hct⟩ := List.exists_cons_of_ne_nil n.nonempty
  have hslash : c ≠ '/' := by
    rintro rfl
    exact n.no_slash (by simp [hct])
  cases names with
  | nil => exact ⟨c, t, by simp [join, hct], hslash⟩
  | cons m names => exact ⟨c, _, by simp [join, hct, List.intercalate]; rfl, hslash⟩

/-- **A path joined from file names is its own normal form.** -/
theorem normpath_join (hne : names ≠ []) :
    normpath (join (names.map FileName.chars)) = join (names.map FileName.chars) := by
  obtain ⟨n, rest, rfl⟩ := List.exists_cons_of_ne_nil hne
  obtain ⟨c, t, hjoin, hc⟩ := head_join n rest
  have hleading : leading (join ((n :: rest).map FileName.chars)) = 0 := by
    rw [List.map_cons, hjoin]
    simp [leading, hc.symm]
  have hout : join ((n :: rest).map FileName.chars) ≠ [] := by
    rw [List.map_cons, hjoin]
    exact List.cons_ne_nil _ _
  rw [normpath, splitOn_join hne, foldl_normStep, hleading]
  simp only [List.append_nil, List.reverse_reverse, List.replicate_zero, List.nil_append]
  rw [if_neg hout]

end PosixPath

/-! ### Trees -/

/-- A regular file. -/
structure FileData where
  data : List UInt8
  links : ℕ
  mtime : ℚ

/-- What a name in a directory stands for. -/
inductive Node where
  | file (f : FileData)
  | dir (entries : List (FileName × Node))
  | link
  | other

namespace Node

/-- The node at a path, without following links. -/
def get : Node → List (List Char) → Option Node
  | n, [] => some n
  | .dir entries, p :: ps => (entries.find? fun e => e.1.chars == p).bind fun e => e.2.get ps
  | _, _ :: _ => none

def fileData? : Node → Option FileData
  | .file f => some f
  | _ => none

def entries? : Node → Option (List (FileName × Node))
  | .dir entries => some entries
  | _ => none

end Node

end Broker.Lib
