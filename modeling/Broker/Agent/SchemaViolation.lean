import Broker.Lib.JsonScan
import Broker.Lib.PyText
import Broker.Lib.PyVal
import Broker.Lib.Transducer

/-!
# Broker.Agent.SchemaViolation — the diagnosis of a broken argument schema

`schema_violation` tells the model and the log which rule of a tool's schema its arguments broke.  A cursor
follows each error's path through the client's schema, and only what the schema declares at the cursor is
shown: the shown path is the output of a transducer that does not tell undeclared keys apart.  The
validator is a parameter; what it reports is a list of errors, each with a path, a rule, the rule's value
and the instance that broke it.
-/

namespace Broker.Agent

open Broker.Lib

variable {φ : Type}

/-- An element of an instance path. -/
inductive PathSeg where
  | index (i : ℕ)
  | key (k : String)
  deriving DecidableEq

/-- `str(seg)`. -/
def PathSeg.text : PathSeg → List Char
  | .index i => Nat.toDigits 10 i
  | .key k => k.toList

/-! ### `_safe_path` -/

/-- `cur["properties"][seg]`, where the cursor is a dictionary whose `properties` is one and declares it. -/
def declared (cur : Val φ) (k : String) : Option (Val φ) :=
  match cur.getField "properties" with
  | .obj props => OrderedDict.get props k
  | _ => none

/-- `out`; a cursor that fell off the schema is `None`. -/
def safeSegments : Val φ → List PathSeg → List (List Char)
  | _, [] => []
  | cur, .index i :: path => Nat.toDigits 10 i :: safeSegments (cur.getField "items") path
  | cur, .key k :: path =>
    match declared cur k with
    | some sub => k.toList.take 40 :: safeSegments sub path
    | none => ['*'] :: safeSegments (cur.getField "additionalProperties") path

/-- `_safe_path`. -/
def safePath (schema : Val φ) (path : List PathSeg) : List Char :=
  let text := (['/'].intercalate (safeSegments schema path)).take 80
  if text = [] then "<root>".toList else text

/-! ### `schema_violation` -/

/-- What the validator reports of one error. -/
structure SchemaError (φ : Type) where
  absolutePath : List PathSeg
  /-- The rule; `None` for a schema that is `false`. -/
  validator : Option String
  /-- The rule's value in the schema. -/
  validatorValue : Val φ
  /-- The part of the arguments at the path. -/
  inst : Val φ

/-- `iter_errors`, run to its end: what it yields, and whether it raises after that. -/
structure ErrorRun (φ : Type) where
  errors : List (SchemaError φ)
  raises : Bool

/-- `Draft202012Validator(schema).iter_errors(arguments)`. -/
abbrev Validator (φ : Type) := List (String × Val φ) → Val φ → ErrorRun φ

/-- `islice(.., n)`, `none` where taking the errors raises. -/
def ErrorRun.islice (r : ErrorRun φ) (n : ℕ) : Option (List (SchemaError φ)) :=
  if r.errors.length < n ∧ r.raises then none else some (r.errors.take n)

/-- `_SHOWN_RULES`. -/
def shownRules : List String :=
  ["maxLength", "minLength", "maxItems", "minItems", "maximum", "minimum", "type", "required",
    "additionalProperties", "enum", "const", "pattern", "format"]

/-- The rules shown without their value. -/
def rulesWithoutLimit : List String :=
  ["required", "additionalProperties", "enum", "const", "pattern", "schema"]

/-- `type(v).__name__`. -/
def typeName : Val φ → String
  | .null => "NoneType"
  | .bool _ => "bool"
  | .int _ => "int"
  | .float _ => "float"
  | .str _ => "str"
  | .arr _ => "list"
  | .obj _ => "dict"

/-- `len(v)` of a `str | list | dict`. -/
def sizeOf? : Val φ → Option ℕ
  | .str s => some s.toList.length
  | .arr xs => some xs.length
  | .obj es => some es.length
  | _ => none

/-- `rule`. -/
def shownRule (validator : Option String) : String :=
  match validator with
  | some rule => if rule ∈ shownRules then rule else "schema"
  | none => "schema"

/-- `limit`. -/
def limitText (py : PyText φ) (rule : String) (value : Val φ) : List Char :=
  if rule ∈ rulesWithoutLimit then [] else ' ' :: (py.str value).take 20

/-- `got`: the length of what has one, unless the type is wrong. -/
def gotText (rule type : String) (size : Option ℕ) : List Char :=
  match size with
  | some n => if rule ≠ "type" then "len ".toList ++ Nat.toDigits 10 n else "type ".toList ++ type.toList
  | none => "type ".toList ++ type.toList

/-- One of the `parts`. -/
def partText (py : PyText φ) (schema : Val φ) (e : SchemaError φ) : List Char :=
  let rule := shownRule e.validator
  safePath schema e.absolutePath ++ ": ".toList ++ rule.toList ++ limitText py rule e.validatorValue ++
    " (got ".toList ++ gotText rule (typeName e.inst) (sizeOf? e.inst) ++ [')']

/-- The order of `[str(p) for p in e.absolute_path]`. -/
def pathLe (e f : SchemaError φ) : Prop := e.absolutePath.map PathSeg.text ≤ f.absolutePath.map PathSeg.text

instance : DecidableRel (pathLe (φ := φ)) := fun e f =>
  inferInstanceAs (Decidable (e.absolutePath.map PathSeg.text ≤ f.absolutePath.map PathSeg.text))

/-- `parts` of the errors taken. -/
def violationParts (py : PyText φ) (schema : Val φ) (errors : List (SchemaError φ)) : List (List Char) :=
  (errors.insertionSort pathLe).map (partText py schema)

/-- The first tool of the name, `none` where a `function` before it has no `get`. -/
def findTool (name : String) : List (List (String × Val φ)) → Option (Option (List (String × Val φ)))
  | [] => some none
  | t :: tools =>
    match (OrderedDict.get t "function").getD (.obj []) with
    | .obj fn =>
      if ((OrderedDict.get fn "name").getD .null).isStr name then some (some fn) else findTool name tools
    | _ => none

/-- `"tool has no parameters schema"`. -/
def noSchemaText : List Char := "tool has no parameters schema".toList

/-- `tool.get("parameters")`, where it is a dictionary. -/
def parametersOf (tool : List (String × Val φ)) : Option (List (String × Val φ)) :=
  match OrderedDict.get tool "parameters" with
  | some (.obj schema) => some schema
  | _ => none

/-- `schema_violation`, `none` where it raises. -/
def schemaViolation (py : PyText φ) (V : Validator φ) (tools : List (List (String × Val φ))) (name : String)
    (arguments : Val φ) : Option (List Char) :=
  match findTool name tools with
  | none => none
  | some none => some ("undeclared tool ".toList ++ py.reprStr (name.toList.take 40))
  | some (some tool) =>
    match parametersOf tool with
    | none => some noSchemaText
    | some schema =>
      match (V schema arguments).islice 3 with
      | none => some []
      | some errors => some ("; ".toList.intercalate (violationParts py (.obj schema) errors))

/-! ### The schema along a path -/

/-- The schema of an element: of an item, of a declared property, or of any other one. -/
def child (node : Val φ) : PathSeg → Val φ
  | .index _ => node.getField "items"
  | .key k => (declared node k).getD (node.getField "additionalProperties")

/-- The schema reached along a path. -/
def schemaAt (schema : Val φ) (path : List PathSeg) : Val φ := Transducer.reach child schema path

/-- The schema at the path declares the name in its `properties`. -/
def Declares (schema : Val φ) (path : List PathSeg) (name : String) : Prop :=
  (declared (schemaAt schema path) name).isSome = true

/-- What stands for an element. -/
def segText (node : Val φ) : PathSeg → List Char
  | .index i => Nat.toDigits 10 i
  | .key k => if (declared node k).isSome then k.toList.take 40 else ['*']

/-- The same element, or two keys that are not declared there. -/
def SameUpToUndeclared (node : Val φ) (a b : PathSeg) : Prop :=
  a = b ∨ ∃ j k, a = .key j ∧ b = .key k ∧ declared node j = none ∧ declared node k = none

/-- The loop of `_safe_path` is the transducer of the schema. -/
theorem safeSegments_eq (schema : Val φ) (path : List PathSeg) :
    safeSegments schema path = Transducer.outputs child segText schema path := by
  induction path generalizing schema with
  | nil => rfl
  | cons a path ih =>
    cases a with
    | index i => rw [safeSegments, ih, Transducer.outputs, segText, child]
    | key k =>
      rw [safeSegments, Transducer.outputs, segText, child]
      split <;> rename_i hk <;> simp [hk, ih]

theorem child_eq_of_same {node : Val φ} {a b : PathSeg} (h : SameUpToUndeclared node a b) :
    child node a = child node b := by
  rcases h with rfl | ⟨j, k, rfl, rfl, hj, hk⟩
  · rfl
  · simp [child, hj, hk]

theorem segText_eq_of_same {node : Val φ} {a b : PathSeg} (h : SameUpToUndeclared node a b) :
    segText node a = segText node b := by
  rcases h with rfl | ⟨j, k, rfl, rfl, hj, hk⟩
  · rfl
  · simp [segText, hj, hk]

/-- What a shown segment may be. -/
inductive Shown (schema : Val φ) (path : List PathSeg) : List Char → Prop
  | index (i : ℕ) : Shown schema path (Nat.toDigits 10 i)
  | star : Shown schema path ['*']
  | name {before after : List PathSeg} {k : String} {s : List Char} :
      path = before ++ .key k :: after → Declares schema before k → s <+: k.toList → Shown schema path s

/-- The shown segments of a path: none at the root; the slice may end behind a slash. -/
def Displays (text : List Char) (segs : List (List Char)) : Prop :=
  (segs = [] ∧ text = "<root>".toList) ∨ text = ['/'].intercalate segs ∨
    text = ['/'].intercalate segs ++ ['/']

theorem shown_of_mem {schema : Val φ} {path : List PathSeg} {s : List Char}
    (h : s ∈ safeSegments schema path) : Shown schema path s := by
  rw [safeSegments_eq] at h
  obtain ⟨before, a, after, hpath, rfl⟩ := Transducer.mem_outputs h
  cases a with
  | index i => exact .index i
  | key k =>
    simp only [segText]
    by_cases hk : (declared (Transducer.reach child schema before) k).isSome = true
    · rw [if_pos hk]
      exact .name hpath hk (List.take_prefix 40 _)
    · rw [if_neg hk]
      exact .star

/-- A non-empty piece of a shown segment may be shown. -/
theorem Shown.piece {schema : Val φ} {path : List PathSeg} {s t : List Char} (ht : Shown schema path t)
    (h : s <+: t) (hs : s = [] → t = []) : Shown schema path s := by
  cases ht with
  | index i =>
    have hne : s ≠ [] := fun h' => Nat.toDigits_ne_nil (hs h')
    obtain ⟨m, rfl⟩ := toDigits_of_prefix h hne
    exact .index m
  | star =>
    rcases List.prefix_concat_iff.mp (show s <+: [] ++ ['*'] from h) with rfl | h
    · exact .star
    · exact absurd (hs (List.prefix_nil.mp h)) (by simp)
  | name hpath hdecl hk => exact .name hpath hdecl (h.trans hk)

/-- A shown path is made of segments that may be shown. -/
theorem displays_safePath (schema : Val φ) (path : List PathSeg) :
    ∃ segs, Displays (safePath schema path) segs ∧ ∀ s ∈ segs, Shown schema path s := by
  obtain ⟨cut, hcut, htake⟩ := take_intercalate '/' 80 (safeSegments schema path)
  have hshown : ∀ s ∈ cut, Shown schema path s := by
    intro s hs
    obtain ⟨t, ht, hprefix, hnil⟩ := hcut s hs
    exact (shown_of_mem ht).piece hprefix hnil
  by_cases hroot : (['/'].intercalate (safeSegments schema path)).take 80 = []
  · exact ⟨[], .inl ⟨rfl, by simp only [safePath, if_pos hroot]⟩, by simp⟩
  · refine ⟨cut, .inr ?_, hshown⟩
    simp only [safePath, if_neg hroot]
    exact htake.imp id And.right

/-! ### What a part shows of an error -/

/-- What is shown of an error besides its path: the rule, its value, and the type and length of the instance. -/
structure Finding (φ : Type) where
  validator : Option String
  validatorValue : Val φ
  typeName : String
  size : Option ℕ

/-- The finding of an error. -/
def SchemaError.finding (e : SchemaError φ) : Finding φ :=
  ⟨e.validator, e.validatorValue, typeName e.inst, sizeOf? e.inst⟩

/-- The text behind the path. -/
def Finding.text (py : PyText φ) (f : Finding φ) : List Char :=
  let rule := shownRule f.validator
  ": ".toList ++ rule.toList ++ limitText py rule f.validatorValue ++ " (got ".toList ++
    gotText rule f.typeName f.size ++ [')']

theorem partText_eq (py : PyText φ) (schema : Val φ) (e : SchemaError φ) :
    partText py schema e = safePath schema e.absolutePath ++ e.finding.text py := by
  simp only [partText, Finding.text, SchemaError.finding, List.append_assoc]

/-- Two errors with one finding, whose paths agree up to keys that are not declared where they stand. -/
structure SchemaError.Agree (schema : Val φ) (e f : SchemaError φ) : Prop where
  finding : e.finding = f.finding
  path : Transducer.Along child SameUpToUndeclared schema e.absolutePath f.absolutePath

theorem safePath_eq_of_along {schema : Val φ} {p q : List PathSeg}
    (h : Transducer.Along child SameUpToUndeclared schema p q) : safePath schema p = safePath schema q := by
  have hsegs : safeSegments schema p = safeSegments schema q := by
    rw [safeSegments_eq, safeSegments_eq]
    exact h.outputs_eq (fun _ _ _ => child_eq_of_same) (fun _ _ _ => segText_eq_of_same)
  rw [safePath, safePath, hsegs]

theorem SchemaError.Agree.partText_eq {py : PyText φ} {schema : Val φ} {e f : SchemaError φ}
    (h : e.Agree schema f) : partText py schema e = partText py schema f := by
  rw [Agent.partText_eq, Agent.partText_eq, h.finding, safePath_eq_of_along h.path]

theorem violationParts_perm (py : PyText φ) (schema : Val φ) (errors : List (SchemaError φ)) :
    (violationParts py schema errors).Perm (errors.map (partText py schema)) :=
  (List.perm_insertionSort pathLe errors).map _

/-- Lists of errors that agree pairwise have the same parts; the order may differ. -/
theorem violationParts_perm_of_agree {py : PyText φ} {schema : Val φ} {es fs : List (SchemaError φ)}
    (h : List.Forall₂ (SchemaError.Agree schema) es fs) :
    (violationParts py schema es).Perm (violationParts py schema fs) := by
  have hmap : es.map (partText py schema) = fs.map (partText py schema) := by
    induction h with
    | nil => rfl
    | cons h _ ih => rw [List.map_cons, List.map_cons, h.partText_eq, ih]
  have hperm := violationParts_perm py schema es
  rw [hmap] at hperm
  exact hperm.trans (violationParts_perm py schema fs).symm

/-! ### The diagnosis -/

section Diagnosis

variable {py : PyText φ} {V : Validator φ} {tools : List (List (String × Val φ))} {name : String}
  {tool schema : List (String × Val φ)}

/-- Every part is a path of segments that may be shown, and the finding of the error. -/
def ShowsOnly (py : PyText φ) (schema : Val φ) (errors : List (SchemaError φ)) (part : List Char) : Prop :=
  ∃ e ∈ errors, ∃ path segs, part = path ++ e.finding.text py ∧ Displays path segs ∧
    ∀ s ∈ segs, Shown schema e.absolutePath s

theorem showsOnly_of_mem {schema : Val φ} {errors : List (SchemaError φ)} {part : List Char}
    (h : part ∈ violationParts py schema errors) : ShowsOnly py schema errors part := by
  obtain ⟨e, he, rfl⟩ := List.mem_map.mp ((violationParts_perm py schema errors).mem_iff.mp h)
  obtain ⟨segs, hsegs, hshown⟩ := displays_safePath schema e.absolutePath
  exact ⟨e, he, _, segs, partText_eq py schema e, hsegs, hshown⟩

theorem schemaViolation_eq (hdecl : findTool name tools = some (some tool))
    (hschema : parametersOf tool = some schema) {arguments : Val φ} {errors : List (SchemaError φ)} (herr : (V schema arguments).islice 3 = some errors) :
    schemaViolation py V tools name arguments =
      some ("; ".toList.intercalate (violationParts py (.obj schema) errors)) := by
  simp only [schemaViolation, hdecl, hschema, herr]

/-- **A diagnosis leaks nothing the model chose.**  For a declared tool it is a constant text, or it joins the
parts of the first three errors, each a path of indices, stars and prefixes of names declared along the
error's path, and the finding; and for two argument values whose first three errors agree pairwise it has the
same parts. -/
theorem diagnosis_leaks_nothing (py : PyText φ) (V : Validator φ) (tools : List (List (String × Val φ)))
    (name : String) (tool : List (String × Val φ)) (hdecl : findTool name tools = some (some tool)) :
    (∀ arguments, ∃ out, schemaViolation py V tools name arguments = some out ∧
      (out = noSchemaText ∨ out = [] ∨ ∃ schema errors, parametersOf tool = some schema ∧
        (V schema arguments).islice 3 = some errors ∧
        out = "; ".toList.intercalate (violationParts py (.obj schema) errors) ∧
        ∀ part ∈ violationParts py (.obj schema) errors, ShowsOnly py (.obj schema) errors part)) ∧
    (∀ schema arguments arguments' errors errors', parametersOf tool = some schema →
      (V schema arguments).islice 3 = some errors → (V schema arguments').islice 3 = some errors' →
      List.Forall₂ (SchemaError.Agree (.obj schema)) errors errors' →
      (violationParts py (.obj schema) errors).Perm (violationParts py (.obj schema) errors') ∧
        schemaViolation py V tools name arguments =
          some ("; ".toList.intercalate (violationParts py (.obj schema) errors)) ∧
        schemaViolation py V tools name arguments' =
          some ("; ".toList.intercalate (violationParts py (.obj schema) errors'))) := by
  refine ⟨fun arguments => ?_, ?_⟩
  · cases hschema : parametersOf tool with
    | none => exact ⟨noSchemaText, by simp only [schemaViolation, hdecl, hschema], .inl rfl⟩
    | some schema =>
      cases herr : (V schema arguments).islice 3 with
      | none => exact ⟨[], by simp only [schemaViolation, hdecl, hschema, herr], .inr (.inl rfl)⟩
      | some errors =>
        exact ⟨_, schemaViolation_eq hdecl hschema herr,
          .inr (.inr ⟨schema, errors, rfl, herr, rfl, fun part => showsOnly_of_mem⟩)⟩
  · intro schema arguments arguments' errors errors' hschema herr herr' hagree
    exact ⟨violationParts_perm_of_agree hagree, schemaViolation_eq hdecl hschema herr,
      schemaViolation_eq hdecl hschema herr'⟩

/-- `{"type": "object", "properties": {"m": {"additionalProperties": {"type": "integer"}}}}`. -/
def countsSchema : List (String × Val ℚ) :=
  [("type", .str "object"),
    ("properties", .obj [("m", .obj [("additionalProperties", .obj [("type", .str "integer")])])])]

/-- `[{"function": {"name": "t", "parameters": countsSchema}}]`. -/
def countsTools : List (List (String × Val ℚ)) :=
  [[("function", .obj [("name", .str "t"), ("parameters", .obj countsSchema)])]]

/-- The validator of that schema, on arguments `{"m": {k: v}}` with a text `v`. -/
def countsValidator : Validator ℚ := fun _ arguments =>
  match arguments with
  | .obj [("m", .obj [(k, .str v)])] => ⟨[⟨[.key "m", .key k], some "type", .str "integer", .str v⟩], false⟩
  | _ => ⟨[], false⟩

/-- Two keys the model chose, and one text. -/
theorem counts_diagnosis_leaks_nothing :
    schemaViolation ⟨fractionText, fun _ => true⟩ countsValidator countsTools "t"
        (.obj [("m", .obj [("MODELKEY", .str "v")])]) =
      schemaViolation ⟨fractionText, fun _ => true⟩ countsValidator countsTools "t"
        (.obj [("m", .obj [("OTHERKEY", .str "w")])]) := by
  have hagree : SchemaError.Agree (.obj countsSchema)
      ⟨[.key "m", .key "MODELKEY"], some "type", .str "integer", .str "v"⟩
      ⟨[.key "m", .key "OTHERKEY"], some "type", .str "integer", .str "w"⟩ :=
    ⟨rfl, .cons (.inl rfl) (.cons (.inr ⟨_, _, rfl, rfl, rfl, rfl⟩) (.nil _))⟩
  obtain ⟨hparts, hout, hout'⟩ := (diagnosis_leaks_nothing ⟨fractionText, fun _ => true⟩ countsValidator
    countsTools "t" _ rfl).2 countsSchema (.obj [("m", .obj [("MODELKEY", .str "v")])])
    (.obj [("m", .obj [("OTHERKEY", .str "w")])]) _ _ rfl rfl rfl (.cons hagree .nil)
  rw [hout, hout', List.perm_singleton.mp hparts]
  rfl

end Diagnosis

end Broker.Agent
