import Broker.Lib.JsonStrict
import Broker.Lib.PyVal

/-!
# Broker.Agent.SubscriptionJob — the structured-output check

`output_problem` decides whether a text answers a request for JSON: it is strict JSON, an object where a
`json_object` was asked for, and valid under the schema of a `json_schema`.  A schema the broker cannot fully
validate fails every answer.  The check reads the format only up to the order of its keys
(`outputProblem_same`), and `outputProblem_eq_none` says what a text that passes it is.
-/

namespace Broker.Agent

open Broker.Lib

/-- How `resolver.lookup` ends. -/
inductive RefLookup | found | unresolvable | raises
  deriving DecidableEq, Repr

/-- How `validator.validate` ends: it returns, raises a `ValidationError`, or raises something else. -/
inductive SchemaVerdict | valid | mismatch | raises
  deriving DecidableEq, Repr

/-- What the broker calls of `jsonschema` and `referencing`, by schema. -/
structure SchemaLib where
  /-- `Draft202012Validator.check_schema(schema)` returns. -/
  checkSchema : Val PyFloat → Bool
  /-- The resolver rooted at the schema can be built. -/
  root : Val PyFloat → Bool
  lookup : Val PyFloat → String → RefLookup
  validate : Val PyFloat → Val PyFloat → SchemaVerdict
  /-- `Draft202012Validator(schema).validate(value)`, with the default registry, returns. -/
  accepts : Val PyFloat → Val PyFloat → Bool

/-- What `output_problem` raises. -/
inductive OutputError | recursionError | keyError
  deriving DecidableEq, Repr

def OutputError.name : OutputError → String
  | .recursionError => "RecursionError"
  | .keyError => "KeyError"

/-! ### The schema of a request -/

/-- `_REF_KEYS`. -/
def refKeys : List String := ["$ref", "$dynamicRef", "$recursiveRef"]

/-- A reference that is not a text reads as the empty one. -/
def refText {φ : Type} : Val φ → String
  | .str s => s
  | _ => ""

-- `_refs`
mutual
def refs {φ : Type} : Val φ → List String
  | .obj es => refKeys.filterMap (fun k => (OrderedDict.get es k).map refText) ++ refsEntries es
  | .arr xs => refsItems xs
  | _ => []
def refsItems {φ : Type} : List (Val φ) → List String
  | [] => []
  | x :: xs => refs x ++ refsItems xs
def refsEntries {φ : Type} : List (String × Val φ) → List String
  | [] => []
  | (_, x) :: es => refs x ++ refsEntries es
end

/-- `MAX_SCHEMA_BYTES`. -/
def maxSchemaBytes : ℕ := 64 * 1024

/-- `_schema_of`: `response_format["json_schema"]["schema"]`, where both are there. -/
def schemaOf {φ : Type} (responseFormat : Val φ) : Val φ :=
  (responseFormat.getField "json_schema").getField "schema"

/-- `_wants_json`; the redaction asks the same. -/
def wantsJson {φ : Type} (responseFormat : Val φ) : Bool :=
  responseFormat.given &&
    ((responseFormat.getField "type").isStr "json_object" || (responseFormat.getField "type").isStr "json_schema")

section Check

variable {φ : Type} (lib : SchemaLib) (room : ℕ) (repr : φ → List Char)

/-- The loop of `_checked_validator` over the references of the schema. -/
def refProblem (schema : Val PyFloat) : List String → Option String
  | [] => none
  | ref :: rest =>
    if ref.toList.head? ≠ some '#' then some "json_schema has a remote reference"
    else match lib.lookup schema ref with
      | .found => refProblem schema rest
      | .unresolvable => some "json_schema has an unresolvable reference"
      | .raises => some "json_schema is invalid"

/-- `_checked_validator`: the schema its validator stands for, or why there is none.  It depends on the text
alone, so the cache in front of it changes nothing. -/
def checkedValidator (schemaJson : String) : Except String (Val PyFloat) :=
  match JsonLoad.loads room schemaJson with
  | .error _ => .error "json_schema is invalid"
  | .ok schema =>
    if lib.checkSchema schema = false ∨ lib.root schema = false then .error "json_schema is invalid"
    else match refProblem lib schema (refs schema) with
      | some why => .error why
      | none => .ok schema

/-- `json.dumps(schema, sort_keys=True)`. -/
def canonicalSchema (schema : Val φ) : String :=
  String.ofList (Val.dumps ⟨[',', ' '], [':', ' '], JsonText.asciiQuote, repr⟩ schema)

/-- `json_schema_problem`; a decoded document can always be written. -/
def jsonSchemaProblem (responseFormat : Val φ) : Option String :=
  match schemaOf responseFormat with
  | .obj es =>
    if maxSchemaBytes < (canonicalSchema repr (.obj es)).length then some "json_schema.schema exceeds 65536 bytes"
    else match checkedValidator lib room (canonicalSchema repr (.obj es)) with
      | .error why => some why
      | .ok _ => none
  | _ => some "json_schema.schema must be an object"

def isDict : Val φ → Bool
  | .obj _ => true
  | _ => false

/-- The part of `output_problem` for a `json_schema`. -/
def schemaOutputProblem (value : Val PyFloat) (responseFormat : Val φ) : Option String :=
  if (jsonSchemaProblem lib room repr responseFormat).isSome then
    some "InvalidJSON: json_schema cannot be validated by the broker"
  else match checkedValidator lib room (canonicalSchema repr (schemaOf responseFormat)) with
    -- a schema without a problem has a validator
    | .error _ => some "InvalidJSON: json_schema validation failed"
    | .ok schema =>
      match lib.validate schema value with
      | .valid => none
      | .mismatch => some "InvalidJSON: response does not match json_schema"
      | .raises => some "InvalidJSON: json_schema validation failed"

/-- What `output_problem` says of a text that is strict JSON, for a format of type `ty`. -/
def valueProblem (value : Val PyFloat) (ty responseFormat : Val φ) : Option String :=
  if ty.isStr "json_object" && !isDict value then some "InvalidJSON: expected a JSON object"
  else if ty.isStr "json_schema" then schemaOutputProblem lib room repr value responseFormat
  else none

/-- `output_problem`. -/
def outputProblem (text : String) (responseFormat : Val φ) : Except OutputError (Option String) :=
  if responseFormat.given = false then .ok none
  else match JsonLoad.loadsStrict room text with
    | .error .decode => .ok (some "InvalidJSON: subscription model did not return JSON")
    | .error _ => .error .recursionError
    | .ok value =>
      match responseFormat with
      | .obj es =>
        match OrderedDict.get es "type" with
        | none => .error .keyError
        | some ty => .ok (valueProblem lib room repr value ty responseFormat)
      | _ => .error .keyError

end Check

section Laws

variable {φ : Type} {lib : SchemaLib} {room : ℕ} {repr : φ → List Char}

/-! ### What a text that passes is -/

/-- The schema of the format has a validator, and the value is valid under it. -/
def MatchesSchema (lib : SchemaLib) (room : ℕ) (repr : φ → List Char) (responseFormat : Val φ)
    (value : Val PyFloat) : Prop :=
  isDict (schemaOf responseFormat) = true ∧
    (canonicalSchema repr (schemaOf responseFormat)).length ≤ maxSchemaBytes ∧
    ∃ schema, checkedValidator lib room (canonicalSchema repr (schemaOf responseFormat)) = .ok schema ∧
      lib.validate schema value = .valid

/-- The value answers a format of this type. -/
structure Answers (lib : SchemaLib) (room : ℕ) (repr : φ → List Char) (responseFormat : Val φ) (ty : Val φ)
    (value : Val PyFloat) : Prop where
  object : ty = .str "json_object" → isDict value = true
  schema : ty = .str "json_schema" → MatchesSchema lib room repr responseFormat value

theorem jsonSchemaProblem_eq_none {rf : Val φ} :
    jsonSchemaProblem lib room repr rf = none ↔
      isDict (schemaOf rf) = true ∧ (canonicalSchema repr (schemaOf rf)).length ≤ maxSchemaBytes ∧
        ∃ schema, checkedValidator lib room (canonicalSchema repr (schemaOf rf)) = .ok schema := by
  unfold jsonSchemaProblem
  cases hs : schemaOf rf with
  | obj es =>
    by_cases hlen : maxSchemaBytes < (canonicalSchema repr (.obj es)).length
    · simp [hlen, isDict, not_le.mpr hlen]
    · cases hv : checkedValidator lib room (canonicalSchema repr (.obj es)) with
      | error why => simp [hlen, hv]
      | ok schema => simp [hlen, hv, isDict, not_lt.mp hlen]
  | _ => simp [isDict]

theorem schemaOutputProblem_eq_none {rf : Val φ} {value : Val PyFloat} :
    schemaOutputProblem lib room repr value rf = none ↔ MatchesSchema lib room repr rf value := by
  unfold schemaOutputProblem MatchesSchema
  by_cases hp : jsonSchemaProblem lib room repr rf = none
  · obtain ⟨hd, hlen, schema, hs⟩ := jsonSchemaProblem_eq_none.mp hp
    simp only [hp, Option.isSome_none, Bool.false_eq_true, if_false, hs, hd, hlen, true_and]
    cases hv : lib.validate schema value with
    | valid => simp [hv]
    | mismatch => simp [hv]
    | raises => simp [hv]
  · have hsome : (jsonSchemaProblem lib room repr rf).isSome = true := Option.isSome_iff_ne_none.mpr hp
    rw [if_pos hsome]
    simp only [reduceCtorEq, false_iff]
    rintro ⟨hd, hlen, schema, hs, -⟩
    exact hp (jsonSchemaProblem_eq_none.mpr ⟨hd, hlen, schema, hs⟩)

theorem valueProblem_eq_none {rf ty : Val φ} {value : Val PyFloat} :
    valueProblem lib room repr value ty rf = none ↔ Answers lib room repr rf ty value := by
  unfold valueProblem
  by_cases ho : ty.isStr "json_object" = true
  · have hty := Val.isStr_iff.mp ho
    subst hty
    by_cases hd : isDict value = true
    · simp only [hd]
      refine iff_of_true (by simp [Val.isStr]) ⟨fun _ => hd, fun h => by simp at h⟩
    · refine iff_of_false (by simp [Val.isStr, hd]) fun h => hd (h.object rfl)
  · have hne : ty ≠ .str "json_object" := fun h => ho (Val.isStr_iff.mpr h)
    rw [if_neg (by simp [ho])]
    by_cases hsch : ty.isStr "json_schema" = true
    · rw [if_pos hsch, schemaOutputProblem_eq_none]
      exact ⟨fun h => ⟨fun h' => absurd h' hne, fun _ => h⟩, fun h => h.schema (Val.isStr_iff.mp hsch)⟩
    · rw [if_neg hsch]
      have hne' : ty ≠ .str "json_schema" := fun h => hsch (Val.isStr_iff.mpr h)
      exact iff_of_true rfl ⟨fun h => absurd h hne, fun h => absurd h hne'⟩

/-- **What passes the check**: any text where no format is given; otherwise a text that is strict JSON and
answers the format. -/
theorem outputProblem_eq_none {text : String} {rf : Val φ} :
    outputProblem lib room repr text rf = .ok none ↔
      rf.given = false ∨ ∃ es ty value, rf = .obj es ∧ OrderedDict.get es "type" = some ty ∧
        JsonLoad.loadsStrict room text = .ok value ∧ Answers lib room repr rf ty value := by
  unfold outputProblem
  by_cases hg : rf.given = false
  · simp [hg]
  · rw [if_neg hg]
    cases hl : JsonLoad.loadsStrict room text with
    | error e => cases e <;> simp [hg]
    | ok value =>
      cases rf with
      | obj es =>
        cases ht : OrderedDict.get es "type" with
        | none => simp [hg, ht]
        | some ty =>
          dsimp only
          rw [ht, Except.ok.injEq, valueProblem_eq_none]
          constructor
          · intro h
            exact .inr ⟨es, ty, value, rfl, ht, rfl, h⟩
          · rintro (hg' | ⟨es', ty', value', hes, ht', hv, h⟩)
            · exact absurd hg' hg
            · obtain rfl : es = es' := by simpa using hes
              obtain rfl : ty = ty' := by simpa [ht] using ht'
              obtain rfl : value = value' := by simpa using hv
              exact h
      | _ => simp [Val.given] at hg

/-! ### The check reads a format up to the order of its keys -/

variable {rf rf' : Val φ}

theorem schemaOf_same (hd : rf.Dict) (hd' : rf'.Dict) (h : rf.Same rf') : (schemaOf rf).Same (schemaOf rf') :=
  (h.getField hd hd' "json_schema").getField (hd.getField _) (hd'.getField _) "schema"

theorem dict_schemaOf (hd : rf.Dict) : (schemaOf rf).Dict := (hd.getField _).getField _

theorem canonicalSchema_same {v w : Val φ} (hd : v.Dict) (h : v.Same w) :
    canonicalSchema repr v = canonicalSchema repr w := by
  unfold canonicalSchema Val.dumps
  rw [Val.sortKeys_eq_of_same v w hd h]

theorem isDict_same {v w : Val φ} (h : v.Same w) : isDict v = isDict w := by
  cases v with
  | obj es =>
    obtain ⟨fs, rfl, -⟩ := h.isObj
    rfl
  | arr xs =>
    simp only [Val.Same] at h
    obtain ⟨ys, rfl, -⟩ := h
    rfl
  | _ =>
    simp only [Val.Same] at h
    subst h
    rfl

theorem wantsJson_same (hd : rf.Dict) (hd' : rf'.Dict) (h : rf.Same rf') : wantsJson rf = wantsJson rf' := by
  have hty := h.getField hd hd' "type"
  unfold wantsJson
  rw [h.given, hty.isStr, hty.isStr]

theorem matchesSchema_same (hd : rf.Dict) (hd' : rf'.Dict) (h : rf.Same rf') {value : Val PyFloat} :
    MatchesSchema lib room repr rf value ↔ MatchesSchema lib room repr rf' value := by
  have hs := schemaOf_same hd hd' h
  unfold MatchesSchema
  rw [isDict_same hs, canonicalSchema_same (dict_schemaOf hd) hs]

/-- **A text that passes for a format passes for the same format with its keys in another order.** -/
theorem outputProblem_same (hd : rf.Dict) (hd' : rf'.Dict) (h : rf.Same rf') {text : String}
    (hok : outputProblem lib room repr text rf = .ok none) :
      outputProblem lib room repr text rf' = .ok none := by
  rw [outputProblem_eq_none] at hok ⊢
  rcases hok with hg | ⟨es, ty, value, rfl, hty, hl, hans⟩
  · exact .inl (h.given ▸ hg)
  · obtain ⟨fs, rfl, -⟩ := h.isObj
    have hget := Val.get_same hd hd' h "type"
    rw [hty, Option.map_some, eq_comm, Option.map_eq_some_iff] at hget
    obtain ⟨ty', hty', hsort⟩ := hget
    -- the two types are the same text, or neither is a text
    have hstr : ∀ t, ty' = .str t → ty = .str t := by
      rintro t rfl
      have hsame : Val.Same (.str t) ty := Val.same_of_sortKeys_eq _ _ hsort
      exact (Val.same_str t ty).mp hsame
    refine .inr ⟨fs, ty', value, rfl, hty', hl, fun ht => hans.object (hstr _ ht), fun ht => ?_⟩
    exact (matchesSchema_same hd hd' h).mp (hans.schema (hstr _ ht))

end Laws

end Broker.Agent
