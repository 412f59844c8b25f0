import Broker.Agent.Redact
import Broker.Lib.JsonReadBack

/-!
# Broker.Providers.ToolEnvelope — unwrapping a forced tool call

Claude answers a JSON request through a forced tool call, and may leave the answer inside a generic
envelope. `normalize_json_text` takes the inner object of such an envelope, unless the caller's schema
declares the envelope's key among its top-level properties.  A schema can ask for the key elsewhere, so
an answer that passes the check may stop passing it: it passes exactly when the schema declares the key
or takes the inner object too (`normalize_passes_iff`).
-/

namespace Broker.Providers

open Broker.Lib Broker.Agent

/-- `_TOOL_ENVELOPE_KEYS`. -/
def toolEnvelopeKeys : List String := ["parameters", "arguments", "input"]

/-- What `normalize_json_text` raises. -/
inductive NormalizeError | recursionError | attributeError | typeError
  deriving DecidableEq, Repr

/-- `key in v`: a key of a dictionary, an item of a list, a part of a text. -/
def containsKey (key : String) : Val PyFloat → Except NormalizeError Bool
  | .obj es => .ok (Doc.has es key)
  | .arr xs => .ok (xs.any fun x => x.isText key)
  | .str s => .ok (s.toList.tails.any fun rest => key.toList.isPrefixOf rest)
  | _ => .error .typeError

/-- Whether the caller's schema declares the key at its top level. -/
def declaresKey (responseFormat : Val PyFloat) (key : String) : Except NormalizeError Bool :=
  match (responseFormat.getField "json_schema").orDict with
  | none => .error .attributeError
  | some given =>
    match (OrderedDict.get given "schema").getD (.obj []) with
    | .obj declared =>
      if (Doc.get declared "properties").truthy then containsKey key (Doc.get declared "properties") else .ok false
    | _ => .error .attributeError

/-- The key and the inner object of an envelope. -/
def envelope : Val PyFloat → Option (String × Doc)
  | .obj [(key, .obj inner)] => if toolEnvelopeKeys.contains key then some (key, inner) else none
  | _ => none

/-- `_AnthropicAdapter.normalize_json_text`. -/
def normalizeJsonText (room : ℕ) (floatRepr : PyFloat → List Char) (text : String)
    (responseFormat : Val PyFloat) :
    Except NormalizeError String :=
  if wantsJson responseFormat then
    match JsonLoad.loads room text with
    | .error .decode => .ok text
    | .error _ => .error .recursionError
    | .ok body =>
      match envelope body with
      | none => .ok text
      | some (key, inner) =>
        (declaresKey responseFormat key).map fun declared =>
          if declared then text else dumpsPlain floatRepr (.obj inner)
  else .ok text

section Laws

variable {lib : SchemaLib} {room : ℕ} {floatRepr : PyFloat → List Char} {text : String} {rf : Val PyFloat}

theorem envelope_eq_some {value : Val PyFloat} {key : String} {inner : Doc}
    (h : envelope value = some (key, inner)) : value = .obj [(key, .obj inner)] := by
  unfold envelope at h
  split at h
  · split_ifs at h
    obtain ⟨rfl, rfl⟩ := Prod.mk.inj (Option.some.inj h)
    rfl
  · cases h

/-- A strict text is read the same by the liberal decoder. -/
theorem loads_of_loadsStrict {value : Val PyFloat} (h : JsonLoad.loadsStrict room text = .ok value) :
    JsonLoad.loads room text = .ok value := by
  rcases JsonLoad.loadsStrict_cases room text with heq | herr
  · rw [← heq, h]
  · rw [herr] at h
    cases h

/-- The inner object is written and read again. -/
theorem loadsStrict_inner {key : String} {inner : Doc}
    (h : JsonLoad.loadsStrict room text = .ok (.obj [(key, .obj inner)]))
    (hfloats : ∀ x ∈ JsonLoad.floats (.obj [(key, .obj inner)]), JsonLoad.ReadsBack floatRepr x) :
    JsonLoad.loadsStrict room (dumpsPlain floatRepr (.obj inner)) = .ok (.obj inner) := by
  have hkept := JsonLoad.kept_of_loadsStrict h hfloats
  cases room with
  | zero => exact hkept.elim
  | succ room =>
    have hinner : JsonLoad.Readable (JsonLoad.Kept floatRepr) room (.obj inner) := hkept.2.1
    exact JsonLoad.loadsStrict_dump (JsonLoad.Readable.imp _ (Nat.le_succ room) (fun _ _ hx => hx) hinner)

/-- What a format of JSON checks of a strict text. -/
theorem outputProblem_of_wantsJson (hjson : wantsJson rf = true) {value : Val PyFloat}
    (hl : JsonLoad.loadsStrict room text = .ok value) :
    outputProblem lib room floatRepr text rf = .ok none ↔
      Answers lib room floatRepr rf (rf.getField "type") value := by
  obtain ⟨es, rfl⟩ : ∃ es, rf = .obj es := by
    cases rf with
    | obj es => exact ⟨es, rfl⟩
    | _ => simp [wantsJson, Val.given] at hjson
  have hgiven : Val.given (.obj es : Val PyFloat) ≠ false := by
    simp only [wantsJson, Bool.and_eq_true] at hjson
    simp [hjson.1]
  have hty : ∃ ty, OrderedDict.get es "type" = some ty := by
    cases ht : OrderedDict.get es "type" with
    | none => simp [wantsJson, Val.getField, ht, Val.isStr] at hjson
    | some ty => exact ⟨ty, rfl⟩
  obtain ⟨ty, hty⟩ := hty
  have hfield : Val.getField (.obj es : Val PyFloat) "type" = ty := by
    rw [Val.getField, hty]
    rfl
  rw [outputProblem_eq_none, hfield]
  constructor
  · rintro (hg | ⟨es', ty', value', hes, hty', hl', hans⟩)
    · exact absurd hg hgiven
    · obtain rfl : es = es' := by simpa using hes
      obtain rfl : ty = ty' := by simpa [hty] using hty'
      obtain rfl : value = value' := by simpa [hl] using hl'
      exact hans
  · intro hans
    exact .inr ⟨es, ty, value, rfl, hty, hl, hans⟩

/-- The schema declares the key of the envelope, or takes the inner object as well. -/
def EnvelopeFits (lib : SchemaLib) (room : ℕ) (floatRepr : PyFloat → List Char) (rf : Val PyFloat)
    (key : String)
    (inner : Doc) : Prop :=
  declaresKey rf key = .ok true ∨
    declaresKey rf key = .ok false ∧
      (rf.getField "type" = .str "json_schema" → MatchesSchema lib room floatRepr rf (.obj inner))

/-- **An answer that passes the check passes it unwrapped** exactly when it is no envelope, or the schema
declares the envelope's key, or takes the inner object as well. -/
theorem normalize_passes_iff (lib : SchemaLib) (room : ℕ) (floatRepr : PyFloat → List Char) (text : String)
    (rf : Val PyFloat) (hjson : wantsJson rf = true)
    (hfloats : ∀ value, JsonLoad.loadsStrict room text = .ok value →
      ∀ x ∈ JsonLoad.floats value, JsonLoad.ReadsBack floatRepr x)
    (hok : outputProblem lib room floatRepr text rf = .ok none) :
    (∃ out, normalizeJsonText room floatRepr text rf = .ok out ∧
      outputProblem lib room floatRepr out rf = .ok none) ↔
    ∀ value key inner, JsonLoad.loadsStrict room text = .ok value → envelope value = some (key, inner) →
      EnvelopeFits lib room floatRepr rf key inner := by
  obtain ⟨value, hl⟩ : ∃ value, JsonLoad.loadsStrict room text = .ok value := by
    rcases outputProblem_eq_none.mp hok with hg | ⟨_, _, value, -, -, hl, -⟩
    · simp [wantsJson, hg] at hjson
    · exact ⟨value, hl⟩
  cases he : envelope value with
  | none =>
    have hnorm : normalizeJsonText room floatRepr text rf = .ok text := by
      simp only [normalizeJsonText, hjson, if_true, loads_of_loadsStrict hl, he]
    refine iff_of_true ⟨text, hnorm, hok⟩ fun value' key inner hl' he' => ?_
    obtain rfl : value = value' := by simpa [hl] using hl'
    rw [he] at he'
    cases he'
  | some r =>
    obtain ⟨key, inner⟩ := r
    obtain rfl := envelope_eq_some he
    have hnorm : normalizeJsonText room floatRepr text rf =
        (declaresKey rf key).map fun declared =>
          if declared then text else dumpsPlain floatRepr (.obj inner) := by
      simp only [normalizeJsonText, hjson, if_true, loads_of_loadsStrict hl, he]
    have hout : outputProblem lib room floatRepr (dumpsPlain floatRepr (.obj inner)) rf = .ok none ↔
        Answers lib room floatRepr rf (rf.getField "type") (.obj inner) :=
      outputProblem_of_wantsJson hjson (loadsStrict_inner hl (hfloats _ hl))
    -- a JSON object is no longer one only where the schema refuses it
    have hans : Answers lib room floatRepr rf (rf.getField "type") (.obj inner) ↔
        (rf.getField "type" = .str "json_schema" → MatchesSchema lib room floatRepr rf (.obj inner)) :=
      ⟨fun h => h.schema, fun h => ⟨fun _ => rfl, h⟩⟩
    have hcond : (∀ value' key' inner', JsonLoad.loadsStrict room text = .ok value' →
        envelope value' = some (key', inner') → EnvelopeFits lib room floatRepr rf key' inner') ↔
        EnvelopeFits lib room floatRepr rf key inner := by
      refine ⟨fun h => h _ key inner hl he, fun h value' key' inner' hl' he' => ?_⟩
      rw [hl] at hl'
      rw [← Except.ok.inj hl', he] at he'
      obtain ⟨rfl, rfl⟩ := Prod.mk.inj (Option.some.inj he')
      exact h
    rw [hcond, hnorm, EnvelopeFits]
    cases hd : declaresKey rf key with
    | error e => simp [Except.map]
    | ok declared =>
      cases declared with
      | true => simpa [Except.map] using hok
      | false => simp [Except.map, hout, hans]

end Laws

/-- The part of a validator that reads `type: object` and `required`. -/
def requiredLib : SchemaLib where
  checkSchema _ := true
  root _ := true
  lookup _ _ := .found
  validate schema value :=
    match value, schema.getField "required" with
    | .obj es, .arr names => if names.all fun n => es.any fun e => n.isText e.1 then .valid else .mismatch
    | .obj _, _ => .valid
    | _, _ => .mismatch
  accepts _ _ := true

/-- A request for an object with an `input`. -/
def inputFormat : Val PyFloat :=
  .obj [("type", .str "json_schema"), ("json_schema", .obj [("name", .str "a"),
    ("schema", .obj [("type", .str "object"), ("required", .arr [.str "input"])])])]

def anyObjectFormat : Val PyFloat := .obj [("type", .str "json_object")]

/-- An answer to a `json_object` request is passed on without its envelope. -/
theorem normalize_passes_objectReply :
    outputProblem requiredLib 9 (fun _ => []) "\x7b\"input\":\x7b\x7d\x7d" anyObjectFormat = .ok none ∧
      ∃ out, normalizeJsonText 9 (fun _ => []) "\x7b\"input\":\x7b\x7d\x7d" anyObjectFormat = .ok out ∧
        outputProblem requiredLib 9 (fun _ => []) out anyObjectFormat = .ok none := by
  have hok : outputProblem requiredLib 9 (fun _ => []) "\x7b\"input\":\x7b\x7d\x7d" anyObjectFormat =
      .ok none := by decide +kernel
  have hfloats : (JsonLoad.loadsStrict 9 "\x7b\"input\":\x7b\x7d\x7d").map JsonLoad.floats = .ok [] := by
    decide +kernel
  refine ⟨hok, (normalize_passes_iff requiredLib 9 _ _ _ rfl ?_ hok).mpr ?_⟩
  · intro value hl x hx
    rw [hl] at hfloats
    rw [Except.ok.inj hfloats] at hx
    cases hx
  · intro value key inner _ _
    exact .inr ⟨rfl, fun h => by simp [anyObjectFormat, Val.getField, OrderedDict.get] at h⟩

/-- The answer's only key is required and not declared: the answer passes, its inner object does not. -/
theorem normalize_breaks_requiredInput :
    ¬ ∀ (text : String) (rf : Val PyFloat), wantsJson rf = true →
      outputProblem requiredLib 9 (fun _ => []) text rf = .ok none →
      ∃ out, normalizeJsonText 9 (fun _ => []) text rf = .ok out ∧
        outputProblem requiredLib 9 (fun _ => []) out rf = .ok none := by
  intro h
  obtain ⟨out, hout, hpass⟩ := h "\x7b\"input\":\x7b\x7d\x7d" inputFormat rfl (by decide +kernel)
  have hinner : normalizeJsonText 9 (fun _ => []) "\x7b\"input\":\x7b\x7d\x7d" inputFormat = .ok "\x7b\x7d" := by
    decide +kernel
  obtain rfl : "\x7b\x7d" = out := by simpa [hinner] using hout
  have hfail : outputProblem requiredLib 9 (fun _ => []) "\x7b\x7d" inputFormat =
      .ok (some "InvalidJSON: response does not match json_schema") := by decide +kernel
  rw [hfail] at hpass
  cases hpass

end Broker.Providers
