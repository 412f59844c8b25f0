import Broker.Lib.JsonScan
import Broker.Services.Submit

/-!
# Broker.Services.PayloadHash — what `payload_hash` digests

The text is `project:capability:canonical`, none of it escaped.  The project's digits end at the first
colon; the capability may hold anything, colons and braces included, and still ends where the canonical
text starts, because no object's text ends in a colon and another object's text.  Floats are of any type
with the texts `float.__repr__` is documented to write.
-/

namespace Broker.Services

open Broker.Lib

section Text

variable {φ : Type}

/-- A message without its null fields. -/
def dropNullFields : Val φ → Val φ
  | .obj es => .obj (es.filter fun e => match e.2 with | .null => false | _ => true)
  | m => m

/-- `_without_null_message_fields`, over any floats. -/
def withoutNullFields (request : List (String × Val φ)) : List (String × Val φ) :=
  match OrderedDict.get request "messages" with
  | some (.arr messages) => OrderedDict.setItem request "messages" (.arr (messages.map dropNullFields))
  | _ => request

/-- The text `payload_hash` digests. -/
def payloadText (repr : φ → List Char) (projectId : ℕ) (capability : String)
    (request : List (String × Val φ)) : List Char :=
  Nat.toDigits 10 projectId ++ ':' :: (capability.toList ++
    ':' :: (Val.obj (withoutNullFields request)).dumps (asciiCompact repr))

/-- A JSON request: dictionaries all through. -/
structure JsonRequest (φ : Type) where
  entries : List (String × Val φ)
  dict : (Val.obj entries).Dict

theorem dict_dropNullFields {m : Val φ} (h : m.Dict) : (dropNullFields m).Dict := by
  cases m with
  | obj es =>
    obtain ⟨hkeys, hvals⟩ := Val.dict_obj.mp h
    refine Val.dict_obj.mpr ⟨?_, fun e he => hvals e (List.mem_of_mem_filter he)⟩
    exact hkeys.sublist (List.filter_sublist.map Prod.fst)
  | _ => exact h

theorem dict_withoutNullFields {request : List (String × Val φ)} (h : (Val.obj request).Dict) :
    (Val.obj (withoutNullFields request)).Dict := by
  unfold withoutNullFields
  split
  · rename_i messages hget
    obtain ⟨hkeys, hvals⟩ := Val.dict_obj.mp h
    refine Val.dict_obj.mpr ⟨OrderedDict.keys_setItem_nodup hkeys, fun e he => ?_⟩
    rcases OrderedDict.mem_setItem.mp he with rfl | ⟨he, -⟩
    · have hmessages : ∀ m ∈ messages, m.Dict := Val.dict_arr.mp (hvals _ (OrderedDict.mem_of_get hget))
      refine Val.dict_arr.mpr fun m hm => ?_
      obtain ⟨m', hm', rfl⟩ := List.mem_map.mp hm
      exact dict_dropNullFields (hmessages m' hm')
    · exact hvals e he
  · exact h

/-- Requests that agree after the nulls are gone have one text. -/
theorem payloadText_congr (repr : φ → List Char) (projectId : ℕ) (capability : String)
    {r r' : List (String × Val φ)} (hr : (Val.obj r).Dict)
    (h : Val.Same (.obj (withoutNullFields r)) (.obj (withoutNullFields r'))) :
    payloadText repr projectId capability r = payloadText repr projectId capability r' := by
  have hsort := (Val.sortKeys_eq_iff (dict_withoutNullFields hr)).mpr h
  simp only [payloadText, Val.dumps, hsort]

/-- The text determines the project, the capability and the document. -/
theorem same_of_payloadText_eq (F : FlatFloatText φ) {p p' : ℕ} {c c' : String} {r r' : List (String × Val φ)}
    (h : payloadText F.repr p c r = payloadText F.repr p' c' r') :
    p = p' ∧ c = c' ∧ Val.Same (.obj (withoutNullFields r)) (.obj (withoutNullFields r')) := by
  have hcolon : ∀ n, ':' ∉ Nat.toDigits 10 n := fun n hn => absurd (isDigit_of_mem_toDigits hn) (by decide)
  obtain ⟨hp, htail⟩ := append_sep_inj (hcolon p) (hcolon p') h
  simp only [Val.dumps, Val.sortKeys] at htail
  obtain ⟨hc, hobj⟩ := Val.object_seam (asciiCompact_scannable F) htail
  refine ⟨toDigits_injective hp, String.toList_inj.mp hc, ?_⟩
  refine Val.same_of_dumps_eq (asciiCompact_lawful F.toFloatText) ?_
  simpa only [Val.dumps, Val.sortKeys] using hobj

/-- **The text identifies the request**: it is the same for two of them exactly when the projects, the
capabilities and, but for the null fields of messages, the documents are the same. -/
theorem payloadText_eq_iff (F : FlatFloatText φ) (p p' : ℕ) (c c' : String) (r r' : JsonRequest φ) :
    payloadText F.repr p c r.entries = payloadText F.repr p' c' r'.entries ↔
      p = p' ∧ c = c' ∧ Val.Same (.obj (withoutNullFields r.entries)) (.obj (withoutNullFields r'.entries)) := by
  refine ⟨same_of_payloadText_eq F, ?_⟩
  rintro ⟨rfl, rfl, h⟩
  exact payloadText_congr F.repr p c r.dict h

end Text

/-! ### The hash of a stored request -/

theorem ofJsonItems_map (f : Json → Json) (g : Val ℚ → Val ℚ) (h : ∀ m, Val.ofJson (f m) = g (Val.ofJson m)) :
    ∀ ms : List Json, Val.ofJsonItems (ms.map f) = (Val.ofJsonItems ms).map g
  | [] => rfl
  | m :: ms => by simp [Val.ofJsonItems, h, ofJsonItems_map f g h ms]

theorem ofJsonEntries_eq_map (es : List (String × Json)) :
    Val.ofJsonEntries es = es.map fun e => (e.1, Val.ofJson e.2) := by
  induction es with
  | nil => rfl
  | cons e es ih =>
    obtain ⟨k, v⟩ := e
    simp [Val.ofJsonEntries, ih]

theorem ofJson_dropNulls (m : Json) : Val.ofJson (dropNulls m) = dropNullFields (Val.ofJson m) := by
  cases m with
  | obj es =>
    simp only [dropNulls, dropNullFields, Val.ofJson, ofJsonEntries_eq_map, List.filter_map]
    refine congrArg (fun es => Val.obj (List.map _ es)) (List.filter_congr fun e _ => ?_)
    obtain ⟨k, v⟩ := e
    cases v <;> rfl
  | _ => rfl

theorem get_ofJsonEntries (es : List (String × Json)) (k : String) :
    OrderedDict.get (Val.ofJsonEntries es) k = (OrderedDict.get es k).map Val.ofJson := by
  rw [ofJsonEntries_eq_map, OrderedDict.get, OrderedDict.get, List.find?_map, Option.map_map, Option.map_map]
  rfl

theorem setItem_ofJsonEntries (es : List (String × Json)) (k : String) (v : Json) :
    OrderedDict.setItem (Val.ofJsonEntries es) k (Val.ofJson v) =
      Val.ofJsonEntries (OrderedDict.setItem es k v) := by
  have hany : ((es.map fun e => (e.1, Val.ofJson e.2)).any fun e => decide (e.1 = k)) =
      es.any fun e => decide (e.1 = k) := by
    rw [List.any_map]
    rfl
  simp only [ofJsonEntries_eq_map, OrderedDict.setItem, hany]
  split_ifs
  · rw [List.map_map, List.map_map]
    refine List.map_congr_left fun e _ => ?_
    by_cases he : e.1 = k <;> simp [he]
  · simp

theorem ofJsonEntries_withoutNulls (r : List (String × Json)) :
    Val.ofJsonEntries (withoutNullMessageFields r) = withoutNullFields (Val.ofJsonEntries r) := by
  unfold withoutNullMessageFields withoutNullFields
  rw [get_ofJsonEntries]
  cases OrderedDict.get r "messages" with
  | none => rfl
  | some m =>
    cases m with
    | arr messages =>
      simp only [Option.map_some, Val.ofJson]
      rw [← ofJsonItems_map dropNulls dropNullFields ofJson_dropNulls, ← setItem_ofJsonEntries]
      simp only [Val.ofJson]
    | _ => rfl

theorem payloadHash_eq (E : HashEnv) (projectId : ℕ) (capability : String) (r : List (String × Json)) :
    payloadHash E projectId capability r =
      E.md5 (String.ofList (payloadText E.floatRepr projectId capability (Val.ofJsonEntries r))) := by
  have htext : toString projectId ++ ":" ++ capability ++ ":" ++
      String.ofList ((Val.ofJson (.obj (withoutNullMessageFields r))).dumps (asciiCompact E.floatRepr)) =
      String.ofList (payloadText E.floatRepr projectId capability (Val.ofJsonEntries r)) := by
    apply String.toList_inj.mp
    simp [payloadText, Nat.toString_eq_repr, Nat.toList_repr, Val.ofJson, ofJsonEntries_withoutNulls]
  exact congrArg E.md5 htext

end Broker.Services
