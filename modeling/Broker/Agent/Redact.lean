import Broker.Agent.SubscriptionJob
import Broker.Lib.PyConv

/-!
# Broker.Agent.Redact — masking secrets in a JSON answer

`redact_obj` masks every string of a document and every string under a token key; `redact_final_text`
masks the strings of a JSON answer and writes the document again, unless nothing was masked.  It calls itself
for every level of the document, so one that the interpreter's stack has no room for raises.  The masking of
one text is a parameter.
-/

namespace Broker.Agent

open Broker.Lib

/-- `_TOKEN_KEYS`. -/
def tokenKeys : List String := ["refresh_token", "access_token", "id_token"]

/-- The lower case of a character, where it is an ASCII letter: the Kelvin sign has one too. -/
def lowerAscii (c : Char) : Char := if c = Char.ofNat 0x212A then 'k' else c.toLower

/-- `k.lower() in _TOKEN_KEYS`. -/
def isTokenKey (k : String) : Bool := tokenKeys.contains (String.ofList (k.toList.map lowerAscii))

/-- `REDACTED`. -/
def redactedMark : String := "[REDACTED]"

section Redact

variable (redact : String → String)

-- the document `redact_obj` builds: two keys with one masked text share an entry
mutual
def redacted : Val PyFloat → Val PyFloat
  | .str s => .str (redact s)
  | .obj es => .obj (JsonLoad.dictOf (redactEntries es))
  | .arr xs => .arr (redactItems xs)
  | v => v
def redactItems : List (Val PyFloat) → List (Val PyFloat)
  | [] => []
  | x :: xs => redacted x :: redactItems xs
def redactEntries : List (String × Val PyFloat) → List (String × Val PyFloat)
  | [] => []
  | (k, .str s) :: es =>
    (redact k, .str (if isTokenKey k then redactedMark else redact s)) :: redactEntries es
  | (k, x) :: es => (redact k, redacted x) :: redactEntries es
end

/-- `redact_obj`, where the stack has room for `stack` levels. -/
def redactObj (stack : ℕ) (v : Val PyFloat) : Except OutputError (Val PyFloat) :=
  if PyConv.depth v ≤ stack then .ok (redacted redact v) else .error .recursionError

/-- `json.dumps(v, ensure_ascii=False)`. -/
def dumpsPlain (floatRepr : PyFloat → List Char) (v : Val PyFloat) : String :=
  String.ofList (Val.dump ⟨[',', ' '], [':', ' '], JsonText.quote, floatRepr⟩ v)

/-- `redact_final_text`; `room` is the depth `json.loads` takes.  The comparison and `json.dumps` have room for
what `redact_obj` returns. -/
def redactFinalText {φ : Type} (room stack : ℕ) (floatRepr : PyFloat → List Char) (text : String)
    (responseFormat : Val φ) : Except OutputError String :=
  if wantsJson responseFormat then
    match JsonLoad.loadsStrict room text with
    | .error .decode => .ok (redact text)
    | .error _ => .error .recursionError
    | .ok value => do
      let cleaned ← redactObj redact stack value
      if cleaned.pyEq value then .ok text else .ok (dumpsPlain floatRepr cleaned)
  else .ok (redact text)

end Redact

end Broker.Agent
