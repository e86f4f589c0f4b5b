import Understudy.AttributeSet
import Understudy.Json.Parser

/-!
# Understudy.AttributeSet.Document

The attributes of a JSON document.

Every text, number and truth value that is reached from the root through objects alone is an
attribute, named by the field names on the way with points between them. Its value is literal, also
when it is a star. Arrays and nulls give none, and a text that is not a JSON object gives no
attribute at all.
-/

namespace Understudy

namespace AttributeSet

/-- The name of a field in an object that has a name itself; only the root has an empty one. -/
def fieldName (outer name : String) : String := if outer = "" then name else outer ++ "." ++ name

mutual

/-- The attributes of a value that has a name. An array and a null have none. -/
def leaves (name : String) : Json → List Attribute
  | .null => []
  | .bool b => [⟨name, .literal (if b then "true" else "false"), .present⟩]
  | .number n => [⟨name, .literal (String.ofList n.text), .present⟩]
  | .string s => [⟨name, .literal s, .present⟩]
  | .array _ => []
  | .object fields => fieldLeaves name fields

/-- The attributes of the fields of an object with a name. -/
def fieldLeaves (outer : String) : List (String × Json) → List Attribute
  | [] => []
  | (name, value) :: rest => leaves (fieldName outer name) value ++ fieldLeaves outer rest

end

/-- The attributes of a document, which only an object has. -/
def ofDocument : Json → AttributeSet
  | .object fields => ofList (fieldLeaves "" fields)
  | _ => empty

/-- The attributes of a text. -/
def ofBody (body : String) : AttributeSet :=
  match Json.parse? body with
  | some document => ofDocument document
  | none => empty

end AttributeSet

end Understudy
