import Understudy.Json.Lexer

/-!
# Understudy.Json.Parser

Reading documents from tokens.

The reader is a machine that takes one token at a time. Its `Mode` says where it stands in the array
or object that is being read, and what has been read of it; its stack holds the arrays and objects
around that one. At most `maxDepth` of them may be nested.

* `ofTokens?` reads exactly one document.
* `read?` reads a text and keeps its fields as they are written.
* `parse?` reads a text as a canonical document.
-/

namespace Understudy

namespace Json

namespace Reader

/-- How many arrays and objects may be nested. -/
def maxDepth : Nat := 127

/-- An array or object around the one that is being read. The items and fields before are kept last
first. -/
inductive Frame where
  | array (items : List Json)
  | field (fields : List (String × Json)) (name : String)

/-- Where the machine stands, and so what it expects. -/
inductive Mode where
  /-- A value has to follow. -/
  | value
  /-- After the opening bracket of an array. -/
  | arrayOpen
  /-- After an item. -/
  | arrayNext (items : List Json)
  /-- After the opening brace of an object. -/
  | objectOpen
  /-- After a comma in an object. -/
  | name (fields : List (String × Json))
  /-- After the name of a field. -/
  | colon (fields : List (String × Json)) (name : String)
  /-- After the value of a field. -/
  | objectNext (fields : List (String × Json))
  /-- After the document. -/
  | done (value : Json)

/-- The state of the machine. -/
structure Machine where
  stack : List Frame
  mode : Mode

/-- Puts a value that is complete where it belongs. -/
def give : List Frame → Json → Machine
  | [], v => ⟨[], .done v⟩
  | .array items :: stack, v => ⟨stack, .arrayNext (v :: items)⟩
  | .field fields name :: stack, v => ⟨stack, .objectNext ((name, v) :: fields)⟩

/-- Takes the first token of a value. -/
def beginValue (stack : List Frame) : Token → Option Machine
  | .openArray => if stack.length < maxDepth then some ⟨stack, .arrayOpen⟩ else none
  | .openObject => if stack.length < maxDepth then some ⟨stack, .objectOpen⟩ else none
  | .null => some (give stack .null)
  | .bool b => some (give stack (.bool b))
  | .number n => some (give stack (.number n))
  | .string s => some (give stack (.string s))
  | _ => none

/-- Takes a token. -/
def step : Machine → Token → Option Machine
  | ⟨stack, .value⟩, t => beginValue stack t
  | ⟨stack, .arrayOpen⟩, .closeArray => some (give stack (.array []))
  | ⟨stack, .arrayOpen⟩, t => beginValue (.array [] :: stack) t
  | ⟨stack, .arrayNext items⟩, .comma => some ⟨.array items :: stack, .value⟩
  | ⟨stack, .arrayNext items⟩, .closeArray => some (give stack (.array items.reverse))
  | ⟨stack, .objectOpen⟩, .closeObject => some (give stack (.object []))
  | ⟨stack, .objectOpen⟩, .string name => some ⟨stack, .colon [] name⟩
  | ⟨stack, .name fields⟩, .string name => some ⟨stack, .colon fields name⟩
  | ⟨stack, .colon fields name⟩, .colon => some ⟨.field fields name :: stack, .value⟩
  | ⟨stack, .objectNext fields⟩, .comma => some ⟨stack, .name fields⟩
  | ⟨stack, .objectNext fields⟩, .closeObject => some (give stack (.object fields.reverse))
  | _, _ => none

/-- Takes tokens. -/
def run : Machine → List Token → Option Machine
  | m, [] => some m
  | m, t :: ts => (step m t).bind fun m => run m ts

@[simp] theorem run_nil (m : Machine) : run m [] = some m := rfl

theorem run_append (m : Machine) (ts us : List Token) :
    run m (ts ++ us) = (run m ts).bind fun m => run m us := by
  induction ts generalizing m with
  | nil => rfl
  | cons t ts ih => simp only [List.cons_append, run, Option.bind_assoc, ih]

end Reader

/-- The document that tokens spell, if they spell exactly one. -/
def ofTokens? (ts : List Token) : Option Json :=
  match Reader.run ⟨[], .value⟩ ts with
  | some ⟨_, .done v⟩ => some v
  | _ => none

/-- Reads a document and keeps its fields as they are written. -/
def read? (text : String) : Option Json := (Token.ofText? text.toList).bind ofTokens?

/-- Reads a document in canonical form. -/
def parse? (text : String) : Option Json := (read? text).map canonical

end Json

end Understudy
