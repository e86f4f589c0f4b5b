import Understudy.Json.Token

/-!
# Understudy.Json.Printer

Writing documents: first as tokens (`tokens`), then as text without blanks (`text`).
-/

namespace Understudy

namespace Json

mutual

/-- The tokens of a document. -/
def tokens : Json → List Token
  | null => [.null]
  | bool b => [.bool b]
  | number n => [.number n]
  | string s => [.string s]
  | array items => .openArray :: (itemTokens items ++ [.closeArray])
  | object fields => .openObject :: (fieldTokens fields ++ [.closeObject])

/-- The tokens of the items of an array, with commas between them. -/
def itemTokens : List Json → List Token
  | [] => []
  | [item] => tokens item
  | item :: next :: rest => tokens item ++ .comma :: itemTokens (next :: rest)

/-- The tokens of fields, with commas between them. -/
def fieldTokens : List (String × Json) → List Token
  | [] => []
  | [(name, value)] => .string name :: .colon :: tokens value
  | (name, value) :: next :: rest =>
    .string name :: .colon :: (tokens value ++ .comma :: fieldTokens (next :: rest))

end

/-- The characters of a document. -/
def chars (j : Json) : List Char := j.tokens.flatMap Token.text

/-- The text of a document. -/
def text (j : Json) : String := String.ofList j.chars

end Json

end Understudy
