import Understudy.AttributeSet
import Understudy.Text.Cut
import Understudy.Text.Percent

/-!
# Understudy.AttributeSet.Query

The attributes of a request path.

The part before the first question mark, without the slashes at its end, is the attribute `path`.
Each part of the query is a condition: `k=v` wants the value `v` under `k`, where a star stands for
any value, `k!=v` wants it not to be there, and a bare `k` wants any value. Conditions are cut
before they are decoded, so an encoded separator is text; empty ones are skipped.
-/

namespace Understudy

namespace AttributeSet

/-- The name of the attribute that holds a path. -/
def pathName : String := "path"

/-- The name of a path without the slashes at its end; the root keeps its slash. -/
def baseName (cs : List Char) : String :=
  match Text.dropTrailing '/' cs with
  | [] => "/"
  | c :: cs => String.ofList (c :: cs)

/-- Reads a condition. -/
def condition (part : List Char) : Attribute :=
  match Text.cutPair '!' '=' part with
  | some (name, value) =>
    ⟨Percent.decodeField name, .ofText (Percent.decodeField value), .absent⟩
  | none =>
    match Text.cut '=' part with
    | some (name, value) =>
      ⟨Percent.decodeField name, .ofText (Percent.decodeField value), .present⟩
    | none => ⟨Percent.decodeField part, .wildcard, .present⟩

/-- The conditions of a query in order. Parts that are empty are none. -/
def conditions (query : List Char) : List Attribute :=
  ((Text.fields '&' query).filter fun part => !part.isEmpty).map condition

/-- The base and the query of a path. -/
def splitPath (path : List Char) : List Char × List Char := (Text.cut '?' path).getD (path, [])

/-- What a path asks for: its base under `path`, and over that the conditions of its query. -/
def ofPath (path : String) : AttributeSet :=
  let (base, query) := splitPath path.toList
  ofList (⟨pathName, .literal (baseName base), .present⟩ :: conditions query)

end AttributeSet

end Understudy
