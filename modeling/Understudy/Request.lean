import Understudy.Method
import Understudy.Text.Utf8

/-!
# Understudy.Request

Requests, and the keys that expectations are registered under.

A key is a method and a path, and `any` makes a key of its own: it does not stand for the others.
A request is looked up under `lookupOrder`: the key of its own method, then the key of `any`.
-/

namespace Understudy

/-- What an expectation is registered under. The path includes a query, as it is sent. -/
structure RequestKey where
  method : Method
  path : String
deriving Repr, DecidableEq

namespace RequestKey

/-- The key as it is shown. -/
def text (key : RequestKey) : String := key.method.name ++ " " ++ key.path

/-- Whether two keys accept a request in common. -/
def overlaps (k l : RequestKey) : Bool := k.path = l.path && k.method.overlaps l.method

/-- The keys under which a request is looked up, in order. A request whose method no expectation can
name is looked up under `any` alone. -/
def lookupOrder (method path : String) : List RequestKey :=
  match Method.concrete? method with
  | some m => [⟨m, path⟩, ⟨.any, path⟩]
  | none => [⟨.any, path⟩]

end RequestKey

/-- Fields of a message by name, in order. -/
abbrev Headers := List (String × String)

namespace Headers

/-- The value of the first header with a name, in letters of either case. -/
def get? (headers : Headers) (name : String) : Option String :=
  (headers.find? fun header => Ascii.sameLetters header.1 name).map (·.2)

/-- Puts a value under a name that is spelled exactly so. -/
def set (headers : Headers) (name value : String) : Headers :=
  if headers.any (fun header => header.1 = name) then
    headers.map fun header => if header.1 = name then (name, value) else header
  else headers ++ [(name, value)]

/-- Headers in which the last value under a name stays. -/
def ofPairs (pairs : List (String × String)) : Headers :=
  pairs.foldl (fun headers pair => headers.set pair.1 pair.2) []

end Headers

/-- A request. Its method is as it was sent, and need not be one that expectations can name. -/
structure Request where
  method : String
  path : String
  headers : Headers := []
  body : Bytes := []
deriving Repr, DecidableEq

namespace Request

/-- The value of a header, whose name may be in letters of either case. -/
def header? (request : Request) (name : String) : Option String := request.headers.get? name

/-- The body as text. -/
def bodyText (request : Request) : String := Utf8.decodeLossy request.body

/-- The keys under which a request is looked up. -/
def keys (request : Request) : List RequestKey :=
  RequestKey.lookupOrder request.method request.path

end Request

end Understudy
