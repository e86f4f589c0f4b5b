import Understudy.Text.Ascii

/-!
# Understudy.Method

The methods that an expectation can name: those of HTTP, and `any`, which accepts each of them.
-/

namespace Understudy

/-- A method of an expectation. -/
inductive Method where
  | get
  | post
  | put
  | patch
  | delete
  | head
  | options
  | trace
  | connect
  /-- Accepts every method. -/
  | any
deriving Repr, DecidableEq

/-- A text that is not the name of a method. -/
structure UnknownMethod where
  text : String
deriving Repr, DecidableEq

/-- The error in words. -/
def UnknownMethod.message (e : UnknownMethod) : String := "Unknown HTTP method: " ++ e.text

namespace Method

/-- The name of a method, in capital letters. -/
def name : Method → String
  | get => "GET"
  | post => "POST"
  | put => "PUT"
  | patch => "PATCH"
  | delete => "DELETE"
  | head => "HEAD"
  | options => "OPTIONS"
  | trace => "TRACE"
  | connect => "CONNECT"
  | any => "ANY"

/-- The methods, in the order in which a name is looked up. -/
def all : List Method := [get, post, put, patch, delete, head, options, trace, connect, any]

/-- Reads a method in letters of either case; a star also stands for `any`. -/
def parse (text : String) : Except UnknownMethod Method :=
  let upper := Ascii.upper text
  if upper = "*" then .ok any
  else
    match all.find? fun m => m.name = upper with
    | some m => .ok m
    | none => .error ⟨text⟩

/-- The method that a request names, if expectations can name it and it is not `any`. -/
def concrete? (text : String) : Option Method :=
  match parse text with
  | .ok .any => none
  | .ok m => some m
  | .error _ => none

theorem concrete?_ne_any {text : String} {m : Method} (h : concrete? text = some m) :
    m ≠ any := by
  unfold concrete? at h
  split at h
  · cases h
  · rename_i hne _
    cases h
    intro hm
    exact hne hm
  · cases h

/-- Whether two methods accept a request in common. -/
def overlaps (m n : Method) : Bool := m = n || m = any || n = any

end Method

end Understudy
