import Understudy.Json.Value
import Understudy.Text.Cut

/-!
# Understudy.Json.Pointer

Pointers into documents, and reading and changing what they point at.

A pointer is a list of steps, each the name of a field or the index of an item. In a text every step
follows a slash, `~1` stands for a slash and `~0` for a tilde; a `#` in front is allowed and means
nothing. An index has no sign and no leading zero.
-/

namespace Understudy

namespace Json

/-- The steps from the root of a document to a part of it. -/
structure Pointer where
  steps : List String
deriving Repr, DecidableEq

namespace Pointer

/-- The whole document. -/
def root : Pointer := ⟨[]⟩

/-! ### Text -/

/-- Reads the escapes of a step. -/
def unescape? : List Char → Option (List Char)
  | [] => some []
  | c :: cs =>
    if c = '~' then
      match cs with
      | [] => none
      | d :: ds =>
        if d = '0' then (unescape? ds).map ('~' :: ·)
        else if d = '1' then (unescape? ds).map ('/' :: ·)
        else none
    else (unescape? cs).map (c :: ·)

/-- Writes a step. -/
def escape (cs : List Char) : List Char :=
  cs.flatMap fun c => if c = '~' then ['~', '0'] else if c = '/' then ['~', '1'] else [c]

/-- Reads a pointer. -/
def parse? (text : String) : Option Pointer :=
  let cs := match text.toList with
    | '#' :: rest => rest
    | cs => cs
  match cs with
  | [] => some root
  | c :: rest =>
    if c = '/' then
      ((Text.fields '/' rest).mapM unescape?).map fun steps => ⟨steps.map String.ofList⟩
    else none

/-- Writes a pointer. -/
def text (p : Pointer) : String :=
  String.ofList (p.steps.flatMap fun step => '/' :: escape step.toList)

/-! ### Indexes -/

/-- The number that a step writes. -/
def index? (step : String) : Option Nat :=
  match step.toList with
  | [] => none
  | c :: cs => if c = '0' ∧ cs ≠ [] then none else Ascii.digits? 10 (c :: cs)

/-- The index of an item among `length` of them. -/
def itemIndex? (step : String) (length : Nat) : Option Nat :=
  (index? step).bind fun i => if i < length then some i else none

/-! ### Reading -/

/-- The part of a value one step away. -/
def child? (step : String) : Json → Option Json
  | .object fields => Keyed.get? step fields
  | .array items => (itemIndex? step items.length).bind fun i => items[i]?
  | _ => none

/-- The part of a document at the end of some steps. -/
def follow? : List String → Json → Option Json
  | [], j => some j
  | step :: steps, j => (child? step j).bind (follow? steps)

/-- The part of a document that a pointer names. -/
def get? (p : Pointer) (j : Json) : Option Json := follow? p.steps j

/-! ### Changing -/

/-- Puts a value in place of a part that is there. -/
def replaceChild (step : String) (value : Json) : Json → Json
  | .object fields => .object (Keyed.insert step value fields)
  | .array items =>
    match itemIndex? step items.length with
    | some i => .array (items.set i value)
    | none => .array items
  | j => j

/-- Changes the part at the end of some steps, if it is there and the change is possible. -/
def change? (f : Json → Option Json) : List String → Json → Option Json
  | [], j => f j
  | step :: steps, j => do
    let part ← child? step j
    let part ← change? f steps part
    some (replaceChild step part j)

/-- Adds a part to an object, in place of a field of that name, or to an array, before the item with
that index; `-` is the end of an array. -/
def addChild? (step : String) (value : Json) : Json → Option Json
  | .object fields => some (.object (Keyed.insert step value fields))
  | .array items =>
    if step = "-" then some (.array (items ++ [value]))
    else (itemIndex? step (items.length + 1)).map fun i => .array (items.insertIdx i value)
  | _ => none

/-- Takes a part that is there out of an object or array. -/
def removeChild? (step : String) : Json → Option Json
  | .object fields => (Keyed.get? step fields).map fun _ => .object (Keyed.erase step fields)
  | .array items => (itemIndex? step items.length).map fun i => .array (items.eraseIdx i)
  | _ => none

/-- Adds a value at a pointer; at the root it takes the place of the document. -/
def add? (p : Pointer) (value : Json) (j : Json) : Option Json :=
  match p.steps.getLast? with
  | none => some value
  | some step => change? (addChild? step value) p.steps.dropLast j

/-- Takes away what a pointer names; the root cannot be taken away. -/
def remove? (p : Pointer) (j : Json) : Option Json :=
  match p.steps.getLast? with
  | none => none
  | some step => change? (removeChild? step) p.steps.dropLast j

/-- Puts a value in place of what a pointer names. -/
def replace? (p : Pointer) (value : Json) (j : Json) : Option Json :=
  change? (fun _ => some value) p.steps j

/-- Whether a pointer names a part of what another one names, other than the whole of it. -/
def isInside (p outer : Pointer) : Bool :=
  outer.steps.length < p.steps.length && outer.steps.isPrefixOf p.steps

end Pointer

end Json

end Understudy
