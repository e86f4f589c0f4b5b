import Understudy.Json.Parser
import Understudy.Json.Pointer

/-!
# Understudy.Json.Patch

Patches of JSON documents: lists of operations that apply one after the other, all or none.

A patch is written as an array of objects. The field `op` names the operation, and each operation
has fields of its own; other fields mean nothing. A field that the operation reads has to be there
exactly once. An operation may also be an array of its name and the values of its fields in order.
-/

namespace Understudy

namespace Json

/-- An operation of a patch. -/
inductive Operation where
  | add (path : Pointer) (value : Json)
  | remove (path : Pointer)
  | replace (path : Pointer) (value : Json)
  | move (source path : Pointer)
  | copy (source path : Pointer)
  | test (path : Pointer) (value : Json)

/-- Operations that are done one after the other. -/
abbrev Patch := List Operation

/-! ### Reading -/

/-- The value of a field that stands there exactly once. -/
def onlyField? (name : String) (fields : List (String × Json)) : Option Json :=
  match fields.filter (fun field => field.1 = name) with
  | [(_, value)] => some value
  | _ => none

/-- The pointer that a value writes. -/
def pointer? : Json → Option Pointer
  | .string s => Pointer.parse? s
  | _ => none

namespace Operation

/-- The names of the fields of an operation, in order. -/
def fieldNames? (op : String) : Option (List String) :=
  if op = "add" ∨ op = "replace" ∨ op = "test" then some ["path", "value"]
  else if op = "remove" then some ["path"]
  else if op = "move" ∨ op = "copy" then some ["from", "path"]
  else none

/-- The operation with a name and the values of its fields in order. -/
def ofValues? (op : String) (values : List Json) : Option Operation :=
  match values with
  | [path] => do
    let path ← pointer? path
    if op = "remove" then some (.remove path) else none
  | [first, second] =>
    if op = "add" then (pointer? first).map fun path => .add path second.canonical
    else if op = "replace" then (pointer? first).map fun path => .replace path second.canonical
    else if op = "test" then (pointer? first).map fun path => .test path second.canonical
    else do
      let source ← pointer? first
      let path ← pointer? second
      if op = "move" then some (.move source path)
      else if op = "copy" then some (.copy source path)
      else none
  | _ => none

/-- Reads an operation. -/
def ofJson? : Json → Option Operation
  | .object fields => do
    let .string op ← onlyField? "op" fields | none
    let names ← fieldNames? op
    let values ← names.mapM fun name => onlyField? name fields
    ofValues? op values
  | .array (.string op :: values) => ofValues? op values
  | _ => none

/-- Where an operation acts. -/
def path : Operation → Pointer
  | add p _ | remove p | replace p _ | move _ p | copy _ p | test p _ => p

end Operation

/-- Reads a patch. -/
def Patch.parse? (text : String) : Option Patch :=
  match read? text with
  | some (.array items) => items.mapM Operation.ofJson?
  | _ => none

/-! ### Applying -/

/-- Why an operation does not apply. -/
inductive Obstacle where
  /-- A test found another value. -/
  | differs
  /-- Nothing is at the path, or nothing can be put there. -/
  | noPath
  /-- Nothing is at the source of a move or copy. -/
  | noSource
  /-- A value would move into itself. -/
  | intoItself
deriving Repr, DecidableEq

/-- The reason in words. -/
def Obstacle.message : Obstacle → String
  | differs => "value did not match"
  | noPath => "path is invalid"
  | noSource => "\"from\" path is invalid"
  | intoItself => "cannot move the value inside itself"

/-- A patch that does not apply: the position of the operation that fails, where it acts, and
why. -/
structure PatchError where
  index : Nat
  path : Pointer
  obstacle : Obstacle
deriving Repr, DecidableEq

/-- The failure in words. -/
def PatchError.message (e : PatchError) : String :=
  "operation '/" ++ toString e.index ++ "' failed at path '" ++ e.path.text ++ "': " ++
    e.obstacle.message

/-- A value, or the obstacle that stands for its absence. -/
def orElse {α : Type} (value? : Option α) (obstacle : Obstacle) : Except Obstacle α :=
  match value? with
  | some a => .ok a
  | none => .error obstacle

/-- Does an operation, or says why it cannot be done. -/
def Operation.apply (document : Json) : Operation → Except Obstacle Json
  | .add path value => orElse (path.add? value document) .noPath
  | .remove path => orElse (path.remove? document) .noPath
  | .replace path value => orElse (path.replace? value document) .noPath
  | .move source path =>
    if path.isInside source then .error .intoItself
    else
      match source.get? document, source.remove? document with
      | some value, some rest => orElse (path.add? value rest) .noPath
      | _, _ => .error .noSource
  | .copy source path =>
    match source.get? document with
    | some value => orElse (path.add? value document) .noPath
    | none => .error .noSource
  | .test path value =>
    match path.get? document with
    | some found => if found.same value then .ok document else .error .differs
    | none => .error .noPath

/-- Applies operations, the first of which has a position. -/
def Patch.applyFrom (index : Nat) : Patch → Json → Except PatchError Json
  | [], document => .ok document
  | op :: ops, document =>
    match op.apply document with
    | .ok document => applyFrom (index + 1) ops document
    | .error obstacle => .error ⟨index, op.path, obstacle⟩

/-- Applies a patch: all its operations, or none. -/
def Patch.apply (patch : Patch) (document : Json) : Except PatchError Json :=
  patch.applyFrom 0 document

/-- What a patch makes of a document, or the failure in words. -/
def Patch.change (patch : Patch) (document : Json) : Except String Json :=
  (patch.apply document).mapError PatchError.message

/-- What the patch makes of a document that a text writes. -/
def Patch.change? (text : String) : Option (Json → Except String Json) :=
  (Patch.parse? text).map Patch.change

theorem Patch.change_eq_ok_iff {patch : Patch} {document changed : Json} :
    patch.change document = .ok changed ↔ patch.apply document = .ok changed := by
  rw [Patch.change]
  cases patch.apply document with
  | error e => exact iff_of_false nofun nofun
  | ok d =>
    show Except.ok d = .ok changed ↔ _
    rw [Except.ok.injEq, Except.ok.injEq]

end Json

end Understudy
