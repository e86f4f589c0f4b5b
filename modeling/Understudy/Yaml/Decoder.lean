import Understudy.Yaml.Parser
import Understudy.Yaml.Schema

/-!
# Understudy.Yaml.Decoder

Taking values from documents.

A `Decoder` looks at the nodes of a document and follows the aliases that it comes across. What it
does not look at cannot fail: an alias may be part of its own node where nobody follows it. A small
document can name a huge one by aliases of aliases, so at most `followsPerSize` aliases are followed
for each part that is written. Collections that are nested too deeply are refused as well, and with
them nodes that contain themselves.
-/

namespace Understudy

namespace Yaml

/-- Takes a value from the nodes of a document, or fails. The state is how many aliases may still be
followed. -/
abbrev Decoder := ReaderT Document (StateT Nat Option)

/-- How many aliases may be followed, in proportion to the size of a document. -/
def followsPerSize : Nat := 100

/-- Takes a value from a document. -/
def Document.decode? {α : Type} (decode : Node → Decoder α) (d : Document) : Option α :=
  (decode d.root d (followsPerSize * d.root.size)).map (·.1)

/-- Takes a value from the document of a text. -/
def decode? {α : Type} (decode : Node → Decoder α) (text : String) : Option α :=
  (Document.parse? text).bind fun d => d.decode? decode

namespace Node

/-- The node that is meant: the one that an alias stands for, and any other itself. -/
def follow : Node → Decoder Node
  | .alias number => fun d left =>
    match left with
    | 0 => none
    | left + 1 => (d.node? number).map fun n => (n, left)
  | n => pure n

/-- The document that a node writes, with its fields as they are written and with its collections
nested in some levels at most. Names of fields have to be text. -/
def value : Nat → Node → Decoder Json
  | 0, n => do
    match ← n.follow with
    | scalar style tag text => scalarValue? style tag text
    | _ => failure
  | levels + 1, n => do
    match ← n.follow with
    | scalar style tag text => scalarValue? style tag text
    | sequence tag items =>
      if tag.any isLocal then failure
      return .array (← items.mapM (value levels))
    | mapping tag entries =>
      if tag.any isLocal then failure
      let fields ← entries.mapM fun entry => do
        match ← value levels entry.1 with
        | .string name => return (name, ← value levels entry.2)
        | _ => failure
      return .object fields
    | .alias _ => failure

/-- How deep the collections of a document may be nested. -/
def maxDepth : Nat := 125

/-- The canonical document that a node writes. -/
def json (n : Node) : Decoder Json := do return (← n.value maxDepth).canonical

end Node

end Yaml

end Understudy
