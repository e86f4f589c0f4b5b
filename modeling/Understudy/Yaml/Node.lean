import Understudy.Yaml.Scalar

/-!
# Understudy.Yaml.Node

The nodes of YAML documents.

A node keeps how it was written: the style of a scalar and the tag decide later what it means. An
alias holds a number, and the document says which node the number stands for. That is settled only
at its end, so an alias may stand for a node that comes later, or for one that it is part of.
-/

namespace Understudy

namespace Yaml

/-- A node of a document. -/
inductive Node where
  | scalar (style : Style) (tag : Option Tag) (text : String)
  | sequence (tag : Option Tag) (items : List Node)
  | mapping (tag : Option Tag) (entries : List (Node × Node))
  | alias (number : Nat)

namespace Node

instance : Inhabited Node := ⟨.scalar .plain none ""⟩

/-- What stands where a document has no node. -/
def empty : Node := .scalar .plain none ""

mutual

/-- The size of a node as it is written: a collection counts for its beginning and for its end. -/
def size : Node → Nat
  | scalar _ _ _ => 1
  | sequence _ items => 2 + sizeItems items
  | mapping _ entries => 2 + sizeEntries entries
  | .alias _ => 1

/-- The sizes of items together. -/
def sizeItems : List Node → Nat
  | [] => 0
  | item :: rest => size item + sizeItems rest

/-- The sizes of the keys and values of entries together. -/
def sizeEntries : List (Node × Node) → Nat
  | [] => 0
  | (key, value) :: rest => size key + size value + sizeEntries rest

end

end Node

/-- A document: its root, and the nodes that numbers stand for. -/
structure Document where
  root : Node
  anchored : List (Nat × Node)

namespace Document

/-- The node that a number stands for. -/
def node? (d : Document) (number : Nat) : Option Node :=
  (d.anchored.find? fun entry => entry.1 = number).map (·.2)

end Document

end Yaml

end Understudy
