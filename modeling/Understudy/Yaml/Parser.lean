import Understudy.Yaml.Lexer
import Understudy.Yaml.Node

/-!
# Understudy.Yaml.Parser

Reading a document from tokens.

A text holds one document: directives, the mark of the beginning where there are any, a node, and
marks of the end. A node that is missing where one may stand is an empty plain scalar. `Reader`
reads with the tokens that are left, what anchors name, and the handles of tags in its state; its
functions carry fuel that every one of them passes on less by one, and each node and each entry
takes at least one token.

An anchor gives its name a number, and an alias takes the number that its name has at that place.
The number is how many names there were before: a new name has one of its own, but a name that is
given again shares its number with the next new name. A number stands for the last node that began
with it.
-/

namespace Understudy

namespace Yaml

/-- What is left to read, and what names stand for. -/
structure Pending where
  tokens : List Token
  /-- The numbers that names have. -/
  numbers : List (String × Nat) := []
  /-- The nodes that numbers stand for; a node that has only begun is `none`. -/
  anchored : List (Nat × Option Node) := []
  /-- The beginnings of tags that handles stand for. -/
  handles : List (String × Tag) :=
    [("!", Utf8.encode "!"), ("!!", Utf8.encode "tag:yaml.org,2002:")]

/-- Reads a part of a document, or fails. -/
abbrev Reader := StateT Pending Option

namespace Reader

/-- The next token. -/
def peek : Reader (Option Token) := fun s => some (s.tokens.head?, s)

/-- Goes past the next token. -/
def next : Reader Unit := fun s => some ((), { s with tokens := s.tokens.drop 1 })

/-- Goes past a token, if it is the next one. -/
def take (t : Token) : Reader Bool := do
  if (← peek) = some t then
    next
    return true
  else return false

/-- Goes past a token that has to be there. -/
def require (t : Token) : Reader Unit := do
  if !(← take t) then failure

/-- Whether the next token is one of some. -/
def nextIsOneOf (ts : List Token) : Reader Bool := do
  return (← peek).any ts.contains

/-- The number that a name has here. -/
def number (name : String) : Reader Nat := fun s =>
  (s.numbers.find? fun entry => entry.1 = name).map fun entry => (entry.2, s)

/-- Gives a name a number, which stands for the node that begins here. -/
def anchor (name : String) : Reader Nat := fun s =>
  let number := s.numbers.length
  some (number, { s with
    numbers := (name, number) :: s.numbers.filter (·.1 ≠ name)
    anchored := (number, none) :: s.anchored.filter (·.1 ≠ number) })

/-- Ends the node that a number was given for. If another node with the number has begun since, that
one remains. -/
def complete (number : Nat) (node : Node) : Reader Unit := fun s =>
  some ((), { s with anchored := s.anchored.map fun entry =>
    if entry.1 = number then (number, entry.2.or (some node)) else entry })

/-- The tag that a handle and the rest of a tag stand for. -/
def fullTag (handle : String) (rest : Tag) : Reader Tag := fun s =>
  if handle = "" then some (rest, s)
  else (s.handles.find? fun entry => entry.1 = handle).map fun entry => (entry.2 ++ rest, s)

/-- An anchor and a tag in front of a node, in either order. -/
def properties : Reader (Option String × Option Tag) := do
  match ← peek with
  | some (.anchor name) =>
    next
    match ← peek with
    | some (.tag handle rest) =>
      next
      return (some name, some (← fullTag handle rest))
    | _ => return (some name, none)
  | some (.tag handle rest) =>
    next
    let tag ← fullTag handle rest
    match ← peek with
    | some (.anchor name) =>
      next
      return (some name, some tag)
    | _ => return (none, some tag)
  | _ => return (none, none)

mutual

/-- Reads a node. Only within `block` may it be a block collection, and only an `indentless` one a
sequence whose dashes stand at the column of the keys around it. -/
def node : Nat → Bool → Bool → Reader Node
  | 0, _, _ => failure
  | fuel + 1, block, indentless => do
    match ← peek with
    | some (.alias name) =>
      next
      return .alias (← number name)
    | _ =>
      let (name, tag) ← properties
      let given ← name.mapM anchor
      let found ← content fuel block indentless tag (name.isSome || tag.isSome)
      if let some number := given then complete number found
      return found

/-- Reads a node after its properties. After some, it may be missing. A single mark stays its tag,
that of a scalar as well. -/
def content : Nat → Bool → Bool → Option Tag → Bool → Reader Node
  | 0, _, _, _, _ => failure
  | fuel + 1, block, indentless, tag, optional => do
    match ← peek with
    | some (.scalar style text) =>
      next
      return .scalar style tag text
    | some .entry =>
      if indentless then return .sequence tag (← indentlessItems fuel)
      else if optional then return .scalar .plain tag ""
      else failure
    | some .openSequence =>
      next
      return .sequence tag (← flowItems fuel true)
    | some .openMapping =>
      next
      return .mapping tag (← flowEntries fuel true)
    | some .blockSequence =>
      if block then
        next
        return .sequence tag (← blockItems fuel)
      else if optional then return .scalar .plain tag ""
      else failure
    | some .blockMapping =>
      if block then
        next
        return .mapping tag (← blockEntries fuel)
      else if optional then return .scalar .plain tag ""
      else failure
    | _ => if optional then return .scalar .plain tag "" else failure

/-- Reads a node, unless one of some tokens is next. -/
def optionalNode : Nat → Bool → Bool → List Token → Reader Node
  | 0, _, _, _ => failure
  | fuel + 1, block, indentless, ends => do
    if ← nextIsOneOf ends then return .empty
    else node fuel block indentless

/-- Reads the items of a block sequence, up to its end. -/
def blockItems : Nat → Reader (List Node)
  | 0 => failure
  | fuel + 1 => do
    if ← take .entry then
      let item ← optionalNode fuel true false [.entry, .blockEnd]
      return item :: (← blockItems fuel)
    else
      require .blockEnd
      return []

/-- Reads the items of a sequence at the column of the keys around it. -/
def indentlessItems : Nat → Reader (List Node)
  | 0 => failure
  | fuel + 1 => do
    if ← take .entry then
      let item ← optionalNode fuel true false [.entry, .key, .value, .blockEnd]
      return item :: (← indentlessItems fuel)
    else return []

/-- Reads the entries of a block mapping, up to its end. A key without a value has an empty one. -/
def blockEntries : Nat → Reader (List (Node × Node))
  | 0 => failure
  | fuel + 1 => do
    if ← take .key then
      let key ← optionalNode fuel true true [.key, .value, .blockEnd]
      let value ←
        if ← take .value then optionalNode fuel true true [.key, .value, .blockEnd]
        else pure .empty
      return (key, value) :: (← blockEntries fuel)
    else
      require .blockEnd
      return []

/-- Reads the items of a flow sequence. A key makes a mapping of one entry. -/
def flowItems : Nat → Bool → Reader (List Node)
  | 0, _ => failure
  | fuel + 1, first => do
    if ← take .closeSequence then return []
    else
      if !first then require .comma
      if ← take .closeSequence then return []
      else if ← take .key then
        let key ←
          if ← nextIsOneOf [.value, .comma, .closeSequence] then
            next
            pure .empty
          else node fuel false false
        let value ←
          if ← take .value then optionalNode fuel false false [.comma, .closeSequence]
          else pure .empty
        return .mapping none [(key, value)] :: (← flowItems fuel false)
      else
        let item ← node fuel false false
        return item :: (← flowItems fuel false)

/-- Reads the entries of a flow mapping. A key without a question mark and a colon has no value. -/
def flowEntries : Nat → Bool → Reader (List (Node × Node))
  | 0, _ => failure
  | fuel + 1, first => do
    if ← take .closeMapping then return []
    else
      if !first then require .comma
      if ← take .closeMapping then return []
      else if ← take .key then
        let key ← optionalNode fuel false false [.value, .comma, .closeMapping]
        let value ←
          if ← take .value then optionalNode fuel false false [.comma, .closeMapping]
          else pure .empty
        return (key, value) :: (← flowEntries fuel false)
      else
        let key ← node fuel false false
        return (key, .empty) :: (← flowEntries fuel false)

end

/-- Reads directives: at most one version, which is 1.1 or 1.2, and at most one text for a handle.
It says whether there were any. -/
def directives : Nat → List String → Bool → Reader Bool
  | 0, _, _ => failure
  | fuel + 1, seen, versioned => do
    match ← peek with
    | some (.version major minor) =>
      if versioned || major ≠ 1 || (minor ≠ 1 && minor ≠ 2) then failure
      next
      directives fuel seen true
    | some (.handle name text) =>
      if seen.contains name then failure
      next
      modify fun s => { s with handles := (name, text) :: s.handles }
      directives fuel (name :: seen) versioned
    | _ => return versioned || !seen.isEmpty

/-- Goes past the marks of a document's end. -/
def ends : Nat → Reader Unit
  | 0 => failure
  | fuel + 1 => do
    if ← take .documentEnd then ends fuel

/-- Reads the only document of a text. -/
def document (fuel : Nat) : Reader Document := do
  let directed ← directives fuel [] false
  let begun ← take .documentStart
  if directed && !begun then failure
  let root ←
    match ← peek with
    | none => pure .empty
    | some .documentEnd => if begun then pure .empty else failure
    | some .documentStart => failure
    | some _ => node fuel true false
  ends fuel
  if (← peek).isSome then failure
  let s ← get
  return ⟨root, s.anchored.filterMap fun entry => entry.2.map fun node => (entry.1, node)⟩

end Reader

/-- Reads the document of a text. -/
def Document.parse? (text : String) : Option Document := do
  let tokens ← Token.ofText? text.toList
  let found ← Reader.document (4 * tokens.length + 4) { tokens := tokens }
  some found.1

end Yaml

end Understudy
