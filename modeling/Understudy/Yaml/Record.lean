import Understudy.Yaml.Decoder

/-!
# Understudy.Yaml.Record

Matching nodes to the fields of structures.

A structure is read from a mapping: fields that it does not have are ignored, and one that it has
must not stand there twice. A node that is missing is an empty mapping where a structure is read, an
empty sequence where a list is, and nothing where a field is optional; a written null is only the
last.
-/

namespace Understudy

namespace Yaml

/-- Whether a scalar is empty because nothing was written. -/
def Node.isMissing : Node → Bool
  | .scalar .plain _ text => text.isEmpty
  | _ => false

/-! ### Scalars -/

/-- Any scalar, as text. -/
def Node.text (n : Node) : Decoder String := do
  match ← n.follow with
  | .scalar _ _ text => return text
  | _ => failure

/-- The text of a scalar that may stand for a value of a core type: a plain one, and a literal one
with its tag. -/
def Node.word (type : Core) (n : Node) : Decoder String := do
  match ← n.follow with
  | .scalar .plain _ text => return text
  | .scalar .literal (some tag) text => if core? tag = some type then return text else failure
  | _ => failure

/-- A number below a bound. -/
def Node.boundedBy (bound : Nat) (n : Node) : Decoder Nat := do
  (unsigned? (← n.word .integer)).filter (· < bound)

/-- A number that takes 16 bits at most. -/
def Node.word16 (n : Node) : Decoder UInt16 := do return UInt16.ofNat (← n.boundedBy 0x10000)

/-- A number that takes 64 bits at most. -/
def Node.word64 (n : Node) : Decoder Nat := n.boundedBy 0x10000000000000000

/-- A truth value. -/
def Node.truth (n : Node) : Decoder Bool := do bool? (← n.word .bool)

/-! ### Collections -/

/-- The items of a sequence. -/
def Node.items (n : Node) : Decoder (List Node) := do
  match ← n.follow with
  | .sequence _ items => return items
  | n => if n.isMissing then return [] else failure

/-- The entries of a mapping. -/
def Node.entries (n : Node) : Decoder (List (Node × Node)) := do
  match ← n.follow with
  | .mapping _ entries => return entries
  | n => if n.isMissing then return [] else failure

/-- A list, of which every item is read. -/
def Node.list {α : Type} (decode : Node → Decoder α) (n : Node) : Decoder (List α) := do
  (← n.items).mapM decode

/-- The entries of a mapping whose keys are scalars of any kind, by name. -/
def Node.named (n : Node) : Decoder (List (String × Node)) := do
  (← n.entries).mapM fun entry => do return (← entry.1.text, entry.2)

/-! ### Fields -/

/-- The fields of a structure that a mapping has, each at most once. -/
structure Record where
  fields : List (String × Node)

/-- Reads the fields of a structure that has these names. -/
def Node.record (names : List String) (n : Node) : Decoder Record := do
  let fields := (← n.named).filter fun field => names.contains field.1
  if (fields.map (·.1)).Nodup then return ⟨fields⟩ else failure

namespace Record

/-- The node of a field. -/
def node? (r : Record) (name : String) : Option Node := Keyed.get? name r.fields

/-- The node of a field, or what stands where there is none. -/
def nodeOrMissing (r : Record) (name : String) : Node := (r.node? name).getD .empty

/-- Reads a field that has to be there. -/
def required {α : Type} (r : Record) (name : String) (decode : Node → Decoder α) : Decoder α := do
  decode (← r.node? name)

/-- Reads a field that has a default. -/
def withDefault {α : Type} (r : Record) (name : String) (fallback : α)
    (decode : Node → Decoder α) : Decoder α :=
  match r.node? name with
  | none => pure fallback
  | some n => decode n

/-- Whether a node says that an optional field is absent; `none` if it says it wrongly. -/
def isAbsent? : Node → Option Bool
  | .scalar .plain none text => some (text.isEmpty || isNull text)
  | .scalar .plain (some tag) text =>
    if core? tag = some .null then (if isNull text then some true else none) else some false
  | _ => some false

/-- Reads an optional field. -/
def optional {α : Type} (r : Record) (name : String) (decode : Node → Decoder α) :
    Decoder (Option α) :=
  match r.node? name with
  | none => pure none
  | some n => do
    let n ← n.follow
    if ← isAbsent? n then return none else return some (← decode n)

end Record

/-! ### Refusals -/

/-- Why a document is refused: it is not one of the kind that is read, or it has a fault. -/
inductive Refusal (α : Type) where
  | malformed
  | invalid (fault : α)
deriving Repr, DecidableEq

end Yaml

end Understudy
