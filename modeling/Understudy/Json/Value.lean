import Understudy.Json.Number
import Understudy.Keyed

/-!
# Understudy.Json.Value

JSON documents.

A document that was read keeps its fields in the order of the text, repetitions included. Its
*canonical* form, which every operation works on, has the fields of each object sorted by name, the
last of several with one name. `Canonical` says so of a document, and `canonical` makes it true.
-/

namespace Understudy

/-- A JSON document. -/
inductive Json where
  | null
  | bool (value : Bool)
  | number (value : Json.Number)
  | string (value : String)
  | array (items : List Json)
  | object (fields : List (String × Json))

namespace Json

instance : Inhabited Json := ⟨.null⟩

/-! ### Canonical documents -/

mutual

/-- The document with the fields of each object sorted by name, the last one under a name. -/
def canonical : Json → Json
  | null => null
  | bool b => bool b
  | number n => number n
  | string s => string s
  | array items => array (canonicalItems items)
  | object fields => object (Keyed.ofList (canonicalFields fields))

/-- The canonical forms of items. -/
def canonicalItems : List Json → List Json
  | [] => []
  | item :: rest => canonical item :: canonicalItems rest

/-- Fields with their values in canonical form, in the order in which they stand. -/
def canonicalFields : List (String × Json) → List (String × Json)
  | [] => []
  | (name, value) :: rest => (name, canonical value) :: canonicalFields rest

end

mutual

/-- Whether the names of every object rise strictly. -/
def Canonical : Json → Prop
  | array items => CanonicalItems items
  | object fields => Keyed.Sorted fields ∧ CanonicalFields fields
  | _ => True

/-- Whether every item is canonical. -/
def CanonicalItems : List Json → Prop
  | [] => True
  | item :: rest => Canonical item ∧ CanonicalItems rest

/-- Whether the value of every field is canonical. -/
def CanonicalFields : List (String × Json) → Prop
  | [] => True
  | (_, value) :: rest => Canonical value ∧ CanonicalFields rest

end

/-! ### Sameness -/

mutual

/-- Whether two canonical documents are the same: numbers by kind and value, so that `1` is not
`1.0` while `0.0` is `-0.0`. -/
def same : Json → Json → Bool
  | null, null => true
  | bool a, bool b => a == b
  | number a, number b => a.same b
  | string a, string b => a == b
  | array as, array bs => sameItems as bs
  | object as, object bs => sameFields as bs
  | _, _ => false

/-- Whether items are the same one by one. -/
def sameItems : List Json → List Json → Bool
  | [], [] => true
  | a :: as, b :: bs => same a b && sameItems as bs
  | _, _ => false

/-- Whether fields have the same names and the same values one by one. -/
def sameFields : List (String × Json) → List (String × Json) → Bool
  | [], [] => true
  | (m, a) :: as, (n, b) :: bs => m == n && same a b && sameFields as bs
  | _, _ => false

end

/-! ### Nesting -/

mutual

/-- How many arrays and objects are nested at most. -/
def depth : Json → Nat
  | array items => 1 + depthItems items
  | object fields => 1 + depthFields fields
  | _ => 0

/-- The depth of the deepest item. -/
def depthItems : List Json → Nat
  | [] => 0
  | item :: rest => max (depth item) (depthItems rest)

/-- The depth of the deepest value of a field. -/
def depthFields : List (String × Json) → Nat
  | [] => 0
  | (_, value) :: rest => max (depth value) (depthFields rest)

end

end Json

end Understudy
