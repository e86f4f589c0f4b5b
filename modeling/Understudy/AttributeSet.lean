import Understudy.Attribute
import Understudy.Keyed

/-!
# Understudy.AttributeSet

Sets of attributes, at most one under each name.

A set is both the key of a stored resource and a query for resources. `stored.satisfies query` holds
when every attribute that the query wants present is there, with a value that agrees, and none that
it wants absent is. Sets are kept in the order of the names, so that two sets with the same
attributes are equal (`ext`), and every operation is described by what `get?` answers afterwards.
-/

namespace Understudy

/-- Attributes under distinct names, in the order of the names. -/
structure AttributeSet where
  entries : List (String × Attribute.Value × Attribute.Kind)
  sorted : Keyed.Sorted entries

namespace AttributeSet

open Attribute (Value Kind)

instance : DecidableEq AttributeSet := fun s t =>
  decidable_of_iff (s.entries = t.entries) (by cases s; cases t; simp)

/-- The attribute of an entry. -/
def ofEntry (entry : String × Value × Kind) : Attribute := ⟨entry.1, entry.2.1, entry.2.2⟩

/-! ### The view -/

/-- The attributes in the order of their names. -/
def toList (s : AttributeSet) : List Attribute := s.entries.map ofEntry

/-- What a set says of a name. -/
def get? (s : AttributeSet) (name : String) : Option (Value × Kind) := Keyed.get? name s.entries

/-- The attribute with a name. -/
def attribute? (s : AttributeSet) (name : String) : Option Attribute :=
  (s.get? name).map fun found => ⟨name, found.1, found.2⟩

/-- Whether a set says something of a name. -/
def contains (s : AttributeSet) (name : String) : Bool := (s.get? name).isSome

/-- How many attributes there are. -/
def size (s : AttributeSet) : Nat := s.entries.length

/-- Whether a set says nothing. -/
def isEmpty (s : AttributeSet) : Bool := s.entries.isEmpty

/-- Sets that answer alike are equal. -/
theorem ext_get? {s t : AttributeSet} (h : ∀ name, s.get? name = t.get? name) : s = t := by
  have := Keyed.ext s.sorted t.sorted h
  cases s; cases t; simpa using this

/-! ### Making sets -/

/-- The set that says nothing. -/
def empty : AttributeSet := ⟨[], Keyed.sorted_nil⟩

instance : EmptyCollection AttributeSet := ⟨empty⟩

/-- The set with an attribute, in place of the one with its name. -/
def insert (s : AttributeSet) (a : Attribute) : AttributeSet :=
  ⟨Keyed.insert a.name (a.value, a.kind) s.entries, s.sorted.insert _ _⟩

/-- The set with attributes put in one after the other. -/
def add (s : AttributeSet) (as : List Attribute) : AttributeSet := as.foldl insert s

/-- The attributes of a list; the last one under a name stays. -/
def ofList (as : List Attribute) : AttributeSet := add empty as

/-- The attributes of two sets; those of the second one stay. -/
def union (s t : AttributeSet) : AttributeSet := s.add t.toList

/-- The attributes of several sets; those of later ones stay. -/
def merge (sets : List AttributeSet) : AttributeSet := sets.foldl union empty

/-- The attributes with a property. -/
def filter (p : Attribute → Bool) (s : AttributeSet) : AttributeSet :=
  ⟨s.entries.filter fun entry => p (ofEntry entry), List.Pairwise.filter _ s.sorted⟩

/-- The attributes that are present with a literal value: what a stored resource can have. -/
def presentOnly (s : AttributeSet) : AttributeSet :=
  s.filter fun a => a.kind = .present && !a.value.isWildcard

/-- The attributes under names that another set does not have. -/
def withoutKeysOf (s other : AttributeSet) : AttributeSet :=
  s.filter fun a => !other.contains a.name

/-! ### Matching -/

/-- Whether a set has an attribute under a name with a value that agrees. -/
def holds (s : AttributeSet) (name : String) (value : Value) : Bool :=
  match s.get? name with
  | some (found, _) => found.agrees value
  | none => false

/-- Whether a set meets one condition of a query. -/
def meets (s : AttributeSet) (wanted : Attribute) : Bool :=
  match wanted.kind with
  | .present => s.holds wanted.name wanted.value
  | .absent => !s.holds wanted.name wanted.value

/-- Whether a stored set meets every condition of a query. -/
def satisfies (s query : AttributeSet) : Bool := query.toList.all s.meets

/-- Whether two sets have the same names with the same values. -/
def equivalent (s t : AttributeSet) : Bool :=
  s.entries.map (fun entry => (entry.1, entry.2.1)) =
    t.entries.map fun entry => (entry.1, entry.2.1)

/-! ### Text -/

/-- The set as it is shown. -/
def text (s : AttributeSet) : String :=
  "\x7b" ++ String.intercalate ", " (s.toList.map Attribute.text) ++ "\x7d"

/-! ### What the operations answer -/

@[simp] theorem get?_empty (name : String) : empty.get? name = none := rfl

@[simp] theorem get?_insert (s : AttributeSet) (a : Attribute) (name : String) :
    (s.insert a).get? name = if a.name = name then some (a.value, a.kind) else s.get? name :=
  Keyed.get?_insert _ _ _ _

@[simp] theorem add_nil (s : AttributeSet) : s.add [] = s := rfl

@[simp] theorem add_cons (s : AttributeSet) (a : Attribute) (as : List Attribute) :
    s.add (a :: as) = (s.insert a).add as := rfl

theorem add_append (s : AttributeSet) (as bs : List Attribute) :
    s.add (as ++ bs) = (s.add as).add bs := by simp [add]

end AttributeSet

end Understudy
