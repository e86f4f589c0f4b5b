/-!
# Understudy.Attribute

Attributes: what is known of a resource, and what a query asks of one.

An attribute has a name, a value and a kind. The value is a literal text or the wildcard, which
stands for every value; the kind says whether the attribute is `present` or, in a query, has to be
`absent`. Two attributes are *equivalent* when they agree but for the kind.
-/

namespace Understudy

namespace Attribute

/-- The value of an attribute. -/
inductive Value where
  | literal (text : String)
  /-- Stands for every value. -/
  | wildcard
deriving Repr, DecidableEq

namespace Value

/-- The text of the wildcard. -/
def star : String := "*"

/-- Reads a value: a star is the wildcard, and every other text is a literal. -/
def ofText (text : String) : Value := if text = star then wildcard else literal text

/-- A value as it is written. -/
def text : Value → String
  | literal text => text
  | wildcard => star

/-- Whether a value agrees with every other one. -/
def isWildcard : Value → Bool
  | wildcard => true
  | literal _ => false

/-- Whether two values can stand for the same text. -/
def agrees : Value → Value → Bool
  | literal a, literal b => a = b
  | _, _ => true

@[simp] theorem agrees_wildcard_left (v : Value) : agrees wildcard v = true := by cases v <;> rfl

@[simp] theorem agrees_wildcard_right (v : Value) : agrees v wildcard = true := by cases v <;> rfl

@[simp] theorem agrees_literal (a b : String) :
    agrees (literal a) (literal b) = decide (a = b) := rfl

theorem agrees_comm (v w : Value) : v.agrees w = w.agrees v := by
  cases v <;> cases w <;> simp [eq_comm]

end Value

/-- Whether an attribute is there or must not be. -/
inductive Kind where
  | present
  | absent
deriving Repr, DecidableEq

/-- The sign between a name and a value. -/
def Kind.sign : Kind → String
  | .present => "="
  | .absent => "!="

end Attribute

/-- What a set says of one name. -/
structure Attribute where
  name : String
  value : Attribute.Value
  kind : Attribute.Kind := .present
deriving Repr, DecidableEq

namespace Attribute

/-- The attribute as it is shown. -/
def text (a : Attribute) : String := a.name ++ a.kind.sign ++ a.value.text

/-- Whether two attributes have one name and values that can stand for the same text. -/
def agrees (a b : Attribute) : Bool := a.name = b.name && a.value.agrees b.value

/-- Whether two attributes are the same apart from their kinds. -/
def equivalent (a b : Attribute) : Bool := a.name = b.name && a.value = b.value

end Attribute

end Understudy
