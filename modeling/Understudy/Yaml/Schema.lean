import Understudy.Json.Value
import Understudy.Yaml.Scalar

/-!
# Understudy.Yaml.Schema

What scalars mean.

A plain scalar without a tag is null, a truth value, an integer, a float or text, in this order of
tries; a quoted one is text. A tag of the core schema says which of them a scalar is. Integers are
decimal, or have a base in front; a decimal one does not begin with a zero, and is text if it does.
-/

namespace Understudy

namespace Yaml

/-! ### Words -/

/-- Whether a text is a word for null. -/
def isNull (text : String) : Bool := ["null", "Null", "NULL", "~"].contains text

/-- The truth value that a text is a word for. -/
def bool? (text : String) : Option Bool :=
  if ["true", "True", "TRUE"].contains text then some true
  else if ["false", "False", "FALSE"].contains text then some false
  else none

/-! ### Integers -/

/-- The text without a sign at its beginning. -/
def dropSign : List Char → List Char
  | [] => []
  | c :: cs => if c = '+' || c = '-' then cs else c :: cs

/-- Whether a text is made of digits with a needless zero in front. -/
def hasNeedlessZero (cs : List Char) : Bool :=
  match dropSign cs with
  | c :: d :: ds => c = '0' && (d :: ds).all Ascii.isDigit
  | _ => false

/-- The value of digits after the mark of their base. -/
def basedNat? : List Char → Option Nat
  | '0' :: 'x' :: cs => Ascii.digits? 16 cs
  | '0' :: 'o' :: cs => Ascii.digits? 8 cs
  | '0' :: 'b' :: cs => Ascii.digits? 2 cs
  | _ => none

/-- A number without a sign. -/
def nat? (cs : List Char) : Option Nat :=
  (basedNat? cs).or (if hasNeedlessZero cs then none else Ascii.digits? 10 cs)

/-- A number that may have a plus sign. -/
def unsigned? (text : String) : Option Nat :=
  match text.toList with
  | '+' :: cs => nat? cs
  | cs => nat? cs

/-- An integer that takes 128 bits at most; anything wider is not written as one. -/
def integer? (text : String) : Option Int :=
  match text.toList with
  | '-' :: cs =>
    (nat? cs).bind fun n =>
      if n ≤ 0x80000000000000000000000000000000 then some (-(n : Int)) else none
  | _ =>
    (unsigned? text).bind fun n =>
      if n < 0x100000000000000000000000000000000 then some (n : Int) else none

/-! ### Floats -/

/-- A decimal fraction as it is written. -/
structure Fraction where
  digits : List Char
  /-- How many of the digits stand after the point. -/
  places : Nat
  exponent : Int

/-- Reads an exponent: nothing, or a letter, a sign if there is one, and digits. -/
def exponent? : List Char → Option Int
  | [] => some 0
  | e :: cs =>
    if e = 'e' || e = 'E' then
      (Ascii.digits? 10 (dropSign cs)).map fun n => if cs.head? = some '-' then -(n : Int) else n
    else none

/-- Reads digits with a point among them, and an exponent. -/
def fraction? (cs : List Char) : Option Fraction := do
  let whole := cs.takeWhile Ascii.isDigit
  let rest := cs.dropWhile Ascii.isDigit
  let (places, rest) :=
    if rest.head? = some '.' then
      ((rest.drop 1).takeWhile Ascii.isDigit, (rest.drop 1).dropWhile Ascii.isDigit)
    else ([], rest)
  if whole.isEmpty && places.isEmpty then none
  else
    let exponent ← exponent? rest
    some ⟨whole ++ places, places.length, exponent⟩

/-- The float nearest to a fraction, if it is finite. Fractions that are far out of the range of
floats are not computed. -/
def Fraction.value? (f : Fraction) : Option Float :=
  let significand := (f.digits.dropWhile (· = '0'))
  let n := Json.Number.natOf significand
  let exponent := f.exponent - f.places
  let size := significand.length + exponent
  if n = 0 || size < -400 then some 0
  else if size > 400 then none
  else
    let x := Float.ofScientific n (exponent < 0) exponent.natAbs
    if x.isFinite then some x else none

/-- The value of a word for an infinite float, or for none. -/
def floatWord? (text : String) : Option Float :=
  if [".inf", ".Inf", ".INF", "+.inf", "+.Inf", "+.INF"].contains text then some (1 / 0)
  else if ["-.inf", "-.Inf", "-.INF"].contains text then some (-1 / 0)
  else if [".nan", ".NaN", ".NAN"].contains text then some (0 / 0)
  else none

/-- Reads a float. -/
def float? (text : String) : Option Float :=
  (floatWord? text).or (((fraction? (dropSign text.toList)).bind Fraction.value?).map fun x =>
    if text.toList.head? = some '-' then -x else x)

/-! ### Scalars -/

/-- An integer as a document, if it takes 64 bits at most. -/
def ofInteger? (i : Int) : Option Json :=
  if h : -0x8000000000000000 ≤ i ∧ i < 0x10000000000000000 then some (.number (.int i h)) else none

/-- A float as a document: one that is not finite is null. -/
def ofFloat (x : Float) : Json := if x.isFinite then .number (.float x) else .null

/-- What a plain scalar means. -/
def plainValue? (text : String) : Option Json :=
  if text.isEmpty || isNull text then some .null
  else
    match bool? text, integer? text with
    | some b, _ => some (.bool b)
    | none, some i => ofInteger? i
    | none, none =>
      if hasNeedlessZero text.toList then some (.string text)
      else some (((float? text).map ofFloat).getD (.string text))

/-- A type of the core schema. -/
inductive Core where
  | null
  | bool
  | integer
  | float
deriving Repr, DecidableEq

/-- The type that a tag names. Every other tag of this form is one of text. -/
def core? (tag : Tag) : Option Core :=
  if tag = Utf8.encode "tag:yaml.org,2002:null" then some .null
  else if tag = Utf8.encode "tag:yaml.org,2002:bool" then some .bool
  else if tag = Utf8.encode "tag:yaml.org,2002:int" then some .integer
  else if tag = Utf8.encode "tag:yaml.org,2002:float" then some .float
  else none

/-- Whether a tag begins with a mark, as one does that has a meaning only within one application. -/
def isMarked (tag : Tag) : Bool := (Utf8.encode "!").isPrefixOf tag

/-- Whether a tag is the name of a choice: a mark and then a text. -/
def isLocal (tag : Tag) : Bool := isMarked tag && (Utf8.decode? (tag.drop 1)).isSome

/-- What a scalar means. One with a local tag means nothing. A tag that has a mark and no text after
it is as none. -/
def scalarValue? (style : Style) (tag : Option Tag) (text : String) : Option Json :=
  match tag with
  | none => if style = .plain then plainValue? text else some (.string text)
  | some tag =>
    if isLocal tag then none
    else
      match core? tag with
      | some .null => if isNull text then some .null else none
      | some .bool => (bool? text).map .bool
      | some .integer => (integer? text).bind ofInteger?
      | some .float => (float? text).map ofFloat
      | none => if isMarked tag && style = .plain then plainValue? text else some (.string text)

end Yaml

end Understudy
