import Understudy.Decimal.Layout
import Understudy.Text.Ascii

/-!
# Understudy.Json.Number

The numbers of JSON documents.

A number is an integer or a float, and keeps that kind: `1` and `1.0` are different numbers. The
integers are those of 64 bits, signed or not. `Literal` is a number as it is spelled; its value is

* an integer, if it has neither fraction nor exponent and lies in that range, and
* otherwise a float: as many of its leading digits as stay below `2 ^ 64`, scaled by a power of ten
  in float arithmetic. A literal beyond the floats has no value.

Zero with a minus sign is the float, since no integer is written so.
-/

namespace Understudy

namespace Json

/-- A number of a document. -/
inductive Number where
  | int (value : Int) (inRange : -0x8000000000000000 ≤ value ∧ value < 0x10000000000000000)
  | float (value : Float)

namespace Number

/-- Numbers are the same if they agree in kind and in value. -/
def same : Number → Number → Bool
  | int a _, int b _ => a == b
  | float a, float b => a == b
  | _, _ => false

/-- Floats are positional from `10 ^ -5` up to `10 ^ 16`, and a whole one keeps its point. -/
def layout : Decimal.Layout := ⟨-5, 15, true⟩

/-- The text of an integer. -/
def intText (i : Int) : List Char :=
  if i < 0 then '-' :: Ascii.decimal i.natAbs else Ascii.decimal i.natAbs

/-- The text of a number. There is no text for infinities, and `null` stands in for them. -/
def text : Number → List Char
  | int i _ => intText i
  | float x => (Decimal.floatText? layout x).getD ['n', 'u', 'l', 'l']

/-- An integer as a number: the nearest float if it is out of range. -/
def ofInt (i : Int) : Number :=
  if h : -0x8000000000000000 ≤ i ∧ i < 0x10000000000000000 then .int i h
  else if i < 0 then .float (-(Float.ofNat i.natAbs))
  else .float (Float.ofNat i.natAbs)

/-! ### Literals -/

/-- A number as it is spelled. The parts hold digits; `exponent` has the sign first. -/
structure Literal where
  negative : Bool
  whole : List Char
  fraction : List Char
  exponent : Option (Bool × List Char)
deriving Repr, DecidableEq

/-- The value of decimal digits. -/
def natOf (digits : List Char) : Nat :=
  digits.foldl (fun n c => n * 10 + (Ascii.digit? c).getD 0) 0

/-- Reads digits onto a significand for as long as it stays below `2 ^ 64`, and says how many digits
are left. -/
def gather : Nat → List Char → Nat × Nat
  | s, [] => (s, 0)
  | s, c :: cs =>
    let next := s * 10 + (Ascii.digit? c).getD 0
    if next < 0x10000000000000000 then gather next cs else (s, cs.length + 1)

/-- A power of ten that a float can hold. -/
def powerOfTen (k : Nat) : Float := Float.ofScientific 1 false k

/-- Divides by `10 ^ k`, at most `10 ^ 308` at a time. -/
def scaleDown (x : Float) (k : Nat) : Float :=
  if k ≤ 308 then x / powerOfTen k
  else if x == 0 then x
  else scaleDown (x / powerOfTen 308) (k - 308)
termination_by k

/-- `significand * 10 ^ exponent` in float arithmetic, if that is finite. -/
def scale? (significand : Nat) (exponent : Int) : Option Float :=
  let x := Float.ofNat significand
  if exponent < 0 then some (scaleDown x exponent.natAbs)
  else if significand = 0 then some x
  else if exponent ≤ 308 then
    let y := x * powerOfTen exponent.toNat
    if y.isInf then none else some y
  else none

/-- The float of a literal, if it is finite. -/
def Literal.float? (l : Literal) : Option Float :=
  let (s, left) := gather 0 l.whole
  let (s, left') := gather s l.fraction
  let shift : Int := match l.exponent with
    | none => 0
    | some (true, ds) => -(natOf ds : Int)
    | some (false, ds) => natOf ds
  let exponent : Int := left - (l.fraction.length - left') + shift
  (scale? s exponent).map fun x => if l.negative then -x else x

/-- The number of a literal: an integer if it is written as one and takes 64 bits at most, and
otherwise a float. A zero with a sign is a float. -/
def Literal.value? (l : Literal) : Option Number :=
  let n := natOf l.whole
  if l.fraction.isEmpty ∧ l.exponent.isNone ∧ ¬ (l.negative ∧ n = 0) then
    let i : Int := if l.negative then -(n : Int) else n
    if h : -0x8000000000000000 ≤ i ∧ i < 0x10000000000000000 then some (.int i h)
    else l.float?.map .float
  else l.float?.map .float

end Number

end Json

end Understudy
