import Understudy.Decimal.Shortest

/-!
# Understudy.Decimal.Layout

How a decimal is written. `Layout` holds the decisions that formats make differently; the functions
that write are the same for all of them.
-/

namespace Understudy

namespace Decimal

/-- The decisions of a format. The numbers whose first digit stands for `10 ^ e` with
`lowest ≤ e ≤ highest` are written with a point among their digits, all others with an exponent. -/
structure Layout where
  lowest : Int
  highest : Int
  /-- Whether a whole number keeps a point and a zero. -/
  keepsPoint : Bool

/-- The digits of the significand. -/
def digits (d : Decimal) : List Char := Nat.toDigits 10 d.significand

/-- The power of ten that the first digit stands for. -/
def leading (d : Decimal) : Int := d.exponent + d.digits.length - 1

/-- A decimal with a point among its digits. -/
def positional (layout : Layout) (d : Decimal) : List Char :=
  let ds := d.digits
  let whole := ds.length + d.exponent
  if 0 ≤ d.exponent then
    ds ++ List.replicate d.exponent.toNat '0' ++ (if layout.keepsPoint then ['.', '0'] else [])
  else if 0 < whole then
    ds.take whole.toNat ++ '.' :: ds.drop whole.toNat
  else
    '0' :: '.' :: (List.replicate (-whole).toNat '0' ++ ds)

/-- A decimal with one digit before the point and a signed exponent. -/
def scientific (d : Decimal) : List Char :=
  let fraction := d.digits.drop 1
  let sign := if 0 ≤ d.leading then '+' else '-'
  d.digits.take 1 ++ (if fraction.isEmpty then [] else '.' :: fraction) ++
    'e' :: sign :: Nat.toDigits 10 d.leading.natAbs

/-- The number as it is written in a layout. -/
def text (layout : Layout) (d : Decimal) : List Char :=
  if layout.lowest ≤ d.leading ∧ d.leading ≤ layout.highest then d.positional layout
  else d.scientific

/-- A float in a layout, in the fewest digits that read back; nothing for infinities and for what is
not a number. -/
def floatText? (layout : Layout) (x : Float) : Option (List Char) :=
  (ofFloat? x).map fun d =>
    if x.toBits.toNat / 0x8000000000000000 = 1 then '-' :: d.text layout else d.text layout

end Decimal

end Understudy
