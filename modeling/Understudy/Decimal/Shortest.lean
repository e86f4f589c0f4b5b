/-!
# Understudy.Decimal.Shortest

The shortest decimal that a binary float rounds back from.

A finite float is `mantissa * 2 ^ exponent`. The reals that round to it form an interval around it,
ends included exactly when the mantissa is even. Of the multiples of powers of ten in that interval
`shortest` takes one of the **largest** power, which has the fewest digits, and of those the nearest
to the float, an even one of two that are equally near. All of it is exact arithmetic on `Nat`.
-/

namespace Understudy

/-- The number `significand * 10 ^ exponent`. -/
structure Decimal where
  significand : Nat
  exponent : Int
deriving Repr, DecidableEq

namespace Decimal

/-- A positive finite float, as `mantissa * 2 ^ exponent`. `narrowBelow` says that the float below
it is only half as far away as the one above. -/
structure Binary where
  mantissa : Nat
  exponent : Int
  narrowBelow : Bool
deriving Repr, DecidableEq

/-- The absolute value of a float, if it is neither zero, infinite nor not a number. -/
def Binary.ofFloat? (x : Float) : Option Binary :=
  let bits : Nat := x.toBits.toNat
  let biased : Nat := bits / 0x10000000000000 % 0x800
  let fraction : Nat := bits % 0x10000000000000
  if biased = 0x7FF then none
  else if biased = 0 then
    if fraction = 0 then none else some ⟨fraction, -1074, false⟩
  else some ⟨0x10000000000000 + fraction, (biased : Int) - 1075, fraction = 0 ∧ biased ≠ 1⟩

/-- The ends of the interval and the float itself, in quarters of `2 ^ exponent`. -/
structure Span where
  low : Nat
  middle : Nat
  high : Nat
  closed : Bool

/-- The reals that round to a float. -/
def Binary.span (b : Binary) : Span where
  low := 4 * b.mantissa - (if b.narrowBelow then 1 else 2)
  middle := 4 * b.mantissa
  high := 4 * b.mantissa + 2
  closed := b.mantissa % 2 = 0

/-- A grid of decimals `d * 10 ^ exponent` laid over quarters of a power of two: `d` stands for the
same number as `q` quarters exactly when `d * step = q * unit`. -/
structure Grid where
  exponent : Int
  step : Nat
  unit : Nat

/-- The grid of the multiples of `10 ^ t`, beside quarters of `2 ^ e`. -/
def Grid.of (t e : Int) : Grid where
  exponent := t
  step := Nat.pow 10 t.toNat * Nat.pow 2 (2 - e).toNat
  unit := Nat.pow 10 (-t).toNat * Nat.pow 2 (e - 2).toNat

/-- Whether a multiple lies in the interval. -/
def Grid.holds (g : Grid) (s : Span) (d : Nat) : Bool :=
  if s.closed then s.low * g.unit ≤ d * g.step && d * g.step ≤ s.high * g.unit
  else s.low * g.unit < d * g.step && d * g.step < s.high * g.unit

/-- The multiple of the grid in the interval that is nearest to the float. -/
def Grid.nearest? (g : Grid) (s : Span) : Option Nat :=
  let middle := s.middle * g.unit
  let below := middle / g.step
  match g.holds s below && below != 0, g.holds s (below + 1) with
  | true, true =>
    let down := middle - below * g.step
    let up := (below + 1) * g.step - middle
    if down < up ∨ (down = up ∧ below % 2 = 0) then some below else some (below + 1)
  | true, false => some below
  | false, true => some (below + 1)
  | false, false => none

/-- The shortest decimal in the interval of a float. -/
def Binary.shortest (b : Binary) : Decimal :=
  let whole := b.mantissa * Nat.pow 2 b.exponent.toNat / Nat.pow 2 (-b.exponent).toNat
  let top : Int := (Nat.toDigits 10 whole).length
  let hit := (List.range 400).findSome? fun (k : Nat) =>
    let t := top - (k : Int)
    ((Grid.of t b.exponent).nearest? b.span).map fun d => Decimal.mk d t
  hit.getD ⟨b.mantissa, 0⟩

/-- The shortest decimal of the absolute value of a float; zero for zero. -/
def ofFloat? (x : Float) : Option Decimal :=
  match Binary.ofFloat? x with
  | some b => some b.shortest
  | none => if x == 0 then some ⟨0, 0⟩ else none

end Decimal

end Understudy
