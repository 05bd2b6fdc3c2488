/-!
# Shortest decimals

A binary float stands for every real number that rounds to it. Of the decimals with
the fewest digits in that interval the one nearest the float is its shortest
decimal. Everything is computed in whole numbers: the interval is brought to a common
power of ten, and grids of ever smaller powers of ten are tried until one has a point
in the interval. Nothing is claimed here about speed.
-/
namespace Stave.Decimal

/-- A positive binary number `significand * 2 ^ exponent`. -/
structure Binary where
  significand : Nat
  exponent : Int
  /-- The number below is only half as far away as the number above. -/
  narrowBelow : Bool
deriving DecidableEq, Inhabited

/-- The parts of a number with the given bits of fraction and of exponent, read from its
bits without the sign; none for infinities and what is no number. -/
def Binary.ofBits? (fractionBits exponentBits bits : Nat) : Option Binary :=
  let fraction := bits % (1 <<< fractionBits)
  let field := bits >>> fractionBits
  let bias : Int := (1 <<< (exponentBits - 1) : Nat) - 1 + fractionBits
  if field = (1 <<< exponentBits) - 1 then none
  else if field = 0 then some ⟨fraction, 1 - bias, false⟩
  else some ⟨fraction + (1 <<< fractionBits), field - bias, fraction = 0 && field > 1⟩

/-- What to do with a number halfway between two decimals. -/
inductive Ties where
  | toEven
  | upward
deriving DecidableEq, Inhabited

/-- A number between two bounds, all in units of one power of ten. -/
structure Interval where
  low : Nat
  value : Nat
  high : Nat
  /-- The bounds belong to the interval. -/
  closed : Bool
  /-- The power of ten that is one unit. -/
  scale : Int
deriving DecidableEq, Inhabited

/-- The decimals that round to a binary number. Bounds lie halfway to its neighbours, and
belong to the number if its significand is even. -/
def Interval.ofBinary (number : Binary) : Interval :=
  let quarter := number.exponent - 2
  let unit := if quarter ≥ 0 then 1 <<< quarter.toNat else Nat.pow 5 (-quarter).toNat
  { low := (4 * number.significand - (if number.narrowBelow then 1 else 2)) * unit
    value := 4 * number.significand * unit
    high := (4 * number.significand + 2) * unit
    closed := number.significand % 2 = 0
    scale := min quarter 0 }

namespace Interval

/-- Whether a whole number of units is in the interval. -/
def contains (interval : Interval) (units : Nat) : Bool :=
  if interval.closed then interval.low ≤ units && units ≤ interval.high
  else interval.low < units && units < interval.high

/-- The point of the interval nearest its value on the grid of one step, as a number of
steps. -/
def onGrid? (interval : Interval) (ties : Ties) (step : Nat) : Option Nat :=
  let below := interval.value / step
  let above := below + 1
  let down := interval.value - below * step
  let up := above * step - interval.value
  match interval.contains (below * step), interval.contains (above * step) with
  | false, false => none
  | true, false => some below
  | false, true => some above
  | true, true =>
    if down < up then some below
    else if up < down then some above
    else if ties = .toEven && below % 2 = 0 then some below
    else some above

/-- Try grids from the given power of ten down; the exact value is the last resort. -/
def coarsest (interval : Interval) (ties : Ties) : Nat → Nat × Nat
  | 0 => ((interval.onGrid? ties 1).getD interval.value, 0)
  | power + 1 =>
    match interval.onGrid? ties (Nat.pow 10 (power + 1)) with
    | some steps => (steps, power + 1)
    | none => coarsest interval ties power

end Interval

/-- The number of decimal digits of a number. -/
def digitCount (n : Nat) : Nat := (toString n).length

/-- A decimal number `digits * 10 ^ exponent`. -/
structure Numeral where
  digits : Nat
  exponent : Int
deriving DecidableEq, Inhabited

/-- The shortest decimal of a binary number; zero has no digits to choose. -/
def shortest (ties : Ties) (number : Binary) : Numeral :=
  if number.significand = 0 then ⟨0, 0⟩
  else
    let interval := Interval.ofBinary number
    let (steps, power) := interval.coarsest ties (digitCount interval.value - 1)
    if steps % 10 = 0 then ⟨steps / 10, power + 1 + interval.scale⟩
    else ⟨steps, power + interval.scale⟩

end Stave.Decimal
