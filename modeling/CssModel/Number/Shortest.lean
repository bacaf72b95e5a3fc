import CssModel.Number.Rounding

/-!
# Decimal text of single precision numbers

A number is written with the fewest decimal digits that still read back as that number. The digits
are those of the coarsest decimal grid `c * 10 ^ g` with a point in the interval of the values that
round to the number; of two such points the nearer is taken, and of two equally near the larger.
The text is always positional: no exponent is ever written, and no point after a whole number.

## Main definitions

* `CssModel.Number.Interval`: the values that round to a number, as integers over one denominator
* `CssModel.Number.shortest`: the digits and the grid
* `CssModel.Number.positional`: the text of `c * 10 ^ g`
* `CssModel.Number.text`: the text of a single precision number
-/

namespace CssModel.Number

/-- A positive value between the two ends of the interval that rounds to it, all three as
numerators over one denominator. -/
structure Interval where
  value : Nat
  low : Nat
  high : Nat
  denominator : Nat
  /-- Whether the ends themselves round to the value. -/
  closed : Bool
  deriving DecidableEq, Repr

/-- The interval of `mantissa * 2 ^ exponent`: half a unit to each side, and below a power of two
a quarter. The ends round to even mantissas. -/
def Interval.ofBinary (mantissa : Nat) (exponent : Int) : Interval :=
  let power := mantissa = 8388608
  let below := if power then 1 else 2
  let scale := Nat.pow 2 exponent.toNat
  { value := 4 * mantissa * scale
    low := (4 * mantissa - below) * scale
    high := (4 * mantissa + 2) * scale
    denominator := 4 * Nat.pow 2 (-exponent).toNat
    closed := mantissa % 2 = 0 }

/-- Whether `numerator / denominator` over the interval's denominator lies in the interval. -/
def Interval.contains (i : Interval) (numerator denominator : Nat) : Bool :=
  if i.closed then
    i.low * denominator ≤ numerator * i.denominator &&
      numerator * i.denominator ≤ i.high * denominator
  else
    i.low * denominator < numerator * i.denominator &&
      numerator * i.denominator < i.high * denominator

/-- The point of the grid of multiples of `step / unit` that is in the interval and nearest to its
value, as a count of steps. Only the two neighbours of the value are looked at. -/
def Interval.gridPoint? (i : Interval) (step unit : Nat) : Option Nat :=
  let c := i.value * unit / (i.denominator * step)
  let down := c ≠ 0 && i.contains (c * step) unit
  let up := i.contains ((c + 1) * step) unit
  if down && up then
    -- twice the value against the sum of the two neighbours
    if 2 * (i.value * unit) < (2 * c + 1) * (i.denominator * step) then some c else some (c + 1)
  else if down then some c
  else if up then some (c + 1)
  else none

/-- The digits of the coarsest of `fuel` grids, from `10 ^ g` downward, that has a point in the
interval. -/
def Interval.search (i : Interval) : Nat → Int → Nat × Int
  | 0, g => (0, g)
  | fuel + 1, g =>
    match i.gridPoint? (10 ^ g.toNat) (10 ^ (-g).toNat) with
    | some c => (c, g)
    | none => Interval.search i fuel (g - 1)

/-- The shortest digits `c` and exponent `g` with `c * 10 ^ g` in the interval. Single precision
numbers lie below `10 ^ 39`, and no interval is narrower than `10 ^ (-47)`. -/
def Interval.shortest (i : Interval) : Nat × Int :=
  i.search 100 39

/-- The decimal digits of a natural number. -/
def decimalDigits (n : Nat) : List Char :=
  if n < 10 then [Char.ofNat ('0'.toNat + n)]
  else decimalDigits (n / 10) ++ [Char.ofNat ('0'.toNat + n % 10)]
termination_by n

/-- The text of `c * 10 ^ g` without an exponent. -/
def positional (c : Nat) (g : Int) : List Char :=
  let digits := decimalDigits c
  if 0 ≤ g then digits ++ List.replicate g.toNat '0'
  else
    let places := (-g).toNat
    let padded := List.replicate (places + 1 - digits.length) '0' ++ digits
    padded.take (padded.length - places) ++ '.' :: padded.drop (padded.length - places)

open Float.Model (UnpackedFloat)

/-- The characters of an unpacked number. -/
def textOf : UnpackedFloat → List Char
  | .notANumber => "NaN".toList
  | .infinity .positive => "inf".toList
  | .infinity .negative => "-inf".toList
  | .zero .positive => ['0']
  | .zero .negative => ['-', '0']
  | .finite sign mantissa exponent _ =>
    let (c, g) := (Interval.ofBinary mantissa exponent).shortest
    match sign with
    | .positive => positional c g
    | .negative => '-' :: positional c g

/-- The shortest text that reads back as the number. -/
def text (x : Float32) : String :=
  String.ofList (textOf x.toModel.unpack)

end CssModel.Number
