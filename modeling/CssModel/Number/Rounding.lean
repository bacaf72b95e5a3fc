/-!
# Exact values of floating point numbers

`Float32` and `Float` hold binary fractions. This module names the exact value of one as a rational
number, the nearest floating point number of a rational number, and the passage between the two
widths: widening is exact, narrowing rounds to nearest with ties to even.

## Main definitions

* `CssModel.Number.exact32`, `CssModel.Number.exact64`: the value as a rational number
* `CssModel.Number.nearest32`: the nearest single precision number of a rational number
* `CssModel.Number.widen`, `CssModel.Number.narrow`
* `CssModel.Number.isIntegral`, `CssModel.Number.roundAway`, `CssModel.Number.remainder`
-/

namespace CssModel.Number

open Float.Model (UnpackedFloat Format)

/-- The exact value of an unpacked number; zero for what is not finite. -/
def exactOf : UnpackedFloat → Rat
  | .finite sign mantissa exponent _ =>
    let size : Rat := (mantissa : Rat) * (2 : Rat) ^ exponent
    match sign with
    | .positive => size
    | .negative => -size
  | _ => 0

/-- The exact value of a single precision number; zero for what is not finite. -/
def exact32 (x : Float32) : Rat :=
  exactOf x.toModel.unpack

/-- The exact value of a double precision number; zero for what is not finite. -/
def exact64 (x : Float) : Rat :=
  exactOf x.toModel.unpack

/-- The same number with a mantissa of another width, rounded to nearest with ties to even. -/
def reround (format : Format) : UnpackedFloat → UnpackedFloat
  | .finite sign mantissa exponent _ => UnpackedFloat.round format sign mantissa exponent
  | x => x

/-- The double precision number of the same value. -/
def widen (x : Float32) : Float :=
  Float.ofModel (Float.Model.pack (reround .binary64 x.toModel.unpack))

/-- The nearest single precision number. -/
def narrow (x : Float) : Float32 :=
  Float32.ofModel (Float32.Model.pack (reround .binary32 x.toModel.unpack))

/-- The nearest single precision number of a rational number. -/
def nearest32 (q : Rat) : Float32 :=
  if h : q.num.natAbs = 0 then 0
  else
    let sign : UnpackedFloat.Sign := if q.num < 0 then .negative else .positive
    Float32.ofModel <| Float32.Model.pack <|
      UnpackedFloat.div .binary32
        (.finite sign q.num.natAbs 0 (Nat.pos_of_ne_zero h))
        (.finite .positive q.den 0 (Nat.pos_of_ne_zero q.den_nz))

/-- Whether the number has no fractional part. -/
def isIntegral (x : Float32) : Bool :=
  (exact32 x).den == 1

/-- The nearest integer, a half going away from zero. -/
def roundAway (q : Rat) : Int :=
  if q < 0 then -(-q + 1 / 2).floor else (q + 1 / 2).floor

/-- What is left of `x` after as many whole `y` as fit, taken toward zero; it has the sign of `x`.
The difference is always a single precision number, so nothing is rounded. -/
def remainder (x y : Float32) : Float32 :=
  let quotient := exact32 x / exact32 y
  let whole : Int := if quotient < 0 then -(-quotient).floor else quotient.floor
  nearest32 (exact32 x - (whole : Rat) * exact32 y)

/-- The remainder moved into the interval from zero to `y`. -/
def positiveRemainder (x y : Float32) : Float32 :=
  let r := remainder x y
  if r < 0 then r + y else r

/-- The number brought between two bounds. -/
def clamp (low high x : Float32) : Float32 :=
  if x < low then low else if high < x then high else x

/-- The nearest byte, a half going away from zero; numbers outside the range give its ends. -/
def toByte (x : Float32) : UInt8 :=
  UInt8.ofNat (roundAway (exact32 (clamp 0 255 x))).toNat

end CssModel.Number
