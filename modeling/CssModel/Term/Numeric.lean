import CssModel.Failure

/-!
# Numbers with units

Integers, numbers, percentages and dimensions share one form: a kind, a single precision value and
perhaps a unit. The value is always finite and never the negative zero, times and frequencies are
never below zero, and a unit belongs to the family of the kind.

## Main definitions

* `CssModel.Numeric`, `CssModel.Numeric.make`, `CssModel.Numeric.ofInt`
* `CssModel.Numeric.equal`
* `CssModel.Numeric.withValue`, `CssModel.Numeric.withUnit`, `CssModel.Numeric.apply`: checked
  edits
* `CssModel.Numeric.text`
-/

namespace CssModel

/-- A number with a kind and perhaps a unit. -/
structure Numeric where
  kind : NumericKind
  value : Float32
  unit : Option DimensionUnit
  deriving DecidableEq, Repr

namespace Numeric

/-- Whether two numbers are equal. The values are compared as numbers: zero is equal to zero
whatever its sign, and what is not a number is equal to nothing. -/
def equal (a b : Numeric) : Bool :=
  a.kind == b.kind && a.value == b.value && a.unit == b.unit

instance : BEq Numeric := ⟨equal⟩

/-- Zero without a sign. -/
def dropZeroSign (value : Float32) : Float32 :=
  if value == 0 then 0 else value

/-- A unit must belong to the family of the kind. -/
def checkUnit (kind : NumericKind) : Option DimensionUnit → Except Failure PUnit
  | none => .ok ()
  | some unit =>
    if kind.unitFamily? = some unit.family then .ok ()
    else .error (.invalidArgument (.unitMismatch unit kind))

/-- A value must be finite, and not below zero where the kind forbids it. -/
def checkValue (kind : NumericKind) (value : Float32) : Except Failure PUnit :=
  if ! value.isFinite then .error (.invalidArgument (.notFinite kind))
  else if kind.rejectsNegative && value < 0 then
    .error (.invalidArgument (.negative kind value))
  else .ok ()

/-- The same number with another value. -/
def withValue (n : Numeric) (value : Float32) : Except Failure Numeric := do
  checkValue n.kind value
  return { n with value := dropZeroSign value }

/-- The same number with another unit, or with none. -/
def withUnit (n : Numeric) (unit : Option DimensionUnit) : Except Failure Numeric := do
  checkUnit n.kind unit
  return { n with unit }

/-- A number of the kind; the unit is checked before the value. -/
def make (kind : NumericKind) (value : Float32) (unit : Option DimensionUnit) :
    Except Failure Numeric := do
  checkUnit kind unit
  withValue ⟨kind, 0, unit⟩ value

/-- A change of a number that keeps its kind. -/
inductive Edit
  | setValue (value : Float32)
  | setUnit (unit : Option DimensionUnit)
  deriving DecidableEq, Repr

/-- The number after an edit. -/
def apply (n : Numeric) : Edit → Except Failure Numeric
  | .setValue value => n.withValue value
  | .setUnit unit => n.withUnit unit

/-- An integer, rounded to single precision. -/
def ofInt (value : Int32) : Numeric :=
  ⟨.integer, Number.nearest32 value.toInt, none⟩

/-- A dimension; the kind follows from the unit. -/
def dimension (value : Float32) (unit : DimensionUnit) : Except Failure Numeric :=
  make (.ofFamily unit.family) value (some unit)

/-- The number with the opposite value, where its kind allows that. -/
def negated? (n : Numeric) : Option Numeric :=
  (n.withValue (-n.value)).toOption

/-- Whether the value has no fractional part. -/
def isIntegral (n : Numeric) : Bool :=
  Number.isIntegral n.value

/-- Zero may stand for a length without a unit. -/
def isPlainZero (n : Numeric) : Bool :=
  n.kind.isPlain && n.value == 0

/-- What follows the digits: a percent sign or the unit. -/
def suffix (n : Numeric) : String :=
  match n.kind, n.unit with
  | .percent, _ => "%"
  | _, some unit => unit.text
  | _, none => ""

/-- The number as it is written. -/
def text (n : Numeric) : String :=
  Number.text n.value ++ n.suffix

instance : ToString Numeric := ⟨text⟩

end Numeric

end CssModel
