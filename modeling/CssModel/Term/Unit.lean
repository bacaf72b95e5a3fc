import CssModel.Text.Ascii

/-!
# Units and unit families

A dimension carries a unit, and every unit measures one quantity: its family. Expressions may
combine values of one family only. Units are read in any letter case and written in one.

## Main definitions

* `CssModel.UnitFamily`, `CssModel.DimensionUnit`, `CssModel.DimensionUnit.family`
* `CssModel.DimensionUnit.text`, `CssModel.DimensionUnit.ofText?`
* `CssModel.NumericKind`: what sort of number a term is
-/

namespace CssModel

/-- The quantity that a value measures. -/
inductive UnitFamily
  /-- Plain numbers. -/
  | unitless
  | length
  | angle
  | time
  | frequency
  | resolution
  deriving DecidableEq, Inhabited, Repr

def UnitFamily.text : UnitFamily → String
  | .unitless => "unitless"
  | .length => "length"
  | .angle => "angle"
  | .time => "time"
  | .frequency => "frequency"
  | .resolution => "resolution"

instance : ToString UnitFamily := ⟨UnitFamily.text⟩

/-- A unit of a dimension. -/
inductive DimensionUnit
  | px | em | ex | ch | rem | vw | vh | vmin | vmax | cm | mm | q | inch | pt | pc
  | deg | rad | grad | turn
  | s | ms
  | hz | khz
  | dpi | dpcm | dppx
  deriving DecidableEq, Repr

namespace DimensionUnit

/-- Every unit. -/
def all : List DimensionUnit :=
  [.px, .em, .ex, .ch, .rem, .vw, .vh, .vmin, .vmax, .cm, .mm, .q, .inch, .pt, .pc,
    .deg, .rad, .grad, .turn, .s, .ms, .hz, .khz, .dpi, .dpcm, .dppx]

/-- The unit as it is written. -/
def text : DimensionUnit → String
  | .px => "px" | .em => "em" | .ex => "ex" | .ch => "ch" | .rem => "rem"
  | .vw => "vw" | .vh => "vh" | .vmin => "vmin" | .vmax => "vmax"
  | .cm => "cm" | .mm => "mm" | .q => "Q" | .inch => "in" | .pt => "pt" | .pc => "pc"
  | .deg => "deg" | .rad => "rad" | .grad => "grad" | .turn => "turn"
  | .s => "s" | .ms => "ms"
  | .hz => "Hz" | .khz => "kHz"
  | .dpi => "dpi" | .dpcm => "dpcm" | .dppx => "dppx"

instance : ToString DimensionUnit := ⟨text⟩

/-- The unit of a text, in any letter case. -/
def ofText? (text : String) : Option DimensionUnit :=
  all.find? fun unit => Ascii.sameText unit.text text

/-- The quantity that the unit measures. -/
def family : DimensionUnit → UnitFamily
  | .px | .em | .ex | .ch | .rem | .vw | .vh | .vmin | .vmax
  | .cm | .mm | .q | .inch | .pt | .pc => .length
  | .deg | .rad | .grad | .turn => .angle
  | .s | .ms => .time
  | .hz | .khz => .frequency
  | .dpi | .dpcm | .dppx => .resolution

end DimensionUnit

/-- What sort of number a term is. -/
inductive NumericKind
  | integer
  | number
  | percent
  | length
  | angle
  | time
  | frequency
  | resolution
  deriving DecidableEq, Repr

namespace NumericKind

def text : NumericKind → String
  | .integer => "integer"
  | .number => "number"
  | .percent => "percent"
  | .length => "length"
  | .angle => "angle"
  | .time => "time"
  | .frequency => "frequency"
  | .resolution => "resolution"

instance : ToString NumericKind := ⟨text⟩

/-- Every kind. -/
def all : List NumericKind :=
  [.integer, .number, .percent, .length, .angle, .time, .frequency, .resolution]

/-- The family that a unit of this kind must have; none for kinds without units. -/
def unitFamily? : NumericKind → Option UnitFamily
  | .integer | .number | .percent => none
  | .length => some .length
  | .angle => some .angle
  | .time => some .time
  | .frequency => some .frequency
  | .resolution => some .resolution

/-- The kind of a dimension with a unit of this family. -/
def ofFamily : UnitFamily → NumericKind
  | .unitless | .length => .length
  | .angle => .angle
  | .time => .time
  | .frequency => .frequency
  | .resolution => .resolution

/-- Times and frequencies are never below zero. -/
def rejectsNegative : NumericKind → Bool
  | .time | .frequency => true
  | _ => false

/-- Integers and numbers. -/
def isPlain : NumericKind → Bool
  | .integer | .number => true
  | _ => false

/-- The quantity that a number of this kind brings into an expression. A percentage stands for a
length. -/
def family : NumericKind → UnitFamily
  | .integer | .number => .unitless
  | .percent | .length => .length
  | .angle => .angle
  | .time => .time
  | .frequency => .frequency
  | .resolution => .resolution

end NumericKind

end CssModel
