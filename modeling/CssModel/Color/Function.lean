import CssModel.Term.Call

/-!
# Colour functions

`rgb()`, `rgba()`, `hsl()` and `hsla()` with their arguments between commas. The channels of an
`rgb()` colour are all numbers or all percentages; an `hsl()` colour has an angle without a unit
and two percentages. Values out of range are brought to its ends. All arithmetic is in single
precision.

## Main definitions

* `CssModel.ColorValue.ofCall?`: the colour of a function
* `CssModel.Term.color?`: the colour that a term stands for
-/

namespace CssModel

namespace ColorValue

open Number

/-- A percentage of a full channel. -/
def percentByte (value : Float32) : UInt8 :=
  toByte (value * 2.55)

/-- A channel of red, green or blue. -/
def channel? (n : Numeric) : Option UInt8 :=
  match n.kind with
  | .integer | .number => some (toByte n.value)
  | .percent => some (percentByte n.value)
  | _ => none

/-- The alpha channel, where one is opaque. -/
def alpha? (n : Numeric) : Option UInt8 :=
  match n.kind with
  | .integer | .number => some (toByte (clamp 0 1 n.value * 255))
  | .percent => some (percentByte n.value)
  | _ => none

/-- The channel that lies at `offset` twelfths of a turn from the hue. -/
def hueChannel (hue saturation lightness offset : Float32) : UInt8 :=
  let k := remainder (offset + hue / 30) 12
  let a := saturation * min lightness (1 - lightness)
  let level := clamp (-1) 1 (min (k - 3) (9 - k))
  toByte ((lightness - a * level) * 255)

/-- Red, green and blue of a hue in degrees with saturation and lightness in percent. -/
def ofHue (hue saturation lightness : Float32) : UInt8 × UInt8 × UInt8 :=
  let hue := positiveRemainder hue 360
  let saturation := clamp 0 1 (saturation / 100)
  let lightness := clamp 0 1 (lightness / 100)
  (hueChannel hue saturation lightness 0, hueChannel hue saturation lightness 8,
    hueChannel hue saturation lightness 4)

/-- Red, green and blue, which are all percentages or all plain numbers. -/
def ofChannels? (r g b : Numeric) : Option (UInt8 × UInt8 × UInt8) :=
  let percents := [r, g, b].countP fun n => n.kind = .percent
  if percents = 0 || percents = 3 then do
    return (← channel? r, ← channel? g, ← channel? b)
  else none

/-- Red, green and blue of a plain number and two percentages. -/
def ofHue? (h s l : Numeric) : Option (UInt8 × UInt8 × UInt8) :=
  if h.kind.isPlain && s.kind = .percent && l.kind = .percent then
    some (ofHue h.value s.value l.value)
  else none

/-- Three channels and perhaps alpha as a colour. -/
def withAlpha? (channels : Option (UInt8 × UInt8 × UInt8)) (alpha : Option Numeric) :
    Option ColorValue := do
  let (r, g, b) ← channels
  match alpha with
  | none => return ofColor (.solid r g b)
  | some n => return ofColor ⟨r, g, b, ← alpha? n⟩

/-- The only term of a group, if it is a number. -/
def single? : List Term → Option Numeric
  | [t] => t.numeric?
  | _ => none

/-- The colour of a valid function with one number in every group of its arguments. -/
def ofCall? (f : FunctionCall Term) : Option ColorValue :=
  if f.valid then do
    let args ← f.groups.mapM single?
    match Ascii.lower f.name, args with
    | "rgb", [r, g, b] => withAlpha? (ofChannels? r g b) none
    | "rgba", [r, g, b, a] => withAlpha? (ofChannels? r g b) (some a)
    | "hsl", [h, s, l] => withAlpha? (ofHue? h s l) none
    | "hsla", [h, s, l, a] => withAlpha? (ofHue? h s l) (some a)
    | _, _ => none
  else none

end ColorValue

/-- The colour that a term stands for: a colour value, a keyword or name, or a function. -/
def Term.color? (t : Term) : Option ColorValue :=
  match t.value with
  | .color c => some c
  | .ident name => ColorValue.ofIdent? name
  | .call f => ColorValue.ofCall? f
  | _ => none

end CssModel
