import CssModel.Color.Named

/-!
# Colour values

A colour value is a colour, or one of two keywords that stand for no colour of their own:
`transparent`, and `currentcolor`, which the reader of the style sheet has to fill in. Both carry
black with no opacity.

## Main definitions

* `CssModel.ColorKeyword`, `CssModel.ColorValue`
* `CssModel.ColorValue.ofIdent?`: the value of a keyword or colour name
-/

namespace CssModel

/-- A colour keyword that is no colour name. -/
inductive ColorKeyword
  | transparent
  | currentColor
  deriving DecidableEq, Repr

namespace ColorKeyword

def all : List ColorKeyword := [.transparent, .currentColor]

def text : ColorKeyword → String
  | .transparent => "transparent"
  | .currentColor => "currentcolor"

instance : ToString ColorKeyword := ⟨text⟩

/-- The keyword of a text, in any letter case. -/
def ofText? (text : String) : Option ColorKeyword :=
  all.find? fun keyword => Ascii.sameText keyword.text text

end ColorKeyword

/-- A colour, with the keyword it was written as. -/
structure ColorValue where
  color : Color
  keyword : Option ColorKeyword
  deriving DecidableEq, Repr

namespace ColorValue

/-- A plain colour. -/
def ofColor (color : Color) : ColorValue := ⟨color, none⟩

/-- A keyword, which carries black with no opacity. -/
def ofKeyword (keyword : ColorKeyword) : ColorValue := ⟨.transparent, some keyword⟩

/-- The value of a keyword or of a colour name. -/
def ofIdent? (name : String) : Option ColorValue :=
  match ColorKeyword.ofText? name with
  | some keyword => some (ofKeyword keyword)
  | none => (Color.ofName? name).map ofColor

/-- The keyword, or the colour in hexadecimal notation. -/
def text (v : ColorValue) : String :=
  match v.keyword with
  | some keyword => keyword.text
  | none => v.color.hex

end ColorValue

end CssModel
