import CssModel.Rule.Declaration
import CssModel.Rule.Link

/-!
# Pages

A page rule describes printed pages: by declarations for the page itself, and by margin rules for
the boxes around it. It may be for pages of one name, or for those of a sort such as `:first`.

## Main definitions

* `CssModel.MarginArea`, `CssModel.MarginRule`
* `CssModel.PageItem`, `CssModel.PageRule`, `CssModel.PageRule.make`
-/

namespace CssModel

/-! ### Margins -/

/-- A box in the margin of a page. -/
inductive MarginArea
  | topLeftCorner | topLeft | topCenter | topRight | topRightCorner
  | bottomLeftCorner | bottomLeft | bottomCenter | bottomRight | bottomRightCorner
  | leftTop | leftMiddle | leftBottom
  | rightTop | rightMiddle | rightBottom
  deriving DecidableEq, Repr

namespace MarginArea

/-- Every box. -/
def all : List MarginArea :=
  [.topLeftCorner, .topLeft, .topCenter, .topRight, .topRightCorner,
    .bottomLeftCorner, .bottomLeft, .bottomCenter, .bottomRight, .bottomRightCorner,
    .leftTop, .leftMiddle, .leftBottom, .rightTop, .rightMiddle, .rightBottom]

def text : MarginArea → String
  | .topLeftCorner => "top-left-corner"
  | .topLeft => "top-left"
  | .topCenter => "top-center"
  | .topRight => "top-right"
  | .topRightCorner => "top-right-corner"
  | .bottomLeftCorner => "bottom-left-corner"
  | .bottomLeft => "bottom-left"
  | .bottomCenter => "bottom-center"
  | .bottomRight => "bottom-right"
  | .bottomRightCorner => "bottom-right-corner"
  | .leftTop => "left-top"
  | .leftMiddle => "left-middle"
  | .leftBottom => "left-bottom"
  | .rightTop => "right-top"
  | .rightMiddle => "right-middle"
  | .rightBottom => "right-bottom"

instance : ToString MarginArea := ⟨text⟩

/-- The box of a text, in any letter case. -/
def ofText? (text : String) : Option MarginArea :=
  all.find? fun area => Ascii.sameText area.text text

end MarginArea

/-- The box that a margin rule is for. -/
structure MarginHead where
  area : MarginArea
  deriving DecidableEq, Repr

instance : HasData MarginHead := ⟨fun p h => form p h.area.text⟩

instance : ItemPolicy MarginHead Declaration where

/-- Declarations for a box in the margin. -/
abbrev MarginRule := Container MarginHead Declaration

namespace MarginRule

/-- A rule without declarations, for the box of a name. -/
def make (area : String) : Except Failure MarginRule :=
  match MarginArea.ofText? area with
  | some area => .ok (.empty ⟨area⟩)
  | none => .error (.invalidArgument (.unknownMarginArea area))

/-- The rule as it is written. -/
def css (depth : Nat) (r : MarginRule) : String :=
  Layout.block Declaration.css depth ("@" ++ r.header.area.text) r.items

end MarginRule

/-! ### Pages -/

/-- What a page rule holds. -/
inductive PageItem
  | declaration (d : Declaration)
  | margin (r : MarginRule)

namespace PageItem

/-- Whether two items say the same. -/
def same : PageItem → PageItem → Bool
  | .declaration a, .declaration b => a == b
  | .margin a, .margin b => a == b
  | _, _ => false

instance : BEq PageItem := ⟨same⟩

instance : Digested PageItem where
  digest
    | .declaration d => .variant "declaration" (Digested.digest d)
    | .margin r => .variant "margin" (Digested.digest r)
  warm
    | .declaration d => .declaration d.warmed
    | .margin r => .margin r.warmed

/-- The item as it is written. -/
def css (depth : Nat) : PageItem → String
  | .declaration d => d.css depth
  | .margin r => r.css depth

/-- The declaration that the item is, if it is one. -/
def declaration? : PageItem → Option Declaration
  | .declaration d => some d
  | .margin _ => none

/-- The margin rule that the item is, if it is one. -/
def margin? : PageItem → Option MarginRule
  | .margin r => some r
  | .declaration _ => none

end PageItem

/-- The pages that a page rule is for, and the style sheet it belongs to. -/
structure PageHead where
  name : Option String
  /-- The sort of pages, without the colon. -/
  pseudo : Option String
  link : Option SheetLink
  deriving Repr

instance : BEq PageHead := ⟨fun a b => a.name == b.name && a.pseudo == b.pseudo⟩

instance : HasData PageHead where
  form p h := .record [("name", form p h.name), ("pseudo", form p h.pseudo)]

instance : ItemPolicy PageHead PageItem where

/-- Declarations and margin rules for pages. -/
abbrev PageRule := Container PageHead PageItem

namespace PageRule

/-- A rule without items that belongs to no style sheet. Empty texts count as absent. -/
def make (name pseudo : Option String) : PageRule :=
  let given (text : Option String) : Option String := text.filter (! ·.isEmpty)
  .empty ⟨given name, (given pseudo).map Ascii.lower, none⟩

/-- The rule as a part of a style sheet, or of none. -/
def withLink (link : Option SheetLink) (r : PageRule) : PageRule :=
  { r with header.link := link }

/-- The declarations for the page itself, in order. -/
def declarations (r : PageRule) : List Declaration :=
  r.items.filterMap PageItem.declaration?

/-- The rules for the boxes around it, in order. -/
def margins (r : PageRule) : List MarginRule :=
  r.items.filterMap PageItem.margin?

/-- The pages that the rule is for, as they are written; a space comes first. -/
def selectorText (h : PageHead) : String :=
  match h.name, h.pseudo with
  | none, none => ""
  | some name, none => " " ++ name
  | none, some pseudo => " :" ++ pseudo
  | some name, some pseudo => " " ++ name ++ ":" ++ pseudo

/-- The rule as it is written. -/
def css (depth : Nat) (r : PageRule) : String :=
  Layout.block PageItem.css depth ("@page" ++ selectorText r.header) r.items

end PageRule

end CssModel
