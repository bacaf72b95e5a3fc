import CssModel.Data.Selector
import CssModel.Rule.Declaration
import CssModel.Rule.Link
import CssModel.Selector.Equality
import CssModel.Selector.Printer

/-!
# Style rules

A style rule gives declarations to the elements that one of its selectors matches.

## Main definitions

* `CssModel.StyleRule`, `CssModel.StyleRule.css`
-/

namespace CssModel

/-- The selectors of a style rule, and the style sheet it belongs to. -/
structure StyleHead where
  selectors : List ComplexSelector
  link : Option SheetLink

/-- Where a rule belongs is no part of what it says. -/
instance : BEq StyleHead := ⟨fun a b => a.selectors == b.selectors⟩

instance : HasData StyleHead := ⟨fun p h => form p h.selectors⟩

instance : ItemPolicy StyleHead Declaration where

/-- Selectors with declarations. -/
abbrev StyleRule := Container StyleHead Declaration

namespace StyleRule

/-- A rule without declarations that belongs to no style sheet. -/
def make (selectors : List ComplexSelector) : StyleRule :=
  .empty ⟨selectors, none⟩

/-- The rule as a part of a style sheet, or of none. -/
def withLink (link : Option SheetLink) (r : StyleRule) : StyleRule :=
  { r with header.link := link }

/-- The declarations for other elements. -/
def withSelectors (r : StyleRule) (selectors : List ComplexSelector) : StyleRule :=
  { r with header.selectors := selectors }

/-- The rule as it is written. -/
def css (depth : Nat) (r : StyleRule) : String :=
  Layout.block Declaration.css depth (ComplexSelector.listCss r.header.selectors) r.items

end StyleRule

end CssModel
