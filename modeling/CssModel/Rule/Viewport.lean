import CssModel.Rule.Declaration
import CssModel.Rule.Link

/-!
# Viewports

A viewport rule gives declarations for the area that a document is shown in.

## Main definitions

* `CssModel.ViewportRule`, `CssModel.ViewportRule.css`
-/

namespace CssModel

/-- The style sheet that the rule belongs to. -/
structure ViewportHead where
  link : Option SheetLink
  deriving Repr

instance : BEq ViewportHead := ⟨fun _ _ => true⟩

instance : HasData ViewportHead := .plain fun _ => .record []

instance : ItemPolicy ViewportHead Declaration where

/-- Declarations for the viewport. -/
abbrev ViewportRule := Container ViewportHead Declaration

namespace ViewportRule

/-- A rule without declarations that belongs to no style sheet. -/
def blank : ViewportRule := .empty ⟨none⟩

/-- The rule as a part of a style sheet, or of none. -/
def withLink (link : Option SheetLink) (r : ViewportRule) : ViewportRule :=
  { r with header.link := link }

/-- The rule as it is written. -/
def css (depth : Nat) (r : ViewportRule) : String :=
  Layout.block Declaration.css depth "@viewport" r.items

end ViewportRule

end CssModel
