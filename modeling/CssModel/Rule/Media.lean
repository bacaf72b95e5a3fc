import CssModel.Rule.MediaQuery
import CssModel.Rule.Style

/-!
# Rules for media

A media rule holds style rules that apply where one of its queries holds. They belong to the same
style sheet as the media rule: they are linked to it as they enter, and unlinked as they leave.

## Main definitions

* `CssModel.MediaRule`, `CssModel.MediaRule.withLink`, `CssModel.MediaRule.css`
-/

namespace CssModel

/-- The queries of a media rule, and the style sheet it belongs to. -/
structure MediaHead where
  queries : List MediaQuery
  link : Option SheetLink

instance : BEq MediaHead := ⟨fun a b => a.queries == b.queries⟩

instance : HasData MediaHead := ⟨fun p h => form p h.queries⟩

instance : ItemPolicy MediaHead StyleRule where
  enter h := StyleRule.withLink h.link
  leave _ := StyleRule.withLink none

/-- Style rules under media queries. -/
abbrev MediaRule := Container MediaHead StyleRule

namespace MediaRule

/-- A rule without style rules that belongs to no style sheet. -/
def make (queries : List MediaQuery) : MediaRule :=
  .empty ⟨queries, none⟩

/-- The rule and all rules in it as parts of a style sheet, or of none. -/
def withLink (link : Option SheetLink) (r : MediaRule) : MediaRule :=
  { r with header.link := link }.mapItems (StyleRule.withLink link)

/-- The style rules under other queries. -/
def withQueries (r : MediaRule) (queries : List MediaQuery) : MediaRule :=
  { r with header.queries := queries }

/-- The rule as it is written. -/
def css (depth : Nat) (r : MediaRule) : String :=
  Layout.block StyleRule.css depth
    ("@media " ++ ", ".intercalate (r.header.queries.map MediaQuery.text)) r.items

end MediaRule

end CssModel
