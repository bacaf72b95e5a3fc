/-!
# The layout of written rules

A rule is written over several lines: a line that ends in an opening brace, the lines of what it
holds, one level deeper, and a line with the closing brace. Each level is one tab.

## Main definitions

* `CssModel.Layout.indent`, `CssModel.Layout.line`, `CssModel.Layout.block`
-/

namespace CssModel.Layout

/-- One tab for each level. -/
def indent (depth : Nat) : String :=
  String.ofList (List.replicate depth '\t')

/-- A line of its own. -/
def line (depth : Nat) (text : String) : String :=
  indent depth ++ text ++ "\n"

/-- What stands in front of the braces, and between them the items, each written at the depth that
it is given. -/
def block {α : Type} (written : Nat → α → String) (depth : Nat) (front : String)
    (items : List α) : String :=
  line depth (front ++ " \x7b") ++ String.join (items.map (written (depth + 1))) ++
    line depth "\x7d"

end CssModel.Layout
