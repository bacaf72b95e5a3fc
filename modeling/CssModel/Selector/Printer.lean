import CssModel.Selector.Basic

/-!
# Writing selectors

Names are escaped at the plain level; the arguments of pseudo-classes and pseudo-elements stand as
they were written. A selector for one element of the tree has no text.

## Main definitions

* `CssModel.SimpleSelector.css`, `CssModel.CompoundSelector.css`, `CssModel.ComplexSelector.css`
-/

namespace CssModel

mutual

/-- A simple selector as it is written. -/
def SimpleSelector.css : SimpleSelector → String
  | .tag name => if name = wildcard then wildcard else Escape.identifier .backslash name
  | .className name => "." ++ Escape.identifier .backslash name
  | .idName name => "#" ++ Escape.identifier .backslash name
  | .attribute a => a.css
  | .pseudoClass p => p.css
  | .negation ⟨_, parts, _⟩ => ":not(" ++ partsCss parts ++ ")"
  | .pseudoElement p => p.css
  | .node _ _ => ""

/-- Simple selectors one after the other. -/
def partsCss : List SimpleSelector → String
  | [] => ""
  | part :: rest => part.css ++ partsCss rest

end

/-- A compound selector as it is written, without its combinator. -/
def CompoundSelector.css (s : CompoundSelector) : String :=
  partsCss s.parts

/-- A compound selector with its combinator in front; a missing one is written as a space. -/
def CompoundSelector.joinedCss (s : CompoundSelector) : String :=
  (s.combinator.getD .descendant).text ++ s.css

namespace ComplexSelector

/-- A complex selector as it is written; the first compound selector has no combinator in front. -/
def css (s : ComplexSelector) : String :=
  match s.compounds with
  | [] => ""
  | first :: rest => first.css ++ String.join (rest.map CompoundSelector.joinedCss)

/-- Several complex selectors with commas between them. -/
def listCss (selectors : List ComplexSelector) : String :=
  ", ".intercalate (selectors.map css)

end ComplexSelector

end CssModel
