import CssModel.Rule.FontFace
import CssModel.Rule.Keyframes
import CssModel.Rule.Media
import CssModel.Rule.Page
import CssModel.Rule.Viewport

/-!
# Style sheets

A style sheet holds rules of six sorts. They are linked to it as they enter and unlinked as they
leave; when its origin changes, all are linked anew. A sheet is told from others by its number,
which says nothing of its content.

## Main definitions

* `CssModel.Rule`, `CssModel.Rule.withLink`: a rule of any sort
* `CssModel.StyleSheet`, `CssModel.StyleSheet.link`, `CssModel.StyleSheet.withOrigin`
* `CssModel.StyleSheet.css`
-/

namespace CssModel

/-! ### Rules -/

/-- A rule of a style sheet. -/
inductive Rule
  | style (r : StyleRule)
  | media (r : MediaRule)
  | keyframes (r : KeyframesRule)
  | fontFace (r : FontFaceRule)
  | page (r : PageRule)
  | viewport (r : ViewportRule)

namespace Rule

/-- The style sheet that the rule belongs to. -/
def link : Rule → Option SheetLink
  | .style r => r.header.link
  | .media r => r.header.link
  | .keyframes r => r.header.link
  | .fontFace r => r.header.link
  | .page r => r.header.link
  | .viewport r => r.header.link

/-- The rule, with what is in it, as a part of a style sheet, or of none. -/
def withLink (link : Option SheetLink) : Rule → Rule
  | .style r => .style (r.withLink link)
  | .media r => .media (r.withLink link)
  | .keyframes r => .keyframes (r.withLink link)
  | .fontFace r => .fontFace (r.withLink link)
  | .page r => .page (r.withLink link)
  | .viewport r => .viewport (r.withLink link)

/-- Whether two rules say the same. -/
def same : Rule → Rule → Bool
  | .style a, .style b => a == b
  | .media a, .media b => a == b
  | .keyframes a, .keyframes b => a == b
  | .fontFace a, .fontFace b => a == b
  | .page a, .page b => a == b
  | .viewport a, .viewport b => a == b
  | _, _ => false

instance : BEq Rule := ⟨same⟩

instance : Digested Rule where
  digest
    | .style r => .variant "style" (Digested.digest r)
    | .media r => .variant "media" (Digested.digest r)
    | .keyframes r => .variant "keyframes" (Digested.digest r)
    | .fontFace r => .variant "font-face" (Digested.digest r)
    | .page r => .variant "page" (Digested.digest r)
    | .viewport r => .variant "viewport" (Digested.digest r)
  warm
    | .style r => .style r.warmed
    | .media r => .media r.warmed
    | .keyframes r => .keyframes r.warmed
    | .fontFace r => .fontFace r.warmed
    | .page r => .page r.warmed
    | .viewport r => .viewport r.warmed

/-- The rule as it is written. -/
def css (depth : Nat) : Rule → String
  | .style r => r.css depth
  | .media r => r.css depth
  | .keyframes r => r.css depth
  | .fontFace r => r.css depth
  | .page r => r.css depth
  | .viewport r => r.css depth

end Rule

/-! ### Sheets -/

/-- The number and the origin of a style sheet: what its rules are linked to. -/
structure SheetHead where
  link : SheetLink
  deriving Repr

instance : BEq SheetHead := ⟨fun a b => a.link.origin == b.link.origin⟩

instance : HasData SheetHead := ⟨fun p h => form p h.link.origin⟩

instance : ItemPolicy SheetHead Rule where
  enter h := Rule.withLink (some h.link)
  leave _ := Rule.withLink none

/-- The rules of a style sheet. -/
abbrev StyleSheet := Container SheetHead Rule

namespace StyleSheet

/-- A sheet without rules. -/
def make (number : Nat) (origin : Origin) : StyleSheet :=
  .empty ⟨⟨number, origin⟩⟩

/-- What the rules of the sheet are linked to. -/
def link (s : StyleSheet) : SheetLink := s.header.link

def origin (s : StyleSheet) : Origin := s.link.origin

/-- The sheet with another origin; its rules follow. -/
def withOrigin (s : StyleSheet) (origin : Origin) : StyleSheet :=
  let link : SheetLink := { s.link with origin }
  { s with header.link := link }.mapItems (Rule.withLink (some link))

/-- The sheet as it is written: one rule after the other. -/
def css (s : StyleSheet) : String :=
  String.join (s.items.map (Rule.css 0))

end StyleSheet

end CssModel
