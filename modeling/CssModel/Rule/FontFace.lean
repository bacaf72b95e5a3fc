import CssModel.Rule.Declaration
import CssModel.Rule.Link

/-!
# Font faces

A font face rule describes a font by declarations, which are called descriptors. Of several
descriptors of one name the last counts.

## Main definitions

* `CssModel.FontSource`, `CssModel.FontStyle`, `CssModel.FontWeight`
* `CssModel.FontFaceRule`, and what its descriptors say: `family?`, `sources`, `style?`, `weight?`,
  `unicodeRanges`
-/

namespace CssModel

/-! ### Values of descriptors -/

/-- Where a font is found. -/
inductive FontSource
  /-- At an address, perhaps with a hint at the format. -/
  | url (uri : Uri) (format : Option String)
  /-- On the system, under its full name. -/
  | installed (name : String)
  deriving DecidableEq, Repr

inductive FontStyle
  | normal
  | italic
  | oblique
  deriving DecidableEq, Inhabited, Repr

namespace FontStyle

def all : List FontStyle := [.normal, .italic, .oblique]

def text : FontStyle → String
  | .normal => "normal"
  | .italic => "italic"
  | .oblique => "oblique"

instance : ToString FontStyle := ⟨text⟩

/-- The style of a text, in any letter case. -/
def ofText? (text : String) : Option FontStyle :=
  all.find? fun style => Ascii.sameText style.text text

end FontStyle

inductive FontWeight
  | normal
  | bold
  /-- Heavier than the font around it. -/
  | bolder
  | lighter
  /-- A weight from 1 to 1000. -/
  | numeric (weight : UInt16)
  deriving DecidableEq, Repr

namespace FontWeight

/-- The weight of a word, in any letter case. -/
def ofIdent? (name : String) : Option FontWeight :=
  [("normal", normal), ("bold", bold), ("bolder", bolder), ("lighter", lighter)].lookup
    (Ascii.lower name)

/-- The weight of a number: a whole one from 1 to 1000, without a unit. -/
def ofNumeric? (n : Numeric) : Option FontWeight :=
  if n.kind.isPlain && n.isIntegral && 1 ≤ n.value && n.value ≤ 1000 then
    some (.numeric n.value.toUInt16)
  else none

/-- The weight of a term. -/
def ofTerm? (t : Term) : Option FontWeight :=
  match t.value with
  | .ident name => ofIdent? name
  | .numeric n => ofNumeric? n
  | _ => none

/-- The weight as a number, where it does not depend on the font around. -/
def value? : FontWeight → Option UInt16
  | .normal => some 400
  | .bold => some 700
  | .numeric weight => some weight
  | .bolder | .lighter => none

end FontWeight

/-- Terms read as a text: a string that comes first, or all names with spaces between them. -/
def textOfTerms? (terms : List Term) : Option String :=
  match terms.head?.bind Term.string? with
  | some text => some text
  | none =>
    match terms.filterMap Term.ident? with
    | [] => none
    | names => some (" ".intercalate names)

namespace FontSource

/-- The sources with a hint at the format of the last one; an installed font takes none. -/
def withFormat (format : Option String) : List FontSource → List FontSource
  | [] => []
  | [.url uri _] => [.url uri format]
  | source :: rest => source :: withFormat format rest

/-- The sources after one more term: addresses and names of installed fonts are sources of their
own, and a format goes to the last source so far. -/
def next (sources : List FontSource) (t : Term) : List FontSource :=
  match t.value with
  | .uri u => sources ++ [.url u none]
  | .call f =>
    if Ascii.sameText f.name "format" then withFormat (textOfTerms? f.args) sources
    else if Ascii.sameText f.name "local" then
      sources ++ ((textOfTerms? f.args).map FontSource.installed).toList
    else sources
  | _ => sources

/-- The sources that terms denote, in order. -/
def ofTerms (terms : List Term) : List FontSource :=
  terms.foldl next []

end FontSource

/-! ### The rule -/

/-- The style sheet that the rule belongs to. -/
structure FontFaceHead where
  link : Option SheetLink
  deriving Repr

instance : BEq FontFaceHead := ⟨fun _ _ => true⟩

instance : HasData FontFaceHead := .plain fun _ => .record []

instance : ItemPolicy FontFaceHead Declaration where

/-- The descriptors of a font. -/
abbrev FontFaceRule := Container FontFaceHead Declaration

namespace FontFaceRule

/-- A rule without descriptors that belongs to no style sheet. -/
def blank : FontFaceRule := .empty ⟨none⟩

/-- The rule as a part of a style sheet, or of none. -/
def withLink (link : Option SheetLink) (r : FontFaceRule) : FontFaceRule :=
  { r with header.link := link }

/-- The terms of the last descriptor of a name. -/
def descriptor? (r : FontFaceRule) (name : String) : Option (List Term) :=
  (r.items.reverse.find? fun d => d.header.property = name).map Container.items

/-- The name of the font. -/
def family? (r : FontFaceRule) : Option String :=
  (r.descriptor? "font-family").bind textOfTerms?

/-- Where the font is found, the preferred places first. -/
def sources (r : FontFaceRule) : List FontSource :=
  FontSource.ofTerms ((r.descriptor? "src").getD [])

def style? (r : FontFaceRule) : Option FontStyle :=
  ((r.descriptor? "font-style").bind List.head?).bind fun t => t.ident?.bind FontStyle.ofText?

def weight? (r : FontFaceRule) : Option FontWeight :=
  ((r.descriptor? "font-weight").bind List.head?).bind FontWeight.ofTerm?

/-- The ranges of code points that the font is for, as they are written. -/
def unicodeRanges (r : FontFaceRule) : List String :=
  ((r.descriptor? "unicode-range").getD []).filterMap Term.unicodeRange?

/-- The rule as it is written. -/
def css (depth : Nat) (r : FontFaceRule) : String :=
  Layout.block Declaration.css depth "@font-face" r.items

end FontFaceRule

instance : HasData FontSource where
  form p
    | .url uri format => .variant "Url" (.record [("uri", form p uri), ("format", form p format)])
    | .installed name => .variant "Local" (form p name)

instance : HasData FontWeight := .plain fun
  | .normal => .text "Normal"
  | .bold => .text "Bold"
  | .bolder => .text "Bolder"
  | .lighter => .text "Lighter"
  | .numeric weight => .variant "Numeric" (.int weight.toNat)

end CssModel
