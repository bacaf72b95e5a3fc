import CssModel.Recording
import CssModel.Selector.Index
import CssModel.Text.Escape

/-!
# Pseudo-classes and pseudo-elements

A pseudo-class asks for a property of an element that its name, its attributes and its text do not
show; a pseudo-element stands for a part of what an element is rendered as. Both are kept when
their name is not known, and reported.

The negation `:not(selector)` is no `PseudoClass`: it is a simple selector of its own.

## Main definitions

* `CssModel.PseudoClassKind`, `CssModel.PseudoElementKind`: the known names
* `CssModel.PseudoClass`, `CssModel.PseudoClass.plain`, `CssModel.PseudoClass.functional`
* `CssModel.PseudoElement`
-/

namespace CssModel

/-- The pseudo-classes with a known name. -/
inductive PseudoClassKind
  | firstChild | lastChild | onlyChild
  | firstOfType | lastOfType | onlyOfType
  | nthChild | nthLastChild | nthOfType | nthLastOfType
  | root | empty | not
  | link | visited | anyLink | target
  | hover | active | focus | focusWithin
  | enabled | disabled | checked
  | lang
  deriving DecidableEq, Repr

namespace PseudoClassKind

def all : List PseudoClassKind :=
  [.firstChild, .lastChild, .onlyChild, .firstOfType, .lastOfType, .onlyOfType,
    .nthChild, .nthLastChild, .nthOfType, .nthLastOfType, .root, .empty, .not,
    .link, .visited, .anyLink, .target, .hover, .active, .focus, .focusWithin,
    .enabled, .disabled, .checked, .lang]

def text : PseudoClassKind → String
  | .firstChild => "first-child"
  | .lastChild => "last-child"
  | .onlyChild => "only-child"
  | .firstOfType => "first-of-type"
  | .lastOfType => "last-of-type"
  | .onlyOfType => "only-of-type"
  | .nthChild => "nth-child"
  | .nthLastChild => "nth-last-child"
  | .nthOfType => "nth-of-type"
  | .nthLastOfType => "nth-last-of-type"
  | .root => "root"
  | .empty => "empty"
  | .not => "not"
  | .link => "link"
  | .visited => "visited"
  | .anyLink => "any-link"
  | .target => "target"
  | .hover => "hover"
  | .active => "active"
  | .focus => "focus"
  | .focusWithin => "focus-within"
  | .enabled => "enabled"
  | .disabled => "disabled"
  | .checked => "checked"
  | .lang => "lang"

instance : ToString PseudoClassKind := ⟨text⟩

/-- The kind of a name, in any letter case. -/
def ofText? (text : String) : Option PseudoClassKind :=
  all.find? fun kind => Ascii.sameText kind.text text

/-- Whether the argument is an index. -/
def takesIndex : PseudoClassKind → Bool
  | .nthChild | .nthLastChild | .nthOfType | .nthLastOfType => true
  | _ => false

end PseudoClassKind

/-- A pseudo-class other than a negation. -/
structure PseudoClass where
  /-- None for an unknown name. -/
  kind : Option PseudoClassKind
  name : String
  /-- The argument as it is written. -/
  argument : Option String
  /-- The index that the argument denotes, where one is asked for. -/
  index : Option Index
  deriving DecidableEq, Repr

namespace PseudoClass

/-- The index of an argument, for a kind that takes one. -/
def indexOf? (kind : Option PseudoClassKind) (argument : String) : Option Index :=
  match kind with
  | some k => if k.takesIndex then Index.ofText? argument else none
  | none => none

/-- Whether an index is asked for that the argument does not give. -/
def lacksIndex (p : PseudoClass) : Bool :=
  (p.kind.map PseudoClassKind.takesIndex).getD false && p.index.isNone

/-- The pseudo-class of a name and perhaps an argument. -/
def ofName (name : String) (argument : Option String) : PseudoClass :=
  let kind := PseudoClassKind.ofText? name
  ⟨kind, name, argument, argument.bind (indexOf? kind)⟩

/-- A pseudo-class without an argument. An unknown name is reported. -/
def plain (name : String) : Recording PseudoClass :=
  if name.isEmpty then Recording.reject .emptyPseudoClassName
  else do
    let p := ofName name none
    if p.kind.isNone then
      Recording.warn (.unknownPseudoClass name)
    return p

/-- A pseudo-class with an argument. An unknown name is reported, and so is an argument that gives
no index where one is asked for. -/
def functional (name argument : String) : Recording PseudoClass := do
  let _ ← plain name
  let p := ofName name (some argument)
  if p.lacksIndex then
    Recording.warn (.undecodedIndex argument name)
  return p

/-- The pseudo-class as it is written. -/
def css (p : PseudoClass) : String :=
  ":" ++ Escape.identifier .backslash p.name ++
    match p.argument with
    | some argument => "(" ++ argument ++ ")"
    | none => ""

end PseudoClass

/-- The pseudo-elements with a known name. -/
inductive PseudoElementKind
  | before | after | firstLine | firstLetter | marker | placeholder | selection | backdrop
  deriving DecidableEq, Repr

namespace PseudoElementKind

def all : List PseudoElementKind :=
  [.before, .after, .firstLine, .firstLetter, .marker, .placeholder, .selection, .backdrop]

def text : PseudoElementKind → String
  | .before => "before"
  | .after => "after"
  | .firstLine => "first-line"
  | .firstLetter => "first-letter"
  | .marker => "marker"
  | .placeholder => "placeholder"
  | .selection => "selection"
  | .backdrop => "backdrop"

instance : ToString PseudoElementKind := ⟨text⟩

/-- The kind of a name, in any letter case. -/
def ofText? (text : String) : Option PseudoElementKind :=
  all.find? fun kind => Ascii.sameText kind.text text

end PseudoElementKind

/-- A pseudo-element. -/
structure PseudoElement where
  /-- None for an unknown name. -/
  kind : Option PseudoElementKind
  name : String
  /-- The argument as it is written. -/
  argument : Option String
  deriving DecidableEq, Repr

namespace PseudoElement

/-- A pseudo-element, perhaps with an argument. An unknown name is reported. -/
def make (name : String) (argument : Option String) : Recording PseudoElement :=
  if name.isEmpty then Recording.reject .emptyPseudoElementName
  else do
    let kind := PseudoElementKind.ofText? name
    if kind.isNone then
      Recording.warn (.unknownPseudoElement name)
    return ⟨kind, name, argument⟩

/-- The pseudo-element as it is written. -/
def css (p : PseudoElement) : String :=
  "::" ++ Escape.identifier .backslash p.name ++
    match p.argument with
    | some argument => "(" ++ argument ++ ")"
    | none => ""

end PseudoElement

end CssModel
