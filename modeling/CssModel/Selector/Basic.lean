import CssModel.Dom.Node
import CssModel.Selector.Attribute
import CssModel.Selector.Pseudo
import CssModel.Selector.Specificity

/-!
# Selectors

A simple selector asks one thing of an element. A compound selector is a sequence of simple ones
that ask of the same element; a complex selector is a chain of compound ones, each joined to the
one before by a combinator.

A compound selector knows which of its simple selectors is its pseudo-element: the last one there
is. The place is kept up to date by every edit.

## Main definitions

* `CssModel.SimpleSelector`, `CssModel.CompoundSelector`, `CssModel.ComplexSelector`
* `CssModel.CompoundSelector.push`, `CssModel.CompoundSelector.remove`,
  `CssModel.CompoundSelector.pseudoElement?`
* `CssModel.CompoundSelector.Edit`, `CssModel.CompoundSelector.apply`
* `CssModel.CompoundSelector.specificity`, `CssModel.ComplexSelector.specificity`
-/

namespace CssModel

/-- How a compound selector is joined to the one before it. -/
inductive Combinator
  | descendant
  | child
  | adjacent
  | preceding
  deriving DecidableEq, Repr

/-- Every combinator. -/
def Combinator.all : List Combinator :=
  [.descendant, .child, .adjacent, .preceding]

/-- The character that stands for the combinator. -/
def Combinator.symbol : Combinator → String
  | .descendant => " "
  | .child => ">"
  | .adjacent => "+"
  | .preceding => "~"

/-- The combinator as it is written. -/
def Combinator.text : Combinator → String
  | .descendant => " "
  | .child => " > "
  | .adjacent => " + "
  | .preceding => " ~ "

/-- A sequence of simple selectors, over any type of simple selector. -/
structure CompoundOf (σ : Type) where
  combinator : Option Combinator
  parts : List σ
  /-- The place of the pseudo-element among the parts. -/
  pseudoElementAt : Option Nat
  deriving DecidableEq, Repr

/-- One thing asked of an element. -/
inductive SimpleSelector
  /-- The tag name; an asterisk stands for any. -/
  | tag (name : String)
  | className (name : String)
  | idName (name : String)
  | attribute (a : AttributeSelector)
  | pseudoClass (p : PseudoClass)
  /-- What the element must not be. -/
  | negation (s : CompoundOf SimpleSelector)
  | pseudoElement (p : PseudoElement)
  /-- One element of the tree; style written at the element itself is weightiest. -/
  | node (id : NodeId) (inlineStyle : Bool)

/-- A sequence of simple selectors that ask of the same element. -/
abbrev CompoundSelector := CompoundOf SimpleSelector

/-- A chain of compound selectors; the last is the subject. -/
structure ComplexSelector where
  compounds : List CompoundSelector

/-- The tag name that stands for any. -/
def wildcard : String := "*"

namespace SimpleSelector

/-- A text that must not be empty. -/
def checkName (name : String) (fault : ArgumentFault) (make : String → SimpleSelector) :
    Except Failure SimpleSelector :=
  if name.isEmpty then .error (.invalidArgument fault) else .ok (make name)

/-- A type selector. -/
def ofTag (name : String) : Except Failure SimpleSelector :=
  checkName name .emptyElementName .tag

/-- A class selector. -/
def ofClass (name : String) : Except Failure SimpleSelector :=
  checkName name .emptyClassName .className

/-- An identifier selector. -/
def ofId (name : String) : Except Failure SimpleSelector :=
  checkName name .emptyId .idName

/-- The pseudo-element that the selector is, if it is one. -/
def pseudoElement? : SimpleSelector → Option PseudoElement
  | .pseudoElement p => some p
  | _ => none

def isPseudoElement (s : SimpleSelector) : Bool :=
  s.pseudoElement?.isSome

/-- The name of a pseudo-class; a negation goes by its name too. -/
def pseudoClassName? : SimpleSelector → Option String
  | .pseudoClass p => some p.name
  | .negation _ => some PseudoClassKind.not.text
  | _ => none

end SimpleSelector

namespace CompoundOf

/-- No simple selectors yet. -/
def empty {σ : Type} (combinator : Option Combinator) : CompoundOf σ :=
  ⟨combinator, [], none⟩

/-- The selector with another combinator. -/
def withCombinator {σ : Type} (s : CompoundOf σ) (combinator : Option Combinator) : CompoundOf σ :=
  { s with combinator }

end CompoundOf

namespace CompoundSelector

/-- The place of the last pseudo-element. -/
def lastPseudoElement? (parts : List SimpleSelector) : Option Nat :=
  (parts.reverse.findIdx? SimpleSelector.isPseudoElement).map fun i => parts.length - 1 - i

/-- The selector with one more part at its end. A pseudo-element takes the place of an earlier
one. -/
def push (s : CompoundSelector) (part : SimpleSelector) : CompoundSelector :=
  { s with
    parts := s.parts ++ [part]
    pseudoElementAt := if part.isPseudoElement then some s.parts.length else s.pseudoElementAt }

/-- The selector of these parts, pushed one by one. -/
def ofParts (combinator : Option Combinator) (parts : List SimpleSelector) : CompoundSelector :=
  parts.foldl push (.empty combinator)

/-- The part at a place, and the selector without it. -/
def remove (s : CompoundSelector) (index : Nat) :
    Except Failure (SimpleSelector × CompoundSelector) :=
  match s.parts[index]? with
  | none => .error (.invalidArgument (.partIndex index s.parts.length))
  | some part =>
    let parts := s.parts.eraseIdx index
    .ok (part, { s with parts, pseudoElementAt := lastPseudoElement? parts })

/-- A change of a compound selector. -/
inductive Edit
  | push (part : SimpleSelector)
  | remove (index : Nat)
  | setCombinator (combinator : Option Combinator)

/-- The selector after an edit, and the part that was removed. -/
def apply (s : CompoundSelector) :
    Edit → Except Failure (Option SimpleSelector × CompoundSelector)
  | .push part => .ok (none, s.push part)
  | .remove index => (s.remove index).map fun (part, rest) => (some part, rest)
  | .setCombinator combinator => .ok (none, s.withCombinator combinator)

/-- The pseudo-element of the selector. -/
def pseudoElement? (s : CompoundSelector) : Option PseudoElement :=
  s.pseudoElementAt.bind fun i => (s.parts[i]?).bind SimpleSelector.pseudoElement?

/-- The first tag name asked for. -/
def tagName? (s : CompoundSelector) : Option String :=
  s.parts.findSome? fun
    | .tag name => some name
    | _ => none

/-- All classes asked for, in order. -/
def classNames (s : CompoundSelector) : List String :=
  s.parts.filterMap fun
    | .className name => some name
    | _ => none

/-- The first identifier asked for. -/
def idName? (s : CompoundSelector) : Option String :=
  s.parts.findSome? fun
    | .idName name => some name
    | _ => none

end CompoundSelector

mutual

/-- What a simple selector adds to the specificity. The wildcard adds nothing, and a negation adds
what its selector does. -/
def SimpleSelector.specificity : SimpleSelector → Specificity
  | .tag name => if name = wildcard then .zero else .one .types
  | .className _ => .one .classes
  | .idName _ => .one .ids
  | .attribute _ => .one .classes
  | .pseudoClass _ => .one .classes
  | .negation ⟨_, parts, _⟩ => partsSpecificity .zero parts
  | .pseudoElement _ => .one .types
  | .node _ inlineStyle => if inlineStyle then .one .inlineStyles else .zero

/-- The parts added to what has been counted, from left to right. -/
def partsSpecificity (counted : Specificity) : List SimpleSelector → Specificity
  | [] => counted
  | part :: rest => partsSpecificity (counted + part.specificity) rest

end

/-- The sum over the parts. -/
def CompoundSelector.specificity (s : CompoundSelector) : Specificity :=
  partsSpecificity .zero s.parts

namespace ComplexSelector

/-- The sum over the chain. -/
def specificity (s : ComplexSelector) : Specificity :=
  s.compounds.foldl (fun sum c => sum + c.specificity) .zero

/-- The chain with one more compound selector at its end. -/
def push (s : ComplexSelector) (c : CompoundSelector) : ComplexSelector :=
  ⟨s.compounds ++ [c]⟩

/-- The subject; an empty chain has none. -/
def last (s : ComplexSelector) : Except Failure CompoundSelector :=
  match s.compounds.getLast? with
  | some c => .ok c
  | none => .error (.unsupported .lastOfEmptyChain)

/-- The pseudo-element of the subject. -/
def pseudoElement? (s : ComplexSelector) : Option PseudoElement :=
  s.compounds.getLast?.bind CompoundSelector.pseudoElement?

end ComplexSelector

end CssModel
