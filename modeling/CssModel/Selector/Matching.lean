import CssModel.Dom.Tree
import CssModel.Selector.Basic

/-!
# Matching

What is asked of an element is answered from three sources: names, classes and attributes by an
`ElementMatcher`, its place in the document by the tree, and everything else by a `MatchCondition`.
Nothing but elements ever matches.

A complex selector is matched from its subject back to its first compound selector: for each
combinator the candidates for the compound selector before are tried one after the other.

## Main definitions

* `CssModel.ElementMatcher`, `CssModel.MatchCondition`
* `CssModel.SimpleSelector.matches`, `CssModel.CompoundSelector.matches`
* `CssModel.Combinator.candidates`, `CssModel.ComplexSelector.matches`
-/

namespace CssModel

/-- How names, classes, identifiers and attributes are compared with those of an element. -/
structure ElementMatcher where
  acceptsName : Element → String → Bool
  acceptsClass : Element → String → Bool
  acceptsId : Element → String → Bool
  acceptsAttribute : Element → AttributeSelector → Bool

/-- Answers what neither the element nor its place in the tree can tell. -/
abbrev MatchCondition := Tree → NodeId → SimpleSelector → Bool

/-! ### Places among siblings -/

/-- Whether a sibling counts: elements do, of any tag or of one tag name in any letter case. -/
def countsAsSibling (tree : Tree) (tag : Option String) (sibling : NodeId) : Bool :=
  match tree.element? sibling with
  | none => false
  | some e =>
    match tag with
    | none => true
    | some name => Ascii.sameText e.tag name

/-- The place of a node among its siblings, counted from one, from the start or from the end. It
stops at the largest number of 32 bits. -/
def siblingPosition (tree : Tree) (node : NodeId) (tag : Option String) (fromEnd : Bool) : Int32 :=
  let siblings :=
    if fromEnd then tree.followingSiblings node else tree.precedingSiblings node
  Int32.ofNat (min 2147483647 (siblings.countP (countsAsSibling tree tag) + 1))

/-- Whether the node is a child of a document. -/
def isRootElement (tree : Tree) (node : NodeId) : Bool :=
  match (tree.parent? node).bind tree.node? with
  | some parent => parent.kind == .document
  | none => false

/-- Whether a child keeps its parent from being empty: comments and instructions do not. -/
def fillsParent (tree : Tree) (child : NodeId) : Bool :=
  match (tree.node? child).map Node.kind with
  | some (.element _) | some (.text _) | some (.cdata _) | some (.entityReference _) => true
  | _ => false

/-! ### Pseudo-classes -/

/-- Whether an element has the property that a pseudo-class asks for. -/
def PseudoClass.matches (tree : Tree) (node : NodeId) (e : Element) (condition : MatchCondition)
    (p : PseudoClass) : Bool :=
  let position (tag : Option String) (fromEnd : Bool) := siblingPosition tree node tag fromEnd
  let indexed (tag : Option String) (fromEnd : Bool) : Bool :=
    match p.index with
    | some index => index.contains (position tag fromEnd)
    | none => false
  let tag := some e.tag
  match p.kind with
  | some .firstChild => position none false == 1
  | some .lastChild => position none true == 1
  | some .onlyChild => position none false == 1 && position none true == 1
  | some .firstOfType => position tag false == 1
  | some .lastOfType => position tag true == 1
  | some .onlyOfType => position tag false == 1 && position tag true == 1
  | some .nthChild => indexed none false
  | some .nthLastChild => indexed none true
  | some .nthOfType => indexed tag false
  | some .nthLastOfType => indexed tag true
  | some .root => isRootElement tree node
  | some .empty => ! (tree.children node).any (fillsParent tree)
  | some .not => false
  | _ => condition tree node (.pseudoClass p)

/-! ### Simple and compound selectors -/

section

variable (tree : Tree) (node : NodeId) (e : Element) (matcher : ElementMatcher)
  (condition : MatchCondition)

mutual

/-- Whether an element is what a simple selector asks for. A pseudo-element asks nothing of its
element, unless its name is unknown. -/
def SimpleSelector.accepts : SimpleSelector → Bool
  | .tag name => name == wildcard || matcher.acceptsName e name
  | .className name => matcher.acceptsClass e name
  | .idName name => matcher.acceptsId e name
  | .attribute a => matcher.acceptsAttribute e a
  | .pseudoClass p => p.matches tree node e condition
  | .negation ⟨_, parts, _⟩ => ! acceptsAll parts
  | .pseudoElement p => p.kind.isSome
  | .node id _ => id == node

/-- Whether an element is what all simple selectors ask for. -/
def acceptsAll : List SimpleSelector → Bool
  | [] => true
  | part :: rest => part.accepts && acceptsAll rest

end

end

/-- Whether a node matches a simple selector. -/
def SimpleSelector.matches (s : SimpleSelector) (tree : Tree) (matcher : ElementMatcher)
    (condition : MatchCondition) (node : NodeId) : Bool :=
  match tree.element? node with
  | some e => s.accepts tree node e matcher condition
  | none => false

/-- Whether a node matches every part of a compound selector. -/
def CompoundSelector.matches (s : CompoundSelector) (tree : Tree) (matcher : ElementMatcher)
    (condition : MatchCondition) (node : NodeId) : Bool :=
  match tree.element? node with
  | some e => acceptsAll tree node e matcher condition s.parts
  | none => false

/-! ### Complex selectors -/

/-- The nodes that may match the compound selector before a combinator. Only elements are
neighbours; a missing combinator means an ancestor. -/
def Combinator.candidates (tree : Tree) (node : NodeId) : Option Combinator → List NodeId
  | none | some .descendant => tree.ancestors node
  | some .child => (tree.parent? node).toList
  | some .adjacent => ((tree.precedingSiblings node).find? tree.isElement).toList
  | some .preceding => tree.precedingSiblings node

/-- Whether a node matches a chain that is given from its subject backward. -/
def matchesBackward (tree : Tree) (matcher : ElementMatcher) (condition : MatchCondition) :
    List CompoundSelector → NodeId → Bool
  | [], _ => false
  | [first], node => first.matches tree matcher condition node
  | subject :: before :: rest, node =>
    subject.matches tree matcher condition node &&
      (Combinator.candidates tree node subject.combinator).any
        (matchesBackward tree matcher condition (before :: rest))

/-- Whether a node matches a complex selector as its subject. -/
def ComplexSelector.matches (s : ComplexSelector) (tree : Tree) (matcher : ElementMatcher)
    (condition : MatchCondition) (node : NodeId) : Bool :=
  matchesBackward tree matcher condition s.compounds.reverse node

end CssModel
