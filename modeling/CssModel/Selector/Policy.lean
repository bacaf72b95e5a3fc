import CssModel.Selector.Matching

/-!
# Matching policies

The matchers that documents of different sorts call for, and the conditions that answer what the
tree cannot: for links, and for properties that the application assigns.

## Main definitions

* `CssModel.CasePolicy` and its presets `strict`, `html`, `insensitive` and `loose`
* `CssModel.CasePolicy.matcher`: the matcher of a policy
* `CssModel.noCondition`, `CssModel.linkCondition`
* `CssModel.PseudoAssignment`: properties given to nodes and to tag names
-/

namespace CssModel

/-- Whether letter case counts in values (classes, identifiers, attribute values) and in names
(tags, attribute names). -/
structure CasePolicy where
  values : CaseSensitivity
  names : CaseSensitivity
  deriving DecidableEq, Inhabited, Repr

namespace CasePolicy

/-- Letter case counts everywhere. -/
def strict : CasePolicy := ⟨.sensitive, .sensitive⟩

/-- Letter case counts in values only. -/
def html : CasePolicy := ⟨.sensitive, .insensitive⟩

/-- Letter case counts in names only. -/
def insensitive : CasePolicy := ⟨.insensitive, .sensitive⟩

/-- Letter case counts nowhere. -/
def loose : CasePolicy := ⟨.insensitive, .insensitive⟩

/-- The value of an attribute whose name is equal under the policy. -/
def attribute? (policy : CasePolicy) (e : Element) (name : String) : Option String :=
  (e.attributes.find? fun a => policy.names.equal a.1 name).map Prod.snd

/-- The matcher that compares under the policy. -/
def matcher (policy : CasePolicy) : ElementMatcher where
  acceptsName e name := policy.names.equal e.tag name
  acceptsClass e name := e.classes.any fun own => policy.values.equal own name
  acceptsId e name :=
    match e.id? with
    | some own => policy.values.equal own name
    | none => false
  acceptsAttribute e a :=
    match policy.attribute? e a.name with
    | some actual => a.operator.accepts policy.values actual a.value
    | none => false

end CasePolicy

/-- Nothing is known beyond the tree. -/
def noCondition : MatchCondition := fun _ _ _ => false

/-- Whether an element leads somewhere: `a` and `area` do if they have a target. -/
def Element.isLink (e : Element) : Bool :=
  (Ascii.sameText e.tag "a" || Ascii.sameText e.tag "area") && (e.attribute? "href").isSome

/-- Every link counts as not visited. -/
def linkCondition : MatchCondition := fun tree node s =>
  match s with
  | .pseudoClass p =>
    (p.kind = some .link || p.kind = some .anyLink) &&
      match tree.element? node with
      | some e => e.isLink
      | none => false
  | _ => false

/-- The pseudo-classes that an application gives to nodes, and to all elements of a tag name. Names
are held in lower case. -/
structure PseudoAssignment where
  byNode : List (NodeId × String)
  byName : List (String × String)
  deriving DecidableEq, Repr

namespace PseudoAssignment

/-- Nothing assigned. -/
def empty : PseudoAssignment := ⟨[], []⟩

/-- Gives a pseudo-class to a node. -/
def assignToNode (a : PseudoAssignment) (node : NodeId) (pseudo : String) : PseudoAssignment :=
  { a with byNode := (node, Ascii.lower pseudo) :: a.byNode }

/-- Gives a pseudo-class to all elements of a tag name. -/
def assignToName (a : PseudoAssignment) (name pseudo : String) : PseudoAssignment :=
  { a with byName := (Ascii.lower name, Ascii.lower pseudo) :: a.byName }

/-- Takes all pseudo-classes from a node; those of its tag name stay. -/
def clearNode (a : PseudoAssignment) (node : NodeId) : PseudoAssignment :=
  { a with byNode := a.byNode.filter fun given => given.1 ≠ node }

/-- A change of what is assigned. -/
inductive Edit
  | toNode (node : NodeId) (pseudo : String)
  | toName (name pseudo : String)
  | clear (node : NodeId)
  deriving DecidableEq, Repr

/-- The assignment after an edit. -/
def apply (a : PseudoAssignment) : Edit → PseudoAssignment
  | .toNode node pseudo => a.assignToNode node pseudo
  | .toName name pseudo => a.assignToName name pseudo
  | .clear node => a.clearNode node

/-- A pseudo-class holds where it has been given. -/
def condition (a : PseudoAssignment) : MatchCondition := fun tree node s =>
  match s.pseudoClassName? with
  | none => false
  | some name =>
    a.byNode.contains (node, Ascii.lower name) ||
      match tree.element? node with
      | some e => a.byName.contains (Ascii.lower e.tag, Ascii.lower name)
      | none => false

end PseudoAssignment

end CssModel
