import CssModel.Text.Ascii

/-!
# Nodes

A document is a tree of nodes. Nodes are named by their number in the tree; the document itself has
number zero. Each node knows its parent, its children and its neighbours among them.

## Main definitions

* `CssModel.NodeId`, `CssModel.Element`, `CssModel.NodeKind`, `CssModel.Node`
-/

namespace CssModel

/-- The number of a node in its tree. -/
abbrev NodeId := Nat

/-- The document is the first node of every tree. -/
def rootId : NodeId := 0

/-- A tag name and attributes; each attribute name occurs once. -/
structure Element where
  tag : String
  attributes : List (String × String)
  deriving DecidableEq, Repr

namespace Element

/-- An element without attributes. -/
def named (tag : String) : Element := ⟨tag, []⟩

/-- The element with an attribute set; an earlier value under the same name is replaced. -/
def withAttribute (e : Element) (name value : String) : Element :=
  { e with attributes := e.attributes.filter (fun a => a.1 ≠ name) ++ [(name, value)] }

/-- An element with these attributes, set one after the other. -/
def ofAttributes (tag : String) (attributes : List (String × String)) : Element :=
  attributes.foldl (fun e a => e.withAttribute a.1 a.2) (named tag)

/-- The value of an attribute. -/
def attribute? (e : Element) (name : String) : Option String :=
  e.attributes.lookup name

/-- The value of the attribute `id`. -/
def id? (e : Element) : Option String :=
  e.attribute? "id"

/-- The words of the attribute `class`, in order. -/
def classes (e : Element) : List String :=
  ((e.attribute? "class").map Ascii.words).getD []

end Element

/-- What a node is. -/
inductive NodeKind
  | document
  | element (e : Element)
  | text (content : String)
  | cdata (content : String)
  | entityReference (name : String)
  | comment (content : String)
  | instruction (target content : String)
  deriving DecidableEq, Repr

/-- The name of the sort of node. -/
def NodeKind.name : NodeKind → String
  | .document => "document"
  | .element _ => "element"
  | .text _ => "text"
  | .cdata _ => "cdata"
  | .entityReference _ => "entity"
  | .comment _ => "comment"
  | .instruction _ _ => "pi"

/-- A node with its relations. -/
structure Node where
  kind : NodeKind
  parent : Option NodeId
  children : List NodeId
  next : Option NodeId
  previous : Option NodeId
  deriving DecidableEq, Repr

/-- A node without relations. -/
def Node.detached (kind : NodeKind) : Node :=
  ⟨kind, none, [], none, none⟩

/-- The element that the node is, if it is one. -/
def Node.element? (n : Node) : Option Element :=
  match n.kind with
  | .element e => some e
  | _ => none

/-- The text of a text node. -/
def Node.text? (n : Node) : Option String :=
  match n.kind with
  | .text content => some content
  | _ => none

end CssModel
