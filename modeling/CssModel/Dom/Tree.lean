import CssModel.Dom.Node

/-!
# Trees of nodes

The nodes of a document are kept in the order in which they were made, and named by their place in
that order. A new node stands alone until it is appended to a parent. Appending writes the links of
the child, of its parent and of the sibling before it; a node that already had a parent stays in
the old parent's list.

The walks follow one link from node to node. In a tree without cycles a walk visits no node twice,
so it ends after at most as many steps as there are nodes.

## Main definitions

* `CssModel.Tree`, `CssModel.Tree.alloc`, `CssModel.Tree.append`
* `CssModel.Tree.ancestors`, `CssModel.Tree.precedingSiblings`, `CssModel.Tree.followingSiblings`
-/

namespace CssModel

/-- The nodes of a document; the document itself comes first. -/
structure Tree where
  nodes : Array Node
  deriving DecidableEq, Repr

namespace Tree

/-- A document without content. -/
def empty : Tree := ⟨#[Node.detached .document]⟩

def size (t : Tree) : Nat := t.nodes.size

/-- The node of a number. -/
def node? (t : Tree) (id : NodeId) : Option Node := t.nodes[id]?

/-- The number that the next new node gets. -/
def nextId (t : Tree) : NodeId := t.size

/-- The tree with a new node, which stands alone. -/
def alloc (t : Tree) (kind : NodeKind) : Tree :=
  ⟨t.nodes.push (.detached kind)⟩

/-- The tree with one node changed; an unknown number changes nothing. -/
def update (t : Tree) (id : NodeId) (f : Node → Node) : Tree :=
  ⟨t.nodes.modify id f⟩

/-- The last child of a node. -/
def lastChild? (t : Tree) (id : NodeId) : Option NodeId :=
  (t.node? id).bind fun n => n.children.getLast?

/-- The tree with `child` as the last child of `parent`. -/
def append (t : Tree) (parent child : NodeId) : Tree :=
  let linked :=
    (t.update parent fun n => { n with children := n.children ++ [child] }).update child
      fun n => { n with parent := some parent }
  match t.lastChild? parent with
  | none => linked
  | some last =>
    (linked.update last fun n => { n with next := some child }).update child
      fun n => { n with previous := some last }

/-- The tree with a new node as the last child of `parent`. -/
def appendNew (t : Tree) (parent : NodeId) (kind : NodeKind) : Tree :=
  (t.alloc kind).append parent t.nextId

/-- A change of a tree. -/
inductive Edit
  | alloc (kind : NodeKind)
  | append (parent child : NodeId)
  | appendNew (parent : NodeId) (kind : NodeKind)
  deriving DecidableEq, Repr

/-- The tree after an edit. -/
def apply (t : Tree) : Edit → Tree
  | .alloc kind => t.alloc kind
  | .append parent child => t.append parent child
  | .appendNew parent kind => t.appendNew parent kind

/-! ### Relations -/

def parent? (t : Tree) (id : NodeId) : Option NodeId :=
  (t.node? id).bind Node.parent

def children (t : Tree) (id : NodeId) : List NodeId :=
  ((t.node? id).map Node.children).getD []

def next? (t : Tree) (id : NodeId) : Option NodeId :=
  (t.node? id).bind Node.next

def previous? (t : Tree) (id : NodeId) : Option NodeId :=
  (t.node? id).bind Node.previous

def element? (t : Tree) (id : NodeId) : Option Element :=
  (t.node? id).bind Node.element?

def isElement (t : Tree) (id : NodeId) : Bool :=
  (t.element? id).isSome

def text? (t : Tree) (id : NodeId) : Option String :=
  (t.node? id).bind Node.text?

/-- The first element among the children of the document. -/
def documentElement? (t : Tree) : Option NodeId :=
  (t.children rootId).find? t.isElement

/-! ### Walks -/

/-- The nodes that one link leads through, at most `steps` of them. -/
def walk (link : NodeId → Option NodeId) : Nat → Option NodeId → List NodeId
  | 0, _ => []
  | _ + 1, none => []
  | steps + 1, some id => id :: walk link steps (link id)

/-- The parent, its parent and so on. -/
def ancestors (t : Tree) (id : NodeId) : List NodeId :=
  walk t.parent? t.size (t.parent? id)

/-- The siblings before a node, the nearest first. -/
def precedingSiblings (t : Tree) (id : NodeId) : List NodeId :=
  walk t.previous? t.size (t.previous? id)

/-- The siblings after a node, the nearest first. -/
def followingSiblings (t : Tree) (id : NodeId) : List NodeId :=
  walk t.next? t.size (t.next? id)

end Tree

end CssModel
