import CssModel.Data.Basic
import CssModel.Failure

/-!
# Containers

Everything in a style sheet that holds a list has the same shape: a header, which says what the
list is for, and the items in order. A declaration is a property name over terms, a style rule is a
list of selectors over declarations, the style sheet itself is an origin over rules.

All containers share one set of edits. An edit either succeeds or leaves the container as it is,
and none of them changes the header. The header may have a say in what enters the list and in what
leaves it (see `CssModel.ItemPolicy`).

A container remembers the digest of its items once it has been asked for, and forgets it whenever
the items may have changed. Two containers are equal if their headers and their items are; what is
remembered does not count.

A digest is kept as what the hasher is fed, and not as the number that comes out of it, so what is
said of digests holds whichever function makes numbers of them. The hasher is fed the fields of a
value in order. Of a container that is the header and then the digest of the items, remembered or
not; what a header says of a style sheet is left out.

## Main definitions

* `CssModel.Container`, `CssModel.ItemPolicy`
* `CssModel.Edit`, `CssModel.Edit.onList`: edits, and what they do to a plain list
* `CssModel.Container.apply`: what they do to a container
* `CssModel.Digested`, `CssModel.Container.content`, `CssModel.Container.warmed`: digests
-/

namespace CssModel

/-- A list of items under a header. -/
structure Container (η α : Type) where
  header : η
  items : List α
  /-- The digest of the items, if it was asked for since they last changed. -/
  remembered : Option Data

/-- What becomes of items that enter or leave a container under a header of this type. -/
class ItemPolicy (η α : Type) where
  /-- An item as it enters. -/
  enter : η → α → α := fun _ item => item
  /-- An item as it leaves. -/
  leave : η → α → α := fun _ item => item

/-! ### Edits -/

/-- A change of a list of items. -/
inductive Edit (α : Type)
  | push (item : α)
  /-- Later items make room. -/
  | insert (index : Nat) (item : α)
  | set (index : Nat) (item : α)
  | remove (index : Nat)
  | replaceAll (items : List α)
  /-- Nothing is left. -/
  | unlock
  deriving DecidableEq, Repr

/-- What an edit gives: the item that had to leave, and what is left. -/
structure Edited (α β : Type) where
  displaced : Option α
  result : β
  deriving DecidableEq, Repr

/-- The edit of a plain list; none if the index is out of range. An item may be inserted behind the
last one, but nothing can be replaced or removed there. -/
def Edit.onList {α : Type} (items : List α) : Edit α → Option (Edited α (List α))
  | .push item => some ⟨none, items ++ [item]⟩
  | .insert index item =>
    if index ≤ items.length then some ⟨none, items.insertIdx index item⟩ else none
  | .set index item => (items[index]?).map fun old => ⟨some old, items.set index item⟩
  | .remove index => (items[index]?).map fun old => ⟨some old, items.eraseIdx index⟩
  | .replaceAll new => some ⟨none, new⟩
  | .unlock => some ⟨none, []⟩

namespace Container

variable {η α : Type}

/-- No items yet. -/
def empty (header : η) : Container η α := ⟨header, [], none⟩

def length (c : Container η α) : Nat := c.items.length

def isEmpty (c : Container η α) : Bool := c.items.isEmpty

/-- Other items under the same header. -/
def withItems (c : Container η α) (items : List α) : Container η α :=
  { c with items, remembered := none }

/-- The container with every item changed. -/
def mapItems (c : Container η α) (f : α → α) : Container η α :=
  c.withItems (c.items.map f)

/-- An index that no item has. -/
def outOfRange (c : Container η α) (index : Nat) : Failure :=
  .invalidArgument (.itemIndex index c.length)

/-- The item at an index, for a change of that item alone: nothing enters and nothing leaves. -/
def item (c : Container η α) (index : Nat) : Except Failure α :=
  match c.items[index]? with
  | some item => .ok item
  | none => .error (c.outOfRange index)

/-- The container with the item at an index changed. -/
def withItem (c : Container η α) (index : Nat) (item : α) : Container η α :=
  c.withItems (c.items.set index item)

section Edits

variable [ItemPolicy η α]

/-- An item as it enters the container. -/
def entering (c : Container η α) (item : α) : α :=
  ItemPolicy.enter c.header item

/-- The container with one more item at the end. -/
def push (c : Container η α) (item : α) : Container η α :=
  c.withItems (c.items ++ [c.entering item])

/-- The container with one more item at an index. -/
def insert (c : Container η α) (index : Nat) (item : α) : Except Failure (Container η α) :=
  if index ≤ c.length then .ok (c.withItems (c.items.insertIdx index (c.entering item)))
  else .error (c.outOfRange index)

/-- The container with another item at an index, and the item that stood there. -/
def set (c : Container η α) (index : Nat) (item : α) : Except Failure (α × Container η α) :=
  match c.items[index]? with
  | none => .error (c.outOfRange index)
  | some old =>
    .ok (ItemPolicy.leave c.header old, c.withItems (c.items.set index (c.entering item)))

/-- The container without the item at an index, and that item. -/
def remove (c : Container η α) (index : Nat) : Except Failure (α × Container η α) :=
  match c.items[index]? with
  | none => .error (c.outOfRange index)
  | some old => .ok (ItemPolicy.leave c.header old, c.withItems (c.items.eraseIdx index))

/-- The container with these items only. -/
def replaceAll (c : Container η α) (items : List α) : Container η α :=
  c.withItems (items.map c.entering)

/-- The container without its items. -/
def unlock (c : Container η α) : Container η α :=
  c.withItems []

/-- The container after an edit, and the item that had to leave. -/
def apply (c : Container η α) : Edit α → Except Failure (Edited α (Container η α))
  | .push item => .ok ⟨none, c.push item⟩
  | .insert index item => (c.insert index item).map (⟨none, ·⟩)
  | .set index item => (c.set index item).map fun (old, c') => ⟨some old, c'⟩
  | .remove index => (c.remove index).map fun (old, c') => ⟨some old, c'⟩
  | .replaceAll items => .ok ⟨none, c.replaceAll items⟩
  | .unlock => .ok ⟨none, c.unlock⟩

/-- The container of these items, pushed one by one. -/
def ofItems (header : η) (items : List α) : Container η α :=
  items.foldl push (empty header)

end Edits

/-! ### Equality -/

instance [BEq η] [BEq α] : BEq (Container η α) :=
  ⟨fun a b => a.header == b.header && a.items == b.items⟩

end Container

/-! ### Digests -/

/-- Values that may hold digests. -/
class Digested (α : Type) where
  /-- What the hasher is fed. Digests that are held are taken as they are. -/
  digest : α → Data
  /-- The value with every digest held that was needed for its own. -/
  warm : α → α

/-- A value with a structured form holds no digests. -/
instance {α : Type} [HasData α] : Digested α := ⟨form .hashing, id⟩

/-- Whether two values have the same digest. -/
def Digested.agree {α : Type} [Digested α] (a b : α) : Bool :=
  decide (digest a = digest b)

namespace Container

variable {η α : Type} [Digested α]

/-- The digest of the items. -/
def content (c : Container η α) : Data :=
  match c.remembered with
  | some digest => digest
  | none => .list (c.items.map Digested.digest)

/-- Whether the items of two containers have the same digest. -/
def sameContent (a b : Container η α) : Bool :=
  decide (a.content = b.content)

/-- The container once its content has been asked for. -/
def warmed (c : Container η α) : Container η α :=
  match c.remembered with
  | some _ => c
  | none => { c with items := c.items.map Digested.warm, remembered := some c.content }

instance [HasData η] : Digested (Container η α) :=
  ⟨fun c => .list [Digested.digest c.header, c.content], warmed⟩

end Container

end CssModel
