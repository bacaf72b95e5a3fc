/-!
# Specificity

The specificity of a selector counts what it asks for, in four classes from the most to the least
weighty. Counts are 32 bits wide and stop at their largest value. Specificities are compared count
by count.

## Main definitions

* `CssModel.Specificity`, `CssModel.SpecificityLevel`
* `CssModel.Specificity.add`, `CssModel.Specificity.addOne`, `CssModel.Specificity.compare`
-/

namespace CssModel

/-- The classes of a specificity, from the most to the least weighty. -/
inductive SpecificityLevel
  /-- Style written at the element itself. -/
  | inlineStyles
  | ids
  /-- Classes, attributes and pseudo-classes. -/
  | classes
  /-- Types and pseudo-elements. -/
  | types
  deriving DecidableEq, Repr

/-- Every class. -/
def SpecificityLevel.all : List SpecificityLevel :=
  [.inlineStyles, .ids, .classes, .types]

/-- How many selectors of each class there are. -/
structure Specificity where
  inlineStyles : UInt32
  ids : UInt32
  classes : UInt32
  types : UInt32
  deriving DecidableEq, Inhabited, Repr

namespace Specificity

/-- Nothing counted. -/
def zero : Specificity := ⟨0, 0, 0, 0⟩

/-- The sum of two counts, or the largest count. -/
def addCounts (a b : UInt32) : UInt32 :=
  UInt32.ofNat (min 4294967295 (a.toNat + b.toNat))

/-- The sum, class by class. -/
def add (a b : Specificity) : Specificity :=
  ⟨addCounts a.inlineStyles b.inlineStyles, addCounts a.ids b.ids,
    addCounts a.classes b.classes, addCounts a.types b.types⟩

instance : Add Specificity := ⟨add⟩

/-- One selector of a class. -/
def one : SpecificityLevel → Specificity
  | .inlineStyles => ⟨1, 0, 0, 0⟩
  | .ids => ⟨0, 1, 0, 0⟩
  | .classes => ⟨0, 0, 1, 0⟩
  | .types => ⟨0, 0, 0, 1⟩

/-- One selector of a class more. -/
def addOne (s : Specificity) (level : SpecificityLevel) : Specificity :=
  s + one level

/-- The count of a class. -/
def count (s : Specificity) : SpecificityLevel → UInt32
  | .inlineStyles => s.inlineStyles
  | .ids => s.ids
  | .classes => s.classes
  | .types => s.types

/-- The order: the first class in which the counts differ decides. -/
def compare (a b : Specificity) : Ordering :=
  (Ord.compare a.inlineStyles b.inlineStyles).then <|
    (Ord.compare a.ids b.ids).then <|
      (Ord.compare a.classes b.classes).then (Ord.compare a.types b.types)

/-- The weightier of two. -/
def larger (a b : Specificity) : Specificity :=
  if compare a b = .gt then a else b

/-- The counts with commas between them. -/
def text (s : Specificity) : String :=
  ",".intercalate [s.inlineStyles.toNat.repr, s.ids.toNat.repr, s.classes.toNat.repr,
    s.types.toNat.repr]

instance : ToString Specificity := ⟨text⟩

end Specificity

end CssModel
