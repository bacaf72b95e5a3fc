import CssModel.Data.Basic
import CssModel.Selector.Basic

/-!
# The structured form of selectors

A negation has the form of a pseudo-class with a selector in it. The place of the pseudo-element
follows from the parts and is not exchanged, but it is hashed.

## Main definitions

* `CssModel.SimpleSelector.form`, `CssModel.CompoundSelector.form`, and the instances of
  `CssModel.HasData` for selectors
-/

namespace CssModel

instance : HasData AttributeOperator := .plain fun
  | .present => .text "NoOperator"
  | .equals => .text "Equals"
  | .includes => .text "Includes"
  | .dashMatch => .text "DashMatch"
  | .contains => .text "Contains"
  | .startsWith => .text "StartsWith"
  | .endsWith => .text "EndsWith"

instance : HasData AttributeSelector where
  form p a := .record [("name", form p a.name), ("value", form p a.value),
    ("operator", form p a.operator), ("is_string_value", form p a.quoted)]

instance : HasData PseudoClassKind := .plain fun kind => .text kind.text

instance : HasData PseudoElementKind := .plain fun kind => .text kind.text

instance : HasData Index := .plain fun i => .list [.int i.step.toInt, .int i.offset.toInt]

instance : HasData PseudoElement where
  form p e := .record [("kind", form p e.kind), ("name", form p e.name),
    ("function_value", form p e.argument)]

instance : HasData Combinator := .plain fun
  | .descendant => .text "Descendant"
  | .child => .text "Child"
  | .adjacent => .text "Adjacent"
  | .preceding => .text "Preceding"

section

variable (p : Purpose)

/-- The structured form of a pseudo-class, given that of the selector in it. -/
def pseudoClassForm (kind : Option PseudoClassKind) (name : String) (argument : Option String)
    (nested : Data) (index : Option Index) : Data :=
  .record [("kind", form p kind), ("name", form p name), ("function_value", form p argument),
    ("nested", nested), ("element_index", form p index)]

/-- The structured form of the place of a pseudo-element, as far as there is one. -/
def placeFields (place : Option Nat) : List (String × Data) :=
  match p with
  | .exchange => []
  | .hashing => [("pseudo_element", form p place)]

/-- The structured form of a compound selector, given that of its parts. -/
def compoundForm (combinator : Option Combinator) (parts : List Data) (place : Option Nat) : Data :=
  .record ([("combinator", form p combinator), ("parts", .list parts)] ++ placeFields p place)

mutual

/-- The structured form of a simple selector. -/
def SimpleSelector.form : SimpleSelector → Data
  | .tag name => .variant "ElementName" (.text name)
  | .className name => .variant "ElementClass" (.text name)
  | .idName name => .variant "ElementId" (.text name)
  | .attribute a => .variant "ElementAttribute" (HasData.form p a)
  | .pseudoClass c =>
    .variant "PseudoClass" (pseudoClassForm p c.kind c.name c.argument .null c.index)
  | .negation ⟨combinator, parts, place⟩ =>
    .variant "PseudoClass"
      (pseudoClassForm p (some .not) PseudoClassKind.not.text none
        (compoundForm p combinator (partsForm parts) place) none)
  | .pseudoElement e => .variant "PseudoElement" (HasData.form p e)
  | .node id inlineStyle =>
    .variant "ElementDom" (.record [("node", .int id), ("inline_priority", .bool inlineStyle)])

/-- The structured forms of simple selectors. -/
def partsForm : List SimpleSelector → List Data
  | [] => []
  | part :: rest => part.form :: partsForm rest

end

/-- The structured form of a compound selector. -/
def CompoundSelector.form (s : CompoundSelector) : Data :=
  compoundForm p s.combinator (partsForm p s.parts) s.pseudoElementAt

end

instance : HasData SimpleSelector := ⟨SimpleSelector.form⟩

instance : HasData CompoundSelector := ⟨CompoundSelector.form⟩

instance : HasData ComplexSelector where
  form p s := .record [("selectors", form p s.compounds)]

instance : HasData Specificity := .plain fun s =>
  .list [.int s.inlineStyles.toNat, .int s.ids.toNat, .int s.classes.toNat, .int s.types.toNat]

end CssModel
