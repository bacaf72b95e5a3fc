import CssModel.Data.Term
import CssModel.Rule.Container
import CssModel.Rule.Layout
import CssModel.Term.Equality
import CssModel.Term.Printer

/-!
# Declarations

A declaration gives a property its value: a list of terms. Property names are held in lower case.

## Main definitions

* `CssModel.Declaration`, `CssModel.Declaration.make`, `CssModel.Declaration.withProperty`
* `CssModel.Declaration.css`
-/

namespace CssModel

/-- The property, and whether the declaration outweighs those that are not important. -/
structure DeclarationHead where
  property : String
  important : Bool
  deriving DecidableEq, Repr

instance : HasData DeclarationHead where
  form p h := .record [("property", form p h.property), ("important", form p h.important)]

instance : ItemPolicy DeclarationHead Term where

/-- A property with its value. -/
abbrev Declaration := Container DeclarationHead Term

namespace Declaration

/-- The property name as it is held. -/
def propertyName (property : String) : Except Failure String :=
  if property.isEmpty then .error (.invalidArgument .emptyPropertyName)
  else .ok (Ascii.lower property)

/-- A declaration of these terms. -/
def make (property : String) (terms : List Term) (important : Bool) : Except Failure Declaration :=
  (propertyName property).map fun property => .ofItems ⟨property, important⟩ terms

/-- The value under another property. -/
def withProperty (d : Declaration) (property : String) : Except Failure Declaration :=
  (propertyName property).map fun property => { d with header.property := property }

/-- The declaration with another weight. -/
def withImportant (d : Declaration) (important : Bool) : Declaration :=
  { d with header.important := important }

/-- The value as it is written: nothing stands in front of the first term. -/
def valueCss (d : Declaration) : String :=
  argumentsCss .backslash d.items

/-- The declaration as it is written, on a line of its own. -/
def css (depth : Nat) (d : Declaration) : String :=
  Layout.line depth <|
    d.header.property ++ ": " ++ d.valueCss ++ (if d.header.important then " !important" else "") ++
      ";"

end Declaration

end CssModel
