import CssModel.Recording
import CssModel.Text.Escape

/-!
# Attribute selectors

An attribute selector asks for an attribute, and perhaps for its value in one of six ways.

## Main definitions

* `CssModel.CaseSensitivity`: whether letter case counts
* `CssModel.AttributeOperator`, `CssModel.AttributeOperator.accepts`
* `CssModel.AttributeSelector`
-/

namespace CssModel

/-- Whether the case of ASCII letters counts in a comparison. -/
inductive CaseSensitivity
  | sensitive
  | insensitive
  deriving DecidableEq, Inhabited, Repr

namespace CaseSensitivity

/-- The text as it is compared. -/
def fold : CaseSensitivity → String → String
  | .sensitive, text => text
  | .insensitive, text => Ascii.lower text

def equal (c : CaseSensitivity) (a b : String) : Bool :=
  c.fold a == c.fold b

end CaseSensitivity

/-- How an attribute selector looks at the value. -/
inductive AttributeOperator
  /-- Any value will do. -/
  | present
  /-- The value is the one asked for. -/
  | equals
  /-- The value is a list of words with the one asked for among them. -/
  | includes
  /-- The value is the one asked for, or goes on after it with a hyphen. -/
  | dashMatch
  | contains
  | startsWith
  | endsWith
  deriving DecidableEq, Inhabited, Repr

namespace AttributeOperator

/-- Every operator. -/
def all : List AttributeOperator :=
  [.present, .equals, .includes, .dashMatch, .contains, .startsWith, .endsWith]

/-- The operator as it is written. -/
def text : AttributeOperator → String
  | .present => ""
  | .equals => "="
  | .includes => "~="
  | .dashMatch => "|="
  | .contains => "*="
  | .startsWith => "^="
  | .endsWith => "$="

def ofText? (text : String) : Option AttributeOperator :=
  all.find? fun op => op.text == text

/-- Whether `part` stands somewhere in the text. -/
def hasInfix (part : List Char) : List Char → Bool
  | [] => part.isEmpty
  | c :: rest => part.isPrefixOf (c :: rest) || hasInfix part rest

/-- Whether a value is what is asked for, letter by letter. The empty text and, in a list of words,
a text with white space are found nowhere. -/
def acceptsChars (op : AttributeOperator) (actual expected : List Char) : Bool :=
  match op with
  | .present => true
  | .equals => actual == expected
  | .includes =>
    ! expected.isEmpty && ! expected.any Ascii.isBlank &&
      (Ascii.wordChars actual).contains expected
  | .dashMatch => actual == expected || (expected ++ ['-']).isPrefixOf actual
  | .contains => ! expected.isEmpty && hasInfix expected actual
  | .startsWith => ! expected.isEmpty && expected.isPrefixOf actual
  | .endsWith => ! expected.isEmpty && expected.isSuffixOf actual

/-- Whether a value is what is asked for. -/
def accepts (op : AttributeOperator) (sensitivity : CaseSensitivity) (actual expected : String) :
    Bool :=
  op.acceptsChars (sensitivity.fold actual).toList (sensitivity.fold expected).toList

end AttributeOperator

/-- A selector for an attribute. -/
structure AttributeSelector where
  name : String
  value : String
  operator : AttributeOperator
  /-- Whether the value is written between quotes. -/
  quoted : Bool
  deriving DecidableEq, Repr

namespace AttributeSelector

/-- The selector, if it names an attribute. -/
def check (a : AttributeSelector) : Except Failure AttributeSelector :=
  if a.name.isEmpty then .error (.invalidArgument .emptyAttributeName) else .ok a

/-- The value as it is written. -/
def valueText (a : AttributeSelector) : String :=
  if a.quoted then Escape.quoted .backslash a.value else Escape.identifier .backslash a.value

/-- The selector as it is written; a value is only written after an operator. -/
def css (a : AttributeSelector) : String :=
  "[" ++ Escape.identifier .backslash a.name ++
    (if a.operator = .present then "" else a.operator.text ++ a.valueText) ++ "]"

end AttributeSelector

end CssModel
