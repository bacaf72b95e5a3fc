import CssModel.Term.Unit
import CssModel.Number.Shortest

/-!
# Failures

A constructor, an edit or an evaluation fails with the reason as a value; its wording is written
here and nowhere else. What is accepted but cannot be used, such as a malformed expression, is no
failure: it is marked invalid and reported as a warning (see `CssModel.Warning`).

## Main definitions

* `CssModel.ArgumentFault`: what is wrong with an argument
* `CssModel.EvaluationError`: why an expression has no value
* `CssModel.Failure`: the failures of the library, their `message` and their `causes`
-/

namespace CssModel

/-- What is wrong with an argument. -/
inductive ArgumentFault
  | emptyFunctionName
  | emptyExpression
  | unitMismatch (unit : DimensionUnit) (kind : NumericKind)
  | notFinite (kind : NumericKind)
  | negative (kind : NumericKind) (value : Float32)
  /-- The text of an edge that is no length. -/
  | rectEdge (edge : String)
  | emptyElementName
  | emptyClassName
  | emptyId
  | emptyAttributeName
  | emptyPseudoClassName
  | emptyPseudoElementName
  | partIndex (index count : Nat)
  | itemIndex (index count : Nat)
  | emptyPropertyName
  | emptyKeyframesName
  | noKeyframeOffset
  | keyframeOffsetKind
  | unknownMarginArea (text : String)
  | emptyMediaFeature
  deriving DecidableEq, Repr

def ArgumentFault.message : ArgumentFault → String
  | .emptyFunctionName => "function name must not be empty"
  | .emptyExpression => "calc() needs at least one argument"
  | .unitMismatch unit kind =>
    "unit '" ++ unit.text ++ "' cannot be used with a " ++ kind.text ++ " term"
  | .notFinite kind => kind.text ++ " value must be finite"
  | .negative kind value => kind.text ++ " value cannot be negative: " ++ Number.text value
  | .rectEdge edge => "rect() edge must be a length: " ++ edge
  | .emptyElementName => "element name must not be empty"
  | .emptyClassName => "class name must not be empty"
  | .emptyId => "ID must not be empty"
  | .emptyAttributeName => "attribute name must not be empty"
  | .emptyPseudoClassName => "pseudo-class name must not be empty"
  | .emptyPseudoElementName => "pseudo-element name must not be empty"
  | .partIndex index count =>
    "part index " ++ index.repr ++ " out of range for " ++ count.repr ++ " parts"
  | .itemIndex index count =>
    "index " ++ index.repr ++ " out of range for " ++ count.repr ++ " items"
  | .emptyPropertyName => "property name must not be empty"
  | .emptyKeyframesName => "keyframes name must not be empty"
  | .noKeyframeOffset => "keyframe needs at least one offset"
  | .keyframeOffsetKind => "keyframe offsets must be percentages"
  | .unknownMarginArea text => "unknown page margin area '" ++ text ++ "'"
  | .emptyMediaFeature => "media feature name must not be empty"

/-- What an operation cannot be asked for. -/
inductive UnsupportedUse
  | invalidExpression
  | lastOfEmptyChain
  deriving DecidableEq, Repr

def UnsupportedUse.message : UnsupportedUse → String
  | .invalidExpression => "evaluating an invalid calc() expression"
  | .lastOfEmptyChain => "last selector of an empty combined selector"

/-- Why an expression has no value. -/
inductive EvaluationError
  | divisionByZero
  /-- A percentage, given by its text, stands for no length. -/
  | noPercentBase (percentage : String)
  /-- A term, given by its text, is no number. -/
  | notNumeric (term : String)
  | notUnary (operator : String)
  | notBinary (operator : String)
  | missingOperand
  | emptyExpression
  /-- An evaluator from outside gives a reason of its own. -/
  | reported (reason : String)
  /-- A nested expression has no value. -/
  | nested (cause : EvaluationError)
  /-- A nested expression is invalid. -/
  | nestedInvalid
  deriving DecidableEq, Repr

namespace EvaluationError

/-- What is said of every expression without a value, before the reason. -/
def summary : String := "could not evaluate calc() expression"

def message : EvaluationError → String
  | .divisionByZero => "division by zero"
  | .noPercentBase percentage => "no base to resolve " ++ percentage ++ " against"
  | .notNumeric term => "'" ++ term ++ "' is not a numeric operand"
  | .notUnary operator => "'" ++ operator ++ "' is not a unary operator"
  | .notBinary operator => "'" ++ operator ++ "' is not a binary operator"
  | .missingOperand => "operand stack underflow"
  | .emptyExpression => "empty calc() expression"
  | .reported reason => reason
  | .nested _ => summary
  | .nestedInvalid => "unsupported operation: " ++ UnsupportedUse.invalidExpression.message

/-- The reasons behind the error, outermost first, the error itself included. -/
def causes : EvaluationError → List String
  | .nested cause => summary :: cause.causes
  | error => [error.message]

end EvaluationError

/-- A failure of the library. -/
inductive Failure
  | invalidArgument (fault : ArgumentFault)
  | evaluation (cause : EvaluationError)
  | unsupported (use : UnsupportedUse)
  deriving DecidableEq, Repr

namespace Failure

def message : Failure → String
  | .invalidArgument fault => "invalid argument: " ++ fault.message
  | .evaluation _ => EvaluationError.summary
  | .unsupported use => "unsupported operation: " ++ use.message

/-- The reasons behind the failure, outermost first. -/
def causes : Failure → List String
  | .evaluation cause => cause.causes
  | _ => []

end Failure

end CssModel
