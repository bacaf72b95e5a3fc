/-!
# Warnings

A value that is accepted but cannot be used is reported once. A `WarningLog` holds the texts of the
warnings so far as a set, in order.

## Main definitions

* `CssModel.Warning`, `CssModel.Warning.text`
* `CssModel.WarningLog`, `CssModel.WarningLog.record`
-/

namespace CssModel

/-- Why the arguments of `calc()` form no expression. Operands and operators are given by their
text. -/
inductive ExpressionProblem
  | unbalancedClose
  | unbalancedOpen
  | notAllowed (delimiter : String)
  | noLeftOperand (operator : String)
  | notNumeric (operand : String)
  /-- Two families, given by their text, do not go together. -/
  | mixedFamilies (held found : String)
  | noOperand (operator : String)
  | missingOperand (operator : String)
  | notJoined
  deriving DecidableEq, Repr

def ExpressionProblem.message : ExpressionProblem → String
  | .unbalancedClose => "unbalanced ')'"
  | .unbalancedOpen => "unbalanced '('"
  | .notAllowed delimiter => "'" ++ delimiter ++ "' is not allowed"
  | .noLeftOperand operator => "'" ++ operator ++ "' has no left operand"
  | .notNumeric operand => "'" ++ operand ++ "' is not a numeric operand"
  | .mixedFamilies held found => "cannot combine " ++ held ++ " with " ++ found
  | .noOperand operator => "'" ++ operator ++ "' has no operand"
  | .missingOperand operator => "'" ++ operator ++ "' is missing an operand"
  | .notJoined => "operands are not joined by operators"

/-- What was accepted although it cannot be used. -/
inductive Warning
  | danglingSign (call : String)
  | invalidExpression (problem : ExpressionProblem)
  | unknownPseudoClass (name : String)
  | unknownPseudoElement (name : String)
  | undecodedIndex (argument name : String)
  deriving DecidableEq, Repr

/-- The warning as it is reported: where it comes from, and what it says. -/
def Warning.text : Warning → String
  | .danglingSign call => "[term] dangling '-' in arguments of " ++ call ++ "(), function ignored"
  | .invalidExpression problem => "[calc] invalid calc() expression: " ++ problem.message
  | .unknownPseudoClass name => "[selector] unknown pseudo-class ':" ++ name ++ "'"
  | .unknownPseudoElement name => "[selector] unknown pseudo-element '::" ++ name ++ "'"
  | .undecodedIndex argument name =>
    "[selector] invalid an+b argument '" ++ argument ++ "' in :" ++ name ++ "()"

/-- A text put at its place in an ordered list, unless it is there. -/
def insertText (text : String) : List String → List String
  | [] => [text]
  | t :: rest =>
    if text < t then text :: t :: rest
    else if text = t then t :: rest
    else t :: insertText text rest

/-- A text that is there is not put in again. -/
theorem insertText_insertText (text : String) (texts : List String) :
    insertText text (insertText text texts) = insertText text texts := by
  induction texts with
  | nil => rw [insertText, insertText, if_neg (String.lt_irrefl text), if_pos rfl]
  | cons t rest ih =>
    rw [insertText]
    split
    · rw [insertText, if_neg (String.lt_irrefl text), if_pos rfl]
    · split
      · next hlt heq => rw [insertText, if_neg hlt, if_pos heq]
      · next hlt hne => rw [insertText, if_neg hlt, if_neg hne, ih]

/-- The warnings reported so far: their texts in order of code points, each once. -/
structure WarningLog where
  texts : List String
  deriving DecidableEq, Repr

namespace WarningLog

/-- Nothing reported yet. -/
def empty : WarningLog := ⟨[]⟩

def record (log : WarningLog) (warning : Warning) : WarningLog :=
  ⟨insertText warning.text log.texts⟩

/-- **A warning that was reported is not reported again.** -/
@[simp]
theorem record_record (log : WarningLog) (warning : Warning) :
    (log.record warning).record warning = log.record warning := by
  rw [record, record, insertText_insertText]

end WarningLog

end CssModel
