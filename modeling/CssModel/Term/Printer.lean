import CssModel.Expression.Evaluation
import CssModel.Text.Escape

/-!
# Writing terms

Identifiers and strings are escaped at the level asked for. Inside `calc()` only the plain level is
used, since nothing but numbers can stand there.

## Main definitions

* `CssModel.Value.written`: a value standing alone, and inside an expression
* `CssModel.Term.css`: a term with its operator
* `CssModel.FunctionCall.css`: a function without the operator of its first argument
* `CssModel.textEvaluator`: the evaluator that writes the terms of an expression
-/

namespace CssModel

/-- The text of the operator in front of a term; none if there is no operator. -/
def operatorText : Option JoinOperator → String
  | some op => op.text
  | none => ""

/-- A function, given the text of its arguments. -/
def callText (level : EscapeLevel) (name arguments : String) : String :=
  Escape.identifier level name ++ "(" ++ arguments ++ ")"

/-- Names between square brackets. -/
def bracketsText (level : EscapeLevel) (names : List String) : String :=
  "[" ++ " ".intercalate (names.map (Escape.identifier level)) ++ "]"

/-- A value other than an expression is written in the same way everywhere. -/
def Written.plain (text : String) : Written := ⟨text, .ok text⟩

mutual

/-- A value as it is written. -/
def Value.written (level : EscapeLevel) : Value → Written
  | .numeric n => .plain n.text
  | .color c => .plain c.text
  | .string text => .plain (Escape.quoted level text)
  | .ident name => .plain (Escape.identifier level name)
  | .uri u => .plain ("url(" ++ Escape.quoted level u.reference ++ ")")
  | .call ⟨name, args, _⟩ => .plain (callText level name (argumentsCss level args))
  | .list terms => .plain (termsCss level terms)
  | .rect r => .plain r.text
  | .pair key ⟨operator, v⟩ =>
    .plain (Escape.identifier level key ++ " " ++ operatorText operator ++ (v.written level).alone)
  | .unicodeRange text => .plain text
  | .brackets names => .plain (bracketsText level names)
  | .calc ⟨items, family, integral, valid⟩ =>
    Expression.written ⟨writtenItems items, family, integral, valid⟩
  | .delimiter d => .plain d.text

/-- Terms one after the other, each with its operator in front. -/
def termsCss (level : EscapeLevel) : List (Joined Value) → String
  | [] => ""
  | ⟨operator, v⟩ :: rest =>
    operatorText operator ++ (v.written level).alone ++ termsCss level rest

/-- Arguments of a function: nothing stands in front of the first. -/
def argumentsCss (level : EscapeLevel) : List (Joined Value) → String
  | [] => ""
  | ⟨_, v⟩ :: rest => (v.written level).alone ++ termsCss level rest

/-- The entries of an expression with their operands as they are written. -/
def writtenItems : List (ExpressionItem (Joined Value)) → List (ExpressionItem Written)
  | [] => []
  | .operand ⟨operator, v⟩ :: rest =>
    (let text := v.written .backslash
     .operand ⟨operatorText operator ++ text.alone,
       match v with
       | .calc _ => text.inside
       | _ => .ok (operatorText operator ++ text.alone)⟩) :: writtenItems rest
  | .operator op :: rest => .operator op :: writtenItems rest

end

namespace Term

/-- The term with its operator in front. -/
def css (t : Term) (level : EscapeLevel) : String :=
  operatorText t.operator ++ (t.value.written level).alone

/-- The term as an operand: a nested expression is written without the word in front of it, and
without the operator. -/
def operandText (t : Term) : Except EvaluationError String :=
  match t.value with
  | .calc _ => (t.value.written .backslash).inside
  | _ => .ok (t.css .backslash)

end Term

/-- The function without an operator in front. -/
def FunctionCall.css (f : FunctionCall Term) (level : EscapeLevel) : String :=
  callText level f.name (argumentsCss level f.args)

/-- An entry of an expression as it is written. -/
def ExpressionItem.css : ExpressionItem Term → String
  | .operand term => term.css .backslash
  | .operator op => op.text

/-- Writes an expression with brackets around every binary operation. -/
def textEvaluator : Evaluator Id Term String :=
  textEvaluatorOf Term.operandText

/-- The text of the expression with all its brackets, without the word in front. -/
def Expression.text (e : Expression Term) : Except Failure String :=
  (e.evaluate textEvaluator).run.run

end CssModel
