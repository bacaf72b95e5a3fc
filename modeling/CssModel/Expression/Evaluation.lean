import CssModel.Term.Basic

/-!
# Evaluating expressions

An expression in postfix order is evaluated with a stack: an operand puts its value on top, an
operator takes its operands from the top and puts its result there. What the values are is left to
an `Evaluator`, whose callbacks run in a monad of its own and may fail. The first failure ends the
evaluation; no callback runs after it.

## Main definitions

* `CssModel.Evaluator`: the callbacks
* `CssModel.Evaluator.step`, `CssModel.Evaluator.run`: the stack machine
* `CssModel.Expression.evaluate`: the value of a valid expression
* `CssModel.textEvaluator`: the evaluator that writes an expression with all its brackets
-/

namespace CssModel

/-- What an evaluation does with operands and operators. Binary operators get their operands in the
order in which they are written. -/
structure Evaluator (m : Type → Type) (τ α : Type) where
  argument : τ → ExceptT EvaluationError m α
  unary : MathOperator → α → ExceptT EvaluationError m α
  binary : MathOperator → α → α → ExceptT EvaluationError m α

namespace Evaluator

variable {m : Type → Type} [Monad m] {τ α : Type}

/-- One entry of the expression on the stack of values, top first. -/
def step (ev : Evaluator m τ α) (stack : List α) :
    ExpressionItem τ → ExceptT EvaluationError m (List α)
  | .operand term => do
    let value ← ev.argument term
    return value :: stack
  | .operator op =>
    if op.isUnary then
      match stack with
      | value :: rest => do
        let result ← ev.unary op value
        return result :: rest
      | [] => throw .missingOperand
    else
      match stack with
      | right :: left :: rest => do
        let result ← ev.binary op left right
        return result :: rest
      | _ => throw .missingOperand

/-- The entries one after the other, from a stack of values. -/
def runFrom (ev : Evaluator m τ α) : List α → List (ExpressionItem τ) →
    ExceptT EvaluationError m (List α)
  | stack, [] => return stack
  | stack, item :: rest => do
    let next ← ev.step stack item
    ev.runFrom next rest

/-- The value that is on top of the stack after all entries. -/
def run (ev : Evaluator m τ α) (items : List (ExpressionItem τ)) : ExceptT EvaluationError m α := do
  match ← ev.runFrom [] items with
  | value :: _ => return value
  | [] => throw .emptyExpression

end Evaluator

/-- The value of the expression. An invalid expression has none, and no callback is made for it. -/
def Expression.evaluate {m : Type → Type} [Monad m] {τ α : Type} (e : Expression τ)
    (ev : Evaluator m τ α) : ExceptT Failure m α :=
  if e.valid then ExceptT.adapt .evaluation (ev.run e.items)
  else throw (.unsupported .invalidExpression)

/-- The failure of a nested expression, seen from the expression around it. -/
def EvaluationError.ofNested : Failure → EvaluationError
  | .evaluation cause => .nested cause
  | _ => .nestedInvalid

/-- A nested expression as an operand: evaluated by the same evaluator. -/
def Expression.evaluateNested {m : Type → Type} [Monad m] {τ α : Type} (e : Expression τ)
    (ev : Evaluator m τ α) : ExceptT EvaluationError m α :=
  ExceptT.adapt .ofNested (e.evaluate ev)

/-! ### Text -/

/-- A binary operation between round brackets. -/
def bracketed (op : MathOperator) (left right : String) : String :=
  "(" ++ left ++ " " ++ op.text ++ " " ++ right ++ ")"

/-- The text with the opposite sign: two signs cancel, since `--` would start a name. -/
def oppositeText (text : String) : String :=
  match text.toList with
  | '-' :: rest => String.ofList rest
  | _ => "-" ++ text

/-- Writes an expression with brackets around every binary operation, given the texts of its
operands. -/
def textEvaluatorOf {τ : Type} (argument : τ → Except EvaluationError String) :
    Evaluator Id τ String where
  argument term := ExceptT.mk (argument term)
  unary op text :=
    match op with
    | .negate => pure (oppositeText text)
    | _ => throw (.notUnary op.text)
  binary op left right := pure (bracketed op left right)

/-- An operand as it is written: standing alone, and inside an expression, where a nested
expression is written without the word in front of it. -/
structure Written where
  alone : String
  inside : Except EvaluationError String

namespace Expression

/-- Whether the last operation is a binary one, so that the text has brackets of its own. -/
def endsBinary {τ : Type} (e : Expression τ) : Bool :=
  match e.items.getLast? with
  | some (.operator op) => ! op.isUnary
  | _ => false

def itemText : ExpressionItem Written → String
  | .operand operand => operand.alone
  | .operator op => op.text

/-- The expression as it is written. One that cannot be written in brackets is written as far as it
was read, in postfix order. -/
def written (e : Expression Written) : Written :=
  let text := e.evaluate (textEvaluatorOf Written.inside)
  { alone :=
      match text.run.run with
      | .ok text => if e.endsBinary then "calc" ++ text else "calc(" ++ text ++ ")"
      | .error _ => "calc(" ++ " ".intercalate (e.items.map itemText) ++ ")"
    inside := (ExceptT.adapt .ofNested text).run.run }

end Expression

end CssModel
