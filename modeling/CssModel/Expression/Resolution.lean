import CssModel.Term.Printer

/-!
# Numeric values of expressions

Operands are brought to one unit for each family (`px`, `deg`, `ms`, `Hz`, `dppx`) and then
combined. Relative lengths and percentages depend on a `ResolutionContext`.

The rules are stated over any numbers with the four operations: `numericEvaluator` takes the value
of a single operand as a parameter. Double precision is one instance; in single precision every
operand and every operation is worked out in double precision and rounded.

## Main definitions

* `CssModel.ResolutionContext`, `CssModel.ResolutionContext.canonical`
* `CssModel.numericEvaluator`: the rules, over any numbers
* `CssModel.doubleEvaluator`, `CssModel.singleEvaluator`
-/

namespace CssModel

/-! ### The rules -/

section Rules

variable {α : Type} [Add α] [Sub α] [Mul α] [Div α] [Neg α] [OfNat α 0] [BEq α]

/-- A binary operator on numbers; nothing is divided by zero. -/
def applyBinary (op : MathOperator) (left right : α) : Except EvaluationError α :=
  match op with
  | .add => .ok (left + right)
  | .subtract => .ok (left - right)
  | .multiply => .ok (left * right)
  | .divide => if right == 0 then .error .divisionByZero else .ok (left / right)
  | .negate => .error (.notBinary op.text)

/-- A sign on a number. -/
def applyUnary (op : MathOperator) (value : α) : Except EvaluationError α :=
  match op with
  | .negate => .ok (-value)
  | _ => .error (.notUnary op.text)

/-- The evaluator of numbers, given the values of operands. -/
def numericEvaluatorOf {τ : Type} (argument : τ → Except EvaluationError α) :
    Evaluator Id τ α where
  argument term := ExceptT.mk (argument term)
  unary op value := ExceptT.mk (applyUnary op value)
  binary op left right := ExceptT.mk (applyBinary op left right)

mutual

/-- The value of an operand, given the values of numbers. A nested expression is evaluated by the
same rules. -/
def Value.measure (number : Numeric → Except EvaluationError α) (operator : Option JoinOperator) :
    Value → Except EvaluationError α
  | .numeric n => number n
  | .calc ⟨items, family, integral, valid⟩ =>
    let nested : Expression (Except EvaluationError α) :=
      ⟨measuredItems number items, family, integral, valid⟩
    (nested.evaluateNested (numericEvaluatorOf id)).run.run
  | v => .error (.notNumeric (Term.css ⟨operator, v⟩ .backslash))

/-- The entries of an expression with the values of their operands. -/
def measuredItems (number : Numeric → Except EvaluationError α) :
    List (ExpressionItem (Joined Value)) → List (ExpressionItem (Except EvaluationError α))
  | [] => []
  | .operand ⟨operator, v⟩ :: rest =>
    .operand (v.measure number operator) :: measuredItems number rest
  | .operator op :: rest => .operator op :: measuredItems number rest

end

/-- The value of a term, given the values of numbers. -/
def Term.measure (number : Numeric → Except EvaluationError α) (t : Term) :
    Except EvaluationError α :=
  t.value.measure number t.operator

/-- Evaluates terms, given the values of numbers. -/
def numericEvaluator (number : Numeric → Except EvaluationError α) : Evaluator Id Term α :=
  numericEvaluatorOf (Term.measure number)

end Rules

/-! ### Units -/

/-- What relative lengths and percentages are relative to, in pixels. -/
structure ResolutionContext where
  fontSize : Float
  rootFontSize : Float
  viewportWidth : Float
  viewportHeight : Float
  /-- The length of a hundred percent. -/
  percentBase : Option Float

namespace ResolutionContext

/-- The size of text for which no size is given. -/
def defaultFontSize : Float := 16

/-- A viewport, with text of the default size. -/
def ofViewport (width height : Float) : ResolutionContext :=
  ⟨defaultFontSize, defaultFontSize, width, height, none⟩

/-- No viewport, with text of the default size. -/
def standard : ResolutionContext := ofViewport 0 0

/-- The smaller number; what is not a number is left out of account. -/
def smaller (a b : Float) : Float :=
  if b < a then b else if a.isNaN then b else a

/-- The larger number; what is not a number is left out of account. -/
def larger (a b : Float) : Float :=
  if a < b then b else if a.isNaN then b else a

/-- Half a turn in degrees over half a turn in radians. -/
def degreesPerRadian : Float := 180 / 3.141592653589793

/-- How many of the family's own unit go into one unit. -/
def factor (context : ResolutionContext) : DimensionUnit → Float
  | .px => 1
  | .inch => 96
  | .cm => 96 / 2.54
  | .mm => 96 / 25.4
  | .q => 96 / 101.6
  | .pt => 96 / 72
  | .pc => 16
  | .em => context.fontSize
  | .rem => context.rootFontSize
  | .ex | .ch => context.fontSize * 0.5
  | .vw => context.viewportWidth / 100
  | .vh => context.viewportHeight / 100
  | .vmin => smaller context.viewportWidth context.viewportHeight / 100
  | .vmax => larger context.viewportWidth context.viewportHeight / 100
  | .deg => 1
  | .rad => degreesPerRadian
  | .grad => 0.9
  | .turn => 360
  | .s => 1000
  | .ms => 1
  | .hz => 1
  | .khz => 1000
  | .dppx => 1
  | .dpi => 1 / 96
  | .dpcm => 2.54 / 96

/-- The value of a number in its family's own unit. -/
def canonical (context : ResolutionContext) (n : Numeric) : Except EvaluationError Float :=
  let value := Number.widen n.value
  if n.kind = .percent then
    match context.percentBase with
    | some base => .ok (value / 100 * base)
    | none => .error (.noPercentBase n.text)
  else
    match n.unit with
    | some unit => .ok (value * context.factor unit)
    | none => .ok value

end ResolutionContext

/-- Evaluates terms in double precision. -/
def doubleEvaluator (context : ResolutionContext) : Evaluator Id Term Float :=
  numericEvaluator context.canonical

/-- Evaluates terms in single precision: every operand, a whole nested expression among them, and
every operation is worked out in double precision and then rounded. -/
def singleEvaluator (context : ResolutionContext) : Evaluator Id Term Float32 where
  argument term := Number.narrow <$> (doubleEvaluator context).argument term
  unary op value := Number.narrow <$> (doubleEvaluator context).unary op (Number.widen value)
  binary op left right :=
    Number.narrow <$> (doubleEvaluator context).binary op (Number.widen left) (Number.widen right)

end CssModel
