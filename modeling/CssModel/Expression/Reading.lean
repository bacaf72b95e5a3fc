import CssModel.Recording
import CssModel.Term.Printer

/-!
# Reading expressions

The arguments of `calc()` come as they are written, with operators between their operands and
round brackets as single characters. They are read from left to right into postfix order: an
operand is put out at once, an operator waits on a stack until what binds more strongly is out, and
a closing bracket puts out what waits since its opening bracket. Where an operand is expected, a
plus sign is dropped and a minus sign is a negation.

Reading folds the families and the integrality of the operands on its way. It stops at the first
problem; what has been put out by then is kept, and the expression is invalid.

## Main definitions

* `CssModel.Pending`, `CssModel.ExpressionReader`: the stack and the state of the reader
* `CssModel.ExpressionReader.step`: one argument
* `CssModel.arityProblem?`: whether every operator finds its operands
* `CssModel.Expression.ofTerms`: the expression, and the problem that makes it invalid
-/

namespace CssModel

/-- What waits on the stack of the reader. -/
inductive Pending
  | openBracket
  | operator (op : MathOperator)
  deriving DecidableEq, Repr

/-- The operator that a delimiter stands for between two operands. -/
def MathOperator.ofDelimiter? : Delimiter → Option MathOperator
  | .plus => some .add
  | .minus => some .subtract
  | .star => some .multiply
  | .slash => some .divide
  | .comma | .leftParen | .rightParen => none

/-- The operators on top of the stack for as long as `p` holds, and what is left. -/
def splitPending (p : MathOperator → Bool) : List Pending → List MathOperator × List Pending
  | .operator op :: rest =>
    if p op then
      let (ops, below) := splitPending p rest
      (op :: ops, below)
    else ([], .operator op :: rest)
  | stack => ([], stack)

/-- The state of the reader. -/
structure ExpressionReader where
  /-- What has been put out, in order. -/
  items : List (ExpressionItem Term)
  /-- What waits, the latest first. -/
  stack : List Pending
  /-- Whether an operand is expected, so that plus and minus are signs. -/
  signExpected : Bool
  family : UnitFamily
  integral : Bool

/-- What an operand brings into the expression: its family, and whether it is integral. Only a
plain number can fail to be integral. Nothing but numbers and valid expressions can be operands. -/
def Term.operandType? (t : Term) : Option (UnitFamily × Bool) :=
  match t.value with
  | .numeric n => some (n.kind.family, ! (n.kind = .number && ! n.isIntegral))
  | .calc e => if e.valid then some (e.family, e.integral) else none
  | _ => none

/-- The family of an expression with one more operand; plain numbers go with everything. -/
def UnitFamily.join? (held found : UnitFamily) : Option UnitFamily :=
  if found = .unitless then some held
  else if held = .unitless || held = found then some found
  else none

namespace ExpressionReader

/-- Nothing read yet. -/
def start : ExpressionReader :=
  ⟨[], [], true, .unitless, true⟩

/-- Puts out operators. -/
def emit (r : ExpressionReader) (ops : List MathOperator) (stack : List Pending) :
    ExpressionReader :=
  { r with items := r.items ++ ops.map .operator, stack }

/-- An operator: a sign where an operand is expected, else it waits, after those that bind at least
as strongly have been put out. -/
def operator (r : ExpressionReader) (op : MathOperator) :
    ExpressionReader × Option ExpressionProblem :=
  if r.signExpected then
    match op with
    | .subtract => ({ r with stack := .operator .negate :: r.stack }, none)
    | .add => (r, none)
    | _ => (r, some (.noLeftOperand op.text))
  else
    let (ops, below) := splitPending (fun top => op.priority ≤ top.priority) r.stack
    ({ r.emit ops (.operator op :: below) with signExpected := true }, none)

/-- A closing bracket puts out what waits since its opening bracket. -/
def closeBracket (r : ExpressionReader) : ExpressionReader × Option ExpressionProblem :=
  let (ops, below) := splitPending (fun _ => true) r.stack
  match below with
  | [] => (r.emit ops [], some .unbalancedClose)
  | _ :: rest => ({ r.emit ops rest with signExpected := false }, none)

/-- An operand is put out without its operator. -/
def operand (r : ExpressionReader) (t : Term) : ExpressionReader × Option ExpressionProblem :=
  match t.operandType? with
  | none => (r, some (.notNumeric (t.css .backslash)))
  | some (family, integral) =>
    let integral := r.integral && integral
    match r.family.join? family with
    | none => ({ r with integral }, some (.mixedFamilies r.family.text family.text))
    | some family =>
      ({ r with
          items := r.items ++ [.operand (t.withOperator none)]
          signExpected := false
          family
          integral }, none)

/-- One argument. -/
def step (r : ExpressionReader) (t : Term) : ExpressionReader × Option ExpressionProblem :=
  match t.delimiter? with
  | none => r.operand t
  | some d =>
    match MathOperator.ofDelimiter? d with
    | some op => r.operator op
    | none =>
      match d with
      | .leftParen =>
        ({ r with stack := .openBracket :: r.stack, signExpected := true }, none)
      | .rightParen => r.closeBracket
      | _ => (r, some (.notAllowed d.text))

/-- The arguments from left to right, up to the first problem. -/
def steps (r : ExpressionReader) : List Term → ExpressionReader × Option ExpressionProblem
  | [] => (r, none)
  | t :: rest =>
    match r.step t with
    | (next, none) => next.steps rest
    | (next, some problem) => (next, some problem)

/-- The end of the arguments puts out all that waits; no bracket may be open. -/
def finish (r : ExpressionReader) : ExpressionReader × Option ExpressionProblem :=
  let (ops, below) := splitPending (fun _ => true) r.stack
  (r.emit ops below, if below.isEmpty then none else some .unbalancedOpen)

end ExpressionReader

/-- Whether an operator lacks an operand, or values are left over, when `depth` values precede the
entries. -/
def arityProblem? {τ : Type} : Nat → List (ExpressionItem τ) → Option ExpressionProblem
  | depth, [] => if depth = 1 then none else some .notJoined
  | depth, .operand _ :: rest => arityProblem? (depth + 1) rest
  | depth, .operator op :: rest =>
    if op.isUnary then
      if depth = 0 then some (.noOperand op.text) else arityProblem? depth rest
    else if depth < 2 then some (.missingOperand op.text)
    else arityProblem? (depth - 1) rest

namespace Expression

/-- The reader after all arguments, and the first problem if there is one. -/
def readTerms (terms : List Term) : ExpressionReader × Option ExpressionProblem :=
  match ExpressionReader.start.steps terms with
  | (reader, some problem) => (reader, some problem)
  | (reader, none) =>
    match reader.finish with
    | (done, some problem) => (done, some problem)
    | (done, none) => (done, arityProblem? 0 done.items)

/-- What is wrong with the arguments. -/
def problem? (terms : List Term) : Option ExpressionProblem :=
  (readTerms terms).2

/-- The expression that the arguments give; it is invalid if there is a problem with them. -/
def ofTerms (terms : List Term) : Expression Term :=
  let (reader, problem) := readTerms terms
  ⟨reader.items, reader.family, reader.integral, problem.isNone⟩

/-- The expression of at least one argument. A problem is reported. -/
def make (terms : List Term) : Recording (Expression Term) :=
  if terms.isEmpty then Recording.reject .emptyExpression
  else do
    if let some problem := problem? terms then
      Recording.warn (.invalidExpression problem)
    return ofTerms terms

end Expression

end CssModel
