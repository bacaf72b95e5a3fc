import CssModel.Term.Printer

/-!
# Tracing evaluators

An evaluator that computes nothing: it numbers the calls that are made of it and writes down what
each was asked. The value of a call is its number, so that the log of an evaluation shows which
result goes where. It can be told to fail at one of the calls.

## Main definitions

* `CssModel.TraceLog`, `CssModel.tracingEvaluator`
* `CssModel.Expression.trace`: the outcome of an evaluation, with the log
-/

namespace CssModel

/-- The calls so far, the latest last. -/
abbrev TraceLog := List String

/-- The next call: calls are counted from zero, values from one. -/
def traced (failAt : Option Nat) (call : String) :
    ExceptT EvaluationError (StateM TraceLog) Nat := do
  let log ← getThe TraceLog
  set (log ++ [call])
  if failAt = some log.length then
    throw (.reported ("failed at call " ++ log.length.repr))
  return log.length + 1

/-- The evaluator that numbers its calls. -/
def tracingEvaluator (failAt : Option Nat) : Evaluator (StateM TraceLog) Term Nat where
  argument term := traced failAt ("arg " ++ term.css .backslash)
  unary op value := traced failAt (op.text ++ " " ++ value.repr)
  binary op left right := traced failAt (left.repr ++ " " ++ op.text ++ " " ++ right.repr)

/-- The outcome of a traced evaluation, and all calls that were made. -/
def Expression.trace (e : Expression Term) (failAt : Option Nat) : Except Failure Nat × TraceLog :=
  (e.evaluate (tracingEvaluator failAt)).run.run []

end CssModel
