import CssModel.Recording
import CssModel.Expression.Reading

/-!
# Functions and negated terms

A minus sign at the start of the arguments of a function, or after a comma, is no operator: it is
the sign of the argument after it. When a function is made, such a sign is folded into that
argument. A sign that has nothing to apply to is reported, stays where it is, and leaves the
function invalid.

## Main definitions

* `CssModel.Term.negated?`: a term with a minus sign in front
* `CssModel.FunctionCall.foldSigns`: the arguments with their signs folded
* `CssModel.FunctionCall.foldReporting`: the same with a report for every sign that is left
* `CssModel.FunctionCall.ofArgs`, `CssModel.FunctionCall.make`
* `CssModel.FunctionCall.groups`: the arguments between commas
-/

namespace CssModel

/-- The function with a minus sign in front of its name. -/
def FunctionCall.negated {τ : Type} (f : FunctionCall τ) : FunctionCall τ :=
  { f with name := "-" ++ f.name }

/-- The value with a minus sign in front, where it can take one: numbers are negated, names get a
hyphen. -/
def Value.negated? : Value → Option Value
  | .numeric n => n.negated?.map .numeric
  | .ident name => if name.isEmpty then none else some (.ident ("-" ++ name))
  | .call f => some (.call f.negated)
  | _ => none

/-- The term with a minus sign in front of its value; its operator stays. -/
def Term.negated? (t : Term) : Option Term :=
  t.value.negated?.map fun v => ⟨t.operator, v⟩

namespace FunctionCall

/-- Whether a minus sign stands where an argument has to start: first of all, or after a comma. -/
def isSign (first : Bool) (t : Term) : Bool :=
  t.delimiter? = some .minus && (first || t.operator = some .comma)

/-- The arguments with their signs folded, and whether every sign had something to apply to. The
negated argument takes over the operator of its sign. -/
def foldSigns : Bool → List Term → List Term × Bool
  | _, [] => ([], true)
  | first, t :: rest =>
    if isSign first t then
      match rest with
      | [] => ([t], false)
      | next :: rest' =>
        match next.negated? with
        | some negated =>
          let (folded, valid) := foldSigns false rest'
          (negated.withOperator t.operator :: folded, valid)
        | none => (t :: (foldSigns false (next :: rest')).1, false)
    else
      let (folded, valid) := foldSigns false rest
      (t :: folded, valid)

/-- The function of these arguments, with their signs folded. -/
def ofArgs (name : String) (args : List Term) : FunctionCall Term :=
  let (folded, valid) := foldSigns true args
  ⟨name, folded, valid⟩

/-- Folds the signs of the arguments, and reports every sign that has nothing to apply to where it
comes to it. -/
def foldReporting (name : String) : Bool → List Term → Recording (List Term × Bool)
  | _, [] => return ([], true)
  | first, t :: rest =>
    if isSign first t then
      match rest with
      | [] => do
        Recording.warn (.danglingSign name)
        return ([t], false)
      | next :: rest' =>
        match next.negated? with
        | some negated => do
          let (folded, valid) ← foldReporting name false rest'
          return (negated.withOperator t.operator :: folded, valid)
        | none => do
          Recording.warn (.danglingSign name)
          let (folded, _) ← foldReporting name false (next :: rest')
          return (t :: folded, false)
    else do
      let (folded, valid) ← foldReporting name false rest
      return (t :: folded, valid)

/-- The function of these arguments, with a name. Signs without an argument are reported. -/
def make (name : String) (args : List Term) : Recording (FunctionCall Term) :=
  if name.isEmpty then Recording.reject .emptyFunctionName
  else do
    let (folded, valid) ← foldReporting name true args
    return ⟨name, folded, valid⟩

/-- The arguments between commas: a new group starts with every argument after the first that
follows a comma. -/
def groups (f : FunctionCall Term) : List (List Term) :=
  f.args.splitBy fun _ next => next.operator ≠ some .comma

end FunctionCall

end CssModel
