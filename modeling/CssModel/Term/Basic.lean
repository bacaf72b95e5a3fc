import CssModel.Color.Keyword
import CssModel.Term.Numeric
import CssModel.Url

/-!
# Terms

The value of a property is a list of terms. A term is a value and the operator that joins it to the
term before: in `a, b` the second term is `b` with a comma. Some values hold terms again: functions,
lists, pairs and `calc()` expressions.

`FunctionCall` and `Expression` are given over any type of term, so that their operations can be
stated without the recursion.

## Main definitions

* `CssModel.JoinOperator`, `CssModel.Delimiter`
* `CssModel.FunctionCall`, `CssModel.Expression`: values that hold terms
* `CssModel.Value`, `CssModel.Term`
-/

namespace CssModel

/-- How a term is joined to the term before it. -/
inductive JoinOperator
  | space
  | comma
  | slash
  | plus
  | minus
  | multiply
  deriving DecidableEq, Repr

/-- Every operator. -/
def JoinOperator.all : List JoinOperator :=
  [.space, .comma, .slash, .plus, .minus, .multiply]

def JoinOperator.name : JoinOperator → String
  | .space => "space"
  | .comma => "comma"
  | .slash => "slash"
  | .plus => "plus"
  | .minus => "minus"
  | .multiply => "multiply"

/-- The text in front of the term. -/
def JoinOperator.text : JoinOperator → String
  | .space => " "
  | .comma => ", "
  | .slash => "/"
  | .plus => "+"
  | .minus => "-"
  | .multiply => "*"

/-- A character left standing alone among terms. -/
inductive Delimiter
  | plus
  | minus
  | star
  | slash
  | comma
  | leftParen
  | rightParen
  deriving DecidableEq, Repr

def Delimiter.char : Delimiter → Char
  | .plus => '+'
  | .minus => '-'
  | .star => '*'
  | .slash => '/'
  | .comma => ','
  | .leftParen => '('
  | .rightParen => ')'

def Delimiter.text (d : Delimiter) : String :=
  String.singleton d.char

instance : ToString Delimiter := ⟨Delimiter.text⟩

/-- Every delimiter. -/
def Delimiter.all : List Delimiter :=
  [.plus, .minus, .star, .slash, .comma, .leftParen, .rightParen]

/-- A value with the operator in front of it. -/
structure Joined (α : Type) where
  operator : Option JoinOperator
  value : α
  deriving DecidableEq, Repr

instance {α : Type} [BEq α] : BEq (Joined α) :=
  ⟨fun a b => a.operator == b.operator && a.value == b.value⟩

/-- A reference to a resource, with the address of the style sheet it stands in. -/
structure Uri where
  reference : String
  base : Option String
  deriving DecidableEq, Repr

/-- The address that the reference stands for. -/
def Uri.resolved (u : Uri) : String :=
  Url.resolve u.reference u.base

/-- The edges of a rectangle; a missing edge is `auto`. -/
structure Rectangle where
  top : Option Numeric
  right : Option Numeric
  bottom : Option Numeric
  left : Option Numeric
  deriving DecidableEq, Repr

namespace Rectangle

/-- The edges in the order they are written. -/
def edges (r : Rectangle) : List (Option Numeric) :=
  [r.top, r.right, r.bottom, r.left]

/-- The rectangle of these edges; what is not listed is `auto`. -/
def ofEdges (edges : List (Option Numeric)) : Rectangle :=
  ⟨(edges[0]?).join, (edges[1]?).join, (edges[2]?).join, (edges[3]?).join⟩

/-- The first edge that is neither a length nor a plain zero. -/
def badEdge? (r : Rectangle) : Option Numeric :=
  r.edges.findSome? fun edge =>
    edge.bind fun n => if n.kind = .length || n.isPlainZero then none else some n

/-- The rectangle, if every edge is a length; zero needs no unit. -/
def check (r : Rectangle) : Except Failure Rectangle :=
  match r.badEdge? with
  | some n => .error (.invalidArgument (.rectEdge n.text))
  | none => .ok r

def edgeText : Option Numeric → String
  | some n => n.text
  | none => "auto"

/-- The rectangle as it is written. -/
def text (r : Rectangle) : String :=
  "rect(" ++ ", ".intercalate (r.edges.map edgeText) ++ ")"

end Rectangle

/-- A function with its arguments. They are held in one list: the operator of each says how it
follows the one before. -/
structure FunctionCall (τ : Type) where
  name : String
  args : List τ
  /-- Whether the arguments are well formed. -/
  valid : Bool
  deriving DecidableEq, Repr

/-- An operator of an expression. -/
inductive MathOperator
  | add
  | subtract
  | multiply
  | divide
  /-- The sign in front of an operand. -/
  | negate
  deriving DecidableEq, Repr

namespace MathOperator

/-- The operator as it is written; a tilde keeps the sign apart from subtraction. -/
def text : MathOperator → String
  | .add => "+"
  | .subtract => "-"
  | .multiply => "*"
  | .divide => "/"
  | .negate => "~"

/-- Every operator. -/
def all : List MathOperator :=
  [.add, .subtract, .multiply, .divide, .negate]

/-- How strongly the operator binds. -/
def priority : MathOperator → Nat
  | .add | .subtract => 0
  | .multiply | .divide => 1
  | .negate => 2

/-- Whether the operator takes one operand. -/
def isUnary : MathOperator → Bool
  | .negate => true
  | _ => false

end MathOperator

/-- An entry of an expression in postfix order. -/
inductive ExpressionItem (τ : Type)
  | operand (term : τ)
  | operator (op : MathOperator)
  deriving DecidableEq, Repr

/-- The argument of `calc()`, read into postfix order: each operator stands after its operands. -/
structure Expression (τ : Type) where
  items : List (ExpressionItem τ)
  /-- The quantity that the expression measures. -/
  family : UnitFamily
  /-- Whether no operand is a plain number with a fractional part. -/
  integral : Bool
  /-- Whether the expression may be evaluated. -/
  valid : Bool
  deriving DecidableEq, Repr

/-- The kind of number that the expression gives. -/
def Expression.kind {τ : Type} (e : Expression τ) : NumericKind :=
  match e.family with
  | .unitless => if e.integral then .integer else .number
  | .length => .length
  | .angle => .angle
  | .time => .time
  | .frequency => .frequency
  | .resolution => .resolution

/-- What a term holds. Texts are held without escapes. -/
inductive Value
  | numeric (n : Numeric)
  | color (c : ColorValue)
  | string (text : String)
  | ident (name : String)
  | uri (u : Uri)
  | call (f : FunctionCall (Joined Value))
  | list (terms : List (Joined Value))
  | rect (r : Rectangle)
  | pair (key : String) (term : Joined Value)
  /-- A range of code points, as it is written. -/
  | unicodeRange (text : String)
  /-- Names between square brackets. -/
  | brackets (names : List String)
  | calc (e : Expression (Joined Value))
  | delimiter (d : Delimiter)

/-- A value with the operator in front of it. -/
abbrev Term := Joined Value

instance : Inhabited Value := ⟨.delimiter .comma⟩

namespace Term

/-- A term with nothing in front of it. -/
def ofValue (v : Value) : Term := ⟨none, v⟩

/-- The same value with another operator in front. -/
def withOperator (t : Term) (operator : Option JoinOperator) : Term :=
  { t with operator }

def numeric? (t : Term) : Option Numeric :=
  match t.value with
  | .numeric n => some n
  | _ => none

def ident? (t : Term) : Option String :=
  match t.value with
  | .ident name => some name
  | _ => none

def string? (t : Term) : Option String :=
  match t.value with
  | .string text => some text
  | _ => none

def uri? (t : Term) : Option Uri :=
  match t.value with
  | .uri u => some u
  | _ => none

def call? (t : Term) : Option (FunctionCall Term) :=
  match t.value with
  | .call f => some f
  | _ => none

def calc? (t : Term) : Option (Expression Term) :=
  match t.value with
  | .calc e => some e
  | _ => none

def unicodeRange? (t : Term) : Option String :=
  match t.value with
  | .unicodeRange text => some text
  | _ => none

def delimiter? (t : Term) : Option Delimiter :=
  match t.value with
  | .delimiter d => some d
  | _ => none

end Term

mutual

/-- Whether a value may be used. Lists and pairs need every term in them to be valid. -/
def Value.valid : Value → Bool
  | .call f => f.valid
  | .calc e => e.valid
  | .list terms => validTerms terms
  | .pair _ ⟨_, v⟩ => v.valid
  | _ => true

/-- Whether all terms may be used. -/
def validTerms : List (Joined Value) → Bool
  | [] => true
  | ⟨_, v⟩ :: rest => v.valid && validTerms rest

end

/-- Whether a term may be used; what is invalid counts as absent. -/
def Term.valid (t : Term) : Bool :=
  t.value.valid

end CssModel
