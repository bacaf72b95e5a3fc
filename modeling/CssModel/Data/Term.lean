import CssModel.Data.Basic
import CssModel.Term.Basic

/-!
# The structured form of terms

Each type of value is a case of a choice. Single precision numbers are exchanged by their shortest
text and hashed by their bits.

## Main definitions

* `CssModel.Value.form`, and the instances of `CssModel.HasData` for terms and what they hold
-/

namespace CssModel

instance : HasData DimensionUnit := .plain fun unit => .text (Ascii.lower unit.text)

instance : HasData UnitFamily := .plain fun
  | .unitless => .text "Unitless"
  | .length => .text "Length"
  | .angle => .text "Angle"
  | .time => .text "Time"
  | .frequency => .text "Frequency"
  | .resolution => .text "Resolution"

instance : HasData NumericKind := .plain fun
  | .integer => .text "Integer"
  | .number => .text "Number"
  | .percent => .text "Percent"
  | .length => .text "Length"
  | .angle => .text "Angle"
  | .time => .text "Time"
  | .frequency => .text "Frequency"
  | .resolution => .text "Resolution"

instance : HasData Float32 where
  form
    | .exchange, x => .text (Number.text x)
    | .hashing, x => .int x.toBits.toNat

instance : HasData UInt8 := .plain fun n => .int n.toNat

instance : HasData Numeric where
  form p n := .record [("kind", form p n.kind), ("value", form p n.value), ("unit", form p n.unit)]

instance : HasData JoinOperator := .plain fun
  | .space => .text "Space"
  | .comma => .text "Comma"
  | .slash => .text "Slash"
  | .plus => .text "Plus"
  | .minus => .text "Minus"
  | .multiply => .text "Multiply"

instance : HasData Delimiter := .plain fun
  | .plus => .text "Plus"
  | .minus => .text "Minus"
  | .star => .text "Star"
  | .slash => .text "Slash"
  | .comma => .text "Comma"
  | .leftParen => .text "LeftParen"
  | .rightParen => .text "RightParen"

instance : HasData MathOperator := .plain fun
  | .add => .text "Add"
  | .subtract => .text "Subtract"
  | .multiply => .text "Multiply"
  | .divide => .text "Divide"
  | .negate => .text "Negate"

instance : HasData Color where
  form p c := .record
    [("r", form p c.red), ("g", form p c.green), ("b", form p c.blue), ("a", form p c.alpha)]

instance : HasData ColorKeyword := .plain fun
  | .transparent => .text "Transparent"
  | .currentColor => .text "CurrentColor"

instance : HasData ColorValue where
  form p v := .record [("color", form p v.color), ("keyword", form p v.keyword)]

instance : HasData Uri where
  form p u := .record [("value", form p u.reference), ("base", form p u.base)]

instance : HasData Rectangle where
  form p r := .record [("edges", form p r.edges)]

section

variable (p : Purpose)

/-- The structured form of a function, given that of its arguments. -/
def callForm (name : String) (args : List Data) (valid : Bool) : Data :=
  .record [("name", form p name), ("args", .list args), ("valid", form p valid)]

/-- The structured form of an expression, given that of its entries. -/
def expressionForm (items : List Data) (family : UnitFamily) (integral valid : Bool) : Data :=
  .record [("items", .list items), ("term_type", form p family), ("is_integer", form p integral),
    ("valid", form p valid)]

/-- The structured form of a term, given that of its value. -/
def joinedForm (operator : Option JoinOperator) (value : Data) : Data :=
  .record [("operator", form p operator), ("value", value)]

mutual

/-- The structured form of a value. -/
def Value.form : Value → Data
  | .numeric n => .variant "Numeric" (HasData.form p n)
  | .color c => .variant "Color" (HasData.form p c)
  | .string text => .variant "String" (.text text)
  | .ident name => .variant "Ident" (.text name)
  | .uri u => .variant "Uri" (HasData.form p u)
  | .call ⟨name, args, valid⟩ => .variant "Function" (callForm p name (termsForm args) valid)
  | .list terms => .variant "List" (.list (termsForm terms))
  | .rect r => .variant "Rect" (HasData.form p r)
  | .pair key ⟨operator, v⟩ =>
    .variant "Pair" (.record [("key", .text key), ("value", joinedForm p operator v.form)])
  | .unicodeRange text => .variant "UnicodeRange" (.text text)
  | .brackets names => .variant "BracketedIdents" (HasData.form p names)
  | .calc ⟨items, family, integral, valid⟩ =>
    .variant "Calc"
      (.record [("args", expressionForm p (itemsForm items) family integral valid)])
  | .delimiter d => .variant "Delim" (HasData.form p d)

/-- The structured forms of terms. -/
def termsForm : List (Joined Value) → List Data
  | [] => []
  | ⟨operator, v⟩ :: rest => joinedForm p operator v.form :: termsForm rest

/-- The structured forms of the entries of an expression. -/
def itemsForm : List (ExpressionItem (Joined Value)) → List Data
  | [] => []
  | .operand ⟨operator, v⟩ :: rest =>
    .variant "Operand" (joinedForm p operator v.form) :: itemsForm rest
  | .operator op :: rest => .variant "Operator" (HasData.form p op) :: itemsForm rest

end

end

instance : HasData Term := ⟨fun p t => joinedForm p t.operator (t.value.form p)⟩

end CssModel
