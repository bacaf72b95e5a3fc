import CssModel.Data.Term
import CssModel.Term.Equality
import CssModel.Term.Printer

/-!
# Media queries

A media query names a sort of device and tests its features. Names of types and features are held
in lower case.

## Main definitions

* `CssModel.MediaExpression`, `CssModel.MediaExpression.make`: the test of a feature
* `CssModel.MediaQuery`, `CssModel.MediaQuery.make`, `CssModel.MediaQuery.text`
-/

namespace CssModel

/-- A feature, and the value asked for; without a value the feature only has to be there. -/
structure MediaExpression where
  feature : String
  terms : List Term
  deriving DecidableEq

instance : BEq MediaExpression := ⟨fun a b => a.feature == b.feature && a.terms == b.terms⟩

namespace MediaExpression

/-- The test of a feature. -/
def make (feature : String) (terms : List Term) : Except Failure MediaExpression :=
  if feature.isEmpty then .error (.invalidArgument .emptyMediaFeature)
  else .ok ⟨Ascii.lower feature, terms⟩

/-- The test as it is written. -/
def text (e : MediaExpression) : String :=
  "(" ++ e.feature ++
    (if e.terms.isEmpty then "" else ": " ++ argumentsCss .backslash e.terms) ++ ")"

end MediaExpression

/-- The word in front of a media query. -/
inductive MediaQualifier
  /-- The query holds where it would not. -/
  | not
  /-- Hides the query from those who do not know it. -/
  | only
  deriving DecidableEq, Repr

namespace MediaQualifier

def text : MediaQualifier → String
  | .not => "not"
  | .only => "only"

def ofText? (text : String) : Option MediaQualifier :=
  [.not, .only].find? fun (q : MediaQualifier) => q.text == text

end MediaQualifier

/-- A sort of device with tests of its features. -/
structure MediaQuery where
  qualifier : Option MediaQualifier
  mediaType : Option String
  expressions : List MediaExpression
  deriving DecidableEq

instance : BEq MediaQuery :=
  ⟨fun a b => a.qualifier == b.qualifier && a.mediaType == b.mediaType &&
    a.expressions == b.expressions⟩

namespace MediaQuery

/-- A query for a type. -/
def make (qualifier : Option MediaQualifier) (mediaType : Option String)
    (expressions : List MediaExpression) : MediaQuery :=
  ⟨qualifier, mediaType.map Ascii.lower, expressions⟩

def isNegated (q : MediaQuery) : Bool :=
  q.qualifier = some .not

/-- The qualifier and the type. -/
def front (q : MediaQuery) : String :=
  " ".intercalate ((q.qualifier.map MediaQualifier.text).toList ++ q.mediaType.toList)

/-- The query as it is written: all parts are joined by `and`. -/
def text (q : MediaQuery) : String :=
  let front := if q.front.isEmpty then [] else [q.front]
  " and ".intercalate (front ++ q.expressions.map MediaExpression.text)

instance : ToString MediaQuery := ⟨text⟩

end MediaQuery

instance : HasData MediaExpression where
  form p e := .record [("feature", form p e.feature), ("terms", form p e.terms)]

instance : HasData MediaQualifier := .plain fun
  | .not => .text "Not"
  | .only => .text "Only"

instance : HasData MediaQuery where
  form p q := .record [("qualifier", form p q.qualifier), ("media_type", form p q.mediaType),
    ("expressions", form p q.expressions)]

end CssModel
