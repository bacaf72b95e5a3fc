import CssModel.Data.Basic

/-!
# Origins and links

A style sheet has an origin, and the rules in it know which sheet they belong to and of which
origin it is.

## Main definitions

* `CssModel.Origin`, `CssModel.Origin.ofText?`
* `CssModel.SheetLink`
-/

namespace CssModel

/-- Who a style sheet comes from. -/
inductive Origin
  | author
  | agent
  | user
  deriving DecidableEq, Inhabited, Repr

namespace Origin

def all : List Origin := [.author, .agent, .user]

def text : Origin → String
  | .author => "author"
  | .agent => "user-agent"
  | .user => "user"

instance : ToString Origin := ⟨text⟩

/-- The origin of a text; letter case counts. -/
def ofText? (text : String) : Option Origin :=
  all.find? fun origin => origin.text == text

end Origin

instance : HasData Origin := .plain fun origin => .text origin.text

/-- What a rule knows of its style sheet. -/
structure SheetLink where
  /-- The number of the sheet; no two sheets share one. -/
  sheet : Nat
  origin : Origin
  deriving DecidableEq, Repr

end CssModel
