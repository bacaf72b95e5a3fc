/-!
# Structured data

Terms, selectors and rules have a structured form, made of texts, whole numbers, lists and records.
It is made for one of two purposes. What is exchanged is what a reader needs, with numbers as they
are written. What is hashed is all that equality looks at, field by field: numbers are given by
their bits, and what follows from other fields is there all the same.

## Main definitions

* `CssModel.Data`, with decidable equality
* `CssModel.Data.variant`: one case of a choice
* `CssModel.Purpose`, `CssModel.HasData`: the types with a structured form
* `CssModel.data`: the form for exchange
-/

namespace CssModel

/-- Structured data. -/
inductive Data
  | null
  | bool (b : Bool)
  | int (n : Int)
  | text (s : String)
  | list (items : List Data)
  | record (fields : List (String × Data))

namespace Data

mutual

/-- Whether two structures are the same. -/
def same : Data → Data → Bool
  | null, null => true
  | bool a, bool b => a == b
  | int a, int b => a == b
  | text a, text b => a == b
  | list as, list bs => sameItems as bs
  | record as, record bs => sameFields as bs
  | _, _ => false

/-- Whether two lists hold the same structures in the same order. -/
def sameItems : List Data → List Data → Bool
  | [], [] => true
  | a :: as, b :: bs => same a b && sameItems as bs
  | _, _ => false

/-- Whether two lists hold the same fields in the same order. -/
def sameFields : List (String × Data) → List (String × Data) → Bool
  | [], [] => true
  | (k, a) :: as, (l, b) :: bs => k == l && same a b && sameFields as bs
  | _, _ => false

end

mutual

theorem same_iff : ∀ a b : Data, same a b = true ↔ a = b
  | null, b => by cases b <;> simp [same]
  | bool a, b => by cases b <;> simp [same]
  | int a, b => by cases b <;> simp [same]
  | text a, b => by cases b <;> simp [same]
  | list as, b => by cases b <;> simp [same, sameItems_iff as]
  | record as, b => by cases b <;> simp [same, sameFields_iff as]

theorem sameItems_iff : ∀ as bs : List Data, sameItems as bs = true ↔ as = bs
  | [], bs => by cases bs <;> simp [sameItems]
  | a :: as, bs => by cases bs <;> simp [sameItems, same_iff a, sameItems_iff as]

theorem sameFields_iff : ∀ as bs : List (String × Data), sameFields as bs = true ↔ as = bs
  | [], bs => by cases bs <;> simp [sameFields]
  | (k, a) :: as, bs => by
    cases bs with
    | nil => simp [sameFields]
    | cons b bs => simp [sameFields, same_iff a, sameFields_iff as, Prod.ext_iff]

end

instance : DecidableEq Data := fun a b => decidable_of_iff _ (same_iff a b)

/-- One case of a choice, with what belongs to it. -/
def variant (name : String) (payload : Data) : Data :=
  record [(name, payload)]

/-- What may be missing. -/
def optional {α : Type} (f : α → Data) : Option α → Data
  | none => null
  | some a => f a

end Data

/-- What a structured form is made for. -/
inductive Purpose
  | exchange
  | hashing

/-- Types whose values have a structured form. -/
class HasData (α : Type) where
  /-- The structured form of a value, made for a purpose. -/
  form : Purpose → α → Data

export HasData (form)

/-- A structured form that is the same for every purpose. -/
abbrev HasData.plain {α : Type} (f : α → Data) : HasData α := ⟨fun _ => f⟩

/-- The form in which a value is exchanged. -/
def data {α : Type} [HasData α] (a : α) : Data :=
  form .exchange a

instance : HasData String := .plain .text

instance : HasData Bool := .plain .bool

instance : HasData Nat := .plain fun n => .int n

instance {α : Type} [HasData α] : HasData (Option α) := ⟨fun p => Data.optional (form p)⟩

instance {α : Type} [HasData α] : HasData (List α) := ⟨fun p as => .list (as.map (form p))⟩

end CssModel
