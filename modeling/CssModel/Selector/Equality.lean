import CssModel.Selector.Basic

/-!
# Equality of selectors

Two selectors are equal if they are built in the same way from the same parts.

## Main definitions

* `CssModel.SimpleSelector.same` decides equality, by `CssModel.SimpleSelector.same_iff`
-/

namespace CssModel

mutual

/-- Whether two simple selectors are the same. -/
def SimpleSelector.same : SimpleSelector → SimpleSelector → Bool
  | .tag a, .tag b => a == b
  | .className a, .className b => a == b
  | .idName a, .idName b => a == b
  | .attribute a, .attribute b => a == b
  | .pseudoClass a, .pseudoClass b => a == b
  | .negation ⟨c, as, i⟩, .negation ⟨d, bs, j⟩ => c == d && sameParts as bs && i == j
  | .pseudoElement a, .pseudoElement b => a == b
  | .node a i, .node b j => a == b && i == j
  | _, _ => false

/-- Whether two lists hold the same simple selectors in the same order. -/
def sameParts : List SimpleSelector → List SimpleSelector → Bool
  | [], [] => true
  | a :: as, b :: bs => a.same b && sameParts as bs
  | _, _ => false

end

mutual

theorem SimpleSelector.same_iff : ∀ a b : SimpleSelector, a.same b = true ↔ a = b
  | .tag _, b => by cases b <;> simp [SimpleSelector.same]
  | .className _, b => by cases b <;> simp [SimpleSelector.same]
  | .idName _, b => by cases b <;> simp [SimpleSelector.same]
  | .attribute _, b => by cases b <;> simp [SimpleSelector.same]
  | .pseudoClass _, b => by cases b <;> simp [SimpleSelector.same]
  | .negation ⟨c, as, i⟩, b => by
    cases b <;> simp [SimpleSelector.same]
    next s => cases s; simp [sameParts_iff as, and_assoc]
  | .pseudoElement _, b => by cases b <;> simp [SimpleSelector.same]
  | .node _ _, b => by cases b <;> simp [SimpleSelector.same]

theorem sameParts_iff : ∀ as bs : List SimpleSelector, sameParts as bs = true ↔ as = bs
  | [], bs => by cases bs <;> simp [sameParts]
  | a :: as, bs => by cases bs <;> simp [sameParts, a.same_iff, sameParts_iff as]

end

instance : DecidableEq SimpleSelector := fun a b => decidable_of_iff _ (a.same_iff b)

deriving instance DecidableEq for ComplexSelector

end CssModel
