import CssModel.Proofs.Number.Comparison
import CssModel.Term.Equality

/-!
# Terms that are equal

Terms are compared part by part and their numbers by value. Were a number the negative zero, it
would be equal to one that is written, and hashed, in another way; were it not a number, it would
not even be equal to itself. Neither can be made: a number comes from a whole one or from a checked
value, and each of its edits is checked again.

## Main definitions

* `CssModel.Numeric.Made`: what the operations on numbers can come to

## Main results

* `CssModel.Numeric.Made.ordinary`
* `CssModel.Term.beq_iff_eq`: terms of made numbers are equal only to themselves
-/

namespace CssModel

namespace Numeric

/-- What is left when a check has passed. -/
theorem exists_of_bind_eq_ok {α β : Type} {x : Except Failure α} {f : α → Except Failure β} {b : β}
    (h : x >>= f = .ok b) : ∃ a, x = .ok a ∧ f a = .ok b := by
  cases x with
  | error failure => cases h
  | ok a => exact ⟨a, rfl, h⟩

/-- The numbers that can be made. -/
inductive Made : Numeric → Prop
  | ofInt (value : Int32) : Made (ofInt value)
  | make {kind : NumericKind} {value : Float32} {unit : Option DimensionUnit} {n : Numeric}
      (h : make kind value unit = .ok n) : Made n
  | apply {n n' : Numeric} {e : Edit} (hn : Made n) (h : n.apply e = .ok n') : Made n'

theorem ordinary_dropZeroSign {value : Float32} (h : value.isFinite = true) :
    Number.Ordinary (dropZeroSign value) := by
  rw [dropZeroSign]
  split
  · exact ⟨by simp [Number.unpack_zero], by simp [Number.unpack_zero]⟩
  · next hne =>
    refine ⟨fun hnan => ?_, fun hzero => hne (Number.beq_zero_of_unpack_eq_zero hzero)⟩
    rw [Float32.isFinite, Float32.Model.isFinite, hnan] at h
    exact absurd h (by decide)

theorem isFinite_of_checkValue {kind : NumericKind} {value : Float32} {u : PUnit}
    (h : checkValue kind value = .ok u) : value.isFinite = true := by
  rw [checkValue] at h
  split at h
  · cases h
  · next hfinite => simpa using hfinite

theorem ordinary_of_withValue {n n' : Numeric} {value : Float32} (h : n.withValue value = .ok n') :
    Number.Ordinary n'.value := by
  rw [withValue] at h
  obtain ⟨u, hcheck, hdone⟩ := exists_of_bind_eq_ok h
  cases hdone
  exact ordinary_dropZeroSign (isFinite_of_checkValue hcheck)

theorem value_of_withUnit {n n' : Numeric} {unit : Option DimensionUnit}
    (h : n.withUnit unit = .ok n') : n'.value = n.value := by
  rw [withUnit] at h
  obtain ⟨u, -, hdone⟩ := exists_of_bind_eq_ok h
  cases hdone
  rfl

/-- **No operation makes a number that is odd to compare.** -/
theorem Made.ordinary {n : Numeric} (h : n.Made) : Number.Ordinary n.value := by
  induction h with
  | ofInt value => exact Number.ordinary_nearest32_intCast value.toInt
  | @make kind value unit n h =>
    rw [Numeric.make] at h
    obtain ⟨u, -, hvalue⟩ := exists_of_bind_eq_ok h
    exact ordinary_of_withValue hvalue
  | @apply n n' e hn h ih =>
    cases e with
    | setValue value => exact ordinary_of_withValue h
    | setUnit unit =>
      rw [value_of_withUnit h]
      exact ih

theorem beq_iff_eq {n m : Numeric} (hn : n.Made) (hm : m.Made) : (n == m) = true ↔ n = m := by
  obtain ⟨kind, value, unit⟩ := n
  obtain ⟨kind', value', unit'⟩ := m
  change (kind == kind' && value == value' && unit == unit') = true ↔ _
  simp [hn.ordinary.beq_iff_eq hm.ordinary, and_assoc]

end Numeric

/-- All numbers in a list are ones that can be made. -/
abbrev NumbersMade (numbers : List Numeric) : Prop :=
  ∀ n ∈ numbers, n.Made

/-- **Terms of made numbers are equal only to themselves.** -/
theorem Term.beq_iff_eq {t t' : Term} (ht : NumbersMade t.value.numbers)
    (ht' : NumbersMade t'.value.numbers) : (t == t') = true ↔ t = t' := by
  obtain ⟨o, v⟩ := t
  obtain ⟨o', v'⟩ := t'
  change (o == o' && v.sameBy (· == ·) v') = true ↔ _
  have hv : v.sameBy (· == ·) v' = true ↔ v = v' :=
    Value.sameBy_iff (P := Numeric.Made) (fun hn hm => Numeric.beq_iff_eq hn hm) v v' ht ht'
  simp [hv]

end CssModel
