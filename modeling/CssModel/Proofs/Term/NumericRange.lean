import CssModel.Proofs.Number.Finite
import CssModel.Proofs.Term.Likeness

/-!
# The numbers that terms can hold

A number has a finite value without a signed zero, a time or a frequency is not below zero, and a
unit belongs to the family of the kind. All of it is checked on the way in: where a number is made,
where its value or its unit is changed, and where it is negated. Only a number made of an integer
is not checked, since 32 bits are too few to be rounded to anything infinite.

As with containers, a change is performed here step by step, in a state that outlives a failure: the
check comes first, so that a change that fails leaves the number as it was.

## Main definitions

* `CssModel.Numeric.InRange`: what holds of every number
* `CssModel.Numeric.ForbidsValue`, `CssModel.Numeric.ForbidsUnit`: what a kind cannot have
* `CssModel.Numeric.perform`: an edit, step by step
* `CssModel.Numeric.Reached`: what calls of all sorts lead to

## Main results

* `CssModel.Numeric.checkValue_eq_error_iff`, `CssModel.Numeric.checkUnit_eq_error_iff`
* `CssModel.Numeric.run_perform`
* `CssModel.Numeric.Made.inRange`
* `CssModel.Numeric.inRange_of_reached`
-/

namespace CssModel.Numeric

open Number (exact32)

/-- What holds of a number, whatever was done to it. -/
structure InRange (n : Numeric) : Prop where
  isFinite : n.value.isFinite = true
  ne_negativeZero : n.value.toModel.unpack ≠ .zero .negative
  nonneg : n.kind = .time ∨ n.kind = .frequency → 0 ≤ exact32 n.value
  unitFamily : ∀ unit ∈ n.unit, n.kind.unitFamily? = some unit.family

/-- A number of the kind cannot have the value. -/
def ForbidsValue (kind : NumericKind) (value : Float32) : Prop :=
  value.isNaN = true ∨ value.isInf = true ∨
    (kind = .time ∨ kind = .frequency) ∧ exact32 value < 0

/-- A number of the kind cannot have the unit. -/
def ForbidsUnit (kind : NumericKind) (unit : Option DimensionUnit) : Prop :=
  ∃ u, unit = some u ∧ kind.unitFamily? ≠ some u.family

section Checks

variable {kind : NumericKind} {value : Float32} {unit : Option DimensionUnit}

theorem rejectsNegative_iff : kind.rejectsNegative = true ↔ kind = .time ∨ kind = .frequency := by
  cases kind <;> decide

/-- **The check of a value refuses exactly what the kind forbids.** -/
theorem checkValue_eq_error_iff :
    (∃ failure, checkValue kind value = .error failure) ↔ ForbidsValue kind value := by
  rw [checkValue, ForbidsValue]
  cases hfinite : value.isFinite with
  | false =>
    have hodd := Number.isFinite_eq_false_iff.mp hfinite
    exact iff_of_true ⟨_, rfl⟩ (hodd.imp_right .inl)
  | true =>
    have hnan : ¬ (value.isNaN = true ∨ value.isInf = true) := by
      rw [← Number.isFinite_eq_false_iff, hfinite]
      simp
    rw [← or_assoc, or_iff_right hnan, ← rejectsNegative_iff, ← Number.lt_zero_iff hfinite]
    by_cases hbelow : kind.rejectsNegative = true ∧ value < 0
    · simp [hbelow]
    · simp [hbelow]

/-- **The check of a unit refuses exactly what the kind forbids.** -/
theorem checkUnit_eq_error_iff :
    (∃ failure, checkUnit kind unit = .error failure) ↔ ForbidsUnit kind unit := by
  cases unit with
  | none => simp [checkUnit, ForbidsUnit]
  | some u =>
    by_cases hfamily : kind.unitFamily? = some u.family
    · simp [checkUnit, ForbidsUnit, hfamily]
    · simp [checkUnit, ForbidsUnit, hfamily]

theorem not_forbidsValue {u : PUnit} (h : checkValue kind value = .ok u) :
    ¬ ForbidsValue kind value := by
  rw [← checkValue_eq_error_iff, h]
  simp

theorem not_forbidsUnit {u : PUnit} (h : checkUnit kind unit = .ok u) :
    ¬ ForbidsUnit kind unit := by
  rw [← checkUnit_eq_error_iff, h]
  simp

/-- The sign that is dropped does not count. -/
theorem exact32_dropZeroSign (value : Float32) : exact32 (dropZeroSign value) = exact32 value := by
  rw [dropZeroSign]
  split
  · next hzero =>
    obtain ⟨s, hs⟩ := Number.eq_zero_of_beq_zero hzero
    rw [exact32, exact32, hs]
    rfl
  · rfl

theorem isFinite_dropZeroSign (h : value.isFinite = true) :
    (dropZeroSign value).isFinite = true := by
  rw [dropZeroSign]
  split
  · rfl
  · exact h

end Checks

/-! ### Numbers that are made -/

section Made

variable {n n' : Numeric}

theorem eq_of_withValue {value : Float32} (h : n.withValue value = .ok n') :
    checkValue n.kind value = .ok ⟨⟩ ∧ n' = { n with value := dropZeroSign value } := by
  rw [withValue] at h
  obtain ⟨u, hcheck, hdone⟩ := exists_of_bind_eq_ok h
  cases hdone
  exact ⟨hcheck, rfl⟩

theorem eq_of_withUnit {unit : Option DimensionUnit} (h : n.withUnit unit = .ok n') :
    checkUnit n.kind unit = .ok ⟨⟩ ∧ n' = { n with unit } := by
  rw [withUnit] at h
  obtain ⟨u, hcheck, hdone⟩ := exists_of_bind_eq_ok h
  cases hdone
  exact ⟨hcheck, rfl⟩

/-- A new value is in range if the unit is. -/
theorem inRange_of_withValue {value : Float32} (h : n.withValue value = .ok n')
    (hunit : ∀ unit ∈ n.unit, n.kind.unitFamily? = some unit.family) : n'.InRange := by
  obtain ⟨hcheck, rfl⟩ := eq_of_withValue h
  have hfinite := isFinite_of_checkValue hcheck
  refine ⟨isFinite_dropZeroSign hfinite, (ordinary_dropZeroSign hfinite).2, fun hkind => ?_, hunit⟩
  rw [exact32_dropZeroSign, ← not_lt]
  exact fun hlt => not_forbidsValue hcheck (.inr (.inr ⟨hkind, hlt⟩))

theorem unitFamily_of_checkUnit {kind : NumericKind} {unit : Option DimensionUnit} {u : PUnit}
    (h : checkUnit kind unit = .ok u) : ∀ unit' ∈ unit, kind.unitFamily? = some unit'.family := by
  intro unit' hmem
  by_contra hne
  exact not_forbidsUnit h ⟨unit', hmem, hne⟩

theorem InRange.withUnit {unit : Option DimensionUnit} (hn : n.InRange)
    (h : n.withUnit unit = .ok n') : n'.InRange := by
  obtain ⟨hcheck, rfl⟩ := eq_of_withUnit h
  exact ⟨hn.isFinite, hn.ne_negativeZero, hn.nonneg, unitFamily_of_checkUnit hcheck⟩

theorem inRange_ofInt (value : Int32) : (ofInt value).InRange where
  isFinite := by
    refine Number.isFinite_nearest32_intCast ?_
    have hlow := value.le_toInt
    have hhigh := value.toInt_lt
    omega
  ne_negativeZero := (Number.ordinary_nearest32_intCast value.toInt).2
  nonneg := by simp [ofInt]
  unitFamily := by simp [ofInt]

/-- **Every number is in range.** -/
theorem Made.inRange (h : n.Made) : n.InRange := by
  induction h with
  | ofInt value => exact inRange_ofInt value
  | @make kind value unit n h =>
    rw [Numeric.make] at h
    obtain ⟨u, hcheck, hvalue⟩ := exists_of_bind_eq_ok h
    exact inRange_of_withValue hvalue (unitFamily_of_checkUnit hcheck)
  | @apply n n' e hn h ih =>
    cases e with
    | setValue value => exact inRange_of_withValue h ih.unitFamily
    | setUnit unit => exact ih.withUnit h

end Made

/-! ### Step by step -/

/-- An edit, step by step; the steps before a failure stay done. -/
def perform : Edit → ExceptT Failure (StateM Numeric) PUnit
  | .setValue value => do
    let n ← get
    liftExcept (checkValue n.kind value)
    modify fun n => { n with value := dropZeroSign value }
  | .setUnit unit => do
    let n ← get
    liftExcept (checkUnit n.kind unit)
    modify fun n => { n with unit }

/-- An edit that may fail, and the number after it; a failure leaves it as it is. -/
def attempt (n : Numeric) (e : Edit) : Except Failure PUnit × Numeric :=
  match n.apply e with
  | .ok after => (.ok ⟨⟩, after)
  | .error failure => (.error failure, n)

/-- **Step by step an edit comes to the same**: a failure leaves the number as it was. -/
theorem run_perform (n : Numeric) (e : Edit) : (perform e).run.run n = n.attempt e := by
  cases e with
  | setValue value =>
    change ((liftExcept (checkValue n.kind value) >>= fun _ => modify _) :
      ExceptT Failure (StateM Numeric) PUnit).run.run n = _
    rw [attempt, apply, withValue]
    cases checkValue n.kind value <;> rfl
  | setUnit unit =>
    change ((liftExcept (checkUnit n.kind unit) >>= fun _ => modify _) :
      ExceptT Failure (StateM Numeric) PUnit).run.run n = _
    rw [attempt, apply, withUnit]
    cases checkUnit n.kind unit <;> rfl

/-- What calls lead to: numbers are made, negated, given another value in a copy, and changed in
place, whether the change succeeds or fails. -/
inductive Reached : Numeric → Prop
  | make {kind : NumericKind} {value : Float32} {unit : Option DimensionUnit} {n : Numeric}
      (h : make kind value unit = .ok n) : Reached n
  | ofInt (value : Int32) : Reached (ofInt value)
  | negated {n n' : Numeric} (hn : Reached n) (h : n.negated? = some n') : Reached n'
  | withValue {n n' : Numeric} {value : Float32} (hn : Reached n)
      (h : n.withValue value = .ok n') : Reached n'
  | perform {n : Numeric} (hn : Reached n) (e : Edit) : Reached ((perform e).run.run n).2

section Step

variable {n after : Numeric} {value : Float32} {unit : Option DimensionUnit}

theorem Made.attempt (hn : n.Made) (e : Edit) : (n.attempt e).2.Made := by
  rw [Numeric.attempt]
  cases hresult : n.apply e with
  | error failure => exact hn
  | ok after => exact hn.apply hresult

theorem exists_withValue_of_negated (h : n.negated? = some after) :
    n.withValue (-n.value) = .ok after := by
  rw [negated?] at h
  cases hresult : n.withValue (-n.value) with
  | error failure => simp [hresult, Except.toOption] at h
  | ok n' => simpa [hresult, Except.toOption] using h

theorem Reached.made (h : n.Reached) : n.Made := by
  induction h with
  | make h => exact .make h
  | ofInt value => exact .ofInt value
  | @negated n n' hn h ih => exact ih.apply (e := .setValue _) (exists_withValue_of_negated h)
  | @withValue n n' value hn h ih => exact ih.apply (e := .setValue value) h
  | @perform n hn e ih =>
    rw [run_perform]
    exact ih.attempt e

/-- What is only checked fails where the check does. -/
theorem checked_eq_error_iff {α β : Type} {check : Except Failure α} {f : α → β} :
    (∃ failure, (do return f (← check)) = Except.error failure) ↔
      ∃ failure, check = .error failure := by
  cases check with
  | error failure => exact iff_of_true ⟨failure, rfl⟩ ⟨failure, rfl⟩
  | ok a => exact iff_of_false (fun ⟨_, h⟩ => by cases h) (fun ⟨_, h⟩ => by cases h)

theorem withValue_eq_error_iff :
    (∃ failure, n.withValue value = .error failure) ↔ ForbidsValue n.kind value :=
  checked_eq_error_iff.trans checkValue_eq_error_iff

theorem withUnit_eq_error_iff :
    (∃ failure, n.withUnit unit = .error failure) ↔ ForbidsUnit n.kind unit :=
  checked_eq_error_iff.trans checkUnit_eq_error_iff

theorem attempt_eq_error_iff {e : Edit} :
    (∃ failure, (n.attempt e).1 = .error failure) ↔ ∃ failure, n.apply e = .error failure := by
  rw [attempt]
  cases n.apply e <;> simp

theorem snd_attempt_of_error {e : Edit} {failure : Failure}
    (h : (n.attempt e).1 = .error failure) : (n.attempt e).2 = n := by
  rw [attempt] at h ⊢
  cases hresult : n.apply e with
  | error failure => rfl
  | ok after => simp [hresult] at h

end Step

/-- **Numbers stay in range.** Whatever is made, negated and changed, in calls that succeed or fail,
the value is finite and not the negative zero, times and frequencies are not below zero, and a unit
belongs to the family of the kind. A call that fails leaves the number as it was; a new value is
refused exactly if the kind forbids it, in place and in a copy, and otherwise it is the value from
then on; a new unit is refused exactly if it is of another family. -/
theorem inRange_of_reached (n : Numeric) :
    (n.Reached → n.InRange) ∧
      (∀ e failure, ((perform e).run.run n).1 = .error failure →
        ((perform e).run.run n).2 = n) ∧
      (∀ value, ((∃ failure, ((perform (.setValue value)).run.run n).1 = .error failure) ↔
          ForbidsValue n.kind value) ∧
        ((∃ failure, n.withValue value = .error failure) ↔ ForbidsValue n.kind value) ∧
        ∀ after, n.withValue value = .ok after →
          (perform (.setValue value)).run.run n = (.ok ⟨⟩, after) ∧
            after.kind = n.kind ∧ after.unit = n.unit ∧ exact32 after.value = exact32 value) ∧
      ∀ unit, (∃ failure, ((perform (.setUnit unit)).run.run n).1 = .error failure) ↔
        ForbidsUnit n.kind unit := by
  simp only [run_perform]
  refine ⟨fun h => h.made.inRange, fun e failure => snd_attempt_of_error, fun value => ?_,
    fun unit => attempt_eq_error_iff.trans withUnit_eq_error_iff⟩
  refine ⟨attempt_eq_error_iff.trans withValue_eq_error_iff, withValue_eq_error_iff, ?_⟩
  intro after h
  have hattempt : n.attempt (.setValue value) = (.ok ⟨⟩, after) := by
    rw [attempt, apply, h]
  obtain ⟨-, rfl⟩ := eq_of_withValue h
  exact ⟨hattempt, rfl, rfl, exact32_dropZeroSign value⟩

/-- One second cannot become a second less than nothing or a pixel; it can become nothing, which has
no sign. -/
theorem inRange_of_reached_second :
    let second : Numeric := ⟨.time, 1, some .s⟩
    let nothing : Numeric := ⟨.time, 0, some .s⟩
    second.Reached ∧ second.InRange ∧ ForbidsValue .time (-1) ∧
      ((perform (.setValue (-1))).run.run second).2 = second ∧
      (∃ failure, ((perform (.setUnit (some .px))).run.run second).1 = .error failure) ∧
      (perform (.setValue (-0))).run.run second = (.ok ⟨⟩, nothing) ∧ nothing.InRange := by
  intro second nothing
  have hmake : make .time 1 (some .s) = .ok second := rfl
  have hsecond : second.Reached := .make hmake
  have hnothing : second.withValue (-0) = .ok nothing := rfl
  obtain ⟨hrange, hunchanged, hvalue, hunit⟩ := inRange_of_reached second
  have hnegative : ∃ failure, ((perform (.setValue (-1))).run.run second).1 = .error failure :=
    ⟨.invalidArgument (.negative .time (-1)), rfl⟩
  obtain ⟨failure, hfailure⟩ := hnegative
  refine ⟨hsecond, hrange hsecond, (hvalue (-1)).1.mp ⟨failure, hfailure⟩,
    hunchanged _ failure hfailure, (hunit _).mpr ⟨.px, rfl, by decide⟩,
    ((hvalue (-0)).2.2 nothing hnothing).1, ?_⟩
  exact (inRange_of_reached nothing).1 (hsecond.withValue hnothing)

end CssModel.Numeric
