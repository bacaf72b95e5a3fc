import CssModel.Proofs.Expression.NumericFailure
import CssModel.Proofs.Expression.Operands
import CssModel.Proofs.Term.Construction
import CssModel.Proofs.Term.RawText

/-!
# Expressions of kind integer

The kind of an expression says what its operands are. It is an integer if all of them are plain
numbers, and none that is a number rather than an integer has a fractional part. No operator has a
say in it. Sums, products and signs do not need one, since they lead from whole numbers to whole
numbers. Quotients do: `1 / 2` is of kind integer, and its value is not whole.

So the value is whole as long as all quotients on the way are. They may be in nested expressions,
and what is made of them afterwards does not matter.

## Exact arithmetic

Nothing of this holds of rounded numbers, so the rules are applied to rational numbers here. What
units and percentages come to is left open, since no plain number depends on it.

## Main definitions

* `CssModel.ExactContext.canonical`: the exact value of a single number
* `CssModel.Expression.IsInteger`: the expressions in question
* `CssModel.QuotientIn`: what the divisions on the way come to

## Main results

* `CssModel.Expression.IsInteger.exists_of_holdsAt`: the kind is handed down
* `CssModel.Spelled.mem_wholeNumbers`: from whole operands and quotients to a whole value
* `CssModel.Expression.whole_value_of_kind_integer`
-/

namespace CssModel

open Number (exact32)

/-! ### Exact arithmetic -/

/-- What units and percentages come to, in exact numbers. -/
structure ExactContext where
  /-- How many of the family's own unit go into one unit. -/
  factor : DimensionUnit → ℚ
  /-- The length of a hundred percent. -/
  percentBase : Option ℚ

/-- The exact value of a number in its family's own unit. -/
def ExactContext.canonical (context : ExactContext) (n : Numeric) : Except EvaluationError ℚ :=
  if n.kind = .percent then
    match context.percentBase with
    | some base => .ok (exact32 n.value / 100 * base)
    | none => .error (.noPercentBase n.text)
  else
    match n.unit with
    | some unit => .ok (exact32 n.value * context.factor unit)
    | none => .ok (exact32 n.value)

/-- The whole numbers among the rational ones. -/
def wholeNumbers : Subring ℚ :=
  (Int.castRingHom ℚ).range

theorem mem_wholeNumbers_iff {q : ℚ} : q ∈ wholeNumbers ↔ q.den = 1 := by
  constructor
  · rintro ⟨z, rfl⟩
    exact Rat.den_intCast z
  · exact fun h => ⟨q.num, (Rat.den_eq_one_iff q).mp h⟩

theorem Numeric.exact32_mem_wholeNumbers {n : Numeric} (h : n.isIntegral = true) :
    exact32 n.value ∈ wholeNumbers :=
  mem_wholeNumbers_iff.mpr (eq_of_beq h)

/-- Plain numbers have no unit, so that nothing has to be known of the context. -/
theorem ExactContext.canonical_eq_ok {n : Numeric} (hn : n.Reached)
    (hfamily : n.kind.family = .unitless) (context : ExactContext) :
    context.canonical n = .ok (exact32 n.value) := by
  have hpercent : n.kind ≠ .percent := by
    intro hkind
    rw [hkind] at hfamily
    cases hfamily
  have hforbids : n.kind.unitFamily? = none := by
    revert hfamily
    cases n.kind <;> decide
  have hunit : n.unit = none := by
    rw [Option.eq_none_iff_forall_not_mem]
    intro unit hmem
    have hsome := hn.made.inRange.unitFamily unit hmem
    rw [hforbids] at hsome
    cases hsome
  rw [canonical, if_neg hpercent, hunit]

/-! ### Integers among expressions -/

theorem Expression.kind_eq_integer_iff {τ : Type} {x : Expression τ} :
    x.kind = .integer ↔ x.family = .unitless ∧ x.integral = true := by
  rw [kind]
  cases x.family <;> cases x.integral <;> simp

/-- A valid expression that has been read and is of kind integer. -/
structure Expression.IsInteger (x : Expression Term) : Prop where
  isBuilt : (Value.calc x).IsBuilt
  valid : x.valid = true
  kind : x.kind = .integer

namespace Expression.IsInteger

variable {x e : Expression Term} {u : Term} {operator : Option JoinOperator} {n : Numeric}
  {depth : Nat} {item : ExpressionItem Term}

theorem operand (h : x.IsInteger) (hu : .operand u ∈ x.items) :
    u.Built ∧ u.IsOperand ∧ u.unitFamily = .unitless ∧ u.IsIntegral := by
  obtain ⟨ts, hts, rfl⟩ := h.isBuilt
  obtain ⟨last, ops, haccepted⟩ := valid_iff_accepted.mp h.valid
  obtain ⟨hfamily, hintegral⟩ : last.family = .unitless ∧ last.integral = true := by
    have hkind := kind_eq_integer_iff.mp h.kind
    rwa [haccepted.ofTerms_eq] at hkind
  obtain ⟨t, ht, hoperand, rfl⟩ := exists_of_operand hu
  have htfamily : t.unitFamily = .unitless :=
    (haccepted.hasFamily.goesWith t ht).elim id fun heq => heq.trans hfamily
  have htintegral : t.IsIntegral := haccepted.integral_iff.mp hintegral t ht
  exact ⟨(hts t ht).withOperator none, hoperand, htfamily, htintegral.number, htintegral.nested⟩

theorem nested (h : x.IsInteger) (he : .operand ⟨operator, .calc e⟩ ∈ x.items) : e.IsInteger := by
  obtain ⟨hbuilt, hoperand, hfamily, hintegral⟩ := h.operand he
  refine ⟨hbuilt.isBuilt, ?_, kind_eq_integer_iff.mpr ⟨hfamily, hintegral.nested e rfl⟩⟩
  obtain ⟨n, hn⟩ | ⟨e', he', hvalid⟩ := hoperand
  · cases hn
  · cases he'
    exact hvalid

/-- **The kind is handed down.** Every entry, however deep, stands directly in such an
expression. -/
theorem exists_of_holdsAt (h : x.IsInteger) (hitem : x.HoldsAt depth item) :
    ∃ y : Expression Term, y.IsInteger ∧ item ∈ y.items := by
  induction hitem with
  | here hitem => exact ⟨_, h, hitem⟩
  | nested he _ ih => exact ih (h.nested he)

/-- The numbers in it are plain, so that their exact values are known; and they are whole unless
they are called integers without being it. -/
theorem canonical_of_holdsAt (h : x.IsInteger)
    (hn : x.HoldsAt depth (.operand ⟨operator, .numeric n⟩))
    (hwhole : n.kind = .integer → n.isIntegral = true) (context : ExactContext) :
    context.canonical n = .ok (exact32 n.value) ∧ exact32 n.value ∈ wholeNumbers := by
  obtain ⟨y, hy, hitem⟩ := h.exists_of_holdsAt hn
  obtain ⟨hbuilt, -, hfamily, hintegral⟩ := hy.operand hitem
  have hkind : n.kind.family = .unitless := hfamily
  refine ⟨context.canonical_eq_ok hbuilt.isBuilt hkind, Numeric.exact32_mem_wholeNumbers ?_⟩
  cases hk : n.kind with
  | integer => exact hwhole hk
  | number => exact hintegral.number n rfl hk
  | percent | length | angle | time | frequency | resolution =>
    rw [hk] at hkind
    cases hkind

end Expression.IsInteger

/-! ### Quotients -/

section Quotients

variable {number : Numeric → Except EvaluationError ℚ} {t : ExpressionTree Term} {q value : ℚ}

/-- What a division comes to when the tree is evaluated; it may be in a nested expression. -/
inductive QuotientIn (number : Numeric → Except EvaluationError ℚ) :
    ExpressionTree Term → ℚ → Prop
  | nested {operator : Option JoinOperator} {e : Expression Term} {t : ExpressionTree Term} {q : ℚ}
      (hitems : e.items = t.postorder) (h : QuotientIn number t q) :
      QuotientIn number (.operand ⟨operator, .calc e⟩) q
  | negation {t : ExpressionTree Term} {q : ℚ} (h : QuotientIn number t q) :
      QuotientIn number (.negation t) q
  | left {op : MathOperator} {binary : op.isUnary = false} {l r : ExpressionTree Term} {q : ℚ}
      (h : QuotientIn number l q) : QuotientIn number (.operation op binary l r) q
  | right {op : MathOperator} {binary : op.isUnary = false} {l r : ExpressionTree Term} {q : ℚ}
      (h : QuotientIn number r q) : QuotientIn number (.operation op binary l r) q
  | division {binary : MathOperator.divide.isUnary = false} {l r : ExpressionTree Term}
      {left right : ℚ} (hl : l.eval (numericEvaluator number) = pure left)
      (hr : r.eval (numericEvaluator number) = pure right) (hne : right ≠ 0) :
      QuotientIn number (.operation .divide binary l r) (left / right)

/-- Where there is a quotient, there is a division. -/
theorem QuotientIn.holdsAt (h : QuotientIn number t q) {x : Expression Term}
    (hx : ∀ entry ∈ t.postorder, entry ∈ x.items) :
    ∃ depth, x.HoldsAt depth (.operator .divide) := by
  induction h generalizing x with
  | @nested operator e t q hitems _ ih =>
    have he : .operand ⟨operator, .calc e⟩ ∈ x.items := hx _ (by simp [ExpressionTree.postorder])
    obtain ⟨depth, hdepth⟩ := ih fun entry hentry => hitems ▸ hentry
    exact ⟨depth + 1, .nested he hdepth⟩
  | negation _ ih | left _ ih | right _ ih =>
    exact ih fun entry hentry => hx entry (by simp [ExpressionTree.postorder, hentry])
  | division => exact ⟨0, .here (hx _ (by simp [ExpressionTree.postorder]))⟩

/-- Whole numbers are kept by everything but division. -/
theorem applyBinary_mem_wholeNumbers {op : MathOperator} {left right : ℚ}
    (hleft : left ∈ wholeNumbers) (hright : right ∈ wholeNumbers)
    (hquotient : op = .divide → right ≠ 0 → left / right ∈ wholeNumbers)
    (h : applyBinary op left right = .ok value) : value ∈ wholeNumbers := by
  cases op with
  | add =>
    cases h
    exact add_mem hleft hright
  | subtract =>
    cases h
    exact sub_mem hleft hright
  | multiply =>
    cases h
    exact mul_mem hleft hright
  | divide =>
    rw [applyBinary] at h
    split at h
    · cases h
    · next hne =>
      cases h
      exact hquotient rfl (by simpa using hne)
  | negate => cases h

/-- **From whole operands and quotients to a whole value.** -/
theorem Spelled.mem_wholeNumbers {f : Spelling} (h : Spelled t f) {x : Expression Term}
    (hx : ∀ entry ∈ t.postorder, entry ∈ x.items)
    (hnumber : ∀ depth operator n, x.HoldsAt depth (.operand ⟨operator, .numeric n⟩) →
      number n = .ok (exact32 n.value) ∧ exact32 n.value ∈ wholeNumbers)
    (hquotient : ∀ q, QuotientIn number t q → q ∈ wholeNumbers)
    (hvalue : t.eval (numericEvaluator number) = pure value) : value ∈ wholeNumbers := by
  -- What is asked of the entries and of the quotients holds in every part of the tree. In a nested
  -- expression the entries are its own, which is why the expression changes in the induction.
  induction h generalizing x value with
  | number n =>
    have hentry : x.HoldsAt 0 (.operand ⟨none, .numeric n⟩) :=
      .here (hx _ (by simp [ExpressionTree.postorder, Term.ofValue]))
    obtain ⟨hexact, hmem⟩ := hnumber 0 none n hentry
    cases hexact.symm.trans (congrArg (·.run.run) hvalue)
    exact hmem
  | @nested operator e t f hvalid hitems _ ih =>
    have he : .operand ⟨operator, .calc e⟩ ∈ x.items := hx _ (by simp [ExpressionTree.postorder])
    refine ih (fun entry hentry => hitems ▸ hentry)
      (fun depth operator n hn => hnumber (depth + 1) operator n (.nested he hn))
      (fun q hq => hquotient q (.nested hitems hq)) ?_
    rw [ExpressionTree.eval, numericEvaluator_argument_calc,
      evaluate_eq_of_postorder hvalid hitems] at hvalue
    exact run_eq_ok_of_adapt (run_eq_ok_of_adapt hvalue)
  | @negation t f _ ih =>
    obtain ⟨inner, hinner, hnegated⟩ := exists_of_run_bind hvalue
    have hmem : inner ∈ wholeNumbers :=
      ih (fun entry hentry => hx entry (by simp [ExpressionTree.postorder, hentry])) hnumber
        (fun q hq => hquotient q (.negation hq)) hinner
    cases hnegated
    exact neg_mem hmem
  | @operation op l r f g binary _ _ ihl ihr =>
    obtain ⟨left, hleft, hrest⟩ := exists_of_run_bind hvalue
    obtain ⟨right, hright, happly⟩ := exists_of_run_bind hrest
    have hleftmem : left ∈ wholeNumbers :=
      ihl (fun entry hentry => hx entry (by simp [ExpressionTree.postorder, hentry])) hnumber
        (fun q hq => hquotient q (.left hq)) hleft
    have hrightmem : right ∈ wholeNumbers :=
      ihr (fun entry hentry => hx entry (by simp [ExpressionTree.postorder, hentry])) hnumber
        (fun q hq => hquotient q (.right hq)) hright
    refine applyBinary_mem_wholeNumbers hleftmem hrightmem (fun hop hne => ?_) happly
    subst hop
    exact hquotient _ (.division hleft hright hne)

end Quotients

/-! ### The value -/

/-- **An expression of kind integer** whose integers are whole has a value in exact arithmetic, or
something is divided by zero. The value is whole as long as every quotient on the way to it is; so
it is whole if nothing is divided. -/
theorem Expression.whole_value_of_kind_integer {x : Expression Term}
    (hx : (Term.ofValue (.calc x)).Built) (hvalid : x.valid = true) (hkind : x.kind = .integer)
    (hwhole : ∀ depth operator n, x.HoldsAt depth (.operand ⟨operator, .numeric n⟩) →
      n.kind = .integer → n.isIntegral = true) (context : ExactContext) :
    (∃ t : ExpressionTree Term, x.items = t.postorder ∧
      ((∃ value, x.evaluate (numericEvaluator context.canonical) = pure value ∧
          ((∀ q, QuotientIn context.canonical t q → q ∈ wholeNumbers) → value ∈ wholeNumbers)) ∨
        ∃ depth, StopsAt context.canonical t depth (.operator .divide) .divisionByZero ∧
          x.evaluate (numericEvaluator context.canonical) =
            throw (.evaluation (EvaluationError.nested^[depth] .divisionByZero)))) ∧
    ((∀ depth, ¬ x.HoldsAt depth (.operator .divide)) →
      ∃ value ∈ wholeNumbers, x.evaluate (numericEvaluator context.canonical) = pure value) := by
  have hinteger : x.IsInteger := ⟨hx.isBuilt, hvalid, hkind⟩
  have hcanonical : ∀ depth operator n, x.HoldsAt depth (.operand ⟨operator, .numeric n⟩) →
      context.canonical n = .ok (exact32 n.value) ∧ exact32 n.value ∈ wholeNumbers :=
    fun depth operator n hn => hinteger.canonical_of_holdsAt hn (hwhole depth operator n hn) context
  obtain ⟨t, f, hitems, hf⟩ := exists_spelled hx.made hvalid
  have hentries : ∀ entry ∈ t.postorder, entry ∈ x.items := fun entry hentry => hitems ▸ hentry
  have heval := evaluate_eq_of_postorder hvalid hitems (numericEvaluator context.canonical)
  obtain ⟨value, hvalue⟩ | ⟨depth, item, reason, hstop⟩ := hf.outcome context.canonical
  · have hevaluate : x.evaluate (numericEvaluator context.canonical) = pure value := by
      rw [heval, hvalue]
      rfl
    have hmem : (∀ q, QuotientIn context.canonical t q → q ∈ wholeNumbers) →
        value ∈ wholeNumbers := fun hq => hf.mem_wholeNumbers hentries hcanonical hq hvalue
    refine ⟨⟨t, hitems, .inl ⟨value, hevaluate, hmem⟩⟩, fun hdivide => ?_⟩
    refine ⟨value, hmem fun q hq => ?_, hevaluate⟩
    obtain ⟨depth, hdepth⟩ := hq.holdsAt hentries
    exact absurd hdepth (hdivide depth)
  · have hitem := hstop.holdsAt hentries
    obtain ⟨rfl, rfl⟩ | ⟨operator, n, rfl, hn⟩ := hstop.cause
    · refine ⟨⟨t, hitems, .inr ⟨depth, hstop, ?_⟩⟩, fun hdivide => absurd hitem (hdivide depth)⟩
      rw [heval, hstop.eval_eq]
      rfl
    · cases (hcanonical depth operator n hitem).1.symm.trans hn

/-- In `2 * calc(-3 + 4)` nothing is divided. -/
theorem Expression.whole_value_of_product :
    let two := Term.ofValue (.numeric (.ofInt 2))
    let minusThree := Term.ofValue (.numeric (.ofInt (-3)))
    let four := Term.ofValue (.numeric ⟨.number, 4, none⟩)
    let y := Expression.ofTerms [minusThree, Term.ofValue (.delimiter .plus), four]
    let x := Expression.ofTerms [two, Term.ofValue (.delimiter .star), Term.ofValue (.calc y)]
    (Term.ofValue (.calc x)).Built ∧ x.valid = true ∧ x.kind = .integer ∧
      ∀ context : ExactContext,
        ∃ value ∈ wholeNumbers, x.evaluate (numericEvaluator context.canonical) = pure value := by
  intro two minusThree four y x
  have hmake : Numeric.make .number 4 none = .ok ⟨.number, 4, none⟩ := rfl
  have htwo : two.Built := .numeric (.ofInt 2)
  have hminusThree : minusThree.Built := .numeric (.ofInt (-3))
  have hfour : four.Built := .numeric (.make hmake)
  have hx : (Term.ofValue (.calc x)).Built := htwo.binary (hminusThree.binary hfour)
  have hxitems : x.items = [.operand two, .operand (.ofValue (.calc y)), .operator .multiply] := rfl
  have hyitems : y.items = [.operand minusThree, .operand four, .operator .add] := rfl
  have hentries : ∀ depth item, x.HoldsAt depth item → item ∈ x.items ++ y.items := by
    intro depth item h
    cases h with
    | here h => exact List.mem_append_left _ h
    | @nested _ e operator _ _ he h =>
      obtain ⟨-, rfl⟩ : operator = none ∧ e = y := by simpa [hxitems, two, Term.ofValue] using he
      cases h with
      | here h => exact List.mem_append_right _ h
      | nested he _ => simp [hyitems, minusThree, four, Term.ofValue] at he
  have hwhole : ∀ depth operator n, x.HoldsAt depth (.operand ⟨operator, .numeric n⟩) →
      n.kind = .integer → n.isIntegral = true := by
    intro depth operator n h _
    obtain ⟨-, rfl⟩ | ⟨-, rfl⟩ | ⟨-, rfl⟩ : (operator = none ∧ n = .ofInt 2) ∨
        (operator = none ∧ n = .ofInt (-3)) ∨ operator = none ∧ n = ⟨.number, 4, none⟩ := by
      simpa [hxitems, hyitems, two, minusThree, four, Term.ofValue] using hentries _ _ h
    all_goals decide +kernel
  have hdivide : ∀ depth, ¬ x.HoldsAt depth (.operator .divide) := by
    intro depth h
    simpa [hxitems, hyitems] using hentries _ _ h
  have hkind : x.kind = .integer := by
    decide +kernel
  exact ⟨hx, rfl, hkind, fun context =>
    (Expression.whole_value_of_kind_integer hx rfl hkind hwhole context).2 hdivide⟩

/-- `1 / 2` is of kind integer, and its value is not whole. Nor is that of a single operand which is
called an integer and has a fractional part. -/
theorem Expression.not_whole_value_half :
    let one := Term.ofValue (.numeric (.ofInt 1))
    let two := Term.ofValue (.numeric (.ofInt 2))
    let fraction := Term.ofValue (.numeric ⟨.integer, 2.5, none⟩)
    let x := Expression.ofTerms [one, Term.ofValue (.delimiter .slash), two]
    let y := Expression.ofTerms [fraction]
    ((Term.ofValue (.calc x)).Built ∧ x.valid = true ∧ x.kind = .integer) ∧
      ((Term.ofValue (.calc y)).Built ∧ y.valid = true ∧ y.kind = .integer) ∧
      ∀ context : ExactContext,
        x.evaluate (numericEvaluator context.canonical) = pure (1 / 2) ∧
        y.evaluate (numericEvaluator context.canonical) = pure (5 / 2) ∧
        (1 / 2 : ℚ) ∉ wholeNumbers ∧ (5 / 2 : ℚ) ∉ wholeNumbers := by
  intro one two fraction x y
  have hmake : Numeric.make .integer 2.5 none = .ok ⟨.integer, 2.5, none⟩ := rfl
  have hone : one.Built := .numeric (.ofInt 1)
  have htwo : two.Built := .numeric (.ofInt 2)
  have hfraction : fraction.Built := .numeric (.make hmake)
  have hx : (Term.ofValue (.calc x)).Built := hone.binary htwo
  have hy : (Term.ofValue (.calc y)).Built :=
    .ofTerms (List.cons_ne_nil _ _) (List.forall_mem_singleton.mpr hfraction)
  have hexact : exact32 (Numeric.ofInt 1).value = 1 ∧ exact32 (Numeric.ofInt 2).value = 2 ∧
      exact32 2.5 = 5 / 2 := by
    decide +kernel
  have binary : MathOperator.divide.isUnary = false := rfl
  have htree : x.items =
      (ExpressionTree.operation .divide binary (.operand one) (.operand two)).postorder := rfl
  have hytree : y.items = (ExpressionTree.operand fraction).postorder := rfl
  refine ⟨⟨hx, rfl, rfl⟩, ⟨hy, rfl, rfl⟩, fun context => ⟨?_, ?_, ?_, ?_⟩⟩
  · have hleft : (ExpressionTree.operand one).eval (numericEvaluator context.canonical) = pure 1 :=
      congrArg (ExceptT.mk (m := Id))
        ((context.canonical_eq_ok (.ofInt 1) rfl).trans (congrArg _ hexact.1))
    have hright : (ExpressionTree.operand two).eval (numericEvaluator context.canonical) = pure 2 :=
      congrArg (ExceptT.mk (m := Id))
        ((context.canonical_eq_ok (.ofInt 2) rfl).trans (congrArg _ hexact.2.1))
    rw [evaluate_eq_of_postorder rfl htree]
    rw [ExpressionTree.eval, hleft, hright]
    rfl
  · have hvalue : (ExpressionTree.operand fraction).eval (numericEvaluator context.canonical) =
        pure (5 / 2) :=
      congrArg (ExceptT.mk (m := Id))
        ((context.canonical_eq_ok (.make hmake) rfl).trans (congrArg _ hexact.2.2))
    rw [evaluate_eq_of_postorder rfl hytree, hvalue]
    rfl
  · rw [mem_wholeNumbers_iff]
    norm_num
  · rw [mem_wholeNumbers_iff]
    norm_num

end CssModel
