import CssModel.Proofs.Expression.Spelling

/-!
# Why an expression has no number

The evaluation of numbers has many ways to fail: operands that are no numbers, operators with the
wrong number of operands, nested expressions that are invalid. A valid expression that has been read
meets none of them. What is left are the failures of single numbers and division by zero.

`StopsAt` says where in a tree this happens. It goes through the tree in the order of evaluation and
enters nested expressions, each of which adds one reason in front of the reason that is told there.

## Main definitions

* `CssModel.StopsAt`: the entry at which the evaluation stops, and how deep it is nested
* `CssModel.Expression.HoldsAt`: the entries of an expression, those of nested ones among them
* `CssModel.ResolutionContext.Refuses`: what is told of an entry without a value

## Main results

* `CssModel.Spelled.outcome`: a tree has a value, or its evaluation stops somewhere
* `CssModel.Expression.evaluate_eq_throw_iff`: the failures of a valid expression
* `CssModel.Expression.only_divisions_and_percentages_fail`
-/

namespace CssModel

/-! ### Entries and their depth -/

/-- The expression has the entry, in as many nested expressions. -/
inductive Expression.HoldsAt : Expression Term → Nat → ExpressionItem Term → Prop
  | here {x : Expression Term} {item : ExpressionItem Term} (h : item ∈ x.items) :
      HoldsAt x 0 item
  | nested {x e : Expression Term} {operator : Option JoinOperator} {depth : Nat}
      {item : ExpressionItem Term} (he : .operand ⟨operator, .calc e⟩ ∈ x.items)
      (h : HoldsAt e depth item) : HoldsAt x (depth + 1) item

/-- A reason that is told through nested expressions. -/
theorem EvaluationError.causes_nested (depth : Nat) (reason : EvaluationError) :
    (EvaluationError.nested^[depth] reason).causes =
      List.replicate depth EvaluationError.summary ++ reason.causes := by
  induction depth with
  | zero => rfl
  | succ depth ih =>
    rw [Function.iterate_succ_apply', causes, ih]
    rfl

/-! ### Where the evaluation stops -/

section Stops

variable {α : Type} [Add α] [Sub α] [Mul α] [Div α] [Neg α] [OfNat α 0] [BEq α]
  {number : Numeric → Except EvaluationError α} {t : ExpressionTree Term} {depth : Nat}
  {item : ExpressionItem Term} {reason : EvaluationError}

/-- The evaluation of the tree stops at the entry, which is in as many nested expressions, for this
reason. All that comes before it has a value. -/
inductive StopsAt (number : Numeric → Except EvaluationError α) :
    ExpressionTree Term → Nat → ExpressionItem Term → EvaluationError → Prop
  | number {operator : Option JoinOperator} {n : Numeric} {reason : EvaluationError}
      (h : number n = .error reason) :
      StopsAt number (.operand ⟨operator, .numeric n⟩) 0 (.operand ⟨operator, .numeric n⟩) reason
  | nested {operator : Option JoinOperator} {e : Expression Term} {t : ExpressionTree Term}
      {depth : Nat} {item : ExpressionItem Term} {reason : EvaluationError}
      (hvalid : e.valid = true) (hitems : e.items = t.postorder)
      (h : StopsAt number t depth item reason) :
      StopsAt number (.operand ⟨operator, .calc e⟩) (depth + 1) item reason
  | negation {t : ExpressionTree Term} {depth : Nat} {item : ExpressionItem Term}
      {reason : EvaluationError} (h : StopsAt number t depth item reason) :
      StopsAt number (.negation t) depth item reason
  | left {op : MathOperator} {binary : op.isUnary = false} {l r : ExpressionTree Term}
      {depth : Nat} {item : ExpressionItem Term} {reason : EvaluationError}
      (h : StopsAt number l depth item reason) :
      StopsAt number (.operation op binary l r) depth item reason
  | right {op : MathOperator} {binary : op.isUnary = false} {l r : ExpressionTree Term} {left : α}
      {depth : Nat} {item : ExpressionItem Term} {reason : EvaluationError}
      (hl : l.eval (numericEvaluator number) = pure left)
      (h : StopsAt number r depth item reason) :
      StopsAt number (.operation op binary l r) depth item reason
  | division {binary : MathOperator.divide.isUnary = false} {l r : ExpressionTree Term}
      {left right : α} (hl : l.eval (numericEvaluator number) = pure left)
      (hr : r.eval (numericEvaluator number) = pure right) (hzero : (right == 0) = true) :
      StopsAt number (.operation .divide binary l r) 0 (.operator .divide) .divisionByZero

/-- **The reason of the failure** is the one that is told at the entry, behind one for each nested
expression around it. -/
theorem StopsAt.eval_eq (h : StopsAt number t depth item reason) :
    t.eval (numericEvaluator number) = throw (EvaluationError.nested^[depth] reason) := by
  induction h with
  | @number operator n reason h =>
    show ExceptT.mk (m := Id) (number n) = _
    rw [h]
    rfl
  | nested hvalid hitems _ ih =>
    rw [Function.iterate_succ_apply', ExpressionTree.eval, numericEvaluator_argument_calc,
      evaluate_eq_of_postorder hvalid hitems, ih]
    rfl
  | negation _ ih | left _ ih =>
    rw [ExpressionTree.eval, ih]
    rfl
  | right hl _ ih =>
    rw [ExpressionTree.eval, hl, ih]
    rfl
  | @division binary l r left right hl hr hzero =>
    have hbinary : applyBinary .divide left right = .error .divisionByZero := if_pos hzero
    rw [ExpressionTree.eval, hl, hr]
    show ExceptT.mk (m := Id) (applyBinary .divide left right) = _
    rw [hbinary]
    rfl

/-- The entry is one of any expression that has all entries of the tree. -/
theorem StopsAt.holdsAt (h : StopsAt number t depth item reason) {x : Expression Term}
    (hx : ∀ entry ∈ t.postorder, entry ∈ x.items) : x.HoldsAt depth item := by
  induction h generalizing x with
  | number => exact .here (hx _ (by simp [ExpressionTree.postorder]))
  | @nested operator e t depth item reason _ hitems _ ih =>
    have he : .operand ⟨operator, .calc e⟩ ∈ x.items := hx _ (by simp [ExpressionTree.postorder])
    exact .nested he (ih fun entry hentry => hitems ▸ hentry)
  | negation _ ih | left _ ih | right _ _ ih =>
    exact ih fun entry hentry => hx entry (by simp [ExpressionTree.postorder, hentry])
  | division => exact .here (hx _ (by simp [ExpressionTree.postorder]))

/-- Only numbers without a value and divisions stop an evaluation. -/
theorem StopsAt.cause (h : StopsAt number t depth item reason) :
    (item = .operator .divide ∧ reason = .divisionByZero) ∨
      ∃ operator n, item = .operand ⟨operator, .numeric n⟩ ∧ number n = .error reason := by
  induction h with
  | @number operator n reason h => exact .inr ⟨operator, n, rfl, h⟩
  | nested _ _ _ ih | negation _ ih | left _ ih | right _ _ ih => exact ih
  | division => exact .inl ⟨rfl, rfl⟩

omit [Neg α] in
/-- A binary operation on values has a value, unless it divides by zero. -/
theorem applyBinary_outcome {op : MathOperator} (binary : op.isUnary = false) (left right : α) :
    (∃ value, applyBinary op left right = .ok value) ∨ op = .divide ∧ (right == 0) = true := by
  cases op with
  | add | subtract | multiply => exact .inl ⟨_, rfl⟩
  | divide =>
    by_cases hzero : (right == 0) = true
    · exact .inr ⟨rfl, hzero⟩
    · exact .inl ⟨_, if_neg hzero⟩
  | negate => cases binary

/-- **A tree has a value, or its evaluation stops somewhere.** What has a spelling holds nothing but
numbers and valid expressions, however deep. -/
theorem Spelled.outcome {f : Spelling} (h : Spelled t f)
    (number : Numeric → Except EvaluationError α) :
    (∃ value, t.eval (numericEvaluator number) = pure value) ∨
      ∃ depth item reason, StopsAt number t depth item reason := by
  -- The spelling itself does not matter here: the cases are those of the operands that can stand in
  -- a valid expression, and of the operators with as many operands as they need.
  induction h with
  | number n =>
    cases hn : number n with
    | ok value => exact .inl ⟨value, congrArg (ExceptT.mk (m := Id)) hn⟩
    | error reason => exact .inr ⟨0, _, reason, .number hn⟩
  | @nested operator e t f hvalid hitems _ ih =>
    obtain ⟨value, hvalue⟩ | ⟨depth, item, reason, hstop⟩ := ih
    · refine .inl ⟨value, ?_⟩
      rw [ExpressionTree.eval, numericEvaluator_argument_calc,
        evaluate_eq_of_postorder hvalid hitems, hvalue]
      rfl
    · exact .inr ⟨depth + 1, item, reason, .nested hvalid hitems hstop⟩
  | negation _ ih =>
    obtain ⟨value, hvalue⟩ | ⟨depth, item, reason, hstop⟩ := ih
    · refine .inl ⟨-value, ?_⟩
      rw [ExpressionTree.eval, hvalue]
      rfl
    · exact .inr ⟨depth, item, reason, .negation hstop⟩
  | @operation op l r f g binary _ _ ihl ihr =>
    obtain ⟨left, hleft⟩ | ⟨depth, item, reason, hstop⟩ := ihl
    · obtain ⟨right, hright⟩ | ⟨depth, item, reason, hstop⟩ := ihr
      · obtain ⟨value, hvalue⟩ | ⟨rfl, hzero⟩ := applyBinary_outcome binary left right
        · refine .inl ⟨value, ?_⟩
          rw [ExpressionTree.eval, hleft, hright]
          exact congrArg (ExceptT.mk (m := Id)) hvalue
        · exact .inr ⟨0, _, _, .division hleft hright hzero⟩
      · exact .inr ⟨depth, item, reason, .right hleft hstop⟩
    · exact .inr ⟨depth, item, reason, .left hstop⟩

/-- **The failures of a valid expression.** It fails if its evaluation stops at one of its
entries. -/
theorem Expression.evaluate_eq_throw_iff {x : Expression Term} {f : Spelling} (h : Spelled t f)
    (hvalid : x.valid = true) (hitems : x.items = t.postorder) {failure : Failure} :
    x.evaluate (numericEvaluator number) = throw failure ↔
      ∃ depth item reason, StopsAt number t depth item reason ∧
        failure = .evaluation (EvaluationError.nested^[depth] reason) := by
  have hthrow : ∀ {depth item reason}, StopsAt number t depth item reason →
      x.evaluate (numericEvaluator number) =
        throw (.evaluation (EvaluationError.nested^[depth] reason)) := by
    intro depth item reason hstop
    rw [evaluate_eq_of_postorder hvalid hitems, hstop.eval_eq]
    rfl
  constructor
  · intro hfailure
    obtain ⟨value, hvalue⟩ | ⟨depth, item, reason, hstop⟩ := h.outcome number
    · rw [evaluate_eq_of_postorder hvalid hitems, hvalue] at hfailure
      cases hfailure
    · exact ⟨depth, item, reason, hstop, Except.error.inj (hfailure.symm.trans (hthrow hstop))⟩
  · rintro ⟨depth, item, reason, hstop, rfl⟩
    exact hthrow hstop

end Stops

/-! ### Double precision -/

/-- What is told of an entry without a value in this context. -/
inductive ResolutionContext.Refuses (context : ResolutionContext) :
    ExpressionItem Term → String → Prop
  | division : Refuses context (.operator .divide) "division by zero"
  | percentage {operator : Option JoinOperator} {n : Numeric} (hkind : n.kind = .percent)
      (hbase : context.percentBase = none) :
      Refuses context (.operand ⟨operator, .numeric n⟩)
        ("no base to resolve " ++ n.text ++ " against")

/-- Only percentages depend on the context for having a value. -/
theorem ResolutionContext.canonical_eq_error {context : ResolutionContext} {n : Numeric}
    {reason : EvaluationError} (h : context.canonical n = .error reason) :
    n.kind = .percent ∧ context.percentBase = none ∧ reason = .noPercentBase n.text := by
  simp only [canonical] at h
  split at h
  · next hkind =>
    split at h
    · cases h
    · next hbase => exact ⟨hkind, hbase, (Except.error.inj h).symm⟩
  · split at h <;> cases h

theorem StopsAt.refuses {context : ResolutionContext} {t : ExpressionTree Term} {depth : Nat}
    {item : ExpressionItem Term} {reason : EvaluationError}
    (h : StopsAt context.canonical t depth item reason) :
    context.Refuses item reason.message ∧ reason.causes = [reason.message] := by
  obtain ⟨rfl, rfl⟩ | ⟨operator, n, rfl, hn⟩ := h.cause
  · exact ⟨.division, rfl⟩
  · obtain ⟨hkind, hbase, rfl⟩ := ResolutionContext.canonical_eq_error hn
    exact ⟨.percentage hkind hbase, rfl⟩

/-- **Only divisions and percentages fail.** A valid expression has no value in double precision
exactly if its evaluation stops at one of its entries. That is a division by zero or a percentage
that there is no base for, and there is one more reason in front for each nested expression around
it. So there is a value if nothing is divided and every percentage has a base. Writing the
expression cannot fail. -/
theorem Expression.only_divisions_and_percentages_fail {x : Expression Term}
    (hx : (Term.ofValue (.calc x)).Made) (hvalid : x.valid = true) (context : ResolutionContext) :
    (∃ t : ExpressionTree Term, x.items = t.postorder ∧
      (∀ failure, x.evaluate (doubleEvaluator context) = throw failure ↔
        ∃ depth item reason, StopsAt context.canonical t depth item reason ∧
          failure = .evaluation (EvaluationError.nested^[depth] reason)) ∧
      ∀ depth item reason, StopsAt context.canonical t depth item reason →
        x.HoldsAt depth item ∧ context.Refuses item reason.message ∧
        (Failure.evaluation (EvaluationError.nested^[depth] reason)).causes =
          List.replicate depth "could not evaluate calc() expression" ++ [reason.message]) ∧
    ((∀ depth, ¬ x.HoldsAt depth (.operator .divide)) →
      (context.percentBase = none → ∀ depth operator n,
        x.HoldsAt depth (.operand ⟨operator, .numeric n⟩) → n.kind ≠ .percent) →
      ∃ value, x.evaluate (doubleEvaluator context) = pure value) ∧
    ∃ text, x.text = .ok text := by
  obtain ⟨t, f, hitems, hf⟩ := Expression.exists_spelled hx hvalid
  have hholds : ∀ {depth item reason}, StopsAt context.canonical t depth item reason →
      x.HoldsAt depth item := fun hstop => hstop.holdsAt fun entry hentry => hitems ▸ hentry
  refine ⟨⟨t, hitems, fun failure => evaluate_eq_throw_iff hf hvalid hitems, ?_⟩, ?_,
    Expression.exists_text hx hvalid⟩
  · intro depth item reason hstop
    obtain ⟨hrefuses, hcauses⟩ := hstop.refuses
    refine ⟨hholds hstop, hrefuses, ?_⟩
    rw [← hcauses]
    exact EvaluationError.causes_nested depth reason
  · intro hdivide hpercent
    obtain ⟨value, hvalue⟩ | ⟨depth, item, reason, hstop⟩ := hf.outcome context.canonical
    · refine ⟨value, ?_⟩
      rw [evaluate_eq_of_postorder hvalid hitems, doubleEvaluator, hvalue]
      rfl
    · have hitem := hholds hstop
      obtain ⟨cause, hrefuses⟩ : ∃ cause, context.Refuses item cause := ⟨_, hstop.refuses.1⟩
      cases hrefuses with
      | division => exact absurd hitem (hdivide depth)
      | percentage hkind hbase => exact absurd hkind (hpercent hbase depth _ _ hitem)

/-- In `calc(1px + calc(50%))` the percentage has no base, so that the failure is told once for the
nested expression. With a base there is a value, since nothing is divided. -/
theorem Expression.nested_percentage_fails_without_base :
    let number := Term.ofValue (.numeric ⟨.length, 1, some .px⟩)
    let percentage : Numeric := ⟨.percent, 50, none⟩
    let y := Expression.ofTerms [Term.ofValue (.numeric percentage)]
    let x := Expression.ofTerms [number, Term.ofValue (.delimiter .plus), Term.ofValue (.calc y)]
    let failure := Failure.evaluation (.nested (.noPercentBase percentage.text))
    (Term.ofValue (.calc x)).Made ∧ x.valid = true ∧
      x.evaluate (doubleEvaluator .standard) = throw failure ∧
      (∃ t depth item reason, x.items = t.postorder ∧
        StopsAt ResolutionContext.standard.canonical t depth item reason ∧
        x.HoldsAt depth item ∧ ResolutionContext.standard.Refuses item reason.message ∧
        failure = .evaluation (EvaluationError.nested^[depth] reason)) ∧
      (∃ value, x.evaluate (doubleEvaluator { ResolutionContext.standard with
        percentBase := some 100 }) = pure value) ∧
      ∃ text, x.text = .ok text := by
  intro number percentage y x failure
  have hy : (Term.ofValue (.calc y)).Made := by
    refine .nested none fun t ht => ?_
    obtain rfl := List.mem_singleton.mp ht
    exact .plain rfl
  have hx : (Term.ofValue (.calc x)).Made := by
    refine .nested none fun t ht => ?_
    simp only [List.mem_cons, List.not_mem_nil, or_false] at ht
    obtain rfl | rfl | rfl := ht
    · exact .plain rfl
    · exact .plain rfl
    · exact hy
  have hvalid : x.valid = true := rfl
  have hfailure : x.evaluate (doubleEvaluator .standard) = throw failure := rfl
  have hdivide : ∀ depth, ¬ x.HoldsAt depth (.operator .divide) := by
    intro depth h
    have hitems : x.items = [.operand number, .operand (.ofValue (.calc y)), .operator .add] := rfl
    have hnested : y.items = [.operand (.ofValue (.numeric percentage))] := rfl
    cases h with
    | here h => simp [hitems] at h
    | @nested _ e operator _ _ he h =>
      obtain ⟨-, rfl⟩ : operator = none ∧ e = y := by simpa [hitems, number, Term.ofValue] using he
      cases h with
      | here h => simp [hnested] at h
      | nested he _ => simp [hnested, Term.ofValue] at he
  obtain ⟨⟨t, hitems, hstops, hentries⟩, -, htext⟩ :=
    Expression.only_divisions_and_percentages_fail hx hvalid .standard
  obtain ⟨depth, item, reason, hstop, hreason⟩ := (hstops failure).mp hfailure
  obtain ⟨hholds, hrefuses, -⟩ := hentries depth item reason hstop
  obtain ⟨-, hvalue, -⟩ := Expression.only_divisions_and_percentages_fail hx hvalid
    { ResolutionContext.standard with percentBase := some 100 }
  exact ⟨hx, hvalid, hfailure, ⟨t, depth, item, reason, hitems, hstop, hholds, hrefuses, hreason⟩,
    hvalue hdivide fun hbase => absurd hbase (Option.some_ne_none _), htext⟩

end CssModel
