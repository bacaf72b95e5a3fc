import CssModel.Expression.Resolution
import CssModel.Proofs.Expression.Postfix

/-!
# Evaluating nested expressions

An evaluator has one callback for operands, and it is free to do with a nested expression what it
likes. Most evaluate it by the same rules, as if its entries stood in its place. They may tell the
reason of a failure in another way then, since there is one more expression around it, but a value
is the same value. `SameValue` says this in any monad, with everything else that the callbacks do.

The evaluators of the library work on operands that have been prepared first, since a nested
expression holds terms again. So it has to be shown of each that it evaluates them by its own rules.

## Main definitions

* `CssModel.Evaluator.comap`: an evaluator behind a translation of the operands
* `CssModel.SameValue`, `CssModel.Evaluator.EvaluatesNested`
* `CssModel.Term.Made`: nothing but expressions that have been read, however deep

## Main results

* `CssModel.textEvaluator_evaluatesNested`, `CssModel.numericEvaluator_evaluatesNested`
* `CssModel.Evaluator.run_postorder_in`: trees of the same value in the place of one another
* `CssModel.Expression.exists_of_operand`: the operands of what has been read, valid or not
-/

namespace CssModel

/-! ### Translated operands -/

section Map

variable {m : Type → Type} [Monad m] {τ τ' α : Type}

def ExpressionItem.map (f : τ → τ') : ExpressionItem τ → ExpressionItem τ'
  | .operand term => .operand (f term)
  | .operator op => .operator op

/-- The same expression over other operands. -/
def Expression.map (f : τ → τ') (e : Expression τ) : Expression τ' :=
  ⟨e.items.map (.map f), e.family, e.integral, e.valid⟩

namespace Evaluator

/-- Translates every operand before it is evaluated. -/
def comap (f : τ → τ') (ev : Evaluator m τ' α) : Evaluator m τ α :=
  ⟨fun term => ev.argument (f term), ev.unary, ev.binary⟩

theorem step_map (f : τ → τ') (ev : Evaluator m τ' α) (stack : List α) (item : ExpressionItem τ) :
    ev.step stack (item.map f) = (ev.comap f).step stack item := by
  cases item with
  | operand term => rfl
  | operator op => rfl

theorem runFrom_map (f : τ → τ') (ev : Evaluator m τ' α) (stack : List α)
    (items : List (ExpressionItem τ)) :
    ev.runFrom stack (items.map (.map f)) = (ev.comap f).runFrom stack items := by
  induction items generalizing stack with
  | nil => rfl
  | cons item items ih => simp only [List.map_cons, runFrom, step_map, ih]

end Evaluator

theorem Expression.evaluate_map (f : τ → τ') (e : Expression τ) (ev : Evaluator m τ' α) :
    (e.map f).evaluate ev = e.evaluate (ev.comap f) := by
  simp only [evaluate, map, Evaluator.run, ev.runFrom_map]

end Map

/-! ### The same value -/

section SameValue

variable {m : Type → Type} [Monad m] {ε ε' α β : Type}

/-- Both have the same value or both fail, for whatever reason, and they do the same on the way. -/
def SameValue (x : ExceptT ε m α) (y : ExceptT ε' m α) : Prop :=
  Except.toOption <$> x.run = Except.toOption <$> y.run

theorem SameValue.refl (x : ExceptT ε m α) : SameValue x x :=
  rfl

theorem SameValue.symm {x : ExceptT ε m α} {y : ExceptT ε' m α} (h : SameValue x y) :
    SameValue y x :=
  Eq.symm h

theorem SameValue.trans {ε'' : Type} {x : ExceptT ε m α} {y : ExceptT ε' m α}
    {z : ExceptT ε'' m α} (hxy : SameValue x y) (hyz : SameValue y z) : SameValue x z :=
  Eq.trans hxy hyz

variable [LawfulMonad m]

theorem sameValue_adapt (wrap : ε → ε') (x : ExceptT ε m α) :
    SameValue (ExceptT.adapt wrap x) x := by
  have hadapt : (ExceptT.adapt wrap x).run = Except.mapError wrap <$> x.run := rfl
  have hforget : ∀ y : Except ε α, (y.mapError wrap).toOption = y.toOption := by
    intro y
    cases y <;> rfl
  rw [SameValue, hadapt, ← comp_map]
  exact congrArg (· <$> x.run) (funext hforget)

theorem eq_ok_of_toOption {x : Except ε α} {a : α} (h : x.toOption = some a) : x = .ok a := by
  cases x with
  | ok b => exact congrArg Except.ok (Option.some.inj h)
  | error e => cases h

/-- What is known of a computation apart from the reason of its failure. -/
theorem toOption_run_bind (x : ExceptT ε m α) (f : α → ExceptT ε m β) :
    Except.toOption <$> (x >>= f).run = Except.toOption <$> x.run >>= fun
      | some a => Except.toOption <$> (f a).run
      | none => pure none := by
  rw [ExceptT.run_bind, map_bind, bind_map_left]
  refine bind_congr fun y => ?_
  cases y with
  | ok a => rfl
  | error e => exact map_pure _ _

theorem SameValue.bind {x : ExceptT ε m α} {y : ExceptT ε' m α} (h : SameValue x y)
    {f : α → ExceptT ε m β} {g : α → ExceptT ε' m β} (hfg : ∀ a, SameValue (f a) (g a)) :
    SameValue (x >>= f) (y >>= g) := by
  rw [SameValue, toOption_run_bind, toOption_run_bind, h]
  refine bind_congr fun a => ?_
  cases a with
  | some a => exact hfg a
  | none => rfl

end SameValue

namespace Evaluator

variable {m : Type → Type} [Monad m] [LawfulMonad m] {τ α : Type} {t t' : ExpressionTree τ}

/-- **Trees of the same value in the place of one another.** Nothing is noticed of it in a list of
entries. -/
theorem run_postorder_in (ev : Evaluator m τ α) (h : SameValue (t.eval ev) (t'.eval ev))
    (xs ys : List (ExpressionItem τ)) :
    SameValue (ev.run (xs ++ (t.postorder ++ ys))) (ev.run (xs ++ (t'.postorder ++ ys))) := by
  have hrun : SameValue (ev.runFrom [] (xs ++ (t.postorder ++ ys)))
      (ev.runFrom [] (xs ++ (t'.postorder ++ ys))) := by
    rw [ev.runFrom_append, ev.runFrom_append]
    refine (SameValue.refl _).bind fun stack => ?_
    rw [ev.runFrom_postorder, ev.runFrom_postorder]
    exact h.bind fun value => .refl _
  exact hrun.bind fun stack => .refl _

end Evaluator

theorem Expression.sameValue_evaluate {m : Type → Type} [Monad m] [LawfulMonad m] {τ α : Type}
    {x y : Expression τ} {t t' : ExpressionTree τ} {xs ys : List (ExpressionItem τ)}
    {ev : Evaluator m τ α} (hx : x.valid = true) (hy : y.valid = true)
    (hxitems : x.items = xs ++ (t.postorder ++ ys)) (hyitems : y.items = xs ++ (t'.postorder ++ ys))
    (h : SameValue (t.eval ev) (t'.eval ev)) : SameValue (x.evaluate ev) (y.evaluate ev) := by
  rw [evaluate, evaluate, if_pos hx, if_pos hy, hxitems, hyitems]
  have hrun := ev.run_postorder_in h xs ys
  exact (sameValue_adapt _ _).trans (hrun.trans (sameValue_adapt _ _).symm)

/-! ### Nested expressions -/

/-- A nested expression is evaluated by the same evaluator. What becomes of a failure in it is left
open. -/
def Evaluator.EvaluatesNested {m : Type → Type} [Monad m] {α : Type} (ev : Evaluator m Term α) :
    Prop :=
  ∀ (operator : Option JoinOperator) (e : Expression Term),
    SameValue (ev.argument ⟨operator, .calc e⟩) (e.evaluate ev)

/-- An operand as it stands in an expression that is written. -/
def Term.writtenOperand (t : Term) : Written :=
  ⟨t.css .backslash, t.operandText⟩

theorem writtenItems_eq (items : List (ExpressionItem Term)) :
    writtenItems items = items.map (.map Term.writtenOperand) := by
  induction items with
  | nil => rfl
  | cons item items ih =>
    cases item with
    | operand t =>
      rw [writtenItems, ih]
      cases ht : t.value <;>
        simp [ExpressionItem.map, Term.writtenOperand, Term.css, Term.operandText, ht]
    | operator op =>
      rw [writtenItems, ih]
      rfl

/-- An expression is written in the same way at every level. -/
theorem Value.written_calc (level : EscapeLevel) (e : Expression Term) :
    (Value.calc e).written level = (e.map Term.writtenOperand).written := by
  rw [Value.written, writtenItems_eq]
  rfl

theorem Term.operandText_calc (operator : Option JoinOperator) (e : Expression Term) :
    Term.operandText ⟨operator, .calc e⟩ =
      (ExceptT.adapt .ofNested (e.evaluate textEvaluator)).run.run := by
  show ((Value.calc e).written .backslash).inside = _
  rw [Value.written_calc, Expression.written, Expression.evaluate_map]
  rfl

theorem textEvaluator_evaluatesNested : textEvaluator.EvaluatesNested := by
  intro operator e
  have hargument : textEvaluator.argument ⟨operator, .calc e⟩ =
      ExceptT.adapt .ofNested (e.evaluate textEvaluator) := Term.operandText_calc operator e
  rw [hargument]
  exact sameValue_adapt _ _

section Numbers

variable {α : Type} [Add α] [Sub α] [Mul α] [Div α] [Neg α] [OfNat α 0] [BEq α]

theorem measuredItems_eq (number : Numeric → Except EvaluationError α)
    (items : List (ExpressionItem Term)) :
    measuredItems number items = items.map (.map (Term.measure number)) := by
  induction items with
  | nil => rfl
  | cons item items ih =>
    cases item with
    | operand t | operator op =>
      rw [measuredItems, ih]
      rfl

theorem numericEvaluator_argument_calc (number : Numeric → Except EvaluationError α)
    (operator : Option JoinOperator) (e : Expression Term) :
    (numericEvaluator number).argument ⟨operator, .calc e⟩ =
      ExceptT.adapt .ofNested (e.evaluate (numericEvaluator number)) := by
  have hmap : (⟨measuredItems number e.items, e.family, e.integral, e.valid⟩ :
      Expression (Except EvaluationError α)) = e.map (Term.measure number) := by
    rw [measuredItems_eq]
    rfl
  show (ExceptT.mk (m := Id) ((Value.calc e).measure number operator)) = _
  rw [Value.measure, hmap, Expression.evaluateNested, Expression.evaluate_map]
  rfl

theorem numericEvaluator_evaluatesNested (number : Numeric → Except EvaluationError α) :
    (numericEvaluator number).EvaluatesNested := by
  intro operator e
  rw [numericEvaluator_argument_calc]
  exact sameValue_adapt _ _

end Numbers

/-! ### What has been read -/

/-- Every expression that the term holds, or that is nested in one of these, has been read from
terms. -/
inductive Term.Made : Term → Prop
  | plain {t : Term} (h : t.calc? = none) : Made t
  | nested (operator : Option JoinOperator) {ts : List Term} (h : ∀ t ∈ ts, Made t) :
      Made ⟨operator, .calc (Expression.ofTerms ts)⟩

theorem ReaderStep.eq_or_mem_of_operand {r next : ExpressionReader} {t u : Term}
    (h : ReaderStep r t next) (hu : .operand u ∈ next.items) :
    .operand u ∈ r.items ∨ t.IsOperand ∧ u = t.withOperator none := by
  cases h with
  | operand htype _ =>
    obtain hu | hu := List.mem_append.mp hu
    · exact .inl hu
    · rw [List.mem_singleton, ExpressionItem.operand.injEq] at hu
      exact .inr ⟨(Term.isOperand_of_operandType? htype).1, hu⟩
  | negative | positive | openBracket => exact .inl hu
  | operator | closeBracket => exact .inl (by simpa [ExpressionReader.emit] using hu)

namespace ExpressionReader

variable {r : ExpressionReader} {t u : Term}

/-- An argument that is a problem puts out nothing but operators. -/
theorem exists_items_eq_of_problem {problem : ExpressionProblem}
    (h : (r.step t).2 = some problem) :
    ∃ ops : List MathOperator, (r.step t).1.items = r.items ++ ops.map .operator := by
  rw [step] at h ⊢
  cases ht : t.delimiter? with
  | none =>
    simp only [ht, operand] at h ⊢
    split
    · exact ⟨[], (List.append_nil _).symm⟩
    · split
      · exact ⟨[], (List.append_nil _).symm⟩
      · next htype _ _ hjoin => simp [htype, hjoin] at h
  | some d =>
    cases hd : MathOperator.ofDelimiter? d with
    | some op =>
      simp only [ht, hd, operator] at h ⊢
      split
      · split <;> exact ⟨[], (List.append_nil _).symm⟩
      · exact ⟨_, rfl⟩
    | none =>
      cases d with
      | leftParen => simp [ht, hd] at h
      | rightParen =>
        simp only [hd, closeBracket]
        split <;> exact ⟨_, rfl⟩
      | comma => exact ⟨[], (List.append_nil _).symm⟩
      | plus | minus | star | slash => simp [MathOperator.ofDelimiter?] at hd

theorem eq_or_mem_of_operand_step (h : .operand u ∈ (r.step t).1.items) :
    .operand u ∈ r.items ∨ t.IsOperand ∧ u = t.withOperator none := by
  cases hproblem : (r.step t).2 with
  | none => exact (step_eq_iff.mp (Prod.ext rfl hproblem)).eq_or_mem_of_operand h
  | some problem =>
    obtain ⟨ops, hitems⟩ := exists_items_eq_of_problem hproblem
    rw [hitems] at h
    exact .inl (by simpa using h)

theorem exists_of_operand_steps {ts : List Term} (h : .operand u ∈ (r.steps ts).1.items) :
    .operand u ∈ r.items ∨ ∃ t ∈ ts, t.IsOperand ∧ u = t.withOperator none := by
  induction ts generalizing r with
  | nil => exact .inl h
  | cons t ts ih =>
    have hfirst (hu : .operand u ∈ (r.step t).1.items) :
        .operand u ∈ r.items ∨ ∃ t' ∈ t :: ts, t'.IsOperand ∧ u = t'.withOperator none := by
      obtain hold | hnew := eq_or_mem_of_operand_step hu
      · exact .inl hold
      · exact .inr ⟨t, List.mem_cons_self, hnew⟩
    rw [steps] at h
    split at h
    · next next hstep =>
      obtain hnext | ⟨t', ht', hfound⟩ := ih h
      · exact hfirst (by rwa [hstep])
      · exact .inr ⟨t', List.mem_cons_of_mem t ht', hfound⟩
    · -- the reading stops here, and what is out by then is kept
      next next problem hstep => exact hfirst (by rwa [hstep])

end ExpressionReader

/-- What is put out behind the last argument that was read are operators. -/
theorem Expression.exists_items_ofTerms (ts : List Term) : ∃ ops : List MathOperator,
    (ofTerms ts).items = (ExpressionReader.start.steps ts).1.items ++ ops.map .operator := by
  have hread : (ofTerms ts).items = (readTerms ts).1.items := rfl
  rw [hread, readTerms]
  split
  · next hsteps => exact ⟨[], by rw [hsteps, List.map_nil, List.append_nil]⟩
  · next reader hsteps =>
    have hfinish : reader.finish.1.items =
        reader.items ++ (splitPending (fun _ => true) reader.stack).1.map .operator := rfl
    refine ⟨(splitPending (fun _ => true) reader.stack).1, ?_⟩
    rw [hsteps]
    split
    · next hdone => rw [← hfinish, hdone]
    · next hdone => rw [← hfinish, hdone]

/-- **What an expression holds**, valid or not: arguments that can be operands, without the operator
in front. -/
theorem Expression.exists_of_operand {ts : List Term} {u : Term}
    (h : .operand u ∈ (ofTerms ts).items) : ∃ t ∈ ts, t.IsOperand ∧ u = t.withOperator none := by
  have hstart : .operand u ∉ ExpressionReader.start.items := List.not_mem_nil
  obtain ⟨ops, hitems⟩ := exists_items_ofTerms ts
  rw [hitems] at h
  have hread : .operand u ∈ (ExpressionReader.start.steps ts).1.items := by simpa using h
  exact (ExpressionReader.exists_of_operand_steps hread).resolve_left hstart

theorem Term.made_of_delimiter {t : Term} {d : Delimiter} (h : t.delimiter? = some d) : t.Made := by
  refine .plain ?_
  rw [delimiter?] at h
  split at h
  · next hvalue => rw [calc?, hvalue]
  · cases h

end CssModel
