import CssModel.Proofs.Term.Construction

/-!
# What reading keeps

The entries of an expression come from two sources: operands are put out when they are read,
operators by way of the stack, in an order that depends on everything around them. This concerns
their order only. Whether an argument is an operand, a sign, an operator between two operands or
none of these is told by the argument and the one before it, and each of them is put out once.

## The invariant

What is out and what waits is taken together, by `ExpressionReader.held`: one argument adds to it
the operator that is written there, and otherwise moves operators from the stack to the entries. So
nothing has to be known about priorities and brackets. That the reader may stop at a problem matters
for the operands alone, of which those read by then are out. The arguments need not be an expression
of the grammar for any of this: it holds of `1 2 +` as it does of `1 + 2`.

## Main definitions

* `CssModel.givenOperands`, `CssModel.writtenOperators`: the operands and operators of a list, told
  without reading it
* `CssModel.binaryCount`: how many operators take two operands
* `CssModel.ExpressionReader.held`: the operators that the reader has met

## Main results

* `CssModel.ExpressionReader.exists_operandsOf_steps`, `CssModel.ExpressionReader.held_steps_perm`
* `CssModel.ExpressionTree.length_operandsOf_postorder`
* `CssModel.make_keeps_operands`
-/

namespace CssModel

/-! ### What is written -/

/-- The arguments that are no delimiters, without the operator in front. -/
def givenOperands (ts : List Term) : List Term :=
  (ts.filter fun t => t.delimiter? = none).map (·.withOperator none)

/-- Whether an operand is expected behind this argument, so that plus and minus are signs there:
behind an opening bracket and behind an operator or sign. -/
def Term.expectsOperand (t : Term) : Bool :=
  match t.delimiter? with
  | some .leftParen | some .plus | some .minus | some .star | some .slash => true
  | _ => false

/-- The operator that the argument is. Where signs are expected a minus sign negates, and a plus
sign is nothing. -/
def Term.writtenOperator? (t : Term) (signExpected : Bool) : Option MathOperator :=
  match t.delimiter? with
  | some .plus => if signExpected then none else some .add
  | some .minus => if signExpected then some .negate else some .subtract
  | some .star => some .multiply
  | some .slash => some .divide
  | _ => none

/-- The operators of the arguments from left to right, each with the argument before it in view.
`signExpected` is for the first one. -/
def writtenOperators (signExpected : Bool) (ts : List Term) : List MathOperator :=
  ((signExpected :: ts.map Term.expectsOperand).zip ts).filterMap fun p =>
    p.2.writtenOperator? p.1

theorem givenOperands_append (ts us : List Term) :
    givenOperands (ts ++ us) = givenOperands ts ++ givenOperands us := by
  simp [givenOperands]

theorem givenOperands_operand {t : Term} (h : t.delimiter? = none) :
    givenOperands [t] = [t.withOperator none] := by
  simp [givenOperands, h]

theorem givenOperands_delimiter {t : Term} {d : Delimiter} (h : t.delimiter? = some d) :
    givenOperands [t] = [] := by
  simp [givenOperands, h]

theorem writtenOperators_cons (signExpected : Bool) (t : Term) (ts : List Term) :
    writtenOperators signExpected (t :: ts) =
      (t.writtenOperator? signExpected).toList ++ writtenOperators t.expectsOperand ts := by
  cases h : t.writtenOperator? signExpected with
  | none | some op => simp [writtenOperators, h]

theorem Term.writtenOperator?_of_ofDelimiter? {t : Term} {d : Delimiter} {op : MathOperator}
    (ht : t.delimiter? = some d) (hd : MathOperator.ofDelimiter? d = some op) :
    t.writtenOperator? false = some op := by
  cases d with
  | plus | minus | star | slash => simpa [writtenOperator?, ht, MathOperator.ofDelimiter?] using hd
  | comma | leftParen | rightParen => cases hd

theorem Term.expectsOperand_of_ofDelimiter? {t : Term} {d : Delimiter} {op : MathOperator}
    (ht : t.delimiter? = some d) (hd : MathOperator.ofDelimiter? d = some op) :
    t.expectsOperand = true := by
  cases d with
  | plus | minus | star | slash => simp [expectsOperand, ht]
  | comma | leftParen | rightParen => cases hd

/-! ### Entries -/

section Entries

variable {τ : Type}

/-- The operators among the entries. -/
def operatorsOf (items : List (ExpressionItem τ)) : List MathOperator :=
  items.filterMap fun
    | .operand _ => none
    | .operator op => some op

/-- The operators of an expression, in the order in which they are put out. -/
def Expression.operators (e : Expression τ) : List MathOperator :=
  operatorsOf e.items

@[simp]
theorem operandsOf_append (xs ys : List (ExpressionItem τ)) :
    operandsOf (xs ++ ys) = operandsOf xs ++ operandsOf ys :=
  List.filterMap_append

@[simp]
theorem operatorsOf_append (xs ys : List (ExpressionItem τ)) :
    operatorsOf (xs ++ ys) = operatorsOf xs ++ operatorsOf ys :=
  List.filterMap_append

@[simp]
theorem operandsOf_operand (t : τ) : operandsOf [.operand t] = [t] :=
  rfl

@[simp]
theorem operandsOf_map_operator (ops : List MathOperator) :
    operandsOf (ops.map (ExpressionItem.operator (τ := τ))) = [] := by
  simp [operandsOf, List.filterMap_map]

@[simp]
theorem operatorsOf_operand (t : τ) : operatorsOf [.operand t] = [] :=
  rfl

@[simp]
theorem operatorsOf_map_operator (ops : List MathOperator) :
    operatorsOf (ops.map (ExpressionItem.operator (τ := τ))) = ops := by
  simp [operatorsOf, List.filterMap_map]

/-- How many of the operators take two operands. -/
def binaryCount (ops : List MathOperator) : Nat :=
  ops.countP (! ·.isUnary)

theorem binaryCount_append (ops ops' : List MathOperator) :
    binaryCount (ops ++ ops') = binaryCount ops + binaryCount ops' :=
  List.countP_append

theorem binaryCount_singleton {op : MathOperator} (h : op.isUnary = false) :
    binaryCount [op] = 1 := by
  simp [binaryCount, h]

/-- A tree has one operation less than it has operands; negations do not count. -/
theorem ExpressionTree.length_operandsOf_postorder (e : ExpressionTree τ) :
    (operandsOf e.postorder).length = binaryCount (operatorsOf e.postorder) + 1 := by
  induction e with
  | operand t => rfl
  | negation e ih =>
    have hoperands : operandsOf (negation e).postorder = operandsOf e.postorder := by
      rw [postorder, operandsOf_append, ← List.map_singleton, operandsOf_map_operator,
        List.append_nil]
    have hoperators :
        operatorsOf (negation e).postorder = operatorsOf e.postorder ++ [.negate] := by
      rw [postorder, operatorsOf_append, ← List.map_singleton, operatorsOf_map_operator]
    rw [hoperands, hoperators, binaryCount_append, ih]
    rfl
  | operation op binary l r ihl ihr =>
    have hoperands : operandsOf (operation op binary l r).postorder =
        operandsOf l.postorder ++ operandsOf r.postorder := by
      rw [postorder, operandsOf_append, operandsOf_append, ← List.map_singleton,
        operandsOf_map_operator, List.append_nil]
    have hoperators : operatorsOf (operation op binary l r).postorder =
        operatorsOf l.postorder ++ operatorsOf r.postorder ++ [op] := by
      rw [postorder, operatorsOf_append, operatorsOf_append, ← List.map_singleton,
        operatorsOf_map_operator]
    rw [hoperands, hoperators, List.length_append, binaryCount_append, binaryCount_append,
      binaryCount_singleton binary, ihl, ihr]
    omega

end Entries

/-! ### One argument -/

/-- The operators on the stack. -/
def waitingOperators (stack : List Pending) : List MathOperator :=
  stack.filterMap fun
    | .openBracket => none
    | .operator op => some op

@[simp]
theorem waitingOperators_openBracket (stack : List Pending) :
    waitingOperators (.openBracket :: stack) = waitingOperators stack :=
  rfl

@[simp]
theorem waitingOperators_map_append (ops : List MathOperator) (stack : List Pending) :
    waitingOperators (ops.map .operator ++ stack) = ops ++ waitingOperators stack := by
  simp [waitingOperators, List.filterMap_map]

/-- The operators that the reader has met: those that are out and those that wait. -/
def ExpressionReader.held (r : ExpressionReader) : List MathOperator :=
  operatorsOf r.items ++ waitingOperators r.stack

/-- An operator that is made to wait has been met. -/
theorem ExpressionReader.held_push_perm (r : ExpressionReader) (op : MathOperator) :
    (held { r with stack := .operator op :: r.stack }).Perm (r.held ++ [op]) :=
  List.perm_middle.trans (List.perm_append_singleton _ _).symm

/-- What is put out has been waiting. -/
theorem ExpressionReader.held_emit {r : ExpressionReader} {p : MathOperator → Bool}
    {ops : List MathOperator} {below : List Pending}
    (h : splitPending p r.stack = (ops, below)) : (r.emit ops below).held = r.held := by
  have hstack : waitingOperators r.stack = ops ++ waitingOperators below := by
    rw [eq_append_of_splitPending h, waitingOperators_map_append]
  have hitems : operatorsOf (r.emit ops below).items = operatorsOf r.items ++ ops := by
    rw [emit, operatorsOf_append, operatorsOf_map_operator]
  rw [held, held, hitems, hstack, List.append_assoc]
  rfl

section Step

variable {r next : ExpressionReader} {t : Term}

/-- Whether signs are expected is told by the last argument. -/
theorem ReaderStep.signExpected_eq (h : ReaderStep r t next) :
    next.signExpected = t.expectsOperand := by
  cases h with
  | operand ht _ =>
    have hnone : t.delimiter? = none := Term.delimiter?_eq_none (by simp [ht])
    simp [Term.expectsOperand, hnone]
  | negative ht hr | positive ht hr => simp [Term.expectsOperand, ht, hr]
  | operator ht hd => exact (Term.expectsOperand_of_ofDelimiter? ht hd).symm
  | openBracket ht | closeBracket ht => simp [Term.expectsOperand, ht]

/-- An operand is put out at once. -/
theorem ReaderStep.operandsOf_eq (h : ReaderStep r t next) :
    operandsOf next.items = operandsOf r.items ++ givenOperands [t] := by
  cases h with
  | operand ht _ =>
    rw [givenOperands_operand (Term.delimiter?_eq_none (by simp [ht])), operandsOf_append,
      operandsOf_operand]
  | negative ht | positive ht | openBracket ht =>
    rw [givenOperands_delimiter ht, List.append_nil]
  | operator ht | closeBracket ht =>
    rw [givenOperands_delimiter ht, ExpressionReader.emit, operandsOf_append,
      operandsOf_map_operator]

/-- **An operator is put out or waits.** No other one is lost by it or taken twice. -/
theorem ReaderStep.held_perm (h : ReaderStep r t next) :
    next.held.Perm (r.held ++ (t.writtenOperator? r.signExpected).toList) := by
  cases h with
  | operand ht _ =>
    have hnone : t.delimiter? = none := Term.delimiter?_eq_none (by simp [ht])
    simp [ExpressionReader.held, Term.writtenOperator?, hnone]
  | negative ht hr =>
    have hwritten : t.writtenOperator? r.signExpected = some .negate := by
      simp [Term.writtenOperator?, ht, hr]
    rw [hwritten]
    exact r.held_push_perm .negate
  | positive ht hr => simp [Term.writtenOperator?, ht, hr]
  | @operator d op ops below ht hd hr hsplit =>
    rw [hr, Term.writtenOperator?_of_ofDelimiter? ht hd, ← ExpressionReader.held_emit hsplit]
    exact (r.emit ops below).held_push_perm op
  | openBracket ht => simp [ExpressionReader.held, Term.writtenOperator?, ht]
  | closeBracket ht hsplit =>
    have hnone : t.writtenOperator? r.signExpected = none := by simp [Term.writtenOperator?, ht]
    rw [hnone, ← ExpressionReader.held_emit hsplit, Option.toList_none, List.append_nil]
    -- the bracket that comes off the stack is no operator
    exact .refl _

end Step

/-! ### The whole list -/

namespace ExpressionReader

/-- **The operands that are out** are those of the arguments that have been read: of all of them if
there is no problem. -/
theorem exists_operandsOf_steps (r : ExpressionReader) (ts : List Term) :
    ∃ out, out <+: givenOperands ts ∧ operandsOf (r.steps ts).1.items = operandsOf r.items ++ out ∧
      ((r.steps ts).2 = none → out = givenOperands ts) := by
  induction ts generalizing r with
  | nil => exact ⟨[], List.nil_prefix, (List.append_nil _).symm, fun _ => rfl⟩
  | cons t ts ih =>
    have hgiven : givenOperands (t :: ts) = givenOperands [t] ++ givenOperands ts :=
      givenOperands_append [t] ts
    rw [steps, hgiven]
    split
    · next next hstep =>
      obtain ⟨out, hprefix, hout, hall⟩ := ih next
      refine ⟨givenOperands [t] ++ out, (List.prefix_append_right_inj _).mpr hprefix, ?_,
        fun hnone => by rw [hall hnone]⟩
      rw [hout, (step_eq_iff.mp hstep).operandsOf_eq, List.append_assoc]
    · next next problem hstep =>
      -- an argument that is a problem is not put out, nor is anything behind it
      obtain ⟨ops, hitems⟩ := exists_items_eq_of_problem (congrArg Prod.snd hstep)
      rw [hstep] at hitems
      refine ⟨[], List.nil_prefix, ?_, fun hnone => by cases hnone⟩
      rw [hitems, operandsOf_append, operandsOf_map_operator]

/-- **The operators that have been met** are those that are written. -/
theorem held_steps_perm {r next : ExpressionReader} {ts : List Term}
    (h : r.steps ts = (next, none)) :
    next.held.Perm (r.held ++ writtenOperators r.signExpected ts) := by
  induction ts generalizing r with
  | nil =>
    obtain ⟨rfl, -⟩ := Prod.mk.inj h
    simp [writtenOperators]
  | cons t ts ih =>
    obtain ⟨mid, hstep, hrest⟩ := steps_cons_iff.mp h
    have hmid := ih hrest
    rw [hstep.signExpected_eq] at hmid
    rw [writtenOperators_cons, ← List.append_assoc]
    exact hmid.trans (hstep.held_perm.append_right _)

end ExpressionReader

theorem Expression.operands_ofTerms (ts : List Term) :
    (ofTerms ts).operands = operandsOf (ExpressionReader.start.steps ts).1.items := by
  obtain ⟨ops, hitems⟩ := exists_items_ofTerms ts
  rw [operands, hitems, operandsOf_append, operandsOf_map_operator, List.append_nil]

namespace Accepted

variable {ts : List Term} {last : ExpressionReader} {ops : List MathOperator}

theorem operators_perm (h : Accepted ts last ops) :
    (Expression.ofTerms ts).operators.Perm (writtenOperators true ts) := by
  have hheld : (Expression.ofTerms ts).operators = (last.emit ops []).held := by
    rw [h.ofTerms_eq]
    exact (List.append_nil _).symm
  rw [hheld, ExpressionReader.held_emit h.splitPending_stack]
  exact ExpressionReader.held_steps_perm h.steps

theorem length_operands (h : Accepted ts last ops) : (Expression.ofTerms ts).operands.length =
    binaryCount (Expression.ofTerms ts).operators + 1 := by
  obtain ⟨e, he⟩ := h.exists_postorder
  rw [Expression.operands, Expression.operators, he, e.length_operandsOf_postorder]

end Accepted

/-- **Reading keeps operands and operators.** Whatever the arguments are, the operands of their
expression are the first ones of those given, in their order. If it is valid, they are all of them,
its operators are those that are written, in some order, and there is one operand more than there
are operators between two operands. -/
theorem make_keeps_operands {ts : List Term} (hne : ts ≠ []) (log : WarningLog) :
    ∃ made : Expression Term, ((Expression.make ts).run.run log).1 = .ok made ∧
      made.operands <+: givenOperands ts ∧
      (made.valid = true → made.operands = givenOperands ts ∧
        made.operators.Perm (writtenOperators true ts) ∧
        made.operands.length = binaryCount made.operators + 1) := by
  obtain ⟨out, hprefix, hout, hall⟩ := ExpressionReader.start.exists_operandsOf_steps ts
  have hoperands : (Expression.ofTerms ts).operands = out := by
    rw [Expression.operands_ofTerms, hout]
    rfl
  refine ⟨_, Expression.outcome_make hne log, hoperands ▸ hprefix, fun hvalid => ?_⟩
  obtain ⟨last, ops, haccepted⟩ := Expression.valid_iff_accepted.mp hvalid
  have hnone : (ExpressionReader.start.steps ts).2 = none := congrArg Prod.snd haccepted.steps
  exact ⟨hoperands.trans (hall hnone), haccepted.operators_perm, haccepted.length_operands⟩

/-- In `-1 * (+2 - 3)` the first minus sign is a negation and the plus sign is nothing; the
multiplication is put out last. -/
theorem make_keeps_operands_signed :
    let int := fun n => Term.ofValue (.numeric (.ofInt n))
    let d := fun d => Term.ofValue (.delimiter d)
    let terms := [d .minus, int 1, d .star, d .leftParen, d .plus,
      (int 2).withOperator (some .space), d .minus, int 3, d .rightParen]
    terms ≠ [] ∧ ∃ made : Expression Term, ((Expression.make terms).run.run .empty).1 = .ok made ∧
      made.valid = true ∧ made.operands = [int 1, int 2, int 3] ∧
        made.operators = [.negate, .subtract, .multiply] ∧
          made.operators.Perm [.negate, .multiply, .subtract] ∧
            made.operands.length = binaryCount made.operators + 1 := by
  intro int d terms
  have hne : terms ≠ [] := List.cons_ne_nil _ _
  have hvalid : (Expression.ofTerms terms).valid = true := rfl
  obtain ⟨made, hmade, -, hkept⟩ := make_keeps_operands hne .empty
  obtain rfl : Expression.ofTerms terms = made :=
    Except.ok.inj ((Expression.outcome_make hne .empty).symm.trans hmade)
  obtain ⟨hoperands, hoperators, hlength⟩ := hkept hvalid
  exact ⟨hne, _, hmade, hvalid, hoperands, rfl, hoperators, hlength⟩

/-- In `1 + a 2` the name is a problem, and nothing behind it is read. -/
example :
    let int := fun n => Term.ofValue (.numeric (.ofInt n))
    let terms := [int 1, Term.ofValue (.delimiter .plus), Term.ofValue (.ident "a"), int 2]
    (Expression.ofTerms terms).operands = [int 1] ∧ (givenOperands terms).length = 3 :=
  ⟨rfl, rfl⟩

end CssModel
