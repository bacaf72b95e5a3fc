import CssModel.Proofs.Expression.Operands
import CssModel.Proofs.Expression.Spelling

/-!
# Nested expressions and brackets

A nested expression among the arguments is one operand. Its own arguments between brackets are many,
with operators that wait, and yet they make no difference. What the reader does with them, it does
on top of an open bracket, as if nothing had been read before, and the closing bracket puts out the
rest. So the entries of the nested expression come out in the place of the one operand, and the
reader goes on from the same state.

## Where the operand stands

`ReadsAs` says of arguments that they are read as a tree by any reader, wherever it may be. The
operand has this property, and so have its arguments between brackets. Two lists of arguments with
this property can take the place of one another anywhere, and nothing else about them is needed.

## Main definitions

* `CssModel.ReadsAs`: arguments that are read as a tree wherever they stand

## Main results

* `CssModel.readsAs_operand`, `CssModel.Accepted.readsAs_brackets`
* `CssModel.Accepted.replace`: arguments in the place of others
* `CssModel.make_nested_eq_flat`
-/

namespace CssModel

/-! ### Read anywhere -/

/-- Wherever the reader comes to these arguments with a family that goes with `f`, it puts out the
tree, and nothing of it waits. -/
def ReadsAs (f : UnitFamily) (us : List Term) (tree : ExpressionTree Term) : Prop :=
  ∀ r : ExpressionReader, f.GoesWith r.family →
    ∃ next, r.steps us = (next, none) ∧ PutOut f tree r.stack false r next

section ReadsAs

variable {f : UnitFamily} {tree tree' : ExpressionTree Term} {t o c : Term}
  {ts us us' pre post inner : List Term} {last : ExpressionReader} {ops : List MathOperator}

theorem readsAs_operand (ht : t.IsOperand) (hf : f.GoesWith t.unitFamily) :
    ReadsAs f [t] (.operand (t.withOperator none)) := by
  intro r hr
  obtain ⟨integral, htype⟩ := ht.operandType?_eq
  obtain ⟨joined, hjoin, hjoined⟩ := hr.join hf
  exact ⟨_, ExpressionReader.steps_cons_iff.mpr ⟨_, .operand htype hjoin, rfl⟩,
    rfl, rfl, rfl, hjoined⟩

/-- **Brackets.** What is accepted on its own is read in the same way between brackets. -/
theorem Accepted.readsAs_brackets (h : Accepted inner last ops)
    (htree : (Expression.ofTerms inner).items = tree.postorder)
    (ho : o.delimiter? = some .leftParen) (hc : c.delimiter? = some .rightParen)
    (hf : ∀ t ∈ inner, f.GoesWith t.unitFamily) : ReadsAs f (o :: (inner ++ [c])) tree := by
  intro r hr
  -- behind the open bracket the reader is a new one, with more below on its stack
  let opened : ExpressionReader := { r with stack := .openBracket :: r.stack, signExpected := true }
  have hfits : ∀ t ∈ inner, t.Fits f := fun t ht => ⟨(h.fits t ht).isOperand, hf t ht⟩
  have hbase := closed_openBracket r.stack
  have hopened : opened.stack = ExpressionReader.start.stack ++ .openBracket :: r.stack := rfl
  obtain ⟨mid, out, hmid, hout, hout', hstack, hfamily⟩ :=
    ExpressionReader.steps_above hbase hopened rfl h.steps hfits hr
  have hsplit : splitPending (fun _ => true) mid.stack = (ops, .openBracket :: r.stack) := by
    rw [hstack]
    exact hbase.splitPending_append h.splitPending_stack
  refine ⟨{ mid.emit ops r.stack with signExpected := false }, ?_, ?_, rfl, rfl, hfamily⟩
  · refine ExpressionReader.steps_cons_iff.mpr ⟨opened, .openBracket ho, ?_⟩
    rw [ExpressionReader.steps_append hmid]
    exact ExpressionReader.steps_cons_iff.mpr ⟨_, .closeBracket hc hsplit, rfl⟩
  · have hlast : last.items = out := hout
    have hmiditems : mid.items = r.items ++ out := hout'
    show mid.items ++ ops.map .operator = r.items ++ tree.postorder
    rw [hmiditems, ← htree, h.ofTerms_eq, hlast, List.append_assoc]

/-- **Arguments in the place of others** that are read as a tree too. The entries are the same
before the tree and behind it. -/
theorem Accepted.replace (h : Accepted (pre ++ (us ++ post)) last ops)
    (hus : ReadsAs last.family us tree) (hus' : ReadsAs last.family us' tree') :
    ∃ last' xs ys, Accepted (pre ++ (us' ++ post)) last' ops ∧
      (Expression.ofTerms (pre ++ (us ++ post))).items = xs ++ (tree.postorder ++ ys) ∧
      (Expression.ofTerms (pre ++ (us' ++ post))).items = xs ++ (tree'.postorder ++ ys) := by
  obtain ⟨mid, hpre, hrest⟩ := ExpressionReader.exists_steps_of_append h.steps
  obtain ⟨next, hnext, hpost⟩ := ExpressionReader.exists_steps_of_append hrest
  have hmidfamily : last.family.GoesWith mid.family := (ExpressionReader.goesWith_of_steps hrest).1
  obtain ⟨read, hread, hput⟩ := hus mid hmidfamily
  obtain ⟨read', hread', hput'⟩ := hus' mid hmidfamily
  obtain rfl : read = next := congrArg Prod.fst (hread.symm.trans hnext)
  -- behind the replaced arguments the two readers differ in what is out, which is never looked at
  have hfits : ∀ t ∈ post, t.Fits last.family := fun t ht => h.fits t (by simp [ht])
  have hstack : read'.stack = read.stack ++ [] := by
    rw [List.append_nil, hput.stack, hput'.stack]
  obtain ⟨last', out, hpost', hout, hout', hstack', -⟩ := ExpressionReader.steps_above closed_nil
    hstack (hput'.signExpected.trans hput.signExpected.symm) hpost hfits hput'.family
  have hitems : last.items ++ ops.map .operator =
      mid.items ++ (tree.postorder ++ (out ++ ops.map .operator)) := by
    rw [hout, hput.items, List.append_assoc, List.append_assoc]
  have hitems' : last'.items ++ ops.map .operator =
      mid.items ++ (tree'.postorder ++ (out ++ ops.map .operator)) := by
    rw [hout', hput'.items, List.append_assoc, List.append_assoc]
  have hreplaced : Accepted (pre ++ (us' ++ post)) last' ops := by
    refine ⟨?_, ?_, ?_⟩
    · rw [ExpressionReader.steps_append hpre, ExpressionReader.steps_append hread', hpost']
    · rw [hstack', List.append_nil, h.stack]
    · rw [hitems', ← h.arity, hitems]
      refine arityProblem?_append_congr (fun depth => ?_) mid.items 0
      rw [arityProblem?_postorder, arityProblem?_postorder]
  refine ⟨last', mid.items, out ++ ops.map .operator, hreplaced, ?_, ?_⟩
  · rw [h.ofTerms_eq, hitems]
  · rw [hreplaced.ofTerms_eq, hitems']

end ReadsAs

/-! ### A nested expression and its arguments -/

section Nested

variable {pre inner post : List Term} {n o c : Term} {inside last : ExpressionReader}
  {innerOps ops : List MathOperator} {tree : ExpressionTree Term} {f : UnitFamily}

theorem append_brackets :
    pre ++ o :: inner ++ c :: post = pre ++ (o :: (inner ++ [c]) ++ post) := by
  simp

/-- What holds of all arguments may be asked of the nested expression or of its own arguments. -/
theorem forall_mem_nested_iff {P : Term → Prop} (hn : P n ↔ ∀ t ∈ inner, P t) (ho : P o)
    (hc : P c) :
    (∀ t ∈ pre ++ n :: post, P t) ↔ ∀ t ∈ pre ++ o :: inner ++ c :: post, P t := by
  simp only [List.forall_mem_append, List.forall_mem_cons, hn, ho, hc, true_and, and_assoc]

/-- What goes with the nested expression goes with all its operands. -/
theorem Accepted.goesWith_iff (h : Accepted inner inside innerOps)
    (hn : n.value = .calc (Expression.ofTerms inner)) :
    f.GoesWith n.unitFamily ↔ ∀ t ∈ inner, f.GoesWith t.unitFamily := by
  have hfamily : n.unitFamily = inside.family := by
    rw [Term.unitFamily, hn, h.ofTerms_eq]
  rw [hfamily]
  constructor
  · exact fun hf t ht => hf.trans (h.hasFamily.goesWith t ht)
  · intro hf
    obtain hnone | ⟨t, ht, ht'⟩ := h.hasFamily.occurs
    · exact .inl hnone
    · exact ht' ▸ hf t ht

theorem Accepted.isIntegral_iff (h : Accepted inner inside innerOps)
    (hn : n.value = .calc (Expression.ofTerms inner)) :
    n.IsIntegral ↔ ∀ t ∈ inner, t.IsIntegral := by
  have hvalid := Expression.valid_iff_accepted.mpr ⟨inside, innerOps, h⟩
  have htype : n.operandType? =
      some ((Expression.ofTerms inner).family, (Expression.ofTerms inner).integral) := by
    rw [Term.operandType?, hn]
    exact if_pos hvalid
  rw [← Term.integral_iff_of_operandType? htype, h.ofTerms_eq]
  exact h.integral_iff

theorem Accepted.readsAs_nested (h : Accepted inner inside innerOps)
    (hn : n.value = .calc (Expression.ofTerms inner)) (hf : f.GoesWith n.unitFamily) :
    ReadsAs f [n] (.operand (n.withOperator none)) := by
  have hvalid := Expression.valid_iff_accepted.mpr ⟨inside, innerOps, h⟩
  exact readsAs_operand (.inr ⟨_, hn, hvalid⟩) hf

/-- An evaluator that evaluates nested expressions gives the operand the value of its tree. -/
theorem Accepted.sameValue_nested {m : Type → Type} [Monad m] [LawfulMonad m] {α : Type}
    (h : Accepted inner inside innerOps) (hn : n.value = .calc (Expression.ofTerms inner))
    (htree : (Expression.ofTerms inner).items = tree.postorder) {ev : Evaluator m Term α}
    (hev : ev.EvaluatesNested) :
    SameValue ((ExpressionTree.operand (n.withOperator none)).eval ev) (tree.eval ev) := by
  have hvalid := Expression.valid_iff_accepted.mpr ⟨inside, innerOps, h⟩
  have hoperand : n.withOperator none = ⟨none, .calc (Expression.ofTerms inner)⟩ := by
    rw [Term.withOperator, hn]
  rw [ExpressionTree.eval, hoperand]
  refine (hev none _).trans ?_
  rw [evaluate_eq_of_postorder hvalid htree]
  exact sameValue_adapt _ _

section Lists

variable (h : Accepted inner inside innerOps)
  (hn : n.value = .calc (Expression.ofTerms inner)) (ho : o.delimiter? = some .leftParen)
  (hc : c.delimiter? = some .rightParen)

include h hn ho hc

theorem Accepted.forall_goesWith_iff :
    (∀ t ∈ pre ++ n :: post, f.GoesWith t.unitFamily) ↔
      ∀ t ∈ pre ++ o :: inner ++ c :: post, f.GoesWith t.unitFamily :=
  forall_mem_nested_iff (P := fun t => f.GoesWith t.unitFamily) (h.goesWith_iff hn)
    (.inl (Term.unitFamily_of_delimiter ho)) (.inl (Term.unitFamily_of_delimiter hc))

theorem Accepted.forall_isIntegral_iff :
    (∀ t ∈ pre ++ n :: post, t.IsIntegral) ↔ ∀ t ∈ pre ++ o :: inner ++ c :: post, t.IsIntegral :=
  forall_mem_nested_iff (h.isIntegral_iff hn) (Term.isIntegral_of_delimiter ho)
    (Term.isIntegral_of_delimiter hc)

/-- **From the nested expression to its arguments.** Its entries take the place of the operand. -/
theorem Accepted.flatten (htree : (Expression.ofTerms inner).items = tree.postorder)
    (hnested : Accepted (pre ++ n :: post) last ops) :
    ∃ last' xs ys, Accepted (pre ++ o :: inner ++ c :: post) last' ops ∧
      (Expression.ofTerms (pre ++ n :: post)).items =
        xs ++ ([.operand (n.withOperator none)] ++ ys) ∧
      (Expression.ofTerms (pre ++ o :: inner ++ c :: post)).items =
        xs ++ (tree.postorder ++ ys) := by
  have hf : last.family.GoesWith n.unitFamily := hnested.hasFamily.goesWith n (by simp)
  have hbrackets := h.readsAs_brackets htree ho hc ((h.goesWith_iff hn).mp hf)
  have hlist : Accepted (pre ++ ([n] ++ post)) last ops := hnested
  rw [append_brackets]
  exact hlist.replace (h.readsAs_nested hn hf) hbrackets

/-- **From the arguments to the nested expression.** -/
theorem Accepted.nest (hflat : Accepted (pre ++ o :: inner ++ c :: post) last ops) :
    ∃ last', Accepted (pre ++ n :: post) last' ops := by
  obtain ⟨tree, htree⟩ := h.exists_postorder
  have hinner : ∀ t ∈ inner, last.family.GoesWith t.unitFamily :=
    fun t ht => hflat.hasFamily.goesWith t (by simp [ht])
  have hbrackets := h.readsAs_brackets htree ho hc hinner
  rw [append_brackets] at hflat
  obtain ⟨last', -, -, hnested, -⟩ :=
    hflat.replace hbrackets (h.readsAs_nested hn ((h.goesWith_iff hn).mpr hinner))
  exact ⟨last', hnested⟩

theorem Accepted.valid_flat_iff :
    (Expression.ofTerms (pre ++ n :: post)).valid = true ↔
      (Expression.ofTerms (pre ++ o :: inner ++ c :: post)).valid = true := by
  rw [Expression.valid_iff_accepted, Expression.valid_iff_accepted]
  constructor
  · rintro ⟨last, ops, hnested⟩
    obtain ⟨tree, htree⟩ := h.exists_postorder
    obtain ⟨last', -, -, hflat, -⟩ := h.flatten hn ho hc htree hnested
    exact ⟨last', ops, hflat⟩
  · rintro ⟨last, ops, hflat⟩
    obtain ⟨last', hnested⟩ := h.nest hn ho hc hflat
    exact ⟨last', ops, hnested⟩

variable {lastNested lastFlat : ExpressionReader} {opsNested opsFlat : List MathOperator}

theorem Accepted.family_eq_flat (hnested : Accepted (pre ++ n :: post) lastNested opsNested)
    (hflat : Accepted (pre ++ o :: inner ++ c :: post) lastFlat opsFlat) :
    lastNested.family = lastFlat.family :=
  hnested.hasFamily.unique hflat.hasFamily fun _ => h.forall_goesWith_iff hn ho hc

theorem Accepted.integral_eq_flat (hnested : Accepted (pre ++ n :: post) lastNested opsNested)
    (hflat : Accepted (pre ++ o :: inner ++ c :: post) lastFlat opsFlat) :
    lastNested.integral = lastFlat.integral := by
  rw [Bool.eq_iff_iff, hnested.integral_iff, hflat.integral_iff]
  exact h.forall_isIntegral_iff hn ho hc

/-- **The same value** for every evaluator that evaluates nested expressions. -/
theorem Accepted.sameValue_flat {m : Type → Type} [Monad m] [LawfulMonad m] {α : Type}
    {ev : Evaluator m Term α} (hev : ev.EvaluatesNested)
    (hvalid : (Expression.ofTerms (pre ++ n :: post)).valid = true) :
    SameValue ((Expression.ofTerms (pre ++ n :: post)).evaluate ev)
      ((Expression.ofTerms (pre ++ o :: inner ++ c :: post)).evaluate ev) := by
  obtain ⟨last, ops, hnested⟩ := Expression.valid_iff_accepted.mp hvalid
  obtain ⟨tree, htree⟩ := h.exists_postorder
  obtain ⟨-, xs, ys, -, hentries, hentries'⟩ := h.flatten hn ho hc htree hnested
  exact Expression.sameValue_evaluate hvalid ((h.valid_flat_iff hn ho hc).mp hvalid) hentries
    hentries' (h.sameValue_nested hn htree hev)

end Lists

end Nested

/-- **A nested expression stands for its arguments between brackets.** With one in the place of the
other the arguments make a valid expression or not as before. A valid one has the same family, is
integral in the same cases, is written in the same way, and has the same value for every evaluator
that evaluates nested expressions. Terms that have been made by reading expressions can always be
written. -/
theorem make_nested_eq_flat (pre post : List Term) {inner : List Term} {n o c : Term}
    {e : Expression Term} {log : WarningLog}
    (hmade : ((Expression.make inner).run.run log).1 = .ok e)
    (hvalid : e.valid = true) (hn : n.value = .calc e) (ho : o.delimiter? = some .leftParen)
    (hc : c.delimiter? = some .rightParen) :
    ∃ nested flat : Expression Term,
      ((Expression.make (pre ++ n :: post)).run.run log).1 = .ok nested ∧
      ((Expression.make (pre ++ o :: inner ++ c :: post)).run.run log).1 = .ok flat ∧
      (nested.valid = true ↔ flat.valid = true) ∧
      (nested.valid = true → nested.family = flat.family ∧ nested.integral = flat.integral ∧
        nested.text.toOption = flat.text.toOption ∧
        ((∀ t ∈ pre ++ inner ++ post, t.Made) →
          ∃ text, nested.text = .ok text ∧ flat.text = .ok text) ∧
        (∀ context : ResolutionContext,
          SameValue (nested.evaluate (doubleEvaluator context))
            (flat.evaluate (doubleEvaluator context))) ∧
        ∀ (m : Type → Type) [Monad m] [LawfulMonad m] (α : Type) (ev : Evaluator m Term α),
          ev.EvaluatesNested → SameValue (nested.evaluate ev) (flat.evaluate ev)) := by
  have hne : inner ≠ [] := by
    rintro rfl
    cases hmade
  obtain rfl : Expression.ofTerms inner = e :=
    Except.ok.inj ((Expression.outcome_make hne log).symm.trans hmade)
  obtain ⟨inside, innerOps, h⟩ := Expression.valid_iff_accepted.mp hvalid
  refine ⟨_, _, Expression.outcome_make (by simp) log, Expression.outcome_make (by simp) log,
    h.valid_flat_iff hn ho hc, fun hvalidNested => ?_⟩
  obtain ⟨last, ops, hnested⟩ := Expression.valid_iff_accepted.mp hvalidNested
  obtain ⟨last', ops', hflat⟩ :=
    Expression.valid_iff_accepted.mp ((h.valid_flat_iff hn ho hc).mp hvalidNested)
  have htext : (Expression.ofTerms (pre ++ n :: post)).text.toOption =
      (Expression.ofTerms (pre ++ o :: inner ++ c :: post)).text.toOption :=
    h.sameValue_flat hn ho hc textEvaluator_evaluatesNested hvalidNested
  refine ⟨?_, ?_, htext, fun hts => ?_, fun context => ?_, fun m _ _ α ev hev => ?_⟩
  · rw [hnested.ofTerms_eq, hflat.ofTerms_eq]
    exact h.family_eq_flat hn ho hc hnested hflat
  · rw [hnested.ofTerms_eq, hflat.ofTerms_eq]
    exact h.integral_eq_flat hn ho hc hnested hflat
  · have hlist : ∀ t ∈ pre ++ o :: inner ++ c :: post, t.Made := by
      simp only [List.forall_mem_append, List.forall_mem_cons] at hts ⊢
      exact ⟨⟨hts.1.1, Term.made_of_delimiter ho, hts.1.2⟩, Term.made_of_delimiter hc, hts.2⟩
    obtain ⟨text, hwritten⟩ := hflat.exists_text_of_made hlist
    rw [hwritten] at htext ⊢
    exact ⟨text, eq_ok_of_toOption htext, rfl⟩
  · exact h.sameValue_flat hn ho hc (numericEvaluator_evaluatesNested _) hvalidNested
  · exact h.sameValue_flat hn ho hc hev hvalidNested

/-- `2px * calc(1 - 2)` and `2px * (1 - 2)`. -/
theorem make_nested_eq_flat_difference :
    let px := Term.ofValue (.numeric ⟨.length, 2, some .px⟩)
    let one := Term.ofValue (.numeric (.ofInt 1))
    let two := Term.ofValue (.numeric (.ofInt 2))
    let d := fun d => Term.ofValue (.delimiter d)
    ∃ e : Expression Term,
      ((Expression.make [one, d .minus, two]).run.run .empty).1 = .ok e ∧ e.valid = true ∧
        ∃ nested flat : Expression Term,
          ((Expression.make [px, d .star, Term.ofValue (.calc e)]).run.run .empty).1 = .ok nested ∧
          ((Expression.make [px, d .star, d .leftParen, one, d .minus, two,
            d .rightParen]).run.run .empty).1 = .ok flat ∧
          nested.valid = true ∧ flat.valid = true ∧ nested.family = flat.family ∧
          (∃ text, nested.text = .ok text ∧ flat.text = .ok text) ∧
          SameValue (nested.evaluate (doubleEvaluator .standard))
            (flat.evaluate (doubleEvaluator .standard)) := by
  intro px one two d
  have hinner : ((Expression.make [one, d .minus, two]).run.run .empty).1 =
      .ok (Expression.ofTerms [one, d .minus, two]) := Expression.outcome_make (by simp) .empty
  have hvalid : (Expression.ofTerms [one, d .minus, two]).valid = true := rfl
  have hopens : (d .leftParen).delimiter? = some .leftParen := rfl
  have hcloses : (d .rightParen).delimiter? = some .rightParen := rfl
  obtain ⟨nested, flat, hnested, hflat, hiff, hsame⟩ :=
    make_nested_eq_flat [px, d .star] [] (n := Term.ofValue (.calc _)) hinner hvalid rfl hopens
      hcloses
  obtain rfl : Expression.ofTerms [px, d .star, Term.ofValue (.calc _)] = nested :=
    Except.ok.inj ((Expression.outcome_make (List.cons_ne_nil _ _) .empty).symm.trans hnested)
  have hvalidNested : (Expression.ofTerms [px, d .star, Term.ofValue
    (.calc (Expression.ofTerms [one, d .minus, two]))]).valid = true := rfl
  obtain ⟨hfamily, -, -, htext, hdouble, -⟩ := hsame hvalidNested
  have hplain : ∀ t ∈ [px, d .star, one, d .minus, two], t.calc? = none := by
    simp [px, one, two, d, Term.calc?, Term.ofValue]
  have hmade : ∀ t ∈ [px, d .star] ++ [one, d .minus, two] ++ [], t.Made :=
    fun t ht => .plain (hplain t ht)
  exact ⟨_, hinner, hvalid, _, flat, hnested, hflat, hvalidNested, hiff.mp hvalidNested, hfamily,
    htext hmade, hdouble .standard⟩

end CssModel
