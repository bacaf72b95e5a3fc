import CssModel.Proofs.Expression.Spelling

/-!
# What a text is worth

The text of an expression is all that its value depends on, for every evaluator that goes by texts:
it evaluates nested expressions by its own rules, makes nothing of the way a number is held beyond
what is written, and two signs cancel in its values as they do in the text. The value can then be
computed from the spelling, and the text has one spelling only. Evaluation in double precision goes
by texts, whatever relative lengths are relative to.

## Main definitions

* `CssModel.Evaluator.ReadsText`: the evaluators that go by texts
* `CssModel.Spelling.value`: the value of a spelling, given the values of its leaves

## Main results

* `CssModel.Spelled.sameValue`: a tree has the value of its spelling
* `CssModel.doubleEvaluator_readsText`
* `CssModel.Expression.evaluate_of_css_eq`
-/

namespace CssModel

/-! ### Evaluators that go by texts -/

section

variable {m : Type → Type} [Monad m] {α : Type}

/-- The value of a number depends on its text, and a sign in the text is a sign of the value. Two
signs leave every value as it is. -/
structure Evaluator.ReadsText (ev : Evaluator m Term α) : Prop where
  nested : ev.EvaluatesNested
  negate : ∀ value, SameValue (ev.unary .negate value >>= ev.unary .negate)
    (pure value : ExceptT EvaluationError m α)
  number : ∀ n n' : Numeric, n.text = n'.text →
    SameValue (ev.argument (.ofValue (.numeric n))) (ev.argument (.ofValue (.numeric n')))
  sign : ∀ n n' : Numeric, n'.text = "-" ++ n.text →
    SameValue (ev.argument (.ofValue (.numeric n')))
      (ev.argument (.ofValue (.numeric n)) >>= ev.unary .negate)

/-- The value with a sign in front. -/
def Evaluator.signed (ev : Evaluator m Term α) (negative : Bool)
    (value : ExceptT EvaluationError m α) : ExceptT EvaluationError m α :=
  bif negative then value >>= ev.unary .negate else value

/-- The value of a spelling, given the values of its leaves. -/
def Spelling.value (ev : Evaluator m Term α) (leaf : LeafName → ExceptT EvaluationError m α) :
    Spelling → ExceptT EvaluationError m α
  | .leaf negative name => ev.signed negative (leaf name)
  | .operation negative op _ left right => ev.signed negative do
    let x ← left.value ev leaf
    let y ← right.value ev leaf
    ev.binary op x y

variable [LawfulMonad m] {ev : Evaluator m Term α}

namespace Evaluator.ReadsText

theorem negate_negate (h : ev.ReadsText) (value : ExceptT EvaluationError m α) :
    SameValue (value >>= ev.unary .negate >>= ev.unary .negate) value := by
  rw [bind_assoc]
  have hvalue := (SameValue.refl value).bind h.negate
  rwa [bind_pure] at hvalue

theorem signed_not (h : ev.ReadsText) (negative : Bool) (value : ExceptT EvaluationError m α) :
    SameValue (ev.signed negative value >>= ev.unary .negate) (ev.signed (! negative) value) := by
  cases negative with
  | false => exact .refl _
  | true => exact h.negate_negate value

theorem argument_of_leafName_eq (h : ev.ReadsText) {n n' : Numeric}
    (hname : n.leafName = n'.leafName) :
    SameValue (ev.argument (.ofValue (.numeric n)))
      (ev.signed n.isNegative
        (ev.signed n'.isNegative (ev.argument (.ofValue (.numeric n'))))) := by
  have hunsigned : n.unsigned = n'.unsigned := congrArg LeafName.chars hname
  cases hn : n.isNegative <;> cases hn' : n'.isNegative
  · exact h.number n n' (Numeric.text_eq_iff.mpr ⟨hn.trans hn'.symm, hunsigned⟩)
  · have hsign := h.sign n n' (Numeric.text_eq_neg_iff.mpr ⟨hn', hn, hunsigned.symm⟩)
    exact (h.negate_negate _).symm.trans (hsign.symm.bind fun _ => .refl _)
  · exact h.sign n' n (Numeric.text_eq_neg_iff.mpr ⟨hn, hn', hunsigned⟩)
  · have hnumber := h.number n n' (Numeric.text_eq_iff.mpr ⟨hn.trans hn'.symm, hunsigned⟩)
    exact hnumber.trans (h.negate_negate _).symm

/-- All numbers that are written with one name have the value of the name, with their signs. -/
theorem exists_leaf (h : ev.ReadsText) :
    ∃ leaf : LeafName → ExceptT EvaluationError m α, ∀ n : Numeric,
      SameValue (ev.argument (.ofValue (.numeric n)))
        (ev.signed n.isNegative (leaf n.leafName)) := by
  have hname : ∀ name : LeafName, ∃ value : ExceptT EvaluationError m α, ∀ n : Numeric,
      n.leafName = name →
        SameValue (ev.argument (.ofValue (.numeric n))) (ev.signed n.isNegative value) := by
    intro name
    by_cases hex : ∃ n : Numeric, n.leafName = name
    · obtain ⟨n', rfl⟩ := hex
      exact ⟨_, fun n hn => h.argument_of_leafName_eq hn⟩
    · exact ⟨throw .emptyExpression, fun n hn => absurd ⟨n, hn⟩ hex⟩
  choose leaf hleaf using hname
  exact ⟨leaf, fun n => hleaf _ n rfl⟩

end Evaluator.ReadsText

theorem Spelling.value_opposite (h : ev.ReadsText) (leaf : LeafName → ExceptT EvaluationError m α)
    (f : Spelling) :
    SameValue (f.value ev leaf >>= ev.unary .negate) (f.opposite.value ev leaf) := by
  cases f with
  | leaf negative name => exact h.signed_not negative _
  | operation negative op binary left right => exact h.signed_not negative _

/-- **A tree has the value of its spelling.** -/
theorem Spelled.sameValue (h : ev.ReadsText) {leaf : LeafName → ExceptT EvaluationError m α}
    (hleaf : ∀ n : Numeric, SameValue (ev.argument (.ofValue (.numeric n)))
      (ev.signed n.isNegative (leaf n.leafName)))
    {t : ExpressionTree Term} {f : Spelling} (hf : Spelled t f) :
    SameValue (t.eval ev) (f.value ev leaf) := by
  induction hf with
  | number n => exact hleaf n
  | nested hvalid hitems _ ih =>
    refine (h.nested _ _).trans ?_
    rw [evaluate_eq_of_postorder hvalid hitems]
    exact (sameValue_adapt _ _).trans ih
  | negation _ ih =>
    exact (ih.bind fun _ => .refl _).trans (Spelling.value_opposite h leaf _)
  | operation _ _ _ ihl ihr => exact ihl.bind fun _ => ihr.bind fun _ => .refl _

/-- Expressions with one spelling have the same value. -/
theorem Evaluator.ReadsText.evaluate_of_spelled (h : ev.ReadsText) {x y : Expression Term}
    {t t' : ExpressionTree Term} {f : Spelling} (hx : x.valid = true) (hy : y.valid = true)
    (hxitems : x.items = t.postorder) (hyitems : y.items = t'.postorder) (hf : Spelled t f)
    (hf' : Spelled t' f) : SameValue (x.evaluate ev) (y.evaluate ev) := by
  obtain ⟨leaf, hleaf⟩ := h.exists_leaf
  rw [evaluate_eq_of_postorder hx hxitems, evaluate_eq_of_postorder hy hyitems]
  have hvalue := (hf.sameValue h hleaf).trans (hf'.sameValue h hleaf).symm
  exact (sameValue_adapt _ _).trans (hvalue.trans (sameValue_adapt _ _).symm)

end

/-! ### Double precision goes by texts -/

theorem sameValue_iff_toOption {ε ε' α : Type} {x : ExceptT ε Id α} {y : ExceptT ε' Id α} :
    SameValue x y ↔ x.run.run.toOption = y.run.run.toOption :=
  Iff.rfl

/-- **Evaluation in double precision goes by texts.** -/
theorem doubleEvaluator_readsText (context : ResolutionContext) :
    (doubleEvaluator context).ReadsText where
  nested := numericEvaluator_evaluatesNested context.canonical
  negate value := by
    show SameValue (pure (- -value)) (pure value)
    rw [Number.neg_neg]
    exact .refl _
  number n n' h := context.canonical_of_text_eq h
  sign n n' h := by
    refine sameValue_iff_toOption.mpr ((context.canonical_of_text_eq_neg h).trans ?_)
    show _ = (ExceptT.bind (m := Id) (ExceptT.mk (context.canonical n)) _).run.run.toOption
    cases hn : context.canonical n <;> rfl

/-! ### Text -/

theorem Expression.endsBinary_map (g : Term → Written) (x : Expression Term) :
    (x.map g).endsBinary = x.endsBinary := by
  have hlast : (x.map g).items.getLast? = x.items.getLast?.map (.map g) := List.getLast?_map
  rw [endsBinary, endsBinary, hlast]
  cases x.items.getLast? with
  | none => rfl
  | some item => cases item <;> rfl

/-- Only operations that are no signs have brackets of their own. -/
theorem Spelled.endsBinary_cases {x : Expression Term} {t : ExpressionTree Term} {f : Spelling}
    (h : Spelled t f) (hitems : x.items = t.postorder) : x.endsBinary = false ∨
      x.endsBinary = true ∧ ∃ op binary left right, f = .operation false op binary left right := by
  rw [Expression.endsBinary, hitems]
  cases h with
  | number n => exact .inl rfl
  | nested hvalid hnested h => exact .inl rfl
  | negation h =>
    rw [ExpressionTree.postorder, List.getLast?_append]
    exact .inl rfl
  | operation binary hl hr =>
    rw [ExpressionTree.postorder, List.getLast?_append]
    exact .inr ⟨by simp [binary], _, binary, _, _, rfl⟩

/-- A valid expression has a word in front of it, and brackets around what has none. -/
theorem Spelled.toList_css {x : Expression Term} {t : ExpressionTree Term} {f : Spelling}
    (h : Spelled t f) (hvalid : x.valid = true) (hitems : x.items = t.postorder)
    (level : EscapeLevel) : ((Term.ofValue (.calc x)).css level).toList =
      "calc".toList ++ bif x.endsBinary then f.chars else '(' :: (f.chars ++ [')']) := by
  have htext : ((x.map Term.writtenOperand).evaluate (textEvaluatorOf Written.inside)).run.run =
      .ok (String.ofList f.chars) := by
    rw [Expression.evaluate_map]
    show (x.evaluate textEvaluator).run.run = _
    rw [evaluate_eq_of_postorder hvalid hitems, h.text]
    rfl
  have halone : ((x.map Term.writtenOperand).written).alone =
      if x.endsBinary then "calc" ++ String.ofList f.chars
      else "calc(" ++ String.ofList f.chars ++ ")" := by
    simp only [Expression.written, htext, Expression.endsBinary_map]
  have hcss : (Term.ofValue (.calc x)).css level =
      "" ++ ((x.map Term.writtenOperand).written).alone := by
    rw [← Value.written_calc level x]
    rfl
  rw [hcss, halone]
  cases x.endsBinary <;> simp

/-- **The text of an expression has one spelling.** The word and the brackets around an expression
are not taken for brackets inside of it. -/
theorem Spelled.eq_of_css_eq {x y : Expression Term} {t t' : ExpressionTree Term}
    {f g : Spelling} (hf : Spelled t f) (hg : Spelled t' g) (hx : x.valid = true)
    (hy : y.valid = true) (hxitems : x.items = t.postorder) (hyitems : y.items = t'.postorder)
    {level : EscapeLevel}
    (h : (Term.ofValue (.calc x)).css level = (Term.ofValue (.calc y)).css level) : f = g := by
  have hbrackets : ∀ {op binary left right} {e : Spelling},
      (Spelling.operation false op binary left right).chars ≠ '(' :: (e.chars ++ [')']) := by
    intro op binary left right e heq
    obtain ⟨-, hrest⟩ := Spelling.chars_append_inj (stops_space _) (stops_bracket _)
      (List.cons.inj heq).2
    simp at hrest
  have hchars := congrArg String.toList h
  rw [hf.toList_css hx hxitems, hg.toList_css hy hyitems, List.append_cancel_left_eq] at hchars
  obtain hxend | ⟨hxend, op, binary, left, right, rfl⟩ := hf.endsBinary_cases hxitems
  · obtain hyend | ⟨hyend, op, binary, left, right, rfl⟩ := hg.endsBinary_cases hyitems
    · rw [hxend, hyend] at hchars
      exact Spelling.chars_inj (List.append_cancel_right (List.cons.inj hchars).2)
    · rw [hxend, hyend] at hchars
      exact absurd hchars.symm hbrackets
  · obtain hyend | ⟨hyend, op', binary', left', right', rfl⟩ := hg.endsBinary_cases hyitems
    · rw [hxend, hyend] at hchars
      exact absurd hchars hbrackets
    · rw [hxend, hyend] at hchars
      exact Spelling.chars_inj hchars

/-- **The text of an expression determines its value.** Two valid expressions that are written in
the same way have the same value in every evaluation that goes by texts, or they both have none;
evaluation in double precision is one of these, in any context. -/
theorem Expression.evaluate_of_css_eq {x y : Expression Term}
    (hx : (Term.ofValue (.calc x)).Made) (hy : (Term.ofValue (.calc y)).Made)
    (hxvalid : x.valid = true) (hyvalid : y.valid = true) {level : EscapeLevel}
    (h : (Term.ofValue (.calc x)).css level = (Term.ofValue (.calc y)).css level) :
    (∀ {m : Type → Type} [Monad m] [LawfulMonad m] {α : Type} (ev : Evaluator m Term α),
      ev.ReadsText → SameValue (x.evaluate ev) (y.evaluate ev)) ∧
    ∀ context, (doubleEvaluator context).ReadsText ∧
      SameValue (x.evaluate (doubleEvaluator context)) (y.evaluate (doubleEvaluator context)) := by
  obtain ⟨t, f, hxitems, hf⟩ := Expression.exists_spelled hx hxvalid
  obtain ⟨t', g, hyitems, hg⟩ := Expression.exists_spelled hy hyvalid
  obtain rfl := hf.eq_of_css_eq hg hxvalid hyvalid hxitems hyitems h
  refine ⟨fun ev hev => hev.evaluate_of_spelled hxvalid hyvalid hxitems hyitems hf hg,
    fun context => ?_⟩
  have hdouble := doubleEvaluator_readsText context
  exact ⟨hdouble, hdouble.evaluate_of_spelled hxvalid hyvalid hxitems hyitems hf hg⟩

/-- In `- -calc(1px)` neither the signs nor the nested expression are left in the text, so that its
value is that of `1px`. -/
theorem Expression.evaluate_of_css_eq_two_signs :
    let number := Term.ofValue (.numeric ⟨.length, 1, some .px⟩)
    let minus := Term.ofValue (.delimiter .minus)
    let y := Expression.ofTerms [number]
    let x := Expression.ofTerms [minus, minus, Term.ofValue (.calc y)]
    (Term.ofValue (.calc x)).Made ∧ (Term.ofValue (.calc y)).Made ∧ x.valid = true ∧
      y.valid = true ∧
      (Term.ofValue (.calc x)).css .backslash = (Term.ofValue (.calc y)).css .backslash ∧
      (doubleEvaluator .standard).ReadsText ∧
      SameValue (x.evaluate (doubleEvaluator .standard))
        (y.evaluate (doubleEvaluator .standard)) := by
  intro number minus y x
  have hminus : minus.Made := Term.made_of_delimiter rfl
  have hy : (Term.ofValue (.calc y)).Made := by
    refine .nested none fun t ht => ?_
    obtain rfl := List.mem_singleton.mp ht
    exact .plain rfl
  have hx : (Term.ofValue (.calc x)).Made := by
    refine .nested none fun t ht => ?_
    simp only [List.mem_cons, List.not_mem_nil, or_false] at ht
    obtain rfl | rfl | rfl := ht
    · exact hminus
    · exact hminus
    · exact hy
  have hxvalid : x.valid = true := rfl
  have hyvalid : y.valid = true := rfl
  have hleaf := Spelled.number ⟨.length, 1, some .px⟩
  have hnested : Spelled (.operand (.ofValue (.calc y))) _ := .nested hyvalid rfl hleaf
  have hcss : (Term.ofValue (.calc x)).css .backslash =
      (Term.ofValue (.calc y)).css .backslash := by
    rw [← String.toList_inj, hnested.negation.negation.toList_css hxvalid rfl,
      hleaf.toList_css hyvalid rfl, Spelling.opposite, Spelling.opposite, Bool.not_not]
    rfl
  have hread := doubleEvaluator_readsText .standard
  exact ⟨hx, hy, hxvalid, hyvalid, hcss, hread,
    (Expression.evaluate_of_css_eq hx hy hxvalid hyvalid hcss).1 _ hread⟩

end CssModel
