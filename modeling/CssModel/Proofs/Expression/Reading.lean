import CssModel.Expression.Trace
import CssModel.Proofs.Expression.Grammar
import CssModel.Proofs.Expression.Steps

/-!
# Reading the lists of the grammar

A list that the grammar derives, with operands of one family, is read without a problem, and what
is put out is the postorder of its tree. Evaluating those entries with a stack is evaluating the
tree.

## The invariant

Reading a phrase does not put out all of its entries: operators still wait on the stack when the
phrase ends. `AfterPhrase` says that these operators lie on top of what waited before, that they
complete the postorder, and that none of them is weaker than the phrase allows. The next operator,
being weaker or of equal strength, then sends out exactly these; a closing bracket and the end of
the list do the same.

## Main definitions

* `CssModel.InOneFamily`: which operands go together
* `CssModel.Settled`, `CssModel.AfterPhrase`

## Main results

* `CssModel.Derives.steps`: what reading a phrase leaves behind
* `CssModel.Evaluator.runFrom_postorder`: the stack machine on a postorder
* `CssModel.make_eq_of_derives`: reading and evaluating the lists of the grammar
-/

namespace CssModel

/-! ### Families -/

/-- The family that an operand brings into an expression. Plain numbers bring none, a percentage
counts as a length, and a nested expression counts with its own family. -/
def Term.unitFamily (t : Term) : UnitFamily :=
  match t.value with
  | .numeric n => n.kind.family
  | .calc e => e.family
  | _ => .unitless

/-- A family goes with `f` if it is none at all or `f` itself. -/
def UnitFamily.GoesWith (f found : UnitFamily) : Prop :=
  found = .unitless ∨ found = f

/-- All operands belong to one family, plain numbers aside. -/
def InOneFamily (ts : List Term) : Prop :=
  ∃ f : UnitFamily, ∀ t ∈ ts, f.GoesWith t.unitFamily

theorem Term.IsOperand.operandType?_eq {t : Term} (h : t.IsOperand) :
    ∃ integral, t.operandType? = some (t.unitFamily, integral) := by
  obtain ⟨n, hn⟩ | ⟨e, he, hvalid⟩ := h
  · simp [Term.operandType?, Term.unitFamily, hn]
  · simp [Term.operandType?, Term.unitFamily, he, hvalid]

theorem UnitFamily.GoesWith.join {f held found : UnitFamily} (hh : f.GoesWith held)
    (hf : f.GoesWith found) : ∃ joined, held.join? found = some joined ∧ f.GoesWith joined := by
  by_cases hfound : found = .unitless
  · exact ⟨held, by simp [UnitFamily.join?, hfound], hh⟩
  · have hheld : held = .unitless ∨ held = found := by
      obtain rfl := hf.resolve_left hfound
      exact hh
    exact ⟨found, by simp [UnitFamily.join?, hfound, hheld], hf⟩

/-! ### What a phrase leaves behind -/

/-- The operators that wait when a phrase of this kind ends bind at least this strongly. -/
def Phrase.strength : Phrase → Nat
  | .expression => 0
  | .term => 1
  | .factor => 2

/-- Nothing on top of the stack makes room for an operator of this priority. -/
def Settled (priority : Nat) : List Pending → Prop
  | .operator op :: _ => op.priority < priority
  | _ => True

theorem Settled.mono {n k : Nat} {stack : List Pending} (h : Settled n stack) (hnk : n ≤ k) :
    Settled k stack := by
  unfold Settled at *
  split <;> simp_all
  omega

theorem Settled.splitPending_eq {n : Nat} {stack : List Pending} (h : Settled n stack) :
    splitPending (fun top => n ≤ top.priority) stack = ([], stack) := by
  unfold Settled at h
  split at h
  · next op below => simp [splitPending, Nat.not_le.mpr h]
  · next hstack =>
    cases stack with
    | nil => rfl
    | cons entry below =>
      cases entry with
      | openBracket => rfl
      | operator op => exact absurd rfl (hstack op below)

/-- What reading a phrase leaves behind: some of its entries are out, and the others are operators
that wait on top of the stack. -/
structure AfterPhrase (strength : Nat) (f : UnitFamily) (e : ExpressionTree Term)
    (r next : ExpressionReader) : Prop where
  entries : ∃ (out : List (ExpressionItem Term)) (ops : List MathOperator),
    out ++ ops.map .operator = e.postorder ∧ (∀ op ∈ ops, strength ≤ op.priority) ∧
      next.items = r.items ++ out ∧ next.stack = ops.map .operator ++ r.stack
  signExpected : next.signExpected = false
  family : f.GoesWith next.family

/-- A phrase of which nothing waits any more, and what it was. -/
structure PutOut (f : UnitFamily) (e : ExpressionTree Term) (stack : List Pending)
    (signExpected : Bool) (r next : ExpressionReader) : Prop where
  items : next.items = r.items ++ e.postorder
  stack : next.stack = stack
  signExpected : next.signExpected = signExpected
  family : f.GoesWith next.family

section

variable {k : Nat} {f : UnitFamily} {e l e' : ExpressionTree Term} {r mid next : ExpressionReader}
  {t : Term} {d : Delimiter} {op : MathOperator}

theorem AfterPhrase.weaken {n : Nat} (h : AfterPhrase k f e r next) (hn : n ≤ k) :
    AfterPhrase n f e r next := by
  obtain ⟨out, ops, hpost, hops, hitems, hstack⟩ := h.entries
  exact ⟨⟨out, ops, hpost, fun op hop => Nat.le_trans hn (hops op hop), hitems, hstack⟩,
    h.signExpected, h.family⟩

theorem afterPhrase_operand (ht : t.IsOperand) (hr : f.GoesWith r.family)
    (hf : f.GoesWith t.unitFamily) :
    ∃ next, ReaderStep r t next ∧ AfterPhrase k f (.operand (t.withOperator none)) r next := by
  obtain ⟨integral, htype⟩ := ht.operandType?_eq
  obtain ⟨joined, hjoin, hjoined⟩ := hr.join hf
  exact ⟨_, .operand htype hjoin,
    ⟨_, [], List.append_nil _, by simp, rfl, rfl⟩, rfl, hjoined⟩

/-- Behind a minus sign that waits, a phrase is a negation. -/
theorem AfterPhrase.negation (hk : k ≤ 2)
    (h : AfterPhrase k f e { r with stack := .operator .negate :: r.stack } next) :
    AfterPhrase k f (.negation e) r next := by
  obtain ⟨out, ops, hpost, hops, hitems, hstack⟩ := h.entries
  refine ⟨⟨out, ops ++ [.negate], ?_, ?_, hitems, ?_⟩, h.signExpected, h.family⟩
  · simp [ExpressionTree.postorder, ← hpost]
  · simpa [or_imp, forall_and] using ⟨hops, hk⟩
  · simp [hstack]

/-- A closing bracket puts out what waits since its opening bracket. -/
theorem AfterPhrase.closeBracket (ht : t.delimiter? = some .rightParen)
    (h : AfterPhrase k f e { r with stack := .openBracket :: r.stack, signExpected := true } mid) :
    ∃ next, ReaderStep mid t next ∧ PutOut f e r.stack false r next := by
  obtain ⟨out, ops, hpost, -, hitems, hstack⟩ := h.entries
  have hsplit : splitPending (fun _ => true) mid.stack = (ops, .openBracket :: r.stack) := by
    rw [hstack]
    exact splitPending_append (by simp) rfl
  refine ⟨_, .closeBracket ht hsplit, ?_, rfl, rfl, h.family⟩
  simp [ExpressionReader.emit, hitems, ← hpost]

/-- An operator puts out the phrase before it, and waits. -/
theorem AfterPhrase.operator (h : AfterPhrase op.priority f e r mid)
    (hr : Settled op.priority r.stack) (ht : t.delimiter? = some d)
    (hd : MathOperator.ofDelimiter? d = some op) :
    ∃ next, ReaderStep mid t next ∧ PutOut f e (.operator op :: r.stack) true r next := by
  obtain ⟨out, ops, hpost, hops, hitems, hstack⟩ := h.entries
  have hsplit :
      splitPending (fun top => op.priority ≤ top.priority) mid.stack = (ops, r.stack) := by
    rw [hstack]
    exact splitPending_append (by simpa using hops) hr.splitPending_eq
  refine ⟨_, .operator ht hd h.signExpected hsplit, ?_, rfl, rfl, h.family⟩
  simp [ExpressionReader.emit, hitems, ← hpost]

/-- The phrase behind an operator that waits completes the operation. -/
theorem PutOut.operation (hl : PutOut f l (.operator op :: r.stack) true r mid)
    (binary : op.isUnary = false) (hk : op.priority ≤ k) (h : AfterPhrase k f e' mid next) :
    AfterPhrase op.priority f (.operation op binary l e') r next := by
  obtain ⟨out, ops, hpost, hops, hitems, hstack⟩ := h.entries
  refine ⟨⟨l.postorder ++ out, ops ++ [op], ?_, ?_, ?_, ?_⟩, h.signExpected, h.family⟩
  · simp [ExpressionTree.postorder, ← hpost]
  · simpa [or_imp, forall_and] using fun o ho => Nat.le_trans hk (hops o ho)
  · simp [hitems, hl.items]
  · simp [hstack, hl.stack]

theorem PutOut.afterPhrase (h : PutOut f e r.stack false r next) : AfterPhrase k f e r next :=
  ⟨⟨e.postorder, [], List.append_nil _, by simp, h.items, h.stack⟩, h.signExpected, h.family⟩

end

/-! ### Reading a phrase -/

theorem Additive.priority_eq {d : Delimiter} {op : MathOperator} (h : Additive d op) :
    op.priority = 0 := by
  cases h <;> rfl

theorem Multiplicative.priority_eq {d : Delimiter} {op : MathOperator}
    (h : Multiplicative d op) : op.priority = 1 := by
  cases h <;> rfl

/-- An operation is read when its left operand, the operator and its right operand are. -/
theorem AfterPhrase.steps_operation {k : Nat} {f : UnitFamily} {l e' : ExpressionTree Term}
    {r mid : ExpressionReader} {o : Term} {d : Delimiter} {op : MathOperator} {ts us : List Term}
    (hmid : r.steps ts = (mid, none)) (h : AfterPhrase op.priority f l r mid)
    (hr : Settled op.priority r.stack) (ho : o.delimiter? = some d)
    (hd : MathOperator.ofDelimiter? d = some op) (binary : op.isUnary = false)
    (hk : op.priority ≤ k)
    (hright : ∀ mid', PutOut f l (.operator op :: r.stack) true r mid' →
      ∃ next, mid'.steps us = (next, none) ∧ AfterPhrase k f e' mid' next) :
    ∃ next, r.steps (ts ++ o :: us) = (next, none) ∧
      AfterPhrase op.priority f (.operation op binary l e') r next := by
  obtain ⟨mid', hstep, hout⟩ := h.operator hr ho hd
  obtain ⟨next, hnext, hphrase⟩ := hright mid' hout
  refine ⟨next, ?_, hout.operation binary hk hphrase⟩
  rw [ExpressionReader.steps_append hmid]
  exact ExpressionReader.steps_cons_iff.mpr ⟨mid', hstep, hnext⟩

/-- **Reading a phrase.** A phrase whose operands go with `f` is read without a problem wherever an
operand is expected. Only a factor may stand behind an operator of any strength. -/
theorem Derives.steps {k : Phrase} {ts : List Term} {e : ExpressionTree Term}
    (h : Derives k ts e) {f : UnitFamily} (hf : ∀ t ∈ ts, f.GoesWith t.unitFamily)
    {r : ExpressionReader} (hsign : r.signExpected = true) (hfam : f.GoesWith r.family)
    (hstack : k ≠ .factor → Settled k.strength r.stack) :
    ∃ next, r.steps ts = (next, none) ∧ AfterPhrase k.strength f e r next := by
  induction h generalizing r with
  | operand ht =>
    obtain ⟨next, hstep, hnext⟩ := afterPhrase_operand ht hfam (hf _ (List.mem_singleton.mpr rfl))
    exact ⟨next, ExpressionReader.steps_cons_iff.mpr ⟨next, hstep, rfl⟩, hnext⟩
  | bracketed ho hc _ ih =>
    obtain ⟨mid, hmid, hphrase⟩ := ih (fun t ht => hf t (by simp [ht]))
      (r := { r with stack := .openBracket :: r.stack, signExpected := true }) rfl hfam
      fun _ => trivial
    obtain ⟨next, hstep, hnext⟩ := hphrase.closeBracket hc
    refine ⟨next, ExpressionReader.steps_cons_iff.mpr ⟨_, .openBracket ho, ?_⟩, hnext.afterPhrase⟩
    rw [ExpressionReader.steps_append hmid]
    exact ExpressionReader.steps_cons_iff.mpr ⟨next, hstep, rfl⟩
  | negative hs _ ih =>
    obtain ⟨next, hnext, hphrase⟩ := ih (fun t ht => hf t (by simp [ht]))
      (r := { r with stack := .operator .negate :: r.stack }) hsign hfam fun hk => absurd rfl hk
    exact ⟨next, ExpressionReader.steps_cons_iff.mpr ⟨_, .negative hs hsign, hnext⟩,
      hphrase.negation (Nat.le_refl 2)⟩
  | positive hs _ ih =>
    obtain ⟨next, hnext, hphrase⟩ := ih (fun t ht => hf t (by simp [ht])) hsign hfam
      fun hk => absurd rfl hk
    exact ⟨next, ExpressionReader.steps_cons_iff.mpr ⟨r, .positive hs hsign, hnext⟩, hphrase⟩
  | ofFactor _ ih =>
    obtain ⟨next, hnext, hphrase⟩ := ih hf hsign hfam fun hk => absurd rfl hk
    exact ⟨next, hnext, hphrase.weaken (by decide)⟩
  | ofTerm _ ih =>
    obtain ⟨next, hnext, hphrase⟩ := ih hf hsign hfam fun _ =>
      (hstack (by simp)).mono (Nat.zero_le _)
    exact ⟨next, hnext, hphrase.weaken (by decide)⟩
  | @product o d op ts us l e' ho hd _ _ ihl ihr =>
    obtain ⟨mid, hmid, hleft⟩ := ihl (fun t ht => hf t (by simp [ht])) hsign hfam hstack
    have hprio : op.priority = Phrase.term.strength := hd.priority_eq
    rw [← hprio] at hleft hstack ⊢
    exact hleft.steps_operation hmid (hstack (by simp)) ho hd.ofDelimiter?_eq hd.binary
      (by rw [hprio]; decide) fun mid' hout =>
        ihr (fun t ht => hf t (by simp [ht])) hout.signExpected hout.family fun hk => absurd rfl hk
  | @sum o d op ts us l e' ho hd _ _ ihl ihr =>
    obtain ⟨mid, hmid, hleft⟩ := ihl (fun t ht => hf t (by simp [ht])) hsign hfam hstack
    have hprio : op.priority = Phrase.expression.strength := hd.priority_eq
    rw [← hprio] at hleft hstack ⊢
    refine hleft.steps_operation hmid (hstack (by simp)) ho hd.ofDelimiter?_eq hd.binary
      (by rw [hprio]; decide) fun mid' hout =>
        ihr (fun t ht => hf t (by simp [ht])) hout.signExpected hout.family fun _ => ?_
    -- the operator that waits below the term is weaker than anything in the term
    rw [hout.stack]
    simp [Settled, hprio, Phrase.strength]

/-! ### The whole list -/

/-- In a postorder every operator finds its operands. -/
theorem arityProblem?_postorder {τ : Type} (e : ExpressionTree τ) (depth : Nat)
    (rest : List (ExpressionItem τ)) :
    arityProblem? depth (e.postorder ++ rest) = arityProblem? (depth + 1) rest := by
  induction e generalizing depth rest with
  | operand term => rfl
  | negation e ih =>
    rw [ExpressionTree.postorder, List.append_assoc, ih]
    simp [arityProblem?, MathOperator.isUnary]
  | operation op binary l r ihl ihr =>
    rw [ExpressionTree.postorder, List.append_assoc, List.append_assoc, ihl, ihr]
    have hdepth : ¬ depth + 1 + 1 < 2 := by omega
    simp [arityProblem?, binary, hdepth]

namespace Expression

/-- A derived list is read without a problem into the postorder of its tree. -/
theorem readTerms_of_derives {ts : List Term} {e : ExpressionTree Term}
    (h : Derives .expression ts e) (hf : InOneFamily ts) :
    ∃ reader : ExpressionReader, readTerms ts = (reader, none) ∧ reader.items = e.postorder := by
  obtain ⟨f, hf⟩ := hf
  obtain ⟨mid, hmid, hphrase⟩ := h.steps hf (r := .start) rfl (.inl rfl) fun _ => trivial
  obtain ⟨out, ops, hpost, -, hitems, hstack⟩ := hphrase.entries
  have hsplit : splitPending (fun _ => true) mid.stack = (ops, []) := by
    rw [hstack]
    exact splitPending_append (by simp) rfl
  have hdone : mid.finish = (mid.emit ops [], none) := by
    simp [ExpressionReader.finish, hsplit]
  have hout : (mid.emit ops []).items = e.postorder := by
    rw [← hpost, ExpressionReader.emit, hitems]
    rfl
  have harity : arityProblem? 0 (mid.emit ops []).items = none := by
    rw [hout]
    simpa [arityProblem?] using arityProblem?_postorder e 0 []
  exact ⟨mid.emit ops [], by simp [readTerms, hmid, hdone, harity], hout⟩

theorem ofTerms_of_derives {ts : List Term} {e : ExpressionTree Term}
    (h : Derives .expression ts e) (hf : InOneFamily ts) :
    (ofTerms ts).valid = true ∧ (ofTerms ts).items = e.postorder := by
  obtain ⟨reader, hread, hitems⟩ := readTerms_of_derives h hf
  simp [ofTerms, hread, hitems]

theorem make_eq_pure {ts : List Term} (hne : ts ≠ []) (h : problem? ts = none) :
    make ts = pure (ofTerms ts) := by
  have hempty : ts.isEmpty = false := by simpa using hne
  simp [make, hempty, h]

end Expression

/-! ### Evaluation -/

section Evaluation

variable {m : Type → Type} [Monad m] [LawfulMonad m] {τ α : Type}

/-- **The stack machine on a postorder.** It computes the value of the tree, makes the same calls
in the same order, and puts the value on top of what is there. -/
theorem Evaluator.runFrom_postorder (ev : Evaluator m τ α) (e : ExpressionTree τ)
    (stack : List α) (rest : List (ExpressionItem τ)) :
    ev.runFrom stack (e.postorder ++ rest) =
      e.eval ev >>= fun v => ev.runFrom (v :: stack) rest := by
  induction e generalizing stack rest with
  | operand term => simp [ExpressionTree.postorder, ExpressionTree.eval, runFrom, step]
  | negation e ih =>
    rw [ExpressionTree.postorder, List.append_assoc, ih]
    simp [ExpressionTree.eval, runFrom, step, MathOperator.isUnary]
  | operation op binary l r ihl ihr =>
    rw [ExpressionTree.postorder, List.append_assoc, List.append_assoc, ihl]
    simp only [ihr]
    simp [ExpressionTree.eval, runFrom, step, binary]

theorem Evaluator.run_postorder (ev : Evaluator m τ α) (e : ExpressionTree τ) :
    ev.run e.postorder = e.eval ev := by
  have h := ev.runFrom_postorder e [] []
  rw [List.append_nil] at h
  simp [run, h, runFrom]

end Evaluation

/-- **Reading and evaluating the lists of the grammar.** Arguments that form an expression over one
family of units give a valid expression and no warning. Its entries are the postorder of the tree,
and any evaluator gives it the value of the tree. -/
theorem make_eq_of_derives {ts : List Term} {e : ExpressionTree Term}
    (h : Derives .expression ts e) (hf : InOneFamily ts) :
    ∃ made : Expression Term, Expression.make ts = pure made ∧ made.valid = true ∧
      made.items = e.postorder ∧
        ∀ (m : Type → Type) [Monad m] [LawfulMonad m] (α : Type) (ev : Evaluator m Term α),
          made.evaluate ev = ExceptT.adapt .evaluation (e.eval ev) := by
  obtain ⟨hvalid, hitems⟩ := Expression.ofTerms_of_derives h hf
  have hproblem : Expression.problem? ts = none := by
    simpa [Expression.ofTerms, Expression.problem?] using hvalid
  refine ⟨_, Expression.make_eq_pure h.ne_nil hproblem, hvalid, hitems, ?_⟩
  intro m _ _ α ev
  rw [Expression.evaluate, if_pos hvalid, hitems, ev.run_postorder]

/-- In `1px + 50% * -(2)` the percentage goes with the length, and the product is under the sum. -/
theorem make_sum_of_product :
    let px := Term.ofValue (.numeric ⟨.length, 1, some .px⟩)
    let percent := (Term.ofValue (.numeric ⟨.percent, 50, none⟩)).withOperator (some .space)
    let two := Term.ofValue (.numeric (.ofInt 2))
    let d := fun d => Term.ofValue (.delimiter d)
    let terms := [px, d .plus, percent, d .star, d .minus, d .leftParen, two, d .rightParen]
    let tree := ExpressionTree.operation .add rfl (.operand px)
      (.operation .multiply rfl (.operand (percent.withOperator none)) (.negation (.operand two)))
    Derives .expression terms tree ∧ InOneFamily terms ∧
      ∃ made, Expression.make terms = pure made ∧ made.valid = true ∧
        made.items = tree.postorder ∧
          made.evaluate (tracingEvaluator none) =
            ExceptT.adapt .evaluation (tree.eval (tracingEvaluator none)) := by
  intro px percent two d terms tree
  have hgroup : Derives .factor [d .leftParen, two, d .rightParen] (.operand two) :=
    .bracketed rfl rfl (.ofTerm (.ofFactor (.operand (.inl ⟨_, rfl⟩))))
  have hproduct : Derives .term
      [percent, d .star, d .minus, d .leftParen, two, d .rightParen]
      (.operation .multiply rfl (.operand (percent.withOperator none))
        (.negation (.operand two))) :=
    .product rfl .star (.ofFactor (.operand (.inl ⟨_, rfl⟩))) (.negative rfl hgroup)
  have hsum : Derives .expression terms tree :=
    .sum rfl .plus (.ofTerm (.ofFactor (.operand (.inl ⟨_, rfl⟩)))) hproduct
  have hfamily : InOneFamily terms := by
    refine ⟨.length, ?_⟩
    simp [terms, px, percent, two, d, Term.unitFamily, UnitFamily.GoesWith, Term.ofValue,
      Term.withOperator, Numeric.ofInt, NumericKind.family]
  obtain ⟨made, hmake, hvalid, hitems, heval⟩ := make_eq_of_derives hsum hfamily
  exact ⟨hsum, hfamily, made, hmake, hvalid, hitems, heval _ _ _⟩

end CssModel
