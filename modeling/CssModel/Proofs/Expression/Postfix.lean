import CssModel.Proofs.Expression.Acceptance

/-!
# Entries in postfix order

The entries of an expression are checked once, by counting: an operand adds a value, an operator
takes away its operands and adds its result, and one value must be left. Nothing is said there about
which operator gets which values. But the lists that pass are exactly the postorders of trees, so
every valid expression has a tree after all, whatever its arguments looked like, and evaluating its
entries is evaluating that tree.

## Main definitions

* `CssModel.Accepted`: how far the reader comes with arguments that it accepts

## Main results

* `CssModel.arityProblem?_eq_none_iff`: the lists of entries that pass the count
* `CssModel.Expression.valid_iff_accepted`, `CssModel.Accepted.ofTerms_eq`
* `CssModel.Accepted.exists_postorder`, `CssModel.evaluate_eq_of_postorder`
-/

namespace CssModel

/-! ### The count -/

section Arity

variable {τ : Type}

theorem arityProblem?_unary {op : MathOperator} (h : op.isUnary = true) (depth : Nat)
    (rest : List (ExpressionItem τ)) :
    arityProblem? (depth + 1) (.operator op :: rest) = arityProblem? (depth + 1) rest := by
  rw [arityProblem?, if_pos h, if_neg (Nat.succ_ne_zero depth)]

theorem arityProblem?_binary {op : MathOperator} (h : op.isUnary = false) (depth : Nat)
    (rest : List (ExpressionItem τ)) :
    arityProblem? (depth + 2) (.operator op :: rest) = arityProblem? (depth + 1) rest := by
  have hdepth : ¬ depth + 2 < 2 := by omega
  rw [arityProblem?, if_neg (by simp [h]), if_neg hdepth]
  rfl

/-- The count goes through a list entry by entry, so that what follows may be replaced. -/
theorem arityProblem?_append_congr {ys zs : List (ExpressionItem τ)}
    (h : ∀ depth, arityProblem? depth ys = arityProblem? depth zs)
    (xs : List (ExpressionItem τ)) (depth : Nat) :
    arityProblem? depth (xs ++ ys) = arityProblem? depth (xs ++ zs) := by
  induction xs generalizing depth with
  | nil => exact h depth
  | cons item xs ih =>
    cases item with
    | operand term => exact ih (depth + 1)
    | operator op =>
      rw [List.cons_append, List.cons_append, arityProblem?, arityProblem?, ih, ih]

theorem MathOperator.eq_negate_of_isUnary {op : MathOperator} (h : op.isUnary = true) :
    op = .negate := by
  cases op with
  | negate => rfl
  | add | subtract | multiply | divide => cases h

/-- Trees on a stack, the latest first, stand for the entries that they came from. What passes the
count at their number makes one tree of them. -/
theorem exists_tree_of_arityProblem? (items : List (ExpressionItem τ)) :
    ∀ trees : List (ExpressionTree τ), arityProblem? trees.length items = none →
      ∃ e : ExpressionTree τ, trees.reverse.flatMap ExpressionTree.postorder ++ items =
        e.postorder := by
  induction items with
  | nil =>
    intro trees h
    have hlength : trees.length = 1 := by simpa [arityProblem?] using h
    obtain ⟨e, rfl⟩ := List.length_eq_one_iff.mp hlength
    exact ⟨e, by simp⟩
  | cons item items ih =>
    intro trees h
    cases item with
    | operand term =>
      obtain ⟨e, he⟩ := ih (.operand term :: trees) h
      exact ⟨e, by simpa [ExpressionTree.postorder] using he⟩
    | operator op =>
      by_cases hop : op.isUnary = true
      · cases trees with
        | nil => simp [arityProblem?, hop] at h
        | cons l trees =>
          rw [List.length_cons, arityProblem?_unary hop] at h
          obtain rfl := MathOperator.eq_negate_of_isUnary hop
          obtain ⟨e, he⟩ := ih (.negation l :: trees) h
          exact ⟨e, by simpa [ExpressionTree.postorder] using he⟩
      · rw [Bool.not_eq_true] at hop
        rcases trees with _ | ⟨r, _ | ⟨l, trees⟩⟩
        · simp [arityProblem?, hop] at h
        · simp [arityProblem?, hop] at h
        · rw [List.length_cons, List.length_cons, arityProblem?_binary hop] at h
          obtain ⟨e, he⟩ := ih (.operation op hop l r :: trees) h
          exact ⟨e, by simpa [ExpressionTree.postorder] using he⟩

/-- **What passes the count.** Exactly the postorders of trees. -/
theorem arityProblem?_eq_none_iff {items : List (ExpressionItem τ)} :
    arityProblem? 0 items = none ↔ ∃ e : ExpressionTree τ, items = e.postorder := by
  constructor
  · intro h
    obtain ⟨e, he⟩ := exists_tree_of_arityProblem? items [] h
    exact ⟨e, by simpa using he⟩
  · rintro ⟨e, rfl⟩
    simpa [arityProblem?] using arityProblem?_postorder e 0 []

end Arity

/-! ### Accepted arguments -/

/-- The reader comes to the end of the arguments with nothing but these operators waiting, and what
has been put out then passes the count. -/
structure Accepted (ts : List Term) (last : ExpressionReader) (ops : List MathOperator) :
    Prop where
  steps : ExpressionReader.start.steps ts = (last, none)
  stack : last.stack = ops.map .operator
  arity : arityProblem? 0 (last.items ++ ops.map .operator) = none

namespace Accepted

variable {ts : List Term} {last : ExpressionReader} {ops : List MathOperator}

theorem splitPending_stack (h : Accepted ts last ops) :
    splitPending (fun _ => true) last.stack = (ops, []) := by
  have hsplit : splitPending (fun _ => true) (ops.map .operator ++ []) = (ops, []) :=
    splitPending_append (fun _ _ => rfl) rfl
  rwa [List.append_nil, ← h.stack] at hsplit

theorem readTerms_eq (h : Accepted ts last ops) :
    Expression.readTerms ts = (last.emit ops [], none) := by
  have hfinish : last.finish = (last.emit ops [], none) := by
    rw [ExpressionReader.finish, h.splitPending_stack]
    rfl
  have harity : arityProblem? 0 (last.emit ops []).items = none := h.arity
  rw [Expression.readTerms, h.steps]
  simp only [hfinish, harity]

/-- The expression of accepted arguments. -/
theorem ofTerms_eq (h : Accepted ts last ops) :
    Expression.ofTerms ts =
      ⟨last.items ++ ops.map .operator, last.family, last.integral, true⟩ := by
  rw [Expression.ofTerms, h.readTerms_eq]
  rfl

theorem exists_postorder (h : Accepted ts last ops) :
    ∃ e : ExpressionTree Term, (Expression.ofTerms ts).items = e.postorder := by
  rw [h.ofTerms_eq]
  exact arityProblem?_eq_none_iff.mp h.arity

end Accepted

/-- The valid expressions are those of accepted arguments. -/
theorem Expression.valid_iff_accepted {ts : List Term} :
    (ofTerms ts).valid = true ↔ ∃ last ops, Accepted ts last ops := by
  constructor
  · intro h
    obtain ⟨last, hsteps, hopen⟩ := exists_steps_of_valid h
    cases hsplit : splitPending (fun _ => true) last.stack with
    | mk ops below =>
      have hstack : last.stack = ops.map .operator ++ below := eq_append_of_splitPending hsplit
      have hbelow : below = [] := by
        obtain hnil | ⟨rest, hrest⟩ := below_eq_of_splitPending_true hsplit
        · exact hnil
        · rw [hstack, hrest, openBrackets_map_append, openBrackets_openBracket] at hopen
          exact absurd hopen (Nat.succ_ne_zero _)
      subst hbelow
      rw [List.append_nil] at hstack
      refine ⟨last, ops, hsteps, hstack, ?_⟩
      simpa [ofTerms, readTerms, hsteps, ExpressionReader.finish, hsplit, ExpressionReader.emit]
        using h
  · rintro ⟨last, ops, h⟩
    rw [h.ofTerms_eq]

/-! ### Evaluation -/

section Evaluation

variable {m : Type → Type} [Monad m] [LawfulMonad m] {τ α : Type}

/-- A valid expression whose entries are a postorder has the value of the tree. -/
theorem evaluate_eq_of_postorder {x : Expression τ} {e : ExpressionTree τ} (hvalid : x.valid = true)
    (hitems : x.items = e.postorder) (ev : Evaluator m τ α) :
    x.evaluate ev = ExceptT.adapt .evaluation (e.eval ev) := by
  rw [Expression.evaluate, if_pos hvalid, hitems, ev.run_postorder]

theorem Evaluator.runFrom_append (ev : Evaluator m τ α) (xs ys : List (ExpressionItem τ))
    (stack : List α) :
    ev.runFrom stack (xs ++ ys) = ev.runFrom stack xs >>= fun next => ev.runFrom next ys := by
  induction xs generalizing stack with
  | nil => simp [runFrom]
  | cons item xs ih => simp [runFrom, ih]

end Evaluation

end CssModel
