import CssModel.Proofs.Expression.Postfix

/-!
# The calls of an evaluation

An evaluator is asked for one value after the other, may remember what it was asked, and may fail at
any call. `Evaluator.recorded` writes the calls down together with their answers and changes nothing
else. What is written down is stated on the tree of the expression: `Transcript` says which calls
the tree gives rise to, that each operator gets the answers for its own operands in the order in
which they are written, and that a failure is the last thing to happen.

An evaluator that remembers is one whose callbacks run in `StateM σ`. Nothing is assumed of `σ` or
of the callbacks, so that the answer to a call may depend on all calls before it.

## Main definitions

* `CssModel.Callback`, `CssModel.Answered`, `CssModel.Evaluator.recorded`
* `CssModel.Transcript`: the calls for a tree
* `CssModel.InOrder`: how calls stand to the entries of an expression

## Main results

* `CssModel.ExpressionTree.transcript_eval`: an evaluation makes the calls of its tree
* `CssModel.Transcript.inOrder`: the calls of a tree are made in the order of its entries
* `CssModel.evaluate_recorded`
-/

namespace CssModel

variable {σ τ α : Type}

/-! ### Recording -/

/-- What an evaluator is asked. -/
inductive Callback (τ α : Type)
  | argument (term : τ)
  | unary (op : MathOperator) (value : α)
  | binary (op : MathOperator) (left right : α)

/-- The entry of the expression for which the callback is made. -/
def Callback.entry : Callback τ α → ExpressionItem τ
  | .argument term => .operand term
  | .unary op _ => .operator op
  | .binary op _ _ => .operator op

/-- A call, and the answer to it. -/
structure Answered (τ α : Type) where
  call : Callback τ α
  answer : Except EvaluationError α

/-- The entry of the expression for which the call was made. -/
def Answered.entry (x : Answered τ α) : ExpressionItem τ :=
  x.call.entry

/-- Makes a call and writes it down with its answer. -/
def record (call : Callback τ α) (run : ExceptT EvaluationError (StateM σ) α) :
    ExceptT EvaluationError (StateM (List (Answered τ α) × σ)) α :=
  ExceptT.mk fun (calls, s) =>
    ((run.run.run s).1, calls ++ [⟨call, (run.run.run s).1⟩], (run.run.run s).2)

/-- The same evaluator, with all calls written down. -/
def Evaluator.recorded (ev : Evaluator (StateM σ) τ α) :
    Evaluator (StateM (List (Answered τ α) × σ)) τ α where
  argument term := record (.argument term) (ev.argument term)
  unary op value := record (.unary op value) (ev.unary op value)
  binary op left right := record (.binary op left right) (ev.binary op left right)

/-- The calls that a tree gives rise to, and the outcome of the last of them. -/
inductive Transcript : ExpressionTree τ → List (Answered τ α) → Except EvaluationError α → Prop
  | operand (term : τ) (answer : Except EvaluationError α) :
      Transcript (.operand term) [⟨.argument term, answer⟩] answer
  | negation {e : ExpressionTree τ} {calls : List (Answered τ α)} {value : α}
      (h : Transcript e calls (.ok value)) (answer : Except EvaluationError α) :
      Transcript (.negation e) (calls ++ [⟨.unary .negate value, answer⟩]) answer
  | negationOfError {e : ExpressionTree τ} {calls : List (Answered τ α)} {error : EvaluationError}
      (h : Transcript e calls (.error error)) : Transcript (.negation e) calls (.error error)
  | operation {op : MathOperator} {binary : op.isUnary = false} {l r : ExpressionTree τ}
      {callsl callsr : List (Answered τ α)} {left right : α}
      (hl : Transcript l callsl (.ok left)) (hr : Transcript r callsr (.ok right))
      (answer : Except EvaluationError α) :
      Transcript (.operation op binary l r)
        (callsl ++ callsr ++ [⟨.binary op left right, answer⟩]) answer
  | leftOfError {op : MathOperator} {binary : op.isUnary = false} {l r : ExpressionTree τ}
      {calls : List (Answered τ α)} {error : EvaluationError}
      (hl : Transcript l calls (.error error)) :
      Transcript (.operation op binary l r) calls (.error error)
  | rightOfError {op : MathOperator} {binary : op.isUnary = false} {l r : ExpressionTree τ}
      {callsl callsr : List (Answered τ α)} {left : α} {error : EvaluationError}
      (hl : Transcript l callsl (.ok left)) (hr : Transcript r callsr (.error error)) :
      Transcript (.operation op binary l r) (callsl ++ callsr) (.error error)

/-- The calls are made for the entries from the first one on, one call for each, up to the first
that fails; the outcome is the answer to the last call. -/
structure InOrder (items : List (ExpressionItem τ)) (calls : List (Answered τ α))
    (outcome : Except EvaluationError α) : Prop where
  entries : calls.map Answered.entry <+: items
  complete : ∀ value, outcome = .ok value → calls.map Answered.entry = items
  last : ∃ before last, calls = before ++ [last] ∧ last.answer = outcome ∧
    ∀ earlier ∈ before, ∃ value, earlier.answer = .ok value

/-! ### Runs with a state -/

section Runs

variable {ε : Type} {x : ExceptT ε (StateM σ) α} {s s' : σ}

theorem run_adapt {ε' : Type} {wrap : ε → ε'} {outcome : Except ε α}
    (h : x.run.run s = (outcome, s')) :
    (ExceptT.adapt wrap x).run.run s = (outcome.mapError wrap, s') := by
  have hadapt : (ExceptT.adapt wrap x).run = Except.mapError wrap <$> x.run := rfl
  rw [hadapt, StateT.run_map, h]
  rfl

theorem run_record {call : Callback τ α} {run : ExceptT EvaluationError (StateM σ) α}
    {calls : List (Answered τ α)} {answer : Except EvaluationError α}
    (h : run.run.run s = (answer, s')) :
    (record call run).run.run (calls, s) = (answer, calls ++ [⟨call, answer⟩], s') := by
  have hrecord : (record call run).run.run (calls, s) =
      ((run.run.run s).1, calls ++ [⟨call, (run.run.run s).1⟩], (run.run.run s).2) := rfl
  rw [hrecord, h]

end Runs

/-! ### The calls of a tree -/

/-- **An evaluation makes the calls of its tree**, whatever has been written down before; without
the record it has the same outcome and leaves the same state behind. -/
theorem ExpressionTree.transcript_eval (ev : Evaluator (StateM σ) τ α) (e : ExpressionTree τ)
    (s : σ) : ∃ outcome calls s', Transcript e calls outcome ∧
      (e.eval ev).run.run s = (outcome, s') ∧
        ∀ before, (e.eval ev.recorded).run.run (before, s) = (outcome, before ++ calls, s') := by
  induction e generalizing s with
  | operand term =>
    cases h : (ev.argument term).run.run s with
    | mk answer s' => exact ⟨answer, _, s', .operand term answer, h, fun _ => run_record h⟩
  | negation e ih =>
    obtain ⟨outcome, calls, s', htranscript, heval, hrecorded⟩ := ih s
    cases outcome with
    | error error =>
      exact ⟨.error error, calls, s', .negationOfError htranscript, run_bind_of_error heval,
        fun before => run_bind_of_error (hrecorded before)⟩
    | ok value =>
      cases h : (ev.unary .negate value).run.run s' with
      | mk answer s'' =>
        refine ⟨answer, _, s'', .negation htranscript answer, (run_bind_of_ok heval).trans h,
          fun before => (run_bind_of_ok (hrecorded before)).trans ?_⟩
        rw [← List.append_assoc]
        exact run_record h
  | operation op binary l r ihl ihr =>
    obtain ⟨outcome, callsl, s', hl, hevall, hrecordedl⟩ := ihl s
    cases outcome with
    | error error =>
      exact ⟨.error error, callsl, s', .leftOfError hl, run_bind_of_error hevall,
        fun before => run_bind_of_error (hrecordedl before)⟩
    | ok left =>
      obtain ⟨outcome, callsr, s'', hr, hevalr, hrecordedr⟩ := ihr s'
      cases outcome with
      | error error =>
        refine ⟨.error error, callsl ++ callsr, s'', .rightOfError hl hr,
          (run_bind_of_ok hevall).trans (run_bind_of_error hevalr), fun before =>
            (run_bind_of_ok (hrecordedl before)).trans ?_⟩
        rw [← List.append_assoc]
        exact run_bind_of_error (hrecordedr (before ++ callsl))
      | ok right =>
        cases h : (ev.binary op left right).run.run s'' with
        | mk answer t =>
          refine ⟨answer, _, t, .operation hl hr answer,
            (run_bind_of_ok hevall).trans ((run_bind_of_ok hevalr).trans h), fun before =>
              (run_bind_of_ok (hrecordedl before)).trans
                ((run_bind_of_ok (hrecordedr (before ++ callsl))).trans ?_)⟩
          rw [← List.append_assoc, ← List.append_assoc]
          exact run_record h

/-! ### The order of the calls -/

section Order

variable {items more : List (ExpressionItem τ)} {calls : List (Answered τ α)}

/-- An evaluation with a value was answered with a value at every call. -/
theorem InOrder.answered {value : α} (h : InOrder items calls (.ok value)) :
    ∀ x ∈ calls, ∃ v, x.answer = .ok v := by
  obtain ⟨before, last, rfl, hlast, hbefore⟩ := h.last
  intro x hx
  rw [List.mem_append, List.mem_singleton] at hx
  obtain hx | rfl := hx
  · exact hbefore x hx
  · exact ⟨value, hlast⟩

/-- One more call, after answers to all calls before it. -/
theorem inOrder_concat (hanswered : ∀ x ∈ calls, ∃ v, x.answer = .ok v) (call : Callback τ α)
    (hitems : calls.map Answered.entry ++ [call.entry] = items)
    (answer : Except EvaluationError α) :
    InOrder items (calls ++ [⟨call, answer⟩]) answer := by
  have hentries : (calls ++ [Answered.mk call answer]).map Answered.entry = items := by
    rw [List.map_append, ← hitems]
    rfl
  exact ⟨hentries ▸ List.prefix_rfl, fun _ _ => hentries, calls, _, rfl, rfl, hanswered⟩

/-- A failure ends the evaluation of every list that goes on behind these entries. -/
theorem InOrder.of_error {error : EvaluationError} (h : InOrder items calls (.error error))
    (hmore : items <+: more) : InOrder more calls (.error error) :=
  ⟨h.entries.trans hmore, fun _ hok => (nomatch hok), h.last⟩

/-- A failure behind a part that has a value. -/
theorem InOrder.append_error {itemsl : List (ExpressionItem τ)} {callsl : List (Answered τ α)}
    {value : α} {error : EvaluationError} (hl : InOrder itemsl callsl (.ok value))
    (hr : InOrder items calls (.error error)) :
    InOrder (itemsl ++ items) (callsl ++ calls) (.error error) := by
  refine ⟨?_, fun _ hok => (nomatch hok), ?_⟩
  · rw [List.map_append, hl.complete value rfl]
    exact (List.prefix_append_right_inj itemsl).mpr hr.entries
  · obtain ⟨before, last, rfl, hlast, hbefore⟩ := hr.last
    refine ⟨callsl ++ before, last, (List.append_assoc ..).symm, hlast, fun x hx => ?_⟩
    obtain hx | hx := List.mem_append.mp hx
    · exact hl.answered x hx
    · exact hbefore x hx

/-- **The calls of a tree are made in the order of its entries.** -/
theorem Transcript.inOrder {e : ExpressionTree τ} {outcome : Except EvaluationError α}
    (h : Transcript e calls outcome) : InOrder e.postorder calls outcome := by
  induction h with
  | operand term answer =>
    exact inOrder_concat (List.forall_mem_nil _) (.argument term) rfl answer
  | negation _ answer ih =>
    refine inOrder_concat ih.answered _ ?_ answer
    rw [ih.complete _ rfl]
    rfl
  | negationOfError _ ih => exact ih.of_error (List.prefix_append _ _)
  | operation _ _ answer ihl ihr =>
    refine inOrder_concat (fun x hx => ?_) _ ?_ answer
    · obtain hx | hx := List.mem_append.mp hx
      · exact ihl.answered x hx
      · exact ihr.answered x hx
    · rw [List.map_append, ihl.complete _ rfl, ihr.complete _ rfl]
      rfl
  | leftOfError _ ih =>
    rw [ExpressionTree.postorder, List.append_assoc]
    exact ih.of_error (List.prefix_append _ _)
  | rightOfError _ _ ihl ihr => exact (ihl.append_error ihr).of_error (List.prefix_append _ _)

end Order

/-! ### Expressions -/

theorem Expression.evaluate_eq_throw {m : Type → Type} [Monad m] {x : Expression τ}
    (h : x.valid = false) (ev : Evaluator m τ α) :
    x.evaluate ev = throw (.unsupported .invalidExpression) := by
  rw [evaluate, if_neg (by simp [h])]

/-- Nothing but the value of the tree is left on the stack. -/
theorem Evaluator.runFrom_nil_postorder {m : Type → Type} [Monad m] [LawfulMonad m]
    (ev : Evaluator m τ α) (e : ExpressionTree τ) :
    ev.runFrom [] e.postorder = e.eval ev >>= fun value => pure [value] := by
  simpa [runFrom] using ev.runFrom_postorder e [] []

theorem run_bind_pure {ε β : Type} {x : ExceptT ε (StateM σ) α} {s s' : σ} {outcome : Except ε α}
    (h : x.run.run s = (outcome, s')) (f : α → β) :
    (x >>= fun value => pure (f value)).run.run s = (outcome.map f, s') := by
  cases outcome with
  | ok value => exact run_bind_of_ok h
  | error error => exact run_bind_of_error h

/-- **What an evaluation asks for.** A valid expression is a tree in postorder, and its value is
that of the tree in any monad. Whatever the evaluator does, one call is made for each entry, in
their order, and each operator gets the values of its own operands. As long as all calls succeed the
evaluation goes on; then one value is left on the stack, and that is the result. The first failure
is the last call, and it is what the evaluation fails with: the stack never lacks a value. For an
invalid expression no call is made. -/
theorem evaluate_recorded {ts : List Term} (hne : ts ≠ []) (log : WarningLog) :
    ∃ made : Expression Term, ((Expression.make ts).run.run log).1 = .ok made ∧
      (made.valid = true → ∃ tree : ExpressionTree Term, made.items = tree.postorder ∧
        (∀ (m : Type → Type) [Monad m] [LawfulMonad m] (α : Type) (ev : Evaluator m Term α),
          made.evaluate ev = ExceptT.adapt .evaluation (tree.eval ev)) ∧
        ∀ (σ α : Type) (ev : Evaluator (StateM σ) Term α) (s : σ), ∃ outcome calls s',
          (made.evaluate ev.recorded).run.run ([], s) =
              (outcome.mapError .evaluation, calls, s') ∧
            (made.evaluate ev).run.run s = (outcome.mapError .evaluation, s') ∧
            (ev.runFrom [] made.items).run.run s = (outcome.map fun value => [value], s') ∧
            Transcript tree calls outcome ∧ InOrder made.items calls outcome) ∧
      (made.valid = false → ∀ (m : Type → Type) [Monad m] (α : Type) (ev : Evaluator m Term α),
        made.evaluate ev = throw (.unsupported .invalidExpression)) := by
  refine ⟨Expression.ofTerms ts, Expression.outcome_make hne log, fun hvalid => ?_,
    fun hinvalid m _ α ev => Expression.evaluate_eq_throw hinvalid ev⟩
  obtain ⟨last, ops, haccepted⟩ := Expression.valid_iff_accepted.mp hvalid
  obtain ⟨tree, htree⟩ := haccepted.exists_postorder
  refine ⟨tree, htree, fun m _ _ α ev => evaluate_eq_of_postorder hvalid htree ev,
    fun σ α ev s => ?_⟩
  obtain ⟨outcome, calls, s', htranscript, heval, hrecorded⟩ := tree.transcript_eval ev s
  refine ⟨outcome, calls, s', ?_, ?_, ?_, htranscript, htree ▸ htranscript.inOrder⟩
  · rw [evaluate_eq_of_postorder hvalid htree ev.recorded]
    exact run_adapt (hrecorded [])
  · rw [evaluate_eq_of_postorder hvalid htree ev]
    exact run_adapt heval
  · rw [htree, ev.runFrom_nil_postorder]
    exact run_bind_pure heval _

/-- In `1 + 2` the third call is the addition. An evaluator that fails there is not called again. -/
theorem evaluate_recorded_failing_sum :
    let terms := [Term.ofValue (.numeric (.ofInt 1)), Term.ofValue (.delimiter .plus),
      Term.ofValue (.numeric (.ofInt 2))]
    let failure := EvaluationError.reported "failed at call 2"
    terms ≠ [] ∧ ∃ made : Expression Term, ((Expression.make terms).run.run .empty).1 = .ok made ∧
      made.valid = true ∧ ∃ tree : ExpressionTree Term, made.items = tree.postorder ∧
        ∃ calls s', (made.evaluate (tracingEvaluator (some 2)).recorded).run.run ([], []) =
            (.error (.evaluation failure), calls, s') ∧
          Transcript tree calls (.error failure) ∧ InOrder made.items calls (.error failure) := by
  intro terms failure
  have hne : terms ≠ [] := List.cons_ne_nil _ _
  have hvalid : (Expression.ofTerms terms).valid = true := rfl
  have hfails : ((Expression.ofTerms terms).evaluate (tracingEvaluator (some 2))).run.run [] =
      (.error (.evaluation failure), _) := rfl
  obtain ⟨made, hmade, hcalls, -⟩ := evaluate_recorded hne .empty
  obtain rfl : Expression.ofTerms terms = made :=
    Except.ok.inj ((Expression.outcome_make hne .empty).symm.trans hmade)
  obtain ⟨tree, htree, -, hrun⟩ := hcalls hvalid
  obtain ⟨outcome, calls, s', hrecorded, heval, -, htranscript, horder⟩ :=
    hrun _ _ (tracingEvaluator (some 2)) []
  have houtcome : outcome.mapError Failure.evaluation = .error (.evaluation failure) :=
    congrArg Prod.fst (heval.symm.trans hfails)
  cases outcome with
  | ok value => cases houtcome
  | error error =>
    cases houtcome
    exact ⟨hne, _, hmade, hvalid, tree, htree, calls, s', hrecorded, htranscript, horder⟩

end CssModel
