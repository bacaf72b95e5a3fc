import CssModel.Proofs.Expression.Reading

/-!
# What the reader accepts

The reader finds out whether brackets pair up, whether operands are numbers of one family, and
whether each operator finds its operands in the order in which entries are put out. It does not
look at where an operand, a bracket or the end of the list stands. Since operators wait while
operands are put out at once, `1 2 +` and `1 + 2` come out alike, and both are accepted.

So the accepted lists are more than those of the grammar, and `inPlace` is exactly what is missing.

## Main results

* `CssModel.ExpressionReader.bracketsMatch_of_steps`, `CssModel.ExpressionReader.goesWith_of_steps`:
  what reading without a problem says about the list
* `CssModel.derivable_iff_inPlace`: which of the accepted lists the grammar derives
* `CssModel.make_operator_behind_operands`: one that it does not derive
-/

namespace CssModel

/-! ### One argument -/

section Step

variable {r next : ExpressionReader} {t : Term}

/-- The brackets on the stack are those that are open in the list. -/
theorem ReaderStep.bracketsMatch_eq (h : ReaderStep r t next) (rest : List Term) :
    bracketsMatch (openBrackets r.stack) (t :: rest) =
      bracketsMatch (openBrackets next.stack) rest := by
  cases h with
  | operand ht hj =>
    have hd : t.delimiter? = none := Term.delimiter?_eq_none (by simp [ht])
    exact bracketsMatch_cons (by simp [hd]) (by simp [hd])
  | negative ht hr =>
    rw [bracketsMatch_operator ht Additive.minus.ofDelimiter?_eq, openBrackets_operator]
  | positive ht hr => exact bracketsMatch_operator ht Additive.plus.ofDelimiter?_eq
  | operator ht hd hr hsplit =>
    rw [bracketsMatch_operator ht hd,
      eq_append_of_splitPending hsplit, openBrackets_map_append]
    exact congrArg (bracketsMatch · rest) (openBrackets_operator ..).symm
  | openBracket ht => rw [bracketsMatch_leftParen ht, openBrackets_openBracket]
  | closeBracket ht hsplit =>
    rw [eq_append_of_splitPending hsplit, openBrackets_map_append, openBrackets_openBracket,
      bracketsMatch_rightParen ht]
    rfl

theorem Term.isOperand_of_operandType? {found : UnitFamily} {integral : Bool}
    (h : t.operandType? = some (found, integral)) : t.IsOperand ∧ t.unitFamily = found := by
  rw [Term.operandType?] at h
  split at h
  · next n hn => simp_all [Term.IsOperand, Term.unitFamily]
  · next e he =>
    by_cases hvalid : e.valid = true
    · simp_all [Term.IsOperand, Term.unitFamily]
    · simp [hvalid] at h
  · simp at h

theorem Term.unitFamily_of_delimiter {d : Delimiter} (h : t.delimiter? = some d) :
    t.unitFamily = .unitless := by
  rw [Term.delimiter?] at h
  rw [Term.unitFamily]
  split at h <;> simp_all

theorem UnitFamily.goesWith_of_join {held found joined : UnitFamily}
    (h : held.join? found = some joined) : joined.GoesWith held ∧ joined.GoesWith found := by
  rw [UnitFamily.join?] at h
  split at h
  · simp_all [UnitFamily.GoesWith]
  · split at h
    · next hheld => simp_all [UnitFamily.GoesWith]
    · simp at h

theorem ReaderStep.isOperand (h : ReaderStep r t next) (ht : t.delimiter? = none) :
    t.IsOperand := by
  cases h with
  | operand htype hj => exact (Term.isOperand_of_operandType? htype).1
  | negative hd | positive hd | operator hd | openBracket hd | closeBracket hd => simp [ht] at hd

/-- The family that is held goes with that of the argument, and with what was held before. -/
theorem ReaderStep.goesWith (h : ReaderStep r t next) :
    next.family.GoesWith r.family ∧ next.family.GoesWith t.unitFamily := by
  cases h with
  | operand htype hj =>
    rw [(Term.isOperand_of_operandType? htype).2]
    exact UnitFamily.goesWith_of_join hj
  | negative hd | positive hd | operator hd | openBracket hd | closeBracket hd =>
    exact ⟨.inr rfl, .inl (Term.unitFamily_of_delimiter hd)⟩

theorem UnitFamily.GoesWith.trans {f g found : UnitFamily} (hfg : f.GoesWith g)
    (hg : g.GoesWith found) : f.GoesWith found := by
  rcases hg with rfl | rfl
  · exact .inl rfl
  · exact hfg

end Step

/-! ### The whole list -/

namespace ExpressionReader

variable {r next : ExpressionReader} {ts : List Term}

theorem bracketsMatch_of_steps (h : r.steps ts = (next, none)) :
    bracketsMatch (openBrackets r.stack) ts = (openBrackets next.stack == 0) := by
  induction ts generalizing r with
  | nil => simp_all [steps, bracketsMatch]
  | cons t ts ih =>
    obtain ⟨mid, hstep, hrest⟩ := steps_cons_iff.mp h
    rw [hstep.bracketsMatch_eq, ih hrest]

theorem isOperand_of_steps (h : r.steps ts = (next, none)) :
    ∀ t ∈ ts, t.delimiter? = none → t.IsOperand := by
  induction ts generalizing r with
  | nil => simp
  | cons t ts ih =>
    obtain ⟨mid, hstep, hrest⟩ := steps_cons_iff.mp h
    exact List.forall_mem_cons.mpr ⟨hstep.isOperand, ih hrest⟩

theorem goesWith_of_steps (h : r.steps ts = (next, none)) :
    next.family.GoesWith r.family ∧ ∀ t ∈ ts, next.family.GoesWith t.unitFamily := by
  induction ts generalizing r with
  | nil =>
    obtain ⟨rfl, -⟩ := Prod.mk.inj h
    exact ⟨.inr rfl, by simp⟩
  | cons t ts ih =>
    obtain ⟨mid, hstep, hrest⟩ := steps_cons_iff.mp h
    obtain ⟨hmid, hmem⟩ := ih hrest
    exact ⟨hmid.trans hstep.goesWith.1,
      List.forall_mem_cons.mpr ⟨hmid.trans hstep.goesWith.2, hmem⟩⟩

end ExpressionReader

namespace Expression

variable {ts : List Term}

/-- A valid expression has been read to the end, and no bracket is open there. -/
theorem exists_steps_of_valid (h : (ofTerms ts).valid = true) :
    ∃ next, ExpressionReader.start.steps ts = (next, none) ∧ openBrackets next.stack = 0 := by
  have hproblem : (readTerms ts).2 = none := by simpa [ofTerms] using h
  rw [readTerms] at hproblem
  split at hproblem
  · simp at hproblem
  · next next hsteps =>
    refine ⟨next, hsteps, ?_⟩
    split at hproblem
    · simp at hproblem
    · next done hfinish =>
      cases hsplit : splitPending (fun _ => true) next.stack with
      | mk ops below =>
        have hbelow : below = [] := by
          simpa [ExpressionReader.finish, hsplit] using congrArg Prod.snd hfinish
        rw [eq_append_of_splitPending hsplit, openBrackets_map_append, hbelow, openBrackets_nil]

/-- At least one argument gives an expression, whatever is wrong with it. -/
theorem outcome_make (hne : ts ≠ []) (log : WarningLog) :
    ((make ts).run.run log).1 = .ok (ofTerms ts) := by
  have hempty : ts.isEmpty = false := by simpa using hne
  cases hproblem : problem? ts with
  | none => rw [make_eq_pure hne hproblem]; rfl
  | some problem =>
    simp only [make, hempty, hproblem]
    rfl

end Expression

/-- **Which accepted lists are expressions.** Whatever the reader accepts has brackets that pair up
and operands of one family, but it is an expression only if everything stands in its place; and
those are all the expressions over one family. -/
theorem derivable_iff_inPlace {ts : List Term} (hne : ts ≠ []) (log : WarningLog) :
    ∃ made : Expression Term, ((Expression.make ts).run.run log).1 = .ok made ∧
      (made.valid = true → bracketsMatch 0 ts = true ∧
        (∀ t ∈ ts, t.delimiter? = none → t.IsOperand) ∧
        (Derivable ts ↔ inPlace true ts = true)) ∧
      (Derivable ts ∧ InOneFamily ts ↔ made.valid = true ∧ inPlace true ts = true) := by
  have haccepted : (Expression.ofTerms ts).valid = true →
      bracketsMatch 0 ts = true ∧ (∀ t ∈ ts, t.delimiter? = none → t.IsOperand) ∧
        InOneFamily ts := by
    intro hvalid
    obtain ⟨next, hsteps, hopen⟩ := Expression.exists_steps_of_valid hvalid
    refine ⟨?_, ExpressionReader.isOperand_of_steps hsteps,
      next.family, (ExpressionReader.goesWith_of_steps hsteps).2⟩
    have hmatch := ExpressionReader.bracketsMatch_of_steps hsteps
    rw [hopen] at hmatch
    exact hmatch
  refine ⟨Expression.ofTerms ts, Expression.outcome_make hne log, ?_, ?_, ?_⟩
  · intro hvalid
    obtain ⟨hmatch, hoperand, -⟩ := haccepted hvalid
    refine ⟨hmatch, hoperand, fun h => (derivable_iff.mp h).1, fun hplace => ?_⟩
    exact derivable_iff.mpr ⟨hplace, hmatch, hoperand⟩
  · rintro ⟨h, hfamily⟩
    obtain ⟨e, he⟩ := h
    exact ⟨(Expression.ofTerms_of_derives he hfamily).1, (derivable_iff.mp ⟨e, he⟩).1⟩
  · rintro ⟨hvalid, hplace⟩
    obtain ⟨hmatch, hoperand, hfamily⟩ := haccepted hvalid
    exact ⟨derivable_iff.mpr ⟨hplace, hmatch, hoperand⟩, hfamily⟩

/-- `1 + 2` is accepted, and it is an expression because everything stands in its place. -/
theorem derivable_one_plus_two :
    let terms := [Term.ofValue (.numeric (.ofInt 1)), Term.ofValue (.delimiter .plus),
      Term.ofValue (.numeric (.ofInt 2))]
    terms ≠ [] ∧ ∃ made : Expression Term, ((Expression.make terms).run.run .empty).1 = .ok made ∧
      made.valid = true ∧ inPlace true terms = true ∧ Derivable terms := by
  intro terms
  have hne : terms ≠ [] := List.cons_ne_nil _ _
  have hvalid : (Expression.ofTerms terms).valid = true := rfl
  obtain ⟨made, hmade, haccepted, -⟩ := derivable_iff_inPlace hne .empty
  obtain rfl : Expression.ofTerms terms = made :=
    Except.ok.inj ((Expression.outcome_make hne .empty).symm.trans hmade)
  exact ⟨hne, _, hmade, hvalid, rfl, (haccepted hvalid).2.2.mpr rfl⟩

/-- `1 2 +` is read into the same entries as `1 + 2`, so it is accepted. No expression ends in an
operator. -/
theorem make_operator_behind_operands :
    let one := Term.ofValue (.numeric (.ofInt 1))
    let two := Term.ofValue (.numeric (.ofInt 2))
    let terms := [one, two, Term.ofValue (.delimiter .plus)]
    ∃ made : Expression Term, Expression.make terms = pure made ∧ made.valid = true ∧
      made.items = [.operand one, .operand two, .operator .add] ∧ ¬ Derivable terms := by
  intro one two terms
  refine ⟨_, Expression.make_eq_pure (List.cons_ne_nil _ _) rfl, rfl, rfl, fun h => ?_⟩
  have hplace : inPlace true terms = true := (derivable_iff.mp h).1
  exact Bool.false_ne_true hplace

end CssModel
