import CssModel.Proofs.Expression.NestedEvaluation
import CssModel.Proofs.Term.NumericRange
import CssModel.Proofs.Term.Signs

/-!
# The terms that can be made

A term can hold terms in four ways, and each of them is made differently. Lists and pairs take any
terms. A function folds signs into its arguments. An expression reads its arguments and keeps only
those that can be operands, so that it holds less than it was given; this is so too when it stops at
a problem and is invalid.

`Term.Built` lists the calls that make terms. What they lead to is said once for each type of value,
by `Value.IsBuilt`, and later facts about terms do not look at the calls again.

## Main definitions

* `CssModel.operandsOf`, `CssModel.Expression.operands`: the operands among entries
* `CssModel.Value.parts`, `CssModel.Term.Contains`: the terms in a term
* `CssModel.Term.Built`: what calls lead to
* `CssModel.Value.IsBuilt`: what is known of a value then

## Main results

* `CssModel.Term.Built.isBuilt`, `CssModel.Term.Built.of_mem_parts`, `CssModel.Term.Built.made`
-/

namespace CssModel

/-! ### The terms in a term -/

/-- The operands among the entries of an expression. -/
def operandsOf {τ : Type} (items : List (ExpressionItem τ)) : List τ :=
  items.filterMap fun
    | .operand t => some t
    | .operator _ => none

/-- The operands of an expression, in the order in which they are put out. -/
def Expression.operands {τ : Type} (e : Expression τ) : List τ :=
  operandsOf e.items

theorem Expression.mem_operands_iff {τ : Type} {e : Expression τ} {t : τ} :
    t ∈ e.operands ↔ .operand t ∈ e.items := by
  rw [operands, operandsOf, List.mem_filterMap]
  constructor
  · rintro ⟨item, hitem, hfound⟩
    cases item with
    | operand u =>
      obtain rfl : u = t := Option.some.inj hfound
      exact hitem
    | operator op => cases hfound
  · exact fun h => ⟨_, h, rfl⟩

/-- The terms that stand directly in a value. -/
def Value.parts : Value → List Term
  | .call f => f.args
  | .list terms => terms
  | .pair _ t => [t]
  | .calc e => e.operands
  | _ => []

/-- The term contains the other one, at any depth. -/
def Term.Contains (t u : Term) : Prop :=
  Relation.TransGen (fun t u => u ∈ t.value.parts) t u

/-! ### What calls lead to -/

/-- Values of texts, colours and single characters, which are taken as they are. -/
def Value.isUnchecked : Value → Bool
  | .color _ | .string _ | .ident _ | .uri _ | .unicodeRange _ | .brackets _ | .delimiter _ => true
  | _ => false

/-- What calls lead to: terms are made of values of all sorts, get another operator and are negated,
and the arguments of a function can be accepted and refused from outside. -/
inductive Term.Built : Term → Prop
  | unchecked {v : Value} (h : v.isUnchecked = true) : Built (.ofValue v)
  | numeric {n : Numeric} (h : n.Reached) : Built (.ofValue (.numeric n))
  | rect {given r : Rectangle} (hedges : ∀ n ∈ given.numbers, n.Reached)
      (h : given.check = .ok r) : Built (.ofValue (.rect r))
  | list {ts : List Term} (hts : ∀ t ∈ ts, Built t) : Built (.ofValue (.list ts))
  | pair {key : String} {t : Term} (ht : Built t) : Built (.ofValue (.pair key t))
  | call {name : String} {args : List Term} {f : FunctionCall Term} {log : WarningLog}
      (hargs : ∀ t ∈ args, Built t)
      (h : ((FunctionCall.make name args).run.run log).1 = .ok f) : Built (.ofValue (.call f))
  | expression {ts : List Term} {e : Expression Term} {log : WarningLog} (hts : ∀ t ∈ ts, Built t)
      (h : ((Expression.make ts).run.run log).1 = .ok e) : Built (.ofValue (.calc e))
  | withOperator {t : Term} (ht : Built t) (operator : Option JoinOperator) :
      Built (t.withOperator operator)
  | negated {t t' : Term} (ht : Built t) (h : t.negated? = some t') : Built t'
  | setValid {operator : Option JoinOperator} {f : FunctionCall Term}
      (ht : Built ⟨operator, .call f⟩) (valid : Bool) : Built ⟨operator, .call { f with valid }⟩

/-- What is known of the value of a term that can be made. -/
def Value.IsBuilt : Value → Prop
  | .numeric n => n.Reached
  | .call f => ∀ t ∈ f.args, Term.Built t
  | .list ts => ∀ t ∈ ts, Term.Built t
  | .pair _ t => Term.Built t
  | .calc e => ∃ ts, (∀ t ∈ ts, t.Built) ∧ e = Expression.ofTerms ts
  | _ => True

theorem FunctionCall.eq_ofArgs_of_make {name : String} {args : List Term} {f : FunctionCall Term}
    {log : WarningLog} (h : ((make name args).run.run log).1 = .ok f) : f = ofArgs name args := by
  by_cases hname : name = ""
  · subst hname
    cases h
  · exact Except.ok.inj (h.symm.trans (outcome_make hname args log))

theorem Expression.eq_ofTerms_of_make {ts : List Term} {e : Expression Term} {log : WarningLog}
    (h : ((make ts).run.run log).1 = .ok e) : e = ofTerms ts := by
  cases ts with
  | nil => cases h
  | cons t ts => exact Except.ok.inj (h.symm.trans (outcome_make (List.cons_ne_nil t ts) log))

namespace Term

variable {t u : Term}

/-- A sign is folded into a term by negating it and giving it another operator. -/
theorem Built.of_folds {first : Bool} {args folded : List Term} {valid : Bool}
    (h : FunctionCall.Folds first args folded valid) (hargs : ∀ t ∈ args, t.Built) :
    ∀ t ∈ folded, t.Built := by
  induction h with
  | nil => exact hargs
  | fold _ hnext _ ih =>
    obtain ⟨-, hterm, hrest⟩ := by simpa only [List.forall_mem_cons] using hargs
    exact List.forall_mem_cons.mpr ⟨(hterm.negated hnext).withOperator _, ih hrest⟩
  | keep _ _ ih =>
    obtain ⟨hterm, hrest⟩ := List.forall_mem_cons.mp hargs
    exact List.forall_mem_cons.mpr ⟨hterm, ih hrest⟩

theorem Built.ofArgs {name : String} {args : List Term} (hname : name ≠ "")
    (hargs : ∀ t ∈ args, t.Built) : (ofValue (.call (FunctionCall.ofArgs name args))).Built :=
  .call hargs (FunctionCall.outcome_make hname args .empty)

theorem Built.ofTerms {ts : List Term} (hne : ts ≠ []) (hts : ∀ t ∈ ts, t.Built) :
    (ofValue (.calc (Expression.ofTerms ts))).Built :=
  .expression hts (Expression.outcome_make hne .empty)

/-- An expression of two operands and what stands between them. -/
theorem Built.binary {d : Delimiter} {l r : Term} (hl : l.Built) (hr : r.Built) :
    (ofValue (.calc (Expression.ofTerms [l, ofValue (.delimiter d), r]))).Built := by
  have hd : (ofValue (.delimiter d)).Built := .unchecked rfl
  refine .ofTerms (List.cons_ne_nil _ _) ?_
  simpa only [List.forall_mem_cons] using ⟨hl, hd, hr, List.forall_mem_nil _⟩

theorem isBuilt_of_negated (ht : t.value.IsBuilt) (h : t.negated? = some u) : u.value.IsBuilt := by
  obtain ⟨operator, v⟩ := t
  obtain ⟨v', hv', rfl⟩ := Option.map_eq_some_iff.mp h
  obtain ⟨n, n', rfl, hn', rfl⟩ | ⟨name, name', -, rfl⟩ | ⟨f, rfl, rfl⟩ :=
    Value.negated?_cases hv'
  · exact Numeric.Reached.negated ht hn'
  · trivial
  · exact ht

/-- **What calls lead to**, by the type of the value. -/
theorem Built.isBuilt (h : t.Built) : t.value.IsBuilt := by
  induction h with
  | @unchecked v h => cases v <;> trivial
  | numeric h => exact h
  | rect => trivial
  | list hts => exact hts
  | pair ht => exact ht
  | call hargs h =>
    rw [FunctionCall.eq_ofArgs_of_make h]
    exact Built.of_folds (FunctionCall.folds_foldSigns _ _) hargs
  | @expression ts _ _ hts h => exact ⟨ts, hts, Expression.eq_ofTerms_of_make h⟩
  | withOperator _ _ ih => exact ih
  | negated _ h ih => exact isBuilt_of_negated ih h
  | setValid _ _ ih => exact ih

/-- The parts of a term that can be made can be made themselves. -/
theorem Built.of_mem_parts (h : t.Built) (hu : u ∈ t.value.parts) : u.Built := by
  have hbuilt := h.isBuilt
  unfold Value.parts at hu
  split at hu
  · next f hv =>
    rw [hv] at hbuilt
    exact hbuilt u hu
  · next ts hv =>
    rw [hv] at hbuilt
    exact hbuilt u hu
  · next key v hv =>
    rw [hv] at hbuilt
    obtain rfl : u = v := List.mem_singleton.mp hu
    exact hbuilt
  · next e hv =>
    rw [hv] at hbuilt
    obtain ⟨ts, hts, rfl⟩ := hbuilt
    obtain ⟨t', ht', -, rfl⟩ := Expression.exists_of_operand (Expression.mem_operands_iff.mp hu)
    exact (hts t' ht').withOperator none
  · cases hu

theorem Built.of_contains (h : t.Built) (hu : t.Contains u) : u.Built := by
  induction hu with
  | single hu => exact h.of_mem_parts hu
  | tail _ hu ih => exact ih.of_mem_parts hu

/-- Every expression in a term that can be made has been read. -/
theorem Built.made (h : t.Built) : t.Made := by
  induction h with
  | @unchecked v h => exact .plain (by cases v <;> first | rfl | cases h)
  | numeric | rect | list | pair | call => exact .plain rfl
  | @expression ts _ _ _ h ih =>
    rw [Expression.eq_ofTerms_of_make h]
    exact .nested none ih
  | withOperator _ operator ih =>
    cases ih with
    | plain h => exact .plain h
    | nested _ hts => exact .nested operator hts
  | negated _ h _ =>
    -- expressions take no sign
    obtain ⟨v, hv, rfl⟩ := Option.map_eq_some_iff.mp h
    obtain ⟨n, n', -, -, rfl⟩ | ⟨name, name', -, rfl⟩ | ⟨f, -, rfl⟩ := Value.negated?_cases hv
    · exact .plain rfl
    · exact .plain rfl
    · exact .plain rfl
  | setValid => exact .plain rfl

end Term

end CssModel
