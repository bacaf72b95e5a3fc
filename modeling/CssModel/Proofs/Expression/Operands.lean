import CssModel.Proofs.Expression.SideBySide

/-!
# What the operands bring

The reader does two things in one pass: it brings the arguments into postfix order, and it folds the
families of the operands and whether they are integral. It stops at the first problem of either
kind, and the two go on side by side. Nevertheless they are independent. Whether an expression is
valid can be said in two parts, of which one does not look at the operands at all and the other does
not look at anything else; and what has been folded in the end does not depend on the order.

## Main definitions

* `CssModel.Term.placeholder`: a number in the place of every operand
* `CssModel.HasFamily`, `CssModel.Term.IsIntegral`: the outcome of the fold

## Main results

* `CssModel.Accepted.hasFamily`, `CssModel.Accepted.integral_iff`
* `CssModel.Expression.valid_placeholder_iff`: validity in two parts
* `CssModel.make_valid_iff_placeholder`
-/

namespace CssModel

/-! ### Families -/

/-- The family of the arguments: every operand goes with it, and unless it is none, it is the family
of an operand. -/
structure HasFamily (ts : List Term) (f : UnitFamily) : Prop where
  goesWith : ∀ t ∈ ts, f.GoesWith t.unitFamily
  occurs : f = .unitless ∨ ∃ t ∈ ts, t.unitFamily = f

theorem HasFamily.eq_of_ne_unitless {ts : List Term} {f g : UnitFamily} (hf : HasFamily ts f)
    (hne : f ≠ .unitless) (hg : ∀ t ∈ ts, g.GoesWith t.unitFamily) : g = f := by
  obtain ⟨t, ht, rfl⟩ := hf.occurs.resolve_left hne
  exact ((hg t ht).resolve_left hne).symm

/-- Arguments that go with the same families have the same family. -/
theorem HasFamily.unique {ts us : List Term} {f g : UnitFamily} (hf : HasFamily ts f)
    (hg : HasFamily us g) (h : ∀ k : UnitFamily,
      (∀ t ∈ ts, k.GoesWith t.unitFamily) ↔ ∀ t ∈ us, k.GoesWith t.unitFamily) : f = g := by
  by_cases hfnone : f = .unitless
  · by_cases hgnone : g = .unitless
    · rw [hfnone, hgnone]
    · exact hg.eq_of_ne_unitless hgnone ((h f).mp hf.goesWith)
  · exact (hf.eq_of_ne_unitless hfnone ((h g).mpr hg.goesWith)).symm

theorem UnitFamily.join?_eq_or {held found joined : UnitFamily}
    (h : held.join? found = some joined) : joined = held ∨ joined = found := by
  rw [UnitFamily.join?] at h
  split at h
  · exact .inl (Option.some.inj h).symm
  · split at h
    · exact .inr (Option.some.inj h).symm
    · cases h

/-! ### Integrality -/

/-- The argument is not a plain number with a fractional part, and if it is an expression, there is
none in it either. -/
structure Term.IsIntegral (t : Term) : Prop where
  number : ∀ n, t.value = .numeric n → n.kind = .number → n.isIntegral = true
  nested : ∀ e, t.value = .calc e → e.integral = true

theorem Term.isIntegral_of_delimiter {t : Term} {d : Delimiter} (h : t.delimiter? = some d) :
    t.IsIntegral := by
  rw [Term.delimiter?] at h
  split at h
  · next hvalue => exact ⟨fun n hn => by simp [hvalue] at hn, fun e he => by simp [hvalue] at he⟩
  · cases h

theorem Term.integral_iff_of_operandType? {t : Term} {found : UnitFamily} {integral : Bool}
    (h : t.operandType? = some (found, integral)) : integral = true ↔ t.IsIntegral := by
  rw [Term.operandType?] at h
  split at h
  · next n hn =>
    obtain ⟨-, rfl⟩ := Prod.mk.inj (Option.some.inj h)
    constructor
    · intro hintegral
      refine ⟨fun n' hn' hkind => ?_, fun e he => by simp [hn] at he⟩
      obtain rfl : n = n' := by simpa [hn] using hn'
      simpa [hkind] using hintegral
    · intro hintegral
      have hnumber := hintegral.number n hn
      by_cases hkind : n.kind = .number
      · simp [hnumber hkind]
      · simp [hkind]
  · next e he =>
    have hvalid : e.valid = true := by
      by_cases hvalid : e.valid = true
      · exact hvalid
      · simp [hvalid] at h
    rw [if_pos hvalid] at h
    obtain ⟨-, rfl⟩ := Prod.mk.inj (Option.some.inj h)
    constructor
    · intro hintegral
      refine ⟨fun n hn => by simp [he] at hn, fun e' he' => ?_⟩
      obtain rfl : e = e' := by simpa [he] using he'
      exact hintegral
    · exact fun hintegral => hintegral.nested e he
  · cases h

/-! ### One argument -/

section Step

variable {r next : ExpressionReader} {t : Term}

theorem ReaderStep.family_eq_or (h : ReaderStep r t next) :
    next.family = r.family ∨ next.family = t.unitFamily := by
  cases h with
  | operand htype hj =>
    rw [(Term.isOperand_of_operandType? htype).2]
    exact UnitFamily.join?_eq_or hj
  | negative | positive | operator | openBracket | closeBracket => exact .inl rfl

theorem ReaderStep.integral_iff (h : ReaderStep r t next) :
    next.integral = true ↔ r.integral = true ∧ t.IsIntegral := by
  cases h with
  | operand htype hj =>
    rw [← Term.integral_iff_of_operandType? htype]
    exact Bool.and_eq_true_iff
  | negative hd | positive hd | operator hd | openBracket hd | closeBracket hd =>
    exact (and_iff_left (Term.isIntegral_of_delimiter hd)).symm

end Step

/-! ### The whole list -/

namespace ExpressionReader

variable {r next : ExpressionReader} {ts : List Term}

theorem family_of_steps (h : r.steps ts = (next, none)) :
    next.family = r.family ∨ ∃ t ∈ ts, t.unitFamily = next.family := by
  induction ts generalizing r with
  | nil =>
    obtain ⟨rfl, -⟩ := Prod.mk.inj h
    exact .inl rfl
  | cons t ts ih =>
    obtain ⟨mid, hstep, hrest⟩ := steps_cons_iff.mp h
    obtain hmid | ⟨u, hu, hfamily⟩ := ih hrest
    · obtain hold | hnew := hstep.family_eq_or
      · exact .inl (hmid.trans hold)
      · exact .inr ⟨t, List.mem_cons_self, (hmid.trans hnew).symm⟩
    · exact .inr ⟨u, List.mem_cons_of_mem t hu, hfamily⟩

theorem integral_of_steps (h : r.steps ts = (next, none)) :
    next.integral = true ↔ r.integral = true ∧ ∀ t ∈ ts, t.IsIntegral := by
  induction ts generalizing r with
  | nil =>
    obtain ⟨rfl, -⟩ := Prod.mk.inj h
    simp
  | cons t ts ih =>
    obtain ⟨mid, hstep, hrest⟩ := steps_cons_iff.mp h
    rw [ih hrest, hstep.integral_iff, List.forall_mem_cons, and_assoc]

end ExpressionReader

namespace Accepted

variable {ts : List Term} {last : ExpressionReader} {ops : List MathOperator}

theorem fits (h : Accepted ts last ops) : ∀ t ∈ ts, t.Fits last.family := by
  intro t ht
  exact ⟨ExpressionReader.isOperand_of_steps h.steps t ht,
    (ExpressionReader.goesWith_of_steps h.steps).2 t ht⟩

/-- **The family does not depend on the order of the operands.** -/
theorem hasFamily (h : Accepted ts last ops) : HasFamily ts last.family :=
  ⟨(ExpressionReader.goesWith_of_steps h.steps).2, ExpressionReader.family_of_steps h.steps⟩

/-- **Integrality is a property of each operand.** -/
theorem integral_iff (h : Accepted ts last ops) :
    last.integral = true ↔ ∀ t ∈ ts, t.IsIntegral := by
  rw [ExpressionReader.integral_of_steps h.steps]
  exact and_iff_right rfl

end Accepted

/-! ### Placeholders -/

/-- The same delimiter, or the number one in the place of anything else. -/
def Term.placeholder (t : Term) : Term :=
  if t.delimiter?.isSome then t else .ofValue (.numeric (.ofInt 1))

theorem Term.delimiter?_placeholder (t : Term) : t.placeholder.delimiter? = t.delimiter? := by
  rw [placeholder]
  split
  · rfl
  · next hnone =>
    rw [Bool.not_eq_true, Option.isSome_eq_false_iff, Option.isNone_iff_eq_none] at hnone
    rw [hnone]
    rfl

/-- Placeholders go with every family. -/
theorem Term.fits_placeholder (t : Term) (f : UnitFamily) : t.placeholder.Fits f := by
  rw [placeholder]
  split
  · next hsome =>
    obtain ⟨d, hd⟩ := Option.isSome_iff_exists.mp hsome
    exact ⟨fun hnone => by simp [hd] at hnone, .inl (Term.unitFamily_of_delimiter hd)⟩
  · exact ⟨fun _ => .inl ⟨_, rfl⟩, .inl rfl⟩

/-- Arguments that are the same delimiter, or none both. -/
def SameDelimiter (t t' : Term) : Prop :=
  t'.delimiter? = t.delimiter?

theorem standsFor_sameDelimiter : StandsFor SameDelimiter :=
  ⟨id, id⟩

theorem forall₂_placeholder (ts : List Term) :
    List.Forall₂ SameDelimiter ts (ts.map Term.placeholder) := by
  rw [List.forall₂_map_right_iff, List.forall₂_same]
  exact fun t _ => t.delimiter?_placeholder

theorem forall₂_of_placeholder (ts : List Term) :
    List.Forall₂ SameDelimiter (ts.map Term.placeholder) ts := by
  rw [List.forall₂_map_left_iff, List.forall₂_same]
  exact fun t _ => t.delimiter?_placeholder.symm

/-- **Validity in two parts**: delimiters in an order that is accepted around numbers, and operands
that go together. -/
theorem Expression.valid_placeholder_iff (ts : List Term) :
    (ofTerms ts).valid = true ↔ (ofTerms (ts.map Term.placeholder)).valid = true ∧
      (∀ t ∈ ts, t.delimiter? = none → t.IsOperand) ∧ InOneFamily ts := by
  constructor
  · intro h
    obtain ⟨last, ops, haccepted⟩ := valid_iff_accepted.mp h
    have hfits : ∀ t ∈ ts.map Term.placeholder, t.Fits .unitless := by
      rw [List.forall_mem_map]
      exact fun t _ => t.fits_placeholder .unitless
    obtain ⟨last', haccepted'⟩ :=
      haccepted.of_alike standsFor_sameDelimiter (forall₂_placeholder ts) hfits
    exact ⟨valid_iff_accepted.mpr ⟨last', ops, haccepted'⟩,
      fun t ht => (haccepted.fits t ht).isOperand, last.family, haccepted.hasFamily.goesWith⟩
  · rintro ⟨h, hoperand, f, hf⟩
    obtain ⟨last, ops, haccepted⟩ := valid_iff_accepted.mp h
    obtain ⟨last', haccepted'⟩ := haccepted.of_alike standsFor_sameDelimiter
      (forall₂_of_placeholder ts) fun t ht => ⟨hoperand t ht, hf t ht⟩
    exact valid_iff_accepted.mpr ⟨last', ops, haccepted'⟩

/-- **Shape and operands.** Arguments make a valid expression exactly when they do so with the
number one for everything that is no delimiter, and nothing but numbers and valid expressions
stands there, all of one family. The expression then has this family, and it is integral if all its
operands are. -/
theorem make_valid_iff_placeholder {ts : List Term} (hne : ts ≠ []) (log : WarningLog) :
    ∃ made shape : Expression Term, ((Expression.make ts).run.run log).1 = .ok made ∧
      ((Expression.make (ts.map Term.placeholder)).run.run log).1 = .ok shape ∧
      (made.valid = true ↔ shape.valid = true ∧
        (∀ t ∈ ts, t.delimiter? = none → t.IsOperand) ∧ InOneFamily ts) ∧
      (made.valid = true → HasFamily ts made.family ∧
        (made.integral = true ↔ ∀ t ∈ ts, t.IsIntegral)) := by
  refine ⟨_, _, Expression.outcome_make hne log, Expression.outcome_make (by simpa using hne) log,
    Expression.valid_placeholder_iff ts, fun hvalid => ?_⟩
  obtain ⟨last, ops, haccepted⟩ := Expression.valid_iff_accepted.mp hvalid
  rw [haccepted.ofTerms_eq]
  exact ⟨haccepted.hasFamily, haccepted.integral_iff⟩

/-- In `50% + 1px * calc(2)` the percentage goes with the length, and the nested expression with
everything. -/
theorem make_valid_iff_placeholder_percent :
    let d := fun d => Term.ofValue (.delimiter d)
    let nested := Expression.ofTerms [Term.ofValue (.numeric (.ofInt 2))]
    let terms := [Term.ofValue (.numeric ⟨.percent, 50, none⟩), d .plus,
      Term.ofValue (.numeric ⟨.length, 1, some .px⟩), d .star, Term.ofValue (.calc nested)]
    terms ≠ [] ∧ ∃ made shape : Expression Term,
      ((Expression.make terms).run.run .empty).1 = .ok made ∧
        ((Expression.make (terms.map Term.placeholder)).run.run .empty).1 = .ok shape ∧
          made.valid = true ∧ shape.valid = true ∧ InOneFamily terms ∧ HasFamily terms .length ∧
            (made.integral = true ↔ ∀ t ∈ terms, t.IsIntegral) := by
  intro d nested terms
  have hne : terms ≠ [] := List.cons_ne_nil _ _
  have hvalid : (Expression.ofTerms terms).valid = true := rfl
  obtain ⟨made, shape, hmade, hshape, hiff, hfold⟩ := make_valid_iff_placeholder hne .empty
  obtain rfl : Expression.ofTerms terms = made :=
    Except.ok.inj ((Expression.outcome_make hne .empty).symm.trans hmade)
  obtain ⟨hshapevalid, -, hfamily⟩ := hiff.mp hvalid
  obtain ⟨hhas, hintegral⟩ := hfold hvalid
  exact ⟨hne, _, shape, hmade, hshape, hvalid, hshapevalid, hfamily, hhas, hintegral⟩

end CssModel
