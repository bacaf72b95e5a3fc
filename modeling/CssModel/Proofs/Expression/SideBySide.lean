import CssModel.Proofs.Expression.Postfix
import Mathlib.Data.List.Forall2

/-!
# Two readers side by side

What the reader does with an argument depends on little: whether it is a delimiter and which, what
waits on the stack, and whether an operand is expected. The entries that are out already are never
looked at, nor is what waits below an open bracket, and an operand matters by its family only. So a
second reader that agrees in these points keeps agreeing, as long as its own operands go together.

## Where this is used

The two readers may read different arguments at the same places, such as placeholders for operands,
and one of them may have more below it, such as an open bracket with all that came before. `R` says
which arguments may stand for one another, `base` is what lies below the second reader, and `done`
and `done'` are what was out before the two were put side by side.

## Main definitions

* `CssModel.Term.Fits`: an argument that a reader of this family can take
* `CssModel.SideBySide`

## Main results

* `CssModel.SideBySide.steps`: the second reader keeps up with the first
* `CssModel.ExpressionReader.steps_above`: the same arguments with more below on the stack
* `CssModel.Accepted.of_alike`: arguments that may take the place of accepted ones
-/

namespace CssModel

/-! ### Entries -/

/-- The same operator, or operands of which one may stand for the other. -/
inductive ExpressionItem.Alike {τ τ' : Type} (R : τ → τ' → Prop) :
    ExpressionItem τ → ExpressionItem τ' → Prop
  | operand {t : τ} {t' : τ'} (h : R t t') : Alike R (.operand t) (.operand t')
  | operator (op : MathOperator) : Alike R (.operator op) (.operator op)

section Entries

variable {τ τ' : Type} {R : τ → τ' → Prop}

theorem alike_operators (ops : List MathOperator) :
    List.Forall₂ (ExpressionItem.Alike R) (ops.map .operator) (ops.map .operator) := by
  rw [List.forall₂_map_left_iff, List.forall₂_map_right_iff, List.forall₂_same]
  exact fun op _ => .operator op

/-- The count does not look at the operands. -/
theorem arityProblem?_eq_of_alike {xs : List (ExpressionItem τ)} {ys : List (ExpressionItem τ')}
    (h : List.Forall₂ (ExpressionItem.Alike R) xs ys) (depth : Nat) :
    arityProblem? depth xs = arityProblem? depth ys := by
  induction h generalizing depth with
  | nil => rfl
  | cons hitem _ ih =>
    cases hitem with
    | operand _ => exact ih (depth + 1)
    | operator op => rw [arityProblem?, arityProblem?, ih, ih]

theorem ExpressionItem.Alike.eq {x y : ExpressionItem τ} (h : x.Alike Eq y) : x = y := by
  cases h with
  | operand h => rw [h]
  | operator op => rfl

theorem eq_of_alike_eq {xs ys : List (ExpressionItem τ)}
    (h : List.Forall₂ (ExpressionItem.Alike Eq) xs ys) : xs = ys := by
  have heq : List.Forall₂ Eq xs ys := h.imp fun _ _ => ExpressionItem.Alike.eq
  rwa [List.forall₂_eq_eq_eq] at heq

end Entries

/-! ### Arguments and stacks -/

/-- An argument that a reader can take which holds the family or none. -/
structure Term.Fits (f : UnitFamily) (t : Term) : Prop where
  isOperand : t.delimiter? = none → t.IsOperand
  goesWith : f.GoesWith t.unitFamily

/-- Arguments that may stand for one another are the same delimiter or none. -/
structure StandsFor (R : Term → Term → Prop) : Prop where
  delimiter : ∀ {t t' : Term}, R t t' → t'.delimiter? = t.delimiter?
  bare : ∀ {t t' : Term}, R t t' → R (t.withOperator none) (t'.withOperator none)

theorem standsFor_eq : StandsFor Eq :=
  ⟨fun h => by rw [h], fun h => by rw [h]⟩

/-- No operator comes off the stack: it is empty, or a bracket is open on top of it. -/
def Closed (base : List Pending) : Prop :=
  ∀ p, splitPending p base = ([], base)

theorem closed_nil : Closed [] :=
  fun _ => rfl

theorem closed_openBracket (stack : List Pending) : Closed (.openBracket :: stack) :=
  fun _ => rfl

theorem Closed.splitPending_append {base : List Pending} (hbase : Closed base)
    {p : MathOperator → Bool} {ops : List MathOperator} {stack below : List Pending}
    (h : splitPending p stack = (ops, below)) :
    splitPending p (stack ++ base) = (ops, below ++ base) := by
  induction stack generalizing ops with
  | nil =>
    obtain ⟨rfl, rfl⟩ := Prod.mk.inj h
    exact hbase p
  | cons entry stack ih =>
    cases entry with
    | openBracket =>
      obtain ⟨rfl, rfl⟩ := Prod.mk.inj h
      rfl
    | operator op =>
      by_cases hp : p op = true
      · simp only [splitPending, hp, if_true, Prod.mk.injEq] at h
        obtain ⟨rfl, hbelow⟩ := h
        rw [List.cons_append, splitPending, if_pos hp, ih (Prod.ext rfl hbelow)]
      · simp only [splitPending, hp, Bool.false_eq_true, if_false, Prod.mk.injEq] at h
        obtain ⟨rfl, rfl⟩ := h
        rw [List.cons_append, splitPending, if_neg hp]

/-! ### One argument -/

/-- Two readers that have put out alike entries since they were put side by side. The second has
`base` below its stack. -/
structure SideBySide (R : Term → Term → Prop) (done done' : List (ExpressionItem Term))
    (base : List Pending) (r r' : ExpressionReader) : Prop where
  items : ∃ out out', r.items = done ++ out ∧ r'.items = done' ++ out' ∧
    List.Forall₂ (ExpressionItem.Alike R) out out'
  stack : r'.stack = r.stack ++ base
  signExpected : r'.signExpected = r.signExpected

section Step

variable {R : Term → Term → Prop} {done done' : List (ExpressionItem Term)} {base : List Pending}
  {r r' next next' : ExpressionReader} {t t' : Term} {f : UnitFamily}

theorem sideBySide_refl (hstack : r'.stack = r.stack ++ base)
    (hsign : r'.signExpected = r.signExpected) :
    SideBySide R r.items r'.items base r r' :=
  ⟨⟨[], [], (List.append_nil _).symm, (List.append_nil _).symm, .nil⟩, hstack, hsign⟩

/-- Both readers put out alike entries. -/
theorem SideBySide.putOut (h : SideBySide R done done' base r r')
    {out out' : List (ExpressionItem Term)} (hout : List.Forall₂ (ExpressionItem.Alike R) out out')
    (hitems : next.items = r.items ++ out) (hitems' : next'.items = r'.items ++ out')
    (hstack : next'.stack = next.stack ++ base)
    (hsign : next'.signExpected = next.signExpected) :
    SideBySide R done done' base next next' := by
  obtain ⟨before, before', hr, hr', hbefore⟩ := h.items
  refine ⟨⟨before ++ out, before' ++ out', ?_, ?_, List.rel_append hbefore hout⟩, hstack, hsign⟩
  · rw [hitems, hr, List.append_assoc]
  · rw [hitems', hr', List.append_assoc]

/-- Neither reader puts anything out. -/
theorem SideBySide.keep (h : SideBySide R done done' base r r') (hitems : next.items = r.items)
    (hitems' : next'.items = r'.items) (hstack : next'.stack = next.stack ++ base)
    (hsign : next'.signExpected = next.signExpected) :
    SideBySide R done done' base next next' :=
  h.putOut .nil (by rw [hitems, List.append_nil]) (by rw [hitems', List.append_nil]) hstack hsign

/-- **One argument.** What the first reader does with an argument, the second does with one that
stands for it. -/
theorem SideBySide.step (hR : StandsFor R) (hbase : Closed base)
    (h : SideBySide R done done' base r r') (hstep : ReaderStep r t next) (ht : R t t')
    (hfits : t'.Fits f) (hfamily : f.GoesWith r'.family) :
    ∃ next', ReaderStep r' t' next' ∧ SideBySide R done done' base next next' ∧
      f.GoesWith next'.family := by
  have hdelimiter := hR.delimiter ht
  cases hstep with
  | operand htype hj =>
    have hnone : t.delimiter? = none := Term.delimiter?_eq_none (by simp [htype])
    obtain ⟨integral, htype'⟩ := (hfits.isOperand (hdelimiter.trans hnone)).operandType?_eq
    obtain ⟨joined, hj', hjoined⟩ := hfamily.join hfits.goesWith
    exact ⟨_, .operand htype' hj',
      h.putOut (.cons (.operand (hR.bare ht)) .nil) rfl rfl h.stack rfl, hjoined⟩
  | negative hd hr =>
    refine ⟨_, .negative (hdelimiter.trans hd) (h.signExpected.trans hr),
      h.keep rfl rfl ?_ h.signExpected, hfamily⟩
    rw [h.stack]
    rfl
  | positive hd hr =>
    exact ⟨_, .positive (hdelimiter.trans hd) (h.signExpected.trans hr), h, hfamily⟩
  | operator hd hop hr hsplit =>
    have hsplit' := h.stack ▸ hbase.splitPending_append hsplit
    exact ⟨_, .operator (hdelimiter.trans hd) hop (h.signExpected.trans hr) hsplit',
      h.putOut (alike_operators _) rfl rfl rfl rfl, hfamily⟩
  | openBracket hd =>
    refine ⟨_, .openBracket (hdelimiter.trans hd), h.keep rfl rfl ?_ rfl, hfamily⟩
    rw [h.stack]
    rfl
  | closeBracket hd hsplit =>
    have hsplit' := h.stack ▸ hbase.splitPending_append hsplit
    exact ⟨_, .closeBracket (hdelimiter.trans hd) hsplit',
      h.putOut (alike_operators _) rfl rfl rfl rfl, hfamily⟩

/-! ### Several arguments -/

/-- **The second reader keeps up** as long as its operands go together. -/
theorem SideBySide.steps (hR : StandsFor R) (hbase : Closed base)
    (h : SideBySide R done done' base r r') {ts ts' : List Term}
    (hsteps : r.steps ts = (next, none)) (hts : List.Forall₂ R ts ts')
    (hfits : ∀ t ∈ ts', t.Fits f) (hfamily : f.GoesWith r'.family) :
    ∃ next', r'.steps ts' = (next', none) ∧ SideBySide R done done' base next next' ∧
      f.GoesWith next'.family := by
  induction hts generalizing r r' with
  | nil =>
    obtain ⟨rfl, -⟩ := Prod.mk.inj hsteps
    exact ⟨r', rfl, h, hfamily⟩
  | cons ht _ ih =>
    obtain ⟨hfit, hfits⟩ := List.forall_mem_cons.mp hfits
    obtain ⟨mid, hstep, hrest⟩ := ExpressionReader.steps_cons_iff.mp hsteps
    obtain ⟨mid', hstep', hmid, hmidfamily⟩ := h.step hR hbase hstep ht hfit hfamily
    obtain ⟨next', hrest', hnext, hnextfamily⟩ := ih hmid hrest hfits hmidfamily
    exact ⟨next', ExpressionReader.steps_cons_iff.mpr ⟨mid', hstep', hrest'⟩, hnext, hnextfamily⟩

/-- **The same arguments on top of a base.** They put out the same entries and leave the same on top
of the stack. -/
theorem ExpressionReader.steps_above (hbase : Closed base) (hstack : r'.stack = r.stack ++ base)
    (hsign : r'.signExpected = r.signExpected) {ts : List Term} (hsteps : r.steps ts = (next, none))
    (hfits : ∀ t ∈ ts, t.Fits f) (hfamily : f.GoesWith r'.family) :
    ∃ next' out, r'.steps ts = (next', none) ∧ next.items = r.items ++ out ∧
      next'.items = r'.items ++ out ∧ next'.stack = next.stack ++ base ∧
      f.GoesWith next'.family := by
  have hts : List.Forall₂ Eq ts ts := List.forall₂_same.mpr fun _ _ => rfl
  obtain ⟨next', hsteps', hside, hnextfamily⟩ :=
    (sideBySide_refl hstack hsign).steps standsFor_eq hbase hsteps hts hfits hfamily
  obtain ⟨out, out', hout, hout', halike⟩ := hside.items
  obtain rfl := eq_of_alike_eq halike
  exact ⟨next', out, hsteps', hout, hout', hside.stack, hnextfamily⟩

/-- Arguments that stand for accepted ones are accepted if their operands go together. -/
theorem Accepted.of_alike (hR : StandsFor R) {ts ts' : List Term} {last : ExpressionReader}
    {ops : List MathOperator} (h : Accepted ts last ops) (hts : List.Forall₂ R ts ts')
    (hfits : ∀ t ∈ ts', t.Fits f) : ∃ last', Accepted ts' last' ops := by
  have hstart : SideBySide R ExpressionReader.start.items ExpressionReader.start.items [] .start
      .start := sideBySide_refl rfl rfl
  obtain ⟨last', hsteps, hside, -⟩ := hstart.steps hR closed_nil h.steps hts hfits (.inl rfl)
  obtain ⟨out, out', hout, hout', halike⟩ := hside.items
  have hitems : List.Forall₂ (ExpressionItem.Alike R) (last.items ++ ops.map .operator)
      (last'.items ++ ops.map .operator) := by
    rw [hout, hout']
    exact List.rel_append (List.rel_append .nil halike) (alike_operators ops)
  refine ⟨last', hsteps, ?_, (arityProblem?_eq_of_alike hitems 0).symm.trans h.arity⟩
  rw [hside.stack, List.append_nil, h.stack]

end Step

end CssModel
