import CssModel.Expression.Reading

/-!
# What one argument does to the reader

The reader of expressions takes one argument at a time. `ReaderStep` lists everything that an
argument can do when there is nothing wrong with it; facts about whole lists follow from this list
by induction and do not open the reader again.

## Main definitions

* `CssModel.ReaderStep`: the effect of an argument
* `CssModel.openBrackets`: how many brackets wait for their closing bracket

## Main results

* `CssModel.ExpressionReader.step_eq_iff`: an argument without a problem has one of these effects
* `CssModel.ExpressionReader.steps_cons_iff`, `CssModel.ExpressionReader.steps_append`
* `CssModel.splitPending_append`, `CssModel.eq_append_of_splitPending`
-/

namespace CssModel

/-! ### The stack -/

section Stack

variable {p : MathOperator → Bool} {ops : List MathOperator} {stack below : List Pending}

/-- Operators that all satisfy `p` come off the stack down to the first entry that does not. -/
theorem splitPending_append (hops : ∀ op ∈ ops, p op = true)
    (hstack : splitPending p stack = ([], stack)) :
    splitPending p (ops.map .operator ++ stack) = (ops, stack) := by
  induction ops with
  | nil => exact hstack
  | cons op ops ih =>
    obtain ⟨hop, hops⟩ := List.forall_mem_cons.mp hops
    simp [splitPending, hop, ih hops]

theorem eq_append_of_splitPending (h : splitPending p stack = (ops, below)) :
    stack = ops.map .operator ++ below := by
  induction stack generalizing ops with
  | nil => simp_all [splitPending]
  | cons entry stack ih =>
    cases entry with
    | openBracket => simp_all [splitPending]
    | operator op =>
      by_cases hp : p op = true
      · simp only [splitPending, hp, if_true, Prod.mk.injEq] at h
        obtain ⟨rfl, hbelow⟩ := h
        rw [List.map_cons, List.cons_append, ← ih (Prod.ext rfl hbelow)]
      · simp_all [splitPending]

/-- Nothing but a bracket stops a split that takes every operator. -/
theorem below_eq_of_splitPending_true (h : splitPending (fun _ => true) stack = (ops, below)) :
    below = [] ∨ ∃ rest, below = .openBracket :: rest := by
  induction stack generalizing ops with
  | nil => simp_all [splitPending]
  | cons entry stack ih =>
    cases entry with
    | openBracket =>
      simp only [splitPending, Prod.mk.injEq] at h
      exact .inr ⟨stack, h.2.symm⟩
    | operator op =>
      simp only [splitPending, if_true, Prod.mk.injEq] at h
      exact ih (Prod.ext rfl h.2)

end Stack

/-- How many brackets wait for their closing bracket. -/
def openBrackets (stack : List Pending) : Nat :=
  stack.count .openBracket

@[simp] theorem openBrackets_nil : openBrackets [] = 0 := rfl

@[simp] theorem openBrackets_openBracket (stack : List Pending) :
    openBrackets (.openBracket :: stack) = openBrackets stack + 1 := by
  simp [openBrackets]

@[simp] theorem openBrackets_operator (op : MathOperator) (stack : List Pending) :
    openBrackets (.operator op :: stack) = openBrackets stack := by
  simp [openBrackets]

@[simp] theorem openBrackets_map_append (ops : List MathOperator) (stack : List Pending) :
    openBrackets (ops.map .operator ++ stack) = openBrackets stack := by
  induction ops with
  | nil => rfl
  | cons op ops ih => simpa using ih

/-! ### One argument -/

theorem Term.delimiter?_eq_none {t : Term} (h : t.operandType?.isSome) : t.delimiter? = none := by
  rw [Term.operandType?] at h
  rw [Term.delimiter?]
  split <;> simp_all

/-- What an argument does when there is nothing wrong with it. -/
inductive ReaderStep (r : ExpressionReader) (t : Term) : ExpressionReader → Prop
  | operand {found joined : UnitFamily} {integral : Bool}
      (ht : t.operandType? = some (found, integral)) (hj : r.family.join? found = some joined) :
      ReaderStep r t
        { r with
          items := r.items ++ [.operand (t.withOperator none)]
          signExpected := false
          family := joined
          integral := r.integral && integral }
  | negative (ht : t.delimiter? = some .minus) (hr : r.signExpected = true) :
      ReaderStep r t { r with stack := .operator .negate :: r.stack }
  | positive (ht : t.delimiter? = some .plus) (hr : r.signExpected = true) : ReaderStep r t r
  | operator {d : Delimiter} {op : MathOperator} {ops : List MathOperator} {below : List Pending}
      (ht : t.delimiter? = some d) (hd : MathOperator.ofDelimiter? d = some op)
      (hr : r.signExpected = false)
      (hsplit : splitPending (fun top => op.priority ≤ top.priority) r.stack = (ops, below)) :
      ReaderStep r t { r.emit ops (.operator op :: below) with signExpected := true }
  | openBracket (ht : t.delimiter? = some .leftParen) :
      ReaderStep r t { r with stack := .openBracket :: r.stack, signExpected := true }
  | closeBracket {ops : List MathOperator} {below : List Pending}
      (ht : t.delimiter? = some .rightParen)
      (hsplit : splitPending (fun _ => true) r.stack = (ops, .openBracket :: below)) :
      ReaderStep r t { r.emit ops below with signExpected := false }

namespace ExpressionReader

variable {r next : ExpressionReader} {t : Term}

theorem step_of_readerStep (h : ReaderStep r t next) : r.step t = (next, none) := by
  cases h with
  | operand ht hj =>
    have hd : t.delimiter? = none := Term.delimiter?_eq_none (by simp [ht])
    simp [step, hd, operand, ht, hj]
  | negative ht hr => simp [step, ht, MathOperator.ofDelimiter?, operator, hr]
  | positive ht hr => simp [step, ht, MathOperator.ofDelimiter?, operator, hr]
  | operator ht hd hr hsplit => simp [step, ht, hd, operator, hr, hsplit]
  | openBracket ht => simp [step, ht, MathOperator.ofDelimiter?]
  | closeBracket ht hsplit => simp [step, ht, MathOperator.ofDelimiter?, closeBracket, hsplit]

theorem readerStep_of_operand (h : r.operand t = (next, none)) : ReaderStep r t next := by
  rw [operand] at h
  split at h
  · simp at h
  · next found integral hfound =>
    dsimp only at h
    split at h
    · simp at h
    · next joined hj =>
      obtain ⟨rfl, -⟩ := Prod.mk.inj h
      exact .operand hfound hj

theorem readerStep_of_operator {d : Delimiter} {op : MathOperator} (ht : t.delimiter? = some d)
    (hd : MathOperator.ofDelimiter? d = some op) (h : r.operator op = (next, none)) :
    ReaderStep r t next := by
  unfold operator at h
  by_cases hr : r.signExpected = true
  · rw [if_pos hr] at h
    cases d with
    | plus =>
      obtain rfl : .add = op := Option.some.inj hd
      obtain ⟨rfl, -⟩ := Prod.mk.inj h
      exact .positive ht hr
    | minus =>
      obtain rfl : .subtract = op := Option.some.inj hd
      obtain ⟨rfl, -⟩ := Prod.mk.inj h
      exact .negative ht hr
    | star =>
      obtain rfl : .multiply = op := Option.some.inj hd
      simp at h
    | slash =>
      obtain rfl : .divide = op := Option.some.inj hd
      simp at h
    | comma | leftParen | rightParen => simp [MathOperator.ofDelimiter?] at hd
  · rw [if_neg hr] at h
    obtain ⟨rfl, -⟩ := Prod.mk.inj h
    exact .operator ht hd (by simpa using hr) rfl

theorem readerStep_of_closeBracket (ht : t.delimiter? = some .rightParen)
    (h : r.closeBracket = (next, none)) : ReaderStep r t next := by
  rw [closeBracket] at h
  cases hsplit : splitPending (fun _ => true) r.stack with
  | mk ops below =>
    obtain rfl | ⟨rest, rfl⟩ := below_eq_of_splitPending_true hsplit
    · simp [hsplit] at h
    · simp only [hsplit, Prod.mk.injEq, and_true] at h
      exact h ▸ .closeBracket ht hsplit

/-- **What an argument can do.** Every argument that is no problem has one of the effects of
`ReaderStep`, and each of them is no problem. -/
theorem step_eq_iff : r.step t = (next, none) ↔ ReaderStep r t next := by
  refine ⟨fun h => ?_, step_of_readerStep⟩
  rw [step] at h
  cases ht : t.delimiter? with
  | none => exact readerStep_of_operand (by simpa [ht] using h)
  | some d =>
    cases hd : MathOperator.ofDelimiter? d with
    | some op => exact readerStep_of_operator ht hd (by simpa [ht, hd] using h)
    | none =>
      cases d with
      | leftParen =>
        simp only [ht, hd, Prod.mk.injEq, and_true] at h
        exact h ▸ .openBracket ht
      | rightParen => exact readerStep_of_closeBracket ht (by simpa [ht, hd] using h)
      | comma => simp [ht, hd] at h
      | plus | minus | star | slash => simp [MathOperator.ofDelimiter?] at hd

/-! ### Several arguments -/

theorem steps_cons_iff {ts : List Term} :
    r.steps (t :: ts) = (next, none) ↔ ∃ mid, ReaderStep r t mid ∧ mid.steps ts = (next, none) := by
  simp only [← step_eq_iff]
  cases h : r.step t with
  | mk mid problem => cases problem <;> simp [steps, h]

theorem steps_append {ts us : List Term} {mid : ExpressionReader}
    (h : r.steps ts = (mid, none)) : r.steps (ts ++ us) = mid.steps us := by
  induction ts generalizing r with
  | nil => simp_all [steps]
  | cons t ts ih =>
    obtain ⟨first, hfirst, hrest⟩ := steps_cons_iff.mp h
    rw [List.cons_append, steps, step_of_readerStep hfirst]
    exact ih hrest

theorem exists_steps_of_append {ts us : List Term} (h : r.steps (ts ++ us) = (next, none)) :
    ∃ mid, r.steps ts = (mid, none) ∧ mid.steps us = (next, none) := by
  induction ts generalizing r with
  | nil => exact ⟨r, rfl, h⟩
  | cons t ts ih =>
    obtain ⟨first, hfirst, hrest⟩ := steps_cons_iff.mp h
    obtain ⟨mid, hmid, hus⟩ := ih hrest
    exact ⟨mid, steps_cons_iff.mpr ⟨first, hfirst, hmid⟩, hus⟩

end ExpressionReader

end CssModel
