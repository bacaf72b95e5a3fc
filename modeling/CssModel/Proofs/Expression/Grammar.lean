import CssModel.Expression.Evaluation
import CssModel.Expression.Reading

/-!
# The grammar of expressions

What the arguments of `calc()` may look like, stated apart from how they are read. An expression is
a sum of terms, a term is a product of factors, and a factor is an operand, an expression in
brackets, or a factor behind a sign. A derivation carries the tree of the expression, in which a
plus sign leaves no trace and every operand has lost the operator in front of it.

## Two views of the same lists

`Derives` builds lists up; nothing about it can be checked from left to right. `inPlace` and
`bracketsMatch` look at one argument after the other: whether it stands where one of its sort is
expected, and whether brackets pair up. `derivable_iff` says that the two views agree, so that a
fact read off a scan of the list can be turned into a derivation.

## Main definitions

* `CssModel.ExpressionTree`, `CssModel.ExpressionTree.postorder`, `CssModel.ExpressionTree.eval`
* `CssModel.Derives`: the grammar, and `CssModel.Derivable`
* `CssModel.inPlace`, `CssModel.bracketsMatch`

## Main results

* `CssModel.derivable_iff`: the lists of the grammar, from left to right
-/

namespace CssModel

/-! ### Trees -/

/-- An expression as a tree, over any type of operand. -/
inductive ExpressionTree (τ : Type)
  | operand (term : τ)
  | negation (e : ExpressionTree τ)
  | operation (op : MathOperator) (binary : op.isUnary = false) (left right : ExpressionTree τ)

namespace ExpressionTree

variable {τ : Type}

/-- The entries of the tree, each operator after its operands. -/
def postorder : ExpressionTree τ → List (ExpressionItem τ)
  | .operand term => [.operand term]
  | .negation e => e.postorder ++ [.operator .negate]
  | .operation op _ left right => left.postorder ++ right.postorder ++ [.operator op]

/-- The value of the tree from the bottom up, the left operand before the right one. -/
def eval {m : Type → Type} [Monad m] {α : Type} (ev : Evaluator m τ α) :
    ExpressionTree τ → ExceptT EvaluationError m α
  | .operand term => ev.argument term
  | .negation e => do
    let value ← e.eval ev
    ev.unary .negate value
  | .operation op _ left right => do
    let x ← left.eval ev
    let y ← right.eval ev
    ev.binary op x y

end ExpressionTree

/-! ### The grammar -/

/-- An operand is a number or a valid nested expression. -/
def Term.IsOperand (t : Term) : Prop :=
  (∃ n, t.value = .numeric n) ∨ ∃ e, t.value = .calc e ∧ e.valid = true

/-- What stands between the terms of a sum. -/
inductive Additive : Delimiter → MathOperator → Prop
  | plus : Additive .plus .add
  | minus : Additive .minus .subtract

/-- What stands between the factors of a product. -/
inductive Multiplicative : Delimiter → MathOperator → Prop
  | star : Multiplicative .star .multiply
  | slash : Multiplicative .slash .divide

theorem Additive.binary {d : Delimiter} {op : MathOperator} (h : Additive d op) :
    op.isUnary = false := by
  cases h <;> rfl

theorem Multiplicative.binary {d : Delimiter} {op : MathOperator} (h : Multiplicative d op) :
    op.isUnary = false := by
  cases h <;> rfl

theorem Additive.ofDelimiter?_eq {d : Delimiter} {op : MathOperator} (h : Additive d op) :
    MathOperator.ofDelimiter? d = some op := by
  cases h <;> rfl

theorem Multiplicative.ofDelimiter?_eq {d : Delimiter} {op : MathOperator}
    (h : Multiplicative d op) : MathOperator.ofDelimiter? d = some op := by
  cases h <;> rfl

/-- The phrases of the grammar. -/
inductive Phrase
  | expression
  | term
  | factor

/-- The arguments form a phrase that stands for the tree. -/
inductive Derives : Phrase → List Term → ExpressionTree Term → Prop
  | operand {t : Term} (h : t.IsOperand) :
      Derives .factor [t] (.operand (t.withOperator none))
  | bracketed {o c : Term} {ts : List Term} {e : ExpressionTree Term}
      (ho : o.delimiter? = some .leftParen) (hc : c.delimiter? = some .rightParen)
      (h : Derives .expression ts e) : Derives .factor (o :: (ts ++ [c])) e
  | negative {s : Term} {ts : List Term} {e : ExpressionTree Term}
      (hs : s.delimiter? = some .minus) (h : Derives .factor ts e) :
      Derives .factor (s :: ts) (.negation e)
  | positive {s : Term} {ts : List Term} {e : ExpressionTree Term}
      (hs : s.delimiter? = some .plus) (h : Derives .factor ts e) : Derives .factor (s :: ts) e
  | ofFactor {ts : List Term} {e : ExpressionTree Term} (h : Derives .factor ts e) :
      Derives .term ts e
  | product {o : Term} {d : Delimiter} {op : MathOperator} {ts us : List Term}
      {l r : ExpressionTree Term} (ho : o.delimiter? = some d) (hd : Multiplicative d op)
      (hl : Derives .term ts l) (hr : Derives .factor us r) :
      Derives .term (ts ++ o :: us) (.operation op hd.binary l r)
  | ofTerm {ts : List Term} {e : ExpressionTree Term} (h : Derives .term ts e) :
      Derives .expression ts e
  | sum {o : Term} {d : Delimiter} {op : MathOperator} {ts us : List Term}
      {l r : ExpressionTree Term} (ho : o.delimiter? = some d) (hd : Additive d op)
      (hl : Derives .expression ts l) (hr : Derives .term us r) :
      Derives .expression (ts ++ o :: us) (.operation op hd.binary l r)

/-- The arguments form an expression. -/
def Derivable (ts : List Term) : Prop :=
  ∃ e, Derives .expression ts e

/-! ### From left to right -/

/-- Whether every argument stands where one of its sort is expected: operands, signs and opening
brackets where an operand is expected, operators and closing brackets after an operand. -/
def inPlace : Bool → List Term → Bool
  | operandExpected, [] => ! operandExpected
  | operandExpected, t :: rest =>
    match t.delimiter? with
    | none => operandExpected && inPlace false rest
    | some .leftParen => operandExpected && inPlace true rest
    | some .rightParen => ! operandExpected && inPlace false rest
    | some .plus | some .minus => inPlace true rest
    | some .star | some .slash => ! operandExpected && inPlace true rest
    | some .comma => false

/-- Whether every closing bracket has its opening bracket before it and the other way round, when
`depth` brackets are open. -/
def bracketsMatch : Nat → List Term → Bool
  | depth, [] => depth == 0
  | depth, t :: rest =>
    match t.delimiter?, depth with
    | some .leftParen, depth => bracketsMatch (depth + 1) rest
    | some .rightParen, 0 => false
    | some .rightParen, depth + 1 => bracketsMatch depth rest
    | _, depth => bracketsMatch depth rest

theorem Term.IsOperand.delimiter?_eq {t : Term} (h : t.IsOperand) : t.delimiter? = none := by
  obtain ⟨n, hn⟩ | ⟨e, he, -⟩ := h
  · simp [Term.delimiter?, hn]
  · simp [Term.delimiter?, he]

section Cons

variable {t : Term} {d : Delimiter} {b : Bool} {n : Nat} {rest : List Term}

theorem inPlace_operand (ht : t.delimiter? = none) :
    inPlace b (t :: rest) = (b && inPlace false rest) := by
  simp [inPlace, ht]

theorem inPlace_leftParen (ht : t.delimiter? = some .leftParen) :
    inPlace b (t :: rest) = (b && inPlace true rest) := by
  simp [inPlace, ht]

theorem inPlace_rightParen (ht : t.delimiter? = some .rightParen) :
    inPlace b (t :: rest) = (! b && inPlace false rest) := by
  simp [inPlace, ht]

theorem inPlace_additive {op : MathOperator} (ht : t.delimiter? = some d) (hd : Additive d op) :
    inPlace b (t :: rest) = inPlace true rest := by
  cases hd <;> simp [inPlace, ht]

theorem inPlace_multiplicative {op : MathOperator} (ht : t.delimiter? = some d)
    (hd : Multiplicative d op) : inPlace b (t :: rest) = (! b && inPlace true rest) := by
  cases hd <;> simp [inPlace, ht]

theorem bracketsMatch_leftParen (ht : t.delimiter? = some .leftParen) :
    bracketsMatch n (t :: rest) = bracketsMatch (n + 1) rest := by
  simp [bracketsMatch, ht]

theorem bracketsMatch_rightParen (ht : t.delimiter? = some .rightParen) :
    bracketsMatch (n + 1) (t :: rest) = bracketsMatch n rest := by
  simp [bracketsMatch, ht]

theorem bracketsMatch_cons (hl : t.delimiter? ≠ some .leftParen)
    (hr : t.delimiter? ≠ some .rightParen) :
    bracketsMatch n (t :: rest) = bracketsMatch n rest := by
  simp [bracketsMatch]
  split <;> simp_all

theorem bracketsMatch_operator {op : MathOperator} (ht : t.delimiter? = some d)
    (hd : MathOperator.ofDelimiter? d = some op) :
    bracketsMatch n (t :: rest) = bracketsMatch n rest := by
  apply bracketsMatch_cons
  · intro hl
    obtain rfl : d = .leftParen := Option.some.inj (ht.symm.trans hl)
    simp [MathOperator.ofDelimiter?] at hd
  · intro hr
    obtain rfl : d = .rightParen := Option.some.inj (ht.symm.trans hr)
    simp [MathOperator.ofDelimiter?] at hd

end Cons

/-! ### Derivations pass the scan -/

theorem Derives.ne_nil {k : Phrase} {ts : List Term} {e : ExpressionTree Term}
    (h : Derives k ts e) : ts ≠ [] := by
  induction h with
  | operand | bracketed | negative | positive => simp
  | ofFactor _ ih | ofTerm _ ih => exact ih
  | product | sum => simp

/-- A phrase is read where an operand is expected, and leaves an operand behind. -/
theorem Derives.inPlace_append {k : Phrase} {ts : List Term} {e : ExpressionTree Term}
    (h : Derives k ts e) (rest : List Term) : inPlace true (ts ++ rest) = inPlace false rest := by
  induction h generalizing rest with
  | operand h => simp [inPlace_operand h.delimiter?_eq]
  | bracketed ho hc _ ih =>
    rw [List.cons_append, List.append_assoc, inPlace_leftParen ho, ih, List.singleton_append,
      inPlace_rightParen hc]
    simp
  | negative hs _ ih => rw [List.cons_append, inPlace_additive hs .minus, ih]
  | positive hs _ ih => rw [List.cons_append, inPlace_additive hs .plus, ih]
  | ofFactor _ ih | ofTerm _ ih => exact ih rest
  | product ho hd _ _ ihl ihr =>
    rw [List.append_assoc, ihl, List.cons_append, inPlace_multiplicative ho hd, ihr]
    simp
  | sum ho hd _ _ ihl ihr =>
    rw [List.append_assoc, ihl, List.cons_append, inPlace_additive ho hd, ihr]

/-- A phrase closes the brackets that it opens. -/
theorem Derives.bracketsMatch_append {k : Phrase} {ts : List Term} {e : ExpressionTree Term}
    (h : Derives k ts e) (n : Nat) (rest : List Term) :
    bracketsMatch n (ts ++ rest) = bracketsMatch n rest := by
  induction h generalizing n rest with
  | operand h =>
    have ht := h.delimiter?_eq
    exact bracketsMatch_cons (by simp [ht]) (by simp [ht])
  | bracketed ho hc _ ih =>
    rw [List.cons_append, List.append_assoc, bracketsMatch_leftParen ho, ih,
      List.singleton_append, bracketsMatch_rightParen hc]
  | negative hs _ ih =>
    rw [List.cons_append, bracketsMatch_operator hs Additive.minus.ofDelimiter?_eq, ih]
  | positive hs _ ih =>
    rw [List.cons_append, bracketsMatch_operator hs Additive.plus.ofDelimiter?_eq, ih]
  | ofFactor _ ih | ofTerm _ ih => exact ih n rest
  | product ho hd _ _ ihl ihr =>
    rw [List.append_assoc, ihl, List.cons_append,
      bracketsMatch_operator ho hd.ofDelimiter?_eq, ihr]
  | sum ho hd _ _ ihl ihr =>
    rw [List.append_assoc, ihl, List.cons_append,
      bracketsMatch_operator ho hd.ofDelimiter?_eq, ihr]

/-- What is no delimiter is an operand. -/
theorem Derives.isOperand {k : Phrase} {ts : List Term} {e : ExpressionTree Term}
    (h : Derives k ts e) : ∀ t ∈ ts, t.delimiter? = none → t.IsOperand := by
  induction h with
  | operand h => simpa using fun _ => h
  | bracketed ho hc _ ih => simpa [ho, hc, or_imp, forall_and] using ih
  | negative hs _ ih | positive hs _ ih => simpa [hs] using ih
  | ofFactor _ ih | ofTerm _ ih => exact ih
  | product ho _ _ _ ihl ihr | sum ho _ _ _ ihl ihr =>
    simpa [ho, or_imp, forall_and] using ⟨ihl, ihr⟩

/-! ### The scan gives a derivation

The scan is followed with what has been read so far cut at the brackets that are still open. Each
piece before an open bracket waits for a factor, which the bracket will turn out to begin. -/

/-- A factor behind these arguments makes them an expression. -/
def Awaits (p : List Term) : Prop :=
  ∀ f e, Derives .factor f e → Derivable (p ++ f)

theorem awaits_nil : Awaits [] :=
  fun _ _ hf => ⟨_, .ofTerm (.ofFactor hf)⟩

theorem Awaits.sign {p : List Term} (h : Awaits p) {s : Term} {d : Delimiter} {op : MathOperator}
    (hs : s.delimiter? = some d) (hd : Additive d op) : Awaits (p ++ [s]) := by
  intro f e hf
  rw [List.append_assoc, List.singleton_append]
  cases hd with
  | plus => exact h _ _ (.positive hs hf)
  | minus => exact h _ _ (.negative hs hf)

theorem Derivable.additive {p : List Term} (h : Derivable p) {o : Term} {d : Delimiter}
    {op : MathOperator} (ho : o.delimiter? = some d) (hd : Additive d op) :
    Awaits (p ++ [o]) := by
  intro f e hf
  obtain ⟨l, hl⟩ := h
  rw [List.append_assoc, List.singleton_append]
  exact ⟨_, .sum ho hd hl (.ofFactor hf)⟩

/-- A product is continued inside the last term of a sum. -/
theorem Derivable.multiplicative {p : List Term} (h : Derivable p) {o : Term} {d : Delimiter}
    {op : MathOperator} (ho : o.delimiter? = some d) (hd : Multiplicative d op) :
    Awaits (p ++ [o]) := by
  intro f e hf
  obtain ⟨l, hl⟩ := h
  rw [List.append_assoc, List.singleton_append]
  cases hl with
  | ofTerm hl => exact ⟨_, .ofTerm (.product ho hd hl hf)⟩
  | sum ho' hd' hl' hr' =>
    rw [List.append_assoc, List.cons_append]
    exact ⟨_, .sum ho' hd' hl' (.product ho hd hr' hf)⟩

/-- What has been read since the last open bracket. -/
def ReadSince (operandExpected : Bool) (p : List Term) : Prop :=
  if operandExpected then Awaits p else Derivable p

theorem ReadSince.additive {b : Bool} {p : List Term} (h : ReadSince b p) {o : Term}
    {d : Delimiter} {op : MathOperator} (ho : o.delimiter? = some d) (hd : Additive d op) :
    ReadSince true (p ++ [o]) := by
  cases b with
  | true => exact Awaits.sign h ho hd
  | false => exact Derivable.additive h ho hd

/-- What has been read before an open bracket, the bracket included. -/
def OpenedBefore (q : List Term) : Prop :=
  ∃ p o, q = p ++ [o] ∧ Awaits p ∧ o.delimiter? = some .leftParen

theorem OpenedBefore.close {q p : List Term} {c : Term} (hq : OpenedBefore q) (hp : Derivable p)
    (hc : c.delimiter? = some .rightParen) : Derivable (q ++ p ++ [c]) := by
  obtain ⟨p', o, rfl, hp', ho⟩ := hq
  obtain ⟨e, he⟩ := hp
  simpa using hp' _ _ (.bracketed ho hc he)

theorem delimiter_cases (d : Delimiter) :
    d = .leftParen ∨ d = .rightParen ∨ d = .comma ∨ (∃ op, Additive d op) ∨
      ∃ op, Multiplicative d op := by
  cases d with
  | plus => exact .inr (.inr (.inr (.inl ⟨_, .plus⟩)))
  | minus => exact .inr (.inr (.inr (.inl ⟨_, .minus⟩)))
  | star => exact .inr (.inr (.inr (.inr ⟨_, .star⟩)))
  | slash => exact .inr (.inr (.inr (.inr ⟨_, .slash⟩)))
  | leftParen | rightParen | comma => simp

/-- Reading on from any place: `opened` are the pieces before the open brackets, the latest first,
and `p` is what has been read since. -/
theorem derivable_of_scan (rest : List Term) :
    ∀ (b : Bool) (opened : List (List Term)) (p : List Term),
      (∀ q ∈ opened, OpenedBefore q) → ReadSince b p →
      inPlace b rest = true → bracketsMatch opened.length rest = true →
      (∀ t ∈ rest, t.delimiter? = none → t.IsOperand) →
      Derivable (opened.reverse.flatten ++ p ++ rest) := by
  induction rest with
  | nil =>
    intro b opened p _ hp hplace hmatch _
    obtain rfl : b = false := by simpa [inPlace] using hplace
    obtain rfl : opened = [] := by simpa [bracketsMatch] using hmatch
    have hp : Derivable p := hp
    simpa using hp
  | cons t rest ih =>
    intro b opened p hopened hp hplace hmatch hoperand
    have hrest := fun s hs => hoperand s (List.mem_cons_of_mem t hs)
    -- reading `t` behind `p`, under the same open brackets
    have next : ∀ b', ReadSince b' (p ++ [t]) → inPlace b' rest = true →
        bracketsMatch opened.length rest = true →
        Derivable (opened.reverse.flatten ++ p ++ t :: rest) := by
      intro b' hp' hplace' hmatch'
      simpa using ih b' opened _ hopened hp' hplace' hmatch' hrest
    cases ht : t.delimiter? with
    | none =>
      rw [inPlace_operand ht, Bool.and_eq_true] at hplace
      obtain ⟨rfl, hplace⟩ := hplace
      rw [bracketsMatch_cons (by simp [ht]) (by simp [ht])] at hmatch
      refine next false ?_ hplace hmatch
      exact hp _ _ (.operand (hoperand t (List.mem_cons_self ..) ht))
    | some d =>
      obtain rfl | rfl | rfl | ⟨op, hd⟩ | ⟨op, hd⟩ := delimiter_cases d
      · rw [inPlace_leftParen ht, Bool.and_eq_true] at hplace
        obtain ⟨rfl, hplace⟩ := hplace
        rw [bracketsMatch_leftParen ht] at hmatch
        have hopened' : ∀ q ∈ (p ++ [t]) :: opened, OpenedBefore q :=
          List.forall_mem_cons.mpr ⟨⟨p, t, rfl, hp, ht⟩, hopened⟩
        simpa using ih true _ [] hopened' awaits_nil hplace hmatch hrest
      · rw [inPlace_rightParen ht, Bool.and_eq_true, Bool.not_eq_true'] at hplace
        obtain ⟨rfl, hplace⟩ := hplace
        cases opened with
        | nil => simp [bracketsMatch, ht] at hmatch
        | cons q opened =>
          rw [List.length_cons, bracketsMatch_rightParen ht] at hmatch
          obtain ⟨hq, hopened⟩ := List.forall_mem_cons.mp hopened
          simpa using ih false opened _ hopened (hq.close hp ht) hplace hmatch hrest
      · simp [inPlace, ht] at hplace
      · rw [inPlace_additive ht hd] at hplace
        rw [bracketsMatch_operator ht hd.ofDelimiter?_eq] at hmatch
        exact next true (hp.additive ht hd) hplace hmatch
      · rw [inPlace_multiplicative ht hd, Bool.and_eq_true, Bool.not_eq_true'] at hplace
        obtain ⟨rfl, hplace⟩ := hplace
        rw [bracketsMatch_operator ht hd.ofDelimiter?_eq] at hmatch
        exact next true (Derivable.multiplicative hp ht hd) hplace hmatch

/-- **The grammar from left to right.** A list is an expression exactly when everything stands in
its place, brackets pair up and only operands stand for operands. -/
theorem derivable_iff {ts : List Term} :
    Derivable ts ↔ inPlace true ts = true ∧ bracketsMatch 0 ts = true ∧
      ∀ t ∈ ts, t.delimiter? = none → t.IsOperand := by
  constructor
  · rintro ⟨e, h⟩
    refine ⟨?_, ?_, h.isOperand⟩
    · simpa [inPlace] using h.inPlace_append []
    · simpa [bracketsMatch] using h.bracketsMatch_append 0 []
  · rintro ⟨hplace, hmatch, hoperand⟩
    simpa using derivable_of_scan ts true [] [] (by simp) awaits_nil hplace hmatch hoperand

end CssModel
