import CssModel.Proofs.Expression.NestedEvaluation
import CssModel.Proofs.Term.NumericText

/-!
# Spellings

What a valid expression is written as, as a tree of its own. It has a sign in front of every leaf
and every operation and no place for a second one: two signs in the expression cancel in the text.
A nested expression leaves no trace in the text either. So many expressions have one spelling, but
every text is the text of one spelling only, since all operations stand between brackets.

## Main definitions

* `CssModel.LeafName`: what a leaf is called behind its sign
* `CssModel.Spelling`, `CssModel.Spelling.chars`
* `CssModel.Spelled`: the spelling of a tree

## Main results

* `CssModel.Spelling.chars_append_inj`: unique readability
* `CssModel.Spelled.text`: a tree is written as its spelling
* `CssModel.Expression.exists_spelled`: what has been read has a spelling
* `CssModel.Expression.exists_text`: what has been read can be written
-/

namespace CssModel

/-! ### Spellings -/

/-- A text that can be told from operations and signs around it. -/
structure LeafName where
  chars : List Char
  ne_nil : chars ≠ []
  unsigned : chars.head? ≠ some '-'
  plain : ∀ c ∈ chars, c ∉ [' ', '(', ')']

theorem LeafName.ext {a b : LeafName} (h : a.chars = b.chars) : a = b := by
  cases a
  cases b
  cases h
  rfl

/-- A number as a leaf. -/
def Numeric.leafName (n : Numeric) : LeafName :=
  ⟨n.unsigned, n.unsigned_plain.1, n.unsigned_plain.2.1, n.unsigned_plain.2.2⟩

/-- An expression as it is written, with a sign in front of each of its parts or none. -/
inductive Spelling
  | leaf (negative : Bool) (name : LeafName)
  | operation (negative : Bool) (op : MathOperator) (binary : op.isUnary = false)
      (left right : Spelling)

namespace Spelling

/-- The other sign in front. -/
def opposite : Spelling → Spelling
  | .leaf negative name => .leaf (! negative) name
  | .operation negative op binary left right => .operation (! negative) op binary left right

/-- Whether there is a sign in front. -/
def negative : Spelling → Bool
  | .leaf negative _ => negative
  | .operation negative _ _ _ _ => negative

/-- The characters behind the sign. -/
def body : Spelling → List Char
  | .leaf _ name => name.chars
  | .operation _ op _ left right =>
    '(' :: (signed left.negative left.body ++
      ' ' :: (op.text.toList ++ ' ' :: (signed right.negative right.body ++ [')'])))

/-- The characters of the spelling. -/
def chars (f : Spelling) : List Char :=
  signed f.negative f.body

theorem chars_operation (negative : Bool) (op : MathOperator) (binary : op.isUnary = false)
    (left right : Spelling) : (operation negative op binary left right).chars = signed negative
      ('(' :: (left.chars ++ ' ' :: (op.text.toList ++ ' ' :: (right.chars ++ [')'])))) :=
  rfl

end Spelling

/-! ### Unique readability -/

/-- What may follow a spelling inside another one. -/
def Stops (rest : List Char) : Prop :=
  ∀ c ∈ rest.head?, c = ' ' ∨ c = ')'

theorem stops_nil : Stops [] := by
  simp [Stops]

theorem stops_space (rest : List Char) : Stops (' ' :: rest) := by
  simp [Stops]

theorem stops_bracket (rest : List Char) : Stops (')' :: rest) := by
  simp [Stops]

/-- The name ends where anything stands that is not in names. -/
theorem LeafName.takeWhile_append (a : LeafName) {rest : List Char} (h : Stops rest) :
    (a.chars ++ rest).takeWhile (fun c => c ∉ [' ', '(', ')']) = a.chars := by
  have hstop : rest.takeWhile (fun c => c ∉ [' ', '(', ')']) = [] := by
    cases rest with
    | nil => rfl
    | cons c rest =>
      refine List.takeWhile_cons_of_neg ?_
      obtain rfl | rfl := h c rfl <;> decide
  rw [List.takeWhile_append_of_pos (fun c hc => decide_eq_true (a.plain c hc)), hstop,
    List.append_nil]

theorem LeafName.append_inj {a b : LeafName} {rest rest' : List Char} (h : Stops rest)
    (h' : Stops rest') (heq : a.chars ++ rest = b.chars ++ rest') : a = b ∧ rest = rest' := by
  have hchars : a.chars = b.chars := by
    rw [← a.takeWhile_append h, ← b.takeWhile_append h', heq]
  rw [hchars] at heq
  exact ⟨LeafName.ext hchars, List.append_cancel_left heq⟩

/-- No name begins with a bracket. -/
theorem LeafName.append_ne_bracket (a : LeafName) (rest rest' : List Char) :
    a.chars ++ rest ≠ '(' :: rest' := by
  intro heq
  obtain ⟨c, cs, hchars⟩ := List.exists_cons_of_ne_nil a.ne_nil
  rw [hchars, List.cons_append] at heq
  obtain rfl : c = '(' := (List.cons.inj heq).1
  exact a.plain '(' (by simp [hchars]) (by simp)

/-- Binary operators are single characters. -/
theorem MathOperator.text_append_inj {op op' : MathOperator} (h : op.isUnary = false)
    (h' : op'.isUnary = false) {rest rest' : List Char}
    (heq : op.text.toList ++ rest = op'.text.toList ++ rest') : op = op' ∧ rest = rest' := by
  cases op <;> cases op' <;> simp_all [MathOperator.text, MathOperator.isUnary]

namespace Spelling

theorem head_body_append_ne (f : Spelling) (rest : List Char) :
    (f.body ++ rest).head? ≠ some '-' := by
  cases f with
  | leaf negative name =>
    rw [body, List.head?_append_of_ne_nil _ name.ne_nil]
    exact name.unsigned
  | operation negative op binary left right => simp [body]

theorem signed_append (negative : Bool) (cs rest : List Char) :
    signed negative cs ++ rest = signed negative (cs ++ rest) := by
  cases negative <;> rfl

/-- **Unique readability.** A spelling can be told from all others, and from what follows it. -/
theorem chars_append_inj {f g : Spelling} {rest rest' : List Char} (h : Stops rest)
    (h' : Stops rest') (heq : f.chars ++ rest = g.chars ++ rest') : f = g ∧ rest = rest' := by
  induction f generalizing g rest rest' with
  | leaf negative name =>
    rw [chars, chars, signed_append, signed_append,
      signed_inj (head_body_append_ne _ _) (head_body_append_ne _ _)] at heq
    obtain ⟨hsign, hbody⟩ := heq
    cases g with
    | leaf negative' name' =>
      obtain ⟨rfl, hrest⟩ := LeafName.append_inj h h' hbody
      exact ⟨congrArg (leaf · name) hsign, hrest⟩
    | operation => exact absurd hbody (name.append_ne_bracket _ _)
  | operation negative op binary left right ihl ihr =>
    rw [chars, chars, signed_append, signed_append,
      signed_inj (head_body_append_ne _ _) (head_body_append_ne _ _)] at heq
    obtain ⟨hsign, hbody⟩ := heq
    cases g with
    | leaf negative' name' => exact absurd hbody.symm (name'.append_ne_bracket _ _)
    | operation negative' op' binary' left' right' =>
      simp only [body, List.append_assoc, List.cons_append, List.nil_append] at hbody
      obtain ⟨rfl, hafter⟩ := ihl (stops_space _) (stops_space _) (List.cons.inj hbody).2
      obtain ⟨rfl, hspace⟩ := MathOperator.text_append_inj binary binary' (List.cons.inj hafter).2
      obtain ⟨rfl, hclose⟩ := ihr (stops_bracket _) (stops_bracket _) (List.cons.inj hspace).2
      exact ⟨congrArg (operation · op binary left right) hsign, (List.cons.inj hclose).2⟩

theorem chars_inj {f g : Spelling} (h : f.chars = g.chars) : f = g :=
  (chars_append_inj stops_nil stops_nil (congrArg (· ++ []) h)).1

end Spelling

/-! ### The spelling of a tree -/

/-- The tree is written with this spelling. The entries of a nested expression are spelled in its
place. -/
inductive Spelled : ExpressionTree Term → Spelling → Prop
  | number (n : Numeric) :
      Spelled (.operand (.ofValue (.numeric n))) (.leaf n.isNegative n.leafName)
  | nested {operator : Option JoinOperator} {e : Expression Term} {t : ExpressionTree Term}
      {f : Spelling} (hvalid : e.valid = true) (hitems : e.items = t.postorder)
      (h : Spelled t f) : Spelled (.operand ⟨operator, .calc e⟩) f
  | negation {t : ExpressionTree Term} {f : Spelling} (h : Spelled t f) :
      Spelled (.negation t) f.opposite
  | operation {op : MathOperator} {l r : ExpressionTree Term} {f g : Spelling}
      (binary : op.isUnary = false) (hl : Spelled l f) (hr : Spelled r g) :
      Spelled (.operation op binary l r) (.operation false op binary f g)

theorem Spelling.chars_opposite (f : Spelling) :
    f.opposite.chars = signed (! f.negative) f.body := by
  cases f <;> rfl

theorem oppositeText_of_head_ne {text : String} (h : text.toList.head? ≠ some '-') :
    oppositeText text = "-" ++ text := by
  rw [oppositeText]
  split
  · next rest hrest => simp [hrest] at h
  · rfl

/-- Two signs cancel, and a text without a sign gets one. -/
theorem Spelling.oppositeText_chars (f : Spelling) :
    oppositeText (String.ofList f.chars) = String.ofList f.opposite.chars := by
  have hhead : (signed false f.body).head? ≠ some '-' := by
    simpa [signed] using f.head_body_append_ne []
  rw [chars_opposite, chars]
  cases f.negative with
  | true =>
    rw [oppositeText, String.toList_ofList]
    rfl
  | false =>
    rw [oppositeText_of_head_ne (String.toList_ofList ▸ hhead), ← String.toList_inj]
    simp [signed]

theorem Spelling.bracketed_chars (op : MathOperator) (binary : op.isUnary = false)
    (f g : Spelling) : bracketed op (String.ofList f.chars) (String.ofList g.chars) =
      String.ofList (operation false op binary f g).chars := by
  rw [← String.toList_inj, chars_operation]
  simp [bracketed, signed]

theorem Numeric.operandText_eq (n : Numeric) :
    Term.operandText (.ofValue (.numeric n)) =
      .ok (String.ofList (Spelling.leaf n.isNegative n.leafName).chars) := by
  have htext : "" ++ n.text = String.ofList (Spelling.leaf n.isNegative n.leafName).chars := by
    rw [← String.toList_inj, String.toList_append, n.toList_text]
    exact String.toList_ofList.symm
  rw [← htext]
  rfl

/-- **A tree is written as its spelling.** -/
theorem Spelled.text {t : ExpressionTree Term} {f : Spelling} (h : Spelled t f) :
    t.eval textEvaluator = pure (String.ofList f.chars) := by
  induction h with
  | number n => exact n.operandText_eq
  | @nested operator e t f hvalid hitems _ ih =>
    show ExceptT.mk (m := Id) (Term.operandText ⟨operator, .calc e⟩) = _
    rw [Term.operandText_calc, evaluate_eq_of_postorder hvalid hitems, ih]
    rfl
  | @negation t f _ ih =>
    rw [ExpressionTree.eval, ih, ← f.oppositeText_chars]
    rfl
  | @operation op l r f g binary _ _ ihl ihr =>
    rw [ExpressionTree.eval, ihl, ihr, ← Spelling.bracketed_chars]
    rfl

/-! ### What has been read has a spelling -/

theorem ExpressionTree.exists_spelled (e : ExpressionTree Term)
    (h : ∀ t, .operand t ∈ e.postorder → ∃ f, Spelled (.operand t) f) : ∃ f, Spelled e f := by
  induction e with
  | operand t => exact h t (by simp [postorder])
  | negation e ih =>
    obtain ⟨f, hf⟩ := ih fun t ht => h t (by simp [postorder, ht])
    exact ⟨_, .negation hf⟩
  | operation op binary l r ihl ihr =>
    obtain ⟨f, hf⟩ := ihl fun t ht => h t (by simp [postorder, ht])
    obtain ⟨g, hg⟩ := ihr fun t ht => h t (by simp [postorder, ht])
    exact ⟨_, .operation binary hf hg⟩

theorem Accepted.exists_spelled {ts : List Term} {last : ExpressionReader}
    {ops : List MathOperator} (h : Accepted ts last ops)
    (hts : ∀ t ∈ ts, t.IsOperand → ∃ f, Spelled (.operand (t.withOperator none)) f) :
    ∃ e f, (Expression.ofTerms ts).items = e.postorder ∧ Spelled e f := by
  obtain ⟨e, he⟩ := h.exists_postorder
  obtain ⟨f, hf⟩ := e.exists_spelled fun u hu => by
    rw [← he] at hu
    obtain ⟨t, ht, hoperand, rfl⟩ := Expression.exists_of_operand hu
    exact hts t ht hoperand
  exact ⟨e, f, he, hf⟩

theorem Term.Made.exists_spelled {t : Term} (h : t.Made) (ht : t.IsOperand) :
    ∃ f, Spelled (.operand (t.withOperator none)) f := by
  induction h with
  | @plain t hplain =>
    obtain ⟨n, hn⟩ | ⟨e, he, -⟩ := ht
    · have hnumber : t.withOperator none = .ofValue (.numeric n) := by
        rw [withOperator, hn]
        rfl
      rw [hnumber]
      exact ⟨_, .number n⟩
    · simp [calc?, he] at hplain
  | @nested own ts _ ih =>
    have hvalid : (Expression.ofTerms ts).valid = true := by
      obtain ⟨n, hn⟩ | ⟨e, he, hvalid⟩ := ht
      · cases hn
      · cases he
        exact hvalid
    obtain ⟨last, ops, haccepted⟩ := Expression.valid_iff_accepted.mp hvalid
    obtain ⟨e, f, hitems, hf⟩ := haccepted.exists_spelled ih
    exact ⟨f, .nested hvalid hitems hf⟩

/-- **What has been read has a spelling.** -/
theorem Expression.exists_spelled {x : Expression Term} (h : (Term.ofValue (.calc x)).Made)
    (hvalid : x.valid = true) : ∃ t f, x.items = t.postorder ∧ Spelled t f := by
  obtain ⟨f, hf⟩ := h.exists_spelled (.inr ⟨x, rfl, hvalid⟩)
  cases hf with
  | nested _ hitems hf => exact ⟨_, f, hitems, hf⟩

/-- **What has been read can be written.** -/
theorem Expression.exists_text {x : Expression Term} (h : (Term.ofValue (.calc x)).Made)
    (hvalid : x.valid = true) : ∃ text, x.text = .ok text := by
  obtain ⟨t, f, hitems, hf⟩ := Expression.exists_spelled h hvalid
  refine ⟨String.ofList f.chars, ?_⟩
  rw [Expression.text, evaluate_eq_of_postorder hvalid hitems, hf.text]
  rfl

theorem Accepted.exists_text_of_made {ts : List Term} {last : ExpressionReader}
    {ops : List MathOperator} (h : Accepted ts last ops) (hts : ∀ t ∈ ts, t.Made) :
    ∃ text, (Expression.ofTerms ts).text = .ok text :=
  Expression.exists_text (.nested none hts) (Expression.valid_iff_accepted.mpr ⟨last, ops, h⟩)

end CssModel
