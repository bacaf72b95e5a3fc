import CssModel.Term.Basic

/-!
# Equality of terms

Two terms are equal if they are built in the same way from equal parts, validity included. Their
numbers are compared by their values, so that two terms may be equal without being the same: only
for numbers that are finite, and not the negative zero, does it come to the same.

## Main definitions

* `CssModel.Value.sameBy`: the comparison of values, given that of numbers
* `CssModel.Value.same` decides whether two values are the same, by `CssModel.Value.same_iff`
* `CssModel.Value.numbers`: all numbers in a value

## Main results

* `CssModel.Value.sameBy_iff`: the comparison of values is as good as that of the numbers in them
-/

namespace CssModel

/-! ### The comparison -/

section Compare

variable (number : Numeric → Numeric → Bool)

/-- Whether two edges are the same. -/
def sameEdge : Option Numeric → Option Numeric → Bool
  | none, none => true
  | some a, some b => number a b
  | _, _ => false

/-- Whether two rectangles have the same edges. -/
def Rectangle.sameBy (a b : Rectangle) : Bool :=
  sameEdge number a.top b.top && sameEdge number a.right b.right &&
    sameEdge number a.bottom b.bottom && sameEdge number a.left b.left

mutual

/-- Whether two values are the same, as far as the comparison of numbers tells. -/
def Value.sameBy : Value → Value → Bool
  | .numeric a, .numeric b => number a b
  | .color a, .color b => a == b
  | .string a, .string b => a == b
  | .ident a, .ident b => a == b
  | .uri a, .uri b => a == b
  | .call ⟨n, as, v⟩, .call ⟨n', bs, v'⟩ => n == n' && sameTermsBy as bs && v == v'
  | .list as, .list bs => sameTermsBy as bs
  | .rect a, .rect b => a.sameBy number b
  | .pair k ⟨o, a⟩, .pair k' ⟨o', b⟩ => k == k' && o == o' && a.sameBy b
  | .unicodeRange a, .unicodeRange b => a == b
  | .brackets a, .brackets b => a == b
  | .calc ⟨as, f, i, v⟩, .calc ⟨bs, f', i', v'⟩ =>
    sameEntriesBy as bs && f == f' && i == i' && v == v'
  | .delimiter a, .delimiter b => a == b
  | _, _ => false

/-- Whether two lists hold the same terms in the same order. -/
def sameTermsBy : List (Joined Value) → List (Joined Value) → Bool
  | [], [] => true
  | ⟨o, a⟩ :: as, ⟨o', b⟩ :: bs => o == o' && a.sameBy b && sameTermsBy as bs
  | _, _ => false

/-- Whether two expressions have the same entries. -/
def sameEntriesBy :
    List (ExpressionItem (Joined Value)) → List (ExpressionItem (Joined Value)) → Bool
  | [], [] => true
  | .operand ⟨o, a⟩ :: as, .operand ⟨o', b⟩ :: bs =>
    o == o' && a.sameBy b && sameEntriesBy as bs
  | .operator a :: as, .operator b :: bs => a == b && sameEntriesBy as bs
  | _, _ => false

end

end Compare

instance : BEq Rectangle := ⟨Rectangle.sameBy (· == ·)⟩

instance : BEq Value := ⟨Value.sameBy (· == ·)⟩

/-- Whether two values are the same. -/
def Value.same : Value → Value → Bool :=
  Value.sameBy fun a b => decide (a = b)

/-! ### The numbers in a value -/

/-- The edges that are no `auto`. -/
def Rectangle.numbers (r : Rectangle) : List Numeric :=
  r.edges.filterMap id

mutual

/-- All numbers in a value, in order. -/
def Value.numbers : Value → List Numeric
  | .numeric n => [n]
  | .call ⟨_, args, _⟩ => termNumbers args
  | .list terms => termNumbers terms
  | .rect r => r.numbers
  | .pair _ ⟨_, v⟩ => v.numbers
  | .calc ⟨items, _, _, _⟩ => entryNumbers items
  | .color _ | .string _ | .ident _ | .uri _ | .unicodeRange _ | .brackets _ | .delimiter _ => []

/-- All numbers in terms, in order. -/
def termNumbers : List (Joined Value) → List Numeric
  | [] => []
  | ⟨_, v⟩ :: rest => v.numbers ++ termNumbers rest

/-- All numbers in the entries of an expression, in order. -/
def entryNumbers : List (ExpressionItem (Joined Value)) → List Numeric
  | [] => []
  | .operand ⟨_, v⟩ :: rest => v.numbers ++ entryNumbers rest
  | .operator _ :: rest => entryNumbers rest

end

/-! ### Comparing is telling apart -/

section Decides

variable {number : Numeric → Numeric → Bool} {P : Numeric → Prop}

theorem sameEdge_iff (h : ∀ {n m}, P n → P m → (number n m = true ↔ n = m)) {a b : Option Numeric}
    (ha : ∀ n ∈ a, P n) (hb : ∀ n ∈ b, P n) : sameEdge number a b = true ↔ a = b := by
  cases a with
  | none => cases b <;> simp [sameEdge]
  | some n =>
    cases b with
    | none => simp [sameEdge]
    | some m => simp [sameEdge, h (ha n rfl) (hb m rfl)]

theorem Rectangle.sameBy_iff (h : ∀ {n m}, P n → P m → (number n m = true ↔ n = m))
    {a b : Rectangle} (ha : ∀ n ∈ a.numbers, P n) (hb : ∀ n ∈ b.numbers, P n) :
    a.sameBy number b = true ↔ a = b := by
  obtain ⟨t, r, u, l⟩ := a
  obtain ⟨t', r', u', l'⟩ := b
  simp only [numbers, edges, List.mem_filterMap, List.mem_cons, id, exists_eq_right] at ha hb
  have hedge {e e' : Option Numeric} (he : e = t ∨ e = r ∨ e = u ∨ e = l ∨ e ∈ [])
      (he' : e' = t' ∨ e' = r' ∨ e' = u' ∨ e' = l' ∨ e' ∈ []) :
      sameEdge number e e' = true ↔ e = e' := by
    refine sameEdge_iff h (fun n hn => ha n ?_) fun n hn => hb n ?_
    · rwa [← Option.mem_def.mp hn]
    · rwa [← Option.mem_def.mp hn]
  simp only [sameBy, Bool.and_eq_true, hedge (.inl rfl) (.inl rfl),
    hedge (.inr (.inl rfl)) (.inr (.inl rfl)),
    hedge (.inr (.inr (.inl rfl))) (.inr (.inr (.inl rfl))),
    hedge (.inr (.inr (.inr (.inl rfl)))) (.inr (.inr (.inr (.inl rfl)))), Rectangle.mk.injEq,
    and_assoc]

mutual

/-- **Where the comparison of numbers tells them apart, that of values does.** -/
theorem Value.sameBy_iff (h : ∀ {n m}, P n → P m → (number n m = true ↔ n = m)) :
    ∀ a b : Value, (∀ n ∈ a.numbers, P n) → (∀ n ∈ b.numbers, P n) →
      (a.sameBy number b = true ↔ a = b)
  | .numeric n, b => by
    intro ha hb
    cases b <;> simp [Value.sameBy]
    next m => exact h (ha n (by simp [Value.numbers])) (hb m (by simp [Value.numbers]))
  | .color _, b => by cases b <;> simp [Value.sameBy]
  | .string _, b => by cases b <;> simp [Value.sameBy]
  | .ident _, b => by cases b <;> simp [Value.sameBy]
  | .uri _, b => by cases b <;> simp [Value.sameBy]
  | .call ⟨n, as, v⟩, b => by
    intro ha hb
    cases b <;> simp [Value.sameBy]
    next f =>
      obtain ⟨n', bs, v'⟩ := f
      simp [sameTermsBy_iff h as bs (by simpa [Value.numbers] using ha)
        (by simpa [Value.numbers] using hb), and_assoc]
  | .list as, b => by
    intro ha hb
    cases b <;> simp [Value.sameBy]
    next bs =>
      exact sameTermsBy_iff h as bs (by simpa [Value.numbers] using ha)
        (by simpa [Value.numbers] using hb)
  | .rect r, b => by
    intro ha hb
    cases b <;> simp [Value.sameBy]
    next r' =>
      exact Rectangle.sameBy_iff h (by simpa [Value.numbers] using ha)
        (by simpa [Value.numbers] using hb)
  | .pair k ⟨o, v⟩, b => by
    intro ha hb
    cases b <;> simp [Value.sameBy]
    next k' t =>
      obtain ⟨o', w⟩ := t
      simp [v.sameBy_iff h w (by simpa [Value.numbers] using ha)
        (by simpa [Value.numbers] using hb), and_assoc]
  | .unicodeRange _, b => by cases b <;> simp [Value.sameBy]
  | .brackets _, b => by cases b <;> simp [Value.sameBy]
  | .calc ⟨as, f, i, v⟩, b => by
    intro ha hb
    cases b <;> simp [Value.sameBy]
    next e =>
      obtain ⟨bs, f', i', v'⟩ := e
      simp [sameEntriesBy_iff h as bs (by simpa [Value.numbers] using ha)
        (by simpa [Value.numbers] using hb), and_assoc]
  | .delimiter _, b => by cases b <;> simp [Value.sameBy]

theorem sameTermsBy_iff (h : ∀ {n m}, P n → P m → (number n m = true ↔ n = m)) :
    ∀ as bs : List (Joined Value), (∀ n ∈ termNumbers as, P n) → (∀ n ∈ termNumbers bs, P n) →
      (sameTermsBy number as bs = true ↔ as = bs)
  | [], bs => by cases bs <;> simp [sameTermsBy]
  | ⟨o, a⟩ :: as, bs => by
    intro has hbs
    cases bs with
    | nil => simp [sameTermsBy]
    | cons b bs =>
      obtain ⟨o', b⟩ := b
      simp only [termNumbers, List.forall_mem_append] at has hbs
      simp [sameTermsBy, a.sameBy_iff h b has.1 hbs.1, sameTermsBy_iff h as bs has.2 hbs.2]

theorem sameEntriesBy_iff (h : ∀ {n m}, P n → P m → (number n m = true ↔ n = m)) :
    ∀ as bs : List (ExpressionItem (Joined Value)), (∀ n ∈ entryNumbers as, P n) →
      (∀ n ∈ entryNumbers bs, P n) → (sameEntriesBy number as bs = true ↔ as = bs)
  | [], bs => by cases bs <;> simp [sameEntriesBy]
  | .operand ⟨o, a⟩ :: as, bs => by
    intro has hbs
    cases bs with
    | nil => simp [sameEntriesBy]
    | cons b bs =>
      cases b with
      | operand t =>
        obtain ⟨o', b⟩ := t
        simp only [entryNumbers, List.forall_mem_append] at has hbs
        simp [sameEntriesBy, a.sameBy_iff h b has.1 hbs.1, sameEntriesBy_iff h as bs has.2 hbs.2]
      | operator _ => simp [sameEntriesBy]
  | .operator _ :: as, bs => by
    intro has hbs
    cases bs with
    | nil => simp [sameEntriesBy]
    | cons b bs =>
      cases b with
      | operand _ => simp [sameEntriesBy]
      | operator _ =>
        simp only [entryNumbers] at has hbs
        simp [sameEntriesBy, sameEntriesBy_iff h as bs has hbs]

end

end Decides

theorem Value.same_iff (a b : Value) : a.same b = true ↔ a = b :=
  Value.sameBy_iff (P := fun _ => True) (fun _ _ => decide_eq_true_iff) a b (fun _ _ => trivial)
    fun _ _ => trivial

instance : DecidableEq Value := fun a b => decidable_of_iff _ (a.same_iff b)

end CssModel
