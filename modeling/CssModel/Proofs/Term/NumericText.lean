import CssModel.Expression.Resolution
import CssModel.Proofs.Number.Shortest

/-!
# The text of numbers with units

A number is written as a sign, digits and a suffix. The suffix begins with no digit, so the text
tells both parts, and they are all that the value in the family's own unit depends on. Numbers whose
texts differ in the sign only have opposite values.

## Main definitions

* `CssModel.signed`: a text with a sign in front or none
* `CssModel.Numeric.isNegative`, `CssModel.Numeric.unsigned`: the sign, and the text after it

## Main results

* `CssModel.Numeric.toList_text`, `CssModel.Numeric.unsigned_plain`
* `CssModel.ResolutionContext.canonical_of_text_eq`: the text tells the value
* `CssModel.ResolutionContext.canonical_of_text_eq_neg`: a sign in the text negates the value
-/

namespace CssModel

open Float.Model (UnpackedFloat)

/-! ### Signs in front of texts -/

/-- The text, perhaps with a sign in front. -/
def signed (negative : Bool) (cs : List Char) : List Char :=
  bif negative then '-' :: cs else cs

/-- The sign can be told from what stands behind it, if that begins with none. -/
theorem signed_inj {b b' : Bool} {cs cs' : List Char} (h : cs.head? ≠ some '-')
    (h' : cs'.head? ≠ some '-') : signed b cs = signed b' cs' ↔ b = b' ∧ cs = cs' := by
  constructor
  · intro heq
    cases b <;> cases b'
    · exact ⟨rfl, heq⟩
    · exact absurd (congrArg List.head? heq) h
    · exact absurd (congrArg List.head? heq).symm h'
    · exact ⟨rfl, (List.cons.inj heq).2⟩
  · rintro ⟨rfl, rfl⟩
    rfl

/-! ### Where the digits end -/

namespace Number

/-- The digits in front of a suffix, or one of the two words. -/
def numberPart (cs : List Char) : List Char :=
  if cs.head?.any isNumeral then cs.takeWhile isNumeral else cs.take 3

theorem numberPart_append {cs rest : List Char} {u : UnpackedFloat} (h : Denotes cs u)
    (hrest : ∀ c ∈ rest.head?, isNumeral c = false) : numberPart (cs ++ rest) = cs := by
  have hrun : ∀ {d : Char} {ds : List Char}, (∀ c ∈ d :: ds, isNumeral c = true) →
      numberPart (d :: ds ++ rest) = d :: ds := by
    intro d ds hnumeral
    have hd := hnumeral d List.mem_cons_self
    have hstop : rest.takeWhile isNumeral = [] := by
      cases rest with
      | nil => rfl
      | cons c rest => exact List.takeWhile_cons_of_neg (by simp [hrest c rfl])
    rw [numberPart, if_pos (by simpa using hd), List.takeWhile_append_of_pos hnumeral, hstop,
      List.append_nil]
  cases h with
  | notANumber | infinity => rfl
  | zero => exact hrun (by simp [isNumeral])
  | finite hd hnumeral => exact hrun hnumeral

theorem Denotes.head_ne {cs : List Char} {u : UnpackedFloat} (h : Denotes cs u) :
    cs.head? ≠ some '-' ∧ cs ≠ [] := by
  cases h with
  | notANumber | infinity | zero => simp
  | finite hd =>
    refine ⟨?_, List.cons_ne_nil _ _⟩
    rw [List.head?_cons, ne_eq, Option.some.injEq]
    rintro rfl
    cases hd

/-- Digits, points and the letters of the two words. -/
theorem Denotes.chars {cs : List Char} {u : UnpackedFloat} (h : Denotes cs u) :
    ∀ c ∈ cs, c ∉ [' ', '(', ')'] := by
  cases h with
  | notANumber | infinity | zero => simp
  | finite hd hnumeral =>
    intro c hc hmem
    have hc := hnumeral c hc
    simp only [List.mem_cons, List.not_mem_nil, or_false] at hmem
    obtain rfl | rfl | rfl := hmem <;> cases hc

/-- A number is known by its size and its sign. -/
theorem eq_abs (u : UnpackedFloat) : u = bif isNegative u then u.abs.neg else u.abs := by
  cases u with
  | notANumber => rfl
  | infinity s | zero s | finite s => cases s <;> rfl

theorem eq_of_abs_eq {u u' : UnpackedFloat} (h : u.abs = u'.abs)
    (hsign : isNegative u = isNegative u') : u = u' := by
  rw [eq_abs u, eq_abs u', h, hsign]

theorem eq_neg_of_abs_eq {u u' : UnpackedFloat} (h : u.abs = u'.abs)
    (hu : isNegative u = false) (hu' : isNegative u' = true) : u' = u.neg := by
  have hpos := eq_abs u
  have hneg := eq_abs u'
  rw [hu, cond_false] at hpos
  rwa [hu', cond_true, ← h, ← hpos] at hneg

/-- The double precision number of the same value is the opposite one if the sign is. -/
theorem widen_neg {x x' : Float32} (h : x'.toModel.unpack = x.toModel.unpack.neg) :
    widen x' = -widen x := by
  rw [widen, h, reround_neg, packed_neg]
  rfl

end Number

/-! ### Suffixes -/

namespace Numeric

open Number (isNumeral Denotes magnitude)

theorem suffix_cases (n : Numeric) :
    n.suffix = "%" ∧ n.kind = .percent ∨
      n.kind ≠ .percent ∧ (n.suffix = "" ∧ n.unit = none ∨
        ∃ unit, n.suffix = unit.text ∧ n.unit = some unit) := by
  by_cases hkind : n.kind = .percent
  · exact .inl ⟨by simp [suffix, hkind], hkind⟩
  · refine .inr ⟨hkind, ?_⟩
    cases hunit : n.unit with
    | none =>
      refine .inl ⟨?_, rfl⟩
      rw [suffix, hunit]
      cases hn : n.kind <;> simp_all
    | some unit =>
      refine .inr ⟨unit, ?_, rfl⟩
      rw [suffix, hunit]
      cases hn : n.kind <;> simp_all

theorem suffix_plain (n : Numeric) : (∀ c ∈ n.suffix.toList.head?, isNumeral c = false) ∧
    ∀ c ∈ n.suffix.toList, c ∉ [' ', '(', ')'] := by
  obtain ⟨h, -⟩ | ⟨-, ⟨h, -⟩ | ⟨unit, h, -⟩⟩ := n.suffix_cases
  · rw [h]
    simp [isNumeral]
  · rw [h]
    simp
  · rw [h]
    cases unit <;> simp [DimensionUnit.text, isNumeral]

/-! ### The sign and the text after it -/

/-- Whether the text has a sign. -/
def isNegative (n : Numeric) : Bool :=
  Number.isNegative n.value.toModel.unpack

/-- The text without the sign. -/
def unsigned (n : Numeric) : List Char :=
  magnitude n.value.toModel.unpack ++ n.suffix.toList

theorem toList_text (n : Numeric) :
    n.text.toList = signed n.isNegative n.unsigned := by
  rw [text, Number.text, String.toList_append, String.toList_ofList, Number.textOf_eq, isNegative,
    unsigned, List.append_assoc]
  cases Number.isNegative n.value.toModel.unpack <;> rfl

theorem denotes (n : Numeric) :
    Denotes (magnitude n.value.toModel.unpack) n.value.toModel.unpack.abs :=
  Number.denotes_magnitude n.value

theorem unsigned_plain (n : Numeric) : n.unsigned ≠ [] ∧ n.unsigned.head? ≠ some '-' ∧
    ∀ c ∈ n.unsigned, c ∉ [' ', '(', ')'] := by
  obtain ⟨hhead, hne⟩ := n.denotes.head_ne
  refine ⟨List.append_ne_nil_of_left_ne_nil hne _, ?_, ?_⟩
  · rwa [unsigned, List.head?_append_of_ne_nil _ hne]
  · intro c hc
    exact (List.mem_append.mp hc).elim (n.denotes.chars c) (n.suffix_plain.2 c)

theorem text_eq_iff {n n' : Numeric} :
    n.text = n'.text ↔ n.isNegative = n'.isNegative ∧ n.unsigned = n'.unsigned := by
  rw [← String.toList_inj, toList_text, toList_text]
  exact signed_inj n.unsigned_plain.2.1 n'.unsigned_plain.2.1

/-- No text begins with two signs. -/
theorem text_eq_neg_iff {n n' : Numeric} : n'.text = "-" ++ n.text ↔
    n'.isNegative = true ∧ n.isNegative = false ∧ n'.unsigned = n.unsigned := by
  have hhead' := n'.unsigned_plain.2.1
  rw [← String.toList_inj, String.toList_append, toList_text, toList_text]
  show _ = '-' :: signed n.isNegative n.unsigned ↔ _
  cases n.isNegative with
  | false =>
    show _ = signed true n.unsigned ↔ _
    rw [signed_inj hhead' n.unsigned_plain.2.1]
    simp
  | true =>
    cases n'.isNegative with
    | false =>
      exact iff_of_false (fun heq => hhead' (congrArg List.head? heq)) (by simp)
    | true =>
      exact iff_of_false (fun heq => hhead' (congrArg List.head? (List.cons.inj heq).2)) (by simp)

/-- The text tells the size of the number, and its suffix. -/
theorem eq_of_unsigned_eq {n n' : Numeric} (h : n.unsigned = n'.unsigned) :
    n.value.toModel.unpack.abs = n'.value.toModel.unpack.abs ∧ n.suffix = n'.suffix := by
  have hmagnitude : magnitude n.value.toModel.unpack = magnitude n'.value.toModel.unpack := by
    rw [← Number.numberPart_append n.denotes n.suffix_plain.1,
      ← Number.numberPart_append n'.denotes n'.suffix_plain.1]
    exact congrArg _ h
  refine ⟨n.denotes.unique (hmagnitude ▸ n'.denotes), ?_⟩
  rw [unsigned, unsigned, hmagnitude] at h
  exact String.toList_inj.mp (List.append_cancel_left h)

end Numeric

/-! ### Values -/

namespace ResolutionContext

/-- What a suffix makes of a number. -/
def scaled (context : ResolutionContext) (suffix : String) (value : Float) : Option Float :=
  if suffix = "%" then context.percentBase.map fun base => value / 100 * base
  else match DimensionUnit.all.find? fun unit => unit.text == suffix with
  | some unit => some (value * context.factor unit)
  | none => some value

theorem scaled_neg (context : ResolutionContext) (suffix : String) (value : Float) :
    context.scaled suffix (-value) = (context.scaled suffix value).map fun v => -v := by
  rw [scaled, scaled]
  split
  · cases context.percentBase with
    | none => rfl
    | some base => simp [Number.neg_div, Number.neg_mul]
  · split
    · simp [Number.neg_mul]
    · rfl

/-- Nothing but the value and the suffix counts. -/
theorem toOption_canonical (context : ResolutionContext) (n : Numeric) :
    (context.canonical n).toOption = context.scaled n.suffix (Number.widen n.value) := by
  obtain ⟨hsuffix, hkind⟩ | ⟨hkind, ⟨hsuffix, hunit⟩ | ⟨unit, hsuffix, hunit⟩⟩ := n.suffix_cases
  · rw [scaled, if_pos hsuffix]
    simp only [canonical, if_pos hkind]
    cases context.percentBase <;> rfl
  · rw [scaled, hsuffix]
    simp only [canonical, if_neg hkind, hunit]
    rfl
  · have hfind : (DimensionUnit.all.find? fun u => u.text == unit.text) = some unit := by
      cases unit <;> rfl
    have hpercent : unit.text ≠ "%" := by cases unit <;> simp [DimensionUnit.text]
    simp only [scaled, hsuffix, if_neg hpercent, hfind, canonical, if_neg hkind, hunit]
    rfl

/-- **The text tells the value.** -/
theorem canonical_of_text_eq (context : ResolutionContext) {n n' : Numeric}
    (h : n.text = n'.text) :
    (context.canonical n).toOption = (context.canonical n').toOption := by
  obtain ⟨hsign, h⟩ := Numeric.text_eq_iff.mp h
  obtain ⟨habs, hsuffix⟩ := Numeric.eq_of_unsigned_eq h
  have hunpack := Number.eq_of_abs_eq habs hsign
  rw [toOption_canonical, toOption_canonical, hsuffix, Number.widen, Number.widen, hunpack]

/-- **A sign in the text negates the value.** -/
theorem canonical_of_text_eq_neg (context : ResolutionContext) {n n' : Numeric}
    (h : n'.text = "-" ++ n.text) :
    (context.canonical n').toOption = (context.canonical n).toOption.map fun v => -v := by
  obtain ⟨hn', hn, h⟩ := Numeric.text_eq_neg_iff.mp h
  obtain ⟨habs, hsuffix⟩ := Numeric.eq_of_unsigned_eq h.symm
  have hunpack := Number.eq_neg_of_abs_eq habs hn hn'
  rw [toOption_canonical, toOption_canonical, ← scaled_neg, hsuffix, Number.widen_neg hunpack]

end ResolutionContext

end CssModel
