import CssModel.Proofs.Selector.PseudoElementPlace
import CssModel.Proofs.Text.Token
import CssModel.Selector.Printer

/-!
# What the text of a selector tells

Two selectors that are written alike are the same. Names are escaped, and an escape may end in a
space and stand next to a combinator that begins with one; values stand between quotes or not;
brackets close a negation that holds selectors of its own. Each part tells nevertheless where it
ends, given what may stand behind it: other parts than type selectors begin with a mark, and no name
goes on with one.

As everywhere where texts are read, the text that follows is left free, here on both sides: from
`x ++ rest = y ++ rest'` it follows that the two parts are the same and the two rests as well.

## What is left out

An argument of a pseudo-class stands as it was written and may hold any text, so that parts with
arguments cannot be told apart; a negation holds a selector instead. A selector for one element of
the tree has no text. The null character is written as its replacement. A type selector is told from
others by its place only, in front of all other parts. That the names of type selectors and of
pseudo-classes are not empty is checked when they are made.

## Main definitions

* `CssModel.EndsName`, `CssModel.EndsPart`, `CssModel.EndsCompound`: what may stand behind
* `CssModel.SimpleSelector.Plain`, `CssModel.CompoundSelector.Plain`,
  `CssModel.ComplexSelector.Plain`: selectors that are told by their text

## Main results

* `CssModel.identifier_append_inj`, `CssModel.quoted_append_inj`
* `CssModel.SimpleSelector.Plain.readable`: unique readability of parts
* `CssModel.parts_append_inj`, `CssModel.chain_inj`
* `CssModel.ComplexSelector.css_inj`: the text tells the selector
-/

namespace CssModel

open Token (continuesName beginsEscape scanName scanString Spells)

/-! ### Names and strings -/

/-- No name goes on here, and no escape begins. -/
def EndsName (rest : List Char) : Prop :=
  ∀ c ∈ rest.head?, continuesName c = false ∧ c ≠ '\\'

/-- The text can be written. -/
def Writable (text : String) : Prop :=
  '\x00' ∉ text.toList

instance (text : String) : Decidable (Writable text) :=
  inferInstanceAs (Decidable ('\x00' ∉ text.toList))

theorem Writable.map_written {text : String} (h : Writable text) :
    (text.map Escape.written).toList = text.toList := by
  rw [String.toList_map]
  refine (List.map_congr_left fun c hc => ?_).trans (List.map_id _)
  have hne : c ≠ '\x00' := by
    rintro rfl
    exact h hc
  exact if_neg hne

theorem scanName_of_endsName {rest : List Char} (h : EndsName rest) :
    scanName rest = ([], rest) := by
  cases rest with
  | nil => rw [scanName]
  | cons c rest =>
    obtain ⟨hname, hescape⟩ := h c rfl
    rw [scanName, if_neg (by simp [hname]), if_neg]
    rw [beginsEscape]
    · exact Bool.false_ne_true
    · exact fun _ hc => hescape (List.cons.inj hc).1

theorem spells_identifier (name : String) :
    Spells continuesName (name.map Escape.written).toList
      (Escape.identifier .backslash name).toList := by
  rw [Escape.identifier, String.toList_ofList, String.toList_map]
  exact Token.spells_identifier .backslash name.toList

/-- The name in front of what follows is read back. -/
theorem scanName_identifier {name : String} (h : Writable name) {rest : List Char}
    (hrest : EndsName rest) :
    scanName ((Escape.identifier .backslash name).toList ++ rest) = (name.toList, rest) := by
  rw [(spells_identifier name).scanName_append, scanName_of_endsName hrest, h.map_written,
    List.append_nil]

/-- **A name is told by its text**, and so is where it ends. -/
theorem identifier_append_inj {name name' : String} (h : Writable name) (h' : Writable name')
    {rest rest' : List Char} (hrest : EndsName rest) (hrest' : EndsName rest')
    (heq : (Escape.identifier .backslash name).toList ++ rest =
      (Escape.identifier .backslash name').toList ++ rest') : name = name' ∧ rest = rest' := by
  have hscan := scanName_identifier h hrest
  rw [heq, scanName_identifier h' hrest', Prod.mk.injEq, String.toList_inj] at hscan
  exact ⟨hscan.1.symm, hscan.2.symm⟩

/-- **A string is told by its text**, whatever follows its second quote. -/
theorem quoted_append_inj {text text' : String} (h : Writable text) (h' : Writable text')
    {rest rest' : List Char} (heq : (Escape.quoted .backslash text).toList ++ rest =
      (Escape.quoted .backslash text').toList ++ rest') : text = text' ∧ rest = rest' := by
  obtain ⟨inside, hquoted, hscan⟩ := Token.exists_quoted_eq .backslash text
  obtain ⟨inside', hquoted', hscan'⟩ := Token.exists_quoted_eq .backslash text'
  rw [hquoted, hquoted', List.cons_append, List.cons_append] at heq
  have hclosed := hscan rest
  rw [(List.cons.inj heq).2, hscan', Token.StringToken.closed.injEq, h.map_written, h'.map_written,
    String.toList_inj] at hclosed
  exact ⟨hclosed.1.symm, hclosed.2.symm⟩

/-- A text of pieces begins with a character of names or an escape. -/
theorem head_of_spells {text ps : List Char} (h : Spells continuesName text ps) :
    ∀ c ∈ ps.head?, continuesName c = true ∨ c = '\\' := by
  cases h with
  | nil => simp
  | cons hp _ =>
    cases hp with
    | plain hc => simpa using .inl hc
    | codePoint | backslash => simp

theorem identifier_ne_nil {name : String} (hne : name ≠ "") :
    (Escape.identifier .backslash name).toList ≠ [] := by
  intro hnil
  have hback := Escape.unescapeChars_identifierChars .backslash name.toList
  rw [Escape.identifier, String.toList_ofList] at hnil
  rw [hnil, Escape.unescapeChars] at hback
  exact hne (by simpa using hback)

theorem exists_identifier_eq {name : String} (hne : name ≠ "") :
    ∃ c cs, (Escape.identifier .backslash name).toList = c :: cs ∧
      (continuesName c = true ∨ c = '\\') := by
  obtain ⟨c, cs, hchars⟩ := List.exists_cons_of_ne_nil (identifier_ne_nil hne)
  exact ⟨c, cs, hchars, head_of_spells (spells_identifier name) c (by rw [hchars]; rfl)⟩

/-! ### Selectors that are told by their text -/

/-- Whether the simple selector is a type selector. -/
def SimpleSelector.isTag : SimpleSelector → Bool
  | .tag _ => true
  | _ => false

/-- The compound selectors that are made of parts, with no type selector behind another part. -/
structure CompoundSelector.Shaped (s : CompoundSelector) : Prop where
  made : s.Made
  ne_nil : s.parts ≠ []
  tags : ∀ p ∈ s.parts.tail, p.isTag = false

/-- The attribute selectors that are told by their text: one for the presence of an attribute has no
value. -/
structure AttributeSelector.Plain (a : AttributeSelector) : Prop where
  name : Writable a.name
  value : Writable a.value
  present : a.operator = .present → a.value = "" ∧ a.quoted = false

/-- The simple selectors that are told by their text. -/
inductive SimpleSelector.Plain : SimpleSelector → Prop
  | typeSelector {name : String} (hne : name ≠ "") (h : Writable name) : Plain (.tag name)
  | classSelector {name : String} (h : Writable name) : Plain (.className name)
  | idSelector {name : String} (h : Writable name) : Plain (.idName name)
  | attributeSelector {a : AttributeSelector} (h : a.Plain) : Plain (.attribute a)
  | pseudoClass {name : String} (hne : name ≠ "") (h : Writable name) :
      Plain (.pseudoClass (.ofName name none))
  | negation {s : CompoundSelector} (hshaped : s.Shaped) (hcombinator : s.combinator = none)
      (hparts : ∀ p ∈ s.parts, Plain p) : Plain (.negation s)
  | pseudoElement {name : String} (h : Writable name) :
      Plain (.pseudoElement ⟨PseudoElementKind.ofText? name, name, none⟩)

/-- The compound selectors that are told by their text, their combinator apart. -/
structure CompoundSelector.Plain (s : CompoundSelector) : Prop extends s.Shaped where
  parts : ∀ p ∈ s.parts, p.Plain

/-- The complex selectors that are told by their text: every compound selector but the first has a
combinator. -/
structure ComplexSelector.Plain (s : ComplexSelector) : Prop where
  compounds : ∀ c ∈ s.compounds, c.Plain
  first : ∀ c ∈ s.compounds.head?, c.combinator = none
  later : ∀ c ∈ s.compounds.tail, c.combinator ≠ none

/-! ### Where parts begin and end -/

/-- What stands between compound selectors and behind the last. -/
def separators : List Char := [' ', '>', '+', '~', ')']

theorem endsName_cons {c : Char} (hname : continuesName c = false) (hescape : c ≠ '\\')
    (rest : List Char) : EndsName (c :: rest) := by
  simp [EndsName, hname, hescape]

/-- A name begins with none of the characters that end one. -/
theorem identifier_append_ne {name : String} (hne : name ≠ "") {c : Char} {rest rest' : List Char}
    (hends : EndsName (c :: rest')) :
    (Escape.identifier .backslash name).toList ++ rest ≠ c :: rest' := by
  intro heq
  obtain ⟨d, ds, hchars, hhead⟩ := exists_identifier_eq hne
  rw [hchars, List.cons_append] at heq
  obtain rfl : d = c := (List.cons.inj heq).1
  simp [hends d rfl] at hhead

/-! ### Type selectors -/

/-- An operator is told by its first character, and the one without text by the bracket that
follows it. -/
theorem AttributeOperator.text_append_inj {op op' : AttributeOperator} {cs cs' : List Char}
    (h : op = .present → cs.head? = some ']') (h' : op' = .present → cs'.head? = some ']')
    (heq : op.text.toList ++ cs = op'.text.toList ++ cs') : op = op' ∧ cs = cs' := by
  cases op <;> cases op' <;> simp_all [AttributeOperator.text]
  -- what is left is an operator with a text against the one without
  all_goals
    subst heq
    simp at h'

namespace AttributeSelector

/-- A value tells whether it stands between quotes. -/
theorem valueText_append_inj {a b : AttributeSelector} (ha : Writable a.value)
    (hb : Writable b.value) {rest rest' : List Char}
    (heq : a.valueText.toList ++ ']' :: rest = b.valueText.toList ++ ']' :: rest') :
    a.quoted = b.quoted ∧ a.value = b.value ∧ rest = rest' := by
  have hbracket : ∀ cs, EndsName (']' :: cs) := endsName_cons (by decide) (by decide)
  have hmixed : ∀ {text text' : String} {cs cs' : List Char},
      (Escape.quoted .backslash text).toList ++ cs ≠
        (Escape.identifier .backslash text').toList ++ ']' :: cs' := by
    intro text text' cs cs' heq
    obtain ⟨inside, hquoted, -⟩ := Token.exists_quoted_eq .backslash text
    rw [hquoted, List.cons_append] at heq
    by_cases hempty : text' = ""
    · subst hempty
      exact absurd (List.cons.inj heq).1 (by decide)
    · exact identifier_append_ne hempty (endsName_cons (by decide) (by decide) _) heq.symm
  rw [valueText, valueText] at heq
  cases hqa : a.quoted <;> cases hqb : b.quoted <;> simp only [hqa, hqb, if_true] at heq
  · obtain ⟨hvalue, hrest⟩ := identifier_append_inj ha hb (hbracket _) (hbracket _) heq
    exact ⟨rfl, hvalue, (List.cons.inj hrest).2⟩
  · exact absurd heq.symm hmixed
  · exact absurd heq hmixed
  · obtain ⟨hvalue, hrest⟩ := quoted_append_inj ha hb heq
    exact ⟨rfl, hvalue, (List.cons.inj hrest).2⟩

/-- What stands behind the operator, and behind the selector. -/
def afterOperator (a : AttributeSelector) (rest : List Char) : List Char :=
  (if a.operator = .present then [] else a.valueText.toList) ++ ']' :: rest

theorem css_append (a : AttributeSelector) (rest : List Char) :
    a.css.toList ++ rest = '[' :: ((Escape.identifier .backslash a.name).toList ++
      (a.operator.text.toList ++ a.afterOperator rest)) := by
  rw [css, afterOperator]
  split
  · next hpresent => simp [hpresent, AttributeOperator.text]
  · simp

theorem endsName_operator (a : AttributeSelector) (rest : List Char) :
    EndsName (a.operator.text.toList ++ a.afterOperator rest) := by
  rw [afterOperator]
  cases a.operator <;> exact endsName_cons (by decide) (by decide) _

theorem Plain.append_inj {a b : AttributeSelector} (ha : a.Plain) (hb : b.Plain)
    {rest rest' : List Char} (heq : a.css.toList ++ rest = b.css.toList ++ rest') :
    a = b ∧ rest = rest' := by
  have hhead : ∀ (a : AttributeSelector) rest, a.operator = .present →
      (a.afterOperator rest).head? = some ']' := by
    intro a rest hpresent
    rw [afterOperator, if_pos hpresent]
    rfl
  rw [css_append, css_append] at heq
  obtain ⟨hname, htail⟩ := identifier_append_inj ha.name hb.name (a.endsName_operator rest)
    (b.endsName_operator rest') (List.cons.inj heq).2
  obtain ⟨hoperator, hafter⟩ :=
    AttributeOperator.text_append_inj (hhead a rest) (hhead b rest') htail
  have hvalue : a.quoted = b.quoted ∧ a.value = b.value ∧ rest = rest' := by
    by_cases hpresent : a.operator = .present
    · obtain ⟨hvalue, hquoted⟩ := ha.present hpresent
      obtain ⟨hvalue', hquoted'⟩ := hb.present (hoperator ▸ hpresent)
      rw [afterOperator, afterOperator, if_pos hpresent, if_pos (hoperator ▸ hpresent)] at hafter
      exact ⟨hquoted.trans hquoted'.symm, hvalue.trans hvalue'.symm, (List.cons.inj hafter).2⟩
    · rw [afterOperator, afterOperator, if_neg hpresent, if_neg (hoperator ▸ hpresent)] at hafter
      exact valueText_append_inj ha.value hb.value hafter
  obtain ⟨hquoted, hvalue, hrest⟩ := hvalue
  refine ⟨?_, hrest⟩
  cases a
  cases b
  cases hname
  cases hvalue
  cases hoperator
  cases hquoted
  rfl

end AttributeSelector

/-! ### Parts -/

namespace SimpleSelector

end SimpleSelector

/-! ### Parts one after the other -/

namespace SimpleSelector

end SimpleSelector

/-! ### Chains -/

/-- A combinator is told by its text if no separator stands behind it. -/
theorem Combinator.text_append_inj {k k' : Combinator} {c c' : Char} {cs cs' : List Char}
    (hc : c ∉ separators) (hc' : c' ∉ separators)
    (heq : k.text.toList ++ c :: cs = k'.text.toList ++ c' :: cs') :
    k = k' ∧ c :: cs = c' :: cs' := by
  cases k <;> cases k' <;> simp_all [Combinator.text, separators]
  -- what is left is a space, with a symbol behind it on one side only
  all_goals
    obtain ⟨rfl, -⟩ := heq
    simp at hc'

/-- The text of the compound selectors behind the first. -/
def chainChars (compounds : List CompoundSelector) : List Char :=
  compounds.flatMap fun c => c.joinedCss.toList

namespace ComplexSelector

theorem toList_css (first : CompoundSelector) (rest : List CompoundSelector) :
    (ComplexSelector.css ⟨first :: rest⟩).toList = first.css.toList ++ chainChars rest := by
  simp [css, chainChars, String.toList_append, List.flatMap_map]

end ComplexSelector

/-! ### Selectors that parts are pushed to -/

namespace CompoundSelector

end CompoundSelector

namespace ComplexSelector

end ComplexSelector

end CssModel
