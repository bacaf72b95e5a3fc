import CssModel.Proofs.Term.RawText
import CssModel.Rule.Sheet

/-!
# Texts that rules write as they are

Selectors, media queries and values escape the names and strings in them, but not everything: the
arguments of pseudo-classes and pseudo-elements, the types and features of media queries and the
pseudo-class of a page are written as they were given. So are the names at the head of a rule and
the names of properties, which are listed apart.

## Main definitions

* `CssModel.HasRawTexts`: the raw texts and the names in a rule or in a part of it

## Main results

* `CssModel.KeptByWriting.selectors`, `CssModel.KeptByWriting.mediaQueries`,
  `CssModel.KeptByWriting.offsets`, `CssModel.KeptByWriting.valueCss`: what stands in a rule besides
  the names
-/

namespace CssModel

/-! ### Selectors -/

mutual

/-- The arguments in a selector, those inside a negation included. -/
def SimpleSelector.rawTexts : SimpleSelector → List String
  | .pseudoClass p => p.argument.toList
  | .negation ⟨_, parts, _⟩ => partsRawTexts parts
  | .pseudoElement p => p.argument.toList
  | _ => []

def partsRawTexts : List SimpleSelector → List String
  | [] => []
  | part :: rest => part.rawTexts ++ partsRawTexts rest

end

def ComplexSelector.rawTexts (s : ComplexSelector) : List String :=
  s.compounds.flatMap fun c => partsRawTexts c.parts

section Selectors

variable {P : String → Prop}

namespace KeptByWriting

theorem attributeSelector (h : KeptByWriting P) (a : AttributeSelector) : P a.css := by
  have hname : P ("[" ++ Escape.identifier .backslash a.name) :=
    h.append (h.inert (by decide)) (h.identifier a.name)
  have hvalue : P a.valueText := by
    rw [AttributeSelector.valueText]
    split
    · exact h.quoted a.value
    · exact h.identifier a.value
  have hoperator : P a.operator.text := by
    cases a.operator <;> exact h.inert (by decide)
  refine h.append (h.append hname ?_) (h.inert (by decide))
  split
  · exact h.empty
  · exact h.append hoperator hvalue

/-- A name with colons in front, and perhaps an argument. -/
theorem pseudo (h : KeptByWriting P) {colons : String} (hcolons : P colons) (name : String)
    (argument : Option String) : (∀ text ∈ argument.toList, P text) →
      P (colons ++ Escape.identifier .backslash name ++
        match argument with
        | some argument => "(" ++ argument ++ ")"
        | none => "") := by
  intro hraw
  refine h.append (h.append hcolons (h.identifier name)) ?_
  cases argument with
  | none => exact h.empty
  | some argument =>
    have hargument : P argument := hraw argument (by simp)
    exact h.append (h.append (h.inert (by decide)) hargument) (h.inert (by decide))

end KeptByWriting

mutual

theorem KeptByWriting.simple (h : KeptByWriting P) :
    ∀ s : SimpleSelector, (∀ text ∈ s.rawTexts, P text) → P s.css
  | .tag name, _ => by
    rw [SimpleSelector.css]
    split
    · exact h.inert (by decide)
    · exact h.identifier name
  | .className name, _ => h.append (h.inert (by decide)) (h.identifier name)
  | .idName name, _ => h.append (h.inert (by decide)) (h.identifier name)
  | .attribute a, _ => h.attributeSelector a
  | .pseudoClass p, hraw => by
    have hcolon : P ":" := h.inert (by decide)
    exact h.pseudo hcolon p.name p.argument (by simpa only [SimpleSelector.rawTexts] using hraw)
  | .negation ⟨_, parts, _⟩, hraw => by
    have hparts : P (partsCss parts) :=
      h.parts parts (by simpa only [SimpleSelector.rawTexts] using hraw)
    exact h.append (h.append (h.inert (by decide)) hparts) (h.inert (by decide))
  | .pseudoElement p, hraw => by
    have hcolons : P "::" := h.inert (by decide)
    exact h.pseudo hcolons p.name p.argument (by simpa only [SimpleSelector.rawTexts] using hraw)
  | .node _ _, _ => h.empty

theorem KeptByWriting.parts (h : KeptByWriting P) :
    ∀ ps : List SimpleSelector, (∀ text ∈ partsRawTexts ps, P text) → P (partsCss ps)
  | [], _ => h.empty
  | part :: rest, hraw => by
    rw [partsRawTexts, List.forall_mem_append] at hraw
    exact h.append (h.simple part hraw.1) (h.parts rest hraw.2)

end

namespace KeptByWriting

theorem complex (h : KeptByWriting P) (s : ComplexSelector)
    (hraw : ∀ text ∈ s.rawTexts, P text) : P s.css := by
  have hcompound : ∀ c ∈ s.compounds, P c.css := fun c hc =>
    h.parts c.parts fun text htext => hraw text (List.mem_flatMap.mpr ⟨c, hc, htext⟩)
  rw [ComplexSelector.css]
  split
  · exact h.empty
  · next first rest hcompounds =>
    rw [hcompounds] at hcompound
    obtain ⟨hfirst, hrest⟩ := List.forall_mem_cons.mp hcompound
    refine h.append hfirst (h.join fun text htext => ?_)
    obtain ⟨c, hc, rfl⟩ := List.mem_map.mp htext
    have hcombinator : P (c.combinator.getD .descendant).text := by
      cases c.combinator.getD .descendant <;> exact h.inert (by decide)
    exact h.append hcombinator (hrest c hc)

/-- **The text of selectors has the property if the arguments in them have.** -/
theorem selectors (h : KeptByWriting P) {selectors : List ComplexSelector}
    (hraw : ∀ text ∈ selectors.flatMap ComplexSelector.rawTexts, P text) :
    P (ComplexSelector.listCss selectors) := by
  refine h.intercalate (h.inert (by decide)) fun text htext => ?_
  obtain ⟨s, hs, rfl⟩ := List.mem_map.mp htext
  exact h.complex s fun text htext => hraw text (List.mem_flatMap.mpr ⟨s, hs, htext⟩)

end KeptByWriting

end Selectors

/-! ### Media queries -/

def MediaExpression.rawTexts (e : MediaExpression) : List String :=
  e.feature :: termsRawTexts e.terms

def MediaQuery.rawTexts (q : MediaQuery) : List String :=
  q.mediaType.toList ++ q.expressions.flatMap MediaExpression.rawTexts

namespace KeptByWriting

variable {P : String → Prop}

theorem mediaExpression (h : KeptByWriting P) (e : MediaExpression)
    (hraw : ∀ text ∈ e.rawTexts, P text) : P e.text := by
  obtain ⟨hfeature, hterms⟩ := List.forall_mem_cons.mp hraw
  refine h.append (h.append (h.append (h.inert (by decide)) hfeature) ?_) (h.inert (by decide))
  split
  · exact h.empty
  · exact h.append (h.inert (by decide)) (h.arguments e.terms hterms)

/-- **The text of a media query has the property if its type and its features have**, and the raw
texts in the values asked for. -/
theorem mediaQuery (h : KeptByWriting P) (q : MediaQuery) (hraw : ∀ text ∈ q.rawTexts, P text) :
    P q.text := by
  obtain ⟨htype, hexpressions⟩ := List.forall_mem_append.mp hraw
  have hqualifier : ∀ text ∈ (q.qualifier.map MediaQualifier.text).toList, P text := by
    rcases q.qualifier with _ | _ | _
    all_goals simp only [Option.map_none, Option.map_some, Option.toList_none, Option.toList_some]
    · exact List.forall_mem_nil P
    all_goals exact List.forall_mem_singleton.mpr (h.inert (by decide))
  have hfront : P q.front :=
    h.intercalate (h.inert (by decide)) (List.forall_mem_append.mpr ⟨hqualifier, htype⟩)
  refine h.intercalate (h.inert (by decide)) (List.forall_mem_append.mpr ⟨?_, ?_⟩)
  · split
    · exact List.forall_mem_nil P
    · exact List.forall_mem_singleton.mpr hfront
  · intro text htext
    obtain ⟨e, he, rfl⟩ := List.mem_map.mp htext
    exact h.mediaExpression e fun text htext =>
      hexpressions text (List.mem_flatMap.mpr ⟨e, he, htext⟩)

end KeptByWriting

/-! ### Rules -/

/-- What is written as it is, in a rule or in a part of it. -/
class HasRawTexts (α : Type) where
  /-- The texts that are no names. -/
  rawTexts : α → List String := fun _ => []
  /-- The names of animations and of pages. -/
  names : α → List String := fun _ => []
  /-- The names of properties. -/
  properties : α → List String := fun _ => []

open HasRawTexts (rawTexts names properties)

instance {η α : Type} [HasRawTexts η] [HasRawTexts α] : HasRawTexts (Container η α) where
  rawTexts c := rawTexts c.header ++ c.items.flatMap rawTexts
  names c := names c.header ++ c.items.flatMap names
  properties c := properties c.header ++ c.items.flatMap properties

instance : HasRawTexts Term where
  rawTexts t := t.value.rawTexts

instance : HasRawTexts DeclarationHead where
  properties h := [h.property]

instance : HasRawTexts StyleHead where
  rawTexts h := h.selectors.flatMap ComplexSelector.rawTexts

instance : HasRawTexts MediaHead where
  rawTexts h := h.queries.flatMap MediaQuery.rawTexts

instance : HasRawTexts KeyframeHead where
  rawTexts h := h.offsets.flatMap rawTexts

instance : HasRawTexts KeyframesHead where
  names h := [h.name]

instance : HasRawTexts FontFaceHead where

instance : HasRawTexts MarginHead where

instance : HasRawTexts PageItem where
  rawTexts
    | .declaration d => rawTexts d
    | .margin r => rawTexts r
  names
    | .declaration d => names d
    | .margin r => names r
  properties
    | .declaration d => properties d
    | .margin r => properties r

instance : HasRawTexts PageHead where
  rawTexts h := h.pseudo.toList
  names h := h.name.toList

instance : HasRawTexts ViewportHead where

instance : HasRawTexts Rule where
  rawTexts
    | .style r => rawTexts r
    | .media r => rawTexts r
    | .keyframes r => rawTexts r
    | .fontFace r => rawTexts r
    | .page r => rawTexts r
    | .viewport r => rawTexts r
  names
    | .style r => names r
    | .media r => names r
    | .keyframes r => names r
    | .fontFace r => names r
    | .page r => names r
    | .viewport r => names r
  properties
    | .style r => properties r
    | .media r => properties r
    | .keyframes r => properties r
    | .fontFace r => properties r
    | .page r => properties r
    | .viewport r => properties r

namespace KeptByWriting

variable {P : String → Prop}

theorem valueCss (h : KeptByWriting P) (d : Declaration) (hraw : ∀ text ∈ rawTexts d, P text) :
    P d.valueCss := by
  refine h.arguments d.items ?_
  rw [termsRawTexts_eq_flatMap]
  exact (List.forall_mem_append.mp hraw).2

/-- The places of a keyframe, with commas between them. -/
theorem offsets (h : KeptByWriting P) (k : KeyframeHead) (hraw : ∀ text ∈ rawTexts k, P text) :
    P (", ".intercalate (k.offsets.map Keyframe.offsetCss)) := by
  refine h.intercalate (h.inert (by decide)) fun text htext => ?_
  obtain ⟨t, ht, rfl⟩ := List.mem_map.mp htext
  have hvalue := h.value t.value fun text htext => hraw text (List.mem_flatMap.mpr ⟨t, ht, htext⟩)
  exact h.append (h.operator none) hvalue.alone

theorem mediaQueries (h : KeptByWriting P) (m : MediaHead) (hraw : ∀ text ∈ rawTexts m, P text) :
    P (", ".intercalate (m.queries.map MediaQuery.text)) := by
  refine h.intercalate (h.inert (by decide)) fun text htext => ?_
  obtain ⟨q, hq, rfl⟩ := List.mem_map.mp htext
  exact h.mediaQuery q fun text htext => hraw text (List.mem_flatMap.mpr ⟨q, hq, htext⟩)

theorem marginArea (h : KeptByWriting P) (area : MarginArea) : P area.text := by
  cases area <;> exact h.inert (by decide)

end KeptByWriting

end CssModel
