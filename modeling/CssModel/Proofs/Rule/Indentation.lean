import CssModel.Proofs.Rule.RawText
import CssModel.Proofs.Text.Token

/-!
# Indentation

Each sort of rule writes itself at the depth it is given and hands the next depth to what is in it.
All of them keep to one rule: at any depth the lines are the same, with one tab in front of them for
each level. It depends on the texts that are written as they are, for a line feed in one of them
would begin a line without tabs; what is escaped never has one.

## Parts

Declarations, the blocks inside rules and the rules themselves differ in what stands in front of the
braces and in what is between them, and in nothing else. `SheetPart` takes them together, so that
the layout is said once, and what is true of a part because it is true of the parts inside it is one
induction.

## Main definitions

* `CssModel.Layout.lines`, `CssModel.Layout.IsIndented`: the lines of a text, with tabs in front
* `CssModel.SheetPart`: declarations, rules, and the blocks in rules
* `CssModel.SheetPart.IsLaidOut`: the layout of one part
* `CssModel.HasRawTexts.IsRaw`: a text that is written as it is

## Main results

* `CssModel.Layout.HasLines.block`: a block has the lines of what is in it, one level deeper
* `CssModel.keptByWriting_oneLine`: what is escaped has no line feed
* `CssModel.SheetPart.isLaidOut`, `CssModel.SheetPart.exists_hasLines`
* `CssModel.SheetPart.isIndented_within`
-/

namespace CssModel

/-! ### Lines -/

/-- No line ends inside the text. -/
def OneLine (text : String) : Prop :=
  '\n' ∉ text.toList

instance (text : String) : Decidable (OneLine text) :=
  inferInstanceAs (Decidable (_ ∉ _))

namespace Layout

/-- The lines of a text. What stands behind the last line feed is none. -/
def lines (text : String) : List String :=
  (text.toList.splitOn '\n').dropLast.map String.ofList

/-- A text that is written at some depth has the lines that it has at depth zero, with a tab in
front of them for each level. No line is empty. -/
structure IsIndented (css : Nat → String) : Prop where
  ne_empty : ∀ l ∈ lines (css 0), l ≠ ""
  eq_join : ∀ depth, css depth = String.join ((lines (css 0)).map (line depth))

/-- At every depth the text has these lines, with tabs in front of them. -/
structure HasLines (css : Nat → String) (ls : List String) : Prop where
  ne_empty : ∀ l ∈ ls, l ≠ ""
  oneLine : ∀ l ∈ ls, OneLine l
  eq_join : ∀ depth, css depth = String.join (ls.map (line depth))

theorem line_zero (text : String) : line 0 text = text ++ "\n" :=
  congrArg (· ++ "\n") String.empty_append

/-- A line that is one level deeper is one with a tab in front of it. -/
theorem line_succ (depth : Nat) (text : String) :
    line (depth + 1) text = line depth ("\t" ++ text) := by
  have htab : indent (depth + 1) = indent depth ++ "\t" := by
    rw [indent, List.replicate_succ', String.ofList_append]
    rfl
  simp only [line, htab, String.append_assoc]

/-- **Lines that were put together are told apart again.** -/
theorem lines_join {ls : List String} (h : ∀ l ∈ ls, OneLine l) :
    lines (String.join (ls.map (line 0))) = ls := by
  induction ls with
  | nil => rfl
  | cons l ls ih =>
    obtain ⟨hl, hls⟩ := List.forall_mem_cons.mp h
    have htext : (String.join ((l :: ls).map (line 0))).toList =
        l.toList ++ '\n' :: (String.join (ls.map (line 0))).toList := by
      rw [List.map_cons, String.join_cons, line_zero, String.toList_append, String.toList_append]
      exact List.append_assoc _ ['\n'] _
    rw [lines, htext, List.splitOn_append_cons_self, List.splitOn_eq_singleton hl,
      List.singleton_append, List.dropLast_cons_of_ne_nil (List.splitOn_ne_nil _ _), List.map_cons,
      String.ofList_toList]
    exact congrArg (l :: ·) (ih hls)

namespace HasLines

variable {css next : Nat → String} {ls ms : List String}

theorem isIndented (h : HasLines css ls) : IsIndented css := by
  have hlines : lines (css 0) = ls := by rw [h.eq_join, lines_join h.oneLine]
  constructor
  · rw [hlines]
    exact h.ne_empty
  · rw [hlines]
    exact h.eq_join

theorem line {text : String} (hne : text ≠ "") (h : OneLine text) :
    HasLines (Layout.line · text) [text] where
  ne_empty := List.forall_mem_singleton.mpr hne
  oneLine := List.forall_mem_singleton.mpr h
  eq_join depth := by
    rw [List.map_singleton, String.join_cons, String.join_nil, String.append_empty]

theorem append (h : HasLines css ls) (hnext : HasLines next ms) :
    HasLines (fun depth => css depth ++ next depth) (ls ++ ms) where
  ne_empty := List.forall_mem_append.mpr ⟨h.ne_empty, hnext.ne_empty⟩
  oneLine := List.forall_mem_append.mpr ⟨h.oneLine, hnext.oneLine⟩
  eq_join depth := by rw [List.map_append, String.join_append, ← h.eq_join, ← hnext.eq_join]

/-- One level deeper, all lines have one more tab. -/
theorem deeper (h : HasLines css ls) :
    HasLines (fun depth => css (depth + 1)) (ls.map ("\t" ++ ·)) where
  ne_empty := by simp
  oneLine := by simpa [OneLine] using h.oneLine
  eq_join depth := by
    rw [h.eq_join, List.map_map]
    exact congrArg (fun f => String.join (ls.map f)) (funext (line_succ depth))

section Items

variable {α : Type} {written : Nat → α → String} {items : List α}

theorem join (h : ∀ item ∈ items, ∃ ls, HasLines (written · item) ls) :
    ∃ ls, HasLines (fun depth => String.join (items.map (written depth))) ls := by
  induction items with
  | nil => exact ⟨[], List.forall_mem_nil _, List.forall_mem_nil _, fun _ => rfl⟩
  | cons item rest ih =>
    obtain ⟨⟨ls, hitem⟩, hrest⟩ := List.forall_mem_cons.mp h
    obtain ⟨ms, hjoin⟩ := ih hrest
    exact ⟨ls ++ ms, by simpa only [List.map_cons, String.join_cons] using hitem.append hjoin⟩

/-- **A block has a line on each side of what is in it**, and one more tab in front of that. -/
theorem block {front : String} (hfront : OneLine front)
    (h : ∀ item ∈ items, ∃ ls, HasLines (written · item) ls) :
    ∃ ls, HasLines (fun depth => Layout.block written depth front items) ls := by
  have hopen : HasLines (Layout.line · (front ++ " \x7b")) [front ++ " \x7b"] :=
    line (by simp) (by simpa [OneLine] using hfront)
  have hclose : HasLines (Layout.line · "\x7d") ["\x7d"] := line (by decide) (by decide)
  obtain ⟨ls, hinside⟩ := join h
  exact ⟨_, (hopen.append hinside.deeper).append hclose⟩

end Items

end HasLines

end Layout

/-! ### Texts without line feeds -/

theorem oneLine_append_iff {a b : String} : OneLine (a ++ b) ↔ OneLine a ∧ OneLine b := by
  rw [OneLine, String.toList_append, List.mem_append, not_or]
  rfl

/-- Escapes keep their characters in the line, and so do those that stand as they are. -/
theorem Token.Spells.not_mem_newline {plain : Char → Bool} {text ps : List Char}
    (h : Spells plain text ps) (hplain : plain '\n' = false) : '\n' ∉ ps := by
  have hpiece : ∀ {c : Char} {p : List Char}, Piece plain c p → '\n' ∉ p := by
    intro c p hp
    cases hp with
    | plain hc =>
      rw [List.mem_singleton]
      rintro rfl
      rw [hplain] at hc
      cases hc
    | @codePoint digits _ _ hdigits =>
      have hnot : '\n' ∉ digits := fun hmem => absurd (hdigits _ hmem) (by decide)
      simp [hnot]
    | backslash _ hline =>
      have hnot : c ≠ '\n' := by
        rintro rfl
        cases hline
      simp [hnot.symm]
  induction h with
  | nil => exact List.not_mem_nil
  | cons hp _ ih => exact List.not_mem_append (hpiece hp) ih

/-- **What is escaped stays in one line.** -/
theorem keptByWriting_oneLine : KeptByWriting OneLine where
  inert h := fun hmem => absurd (List.all_eq_true.mp h _ hmem) (by decide)
  append ha hb := oneLine_append_iff.mpr ⟨ha, hb⟩
  opposite := by
    intro text h
    rw [oppositeText]
    split
    · next rest hrest =>
      rw [OneLine, hrest] at h
      rw [OneLine, String.toList_ofList]
      exact fun hmem => h (List.mem_cons_of_mem _ hmem)
    · exact oneLine_append_iff.mpr ⟨by decide, h⟩
  identifier text := by
    rw [OneLine, Escape.identifier, String.toList_ofList]
    exact (Token.spells_identifier .backslash text.toList).not_mem_newline (by decide)
  quoted text := by
    have hinside : OneLine (Escape.string .backslash text) := by
      rw [OneLine, Escape.string, String.toList_ofList]
      exact (Token.spells_string .backslash text.toList).not_mem_newline (by decide)
    exact oneLine_append_iff.mpr ⟨oneLine_append_iff.mpr ⟨by decide, hinside⟩, by decide⟩

/-! ### Parts of style sheets -/

namespace HasRawTexts

section Raw

variable {η α : Type} [HasRawTexts η] [HasRawTexts α] {text : String}

/-- The text is written as it is: as a raw text, as a name or as the name of a property. -/
def IsRaw {β : Type} [HasRawTexts β] (b : β) (text : String) : Prop :=
  text ∈ rawTexts b ∨ text ∈ names b ∨ text ∈ properties b

variable {c : Container η α}

theorem IsRaw.of_header (h : IsRaw c.header text) : IsRaw c text :=
  h.imp (List.mem_append_left _) (Or.imp (List.mem_append_left _) (List.mem_append_left _))

theorem IsRaw.of_item {item : α} (h : IsRaw item text) (hitem : item ∈ c.items) : IsRaw c text := by
  have hmem : ∀ {front : List String} {texts : α → List String}, text ∈ texts item →
      text ∈ front ++ c.items.flatMap texts := fun htext =>
    List.mem_append_right _ (List.mem_flatMap.mpr ⟨item, hitem, htext⟩)
  exact h.imp hmem (Or.imp hmem hmem)

end Raw

end HasRawTexts

open HasRawTexts (IsRaw)

/-- What has a place of its own in a written style sheet. -/
inductive SheetPart
  | declaration (d : Declaration)
  | margin (r : MarginRule)
  | keyframe (k : Keyframe)
  | rule (r : Rule)

instance : HasRawTexts SheetPart where
  rawTexts
    | .declaration d => HasRawTexts.rawTexts d
    | .margin r => HasRawTexts.rawTexts r
    | .keyframe k => HasRawTexts.rawTexts k
    | .rule r => HasRawTexts.rawTexts r
  names
    | .declaration d => HasRawTexts.names d
    | .margin r => HasRawTexts.names r
    | .keyframe k => HasRawTexts.names k
    | .rule r => HasRawTexts.names r
  properties
    | .declaration d => HasRawTexts.properties d
    | .margin r => HasRawTexts.properties r
    | .keyframe k => HasRawTexts.properties k
    | .rule r => HasRawTexts.properties r

namespace SheetPart

/-- The part as it is written. -/
def css (depth : Nat) : SheetPart → String
  | .declaration d => d.css depth
  | .margin r => r.css depth
  | .keyframe k => k.css depth
  | .rule r => r.css depth

def ofPageItem : PageItem → SheetPart
  | .declaration d => .declaration d
  | .margin r => .margin r

/-- The parts directly inside a part, in order. -/
def inside : SheetPart → List SheetPart
  | .declaration _ => []
  | .margin r => r.items.map .declaration
  | .keyframe k => k.items.map .declaration
  | .rule (.style r) => r.items.map .declaration
  | .rule (.media r) => r.items.map fun s => .rule (.style s)
  | .rule (.keyframes r) => r.items.map .keyframe
  | .rule (.fontFace r) => r.items.map .declaration
  | .rule (.page r) => r.items.map ofPageItem
  | .rule (.viewport r) => r.items.map .declaration

/-- The parts so many levels inside a part. -/
def within : Nat → SheetPart → List SheetPart
  | 0, p => [p]
  | level + 1, p => p.inside.flatMap (within level)

/-- What stands in front of the braces of a part; a declaration has nothing else. -/
def head : SheetPart → String
  | .declaration d =>
    d.header.property ++ ": " ++ d.valueCss ++ (if d.header.important then " !important" else "") ++
      ";"
  | .margin r => "@" ++ r.header.area.text
  | .keyframe k => ", ".intercalate (k.header.offsets.map Keyframe.offsetCss)
  | .rule (.style r) => ComplexSelector.listCss r.header.selectors
  | .rule (.media r) => "@media " ++ ", ".intercalate (r.header.queries.map MediaQuery.text)
  | .rule (.keyframes r) => "@keyframes " ++ r.header.name
  | .rule (.fontFace _) => "@font-face"
  | .rule (.page r) => "@page" ++ PageRule.selectorText r.header
  | .rule (.viewport _) => "@viewport"

/-- A declaration is one line; every other part is a block of the parts inside it, each as it is
written one level deeper. -/
def IsLaidOut (p : SheetPart) : Prop :=
  (∃ d, p = .declaration d ∧ ∀ depth, p.css depth = Layout.line depth p.head) ∨
    ∀ depth, p.css depth = Layout.block css depth p.head p.inside

/-- A block of items is the block of the parts that they are. -/
theorem block_map {α : Type} (part : α → SheetPart) (depth : Nat) (front : String)
    (items : List α) : Layout.block css depth front (items.map part) =
      Layout.block (fun depth item => (part item).css depth) depth front items := by
  rw [Layout.block, List.map_map]
  rfl

theorem isLaidOut (p : SheetPart) : p.IsLaidOut := by
  cases p with
  | declaration d => exact .inl ⟨d, rfl, fun _ => rfl⟩
  | margin r => exact .inr fun depth => (block_map .declaration depth _ r.items).symm
  | keyframe k => exact .inr fun depth => (block_map .declaration depth _ k.items).symm
  | rule r =>
    cases r with
    | style r => exact .inr fun depth => (block_map .declaration depth _ r.items).symm
    | media r =>
      exact .inr fun depth => (block_map (fun s => .rule (.style s)) depth _ r.items).symm
    | keyframes r => exact .inr fun depth => (block_map .keyframe depth _ r.items).symm
    | fontFace r => exact .inr fun depth => (block_map .declaration depth _ r.items).symm
    | page r =>
      have hitem : (fun depth item => (ofPageItem item).css depth) = PageItem.css := by
        funext depth item
        cases item <;> rfl
      refine .inr fun depth => Eq.symm ?_
      rw [inside, block_map, hitem]
      rfl
    | viewport r => exact .inr fun depth => (block_map .declaration depth _ r.items).symm

/-- What is true of a part if it is true of the parts inside it is true of all parts. -/
theorem induction {motive : SheetPart → Prop} (h : ∀ p, (∀ q ∈ p.inside, motive q) → motive p)
    (p : SheetPart) : motive p := by
  have hmap : ∀ {α : Type} {part : α → SheetPart} {items : List α}, (∀ item, motive (part item)) →
      ∀ q ∈ items.map part, motive q := fun hpart =>
    List.forall_mem_map.mpr fun item _ => hpart item
  have hdeclaration : ∀ d, motive (.declaration d) := fun d => h _ (List.forall_mem_nil _)
  have hmargin : ∀ r, motive (.margin r) := fun r => h _ (hmap hdeclaration)
  have hkeyframe : ∀ k, motive (.keyframe k) := fun k => h _ (hmap hdeclaration)
  have hstyle : ∀ r, motive (.rule (.style r)) := fun r => h _ (hmap hdeclaration)
  have hpageItem : ∀ item, motive (ofPageItem item) := by
    rintro (d | r)
    · exact hdeclaration d
    · exact hmargin r
  cases p with
  | declaration d => exact hdeclaration d
  | margin r => exact hmargin r
  | keyframe k => exact hkeyframe k
  | rule r =>
    cases r with
    | style r => exact hstyle r
    | media r => exact h _ (hmap hstyle)
    | keyframes r => exact h _ (hmap hkeyframe)
    | fontFace r => exact h _ (hmap hdeclaration)
    | page r => exact h _ (hmap hpageItem)
    | viewport r => exact h _ (hmap hdeclaration)

theorem isRaw_of_items {η α : Type} [HasRawTexts η] [HasRawTexts α] {c : Container η α}
    {part : α → SheetPart} {q : SheetPart} {text : String}
    (hpart : ∀ item, IsRaw (part item) text → IsRaw item text) (hq : q ∈ c.items.map part)
    (h : IsRaw q text) : IsRaw c text := by
  obtain ⟨item, hitem, rfl⟩ := List.mem_map.mp hq
  exact (hpart item h).of_item hitem

theorem isRaw_of_inside {p q : SheetPart} {text : String} (hq : q ∈ p.inside)
    (h : IsRaw q text) : IsRaw p text := by
  cases p with
  | declaration d => exact absurd hq List.not_mem_nil
  | margin r => exact isRaw_of_items (c := r) (fun _ => id) hq h
  | keyframe k => exact isRaw_of_items (c := k) (fun _ => id) hq h
  | rule r =>
    cases r with
    | style r => exact isRaw_of_items (c := r) (fun _ => id) hq h
    | media r => exact isRaw_of_items (c := r) (fun _ => id) hq h
    | keyframes r => exact isRaw_of_items (c := r) (fun _ => id) hq h
    | fontFace r => exact isRaw_of_items (c := r) (fun _ => id) hq h
    | page r =>
      refine isRaw_of_items (c := r) (fun item hitem => ?_) hq h
      cases item with
      | declaration d => exact hitem
      | margin r => exact hitem
    | viewport r => exact isRaw_of_items (c := r) (fun _ => id) hq h

/-! ### Every part -/

/-- What stands in front of the braces is one line, as the names in it are. -/
theorem oneLine_selectorText {h : PageHead} (hraw : ∀ text, IsRaw h text → OneLine text) :
    OneLine (PageRule.selectorText h) := by
  obtain ⟨name, pseudo, link⟩ := h
  have hname : ∀ text, name = some text → OneLine text := by
    rintro text rfl
    exact hraw text (.inr (.inl (List.mem_singleton.mpr rfl)))
  have hpseudo : ∀ text, pseudo = some text → OneLine text := by
    rintro text rfl
    exact hraw text (.inl (List.mem_singleton.mpr rfl))
  rw [PageRule.selectorText]
  rcases name with _ | name <;> rcases pseudo with _ | pseudo
  · exact keptByWriting_oneLine.empty
  · exact oneLine_append_iff.mpr ⟨by decide, hpseudo pseudo rfl⟩
  · exact oneLine_append_iff.mpr ⟨by decide, hname name rfl⟩
  · have hboth : OneLine (" " ++ name) := oneLine_append_iff.mpr ⟨by decide, hname name rfl⟩
    exact keptByWriting_oneLine.append (keptByWriting_oneLine.append hboth (by decide))
      (hpseudo pseudo rfl)

theorem oneLine_head {p : SheetPart} (h : ∀ text, IsRaw p text → OneLine text) :
    OneLine p.head := by
  have hkept := keptByWriting_oneLine
  cases p with
  | declaration d =>
    have hproperty : OneLine d.header.property :=
      h d.header.property (.inr (.inr (by simp [HasRawTexts.properties])))
    have hvalue : OneLine d.valueCss := hkept.valueCss d fun text htext => h text (.inl htext)
    have hweight : OneLine (if d.header.important then " !important" else "") := by
      split <;> decide
    simpa only [head, oneLine_append_iff] using
      ⟨⟨⟨⟨hproperty, by decide⟩, hvalue⟩, hweight⟩, by decide⟩
  | margin r => exact hkept.append (by decide) (hkept.marginArea r.header.area)
  | keyframe k =>
    exact hkept.offsets k.header fun text htext => h text (.inl (List.mem_append_left _ htext))
  | rule r =>
    cases r with
    | style r =>
      exact hkept.selectors fun text htext => h text (.inl (List.mem_append_left _ htext))
    | media r =>
      exact hkept.append (by decide)
        (hkept.mediaQueries r.header fun text htext => h text (.inl (List.mem_append_left _ htext)))
    | keyframes r =>
      exact hkept.append (by decide) (h r.header.name (.inr (.inl List.mem_cons_self)))
    | fontFace r =>
      have hfront : OneLine "@font-face" := by decide
      exact hfront
    | page r =>
      have hheader : ∀ text, IsRaw r.header text → OneLine text := fun text htext =>
        h text (IsRaw.of_header (c := r) htext)
      exact hkept.append (by decide) (oneLine_selectorText hheader)
    | viewport r =>
      have hfront : OneLine "@viewport" := by decide
      exact hfront

theorem head_declaration_ne (d : Declaration) : (SheetPart.declaration d).head ≠ "" := by
  simp [head]

/-- **Every part is written line by line**, from the innermost parts outwards. -/
theorem exists_hasLines (p : SheetPart) :
    (∀ text, IsRaw p text → OneLine text) → ∃ ls, Layout.HasLines p.css ls := by
  induction p using SheetPart.induction with
  | h p ih =>
    intro h
    have hinside : ∀ q ∈ p.inside, ∃ ls, Layout.HasLines q.css ls := fun q hq =>
      ih q hq fun text htext => h text (isRaw_of_inside hq htext)
    obtain ⟨d, rfl, hline⟩ | hblock := p.isLaidOut
    · rw [funext hline]
      exact ⟨_, .line (head_declaration_ne d) (oneLine_head h)⟩
    · rw [funext hblock]
      exact Layout.HasLines.block (oneLine_head h) hinside

/-- A part some levels inside another is written with so many more tabs in front. -/
theorem exists_css_eq_append {level : Nat} {p q : SheetPart} (hq : q ∈ p.within level) :
    ∀ depth, ∃ before after, p.css depth = before ++ q.css (depth + level) ++ after := by
  induction level generalizing p with
  | zero =>
    obtain rfl : q = p := List.mem_singleton.mp hq
    exact fun depth => ⟨"", "", by simp⟩
  | succ level ih =>
    obtain ⟨inner, hinner, hq⟩ := List.mem_flatMap.mp hq
    intro depth
    obtain ⟨before, after, hcss⟩ := ih hq (depth + 1)
    obtain ⟨d, rfl, -⟩ | hblock := p.isLaidOut
    · exact absurd hinner List.not_mem_nil
    · obtain ⟨front, back, hparts⟩ := List.append_of_mem hinner
      have hdepth : depth + (level + 1) = depth + 1 + level := by omega
      refine ⟨Layout.line depth (p.head ++ " \x7b") ++
        (String.join (front.map (css (depth + 1))) ++ before),
        after ++ (String.join (back.map (css (depth + 1))) ++ Layout.line depth "\x7d"), ?_⟩
      rw [hblock, Layout.block, hparts, List.map_append, List.map_cons, String.join_append,
        String.join_cons, hcss, hdepth]
      simp only [String.append_assoc]

theorem isRaw_of_within {level : Nat} {p q : SheetPart} {text : String} (hq : q ∈ p.within level)
    (h : IsRaw q text) : IsRaw p text := by
  induction level generalizing p with
  | zero =>
    obtain rfl : q = p := List.mem_singleton.mp hq
    exact h
  | succ level ih =>
    obtain ⟨inner, hinner, hq⟩ := List.mem_flatMap.mp hq
    exact isRaw_of_inside hinner (ih hq)

/-- **Indentation is uniform.** Let no text that a rule, or a part of one, writes as it is have a
line feed. Then it and all parts inside it, on every level, have the same lines at any depth, with a
tab in front of them for each level. A part is one line or a block of the parts inside it, each as
it is written one level deeper, so that one which lies several levels inside another is written in
it as many levels deeper. A style sheet is its rules at depth zero, one after the other. -/
theorem isIndented_within :
    (∀ p : SheetPart, (∀ text, IsRaw p text → OneLine text) → ∀ level, ∀ q ∈ p.within level,
      Layout.IsIndented q.css ∧ q.IsLaidOut ∧
        ∀ depth, ∃ before after, p.css depth = before ++ q.css (depth + level) ++ after) ∧
    ∀ s : StyleSheet, s.css = String.join (s.items.map fun r => (SheetPart.rule r).css 0) := by
  refine ⟨fun p h level q hq => ⟨?_, q.isLaidOut, exists_css_eq_append hq⟩, fun s => rfl⟩
  obtain ⟨ls, hlines⟩ := q.exists_hasLines fun text htext => h text (isRaw_of_within hq htext)
  exact hlines.isIndented

/-- A declaration for a box around the first page lies two levels inside the rule. -/
theorem isIndented_within_page :
    let d : Declaration := .empty ⟨"margin", true⟩
    let r : MarginRule := ⟨⟨.topLeft⟩, [d], none⟩
    let p := SheetPart.rule (.page ⟨⟨some "cover", some "first", none⟩, [.margin r], none⟩)
    (∀ text, IsRaw p text → OneLine text) ∧ Layout.IsIndented p.css ∧
      d.css 3 = "\t\t\tmargin:  !important;\n" ∧
        ∃ before after, p.css 1 = before ++ d.css 3 ++ after := by
  intro d r p
  have hraw : ∀ text, IsRaw p text → OneLine text := by
    rintro text (htext | htext | htext)
    all_goals
      obtain rfl := List.mem_singleton.mp htext
      decide
  have hpart := isIndented_within.1 p hraw
  have hlevel : p.within 2 = [.declaration d] := rfl
  have hinside := hpart 2 (.declaration d) (hlevel ▸ List.mem_singleton.mpr rfl)
  exact ⟨hraw, (hpart 0 p (List.mem_singleton.mpr rfl)).1, by decide, hinside.2.2 1⟩

end SheetPart

end CssModel
