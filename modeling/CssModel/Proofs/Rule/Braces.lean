import CssModel.Proofs.Rule.RawText
import CssModel.Proofs.Text.Braces
import Mathlib

/-!
# Rules as blocks

A rule should be one block: from its opening brace on the depth is above zero, and it is zero again
behind the closing brace, which is the last. What is inside should be for the values and selectors
in the rule to fill, not for the texts in them to change.

Everything that is escaped keeps to this. The names of animations and pages and the names of
properties are not escaped, so it is up to them. A name at the head of a rule must have no brace
that counts and must close its strings; a property name may have braces, in pairs. Nothing less will
do: a rule with no other content shows each name that breaks it. A page called by the closing brace
alone is the simplest.

## Main definitions

* `CssModel.Braces.Tame`: the texts that leave a rule as one block

## Main results

* `CssModel.Rule.closesOnce_of_tame`, `CssModel.Rule.closesOnce_of_escaped`
* `CssModel.Rule.closesOnce_iff_quiet_and_contained`: which names leave every rule as one block
-/

namespace CssModel

namespace Braces

open HasRawTexts (rawTexts names properties)

/-! ### What is put together -/

theorem harmless_of_all {text : String} (h : text.toList.all isHarmless = true) : Harmless text :=
  List.all_eq_true.mp h

/-- **What is escaped never matters to the structure.** -/
theorem keptByWriting_neutral : KeptByWriting Neutral where
  inert h := by
    refine Harmless.neutral fun c hc => ?_
    have hinert := List.all_eq_true.mp h c hc
    exact isHarmless_of (p := isInert) (by decide) hinert
  append := Neutral.append
  opposite := neutral_oppositeText
  identifier := neutral_identifier .backslash
  quoted := neutral_quoted .backslash

theorem neutral_indent (depth : Nat) : Neutral (Layout.indent depth) := by
  refine Harmless.neutral fun c hc => ?_
  rw [Layout.indent, String.toList_ofList] at hc
  rw [List.eq_of_mem_replicate hc]
  decide

/-! ### Blocks -/

section Blocks

variable {α : Type} {written : Nat → α → String} {depth : Nat} {front : String} {items : List α}

theorem toList_block : (Layout.block written depth front items).toList =
    (Layout.indent depth ++ (front ++ " ")).toList ++ opening ::
      (("\n" ++ String.join (items.map (written (depth + 1))) ++ Layout.indent depth).toList ++
        [closing, '\n']) := by
  have hopen : " \x7b".toList = " ".toList ++ [opening] := rfl
  have hclose : "\x7d".toList = [closing] := rfl
  have hline : "\n".toList = ['\n'] := rfl
  simp only [Layout.block, Layout.line, String.toList_append, hopen, hclose, hline,
    List.append_assoc, List.cons_append, List.nil_append]

/-- What stands in front of the last brace of a block. -/
theorem before_block (hfront : Quiet front)
    (hitems : ∀ item ∈ items, Even (written (depth + 1) item)) :
    ∃ before inside, (Layout.block written depth front items).toList = before ++ [closing, '\n'] ∧
      Mode.outside.after before = .outside ∧ braces .outside before = opening :: inside ∧
        Paired inside := by
  have hopened : Neutral (Layout.indent depth ++ (front ++ " ")) :=
    (neutral_indent depth).append
      (hfront.append_harmless (harmless_of_all (by decide)) (by decide))
  have hjoin : Even (String.join (items.map (written (depth + 1)))) := by
    refine even_join fun text htext => ?_
    obtain ⟨item, hitem, rfl⟩ := List.mem_map.mp htext
    exact hitems item hitem
  have hline : Even "\n" := (harmless_of_all (by decide)).neutral.even
  have hinside := (hline.append hjoin).append (neutral_indent depth).even
  have hnext : Mode.outside.next opening = .outside := rfl
  refine ⟨_, _, toList_block.trans (List.append_assoc _ (opening :: _) _).symm, ?_, ?_,
    hinside.braces⟩
  · rw [after_append, hopened.after, after_cons, hnext, hinside.after]
  · rw [braces_append, hopened.braces, hopened.after, List.nil_append, braces, hnext]
    exact if_pos ⟨rfl, by decide⟩

/-- **A block closes once**, if nothing in it reaches out of it. -/
theorem closesOnce_block (hfront : Quiet front)
    (hitems : ∀ item ∈ items, Even (written (depth + 1) item)) :
    ClosesOnce (Layout.block written depth front items) := by
  obtain ⟨before, inside, htext, hafter, hbraces, hinside⟩ := before_block hfront hitems
  refine (closesOnce_iff htext).mpr ⟨hafter, ?_, ?_⟩
  · rw [hbraces, List.foldl_cons, hinside.foldl_step]
    rfl
  · rw [hbraces, depths]
    refine List.forall_mem_cons.mpr ⟨by decide, fun e he => ?_⟩
    exact lt_of_lt_of_le (by decide) (hinside.le_of_mem_depths he)

/-- Seen from outside, a block is a pair of braces. -/
theorem even_block (hfront : Quiet front)
    (hitems : ∀ item ∈ items, Even (written (depth + 1) item)) :
    Even (Layout.block written depth front items) := by
  obtain ⟨before, inside, htext, hafter, hbraces, hinside⟩ := before_block hfront hitems
  have hclosing : braces .outside [closing, '\n'] = [closing] := by decide
  constructor
  · rw [htext, after_append, hafter]
    rfl
  · rw [htext, braces_append, hafter, hbraces, hclosing, List.cons_append]
    exact hinside.enclosed

end Blocks

/-! ### Rules and their parts -/

/-- The raw texts have no means to change the structure; names of animations and pages have no
brace that counts, and names of properties have them in pairs. -/
structure Tame {α : Type} [HasRawTexts α] (a : α) : Prop where
  rawTexts : ∀ text ∈ rawTexts a, Harmless text
  names : ∀ text ∈ names a, Quiet text
  properties : ∀ text ∈ properties a, Contained text

theorem Tame.neutral {α : Type} [HasRawTexts α] {a : α} (h : Tame a) :
    ∀ text ∈ HasRawTexts.rawTexts a, Neutral text :=
  fun text htext => (h.rawTexts text htext).neutral

section Containers

variable {η α : Type} [HasRawTexts η] [HasRawTexts α] {c : Container η α}

theorem Tame.header (h : Tame c) : Tame c.header where
  rawTexts text htext := h.rawTexts text (List.mem_append_left _ htext)
  names text htext := h.names text (List.mem_append_left _ htext)
  properties text htext := h.properties text (List.mem_append_left _ htext)

theorem Tame.item (h : Tame c) {item : α} (hitem : item ∈ c.items) : Tame item where
  rawTexts text htext :=
    h.rawTexts text (List.mem_append_right _ (List.mem_flatMap.mpr ⟨item, hitem, htext⟩))
  names text htext :=
    h.names text (List.mem_append_right _ (List.mem_flatMap.mpr ⟨item, hitem, htext⟩))
  properties text htext :=
    h.properties text (List.mem_append_right _ (List.mem_flatMap.mpr ⟨item, hitem, htext⟩))

end Containers

theorem even_declaration {d : Declaration} (h : Tame d) (depth : Nat) : Even (d.css depth) := by
  have hproperty : Even (d.header.property ++ ": ") :=
    (h.properties d.header.property (by simp [HasRawTexts.properties])).append_harmless
      (harmless_of_all (by decide)) (by decide)
  have hvalue : Neutral d.valueCss := keptByWriting_neutral.valueCss d h.neutral
  have hweight : Neutral (if d.header.important then " !important" else "") := by
    split
    · exact keptByWriting_neutral.inert (by decide)
    · exact keptByWriting_neutral.empty
  have hend : Neutral ";" := keptByWriting_neutral.inert (by decide)
  have hline : Neutral "\n" := (harmless_of_all (by decide)).neutral
  have htext : Even (d.header.property ++ ": " ++ d.valueCss ++
      (if d.header.important then " !important" else "") ++ ";") :=
    ((hproperty.append hvalue.even).append hweight.even).append hend.even
  exact ((neutral_indent depth).even.append htext).append hline.even

theorem quiet_selectors {h : StyleHead} (htame : Tame h) :
    Quiet (ComplexSelector.listCss h.selectors) :=
  (keptByWriting_neutral.selectors htame.neutral).quiet

theorem quiet_queries {h : MediaHead} (htame : Tame h) :
    Quiet ("@media " ++ ", ".intercalate (h.queries.map MediaQuery.text)) :=
  (Neutral.append (keptByWriting_neutral.inert (by decide))
    (keptByWriting_neutral.mediaQueries h htame.neutral)).quiet

theorem quiet_keyframes {h : KeyframesHead} (htame : Tame h) : Quiet ("@keyframes " ++ h.name) :=
  Neutral.append_quiet (keptByWriting_neutral.inert (by decide))
    (htame.names h.name (List.mem_singleton.mpr rfl))

theorem quiet_margin (h : MarginHead) : Quiet ("@" ++ h.area.text) :=
  (Neutral.append (keptByWriting_neutral.inert (by decide))
    (keptByWriting_neutral.marginArea h.area)).quiet

theorem quiet_page {h : PageHead} (htame : Tame h) :
    Quiet ("@page" ++ PageRule.selectorText h) := by
  have hspace : Neutral " " := keptByWriting_neutral.inert (by decide)
  have hcolon : Neutral " :" := keptByWriting_neutral.inert (by decide)
  refine Neutral.append_quiet (keptByWriting_neutral.inert (by decide)) ?_
  obtain ⟨name, pseudo, link⟩ := h
  have hname : ∀ text, name = some text → Quiet (" " ++ text) := by
    rintro text rfl
    exact hspace.append_quiet (htame.names text (List.mem_singleton.mpr rfl))
  have hpseudo : ∀ text, pseudo = some text → Neutral text := by
    rintro text rfl
    exact htame.neutral text (List.mem_singleton.mpr rfl)
  rw [PageRule.selectorText]
  rcases name with _ | name <;> rcases pseudo with _ | pseudo
  · exact keptByWriting_neutral.empty.quiet
  · exact (hcolon.append (hpseudo pseudo rfl)).quiet
  · exact hname name rfl
  · have hboth : Neutral (" " ++ name ++ ":") :=
      (hname name rfl).append_harmless (harmless_of_all (by decide)) (by decide)
    exact (hboth.append (hpseudo pseudo rfl)).quiet

theorem even_style {r : StyleRule} (h : Tame r) (depth : Nat) : Even (r.css depth) :=
  even_block (quiet_selectors h.header) fun _ hd => even_declaration (h.item hd) _

theorem even_keyframe {k : Keyframe} (h : Tame k) (depth : Nat) : Even (k.css depth) :=
  even_block (keptByWriting_neutral.offsets k.header h.header.neutral).quiet
    fun _ hd => even_declaration (h.item hd) _

theorem even_margin {r : MarginRule} (h : Tame r) (depth : Nat) : Even (r.css depth) :=
  even_block (quiet_margin r.header) fun _ hd => even_declaration (h.item hd) _

theorem even_pageItem {item : PageItem} (h : Tame item) (depth : Nat) : Even (item.css depth) := by
  cases item with
  | declaration d => exact even_declaration ⟨h.rawTexts, h.names, h.properties⟩ depth
  | margin r => exact even_margin ⟨h.rawTexts, h.names, h.properties⟩ depth

end Braces

/-! ### Every rule -/

open Braces HasRawTexts

/-- **A rule is one block**, if the texts in it that are not escaped allow it. -/
theorem Rule.closesOnce_of_tame {r : Rule} (h : Tame r) (depth : Nat) :
    ClosesOnce (r.css depth) := by
  obtain ⟨hraw, hnames, hproperties⟩ := h
  cases r with
  | style r =>
    have h : Tame r := ⟨hraw, hnames, hproperties⟩
    exact closesOnce_block (quiet_selectors h.header) fun _ hd => even_declaration (h.item hd) _
  | media r =>
    have h : Tame r := ⟨hraw, hnames, hproperties⟩
    exact closesOnce_block (quiet_queries h.header) fun _ hs => even_style (h.item hs) _
  | keyframes r =>
    have h : Tame r := ⟨hraw, hnames, hproperties⟩
    exact closesOnce_block (quiet_keyframes h.header) fun _ hk => even_keyframe (h.item hk) _
  | fontFace r =>
    have h : Tame r := ⟨hraw, hnames, hproperties⟩
    exact closesOnce_block (keptByWriting_neutral.inert (by decide)).quiet
      fun _ hd => even_declaration (h.item hd) _
  | page r =>
    have h : Tame r := ⟨hraw, hnames, hproperties⟩
    exact closesOnce_block (quiet_page h.header) fun _ hi => even_pageItem (h.item hi) _
  | viewport r =>
    have h : Tame r := ⟨hraw, hnames, hproperties⟩
    exact closesOnce_block (keptByWriting_neutral.inert (by decide)).quiet
      fun _ hd => even_declaration (h.item hd) _

/-- Names that are escaped before they are stored break no rule, whatever they were. -/
theorem Rule.closesOnce_of_escaped {r : Rule} (hraw : ∀ text ∈ rawTexts r, Harmless text)
    (hnames : ∀ text ∈ names r, ∃ name, text = Escape.identifier .backslash name)
    (hproperties : ∀ text ∈ properties r, ∃ name, text = Escape.identifier .backslash name)
    (depth : Nat) : ClosesOnce (r.css depth) := by
  refine closesOnce_of_tame ⟨hraw, fun text htext => ?_, fun text htext => ?_⟩ depth
  · obtain ⟨name, rfl⟩ := hnames text htext
    exact (neutral_identifier .backslash name).quiet
  · obtain ⟨name, rfl⟩ := hproperties text htext
    exact (neutral_identifier .backslash name).quiet.contained

/-! ### Names that break a rule -/

namespace Braces

/-- Between a text and the end of a rule nothing closes a string. -/
theorem quote_eq_none_of_after {front text back : String}
    (hfront : Mode.outside.after front.toList = .outside)
    (hback : back.toList.all (fun c => ! (isQuote c || c == '\\')) = true)
    (h : Mode.outside.after (front ++ text ++ back).toList = .outside) :
    (Mode.outside.after text.toList).quote = none := by
  rw [String.toList_append, String.toList_append, after_append, after_append, hfront] at h
  have hplain : ∀ c ∈ back.toList, isQuote c = false ∧ c ≠ '\\' := by
    intro c hc
    simpa using List.all_eq_true.mp hback c hc
  rw [← (sound_after text.toList).quote_after hplain, h]
  rfl

/-- An animation without keyframes is one block only if its name has no brace that counts. -/
theorem quiet_of_closesOnce {name : String}
    (h : ClosesOnce (KeyframesRule.css 0 (.empty ⟨name, none⟩))) : Quiet name := by
  have htext : (KeyframesRule.css 0 (.empty ⟨name, none⟩)).toList =
      ("@keyframes " ++ name ++ " \x7b\n").toList ++ [closing, '\n'] := by
    simp [KeyframesRule.css, Layout.block, Layout.line, Layout.indent, Container.empty, closing]
  obtain ⟨hafter, hone, hpos⟩ := (closesOnce_iff htext).mp h
  have hfront : Neutral "@keyframes " := keptByWriting_neutral.inert (by decide)
  have hquote := quote_eq_none_of_after hfront.after (by decide) hafter
  have hback : braces (Mode.outside.after name.toList) " \x7b\n".toList = [opening] := by
    rcases hmode : Mode.outside.after name.toList with ⟨quote, escaped⟩
    rw [hmode] at hquote
    cases hquote
    cases escaped <;> decide
  have hbraces : braces .outside ("@keyframes " ++ name ++ " \x7b\n").toList =
      braces .outside name.toList ++ [opening] := by
    rw [String.toList_append, String.toList_append, braces_append, braces_append, hfront.braces,
      after_append, hfront.after, hback, List.nil_append]
  rw [hbraces, List.foldl_append, List.foldl_cons, List.foldl_nil, step_opening] at hone
  rw [hbraces, depths_append, List.forall_mem_append] at hpos
  refine ⟨hquote, ?_⟩
  -- the rule ends at depth one before its last brace, so the name would end at depth zero
  by_contra hne
  have hlast := hpos.1 _ (foldl_step_mem_depths hne 0)
  omega

/-- A property without a value is written in one block only if its name has its braces in pairs. -/
theorem contained_of_closesOnce {property : String}
    (h : ClosesOnce (ViewportRule.css 0 ⟨⟨none⟩, [.empty ⟨property, false⟩], none⟩)) :
    Contained property := by
  have htext : (ViewportRule.css 0 ⟨⟨none⟩, [.empty ⟨property, false⟩], none⟩).toList =
      ("@viewport \x7b\n\t" ++ property ++ ": ;\n").toList ++ [closing, '\n'] := by
    simp [ViewportRule.css, Declaration.css, Declaration.valueCss, argumentsCss, Layout.block,
      Layout.line, Layout.indent, Container.empty, closing]
  obtain ⟨hafter, hone, hpos⟩ := (closesOnce_iff htext).mp h
  have hfront : Mode.outside.after "@viewport \x7b\n\t".toList = .outside := by decide
  have hopening : braces .outside "@viewport \x7b\n\t".toList = [opening] := by decide
  have hquote := quote_eq_none_of_after hfront (by decide) hafter
  have hharmless : Harmless ": ;\n" := harmless_of_all (by decide)
  have hback : braces (Mode.outside.after property.toList) ": ;\n".toList = [] :=
    (hharmless.leaves_escape hquote (by decide)).2
  have hbraces : braces .outside ("@viewport \x7b\n\t" ++ property ++ ": ;\n").toList =
      opening :: braces .outside property.toList := by
    rw [String.toList_append, String.toList_append, braces_append, braces_append, hopening,
      after_append, hfront, hback, List.append_nil]
    rfl
  rw [hbraces, List.foldl_cons, step_opening] at hone
  rw [hbraces, depths, step_opening] at hpos
  refine ⟨hquote, paired_of_depth hone fun e he => ?_⟩
  have := hpos e (List.mem_cons_of_mem _ he)
  omega

end Braces

/-- **Which names leave every rule as one block.** Let the raw texts other than names have no
brace, no quote and no backslash, and the names be chosen freely among those that are allowed. Then
the depth is above zero from the opening brace to the last, and zero behind it, in every rule and at
every depth of nesting, exactly if the names of animations and pages that are allowed have no brace
that counts, the names of properties have their braces in pairs, and all of them close their
strings. -/
theorem Rule.closesOnce_iff_quiet_and_contained (name property : String → Prop) :
    (∀ (r : Rule) (depth : Nat), (∀ text ∈ rawTexts r, Harmless text) →
      (∀ text ∈ names r, name text) → (∀ text ∈ properties r, property text) →
        ClosesOnce (r.css depth)) ↔
      (∀ text, name text → Quiet text) ∧ ∀ text, property text → Contained text := by
  constructor
  · intro h
    refine ⟨fun text htext => quiet_of_closesOnce ?_, fun text htext => contained_of_closesOnce ?_⟩
    · refine h (.keyframes (.empty ⟨text, none⟩)) 0 (fun _ hraw => nomatch hraw) ?_
        (fun _ hproperty => nomatch hproperty)
      exact List.forall_mem_singleton.mpr htext
    · refine h (.viewport ⟨⟨none⟩, [.empty ⟨text, false⟩], none⟩) 0 (fun _ hraw => nomatch hraw)
        (fun _ hname => nomatch hname) ?_
      exact List.forall_mem_singleton.mpr htext
  · rintro ⟨hname, hproperty⟩ r depth hraw hnames hproperties
    exact r.closesOnce_of_tame ⟨hraw, fun text htext => hname text (hnames text htext),
      fun text htext => hproperty text (hproperties text htext)⟩ depth

/-- The page called by the closing brace has no raw text besides that name. The brace is the first
of the rule, and takes the depth below zero. -/
theorem Rule.not_closesOnce_page_closing :
    let r := Rule.page (PageRule.make (some "\x7d") none)
    rawTexts r = [] ∧ names r = ["\x7d"] ∧ properties r = [] ∧
      r.css 0 = "@page \x7d \x7b\n\x7d\n" ∧ ¬ ClosesOnce (r.css 0) := by
  intro r
  have hcss : r.css 0 = "@page \x7d \x7b\n\x7d\n" := by decide
  have htext : (r.css 0).toList = "@page \x7d \x7b\n".toList ++ [closing, '\n'] := by
    rw [hcss]
    decide
  refine ⟨rfl, rfl, rfl, hcss, fun h => ?_⟩
  obtain ⟨-, -, hpos⟩ := (closesOnce_iff htext).mp h
  have hdepths : depths 0 (braces .outside "@page \x7d \x7b\n".toList) = [-1, 0] := by decide
  rw [hdepths] at hpos
  exact absurd (hpos (-1) List.mem_cons_self) (by decide)

end CssModel
