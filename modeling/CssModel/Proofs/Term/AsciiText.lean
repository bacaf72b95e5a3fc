import CssModel.Proofs.Term.Construction
import CssModel.Proofs.Term.RawText
import CssModel.Proofs.Text.Ascii

/-!
# Terms within ASCII

At the hexadecimal level every text in a term is escaped with nothing but ASCII, wherever it stands,
unless it has a null character. The one text that is not escaped is a range of code points.

Expressions do not know the level. They are written at the plain level, which leaves characters
beyond ASCII as they are, and nothing is lost by it, since no text can get into an expression: it
holds numbers and expressions only. This is so for an expression that is not valid too, which is
written entry by entry.

## Main definitions

* `CssModel.Value.texts`: the texts in a value that are escaped
* `CssModel.Value.Textless`: values that are written without any text

## Main results

* `CssModel.keptByJoining_isAscii`
* `CssModel.Term.Made.textless_of_isOperand`, `CssModel.Value.textless_expression`: expressions
* `CssModel.Value.isAscii_written_iff`, `CssModel.Term.Built.isAscii_css_iff`
-/

namespace CssModel

/-! ### The texts in a term -/

mutual

/-- The texts in a value that are escaped when it is written. -/
def Value.texts : Value → List String
  | .string text => [text]
  | .ident name => [name]
  | .uri u => [u.reference]
  | .call ⟨name, args, _⟩ => name :: termsTexts args
  | .list terms => termsTexts terms
  | .pair key ⟨_, v⟩ => key :: v.texts
  | .brackets names => names
  | .calc ⟨items, _, _, _⟩ => entryTexts items
  | _ => []

def termsTexts : List (Joined Value) → List String
  | [] => []
  | ⟨_, v⟩ :: rest => v.texts ++ termsTexts rest

def entryTexts : List (ExpressionItem (Joined Value)) → List String
  | [] => []
  | .operand ⟨_, v⟩ :: rest => v.texts ++ entryTexts rest
  | .operator _ :: rest => entryTexts rest

end

/-- Texts that are collected from the operands of an expression. -/
theorem collected_eq_nil {texts : Value → List String}
    {collect : List (ExpressionItem Term) → List String} (hnil : collect [] = [])
    (hoperand : ∀ t rest, collect (.operand t :: rest) = texts t.value ++ collect rest)
    (hoperator : ∀ op rest, collect (.operator op :: rest) = collect rest)
    {items : List (ExpressionItem Term)} (h : ∀ t, .operand t ∈ items → texts t.value = []) :
    collect items = [] := by
  induction items with
  | nil => exact hnil
  | cons item items ih =>
    have hrest := ih fun t ht => h t (List.mem_cons_of_mem item ht)
    cases item with
    | operand t => rw [hoperand, h t List.mem_cons_self, hrest, List.append_nil]
    | operator op => rw [hoperator, hrest]

/-! ### Plain words and escaped texts -/

theorem isBeyond_of_isInert {c : Char} (h : isInert c = true) : Ascii.isBeyond c = false := by
  rw [isInert, Bool.and_eq_true, Bool.and_eq_true] at h
  rw [Ascii.isBeyond, decide_eq_false_iff_not, Nat.not_le]
  grind [Char.le_def, UInt32.le_iff_toNat_le, Char.toNat]

theorem isAscii_oppositeText {text : String} (h : IsAscii text) : IsAscii (oppositeText text) := by
  rw [oppositeText]
  split
  · next rest hrest =>
    rw [IsAscii, hrest] at h
    rw [IsAscii, String.toList_ofList]
    exact fun c hc => h c (List.mem_cons_of_mem _ hc)
  · exact isAscii_append_iff.mpr ⟨by decide, h⟩

theorem keptByJoining_isAscii : KeptByJoining IsAscii where
  inert h := fun c hc => isBeyond_of_isInert (List.all_eq_true.mp h c hc)
  append ha hb := isAscii_append_iff.mpr ⟨ha, hb⟩
  opposite := isAscii_oppositeText

theorem isAscii_quoted_iff {text : String} :
    IsAscii (Escape.quoted .hex text) ↔ '\x00' ∉ text.toList := by
  have hquote : IsAscii "\"" := by decide
  simp only [Escape.quoted, isAscii_append_iff, Escape.isAscii_string_iff, hquote, true_and,
    and_true]

theorem isAscii_intercalate_iff {separator : String} (hseparator : IsAscii separator)
    {texts : List String} :
    IsAscii (separator.intercalate texts) ↔ ∀ text ∈ texts, IsAscii text := by
  induction texts with
  | nil => exact iff_of_true keptByJoining_isAscii.empty (List.forall_mem_nil _)
  | cons text texts ih =>
    rw [List.forall_mem_cons, ← ih]
    cases texts with
    | nil =>
      rw [String.intercalate_singleton, String.intercalate_nil]
      exact (and_iff_left keptByJoining_isAscii.empty).symm
    | cons next rest =>
      simp only [String.intercalate_cons_cons, isAscii_append_iff, hseparator, and_true]

theorem isAscii_bracketsText_iff {names : List String} :
    IsAscii (bracketsText .hex names) ↔ ∀ name ∈ names, '\x00' ∉ name.toList := by
  have hopen : IsAscii "[" := by decide
  have hspace : IsAscii " " := by decide
  have hclose : IsAscii "]" := by decide
  simp only [bracketsText, isAscii_append_iff, isAscii_intercalate_iff hspace, hopen, hclose,
    List.forall_mem_map, Escape.isAscii_identifier_iff, true_and, and_true]

theorem isAscii_callText_iff {name arguments : String} :
    IsAscii (callText .hex name arguments) ↔ '\x00' ∉ name.toList ∧ IsAscii arguments := by
  have hopen : IsAscii "(" := by decide
  have hclose : IsAscii ")" := by decide
  simp only [callText, isAscii_append_iff, Escape.isAscii_identifier_iff, hopen, hclose, and_true]

theorem isAscii_argumentsCss_iff {level : EscapeLevel} {ts : List Term} :
    IsAscii (argumentsCss level ts) ↔ IsAscii (termsCss level ts) := by
  cases ts with
  | nil => rfl
  | cons t ts =>
    have hoperator : IsAscii (operatorText t.operator) := keptByJoining_isAscii.operator _
    simp only [argumentsCss, termsCss, isAscii_append_iff, hoperator, true_and]

/-! ### Values without texts -/

/-- There is no text in the value, and it is written within ASCII at every level. -/
structure Value.Textless (v : Value) : Prop where
  texts : v.texts = []
  rawTexts : v.rawTexts = []
  written : ∀ level, (v.written level).Has IsAscii

theorem Value.Textless.of_plain {v : Value} {text : String} (htexts : v.texts = [])
    (hraw : v.rawTexts = []) (hwritten : ∀ level, v.written level = .plain text)
    (h : IsAscii text) : v.Textless := by
  refine ⟨htexts, hraw, fun level => ?_⟩
  rw [hwritten level]
  exact Written.has_plain h

theorem Numeric.isAscii_text (n : Numeric) : IsAscii n.text :=
  keptByJoining_isAscii.inert n.all_isInert_text

theorem Numeric.textless (n : Numeric) : (Value.numeric n).Textless :=
  .of_plain rfl rfl (fun _ => rfl) n.isAscii_text

theorem Term.has_isAscii_writtenOperand {t : Term} (h : t.value.Textless) :
    t.writtenOperand.Has IsAscii := by
  have hwritten := h.written .backslash
  have hcss : IsAscii (t.css .backslash) :=
    isAscii_append_iff.mpr ⟨keptByJoining_isAscii.operator _, hwritten.alone⟩
  refine ⟨hcss, fun text htext => ?_⟩
  have htext : t.operandText = .ok text := htext
  rw [operandText] at htext
  split at htext
  · exact hwritten.inside text htext
  · cases htext
    exact hcss

/-- **What is read from numbers and expressions only.** Everything else among the arguments stays
outside. -/
theorem Value.textless_ofTerms {ts : List Term} (h : ∀ t ∈ ts, t.IsOperand → t.value.Textless) :
    (Value.calc (Expression.ofTerms ts)).Textless := by
  have hoperands : ∀ u, .operand u ∈ (Expression.ofTerms ts).items → u.value.Textless := by
    intro u hu
    obtain ⟨t, ht, hoperand, rfl⟩ := Expression.exists_of_operand hu
    exact h t ht hoperand
  refine ⟨?_, ?_, fun level => ?_⟩
  · rw [texts]
    exact collected_eq_nil rfl (fun _ _ => rfl) (fun _ _ => rfl) fun u hu => (hoperands u hu).texts
  · rw [rawTexts]
    exact collected_eq_nil rfl (fun _ _ => rfl) (fun _ _ => rfl)
      fun u hu => (hoperands u hu).rawTexts
  · rw [written_calc]
    refine keptByJoining_isAscii.written fun w hw => ?_
    obtain ⟨item, hitem, hw⟩ := List.mem_map.mp hw
    cases item with
    | operand u =>
      cases hw
      exact Term.has_isAscii_writtenOperand (hoperands u hitem)
    | operator op => cases hw

theorem Term.Made.textless_of_isOperand {t : Term} (h : t.Made) (ht : t.IsOperand) :
    t.value.Textless := by
  induction h with
  | @plain t hplain =>
    obtain ⟨n, hn⟩ | ⟨e, he, -⟩ := ht
    · rw [hn]
      exact n.textless
    · simp [calc?, he] at hplain
  | nested own _ ih => exact Value.textless_ofTerms ih

theorem Value.textless_expression {e : Expression Term} (h : (Value.calc e).IsBuilt) :
    (Value.calc e).Textless := by
  obtain ⟨ts, hts, rfl⟩ := h
  exact textless_ofTerms fun t ht hoperand => (hts t ht).made.textless_of_isOperand hoperand

/-! ### All values -/

/-- No text has a null character, and the raw ones are within ASCII. -/
def TextsWithinAscii (texts rawTexts : List String) : Prop :=
  (∀ text ∈ texts, '\x00' ∉ text.toList) ∧ ∀ text ∈ rawTexts, IsAscii text

theorem textsWithinAscii_cons_iff {text : String} {texts rawTexts : List String} :
    TextsWithinAscii (text :: texts) rawTexts ↔
      '\x00' ∉ text.toList ∧ TextsWithinAscii texts rawTexts := by
  rw [TextsWithinAscii, List.forall_mem_cons, and_assoc]
  rfl

theorem textsWithinAscii_append_iff {texts texts' rawTexts rawTexts' : List String} :
    TextsWithinAscii (texts ++ texts') (rawTexts ++ rawTexts') ↔
      TextsWithinAscii texts rawTexts ∧ TextsWithinAscii texts' rawTexts' := by
  rw [TextsWithinAscii, List.forall_mem_append, List.forall_mem_append, and_and_and_comm]
  rfl

theorem textsWithinAscii_nil : TextsWithinAscii [] [] :=
  ⟨List.forall_mem_nil _, List.forall_mem_nil _⟩

theorem Value.Textless.isAscii_written_iff {v : Value} (h : v.Textless) :
    IsAscii (v.written .hex).alone ↔ TextsWithinAscii v.texts v.rawTexts := by
  rw [h.texts, h.rawTexts]
  exact iff_of_true (h.written .hex).alone textsWithinAscii_nil

mutual

/-- **Every text counts**, wherever it stands in the value, and nothing else. -/
theorem Value.isAscii_written_iff : ∀ v : Value, v.IsBuilt →
    (IsAscii (v.written .hex).alone ↔ TextsWithinAscii v.texts v.rawTexts)
  | .numeric n, _ => n.textless.isAscii_written_iff
  | .color c, _ =>
    (Value.Textless.of_plain rfl rfl (fun _ => rfl)
      (keptByJoining_isAscii.inert c.all_isInert_text)).isAscii_written_iff
  | .rect r, _ =>
    (Value.Textless.of_plain rfl rfl (fun _ => rfl)
      (keptByJoining_isAscii.rectangle r)).isAscii_written_iff
  | .delimiter d, _ =>
    (Value.Textless.of_plain rfl rfl (fun _ => rfl)
      (keptByJoining_isAscii.inert (by cases d <;> decide))).isAscii_written_iff
  | .calc e, h => (Value.textless_expression h).isAscii_written_iff
  | .string text, _ => by
    simp [Value.written, Written.plain, Value.texts, Value.rawTexts, TextsWithinAscii,
      isAscii_quoted_iff]
  | .ident name, _ => by
    simp [Value.written, Written.plain, Value.texts, Value.rawTexts, TextsWithinAscii,
      Escape.isAscii_identifier_iff]
  | .uri u, _ => by
    have hopen : IsAscii "url(" := by decide
    have hclose : IsAscii ")" := by decide
    simp [Value.written, Written.plain, Value.texts, Value.rawTexts, TextsWithinAscii,
      isAscii_quoted_iff, hopen, hclose]
  | .unicodeRange text, _ => by
    simp [Value.written, Written.plain, Value.texts, Value.rawTexts, TextsWithinAscii]
  | .brackets names, _ => by
    simp [Value.written, Written.plain, Value.texts, Value.rawTexts, TextsWithinAscii,
      isAscii_bracketsText_iff]
  | .call ⟨name, args, valid⟩, h => by
    have hargs := isAscii_termsCss_iff args h
    simp only [Value.written, Written.plain, Value.texts, Value.rawTexts, isAscii_callText_iff,
      isAscii_argumentsCss_iff, textsWithinAscii_cons_iff, hargs]
  | .list terms, h => by
    have hterms := isAscii_termsCss_iff terms h
    simpa only [Value.written, Written.plain, Value.texts, Value.rawTexts] using hterms
  | .pair key ⟨operator, v⟩, h => by
    have hbuilt : Term.Built ⟨operator, v⟩ := h
    have hv := v.isAscii_written_iff hbuilt.isBuilt
    have hspace : IsAscii " " := by decide
    have hoperator : IsAscii (operatorText operator) := keptByJoining_isAscii.operator _
    simp only [Value.written, Written.plain, Value.texts, Value.rawTexts, isAscii_append_iff,
      Escape.isAscii_identifier_iff, textsWithinAscii_cons_iff, hspace, hoperator, and_true, hv]

theorem isAscii_termsCss_iff : ∀ ts : List (Joined Value), (∀ t ∈ ts, Term.Built t) →
    (IsAscii (termsCss .hex ts) ↔ TextsWithinAscii (termsTexts ts) (termsRawTexts ts))
  | [], _ => iff_of_true keptByJoining_isAscii.empty textsWithinAscii_nil
  | ⟨operator, v⟩ :: rest, h => by
    obtain ⟨hbuilt, hrest⟩ := List.forall_mem_cons.mp h
    have hv := v.isAscii_written_iff hbuilt.isBuilt
    have hterms := isAscii_termsCss_iff rest hrest
    have hoperator : IsAscii (operatorText operator) := keptByJoining_isAscii.operator _
    simp only [termsCss, termsTexts, termsRawTexts, isAscii_append_iff,
      textsWithinAscii_append_iff, hoperator, true_and, hv, hterms]

end

/-- **The hexadecimal level reaches every text.** A term is written within ASCII exactly if no text
in it, however deep, has a null character, and all ranges of code points in it are within ASCII. -/
theorem Term.Built.isAscii_css_iff {t : Term} (h : t.Built) :
    IsAscii (t.css .hex) ↔
      (∀ text ∈ t.value.texts, '\x00' ∉ text.toList) ∧
        ∀ text ∈ t.value.rawTexts, IsAscii text := by
  have hoperator : IsAscii (operatorText t.operator) := keptByJoining_isAscii.operator _
  rw [css, isAscii_append_iff, and_iff_right hoperator]
  exact t.value.isAscii_written_iff h.isBuilt

/-- A pair that holds a list of a function, an expression and a range, with texts beyond ASCII. -/
theorem Term.isAscii_css_nested :
    let call := ofValue (.call (FunctionCall.ofArgs "\u0192" [ofValue (.string "caf\u00e9")]))
    let one := ofValue (.numeric (.ofInt 1))
    let sum := ofValue (.calc (Expression.ofTerms [one, ofValue (.delimiter .plus), one]))
    let range := (ofValue (.unicodeRange "U+26")).withOperator (some .comma)
    let t := ofValue (.pair "cl\u00e9" (ofValue (.list [call, sum, range])))
    t.Built ∧ t.value.texts = ["cl\u00e9", "\u0192", "caf\u00e9"] ∧ t.value.rawTexts = ["U+26"] ∧
      IsAscii (t.css .hex) := by
  intro call one sum range t
  have hone : one.Built := .numeric (.ofInt 1)
  have hstring : (ofValue (.string "caf\u00e9")).Built := .unchecked rfl
  have hcall : call.Built := .ofArgs (by decide) (List.forall_mem_singleton.mpr hstring)
  have hsum : sum.Built := hone.binary hone
  have hrange : range.Built := .withOperator (.unchecked rfl) _
  have ht : t.Built := by
    refine .pair (.list ?_)
    simpa only [List.forall_mem_cons] using ⟨hcall, hsum, hrange, List.forall_mem_nil _⟩
  have htexts : t.value.texts = ["cl\u00e9", "\u0192", "caf\u00e9"] := rfl
  have hraw : t.value.rawTexts = ["U+26"] := rfl
  refine ⟨ht, htexts, hraw, ht.isAscii_css_iff.mpr ⟨?_, ?_⟩⟩
  · rw [htexts]
    decide
  · rw [hraw]
    decide

end CssModel
