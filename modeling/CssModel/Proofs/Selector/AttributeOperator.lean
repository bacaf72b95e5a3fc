import CssModel.Proofs.Selector.Monotone

/-!
# What attribute operators ask

An operator compares the value of an attribute with the value asked for by looking through it. What
it is after can be said without looking: the value asked for is a word of the attribute's, or some
text around it makes up the attribute's value. The empty text would stand around and in everything;
four of the operators refuse it, and no word is empty.

Where letter case does not count, both values are compared in lower case. Nothing is special about
lower case: an operator accepts exactly if it accepts the two values in some letter case or other.

## Main definitions

* `CssModel.Ascii.Recasing`: the same text in another letter case
* `CssModel.AttributeOperator.Means`: what an operator asks, without a search

## Main results

* `CssModel.AttributeOperator.accepts_sensitive_iff`
* `CssModel.AttributeOperator.accepts_insensitive_iff`
* `CssModel.AttributeOperator.accepts_iff_means`
-/

namespace CssModel

/-! ### Letter case -/

namespace Ascii

/-- The same text with ASCII letters in another case, letter by letter. -/
def Recasing (text other : String) : Prop :=
  List.Forall₂ (fun c d => d = c ∨ d = c.toLower ∨ c = d.toLower) text.toList other.toList

theorem recasing_self (text : String) : Recasing text text :=
  List.forall₂_same.mpr fun _ _ => .inl rfl

theorem recasing_lower (text : String) : Recasing text (lower text) := by
  rw [Recasing, toList_lower, List.forall₂_map_right_iff]
  exact List.forall₂_same.mpr fun _ _ => .inr (.inl rfl)

/-- Texts that differ in letter case only are the same in lower case. -/
theorem Recasing.lower_eq {text other : String} (h : Recasing text other) :
    lower other = lower text := by
  have hsame : List.Forall₂ (· = ·) (text.toList.map Char.toLower)
      (other.toList.map Char.toLower) := by
    rw [List.forall₂_map_left_iff, List.forall₂_map_right_iff]
    refine h.imp ?_
    rintro c d (rfl | rfl | rfl)
    · rfl
    · exact (toLower_toLower c).symm
    · exact toLower_toLower d
  rw [List.forall₂_eq_eq_eq] at hsame
  rw [lower, lower, hsame]

end Ascii

namespace AttributeOperator

variable {actual expected : String}

/-! ### Letter by letter -/

/-- What an operator asks of a value, letter by letter. -/
def Means : AttributeOperator → (actual expected : String) → Prop
  | .present, _, _ => True
  | .equals, actual, expected => actual = expected
  | .includes, actual, expected => Ascii.IsWord actual.toList expected.toList
  | .dashMatch, actual, expected => actual = expected ∨ ∃ after, actual = expected ++ "-" ++ after
  | .contains, actual, expected =>
    expected ≠ "" ∧ ∃ before after, actual = before ++ expected ++ after
  | .startsWith, actual, expected => expected ≠ "" ∧ ∃ after, actual = expected ++ after
  | .endsWith, actual, expected => expected ≠ "" ∧ ∃ before, actual = before ++ expected

theorem exists_toList_iff {p : List Char → Prop} :
    (∃ cs, p cs) ↔ ∃ text : String, p text.toList := by
  constructor
  · rintro ⟨cs, h⟩
    exact ⟨String.ofList cs, by rwa [String.toList_ofList]⟩
  · rintro ⟨text, h⟩
    exact ⟨_, h⟩

theorem isPrefix_toList_iff :
    expected.toList <+: actual.toList ↔ ∃ after, actual = expected ++ after := by
  rw [List.IsPrefix, exists_toList_iff]
  simp only [← String.toList_inj, String.toList_append, eq_comm]

theorem isSuffix_toList_iff :
    expected.toList <:+ actual.toList ↔ ∃ before, actual = before ++ expected := by
  rw [List.IsSuffix, exists_toList_iff]
  simp only [← String.toList_inj, String.toList_append, eq_comm]

theorem isInfix_toList_iff :
    expected.toList <:+: actual.toList ↔
      ∃ before after, actual = before ++ expected ++ after := by
  rw [List.IsInfix, exists_toList_iff]
  refine exists_congr fun before => ?_
  rw [exists_toList_iff]
  simp only [← String.toList_inj, String.toList_append, eq_comm]

/-- **Letter by letter an operator accepts what it asks for.** -/
theorem accepts_sensitive_iff (op : AttributeOperator) :
    op.accepts .sensitive actual expected = true ↔ op.Means actual expected := by
  rw [accepts, CaseSensitivity.fold, CaseSensitivity.fold]
  cases op with
  | present => exact iff_of_true rfl trivial
  | equals => simp [acceptsChars, Means, String.toList_inj]
  | includes =>
    rw [Means, ← Ascii.mem_wordChars_iff]
    simp only [acceptsChars, Bool.and_eq_true, Bool.not_eq_true', List.isEmpty_eq_false_iff,
      List.any_eq_false, List.contains_iff_mem, Bool.not_eq_true, and_iff_right_iff_imp]
    exact fun h => ⟨Ascii.ne_nil_of_mem_wordChars h, Ascii.isBlank_of_mem_wordChars h⟩
  | dashMatch =>
    have hprefix : expected.toList ++ ['-'] <+: actual.toList ↔
        ∃ after, actual = expected ++ "-" ++ after := by
      rw [← isPrefix_toList_iff, String.toList_append]
      rfl
    simp [acceptsChars, Means, hprefix, String.toList_inj]
  | contains => simp [acceptsChars, Means, hasInfix_iff, isInfix_toList_iff]
  | startsWith => simp [acceptsChars, Means, isPrefix_toList_iff]
  | endsWith => simp [acceptsChars, Means, isSuffix_toList_iff]

/-! ### In any letter case -/

theorem accepts_insensitive_eq (op : AttributeOperator) (actual expected : String) :
    op.accepts .insensitive actual expected =
      op.accepts .sensitive (Ascii.lower actual) (Ascii.lower expected) :=
  rfl

/-- **Where letter case does not count, an operator accepts what it asks for in some letter
case.** -/
theorem accepts_insensitive_iff (op : AttributeOperator) :
    op.accepts .insensitive actual expected = true ↔ ∃ actual' expected',
      Ascii.Recasing actual actual' ∧ Ascii.Recasing expected expected' ∧
        op.Means actual' expected' := by
  constructor
  · intro h
    rw [accepts_insensitive_eq, accepts_sensitive_iff] at h
    exact ⟨_, _, Ascii.recasing_lower actual, Ascii.recasing_lower expected, h⟩
  · rintro ⟨actual', expected', hactual, hexpected, hmeans⟩
    have hlower := op.acceptsChars_map_toLower (op.accepts_sensitive_iff.mpr hmeans)
    rw [accepts_insensitive_eq, ← hactual.lower_eq, ← hexpected.lower_eq, accepts]
    simpa [CaseSensitivity.fold] using hlower

/-! ### Between operators -/

/-- An operator that looks for the value asked for at a certain place finds it somewhere. -/
theorem Means.contains {op : AttributeOperator} (h : op.Means actual expected)
    (hop : op ∈ [includes, startsWith, endsWith]) : contains.Means actual expected := by
  simp only [List.mem_cons, List.not_mem_nil, or_false] at hop
  obtain rfl | rfl | rfl := hop
  · obtain ⟨hne, -, before, after, heq, -⟩ := h
    refine ⟨mt String.toList_eq_nil_iff.mpr hne, isInfix_toList_iff.mp ?_⟩
    exact ⟨before, after, heq.symm⟩
  · obtain ⟨hne, after, rfl⟩ := h
    exact ⟨hne, "", after, by simp⟩
  · obtain ⟨hne, before, rfl⟩ := h
    exact ⟨hne, before, "", by simp⟩

theorem Means.dashMatch (h : equals.Means actual expected) : dashMatch.Means actual expected :=
  Or.inl h

/-- What follows from what letter by letter follows in any letter case. -/
theorem accepts_of_means {op op' : AttributeOperator}
    (h : ∀ actual expected, op.Means actual expected → op'.Means actual expected)
    {s : CaseSensitivity} (haccepts : op.accepts s actual expected = true) :
    op'.accepts s actual expected = true := by
  cases s with
  | sensitive => exact op'.accepts_sensitive_iff.mpr (h _ _ (op.accepts_sensitive_iff.mp haccepts))
  | insensitive =>
    rw [accepts_insensitive_eq, accepts_sensitive_iff] at haccepts ⊢
    exact h _ _ haccepts

/-- **What the operators ask.** Where letter case counts, an operator accepts exactly what it asks
for; where it does not, what it asks for in some letter case of the two values, and so whatever it
accepts otherwise. Under either policy a word, a beginning and an end are contained in the value,
and a value that is equal is one that goes on after a hyphen or not at all. -/
theorem accepts_iff_means (actual expected : String) :
    (∀ op : AttributeOperator,
      (op.accepts .sensitive actual expected = true ↔ op.Means actual expected) ∧
      (op.accepts .insensitive actual expected = true ↔ ∃ actual' expected',
        Ascii.Recasing actual actual' ∧ Ascii.Recasing expected expected' ∧
          op.Means actual' expected') ∧
      (op.accepts .sensitive actual expected = true →
        op.accepts .insensitive actual expected = true)) ∧
      ∀ s, (∀ op ∈ [includes, startsWith, endsWith], op.accepts s actual expected = true →
          contains.accepts s actual expected = true) ∧
        (equals.accepts s actual expected = true → dashMatch.accepts s actual expected = true) := by
  refine ⟨fun op => ⟨op.accepts_sensitive_iff, op.accepts_insensitive_iff, fun h => ?_⟩,
    fun s => ⟨fun op hop => ?_, ?_⟩⟩
  · refine op.accepts_insensitive_iff.mpr ⟨actual, expected, ?_, ?_, op.accepts_sensitive_iff.mp h⟩
    · exact Ascii.recasing_self actual
    · exact Ascii.recasing_self expected
  · exact accepts_of_means fun _ _ hmeans => hmeans.contains hop
  · exact accepts_of_means fun _ _ hmeans => hmeans.dashMatch

/-- A word in capitals is found where letter case does not count, and only there. -/
theorem accepts_iff_means_capitals :
    includes.accepts .sensitive "note WIDE" "wide" = false ∧
      ¬ includes.Means "note WIDE" "wide" ∧
      includes.accepts .insensitive "note WIDE" "wide" = true ∧
      contains.accepts .insensitive "note WIDE" "wide" = true ∧
      ∃ actual' expected', Ascii.Recasing "note WIDE" actual' ∧ Ascii.Recasing "wide" expected' ∧
        includes.Means actual' expected' := by
  have hrejects : includes.accepts .sensitive "note WIDE" "wide" = false := by decide
  have haccepts : includes.accepts .insensitive "note WIDE" "wide" = true := by decide
  obtain ⟨hmeans, hbetween⟩ := accepts_iff_means "note WIDE" "wide"
  refine ⟨hrejects, fun h => ?_, haccepts, ?_, (hmeans includes).2.1.mp haccepts⟩
  · rw [(hmeans includes).1.mpr h] at hrejects
    cases hrejects
  · exact (hbetween .insensitive).1 includes (by decide) haccepts

end AttributeOperator

end CssModel
