import CssModel.Selector.Policy
import CssModel.Proofs.Text.Words

/-!
# Class and identifier selectors as attribute selectors

A class selector is short for an attribute selector that looks for a word in the attribute `class`,
an identifier selector for one that looks for the value of the attribute `id`. The two sides look
the attribute up in different ways. The short form takes the attribute of exactly that name; the
long form goes by the policy, under which letter case in names may not count. They part where the
name is written in other letters and the attribute has something to be found.

## Main definitions

* `CssModel.Element.NamesDistinct`

## Main results

* `CssModel.CasePolicy.attribute?_eq_some_iff`, `CssModel.Element.attribute?_eq_some_iff`: the two
  ways to look an attribute up
* `CssModel.CasePolicy.abbreviates_iff`
-/

namespace CssModel

/-! ### What the two operators accept -/

namespace CaseSensitivity

theorem fold_eq_nil_iff {s : CaseSensitivity} {text : String} :
    (s.fold text).toList = [] ↔ text = "" := by
  cases s <;> simp [fold]

theorem equal_self (s : CaseSensitivity) (text : String) : s.equal text text = true := by
  simp [equal]

/-- Equality under any policy implies equality of the lower case. -/
theorem lower_eq_of_equal {s : CaseSensitivity} {a b : String} (h : s.equal a b = true) :
    Ascii.lower a = Ascii.lower b := by
  cases s with
  | sensitive =>
    obtain rfl : a = b := beq_iff_eq.mp h
    rfl
  | insensitive => exact beq_iff_eq.mp h

/-- Folding keeps the words of a text apart. -/
theorem wordChars_fold (s : CaseSensitivity) (text : String) :
    Ascii.wordChars (s.fold text).toList =
      (Ascii.words text).map fun word => (s.fold word).toList := by
  cases s with
  | sensitive => simp [fold, Ascii.words]
  | insensitive =>
    rw [fold, Ascii.toList_lower, Ascii.wordChars_map_toLower, Ascii.words, List.map_map]
    simp [fold]

end CaseSensitivity

namespace AttributeOperator

theorem equals_accepts (s : CaseSensitivity) (actual expected : String) :
    equals.accepts s actual expected = s.equal actual expected := by
  rw [Bool.eq_iff_iff, CaseSensitivity.equal, beq_iff_eq]
  show (_ == _) = true ↔ _
  rw [beq_iff_eq, String.toList_inj]

/-- No word holds white space, so that the words are looked through for any text alike. -/
theorem includes_accepts (s : CaseSensitivity) {expected : String} (h : expected ≠ "")
    (actual : String) : includes.accepts s actual expected =
      (Ascii.words actual).any fun word => s.equal word expected := by
  have hnonempty : (s.fold expected).toList ≠ [] := mt CaseSensitivity.fold_eq_nil_iff.mp h
  have hwords : (Ascii.words actual).any (fun word => s.equal word expected) = true ↔
      (s.fold expected).toList ∈ Ascii.wordChars (s.fold actual).toList := by
    rw [s.wordChars_fold, List.any_eq_true, List.mem_map]
    simp only [CaseSensitivity.equal, beq_iff_eq, String.toList_inj]
  rw [Bool.eq_iff_iff, hwords]
  show (! _ && ! _ && _) = true ↔ _
  simp only [Bool.and_eq_true, Bool.not_eq_true', List.isEmpty_eq_false_iff, List.any_eq_false,
    List.contains_iff_mem, Bool.not_eq_true]
  exact ⟨fun h => h.2, fun h => ⟨⟨hnonempty, Ascii.isBlank_of_mem_wordChars h⟩, h⟩⟩

theorem equals_rejects_iff {s : CaseSensitivity} {actual : String} :
    (∀ expected ≠ "", equals.accepts s actual expected = false) ↔ actual = "" := by
  constructor
  · intro h
    by_contra hne
    have hself := h actual hne
    rw [equals_accepts, s.equal_self] at hself
    cases hself
  · rintro rfl expected hne
    rw [equals_accepts, ← Bool.not_eq_true]
    intro heq
    have hlower := CaseSensitivity.lower_eq_of_equal heq
    have hnil : (Ascii.lower expected).toList = [] := by
      rw [← hlower]
      rfl
    exact hne (by simpa using hnil)

theorem includes_rejects_iff {s : CaseSensitivity} {actual : String} :
    (∀ expected ≠ "", includes.accepts s actual expected = false) ↔ Ascii.words actual = [] := by
  constructor
  · intro h
    refine List.eq_nil_iff_forall_not_mem.mpr fun word hword => ?_
    obtain ⟨cs, hcs, rfl⟩ := List.mem_map.mp hword
    have hne : String.ofList cs ≠ "" := by
      simpa using Ascii.ne_nil_of_mem_wordChars hcs
    have hany := h _ hne
    rw [includes_accepts s hne, List.any_eq_false] at hany
    exact hany _ hword (s.equal_self _)
  · intro h expected hne
    rw [includes_accepts s hne, h, List.any_nil]

end AttributeOperator

/-! ### Looking attributes up -/

/-- No two attributes have the same name up to the case of letters. -/
def Element.NamesDistinct (e : Element) : Prop :=
  (e.attributes.map fun a => Ascii.lower a.1).Nodup

theorem Element.NamesDistinct.eq_of_lower_eq {e : Element} (h : e.NamesDistinct)
    {a b : String × String} (ha : a ∈ e.attributes) (hb : b ∈ e.attributes)
    (heq : Ascii.lower a.1 = Ascii.lower b.1) : a = b :=
  List.inj_on_of_nodup_map h ha hb heq

theorem Element.attribute?_eq_some_iff {e : Element} (h : e.NamesDistinct) {name value : String} :
    e.attribute? name = some value ↔ (name, value) ∈ e.attributes := by
  rw [Element.attribute?, List.lookup_eq_some_iff]
  constructor
  · rintro ⟨before, after, heq, -⟩
    rw [heq]
    simp
  · intro hmem
    obtain ⟨before, after, heq⟩ := List.append_of_mem hmem
    refine ⟨before, after, heq, fun a ha => ?_⟩
    have hname : Ascii.lower a.1 ≠ Ascii.lower name := by
      rw [Element.NamesDistinct, heq, List.map_append, List.nodup_append] at h
      exact h.2.2 _ (List.mem_map_of_mem ha) _ List.mem_cons_self
    rw [bne_iff_ne]
    rintro rfl
    exact hname rfl

theorem CasePolicy.equal_of_find? (policy : CasePolicy) {attributes : List (String × String)}
    {name : String} {a : String × String}
    (h : (attributes.find? fun b => policy.names.equal b.1 name) = some a) :
    policy.names.equal a.1 name = true := by
  simpa using List.find?_some h

theorem CasePolicy.attribute?_eq_some_iff {policy : CasePolicy} {e : Element}
    (h : e.NamesDistinct) {name value : String} :
    policy.attribute? e name = some value ↔
      ∃ a ∈ e.attributes, policy.names.equal a.1 name = true ∧ a.2 = value := by
  rw [CasePolicy.attribute?, Option.map_eq_some_iff]
  constructor
  · rintro ⟨a, ha, rfl⟩
    exact ⟨a, List.mem_of_find?_eq_some ha, policy.equal_of_find? ha, rfl⟩
  · rintro ⟨a, hmem, hname, rfl⟩
    cases hfind : e.attributes.find? fun a => policy.names.equal a.1 name with
    | none => exact absurd hname (List.find?_eq_none.mp hfind a hmem)
    | some b =>
      have hb := policy.equal_of_find? hfind
      have heq := (CaseSensitivity.lower_eq_of_equal hb).trans
        (CaseSensitivity.lower_eq_of_equal hname).symm
      exact ⟨b, rfl, by rw [h.eq_of_lower_eq (List.mem_of_find?_eq_some hfind) hmem heq]⟩

/-- The two ways to look an attribute up lead to the same answers unless the name is written in
other letters and the attribute has something to be found. -/
theorem CasePolicy.lookups_agree_iff {policy : CasePolicy} {e : Element} (h : e.NamesDistinct)
    {name : String} {accepts : String → String → Bool} :
    (∀ text ≠ "", (e.attribute? name).any (accepts · text) =
      (policy.attribute? e name).any (accepts · text)) ↔
    ∀ a ∈ e.attributes, policy.names.equal a.1 name = true → a.1 ≠ name →
      ∀ text ≠ "", accepts a.2 text = false := by
  cases hexact : e.attribute? name with
  | some value =>
    have hmem := (Element.attribute?_eq_some_iff h).mp hexact
    have hfound : policy.attribute? e name = some value :=
      (CasePolicy.attribute?_eq_some_iff h).mpr ⟨_, hmem, policy.names.equal_self name, rfl⟩
    rw [hfound]
    refine iff_of_true (fun text _ => rfl) fun a ha hname hne => ?_
    have heq := h.eq_of_lower_eq ha hmem (CaseSensitivity.lower_eq_of_equal hname)
    exact absurd (congrArg Prod.fst heq) hne
  | none =>
    have hother : ∀ a ∈ e.attributes, a.1 ≠ name := by
      rintro a ha rfl
      have hsome := (Element.attribute?_eq_some_iff h).mpr ha
      rw [hexact] at hsome
      cases hsome
    constructor
    · intro hagree a ha hname _ text hne
      have hfound : policy.attribute? e name = some a.2 :=
        (CasePolicy.attribute?_eq_some_iff h).mpr ⟨a, ha, hname, rfl⟩
      have heq := hagree text hne
      rw [hfound] at heq
      exact heq.symm
    · intro hrejects text hne
      cases hfound : policy.attribute? e name with
      | none => rfl
      | some value =>
        obtain ⟨a, ha, hname, rfl⟩ := (CasePolicy.attribute?_eq_some_iff h).mp hfound
        exact (hrejects a ha hname (hother a ha) text hne).symm

/-! ### The abbreviations -/

namespace CasePolicy

variable {policy : CasePolicy} {e : Element}

theorem acceptsAttribute_eq (a : AttributeSelector) : policy.matcher.acceptsAttribute e a =
    (policy.attribute? e a.name).any (a.operator.accepts policy.values · a.value) := by
  simp only [matcher]
  cases policy.attribute? e a.name <;> rfl

theorem acceptsClass_eq {name : String} (h : name ≠ "") : policy.matcher.acceptsClass e name =
    (e.attribute? "class").any (AttributeOperator.includes.accepts policy.values · name) := by
  show (((e.attribute? "class").map Ascii.words).getD []).any _ = _
  cases e.attribute? "class" with
  | none => rfl
  | some value => exact (AttributeOperator.includes_accepts policy.values h value).symm

theorem acceptsId_eq (name : String) : policy.matcher.acceptsId e name =
    (e.attribute? "id").any (AttributeOperator.equals.accepts policy.values · name) := by
  simp only [matcher, Element.id?]
  cases e.attribute? "id" with
  | none => rfl
  | some value => exact (AttributeOperator.equals_accepts policy.values value name).symm

/-- **Abbreviations.** Class selectors and the attribute selectors that they are short for accept
the same elements, except those with an attribute that is `class` under the policy only and has
words. Likewise for identifiers, except where an attribute is `id` under the policy only and has a
value that is not empty. -/
theorem abbreviates_iff (policy : CasePolicy) (e : Element) (h : e.NamesDistinct) :
    ((∀ name ≠ "", ∀ quoted, policy.matcher.acceptsClass e name =
        policy.matcher.acceptsAttribute e ⟨"class", name, .includes, quoted⟩) ↔
      ∀ a ∈ e.attributes, policy.names.equal a.1 "class" = true → a.1 ≠ "class" →
        Ascii.words a.2 = []) ∧
    ((∀ name ≠ "", ∀ quoted, policy.matcher.acceptsId e name =
        policy.matcher.acceptsAttribute e ⟨"id", name, .equals, quoted⟩) ↔
      ∀ a ∈ e.attributes, policy.names.equal a.1 "id" = true → a.1 ≠ "id" → a.2 = "") := by
  constructor
  · simp only [← AttributeOperator.includes_rejects_iff (s := policy.values)]
    rw [← lookups_agree_iff h]
    refine forall₂_congr fun name hne => ?_
    simp only [acceptsClass_eq hne, acceptsAttribute_eq, forall_const]
  · simp only [← AttributeOperator.equals_rejects_iff (s := policy.values)]
    rw [← lookups_agree_iff h]
    refine forall₂_congr fun name hne => ?_
    simp only [acceptsId_eq, acceptsAttribute_eq, forall_const]

theorem includes_accepts_a : AttributeOperator.includes.accepts .sensitive "a" "a" = true := by
  have hwords : Ascii.words "a" = ["a"] := by
    rw [Ascii.words, Ascii.wordChars, List.splitOnP_eq_singleton (by simp [Ascii.isBlank])]
    rfl
  rw [AttributeOperator.includes_accepts _ (by decide), hwords]
  rfl

/-- In documents where letter case does not count in names, a class is found under `CLASS` in the
long form only. -/
theorem html_class_in_capitals :
    (⟨"p", [("CLASS", "a")]⟩ : Element).NamesDistinct ∧
      html.matcher.acceptsClass ⟨"p", [("CLASS", "a")]⟩ "a" = false ∧
      html.matcher.acceptsAttribute ⟨"p", [("CLASS", "a")]⟩ ⟨"class", "a", .includes, false⟩ =
        true := by
  refine ⟨by simp [Element.NamesDistinct], by decide, ?_⟩
  exact includes_accepts_a

/-- The class written in capitals has a word, so that the two forms differ; there is no identifier,
so that its two forms agree. -/
theorem html_class_in_capitals_abbreviates :
    (⟨"p", [("CLASS", "a")]⟩ : Element).NamesDistinct ∧
      ¬ (∀ name ≠ "", ∀ quoted, html.matcher.acceptsClass ⟨"p", [("CLASS", "a")]⟩ name =
        html.matcher.acceptsAttribute ⟨"p", [("CLASS", "a")]⟩ ⟨"class", name, .includes, quoted⟩) ∧
      ∀ name ≠ "", ∀ quoted, html.matcher.acceptsId ⟨"p", [("CLASS", "a")]⟩ name =
        html.matcher.acceptsAttribute ⟨"p", [("CLASS", "a")]⟩ ⟨"id", name, .equals, quoted⟩ := by
  have hdistinct : (⟨"p", [("CLASS", "a")]⟩ : Element).NamesDistinct := by
    simp [Element.NamesDistinct]
  obtain ⟨hclass, hid⟩ := abbreviates_iff html ⟨"p", [("CLASS", "a")]⟩ hdistinct
  refine ⟨hdistinct, ?_, ?_⟩
  · rw [hclass]
    intro hnone
    have hwords := hnone ("CLASS", "a") List.mem_cons_self (by decide) (by decide)
    rw [← AttributeOperator.includes_rejects_iff (s := .sensitive)] at hwords
    have hrejects := hwords "a" (by decide)
    rw [includes_accepts_a] at hrejects
    cases hrejects
  · rw [hid]
    intro a ha hname
    obtain rfl := List.mem_singleton.mp ha
    revert hname
    decide

end CasePolicy

end CssModel
