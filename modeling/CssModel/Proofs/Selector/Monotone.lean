import CssModel.Proofs.Selector.Abbreviation

/-!
# More permissive policies

What a selector matches is decided by policies that are handed in: a matcher for names and
attributes, and a condition for what the tree does not know. A selector only ever asks them for
acceptance, and it asks a negation for the opposite. So, as long as no negation is in it, a selector
that matches goes on matching when the policies come to accept more.

Whether a matcher accepts more than another is a question about the elements that it is shown. It
has to be, since a policy under which letter case in names does not count takes the first attribute
that will do: if an element has one name in two spellings, a more permissive policy may find the
wrong one.

## Main definitions

* `CssModel.ElementMatcher.BelowAt`, `CssModel.ElementMatcher.Below`: acceptance at one element, and
  at all elements of a tree
* `CssModel.MatchCondition.Below`, `CssModel.CasePolicy.Below`
* `CssModel.ComplexSelector.NegationFree`

## Main results

* `CssModel.AttributeOperator.acceptsChars_map_toLower`: no operator loses anything when letter case
  stops to count
* `CssModel.CasePolicy.Below.matcher`
* `CssModel.ComplexSelector.matches_mono`
-/

namespace CssModel

/-! ### Letter case -/

namespace AttributeOperator

variable {actual expected : List Char}

theorem hasInfix_iff : hasInfix expected actual = true ↔ expected <:+: actual := by
  induction actual with
  | nil => simp [hasInfix]
  | cons c rest ih => simp [hasInfix, ih, List.infix_cons_iff]

/-- **An operator that accepts accepts in lower case, too.** -/
theorem acceptsChars_map_toLower (op : AttributeOperator)
    (h : op.acceptsChars actual expected = true) :
    op.acceptsChars (actual.map Char.toLower) (expected.map Char.toLower) = true := by
  cases op with
  | present => rfl
  | equals =>
    obtain rfl : actual = expected := by simpa [acceptsChars] using h
    simp [acceptsChars]
  | includes =>
    obtain ⟨⟨hne, hblank⟩, hmem⟩ :
        (expected ≠ [] ∧ ∀ c ∈ expected, Ascii.isBlank c = false) ∧
          expected ∈ Ascii.wordChars actual := by
      simpa [acceptsChars] using h
    have hword : expected.map Char.toLower ∈ Ascii.wordChars (actual.map Char.toLower) := by
      rw [Ascii.wordChars_map_toLower]
      exact List.mem_map_of_mem hmem
    simpa [acceptsChars, hne, hword, Ascii.isBlank_toLower] using hblank
  | dashMatch =>
    have hcases : actual = expected ∨ expected ++ ['-'] <+: actual := by
      simpa [acceptsChars] using h
    obtain rfl | hprefix := hcases
    · simp [acceptsChars]
    · have hlower : expected.map Char.toLower ++ ['-'] <+: actual.map Char.toLower := by
        simpa using hprefix.map Char.toLower
      simp [acceptsChars, hlower]
  | contains =>
    obtain ⟨hne, hinfix⟩ : expected ≠ [] ∧ expected <:+: actual := by
      simpa [acceptsChars, hasInfix_iff] using h
    simpa [acceptsChars, hasInfix_iff, hne] using hinfix.map Char.toLower
  | startsWith =>
    obtain ⟨hne, hprefix⟩ : expected ≠ [] ∧ expected <+: actual := by
      simpa [acceptsChars] using h
    simpa [acceptsChars, hne] using hprefix.map Char.toLower
  | endsWith =>
    obtain ⟨hne, hsuffix⟩ : expected ≠ [] ∧ expected <:+ actual := by
      simpa [acceptsChars] using h
    simpa [acceptsChars, hne] using hsuffix.map Char.toLower

end AttributeOperator

namespace CaseSensitivity

variable {s s' : CaseSensitivity}

/-- Where letter case counts under the second, it counts under the first. -/
def Below (s s' : CaseSensitivity) : Prop :=
  s' = .sensitive → s = .sensitive

theorem Below.eq_or (h : s.Below s') : s = s' ∨ s = .sensitive ∧ s' = .insensitive := by
  cases s' with
  | sensitive => exact .inl (h rfl)
  | insensitive =>
    cases s with
    | sensitive => exact .inr ⟨rfl, rfl⟩
    | insensitive => exact .inl rfl

theorem Below.equal (h : s.Below s') {a b : String} (heq : s.equal a b = true) :
    s'.equal a b = true := by
  obtain rfl | ⟨-, rfl⟩ := h.eq_or
  · exact heq
  · exact beq_iff_eq.mpr (lower_eq_of_equal heq)

theorem Below.accepts (h : s.Below s') {op : AttributeOperator} {actual expected : String}
    (haccepts : op.accepts s actual expected = true) : op.accepts s' actual expected = true := by
  obtain rfl | ⟨rfl, rfl⟩ := h.eq_or
  · exact haccepts
  · rw [AttributeOperator.accepts, fold, fold, Ascii.toList_lower, Ascii.toList_lower]
    exact op.acceptsChars_map_toLower haccepts

end CaseSensitivity

/-! ### Policies -/

/-- At an element the second matcher accepts whatever the first accepts. -/
structure ElementMatcher.BelowAt (e : Element) (m m' : ElementMatcher) : Prop where
  tags : ∀ name, m.acceptsName e name = true → m'.acceptsName e name = true
  classes : ∀ name, m.acceptsClass e name = true → m'.acceptsClass e name = true
  ids : ∀ name, m.acceptsId e name = true → m'.acceptsId e name = true
  attributes : ∀ a, m.acceptsAttribute e a = true → m'.acceptsAttribute e a = true

/-- At every element of the tree the second matcher accepts whatever the first accepts. -/
def ElementMatcher.Below (t : Tree) (m m' : ElementMatcher) : Prop :=
  ∀ n e, t.element? n = some e → m.BelowAt e m'

/-- The second condition holds wherever the first does. -/
def MatchCondition.Below (c c' : MatchCondition) : Prop :=
  ∀ t n s, c t n s = true → c' t n s = true

namespace CasePolicy

/-- Letter case counts under the second policy only where it counts under the first. -/
structure Below (p q : CasePolicy) : Prop where
  values : p.values.Below q.values
  names : p.names.Below q.names

/-- **A policy under which letter case counts less accepts more**, at an element that has no name in
two spellings. -/
theorem Below.matcher {p q : CasePolicy} (h : p.Below q) {e : Element} (he : e.NamesDistinct) :
    p.matcher.BelowAt e q.matcher where
  tags _ := h.names.equal
  classes name hclass := by
    obtain ⟨own, hown, hequal⟩ := List.any_eq_true.mp hclass
    exact List.any_eq_true.mpr ⟨own, hown, h.values.equal hequal⟩
  ids name hid := by
    rw [acceptsId_eq, Option.any_eq_true] at hid ⊢
    obtain ⟨own, hown, haccepts⟩ := hid
    exact ⟨own, hown, h.values.accepts haccepts⟩
  attributes a haccepts := by
    rw [acceptsAttribute_eq, Option.any_eq_true] at haccepts ⊢
    obtain ⟨actual, hactual, haccepts⟩ := haccepts
    obtain ⟨own, hown, hname, hvalue⟩ := (attribute?_eq_some_iff he).mp hactual
    have hfound : q.attribute? e a.name = some actual :=
      (attribute?_eq_some_iff he).mpr ⟨own, hown, h.names.equal hname, hvalue⟩
    exact ⟨actual, hfound, h.values.accepts haccepts⟩

end CasePolicy

/-! ### Selectors -/

/-- The selector is no negation. -/
def SimpleSelector.NegationFree (s : SimpleSelector) : Prop :=
  ∀ inner, s ≠ .negation inner

/-- No negation is among the parts. -/
def CompoundSelector.NegationFree (s : CompoundSelector) : Prop :=
  ∀ part ∈ s.parts, part.NegationFree

/-- No negation is in the chain. -/
def ComplexSelector.NegationFree (s : ComplexSelector) : Prop :=
  ∀ c ∈ s.compounds, CompoundSelector.NegationFree c

section

variable {t : Tree} {m m' : ElementMatcher} {c c' : MatchCondition} {n : NodeId} {e : Element}

/-- What is said of the place in the tree does not depend on the condition; all else is left to
it. -/
theorem PseudoClass.matches_of_below (hc : c.Below c') {p : PseudoClass}
    (h : p.matches t n e c = true) : p.matches t n e c' = true := by
  obtain ⟨kind, name, argument, index⟩ := p
  cases kind with
  | none => exact hc t n _ h
  | some kind =>
    cases kind
    case link | visited | anyLink | target | hover | active | focus | focusWithin | enabled |
        disabled | checked | lang => exact hc t n _ h
    all_goals exact h

theorem SimpleSelector.accepts_of_below (hm : m.BelowAt e m') (hc : c.Below c') :
    ∀ s : SimpleSelector, s.NegationFree → s.accepts t n e m c = true →
      s.accepts t n e m' c' = true
  | .tag name, _, h => by
    rw [accepts, Bool.or_eq_true] at h ⊢
    exact h.imp id (hm.tags name)
  | .className name, _, h => hm.classes name h
  | .idName name, _, h => hm.ids name h
  | .attribute a, _, h => hm.attributes a h
  | .pseudoClass _, _, h => PseudoClass.matches_of_below hc h
  | .negation inner, hs, _ => absurd rfl (hs inner)
  | .pseudoElement _, _, h => h
  | .node _ _, _, h => h

theorem acceptsAll_of_below (hm : m.BelowAt e m') (hc : c.Below c') {parts : List SimpleSelector}
    (hparts : ∀ part ∈ parts, part.NegationFree) (h : acceptsAll t n e m c parts = true) :
    acceptsAll t n e m' c' parts = true := by
  induction parts with
  | nil => rfl
  | cons part rest ih =>
    obtain ⟨hpart, hrest⟩ := List.forall_mem_cons.mp hparts
    rw [acceptsAll, Bool.and_eq_true] at h ⊢
    exact ⟨SimpleSelector.accepts_of_below hm hc part hpart h.1, ih hrest h.2⟩

theorem CompoundSelector.matches_of_below (hm : m.Below t m') (hc : c.Below c')
    {s : CompoundSelector} (hs : s.NegationFree) (h : s.matches t m c n = true) :
    s.matches t m' c' n = true := by
  rw [CompoundSelector.matches] at h ⊢
  cases he : t.element? n with
  | none =>
    rw [he] at h
    exact h
  | some e =>
    rw [he] at h
    exact acceptsAll_of_below (hm n e he) hc hs h

/-- The candidates are those of the tree, so that nodes that were found are found again. -/
theorem matchesBackward_of_below (hm : m.Below t m') (hc : c.Below c')
    {chain : List CompoundSelector} (hchain : ∀ s ∈ chain, CompoundSelector.NegationFree s)
    (h : matchesBackward t m c chain n = true) : matchesBackward t m' c' chain n = true := by
  induction chain generalizing n with
  | nil => exact h
  | cons subject rest ih =>
    obtain ⟨hsubject, hrest⟩ := List.forall_mem_cons.mp hchain
    cases rest with
    | nil => exact CompoundSelector.matches_of_below hm hc hsubject h
    | cons before rest =>
      rw [matchesBackward, Bool.and_eq_true, List.any_eq_true] at h ⊢
      obtain ⟨hmatches, a, ha, hbefore⟩ := h
      exact ⟨CompoundSelector.matches_of_below hm hc hsubject hmatches, a, ha, ih hrest hbefore⟩

/-- **A selector without negations goes on matching under more permissive policies.** The usual
policies are ordered in that way wherever no element has one attribute name in two spellings:
letter case counts everywhere, in values or in names only, nowhere. To know nothing beyond the tree
is the least permissive condition. -/
theorem ComplexSelector.matches_mono (t : Tree) :
    (∀ (s : ComplexSelector) (m m' : ElementMatcher) (c c' : MatchCondition), s.NegationFree →
      m.Below t m' → c.Below c' → ∀ n, s.matches t m c n = true → s.matches t m' c' n = true) ∧
    ((∀ n e, t.element? n = some e → e.NamesDistinct) →
      CasePolicy.strict.matcher.Below t CasePolicy.html.matcher ∧
      CasePolicy.strict.matcher.Below t CasePolicy.insensitive.matcher ∧
      CasePolicy.html.matcher.Below t CasePolicy.loose.matcher ∧
      CasePolicy.insensitive.matcher.Below t CasePolicy.loose.matcher) ∧
    ∀ c, MatchCondition.Below noCondition c := by
  refine ⟨fun s m m' c c' hs hm hc n h => ?_, fun hnames => ?_, fun c t n s h => ?_⟩
  · exact matchesBackward_of_below hm hc (fun x hx => hs x (List.mem_reverse.mp hx)) h
  · have hpolicy {p q : CasePolicy} (h : p.Below q) : p.matcher.Below t q.matcher :=
      fun n e he => h.matcher (hnames n e he)
    exact ⟨hpolicy ⟨id, fun _ => rfl⟩, hpolicy ⟨fun _ => rfl, id⟩, hpolicy ⟨fun _ => rfl, id⟩,
      hpolicy ⟨id, fun _ => rfl⟩⟩
  · cases h

/-- A section with a link in it. -/
def Tree.linkInSection : Tree :=
  (Tree.empty.appendNew 0 (.element (.named "section"))).appendNew 1
    (.element ⟨"A", [("href", "Top"), ("title", "")]⟩)

/-- The selector `section > A[href^="To"]`. -/
def linkToTop : ComplexSelector :=
  ⟨[.ofParts none [.tag "section"],
    .ofParts (some .child) [.tag "A", .attribute ⟨"href", "To", .startsWith, true⟩]]⟩

/-- What matches letter by letter matches in a document where letter case does not count in names,
whatever the condition. -/
theorem ComplexSelector.matches_linkToTop :
    linkToTop.NegationFree ∧ (∀ n e, Tree.linkInSection.element? n = some e → e.NamesDistinct) ∧
      linkToTop.matches Tree.linkInSection CasePolicy.strict.matcher noCondition 2 = true ∧
      linkToTop.matches Tree.linkInSection CasePolicy.html.matcher linkCondition 2 = true := by
  obtain ⟨hmono, hpolicies, hcondition⟩ := matches_mono Tree.linkInSection
  have hfree : linkToTop.NegationFree := by
    simp [linkToTop, NegationFree, CompoundSelector.NegationFree, SimpleSelector.NegationFree,
      CompoundSelector.ofParts, CompoundSelector.push, CompoundOf.empty]
  have hnames : ∀ n e, Tree.linkInSection.element? n = some e → e.NamesDistinct := by
    have hone : Tree.linkInSection.element? 1 = some (.named "section") := by decide
    have htwo : Tree.linkInSection.element? 2 =
        some ⟨"A", [("href", "Top"), ("title", "")]⟩ := by decide
    rintro (_ | _ | _ | n) e he
    · cases he
    · obtain rfl := Option.some.inj (hone.symm.trans he)
      simp [Element.NamesDistinct, Element.named]
    · obtain rfl := Option.some.inj (htwo.symm.trans he)
      simp [Element.NamesDistinct, ← String.toList_inj]
    · cases he
  have hstrict : linkToTop.matches Tree.linkInSection CasePolicy.strict.matcher noCondition 2 =
      true := by decide
  exact ⟨hfree, hnames, hstrict,
    hmono _ _ _ _ _ hfree (hpolicies hnames).1 (hcondition linkCondition) 2 hstrict⟩

/-- A negation takes back what its selector gains. -/
example :
    let noParagraph := SimpleSelector.negation (CompoundSelector.ofParts none [.tag "P"])
    noParagraph.accepts .empty 1 (.named "p") CasePolicy.strict.matcher noCondition = true ∧
      noParagraph.accepts .empty 1 (.named "p") CasePolicy.html.matcher noCondition = false := by
  decide

end

end CssModel
