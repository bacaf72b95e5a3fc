import CssModel.Proofs.Selector.PseudoElementPlace
import CssModel.Proofs.Selector.Specificity
import CssModel.Selector.Policy

/-!
# Invalid parts

Two kinds of part are kept although nothing can be done with them: a pseudo-class that asks for an
index which its argument does not give, and a pseudo-element of unknown name. Neither matches
anything, and so does no selector that has one among its parts.

Selectors have no validity of their own, however. A negation asks whether its selector matches, and
a selector that fails for an invalid part does not: the negation holds for every element. It might
as well not be there. When all such negations are dropped, from the inside out, either an invalid
part is left outside negations or there is none left at any depth.

## Main definitions

* `CssModel.SimpleSelector.isInvalid`
* `CssModel.SimpleSelector.pruned`, `CssModel.prunedParts`, `CssModel.CompoundSelector.pruned`: what
  is left of a selector, if anything

## Main results

* `CssModel.SimpleSelector.accepts_of_isInvalid`
* `CssModel.SimpleSelector.accepts_eq_any_pruned`, `CssModel.acceptsAll_eq_any_prunedParts`
* `CssModel.CompoundSelector.matches_eq_any_pruned`
* `CssModel.CompoundSelector.matches_nothing_or_as_pruned`
-/

namespace CssModel

/-- Whether the part is a pseudo-class without the index it asks for, or an unknown
pseudo-element. -/
def SimpleSelector.isInvalid : SimpleSelector → Bool
  | .pseudoClass p => p.lacksIndex
  | .pseudoElement p => p.kind.isNone
  | _ => false

mutual

/-- The parts that are left of a part; none if it is invalid. Nothing is left of a negation whose
selector has an invalid part. -/
def SimpleSelector.pruned : SimpleSelector → Option (List SimpleSelector)
  | .negation ⟨combinator, parts, _⟩ =>
    match prunedParts parts with
    | some left => some [.negation (CompoundSelector.ofParts combinator left)]
    | none => some []
  | part => if part.isInvalid then none else some [part]

/-- The parts that are left of all these; none if one of them is invalid. -/
def prunedParts : List SimpleSelector → Option (List SimpleSelector)
  | [] => some []
  | part :: rest => part.pruned.bind fun left => (prunedParts rest).map (left ++ ·)

end

/-- The selector without negations that hold for every element because of an invalid part; none if
an invalid part stands outside negations. -/
def CompoundSelector.pruned (s : CompoundSelector) : Option CompoundSelector :=
  (prunedParts s.parts).map (ofParts s.combinator)

/-! ### What is left -/

section Left

variable {part : SimpleSelector} {parts left : List SimpleSelector}

theorem leavesOf_append (parts parts' : List SimpleSelector) :
    leavesOf (parts ++ parts') = leavesOf parts ++ leavesOf parts' := by
  simp only [ComplexSelector.leavesOf_eq_flatMap, List.flatMap_append]

theorem leavesOf_singleton (part : SimpleSelector) : leavesOf [part] = part.leaves := by
  rw [leavesOf, leavesOf, List.append_nil]

/-- Nothing is left of a part exactly if it is invalid. -/
theorem SimpleSelector.pruned_eq_none_iff (part : SimpleSelector) :
    part.pruned = none ↔ part.isInvalid = true := by
  cases part with
  | negation s =>
    obtain ⟨combinator, parts, place⟩ := s
    rw [pruned]
    cases prunedParts parts <;> simp [isInvalid]
  | _ => simp [pruned]

theorem prunedParts_eq_none_iff (parts : List SimpleSelector) :
    prunedParts parts = none ↔ ∃ part ∈ parts, part.isInvalid = true := by
  induction parts with
  | nil => simp [prunedParts]
  | cons part rest ih =>
    rw [prunedParts, List.exists_mem_cons_iff, ← ih, ← part.pruned_eq_none_iff]
    cases part.pruned <;> simp

/-- A part that is no negation is left as it is, unless it is invalid. -/
theorem SimpleSelector.pruned_of_ne_negation (h : ∀ s, part ≠ .negation s) :
    part.pruned = if part.isInvalid then none else some [part] := by
  cases part with
  | negation s => exact absurd rfl (h s)
  | _ => rfl

theorem SimpleSelector.isInvalid_of_pruned_of_ne_negation (h : part.pruned = some left)
    (hpart : ∀ s, part ≠ .negation s) : ∀ leaf ∈ leavesOf left, leaf.isInvalid = false := by
  have hleaves : part.leaves = [part] := by
    cases part with
    | negation s => exact absurd rfl (hpart s)
    | _ => rfl
  rw [pruned_of_ne_negation hpart] at h
  split at h
  · cases h
  · next hvalid =>
    obtain rfl := Option.some.inj h
    rw [leavesOf_singleton, hleaves]
    simpa using hvalid

mutual

/-- What is left of a part has no invalid part at any depth. -/
theorem SimpleSelector.isInvalid_of_pruned : ∀ (part : SimpleSelector)
    {left : List SimpleSelector}, part.pruned = some left →
      ∀ leaf ∈ leavesOf left, leaf.isInvalid = false
  | .negation ⟨combinator, parts, _⟩, left, h => by
    rw [SimpleSelector.pruned] at h
    cases hparts : prunedParts parts with
    | none =>
      obtain rfl : [] = left := by simpa [hparts] using h
      simp [leavesOf]
    | some kept =>
      obtain rfl : [.negation (CompoundSelector.ofParts combinator kept)] = left := by
        simpa [hparts] using h
      rw [leavesOf_singleton, SimpleSelector.leaves, CompoundSelector.parts_ofParts]
      exact isInvalid_of_prunedParts parts hparts
  | .tag _, _, h | .className _, _, h | .idName _, _, h | .attribute _, _, h
  | .pseudoClass _, _, h | .pseudoElement _, _, h | .node _ _, _, h =>
    SimpleSelector.isInvalid_of_pruned_of_ne_negation h nofun

/-- What is left of parts has no invalid part at any depth. -/
theorem isInvalid_of_prunedParts : ∀ (parts : List SimpleSelector)
    {left : List SimpleSelector}, prunedParts parts = some left →
      ∀ leaf ∈ leavesOf left, leaf.isInvalid = false
  | [], _, h => by
    cases h
    simp [leavesOf]
  | part :: rest, left, h => by
    rw [prunedParts] at h
    obtain ⟨kept, hkept, h⟩ := Option.bind_eq_some_iff.mp h
    obtain ⟨others, hothers, rfl⟩ := Option.map_eq_some_iff.mp h
    intro leaf hleaf
    rw [leavesOf_append] at hleaf
    obtain hleaf | hleaf := List.mem_append.mp hleaf
    · exact part.isInvalid_of_pruned hkept leaf hleaf
    · exact isInvalid_of_prunedParts rest hothers leaf hleaf

end

end Left

/-! ### Matching -/

section

variable {t : Tree} {n : NodeId} {e : Element} {m : ElementMatcher} {c : MatchCondition}

theorem acceptsAll_append (parts parts' : List SimpleSelector) :
    acceptsAll t n e m c (parts ++ parts') =
      (acceptsAll t n e m c parts && acceptsAll t n e m c parts') := by
  induction parts with
  | nil => rfl
  | cons part rest ih => rw [List.cons_append, acceptsAll, acceptsAll, ih, Bool.and_assoc]

theorem acceptsAll_singleton (part : SimpleSelector) :
    acceptsAll t n e m c [part] = part.accepts t n e m c := by
  rw [acceptsAll, acceptsAll, Bool.and_true]

theorem PseudoClass.matches_of_lacksIndex {p : PseudoClass} (h : p.lacksIndex = true) :
    p.matches t n e c = false := by
  obtain ⟨kind, name, argument, index⟩ := p
  obtain ⟨htakes, hnone⟩ : ((kind.map PseudoClassKind.takesIndex).getD false) = true ∧
      index = none := by
    simpa [lacksIndex] using h
  subst hnone
  cases kind with
  | none => cases htakes
  | some kind => cases kind <;> first | rfl | cases htakes

/-- **An invalid part accepts no element.** -/
theorem SimpleSelector.accepts_of_isInvalid {part : SimpleSelector} (h : part.isInvalid = true) :
    part.accepts t n e m c = false := by
  cases part with
  | pseudoClass p =>
    rw [accepts]
    exact PseudoClass.matches_of_lacksIndex h
  | pseudoElement p =>
    rw [isInvalid, Option.isNone_iff_eq_none] at h
    rw [accepts, h]
    rfl
  | _ => cases h

/-- A part that is no negation accepts nothing if nothing is left of it. -/
theorem SimpleSelector.accepts_eq_any_pruned_of_ne_negation {part : SimpleSelector}
    (h : ∀ s, part ≠ .negation s) :
    part.accepts t n e m c = part.pruned.any (acceptsAll t n e m c) := by
  rw [pruned_of_ne_negation h]
  split
  · next hinvalid => exact accepts_of_isInvalid hinvalid
  · exact (acceptsAll_singleton part).symm

mutual

/-- A part accepts as what is left of it does, or nothing if nothing is left. -/
theorem SimpleSelector.accepts_eq_any_pruned : ∀ part : SimpleSelector,
    part.accepts t n e m c = part.pruned.any (acceptsAll t n e m c)
  | .negation ⟨combinator, parts, _⟩ => by
    rw [SimpleSelector.accepts, SimpleSelector.pruned, acceptsAll_eq_any_prunedParts parts]
    cases prunedParts parts with
    | none => rfl
    | some left =>
      simp only [Option.any_some, acceptsAll_singleton]
      rw [SimpleSelector.accepts, CompoundSelector.parts_ofParts]
  | .tag _ | .className _ | .idName _ | .attribute _ | .pseudoClass _ | .pseudoElement _
  | .node _ _ => SimpleSelector.accepts_eq_any_pruned_of_ne_negation nofun

/-- Parts accept as what is left of them does, or nothing if nothing is left. -/
theorem acceptsAll_eq_any_prunedParts : ∀ parts : List SimpleSelector,
    acceptsAll t n e m c parts = (prunedParts parts).any (acceptsAll t n e m c)
  | [] => rfl
  | part :: rest => by
    rw [acceptsAll, prunedParts, part.accepts_eq_any_pruned, acceptsAll_eq_any_prunedParts rest]
    cases part.pruned with
    | none => rfl
    | some left =>
      cases prunedParts rest with
      | none => simp
      | some others => simp [acceptsAll_append]

end

end

/-! ### Compound selectors -/

namespace CompoundSelector

variable {s left : CompoundSelector}

theorem pruned_eq_none_iff : s.pruned = none ↔ ∃ part ∈ s.parts, part.isInvalid = true := by
  rw [pruned, Option.map_eq_none_iff, prunedParts_eq_none_iff]

/-- What is left of a selector has no invalid part at any depth. -/
theorem isInvalid_of_pruned (h : s.pruned = some left) :
    ∀ leaf ∈ leavesOf left.parts, leaf.isInvalid = false := by
  obtain ⟨parts, hparts, rfl⟩ := Option.map_eq_some_iff.mp h
  rw [parts_ofParts]
  exact isInvalid_of_prunedParts s.parts hparts

/-- A selector matches as what is left of it does, or nothing if nothing is left. -/
theorem matches_eq_any_pruned (s : CompoundSelector) (t : Tree) (m : ElementMatcher)
    (c : MatchCondition) (n : NodeId) :
    s.matches t m c n = s.pruned.any fun left => left.matches t m c n := by
  rw [CompoundSelector.matches, pruned]
  cases he : t.element? n with
  | none => cases prunedParts s.parts <;> simp [CompoundSelector.matches, he]
  | some e =>
    simp only [acceptsAll_eq_any_prunedParts s.parts]
    cases prunedParts s.parts with
    | none => rfl
    | some parts => simp [CompoundSelector.matches, he, parts_ofParts]

/-- **An invalid part makes its selector match nothing, and a negation of that selector is as if it
were not there.** For every tree, node, matcher and condition, a selector with an invalid part
outside negations does not match. Of any other selector the negations can be dropped whose selector
has an invalid part of its own, from the inside out: then no invalid part is left at any depth, and
what is left matches wherever the selector does. -/
theorem matches_nothing_or_as_pruned (s : CompoundSelector) :
    ((∃ part ∈ s.parts, part.isInvalid = true) →
      ∀ (t : Tree) (m : ElementMatcher) (c : MatchCondition) (n : NodeId),
        s.matches t m c n = false) ∧
    ((∀ part ∈ s.parts, part.isInvalid = false) →
      ∃ left, s.pruned = some left ∧ (∀ leaf ∈ leavesOf left.parts, leaf.isInvalid = false) ∧
        ∀ (t : Tree) (m : ElementMatcher) (c : MatchCondition) (n : NodeId),
          s.matches t m c n = left.matches t m c n) := by
  constructor
  · intro hinvalid t m c n
    rw [matches_eq_any_pruned, pruned_eq_none_iff.mpr hinvalid]
    rfl
  · intro hvalid
    cases hpruned : s.pruned with
    | none =>
      obtain ⟨part, hpart, hinvalid⟩ := pruned_eq_none_iff.mp hpruned
      rw [hvalid part hpart] at hinvalid
      cases hinvalid
    | some left =>
      refine ⟨left, rfl, isInvalid_of_pruned hpruned, fun t m c n => ?_⟩
      rw [matches_eq_any_pruned, hpruned]
      rfl

/-- The part `:nth-child(x)`. -/
def unreadIndex : SimpleSelector :=
  .pseudoClass (.ofName "nth-child" (some "x"))

/-- The part `::unknown`. -/
def unknownElement : SimpleSelector :=
  .pseudoElement ⟨PseudoElementKind.ofText? "unknown", "unknown", none⟩

/-- The selector `p:not(:nth-child(x)):not(.a:not(::unknown))`. -/
def negatedTwice : CompoundSelector :=
  ofParts none [.tag "p", .negation (ofParts none [unreadIndex]),
    .negation (ofParts none [.className "a", .negation (ofParts none [unknownElement])])]

/-- Of `p:not(:nth-child(x)):not(.a:not(::unknown))` nothing but `p:not(.a)` is left, and
`p::unknown` matches nothing. -/
theorem negatedTwice_matches_as_left :
    (∀ part ∈ negatedTwice.parts, part.isInvalid = false) ∧
      (∃ leaf ∈ leavesOf negatedTwice.parts, leaf.isInvalid = true) ∧
      (∀ t m c n, negatedTwice.matches t m c n =
        (ofParts none [.tag "p", .negation (ofParts none [.className "a"])]).matches t m c n) ∧
      ∀ t m c n, (ofParts none [.tag "p", unknownElement]).matches t m c n = false := by
  have hvalid : ∀ part ∈ negatedTwice.parts, part.isInvalid = false := by decide
  have hinvalid : ∃ part ∈ (ofParts none [.tag "p", unknownElement]).parts,
      part.isInvalid = true := by decide
  have hpruned : negatedTwice.pruned =
      some (ofParts none [.tag "p", .negation (ofParts none [.className "a"])]) := rfl
  obtain ⟨left, hleft, -, hmatches⟩ :=
    (matches_nothing_or_as_pruned negatedTwice).2 hvalid
  obtain rfl := Option.some.inj (hpruned.symm.trans hleft)
  exact ⟨hvalid, by decide, hmatches,
    (matches_nothing_or_as_pruned _).1 hinvalid⟩

/-- An invalid part under one negation makes it match. -/
theorem matches_negated_unreadIndex :
    (∃ leaf ∈ leavesOf [.negation (ofParts none [unreadIndex])], leaf.isInvalid = true) ∧
      (ofParts none [.negation (ofParts none [unreadIndex])]).matches
        (Tree.empty.appendNew 0 (.element (.named "p"))) CasePolicy.html.matcher noCondition 1 =
          true := by
  decide

end CompoundSelector

end CssModel
