import CssModel.Proofs.Dom.Forest
import CssModel.Selector.Policy

/-!
# The meaning of complex selectors

A complex selector `S₀ … Sₖ` holds at a node if there are nodes `n₀ … nₖ`, the last of which is that
node, such that each compound selector matches its node and each combinator relates the node of its
selector to the one before. Matching finds such nodes backward, and tries one candidate after the
other for each combinator. It finds them whenever there are any: what the candidates are is a matter
of the tree alone, so an attempt that fails for one of them says nothing about the others.

Siblings are those that the links of the tree lead to. In a tree that is built by fitting edits they
are the neighbours in the list of children.

## Main definitions

* `CssModel.Combinator.Joins`: what a combinator says about two nodes
* `CssModel.MatchedBy`: a chain is matched by a sequence of nodes

## Main results

* `CssModel.Combinator.mem_candidates_iff`
* `CssModel.matchesBackward_iff`
* `CssModel.ComplexSelector.matches_iff_matchedBy`
-/

namespace CssModel

/-- What a combinator says about the nodes `a` before it and `n` behind it. A missing combinator is
read as that for descendants; only elements are adjacent. -/
def Combinator.Joins (t : Tree) (a n : NodeId) : Option Combinator → Prop
  | none | some .descendant => t.Ancestor a n
  | some .child => t.parent? n = some a
  | some .adjacent =>
    t.Precedes a n ∧ t.isElement a = true ∧
      ∀ z, t.Precedes z n → t.Precedes a z → t.isElement z = false
  | some .preceding => t.Precedes a n

/-- The candidates for a combinator are the nodes that it joins. -/
theorem Combinator.mem_candidates_iff {t : Tree} (h : t.Acyclic) {a n : NodeId}
    (combinator : Option Combinator) :
    a ∈ candidates t n combinator ↔ Joins t a n combinator := by
  cases combinator with
  | none => exact h.mem_ancestors_iff
  | some combinator =>
    cases combinator with
    | descendant => exact h.mem_ancestors_iff
    | child => simp [candidates, Joins]
    | adjacent =>
      rw [candidates, Option.mem_toList, h.find?_precedingSiblings_eq_some_iff]
      rfl
    | preceding => exact h.mem_precedingSiblings_iff

section

variable (t : Tree) (matcher : ElementMatcher) (condition : MatchCondition)

/-- Each compound selector of a chain matches its node, and each but the first is joined by its
combinator to the node before. -/
structure MatchedBy (chain : List CompoundSelector) (nodes : Nat → NodeId) : Prop where
  compounds : ∀ (i : Nat) (c : CompoundSelector), chain[i]? = some c →
    c.matches t matcher condition (nodes i) = true
  joined : ∀ (i : Nat) (c : CompoundSelector), chain[i + 1]? = some c →
    Combinator.Joins t (nodes i) (nodes (i + 1)) c.combinator

variable {t matcher condition}

namespace MatchedBy

variable {chain : List CompoundSelector} {c : CompoundSelector} {nodes nodes' : Nat → NodeId}

theorem singleton_iff :
    MatchedBy t matcher condition [c] nodes ↔ c.matches t matcher condition (nodes 0) = true := by
  refine ⟨fun h => h.compounds 0 c rfl, fun h => ⟨fun i d hd => ?_, fun i d hd => ?_⟩⟩
  · obtain ⟨rfl, rfl⟩ : i = 0 ∧ c = d := by
      simpa [List.getElem?_singleton] using hd
    exact h
  · simp at hd

/-- Only as many nodes matter as there are compound selectors. -/
theorem congr (heq : ∀ i < chain.length, nodes i = nodes' i)
    (h : MatchedBy t matcher condition chain nodes) :
    MatchedBy t matcher condition chain nodes' := by
  refine ⟨fun i c hc => ?_, fun i c hc => ?_⟩
  · rw [← heq i (List.getElem?_eq_some_iff.mp hc).1]
    exact h.compounds i c hc
  · have hlt := (List.getElem?_eq_some_iff.mp hc).1
    rw [← heq i (Nat.lt_of_succ_lt hlt), ← heq (i + 1) hlt]
    exact h.joined i c hc

/-- A chain that is one longer asks for one more node, joined to the last one. -/
theorem concat_iff {k : Nat} (hlen : chain.length = k + 1) :
    MatchedBy t matcher condition (chain ++ [c]) nodes ↔
      MatchedBy t matcher condition chain nodes ∧
        c.matches t matcher condition (nodes (k + 1)) = true ∧
          Combinator.Joins t (nodes k) (nodes (k + 1)) c.combinator := by
  have hlast : (chain ++ [c])[k + 1]? = some c := by
    rw [← hlen, List.getElem?_concat_length]
  constructor
  · intro h
    refine ⟨⟨fun i d hd => ?_, fun i d hd => ?_⟩, h.compounds _ _ hlast, h.joined _ _ hlast⟩
    · exact h.compounds i d (List.getElem?_append_left (List.getElem?_eq_some_iff.mp hd).1 ▸ hd)
    · exact h.joined i d (List.getElem?_append_left (List.getElem?_eq_some_iff.mp hd).1 ▸ hd)
  · rintro ⟨h, hc, hjoins⟩
    have hcases : ∀ i d, (chain ++ [c])[i]? = some d →
        chain[i]? = some d ∨ i = k + 1 ∧ d = c := by
      intro i d hd
      rw [List.getElem?_append] at hd
      split at hd
      · exact .inl hd
      · next hi =>
        obtain ⟨hi', rfl⟩ : i - chain.length = 0 ∧ c = d := by
          simpa [List.getElem?_singleton] using hd
        exact .inr ⟨by omega, rfl⟩
    refine ⟨fun i d hd => ?_, fun i d hd => ?_⟩
    · obtain hd | ⟨rfl, rfl⟩ := hcases i d hd
      · exact h.compounds i d hd
      · exact hc
    · obtain hd | ⟨hi, rfl⟩ := hcases (i + 1) d hd
      · exact h.joined i d hd
      · obtain rfl : i = k := by omega
        exact hjoins

end MatchedBy

/-- **Matching finds nodes for a chain whenever there are any.** The induction is on the chain, one
selector after the other joining at its end. -/
theorem matchesBackward_iff (h : t.Acyclic) (chain : List CompoundSelector) (n : NodeId) :
    matchesBackward t matcher condition chain.reverse n = true ↔
      ∃ (k : Nat) (nodes : Nat → NodeId), chain.length = k + 1 ∧ nodes k = n ∧
        MatchedBy t matcher condition chain nodes := by
  induction chain using List.reverseRecOn generalizing n with
  | nil => simp [matchesBackward]
  | append_singleton chain c ih =>
    rw [List.reverse_concat]
    cases hrev : chain.reverse with
    | nil =>
      obtain rfl : chain = [] := by simpa using hrev
      rw [matchesBackward, List.nil_append]
      constructor
      · intro hc
        exact ⟨0, fun _ => n, rfl, rfl, MatchedBy.singleton_iff.mpr hc⟩
      · rintro ⟨k, nodes, hk, rfl, hm⟩
        obtain rfl : k = 0 := by simpa using hk.symm
        exact MatchedBy.singleton_iff.mp hm
    | cons b rest =>
      rw [hrev] at ih
      rw [matchesBackward, Bool.and_eq_true, List.any_eq_true]
      constructor
      · rintro ⟨hc, a, ha, hmatches⟩
        obtain ⟨k, nodes, hk, rfl, hm⟩ := (ih a).mp hmatches
        have hjoins := (Combinator.mem_candidates_iff h c.combinator).mp ha
        have hlast : ¬ k + 1 ≤ k := Nat.not_succ_le_self k
        refine ⟨k + 1, fun i => if i ≤ k then nodes i else n, by simp [hk], if_neg hlast, ?_⟩
        rw [MatchedBy.concat_iff hk, if_neg hlast, if_pos (Nat.le_refl k)]
        refine ⟨hm.congr fun i hi => ?_, hc, hjoins⟩
        rw [if_pos (by omega)]
      · rintro ⟨j, nodes, hj, rfl, hm⟩
        obtain ⟨k, hk⟩ : ∃ k, chain.length = k + 1 := by
          refine ⟨rest.length, ?_⟩
          rw [← List.length_reverse, hrev, List.length_cons]
        obtain rfl : j = k + 1 := by
          rw [List.length_append, hk, List.length_singleton] at hj
          omega
        obtain ⟨hm, hc, hjoins⟩ := (MatchedBy.concat_iff hk).mp hm
        exact ⟨hc, nodes k, (Combinator.mem_candidates_iff h c.combinator).mpr hjoins,
          (ih _).mpr ⟨k, nodes, hk, rfl, hm⟩⟩

/-- Nothing is before the first compound selector for its combinator to join. -/
theorem matchesBackward_concat_withCombinator (chain : List CompoundSelector)
    (first : CompoundSelector) (combinator : Option Combinator) :
    matchesBackward t matcher condition (chain ++ [first.withCombinator combinator]) =
      matchesBackward t matcher condition (chain ++ [first]) := by
  induction chain with
  | nil => rfl
  | cons c chain ih =>
    funext n
    cases chain with
    | nil => rfl
    | cons b chain =>
      simp only [List.cons_append] at ih ⊢
      rw [matchesBackward, matchesBackward, ih]

/-- **A complex selector matches what it means.** In a tree without cycles a chain `S₀ … Sₖ` matches
a node if, and only if, there are nodes `n₀ … nₖ`, the last of which is the node, that its compound
selectors match and its combinators join. The empty chain matches nothing, and the combinator of
`S₀` plays no role. If the tree is built by fitting edits, the siblings that a combinator speaks of
are those in the list of children. -/
theorem ComplexSelector.matches_iff_matchedBy (h : t.Acyclic) (n : NodeId) :
    (∀ s : ComplexSelector, s.matches t matcher condition n = true ↔
      ∃ (k : Nat) (nodes : Nat → NodeId), s.compounds.length = k + 1 ∧ nodes k = n ∧
        MatchedBy t matcher condition s.compounds nodes) ∧
    (ComplexSelector.mk []).matches t matcher condition n = false ∧
    (∀ first combinator rest,
      (ComplexSelector.mk (CompoundOf.withCombinator first combinator :: rest)).matches t matcher
          condition n =
        (ComplexSelector.mk (first :: rest)).matches t matcher condition n) ∧
    (t.Built → ∀ x y, t.Precedes x y ↔
      ∃ p before after, t.children p = before ++ y :: after ∧ x ∈ before) := by
  refine ⟨fun s => matchesBackward_iff h s.compounds n, rfl, fun first combinator rest => ?_,
    fun hbuilt x y => hbuilt.forest.precedes_iff⟩
  rw [ComplexSelector.matches, ComplexSelector.matches, List.reverse_cons, List.reverse_cons,
    matchesBackward_concat_withCombinator]

/-- The selector `section p + *`. -/
def besideParagraph : ComplexSelector :=
  ⟨[.ofParts none [.tag "section"], .ofParts none [.tag "p"],
    .ofParts (some .adjacent) [.tag wildcard]]⟩

/-- The second paragraph of a section stands beside the first one; between the two is only text. -/
theorem ComplexSelector.matches_second_paragraph :
    Tree.twoParagraphs.Acyclic ∧ ∃ nodes, nodes 2 = 4 ∧
      MatchedBy Tree.twoParagraphs CasePolicy.strict.matcher noCondition
        besideParagraph.compounds nodes := by
  have hacyclic := Tree.built_twoParagraphs.forest.acyclic
  have hmatches : besideParagraph.matches Tree.twoParagraphs CasePolicy.strict.matcher noCondition
      4 = true := by decide
  obtain ⟨k, nodes, hk, hn, hm⟩ := ((matches_iff_matchedBy hacyclic 4).1 _).mp hmatches
  obtain rfl : k = 2 := (Nat.succ.inj hk).symm
  exact ⟨hacyclic, nodes, hn, hm⟩

end

end CssModel
