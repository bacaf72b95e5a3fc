import CssModel.Proofs.Dom.Forest
import CssModel.Proofs.Selector.Index
import CssModel.Selector.Policy
import Mathlib.Data.List.Basic

/-!
# The place among siblings

Ten pseudo-classes ask for the place of an element among its siblings. The tests count the elements
on the way to the first sibling, or to the last; here it is shown that this gives the place in the
parent's list of children, of which only the elements are kept, or only those of the same tag name.

## Main definitions

* `CssModel.Tree.elementChildren`, `CssModel.Tree.elementChildrenOfType`
* `CssModel.Place`, `CssModel.Place.HoldsIn`: a place in a list
* `CssModel.PseudoClassKind.place?`: what a pseudo-class asks for

## Main results

* `CssModel.Place.holdsIn_iff`: a place, by how many stand before and behind
* `CssModel.Tree.Forest.toInt_siblingPosition`: what the tests count
* `CssModel.SimpleSelector.matches_iff_place_holdsIn`
-/

namespace CssModel

/-- The elements among the children of a node. -/
def Tree.elementChildren (t : Tree) (p : NodeId) : List NodeId :=
  (t.children p).filter t.isElement

/-- The elements of a tag name, in any letter case, among the children of a node. -/
def Tree.elementChildrenOfType (t : Tree) (p : NodeId) (tag : String) : List NodeId :=
  (t.elementChildren p).filter fun c => (t.element? c).any fun e => Ascii.sameText e.tag tag

/-! ### Places in a list -/

/-- A place in a list. -/
inductive Place
  | first
  | last
  | only
  | nth
  | nthLast
  deriving DecidableEq, Repr

namespace Place

/-- Whether a node has the place in the list. Positions are counted from one and are those of the
index, if there is one. -/
def HoldsIn (index : Option Index) (nodes : List NodeId) (n : NodeId) : Place → Prop
  | .first => nodes.head? = some n
  | .last => nodes.getLast? = some n
  | .only => nodes = [n]
  | .nth => ∃ i, index = some i ∧ i.Covers (nodes.idxOf n + 1)
  | .nthLast => ∃ i, index = some i ∧ i.Covers (nodes.reverse.idxOf n + 1)

/-- Whether the place is the one with so many nodes before it and so many behind it. -/
def HoldsAt (index : Option Index) (before after : Nat) : Place → Prop
  | .first => before = 0
  | .last => after = 0
  | .only => before = 0 ∧ after = 0
  | .nth => ∃ i, index = some i ∧ i.Covers (before + 1)
  | .nthLast => ∃ i, index = some i ∧ i.Covers (after + 1)

/-- In a list without repetition the place of a node is a matter of numbers. -/
theorem holdsIn_iff {index : Option Index} {before after : List NodeId} {n : NodeId}
    (hnodup : (before ++ n :: after).Nodup) (place : Place) :
    place.HoldsIn index (before ++ n :: after) n ↔
      place.HoldsAt index before.length after.length := by
  obtain ⟨-, hnodup', hdisjoint⟩ := List.nodup_append.mp hnodup
  have hbefore : n ∉ before := fun hn => hdisjoint n hn n (by simp) rfl
  have hafter : n ∉ after := (List.nodup_cons.mp hnodup').1
  have hfirst : (before ++ n :: after).head? = some n ↔ before.length = 0 := by
    cases before with
    | nil => simp
    | cons b before => simpa using fun hb : b = n => hbefore (by simp [hb])
  have hlast : (before ++ n :: after).getLast? = some n ↔ after.length = 0 := by
    rw [Tree.getLast?_eq_some_iff_of_nodup hnodup, List.length_eq_zero_iff]
  cases place with
  | first => exact hfirst
  | last => exact hlast
  | only =>
    rw [HoldsIn, HoldsAt, List.append_eq_singleton_iff]
    simp
  | nth =>
    rw [HoldsIn, HoldsAt, List.idxOf_append_of_notMem hbefore, List.idxOf_cons_self, Nat.add_zero]
  | nthLast =>
    have hreverse : n ∉ after.reverse := by simpa using hafter
    rw [HoldsIn, HoldsAt, List.reverse_append, List.reverse_cons, List.append_assoc,
      List.idxOf_append_of_notMem hreverse, List.singleton_append, List.idxOf_cons_self,
      Nat.add_zero, List.length_reverse]

/-- The test for a place, given the positions from the start and from the end. -/
def test (index : Option Index) (front back : Int32) : Place → Bool
  | .first => front == 1
  | .last => back == 1
  | .only => front == 1 && back == 1
  | .nth =>
    match index with
    | some i => i.contains front
    | none => false
  | .nthLast =>
    match index with
    | some i => i.contains back
    | none => false

theorem test_iff {index : Option Index} {front back : Int32} {before after : Nat}
    (hfront : front.toInt = before + 1) (hback : back.toInt = after + 1) (place : Place) :
    place.test index front back = true ↔ place.HoldsAt index before after := by
  have hone : ∀ {position : Int32} {k : Nat}, position.toInt = k + 1 →
      ((position == 1) = true ↔ k = 0) := by
    intro position k hk
    rw [beq_iff_eq, ← Int32.toInt_inj, hk, show (1 : Int32).toInt = 1 from rfl]
    omega
  cases place with
  | first => exact hone hfront
  | last => exact hone hback
  | only => rw [test, Bool.and_eq_true, hone hfront, hone hback, HoldsAt]
  | nth => cases index <;> simp [test, HoldsAt, Index.contains_iff, hfront]
  | nthLast => cases index <;> simp [test, HoldsAt, Index.contains_iff, hback]

end Place

/-! ### What the tests count -/

/-- What a structural pseudo-class asks for: whether only siblings of the same tag name count, and
the place among those that do. -/
def PseudoClassKind.place? : PseudoClassKind → Option (Bool × Place)
  | .firstChild => some (false, .first)
  | .lastChild => some (false, .last)
  | .onlyChild => some (false, .only)
  | .nthChild => some (false, .nth)
  | .nthLastChild => some (false, .nthLast)
  | .firstOfType => some (true, .first)
  | .lastOfType => some (true, .last)
  | .onlyOfType => some (true, .only)
  | .nthOfType => some (true, .nth)
  | .nthLastOfType => some (true, .nthLast)
  | _ => none

section

variable {t : Tree} {p n : NodeId} {e : Element} {matcher : ElementMatcher}
  {condition : MatchCondition} {pc : PseudoClass} {ofType : Bool} {place : Place}

/-- The tag name that the siblings which count must have, if it matters. -/
def siblingTag (ofType : Bool) (e : Element) : Option String :=
  if ofType then some e.tag else none

theorem PseudoClass.matches_eq_test (condition : MatchCondition)
    (hkind : pc.kind.bind PseudoClassKind.place? = some (ofType, place)) :
    pc.matches t n e condition =
      place.test pc.index (siblingPosition t n (siblingTag ofType e) false)
        (siblingPosition t n (siblingTag ofType e) true) := by
  obtain ⟨kind, name, argument, index⟩ := pc
  cases kind with
  | none => simp at hkind
  | some kind =>
    cases kind <;> cases hkind <;> rfl

theorem countsAsSibling_eq (ofType : Bool) (c : NodeId) :
    countsAsSibling t (siblingTag ofType e) c =
      (t.isElement c && (!ofType || (t.element? c).any fun e' => Ascii.sameText e'.tag e.tag)) := by
  rw [countsAsSibling, Tree.isElement]
  cases t.element? c <;> cases ofType <;> simp [siblingTag]

theorem filter_countsAsSibling (ofType : Bool) :
    (t.children p).filter (countsAsSibling t (siblingTag ofType e)) =
      if ofType then t.elementChildrenOfType p e.tag else t.elementChildren p := by
  rw [Tree.elementChildrenOfType, Tree.elementChildren, List.filter_filter]
  cases ofType <;> simp [funext (countsAsSibling_eq _), Bool.and_comm]

namespace Tree.Forest

/-- The position of a node is one more than how many siblings count before it, or behind it. -/
theorem toInt_siblingPosition (h : t.Forest) {before after : List NodeId}
    (heq : t.children p = before ++ n :: after) (hlen : (t.children p).length < 2147483647)
    (tag : Option String) :
    (siblingPosition t n tag false).toInt =
        (before.filter (countsAsSibling t tag)).length + 1 ∧
      (siblingPosition t n tag true).toInt =
        (after.filter (countsAsSibling t tag)).length + 1 := by
  have hsum : before.length + (after.length + 1) < 2147483647 := by
    simpa [heq] using hlen
  have hposition : ∀ siblings : List NodeId, siblings.length < 2147483647 →
      (Int32.ofNat (min 2147483647 (siblings.countP (countsAsSibling t tag) + 1))).toInt =
        (siblings.filter (countsAsSibling t tag)).length + 1 := by
    intro siblings hsiblings
    have hle : siblings.countP (countsAsSibling t tag) ≤ siblings.length := List.countP_le_length
    rw [Nat.min_eq_right (by omega), Int32.toInt_ofNat_of_lt (by omega),
      List.countP_eq_length_filter]
    rfl
  constructor
  · rw [siblingPosition, if_neg (by simp), h.precedingSiblings_eq heq, hposition _ (by simp; omega)]
    simp
  · rw [siblingPosition, if_pos rfl, h.followingSiblings_eq heq]
    exact hposition _ (by omega)

end Tree.Forest

/-- **Structural pseudo-classes speak of the list of children.** -/
theorem SimpleSelector.matches_iff_place_holdsIn (h : t.Built) (hchild : n ∈ t.children p)
    (helement : t.element? n = some e) (hlen : (t.children p).length < 2147483647)
    (hkind : pc.kind.bind PseudoClassKind.place? = some (ofType, place)) :
    (SimpleSelector.pseudoClass pc).matches t matcher condition n = true ↔
      place.HoldsIn pc.index
        (if ofType then t.elementChildrenOfType p e.tag else t.elementChildren p) n := by
  have hforest := h.forest
  obtain ⟨before, after, heq⟩ := List.append_of_mem hchild
  obtain ⟨hfront, hback⟩ := hforest.toInt_siblingPosition heq hlen (siblingTag ofType e)
  have hself : countsAsSibling t (siblingTag ofType e) n = true := by
    rw [countsAsSibling, helement]
    cases ofType <;> simp [siblingTag, Ascii.sameText]
  have hnodup : ((t.children p).filter (countsAsSibling t (siblingTag ofType e))).Nodup :=
    (hforest.nodup_children p).filter _
  rw [heq, List.filter_append, List.filter_cons_of_pos hself] at hnodup
  rw [← filter_countsAsSibling, heq, List.filter_append, List.filter_cons_of_pos hself,
    Place.holdsIn_iff hnodup, ← Place.test_iff hfront hback,
    ← PseudoClass.matches_eq_test condition hkind, SimpleSelector.matches, helement]
  simp only [SimpleSelector.accepts]

/-- A paragraph may be the second of its type although a text stands before it and its tag name is
in upper case. -/
theorem second_paragraph_is_second_of_type :
    4 ∈ Tree.twoParagraphs.children 1 ∧ Tree.twoParagraphs.element? 4 = some (.named "P") ∧
      (Tree.twoParagraphs.children 1).length < 2147483647 ∧
        Place.nth.HoldsIn (some ⟨2, 0⟩) (Tree.twoParagraphs.elementChildrenOfType 1 "P") 4 := by
  have hchild : 4 ∈ Tree.twoParagraphs.children 1 := by decide
  have helement : Tree.twoParagraphs.element? 4 = some (.named "P") := by decide
  have hlen : (Tree.twoParagraphs.children 1).length < 2147483647 := by decide
  have hmatches : (SimpleSelector.pseudoClass
      ⟨some .nthOfType, "nth-of-type", some "2n", some ⟨2, 0⟩⟩).matches Tree.twoParagraphs
        CasePolicy.strict.matcher noCondition 4 = true := by decide
  have hplace := (SimpleSelector.matches_iff_place_holdsIn Tree.built_twoParagraphs hchild helement
    hlen rfl).mp hmatches
  exact ⟨hchild, helement, hlen, hplace⟩

end

end CssModel
