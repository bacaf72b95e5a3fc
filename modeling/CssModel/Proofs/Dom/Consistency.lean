import CssModel.Proofs.Dom.Forest

/-!
# Consistent trees

Each node holds its parent, its children and its two neighbours, so that every relation is written
down more than once. Here the four are compared with each other and with the walks, for every tree
that is built by appending nodes that stand alone.

A walk is computed with a bound on its length. `Visits` knows no bound: it says that the links lead
through these nodes one by one, and from the last of them nowhere. A walk that visits in this sense
has not been cut off.

## Main definitions

* `CssModel.Tree.Consistent`

## Main results

* `CssModel.Tree.Forest.nodup_ancestors`: no node is met twice on the way up
* `CssModel.Tree.Forest.visits_followingSiblings`: the walk behind a node ends
* `CssModel.Tree.Built.consistent`: every tree that is built is consistent
-/

namespace CssModel

namespace Tree

variable {t : Tree} {p c x : NodeId}

/-- All that is written down about a node, and all that the walks find, agrees with the lists of
children. -/
structure Consistent (t : Tree) : Prop where
  /-- A node has its place in one list of children at most. -/
  eq_of_mem_children : ∀ {p q c : NodeId}, c ∈ t.children p → c ∈ t.children q → p = q
  /-- It has one place in that list. -/
  nodup_children : ∀ p : NodeId, (t.children p).Nodup
  parent?_eq_some_iff : ∀ {p c : NodeId}, t.parent? c = some p ↔ c ∈ t.children p
  /-- The neighbours, and all siblings on either side. -/
  siblings : ∀ {p c : NodeId} {before after : List NodeId},
    t.children p = before ++ c :: after →
      t.previous? c = before.getLast? ∧ t.next? c = after.head? ∧
        t.precedingSiblings c = before.reverse ∧ t.followingSiblings c = after
  /-- A node without a parent has no siblings. -/
  alone : ∀ {c : NodeId}, t.parent? c = none → t.previous? c = none ∧ t.next? c = none
  /-- The three walks follow their links to the end. -/
  visits : ∀ c : NodeId,
    Visits t.parent? c (t.ancestors c) ∧ Visits t.previous? c (t.precedingSiblings c) ∧
      Visits t.next? c (t.followingSiblings c)
  nodup_ancestors : ∀ c : NodeId, (t.ancestors c).Nodup

/-- Without a cycle no node is visited twice. -/
theorem Visits.nodup {link : NodeId → Option NodeId} {ys : List NodeId}
    (hacyclic : ∀ z, ¬ Leads link z z) (h : Visits link x ys) : ys.Nodup := by
  induction ys generalizing x with
  | nil => exact List.nodup_nil
  | cons y ys ih =>
    obtain ⟨-, hrest⟩ := h
    have hnew : y ∉ ys := fun hy => hacyclic y (hrest.mem_iff.mp hy)
    exact List.nodup_cons.mpr ⟨hnew, ih hrest⟩

theorem not_ancestor_of_parent?_eq_none (h : t.parent? p = none) : ¬ t.Ancestor c p := by
  intro hc
  obtain ⟨q, hq, -⟩ := Relation.TransGen.head'_iff.mp hc
  simp [h] at hq

namespace Forest

theorem nodup_ancestors (h : t.Forest) (c : NodeId) : (t.ancestors c).Nodup :=
  (h.acyclic.visits_ancestors c).nodup h.not_ancestor_self

/-- The walk behind a node ends with the last child of the parent; behind a node that stands alone
there is nothing. -/
theorem visits_followingSiblings (h : t.Forest) (c : NodeId) :
    Visits t.next? c (t.followingSiblings c) := by
  cases hc : t.parent? c with
  | none =>
    have hnext : t.next? c = none := (h.alone hc).2
    have hnil : Visits t.next? c [] := hnext
    rwa [followingSiblings, walk_eq_of_visits hnil (Nat.zero_le _)]
  | some p =>
    obtain ⟨before, after, heq⟩ := List.append_of_mem (h.mem_children_iff.mpr hc)
    rw [h.followingSiblings_eq heq]
    exact h.visits_next heq

end Forest

/-- **The links of a tree that is built agree with each other, and every walk ends.** -/
theorem Built.consistent (h : t.Built) : t.Consistent where
  eq_of_mem_children := by
    intro p q c hp hq
    rw [h.forest.mem_children_iff] at hp hq
    exact Option.some.inj (hp.symm.trans hq)
  nodup_children := h.forest.nodup_children
  parent?_eq_some_iff := h.forest.mem_children_iff.symm
  siblings := by
    intro p c before after heq
    obtain ⟨hprevious, hnext⟩ := h.forest.siblings heq
    exact ⟨hprevious, hnext, h.forest.precedingSiblings_eq heq, h.forest.followingSiblings_eq heq⟩
  alone := h.forest.alone
  visits c :=
    ⟨h.forest.acyclic.visits_ancestors c, h.forest.acyclic.visits_precedingSiblings c,
      h.forest.visits_followingSiblings c⟩
  nodup_ancestors := h.forest.nodup_ancestors

/-! ### A tree put together from below -/

theorem Built.alloc (h : t.Built) (kind : NodeKind) : (t.alloc kind).Built :=
  have hfits : Edit.Fits t (.alloc kind) := trivial
  h.step hfits

/-- Under a parent that itself stands alone, a node may be put wherever it comes in the order of
numbers. -/
theorem Built.append (h : t.Built) (hp : p < t.size) (hc : c < t.size)
    (hparent : t.parent? p = none) (halone : t.parent? c = none) (hne : c ≠ p) :
    (t.append p c).Built :=
  have hfits : Edit.Fits t (.append p c) :=
    ⟨hp, hc, halone, hne, not_ancestor_of_parent?_eq_none hparent⟩
  h.step hfits

/-- A list of two entries. It is made after its first entry, and comes into the document when it is
complete. -/
def lateList : Tree :=
  empty
    |>.alloc (.element (.named "li"))
    |>.alloc (.element (.named "ul"))
    |>.append 2 1
    |>.appendNew 2 (.element (.named "li"))
    |>.append 0 2

theorem built_lateList : lateList.Built :=
  Built.empty
    |>.alloc _
    |>.alloc _
    |>.append (by decide) (by decide) (by decide) (by decide) (by decide)
    |>.appendNew (by decide) _
    |>.append (by decide) (by decide) (by decide) (by decide) (by decide)

theorem consistent_lateList :
    lateList.Built ∧ lateList.Consistent ∧ lateList.ancestors 1 = [2, 0] ∧
      lateList.followingSiblings 1 = [3] :=
  ⟨built_lateList, built_lateList.consistent, by decide, by decide⟩

end Tree

end CssModel
