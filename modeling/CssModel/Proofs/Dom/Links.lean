import CssModel.Dom.Tree
import Mathlib.Data.List.Perm.Subperm
import Mathlib.Logic.Relation

/-!
# Following links

A walk through a tree follows one link from node to node and stops after as many steps as there are
nodes. `Leads` is what the walk is meant to compute, and has no bound: some number of steps leads
from one node to the other. Where the link has no cycle the bound is never met, because the nodes on
the way are distinct, so that the walk visits exactly the nodes that the link leads to.

## Main definitions

* `CssModel.Tree.Leads`, `CssModel.Tree.Ancestor`, `CssModel.Tree.Precedes`
* `CssModel.Tree.Visits`: a list of all nodes that a link leads through
* `CssModel.Tree.Acyclic`: neither parents nor preceding siblings go round in a circle

## Main results

* `CssModel.Tree.exists_visits`: without a cycle, all that a link leads through is a short list
* `CssModel.Tree.walk_eq_of_visits`: a walk that is long enough visits this list
* `CssModel.Tree.mem_ancestors_iff`, `CssModel.Tree.mem_precedingSiblings_iff`
* `CssModel.Tree.find?_precedingSiblings_eq_some_iff`: the nearest sibling with a property
-/

namespace CssModel

namespace Tree

/-- Following the link leads from `x` to `y` in one step or more. -/
def Leads (link : NodeId → Option NodeId) : NodeId → NodeId → Prop :=
  Relation.TransGen fun x y => link x = some y

/-- `a` is the parent of `n`, or the parent's parent, and so on. -/
def Ancestor (t : Tree) (a n : NodeId) : Prop := Leads t.parent? n a

/-- `a` is a sibling of `n` somewhere before it. -/
def Precedes (t : Tree) (a n : NodeId) : Prop := Leads t.previous? n a

/-- The nodes that the link leads through from `x`, all of them and in order. -/
def Visits (link : NodeId → Option NodeId) : NodeId → List NodeId → Prop
  | x, [] => link x = none
  | x, y :: ys => link x = some y ∧ Visits link y ys

section Link

variable {link : NodeId → Option NodeId} {x y : NodeId} {ys zs : List NodeId}

theorem Visits.mem_iff (h : Visits link x ys) : y ∈ ys ↔ Leads link x y := by
  induction ys generalizing x with
  | nil =>
    refine ⟨fun hy => absurd hy List.not_mem_nil, fun hy => ?_⟩
    obtain ⟨z, hz, -⟩ := Relation.TransGen.head'_iff.mp hy
    have hx : link x = none := h
    rw [hx] at hz
    exact absurd hz (by simp)
  | cons z zs ih =>
    obtain ⟨hz, hrest⟩ := h
    rw [List.mem_cons, ih hrest]
    constructor
    · rintro (rfl | hy)
      · exact .single hz
      · exact .head hz hy
    · intro hy
      obtain ⟨w, hw, hy⟩ := Relation.TransGen.head'_iff.mp hy
      obtain rfl : z = w := Option.some.inj (hz.symm.trans hw)
      exact Relation.reflTransGen_iff_eq_or_transGen.mp hy

theorem Visits.of_append (h : Visits link x (ys ++ y :: zs)) : Visits link y zs := by
  induction ys generalizing x with
  | nil => exact h.2
  | cons z ys ih => exact ih h.2

/-- A walk with enough steps visits everything. -/
theorem walk_eq_of_visits (h : Visits link x ys) {steps : Nat} (hle : ys.length ≤ steps) :
    walk link steps (link x) = ys := by
  induction ys generalizing x steps with
  | nil =>
    have hx : link x = none := h
    rw [hx]
    cases steps <;> rfl
  | cons y ys ih =>
    obtain ⟨hy, hrest⟩ := h
    obtain ⟨k, rfl⟩ : ∃ k, steps = k + 1 := ⟨steps - 1, by simp at hle; omega⟩
    rw [hy, walk, ih hrest (by simpa using hle)]

/-- A node list without repetition is no longer than there are numbers below its bound. -/
theorem length_le_of_nodup {n : Nat} (hnodup : ys.Nodup) (hlt : ∀ y ∈ ys, y < n) :
    ys.length ≤ n := by
  have hsub : ys ⊆ List.range n := fun y hy => List.mem_range.mpr (hlt y hy)
  simpa using (List.subperm_of_subset hnodup hsub).length_le

/-- In a list without repetition a node comes last if nothing stands behind it. -/
theorem getLast?_eq_some_iff_of_nodup {before after : List NodeId}
    (hnodup : (before ++ x :: after).Nodup) :
    (before ++ x :: after).getLast? = some x ↔ after = [] := by
  have hafter : x ∉ after := (List.nodup_cons.mp (List.nodup_append.mp hnodup).2.1).1
  rw [List.getLast?_append, List.getLast?_cons]
  cases hl : after.getLast? with
  | none =>
    obtain rfl : after = [] := List.getLast?_eq_none_iff.mp hl
    simp
  | some l =>
    have hmem := List.mem_of_getLast? hl
    have hne : l ≠ x := fun he => hafter (he ▸ hmem)
    simpa [hne] using List.ne_nil_of_mem hmem

/-- The induction is on the number of nodes that have not been `seen` on the way to `x`. -/
private theorem exists_visits_aux {n : Nat} (hacyclic : ∀ z, ¬ Leads link z z)
    (hlt : ∀ a b, link a = some b → a < n) :
    ∀ (k : Nat) (x : NodeId) (seen : List NodeId), seen.Nodup → (∀ s ∈ seen, s < n) →
      (∀ s ∈ seen, Leads link s x) → n ≤ seen.length + k →
      ∃ ys, Visits link x ys ∧ ys.length ≤ k := by
  intro k
  induction k with
  | zero =>
    intro x seen hnodup hseen hleads hle
    refine ⟨[], ?_, Nat.le_refl 0⟩
    cases hx : link x with
    | none => exact hx
    | some y =>
      have hnew : x ∉ seen := fun hmem => hacyclic x (hleads x hmem)
      have hbound := length_le_of_nodup (List.nodup_cons.mpr ⟨hnew, hnodup⟩)
        (List.forall_mem_cons.mpr ⟨hlt x y hx, hseen⟩)
      simp only [List.length_cons] at hbound
      omega
  | succ k ih =>
    intro x seen hnodup hseen hleads hle
    cases hx : link x with
    | none => exact ⟨[], hx, Nat.zero_le _⟩
    | some y =>
      have hnew : x ∉ seen := fun hmem => hacyclic x (hleads x hmem)
      have hleads' : ∀ s ∈ x :: seen, Leads link s y :=
        List.forall_mem_cons.mpr ⟨.single hx, fun s hs => (hleads s hs).tail hx⟩
      obtain ⟨ys, hys, hlen⟩ := ih y (x :: seen) (List.nodup_cons.mpr ⟨hnew, hnodup⟩)
        (List.forall_mem_cons.mpr ⟨hlt x y hx, hseen⟩) hleads'
        (by simp only [List.length_cons]; omega)
      exact ⟨y :: ys, ⟨hx, hys⟩, by simpa using hlen⟩

/-- **Without a cycle a link ends.** If only the nodes below `n` have a link, then what the link
leads through is a list of at most `n` nodes. -/
theorem exists_visits {n : Nat} (hacyclic : ∀ z, ¬ Leads link z z)
    (hlt : ∀ a b, link a = some b → a < n) (x : NodeId) :
    ∃ ys, Visits link x ys ∧ ys.length ≤ n :=
  exists_visits_aux hacyclic hlt n x [] List.nodup_nil (by simp) (by simp) (by simp)

end Link

/-! ### The walks of a tree -/

theorem lt_size_of_node?_eq {t : Tree} {x : NodeId} {n : Node} (h : t.node? x = some n) :
    x < t.size := by
  obtain ⟨hlt, -⟩ := Array.getElem?_eq_some_iff.mp h
  exact hlt

theorem lt_size_of_parent?_eq {t : Tree} {x p : NodeId} (h : t.parent? x = some p) :
    x < t.size := by
  obtain ⟨n, hn, -⟩ := Option.bind_eq_some_iff.mp h
  exact lt_size_of_node?_eq hn

theorem lt_size_of_previous?_eq {t : Tree} {x p : NodeId} (h : t.previous? x = some p) :
    x < t.size := by
  obtain ⟨n, hn, -⟩ := Option.bind_eq_some_iff.mp h
  exact lt_size_of_node?_eq hn

/-- Neither parents nor preceding siblings go round in a circle. -/
structure Acyclic (t : Tree) : Prop where
  parent : ∀ n, ¬ t.Ancestor n n
  previous : ∀ n, ¬ t.Precedes n n

namespace Acyclic

variable {t : Tree}

theorem visits_ancestors (h : t.Acyclic) (n : NodeId) :
    Visits t.parent? n (t.ancestors n) := by
  obtain ⟨ys, hys, hlen⟩ := exists_visits h.parent (fun _ _ => lt_size_of_parent?_eq) n
  rwa [ancestors, walk_eq_of_visits hys hlen]

theorem visits_precedingSiblings (h : t.Acyclic) (n : NodeId) :
    Visits t.previous? n (t.precedingSiblings n) := by
  obtain ⟨ys, hys, hlen⟩ := exists_visits h.previous (fun _ _ => lt_size_of_previous?_eq) n
  rwa [precedingSiblings, walk_eq_of_visits hys hlen]

theorem mem_ancestors_iff (h : t.Acyclic) {a n : NodeId} :
    a ∈ t.ancestors n ↔ t.Ancestor a n :=
  (h.visits_ancestors n).mem_iff

theorem mem_precedingSiblings_iff (h : t.Acyclic) {a n : NodeId} :
    a ∈ t.precedingSiblings n ↔ t.Precedes a n :=
  (h.visits_precedingSiblings n).mem_iff

/-- The first sibling with a property on the way to the front is the nearest one: no sibling
between the two has the property. -/
theorem find?_precedingSiblings_eq_some_iff (h : t.Acyclic) {p : NodeId → Bool} {a n : NodeId} :
    (t.precedingSiblings n).find? p = some a ↔
      t.Precedes a n ∧ p a = true ∧
        ∀ z, t.Precedes z n → t.Precedes a z → p z = false := by
  have hvisits := h.visits_precedingSiblings n
  rw [List.find?_eq_some_iff_append]
  constructor
  · rintro ⟨hp, as, bs, heq, has⟩
    rw [heq] at hvisits
    refine ⟨hvisits.mem_iff.mp (by simp), hp, fun z hz haz => ?_⟩
    obtain hz | rfl | hz : z ∈ as ∨ z = a ∨ z ∈ bs := by simpa using hvisits.mem_iff.mpr hz
    · simpa using has z hz
    · exact absurd haz (h.previous z)
    · exact absurd (haz.trans (hvisits.of_append.mem_iff.mp hz)) (h.previous z)
  · rintro ⟨ha, hp, hbetween⟩
    obtain ⟨as, bs, heq⟩ := List.append_of_mem (hvisits.mem_iff.mpr ha)
    refine ⟨hp, as, bs, heq, fun z hz => ?_⟩
    obtain ⟨cs, ds, rfl⟩ := List.append_of_mem hz
    rw [heq] at hvisits
    have hzn : t.Precedes z n := hvisits.mem_iff.mp (by simp)
    have haz : t.Precedes a z := by
      rw [List.append_assoc, List.cons_append] at hvisits
      exact hvisits.of_append.mem_iff.mp (by simp)
    simp [hbetween z hzn haz]

end Acyclic

end Tree

end CssModel
