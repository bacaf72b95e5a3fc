import CssModel.Proofs.Dom.Links
import Mathlib.Data.List.Induction

/-!
# Trees that grow by appending

A tree is built from the empty document by making nodes and appending them. If a node is only
appended while it stands alone, and never below itself, then the four links of each node agree with
each other at any time: `Forest` states this through the lists of children alone, and every edit
keeps it.

Subtrees may be put together in any order, so that a node can be older or younger than its parent.
That no node comes to lie below itself is therefore no matter of numbers; it is part of the
invariant, and is kept because a node is not appended to its own descendants.

## Main definitions

* `CssModel.Tree.Edit.Fits`, `CssModel.Tree.Built`
* `CssModel.Tree.Forest`: the invariant

## Main results

* `CssModel.Tree.node?_append`: all that appending does
* `CssModel.Tree.Built.forest`: the invariant holds for every tree that is built
* `CssModel.Tree.Forest.precedingSiblings_eq`, `CssModel.Tree.Forest.followingSiblings_eq`
* `CssModel.Tree.Forest.acyclic`, `CssModel.Tree.Forest.precedes_iff`
-/

namespace CssModel

namespace Tree

variable {t : Tree} {p c x y : NodeId}

/-! ### Edits, node by node -/

theorem node?_update (id : NodeId) (f : Node → Node) :
    (t.update id f).node? x = (t.node? x).map fun n => if x = id then f n else n := by
  rw [node?, node?, update, Array.getElem?_modify]
  by_cases hx : x = id
  · simp [hx]
  · simp [hx, Ne.symm hx]

/-- The node after `c` has been appended to `p`, given the last child that `p` had before. -/
def appendedNode (p c : NodeId) (last : Option NodeId) (x : NodeId) (n : Node) : Node :=
  { n with
    children := if x = p then n.children ++ [c] else n.children
    parent := if x = c then some p else n.parent
    next := if last = some x then some c else n.next
    previous := if x = c then last.or n.previous else n.previous }

/-- **All that appending does.** Three nodes change: the child gets a parent and perhaps a sibling
before it, the parent gets a child, and its last child so far gets a sibling behind it. -/
theorem node?_append :
    (t.append p c).node? x = (t.node? x).map (appendedNode p c (t.lastChild? p) x) := by
  rw [append]
  cases t.lastChild? p with
  | none =>
    simp only [node?_update, Option.map_map]
    congr 1
    funext n
    obtain rfl | hp := eq_or_ne x p <;> obtain rfl | hc := eq_or_ne x c <;>
      simp_all [appendedNode]
  | some last =>
    simp only [node?_update, Option.map_map]
    congr 1
    funext n
    obtain rfl | hp := eq_or_ne x p <;> obtain rfl | hc := eq_or_ne x c <;>
      obtain rfl | hl := eq_or_ne x last <;> simp_all [appendedNode, Ne.symm]

theorem exists_node?_of_lt (h : x < t.size) : ∃ n, t.node? x = some n :=
  ⟨_, Array.getElem?_eq_getElem h⟩

theorem lastChild?_eq : t.lastChild? p = (t.children p).getLast? := by
  rw [lastChild?, children]
  cases t.node? p <;> simp

theorem parent?_append (hc : c < t.size) :
    (t.append p c).parent? x = if x = c then some p else t.parent? x := by
  rw [parent?, parent?, node?_append]
  by_cases hx : x = c
  · obtain ⟨n, hn⟩ := exists_node?_of_lt hc
    simp [hx, hn, appendedNode]
  · cases t.node? x <;> simp [hx, appendedNode]

theorem children_append (hp : p < t.size) :
    (t.append p c).children x = if x = p then t.children x ++ [c] else t.children x := by
  rw [children, children, node?_append]
  by_cases hx : x = p
  · obtain ⟨n, hn⟩ := exists_node?_of_lt hp
    simp [hx, hn, appendedNode]
  · cases t.node? x <;> simp [hx, appendedNode]

theorem previous?_append (hc : c < t.size) :
    (t.append p c).previous? x =
      if x = c then (t.lastChild? p).or (t.previous? x) else t.previous? x := by
  rw [previous?, previous?, node?_append]
  by_cases hx : x = c
  · obtain ⟨n, hn⟩ := exists_node?_of_lt hc
    simp [hx, hn, appendedNode]
  · cases t.node? x <;> simp [hx, appendedNode]

theorem next?_append (hlast : ∀ l, t.lastChild? p = some l → l < t.size) :
    (t.append p c).next? x = if t.lastChild? p = some x then some c else t.next? x := by
  rw [next?, next?, node?_append]
  by_cases hx : t.lastChild? p = some x
  · obtain ⟨n, hn⟩ := exists_node?_of_lt (hlast x hx)
    simp [hx, hn, appendedNode]
  · cases t.node? x <;> simp [hx, appendedNode]

/-! A new node stands alone, so making one changes no relation. -/

theorem node?_alloc (kind : NodeKind) :
    (t.alloc kind).node? x = if x = t.size then some (.detached kind) else t.node? x := by
  rw [node?, node?, alloc, size, Array.getElem?_push]

@[simp] theorem size_alloc (kind : NodeKind) : (t.alloc kind).size = t.size + 1 := by
  simp [size, alloc]

/-- Whatever is read from a node and has nothing to say about a node that stands alone. -/
theorem read_alloc {α : Type} {kind : NodeKind} (read : Option Node → α)
    (hread : read (some (.detached kind)) = read none) :
    read ((t.alloc kind).node? x) = read (t.node? x) := by
  rw [node?_alloc]
  by_cases hx : x = t.size
  · have hnone : t.node? x = none := by simp [node?, hx, size]
    rw [if_pos hx, hnone, hread]
  · rw [if_neg hx]

@[simp] theorem parent?_alloc (kind : NodeKind) : (t.alloc kind).parent? = t.parent? :=
  funext fun _ => read_alloc (fun n => n.bind Node.parent) rfl

@[simp] theorem children_alloc (kind : NodeKind) : (t.alloc kind).children = t.children :=
  funext fun _ => read_alloc (fun n => (n.map Node.children).getD []) rfl

@[simp] theorem previous?_alloc (kind : NodeKind) : (t.alloc kind).previous? = t.previous? :=
  funext fun _ => read_alloc (fun n => n.bind Node.previous) rfl

@[simp] theorem next?_alloc (kind : NodeKind) : (t.alloc kind).next? = t.next? :=
  funext fun _ => read_alloc (fun n => n.bind Node.next) rfl

/-! ### Building a tree -/

/-- An edit that makes no node its own ancestor and takes none from another parent. -/
def Edit.Fits (t : Tree) : Edit → Prop
  | .alloc _ => True
  | .append p c =>
    p < t.size ∧ c < t.size ∧ t.parent? c = none ∧ c ≠ p ∧ ¬ t.Ancestor c p
  | .appendNew p _ => p < t.size

/-- The trees that such edits build. -/
inductive Built : Tree → Prop
  | empty : Built .empty
  | step {t : Tree} {edit : Edit} (h : Built t) (hedit : edit.Fits t) : Built (t.apply edit)

/-- **The links of each node agree with the lists of children.** -/
structure Forest (t : Tree) : Prop where
  mem_children_iff : ∀ {p c : NodeId}, c ∈ t.children p ↔ t.parent? c = some p
  nodup_children : ∀ p : NodeId, (t.children p).Nodup
  siblings : ∀ {p c : NodeId} {before after : List NodeId},
    t.children p = before ++ c :: after →
      t.previous? c = before.getLast? ∧ t.next? c = after.head?
  alone : ∀ {c : NodeId}, t.parent? c = none → t.previous? c = none ∧ t.next? c = none
  not_ancestor_self : ∀ n : NodeId, ¬ t.Ancestor n n

namespace Forest

theorem lt_size_of_mem_children (h : c ∈ t.children p) : p < t.size := by
  rw [children] at h
  cases hp : t.node? p with
  | none => simp [hp] at h
  | some n => exact lt_size_of_node?_eq hp

theorem not_mem_children_of_alone (h : t.Forest) (hc : t.parent? c = none) :
    c ∉ t.children p := by
  rw [h.mem_children_iff, hc]
  simp

theorem parent?_of_getLast? (h : t.Forest) (hx : (t.children p).getLast? = some x) :
    t.parent? x = some p :=
  h.mem_children_iff.mp (List.mem_of_getLast? hx)

theorem lt_size_of_lastChild? (h : t.Forest) {l : NodeId} (hl : t.lastChild? p = some l) :
    l < t.size := by
  rw [lastChild?_eq] at hl
  exact lt_size_of_parent?_eq (h.parent?_of_getLast? hl)

/-! ### Every edit keeps the invariant -/

theorem alloc (h : t.Forest) (kind : NodeKind) : (t.alloc kind).Forest where
  mem_children_iff := by
    intro p c
    rw [children_alloc, parent?_alloc]
    exact h.mem_children_iff
  nodup_children := by simpa using h.nodup_children
  siblings := by
    intro p c before after hp
    rw [children_alloc] at hp
    rw [previous?_alloc, next?_alloc]
    exact h.siblings hp
  alone := by
    intro c hc
    rw [parent?_alloc] at hc
    rw [previous?_alloc, next?_alloc]
    exact h.alone hc
  not_ancestor_self := by simpa [Ancestor] using h.not_ancestor_self

/-- The empty document is what comes of making a node where there is none. -/
theorem empty : Forest .empty := by
  have hnone : Forest ⟨#[]⟩ := by
    constructor
    · simp [children, parent?, node?]
    · simp [children, node?]
    · simp [children, node?]
    · simp [previous?, next?, node?]
    · intro n hn
      obtain ⟨m, hm, -⟩ := Relation.TransGen.head'_iff.mp hn
      simp [parent?, node?] at hm
  exact hnone.alloc .document

section Append

variable (h : t.Forest) (hp : p < t.size) (hc : c < t.size) (halone : t.parent? c = none)
include h hp hc halone

/-- Among the children of any node, the neighbours stay the neighbours; the new child comes last. -/
theorem siblings_append {q x : NodeId} {before after : List NodeId}
    (hq : (t.append p c).children q = before ++ x :: after) :
    (t.append p c).previous? x = before.getLast? ∧ (t.append p c).next? x = after.head? := by
  have hlast : ∀ l, t.lastChild? p = some l → l < t.size := fun _ => h.lt_size_of_lastChild?
  have hnew : c ∉ t.children p := h.not_mem_children_of_alone halone
  rw [previous?_append hc, next?_append hlast, lastChild?_eq]
  rw [children_append hp] at hq
  by_cases hqp : q = p
  · rw [if_pos hqp, hqp] at hq
    obtain rfl | ⟨after, y, rfl⟩ := List.eq_nil_or_concat after
    · -- `x` is the new child
      obtain ⟨rfl, hx⟩ := List.append_inj' hq rfl
      obtain rfl : c = x := by simpa using hx
      have hne : (t.children p).getLast? ≠ some c := fun he =>
        hnew (List.mem_of_getLast? he)
      simp [hne, h.alone halone]
    · have hold : t.children p = before ++ x :: after ∧ c = y := by
        have hq' : t.children p ++ [c] = (before ++ x :: after) ++ [y] := by simpa using hq
        simpa using List.append_inj' hq' rfl
      obtain ⟨hold, rfl⟩ := hold
      have hxc : x ≠ c := fun he => hnew (by simp [hold, he])
      obtain ⟨hprev, hnext⟩ := h.siblings hold
      have hlast : (t.children p).getLast? = some x ↔ after = [] := by
        have hnodup := h.nodup_children p
        rw [hold] at hnodup ⊢
        exact getLast?_eq_some_iff_of_nodup hnodup
      refine ⟨by rw [if_neg hxc, hprev], ?_⟩
      rw [hnext]
      cases after <;> simp [hlast]
  · rw [if_neg hqp] at hq
    have hx : t.parent? x = some q := h.mem_children_iff.mp (by simp [hq])
    have hxc : x ≠ c := by
      rintro rfl
      simp [halone] at hx
    have hne : (t.children p).getLast? ≠ some x := by
      intro he
      exact hqp (Option.some.inj (hx.symm.trans (h.parent?_of_getLast? he)))
    rw [if_neg hxc, if_neg hne]
    exact h.siblings hq

omit h hp in
/-- A way up in the new tree is a way up in the old one, or it goes through the new child. -/
theorem leads_of_leads_append {x y : NodeId} (hne : c ≠ p) (hnot : ¬ t.Ancestor c p)
    (hxy : Leads (t.append p c).parent? x y) :
    Leads t.parent? x y ∨
      (x = c ∨ Leads t.parent? x c) ∧ (y = p ∨ Leads t.parent? p y) := by
  induction hxy with
  | single hxy =>
    rw [parent?_append hc] at hxy
    split at hxy
    · next hx => exact .inr ⟨.inl hx, .inl (Option.some.inj hxy).symm⟩
    · exact .inl (.single hxy)
  | @tail b y _ hby ih =>
    rw [parent?_append hc] at hby
    split at hby
    · next hb =>
      have hy : y = p := (Option.some.inj hby).symm
      subst hb
      rcases ih with ih | ⟨-, hbp | hpb⟩
      · exact .inr ⟨.inr ih, .inl hy⟩
      · exact absurd hbp hne
      · exact absurd hpb hnot
    · rcases ih with ih | ⟨hx, rfl | hpb⟩
      · exact .inl (ih.tail hby)
      · exact .inr ⟨hx, .inr (.single hby)⟩
      · exact .inr ⟨hx, .inr (hpb.tail hby)⟩

/-- **Appending keeps the invariant.** -/
theorem append (hne : c ≠ p) (hnot : ¬ t.Ancestor c p) : (t.append p c).Forest where
  mem_children_iff := by
    intro q x
    rw [children_append hp, parent?_append hc]
    by_cases hx : x = c
    · have hold : c ∉ t.children q := h.not_mem_children_of_alone halone
      subst hx
      by_cases hq : q = p
      · simp [hq]
      · simp [hq, Ne.symm hq, hold]
    · by_cases hq : q = p <;> simp [hq, hx, h.mem_children_iff]
  nodup_children := by
    intro q
    rw [children_append hp]
    split
    · exact List.nodup_append.mpr ⟨h.nodup_children q, by simp, by
        simpa using fun x hx he => h.not_mem_children_of_alone halone (he ▸ hx)⟩
    · exact h.nodup_children q
  siblings := h.siblings_append hp hc halone
  alone := by
    intro x hx
    rw [parent?_append hc] at hx
    split at hx
    · simp at hx
    · next hxc =>
      have hne : (t.children p).getLast? ≠ some x := fun he => by
        have hxp := h.parent?_of_getLast? he
        simp [hx] at hxp
      rw [previous?_append hc, next?_append fun _ => h.lt_size_of_lastChild?, lastChild?_eq,
        if_neg hxc, if_neg hne]
      exact h.alone hx
  not_ancestor_self := by
    intro n hn
    rcases leads_of_leads_append hc halone hne hnot hn with hn | ⟨rfl | hnc, hnp | hpn⟩
    · exact h.not_ancestor_self n hn
    · exact hne hnp
    · exact hnot hpn
    · exact hnot (hnp ▸ hnc)
    · exact hnot (hpn.trans hnc)

end Append

end Forest

/-- **Every tree that is built has the invariant.** -/
theorem Built.forest (h : t.Built) : t.Forest := by
  induction h with
  | empty => exact Forest.empty
  | @step t edit _ hedit ih =>
    cases edit with
    | alloc kind => exact ih.alloc kind
    | append p c =>
      obtain ⟨hp, hc, halone, hne, hnot⟩ := hedit
      exact ih.append hp hc halone hne hnot
    | appendNew p kind =>
      have hp : p < t.size := hedit
      have hnew : t.parent? t.size = none := by
        simp [parent?, node?, size]
      refine (ih.alloc kind).append (c := t.size) ?_ ?_ ?_ ?_ ?_
      · simpa using Nat.lt_succ_of_lt hp
      · simp
      · simpa using hnew
      · exact Nat.ne_of_gt hp
      · rw [Ancestor, parent?_alloc]
        intro hn
        obtain ⟨z, -, hz⟩ := Relation.TransGen.tail'_iff.mp hn
        exact absurd (Forest.lt_size_of_mem_children (ih.mem_children_iff.mpr hz))
          (Nat.lt_irrefl _)

/-! ### Siblings are the neighbours in the list of children -/

namespace Forest

variable {before after : List NodeId}

theorem visits_previous (h : t.Forest) (heq : t.children p = before ++ c :: after) :
    Visits t.previous? c before.reverse := by
  induction before using List.reverseRecOn generalizing c after with
  | nil => exact (h.siblings heq).1
  | append_singleton before b ih =>
    have hbefore : t.children p = before ++ b :: c :: after := by simpa using heq
    rw [List.reverse_append]
    refine ⟨?_, ih hbefore⟩
    simpa using (h.siblings heq).1

theorem visits_next (h : t.Forest) (heq : t.children p = before ++ c :: after) :
    Visits t.next? c after := by
  induction after generalizing c before with
  | nil => exact (h.siblings heq).2
  | cons a after ih =>
    have hbefore : t.children p = (before ++ [c]) ++ a :: after := by simpa using heq
    exact ⟨(h.siblings heq).2, ih hbefore⟩

theorem length_children_le (h : t.Forest) (p : NodeId) : (t.children p).length ≤ t.size :=
  length_le_of_nodup (h.nodup_children p) fun _ hy =>
    lt_size_of_parent?_eq (h.mem_children_iff.mp hy)

theorem precedingSiblings_eq (h : t.Forest) (heq : t.children p = before ++ c :: after) :
    t.precedingSiblings c = before.reverse := by
  have hle := h.length_children_le p
  rw [heq, List.length_append] at hle
  exact walk_eq_of_visits (h.visits_previous heq) (by simpa using Nat.le_of_add_right_le hle)

theorem followingSiblings_eq (h : t.Forest) (heq : t.children p = before ++ c :: after) :
    t.followingSiblings c = after := by
  have hle := h.length_children_le p
  rw [heq, List.length_append, List.length_cons] at hle
  exact walk_eq_of_visits (h.visits_next heq) (by omega)

/-- The siblings before a node are those that come before it in the list of children. -/
theorem precedes_iff (h : t.Forest) :
    t.Precedes x y ↔ ∃ p before after, t.children p = before ++ y :: after ∧ x ∈ before := by
  constructor
  · intro hxy
    cases hy : t.parent? y with
    | none =>
      obtain ⟨z, hz, -⟩ := Relation.TransGen.head'_iff.mp hxy
      rw [(h.alone hy).1] at hz
      exact absurd hz (by simp)
    | some p =>
      obtain ⟨before, after, heq⟩ := List.append_of_mem (h.mem_children_iff.mpr hy)
      have hmem := (h.visits_previous heq).mem_iff.mpr hxy
      exact ⟨p, before, after, heq, by simpa using hmem⟩
  · rintro ⟨p, before, after, heq, hx⟩
    exact (h.visits_previous heq).mem_iff.mp (by simpa using hx)

/-- **No link goes round in a circle.** -/
theorem acyclic (h : t.Forest) : t.Acyclic where
  parent := h.not_ancestor_self
  previous := by
    intro n hn
    obtain ⟨p, before, after, heq, hmem⟩ := h.precedes_iff.mp hn
    have hnodup := h.nodup_children p
    rw [heq] at hnodup
    exact (List.nodup_append.mp hnodup).2.2 n hmem n (by simp) rfl

end Forest

/-! ### A small document -/

theorem Built.appendNew (h : t.Built) (hp : p < t.size) (kind : NodeKind) :
    (t.appendNew p kind).Built :=
  have hfits : Edit.Fits t (.appendNew p kind) := hp
  h.step hfits

/-- A section of two paragraphs with a text between them; the second one has its tag name in upper
case. -/
def twoParagraphs : Tree :=
  empty
    |>.appendNew 0 (.element (.named "section"))
    |>.appendNew 1 (.element (.named "p"))
    |>.appendNew 1 (.text "and")
    |>.appendNew 1 (.element (.named "P"))

theorem built_twoParagraphs : twoParagraphs.Built :=
  Built.empty
    |>.appendNew (by decide) _
    |>.appendNew (by decide) _
    |>.appendNew (by decide) _
    |>.appendNew (by decide) _

end Tree

end CssModel
