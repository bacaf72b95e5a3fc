import CssModel.Selector.Policy
import Mathlib.Data.List.Induction

/-!
# Assigned pseudo-classes

An application gives pseudo-classes to nodes and to tag names, and takes all of them from a node
again. What holds of a node in the end is read off the history of these edits: what the node was
given since it was last cleared, and what its tag name was given at any time, before or after the
node was cleared or even made. Letters are folded when a name is written down and when it is looked
up, so their case counts nowhere.

What is given to a node and what is given to a tag name is kept apart, and an edit that names a node
touches what is given to that node only. Therefore two histories that differ in what was done to
other nodes cannot be told apart at a node.

## Main definitions

* `CssModel.PseudoAssignment.run`
* `CssModel.PseudoAssignment.GivenToNode`, `CssModel.PseudoAssignment.GivenToName`: what a history
  of edits says
* `CssModel.PseudoAssignment.AgreeAt`: assignments that cannot be told apart at a node

## Main results

* `CssModel.PseudoAssignment.mem_byNode_run`, `CssModel.PseudoAssignment.mem_byName_run`
* `CssModel.PseudoAssignment.AgreeAt.run`
* `CssModel.PseudoAssignment.condition_run`
-/

namespace CssModel.PseudoAssignment

/-- Edits one after the other. -/
def run (a : PseudoAssignment) (edits : List Edit) : PseudoAssignment :=
  edits.foldl apply a

/-- The node that an edit names. -/
def Edit.node? : Edit → Option NodeId
  | .toNode node _ | .clear node => some node
  | .toName _ _ => none

/-! ### Histories -/

/-- The node was given the pseudo-class, and it was not cleared afterwards. -/
def GivenToNode (edits : List Edit) (node : NodeId) (name : String) : Prop :=
  ∃ before pseudo after, edits = before ++ .toNode node pseudo :: after ∧
    Ascii.sameText pseudo name = true ∧ .clear node ∉ after

/-- The tag name was given the pseudo-class. -/
def GivenToName (edits : List Edit) (tag name : String) : Prop :=
  ∃ other pseudo, .toName other pseudo ∈ edits ∧
    Ascii.sameText other tag = true ∧ Ascii.sameText pseudo name = true

section Histories

variable {edits : List Edit} {node : NodeId} {tag name : String}

theorem not_givenToNode_nil : ¬ GivenToNode [] node name := by
  rintro ⟨before, pseudo, after, heq, -⟩
  simp at heq

/-- A pseudo-class that was given last has just been given, or was given before an edit that does
not clear the node. -/
theorem givenToNode_concat {e : Edit} : GivenToNode (edits ++ [e]) node name ↔
    (∃ pseudo, e = .toNode node pseudo ∧ Ascii.sameText pseudo name = true) ∨
      e ≠ .clear node ∧ GivenToNode edits node name := by
  constructor
  · rintro ⟨before, pseudo, after, heq, hname, hclear⟩
    cases after using List.reverseRecOn with
    | nil =>
      obtain ⟨-, hlast⟩ := List.append_inj' heq rfl
      exact .inl ⟨pseudo, List.singleton_inj.mp hlast, hname⟩
    | append_singleton after last =>
      rw [← List.cons_append, ← List.append_assoc] at heq
      obtain ⟨rfl, hlast⟩ := List.append_inj' heq rfl
      obtain rfl : e = last := by simpa using hlast
      rw [List.mem_append, List.mem_singleton, not_or] at hclear
      exact .inr ⟨Ne.symm hclear.2, before, pseudo, after, rfl, hname, hclear.1⟩
  · rintro (⟨pseudo, rfl, hname⟩ | ⟨hne, before, pseudo, after, rfl, hname, hclear⟩)
    · exact ⟨edits, pseudo, [], rfl, hname, List.not_mem_nil⟩
    · refine ⟨before, pseudo, after ++ [e], by simp, hname, ?_⟩
      rw [List.mem_append, List.mem_singleton, not_or]
      exact ⟨hclear, hne.symm⟩

theorem givenToName_concat {e : Edit} : GivenToName (edits ++ [e]) tag name ↔
    (∃ other pseudo, e = .toName other pseudo ∧
      Ascii.sameText other tag = true ∧ Ascii.sameText pseudo name = true) ∨
      GivenToName edits tag name := by
  constructor
  · rintro ⟨other, pseudo, hmem, hsame⟩
    obtain hmem | hlast := List.mem_append.mp hmem
    · exact .inr ⟨other, pseudo, hmem, hsame⟩
    · exact .inl ⟨other, pseudo, (List.mem_singleton.mp hlast).symm, hsame⟩
  · rintro (⟨other, pseudo, rfl, hsame⟩ | ⟨other, pseudo, hmem, hsame⟩)
    · exact ⟨other, pseudo, List.mem_append_right _ List.mem_cons_self, hsame⟩
    · exact ⟨other, pseudo, List.mem_append_left _ hmem, hsame⟩

end Histories

/-! ### What is held -/

section Held

variable {a b : PseudoAssignment} {node : NodeId} {tag name : String}

theorem run_concat (a : PseudoAssignment) (edits : List Edit) (e : Edit) :
    a.run (edits ++ [e]) = (a.run edits).apply e := by
  rw [run, List.foldl_append]
  rfl

/-- What an edit does to the pseudo-classes of a node. -/
theorem mem_byNode_apply {e : Edit} : (node, Ascii.lower name) ∈ (a.apply e).byNode ↔
    (∃ pseudo, e = .toNode node pseudo ∧ Ascii.sameText pseudo name = true) ∨
      e ≠ .clear node ∧ (node, Ascii.lower name) ∈ a.byNode := by
  cases e with
  | toNode other pseudo =>
    simp only [apply, assignToNode, List.mem_cons, Prod.mk.injEq, Edit.toNode.injEq, Ascii.sameText,
      beq_iff_eq, ne_eq, reduceCtorEq, not_false_eq_true, true_and]
    grind
  | toName other pseudo => simp [apply, assignToName]
  | clear other =>
    simp only [apply, clearNode, List.mem_filter, decide_eq_true_eq, ne_eq, Edit.clear.injEq,
      reduceCtorEq, false_and, exists_false, false_or]
    rw [and_comm, eq_comm]

/-- What an edit does to the pseudo-classes of a tag name. -/
theorem mem_byName_apply {e : Edit} :
    (Ascii.lower tag, Ascii.lower name) ∈ (a.apply e).byName ↔
      (∃ other pseudo, e = .toName other pseudo ∧
        Ascii.sameText other tag = true ∧ Ascii.sameText pseudo name = true) ∨
        (Ascii.lower tag, Ascii.lower name) ∈ a.byName := by
  cases e with
  | toName other pseudo =>
    simp only [apply, assignToName, List.mem_cons, Prod.mk.injEq, Edit.toName.injEq, Ascii.sameText,
      beq_iff_eq]
    grind
  | toNode other pseudo => simp [apply, assignToNode]
  | clear other => simp [apply, clearNode]

/-- **A node holds what it was given since it was last cleared.** -/
theorem mem_byNode_run (edits : List Edit) :
    (node, Ascii.lower name) ∈ (empty.run edits).byNode ↔ GivenToNode edits node name := by
  induction edits using List.reverseRecOn with
  | nil => exact iff_of_false List.not_mem_nil not_givenToNode_nil
  | append_singleton edits e ih => rw [run_concat, mem_byNode_apply, givenToNode_concat, ih]

/-- **A tag name holds whatever it was given.** -/
theorem mem_byName_run (edits : List Edit) :
    (Ascii.lower tag, Ascii.lower name) ∈ (empty.run edits).byName ↔
      GivenToName edits tag name := by
  induction edits using List.reverseRecOn with
  | nil => exact iff_of_false List.not_mem_nil fun ⟨_, _, hmem, _⟩ => List.not_mem_nil hmem
  | append_singleton edits e ih => rw [run_concat, mem_byName_apply, givenToName_concat, ih]

theorem condition_eq_true_iff {tree : Tree} {s : SimpleSelector} :
    a.condition tree node s = true ↔ ∃ name, s.pseudoClassName? = some name ∧
      ((node, Ascii.lower name) ∈ a.byNode ∨ ∃ e, tree.element? node = some e ∧
        (Ascii.lower e.tag, Ascii.lower name) ∈ a.byName) := by
  rw [condition]
  cases s.pseudoClassName? with
  | none => simp
  | some name => cases tree.element? node <;> simp

/-! ### Other nodes -/

/-- The same pseudo-classes are held at the node, and the same for every tag name. -/
structure AgreeAt (node : NodeId) (a b : PseudoAssignment) : Prop where
  byNode : ∀ folded, (node, folded) ∈ a.byNode ↔ (node, folded) ∈ b.byNode
  byName : a.byName = b.byName

theorem AgreeAt.condition_eq (h : AgreeAt node a b) (tree : Tree) (s : SimpleSelector) :
    a.condition tree node s = b.condition tree node s := by
  rw [Bool.eq_iff_iff, condition_eq_true_iff, condition_eq_true_iff]
  simp only [h.byNode, h.byName]

/-- An edit keeps assignments alike. -/
theorem AgreeAt.apply (h : AgreeAt node a b) (e : Edit) : AgreeAt node (a.apply e) (b.apply e) := by
  obtain ⟨hnode, hname⟩ := h
  cases e with
  | toNode other pseudo =>
    exact ⟨fun folded => by simp [PseudoAssignment.apply, assignToNode, hnode], hname⟩
  | toName other pseudo => exact ⟨hnode, by simp [PseudoAssignment.apply, assignToName, hname]⟩
  | clear other =>
    exact ⟨fun folded => by simp [PseudoAssignment.apply, clearNode, hnode], hname⟩

theorem AgreeAt.run (h : AgreeAt node a b) (edits : List Edit) :
    AgreeAt node (a.run edits) (b.run edits) := by
  induction edits generalizing a b with
  | nil => exact h
  | cons e edits ih => exact ih (h.apply e)

/-- **An edit of one node leaves every other node as it was.** -/
theorem agreeAt_apply_other {e : Edit} {other : NodeId} (he : e.node? = some other)
    (hne : other ≠ node) : AgreeAt node (a.apply e) a := by
  cases e with
  | toNode node' pseudo =>
    obtain rfl : node' = other := Option.some.inj he
    exact ⟨fun folded => by simp [PseudoAssignment.apply, assignToNode, hne.symm], rfl⟩
  | toName tag pseudo => cases he
  | clear node' =>
    obtain rfl : node' = other := Option.some.inj he
    exact ⟨fun folded => by simp [PseudoAssignment.apply, clearNode, hne.symm], rfl⟩

end Held

/-! ### The condition -/

/-- **The condition tells the whole history of edits.** A pseudo-class holds at a node if the node
was given it since it was last cleared, or if the node is an element whose tag name was given it at
any time; letter case never counts. Nothing but pseudo-classes ever holds. An edit that names a node
can be left out of the history, or put into it, without any other node being answered otherwise. -/
theorem condition_run (tree : Tree) (node : NodeId) :
    (∀ edits s name, s.pseudoClassName? = some name →
      ((empty.run edits).condition tree node s = true ↔ GivenToNode edits node name ∨
        ∃ e, tree.element? node = some e ∧ GivenToName edits e.tag name)) ∧
      (∀ edits s, s.pseudoClassName? = none →
        (empty.run edits).condition tree node s = false) ∧
      ∀ before e after other, e.node? = some other → other ≠ node → ∀ s,
        (empty.run (before ++ e :: after)).condition tree node s =
          (empty.run (before ++ after)).condition tree node s := by
  refine ⟨?_, ?_, ?_⟩
  · intro edits s name hname
    simp only [condition_eq_true_iff, hname, Option.some.injEq, exists_eq_left', mem_byNode_run,
      mem_byName_run]
  · intro edits s hnone
    rw [Bool.eq_false_iff, ne_eq, condition_eq_true_iff, hnone]
    simp
  · intro before e after other he hne s
    have hagree : AgreeAt node ((empty.run before).apply e) (empty.run before) :=
      agreeAt_apply_other he hne
    rw [run, run, List.foldl_append, List.foldl_append]
    exact (hagree.run after).condition_eq tree s

/-- An input that is cleared loses what it was given itself and keeps what all inputs have, and
nothing that is done to the text beside it counts. -/
theorem condition_run_cleared_input :
    let tree := (Tree.empty.appendNew rootId (.element (.named "input"))).appendNew rootId
      (.text "a")
    let hover := SimpleSelector.pseudoClass (.ofName "HOVER" none)
    let enabled := SimpleSelector.pseudoClass (.ofName "enabled" none)
    let before : List Edit := [.toNode 1 "hover", .toName "INPUT" "Enabled", .clear 1]
    let assignment := empty.run (before ++ [.toNode 2 "hover"])
    hover.pseudoClassName? = some "HOVER" ∧ enabled.pseudoClassName? = some "enabled" ∧
      (SimpleSelector.tag "input").pseudoClassName? = none ∧
      (Edit.toNode 2 "hover").node? = some 2 ∧
      assignment.condition tree 1 enabled = true ∧ assignment.condition tree 1 hover = false ∧
      assignment.condition tree 2 hover = true ∧
      assignment.condition tree 1 (.tag "input") = false := by
  intro tree hover enabled before assignment
  obtain ⟨hclass, hother, hleft⟩ := condition_run tree 1
  have helement : tree.element? 1 = some (.named "input") := by decide
  refine ⟨rfl, rfl, rfl, rfl, ?_, ?_, ?_, hother _ _ rfl⟩
  · refine (hclass _ enabled "enabled" rfl).mpr (.inr ⟨_, helement, "INPUT", "Enabled", ?_⟩)
    decide
  · exact (hleft before (.toNode 2 "hover") [] 2 rfl (by decide) hover).trans (by decide)
  · refine ((condition_run tree 2).1 _ hover "HOVER" rfl).mpr (.inl ⟨before, "hover", [], ?_⟩)
    decide

end CssModel.PseudoAssignment
