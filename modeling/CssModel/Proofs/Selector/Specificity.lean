import CssModel.Selector.Basic
import Mathlib.Data.List.Flatten
import Mathlib.Data.List.Perm.Subperm

/-!
# What a specificity counts

The specificity of a selector is a sum of sums: over the chain, over the parts of each compound
selector, and again over the parts of what is negated. Every one of these sums stops at the largest
count. All the same it is one count, of the parts that are left when each negation is replaced by
the parts of its selector, and it stops only once. So neither the order of the parts nor how they
are grouped makes a difference, and nothing that is added makes a selector less specific.

## Main definitions

* `CssModel.SimpleSelector.leaves`, `CssModel.ComplexSelector.leaves`: negations replaced
* `CssModel.SimpleSelector.level?`, `CssModel.tally`: what is counted, and in which class

## Main results

* `CssModel.Specificity.count_add`: a sum stops where its counts do
* `CssModel.count_partsSpecificity`, `CssModel.ComplexSelector.count_specificity`
* `CssModel.Specificity.isLE_compare`: more in every class is no less
* `CssModel.ComplexSelector.specificity_counts_leaves`
-/

namespace CssModel

/-! ### What is counted -/

mutual

/-- The parts that a part stands for: a negation stands for those of its selector. -/
def SimpleSelector.leaves : SimpleSelector → List SimpleSelector
  | .negation ⟨_, parts, _⟩ => leavesOf parts
  | s => [s]

/-- The parts that all these stand for. -/
def leavesOf : List SimpleSelector → List SimpleSelector
  | [] => []
  | part :: rest => part.leaves ++ leavesOf rest

end

/-- The parts that a chain stands for. -/
def ComplexSelector.leaves (s : ComplexSelector) : List SimpleSelector :=
  s.compounds.flatMap fun c => leavesOf c.parts

/-- The class in which a part that is no negation is counted. -/
def SimpleSelector.level? : SimpleSelector → Option SpecificityLevel
  | .node _ inlineStyle => if inlineStyle then some .inlineStyles else none
  | .idName _ => some .ids
  | .className _ | .attribute _ | .pseudoClass _ => some .classes
  | .tag name => if name = wildcard then none else some .types
  | .pseudoElement _ => some .types
  | .negation _ => none

/-- How many of the parts are counted in the class. -/
def tally (level : SpecificityLevel) (leaves : List SimpleSelector) : Nat :=
  leaves.countP fun leaf => leaf.level? = some level

/-- The number, or the largest count. -/
def capped (n : Nat) : Nat :=
  min 4294967295 n

theorem tally_append (level : SpecificityLevel) (xs ys : List SimpleSelector) :
    tally level (xs ++ ys) = tally level xs + tally level ys :=
  List.countP_append

theorem capped_capped_add (m n : Nat) : capped (capped m + n) = capped (m + n) := by
  simp only [capped]
  omega

theorem capped_add_capped (m n : Nat) : capped (m + capped n) = capped (m + n) := by
  simp only [capped]
  omega

/-! ### Sums of specificities -/

namespace Specificity

theorem toNat_addCounts (a b : UInt32) : (addCounts a b).toNat = capped (a.toNat + b.toNat) :=
  UInt32.toNat_ofNat_of_lt (Nat.lt_of_le_of_lt (Nat.min_le_left _ _) (by decide))

/-- A sum of specificities, class by class. -/
theorem count_add (a b : Specificity) (level : SpecificityLevel) :
    ((a + b).count level).toNat = capped ((a.count level).toNat + (b.count level).toNat) := by
  cases level <;> exact toNat_addCounts _ _

theorem toNat_count_zero (level : SpecificityLevel) : (zero.count level).toNat = 0 := by
  cases level <;> rfl

theorem toNat_count_one (counted level : SpecificityLevel) :
    ((one counted).count level).toNat = if counted = level then 1 else 0 := by
  cases counted <;> cases level <;> rfl

theorem ext_count {a b : Specificity} (h : ∀ level, a.count level = b.count level) : a = b := by
  cases a
  cases b
  congr
  · exact h .inlineStyles
  · exact h .ids
  · exact h .classes
  · exact h .types

/-- If the weightier counts do not decrease, the others decide. -/
theorem isLE_compare_then {a b : UInt32} {others : Ordering} (h : a.toNat ≤ b.toNat)
    (hothers : others.isLE = true) : ((Ord.compare a b).then others).isLE = true := by
  obtain hlt | heq := Nat.lt_or_eq_of_le h
  · have hless : Ord.compare a b = .lt := compareOfLessAndEq_eq_lt.mpr hlt
    rw [hless]
    rfl
  · obtain rfl : a = b := UInt32.toNat_inj.mp heq
    have hsame : Ord.compare a a = .eq := Std.ReflOrd.compare_self
    rw [hsame]
    exact hothers

/-- What counts no less in any class is no less specific. -/
theorem isLE_compare {a b : Specificity}
    (h : ∀ level, (a.count level).toNat ≤ (b.count level).toNat) :
    (compare a b).isLE = true := by
  have htypes : ((Ord.compare a.types b.types).then .eq).isLE = true :=
    isLE_compare_then (h .types) rfl
  rw [Ordering.then_eq] at htypes
  exact isLE_compare_then (h .inlineStyles) <| isLE_compare_then (h .ids) <|
    isLE_compare_then (h .classes) htypes

end Specificity

/-! ### Selectors -/

/-- A part that is no negation counts one in its class. -/
theorem SimpleSelector.count_specificity_of_leaf {s : SimpleSelector} {summand : Specificity}
    {level : SpecificityLevel} (hleaves : s.leaves = [s])
    (h : (summand.count level).toNat = if s.level? = some level then 1 else 0) :
    (summand.count level).toNat = capped (tally level s.leaves) := by
  rw [h, hleaves, tally, List.countP_singleton, capped]
  split <;> simp_all

mutual

theorem SimpleSelector.count_specificity (level : SpecificityLevel) : ∀ s : SimpleSelector,
    (s.specificity.count level).toNat = capped (tally level s.leaves)
  | .negation ⟨_, parts, _⟩ => by
    rw [SimpleSelector.specificity, SimpleSelector.leaves, count_partsSpecificity,
      Specificity.toNat_count_zero, Nat.zero_add]
  | .tag name => by
    refine SimpleSelector.count_specificity_of_leaf rfl ?_
    rw [SimpleSelector.specificity, SimpleSelector.level?]
    split
    · rw [Specificity.toNat_count_zero]
      rfl
    · simp [Specificity.toNat_count_one]
  | .node _ inlineStyle => by
    refine SimpleSelector.count_specificity_of_leaf rfl ?_
    cases inlineStyle
    · exact Specificity.toNat_count_zero level
    · simp [SimpleSelector.specificity, SimpleSelector.level?, Specificity.toNat_count_one]
  | .className _ | .idName _ | .attribute _ | .pseudoClass _ | .pseudoElement _ => by
    refine SimpleSelector.count_specificity_of_leaf rfl ?_
    simp [SimpleSelector.specificity, SimpleSelector.level?, Specificity.toNat_count_one]

/-- What has been counted before and the parts are one count. -/
theorem count_partsSpecificity (level : SpecificityLevel) (counted : Specificity) :
    ∀ parts : List SimpleSelector,
      ((partsSpecificity counted parts).count level).toNat =
        capped ((counted.count level).toNat + tally level (leavesOf parts))
  | [] => by
    have hle := (counted.count level).toNat_lt
    simp only [partsSpecificity, leavesOf, tally, List.countP_nil, capped]
    omega
  | part :: rest => by
    rw [partsSpecificity, leavesOf, count_partsSpecificity level _ rest, Specificity.count_add,
      part.count_specificity level, capped_add_capped, capped_capped_add, tally_append,
      Nat.add_assoc]

end

theorem CompoundSelector.count_specificity (c : CompoundSelector) (level : SpecificityLevel) :
    (c.specificity.count level).toNat = capped (tally level (leavesOf c.parts)) := by
  rw [specificity, count_partsSpecificity, Specificity.toNat_count_zero, Nat.zero_add]

theorem count_foldl_specificity (level : SpecificityLevel) (compounds : List CompoundSelector)
    (sum : Specificity) :
    ((compounds.foldl (fun sum c => sum + c.specificity) sum).count level).toNat =
      capped ((sum.count level).toNat +
        tally level (compounds.flatMap fun c => leavesOf c.parts)) := by
  induction compounds generalizing sum with
  | nil =>
    have hle := (sum.count level).toNat_lt
    simp only [List.foldl_nil, List.flatMap_nil, tally, List.countP_nil, capped]
    omega
  | cons c compounds ih =>
    rw [List.foldl_cons, ih, Specificity.count_add, c.count_specificity level, capped_add_capped,
      capped_capped_add, List.flatMap_cons, tally_append, Nat.add_assoc]

namespace ComplexSelector

/-- Each count of the specificity is the number of parts in its class, or the largest count. -/
theorem count_specificity (s : ComplexSelector) (level : SpecificityLevel) :
    (s.specificity.count level).toNat = capped (tally level s.leaves) := by
  rw [specificity, count_foldl_specificity, Specificity.toNat_count_zero, Nat.zero_add, leaves]

section

variable {s s' : ComplexSelector}

theorem specificity_eq_of_perm (h : s.leaves.Perm s'.leaves) : s'.specificity = s.specificity := by
  refine Specificity.ext_count fun level => UInt32.toNat_inj.mp ?_
  rw [s.count_specificity, s'.count_specificity, tally, tally, h.countP_eq]

theorem isLE_compare_of_subperm (h : s.leaves.Subperm s'.leaves) :
    (Specificity.compare s.specificity s'.specificity).isLE = true := by
  refine Specificity.isLE_compare fun level => ?_
  have hle : tally level s.leaves ≤ tally level s'.leaves := h.countP_le _
  rw [s.count_specificity, s'.count_specificity, capped, capped]
  omega

end

theorem leavesOf_eq_flatMap (parts : List SimpleSelector) :
    leavesOf parts = parts.flatMap SimpleSelector.leaves := by
  induction parts with
  | nil => rfl
  | cons part rest ih => rw [leavesOf, ih, List.flatMap_cons]

/-- Which compound selector a part stands in makes no difference to what the chain stands for. -/
theorem leaves_eq_flatMap (s : ComplexSelector) :
    s.leaves = (s.compounds.flatMap CompoundOf.parts).flatMap SimpleSelector.leaves := by
  rw [leaves, List.flatMap_assoc]
  exact List.flatMap_congr fun c _ => leavesOf_eq_flatMap c.parts

theorem subperm_leaves_of_sublist {s s' : ComplexSelector}
    (h : (s.compounds.flatMap CompoundOf.parts).Sublist (s'.compounds.flatMap CompoundOf.parts)) :
    s.leaves.Subperm s'.leaves := by
  rw [s.leaves_eq_flatMap, s'.leaves_eq_flatMap]
  exact (h.flatMap _).subperm

/-- **A specificity is one count of parts.** Each of its numbers is how many parts of its class
there are when every negation is replaced by the parts of its selector, up to the largest count.
Neither the order of the parts nor their grouping changes it, and what is added, a compound selector
or a part anywhere in one, never lowers it. -/
theorem specificity_counts_leaves (s : ComplexSelector) :
    (∀ level, (s.specificity.count level).toNat =
      min 4294967295 (s.leaves.countP fun leaf => leaf.level? = some level)) ∧
    (∀ s' : ComplexSelector, s.leaves.Perm s'.leaves → s'.specificity = s.specificity) ∧
    (∀ s' : ComplexSelector, (s.compounds.flatMap CompoundOf.parts).Perm
      (s'.compounds.flatMap CompoundOf.parts) → s'.specificity = s.specificity) ∧
    (∀ s' : ComplexSelector, s.leaves.Subperm s'.leaves →
      (Specificity.compare s.specificity s'.specificity).isLE = true) ∧
    (∀ c : CompoundSelector,
      (Specificity.compare s.specificity (s.push c).specificity).isLE = true) ∧
    ∀ (before after : List CompoundSelector) (c : CompoundSelector) (part : SimpleSelector),
      s.compounds = before ++ c :: after →
        (Specificity.compare s.specificity
          (ComplexSelector.mk (before ++ c.push part :: after)).specificity).isLE = true := by
  refine ⟨s.count_specificity, fun s' => specificity_eq_of_perm, fun s' hparts => ?_,
    fun s' => isLE_compare_of_subperm, fun c => ?_, fun before after c part hs => ?_⟩
  · refine specificity_eq_of_perm ?_
    rw [s.leaves_eq_flatMap, s'.leaves_eq_flatMap]
    exact hparts.flatMap_right _
  · refine isLE_compare_of_subperm (subperm_leaves_of_sublist ?_)
    rw [push, List.flatMap_append]
    exact List.sublist_append_left _ _
  · refine isLE_compare_of_subperm (subperm_leaves_of_sublist ?_)
    rw [hs, List.flatMap_append, List.flatMap_append, List.flatMap_cons, List.flatMap_cons]
    have hpart : c.parts.Sublist (c.push part).parts := List.sublist_append_left _ _
    exact (List.Sublist.refl _).append (hpart.append (.refl _))

/-- `#a:not(.b#c) p` and `p#c.b #a`. -/
theorem specificity_negation_regrouped :
    let p := SimpleSelector.tag "p"
    let a := SimpleSelector.idName "a"
    let b := SimpleSelector.className "b"
    let c := SimpleSelector.idName "c"
    let of := CompoundSelector.ofParts
    let negated : ComplexSelector :=
      ⟨[of none [a, .negation (of none [b, c])], of (some .descendant) [p]]⟩
    let plain : ComplexSelector := ⟨[of none [p, c, b], of (some .descendant) [a]]⟩
    negated.leaves.Perm plain.leaves ∧ plain.specificity = negated.specificity ∧
      negated.specificity = ⟨0, 2, 1, 1⟩ := by
  intro p a b c of negated plain
  have hleaves : negated.leaves.Perm plain.leaves := List.reverse_perm [p, c, b, a]
  exact ⟨hleaves, (specificity_counts_leaves negated).2.1 plain hleaves, by decide⟩

end ComplexSelector

end CssModel
