import CssModel.Proofs.Term.Groups

/-!
# Partitions at commas

A list of arguments falls into groups at its commas, and this says it all: there is one way only to
cut it into lists that are not empty, of which all but the first begin with a comma, and none of
which has a comma further on. So whatever cuts a list in this way gives the same groups, and two
ways of doing so need not be compared step by step.

## Cutting by position

The groups can be cut out of the list in one walk that holds two positions, where the group begins
that is being read, and the place that is looked at. A comma at this place ends the group, unless
the group has only begun there. `isCommaPartition_slicesFrom` is the invariant of the walk: what
lies between the two positions is a group as far as it has been read.

## Main definitions

* `CssModel.FunctionCall.IsCommaPartition`: what the groups of a list are
* `CssModel.FunctionCall.slices`: the groups cut out by position

## Main results

* `CssModel.FunctionCall.IsCommaPartition.eq_commaGroups`: there is one partition only
* `CssModel.FunctionCall.isCommaPartition_slices`
* `CssModel.FunctionCall.groups_unique_partition`
-/

namespace CssModel.FunctionCall

variable {args : List Term} {groups : List (List Term)}

/-! ### Partitions -/

/-- The groups are the arguments cut before every comma but one in front of the first of them. -/
structure IsCommaPartition (args : List Term) (groups : List (List Term)) : Prop where
  flatten : groups.flatten = args
  ne_nil : ∀ group ∈ groups, group ≠ []
  comma : ∀ group ∈ groups.tail, ∃ t ∈ group.head?, t.operator = some .comma
  inside : ∀ group ∈ groups, ∀ t ∈ group.tail, t.operator ≠ some .comma

theorem followsComma_eq_false_iff {t : Term} :
    followsComma t = false ↔ t.operator ≠ some .comma := by
  simp [followsComma]

theorem beginsWithComma_nil : BeginsWithComma [] := by
  simp [BeginsWithComma]

theorem isCommaPartition_nil : IsCommaPartition [] [] :=
  ⟨rfl, by simp, by simp, by simp⟩

/-- A group in front of a partition that begins with a comma. -/
theorem IsCommaPartition.cons {group rest : List Term} (hgroup : IsGroup group)
    (hrest : BeginsWithComma rest) (h : IsCommaPartition rest groups) :
    IsCommaPartition (group ++ rest) (group :: groups) := by
  refine ⟨?_, List.forall_mem_cons.mpr ⟨hgroup.ne_nil, h.ne_nil⟩, ?_, ?_⟩
  · rw [List.flatten_cons, h.flatten]
  · cases groups with
    | nil => simp
    | cons next groups =>
      refine List.forall_mem_cons.mpr ⟨?_, h.comma⟩
      obtain ⟨t, tail, rfl⟩ := List.exists_cons_of_ne_nil (h.ne_nil next List.mem_cons_self)
      have hfirst : t ∈ rest.head? := by
        rw [← h.flatten]
        rfl
      exact ⟨t, rfl, by simpa [followsComma] using hrest t hfirst⟩
  · refine List.forall_mem_cons.mpr ⟨fun t ht => ?_, h.inside⟩
    exact followsComma_eq_false_iff.mp (hgroup.tail t ht)

/-- What is left of a partition without its first group. -/
theorem IsCommaPartition.of_cons {group : List Term} (h : IsCommaPartition args (group :: groups)) :
    IsGroup group ∧ BeginsWithComma groups.flatten ∧ IsCommaPartition groups.flatten groups := by
  obtain ⟨hgroup, hgroups⟩ := List.forall_mem_cons.mp h.ne_nil
  obtain ⟨hinside, hinsides⟩ := List.forall_mem_cons.mp h.inside
  refine ⟨⟨hgroup, fun t ht => followsComma_eq_false_iff.mpr (hinside t ht)⟩, ?_, rfl, hgroups,
    fun g hg => h.comma g (List.mem_of_mem_tail hg), hinsides⟩
  intro t ht
  cases groups with
  | nil => cases ht
  | cons next groups =>
    obtain ⟨u, hu, hcomma⟩ := h.comma next List.mem_cons_self
    obtain ⟨tail, rfl⟩ := List.head?_eq_some_iff.mp hu
    obtain rfl : u = t := Option.some.inj ht
    simpa [followsComma] using hcomma

/-- **There is one partition only.** -/
theorem IsCommaPartition.eq_commaGroups (h : IsCommaPartition args groups) :
    groups = commaGroups args := by
  induction groups generalizing args with
  | nil =>
    obtain rfl : [] = args := h.flatten
    rfl
  | cons group groups ih =>
    obtain ⟨hgroup, hrest, hgroups⟩ := h.of_cons
    rw [← h.flatten, List.flatten_cons, hgroup.commaGroups_append hrest, ← ih hgroups]

/-! ### Cutting by position -/

/-- The groups from the position `start` on, cut out of all the arguments. The terms from the
position `index` on are still to be looked at. -/
def slicesFrom (args : List Term) (start index : Nat) : List Term → List (List Term)
  | [] => if start < args.length then [args.drop start] else []
  | t :: rest =>
    if start < index && followsComma t then
      args.extract start index :: slicesFrom args index (index + 1) rest
    else slicesFrom args start (index + 1) rest

/-- The groups of the arguments, cut out by position. -/
def slices (args : List Term) : List (List Term) :=
  slicesFrom args 0 0 args

/-- A list is cut between two positions into what lies between them. -/
theorem extract_append_append (before current behind : List Term) :
    (before ++ (current ++ behind)).extract before.length (before.length + current.length) =
      current := by
  rw [List.extract_eq_take_drop, List.drop_left, Nat.add_sub_cancel_left, List.take_left]

/-- **The walk with two positions.** The arguments before `start` have been cut up; those from there
to `index` are the group that is being read, in which there is no comma behind the first term. -/
theorem isCommaPartition_slicesFrom (left before current : List Term)
    (hcurrent : ∀ t ∈ current.tail, followsComma t = false) :
    IsCommaPartition (current ++ left) (slicesFrom (before ++ (current ++ left)) before.length
      (before.length + current.length) left) := by
  induction left generalizing before current with
  | nil =>
    rw [List.append_nil, slicesFrom, List.drop_left, List.length_append]
    cases current with
    | nil => simpa using isCommaPartition_nil
    | cons t tail =>
      have hgroup : IsGroup (t :: tail) := ⟨List.cons_ne_nil t tail, hcurrent⟩
      rw [if_pos (by simp)]
      simpa using isCommaPartition_nil.cons hgroup beginsWithComma_nil
  | cons t rest ih =>
    rw [slicesFrom]
    split
    · next hcut =>
      -- the group ends here, and the next one begins with `t`
      obtain ⟨hstart, hcomma⟩ := by simpa using hcut
      have hgroup : IsGroup current := ⟨List.ne_nil_of_length_pos (by omega), hcurrent⟩
      have hrest : BeginsWithComma (t :: rest) := by simpa [BeginsWithComma] using hcomma
      have hnext := ih (before ++ current) [t] (by simp)
      rw [extract_append_append]
      refine IsCommaPartition.cons hgroup hrest ?_
      simpa [Nat.add_assoc] using hnext
    · next hcut =>
      have hlonger : ∀ u ∈ (current ++ [t]).tail, followsComma u = false := by
        cases current with
        | nil => simp
        | cons first tail =>
          have ht : followsComma t = false := by simpa using hcut
          simpa [or_imp, forall_and] using ⟨hcurrent, ht⟩
      simpa [Nat.add_assoc] using ih before (current ++ [t]) hlonger

/-- Cutting by position gives a partition. -/
theorem isCommaPartition_slices (args : List Term) : IsCommaPartition args (slices args) :=
  isCommaPartition_slicesFrom args [] [] (by simp)

/-- **The groups of a function are the partition of its arguments at their commas.** There is no
other one, it can be cut out in one walk with two positions, and only a function without arguments
has no groups. -/
theorem groups_unique_partition (f : FunctionCall Term) :
    IsCommaPartition f.args f.groups ∧
      (∀ groups, IsCommaPartition f.args groups ↔ groups = f.groups) ∧
      f.groups = slices f.args ∧ (f.groups = [] ↔ f.args = []) := by
  have hslices := isCommaPartition_slices f.args
  have heq : f.groups = slices f.args := by
    rw [groups_eq, hslices.eq_commaGroups]
  have hgroups : IsCommaPartition f.args f.groups := heq ▸ hslices
  refine ⟨hgroups, fun groups => ⟨fun h => ?_, fun h => h ▸ hgroups⟩, heq, fun h => ?_, fun h => ?_⟩
  · rw [groups_eq, h.eq_commaGroups]
  · rw [← hgroups.flatten, h, List.flatten_nil]
  · rw [groups_eq, h]
    rfl

/-- In `f(, a b, c, d)` the comma in front of everything opens no group of its own. -/
example :
    let ident := fun operator name => (Term.ofValue (.ident name)).withOperator operator
    let comma := some JoinOperator.comma
    let f : FunctionCall Term :=
      ⟨"f", [ident comma "a", ident (some .space) "b", ident comma "c", ident comma "d"], true⟩
    f.groups = [[ident comma "a", ident (some .space) "b"], [ident comma "c"], [ident comma "d"]] :=
  rfl

end CssModel.FunctionCall
