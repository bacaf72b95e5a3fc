import CssModel.Proofs.Term.Signs

/-!
# Signs and commas

The arguments of a function fall into groups, one between any two commas. A comma is held by the
term behind it, and a term that is folded into the sign in front of it takes over the operator of
the sign. So a sign whose next term follows a comma takes the comma away together with the term:
of `f(-, a)` nothing is left but `f(-a)`, where the sign had nothing of its own to apply to.

Such a sign crosses a comma. Each one costs the function a group, and where there is none every
group is folded as if it stood alone.

## Main definitions

* `CssModel.FunctionCall.commaGroups`: the groups of any list of arguments
* `CssModel.FunctionCall.Crosses`: where a sign takes a term from the next group

## Main results

* `CssModel.FunctionCall.length_commaGroups_eq`: what is lost
* `CssModel.FunctionCall.Folds.append`, `CssModel.FunctionCall.commaGroups_foldSigns`: folding
  group by group
* `CssModel.FunctionCall.make_groups_iff`
-/

namespace CssModel.FunctionCall

variable {first : Bool} {args folded : List Term} {valid : Bool}

/-! ### Groups -/

/-- Whether the term follows a comma. -/
def followsComma (t : Term) : Bool :=
  t.operator = some .comma

/-- The arguments between commas: a new group starts with every term after the first that follows a
comma. -/
def commaGroups (args : List Term) : List (List Term) :=
  args.splitBy fun _ next => ! followsComma next

/-- A group on its own: no term but the first follows a comma. -/
structure IsGroup (group : List Term) : Prop where
  ne_nil : group ≠ []
  tail : ∀ t ∈ group.tail, followsComma t = false

/-- Nothing stands here, or a comma in front of the first term. -/
def BeginsWithComma (args : List Term) : Prop :=
  ∀ t ∈ args.head?, followsComma t = true

theorem groups_eq (f : FunctionCall Term) : f.groups = commaGroups f.args := by
  rw [groups, commaGroups]
  congr 1
  funext _ next
  simp [followsComma]

theorem isChain_followsComma (t : Term) {rest : List Term}
    (h : ∀ u ∈ rest, followsComma u = false) :
    (t :: rest).IsChain fun _ next => (! followsComma next) = true := by
  induction rest generalizing t with
  | nil => exact List.isChain_singleton t
  | cons u rest ih =>
    obtain ⟨hu, hrest⟩ := List.forall_mem_cons.mp h
    exact List.isChain_cons_cons.mpr ⟨by simp [hu], ih u hrest⟩

theorem IsGroup.commaGroups_append {group rest : List Term} (h : IsGroup group)
    (hrest : BeginsWithComma rest) : commaGroups (group ++ rest) = group :: commaGroups rest := by
  obtain ⟨t, tail, rfl⟩ := List.exists_cons_of_ne_nil h.ne_nil
  have halone : commaGroups (t :: tail) = [t :: tail] :=
    List.splitBy_of_isChain (List.cons_ne_nil t tail) (isChain_followsComma t h.tail)
  have hsplit : commaGroups (t :: tail ++ rest) = commaGroups (t :: tail) ++ commaGroups rest := by
    refine List.splitBy_append fun x _ y hy => ?_
    simp [hrest y hy]
  rw [hsplit, halone, List.singleton_append]

/-- A list of arguments is empty, or a group with a list behind it that begins with a comma. -/
theorem group_induction {motive : List Term → Prop} (nil : motive [])
    (group : ∀ g rest, IsGroup g → BeginsWithComma rest → motive rest → motive (g ++ rest))
    (args : List Term) : motive args := by
  induction hlength : args.length using Nat.strong_induction_on generalizing args with
  | _ n ih =>
    cases args with
    | nil => exact nil
    | cons t rest =>
      let front := rest.takeWhile (! followsComma ·)
      let behind := rest.dropWhile (! followsComma ·)
      have hgroup : IsGroup (t :: front) := by
        refine ⟨List.cons_ne_nil t front, fun u hu => ?_⟩
        simpa using List.mem_takeWhile_imp hu
      have hbehind : BeginsWithComma behind := by
        intro u hu
        have hhead := List.head?_dropWhile_not (! followsComma ·) rest
        rw [Option.mem_def.mp hu] at hhead
        simpa using hhead
      have hshorter : behind.length < n := by
        have hle : behind.length ≤ rest.length := (List.dropWhile_suffix _).length_le
        rw [List.length_cons] at hlength
        omega
      have heq : t :: rest = t :: front ++ behind := by
        rw [List.cons_append, List.takeWhile_append_dropWhile]
      rw [heq]
      exact group (t :: front) behind hgroup hbehind (ih _ hshorter behind rfl)

/-! ### Signs that cross a comma -/

/-- The sign at this place has nothing but a term of the next group to apply to, and takes it. -/
def Crosses (first : Bool) (args : List Term) (i : Nat) : Prop :=
  SignAt first args i ∧
    ∃ next ∈ args[i + 1]?, followsComma next = true ∧ next.negated?.isSome = true

instance (first : Bool) (args : List Term) (i : Nat) : Decidable (Crosses first args i) :=
  inferInstanceAs (Decidable (_ ∧ ∃ next ∈ args[i + 1]?, _))

/-- How often a sign crosses a comma. -/
def crossings (first : Bool) (args : List Term) : Nat :=
  (List.range args.length).countP fun i => Crosses first args i

theorem crosses_zero {t : Term} {rest : List Term} : Crosses first (t :: rest) 0 ↔
    isSign first t = true ∧
      ∃ next ∈ rest.head?, followsComma next = true ∧ next.negated?.isSome = true := by
  rw [Crosses, signAt_zero, List.getElem?_cons_succ, List.head?_eq_getElem?]

@[simp]
theorem crosses_succ {t : Term} {rest : List Term} {i : Nat} :
    Crosses first (t :: rest) (i + 1) ↔ Crosses false rest i := by
  rw [Crosses, signAt_succ, List.getElem?_cons_succ, Crosses]

theorem crossings_cons (t : Term) (rest : List Term) : crossings first (t :: rest) =
    crossings false rest + if Crosses first (t :: rest) 0 then 1 else 0 := by
  rw [crossings, List.length_cons, List.range_succ_eq_map, List.countP_cons, List.countP_map]
  simp [crossings, Function.comp_def]

theorem not_crosses_of_isSign {t : Term} {rest : List Term} (h : isSign first t = false) :
    ¬ Crosses first (t :: rest) 0 := by
  simp [crosses_zero, h]

/-! ### What is lost -/

/-- How many terms follow a comma. -/
def commas (args : List Term) : Nat :=
  args.countP followsComma

theorem commas_cons (t : Term) (rest : List Term) :
    commas (t :: rest) = commas rest + if followsComma t then 1 else 0 :=
  List.countP_cons

/-- A comma is kept unless the term that follows it was taken by a sign. -/
theorem Folds.commas_eq (h : Folds first args folded valid) :
    commas args = commas folded + crossings first args := by
  induction h with
  | nil => rfl
  | @fold first sign next negated rest folded valid hsign hnext _ ih =>
    have hcrosses : Crosses first (sign :: next :: rest) 0 ↔ followsComma next = true := by
      simp [crosses_zero, hsign, hnext]
    have htaken : ¬ Crosses false (next :: rest) 0 :=
      not_crosses_of_isSign (isSign_of_negated? hnext)
    have hoperator : followsComma (negated.withOperator sign.operator) = followsComma sign := rfl
    rw [crossings_cons, crossings_cons, commas_cons, commas_cons, commas_cons, ih, hoperator,
      if_neg htaken]
    simp only [hcrosses]
    omega
  | @keep first t rest folded valid hsign _ ih =>
    have hnone : ¬ Crosses first (t :: rest) 0 := by
      rw [crosses_zero]
      rintro ⟨hs, next, hnext, -, hsome⟩
      have hnegated : next.negated? = none := by
        have := hsign hs
        rwa [Option.mem_def.mp hnext] at this
      rw [hnegated] at hsome
      cases hsome
    rw [crossings_cons, commas_cons, commas_cons, ih, if_neg hnone]
    omega

/-- The first term stays first, and joined as it was. -/
theorem Folds.exists_cons {t : Term} {rest : List Term}
    (h : Folds first (t :: rest) folded valid) :
    ∃ t' rest', folded = t' :: rest' ∧ followsComma t' = followsComma t := by
  cases h with
  | fold => exact ⟨_, _, rfl, rfl⟩
  | keep => exact ⟨_, _, rfl, rfl⟩

theorem commas_eq_zero {args : List Term} (h : ∀ t ∈ args, followsComma t = false) :
    commas args = 0 :=
  List.countP_eq_zero.mpr fun t ht => by simp [h t ht]

/-- There is a group for the first term, and one for every comma behind it. -/
theorem length_commaGroups {args : List Term} (hne : args ≠ []) :
    (commaGroups args).length = commas args.tail + 1 := by
  induction args using group_induction with
  | nil => exact absurd rfl hne
  | group g rest hg hrest ih =>
    have htail : (g ++ rest).tail = g.tail ++ rest := List.tail_append_of_ne_nil hg.ne_nil
    have happend : commas (g.tail ++ rest) = commas g.tail + commas rest := List.countP_append
    rw [hg.commaGroups_append hrest, htail, happend, commas_eq_zero hg.tail, List.length_cons]
    cases rest with
    | nil => rfl
    | cons u rest =>
      have hu : followsComma u = true := hrest u rfl
      rw [ih (List.cons_ne_nil u rest), List.tail_cons, commas_cons, if_pos hu, Nat.zero_add]

/-- **Every sign that crosses a comma costs a group.** -/
theorem length_commaGroups_eq (args : List Term) : (commaGroups args).length =
    (commaGroups (foldSigns true args).1).length + crossings true args := by
  have hfolds := folds_foldSigns true args
  cases args with
  | nil => rfl
  | cons t rest =>
    obtain ⟨t', rest', hfolded, hhead⟩ := hfolds.exists_cons
    have hcommas := hfolds.commas_eq
    rw [hfolded] at hcommas ⊢
    rw [commas_cons, commas_cons, hhead] at hcommas
    rw [length_commaGroups (List.cons_ne_nil t rest),
      length_commaGroups (List.cons_ne_nil t' rest'), List.tail_cons, List.tail_cons]
    omega

/-! ### Group by group -/

/-- Behind a comma a list of arguments begins in any case. -/
theorem isSign_of_followsComma {t : Term} (h : followsComma t = true) (first' : Bool) :
    isSign first t = isSign first' t := by
  have hcomma : t.operator = some .comma := by simpa [followsComma] using h
  simp [isSign, hcomma]

theorem Folds.of_beginsWithComma (h : Folds first args folded valid) (hargs : BeginsWithComma args)
    (first' : Bool) : Folds first' args folded valid := by
  cases h with
  | nil => exact .nil
  | fold hsign hnext h =>
    rw [isSign_of_followsComma (hargs _ rfl) first'] at hsign
    exact .fold hsign hnext h
  | keep hsign h =>
    rw [isSign_of_followsComma (hargs _ rfl) first'] at hsign ⊢
    exact .keep hsign h

theorem crosses_append (before behind : List Term) (i : Nat) :
    Crosses false (before ++ behind) (before.length + i) ↔ Crosses false behind i := by
  induction before with
  | nil => rw [List.nil_append, List.length_nil, Nat.zero_add]
  | cons t before ih => rw [List.cons_append, List.length_cons, Nat.succ_add, crosses_succ, ih]

theorem crosses_of_beginsWithComma (h : BeginsWithComma args) (first' : Bool) (i : Nat) :
    Crosses first args i ↔ Crosses first' args i := by
  cases args with
  | nil => simp [Crosses, signAt_nil]
  | cons t rest =>
    cases i with
    | zero => rw [crosses_zero, crosses_zero, isSign_of_followsComma (h t rfl) first']
    | succ i => rw [crosses_succ, crosses_succ]

/-- A list is folded in one way only. -/
theorem Folds.unique {folded' : List Term} {valid' : Bool} (h : Folds first args folded valid)
    (h' : Folds first args folded' valid') : folded = folded' ∧ valid = valid' := by
  induction h generalizing folded' valid' with
  | nil =>
    cases h'
    exact ⟨rfl, rfl⟩
  | fold hsign hnext _ ih =>
    cases h' with
    | fold _ hnext' h' =>
      obtain ⟨rfl, rfl⟩ := ih h'
      obtain rfl := Option.some.inj (hnext.symm.trans hnext')
      exact ⟨rfl, rfl⟩
    | keep hsign' => exact absurd ((hsign' hsign).symm.trans hnext) nofun
  | keep hsign _ ih =>
    cases h' with
    | fold hsign' hnext' => exact absurd ((hsign hsign').symm.trans hnext') nofun
    | keep _ h' =>
      obtain ⟨rfl, rfl⟩ := ih h'
      exact ⟨rfl, rfl⟩

/-- **Two lists of arguments side by side** are folded each on its own, if no sign crosses the comma
between them. -/
theorem Folds.append {behind folded' : List Term} {valid' : Bool}
    (h : Folds first args folded valid) (h' : Folds false behind folded' valid')
    (hbehind : BeginsWithComma behind) (hcross : ∀ i, ¬ Crosses first (args ++ behind) i) :
    Folds first (args ++ behind) (folded ++ folded') (valid && valid') := by
  induction h with
  | nil => exact h'.of_beginsWithComma hbehind _
  | fold hsign hnext _ ih =>
    refine .fold hsign hnext (ih fun i hi => hcross (i + 2) ?_)
    exact crosses_succ.mpr (crosses_succ.mpr hi)
  | @keep first t rest folded valid hsign _ ih =>
    rw [Bool.and_assoc]
    refine .keep (fun hs => ?_) (ih fun i hi => hcross (i + 1) (crosses_succ.mpr hi))
    cases rest with
    | cons next rest => exact hsign hs
    | nil =>
      -- the sign stands at the end, and what it could take would be behind the comma
      refine Option.bind_eq_none_iff.mpr fun next hnext => ?_
      by_contra hne
      refine hcross 0 (crosses_zero.mpr ⟨hs, next, hnext, hbehind next hnext, ?_⟩)
      exact Option.isSome_iff_ne_none.mpr hne

/-- A group is folded to a group. -/
theorem Folds.isGroup (h : Folds first args folded valid) (hargs : IsGroup args) :
    IsGroup folded := by
  obtain ⟨t, rest, rfl⟩ := List.exists_cons_of_ne_nil hargs.ne_nil
  obtain ⟨t', rest', rfl, hhead⟩ := h.exists_cons
  have hcommas := h.commas_eq
  have hrest : commas rest = 0 := commas_eq_zero hargs.tail
  rw [commas_cons, commas_cons, hhead, hrest] at hcommas
  have hzero : commas rest' = 0 := by omega
  refine ⟨List.cons_ne_nil t' rest', fun u hu => ?_⟩
  simpa using List.countP_eq_zero.mp hzero u hu

theorem Folds.beginsWithComma (h : Folds first args folded valid) (hargs : BeginsWithComma args) :
    BeginsWithComma folded := by
  cases args with
  | nil =>
    cases h
    exact hargs
  | cons t rest =>
    obtain ⟨t', rest', rfl, hhead⟩ := h.exists_cons
    intro u hu
    obtain rfl : t' = u := by simpa using hu
    rw [hhead]
    exact hargs t rfl

/-- **Where no sign crosses a comma**, folding goes group by group. -/
theorem commaGroups_foldSigns (hcross : ∀ i, ¬ Crosses true args i) :
    commaGroups (foldSigns true args).1 =
        (commaGroups args).map (fun group => (foldSigns true group).1) ∧
      (foldSigns true args).2 =
        (commaGroups args).all fun group => (foldSigns true group).2 := by
  induction args using group_induction with
  | nil => exact ⟨rfl, rfl⟩
  | group g rest hg hrest ih =>
    have hbefore := folds_foldSigns true g
    have hbehind := folds_foldSigns true rest
    have hwhole := hbefore.append (hbehind.of_beginsWithComma hrest false) hrest hcross
    obtain ⟨hfolded, hvalid⟩ := (folds_foldSigns true (g ++ rest)).unique hwhole
    have hcrossrest : ∀ i, ¬ Crosses true rest i := by
      intro i hi
      obtain ⟨t, tail, rfl⟩ := List.exists_cons_of_ne_nil hg.ne_nil
      refine hcross (tail.length + i + 1) (crosses_succ.mpr ((crosses_append tail rest i).mpr ?_))
      exact (crosses_of_beginsWithComma hrest false i).mp hi
    obtain ⟨ihfolded, ihvalid⟩ := ih hcrossrest
    rw [hfolded, hvalid, hg.commaGroups_append hrest, List.map_cons, List.all_cons,
      (hbefore.isGroup hg).commaGroups_append (hbehind.beginsWithComma hrest), ihfolded, ihvalid]
    exact ⟨rfl, rfl⟩

/-- A sign alone in its group has nothing to apply to. -/
theorem valid_of_lone_sign (name : String) {sign : Term} (h : sign.delimiter? = some .minus) :
    (ofArgs name [sign]).valid = false := by
  have hsign : isSign true sign = true := by simp [isSign, h]
  rw [ofArgs_eq, foldSigns, if_pos hsign]

theorem crossings_eq_zero_iff : crossings first args = 0 ↔ ∀ i, ¬ Crosses first args i := by
  rw [crossings, List.countP_eq_zero]
  constructor
  · intro hrange i hi
    have hlt : i < args.length := by
      obtain ⟨⟨t, ht, -⟩, -⟩ := hi
      exact (List.getElem?_eq_some_iff.mp ht).1
    simpa [hi] using hrange i (List.mem_range.mpr hlt)
  · intro hcross i _
    simpa using hcross i

/-- **When signs keep to their groups.** A function has as many groups as there were given, less one
for every sign that crosses a comma. Only where there is none the groups are those that were given,
each folded on its own; then the function is valid if every group is, which a group of nothing but a
sign is not. -/
theorem make_groups_iff {name : String} (hname : name ≠ "") (args : List Term)
    (log : WarningLog) :
    ∃ f : FunctionCall Term, ((make name args).run.run log).1 = .ok f ∧
      (commaGroups args).length = f.groups.length + crossings true args ∧
      ((∀ i, ¬ Crosses true args i) ↔
        f.groups = (commaGroups args).map fun group => (ofArgs name group).args) ∧
      ((∀ i, ¬ Crosses true args i) →
        (f.valid = true ↔ ∀ group ∈ commaGroups args, (ofArgs name group).valid = true) ∧
          ∀ sign : Term, sign.delimiter? = some .minus → [sign] ∈ commaGroups args →
            f.valid = false) := by
  have hlength : (commaGroups args).length =
      (ofArgs name args).groups.length + crossings true args := by
    rw [groups_eq]
    exact length_commaGroups_eq args
  have hvalid : (∀ i, ¬ Crosses true args i) →
      ((ofArgs name args).valid = true ↔
        ∀ group ∈ commaGroups args, (ofArgs name group).valid = true) := by
    intro hcross
    rw [ofArgs_eq, (commaGroups_foldSigns hcross).2, List.all_eq_true]
    rfl
  refine ⟨ofArgs name args, outcome_make hname args log, hlength, ⟨fun hcross => ?_, ?_⟩,
    fun hcross => ⟨hvalid hcross, fun sign hsign halone => ?_⟩⟩
  · rw [groups_eq]
    exact (commaGroups_foldSigns hcross).1
  · intro hgroups
    rw [hgroups, List.length_map] at hlength
    exact crossings_eq_zero_iff.mp (by omega)
  · rw [Bool.eq_false_iff]
    intro htrue
    have hlone := (hvalid hcross).mp htrue [sign] halone
    rw [valid_of_lone_sign name hsign] at hlone
    cases hlone

/-- In `f(-a b, -)` no sign crosses the comma: the first goes to `a`, and the other is alone in its
group, so that the function is invalid. -/
theorem make_groups_iff_lone_sign :
    let ident := fun operator name => (Term.ofValue (.ident name)).withOperator operator
    let minus := fun operator => (Term.ofValue (.delimiter .minus)).withOperator operator
    let terms := [minus none, ident none "a", ident (some .space) "b", minus (some .comma)]
    "f" ≠ "" ∧ (∀ i, ¬ Crosses true terms i) ∧ [minus (some .comma)] ∈ commaGroups terms ∧
      ∃ f : FunctionCall Term, ((make "f" terms).run.run .empty).1 = .ok f ∧
        f.groups = [[ident none "-a", ident (some .space) "b"], [minus (some .comma)]] ∧
          f.valid = false := by
  intro ident minus terms
  have hname : "f" ≠ "" := by decide
  have hcross : ∀ i, ¬ Crosses true terms i := crossings_eq_zero_iff.mp (by decide)
  have halone : [minus (some .comma)] ∈ commaGroups terms := List.mem_of_getElem? (i := 1) rfl
  obtain ⟨f, hf, -, hgroups, hvalid⟩ := make_groups_iff hname terms .empty
  exact ⟨hname, hcross, halone, f, hf, (hgroups.mp hcross).trans rfl,
    (hvalid hcross).2 _ rfl halone⟩

/-- In `f(-, a)` the sign is alone in its group, and takes the term of the next group with its
comma: the function is valid and has one group. -/
theorem make_sign_before_comma :
    let minus := Term.ofValue (.delimiter .minus)
    let terms := [minus, (Term.ofValue (.ident "a")).withOperator (some .comma)]
    [minus] ∈ commaGroups terms ∧ (commaGroups terms).length = 2 ∧
      ∃ f : FunctionCall Term, make "f" terms = pure f ∧ f.valid = true ∧
        f.groups = [[Term.ofValue (.ident "-a")]] := by
  intro minus terms
  exact ⟨List.mem_of_getElem? (i := 0) rfl, rfl, _, make_eq_pure (by decide) rfl, rfl, rfl⟩

end CssModel.FunctionCall
