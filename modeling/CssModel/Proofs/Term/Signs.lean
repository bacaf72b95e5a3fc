import CssModel.Term.Call
import Mathlib

/-!
# Signs among arguments

`FunctionCall.foldSigns` goes through the arguments once, and what it does at a place depends on
what it has done before: whether something was put out already, and whether the term was taken by
the sign in front of it. None of this shows in the result. Which terms are signs can be told from
their places alone, a sign takes the term directly behind it or nothing, and what is left at each
place follows from its two neighbours.

## Going through the arguments

What the function does with the first argument is said once, by `Folds`, which has one rule for a
sign that is folded and one for every other term. All facts about folded arguments are inductions
on it. The first argument of the rest is never the first argument of the function, so the facts are
stated for lists of both sorts.

## Main definitions

* `CssModel.FunctionCall.SignAt`: where the signs are
* `CssModel.FunctionCall.foldedAt?`, `CssModel.FunctionCall.leftAt`: what becomes of each term
* `CssModel.FunctionCall.Folds`: folding as a relation

## Main results

* `CssModel.FunctionCall.Folds.eq_replaced`, `CssModel.FunctionCall.Folds.valid_iff`
* `CssModel.FunctionCall.foldSigns_foldSigns`: what was folded without fault is left as it is
* `CssModel.FunctionCall.make_folds_signs`
-/

namespace CssModel

/-- A delimiter takes no sign. -/
theorem Term.negated?_of_delimiter {t : Term} {d : Delimiter} (h : t.delimiter? = some d) :
    t.negated? = none := by
  obtain ⟨operator, value⟩ := t
  cases value with
  | delimiter => rfl
  | _ => cases h

/-- Only numbers, names and functions take a sign, and they stay what they are. -/
theorem Value.negated?_cases {v v' : Value} (h : v.negated? = some v') :
    (∃ n n' : Numeric, v = .numeric n ∧ n.negated? = some n' ∧ v' = .numeric n') ∨
      (∃ name name', v = .ident name ∧ v' = .ident name') ∨
      ∃ f : FunctionCall Term, v = .call f ∧ v' = .call f.negated := by
  cases v with
  | numeric n =>
    obtain ⟨n', hn', rfl⟩ := Option.map_eq_some_iff.mp h
    exact .inl ⟨n, n', rfl, hn', rfl⟩
  | ident name =>
    rw [Value.negated?] at h
    split at h
    · cases h
    · cases h
      exact .inr (.inl ⟨name, _, rfl, rfl⟩)
  | call f =>
    cases h
    exact .inr (.inr ⟨f, rfl, rfl⟩)
  | _ => cases h

theorem Term.delimiter?_of_negated {t negated : Term} (h : t.negated? = some negated)
    (operator : Option JoinOperator) : (negated.withOperator operator).delimiter? = none := by
  obtain ⟨v, hv, rfl⟩ := Option.map_eq_some_iff.mp h
  obtain ⟨n, n', -, -, rfl⟩ | ⟨name, name', -, rfl⟩ | ⟨f, -, rfl⟩ := Value.negated?_cases hv
  · rfl
  · rfl
  · rfl

namespace FunctionCall

variable {first : Bool} {args folded : List Term} {valid : Bool}

/-! ### Places -/

/-- At this place there is a minus sign where an argument has to start: after a comma, or at the
start of the list if the arguments of the function start there. -/
def SignAt (first : Bool) (args : List Term) (i : Nat) : Prop :=
  ∃ t ∈ args[i]?, t.delimiter? = some .minus ∧
    (first = true ∧ i = 0 ∨ t.operator = some .comma)

instance (first : Bool) (args : List Term) (i : Nat) : Decidable (SignAt first args i) :=
  inferInstanceAs (Decidable (∃ t ∈ args[i]?, _))

/-- The term behind a place with a minus sign in front, if there is a term that can take one. -/
def negatedBehind? (args : List Term) (i : Nat) : Option Term :=
  (args[i + 1]?).bind Term.negated?

/-- What the term at a place becomes if it is a sign with something to apply to: the negated
argument, joined to the one before as the sign was. -/
def foldedAt? (first : Bool) (args : List Term) (i : Nat) : Option Term :=
  if SignAt first args i then
    (args[i]?).bind fun sign => (negatedBehind? args i).map (·.withOperator sign.operator)
  else none

/-- What is left of the term at a place: nothing if the sign in front of it has taken it, the
negated argument if it is such a sign itself, and otherwise the term. -/
def leftAt (first : Bool) (args : List Term) (i : Nat) : List Term :=
  if i ≠ 0 ∧ (foldedAt? first args (i - 1)).isSome then []
  else ((foldedAt? first args i).or args[i]?).toList

theorem signAt_nil (first : Bool) (i : Nat) : ¬ SignAt first [] i := by
  simp [SignAt]

@[simp]
theorem signAt_zero {t : Term} {rest : List Term} :
    SignAt first (t :: rest) 0 ↔ isSign first t = true := by
  simp [SignAt, isSign]

@[simp]
theorem signAt_succ {t : Term} {rest : List Term} {i : Nat} :
    SignAt first (t :: rest) (i + 1) ↔ SignAt false rest i := by
  simp [SignAt]

@[simp]
theorem negatedBehind?_zero (t : Term) (rest : List Term) :
    negatedBehind? (t :: rest) 0 = rest.head?.bind Term.negated? := by
  cases rest <;> rfl

@[simp]
theorem negatedBehind?_succ (t : Term) (rest : List Term) (i : Nat) :
    negatedBehind? (t :: rest) (i + 1) = negatedBehind? rest i := rfl

@[simp]
theorem foldedAt?_succ (t : Term) (rest : List Term) (i : Nat) :
    foldedAt? first (t :: rest) (i + 1) = foldedAt? false rest i := by
  simp [foldedAt?]

theorem foldedAt?_zero (t : Term) (rest : List Term) : foldedAt? first (t :: rest) 0 =
    if isSign first t = true then
      (rest.head?.bind Term.negated?).map (·.withOperator t.operator)
    else none := by
  simp [foldedAt?]

/-- What takes a sign is none. -/
theorem isSign_of_negated? {next negated : Term} (h : next.negated? = some negated) :
    isSign first next = false := by
  have hdelimiter : next.delimiter? ≠ some .minus := by
    intro hminus
    rw [Term.negated?_of_delimiter hminus] at h
    cases h
  simp [isSign, hdelimiter]

theorem isSign_of_folded {next negated : Term} (h : next.negated? = some negated)
    (operator : Option JoinOperator) : isSign first (negated.withOperator operator) = false := by
  simp [isSign, Term.delimiter?_of_negated h operator]

/-! ### Folding as a relation -/

/-- The arguments, what they are folded to, and whether every sign had something to apply to. -/
inductive Folds : Bool → List Term → List Term → Bool → Prop
  | nil {first : Bool} : Folds first [] [] true
  | fold {first : Bool} {sign next negated : Term} {rest folded : List Term} {valid : Bool}
      (hsign : isSign first sign = true) (hnext : next.negated? = some negated)
      (h : Folds false rest folded valid) :
      Folds first (sign :: next :: rest) (negated.withOperator sign.operator :: folded) valid
  | keep {first : Bool} {t : Term} {rest folded : List Term} {valid : Bool}
      (hsign : isSign first t = true → rest.head?.bind Term.negated? = none)
      (h : Folds false rest folded valid) :
      Folds first (t :: rest) (t :: folded) (! isSign first t && valid)

theorem folds_foldSigns (first : Bool) (args : List Term) :
    Folds first args (foldSigns first args).1 (foldSigns first args).2 := by
  fun_induction foldSigns first args with
  | case1 first => exact .nil
  | case2 first t hsign =>
    have h : Folds first [t] [t] (! isSign first t && true) := .keep (fun _ => rfl) .nil
    rwa [hsign] at h
  | case3 first t hsign next rest' negated hnext folded valid hfold ih =>
    rw [hfold] at ih
    exact .fold hsign hnext ih
  | case4 first t hsign next rest' hnext ih =>
    have h : Folds first (t :: next :: rest') _ (! isSign first t && _) :=
      .keep (fun _ => hnext) ih
    rwa [hsign] at h
  | case5 first t rest hsign folded valid hfold ih =>
    rw [hfold] at ih
    have h : Folds first (t :: rest) _ (! isSign first t && _) :=
      .keep (fun hs => absurd hs hsign) ih
    rwa [Bool.eq_false_iff.mpr hsign] at h

/-! ### What is left at each place -/

/-- The arguments with each sign that has something to apply to, and the term it takes, replaced by
the negated term. -/
def replaced (first : Bool) (args : List Term) : List Term :=
  (List.range args.length).flatMap (leftAt first args)

theorem replaced_cons (t : Term) (rest : List Term) : replaced first (t :: rest) =
    leftAt first (t :: rest) 0 ++
      (List.range rest.length).flatMap fun i => leftAt first (t :: rest) (i + 1) := by
  rw [replaced, List.length_cons, List.range_succ_eq_map, List.flatMap_cons, List.flatMap_map]

theorem leftAt_succ_succ (t : Term) (rest : List Term) (i : Nat) :
    leftAt first (t :: rest) (i + 2) = leftAt false rest (i + 1) := by
  simp [leftAt]

/-- Behind a term that is no sign, or one with nothing to apply to, a list begins anew. -/
theorem leftAt_succ_of_none {t : Term} {rest : List Term}
    (h : foldedAt? first (t :: rest) 0 = none) (i : Nat) :
    leftAt first (t :: rest) (i + 1) = leftAt false rest i := by
  cases i with
  | zero => simp [leftAt, h]
  | succ i => exact leftAt_succ_succ t rest i

theorem replaced_of_none {t : Term} {rest : List Term}
    (h : foldedAt? first (t :: rest) 0 = none) :
    replaced first (t :: rest) = t :: replaced false rest := by
  have hhead : leftAt first (t :: rest) 0 = [t] := by simp [leftAt, h]
  rw [replaced_cons, hhead, List.singleton_append]
  simp only [leftAt_succ_of_none h, replaced]

theorem replaced_of_some {sign next negated : Term} {rest : List Term}
    (hsign : isSign first sign = true) (hnext : next.negated? = some negated) :
    replaced first (sign :: next :: rest) =
      negated.withOperator sign.operator :: replaced false rest := by
  have hfolded : foldedAt? first (sign :: next :: rest) 0 =
      some (negated.withOperator sign.operator) := by
    simp [foldedAt?_zero, hsign, hnext]
  have hhead : leftAt first (sign :: next :: rest) 0 = [negated.withOperator sign.operator] := by
    simp [leftAt, hfolded]
  have htaken : leftAt first (sign :: next :: rest) 1 = [] := by simp [leftAt, hfolded]
  -- the term that was taken is no sign, so that what stands behind it is not affected
  have hnone : foldedAt? false (next :: rest) 0 = none := by
    simp [foldedAt?_zero, isSign_of_negated? hnext]
  rw [replaced_cons, hhead, List.length_cons, List.range_succ_eq_map, List.flatMap_cons,
    List.flatMap_map, htaken, List.nil_append, List.singleton_append]
  simp only [leftAt_succ_succ, leftAt_succ_of_none hnone, replaced]

/-- **What is left at each place** is told by the terms next to it. -/
theorem Folds.eq_replaced (h : Folds first args folded valid) : folded = replaced first args := by
  induction h with
  | nil => rfl
  | fold hsign hnext _ ih => rw [replaced_of_some hsign hnext, ih]
  | @keep first t rest folded valid hsign _ ih =>
    have hnone : foldedAt? first (t :: rest) 0 = none := by
      rw [foldedAt?_zero]
      split
      · next hs => rw [hsign hs, Option.map_none]
      · rfl
    rw [replaced_of_none hnone, ih]

/-- **Every sign needs a term behind it** that can take a minus sign. -/
theorem Folds.valid_iff (h : Folds first args folded valid) :
    valid = true ↔ ∀ i, SignAt first args i → (negatedBehind? args i).isSome := by
  induction h with
  | nil => exact iff_of_true rfl fun i hi => absurd hi (signAt_nil _ i)
  | @fold first sign next negated rest folded valid hsign hnext _ ih =>
    have hfirst : negatedBehind? (sign :: next :: rest) 0 = some negated := hnext
    rw [ih]
    constructor
    · intro hall i hi
      rcases i with _ | _ | i
      · exact Option.isSome_of_eq_some hfirst
      · -- the term that was taken is no sign
        rw [signAt_succ, signAt_zero, isSign_of_negated? hnext] at hi
        cases hi
      · exact hall i (signAt_succ.mp (signAt_succ.mp hi))
    · intro hall i hi
      exact hall (i + 2) (signAt_succ.mpr (signAt_succ.mpr hi))
  | @keep first t rest folded valid hsign _ ih =>
    rw [Bool.and_eq_true, Bool.not_eq_true', ih]
    constructor
    · rintro ⟨hnot, hall⟩ i hi
      rcases i with _ | i
      · rw [signAt_zero, hnot] at hi
        cases hi
      · exact hall i (signAt_succ.mp hi)
    · intro hall
      refine ⟨Bool.eq_false_iff.mpr fun hs => ?_, fun i hi => hall (i + 1) (signAt_succ.mpr hi)⟩
      have hbehind := hall 0 (signAt_zero.mpr hs)
      rw [negatedBehind?_zero, hsign hs] at hbehind
      cases hbehind

/-! ### Folding again -/

/-- Where there are no signs nothing is folded. -/
theorem Folds.eq_of_forall_not_signAt (h : Folds first args folded valid)
    (hsigns : ∀ i, ¬ SignAt first args i) : folded = args ∧ valid = true := by
  induction h with
  | nil => exact ⟨rfl, rfl⟩
  | fold hsign => exact absurd (signAt_zero.mpr hsign) (hsigns 0)
  | @keep first t rest folded valid _ _ ih =>
    obtain ⟨rfl, rfl⟩ := ih fun i hi => hsigns (i + 1) (signAt_succ.mpr hi)
    have hnot : isSign first t = false := Bool.eq_false_iff.mpr fun hs =>
      hsigns 0 (signAt_zero.mpr hs)
    exact ⟨rfl, by rw [hnot]; rfl⟩

/-- If every sign had something to apply to, none is left. -/
theorem Folds.not_signAt (h : Folds first args folded valid) (hvalid : valid = true) (i : Nat) :
    ¬ SignAt first folded i := by
  induction h generalizing i with
  | nil => exact signAt_nil _ i
  | fold _ hnext _ ih =>
    cases i with
    | zero => simp [isSign_of_folded hnext]
    | succ i => exact fun hi => ih hvalid i (signAt_succ.mp hi)
  | keep _ _ ih =>
    rw [Bool.and_eq_true, Bool.not_eq_true'] at hvalid
    cases i with
    | zero => simp [hvalid.1]
    | succ i => exact fun hi => ih hvalid.2 i (signAt_succ.mp hi)

/-- **Folding twice is folding once**, if nothing was wrong. -/
theorem foldSigns_foldSigns (first : Bool) {args : List Term}
    (h : (foldSigns first args).2 = true) :
    foldSigns first (foldSigns first args).1 = ((foldSigns first args).1, true) := by
  have hsigns := (folds_foldSigns first args).not_signAt h
  obtain ⟨hfolded, hvalid⟩ :=
    (folds_foldSigns first (foldSigns first args).1).eq_of_forall_not_signAt hsigns
  exact Prod.ext hfolded hvalid

/-! ### Functions -/

theorem ofArgs_eq (name : String) (args : List Term) :
    ofArgs name args = ⟨name, (foldSigns true args).1, (foldSigns true args).2⟩ := rfl

/-- Folding with reports leaves what folding leaves, and there is one report in the end if some sign
was left, however many there were. -/
theorem run_foldReporting (name : String) (first : Bool) (args : List Term) (log : WarningLog) :
    (foldReporting name first args).run.run log = (.ok (foldSigns first args),
      if (foldSigns first args).2 then log else log.record (.danglingSign name)) := by
  induction first, args using foldSigns.induct generalizing log with
  | case1 => rfl
  | case2 first t hsign =>
    rw [foldReporting, if_pos hsign, foldSigns, if_pos hsign,
      run_bind_of_ok (Recording.run_warn _ _)]
    rfl
  | case3 first t hsign next rest negated hnext folded valid hrest ih =>
    simp only [foldReporting, foldSigns, if_pos hsign, hnext]
    rw [run_bind_of_ok (ih log)]
    rfl
  | case4 first t hsign next rest hnext ih =>
    simp only [foldReporting, foldSigns, if_pos hsign, hnext]
    rw [run_bind_of_ok (Recording.run_warn _ _), run_bind_of_ok (ih _)]
    split
    · rfl
    · -- a sign further on is reported in words that are in the log by now
      rw [WarningLog.record_record]
      rfl
  | case5 first t rest hsign folded valid hrest ih =>
    unfold foldReporting foldSigns
    rw [if_neg hsign, if_neg hsign, run_bind_of_ok (ih log)]
    rfl

/-- **Making a function is folding its signs**, with a report if one is left. -/
theorem run_make {name : String} (hname : name ≠ "") (args : List Term) (log : WarningLog) :
    (make name args).run.run log = (.ok (ofArgs name args),
      if (ofArgs name args).valid then log else log.record (.danglingSign name)) := by
  have hempty : name.isEmpty = false := by simpa using hname
  rw [make, hempty, if_neg Bool.false_ne_true,
    run_bind_of_ok (run_foldReporting name true args log)]
  rfl

theorem outcome_make {name : String} (hname : name ≠ "") (args : List Term) (log : WarningLog) :
    ((make name args).run.run log).1 = .ok (ofArgs name args) := by
  rw [run_make hname]

theorem make_eq_pure {name : String} (hname : name ≠ "") {args : List Term}
    (hvalid : (ofArgs name args).valid = true) : make name args = pure (ofArgs name args) := by
  funext log
  have hrun := run_make hname args log
  rw [if_pos hvalid] at hrun
  exact hrun

/-- **What folding signs does.** A function is made of any arguments. It is valid if behind every
sign there is a term that can take a minus sign; its arguments are those given, with each such pair
replaced by the negated term joined as the sign was; and a valid function is made again of its own
arguments, without a report. -/
theorem make_folds_signs {name : String} (hname : name ≠ "") (args : List Term)
    (log : WarningLog) :
    ∃ f : FunctionCall Term, ((make name args).run.run log).1 = .ok f ∧ f.name = name ∧
      (f.valid = true ↔ ∀ i, SignAt true args i → (negatedBehind? args i).isSome) ∧
      f.args = (List.range args.length).flatMap (leftAt true args) ∧
      (f.valid = true → make name f.args = pure f) := by
  have hfolds := folds_foldSigns true args
  refine ⟨ofArgs name args, outcome_make hname args log, rfl, hfolds.valid_iff,
    hfolds.eq_replaced, fun hvalid => ?_⟩
  have hagain : ofArgs name (ofArgs name args).args = ofArgs name args := by
    rw [ofArgs_eq name args, ofArgs_eq, foldSigns_foldSigns true hvalid]
    exact congrArg _ hvalid.symm
  have hpure := make_eq_pure hname (hagain ▸ hvalid)
  rwa [hagain] at hpure

/-- In `translate(-x, -y - z)` two signs are folded, and the minus sign between operands is none. -/
theorem make_folds_signs_translate :
    let ident := fun operator name => (Term.ofValue (.ident name)).withOperator operator
    let minus := fun operator => (Term.ofValue (.delimiter .minus)).withOperator operator
    let terms := [minus none, ident none "x", minus (some .comma), ident (some .space) "y",
      minus (some .space), ident (some .space) "z"]
    "translate" ≠ "" ∧ ∃ f : FunctionCall Term,
      ((make "translate" terms).run.run .empty).1 = .ok f ∧ f.valid = true ∧
        f.args = [ident none "-x", ident (some .comma) "-y", minus (some .space),
          ident (some .space) "z"] ∧ make "translate" f.args = pure f := by
  intro ident minus terms
  have hname : "translate" ≠ "" := by decide
  obtain ⟨f, hf, -, -, hargs, hagain⟩ := make_folds_signs hname terms .empty
  obtain rfl : ofArgs "translate" terms = f :=
    Except.ok.inj ((outcome_make hname terms .empty).symm.trans hf)
  exact ⟨hname, _, hf, rfl, hargs.trans rfl, hagain rfl⟩

end FunctionCall

end CssModel
