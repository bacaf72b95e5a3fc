import CssModel.Proofs.Term.Construction

/-!
# Valid terms and the terms in them

Whether a term is valid is found out in three ways. Lists and pairs ask the terms in them each time.
An expression has asked its operands when it was read. A function asks nobody: it looks at the signs
among its arguments, keeps what it found, and may be told otherwise from outside.

So validity comes down to what a term holds everywhere but at functions, and a valid term may hold
terms that are not valid, below a function.

## Main results

* `CssModel.Term.Built.valid_of_mem_parts`: everything but functions
* `CssModel.Term.Built.contained_valid_iff`
* `CssModel.Term.call_valid_with_invalid_argument`: a function whose argument is not valid
-/

namespace CssModel

theorem validTerms_iff {ts : List Term} : validTerms ts = true ↔ ∀ t ∈ ts, t.valid = true := by
  induction ts with
  | nil => simp [validTerms]
  | cons t ts ih =>
    rw [validTerms, Bool.and_eq_true, ih, List.forall_mem_cons]
    rfl

theorem Term.IsOperand.valid {t : Term} (h : t.IsOperand) : t.valid = true := by
  rw [Term.valid]
  obtain ⟨n, hn⟩ | ⟨e, he, hvalid⟩ := h
  · rw [hn]
    rfl
  · rw [he]
    exact hvalid

namespace Term

variable {t u v : Term} {f : FunctionCall Term}

theorem call?_eq_some_iff : t.call? = some f ↔ t.value = .call f := by
  rw [call?]
  split
  · next g hvalue => rw [hvalue, Option.some.injEq, Value.call.injEq]
  · next hvalue => simpa using hvalue f

/-- **Everything but functions** is valid only with all its parts. Of expressions this holds because
nothing that is not valid gets into one, so that it holds of those that are not valid too. -/
theorem Built.valid_of_mem_parts (h : t.Built) (hvalid : t.valid = true) (hcall : t.call? = none)
    (hu : u ∈ t.value.parts) : u.valid = true := by
  have hbuilt := h.isBuilt
  unfold Value.parts at hu
  split at hu
  · next f hv => simp [call?, hv] at hcall
  · next ts hv =>
    rw [valid, hv, Value.valid] at hvalid
    exact validTerms_iff.mp hvalid u hu
  · next key t' hv =>
    obtain rfl : u = t' := List.mem_singleton.mp hu
    rw [valid, hv, Value.valid] at hvalid
    exact hvalid
  · next e hv =>
    rw [hv] at hbuilt
    obtain ⟨ts, -, rfl⟩ := hbuilt
    obtain ⟨t', -, hoperand, rfl⟩ :=
      Expression.exists_of_operand (Expression.mem_operands_iff.mp hu)
    exact hoperand.valid
  · cases hu

/-- What holds of a term, and of the parts of every term in it of which it holds, holds of all terms
in it. -/
theorem forall_contains_of_parts {P : Term → Prop} (ht : P t)
    (hparts : ∀ v, v = t ∨ t.Contains v → P v → ∀ u ∈ v.value.parts, P u) :
    ∀ u, t.Contains u → P u := by
  intro u hu
  induction hu with
  | single hu => exact hparts t (.inl rfl) ht _ hu
  | tail hv hu ih => exact hparts _ (.inr hv) ih _ hu

theorem contains_of_mem_args (hv : v = t ∨ t.Contains v) (hf : v.call? = some f)
    (hu : u ∈ f.args) : t.Contains u := by
  have hpart : u ∈ v.value.parts := by
    rw [call?_eq_some_iff.mp hf]
    exact hu
  obtain rfl | hv := hv
  · exact .single hpart
  · exact .tail hv hpart

/-- **The terms in a valid term** are all valid if the arguments of every function among them are,
and only then. A valid term that is no function has only valid terms directly in it. -/
theorem Built.contained_valid_iff (h : t.Built) (hvalid : t.valid = true) :
    (t.call? = none → ∀ u ∈ t.value.parts, u.valid = true) ∧
    ((∀ u, t.Contains u → u.valid = true) ↔
      ∀ v f, v = t ∨ t.Contains v → v.call? = some f → ∀ arg ∈ f.args, arg.valid = true) := by
  refine ⟨fun hcall u => h.valid_of_mem_parts hvalid hcall, ?_, fun hargs => ?_⟩
  · exact fun hall v f hv hf arg harg => hall arg (contains_of_mem_args hv hf harg)
  · refine forall_contains_of_parts hvalid fun v hv hvvalid u hu => ?_
    have hbuilt : v.Built := by
      obtain rfl | hv := hv
      · exact h
      · exact h.of_contains hv
    cases hcall : v.call? with
    | none => exact hbuilt.valid_of_mem_parts hvvalid hcall hu
    | some f =>
      rw [call?_eq_some_iff.mp hcall] at hu
      exact hargs v f hv hcall u hu

/-- A list of one function, `f(calc(1px + 2))`: all that it holds is valid. -/
theorem contained_valid_sum_in_call :
    let px := ofValue (.numeric ⟨.length, 1, some .px⟩)
    let two := ofValue (.numeric (.ofInt 2))
    let sum := ofValue (.calc (Expression.ofTerms [px, ofValue (.delimiter .plus), two]))
    let f := ofValue (.call (FunctionCall.ofArgs "f" [sum]))
    let t := ofValue (.list [f])
    t.Built ∧ t.valid = true ∧ t.Contains px ∧ ∀ u, t.Contains u → u.valid = true := by
  intro px two sum f t
  have hmake : Numeric.make .length 1 (some .px) = .ok ⟨.length, 1, some .px⟩ := rfl
  have hpx : px.Built := .numeric (.make hmake)
  have htwo : two.Built := .numeric (.ofInt 2)
  have hf : f.Built := .ofArgs (by decide) (List.forall_mem_singleton.mpr (hpx.binary htwo))
  have ht : t.Built := .list (List.forall_mem_singleton.mpr hf)
  have hvalid : t.valid = true := rfl
  have hcontains : ∀ v, v = t ∨ t.Contains v → v ∈ [t, f, sum, px, two] := by
    rintro v (rfl | hv)
    · exact List.mem_cons_self
    refine forall_contains_of_parts List.mem_cons_self (fun v _ hv u hu => ?_) v hv
    simp only [List.mem_cons, List.not_mem_nil, or_false] at hv
    obtain rfl | rfl | rfl | rfl | rfl := hv
    · rw [List.mem_singleton.mp hu]
      simp
    · rw [List.mem_singleton.mp hu]
      simp
    · have hu : u ∈ [px, two] := hu
      simp only [List.mem_cons, hu, or_true]
    · cases hu
    · cases hu
  have hargs : ∀ v g, v = t ∨ t.Contains v → v.call? = some g →
      ∀ arg ∈ g.args, arg.valid = true := by
    intro v g hv hg arg harg
    have hmem := hcontains v hv
    simp only [List.mem_cons, List.not_mem_nil, or_false] at hmem
    obtain rfl | rfl | rfl | rfl | rfl := hmem
    · cases hg
    · cases hg
      rw [List.mem_singleton.mp harg]
      rfl
    · cases hg
    · cases hg
    · cases hg
  have hfpart : t.Contains f := .single List.mem_cons_self
  have hpxpart : t.Contains px := (hfpart.tail List.mem_cons_self).tail List.mem_cons_self
  exact ⟨ht, hvalid, hpxpart, (ht.contained_valid_iff hvalid).2.mpr hargs⟩

/-- `f(calc(1px + 1deg))` is valid, and what it holds is not. -/
theorem call_valid_with_invalid_argument :
    let px := ofValue (.numeric ⟨.length, 1, some .px⟩)
    let deg := ofValue (.numeric ⟨.angle, 1, some .deg⟩)
    let sum := ofValue (.calc (Expression.ofTerms [px, ofValue (.delimiter .plus), deg]))
    let t := ofValue (.call (FunctionCall.ofArgs "f" [sum]))
    t.Built ∧ t.valid = true ∧ t.Contains sum ∧ sum.valid = false := by
  intro px deg sum t
  have hpxmake : Numeric.make .length 1 (some .px) = .ok ⟨.length, 1, some .px⟩ := rfl
  have hdegmake : Numeric.make .angle 1 (some .deg) = .ok ⟨.angle, 1, some .deg⟩ := rfl
  have hpx : px.Built := .numeric (.make hpxmake)
  have hdeg : deg.Built := .numeric (.make hdegmake)
  exact ⟨.ofArgs (by decide) (List.forall_mem_singleton.mpr (hpx.binary hdeg)), rfl,
    .single List.mem_cons_self, rfl⟩

end Term

end CssModel
