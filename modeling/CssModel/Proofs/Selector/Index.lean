import CssModel.Selector.Index

/-!
# The positions of an index

Testing a position takes a distance, a comparison of signs and a remainder, in numbers of 64 bits.
Here this is shown to be what an index stands for: the position is `step * k + offset` for some
`k` from zero on. Step, offset and position are 32 bits wide, so that the distance fits. It even
stays away from the smallest number of 64 bits, the only one that overflows in a division.

## Main definitions

* `CssModel.Index.Covers`
* `CssModel.Index.IsExact`: nothing overflows in the test

## Main results

* `CssModel.Index.exists_eq_mul_iff`: multiples, by sign and remainder
* `CssModel.Index.contains_iff`
* `CssModel.Index.contains_iff_exists_nonneg`
-/

namespace CssModel

namespace Index

/-- The position is `step * k + offset` for some `k` from zero on. -/
def Covers (i : Index) (position : Int) : Prop :=
  ∃ k : Nat, position = i.step.toInt * k + i.offset.toInt

/-- A number is so many times another one if it is zero, or has the sign of the other one and leaves
no remainder. The remainder is that of a division which rounds toward zero. -/
theorem exists_eq_mul_iff {a d : Int} (ha : a ≠ 0) :
    (∃ k : Nat, d = a * k) ↔ d = 0 ∨ (d < 0 ↔ a < 0) ∧ d.tmod a = 0 := by
  constructor
  · rintro ⟨k, rfl⟩
    obtain rfl | hk := Nat.eq_zero_or_pos k
    · exact .inl (Int.mul_zero a)
    · have hk' : (0 : Int) < k := Int.natCast_pos.mpr hk
      refine .inr ⟨?_, Int.mul_tmod_right a k⟩
      obtain hneg | hpos := Int.lt_or_gt_of_ne ha
      · have hlt := Int.mul_neg_of_neg_of_pos hneg hk'
        exact iff_of_true hlt hneg
      · have hlt := Int.mul_pos hpos hk'
        omega
  · rintro (rfl | ⟨hsign, hmod⟩)
    · exact ⟨0, by simp⟩
    · obtain ⟨q, rfl⟩ := Int.dvd_of_tmod_eq_zero hmod
      have hq : 0 ≤ q := by
        refine Int.not_lt.mp fun hq => ?_
        obtain hneg | hpos := Int.lt_or_gt_of_ne ha
        · have hle := Int.mul_nonneg_of_nonpos_of_nonpos (Int.le_of_lt hneg) (Int.le_of_lt hq)
          exact absurd (hsign.mpr hneg) (Int.not_lt.mpr hle)
        · have hlt := Int.mul_neg_of_pos_of_neg hpos hq
          exact absurd (hsign.mp hlt) (Int.not_lt.mpr (Int.le_of_lt hpos))
      exact ⟨q.toNat, by rw [Int.toNat_of_nonneg hq]⟩

theorem sameSign_iff {a b : Int64} :
    sameSign a b = true ↔
      (a.toInt < 0 ↔ b.toInt < 0) ∧ (a.toInt = 0 ↔ b.toInt = 0) := by
  rw [sameSign, Bool.and_eq_true, beq_iff_eq, beq_iff_eq, decide_eq_decide, Bool.beq_eq_decide_eq,
    Bool.beq_eq_decide_eq, decide_eq_decide]
  simp only [Int64.lt_iff_toInt_lt, ← Int64.toInt_inj, Int64.toInt_zero]

/-- The distance of two numbers of 32 bits fits into 64 bits. -/
theorem toInt_distance (a b : Int32) : (a.toInt64 - b.toInt64).toInt = a.toInt - b.toInt := by
  rw [Int64.toInt_sub, Int32.toInt_toInt64, Int32.toInt_toInt64]
  have ha := a.toInt_lt
  have ha' := a.le_toInt
  have hb := b.toInt_lt
  have hb' := b.le_toInt
  exact Int.bmod_eq_of_le (by omega) (by omega)

/-- **The test finds the positions of the index.** -/
theorem contains_iff {i : Index} {position : Int32} :
    i.contains position = true ↔ i.Covers position.toInt := by
  have hcovers : i.Covers position.toInt ↔
      ∃ k : Nat, position.toInt - i.offset.toInt = i.step.toInt * k :=
    exists_congr fun k => by omega
  rw [hcovers, contains]
  simp only [beq_iff_eq, ← Int64.toInt_inj, Int32.toInt_toInt64, Int64.toInt_zero]
  split
  · next hstep =>
    rw [beq_iff_eq, ← Int64.toInt_inj, toInt_distance, hstep]
    simp
  · next hstep =>
    rw [exists_eq_mul_iff hstep]
    simp only [Bool.or_eq_true, Bool.and_eq_true, beq_iff_eq, ← Int64.toInt_inj, sameSign_iff,
      Int64.toInt_mod, Int32.toInt_toInt64, Int64.toInt_zero, toInt_distance, hstep]
    by_cases hzero : position.toInt - i.offset.toInt = 0
    · simp [hzero]
    · simp [hzero]

/-! ### Nothing overflows -/

/-- What the test computes in 64 bits are the whole numbers that it stands for. A remainder is exact
only where the quotient is: the machine works out both at once. -/
structure IsExact (i : Index) (position : Int32) : Prop where
  distance : (position.toInt64 - i.offset.toInt64).toInt = position.toInt - i.offset.toInt
  quotient : ((position.toInt64 - i.offset.toInt64) / i.step.toInt64).toInt =
    (position.toInt - i.offset.toInt).tdiv i.step.toInt
  remainder : ((position.toInt64 - i.offset.toInt64) % i.step.toInt64).toInt =
    (position.toInt - i.offset.toInt).tmod i.step.toInt

/-- The distance of two numbers of 32 bits is not the smallest number of 64 bits. -/
theorem distance_ne_minValue (a b : Int32) : a.toInt64 - b.toInt64 ≠ Int64.minValue := by
  intro heq
  have hdistance : a.toInt - b.toInt = Int64.minValue.toInt := by rw [← toInt_distance, heq]
  have ha := a.le_toInt
  have hb := b.toInt_lt
  rw [Int64.toInt_minValue] at hdistance
  omega

theorem isExact (i : Index) (position : Int32) : i.IsExact position where
  distance := toInt_distance position i.offset
  quotient := by
    rw [Int64.toInt_div_of_ne_left _ _ (distance_ne_minValue position i.offset), toInt_distance,
      Int32.toInt_toInt64]
  remainder := by rw [Int64.toInt_mod, toInt_distance, Int32.toInt_toInt64]

/-- **The test decides membership among the whole numbers**, and nothing overflows in it, whatever
the step, the offset and the position are. -/
theorem contains_iff_exists_nonneg (i : Index) (position : Int32) :
    (i.contains position = true ↔
      ∃ k : Int, 0 ≤ k ∧ i.step.toInt * k + i.offset.toInt = position.toInt) ∧
      i.IsExact position := by
  refine ⟨contains_iff.trans ⟨?_, ?_⟩, i.isExact position⟩
  · rintro ⟨k, hk⟩
    exact ⟨k, Int.natCast_nonneg k, hk.symm⟩
  · rintro ⟨k, hnonneg, hk⟩
    obtain ⟨n, rfl⟩ := Int.eq_ofNat_of_zero_le hnonneg
    exact ⟨n, hk.symm⟩

/-- Two steps of the largest number lead from the smallest one to this position. -/
example : (⟨2147483647, -2147483648⟩ : Index).contains 2147483646 = true := by decide

end Index

end CssModel
