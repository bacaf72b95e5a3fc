import CssModel.Proofs.Number.Comparison

/-!
# Finite single precision numbers

What is neither infinite nor odd to compare has an exact value. A finite number is below zero
exactly if its value is; a zero is not, whatever its sign, and taking the sign away from a zero
leaves the value as it was. A whole number is rounded to a finite one unless it is beyond the powers
of two that single precision can write.

## Main results

* `CssModel.Number.isFinite_eq_false_iff`
* `CssModel.Number.lt_zero_iff`: finite numbers below zero
* `CssModel.Number.eq_zero_of_beq_zero`: numbers that are equal to zero
* `CssModel.Number.isFinite_nearest32_intCast`
-/

namespace CssModel.Number

open Float.Model (UnpackedFloat)
open Float.Model.UnpackedFloat

variable {x : Float32}

theorem isFinite_eq_true_iff : x.isFinite = true ↔
    (∃ s, x.toModel.unpack = .zero s) ∨ ∃ s m e hpos, x.toModel.unpack = .finite s m e hpos := by
  rw [Float32.isFinite, Float32.Model.isFinite]
  cases x.toModel.unpack with
  | notANumber | infinity | zero => simp [UnpackedFloat.isFinite]
  | finite s m e hpos => simp [UnpackedFloat.isFinite, hpos]

/-- What is not finite is infinite or not a number. -/
theorem isFinite_eq_false_iff : x.isFinite = false ↔ x.isNaN = true ∨ x.isInf = true := by
  rw [Float32.isFinite, Float32.Model.isFinite, Float32.isNaN, Float32.Model.isNaN, Float32.isInf,
    Float32.Model.isInf]
  cases x.toModel.unpack <;>
    simp [UnpackedFloat.isFinite, UnpackedFloat.isNaN, UnpackedFloat.isInf]

theorem exactOf_positive {m : Nat} {e : Int} (hpos : 0 < m) :
    0 < exactOf (.finite .positive m e hpos) := by
  have hm : (0 : Rat) < m := Nat.cast_pos.mpr hpos
  simp only [exactOf]
  exact Rat.mul_pos hm (Rat.zpow_pos (by decide))

theorem exactOf_negative {m : Nat} {e : Int} (hpos : 0 < m) :
    exactOf (.finite .negative m e hpos) < 0 := by
  have hopposite :
      exactOf (.finite .negative m e hpos) = -exactOf (.finite .positive m e hpos) := by
    simp only [exactOf]
  rw [hopposite]
  exact neg_neg_of_pos (exactOf_positive hpos)

theorem lt_zero_iff_compare : x < 0 ↔
    x.toModel.unpack.compare (.zero .positive) = some .lt := by
  have hlt : (x < 0) = (decide (x.toModel < (0 : Float32).toModel) = true) := rfl
  rw [hlt, decide_eq_true_iff, ← beq_iff_eq]
  exact Iff.rfl

/-- **A finite number is below zero exactly if its value is.** -/
theorem lt_zero_iff (h : x.isFinite = true) : x < 0 ↔ exact32 x < 0 := by
  rw [lt_zero_iff_compare, exact32]
  rcases isFinite_eq_true_iff.mp h with ⟨s, hzero⟩ | ⟨s, m, e, hpos, hfinite⟩
  · rw [hzero]
    exact iff_of_false (by simp [UnpackedFloat.compare]) (lt_irrefl 0)
  · rw [hfinite]
    cases s with
    | positive =>
      exact iff_of_false (by simp [UnpackedFloat.compare]) (exactOf_positive hpos).not_gt
    | negative => exact iff_of_true rfl (exactOf_negative hpos)

/-- What is equal to zero is one of the two zeros. -/
theorem eq_zero_of_beq_zero (h : (x == 0) = true) : ∃ s, x.toModel.unpack = .zero s := by
  change x.toModel.unpack.beq (.zero .positive) = true at h
  cases hunpack : x.toModel.unpack with
  | zero s => exact ⟨s, rfl⟩
  | notANumber => simp [hunpack, UnpackedFloat.beq, UnpackedFloat.compare] at h
  | infinity s | finite s =>
    cases s <;> simp [hunpack, UnpackedFloat.beq, UnpackedFloat.compare] at h

theorem isFinite_pack_finite (s : Sign) {m : Nat} {e : Int} (hpos : 0 < m) (hm : m < 2 ^ 24)
    (he : -149 ≤ e) (hfits : e ≤ 104) :
    (Float32.ofModel (.pack (.finite s m e hpos))).isFinite = true := by
  rw [isFinite_eq_true_iff]
  change (∃ s', unpack .binary32 (pack .binary32 _) = _) ∨
    ∃ s' m' e' hpos', unpack .binary32 (pack .binary32 _) = _
  rcases unpack_pack_finite s hm he with ⟨hlarge, -⟩ | ⟨m', e', hpos', hpack⟩
  · omega
  · exact .inr ⟨_, _, _, _, hpack⟩

/-- **Whole numbers are finite**, as far as single precision reaches. -/
theorem isFinite_nearest32_intCast {n : Int} (h : n.natAbs < 2 ^ 127) :
    (nearest32 n).isFinite = true := by
  by_cases hne : n = 0
  · subst hne
    rfl
  · obtain ⟨s, m, e, hpos, heq, hm, he, hle⟩ := nearest32_intCast hne
    have hlog : n.natAbs.log2 < 127 := (Nat.log2_lt (Int.natAbs_ne_zero.mpr hne)).mpr h
    rw [heq]
    exact isFinite_pack_finite s hpos hm he (by omega)

end CssModel.Number
