import CssModel.Proofs.Number.Sign

/-!
# Comparing single precision numbers

Numbers are compared by their values, and that is not how they are told apart: the two zeros are
equal, and what is not a number is not even equal to itself. A number is *ordinary* if it is neither
of the two odd ones. Among ordinary numbers, to be equal is to be the same.

Whole numbers are ordinary. Rounding may carry a mantissa to one bit more, and then shifts it back,
but it never shifts out the leading bit unless the number is below all those that can be written.
The exponent becomes the one that leaves 24 bits, so that only large numbers become infinite.

## Main definitions

* `CssModel.Number.Ordinary`

## Main results

* `CssModel.Number.Ordinary.beq_iff_eq`: ordinary numbers are equal only to themselves
* `CssModel.Number.unpack_pack_finite_ne_zero`, `CssModel.Number.roundWithAccuracy_eq_finite`
* `CssModel.Number.nearest32_intCast`, `CssModel.Number.ordinary_nearest32_intCast`
-/

namespace CssModel.Number

open Float.Model (Format UnpackedFloat)
open Float.Model.UnpackedFloat

/-- Neither the negative zero nor what is not a number. -/
def Ordinary (x : Float32) : Prop :=
  x.toModel.unpack ≠ .notANumber ∧ x.toModel.unpack ≠ .zero .negative

/-! ### Comparing -/

theorem finite_beq_iff {s t : Sign} {m n : Nat} {e f : Int} {hm : 0 < m} {hn : 0 < n} :
    UnpackedFloat.beq (.finite s m e hm) (.finite t n f hn) = true ↔
      UnpackedFloat.finite s m e hm = .finite t n f hn := by
  cases s <;> cases t <;>
    simp [UnpackedFloat.beq, UnpackedFloat.compare, Ordering.then_eq_eq, and_comm]

/-- **Unpacked numbers that are equal are the same**, unless they are the odd ones. -/
theorem unpacked_beq_iff {u v : UnpackedFloat} (hu : u ≠ .notANumber ∧ u ≠ .zero .negative)
    (hv : v ≠ .notANumber ∧ v ≠ .zero .negative) : u.beq v = true ↔ u = v := by
  cases u with
  | notANumber => exact absurd rfl hu.1
  | infinity s =>
    cases v with
    | notANumber => exact absurd rfl hv.1
    | infinity t =>
      cases s <;> cases t <;> simp [UnpackedFloat.beq, UnpackedFloat.compare] <;> decide
    | zero | finite => cases s <;> simp [UnpackedFloat.beq, UnpackedFloat.compare]
  | zero s =>
    cases v with
    | notANumber => exact absurd rfl hv.1
    | infinity t => cases t <;> simp [UnpackedFloat.beq, UnpackedFloat.compare]
    | zero t =>
      cases s with
      | negative => exact absurd rfl hu.2
      | positive =>
        cases t with
        | negative => exact absurd rfl hv.2
        | positive => simp [UnpackedFloat.beq, UnpackedFloat.compare]
    | finite t => cases t <;> simp [UnpackedFloat.beq, UnpackedFloat.compare]
  | finite s m e =>
    cases v with
    | notANumber => exact absurd rfl hv.1
    | infinity t => cases t <;> simp [UnpackedFloat.beq, UnpackedFloat.compare]
    | zero => cases s <;> simp [UnpackedFloat.beq, UnpackedFloat.compare]
    | finite => exact finite_beq_iff

/-- Numbers are the same if they are the same unpacked. -/
theorem eq_of_unpack_eq32 {x y : Float32} (h : x.toModel.unpack = y.toModel.unpack) : x = y := by
  obtain ⟨⟨bits, hvalid⟩⟩ := x
  obtain ⟨⟨bits', hvalid'⟩⟩ := y
  have hbits := congrArg (UnpackedFloat.pack .binary32) h
  rw [Float32.Model.unpack, Float32.Model.unpack, pack_unpack (by decide) hvalid,
    pack_unpack (by decide) hvalid'] at hbits
  simpa [← UInt32.toBitVec_inj] using hbits

theorem Ordinary.beq_iff_eq {x y : Float32} (hx : Ordinary x) (hy : Ordinary y) :
    (x == y) = true ↔ x = y := by
  refine Iff.trans (unpacked_beq_iff hx hy) ?_
  exact ⟨eq_of_unpack_eq32, congrArg fun x : Float32 => x.toModel.unpack⟩

theorem unpack_zero : (0 : Float32).toModel.unpack = .zero .positive := rfl

/-- The sign of zero does not count in a comparison with zero. -/
theorem beq_zero_of_unpack_eq_zero {x : Float32} {s : Sign} (h : x.toModel.unpack = .zero s) :
    (x == 0) = true := by
  change UnpackedFloat.beq x.toModel.unpack (0 : Float32).toModel.unpack = true
  rw [h, unpack_zero]
  rfl

/-! ### Packing -/

/-- The parts of a number that is neither zero nor infinite. -/
theorem unpack_packComponents_finite {spec : Format} (s : Sign)
    {exponent : BitVec spec.exponentBits} {mantissa : BitVec spec.mantissaBitsWithoutImplicit}
    (hfinite : exponent ≠ -1#_) (hnonzero : exponent ≠ 0#_ ∨ mantissa ≠ 0#_) :
    ∃ m e hpos, unpack spec (packComponents spec s exponent mantissa) = .finite s m e hpos := by
  simp only [unpack, unpackMantissa_packComponents, unpackExponent_packComponents,
    unpackSign_packComponents, ofBitVec_toBitVec, if_neg hfinite]
  split
  · next hexponent =>
    have hmantissa := hnonzero.resolve_left (not_not_intro hexponent)
    exact ⟨_, _, Nat.pos_of_ne_zero fun hzero => hmantissa (BitVec.eq_of_toNat_eq hzero),
      dif_neg hmantissa⟩
  · have hpos : 0 < (1#1 ++ mantissa).toNat := by
      rw [toNat_append_implicit]
      exact Nat.add_pos_left (Nat.two_pow_pos _) _
    exact ⟨_, _, hpos, rfl⟩

theorem unpack_packedInfinity (s : Sign) :
    unpack .binary32 (packedInfinity .binary32 s) = .infinity s := by
  cases s <;> rfl

theorem toNat_ofNat_of_lt {w n : Nat} (h : n < 2 ^ w) : (BitVec.ofNat w n).toNat = n := by
  rw [BitVec.toNat_ofNat, Nat.mod_eq_of_lt h]

/-- **A finite number stays finite or becomes infinite, and keeps its sign**, if its mantissa and
its exponent are those of single precision. It becomes infinite if the exponent is too large. -/
theorem unpack_pack_finite (s : Sign) {m : Nat} {e : Int} {hpos : 0 < m} (hm : m < 2 ^ 24)
    (he : -149 ≤ e) :
    (104 < e ∧ unpack .binary32 (pack .binary32 (.finite s m e hpos)) = .infinity s) ∨
      ∃ m' e' hpos', unpack .binary32 (pack .binary32 (.finite s m e hpos)) =
        .finite s m' e' hpos' := by
  -- the biased exponent, which is at least that of the least number with a leading bit
  generalize hbiased : (e + Format.binary32.exponentBias +
    Format.binary32.mantissaBitsWithoutImplicit : Int).toNat = biased
  have hbias : (Format.binary32.exponentBias : Int) = 127 := rfl
  have hbits : (Format.binary32.mantissaBitsWithoutImplicit : Int) = 23 := rfl
  have hle : 1 ≤ biased := by omega
  simp only [pack, hbiased]
  split
  · next hlarge =>
    have hlarge' : 2 ^ 8 ≤ biased + 1 := hlarge
    exact .inl ⟨by omega, unpack_packedInfinity s⟩
  · next hfits =>
    have hlt : biased < 2 ^ 8 - 1 := Nat.lt_sub_of_add_lt (Nat.lt_of_not_le hfits)
    right
    split
    · next hnormal =>
      have hexponent : (BitVec.ofNat Format.binary32.exponentBits biased).toNat = biased :=
        toNat_ofNat_of_lt (Nat.lt_of_lt_of_le hlt (by decide))
      refine unpack_packComponents_finite s (fun hones => ?_) (.inl fun hzero => ?_)
      · rw [hones] at hexponent
        exact absurd hexponent (Nat.ne_of_gt hlt)
      · rw [hzero] at hexponent
        exact absurd hexponent (Nat.ne_of_lt hle)
    · next hsubnormal =>
      have hlog : m.log2 < 23 := by
        have hlog' := (Nat.log2_lt hpos.ne').mpr hm
        have hwidth : Format.binary32.mantissaBits = 24 := rfl
        omega
      have hmantissa : (BitVec.ofNat Format.binary32.mantissaBitsWithoutImplicit m).toNat = m :=
        toNat_ofNat_of_lt ((Nat.log2_lt hpos.ne').mp hlog)
      refine unpack_packComponents_finite s (by decide) (.inr fun hzero => ?_)
      rw [hzero] at hmantissa
      exact absurd hmantissa hpos.ne

/-! ### Rounding -/

theorem mantissa_shiftRight (em : ExtendedMantissa) (k : Nat) :
    (em >>> k).mantissa = em.mantissa / 2 ^ k := by
  induction k with
  | zero => exact (Nat.div_one _).symm
  | succ k ih =>
    change (em >>> k).mantissa / 2 = _
    rw [ih, Nat.div_div_eq_div_mul, Nat.pow_succ]

theorem roundedMantissa_bounds (em : ExtendedMantissa) :
    em.mantissa ≤ em.roundedMantissa ∧ em.roundedMantissa ≤ em.mantissa + 1 := by
  obtain ⟨m, r, t⟩ := em
  cases r <;> cases t <;>
    simp [ExtendedMantissa.roundedMantissa, ExtendedMantissa.accuracy, Accuracy.roundToNearestEven]
  omega

theorem mantissa_ofMantissaAndAccuracy (m : Nat) (accuracy : Accuracy) :
    (ExtendedMantissa.ofMantissaAndAccuracy m accuracy).mantissa = m := by
  cases accuracy with
  | exact => rfl
  | inexact o => cases o <;> rfl

/-- What is left of a mantissa that was shifted to its place: at most 24 bits, and the leading one
is among them unless the number is below all those that can be written. -/
theorem shiftToTargetExponent_bounds (m : Nat) (e : Int) (accuracy : Accuracy) :
    (shiftToTargetExponent .binary32 m e accuracy).1.mantissa < 2 ^ 24 ∧
      (shiftToTargetExponent .binary32 m e accuracy).2 = max e (max (m.log2 + e - 23) (-149)) ∧
      (0 < m → -149 ≤ m.log2 + e →
        0 < (shiftToTargetExponent .binary32 m e accuracy).1.mantissa) := by
  have hbits : (Format.binary32.mantissaBits : Int) = 24 := rfl
  have hmin : Format.binary32.minExponent = -149 := rfl
  have htarget : Format.binary32.targetExponent (Float.Model.totalExponent m e) =
      max (m.log2 + 1 + e - 24) (-149) := rfl
  simp only [shiftToTargetExponent, shiftToExponent, htarget, mantissa_shiftRight,
    mantissa_ofMantissaAndAccuracy]
  generalize hk : (max (m.log2 + 1 + e - 24) (-149) - e : Int).toNat = k
  refine ⟨?_, by omega, fun hm hlog => ?_⟩
  · rw [Nat.div_lt_iff_lt_mul (Nat.two_pow_pos k), ← Nat.pow_add]
    exact Nat.lt_of_lt_of_le Nat.lt_log2_self (Nat.pow_le_pow_right (by decide) (by omega))
  · refine Nat.div_pos ?_ (Nat.two_pow_pos k)
    exact Nat.le_trans (Nat.pow_le_pow_right (by decide) (by omega)) (Nat.log2_self_le hm.ne')

/-- **Rounding a number that can be written gives a finite one**, with a mantissa and an exponent
of single precision. The exponent is the one that leaves 24 bits, or the next. -/
theorem roundWithAccuracy_eq_finite (s : Sign) {m : Nat} {e : Int} (accuracy : Accuracy)
    (hpos : 0 < m) (hlog : -149 ≤ m.log2 + e) :
    ∃ m' e' hpos', roundWithAccuracy .binary32 s m e accuracy = .finite s m' e' hpos' ∧
      m' < 2 ^ 24 ∧ -149 ≤ e' ∧ e' ≤ max e (max (m.log2 + e - 23) (-149)) + 1 := by
  obtain ⟨hwidth, hexponent, hmantissa⟩ := shiftToTargetExponent_bounds m e accuracy
  rw [roundWithAccuracy]
  generalize shiftToTargetExponent .binary32 m e accuracy = first at hwidth hexponent hmantissa
  obtain ⟨em, e₁⟩ := first
  simp only at hwidth hexponent
  obtain ⟨hle, hcarry⟩ := roundedMantissa_bounds em
  -- a rounded mantissa is not zero, so the second shift keeps its leading bit as well
  have hrounded : 0 < em.roundedMantissa := Nat.lt_of_lt_of_le (hmantissa hpos hlog) hle
  obtain ⟨hlt, hexponent', hmantissa'⟩ :=
    shiftToTargetExponent_bounds em.roundedMantissa e₁ .exact
  have hnonzero := hmantissa' hrounded (by omega)
  have hbits : em.roundedMantissa.log2 < 25 := (Nat.log2_lt hrounded.ne').mpr (by omega)
  refine ⟨_, (shiftToTargetExponent .binary32 em.roundedMantissa e₁ .exact).2, hnonzero,
    dif_neg hnonzero.ne', hlt, ?_, ?_⟩
  · omega
  · omega

/-! ### Whole numbers -/

/-- A quotient by one is the same number, perhaps with a longer mantissa. -/
theorem divCore_one {m : Nat} (hpos : 0 < m) :
    0 < (divCore .binary32 m 0 1 0).1 ∧ (divCore .binary32 m 0 1 0).2.1 ≤ 0 ∧
      ((divCore .binary32 m 0 1 0).1.log2 : Int) + (divCore .binary32 m 0 1 0).2.1 = m.log2 := by
  simp only [divCore, Nat.div_one]
  generalize htarget : min (0 - 0 : Int) _ = target
  have hle : target ≤ 0 := by omega
  generalize hk : (0 - 0 - target).toNat = k
  have hshift : m <<< k = m * 2 ^ k := Nat.shiftLeft_eq m k
  have hne : m <<< k ≠ 0 := by
    rw [hshift]
    exact (Nat.mul_pos hpos (Nat.two_pow_pos k)).ne'
  have hlog : (m <<< k).log2 = m.log2 + k := by
    rw [Nat.log2_eq_iff hne, hshift, Nat.pow_add, Nat.add_right_comm, Nat.pow_add]
    exact ⟨Nat.mul_le_mul_right _ (Nat.log2_self_le hpos.ne'),
      Nat.mul_lt_mul_of_pos_right Nat.lt_log2_self (Nat.two_pow_pos k)⟩
  exact ⟨Nat.pos_of_ne_zero hne, hle, by omega⟩

/-- **A whole number other than zero is rounded to a number with a mantissa and an exponent of
single precision**, packed. -/
theorem nearest32_intCast {n : Int} (hne : n ≠ 0) :
    ∃ s m e, ∃ hpos : 0 < m, nearest32 n = Float32.ofModel (.pack (.finite s m e hpos)) ∧
      m < 2 ^ 24 ∧ -149 ≤ e ∧ e ≤ max 0 (n.natAbs.log2 - 23 : Int) + 1 := by
  have hnum : (n : Rat).num = n := Rat.num_intCast n
  have hden : (n : Rat).den = 1 := Rat.den_intCast n
  have hnat : 0 < n.natAbs := Int.natAbs_pos.mpr hne
  rw [nearest32, dif_neg (by rw [hnum]; exact hnat.ne')]
  generalize (if (n : Rat).num < 0 then Sign.negative else Sign.positive) = s
  obtain ⟨hquotient, hexponent, hlog⟩ := divCore_one hnat
  have hwritten : -149 ≤ ((divCore .binary32 n.natAbs 0 1 0).1.log2 : Int) +
      (divCore .binary32 n.natAbs 0 1 0).2.1 := by omega
  obtain ⟨m, e, hpos, hround, hm, he, hle⟩ := roundWithAccuracy_eq_finite (s / .positive)
    (divCore .binary32 n.natAbs 0 1 0).2.2 hquotient hwritten
  refine ⟨s / .positive, m, e, hpos, ?_, hm, he, by omega⟩
  simp only [UnpackedFloat.div, hnum, hden, hround]

theorem ordinary_pack_finite (s : Sign) {m : Nat} {e : Int} (hpos : 0 < m) (hm : m < 2 ^ 24)
    (he : -149 ≤ e) : Ordinary (Float32.ofModel (.pack (.finite s m e hpos))) := by
  change unpack .binary32 (pack .binary32 _) ≠ _ ∧ unpack .binary32 (pack .binary32 _) ≠ _
  rcases unpack_pack_finite s hm he with ⟨-, hpack⟩ | ⟨m', e', hpos', hpack⟩
  · rw [hpack]
    exact ⟨by simp, by simp⟩
  · rw [hpack]
    exact ⟨by simp, by simp⟩

/-- **Whole numbers are ordinary.** -/
theorem ordinary_nearest32_intCast (n : Int) : Ordinary (nearest32 n) := by
  by_cases hne : n = 0
  · subst hne
    exact ⟨by simp [nearest32, unpack_zero], by simp [nearest32, unpack_zero]⟩
  · obtain ⟨s, m, e, hpos, heq, hm, he, -⟩ := nearest32_intCast hne
    rw [heq]
    exact ordinary_pack_finite s hpos hm he

end CssModel.Number
