import CssModel.Number.Rounding
import Mathlib

/-!
# The sign of floating point numbers

The sign of a number is a bit of its own. Changing it changes neither the other bits nor how
anything is rounded, so that the opposite of a number may be taken before or after a product, a
quotient or the passage to another width. There is one number that is not a number, and it is its
own opposite.

The numbers are those of the packed model: an operation unpacks its operands, works on signs,
mantissas and exponents, and packs the result. What a packed number is worth is therefore known
when packing and unpacking are known to be inverse.

## Main results

* `CssModel.Number.pack_unpack`: packing puts together what unpacking takes apart
* `CssModel.Number.unpack_pack_neg`: packing goes with opposites
* `CssModel.Number.neg_neg`, `CssModel.Number.neg_mul`, `CssModel.Number.neg_div`
* `CssModel.Number.packed_neg`: the opposite of a packed number
-/

namespace CssModel.Number

open Float.Model (Format UnpackedFloat)
open Float.Model.UnpackedFloat

/-! ### Unpacked numbers -/

section Unpacked

variable {spec : Format}

theorem sign_neg_mul (s t : Sign) : -s * t = -(s * t) := by
  cases s <;> cases t <;> rfl

theorem sign_neg_div (s t : Sign) : -s / t = -(s / t) := by
  cases s <;> cases t <;> rfl

theorem unpacked_neg_neg (u : UnpackedFloat) : u.neg.neg = u := by
  cases u with
  | notANumber => rfl
  | infinity s | zero s | finite s => cases s <;> rfl

theorem roundWithAccuracy_neg (s : Sign) (mantissa : Nat) (exponent : Int) (accuracy : Accuracy) :
    roundWithAccuracy spec (-s) mantissa exponent accuracy =
      (roundWithAccuracy spec s mantissa exponent accuracy).neg := by
  simp only [roundWithAccuracy]
  split <;> rfl

theorem unpacked_neg_mul (u v : UnpackedFloat) : mul spec u.neg v = (mul spec u v).neg := by
  cases u <;> cases v <;>
    simp only [UnpackedFloat.neg, mul, sign_neg_mul, roundWithAccuracy_neg]

theorem unpacked_neg_div (u v : UnpackedFloat) : div spec u.neg v = (div spec u v).neg := by
  cases u <;> cases v <;>
    simp only [UnpackedFloat.neg, div, sign_neg_div, roundWithAccuracy_neg]

theorem reround_neg (u : UnpackedFloat) : reround spec u.neg = (reround spec u).neg := by
  cases u with
  | finite s mantissa exponent h => exact roundWithAccuracy_neg s _ _ _
  | notANumber | infinity | zero => rfl

end Unpacked

/-! ### Packing -/

section Packing

variable {spec : Format} (s : Sign) (exponent : BitVec spec.exponentBits)
  (mantissa : BitVec spec.mantissaBitsWithoutImplicit)

theorem ofBitVec_toBitVec : Sign.ofBitVec s.toBitVec = s := by
  cases s <;> rfl

theorem toBitVec_ofBitVec (b : BitVec 1) : (Sign.ofBitVec b).toBitVec = b := by
  revert b
  decide

theorem unpackSign_packComponents :
    unpackSign (packComponents spec s exponent mantissa) = s.toBitVec := by
  ext i hi
  obtain rfl : i = 0 := by omega
  simp [unpackSign, packComponents, BitVec.getLsbD_append, BitVec.getElem_append]

/-- A packed number is made of its three parts. -/
theorem packComponents_unpack (b : BitVec spec.numBits) :
    packComponents spec (Sign.ofBitVec (unpackSign b)) (unpackExponent b) (unpackMantissa b) =
      b := by
  ext i hi
  rw [packComponents, toBitVec_ofBitVec, BitVec.getElem_append]
  split
  · simp [unpackMantissa, BitVec.getLsbD_eq_getElem, hi]
  · next hmantissa =>
    have hexponent : spec.mantissaBitsWithoutImplicit +
        (i - spec.mantissaBitsWithoutImplicit) = i := by omega
    rw [BitVec.getElem_append]
    split
    · simp [unpackExponent, hexponent, BitVec.getLsbD_eq_getElem, hi]
    · have hsign : spec.mantissaBitsWithoutImplicit + spec.exponentBits +
          (i - spec.mantissaBitsWithoutImplicit - spec.exponentBits) = i := by omega
      simp [unpackSign, hsign, BitVec.getLsbD_eq_getElem, hi]

theorem unpack_packComponents_neg : unpack spec (packComponents spec (-s) exponent mantissa) =
    (unpack spec (packComponents spec s exponent mantissa)).neg := by
  simp only [unpack, unpackMantissa_packComponents, unpackExponent_packComponents,
    unpackSign_packComponents, ofBitVec_toBitVec]
  split
  · split <;> rfl
  · split
    · split <;> rfl
    · rfl

theorem unpack_packedNaN : unpack spec (packedNaN spec) = .notANumber := by
  have hpayload : BitVec.ofNat spec.mantissaBitsWithoutImplicit 1 <<<
      (spec.mantissaBitsWithoutImplicit - 1) ≠ 0#_ := by
    intro hzero
    have hbits := spec.hm
    have hbit := congrArg (·.getLsbD (spec.mantissaBitsWithoutImplicit - 1)) hzero
    simp at hbit
    omega
  simp only [unpack, packedNaN, unpackMantissa_packComponents, unpackExponent_packComponents,
    if_pos, if_neg hpayload]

/-- **Packing goes with opposites**, whatever becomes of a number that does not fit. -/
theorem unpack_pack_neg (u : UnpackedFloat) :
    unpack spec (pack spec u.neg) = (unpack spec (pack spec u)).neg := by
  cases u with
  | notANumber =>
    show unpack spec (packedNaN spec) = (unpack spec (packedNaN spec)).neg
    rw [unpack_packedNaN]
    rfl
  | infinity s | zero s => exact unpack_packComponents_neg s _ _
  | finite s m e hm =>
    simp only [UnpackedFloat.neg, pack]
    split
    · exact unpack_packComponents_neg s _ _
    · split <;> exact unpack_packComponents_neg s _ _

theorem toNat_append_implicit {n : Nat} (m : BitVec n) : (1#1 ++ m).toNat = 2 ^ n + m.toNat := by
  rw [BitVec.toNat_append, ← Nat.shiftLeft_add_eq_or_of_lt m.isLt]
  simp [Nat.shiftLeft_eq]

/-- A number with a leading bit that is not written. -/
theorem pack_normal (hexponent : exponent ≠ -1#_) (hpos : 0 < (1#1 ++ mantissa).toNat) :
    pack spec (.finite s (1#1 ++ mantissa).toNat
      (exponent.toNat - (spec.exponentBias + spec.mantissaBitsWithoutImplicit)) hpos) =
      packComponents spec s exponent mantissa := by
  have hlt := mantissa.isLt
  have hlog : (2 ^ spec.mantissaBitsWithoutImplicit + mantissa.toNat).log2 + 1 =
      spec.mantissaBits := by
    rw [Format.mantissaBits, Nat.add_comm 1, Nat.add_right_cancel_iff, Nat.log2_eq_iff (by omega)]
    constructor <;> omega
  have hbiased : (exponent.toNat - (spec.exponentBias + spec.mantissaBitsWithoutImplicit) +
      spec.exponentBias + spec.mantissaBitsWithoutImplicit : Int).toNat = exponent.toNat := by
    omega
  have hfits : ¬ 2 ^ spec.exponentBits ≤ exponent.toNat + 1 := by
    have hexponentlt := exponent.isLt
    have hne : exponent.toNat ≠ 2 ^ spec.exponentBits - 1 := by
      simpa [← BitVec.toNat_inj, BitVec.neg_one_eq_allOnes] using hexponent
    omega
  have hmantissa : BitVec.ofNat spec.mantissaBitsWithoutImplicit
      (2 ^ spec.mantissaBitsWithoutImplicit + mantissa.toNat) = mantissa := by
    rw [← BitVec.toNat_inj, BitVec.toNat_ofNat, Nat.add_mod_left, Nat.mod_eq_of_lt hlt]
  simp only [pack, toNat_append_implicit]
  rw [hbiased, if_neg hfits, if_pos hlog, hmantissa, BitVec.ofNat_toNat, BitVec.setWidth_eq]

/-- A number below all those with a leading bit. The exponent that is left out is that of the least
of them, which needs more than one bit. -/
theorem pack_subnormal (hbits : 2 ≤ spec.exponentBits) (hpos : 0 < mantissa.toNat) :
    pack spec (.finite s mantissa.toNat
      ((0 : Nat) - (spec.exponentBias + spec.mantissaBitsWithoutImplicit) + 1) hpos) =
      packComponents spec s 0#_ mantissa := by
  have hcapacity : 4 ≤ 2 ^ spec.exponentBits := Nat.pow_le_pow_right (n := 2) (by decide) hbits
  have hlog : mantissa.toNat.log2 < spec.mantissaBitsWithoutImplicit :=
    (Nat.log2_lt (by omega)).mpr mantissa.isLt
  have hnormal : ¬ mantissa.toNat.log2 + 1 = spec.mantissaBits := by
    rw [Format.mantissaBits]
    omega
  have hbiased : ((0 : Nat) - (spec.exponentBias + spec.mantissaBitsWithoutImplicit) + 1 +
      spec.exponentBias + spec.mantissaBitsWithoutImplicit : Int).toNat = 1 := by
    omega
  simp only [pack]
  rw [hbiased, if_neg (by omega), if_neg hnormal, BitVec.ofNat_toNat, BitVec.setWidth_eq]

/-- **Packing puts together what unpacking takes apart.** -/
theorem pack_unpack (hbits : 2 ≤ spec.exponentBits) {b : BitVec spec.numBits}
    (h : spec.Valid b) : pack spec (unpack spec b) = b := by
  have hcomponents := packComponents_unpack b
  rw [unpack]
  split
  · next hexponent =>
    split
    · next hmantissa =>
      rw [hexponent, hmantissa] at hcomponents
      exact hcomponents
    · next hmantissa => exact (h.eq_packedNaN hexponent hmantissa).symm
  · next hexponent =>
    split
    · next hzero =>
      rw [hzero] at hcomponents
      split
      · next hmantissa =>
        rw [hmantissa] at hcomponents
        exact hcomponents
      · rw [hzero]
        exact (pack_subnormal _ _ hbits _).trans hcomponents
    · exact (pack_normal _ _ _ hexponent _).trans hcomponents

end Packing

/-! ### Double precision -/

theorem unpack_ofModel_pack_neg (u : UnpackedFloat) :
    (Float.ofModel (.pack u.neg)).toModel.unpack =
      (Float.ofModel (.pack u)).toModel.unpack.neg :=
  unpack_pack_neg u

theorem ofModel_pack_unpack (x : Float) : Float.ofModel (.pack x.toModel.unpack) = x := by
  obtain ⟨⟨bits, hvalid⟩⟩ := x
  have hpack := pack_unpack (by decide) hvalid
  simp only [Float.Model.pack, Float.Model.unpack, hpack]

/-- Numbers are the same if they are the same unpacked. -/
theorem eq_of_unpack_eq {x y : Float} (h : x.toModel.unpack = y.toModel.unpack) : x = y := by
  rw [← ofModel_pack_unpack x, h, ofModel_pack_unpack]

theorem unpack_neg (x : Float) : (-x).toModel.unpack = x.toModel.unpack.neg := by
  have hpack := unpack_ofModel_pack_neg x.toModel.unpack
  rwa [ofModel_pack_unpack] at hpack

/-- The opposite of a packed number. -/
theorem packed_neg (u : UnpackedFloat) :
    Float.ofModel (.pack u.neg) = -Float.ofModel (.pack u) := by
  refine eq_of_unpack_eq ?_
  rw [unpack_neg, unpack_ofModel_pack_neg]

protected theorem neg_neg (x : Float) : - -x = x := by
  refine eq_of_unpack_eq ?_
  rw [unpack_neg, unpack_neg, unpacked_neg_neg]

protected theorem neg_mul (x y : Float) : -x * y = -(x * y) := by
  show Float.ofModel (.pack (mul _ (-x).toModel.unpack y.toModel.unpack)) = _
  rw [unpack_neg, unpacked_neg_mul]
  exact packed_neg _

protected theorem neg_div (x y : Float) : -x / y = -(x / y) := by
  show Float.ofModel (.pack (div _ (-x).toModel.unpack y.toModel.unpack)) = _
  rw [unpack_neg, unpacked_neg_div]
  exact packed_neg _

end CssModel.Number
