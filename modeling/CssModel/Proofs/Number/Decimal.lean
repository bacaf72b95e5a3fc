import CssModel.Number.Shortest
import Mathlib.Algebra.Order.Field.Power
import Mathlib.Data.List.TakeWhile
import Mathlib.Data.Rat.Cast.Order

/-!
# Reading decimal text

The text of `c * 10 ^ g` is read back by dropping the point and counting what stands behind it.
Nothing about the digits gets lost: neither the zeros after a whole number nor those that are put in
front of a fraction count for anything.

## Main definitions

* `CssModel.Number.isNumeral`: the characters of a number, apart from its sign
* `CssModel.Number.decimalValue`

## Main results

* `CssModel.Number.decimalValue_positional`
* `CssModel.Number.isNumeral_positional`, `CssModel.Number.exists_digit_positional`
-/

namespace CssModel.Number

/-- A digit or a point. -/
def isNumeral (c : Char) : Bool :=
  c.isDigit || c == '.'

/-- The value of digits with at most one point among them. -/
def decimalValue (cs : List Char) : ℚ :=
  (Nat.ofDigitChars 10 (cs.filter (· ≠ '.')) 0 : ℚ) /
    10 ^ ((cs.dropWhile (· ≠ '.')).drop 1).length

/-! ### Digits -/

theorem ofNat_eq_digitChar {d : Nat} (h : d < 10) : Char.ofNat ('0'.toNat + d) = d.digitChar := by
  decide +revert

theorem decimalDigits_eq (n : Nat) : decimalDigits n = Nat.toDigits 10 n := by
  fun_induction decimalDigits n with
  | case1 n h => rw [Nat.toDigits_of_lt_base h, ofNat_eq_digitChar h]
  | case2 n h ih =>
    rw [Nat.toDigits_of_base_le (by decide) (by omega), ih, ofNat_eq_digitChar (by omega)]

theorem isDigit_replicate {k : Nat} : ∀ c ∈ List.replicate k '0', c.isDigit = true := by
  intro c hc
  rw [List.eq_of_mem_replicate hc]
  rfl

theorem isDigit_decimalDigits {n : Nat} : ∀ c ∈ decimalDigits n, c.isDigit = true := by
  intro c hc
  rw [decimalDigits_eq] at hc
  exact Nat.isDigit_of_mem_toDigits (by decide) (by decide) hc

theorem ofDigitChars_decimalDigits (n : Nat) : Nat.ofDigitChars 10 (decimalDigits n) 0 = n := by
  rw [decimalDigits_eq, Nat.ofDigitChars_ten_toDigits]

theorem ne_point_of_isDigit {c : Char} (h : c.isDigit = true) : c ≠ '.' := by
  rintro rfl
  cases h

/-! ### The two forms of the text -/

/-- A whole number. -/
theorem positional_of_nonneg {c : Nat} {g : Int} (h : 0 ≤ g) :
    positional c g = decimalDigits c ++ List.replicate g.toNat '0' :=
  if_pos h

/-- A fraction has digits on both sides of its point, all of them together those of the count. -/
theorem exists_positional_of_neg {c : Nat} {g : Int} (h : g < 0) :
    ∃ whole fraction, positional c g = whole ++ '.' :: fraction ∧ whole ≠ [] ∧
      (∀ d ∈ whole ++ fraction, d.isDigit = true) ∧ fraction.length = (-g).toNat ∧
      Nat.ofDigitChars 10 (whole ++ fraction) 0 = c := by
  let places := (-g).toNat
  let padded := List.replicate (places + 1 - (decimalDigits c).length) '0' ++ decimalDigits c
  have hlength : places + 1 ≤ padded.length := by
    simp only [padded, List.length_append, List.length_replicate]
    omega
  refine ⟨padded.take (padded.length - places), padded.drop (padded.length - places),
    if_neg (by omega), ?_, ?_, ?_, ?_⟩
  · rw [← List.length_pos_iff, List.length_take]
    omega
  · rw [List.take_append_drop]
    intro d hd
    exact (List.mem_append.mp hd).elim (isDigit_replicate d) (isDigit_decimalDigits d)
  · rw [List.length_drop]
    show padded.length - (padded.length - places) = places
    omega
  · rw [List.take_append_drop, Nat.ofDigitChars_append, Nat.ofDigitChars_replicate_zero,
      Nat.mul_zero, ofDigitChars_decimalDigits]

/-! ### Reading -/

theorem decimalValue_of_isDigit {cs : List Char} (h : ∀ c ∈ cs, c.isDigit = true) :
    decimalValue cs = Nat.ofDigitChars 10 cs 0 := by
  have hne : ∀ c ∈ cs, decide (c ≠ '.') = true :=
    fun c hc => decide_eq_true (ne_point_of_isDigit (h c hc))
  rw [decimalValue, List.filter_eq_self.mpr hne, List.dropWhile_eq_nil_iff.mpr hne]
  simp

theorem decimalValue_point {whole fraction : List Char}
    (h : ∀ c ∈ whole ++ fraction, c.isDigit = true) :
    decimalValue (whole ++ '.' :: fraction) =
      (Nat.ofDigitChars 10 (whole ++ fraction) 0 : ℚ) / 10 ^ fraction.length := by
  have hne : ∀ c ∈ whole ++ fraction, decide (c ≠ '.') = true :=
    fun c hc => decide_eq_true (ne_point_of_isDigit (h c hc))
  obtain ⟨hwhole, hfraction⟩ := List.forall_mem_append.mp hne
  rw [decimalValue, List.filter_append, List.filter_cons_of_neg (by simp),
    List.filter_eq_self.mpr hwhole, List.filter_eq_self.mpr hfraction,
    List.dropWhile_append_of_pos hwhole, List.dropWhile_cons_of_neg (by simp)]
  rfl

/-- **Reading gives back what was written.** -/
theorem decimalValue_positional (c : Nat) (g : Int) :
    decimalValue (positional c g) = (c : ℚ) * 10 ^ g := by
  obtain hg | hg := le_or_gt 0 g
  · rw [positional_of_nonneg hg, decimalValue_of_isDigit, Nat.ofDigitChars_append,
      Nat.ofDigitChars_replicate_zero, ofDigitChars_decimalDigits]
    · obtain ⟨k, rfl⟩ := Int.eq_ofNat_of_zero_le hg
      push_cast
      rw [mul_comm]
      rfl
    · intro d hd
      exact (List.mem_append.mp hd).elim (isDigit_decimalDigits d) (isDigit_replicate d)
  · obtain ⟨whole, fraction, htext, -, hdigits, hlength, hvalue⟩ :=
      exists_positional_of_neg (c := c) hg
    rw [htext, decimalValue_point hdigits, hvalue, hlength]
    obtain ⟨k, rfl⟩ := Int.exists_eq_neg_ofNat (Int.le_of_lt hg)
    rw [zpow_neg, Int.neg_neg, div_eq_mul_inv]
    rfl

/-! ### Characters -/

theorem isNumeral_of_isDigit {c : Char} (h : c.isDigit = true) : isNumeral c = true := by
  rw [isNumeral, h]
  rfl

theorem isNumeral_positional (c : Nat) (g : Int) : ∀ d ∈ positional c g, isNumeral d = true := by
  intro d hd
  obtain hg | hg := le_or_gt 0 g
  · rw [positional_of_nonneg hg] at hd
    exact isNumeral_of_isDigit
      ((List.mem_append.mp hd).elim (isDigit_decimalDigits d) (isDigit_replicate d))
  · obtain ⟨whole, fraction, htext, -, hdigits, -⟩ := exists_positional_of_neg (c := c) hg
    obtain ⟨hwhole, hfraction⟩ := List.forall_mem_append.mp hdigits
    rw [htext, List.mem_append, List.mem_cons] at hd
    obtain hd | rfl | hd := hd
    · exact isNumeral_of_isDigit (hwhole d hd)
    · rfl
    · exact isNumeral_of_isDigit (hfraction d hd)

theorem exists_digit_positional (c : Nat) (g : Int) :
    ∃ d rest, positional c g = d :: rest ∧ d.isDigit = true := by
  obtain hg | hg := le_or_gt 0 g
  · rw [positional_of_nonneg hg]
    obtain ⟨d, rest, hdigits⟩ := List.exists_cons_of_ne_nil
      (show decimalDigits c ≠ [] from decimalDigits_eq c ▸ Nat.toDigits_ne_nil)
    have hd : d ∈ decimalDigits c := hdigits ▸ List.mem_cons_self
    exact ⟨d, _, by rw [hdigits]; rfl, isDigit_decimalDigits d hd⟩
  · obtain ⟨whole, fraction, htext, hne, hdigits, -⟩ := exists_positional_of_neg (c := c) hg
    obtain ⟨d, rest, rfl⟩ := List.exists_cons_of_ne_nil hne
    exact ⟨d, _, htext, hdigits d (by simp)⟩

end CssModel.Number
