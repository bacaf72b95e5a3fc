import CssModel.Text.Hex
import Mathlib.Algebra.Group.Nat.Defs

/-!
# Reading hexadecimal digits back

The digits of a number are hexadecimal digits, there is at least one of them and never more than
the size of the number allows, and they denote the number.

## Main results

* `CssModel.Hex.value?_digit`, `CssModel.Hex.isDigit_of_mem_digits`
* `CssModel.Hex.length_digits_le`
* `CssModel.Hex.ofDigits_digits`
-/

namespace CssModel.Hex

theorem value?_digit : ∀ n, n < 16 → value? (digit n) = some n := by
  decide

theorem isDigit_digit {n : Nat} (h : n < 16) : isDigit (digit n) = true := by
  rw [isDigit, value?_digit n h]
  rfl

theorem isDigit_of_mem_digits {n : Nat} {c : Char} (h : c ∈ digits n) : isDigit c = true := by
  induction n using digits.induct with
  | case1 n hn =>
    rw [digits, if_pos hn, List.mem_singleton] at h
    exact h ▸ isDigit_digit hn
  | case2 n hn ih =>
    rw [digits, if_neg hn, List.mem_append, List.mem_singleton] at h
    obtain h | rfl := h
    · exact ih h
    · exact isDigit_digit (Nat.mod_lt n (by decide))

theorem digits_ne_nil (n : Nat) : digits n ≠ [] := by
  rw [digits]
  split <;> simp

/-- A number below a power of sixteen has no more digits than the exponent says. -/
theorem length_digits_le {n k : Nat} (hk : 0 < k) (h : n < 16 ^ k) : (digits n).length ≤ k := by
  induction n using digits.induct generalizing k with
  | case1 n hn =>
    rw [digits, if_pos hn]
    exact hk
  | case2 n hn ih =>
    obtain ⟨k, rfl⟩ : ∃ j, k = j + 1 := ⟨k - 1, by omega⟩
    have hpos : 0 < k := by
      refine Nat.pos_of_ne_zero fun hzero => hn ?_
      simpa [hzero] using h
    have hdiv : n / 16 < 16 ^ k := Nat.div_lt_of_lt_mul (by rwa [Nat.pow_succ, Nat.mul_comm] at h)
    rw [digits, if_neg hn, List.length_append, List.length_singleton]
    exact Nat.succ_le_succ (ih hpos hdiv)

theorem ofDigits_concat (cs : List Char) (c : Char) :
    ofDigits (cs ++ [c]) = 16 * ofDigits cs + (value? c).getD 0 := by
  rw [ofDigits, List.foldl_append]
  rfl

/-- **The digits of a number denote it.** -/
theorem ofDigits_digits (n : Nat) : ofDigits (digits n) = n := by
  induction n using digits.induct with
  | case1 n hn =>
    rw [digits, if_pos hn]
    simp [ofDigits, value?_digit n hn]
  | case2 n hn ih =>
    rw [digits, if_neg hn, ofDigits_concat, ih, value?_digit _ (Nat.mod_lt n (by decide)),
      Option.getD_some]
    exact Nat.div_add_mod n 16

/-- Hexadecimal digits are letters or digits. -/
theorem isAlphanum_of_isDigit {c : Char} (h : isDigit c = true) : c.isAlphanum = true := by
  have halphanum : c.isAlphanum = (c.isUpper || c.isLower || c.isDigit) := rfl
  have hupper : c.isUpper = decide ('A' ≤ c ∧ c ≤ 'Z') := rfl
  have hlower : c.isLower = (decide ('a' ≤ c) && decide (c ≤ 'z')) := rfl
  have hdigit : c.isDigit = (decide ('0' ≤ c) && decide (c ≤ '9')) := rfl
  rw [isDigit, value?] at h
  rw [halphanum, hupper, hlower, hdigit]
  grind [Char.le_def]

end CssModel.Hex
