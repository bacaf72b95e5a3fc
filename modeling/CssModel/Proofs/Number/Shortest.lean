import CssModel.Proofs.Number.Decimal
import CssModel.Proofs.Number.Sign

/-!
# Text of single precision numbers

The digits of a number stand for a point of the interval of the values that round to it. The search
for such a point comes to an end, since a grid finer than every interval is among those looked
through, and the intervals of two numbers have no point in common. So the text of a number tells
which number it is.

All intervals are measured in units of the last place of their number: the ends are half a unit
away, or a quarter below a power of two, and they belong to the interval of an even mantissa only.

## Main definitions

* `CssModel.Number.Canonical`: the mantissas and exponents of single precision
* `CssModel.Number.Near`: the points of an interval, measured from the mantissa
* `CssModel.Number.magnitude`: the text without the sign, and `CssModel.Number.Denotes`: what such a
  text stands for

## Main results

* `CssModel.Number.near_shortest`: the digits stand for a point of the interval
* `CssModel.Number.Near.unique`: no two intervals have a point in common
* `CssModel.Number.denotes_magnitude`, `CssModel.Number.Denotes.unique`: the text tells the number
-/

namespace CssModel.Number

open Float.Model (UnpackedFloat Format)
open Float.Model.UnpackedFloat (Sign)

/-! ### Single precision -/

/-- A mantissa of 24 bits, the first of which is set above the least exponent. -/
structure Canonical (mantissa : Nat) (exponent : Int) : Prop where
  pos : 0 < mantissa
  lt : mantissa < 2 ^ 24
  le : -149 ≤ exponent
  normal : exponent ≠ -149 → 2 ^ 23 ≤ mantissa

/-- What a single precision number is unpacked to. -/
theorem canonical_of_unpack {x : Float32} {s : Sign} {mantissa : Nat} {exponent : Int}
    {hpos : 0 < mantissa} (h : x.toModel.unpack = .finite s mantissa exponent hpos) :
    Canonical mantissa exponent := by
  have hbias : (Format.binary32.exponentBias : Int) = 127 := rfl
  have hlt : (@UnpackedFloat.unpackMantissa .binary32 x.toModel.toBits.toBitVec).toNat < 2 ^ 23 :=
    BitVec.isLt _
  simp only [Float32.Model.unpack, UnpackedFloat.unpack] at h
  split at h
  · split at h <;> cases h
  · split at h
    · next hzero =>
      split at h
      · cases h
      · cases h
        rw [hzero, hbias]
        exact ⟨hpos, by omega, by simp, by simp⟩
    · next hzero =>
      cases h
      have hexponent :
          (@UnpackedFloat.unpackExponent .binary32 x.toModel.toBits.toBitVec).toNat ≠ 0 := by
        simpa [← BitVec.toNat_inj] using hzero
      have hmantissa := toNat_append_implicit (n := 23)
        (@UnpackedFloat.unpackMantissa .binary32 x.toModel.toBits.toBitVec)
      rw [hbias]
      exact ⟨hpos, by omega, by simp; omega, fun _ => by omega⟩

/-! ### Intervals -/

/-- How far below its mantissa an interval begins, in quarters. -/
def quartersBelow (mantissa : Nat) : Nat :=
  if mantissa = 8388608 then 1 else 2

/-- The point is in the interval of the mantissa, when measured in units of its last place. -/
def Near (mantissa : Nat) (y : ℚ) : Prop :=
  if mantissa % 2 = 0 then
    (mantissa : ℚ) - quartersBelow mantissa / 4 ≤ y ∧ y ≤ mantissa + 1 / 2
  else (mantissa : ℚ) - quartersBelow mantissa / 4 < y ∧ y < mantissa + 1 / 2

theorem quartersBelow_pos (mantissa : Nat) : 1 ≤ quartersBelow mantissa := by
  rw [quartersBelow]
  split <;> decide

theorem quartersBelow_le (mantissa : Nat) : quartersBelow mantissa ≤ 2 := by
  rw [quartersBelow]
  split <;> decide

theorem zpow_eq_toNat (b : Nat) (e : Int) :
    (b : ℚ) ^ e = (b ^ e.toNat : Nat) / (b ^ (-e).toNat : Nat) := by
  obtain he | he := le_or_gt 0 e
  · obtain ⟨k, rfl⟩ := Int.eq_ofNat_of_zero_le he
    simp
  · obtain ⟨k, rfl⟩ := Int.exists_eq_neg_ofNat (Int.le_of_lt he)
    simp

/-! ### What is held over one denominator -/

section ofBinary

variable {mantissa : Nat} {exponent : Int}

theorem denominator_ofBinary_pos : 0 < (Interval.ofBinary mantissa exponent).denominator := by
  have hpower : 0 < 2 ^ (-exponent).toNat := Nat.two_pow_pos _
  show 0 < 4 * 2 ^ (-exponent).toNat
  omega

/-- The numerators are quarters of a unit. -/
theorem four_mul_two_pow_toNat : (4 : ℚ) * (2 ^ exponent.toNat : Nat) =
    2 ^ exponent * (Interval.ofBinary mantissa exponent).denominator := by
  have hpower := zpow_eq_toNat 2 exponent
  rw [Nat.cast_ofNat] at hpower
  show _ = (2 : ℚ) ^ exponent * (4 * 2 ^ (-exponent).toNat : Nat)
  rw [hpower]
  push_cast
  field_simp

theorem cast_value_ofBinary : ((Interval.ofBinary mantissa exponent).value : ℚ) =
    mantissa * (2 ^ exponent * (Interval.ofBinary mantissa exponent).denominator) := by
  show ((4 * mantissa * 2 ^ exponent.toNat : Nat) : ℚ) = _
  rw [← four_mul_two_pow_toNat]
  push_cast
  ring

theorem cast_low_ofBinary (hpos : 0 < mantissa) :
    ((Interval.ofBinary mantissa exponent).low : ℚ) = (mantissa - quartersBelow mantissa / 4) *
      (2 ^ exponent * (Interval.ofBinary mantissa exponent).denominator) := by
  have hle : quartersBelow mantissa ≤ 4 * mantissa := by
    have hquarters := quartersBelow_le mantissa
    omega
  show (((4 * mantissa - quartersBelow mantissa) * 2 ^ exponent.toNat : Nat) : ℚ) = _
  rw [← four_mul_two_pow_toNat]
  push_cast [Nat.cast_sub hle]
  ring

theorem cast_high_ofBinary : ((Interval.ofBinary mantissa exponent).high : ℚ) =
    (mantissa + 1 / 2) * (2 ^ exponent * (Interval.ofBinary mantissa exponent).denominator) := by
  show (((4 * mantissa + 2) * 2 ^ exponent.toNat : Nat) : ℚ) = _
  rw [← four_mul_two_pow_toNat]
  push_cast
  ring

/-- The interval as it is held and as it is measured. -/
theorem contains_ofBinary_iff (hpos : 0 < mantissa) {n d : Nat} (hd : 0 < d) :
    (Interval.ofBinary mantissa exponent).contains n d = true ↔
      Near mantissa (n / d / 2 ^ exponent) := by
  let i := Interval.ofBinary mantissa exponent
  have hdenominator : (0 : ℚ) < i.denominator := Nat.cast_pos.mpr denominator_ofBinary_pos
  -- what a unit is multiplied with on both sides
  let unit : ℚ := 2 ^ exponent * i.denominator * d
  have hunit : 0 < unit := by positivity
  have hpoint : ((n * i.denominator : Nat) : ℚ) = n / d / 2 ^ exponent * unit := by
    simp only [unit]
    push_cast
    field_simp
  have hlow : ((i.low * d : Nat) : ℚ) = (mantissa - quartersBelow mantissa / 4) * unit := by
    rw [Nat.cast_mul, cast_low_ofBinary hpos, mul_assoc]
  have hhigh : ((i.high * d : Nat) : ℚ) = (mantissa + 1 / 2) * unit := by
    rw [Nat.cast_mul, cast_high_ofBinary, mul_assoc]
  rw [Interval.contains, Near]
  show (if decide (mantissa % 2 = 0) = true then _ else _) = true ↔ _
  simp only [decide_eq_true_eq]
  split
  · rw [Bool.and_eq_true, decide_eq_true_eq, decide_eq_true_eq, ← Nat.cast_le (α := ℚ),
      ← Nat.cast_le (α := ℚ), hpoint, hlow, hhigh, mul_le_mul_iff_left₀ hunit,
      mul_le_mul_iff_left₀ hunit]
  · rw [Bool.and_eq_true, decide_eq_true_eq, decide_eq_true_eq, ← Nat.cast_lt (α := ℚ),
      ← Nat.cast_lt (α := ℚ), hpoint, hlow, hhigh, mul_lt_mul_iff_left₀ hunit,
      mul_lt_mul_iff_left₀ hunit]

end ofBinary

/-! ### No two intervals have a point in common -/

section Near

variable {m m' : Nat} {e e' : Int} {x y : ℚ}

/-- An interval reaches half a unit to each side; its ends belong to it if the mantissa is even. -/
theorem Near.bounds (h : Near m y) : (m : ℚ) - 1 / 2 ≤ y ∧ y ≤ m + 1 / 2 ∧
    (m % 2 = 1 → (m : ℚ) - 1 / 2 < y ∧ y < m + 1 / 2) := by
  have hquarters : (quartersBelow m : ℚ) ≤ 2 := by exact_mod_cast quartersBelow_le m
  rw [Near] at h
  split at h
  · obtain ⟨hlow, hhigh⟩ := h
    exact ⟨by linarith, hhigh, by omega⟩
  · obtain ⟨hlow, hhigh⟩ := h
    exact ⟨by linarith, by linarith, fun _ => ⟨by linarith, hhigh⟩⟩

/-- With a mantissa that has its first bit set, a quarter of a unit below the least such mantissa
is never reached. -/
theorem Near.le_of_normal (h : Near m y) (hm : 2 ^ 23 ≤ m) : (2 : ℚ) ^ 23 - 1 / 4 ≤ y := by
  rcases hm.eq_or_lt with rfl | hlt
  · exact h.1
  · have hcast : (2 : ℚ) ^ 23 + 1 ≤ m := by exact_mod_cast hlt
    linarith [h.bounds.1]

theorem Near.not_lt_of_eq (h : Near m y) (h' : Near m' y) : ¬ m < m' := by
  intro hlt
  have hcast : (m : ℚ) + 1 ≤ m' := by exact_mod_cast hlt
  obtain ⟨hlow, hhigh, hodd⟩ := h.bounds
  obtain ⟨hlow', hhigh', hodd'⟩ := h'.bounds
  -- the point would be an end of both, but one of two neighbours is odd
  have hnext : (m : ℚ) + 1 = m' := by linarith
  have hsucc : m + 1 = m' := by exact_mod_cast hnext
  obtain hm | hm : m % 2 = 1 ∨ m' % 2 = 1 := by omega
  · linarith [(hodd hm).2]
  · linarith [(hodd' hm).1]

/-- A number of a smaller exponent lies below. -/
theorem Near.not_lt_exponent (hm : Canonical m e) (hm' : Canonical m' e')
    (h : Near m (x / 2 ^ e)) (h' : Near m' (x / 2 ^ e')) : ¬ e < e' := by
  intro hlt
  obtain ⟨k, rfl⟩ : ∃ k : Nat, e' = e + 1 + k := ⟨(e' - e - 1).toNat, by omega⟩
  have hpower : (2 : ℚ) ^ (e + 1 + k) = 2 ^ e * (2 * 2 ^ k) := by
    rw [add_assoc, zpow_add₀ (by norm_num), zpow_add₀ (by norm_num), zpow_one, zpow_natCast]
  have hle := h'.le_of_normal (hm'.normal (by have := hm.le; omega))
  have hscaled : x / 2 ^ e = x / 2 ^ (e + 1 + k) * (2 * 2 ^ k) := by
    rw [hpower]
    field_simp
  have hone : (1 : ℚ) ≤ 2 ^ k := one_le_pow₀ (by norm_num)
  have hlarge : (2 : ℚ) ^ 24 - 1 / 2 ≤ x / 2 ^ e :=
    calc (2 : ℚ) ^ 24 - 1 / 2 = (2 ^ 23 - 1 / 4) * (2 * 1) := by norm_num
      _ ≤ x / 2 ^ (e + 1 + k) * (2 * 2 ^ k) :=
        mul_le_mul hle (by linarith) (by norm_num) (by linarith)
      _ = x / 2 ^ e := hscaled.symm
  have hmax : (m : ℚ) + 1 ≤ 2 ^ 24 := by exact_mod_cast hm.lt
  obtain ⟨-, hhigh, hodd⟩ := h.bounds
  -- the point would be the upper end of the largest mantissa, which is odd
  have hlast : (m : ℚ) + 1 = 2 ^ 24 := by linarith
  have hlast' : m + 1 = 2 ^ 24 := by exact_mod_cast hlast
  linarith [(hodd (by omega)).2]

/-- **Intervals of different numbers have no point in common.** -/
theorem Near.unique (hm : Canonical m e) (hm' : Canonical m' e') (h : Near m (x / 2 ^ e))
    (h' : Near m' (x / 2 ^ e')) : m = m' ∧ e = e' := by
  have he : e = e' :=
    le_antisymm (not_lt.mp (h'.not_lt_exponent hm' hm h)) (not_lt.mp (h.not_lt_exponent hm hm' h'))
  subst he
  exact ⟨le_antisymm (not_lt.mp (h'.not_lt_of_eq h)) (not_lt.mp (h.not_lt_of_eq h')), rfl⟩

end Near

/-! ### The search -/

theorem Interval.contains_of_gridPoint? {i : Interval} {step unit c : Nat}
    (h : i.gridPoint? step unit = some c) : i.contains (c * step) unit = true := by
  simp only [Interval.gridPoint?] at h
  split at h
  · next hboth =>
    rw [Bool.and_eq_true, Bool.and_eq_true] at hboth
    split at h <;> obtain rfl := Option.some.inj h
    · exact hboth.1.2
    · exact hboth.2
  · split at h
    · next hdown =>
      obtain rfl := Option.some.inj h
      exact (Bool.and_eq_true _ _ ▸ hdown).2
    · split at h
      · next hup =>
        obtain rfl := Option.some.inj h
        exact hup
      · cases h

/-- A grid with a neighbour below the value in the interval has a point. -/
theorem Interval.gridPoint?_isSome {i : Interval} {step unit : Nat}
    (hne : i.value * unit / (i.denominator * step) ≠ 0)
    (h : i.contains (i.value * unit / (i.denominator * step) * step) unit = true) :
    (i.gridPoint? step unit).isSome = true := by
  simp only [Interval.gridPoint?, h, Bool.and_true, decide_eq_true hne, Bool.true_and, if_true]
  split
  · split <;> rfl
  · rfl

theorem Interval.search_succ (i : Interval) (fuel : Nat) (g : Int) :
    i.search (fuel + 1) g =
      match i.gridPoint? (10 ^ g.toNat) (10 ^ (-g).toNat) with
      | some c => (c, g)
      | none => i.search fuel (g - 1) :=
  rfl

/-- The search ends at the latest with a grid that is known to have a point. -/
theorem Interval.search_spec {i : Interval} {last : Int}
    (hlast : (i.gridPoint? (10 ^ last.toNat) (10 ^ (-last).toNat)).isSome = true) (fuel : Nat)
    (g : Int) (hle : last ≤ g) (hfuel : g < last + fuel) :
    ∃ c g', i.search fuel g = (c, g') ∧
      i.gridPoint? (10 ^ g'.toNat) (10 ^ (-g').toNat) = some c := by
  induction fuel generalizing g with
  | zero => omega
  | succ fuel ih =>
    rw [Interval.search_succ]
    cases hpoint : i.gridPoint? (10 ^ g.toNat) (10 ^ (-g).toNat) with
    | some c => exact ⟨c, g, rfl, hpoint⟩
    | none =>
      have hne : g ≠ last := by
        rintro rfl
        rw [hpoint] at hlast
        cases hlast
      exact ih (g - 1) (by omega) (by omega)

theorem near_of_quarter {m : Nat} {y : ℚ} (hlow : (m : ℚ) - 1 / 4 < y) (hhigh : y ≤ m) :
    Near m y := by
  have hquarters : (1 : ℚ) ≤ quartersBelow m := by exact_mod_cast quartersBelow_pos m
  rw [Near]
  split
  · exact ⟨by linarith, by linarith⟩
  · exact ⟨by linarith, by linarith⟩

/-- A quarter of a unit of the least exponent is more than `10 ^ (-46)`. -/
theorem four_le_zpow {e : Int} (h : -149 ≤ e) : (4 : ℚ) ≤ 10 ^ 46 * 2 ^ e :=
  calc (4 : ℚ) ≤ 10 ^ 46 * 2 ^ (-149 : Int) := by norm_num
    _ ≤ 10 ^ 46 * 2 ^ e := by
      have hpower : (2 : ℚ) ^ (-149 : Int) ≤ 2 ^ e := zpow_le_zpow_right₀ (by norm_num) h
      linarith

/-- The point of the grid of `10 ^ (-46)` below a number is less than one step away. -/
theorem div_le_and_lt_of_grid (m : Nat) (e : Int) :
    let i := Interval.ofBinary m e
    let c : Nat := i.value * 10 ^ 46 / (i.denominator * 1)
    (c : ℚ) ≤ m * (10 ^ 46 * 2 ^ e) ∧ m * (10 ^ 46 * 2 ^ e) < (c : ℚ) + 1 := by
  intro i c
  have hdenominator : 0 < i.denominator * 1 := by
    rw [Nat.mul_one]
    exact denominator_ofBinary_pos
  have hcast : (0 : ℚ) < i.denominator := Nat.cast_pos.mpr denominator_ofBinary_pos
  have hvalue : (i.value : ℚ) = m * (2 ^ e * i.denominator) := cast_value_ofBinary
  constructor
  · have hdiv : ((c * (i.denominator * 1) : Nat) : ℚ) ≤ (i.value * 10 ^ 46 : Nat) :=
      Nat.cast_le.mpr (Nat.div_mul_le_self _ _)
    push_cast [hvalue] at hdiv
    refine le_of_mul_le_mul_right ?_ hcast
    linarith
  · have hdiv : ((i.value * 10 ^ 46 : Nat) : ℚ) < (i.denominator * 1 * (c + 1) : Nat) :=
      Nat.cast_lt.mpr (Nat.lt_mul_div_succ _ hdenominator)
    push_cast [hvalue] at hdiv
    refine lt_of_mul_lt_mul_right ?_ hcast.le
    linarith

/-- The grid of `10 ^ (-46)` has a point less than a quarter of a unit below every number. -/
theorem gridPoint?_ofBinary_isSome {m : Nat} {e : Int} (h : Canonical m e) :
    ((Interval.ofBinary m e).gridPoint? (10 ^ (-46 : Int).toNat)
      (10 ^ (-(-46 : Int)).toNat)).isSome = true := by
  show ((Interval.ofBinary m e).gridPoint? 1 (10 ^ 46)).isSome = true
  let c : Nat := (Interval.ofBinary m e).value * 10 ^ 46 / ((Interval.ofBinary m e).denominator * 1)
  obtain ⟨hle, hlt⟩ : (c : ℚ) ≤ m * (10 ^ 46 * 2 ^ e) ∧ m * (10 ^ 46 * 2 ^ e) < (c : ℚ) + 1 :=
    div_le_and_lt_of_grid m e
  have hgrid := four_le_zpow h.le
  have hm : (1 : ℚ) ≤ m := by exact_mod_cast h.pos
  have hne : c ≠ 0 := by
    intro hzero
    rw [hzero, Nat.cast_zero] at hlt
    have hfour : 1 * 4 ≤ (m : ℚ) * (10 ^ 46 * 2 ^ e) :=
      mul_le_mul hm hgrid (by norm_num) (by linarith)
    linarith
  refine Interval.gridPoint?_isSome hne ?_
  rw [contains_ofBinary_iff h.pos (by decide)]
  have hunit : (0 : ℚ) < 10 ^ 46 * 2 ^ e := by linarith
  have hpoint : ((c * 1 : Nat) : ℚ) / (10 ^ 46 : Nat) / 2 ^ e = c / (10 ^ 46 * 2 ^ e) := by
    rw [Nat.mul_one, Nat.cast_pow, Nat.cast_ofNat, div_div]
  show Near m (((c * 1 : Nat) : ℚ) / (10 ^ 46 : Nat) / 2 ^ e)
  rw [hpoint]
  refine near_of_quarter ?_ ?_
  · rw [lt_div_iff₀ hunit]
    linarith
  · rw [div_le_iff₀ hunit]
    exact hle

/-- **The digits stand for a point of the interval.** -/
theorem near_shortest {m : Nat} {e : Int} (h : Canonical m e) :
    ∃ c g, (Interval.ofBinary m e).shortest = (c, g) ∧
      Near m ((c : ℚ) * 10 ^ g / 2 ^ e) := by
  obtain ⟨c, g, hsearch, hpoint⟩ := Interval.search_spec (gridPoint?_ofBinary_isSome h) 100 39
    (by omega) (by omega)
  refine ⟨c, g, hsearch, ?_⟩
  have hcontains := Interval.contains_of_gridPoint? hpoint
  rw [contains_ofBinary_iff h.pos (Nat.pow_pos (by decide))] at hcontains
  have hpower := zpow_eq_toNat 10 g
  rw [Nat.cast_ofNat] at hpower
  rwa [hpower, ← mul_div_assoc, ← Nat.cast_mul]

/-! ### Text -/

/-- Whether a sign is written in front. -/
def isNegative : UnpackedFloat → Bool
  | .infinity .negative | .zero .negative | .finite .negative _ _ _ => true
  | _ => false

/-- The text without the sign. -/
def magnitude : UnpackedFloat → List Char
  | .notANumber => "NaN".toList
  | .infinity _ => "inf".toList
  | .zero _ => ['0']
  | .finite _ mantissa exponent _ =>
    positional (Interval.ofBinary mantissa exponent).shortest.1
      (Interval.ofBinary mantissa exponent).shortest.2

theorem magnitude_finite (s : Sign) {m : Nat} {e : Int} (hpos : 0 < m) :
    magnitude (.finite s m e hpos) =
      positional (Interval.ofBinary m e).shortest.1 (Interval.ofBinary m e).shortest.2 := by
  delta magnitude
  obtain ⟨digits, hdigits⟩ : ∃ digits, Interval.shortest = digits := ⟨_, rfl⟩
  rw [hdigits]

theorem textOf_eq (u : UnpackedFloat) :
    textOf u = (if isNegative u then ['-'] else []) ++ magnitude u := by
  -- the search is not to be run, so it is taken as any function
  obtain ⟨digits, hdigits⟩ : ∃ digits, Interval.shortest = digits := ⟨_, rfl⟩
  delta textOf magnitude
  rw [hdigits]
  cases u with
  | notANumber => rfl
  | infinity s | zero s | finite s => cases s <;> rfl

/-- What a text without a sign stands for: one of two words, zero, or digits for a point of the
interval of a number. -/
inductive Denotes : List Char → UnpackedFloat → Prop
  | notANumber : Denotes ['N', 'a', 'N'] .notANumber
  | infinity : Denotes ['i', 'n', 'f'] (.infinity .positive)
  | zero : Denotes ['0'] (.zero .positive)
  | finite {d : Char} {rest : List Char} {m : Nat} {e : Int} (hd : d.isDigit = true)
      (hnumeral : ∀ c ∈ d :: rest, isNumeral c = true) (hm : Canonical m e)
      (hnear : Near m (decimalValue (d :: rest) / 2 ^ e)) :
      Denotes (d :: rest) (.finite .positive m e hm.pos)

theorem denotes_magnitude (x : Float32) :
    Denotes (magnitude x.toModel.unpack) x.toModel.unpack.abs := by
  cases hx : x.toModel.unpack with
  | notANumber => exact .notANumber
  | infinity s => exact .infinity
  | zero s => exact .zero
  | finite s m e hpos =>
    have hm := canonical_of_unpack hx
    obtain ⟨c, g, hshortest, hnear⟩ := near_shortest hm
    obtain ⟨d, rest, htext, hd⟩ := exists_digit_positional c g
    have hnumeral := isNumeral_positional c g
    rw [← decimalValue_positional, htext] at hnear
    rw [htext] at hnumeral
    rw [magnitude_finite, hshortest, htext]
    exact .finite hd hnumeral hm hnear

theorem Near.ne_zero {m : Nat} {e : Int} {y : ℚ} (hm : Canonical m e) (h : Near m y) : y ≠ 0 := by
  have hcast : (1 : ℚ) ≤ m := by exact_mod_cast hm.pos
  linarith [h.bounds.1]

/-- **A text stands for one number only.** -/
theorem Denotes.unique {cs : List Char} {u u' : UnpackedFloat} (h : Denotes cs u)
    (h' : Denotes cs u') : u = u' := by
  have hzero : decimalValue ['0'] = 0 := by
    rw [decimalValue_of_isDigit (by simp)]
    rfl
  cases h with
  | notANumber =>
    cases h' with
    | notANumber => rfl
    | finite hd => cases hd
  | infinity =>
    cases h' with
    | infinity => rfl
    | finite hd => cases hd
  | zero =>
    cases h' with
    | zero => rfl
    | finite hd hnumeral hm hnear => exact absurd (by rw [hzero, zero_div]) (hnear.ne_zero hm)
  | finite hd hnumeral hm hnear =>
    cases h' with
    | notANumber | infinity => cases hd
    | zero => exact absurd (by rw [hzero, zero_div]) (hnear.ne_zero hm)
    | finite hd' hnumeral' hm' hnear' =>
      obtain ⟨rfl, rfl⟩ := Near.unique hm hm' hnear hnear'
      rfl

end CssModel.Number
