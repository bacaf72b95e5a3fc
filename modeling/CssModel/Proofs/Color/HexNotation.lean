import CssModel.Color.Basic
import CssModel.Proofs.Text.Ascii
import CssModel.Proofs.Text.Bytes
import CssModel.Proofs.Text.Hex
import CssModel.Proofs.Text.Words

/-!
# Colours in hexadecimal notation

The reader of colours counts bytes and cuts digits out at byte offsets, where characters are meant.
It only does so once it has seen that there is nothing but digits, and every digit is one byte: then
offsets are places, and all of them up to the count are good. A text with any other character is
refused before. So a text can be read by looking at its characters alone, and the rest is about the
digits: their letter case does not count, and a short form says every digit once that its long form
says twice.

## Main definitions

* `CssModel.Color.ofDigits?`: the colour of a list of digits
* `CssModel.Color.IsHexNotation`: the texts that denote a colour
* `CssModel.Color.doubled`: the text with every digit twice

## Main results

* `CssModel.Color.cutDigits_eq`, `CssModel.Color.run_readHex`: no fault, and no bytes
* `CssModel.Color.ofHex?_hex`
* `CssModel.Color.ofHex?_exact`
-/

namespace CssModel

/-! ### Digits -/

namespace Hex

theorem toNat_lt_of_isDigit {c : Char} (h : isDigit c = true) : c.toNat < 128 := by
  have hbeyond := isBeyond_of_isDigit h
  rwa [Ascii.isBeyond, decide_eq_false_iff_not, Nat.not_le] at hbeyond

theorem utf8Size_of_isDigit {c : Char} (h : isDigit c = true) : c.utf8Size = 1 := by
  rw [Char.utf8Size_eq_one_iff, UInt32.le_iff_toNat_le]
  exact Nat.le_of_lt_succ (toNat_lt_of_isDigit h)

theorem isDigit_iff {c : Char} :
    isDigit c = true ↔ c ∈ "0123456789abcdefABCDEF".toList := by
  have hlist : ∀ n < 128, isDigit (Char.ofNat n) = true →
      Char.ofNat n ∈ "0123456789abcdefABCDEF".toList := by decide
  constructor
  · intro h
    have hmem := hlist c.toNat (toNat_lt_of_isDigit h)
    rw [Char.ofNat_toNat] at hmem
    exact hmem h
  · have hall : "0123456789abcdefABCDEF".toList.all isDigit = true := by decide
    exact List.all_eq_true.mp hall c

/-- Letter case does not count. -/
theorem value?_toLower (c : Char) : value? c.toLower = value? c := by
  have hbounds := Ascii.toNat_toLower c
  rw [value?, value?]
  grind [Char.le_def, UInt32.le_iff_toNat_le, Char.toNat]

theorem isDigit_toLower (c : Char) : isDigit c.toLower = isDigit c := by
  rw [isDigit, isDigit, value?_toLower]

theorem getD_value?_lt (c : Char) : (value? c).getD 0 < 16 := by
  cases h : value? c with
  | none => decide
  | some n =>
    rw [value?] at h
    grind [Char.le_def, UInt32.le_iff_toNat_le, Char.toNat]

/-- One digit or two are a byte. -/
theorem byte?_eq {c : Char} {cs : List Char} (hc : isDigit c = true) (hcs : cs.all isDigit = true)
    (hlength : cs.length ≤ 1) : byte? (c :: cs) = some (.ofNat (ofDigits (c :: cs))) := by
  have hsign : c ≠ '+' := by
    rintro rfl
    cases hc
  have hlt : ofDigits (c :: cs) < 256 := by
    have hfirst := getD_value?_lt c
    match cs, hlength with
    | [], _ =>
      simp only [ofDigits, List.foldl_cons, List.foldl_nil]
      omega
    | [d], _ =>
      have hsecond := getD_value?_lt d
      simp only [ofDigits, List.foldl_cons, List.foldl_nil]
      omega
  have hfits : (! (c :: cs).isEmpty && (c :: cs).all isDigit &&
      decide (ofDigits (c :: cs) < 256)) = true := by
    simp [hc, hcs, hlt]
  unfold byte?
  split
  next digits heq => exact absurd (List.cons.inj heq).1 hsign
  next => exact if_pos hfits

end Hex

/-! ### Colours of digits -/

namespace Color

/-- The channel of two digits. -/
def channel (a b : Char) : UInt8 :=
  .ofNat (Hex.ofDigits [a, b])

/-- The colour of a list of digits. In the short forms each digit stands for itself twice. -/
def ofDigits? (digits : List Char) : Option Color :=
  if digits.all Hex.isDigit then
    match digits with
    | [r, g, b] => some (solid (channel r r) (channel g g) (channel b b))
    | [r, g, b, a] => some ⟨channel r r, channel g g, channel b b, channel a a⟩
    | [r, r', g, g', b, b'] => some (solid (channel r r') (channel g g') (channel b b'))
    | [r, r', g, g', b, b', a, a'] =>
      some ⟨channel r r', channel g g', channel b b', channel a a'⟩
    | _ => none
  else none

/-- Three, four, six or eight digits, and at most one number sign in front of them. -/
def IsHexNotation (text : String) : Prop :=
  ∃ digits, (text.toList = digits ∨ text.toList = '#' :: digits) ∧
    digits.length ∈ [3, 4, 6, 8] ∧ ∀ c ∈ digits, c ∈ "0123456789abcdefABCDEF".toList

/-- Every digit twice, behind the number sign if there is one. -/
def doubled (text : String) : String :=
  match text.toList with
  | '#' :: digits => String.ofList ('#' :: digits.flatMap fun c => [c, c])
  | digits => String.ofList (digits.flatMap fun c => [c, c])

section Digits

variable {digits : List Char} (hdigits : ∀ c ∈ digits, Hex.isDigit c = true)

include hdigits

/-- Every piece of the digits can be cut out. -/
theorem lift_cut_eq {i count : Nat} (hstop : i + count ≤ digits.length) :
    OptionT.lift (Bytes.cut (String.ofList digits) i (i + count)) =
      pure (String.ofList ((digits.drop i).take count)) := by
  rw [Bytes.cut_eq (fun c hc => Hex.utf8Size_of_isDigit (hdigits c hc)) hstop]
  rfl

theorem digitAt_eq {i : Nat} {c : Char} (hc : digits[i]? = some c) :
    digitAt (String.ofList digits) i = pure (channel c c) := by
  obtain ⟨hlt, rfl⟩ := List.getElem?_eq_some_iff.mp hc
  have hpiece : (digits.drop i).take 1 = [digits[i]] := by
    rw [List.drop_eq_getElem_cons hlt]
    rfl
  have hbyte : Hex.byte? [digits[i]] = some (.ofNat (Hex.ofDigits [digits[i]])) :=
    Hex.byte?_eq (hdigits _ (List.getElem_mem _)) rfl (Nat.zero_le 1)
  have hchannel : UInt8.ofNat (Hex.ofDigits [digits[i]]) * 17 = channel digits[i] digits[i] := by
    simp only [channel, Hex.ofDigits, List.foldl_cons, List.foldl_nil]
    generalize (Hex.value? digits[i]).getD 0 = n
    have hmul : UInt8.ofNat (n * 17) = UInt8.ofNat n * 17 := UInt8.ofNat_mul n 17
    rw [Nat.mul_zero, Nat.zero_add, ← hmul]
    congr 1
    omega
  rw [digitAt, lift_cut_eq hdigits (Nat.succ_le_of_lt hlt), pure_bind, hpiece,
    String.toList_ofList, hbyte, ← hchannel]
  rfl

theorem pairAt_eq {i : Nat} {a b : Char} (ha : digits[i]? = some a)
    (hb : digits[i + 1]? = some b) :
    pairAt (String.ofList digits) i = pure (channel a b) := by
  obtain ⟨hlt, rfl⟩ := List.getElem?_eq_some_iff.mp ha
  obtain ⟨hlt', rfl⟩ := List.getElem?_eq_some_iff.mp hb
  have hpiece : (digits.drop i).take 2 = [digits[i], digits[i + 1]] := by
    rw [List.drop_eq_getElem_cons hlt, List.drop_eq_getElem_cons hlt']
    rfl
  have hbyte : Hex.byte? [digits[i], digits[i + 1]] = some (channel digits[i] digits[i + 1]) :=
    Hex.byte?_eq (hdigits _ (List.getElem_mem _)) (by simp [hdigits]) (Nat.le_refl 1)
  rw [pairAt, lift_cut_eq hdigits (Nat.succ_le_of_lt hlt'), pure_bind, hpiece,
    String.toList_ofList, hbyte]
  rfl

/-- **Nothing is cut in half among digits.** -/
theorem cutDigits_eq : (cutDigits (String.ofList digits)).run = .ok (ofDigits? digits) := by
  have hall : digits.all Hex.isDigit = true := List.all_eq_true.mpr hdigits
  have hsize : (String.ofList digits).utf8ByteSize = digits.length :=
    Bytes.utf8ByteSize_ofList fun c hc => Hex.utf8Size_of_isDigit (hdigits c hc)
  rw [cutDigits, hsize, ofDigits?.eq_def, hall]
  match digits with
  | [r, g, b] =>
    rw [digitAt_eq hdigits rfl, digitAt_eq hdigits rfl, digitAt_eq hdigits rfl]
    rfl
  | [r, g, b, a] =>
    rw [digitAt_eq hdigits rfl, digitAt_eq hdigits rfl, digitAt_eq hdigits rfl,
      digitAt_eq hdigits rfl]
    rfl
  | [r, r', g, g', b, b'] =>
    rw [pairAt_eq hdigits rfl rfl, pairAt_eq hdigits rfl rfl, pairAt_eq hdigits rfl rfl]
    rfl
  | [r, r', g, g', b, b', a, a'] =>
    rw [pairAt_eq hdigits rfl rfl, pairAt_eq hdigits rfl rfl, pairAt_eq hdigits rfl rfl,
      pairAt_eq hdigits rfl rfl]
    rfl
  | [] | [_] | [_, _] | [_, _, _, _, _] | [_, _, _, _, _, _, _]
  | _ :: _ :: _ :: _ :: _ :: _ :: _ :: _ :: _ :: _ => rfl

end Digits

/-- **Reading a colour never comes to a fault**, and sees characters only. -/
theorem run_readHex (text : String) :
    (readHex text).run = .ok (ofDigits? (withoutSign text).toList) := by
  rw [readHex]
  cases hall : (withoutSign text).toList.all Hex.isDigit with
  | true =>
    have hcut := cutDigits_eq (List.all_eq_true.mp hall)
    rw [String.ofList_toList] at hcut
    exact hcut
  | false =>
    rw [ofDigits?.eq_def, hall]
    rfl

theorem ofHex?_eq (text : String) : ofHex? text = ofDigits? (withoutSign text).toList := by
  rw [ofHex?, run_readHex]

/-! ### Which texts are colours -/

theorem isSome_ofDigits?_iff {digits : List Char} :
    (ofDigits? digits).isSome ↔
      digits.length ∈ [3, 4, 6, 8] ∧ ∀ c ∈ digits, Hex.isDigit c = true := by
  rw [← List.all_eq_true, ofDigits?.eq_def]
  cases digits.all Hex.isDigit with
  | false => simp
  | true =>
    match digits with
    | [] | [_] | [_, _] | [_, _, _] | [_, _, _, _] | [_, _, _, _, _] | [_, _, _, _, _, _]
    | [_, _, _, _, _, _, _] | [_, _, _, _, _, _, _, _] => simp
    | _ :: _ :: _ :: _ :: _ :: _ :: _ :: _ :: _ :: _ => simp

/-- There is a number sign in front, or there is not. -/
theorem toList_withoutSign (text : String) :
    text.toList = (withoutSign text).toList ∧ text.toList.head? ≠ some '#' ∨
      text.toList = '#' :: (withoutSign text).toList := by
  rw [withoutSign]
  split
  · next rest htext => exact .inr (by rw [htext, String.toList_ofList])
  · next hsign =>
    refine .inl ⟨rfl, fun hhead => ?_⟩
    obtain ⟨rest, hrest⟩ := List.head?_eq_some_iff.mp hhead
    exact hsign rest hrest

theorem toList_withoutSign_of_head?_ne {text : String} (h : text.toList.head? ≠ some '#') :
    (withoutSign text).toList = text.toList := by
  obtain ⟨htext, -⟩ | htext := toList_withoutSign text
  · exact htext.symm
  · exact absurd (by rw [htext]; rfl) h

theorem toList_withoutSign_of_cons {text : String} {rest : List Char}
    (h : text.toList = '#' :: rest) : (withoutSign text).toList = rest := by
  obtain ⟨-, hsign⟩ | htext := toList_withoutSign text
  · exact absurd (by rw [h]; rfl) hsign
  · rw [h] at htext
    exact (List.cons.inj htext).2.symm

theorem isSome_ofHex?_iff (text : String) : (ofHex? text).isSome ↔ IsHexNotation text := by
  rw [ofHex?_eq, isSome_ofDigits?_iff]
  simp only [Hex.isDigit_iff]
  constructor
  · rintro ⟨hlength, hall⟩
    exact ⟨_, (toList_withoutSign text).imp And.left id, hlength, hall⟩
  · rintro ⟨digits, htext | htext, hlength, hall⟩
    · -- The number sign is no digit, so that nothing is taken off.
      have hhead : text.toList.head? ≠ some '#' := by
        rw [htext]
        exact fun h => absurd (hall '#' (List.mem_of_mem_head? h)) (by decide)
      rw [toList_withoutSign_of_head?_ne hhead, htext]
      exact ⟨hlength, hall⟩
    · rw [toList_withoutSign_of_cons htext]
      exact ⟨hlength, hall⟩

/-! ### Letter case -/

theorem channel_toLower (a b : Char) : channel a.toLower b.toLower = channel a b := by
  simp only [channel, Hex.ofDigits, List.foldl_cons, List.foldl_nil, Hex.value?_toLower]

theorem ofDigits?_map_toLower (digits : List Char) :
    ofDigits? (digits.map Char.toLower) = ofDigits? digits := by
  have hall : (digits.map Char.toLower).all Hex.isDigit = digits.all Hex.isDigit := by
    rw [List.all_map]
    exact congrArg (digits.all ·) (funext Hex.isDigit_toLower)
  rw [ofDigits?.eq_def, ofDigits?.eq_def, hall]
  match digits with
  | [] | [_] | [_, _] | [_, _, _] | [_, _, _, _] | [_, _, _, _, _] | [_, _, _, _, _, _]
  | [_, _, _, _, _, _, _] | [_, _, _, _, _, _, _, _] =>
    simp only [List.map_cons, List.map_nil, channel_toLower]
  | _ :: _ :: _ :: _ :: _ :: _ :: _ :: _ :: _ :: _ => rfl

/-- No letter becomes a number sign. -/
theorem eq_sign_of_toLower {c : Char} (h : c.toLower = '#') : c = '#' := by
  have hnat : c.toLower.toNat = 35 := congrArg Char.toNat h
  obtain heq | ⟨hlow, -, hlower⟩ := Ascii.toNat_toLower c
  · exact Char.toNat_inj.mp (heq.symm.trans hnat)
  · omega

theorem toList_withoutSign_lower (text : String) :
    (withoutSign (Ascii.lower text)).toList = (withoutSign text).toList.map Char.toLower := by
  obtain ⟨htext, hsign⟩ | htext := toList_withoutSign text
  · rw [toList_withoutSign_of_head?_ne, Ascii.toList_lower, htext]
    rw [Ascii.toList_lower, List.head?_map]
    intro hhead
    obtain ⟨c, hc, hlower⟩ := Option.map_eq_some_iff.mp hhead
    exact hsign (eq_sign_of_toLower hlower ▸ hc)
  · refine toList_withoutSign_of_cons ?_
    rw [Ascii.toList_lower, htext]
    rfl

theorem ofHex?_lower (text : String) : ofHex? (Ascii.lower text) = ofHex? text := by
  rw [ofHex?_eq, ofHex?_eq, toList_withoutSign_lower, ofDigits?_map_toLower]

/-! ### Short forms -/

theorem ofDigits?_flatMap {digits : List Char} (h : digits.length = 3 ∨ digits.length = 4) :
    ofDigits? (digits.flatMap fun c => [c, c]) = ofDigits? digits := by
  have hall : (digits.flatMap fun c => [c, c]).all Hex.isDigit = digits.all Hex.isDigit := by
    simp [List.all_flatMap]
  rw [ofDigits?.eq_def, ofDigits?.eq_def, hall]
  match digits, h with
  | [_, _, _], _ | [_, _, _, _], _ => rfl

theorem toList_withoutSign_doubled (text : String) :
    (withoutSign (doubled text)).toList =
      (withoutSign text).toList.flatMap fun c => [c, c] := by
  rw [doubled]
  split
  · next digits htext =>
    rw [toList_withoutSign_of_cons htext]
    exact toList_withoutSign_of_cons String.toList_ofList
  · next hsign =>
    have hhead : text.toList.head? ≠ some '#' := fun hhead => by
      obtain ⟨rest, hrest⟩ := List.head?_eq_some_iff.mp hhead
      exact hsign rest hrest
    rw [toList_withoutSign_of_head?_ne hhead, toList_withoutSign_of_head?_ne,
      String.toList_ofList]
    rw [String.toList_ofList]
    cases htext : text.toList with
    | nil => exact nofun
    | cons c cs =>
      rw [htext] at hhead
      exact hhead

/-! ### Written colours -/

theorem toNat_div_lt (byte : UInt8) : byte.toNat / 16 < 16 := by
  have hbyte := byte.toNat_lt
  omega

theorem toNat_mod_lt (byte : UInt8) : byte.toNat % 16 < 16 :=
  Nat.mod_lt _ (by decide)

theorem channelHex_eq (byte : UInt8) :
    channelHex byte = [Hex.digit (byte.toNat / 16), Hex.digit (byte.toNat % 16)] := by
  simp [channelHex, Hex.padded, Nat.mod_eq_of_lt (toNat_div_lt byte)]

theorem channel_digit (byte : UInt8) :
    channel (Hex.digit (byte.toNat / 16)) (Hex.digit (byte.toNat % 16)) = byte := by
  have hhigh := Hex.value?_digit _ (toNat_div_lt byte)
  have hlow := Hex.value?_digit _ (toNat_mod_lt byte)
  simp only [channel, Hex.ofDigits, List.foldl_cons, List.foldl_nil, hhigh, hlow,
    Option.getD_some, Nat.mul_zero, Nat.zero_add, Nat.div_add_mod]
  exact UInt8.ofNat_toNat

theorem all_isDigit_channelHex (byte : UInt8) : (channelHex byte).all Hex.isDigit = true := by
  rw [channelHex_eq]
  simp [Hex.isDigit_digit (toNat_div_lt byte), Hex.isDigit_digit (toNat_mod_lt byte)]

/-- **A colour that is written is read back.** -/
theorem ofHex?_hex (c : Color) : ofHex? c.hex = some c := by
  have hdigits : (withoutSign c.hex).toList =
      channelHex c.red ++ channelHex c.green ++ channelHex c.blue ++
        if c.alpha = 255 then [] else channelHex c.alpha :=
    toList_withoutSign_of_cons String.toList_ofList
  have hall : (withoutSign c.hex).toList.all Hex.isDigit = true := by
    rw [hdigits]
    split <;> simp [all_isDigit_channelHex]
  rw [ofHex?_eq, ofDigits?.eq_def, if_pos hall, hdigits]
  simp only [channelHex_eq]
  by_cases hopaque : c.alpha = 255
  · rw [if_pos hopaque]
    simp [solid, channel_digit, ← hopaque]
  · rw [if_neg hopaque]
    simp [channel_digit]

/-- **Colours are read exactly.** No text leads to a fault, whatever its characters are, and a
colour is read from those texts that are hexadecimal notation. Letter case does not count, a short
form reads as its long form, and a colour that is written is read back. -/
theorem ofHex?_exact (text : String) :
    (readHex text).run = .ok (ofHex? text) ∧
    ((ofHex? text).isSome ↔ IsHexNotation text) ∧
    (∀ other, Ascii.lower other = Ascii.lower text → ofHex? other = ofHex? text) ∧
    ((withoutSign text).toList.length = 3 ∨ (withoutSign text).toList.length = 4 →
      ofHex? (doubled text) = ofHex? text) ∧
    ∀ c : Color, ofHex? c.hex = some c := by
  refine ⟨?_, isSome_ofHex?_iff text, fun other hother => ?_, fun hlength => ?_, ofHex?_hex⟩
  · rw [run_readHex, ofHex?_eq]
  · rw [← ofHex?_lower other, hother, ofHex?_lower]
  · rw [ofHex?_eq, ofHex?_eq, toList_withoutSign_doubled, ofDigits?_flatMap hlength]

/-- Red with some alpha, in four upper case digits. -/
theorem ofHex?_exact_short_form :
    ofHex? "#f00a" = ofHex? "#F00A" ∧ ofHex? "#FF0000AA" = ofHex? "#F00A" ∧
      ofHex? "#F00A" = some ⟨255, 0, 0, 170⟩ := by
  obtain ⟨-, -, hcase, hdoubled, -⟩ := ofHex?_exact "#F00A"
  have hlower : Ascii.lower "#f00a" = Ascii.lower "#F00A" := by decide
  have htwice : doubled "#F00A" = "#FF0000AA" := by decide
  exact ⟨hcase "#f00a" hlower, htwice ▸ hdoubled (.inr (by decide)), by decide⟩

end Color

end CssModel
