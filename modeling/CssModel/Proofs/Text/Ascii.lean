import CssModel.Proofs.Text.Unescape

/-!
# Text within ASCII

At the hexadecimal level of escaping every character beyond ASCII becomes a code point, and code
points are written with ASCII alone. One character does not get that far: the null character has no
escape and is replaced before the level is looked at, by a character that lies beyond ASCII itself.
So an escaped text has as many characters beyond ASCII as the text has null characters, and all of
them are that replacement.

## Main definitions

* `CssModel.IsAscii`
* `CssModel.Escape.WritesAscii`: a way to write characters that leaves nothing else beyond ASCII

## Main results

* `CssModel.Escape.WritesAscii.filter_flatMap`
* `CssModel.Escape.isAscii_identifier_iff`, `CssModel.Escape.isAscii_string_iff`
* `CssModel.Escape.isAscii_escaped_iff`
-/

namespace CssModel

/-- No character of the text lies beyond ASCII. -/
def IsAscii (text : String) : Prop :=
  ∀ c ∈ text.toList, Ascii.isBeyond c = false

instance (text : String) : Decidable (IsAscii text) :=
  decidable_of_iff (text.toList.all (! Ascii.isBeyond ·)) (by simp [IsAscii])

@[simp]
theorem isAscii_append_iff {a b : String} : IsAscii (a ++ b) ↔ IsAscii a ∧ IsAscii b := by
  rw [IsAscii, String.toList_append, List.forall_mem_append]
  rfl

theorem isAscii_iff_filter {text : String} :
    IsAscii text ↔ text.toList.filter Ascii.isBeyond = [] := by
  simp only [IsAscii, List.filter_eq_nil_iff, Bool.not_eq_true]

theorem Hex.isBeyond_of_isDigit {c : Char} (h : isDigit c = true) : Ascii.isBeyond c = false := by
  rw [isDigit, value?] at h
  rw [Ascii.isBeyond, decide_eq_false_iff_not, Nat.not_le]
  grind [Char.le_def, UInt32.le_iff_toNat_le, Char.toNat]

namespace Escape

/-- Nothing beyond ASCII is written, except that the null character gets its replacement. -/
def WritesAscii (write : Char → List Char) : Prop :=
  ∀ c, (write c).filter Ascii.isBeyond = List.replicate (if c = '\x00' then 1 else 0) replacement

section Write

variable {write : Char → List Char}

/-- The null character is replaced everywhere, so that only the others count. -/
theorem WritesAscii.of_null (hnull : write '\x00' = [replacement])
    (h : ∀ c, c ≠ '\x00' → (write c).filter Ascii.isBeyond = []) : WritesAscii write := by
  intro c
  by_cases hc : c = '\x00'
  · subst hc
    rw [hnull]
    rfl
  · rw [h c hc, if_neg hc, List.replicate_zero]

/-- **One replacement for each null character** is all that lies beyond ASCII in a text that is
written character by character. -/
theorem WritesAscii.filter_flatMap (h : WritesAscii write) (cs : List Char) :
    (cs.flatMap write).filter Ascii.isBeyond =
      List.replicate (cs.count '\x00') replacement := by
  induction cs with
  | nil => rfl
  | cons c cs ih =>
    rw [List.flatMap_cons, List.filter_append, h c, ih, List.replicate_append_replicate,
      List.count_cons, Nat.add_comm]
    simp only [beq_iff_eq]

end Write

theorem filter_isBeyond_singleton {c : Char} (h : Ascii.isBeyond c = false) :
    [c].filter Ascii.isBeyond = [] :=
  List.filter_cons_of_neg (by simp [h])

theorem filter_isBeyond_codePoint (c : Char) : (codePoint c).filter Ascii.isBeyond = [] := by
  rw [List.filter_eq_nil_iff]
  intro d hd
  rw [codePoint, List.mem_cons, List.mem_append, List.mem_singleton] at hd
  obtain rfl | hdigit | rfl := hd
  · decide
  · simp [Hex.isBeyond_of_isDigit (Hex.isDigit_of_mem_digits hdigit)]
  · decide

theorem writesAscii_nameChar : WritesAscii (nameChar .hex) := by
  refine .of_null rfl fun c hnull => ?_
  rw [nameChar.eq_def, if_neg (by simpa using hnull)]
  split
  · exact filter_isBeyond_codePoint c
  · split
    · exact filter_isBeyond_codePoint c
    · next hbeyond =>
      split
      · exact filter_isBeyond_singleton (by simpa using hbeyond)
      · exact filter_isBeyond_codePoint c

theorem writesAscii_nameStartChar : WritesAscii (nameStartChar .hex) := by
  refine .of_null rfl fun c hnull => ?_
  rw [nameStartChar.eq_def]
  split
  · exact filter_isBeyond_codePoint c
  · rw [writesAscii_nameChar c, if_neg hnull, List.replicate_zero]

theorem writesAscii_stringChar : WritesAscii (stringChar .hex) := by
  refine .of_null rfl fun c hnull => ?_
  rw [stringChar.eq_def, if_neg (by simpa using hnull)]
  split
  · exact filter_isBeyond_codePoint c
  · split
    · next hspecial =>
      obtain rfl | rfl : c = '"' ∨ c = '\\' := by simpa using hspecial
      · decide
      · decide
    · split
      · exact filter_isBeyond_codePoint c
      · next hbeyond => exact filter_isBeyond_singleton (by simpa using hbeyond)

/-- The first character of an identifier is written in its own way, and so is the second one if the
first is a hyphen. -/
theorem filter_isBeyond_nameStart (c : Char) (cs : List Char) :
    (nameStartChar .hex c ++ cs.flatMap (nameChar .hex)).filter Ascii.isBeyond =
      List.replicate ((c :: cs).count '\x00') replacement := by
  rw [List.filter_append, writesAscii_nameStartChar c, writesAscii_nameChar.filter_flatMap,
    List.replicate_append_replicate, List.count_cons, Nat.add_comm]
  simp only [beq_iff_eq]

theorem filter_isBeyond_identifierChars (cs : List Char) :
    (identifierChars .hex cs).filter Ascii.isBeyond =
      List.replicate (cs.count '\x00') replacement := by
  rw [identifierChars.eq_def]
  split
  · rfl
  · rfl
  · next c rest =>
    have hhyphen : ('-' :: c :: rest).count '\x00' = (c :: rest).count '\x00' :=
      List.count_cons_of_ne (by decide)
    rw [hhyphen, ← filter_isBeyond_nameStart]
    rfl
  · next c rest _ _ => exact filter_isBeyond_nameStart c rest

section Level

variable (text : String)

theorem filter_isBeyond_identifier : (identifier .hex text).toList.filter Ascii.isBeyond =
    List.replicate (text.toList.count '\x00') replacement := by
  rw [identifier, String.toList_ofList]
  exact filter_isBeyond_identifierChars text.toList

theorem filter_isBeyond_string : (string .hex text).toList.filter Ascii.isBeyond =
    List.replicate (text.toList.count '\x00') replacement := by
  rw [string, String.toList_ofList]
  exact writesAscii_stringChar.filter_flatMap text.toList

theorem isAscii_identifier_iff : IsAscii (identifier .hex text) ↔ '\x00' ∉ text.toList := by
  rw [isAscii_iff_filter, filter_isBeyond_identifier, List.replicate_eq_nil_iff,
    List.count_eq_zero]

theorem isAscii_string_iff : IsAscii (string .hex text) ↔ '\x00' ∉ text.toList := by
  rw [isAscii_iff_filter, filter_isBeyond_string, List.replicate_eq_nil_iff, List.count_eq_zero]

/-- **The hexadecimal level and ASCII.** An identifier or a string that is escaped at this level is
within ASCII exactly if the text has no null character. Otherwise there is one replacement character
for each of them, and nothing else beyond ASCII. -/
theorem isAscii_escaped_iff :
    ((IsAscii (identifier .hex text) ↔ '\x00' ∉ text.toList) ∧
      (IsAscii (string .hex text) ↔ '\x00' ∉ text.toList)) ∧
    (identifier .hex text).toList.filter Ascii.isBeyond =
      List.replicate (text.toList.count '\x00') replacement ∧
    (string .hex text).toList.filter Ascii.isBeyond =
      List.replicate (text.toList.count '\x00') replacement :=
  ⟨⟨isAscii_identifier_iff text, isAscii_string_iff text⟩, filter_isBeyond_identifier text,
    filter_isBeyond_string text⟩

end Level

/-- A null character alone: its replacement is all that is written, at the hexadecimal level too. -/
theorem not_isAscii_escaped_null :
    ¬ IsAscii (identifier .hex "\x00") ∧ ¬ IsAscii (string .hex "\x00") := by
  decide

end Escape

end CssModel
