import CssModel.Proofs.Text.Hex
import CssModel.Text.Escape

/-!
# Unescaping undoes escaping

Each character is escaped on its own, and what stands for it must be read back as that character
whatever follows: hexadecimal digits, a space or another escape. `ReadsBack` says this of a way to
write characters, with the rest of the text left free. A code point is safe because of the space
behind it: it ends the digits, and is the one white space character that the reader takes with them.

The null character is the only one that does not come back, since there is no escape for it.

## Main definitions

* `CssModel.Escape.written`: the character that can be written in place of another
* `CssModel.Escape.ReadsBack`

## Main results

* `CssModel.Escape.unescapeChars_codePoint`
* `CssModel.Escape.readsBack_nameChar`, `CssModel.Escape.readsBack_stringChar`
* `CssModel.Escape.unescape_identifier_and_string`
-/

namespace CssModel.Escape

/-- The character itself, or what is written for the null character. -/
def written (c : Char) : Char :=
  if c = '\x00' then replacement else c

/-- Whatever follows, what stands for a character is read back as the character. -/
def ReadsBack (write : Char → List Char) : Prop :=
  ∀ (c : Char) (rest : List Char),
    unescapeChars (write c ++ rest) = written c :: unescapeChars rest

/-! ### Reading one escape -/

theorem unescapeChars_cons {c : Char} (h : c ≠ '\\') (rest : List Char) :
    unescapeChars (c :: rest) = c :: unescapeChars rest := by
  rw [unescapeChars]
  · exact fun hc _ => h hc
  · exact fun _ _ hc _ => h hc

theorem unescapeChars_backslash {c : Char} (hdigit : Hex.isDigit c = false) (hnewline : c ≠ '\n')
    (rest : List Char) : unescapeChars ('\\' :: c :: rest) = c :: unescapeChars rest := by
  rw [unescapeChars]
  simp [hdigit, hnewline]

/-- The digits of an escape end where the space begins. -/
theorem codePointDigits_append {cs : List Char} (hdigits : ∀ c ∈ cs, Hex.isDigit c = true)
    (hlen : cs.length ≤ 6) (rest : List Char) : codePointDigits (cs ++ ' ' :: rest) = cs := by
  have hspace : ((' ' :: rest).take (6 - cs.length)).takeWhile Hex.isDigit = [] := by
    cases 6 - cs.length with
    | zero => rfl
    | succ k => exact List.takeWhile_cons_of_neg (by decide)
  rw [codePointDigits, List.take_append, List.take_of_length_le hlen,
    List.takeWhile_append_of_pos hdigits, hspace, List.append_nil]

theorem afterDigits_append {cs : List Char} (hdigits : ∀ c ∈ cs, Hex.isDigit c = true)
    (hlen : cs.length ≤ 6) (rest : List Char) : afterDigits (cs ++ ' ' :: rest) = rest := by
  rw [afterDigits, codePointDigits_append hdigits hlen, List.drop_left]
  rfl

/-- Only the null character is not the character of its code point. -/
theorem ofCodePoint_toNat (c : Char) : ofCodePoint c.toNat = written c := by
  by_cases hc : c = '\x00'
  · subst hc
    rfl
  · have hzero : c.toNat ≠ 0 := fun h => hc (Char.toNat_inj.mp h)
    rw [ofCodePoint, written, if_neg hc, if_pos ⟨hzero, c.valid⟩, Char.ofNat_toNat]

/-- Six digits are enough for every character. -/
theorem length_digits_toNat_le (c : Char) : (Hex.digits c.toNat).length ≤ 6 := by
  refine Hex.length_digits_le (by decide) ?_
  have hvalid := c.valid
  simp only [UInt32.isValidChar, Nat.isValidChar] at hvalid
  simp only [Char.toNat]
  omega

/-- **A code point is read back**, and the space behind it is gone. -/
theorem unescapeChars_codePoint : ReadsBack codePoint := by
  intro c rest
  have hdigits : ∀ d ∈ Hex.digits c.toNat, Hex.isDigit d = true := fun _ =>
    Hex.isDigit_of_mem_digits
  have hlen : (Hex.digits c.toNat).length ≤ 6 := length_digits_toNat_le c
  obtain ⟨d, ds, heq⟩ := List.exists_cons_of_ne_nil (Hex.digits_ne_nil c.toNat)
  have htext : codePoint c ++ rest = '\\' :: d :: (ds ++ ' ' :: rest) := by
    simp [codePoint, heq]
  have hcons : d :: (ds ++ ' ' :: rest) = Hex.digits c.toNat ++ ' ' :: rest := by
    simp [heq]
  rw [htext, unescapeChars, if_pos (hdigits d (by simp [heq])), hcons,
    codePointDigits_append hdigits hlen, afterDigits_append hdigits hlen, Hex.ofDigits_digits,
    ofCodePoint_toNat]

/-! ### Characters of identifiers and strings -/

/-- The null character is written as its replacement everywhere, so that only the others count. -/
theorem ReadsBack.of_null {write : Char → List Char} (hnull : write '\x00' = [replacement])
    (h : ∀ c, c ≠ '\x00' → ∀ rest,
      unescapeChars (write c ++ rest) = written c :: unescapeChars rest) : ReadsBack write := by
  intro c rest
  by_cases hc : c = '\x00'
  · subst hc
    rw [hnull]
    exact unescapeChars_cons (by decide) rest
  · exact h c hc rest

/-- What continues a name is not a backslash and needs none. -/
theorem ne_backslash_of_isNameChar {c : Char} (h : isNameChar c = true) : c ≠ '\\' := by
  rintro rfl
  exact absurd h (by decide)

theorem isNameChar_of_isDigit {c : Char} (h : Hex.isDigit c = true) : isNameChar c = true := by
  simp [isNameChar, Hex.isAlphanum_of_isDigit h]

theorem ne_newline_of_isControl {c : Char} (h : isControl c = false) : c ≠ '\n' := by
  rintro rfl
  exact absurd h (by decide)

theorem readsBack_nameChar (level : EscapeLevel) : ReadsBack (nameChar level) := by
  refine .of_null rfl fun c hnull rest => ?_
  have hwritten : written c = c := if_neg hnull
  rw [nameChar.eq_def, if_neg (by simpa using hnull)]
  split
  · exact unescapeChars_codePoint c rest
  · next hcontrol =>
    split
    · exact unescapeChars_codePoint c rest
    · split
      · next hname =>
        rw [hwritten]
        exact unescapeChars_cons (ne_backslash_of_isNameChar hname) rest
      · next hname =>
        cases level with
        | hex => exact unescapeChars_codePoint c rest
        | backslash =>
          -- before a digit or a line feed the backslash would say something else
          have hdigit : Hex.isDigit c = false :=
            Bool.eq_false_iff.mpr fun h => hname (isNameChar_of_isDigit h)
          rw [hwritten]
          exact unescapeChars_backslash hdigit
            (ne_newline_of_isControl (by simpa using hcontrol)) rest

theorem readsBack_nameStartChar (level : EscapeLevel) : ReadsBack (nameStartChar level) := by
  intro c rest
  rw [nameStartChar.eq_def]
  split
  · exact unescapeChars_codePoint c rest
  · exact readsBack_nameChar level c rest

theorem readsBack_stringChar (level : EscapeLevel) : ReadsBack (stringChar level) := by
  refine .of_null rfl fun c hnull rest => ?_
  have hwritten : written c = c := if_neg hnull
  rw [stringChar.eq_def, if_neg (by simpa using hnull)]
  split
  · exact unescapeChars_codePoint c rest
  · split
    · next hspecial =>
      rw [hwritten]
      obtain rfl | rfl : c = '"' ∨ c = '\\' := by simpa using hspecial
      · exact unescapeChars_backslash (by decide) (by decide) rest
      · exact unescapeChars_backslash (by decide) (by decide) rest
    · next hspecial =>
      split
      · exact unescapeChars_codePoint c rest
      · rw [hwritten]
        have hbackslash : c ≠ '\\' := by
          rintro rfl
          exact hspecial (by decide)
        exact unescapeChars_cons hbackslash rest

/-! ### Texts -/

/-- A text written character by character is read back character by character. -/
theorem ReadsBack.unescapeChars_flatMap {write : Char → List Char} (h : ReadsBack write)
    (cs : List Char) : unescapeChars (cs.flatMap write) = cs.map written := by
  induction cs with
  | nil => rw [List.flatMap_nil, unescapeChars, List.map_nil]
  | cons c cs ih => rw [List.flatMap_cons, h, ih, List.map_cons]

theorem unescapeChars_identifierChars (level : EscapeLevel) (cs : List Char) :
    unescapeChars (identifierChars level cs) = cs.map written := by
  have hrest := (readsBack_nameChar level).unescapeChars_flatMap
  have hstart := readsBack_nameStartChar level
  rw [identifierChars.eq_def]
  split
  · rw [unescapeChars, List.map_nil]
  · rw [unescapeChars_backslash (by decide) (by decide), unescapeChars]
    rfl
  · next c rest =>
    rw [unescapeChars_cons (by decide), hstart, hrest]
    rfl
  · next c rest _ _ => rw [hstart, hrest, List.map_cons]

theorem unescape_ofList {cs : List Char} {text : String}
    (h : unescapeChars cs = text.toList.map written) :
    unescape (String.ofList cs) = text.map written := by
  rw [unescape, String.toList_ofList, h, ← String.toList_map, String.ofList_toList]

/-- **Unescaping undoes escaping**, of identifiers and of strings and at both levels, but for the
null character, which is read back as the replacement character. -/
theorem unescape_identifier_and_string (level : EscapeLevel) (text : String) :
    unescape (identifier level text) = text.map written ∧
      unescape (string level text) = text.map written :=
  ⟨unescape_ofList (unescapeChars_identifierChars level text.toList),
    unescape_ofList ((readsBack_stringChar level).unescapeChars_flatMap text.toList)⟩

/-- The digits of a code point end at the space, although a digit follows. -/
example : unescape (identifier .hex "1é2") = "1é2" := by
  cbv

end CssModel.Escape
