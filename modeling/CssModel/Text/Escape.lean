import CssModel.Text.Ascii
import CssModel.Text.Hex

/-!
# Escapes

Identifiers and strings are held as plain text. When they are written, each character that could
not stand where it is gets a backslash, or is replaced by its code point in hexadecimal between a
backslash and a space. `unescape` undoes both.

The null character has no escape: it is written as the replacement character.

## Main definitions

* `CssModel.EscapeLevel`: how much is escaped
* `CssModel.Escape.identifier`, `CssModel.Escape.string`: text as an identifier, and as the inside
  of a quoted string
* `CssModel.Escape.unescape`: the text that an escaped text stands for
-/

namespace CssModel

/-- How far escaping goes. -/
inductive EscapeLevel
  /-- A backslash before the character where that is enough; characters beyond ASCII stay. -/
  | backslash
  /-- Code points in hexadecimal, also for every character beyond ASCII. -/
  | hex
  deriving DecidableEq, Inhabited, Repr

namespace Escape

/-- What stands for characters that cannot be written. -/
def replacement : Char := '\ufffd'

/-- Control characters are written as code points at both levels. -/
def isControl (c : Char) : Bool :=
  c.toNat < 0x20 || c.toNat == 0x7f

/-- Characters that continue an identifier. -/
def isNameChar (c : Char) : Bool :=
  c.isAlphanum || c == '-' || c == '_' || Ascii.isBeyond c

/-- A backslash, the code point in hexadecimal and the space that ends it. -/
def codePoint (c : Char) : List Char :=
  '\\' :: (Hex.digits c.toNat ++ [' '])

/-- One character of an identifier, where a digit or a hyphen may stand. -/
def nameChar (level : EscapeLevel) (c : Char) : List Char :=
  if c == '\x00' then [replacement]
  else if isControl c then codePoint c
  else if Ascii.isBeyond c && level == .hex then codePoint c
  else if isNameChar c then [c]
  else
    match level with
    | .backslash => ['\\', c]
    | .hex => codePoint c

/-- One character at the place of an identifier where no digit may stand. -/
def nameStartChar (level : EscapeLevel) (c : Char) : List Char :=
  if c.isDigit then codePoint c else nameChar level c

/-- The characters of an identifier. No digit may stand at its start, or after a hyphen at its
start, and a hyphen may not stand alone. -/
def identifierChars (level : EscapeLevel) : List Char → List Char
  | [] => []
  | ['-'] => ['\\', '-']
  | '-' :: c :: rest => '-' :: (nameStartChar level c ++ rest.flatMap (nameChar level))
  | c :: rest => nameStartChar level c ++ rest.flatMap (nameChar level)

/-- The text as an identifier. -/
def identifier (level : EscapeLevel) (text : String) : String :=
  String.ofList (identifierChars level text.toList)

/-- One character between double quotes. -/
def stringChar (level : EscapeLevel) (c : Char) : List Char :=
  if c == '\x00' then [replacement]
  else if isControl c then codePoint c
  else if c == '"' || c == '\\' then ['\\', c]
  else if Ascii.isBeyond c && level == .hex then codePoint c
  else [c]

/-- The text as the inside of a double-quoted string; the quotes are not part of it. -/
def string (level : EscapeLevel) (text : String) : String :=
  String.ofList (text.toList.flatMap (stringChar level))

/-- The text as a double-quoted string. -/
def quoted (level : EscapeLevel) (text : String) : String :=
  "\"" ++ string level text ++ "\""

/-- The character of a code point; zero, surrogates and numbers past the last code point give the
replacement character. -/
def ofCodePoint (n : Nat) : Char :=
  if n ≠ 0 ∧ n.isValidChar then Char.ofNat n else replacement

/-- The hexadecimal digits of an escape: as many as there are, at most six. -/
def codePointDigits (cs : List Char) : List Char :=
  (cs.take 6).takeWhile Hex.isDigit

/-- The rest of the text after the digits of an escape: one white space character ends them. -/
def afterDigits (cs : List Char) : List Char :=
  match cs.drop (codePointDigits cs).length with
  | [] => []
  | c :: rest => if Ascii.isBlank c then rest else c :: rest

theorem length_afterDigits_le (cs : List Char) : (afterDigits cs).length ≤ cs.length := by
  unfold afterDigits
  split
  · simp
  · next c rest h =>
    have := congrArg List.length h
    simp only [List.length_drop, List.length_cons] at this
    split <;> simp <;> omega

/-- A backslash and hexadecimal digits give the character of that code point, a backslash before a
line feed vanishes with it, and any other backslash gives the character after it. -/
def unescapeChars : List Char → List Char
  | [] => []
  | '\\' :: [] => [replacement]
  | '\\' :: c :: rest =>
    if Hex.isDigit c then
      ofCodePoint (Hex.ofDigits (codePointDigits (c :: rest))) ::
        unescapeChars (afterDigits (c :: rest))
    else if c == '\n' then unescapeChars rest
    else c :: unescapeChars rest
  | c :: rest => c :: unescapeChars rest
termination_by cs => cs.length
decreasing_by
  all_goals simp only [List.length_cons]
  · have := length_afterDigits_le (c :: rest)
    simp only [List.length_cons] at this
    omega
  all_goals omega

/-- The text that an escaped text stands for. -/
def unescape (text : String) : String :=
  String.ofList (unescapeChars text.toList)

end Escape

end CssModel
