/-!
# Hexadecimal digits

Code points in escapes, colour channels and bit patterns are written with the digits `0` to `9`
and `a` to `f`, and read with the letters in either case.

## Main definitions

* `CssModel.Hex.value?`: the value of one digit
* `CssModel.Hex.digits`: a number without leading zeros
* `CssModel.Hex.padded`: a number with a fixed count of digits
* `CssModel.Hex.ofDigits`: the number that a list of digits denotes
* `CssModel.Hex.byte?`: a number of one byte, read
-/

namespace CssModel.Hex

/-- The value of a hexadecimal digit, upper or lower case. -/
def value? (c : Char) : Option Nat :=
  if '0' ≤ c ∧ c ≤ '9' then some (c.toNat - '0'.toNat)
  else if 'a' ≤ c ∧ c ≤ 'f' then some (c.toNat - 'a'.toNat + 10)
  else if 'A' ≤ c ∧ c ≤ 'F' then some (c.toNat - 'A'.toNat + 10)
  else none

/-- Whether the character is a hexadecimal digit. -/
def isDigit (c : Char) : Bool :=
  (value? c).isSome

/-- The lower case digit of a value below 16. -/
def digit (n : Nat) : Char :=
  if n < 10 then Char.ofNat ('0'.toNat + n) else Char.ofNat ('a'.toNat + (n - 10))

/-- The digits of a number, most significant first, without leading zeros. -/
def digits (n : Nat) : List Char :=
  if n < 16 then [digit n] else digits (n / 16) ++ [digit (n % 16)]
termination_by n

/-- The last `width` digits of a number, most significant first. -/
def padded : Nat → Nat → List Char
  | 0, _ => []
  | width + 1, n => padded width (n / 16) ++ [digit (n % 16)]

/-- The number that the digits denote; a character that is no digit counts as zero. -/
def ofDigits (cs : List Char) : Nat :=
  cs.foldl (fun n c => 16 * n + (value? c).getD 0) 0

/-- The number that the characters denote, if it fits into a byte: at least one digit, and perhaps a
plus sign in front. -/
def byte? (cs : List Char) : Option UInt8 :=
  let digits :=
    match cs with
    | '+' :: digits => digits
    | _ => cs
  if ! digits.isEmpty && digits.all isDigit && ofDigits digits < 256 then
    some (.ofNat (ofDigits digits))
  else none

end CssModel.Hex
