import CssModel.Text.Ascii
import CssModel.Text.Bytes
import CssModel.Text.Hex

/-!
# Colours

A colour has four channels of one byte each: red, green, blue and alpha, where 255 is opaque. It
can be packed into one number, and written with two hexadecimal digits a channel.

## Main definitions

* `CssModel.Color`, `CssModel.Color.packed`, `CssModel.Color.ofPacked`
* `CssModel.Color.readHex`, `CssModel.Color.ofHex?`, `CssModel.Color.hex`: reading and writing
  hexadecimal notation
-/

namespace CssModel

/-- A colour with an alpha channel. -/
structure Color where
  red : UInt8
  green : UInt8
  blue : UInt8
  /-- 255 is opaque, 0 invisible. -/
  alpha : UInt8
  deriving DecidableEq, Repr

namespace Color

/-- An opaque colour. -/
def solid (red green blue : UInt8) : Color :=
  ⟨red, green, blue, 255⟩

def black : Color := solid 0 0 0

def white : Color := solid 255 255 255

/-- Black with no opacity. -/
def transparent : Color := ⟨0, 0, 0, 0⟩

/-- The channels as the bytes of one number, red first. -/
def packed (c : Color) : UInt32 :=
  (c.red.toUInt32 <<< 24) ||| (c.green.toUInt32 <<< 16) ||| (c.blue.toUInt32 <<< 8) |||
    c.alpha.toUInt32

/-- The colour whose channels are the bytes of the number, red first. -/
def ofPacked (n : UInt32) : Color :=
  ⟨(n >>> 24).toUInt8, (n >>> 16).toUInt8, (n >>> 8).toUInt8, n.toUInt8⟩

/-- The text without the number sign in front of it, if there is one. -/
def withoutSign (text : String) : String :=
  match text.toList with
  | '#' :: rest => String.ofList rest
  | _ => text

/-- The channel that the digit at an offset stands for in a short form: the digit twice. -/
def digitAt (digits : String) (offset : Nat) : OptionT (Except CutFault) UInt8 := do
  let piece ← OptionT.lift (Bytes.cut digits offset (offset + 1))
  let digit ← OptionT.mk (pure (Hex.byte? piece.toList))
  return digit * 17

/-- The channel that the two digits at an offset stand for in a long form. -/
def pairAt (digits : String) (offset : Nat) : OptionT (Except CutFault) UInt8 := do
  let piece ← OptionT.lift (Bytes.cut digits offset (offset + 2))
  OptionT.mk (pure (Hex.byte? piece.toList))

/-- The colour of a text of digits: three or six for an opaque colour, four or eight with alpha. The
count is that of the bytes, and the digits are cut out at byte offsets. -/
def cutDigits (digits : String) : OptionT (Except CutFault) Color :=
  match digits.utf8ByteSize with
  | 3 => return solid (← digitAt digits 0) (← digitAt digits 1) (← digitAt digits 2)
  | 4 => return ⟨← digitAt digits 0, ← digitAt digits 1, ← digitAt digits 2, ← digitAt digits 3⟩
  | 6 => return solid (← pairAt digits 0) (← pairAt digits 2) (← pairAt digits 4)
  | 8 => return ⟨← pairAt digits 0, ← pairAt digits 2, ← pairAt digits 4, ← pairAt digits 6⟩
  | _ => failure

/-- Reads a colour in hexadecimal notation, with or without the number sign. -/
def readHex (text : String) : OptionT (Except CutFault) Color := do
  let digits := withoutSign text
  guard (digits.toList.all Hex.isDigit)
  cutDigits digits

/-- The colour in hexadecimal notation. No text leads to a fault. -/
def ofHex? (text : String) : Option Color :=
  match (readHex text).run with
  | .ok color => color
  | .error _ => none

/-- A channel as two digits. -/
def channelHex (channel : UInt8) : List Char :=
  Hex.padded 2 channel.toNat

/-- The colour in hexadecimal notation; alpha is left out of an opaque colour. -/
def hex (c : Color) : String :=
  String.ofList <|
    '#' :: (channelHex c.red ++ channelHex c.green ++ channelHex c.blue ++
      if c.alpha = 255 then [] else channelHex c.alpha)

end Color

end CssModel
