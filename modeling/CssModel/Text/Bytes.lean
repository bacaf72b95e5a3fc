/-!
# Byte offsets

A text is held as the bytes of its characters, of which those beyond ASCII have several. Pieces of a
text are cut out between byte offsets, and not every offset will do: it may lie behind the end of
the text, or between two bytes of one character.

## Main definitions

* `CssModel.CutFault`
* `CssModel.Bytes.cut`
-/

namespace CssModel

/-- Why nothing can be cut out between two offsets. -/
inductive CutFault
  /-- An offset lies behind the end, or the second one in front of the first. -/
  | outOfRange
  /-- An offset lies between two bytes of a character. -/
  | insideCharacter
  deriving DecidableEq, Repr

/-- The piece of a text from one byte offset up to another. -/
def Bytes.cut (text : String) (start stop : Nat) : Except CutFault String :=
  if start ≤ stop ∧ stop ≤ text.utf8ByteSize then
    if h : (String.Pos.Raw.mk start).IsValid text ∧ (String.Pos.Raw.mk stop).IsValid text then
      .ok (String.extract (⟨⟨start⟩, h.1⟩ : text.Pos) ⟨⟨stop⟩, h.2⟩)
    else .error .insideCharacter
  else .error .outOfRange

end CssModel
