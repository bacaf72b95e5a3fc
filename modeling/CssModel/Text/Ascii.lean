/-!
# ASCII case and white space

Names in style sheets are compared without regard to the case of the letters `A` to `Z`, and
separated by five white space characters. Both notions are ASCII only: every other character
stands for itself.

## Main definitions

* `CssModel.Ascii.lower`, `CssModel.Ascii.sameText`: case folding and the comparison it gives
* `CssModel.Ascii.isBlank`, `CssModel.Ascii.trim`, `CssModel.Ascii.words`: white space
-/

namespace CssModel.Ascii

/-- The text with the letters `A` to `Z` replaced by `a` to `z`. -/
def lower (text : String) : String :=
  String.ofList (text.toList.map Char.toLower)

/-- Equality up to the case of ASCII letters. -/
def sameText (a b : String) : Bool :=
  lower a == lower b

/-- Tab, line feed, form feed, carriage return and space. -/
def isBlank (c : Char) : Bool :=
  c == ' ' || c == '\t' || c == '\n' || c == '\x0c' || c == '\r'

/-- The characters without leading and trailing white space. -/
def trimChars (cs : List Char) : List Char :=
  ((cs.dropWhile isBlank).reverse.dropWhile isBlank).reverse

/-- The text without leading and trailing white space. -/
def trim (text : String) : String :=
  String.ofList (trimChars text.toList)

/-- Whether some character of the text is white space. -/
def hasBlank (text : String) : Bool :=
  text.toList.any isBlank

/-- The maximal runs of characters that are not white space, in order. -/
def wordChars (cs : List Char) : List (List Char) :=
  (cs.splitOnP isBlank).filter (! ·.isEmpty)

/-- The words of the text, in order. -/
def words (text : String) : List String :=
  (wordChars text.toList).map String.ofList

/-- A character outside the first 128 code points. -/
def isBeyond (c : Char) : Bool :=
  128 ≤ c.toNat

@[simp]
theorem toList_lower (text : String) : (lower text).toList = text.toList.map Char.toLower := by
  simp [lower]

end CssModel.Ascii
