import CssModel.Text.Ascii

/-!
# Indexes of the form `an+b`

An index such as `2n+1` stands for the positions `a * k + b` with `k` from zero on. It is written
with the words `odd` and `even`, as a whole number, or with a step, the letter `n` and an offset.
Both numbers are 32 bits wide; positions are tested in 64 bits, where nothing overflows.

## Main definitions

* `CssModel.Index`, `CssModel.Index.contains`
* `CssModel.Index.ofText?`: the index that a text denotes
-/

namespace CssModel

/-- The positions `step * k + offset` for `k` from zero on. -/
structure Index where
  step : Int32
  offset : Int32
  deriving DecidableEq, Repr

namespace Index

/-- Whether two numbers have the same sign, zero having one of its own. -/
def sameSign (a b : Int64) : Bool :=
  (a < 0) == (b < 0) && (a == 0) == (b == 0)

/-- Whether the position is among those of the index: its distance from the offset is a multiple of
the step, on the step's side. -/
def contains (i : Index) (position : Int32) : Bool :=
  let distance := position.toInt64 - i.offset.toInt64
  let step := i.step.toInt64
  if step == 0 then distance == 0
  else distance == 0 || (sameSign distance step && distance % step == 0)

/-- A whole number, if it fits into 32 bits. -/
def fit? (n : Int) : Option Int32 :=
  if -2147483648 ≤ n ∧ n ≤ 2147483647 then some (Int32.ofInt n) else none

/-- The number that a run of digits denotes; the run must not be empty. -/
def readDigits? (cs : List Char) : Option Nat :=
  if ! cs.isEmpty && cs.all Char.isDigit then
    some (cs.foldl (fun n c => 10 * n + (c.toNat - '0'.toNat)) 0)
  else none

/-- An optional sign and digits. -/
def readInteger? : List Char → Option Int32
  | '-' :: digits => (readDigits? digits).bind fun n => fit? (-n)
  | '+' :: digits => (readDigits? digits).bind fun n => fit? n
  | digits => (readDigits? digits).bind fun n => fit? n

/-- What stands before the letter `n`; nothing and a bare sign stand for one. -/
def readStep? : List Char → Option Int32
  | [] => some 1
  | ['+'] => some 1
  | ['-'] => some (-1)
  | cs => readInteger? cs

/-- Digits after a sign; white space may stand between the two, but no second sign. -/
def readMagnitude? (cs : List Char) : Option Int32 :=
  (readDigits? (cs.dropWhile Ascii.isBlank)).bind fun n => fit? n

/-- What stands after the letter `n`: nothing, or a sign and digits. -/
def readOffset? (cs : List Char) : Option Int32 :=
  match cs.dropWhile Ascii.isBlank with
  | [] => some 0
  | '+' :: rest => readMagnitude? rest
  | '-' :: rest => (readMagnitude? rest).map fun n => -n
  | _ => none

/-- The index that a text in lower case without outer white space denotes. -/
def read? (cs : List Char) : Option Index :=
  if cs = "odd".toList then some ⟨2, 1⟩
  else if cs = "even".toList then some ⟨2, 0⟩
  else if cs.contains 'n' then do
    let step ← readStep? (cs.takeWhile (· ≠ 'n'))
    let offset ← readOffset? ((cs.dropWhile (· ≠ 'n')).drop 1)
    return ⟨step, offset⟩
  else (readInteger? cs).map fun n => ⟨0, n⟩

/-- The index that a text denotes, in any letter case and between white space. -/
def ofText? (text : String) : Option Index :=
  read? ((Ascii.trimChars text.toList).map Char.toLower)

end Index

end CssModel
