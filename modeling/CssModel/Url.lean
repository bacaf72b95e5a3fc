/-!
# Resolving references

A reference in a style sheet is relative to the address of the sheet. `Url.resolve` joins the two:
a reference with a scheme stands for itself, one that starts with two slashes takes the scheme of
the base, one that starts with a slash takes scheme and authority, and any other is put beside the
last segment of the base's path. Segments `.` and `..` are then removed from the path.

## Main definitions

* `CssModel.Url.hasScheme`: whether a reference stands for itself
* `CssModel.Url.removeDotSegments`: the path without `.` and `..`
* `CssModel.Url.resolve`: the reference seen from a base
-/

namespace CssModel.Url

/-- A letter, then letters, digits, `+`, `-` and `.`. -/
def isScheme : List Char → Bool
  | [] => false
  | c :: rest =>
    c.isAlpha && rest.all fun d => d.isAlphanum || d == '+' || d == '-' || d == '.'

/-- Whether what stands before the first colon is a scheme. -/
def hasScheme (href : List Char) : Bool :=
  href.contains ':' && isScheme (href.takeWhile (· ≠ ':'))

/-- An address taken apart as far as references need it. -/
structure Base where
  /-- What stands before the first `://`; empty if there is none. -/
  scheme : List Char
  /-- What follows up to the first slash. -/
  authority : List Char
  /-- The rest; a slash if nothing is left. -/
  path : List Char
  deriving DecidableEq, Repr

/-- What stands before and after the first `://`. -/
def splitScheme? : List Char → Option (List Char × List Char)
  | [] => none
  | ':' :: '/' :: '/' :: rest => some ([], rest)
  | c :: rest => (splitScheme? rest).map fun (scheme, tail) => (c :: scheme, tail)

/-- The base that an address gives. -/
def Base.ofChars (address : List Char) : Base :=
  let (scheme, rest) := (splitScheme? address).getD ([], address)
  let path := rest.dropWhile (· ≠ '/')
  ⟨scheme, rest.takeWhile (· ≠ '/'), if path.isEmpty then ['/'] else path⟩

/-- Scheme and authority as they start an address. -/
def Base.origin (base : Base) : List Char :=
  if base.scheme.isEmpty then base.authority else base.scheme ++ "://".toList ++ base.authority

/-- The path up to its last slash, without that slash. -/
def Base.directory (base : Base) : List Char :=
  ((base.path.reverse.dropWhile (· ≠ '/')).drop 1).reverse

/-- Whether the path ends here: a query or a fragment follows. -/
def endsPath (c : Char) : Bool :=
  c == '?' || c == '#'

/-- One segment onto those kept so far. A dot is dropped, two dots take the segment before them
away, but never the empty one before the first slash; at the end of the path either leaves an
empty segment. -/
def addSegment (kept : List (List Char)) (segment : List Char) (last : Bool) : List (List Char) :=
  if segment = ['.'] then
    if last then kept ++ [[]] else kept
  else if segment = ['.', '.'] then
    let shorter := if 1 < kept.length then kept.dropLast else kept
    if last then shorter ++ [[]] else shorter
  else kept ++ [segment]

/-- The segments without dot segments, onto those kept so far. -/
def keepSegments (kept : List (List Char)) : List (List Char) → List (List Char)
  | [] => kept
  | segment :: rest => keepSegments (addSegment kept segment rest.isEmpty) rest

/-- The path without dot segments, starting with a slash. What follows the first `?` or `#` is
left as it is. -/
def removeDotSegments (path : List Char) : List Char :=
  let before := path.takeWhile (! endsPath ·)
  let suffix := path.dropWhile (! endsPath ·)
  let resolved := List.intercalate ['/'] (keepSegments [] (before.splitOn '/'))
  (if resolved.head? = some '/' then resolved else '/' :: resolved) ++ suffix

/-- The path that a reference without scheme and authority has beside the base. -/
def Base.join (base : Base) (href : List Char) : List Char :=
  if href.head? = some '/' then href
  else if href.head? = some '#' || href.head? = some '?' then base.path ++ href
  else base.directory ++ '/' :: href

/-- The reference seen from a base. -/
def resolveFrom (base : Base) (href : List Char) : List Char :=
  if hasScheme href then href
  else
    match href with
    | '/' :: '/' :: network =>
      if base.scheme.isEmpty then href else base.scheme ++ "://".toList ++ network
    | _ => base.origin ++ removeDotSegments (base.join href)

/-- The reference seen from an address; without one it stands for itself. -/
def resolve (href : String) (base : Option String) : String :=
  match base with
  | none => href
  | some address =>
    String.ofList (resolveFrom (Base.ofChars address.toList) href.toList)

end CssModel.Url
