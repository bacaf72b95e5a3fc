import CssModel.Proofs.Text.Unescape
import CssModel.Term.Printer
import Mathlib

/-!
# Escaped text is one token

A style sheet is read token by token, by rules that know nothing of how it was written: a name goes
on for as long as there are characters of names and escapes, and a string ends at the first quote
that is not part of an escape. These rules are stated here on their own, and what `Escape` writes is
put through them. An escaped identifier is one name from its first character to its last, and an
escaped string meets its end at the closing quote and not before.

## The shape of escaped text

The scanner has no memory of where an escape began, so the statement that goes through the text
character by character is about pieces. `Piece` says how one character may be written: as it is, as
a code point with a space behind it, or behind a backslash. A piece is read as its character
whatever follows, and `Spells` puts pieces together. Which characters may stand as they are is a
parameter, since names and strings differ in nothing else.

## Main definitions

* `CssModel.Token.beginsIdentifier`, `CssModel.Token.scanName`, `CssModel.Token.scanString`: the
  rules of tokens
* `CssModel.Token.Piece`, `CssModel.Token.Spells`: how characters and texts may be written

## Main results

* `CssModel.Token.Spells.scanName_append`, `CssModel.Token.Spells.scanString_append`
* `CssModel.Token.spells_identifier`, `CssModel.Token.spells_string`
* `CssModel.Token.scan_identifier_and_string`
-/

namespace CssModel.Token

open Escape (replacement ofCodePoint codePointDigits afterDigits written)

/-! ### The rules of tokens -/

/-- Line feed, carriage return and form feed end a line. -/
def isNewline (c : Char) : Bool :=
  c == '\n' || c == '\r' || c == '\x0c'

/-- Letters, the underscore and every character beyond ASCII begin a name. -/
def beginsName (c : Char) : Bool :=
  c.isAlpha || c == '_' || Ascii.isBeyond c

/-- Digits and hyphens continue a name. -/
def continuesName (c : Char) : Bool :=
  beginsName c || c.isDigit || c == '-'

/-- A backslash begins an escape, unless a line ends behind it. -/
def beginsEscape : List Char → Bool
  | '\\' :: rest => ! rest.head?.any isNewline
  | _ => false

/-- Whether an identifier begins here. Behind a hyphen at its start no digit may stand. -/
def beginsIdentifier : List Char → Bool
  | '-' :: rest => rest.head?.any (fun c => beginsName c || c == '-') || beginsEscape rest
  | cs => cs.head?.any beginsName || beginsEscape cs

/-- The character of an escape, given what stands behind its backslash, and the rest. -/
def takeEscape : List Char → Char × List Char
  | [] => (replacement, [])
  | c :: rest =>
    if Hex.isDigit c then
      (ofCodePoint (Hex.ofDigits (codePointDigits (c :: rest))), afterDigits (c :: rest))
    else (c, rest)

theorem length_takeEscape_le (cs : List Char) : (takeEscape cs).2.length ≤ cs.length := by
  cases cs with
  | nil => exact Nat.le_refl 0
  | cons c rest =>
    rw [takeEscape]
    split
    · exact Escape.length_afterDigits_le (c :: rest)
    · exact Nat.le_succ rest.length

/-- The name at the start of the text, and what follows it. -/
def scanName : List Char → List Char × List Char
  | [] => ([], [])
  | c :: rest =>
    if continuesName c then
      (c :: (scanName rest).1, (scanName rest).2)
    else if beginsEscape (c :: rest) then
      ((takeEscape rest).1 :: (scanName (takeEscape rest).2).1, (scanName (takeEscape rest).2).2)
    else ([], c :: rest)
termination_by cs => cs.length
decreasing_by
  all_goals simp only [List.length_cons]
  all_goals have := length_takeEscape_le rest
  all_goals omega

/-- What becomes of a string after its opening quote. -/
inductive StringToken
  /-- The closing quote was found behind this text. -/
  | closed (text after : List Char)
  /-- The line ended before the string did. -/
  | broken
  /-- Nothing is left, and no closing quote was found. -/
  | unclosed
  deriving DecidableEq, Repr

/-- The token with one more character in front of its text. -/
def StringToken.cons (c : Char) : StringToken → StringToken
  | .closed text after => .closed (c :: text) after
  | .broken => .broken
  | .unclosed => .unclosed

/-- A string after its opening quote. A backslash takes its escape with it, or the line end behind
it. -/
def scanString : List Char → StringToken
  | [] => .unclosed
  | ['\\'] => .unclosed
  | '\\' :: c :: rest =>
    if isNewline c then scanString rest
    else (scanString (takeEscape (c :: rest)).2).cons (takeEscape (c :: rest)).1
  | c :: rest =>
    if c == '"' then .closed [] rest
    else if isNewline c then .broken
    else (scanString rest).cons c
termination_by cs => cs.length
decreasing_by
  · simp only [List.length_cons]
    omega
  · have := length_takeEscape_le (c :: rest)
    simp only [List.length_cons] at this ⊢
    omega
  · simp only [List.length_cons]
    omega

/-! ### Pieces -/

/-- How a character may be written, where the characters of `plain` may stand as they are. -/
inductive Piece (plain : Char → Bool) : Char → List Char → Prop
  | plain {c : Char} (h : plain c = true) : Piece plain c [c]
  | codePoint {digits : List Char} (hne : digits ≠ []) (hlen : digits.length ≤ 6)
      (hdigits : ∀ d ∈ digits, Hex.isDigit d = true) :
      Piece plain (ofCodePoint (Hex.ofDigits digits)) ('\\' :: (digits ++ [' ']))
  | backslash {c : Char} (hdigit : Hex.isDigit c = false) (hline : isNewline c = false) :
      Piece plain c ['\\', c]

/-- How a text may be written: piece by piece. -/
inductive Spells (plain : Char → Bool) : List Char → List Char → Prop
  | nil : Spells plain [] []
  | cons {c : Char} {p text ps : List Char} (hp : Piece plain c p) (h : Spells plain text ps) :
      Spells plain (c :: text) (p ++ ps)

theorem isNewline_of_isDigit {c : Char} (h : Hex.isDigit c = true) : isNewline c = false := by
  rw [Bool.eq_false_iff]
  intro hline
  obtain (rfl | rfl) | rfl : (c = '\n' ∨ c = '\r') ∨ c = '\x0c' := by simpa [isNewline] using hline
  all_goals exact absurd h (by decide)

theorem takeEscape_digits {digits : List Char} (hne : digits ≠ []) (hlen : digits.length ≤ 6)
    (hdigits : ∀ d ∈ digits, Hex.isDigit d = true) (rest : List Char) :
    takeEscape (digits ++ ' ' :: rest) = (ofCodePoint (Hex.ofDigits digits), rest) := by
  have hread := Escape.codePointDigits_append hdigits hlen rest
  have hafter := Escape.afterDigits_append hdigits hlen rest
  obtain ⟨d, ds, rfl⟩ := List.exists_cons_of_ne_nil hne
  rw [List.cons_append] at hread hafter ⊢
  rw [takeEscape, if_pos (hdigits d List.mem_cons_self), hread, hafter]

theorem takeEscape_char {c : Char} (hdigit : Hex.isDigit c = false) (rest : List Char) :
    takeEscape (c :: rest) = (c, rest) := by
  rw [takeEscape, if_neg (by simp [hdigit])]

theorem beginsEscape_digits {digits : List Char} (hne : digits ≠ [])
    (hdigits : ∀ d ∈ digits, Hex.isDigit d = true) (rest : List Char) :
    beginsEscape ('\\' :: (digits ++ rest)) = true := by
  obtain ⟨d, ds, rfl⟩ := List.exists_cons_of_ne_nil hne
  have hline : isNewline d = false := isNewline_of_isDigit (hdigits d List.mem_cons_self)
  simp [beginsEscape, hline]

theorem beginsEscape_char {c : Char} (hline : isNewline c = false) (rest : List Char) :
    beginsEscape ('\\' :: c :: rest) = true := by
  simp [beginsEscape, hline]

/-! ### Scanning pieces -/

theorem scanName_escape {rest : List Char} (h : beginsEscape ('\\' :: rest) = true) :
    scanName ('\\' :: rest) =
      ((takeEscape rest).1 :: (scanName (takeEscape rest).2).1,
        (scanName (takeEscape rest).2).2) := by
  rw [scanName, if_neg (by decide), if_pos h]

theorem Piece.scanName_append {c : Char} {p : List Char} (h : Piece continuesName c p)
    (rest : List Char) : scanName (p ++ rest) = (c :: (scanName rest).1, (scanName rest).2) := by
  cases h with
  | plain h => rw [List.singleton_append, scanName, if_pos h]
  | codePoint hne hlen hdigits =>
    rw [List.cons_append, List.append_assoc, List.singleton_append,
      scanName_escape (beginsEscape_digits hne hdigits _), takeEscape_digits hne hlen hdigits]
  | backslash hdigit hline =>
    rw [List.cons_append, List.singleton_append, scanName_escape (beginsEscape_char hline rest),
      takeEscape_char hdigit]

/-- **A name of pieces is read to its end**, whatever follows. -/
theorem Spells.scanName_append {text ps : List Char} (h : Spells continuesName text ps)
    (rest : List Char) :
    scanName (ps ++ rest) = (text ++ (scanName rest).1, (scanName rest).2) := by
  induction h with
  | nil => rfl
  | cons hp _ ih => rw [List.append_assoc, hp.scanName_append, ih, List.cons_append]

/-- The characters that stand as they are between double quotes. -/
def standsInString (c : Char) : Bool :=
  ! (c == '"' || c == '\\' || isNewline c)

theorem scanString_cons {c : Char} (h : c ≠ '\\') (rest : List Char) :
    scanString (c :: rest) =
      if c == '"' then .closed [] rest
      else if isNewline c then .broken
      else (scanString rest).cons c := by
  rw [scanString]
  · exact fun hc _ => h hc
  · exact fun _ _ hc _ => h hc

theorem scanString_escape {c : Char} (hline : isNewline c = false) (rest : List Char) :
    scanString ('\\' :: c :: rest) =
      (scanString (takeEscape (c :: rest)).2).cons (takeEscape (c :: rest)).1 := by
  rw [scanString, if_neg (by simp [hline])]

theorem Piece.scanString_append {c : Char} {p : List Char} (h : Piece standsInString c p)
    (rest : List Char) : scanString (p ++ rest) = (scanString rest).cons c := by
  cases h with
  | plain h =>
    obtain ⟨⟨hquote, hbackslash⟩, hline⟩ :
        (c ≠ '"' ∧ c ≠ '\\') ∧ isNewline c = false := by simpa [standsInString] using h
    rw [List.singleton_append, scanString_cons hbackslash, if_neg (by simpa using hquote),
      if_neg (by simp [hline])]
  | @codePoint digits hne hlen hdigits =>
    have hread := takeEscape_digits hne hlen hdigits rest
    obtain ⟨d, ds, rfl⟩ := List.exists_cons_of_ne_nil hne
    have hline : isNewline d = false := isNewline_of_isDigit (hdigits d List.mem_cons_self)
    rw [List.cons_append] at hread
    rw [List.cons_append, List.append_assoc, List.singleton_append, List.cons_append,
      scanString_escape hline, hread]
  | backslash hdigit hline =>
    rw [List.cons_append, List.singleton_append, scanString_escape hline, takeEscape_char hdigit]

/-- **A string of pieces is closed by the quote behind it** and by nothing before it. -/
theorem Spells.scanString_append {text ps : List Char} (h : Spells standsInString text ps)
    (rest : List Char) : scanString (ps ++ '"' :: rest) = .closed text rest := by
  induction h with
  | nil => rw [List.nil_append, scanString_cons (by decide), if_pos (by decide)]
  | cons hp _ ih => rw [List.append_assoc, hp.scanString_append, ih, StringToken.cons]

/-! ### What is written consists of pieces -/

theorem isNameChar_eq_continuesName (c : Char) : Escape.isNameChar c = continuesName c := by
  have halphanum : c.isAlphanum = (c.isAlpha || c.isDigit) := rfl
  rw [Escape.isNameChar, continuesName, beginsName, halphanum]
  ac_rfl

theorem isControl_of_isNewline {c : Char} (h : isNewline c = true) :
    Escape.isControl c = true := by
  obtain (rfl | rfl) | rfl : (c = '\n' ∨ c = '\r') ∨ c = '\x0c' := by simpa [isNewline] using h
  all_goals decide

theorem isNewline_of_isControl {c : Char} (h : Escape.isControl c = false) :
    isNewline c = false :=
  Bool.eq_false_iff.mpr fun hline => by simp [isControl_of_isNewline hline] at h

section Written

variable {plain : Char → Bool} {c : Char}

theorem piece_codePoint (c : Char) : Piece plain (written c) (Escape.codePoint c) := by
  have h : Piece plain (ofCodePoint (Hex.ofDigits (Hex.digits c.toNat))) (Escape.codePoint c) :=
    .codePoint (Hex.digits_ne_nil _) (Escape.length_digits_toNat_le c) fun _ =>
      Hex.isDigit_of_mem_digits
  rwa [Hex.ofDigits_digits, Escape.ofCodePoint_toNat] at h

theorem piece_of_plain (hnull : c ≠ '\x00') (h : plain c = true) :
    Piece plain (written c) [c] := by
  rw [written, if_neg hnull]
  exact .plain h

theorem piece_nameChar (level : EscapeLevel) (hreplacement : plain replacement = true)
    (hplain : continuesName c = true → plain c = true) :
    Piece plain (written c) (Escape.nameChar level c) := by
  by_cases hnull : c = '\x00'
  · subst hnull
    exact .plain hreplacement
  rw [Escape.nameChar.eq_def, if_neg (by simpa using hnull)]
  split
  · exact piece_codePoint c
  · next hcontrol =>
    split
    · exact piece_codePoint c
    · split
      · next hname =>
        rw [isNameChar_eq_continuesName] at hname
        exact piece_of_plain hnull (hplain hname)
      · next hname =>
        cases level with
        | hex => exact piece_codePoint c
        | backslash =>
          have hdigit : Hex.isDigit c = false :=
            Bool.eq_false_iff.mpr fun h => hname (Escape.isNameChar_of_isDigit h)
          rw [written, if_neg hnull]
          exact .backslash hdigit (isNewline_of_isControl (by simpa using hcontrol))

/-- The characters that an identifier may have at its start, or after a hyphen at its start. -/
theorem piece_nameStartChar (level : EscapeLevel) (c : Char) :
    Piece (fun d => beginsName d || d == '-') (written c) (Escape.nameStartChar level c) := by
  rw [Escape.nameStartChar.eq_def]
  split
  · exact piece_codePoint c
  · next hdigit =>
    refine piece_nameChar level (by decide) fun hname => ?_
    simpa [continuesName, hdigit] using hname

theorem piece_stringChar (level : EscapeLevel) (c : Char) :
    Piece standsInString (written c) (Escape.stringChar level c) := by
  by_cases hnull : c = '\x00'
  · subst hnull
    exact .plain (by decide)
  rw [Escape.stringChar.eq_def, if_neg (by simpa using hnull)]
  split
  · exact piece_codePoint c
  · next hcontrol =>
    split
    · next hspecial =>
      rw [written, if_neg hnull]
      obtain rfl | rfl : c = '"' ∨ c = '\\' := by simpa using hspecial
      · exact .backslash (by decide) (by decide)
      · exact .backslash (by decide) (by decide)
    · next hspecial =>
      split
      · exact piece_codePoint c
      · have hline : isNewline c = false := isNewline_of_isControl (by simpa using hcontrol)
        refine piece_of_plain hnull ?_
        rw [standsInString, hline, Bool.or_false, Bool.not_eq_true']
        simpa using hspecial

end Written

theorem Piece.mono {plain plain' : Char → Bool} {c : Char} {p : List Char} (h : Piece plain c p)
    (hplain : ∀ c, plain c = true → plain' c = true) : Piece plain' c p := by
  cases h with
  | plain h => exact .plain (hplain c h)
  | codePoint hne hlen hdigits => exact .codePoint hne hlen hdigits
  | backslash hdigit hline => exact .backslash hdigit hline

theorem spells_flatMap {plain : Char → Bool} {write : Char → List Char}
    (h : ∀ c, Piece plain (written c) (write c)) (cs : List Char) :
    Spells plain (cs.map written) (cs.flatMap write) := by
  induction cs with
  | nil => exact .nil
  | cons c cs ih => exact .cons (h c) ih

theorem spells_name (level : EscapeLevel) (cs : List Char) :
    Spells continuesName (cs.map written) (cs.flatMap (Escape.nameChar level)) :=
  spells_flatMap (fun _ => piece_nameChar level (by decide) id) cs

theorem spells_nameStart (level : EscapeLevel) (c : Char) (cs : List Char) :
    Spells continuesName (written c :: cs.map written)
      (Escape.nameStartChar level c ++ cs.flatMap (Escape.nameChar level)) := by
  refine .cons ((piece_nameStartChar level c).mono fun d hd => ?_) (spells_name level cs)
  rw [continuesName, Bool.or_right_comm, hd, Bool.true_or]

/-- **An escaped identifier consists of characters of names and of escapes.** -/
theorem spells_identifier (level : EscapeLevel) (cs : List Char) :
    Spells continuesName (cs.map written) (Escape.identifierChars level cs) := by
  rw [Escape.identifierChars.eq_def]
  split
  · exact .nil
  · exact .cons (.backslash (by decide) (by decide)) .nil
  · next c rest => exact .cons (p := ['-']) (.plain (by decide)) (spells_nameStart level c rest)
  · next c rest _ _ => exact spells_nameStart level c rest

/-- **An escaped string has no quote, backslash or line end outside its escapes.** -/
theorem spells_string (level : EscapeLevel) (cs : List Char) :
    Spells standsInString (cs.map written) (cs.flatMap (Escape.stringChar level)) :=
  spells_flatMap (piece_stringChar level) cs

/-! ### Where an identifier begins -/

theorem Piece.beginsIdentifier_append {c : Char} {p : List Char}
    (h : Piece (fun d => beginsName d || d == '-') c p) (hc : c ≠ '-') (rest : List Char) :
    beginsIdentifier (p ++ rest) = true := by
  cases h with
  | plain h =>
    have hbegins : beginsName c = true := by simpa [hc] using h
    rw [List.singleton_append, beginsIdentifier]
    · simp [hbegins]
    · exact fun _ hcons => hc (List.cons.inj hcons).1
  | codePoint hne _ hdigits =>
    rw [List.cons_append, List.append_assoc, beginsIdentifier]
    · rw [beginsEscape_digits hne hdigits, Bool.or_true]
    · simp
  | backslash _ hline =>
    rw [List.cons_append, List.singleton_append, beginsIdentifier]
    · rw [beginsEscape_char hline, Bool.or_true]
    · simp

theorem Piece.beginsIdentifier_hyphen {c : Char} {p : List Char}
    (h : Piece (fun d => beginsName d || d == '-') c p) (rest : List Char) :
    beginsIdentifier ('-' :: (p ++ rest)) = true := by
  rw [beginsIdentifier]
  cases h with
  | plain h =>
    rw [List.singleton_append, List.head?_cons, Option.any_some, h, Bool.true_or]
  | codePoint hne _ hdigits =>
    rw [List.cons_append, List.append_assoc, beginsEscape_digits hne hdigits, Bool.or_true]
  | backslash _ hline =>
    rw [List.cons_append, List.singleton_append, beginsEscape_char hline, Bool.or_true]

theorem written_ne_hyphen {c : Char} (h : c ≠ '-') : written c ≠ '-' := by
  rw [written]
  split
  · decide
  · exact h

theorem beginsIdentifier_identifierChars (level : EscapeLevel) {cs : List Char} (hne : cs ≠ [])
    (rest : List Char) : beginsIdentifier (Escape.identifierChars level cs ++ rest) = true := by
  rw [Escape.identifierChars.eq_def]
  split
  · exact absurd rfl hne
  · rfl
  · next c _ =>
    rw [List.cons_append, List.append_assoc]
    exact (piece_nameStartChar level c).beginsIdentifier_hyphen _
  · next c cs hlone hhyphen =>
    rw [List.append_assoc]
    refine (piece_nameStartChar level c).beginsIdentifier_append (written_ne_hyphen ?_) _
    rintro rfl
    cases cs with
    | nil => exact hlone rfl rfl
    | cons d ds => exact hhyphen d ds rfl rfl

/-! ### Texts and terms -/

theorem scanString_string (level : EscapeLevel) (text : String) (rest : List Char) :
    scanString ((Escape.string level text).toList ++ '"' :: rest) =
      .closed (text.map written).toList rest := by
  rw [Escape.string, String.toList_ofList, String.toList_map]
  exact (spells_string level text.toList).scanString_append rest

/-- Between its quotes a text is a string that ends at the second of them. -/
theorem exists_quoted_eq (level : EscapeLevel) (text : String) :
    ∃ inside, (Escape.quoted level text).toList = '"' :: inside ∧
      ∀ rest, scanString (inside ++ rest) = .closed (text.map written).toList rest := by
  refine ⟨(Escape.string level text).toList ++ ['"'], by simp [Escape.quoted], fun rest => ?_⟩
  rw [List.append_assoc, List.singleton_append]
  exact scanString_string level text rest

theorem css_string (operator : Option JoinOperator) (text : String) (level : EscapeLevel) :
    Term.css ⟨operator, .string text⟩ level = operatorText operator ++ Escape.quoted level text :=
  rfl

theorem css_uri (operator : Option JoinOperator) (u : Uri) (level : EscapeLevel) :
    Term.css ⟨operator, .uri u⟩ level =
      operatorText operator ++ ("url(" ++ Escape.quoted level u.reference ++ ")") :=
  rfl

/-- **Escaped text is one token.** An escaped identifier begins as an identifier does, consists of
characters of names and of escapes, and is one name that takes nothing of what follows. An escaped
string between double quotes ends at the second quote, so that terms that hold a string or an
address end where they were written to end. -/
theorem scan_identifier_and_string (level : EscapeLevel) (text : String) :
    (text ≠ "" → ∀ rest, beginsIdentifier ((Escape.identifier level text).toList ++ rest) = true) ∧
      Spells continuesName (text.map written).toList (Escape.identifier level text).toList ∧
      (∀ rest, scanName ((Escape.identifier level text).toList ++ rest) =
        ((text.map written).toList ++ (scanName rest).1, (scanName rest).2)) ∧
      (∀ rest, scanString ((Escape.string level text).toList ++ '"' :: rest) =
        .closed (text.map written).toList rest) ∧
      (∀ operator, ∃ inside,
        (Term.css ⟨operator, .string text⟩ level).toList =
            (operatorText operator).toList ++ '"' :: inside ∧
          ∀ rest, scanString (inside ++ rest) = .closed (text.map written).toList rest) ∧
      ∀ operator base, ∃ inside,
        (Term.css ⟨operator, .uri ⟨text, base⟩⟩ level).toList =
            (operatorText operator).toList ++ "url(".toList ++ '"' :: inside ∧
          ∀ rest, scanString (inside ++ rest) =
            .closed (text.map written).toList (')' :: rest) := by
  have hspells : Spells continuesName (text.map written).toList
      (Escape.identifier level text).toList := by
    rw [Escape.identifier, String.toList_ofList, String.toList_map]
    exact spells_identifier level text.toList
  obtain ⟨inside, hquoted, hscan⟩ := exists_quoted_eq level text
  refine ⟨fun hne rest => ?_, hspells, hspells.scanName_append, scanString_string level text,
    fun operator => ⟨inside, ?_, hscan⟩, fun operator base => ⟨inside ++ [')'], ?_, fun rest => ?_⟩⟩
  · rw [Escape.identifier, String.toList_ofList]
    exact beginsIdentifier_identifierChars level (by simpa using hne) rest
  · rw [css_string, String.toList_append, hquoted]
  · rw [css_uri]
    simp [hquoted]
  · rw [List.append_assoc, List.singleton_append]
    exact hscan (')' :: rest)

/-- A digit behind a hyphen becomes a code point whose space keeps it apart from the digit that
follows, and an address may hold a quote and a bracket. -/
theorem scan_digits_and_quotes :
    "-12" ≠ "" ∧ Escape.identifier .backslash "-12" = "-\\31 2" ∧
      beginsIdentifier "-\\31 2.x".toList = true ∧
      scanName "-\\31 2.x".toList = ("-12".toList, ".x".toList) ∧
      Escape.string .backslash "a\")" = "a\\\")" ∧
      scanString "a\\\")\");".toList = .closed "a\")".toList ");".toList := by
  obtain ⟨hbegins, -, hname, -⟩ := scan_identifier_and_string .backslash "-12"
  obtain ⟨-, -, -, hstring, -⟩ := scan_identifier_and_string .backslash "a\")"
  have hidentifier : Escape.identifier .backslash "-12" = "-\\31 2" := by cbv
  have hinside : Escape.string .backslash "a\")" = "a\\\")" := by cbv
  rw [hidentifier] at hbegins hname
  rw [hinside] at hstring
  refine ⟨by decide, hidentifier, hbegins (by decide) ".x".toList, ?_, hinside, ?_⟩
  · refine (hname ".x".toList).trans ?_
    cbv
  · refine (hstring ");".toList).trans ?_
    cbv

end CssModel.Token
