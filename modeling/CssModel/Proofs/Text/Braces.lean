import CssModel.Proofs.Text.Token
import Mathlib

/-!
# Braces

A style sheet can be cut into its blocks by counting braces, as long as those in strings and in
escapes are passed over. The reader that does so is stated here on its own: it is inside a string or
not, and behind a backslash or not, and counts a brace only where it is neither.

What a text does to the reader is one of four things. Read from outside strings and escapes, a
neutral text leads back there and no brace of it counts. A quiet text has no such brace either, but
it may end in a backslash, and then takes the next character with it. In an even text braces count,
in pairs, and a contained text is even but for a backslash at its end. What is written by escaping
is neutral.

## Main definitions

* `CssModel.Braces.Mode`, `CssModel.Braces.braces`, `CssModel.Braces.depths`: reading braces
* `CssModel.Braces.ClosesOnce`: the text of one block
* `CssModel.Braces.Neutral`, `CssModel.Braces.Quiet`, `CssModel.Braces.Even`,
  `CssModel.Braces.Contained`

## Main results

* `CssModel.Braces.closesOnce_iff`: the reader in front of the last brace
* `CssModel.Braces.neutral_identifier`, `CssModel.Braces.neutral_quoted`
* `CssModel.Braces.neutral_oppositeText`: a sign that is put in front or dropped
-/

namespace CssModel.Braces

/-! ### Reading braces -/

/-- The brace that opens a block. -/
def opening : Char := '\x7b'

/-- The brace that closes a block. -/
def closing : Char := '\x7d'

def isBrace (c : Char) : Bool :=
  c == opening || c == closing

/-- Double and single quotes begin a string. -/
def isQuote (c : Char) : Bool :=
  c == '"' || c == '\x27'

/-- Where the reader is. -/
structure Mode where
  /-- The quote that began the string it is in. -/
  quote : Option Char
  /-- Whether a backslash takes the next character with it. -/
  escaped : Bool
  deriving DecidableEq

/-- Neither in a string nor in an escape. -/
def Mode.outside : Mode := ⟨none, false⟩

/-- Where the reader is behind a character. A string ends at the quote that it began with. -/
def Mode.next (m : Mode) (c : Char) : Mode :=
  if m.escaped then { m with escaped := false }
  else if c == '\\' then { m with escaped := true }
  else
    match m.quote with
    | some quote => if c == quote then .outside else m
    | none => if isQuote c then ⟨some c, false⟩ else m

/-- Where the reader is behind a text. -/
def Mode.after (m : Mode) (cs : List Char) : Mode :=
  cs.foldl Mode.next m

/-- The braces of a text that count. -/
def braces : Mode → List Char → List Char
  | _, [] => []
  | m, c :: rest =>
    if m = .outside ∧ isBrace c = true then c :: braces (m.next c) rest
    else braces (m.next c) rest

/-- The depth behind a brace. -/
def step (depth : Int) (c : Char) : Int :=
  if c = opening then depth + 1 else depth - 1

/-- The depths behind all braces, one after the other. -/
def depths : Int → List Char → List Int
  | _, [] => []
  | depth, c :: rest => step depth c :: depths (step depth c) rest

/-- The text is that of one block: it ends in a line with a closing brace, which takes the depth
back to zero, and behind all braces before the depth is above zero. -/
def ClosesOnce (text : String) : Prop :=
  ∃ before, text.toList = before ++ [closing, '\n'] ∧
    (∀ depth ∈ depths 0 (braces .outside before), 0 < depth) ∧
    depths 0 (braces .outside text.toList) = depths 0 (braces .outside before) ++ [0]

@[simp]
theorem after_append (m : Mode) (as bs : List Char) :
    m.after (as ++ bs) = (m.after as).after bs :=
  List.foldl_append

@[simp]
theorem after_cons (m : Mode) (c : Char) (cs : List Char) :
    m.after (c :: cs) = (m.next c).after cs := rfl

@[simp]
theorem after_nil (m : Mode) : m.after [] = m := rfl

@[simp]
theorem braces_append (m : Mode) (as bs : List Char) :
    braces m (as ++ bs) = braces m as ++ braces (m.after as) bs := by
  induction as generalizing m with
  | nil => rfl
  | cons c as ih =>
    rw [List.cons_append, braces, braces, after_cons, ih]
    split <;> rfl

theorem depths_append (depth : Int) (as bs : List Char) :
    depths depth (as ++ bs) = depths depth as ++ depths (as.foldl step depth) bs := by
  induction as generalizing depth with
  | nil => rfl
  | cons c as ih => rw [List.cons_append, depths, depths, ih, List.cons_append, List.foldl_cons]

/-- The last depth is the one that all braces lead to. -/
theorem foldl_step_mem_depths {as : List Char} (hne : as ≠ []) (depth : Int) :
    as.foldl step depth ∈ depths depth as := by
  induction as generalizing depth with
  | nil => exact absurd rfl hne
  | cons c as ih =>
    cases as with
    | nil => exact List.mem_cons_self
    | cons d as => exact List.mem_cons_of_mem _ (ih (List.cons_ne_nil d as) _)

/-! ### Pairs of braces -/

theorem step_opening (depth : Int) : step depth opening = depth + 1 := if_pos rfl

theorem step_closing (depth : Int) : step depth closing = depth - 1 := if_neg (by decide)

theorem step_add (depth more : Int) (c : Char) : step (depth + more) c = step depth c + more := by
  rw [step, step]
  split <;> omega

/-- From another depth the depths differ by the same amount everywhere. -/
theorem foldl_step_add (depth more : Int) (bs : List Char) :
    bs.foldl step (depth + more) = bs.foldl step depth + more := by
  induction bs generalizing depth with
  | nil => rfl
  | cons c bs ih => rw [List.foldl_cons, step_add, ih, List.foldl_cons]

theorem depths_add (depth more : Int) (bs : List Char) :
    depths (depth + more) bs = (depths depth bs).map (· + more) := by
  induction bs generalizing depth with
  | nil => rfl
  | cons c bs ih => rw [depths, step_add, ih, depths, List.map_cons]

/-- Braces in pairs: they lead back to the depth that they began at, and never below it. -/
structure Paired (bs : List Char) : Prop where
  back : bs.foldl step 0 = 0
  nonneg : ∀ depth ∈ depths 0 bs, 0 ≤ depth

theorem Paired.foldl_step {bs : List Char} (h : Paired bs) (depth : Int) :
    bs.foldl step depth = depth := by
  have hadd := foldl_step_add 0 depth bs
  rwa [h.back, zero_add] at hadd

theorem Paired.le_of_mem_depths {bs : List Char} (h : Paired bs) {depth e : Int}
    (he : e ∈ depths depth bs) : depth ≤ e := by
  have hadd := depths_add 0 depth bs
  rw [zero_add] at hadd
  rw [hadd] at he
  obtain ⟨e', he', rfl⟩ := List.mem_map.mp he
  have := h.nonneg e' he'
  omega

/-- It is enough to look at one depth. -/
theorem paired_of_depth {bs : List Char} {depth : Int} (hback : bs.foldl step depth = depth)
    (hle : ∀ e ∈ depths depth bs, depth ≤ e) : Paired bs := by
  rw [← zero_add depth, foldl_step_add] at hback
  rw [← zero_add depth, depths_add] at hle
  refine ⟨by omega, fun e he => ?_⟩
  have := hle _ (List.mem_map_of_mem he)
  omega

theorem paired_nil : Paired [] := ⟨rfl, fun _ h => nomatch h⟩

theorem Paired.append {as bs : List Char} (has : Paired as) (hbs : Paired bs) :
    Paired (as ++ bs) := by
  refine ⟨by rw [List.foldl_append, has.back, hbs.back], fun depth hdepth => ?_⟩
  rw [depths_append, has.back] at hdepth
  exact (List.mem_append.mp hdepth).elim (has.nonneg depth) (hbs.nonneg depth)

/-- One more pair around them. -/
theorem Paired.enclosed {bs : List Char} (h : Paired bs) :
    Paired (opening :: (bs ++ [closing])) := by
  constructor
  · rw [List.foldl_cons, List.foldl_append, step_opening, h.foldl_step, List.foldl_cons,
      step_closing]
    rfl
  · intro depth hdepth
    rw [depths, step_opening, depths_append, h.foldl_step, depths, step_closing] at hdepth
    rcases List.mem_cons.mp hdepth with rfl | hdepth
    · omega
    · rcases List.mem_append.mp hdepth with hdepth | hdepth
      · have := h.le_of_mem_depths hdepth
        omega
      · obtain rfl := List.mem_singleton.mp hdepth
        omega

/-! ### The last brace -/

/-- **The text is that of one block** if the reader is outside strings and escapes in front of the
last brace, at depth one, and was above zero behind every brace before. -/
theorem closesOnce_iff {text : String} {before : List Char}
    (htext : text.toList = before ++ [closing, '\n']) :
    ClosesOnce text ↔ Mode.outside.after before = .outside ∧
      (braces .outside before).foldl step 0 = 1 ∧
        ∀ depth ∈ depths 0 (braces .outside before), 0 < depth := by
  have hlast : ∀ m : Mode, braces m [closing, '\n'] = if m = .outside then [closing] else [] := by
    intro m
    have hline : braces (m.next closing) ['\n'] = [] := by
      rw [braces, if_neg (fun h => absurd h.2 (by decide)), braces]
    have hbrace : isBrace closing = true := by decide
    rw [braces, hline]
    simp [hbrace]
  constructor
  · rintro ⟨_, hbefore, hpos, hdepths⟩
    obtain rfl := List.append_cancel_right (htext.symm.trans hbefore)
    rw [htext, braces_append, depths_append, List.append_cancel_left_eq, hlast] at hdepths
    by_cases houtside : Mode.outside.after before = .outside
    · rw [if_pos houtside, depths, step_closing] at hdepths
      have hzero := (List.cons.inj hdepths).1
      exact ⟨houtside, by omega, hpos⟩
    · rw [if_neg houtside] at hdepths
      cases hdepths
  · rintro ⟨houtside, hone, hpos⟩
    refine ⟨before, htext, hpos, ?_⟩
    rw [htext, braces_append, depths_append, hlast, if_pos houtside, hone, depths, step_closing]
    rfl

/-! ### What a text does to the reader -/

/-- The reader comes out as it went in, and no brace counts. -/
structure Passes (m : Mode) (cs : List Char) : Prop where
  after : m.after cs = m
  braces : braces m cs = []

theorem passes_nil (m : Mode) : Passes m [] := ⟨rfl, rfl⟩

theorem Passes.append {m : Mode} {as bs : List Char} (has : Passes m as) (hbs : Passes m bs) :
    Passes m (as ++ bs) where
  after := by rw [after_append, has.after, hbs.after]
  braces := by rw [braces_append, has.braces, has.after, hbs.braces]; rfl

/-- The reader is where it was, and no brace counts. -/
def Neutral (text : String) : Prop := Passes .outside text.toList

/-- No brace counts and every string is closed. The text may end in a backslash. -/
structure Quiet (text : String) : Prop where
  quote : (Mode.outside.after text.toList).quote = none
  braces : braces .outside text.toList = []

/-- The reader is where it was, and the braces are in pairs. -/
structure Even (text : String) : Prop where
  after : Mode.outside.after text.toList = .outside
  braces : Paired (braces .outside text.toList)

/-- The braces are in pairs and every string is closed. The text may end in a backslash. -/
structure Contained (text : String) : Prop where
  quote : (Mode.outside.after text.toList).quote = none
  braces : Paired (braces .outside text.toList)

theorem Neutral.quiet {text : String} (h : Neutral text) : Quiet text :=
  ⟨by rw [h.after]; rfl, h.braces⟩

theorem Neutral.even {text : String} (h : Neutral text) : Even text :=
  ⟨h.after, by rw [h.braces]; exact paired_nil⟩

theorem Quiet.contained {text : String} (h : Quiet text) : Contained text :=
  ⟨h.quote, by rw [h.braces]; exact paired_nil⟩

theorem Neutral.append {a b : String} (ha : Neutral a) (hb : Neutral b) : Neutral (a ++ b) := by
  rw [Neutral, String.toList_append]
  exact Passes.append ha hb

theorem Neutral.append_quiet {a b : String} (ha : Neutral a) (hb : Quiet b) : Quiet (a ++ b) where
  quote := by rw [String.toList_append, after_append, ha.after, hb.quote]
  braces := by rw [String.toList_append, braces_append, ha.braces, ha.after, hb.braces]; rfl

theorem Even.append {a b : String} (ha : Even a) (hb : Even b) : Even (a ++ b) where
  after := by rw [String.toList_append, after_append, ha.after, hb.after]
  braces := by
    rw [String.toList_append, braces_append, ha.after]
    exact ha.braces.append hb.braces

/-- Texts with paired braces, one after the other. -/
theorem even_join {texts : List String} (h : ∀ text ∈ texts, Even text) :
    Even (String.join texts) := by
  induction texts with
  | nil => exact ⟨rfl, paired_nil⟩
  | cons text texts ih =>
    obtain ⟨htext, htexts⟩ := List.forall_mem_cons.mp h
    rw [String.join_cons]
    exact htext.append (ih htexts)

/-! ### Characters without an effect -/

/-- No brace, no quote and no backslash. -/
def isHarmless (c : Char) : Bool :=
  ! (isBrace c || isQuote c || c == '\\')

/-- A text that has no means to change the structure. -/
def Harmless (text : String) : Prop :=
  ∀ c ∈ text.toList, isHarmless c = true

theorem isHarmless_iff {c : Char} :
    isHarmless c = true ↔ isBrace c = false ∧ isQuote c = false ∧ c ≠ '\\' := by
  simp [isHarmless, and_assoc]

/-- Characters of a sort that has none of the five that matter. -/
theorem isHarmless_of {p : Char → Bool}
    (h : [opening, closing, '"', '\x27', '\\'].any p = false) {c : Char} (hc : p c = true) :
    isHarmless c = true := by
  by_contra hharmless
  have hmem : c ∈ [opening, closing, '"', '\x27', '\\'] := by
    rw [Bool.not_eq_true, isHarmless, Bool.not_eq_false'] at hharmless
    simpa [isBrace, isQuote, or_assoc] using hharmless
  rw [List.any_eq_true.mpr ⟨c, hmem, hc⟩] at h
  cases h

/-- Strings begin with quotes, so that no other character ends them. -/
def Mode.Sound (m : Mode) : Prop :=
  ∀ quote ∈ m.quote, isQuote quote = true

theorem sound_outside : Mode.outside.Sound := fun _ hquote => nomatch hquote

theorem Mode.Sound.next {m : Mode} (h : m.Sound) (c : Char) : (m.next c).Sound := by
  rw [Mode.next]
  split
  · exact h
  · split
    · exact h
    · split
      · split
        · exact sound_outside
        · exact h
      · split
        · next hc =>
          rintro _ ⟨⟩
          exact hc
        · exact h

theorem sound_after (cs : List Char) : (Mode.outside.after cs).Sound := by
  have hall : ∀ m : Mode, m.Sound → (m.after cs).Sound := by
    induction cs with
    | nil => exact fun _ h => h
    | cons c cs ih => exact fun m h => ih _ (h.next c)
  exact hall _ sound_outside

/-- A character that is neither a quote nor a backslash does no more than to be taken by a backslash
in front of it. -/
theorem Mode.Sound.next_of_plain {m : Mode} (h : m.Sound) {c : Char} (hquote : isQuote c = false)
    (hbackslash : c ≠ '\\') : m.next c = { m with escaped := false } := by
  obtain ⟨quote, escaped⟩ := m
  cases escaped with
  | true => rfl
  | false =>
    rw [Mode.next, if_neg Bool.false_ne_true, if_neg (by simpa using hbackslash)]
    cases quote with
    | none => exact if_neg (by simp [hquote])
    | some quote =>
      have hne : c ≠ quote := by
        rintro rfl
        rw [h c rfl] at hquote
        cases hquote
      exact if_neg (by simpa using hne)

/-- Such characters open and close no string. -/
theorem Mode.Sound.quote_after {m : Mode} (h : m.Sound) {cs : List Char}
    (hcs : ∀ c ∈ cs, isQuote c = false ∧ c ≠ '\\') : (m.after cs).quote = m.quote := by
  induction cs generalizing m with
  | nil => rfl
  | cons c cs ih =>
    obtain ⟨⟨hquote, hbackslash⟩, hcs⟩ := List.forall_mem_cons.mp hcs
    rw [after_cons, ih (h.next c) hcs, h.next_of_plain hquote hbackslash]

/-- Outside strings a character must be no brace; inside no brace counts. -/
theorem passes_singleton {m : Mode} {c : Char} (hnext : m.next c = m)
    (hbrace : m = .outside → isBrace c = false) : Passes m [c] := by
  refine ⟨hnext, ?_⟩
  rw [braces, if_neg ?_, braces]
  rintro ⟨houtside, hc⟩
  rw [hbrace houtside] at hc
  cases hc

theorem passes_of_forall {m : Mode} {cs : List Char} (h : ∀ c ∈ cs, Passes m [c]) :
    Passes m cs := by
  induction cs with
  | nil => exact passes_nil m
  | cons c cs ih =>
    obtain ⟨hc, hcs⟩ := List.forall_mem_cons.mp h
    exact hc.append (ih hcs)

theorem Mode.Sound.passes {m : Mode} (h : m.Sound) (hescaped : m.escaped = false) {c : Char}
    (hc : isHarmless c = true) : Passes m [c] := by
  obtain ⟨hbrace, hquote, hbackslash⟩ := isHarmless_iff.mp hc
  refine passes_singleton ?_ fun _ => hbrace
  rw [h.next_of_plain hquote hbackslash, ← hescaped]

theorem Harmless.neutral {text : String} (h : Harmless text) : Neutral text :=
  passes_of_forall fun c hc => sound_outside.passes rfl (h c hc)

/-- Between strings a harmless text takes the reader out of an escape, unless it is empty. -/
theorem Harmless.leaves_escape {m : Mode} (hquote : m.quote = none) {text : String}
    (h : Harmless text) (hne : text ≠ "") :
    m.after text.toList = .outside ∧ Braces.braces m text.toList = [] := by
  obtain ⟨c, cs, hcs⟩ :=
    List.exists_cons_of_ne_nil (fun hnil => hne (String.toList_eq_nil_iff.mp hnil))
  rw [Harmless, hcs] at h
  obtain ⟨hc, hrest⟩ := List.forall_mem_cons.mp h
  obtain ⟨hbrace, hplain, hbackslash⟩ := isHarmless_iff.mp hc
  have hsound : m.Sound := by
    intro quote hmem
    rw [hquote] at hmem
    cases hmem
  have hnext : m.next c = .outside := by
    rw [hsound.next_of_plain hplain hbackslash, hquote]
    rfl
  have hpasses : Passes .outside cs :=
    passes_of_forall fun d hd => sound_outside.passes rfl (hrest d hd)
  rw [hcs, after_cons, braces, if_neg (by simp [hbrace]), hnext]
  exact ⟨hpasses.after, hpasses.braces⟩

/-- Whatever a backslash at the end of a quiet text takes, it is not what matters. -/
theorem Quiet.append_harmless {a b : String} (ha : Quiet a) (hb : Harmless b) (hne : b ≠ "") :
    Neutral (a ++ b) := by
  obtain ⟨hafter, hbraces⟩ := hb.leaves_escape ha.quote hne
  rw [Neutral, String.toList_append]
  exact ⟨by rw [after_append, hafter], by rw [braces_append, ha.braces, hbraces]; rfl⟩

theorem Contained.append_harmless {a b : String} (ha : Contained a) (hb : Harmless b)
    (hne : b ≠ "") : Even (a ++ b) := by
  obtain ⟨hafter, hbraces⟩ := hb.leaves_escape ha.quote hne
  constructor
  · rw [String.toList_append, after_append, hafter]
  · rw [String.toList_append, braces_append, hbraces, List.append_nil]
    exact ha.braces

/-! ### Escaped texts -/

section Escaped

open Token (Piece Spells continuesName standsInString)

variable {m : Mode} {plain : Char → Bool}

/-- A backslash takes the next character with it. -/
theorem passes_escape (hescaped : m.escaped = false) (c : Char) : Passes m ['\\', c] := by
  have hbackslash : m.next '\\' = { m with escaped := true } := by
    rw [Mode.next, hescaped]
    rfl
  have hne : m.next '\\' ≠ .outside := by
    rw [hbackslash]
    exact fun h => nomatch congrArg Mode.escaped h
  constructor
  · rw [after_cons, after_cons, hbackslash, after_nil]
    show { m with escaped := false } = m
    rw [← hescaped]
  · rw [braces, if_neg (fun h => absurd h.2 (by decide)), braces, if_neg (fun h => hne h.1), braces]

/-- A piece passes if the characters that stand as they are do. The digits of a code point do. -/
theorem passes_piece (hsound : m.Sound) (hescaped : m.escaped = false)
    (hplain : ∀ c, plain c = true → Passes m [c]) {c : Char} {p : List Char}
    (h : Piece plain c p) : Passes m p := by
  rcases h with hc | ⟨hne, hlen, hdigits⟩ | ⟨hdigit, hline⟩
  · exact hplain c hc
  · next digits =>
    have hharmless : ∀ d ∈ digits, isHarmless d = true := fun d hd =>
      isHarmless_of (by decide) (hdigits d hd)
    obtain ⟨d, ds, rfl⟩ := List.exists_cons_of_ne_nil hne
    have hrest : Passes m (ds ++ [' ']) := by
      refine passes_of_forall fun d hd => hsound.passes hescaped ?_
      rcases List.mem_append.mp hd with hd | hd
      · exact hharmless d (List.mem_cons_of_mem _ hd)
      · rw [List.mem_singleton.mp hd]
        decide
    exact (passes_escape hescaped d).append hrest
  · exact passes_escape hescaped c

theorem passes_spells (hsound : m.Sound) (hescaped : m.escaped = false)
    (hplain : ∀ c, plain c = true → Passes m [c]) {text ps : List Char}
    (h : Spells plain text ps) : Passes m ps := by
  induction h with
  | nil => exact passes_nil m
  | cons hp _ ih => exact (passes_piece hsound hescaped hplain hp).append ih

/-- **An escaped identifier leaves the reader where it was**, whatever the text is. -/
theorem neutral_identifier (level : EscapeLevel) (text : String) :
    Neutral (Escape.identifier level text) := by
  rw [Neutral, Escape.identifier, String.toList_ofList]
  refine passes_spells sound_outside rfl (fun c hc => ?_)
    (Token.spells_identifier level text.toList)
  exact sound_outside.passes rfl (isHarmless_of (p := continuesName) (by decide) hc)

/-- **Nothing in an escaped string ends it** before its closing quote. -/
theorem neutral_quoted (level : EscapeLevel) (text : String) :
    Neutral (Escape.quoted level text) := by
  let inString : Mode := ⟨some '"', false⟩
  have hsound : inString.Sound := by
    rintro _ ⟨⟩
    rfl
  have hinside : Passes inString (text.toList.flatMap (Escape.stringChar level)) := by
    refine passes_spells hsound rfl (fun c hc => ?_) (Token.spells_string level text.toList)
    obtain ⟨⟨hquote, hbackslash⟩, -⟩ :
        (c ≠ '"' ∧ c ≠ '\\') ∧ Token.isNewline c = false := by simpa [standsInString] using hc
    have hne : inString ≠ .outside := by decide
    refine passes_singleton ?_ fun h => absurd h hne
    simp [inString, Mode.next, hquote, hbackslash]
  have htext : (Escape.quoted level text).toList =
      '"' :: (text.toList.flatMap (Escape.stringChar level) ++ ['"']) := by
    simp [Escape.quoted, Escape.string]
  have hopen : Mode.outside.next '"' = inString := rfl
  have hclose : inString.next '"' = .outside := rfl
  rw [Neutral, htext]
  constructor
  · rw [after_cons, hopen, after_append, hinside.after, after_cons, hclose, after_nil]
  · rw [braces, if_neg (fun h => absurd h.2 (by decide)), hopen, braces_append, hinside.braces,
      hinside.after, braces, if_neg (fun h => absurd h.2 (by decide)), braces]
    rfl

end Escaped

/-- A sign in front is harmless, and so it may be dropped. -/
theorem neutral_oppositeText {text : String} (h : Neutral text) : Neutral (oppositeText text) := by
  have hsign : Harmless "-" := by
    rintro _ ⟨⟩
    · rfl
    · contradiction
  rw [oppositeText]
  split
  · next rest htext =>
    rw [Neutral, String.toList_ofList]
    rw [Neutral, htext] at h
    exact ⟨h.after, h.braces⟩
  · exact hsign.neutral.append h

end CssModel.Braces
