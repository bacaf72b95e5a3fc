import CssModel.Proofs.Term.NumericText
import CssModel.Proofs.Text.Braces
import CssModel.Term.Printer
import Mathlib

/-!
# Texts that are written as they are

A value is written from escaped texts, from numbers and words, and from texts that were given and
are not escaped: the ranges of code points. So whatever is true of escaped texts and of plain words,
and is kept when texts are put together, is true of the text of a value, if it is true of the raw
texts in it, however deep they are.

An expression is the one value whose text is not put together from left to right. Its operands pass
through the stack of an evaluator, which may fail half-way, and a sign in front of an operand may
vanish.

## Main definitions

* `CssModel.KeptByJoining`, `CssModel.KeptByWriting`: the properties of texts in question
* `CssModel.Value.rawTexts`, `CssModel.termsRawTexts`: the raw texts of terms

## Main results

* `CssModel.KeptByWriting.value`, `CssModel.KeptByWriting.terms`, `CssModel.KeptByWriting.arguments`
-/

namespace CssModel

/-- The printable characters of ASCII, except for those that matter to the structure. -/
def isInert (c : Char) : Bool :=
  ' ' ≤ c && c ≤ '~' && Braces.isHarmless c

/-- A property that texts of inert characters have, and that is kept when texts are put together and
when a sign is put in front or dropped. -/
structure KeptByJoining (P : String → Prop) : Prop where
  inert : ∀ {text : String}, text.toList.all isInert = true → P text
  append : ∀ {a b : String}, P a → P b → P (a ++ b)
  opposite : ∀ {text : String}, P text → P (oppositeText text)

/-- A property of this kind that escaped texts have. -/
structure KeptByWriting (P : String → Prop) : Prop extends KeptByJoining P where
  identifier : ∀ text, P (Escape.identifier .backslash text)
  quoted : ∀ text, P (Escape.quoted .backslash text)

/-- The text of an operand has a property, alone and inside an expression. -/
structure Written.Has (P : String → Prop) (w : Written) : Prop where
  alone : P w.alone
  inside : ∀ text, w.inside = .ok text → P text

theorem Written.has_plain {P : String → Prop} {text : String} (h : P text) :
    (Written.plain text).Has P := by
  refine ⟨h, ?_⟩
  rintro _ ⟨⟩
  exact h

/-! ### Raw texts -/

mutual

/-- The texts in a value that are written as they are. -/
def Value.rawTexts : Value → List String
  | .call ⟨_, args, _⟩ => termsRawTexts args
  | .list terms => termsRawTexts terms
  | .pair _ ⟨_, v⟩ => v.rawTexts
  | .unicodeRange text => [text]
  | .calc ⟨items, _, _, _⟩ => entryRawTexts items
  | _ => []

def termsRawTexts : List (Joined Value) → List String
  | [] => []
  | ⟨_, v⟩ :: rest => v.rawTexts ++ termsRawTexts rest

def entryRawTexts : List (ExpressionItem (Joined Value)) → List String
  | [] => []
  | .operand ⟨_, v⟩ :: rest => v.rawTexts ++ entryRawTexts rest
  | .operator _ :: rest => entryRawTexts rest

end

theorem termsRawTexts_eq_flatMap (ts : List Term) :
    termsRawTexts ts = ts.flatMap fun t => t.value.rawTexts := by
  induction ts with
  | nil => rfl
  | cons t ts ih => rw [termsRawTexts, ih, List.flatMap_cons]

/-! ### Words and numbers -/

theorem isInert_of_isNumeral {c : Char} (h : Number.isNumeral c = true) : isInert c = true := by
  rw [isInert, Braces.isHarmless_of (by decide) h]
  rcases (Bool.or_eq_true _ _).mp h with hdigit | hpoint
  · have hbounds : c.isDigit = (decide ('0' ≤ c) && decide (c ≤ '9')) := rfl
    rw [hbounds] at hdigit
    grind [Char.le_def]
  · obtain rfl : c = '.' := by simpa using hpoint
    decide

theorem isInert_digit : ∀ n < 16, isInert (Hex.digit n) = true := by
  decide

theorem all_isInert_padded (width n : Nat) : (Hex.padded width n).all isInert = true := by
  induction width generalizing n with
  | zero => rfl
  | succ width ih =>
    rw [Hex.padded, List.all_append, ih, List.all_cons, isInert_digit _ (Nat.mod_lt n (by decide))]
    rfl

theorem Number.Denotes.all_isInert {cs : List Char} {u : Float.Model.UnpackedFloat}
    (h : Denotes cs u) : cs.all isInert = true := by
  rcases h with _ | _ | _ | ⟨-, hnumeral, -, -⟩
  · decide
  · decide
  · decide
  · exact List.all_eq_true.mpr fun c hc => isInert_of_isNumeral (hnumeral c hc)

theorem Numeric.all_isInert_text (n : Numeric) : n.text.toList.all isInert = true := by
  have hsuffix : n.suffix.toList.all isInert = true := by
    obtain ⟨h, -⟩ | ⟨-, ⟨h, -⟩ | ⟨unit, h, -⟩⟩ := n.suffix_cases
    · rw [h]
      decide
    · rw [h]
      decide
    · rw [h]
      cases unit <;> decide
  have hunsigned : n.unsigned.all isInert = true := by
    rw [unsigned, List.all_append, n.denotes.all_isInert, hsuffix]
    rfl
  rw [toList_text]
  cases n.isNegative with
  | false => exact hunsigned
  | true => rw [signed, cond_true, List.all_cons, hunsigned]; decide

theorem ColorValue.all_isInert_text (v : ColorValue) : v.text.toList.all isInert = true := by
  rw [text]
  split
  · next keyword _ => cases keyword <;> decide
  · rw [Color.hex, String.toList_ofList, List.all_cons]
    split <;> simp [Color.channelHex, all_isInert_padded] <;> decide

/-! ### Runs without a state -/

section Runs

variable {ε α β : Type} {x : ExceptT ε Id α}

/-- What comes to a value has done so in both parts. -/
theorem exists_of_run_bind {f : α → ExceptT ε Id β} {b : β}
    (h : (x >>= f).run.run = .ok b) : ∃ a, x.run.run = .ok a ∧ (f a).run.run = .ok b := by
  rw [ExceptT.run_bind, Id.run_bind] at h
  cases hx : x.run.run with
  | error e =>
    rw [hx] at h
    cases h
  | ok a =>
    rw [hx] at h
    exact ⟨a, rfl, h⟩

theorem run_eq_ok_of_adapt {ε' : Type} {wrap : ε → ε'} {a : α}
    (h : (ExceptT.adapt wrap x).run.run = .ok a) : x.run.run = .ok a := by
  have hadapt : (ExceptT.adapt wrap x).run.run = x.run.run.mapError wrap := rfl
  rw [hadapt] at h
  cases hx : x.run.run with
  | error e =>
    rw [hx] at h
    cases h
  | ok b =>
    rw [hx] at h
    cases h
    rfl

end Runs

/-! ### Texts put together -/

namespace KeptByJoining

variable {P : String → Prop}

theorem empty (h : KeptByJoining P) : P "" := h.inert rfl

theorem join (h : KeptByJoining P) {texts : List String} (htexts : ∀ text ∈ texts, P text) :
    P (String.join texts) := by
  induction texts with
  | nil => exact h.empty
  | cons text texts ih =>
    obtain ⟨htext, hrest⟩ := List.forall_mem_cons.mp htexts
    rw [String.join_cons]
    exact h.append htext (ih hrest)

theorem intercalate (h : KeptByJoining P) {separator : String} (hseparator : P separator)
    {texts : List String} (htexts : ∀ text ∈ texts, P text) :
    P (separator.intercalate texts) := by
  induction texts with
  | nil =>
    rw [String.intercalate_nil]
    exact h.empty
  | cons text texts ih =>
    obtain ⟨htext, hrest⟩ := List.forall_mem_cons.mp htexts
    cases texts with
    | nil =>
      rw [String.intercalate_singleton]
      exact htext
    | cons next rest =>
      rw [String.intercalate_cons_cons]
      exact h.append (h.append htext hseparator) (ih hrest)

theorem operator (h : KeptByJoining P) (op : Option JoinOperator) : P (operatorText op) := by
  cases op with
  | none => exact h.empty
  | some op => cases op <;> exact h.inert (by decide)

theorem mathOperator (h : KeptByJoining P) (op : MathOperator) : P op.text := by
  cases op <;> exact h.inert (by decide)

theorem rectangle (h : KeptByJoining P) (r : Rectangle) : P r.text := by
  refine h.append (h.append (h.inert (by decide)) (h.intercalate (h.inert (by decide)) ?_))
    (h.inert (by decide))
  intro text htext
  obtain ⟨edge, -, rfl⟩ := List.mem_map.mp htext
  cases edge with
  | none => exact h.inert (by decide)
  | some n => exact h.inert n.all_isInert_text

/-! ### Expressions -/

theorem bracketed (h : KeptByJoining P) (op : MathOperator) {left right : String} (hleft : P left)
    (hright : P right) : P (bracketed op left right) := by
  have hspace : P " " := h.inert (by decide)
  have hword : P ("(" ++ left ++ " " ++ op.text ++ " " ++ right) :=
    h.append (h.append (h.append (h.append (h.append (h.inert (by decide)) hleft) hspace)
      (h.mathOperator op)) hspace) hright
  exact h.append hword (h.inert (by decide))

section Evaluation

variable {τ : Type} {argument : τ → Except EvaluationError String}

/-- An entry of an expression keeps the property of all texts on the stack. -/
theorem step (h : KeptByJoining P) {stack next : List String} {item : ExpressionItem τ}
    (hitem : ∀ t, item = .operand t → ∀ text, argument t = .ok text → P text)
    (hstack : ∀ text ∈ stack, P text)
    (hstep : ((textEvaluatorOf argument).step stack item).run.run = .ok next) :
    ∀ text ∈ next, P text := by
  cases item with
  | operand t =>
    obtain ⟨text, htext, hnext⟩ := exists_of_run_bind hstep
    cases hnext
    exact List.forall_mem_cons.mpr ⟨hitem t rfl text htext, hstack⟩
  | operator op =>
    rw [Evaluator.step.eq_def] at hstep
    by_cases hunary : op.isUnary = true
    · simp only [hunary, if_true] at hstep
      cases stack with
      | nil => cases hstep
      | cons value rest =>
        obtain ⟨hvalue, hrest⟩ := List.forall_mem_cons.mp hstack
        obtain ⟨text, htext, hnext⟩ := exists_of_run_bind hstep
        cases hnext
        refine List.forall_mem_cons.mpr ⟨?_, hrest⟩
        cases op with
        | negate =>
          cases htext
          exact h.opposite hvalue
        | add | subtract | multiply | divide => cases hunary
    · simp only [hunary] at hstep
      rcases stack with _ | ⟨right, _ | ⟨left, rest⟩⟩
      · cases hstep
      · cases hstep
      · obtain ⟨hright, hleft, hrest⟩ : P right ∧ P left ∧ ∀ text ∈ rest, P text := by
          simpa only [List.forall_mem_cons] using hstack
        obtain ⟨text, htext, hnext⟩ := exists_of_run_bind hstep
        cases hnext
        cases htext
        exact List.forall_mem_cons.mpr ⟨h.bracketed op hleft hright, hrest⟩

theorem runFrom (h : KeptByJoining P) {items : List (ExpressionItem τ)}
    (hitems : ∀ t, .operand t ∈ items → ∀ text, argument t = .ok text → P text)
    {stack last : List String} (hstack : ∀ text ∈ stack, P text)
    (hrun : ((textEvaluatorOf argument).runFrom stack items).run.run = .ok last) :
    ∀ text ∈ last, P text := by
  induction items generalizing stack with
  | nil =>
    cases hrun
    exact hstack
  | cons item items ih =>
    obtain ⟨next, hstep, hrest⟩ := exists_of_run_bind hrun
    have hnext := h.step (fun t ht => hitems t (ht ▸ List.mem_cons_self)) hstack hstep
    exact ih (fun t ht => hitems t (List.mem_cons_of_mem _ ht)) hnext hrest

/-- **The text of an expression has the property if those of its operands have.** -/
theorem evaluate (h : KeptByJoining P) {e : Expression τ}
    (hitems : ∀ t, .operand t ∈ e.items → ∀ text, argument t = .ok text → P text) {text : String}
    (hevaluate : (e.evaluate (textEvaluatorOf argument)).run.run = .ok text) : P text := by
  rw [Expression.evaluate] at hevaluate
  split at hevaluate
  · obtain ⟨last, hrun, hlast⟩ := exists_of_run_bind (run_eq_ok_of_adapt hevaluate)
    have hall := h.runFrom hitems (List.forall_mem_nil P) hrun
    cases last with
    | nil => cases hlast
    | cons value rest =>
      cases hlast
      exact hall text List.mem_cons_self
  · cases hevaluate

end Evaluation

theorem itemText (h : KeptByJoining P) {item : ExpressionItem Written}
    (hitem : ∀ w, item = .operand w → w.Has P) : P (Expression.itemText item) := by
  cases item with
  | operand w => exact (hitem w rfl).alone
  | operator op => exact h.mathOperator op

/-- An expression that has no text in brackets is written entry by entry. -/
theorem written (h : KeptByJoining P) {e : Expression Written}
    (hitems : ∀ w, .operand w ∈ e.items → w.Has P) : e.written.Has P := by
  have htext : ∀ text, (e.evaluate (textEvaluatorOf Written.inside)).run.run = .ok text → P text :=
    fun text => h.evaluate fun w hw => (hitems w hw).inside
  have hword : P "calc" := h.inert (by decide)
  have hopen : P "calc(" := h.inert (by decide)
  have hclose : P ")" := h.inert (by decide)
  rw [Expression.written]
  refine ⟨?_, fun text hinside => htext text (run_eq_ok_of_adapt hinside)⟩
  split
  · next text hrun =>
    split
    · exact h.append hword (htext text hrun)
    · exact h.append (h.append hopen (htext text hrun)) hclose
  · refine h.append (h.append hopen (h.intercalate (h.inert (by decide)) ?_)) hclose
    intro text hmem
    obtain ⟨item, hitem, rfl⟩ := List.mem_map.mp hmem
    exact h.itemText fun w hw => hitems w (hw ▸ hitem)

end KeptByJoining

/-! ### Values -/

section Values

variable {P : String → Prop}

theorem KeptByWriting.brackets (h : KeptByWriting P) (names : List String) :
    P (bracketsText .backslash names) := by
  refine h.append (h.append (h.inert (by decide)) (h.intercalate (h.inert (by decide)) ?_))
    (h.inert (by decide))
  intro text htext
  obtain ⟨name, -, rfl⟩ := List.mem_map.mp htext
  exact h.identifier name

mutual

/-- **The text of a value has the property if the raw texts in it have.** -/
theorem KeptByWriting.value (h : KeptByWriting P) :
    ∀ v : Value, (∀ text ∈ v.rawTexts, P text) → (v.written .backslash).Has P
  | .numeric n, _ => Written.has_plain (h.inert n.all_isInert_text)
  | .color c, _ => Written.has_plain (h.inert c.all_isInert_text)
  | .string text, _ => Written.has_plain (h.quoted text)
  | .ident name, _ => Written.has_plain (h.identifier name)
  | .uri u, _ => Written.has_plain
      (h.append (h.append (h.inert (by decide)) (h.quoted u.reference)) (h.inert (by decide)))
  | .call ⟨name, args, _⟩, hraw => by
    have hargs : P (argumentsCss .backslash args) :=
      h.arguments args (by simpa only [Value.rawTexts] using hraw)
    exact Written.has_plain (h.append (h.append (h.append (h.identifier name)
      (h.inert (by decide))) hargs) (h.inert (by decide)))
  | .list terms, hraw =>
    Written.has_plain (h.terms terms (by simpa only [Value.rawTexts] using hraw))
  | .rect r, _ => Written.has_plain (h.rectangle r)
  | .pair key ⟨op, v⟩, hraw => by
    have hv := (h.value v (by simpa only [Value.rawTexts] using hraw)).alone
    exact Written.has_plain (h.append (h.append (h.append (h.identifier key)
      (h.inert (by decide))) (h.operator op)) hv)
  | .unicodeRange text, hraw => Written.has_plain (hraw text (by simp [Value.rawTexts]))
  | .brackets names, _ => Written.has_plain (h.brackets names)
  | .calc ⟨items, _, _, _⟩, hraw =>
    h.written (h.entries items (by simpa only [Value.rawTexts] using hraw))
  | .delimiter d, _ => Written.has_plain (h.inert (by cases d <;> decide))

theorem KeptByWriting.terms (h : KeptByWriting P) :
    ∀ ts : List (Joined Value), (∀ text ∈ termsRawTexts ts, P text) → P (termsCss .backslash ts)
  | [], _ => h.empty
  | ⟨op, v⟩ :: rest, hraw => by
    rw [termsRawTexts, List.forall_mem_append] at hraw
    exact h.append (h.append (h.operator op) (h.value v hraw.1).alone) (h.terms rest hraw.2)

theorem KeptByWriting.arguments (h : KeptByWriting P) :
    ∀ ts : List (Joined Value), (∀ text ∈ termsRawTexts ts, P text) →
      P (argumentsCss .backslash ts)
  | [], _ => h.empty
  | ⟨_, v⟩ :: rest, hraw => by
    rw [termsRawTexts, List.forall_mem_append] at hraw
    exact h.append (h.value v hraw.1).alone (h.terms rest hraw.2)

/-- The operands of an expression; a nested one is written without the word in front. -/
theorem KeptByWriting.entries (h : KeptByWriting P) :
    ∀ items : List (ExpressionItem (Joined Value)), (∀ text ∈ entryRawTexts items, P text) →
      ∀ w, .operand w ∈ writtenItems items → w.Has P
  | [], _ => fun _ hw => nomatch hw
  | .operand ⟨op, v⟩ :: rest, hraw => by
    rw [entryRawTexts, List.forall_mem_append] at hraw
    have hv := h.value v hraw.1
    have hfront := h.append (h.operator op) hv.alone
    intro w hw
    rw [writtenItems] at hw
    rcases List.mem_cons.mp hw with hfirst | hw
    · cases hfirst
      refine ⟨hfront, fun text hinside => ?_⟩
      dsimp only at hinside
      split at hinside
      · exact hv.inside text hinside
      · cases hinside
        exact hfront
    · exact h.entries rest hraw.2 w hw
  | .operator _ :: rest, hraw => by
    intro w hw
    rw [writtenItems] at hw
    rcases List.mem_cons.mp hw with hfirst | hw
    · cases hfirst
    · exact h.entries rest (by simpa only [entryRawTexts] using hraw) w hw

end

end Values

end CssModel
