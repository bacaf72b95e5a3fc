import CssModel.Proofs.Rule.Edits
import CssModel.Rule.Sheet

/-!
# Where rules belong

Each rule of a style sheet holds a link to the sheet, and so does each style rule in a media rule.
The link repeats the number and the origin of the sheet, so it has to be written anew whenever a
rule enters, leaves or moves to another level, and in all rules when the origin changes.

A run is any sequence of calls: edits of the sheet, changes of its origin, and edits of a media rule
that is reached in place. Calls may fail, and what they bring may be linked to anything before. The
invariant `Linked` is about the rules in the sheet alone; that what is handed back belongs to no
sheet is a fact about each single call.

## Main definitions

* `CssModel.Rule.BelongsTo`, `CssModel.StyleSheet.Linked`
* `CssModel.StyleSheet.Call`, `CssModel.StyleSheet.call`, `CssModel.StyleSheet.run`

## Main results

* `CssModel.Rule.belongsTo_withLink`
* `CssModel.StyleSheet.Linked.call`: one call keeps the links right
* `CssModel.StyleSheet.linked_run_make`: so does every run
-/

namespace CssModel

namespace Rule

/-- The style rules in a rule. -/
def styleRules : Rule → List StyleRule
  | .media r => r.items
  | _ => []

/-- The rule and all style rules in it are linked to the same sheet, or to none. -/
def BelongsTo (link : Option SheetLink) (r : Rule) : Prop :=
  r.link = link ∧ ∀ inner ∈ r.styleRules, inner.header.link = link

/-- Linking reaches every level, whatever the rule and the rules in it were linked to before. -/
theorem belongsTo_withLink (link : Option SheetLink) (r : Rule) :
    (r.withLink link).BelongsTo link := by
  cases r with
  | media r =>
    refine ⟨rfl, fun inner hinner => ?_⟩
    obtain ⟨old, -, rfl⟩ := List.mem_map.mp hinner
    rfl
  | style | keyframes | fontFace | page | viewport =>
    exact ⟨rfl, fun _ h => absurd h List.not_mem_nil⟩

theorem belongsTo_style_iff {link : Option SheetLink} {r : StyleRule} :
    (Rule.style r).BelongsTo link ↔ r.header.link = link :=
  ⟨And.left, fun h => ⟨h, fun _ hinner => absurd hinner List.not_mem_nil⟩⟩

end Rule

namespace StyleSheet

/-- Every rule in the sheet belongs to the sheet. -/
def Linked (s : StyleSheet) : Prop :=
  ∀ r ∈ s.items, r.BelongsTo (some s.link)

/-! ### Calls -/

/-- A call on a style sheet. -/
inductive Call
  | edit (e : Edit Rule)
  | setOrigin (origin : Origin)
  /-- An edit of the media rule at an index, which is reached in place. -/
  | editMedia (index : Nat) (e : Edit StyleRule)

/-- What a call gives, and the sheet after it. At an index without a media rule there is nothing to
edit. -/
def call (s : StyleSheet) : Call → Except Failure (Option Rule) × StyleSheet
  | .edit e => s.attempt e
  | .setOrigin origin => (.ok none, s.withOrigin origin)
  | .editMedia index e =>
    match s.items[index]? with
    | some (.media r) =>
      ((r.attempt e).1.map (Option.map Rule.style), s.withItem index (.media (r.attempt e).2))
    | _ => (.ok none, s.withItems s.items)

/-- The rules that a run hands back, one after the other, and the sheet after it. -/
def run (s : StyleSheet) : List Call → List Rule × StyleSheet
  | [] => ([], s)
  | c :: calls =>
    let after := (s.call c).2.run calls
    match (s.call c).1 with
    | .ok (some r) => (r :: after.1, after.2)
    | _ => after

/-! ### One call -/

variable {s : StyleSheet}

theorem linked_make (number : Nat) (origin : Origin) : (make number origin).Linked :=
  fun _ h => absurd h List.not_mem_nil

theorem linked_withOrigin (s : StyleSheet) (origin : Origin) : (s.withOrigin origin).Linked := by
  intro r hr
  obtain ⟨old, -, rfl⟩ := List.mem_map.mp hr
  exact Rule.belongsTo_withLink _ old

namespace Linked

/-- A rule in the sheet may be replaced in place by one that belongs to the sheet as well. -/
theorem withItem (h : s.Linked) (index : Nat) {r : Rule} (hr : r.BelongsTo (some s.link)) :
    Linked (s.withItem index r) := by
  intro x hx
  obtain hx | rfl := List.mem_or_eq_of_mem_set hx
  · exact h x hx
  · exact hr

theorem attempt (h : s.Linked) (e : Edit Rule) : Linked (s.attempt e).2 := by
  intro r hr
  rw [link, Container.header_attempt]
  exact Container.forall_mem_attempt h (fun y _ => Rule.belongsTo_withLink _ y) r hr

/-- A media rule links what enters to the sheet that it belongs to itself. -/
theorem attempt_media {link : Option SheetLink} {r : MediaRule}
    (h : (Rule.media r).BelongsTo link) (e : Edit StyleRule) :
    (Rule.media (r.attempt e).2).BelongsTo link := by
  obtain ⟨hlink, hitems⟩ := h
  refine ⟨?_, Container.forall_mem_attempt hitems fun _ _ => hlink⟩
  rw [Rule.link, Container.header_attempt]
  exact hlink

/-- **One call keeps the links of a sheet right.** -/
theorem call (h : s.Linked) (c : Call) : (s.call c).2.Linked := by
  cases c with
  | edit e => exact h.attempt e
  | setOrigin origin => exact linked_withOrigin s origin
  | editMedia index e =>
    rw [StyleSheet.call]
    split
    · next r hr => exact h.withItem index (attempt_media (h _ (List.mem_of_getElem? hr)) e)
    · exact h

end Linked

/-- **What a call hands back belongs to no sheet**, whatever the sheet was like. -/
theorem belongsTo_none_of_call {c : Call} {r : Rule} (h : (s.call c).1 = .ok (some r)) :
    r.BelongsTo none := by
  cases c with
  | edit e =>
    obtain ⟨old, -, rfl⟩ := Container.mem_of_attempt_eq_ok h
    exact Rule.belongsTo_withLink none old
  | setOrigin origin => simp [StyleSheet.call] at h
  | editMedia index e =>
    rw [StyleSheet.call] at h
    split at h
    · next m _ =>
      cases hattempt : (m.attempt e).1 with
      | error failure => simp [hattempt, Except.map] at h
      | ok displaced =>
        obtain ⟨inner, rfl, rfl⟩ : ∃ inner, displaced = some inner ∧ Rule.style inner = r := by
          simpa [hattempt, Except.map] using h
        obtain ⟨old, -, rfl⟩ := Container.mem_of_attempt_eq_ok hattempt
        exact Rule.belongsTo_style_iff.mpr rfl
    · simp at h

/-! ### Runs -/

theorem Linked.run (h : s.Linked) (calls : List Call) :
    (s.run calls).2.Linked ∧ ∀ r ∈ (s.run calls).1, r.BelongsTo none := by
  induction calls generalizing s with
  | nil => exact ⟨h, fun _ hr => absurd hr List.not_mem_nil⟩
  | cons c calls ih =>
    obtain ⟨hlinked, hback⟩ := ih (h.call c)
    rw [StyleSheet.run]
    split
    · next r hr =>
      exact ⟨hlinked, List.forall_mem_cons.mpr ⟨belongsTo_none_of_call hr, hback⟩⟩
    · exact ⟨hlinked, hback⟩

/-- **Links are right after any run.** Every rule of the sheet, with the style rules in it, belongs
to the sheet, and whatever was handed back on the way belongs to none. -/
theorem linked_run_make (number : Nat) (origin : Origin) (calls : List Call) :
    ((make number origin).run calls).2.Linked ∧
      ∀ r ∈ ((make number origin).run calls).1, r.BelongsTo none :=
  (linked_make number origin).run calls

end StyleSheet

end CssModel
