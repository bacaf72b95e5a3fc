import CssModel.Data.Selector
import CssModel.Selector.Equality
import Mathlib.Data.List.Induction

/-!
# The place of the pseudo-element

A compound selector holds the place of its pseudo-element. Pushing a part writes the place down at
once, before the part is there; removing a part looks for it anew among those that are left. Several
pseudo-elements may have been pushed, and any of them may be removed again. Nevertheless the place
is always that of the last one there is. So it follows from the parts, and although it is compared
and hashed with them, nothing can be seen in it of how a selector came about.

As with containers, an edit is performed here step by step, in a state that outlives a failure,
since `CompoundSelector.apply` gives no selector at all when it fails.

## Main definitions

* `CssModel.CompoundSelector.Made`: what edits of compound selectors lead to
* `CssModel.CompoundSelector.perform`, `CssModel.CompoundSelector.run`: edits, step by step
* `CssModel.CompoundSelector.hashed`: what is hashed

## Main results

* `CssModel.CompoundSelector.Made.pseudoElementAt_eq`, `CssModel.CompoundSelector.Made.ext`
* `CssModel.CompoundSelector.run_perform`
* `CssModel.CompoundSelector.Reached.last_pseudoElement`
-/

namespace CssModel

/-! ### What is hashed -/

theorem form_place_injective :
    Function.Injective (HasData.form .hashing : Option Nat → Data) := by
  rintro (_ | i) (_ | j) h
  · rfl
  · cases h
  · cases h
  · exact congrArg some (Int.ofNat.inj (Data.int.inj h))

namespace CompoundSelector

/-- What is hashed of a compound selector. -/
def hashed (s : CompoundSelector) : Data :=
  s.form .hashing

/-- The place is part of what is hashed. -/
theorem pseudoElementAt_eq_of_hashed_eq {s t : CompoundSelector} (h : s.hashed = t.hashed) :
    s.pseudoElementAt = t.pseudoElementAt := by
  have hfields := Data.record.inj h
  simp only [placeFields, List.cons_append, List.nil_append, List.cons.injEq, Prod.mk.injEq]
    at hfields
  exact form_place_injective hfields.2.2.1.2

/-! ### The last pseudo-element -/

theorem lastPseudoElement?_concat (parts : List SimpleSelector) (part : SimpleSelector) :
    lastPseudoElement? (parts ++ [part]) =
      if part.isPseudoElement then some parts.length else lastPseudoElement? parts := by
  rw [lastPseudoElement?, List.reverse_append, List.reverse_singleton, List.singleton_append,
    List.findIdx?_cons, List.length_append, List.length_singleton]
  split
  · rfl
  · rw [lastPseudoElement?, Option.map_map]
    refine congrArg (Option.map · _) (funext fun i => ?_)
    simp only [Function.comp]
    omega

theorem lt_length_of_lastPseudoElement? {parts : List SimpleSelector} {i : Nat}
    (h : lastPseudoElement? parts = some i) : i < parts.length := by
  obtain ⟨j, hj, rfl⟩ := Option.map_eq_some_iff.mp h
  have hlt := (List.findIdx?_eq_some_iff_getElem.mp hj).1
  rw [List.length_reverse] at hlt
  omega

/-- The part at the place is the last pseudo-element. -/
theorem pseudoElement?_at_last (parts : List SimpleSelector) :
    ((lastPseudoElement? parts).bind fun i => (parts[i]?).bind SimpleSelector.pseudoElement?) =
      (parts.filterMap SimpleSelector.pseudoElement?).getLast? := by
  induction parts using List.reverseRecOn with
  | nil => rfl
  | append_singleton parts part ih =>
    rw [lastPseudoElement?_concat, List.filterMap_append, List.getLast?_append]
    cases hpart : part.pseudoElement? with
    | some p => simp [SimpleSelector.isPseudoElement, hpart]
    | none =>
      have hbefore : ∀ i, lastPseudoElement? parts = some i → (parts ++ [part])[i]? = parts[i]? :=
        fun i hi => List.getElem?_append_left (lt_length_of_lastPseudoElement? hi)
      rw [if_neg (by simp [SimpleSelector.isPseudoElement, hpart])]
      cases hplace : lastPseudoElement? parts with
      | none => simpa [hplace, hpart] using ih
      | some i => simpa [hplace, hpart, hbefore i hplace] using ih

/-! ### Edits -/

/-- The compound selectors that edits lead to. -/
inductive Made : CompoundSelector → Prop
  | empty (combinator : Option Combinator) : Made (.empty combinator)
  | apply {s s' : CompoundSelector} {e : Edit} {removed : Option SimpleSelector} (hs : Made s)
      (h : s.apply e = .ok (removed, s')) : Made s'

/-- **The place of the pseudo-element follows from the parts.** -/
theorem Made.pseudoElementAt_eq {s : CompoundSelector} (h : s.Made) :
    s.pseudoElementAt = lastPseudoElement? s.parts := by
  induction h with
  | empty combinator => rfl
  | @apply s s' e removed hs h ih =>
    cases e with
    | push part =>
      obtain ⟨-, rfl⟩ : none = removed ∧ s.push part = s' := by
        simpa [CompoundSelector.apply] using h
      rw [push, lastPseudoElement?_concat, ih]
    | remove index =>
      rw [CompoundSelector.apply, remove] at h
      cases hpart : s.parts[index]? with
      | none => simp [hpart, Except.map] at h
      | some part =>
        rw [hpart] at h
        cases h
        rfl
    | setCombinator combinator =>
      obtain ⟨-, rfl⟩ : none = removed ∧ s.withCombinator combinator = s' := by
        simpa [CompoundSelector.apply] using h
      exact ih

/-- Made selectors with the same combinator and the same parts are the same. -/
theorem Made.ext {s s' : CompoundSelector} (h : s.Made) (h' : s'.Made)
    (hcombinator : s.combinator = s'.combinator) (hparts : s.parts = s'.parts) : s = s' := by
  have hplace : s.pseudoElementAt = s'.pseudoElementAt := by
    rw [h.pseudoElementAt_eq, h'.pseudoElementAt_eq, hparts]
  cases s
  cases s'
  cases hcombinator
  cases hparts
  cases hplace
  rfl

theorem foldl_push (parts : List SimpleSelector) {s : CompoundSelector} (h : s.Made) :
    (parts.foldl push s).Made ∧ (parts.foldl push s).combinator = s.combinator ∧
      (parts.foldl push s).parts = s.parts ++ parts := by
  induction parts generalizing s with
  | nil => exact ⟨h, rfl, (List.append_nil _).symm⟩
  | cons part parts ih =>
    obtain ⟨hmade, hcombinator, hparts⟩ := ih (.apply (e := .push part) h rfl)
    exact ⟨hmade, hcombinator, hparts.trans (by simp [push])⟩

theorem parts_ofParts (combinator : Option Combinator) (parts : List SimpleSelector) :
    (ofParts combinator parts).parts = parts :=
  (foldl_push parts (.empty combinator)).2.2

/-! ### Step by step -/

/-- An edit that may fail, and the selector after it; a failure leaves it as it is. -/
def attempt (s : CompoundSelector) (e : Edit) :
    Except Failure (Option SimpleSelector) × CompoundSelector :=
  match s.apply e with
  | .ok (removed, after) => (.ok removed, after)
  | .error failure => (.error failure, s)

/-- An edit, step by step; the steps before a failure stay done. -/
def perform : Edit → ExceptT Failure (StateM CompoundSelector) (Option SimpleSelector)
  | .push part => do
    if part.isPseudoElement then
      modify fun s => { s with pseudoElementAt := some s.parts.length }
    modify fun s => { s with parts := s.parts ++ [part] }
    return none
  | .remove index => do
    let parts := (← get).parts
    if parts.length ≤ index then
      throw (.invalidArgument (.partIndex index parts.length))
    modify fun s => { s with parts := s.parts.eraseIdx index }
    modify fun s => { s with pseudoElementAt := lastPseudoElement? s.parts }
    return parts[index]?
  | .setCombinator combinator => do
    modify fun s => { s with combinator }
    return none

/-- Edits one after the other, each of them step by step. -/
def run (s : CompoundSelector) (edits : List Edit) : CompoundSelector :=
  edits.foldl (fun s e => ((perform e).run.run s).2) s

theorem run_perform_remove (s : CompoundSelector) (index : Nat) :
    (perform (.remove index)).run.run s =
      if s.parts.length ≤ index then
        (.error (.invalidArgument (.partIndex index s.parts.length)), s)
      else (.ok s.parts[index]?, { s with
        parts := s.parts.eraseIdx index
        pseudoElementAt := lastPseudoElement? (s.parts.eraseIdx index) }) := by
  change (ite (s.parts.length ≤ index) (throw _) _ :
    ExceptT Failure (StateM CompoundSelector) (Option SimpleSelector)).run.run s = _
  split <;> rfl

/-- **Step by step an edit comes to the same**: a failure leaves the selector as it was. -/
theorem run_perform (s : CompoundSelector) (e : Edit) : (perform e).run.run s = s.attempt e := by
  cases e with
  | push part =>
    rw [attempt, CompoundSelector.apply, push, perform]
    split <;> rfl
  | remove index =>
    rw [run_perform_remove, attempt, CompoundSelector.apply, remove]
    split
    · next hle =>
      rw [List.getElem?_eq_none hle]
      rfl
    · next hlt =>
      rw [List.getElem?_eq_getElem (Nat.lt_of_not_le hlt)]
      rfl
  | setCombinator combinator => rfl

theorem Made.attempt {s : CompoundSelector} (h : s.Made) (e : Edit) : (s.attempt e).2.Made := by
  rw [CompoundSelector.attempt]
  cases hresult : s.apply e with
  | error failure => exact h
  | ok result => exact h.apply hresult

theorem Made.run {s : CompoundSelector} (h : s.Made) (edits : List Edit) : (s.run edits).Made := by
  induction edits generalizing s with
  | nil => exact h
  | cons e edits ih =>
    have hafter : ((perform e).run.run s).2.Made := by
      rw [run_perform]
      exact h.attempt e
    exact ih hafter

/-- **The pseudo-element of a selector is the last one it has.** -/
theorem Made.pseudoElement?_eq {s : CompoundSelector} (h : s.Made) :
    s.pseudoElement? = (s.parts.filterMap SimpleSelector.pseudoElement?).getLast? := by
  rw [pseudoElement?, h.pseudoElementAt_eq, pseudoElement?_at_last]

/-! ### Runs -/

/-- Some parts, one by one, and then any edits. -/
def Reached (s : CompoundSelector) : Prop :=
  ∃ combinator parts edits, s = (ofParts combinator parts).run edits

theorem Reached.made {s : CompoundSelector} (h : s.Reached) : s.Made := by
  obtain ⟨combinator, parts, edits, rfl⟩ := h
  exact (foldl_push parts (.empty combinator)).1.run edits

/-- A part is removed from between the others, which keep their order. -/
theorem run_perform_remove_append {s : CompoundSelector} {before after : List SimpleSelector}
    {part : SimpleSelector} (h : s.parts = before ++ part :: after) :
    (perform (.remove before.length)).run.run s =
      (.ok (some part), { s with
        parts := before ++ after
        pseudoElementAt := lastPseudoElement? (before ++ after) }) := by
  have hlt : ¬ s.parts.length ≤ before.length := by simp [h]
  rw [run_perform_remove, if_neg hlt, h, List.getElem?_append_right (Nat.le_refl _),
    List.eraseIdx_append_of_length_le (Nat.le_refl _), Nat.sub_self]
  rfl

/-- **The pseudo-element of a selector is the last one it has**, whatever parts it was made of and
whatever edits followed. Removing a part fails exactly where no part is, and leaves no trace then;
otherwise the part is handed back, and the others stay in order. Selectors that come to the same
combinator and the same parts are the same and are hashed alike, although the place of the
pseudo-element is compared and hashed with them. -/
theorem Reached.last_pseudoElement {s : CompoundSelector} (h : s.Reached) :
    s.pseudoElement? = (s.parts.filterMap SimpleSelector.pseudoElement?).getLast? ∧
      (∀ index, s.parts.length ≤ index → (perform (.remove index)).run.run s =
        (.error (.invalidArgument (.partIndex index s.parts.length)), s)) ∧
      (∀ before part after, s.parts = before ++ part :: after → ∃ rest,
        (perform (.remove before.length)).run.run s = (.ok (some part), rest) ∧
          rest.parts = before ++ after ∧ rest.combinator = s.combinator) ∧
      (∀ t : CompoundSelector, t.Reached → s.combinator = t.combinator → s.parts = t.parts →
        s = t ∧ s.hashed = t.hashed) ∧
      ∀ t : CompoundSelector, s.pseudoElementAt ≠ t.pseudoElementAt →
        s ≠ t ∧ s.hashed ≠ t.hashed := by
  refine ⟨h.made.pseudoElement?_eq, ?_, ?_, ?_, ?_⟩
  · intro index hle
    rw [run_perform_remove, if_pos hle]
  · intro before part after hparts
    exact ⟨_, run_perform_remove_append hparts, rfl, rfl⟩
  · intro t ht hcombinator hparts
    have hsame : s = t := h.made.ext ht.made hcombinator hparts
    exact ⟨hsame, congrArg hashed hsame⟩
  · intro t hplace
    exact ⟨fun hsame => hplace (congrArg CompoundOf.pseudoElementAt hsame),
      fun hhashed => hplace (pseudoElementAt_eq_of_hashed_eq hhashed)⟩

/-- A selector that lost the later one of two pseudo-elements is the same as one that lost a part in
front of its only one. -/
theorem Reached.last_pseudoElement_before :
    let before := SimpleSelector.pseudoElement ⟨some .before, "before", none⟩
    let after := SimpleSelector.pseudoElement ⟨some .after, "after", none⟩
    let a := SimpleSelector.className "a"
    let s := (ofParts none [before, a]).run
      [.push after, .remove 2, .remove 7, .setCombinator (some .child)]
    let t := (ofParts (some .child) [a, before, a]).run [.remove 0]
    s.Reached ∧ t.Reached ∧ s.pseudoElement? = some ⟨some .before, "before", none⟩ ∧
      (perform (.remove 7)).run.run s =
        (.error (.invalidArgument (.partIndex 7 s.parts.length)), s) ∧
      (∃ rest, (perform (.remove 1)).run.run s = (.ok (some a), rest) ∧
        rest.parts = [before] ∧ rest.combinator = s.combinator) ∧
      s.parts = t.parts ∧ s = t ∧ s.hashed = t.hashed := by
  intro before after a s t
  have hs : s.Reached := ⟨_, _, _, rfl⟩
  have ht : t.Reached := ⟨_, _, _, rfl⟩
  have hparts : s.parts = [before] ++ a :: [] := rfl
  obtain ⟨hlast, hout, hin, hsame, -⟩ := hs.last_pseudoElement
  exact ⟨hs, ht, hlast, hout 7 (by rw [hparts]; decide), hin _ _ _ hparts, rfl,
    hsame t ht rfl rfl⟩

end CompoundSelector

end CssModel
