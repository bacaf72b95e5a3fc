import CssModel.Rule.Container
import Mathlib.Data.List.Basic

/-!
# What an edit does

All containers share one set of edits. Here it is said once what an edit can do: either it fails and
leaves the container as it is, or it does to the items what it would do to a plain list, with the
items that it brings changed as they enter and the one that it displaces changed as it leaves.
Whatever holds of all items of a container is kept by every edit for that reason alone.

## Main definitions

* `CssModel.Edit.incoming`, `CssModel.Edit.map`: the items that an edit brings
* `CssModel.Container.attempt`: an edit that may fail, and the container after it

## Main results

* `CssModel.Container.toOption_apply`: an edit of a container is an edit of its list
* `CssModel.Container.attempt_cases`: all that an attempt can come to
* `CssModel.Container.forall_mem_attempt`, `CssModel.Container.mem_of_attempt_eq_ok`
-/

namespace CssModel

namespace Edit

variable {α β : Type}

/-- The items that an edit brings. -/
def incoming : Edit α → List α
  | .push item => [item]
  | .insert _ item => [item]
  | .set _ item => [item]
  | .remove _ => []
  | .replaceAll items => items
  | .unlock => []

/-- The edit that brings other items to the same places. -/
def map (f : α → β) : Edit α → Edit β
  | .push item => .push (f item)
  | .insert index item => .insert index (f item)
  | .set index item => .set index (f item)
  | .remove index => .remove index
  | .replaceAll items => .replaceAll (items.map f)
  | .unlock => .unlock

@[simp] theorem incoming_map (f : α → β) (e : Edit α) : (e.map f).incoming = e.incoming.map f := by
  cases e <;> rfl

variable {items : List α} {e : Edit α} {edited : Edited α (List α)} {x : α}

/-- Every item of an edited list was there before or came with the edit. -/
theorem mem_or_mem_incoming_of_onList (h : e.onList items = some edited)
    (hx : x ∈ edited.result) : x ∈ items ∨ x ∈ e.incoming := by
  cases e with
  | push item =>
    obtain rfl := Option.some.inj h
    simpa [incoming] using hx
  | insert index item =>
    obtain ⟨hle, rfl⟩ : index ≤ items.length ∧ _ = edited := by simpa [onList] using h
    exact ((List.mem_insertIdx hle).mp hx).symm.imp id List.mem_singleton.mpr
  | set index item =>
    obtain ⟨old, -, rfl⟩ := Option.map_eq_some_iff.mp h
    exact (List.mem_or_eq_of_mem_set hx).imp id List.mem_singleton.mpr
  | remove index =>
    obtain ⟨old, -, rfl⟩ := Option.map_eq_some_iff.mp h
    exact .inl (List.mem_of_mem_eraseIdx hx)
  | replaceAll new =>
    obtain rfl := Option.some.inj h
    exact .inr hx
  | unlock =>
    obtain rfl := Option.some.inj h
    exact absurd hx List.not_mem_nil

/-- The item that has to leave was there before. -/
theorem mem_of_onList_displaced (h : e.onList items = some edited)
    (hx : edited.displaced = some x) : x ∈ items := by
  cases e with
  | push | replaceAll | unlock =>
    obtain rfl := Option.some.inj h
    exact absurd hx (by simp)
  | insert index item =>
    obtain ⟨-, rfl⟩ : index ≤ items.length ∧ _ = edited := by simpa [onList] using h
    exact absurd hx (by simp)
  | set | remove =>
    obtain ⟨old, hold, rfl⟩ := Option.map_eq_some_iff.mp h
    obtain rfl := Option.some.inj hx
    exact List.mem_of_getElem? hold

end Edit

namespace Container

variable {η α : Type} [ItemPolicy η α]

/-- An edit that may fail, and the container after it; a failure leaves it as it is. -/
def attempt (c : Container η α) (e : Edit α) : Except Failure (Option α) × Container η α :=
  match c.apply e with
  | .ok edited => (.ok edited.displaced, edited.result)
  | .error failure => (.error failure, c)

variable {c : Container η α} {e : Edit α} {x : α}

/-- **An edit of a container is an edit of its list of items.** -/
theorem toOption_apply (c : Container η α) (e : Edit α) :
    (c.apply e).toOption =
      ((e.map c.entering).onList c.items).map fun edited =>
        ⟨edited.displaced.map (ItemPolicy.leave c.header), c.withItems edited.result⟩ := by
  cases e with
  | push | replaceAll | unlock => rfl
  | insert index item =>
    by_cases hle : index ≤ c.items.length <;>
      simp [apply, insert, Edit.map, Edit.onList, length, hle, Except.map, Except.toOption]
  | set index item =>
    cases h : c.items[index]? <;>
      simp [apply, set, Edit.map, Edit.onList, h, Except.map, Except.toOption]
  | remove index =>
    cases h : c.items[index]? <;>
      simp [apply, remove, Edit.map, Edit.onList, h, Except.map, Except.toOption]

/-- **All that an attempt can come to.** -/
theorem attempt_cases (c : Container η α) (e : Edit α) :
    (∃ failure, c.attempt e = (.error failure, c)) ∨
      ∃ edited, (e.map c.entering).onList c.items = some edited ∧
        c.attempt e =
          (.ok (edited.displaced.map (ItemPolicy.leave c.header)), c.withItems edited.result) := by
  have happly := toOption_apply c e
  cases h : c.apply e with
  | error failure => exact .inl ⟨failure, by rw [attempt, h]⟩
  | ok edited =>
    rw [h] at happly
    obtain ⟨onItems, hitems, rfl⟩ := Option.map_eq_some_iff.mp happly.symm
    exact .inr ⟨onItems, hitems, by rw [attempt, h]⟩

@[simp] theorem header_attempt : (c.attempt e).2.header = c.header := by
  obtain ⟨failure, h⟩ | ⟨edited, -, h⟩ := attempt_cases c e
  · rw [h]
  · rw [h]
    rfl

/-- What holds of all items, and of what comes with the edit once it has entered, holds of all items
afterwards. -/
theorem forall_mem_attempt {P : α → Prop} (hold : ∀ y ∈ c.items, P y)
    (hnew : ∀ y ∈ e.incoming, P (c.entering y)) : ∀ y ∈ (c.attempt e).2.items, P y := by
  obtain ⟨failure, h⟩ | ⟨edited, hedited, h⟩ := attempt_cases c e
  · rw [h]
    exact hold
  · rw [h]
    intro y hy
    obtain hy | hy := Edit.mem_or_mem_incoming_of_onList hedited hy
    · exact hold y hy
    · obtain ⟨z, hz, rfl⟩ : ∃ z ∈ e.incoming, c.entering z = y := by simpa using hy
      exact hnew z hz

/-- What an attempt hands back is an item of the container, as it leaves. -/
theorem mem_of_attempt_eq_ok (h : (c.attempt e).1 = .ok (some x)) :
    ∃ y ∈ c.items, x = ItemPolicy.leave c.header y := by
  obtain ⟨failure, hcases⟩ | ⟨edited, hedited, hcases⟩ := attempt_cases c e
  · rw [hcases] at h
    exact absurd h (by simp)
  · rw [hcases] at h
    obtain ⟨y, hy, rfl⟩ := Option.map_eq_some_iff.mp (Except.ok.inj h)
    exact ⟨y, Edit.mem_of_onList_displaced hedited hy, rfl⟩

end Container

end CssModel
