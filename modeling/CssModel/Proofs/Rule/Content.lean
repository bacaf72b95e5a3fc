import CssModel.Proofs.Rule.Edits

/-!
# Remembered content

A container remembers its content once it has been asked for, and what it remembers covers the
containers in it, which remember theirs. So a change on one level has to be forgotten on every level
above. A container is up to date if neither it nor any container in it gives a content other than
the one that a new container gives, made of the same items or of items put together anew.

The levels are treated alike: `Renewable` gathers what a value has to satisfy so that containers of
such values satisfy it again.

Reading needs care. A container that is asked for its content in its place remembers it, while the
containers around it go on remembering what they did before: `askedAt` leaves them alone.

## Main definitions

* `CssModel.Renewable`: values that can be put together anew
* `CssModel.Container.askedAt`: asking a container, or one in it, for its content
* `CssModel.Container.IsCurrent`, `CssModel.Container.IsUpToDate`

## Main results

* `CssModel.Container.isUpToDate_iff`: what the content of a container has to be
* `CssModel.Container.isUpToDate_withItems`, `CssModel.Container.isUpToDate_attempt`,
  `CssModel.Container.IsUpToDate.askedAt`: changes, edits and questions
-/

namespace CssModel

open Digested (digest warm)

/-- Values that may hold containers, on any level. -/
class Renewable (α : Type) [Digested α] where
  /-- The same value, put together anew. -/
  renewed : α → α
  /-- The value after the container at the end of a path in it was asked for its content. -/
  askedAt : List Nat → α → α
  /-- Every container in the value gives the content that a new one would give. -/
  UpToDate : α → Prop
  askedAt_nil : ∀ a, askedAt [] a = warm a
  renewed_askedAt : ∀ path a, renewed (askedAt path a) = renewed a
  upToDate_askedAt : ∀ path {a}, UpToDate a → UpToDate (askedAt path a)
  upToDate_renewed : ∀ a, UpToDate (renewed a)
  digest_renewed : ∀ {a}, UpToDate a → digest (renewed a) = digest a

/-- In a value without containers there is nothing to renew. -/
instance {α : Type} [HasData α] : Renewable α where
  renewed := id
  askedAt _ := id
  UpToDate _ := True
  askedAt_nil _ := rfl
  renewed_askedAt _ _ := rfl
  upToDate_askedAt _ := id
  upToDate_renewed _ := trivial
  digest_renewed _ := rfl

namespace Renewable

variable {α : Type} [Digested α] [Renewable α] {a : α}

/-- Asking a value changes nothing that its digest shows. -/
theorem digest_askedAt (path : List Nat) (h : UpToDate a) : digest (askedAt path a) = digest a := by
  rw [← digest_renewed (upToDate_askedAt path h), renewed_askedAt, digest_renewed h]

theorem renewed_warm (a : α) : renewed (warm a) = renewed a := by
  rw [← askedAt_nil, renewed_askedAt]

end Renewable

open Renewable (renewed UpToDate)

/-- Entering a container changes nothing that the content of the container shows. -/
class EntersUnchanged (η α : Type) [Digested α] [Renewable α] [ItemPolicy η α] : Prop where
  upToDate_enter : ∀ (header : η) {a : α}, UpToDate a → UpToDate (ItemPolicy.enter header a) := by
    exact fun _ _ h => h
  digest_enter : ∀ (header : η) {a : α},
      UpToDate a → digest (ItemPolicy.enter header a) = digest a := by
    exact fun _ _ _ => rfl

namespace Container

/-! ### Asking -/

section Asking

variable {η α : Type} [Digested α] [Renewable α] {c : Container η α}

/-- The container after the container at the end of a path was asked for its content. -/
def askedAt (c : Container η α) : List Nat → Container η α
  | [] => c.warmed
  | index :: path => { c with items := c.items.modify index (Renewable.askedAt path) }

@[simp] theorem header_askedAt (path : List Nat) : (c.askedAt path).header = c.header := by
  cases path with
  | nil =>
    rw [askedAt, warmed]
    split <;> rfl
  | cons => rfl

/-- Items that were asked are the same once they are put together anew. -/
theorem map_renewed_askedAt (path : List Nat) :
    (c.askedAt path).items.map renewed = c.items.map renewed := by
  cases path with
  | nil =>
    rw [askedAt, warmed]
    split
    · rfl
    · rw [List.map_map]
      exact List.map_congr_left fun a _ => Renewable.renewed_warm a
  | cons index path =>
    refine List.ext_getElem? fun i => ?_
    simp only [askedAt, List.getElem?_map, List.getElem?_modify]
    cases c.items[i]? with
    | none => rfl
    | some a => by_cases hi : index = i <;> simp [hi, Renewable.renewed_askedAt]

/-- What holds of all items, and is not lost by asking, holds of all items afterwards. -/
theorem forall_mem_askedAt {P : α → Prop}
    (hasked : ∀ (path : List Nat) {a : α}, P a → P (Renewable.askedAt path a))
    (h : ∀ a ∈ c.items, P a) (path : List Nat) : ∀ a ∈ (c.askedAt path).items, P a := by
  intro a ha
  cases path with
  | nil =>
    rw [askedAt, warmed] at ha
    split at ha
    · exact h a ha
    · obtain ⟨old, hold, rfl⟩ := List.mem_map.mp ha
      rw [← Renewable.askedAt_nil]
      exact hasked [] (h old hold)
  | cons index path =>
    obtain ⟨i, hi⟩ := List.mem_iff_getElem?.mp ha
    rw [askedAt, List.getElem?_modify] at hi
    obtain ⟨old, hold, rfl⟩ := Option.map_eq_some_iff.mp hi
    have hmem := h old (List.mem_of_getElem? hold)
    split
    · exact hasked path hmem
    · exact hmem

/-- Asking leaves the content as it is: one that is remembered does not change, and otherwise the
items have the same digests. -/
theorem content_askedAt (h : ∀ a ∈ c.items, UpToDate a) (path : List Nat) :
    (c.askedAt path).content = c.content := by
  cases path with
  | nil =>
    rw [askedAt, warmed]
    split <;> rfl
  | cons index path =>
    rw [askedAt, content, content]
    cases c.remembered with
    | some _ => rfl
    | none =>
      refine congrArg Data.list (List.ext_getElem? fun i => ?_)
      simp only [List.getElem?_map, List.getElem?_modify]
      cases hi : c.items[i]? with
      | none => rfl
      | some a =>
        have ha := Renewable.digest_askedAt path (h a (List.mem_of_getElem? hi))
        by_cases hindex : index = i <;> simp [hindex, ha]

end Asking

/-! ### The content of a new container -/

section New

variable {η α : Type} [ItemPolicy η α]

/-- A container filled item by item holds the items as they entered, and remembers nothing. -/
theorem ofItems_eq (header : η) (items : List α) :
    ofItems header items = ⟨header, items.map (ItemPolicy.enter header), none⟩ := by
  have hpush : ∀ before : List α, items.foldl push ⟨header, before, none⟩ =
      ⟨header, before ++ items.map (ItemPolicy.enter header), none⟩ := by
    induction items with
    | nil => simp
    | cons item items ih =>
      intro before
      rw [List.foldl_cons, List.map_cons, ← List.singleton_append, ← List.append_assoc]
      exact ih (before ++ [ItemPolicy.enter header item])
  exact hpush []

variable [Digested α] [Renewable α]

/-- The content is that of a new container, whatever its header, to which the same items were
pushed, as they are or put together anew. -/
def IsCurrent (c : Container η α) : Prop :=
  ∀ header : η, c.content = (ofItems header c.items).content ∧
    c.content = (ofItems header (c.items.map renewed)).content

/-- The container is current, and all that is in it is up to date. -/
def IsUpToDate (c : Container η α) : Prop :=
  c.IsCurrent ∧ ∀ a ∈ c.items, UpToDate a

variable [EntersUnchanged η α] {c : Container η α} {items : List α}

theorem content_ofItems (header : η) (h : ∀ a ∈ items, UpToDate a) :
    (ofItems header items).content = .list (items.map fun a => digest (renewed a)) := by
  rw [ofItems_eq, content, List.map_map]
  refine congrArg Data.list (List.map_congr_left fun a ha => ?_)
  rw [Function.comp, EntersUnchanged.digest_enter header (h a ha),
    Renewable.digest_renewed (h a ha)]

/-- **What the content of a container has to be**: the digests of the items, put together anew. -/
theorem isUpToDate_iff :
    c.IsUpToDate ↔
      c.content = .list (c.items.map fun a => digest (renewed a)) ∧ ∀ a ∈ c.items, UpToDate a := by
  have hrenewed (header : η) : (ofItems header (c.items.map renewed)).content =
      .list (c.items.map fun a => digest (renewed a)) := by
    rw [content_ofItems header (by simpa using fun a _ => Renewable.upToDate_renewed a),
      List.map_map]
    refine congrArg Data.list (List.map_congr_left fun a _ => ?_)
    exact Renewable.digest_renewed (Renewable.upToDate_renewed a)
  constructor
  · rintro ⟨hcurrent, hitems⟩
    exact ⟨(hcurrent c.header).2.trans (hrenewed c.header), hitems⟩
  · rintro ⟨hcontent, hitems⟩
    refine ⟨fun header => ⟨?_, hcontent.trans (hrenewed header).symm⟩, hitems⟩
    exact hcontent.trans (content_ofItems header hitems).symm

/-! ### What keeps a container up to date -/

/-- A container that remembers nothing is up to date as soon as its items are. -/
theorem isUpToDate_withItems (h : ∀ a ∈ items, UpToDate a) : (c.withItems items).IsUpToDate := by
  refine isUpToDate_iff.mpr ⟨?_, h⟩
  exact congrArg Data.list
    (List.map_congr_left fun a ha => (Renewable.digest_renewed (h a ha)).symm)

theorem isUpToDate_ofItems (header : η) (h : ∀ a ∈ items, UpToDate a) :
    (ofItems header items).IsUpToDate := by
  rw [ofItems_eq]
  refine isUpToDate_withItems (c := empty header) fun a ha => ?_
  obtain ⟨old, hold, rfl⟩ := List.mem_map.mp ha
  exact EntersUnchanged.upToDate_enter header (h old hold)

/-- An edit that fails changes nothing, and one that succeeds leaves nothing remembered. -/
theorem isUpToDate_attempt (h : c.IsUpToDate) {e : Edit α} (he : ∀ a ∈ e.incoming, UpToDate a) :
    (c.attempt e).2.IsUpToDate := by
  have hitems := forall_mem_attempt h.2 fun a ha =>
    EntersUnchanged.upToDate_enter c.header (he a ha)
  obtain ⟨failure, hcases⟩ | ⟨edited, -, hcases⟩ := attempt_cases c e
  · rw [hcases]
    exact h
  · rw [hcases] at hitems ⊢
    exact isUpToDate_withItems hitems

/-- The header is no part of the content. -/
theorem IsUpToDate.withHeader (h : c.IsUpToDate) (header : η) :
    IsUpToDate { c with header } := by
  obtain ⟨hcontent, hitems⟩ := isUpToDate_iff.mp h
  exact isUpToDate_iff.mpr ⟨hcontent, hitems⟩

theorem IsUpToDate.askedAt (h : c.IsUpToDate) (path : List Nat) : (c.askedAt path).IsUpToDate := by
  have hitems := forall_mem_askedAt (fun path {_} => Renewable.upToDate_askedAt path) h.2 path
  have hdigests := congrArg (List.map digest) (map_renewed_askedAt (c := c) path)
  rw [List.map_map, List.map_map] at hdigests
  refine isUpToDate_iff.mpr ⟨?_, hitems⟩
  rw [content_askedAt h.2 path, (isUpToDate_iff.mp h).1]
  exact congrArg Data.list hdigests.symm

/-- **A level on top of renewable values is renewable.** -/
instance [HasData η] : Renewable (Container η α) where
  renewed c := ofItems c.header (c.items.map renewed)
  askedAt path c := c.askedAt path
  UpToDate := IsUpToDate
  askedAt_nil _ := rfl
  renewed_askedAt path c := by rw [map_renewed_askedAt, header_askedAt]
  upToDate_askedAt path _ h := h.askedAt path
  upToDate_renewed c :=
    isUpToDate_ofItems c.header (by simpa using fun a _ => Renewable.upToDate_renewed a)
  digest_renewed {c} h := by
    have hcontent := (h.1 c.header).2
    rw [ofItems_eq] at hcontent ⊢
    exact congrArg (fun content => Data.list [digest c.header, content]) hcontent.symm

end New

end Container

end CssModel
